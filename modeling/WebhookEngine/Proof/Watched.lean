import WebhookEngine.Proof.History

set_option autoImplicit false

/-!
# Executions under a monitor

A monitor that every program keeps to on its own is kept to by every execution of the system, as long
as the answers it gets are the ones the monitor expects.

* `Remote`: the commands on Redis; the lock, the breaker and the bucket make no other calls.
* `step_all`: the rule for the executions of a state, alive or not;
* **`reachable_watched`**: what is left of their programs keeps to the monitor;
* `reachable_kept`: what permitted calls with expected answers keep is true of what a monitor knows of
  them.
-/

namespace WebhookEngine

open EffectProg TransitionSystem

variable {env : Env} {C : State → Label → Prop} {s s' : State} {l : Label} {t : Tid} {th : Thread}
  {M : Type}

/-! ## Commands on Redis -/

/-- A command on Redis. -/
def Remote : Eff → Prop
  | .redis _ => True
  | _ => False

theorem remote_recordFailure (ep : EndpointId) : (recordFailure env ep).Uses Remote := by
  refine (uses_redis trivial).bind fun fails => (uses_redis trivial).bind fun _ => ?_
  split
  · exact (uses_redis trivial).bind fun _ => trivial
  · trivial

theorem remote_checkState (ep : EndpointId) : (checkState env ep).Uses Remote := by
  refine (uses_redis trivial).bind fun isOpen => ?_
  split
  · trivial
  · refine (uses_redis trivial).bind fun fails => ?_
    split
    · exact (uses_redis trivial).bind fun _ => trivial
    · trivial

theorem remote_onProbeResult (ep : EndpointId) (ok : Bool) :
    (onProbeResult env ep ok).Uses Remote := by
  unfold onProbeResult
  split
  · exact (uses_redis trivial).bind fun _ => trivial
  · exact (uses_redis trivial).bind fun _ => (uses_redis trivial).bind fun _ => trivial

theorem remote_tryAcquire (ep : EndpointId) : (tryAcquire env ep).Uses Remote :=
  (uses_redis trivial).bind fun _ => trivial

theorem remote_releaseBucketToken (ep : EndpointId) :
    (releaseBucketToken env ep).Uses Remote := by
  refine (uses_redis trivial).bind fun current => ?_
  split
  · exact (uses_redis trivial).bind fun _ => (uses_redis trivial).bind fun _ => trivial
  · exact (uses_redis trivial).bind fun _ => trivial

theorem remote_noteOutcome (p : Pickup) (o : AttemptOutcome) :
    (noteOutcome env p o).Uses Remote := by
  unfold noteOutcome
  split
  · exact remote_onProbeResult _ _
  · split
    · exact remote_recordFailure _
    · trivial

theorem remote_cleanup (job : JobRef) (t : Tid) (held : Option EndpointId) :
    (cleanup env job t held).Uses Remote := by
  refine Prog.Uses.bind ?_ fun _ => (uses_redis trivial).bind fun _ => trivial
  cases held with
  | none => trivial
  | some ep => exact remote_releaseBucketToken ep

/-! ## The rules -/

/-- **The rule for executions, alive or not.** What is true of new executions, is kept by the calls they
make and says nothing about what they do not do themselves is true of all. -/
theorem step_all {P : Tid → Thread → Prop} (h : step env s l = some s')
    (hI : ∀ (t : Tid) th, s.threads[t]? = some th → P t th)
    (hkept : ∀ {t th th'}, th'.kind = th.kind → th'.prog = th.prog → th'.trace = th.trace → P t th →
      P t th')
    (hfresh : ∀ t k, P t { kind := k, prog := program env t k })
    (hcall : ∀ {t c th e r k w m}, l = .op t c → Advance s s' t c th e r k w m → P t th →
      P t (th.after e r k m)) : ∀ (t : Tid) th', s'.threads[t]? = some th' → P t th' := by
  intro u th' hu
  by_cases hop : ∃ t c, l = .op t c
  · obtain ⟨t, c, rfl⟩ := hop
    obtain ⟨th, e, r, k, w, m, hadv⟩ := stepOp_cases h
    by_cases hut : u = t
    · subst hut
      rw [(State.live?_eq_some.mp hadv.live?_self).1] at hu
      cases hu
      exact hcall rfl hadv (hI u th (State.live?_eq_some.mp hadv.live).1)
    · rw [hadv.state, List.getElem?_set_ne (Ne.symm hut)] at hu
      exact hI u th' hu
  · cases step_stems h (fun t c hl => hop ⟨t, c, hl⟩) hu with
    | kept hold hkind hprog htrace => exact hkept hkind hprog htrace (hI u _ hold)
    | fresh hlen hth =>
      subst hth
      exact hfresh u _

/-- The state of the monitor after the calls of the execution. -/
abbrev Thread.watched (mon : Monitor Eff Eff.Resp M) (m₀ : M) (th : Thread) : M :=
  mon.after m₀ th.trace

section Rule

variable {P : Kind → Prop} {mon : Tid → Kind → Monitor Eff Eff.Resp M} {m₀ : M}
  {Q : Tid → Kind → M → Except Err Reply → Prop}

/-- **The rule for executions under a monitor.** -/
theorem reachable_watched
    (hprog : ∀ t k, P k → Prog.Safe (mon t k) m₀ (program env t k) (Q t k))
    (hexp : ∀ {s s' t c th e r k w m}, Reachable env C s → C s (.op t c) → P th.kind →
      Advance s s' t c th e r k w m → (mon t th.kind).permits (th.watched (mon t th.kind) m₀) e →
        (mon t th.kind).expects (th.watched (mon t th.kind) m₀) e r)
    (h : Reachable env C s) : ∀ (t : Tid) th, s.threads[t]? = some th → P th.kind →
      Prog.Safe (mon t th.kind) (th.watched (mon t th.kind) m₀) th.prog (Q t th.kind) := by
  refine h.along (I := fun s => ∀ (t : Tid) th, s.threads[t]? = some th → P th.kind →
    Prog.Safe (mon t th.kind) (th.watched (mon t th.kind) m₀) th.prog (Q t th.kind))
    (fun t th ht => by cases ht) ?_
  intro s l s' hr hI hC hstep
  refine step_all hstep hI ?_ ?_ ?_
  · intro u th th' hkind hprog' htrace hold hP
    unfold Thread.watched
    rw [hkind] at hP ⊢
    rw [htrace, hprog']
    exact hold hP
  · intro u k hP
    exact hprog u k hP
  · intro t c th e r k w m hl hadv hold hP
    have hsafe := hold hP
    rw [hadv.prog] at hsafe
    exact hsafe.2 r (hexp hr (hl ▸ hC) hP hadv hsafe.1)

/-- **The rule for what a monitor knows.** -/
theorem reachable_kept {J : M → Prop}
    (hprog : ∀ t k, P k → Prog.Safe (mon t k) m₀ (program env t k) (Q t k))
    (hexp : ∀ {s s' t c th e r k w m}, Reachable env C s → C s (.op t c) → P th.kind →
      Advance s s' t c th e r k w m → (mon t th.kind).permits (th.watched (mon t th.kind) m₀) e →
        (mon t th.kind).expects (th.watched (mon t th.kind) m₀) e r)
    (h0 : J m₀) (hJ : ∀ t k m e r, P k → (mon t k).permits m e → (mon t k).expects m e r → J m →
      J ((mon t k).next m e r))
    (h : Reachable env C s) : ∀ (t : Tid) th, s.threads[t]? = some th → P th.kind →
      J (th.watched (mon t th.kind) m₀) := by
  refine h.along (I := fun s => ∀ (t : Tid) th, s.threads[t]? = some th → P th.kind →
    J (th.watched (mon t th.kind) m₀)) (fun t th ht => by cases ht) ?_
  intro s l s' hr hI hC hstep
  refine step_all hstep hI ?_ ?_ ?_
  · intro u th th' hkind _ htrace hold hP
    unfold Thread.watched
    rw [hkind] at hP ⊢
    rw [htrace]
    exact hold hP
  · intro u k _
    exact h0
  · intro t c th e r k w m hl hadv hold hP
    have hsafe := reachable_watched hprog hexp hr t th (State.live?_eq_some.mp hadv.live).1 hP
    rw [hadv.prog] at hsafe
    have hexpected : (mon t th.kind).expects (th.watched (mon t th.kind) m₀) e r :=
      hexp hr (hl ▸ hC) hP hadv hsafe.1
    exact hJ t th.kind _ e r hP hsafe.1 hexpected (hold hP)

end Rule

end WebhookEngine
