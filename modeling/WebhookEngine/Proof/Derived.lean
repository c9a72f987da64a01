import WebhookEngine.Proof.Outcomes
import WebhookEngine.Proof.Pipeline

set_option autoImplicit false

/-!
# What a processor makes of the row it has read

The time it stores for the next attempt comes from the number of the attempt, the request it sends from
the row and the clock.

* `Drawn`, `outbound`: the time and the request.
* `derivations`: the monitor. A call that stores a time or sends a request has them from the row.
* **`safe_derivations`**: every processor keeps to it.
* `Deriving`, `reachable_deriving`: so do all processors of the system, in what they have written.
* `reachable_sent`: the request a processor has sent is that of the row it has read.
-/

namespace WebhookEngine

open EffectProg TransitionSystem

variable {env : Env} {s s' : State} {l : Label} {t : Tid} {th th' : Thread} {job : JobRef}

/-! ## Times and requests -/

/-- The time is `webhookBackoff` of the attempt after some moment. -/
def Drawn (env : Env) (n : ℕ) (time : Option Time) : Prop :=
  ∃ τ k, k < 2 ^ 53 ∧ time = some (τ + webhookBackoff env n k)

theorem webhookBackoff_mem (n : ℕ) {k : ℕ} (hk : k < 2 ^ 53) :
    backoffBase env n / 2 ≤ webhookBackoff env n k ∧ webhookBackoff env n k ≤ backoffBase env n := by
  unfold webhookBackoff
  generalize backoffBase env n = b
  have hlow : b * 2 ^ 53 ≤ b * (2 ^ 53 + k) := Nat.mul_le_mul_left b (Nat.le_add_right _ k)
  have hhigh : b * (2 ^ 53 + k) ≤ b * 2 ^ 54 := Nat.mul_le_mul_left b (by omega)
  omega

/-- The body of the request for the row. -/
def outboundBody (env : Env) (r : DeliveryForWorker) : String :=
  env.stringify ⟨r.eventId, r.eventType, env.toISOString r.receivedAt, r.payload⟩

/-- **The request** for the row, signed at `nowMs`. -/
def outbound (env : Env) (job : JobRef) (r : DeliveryForWorker) (nowMs : Time) : HttpRequest :=
  ⟨r.endpointUrl, outboundBody env r, buildWebhookHeaders job.text (r.attemptCount + 1)
    (nowMs / 1000) (sign env r.signingSecret (nowMs / 1000) (outboundBody env r))⟩

/-! ## The monitor -/

/-- What the call stores and sends comes from the row. -/
structure Derives (env : Env) (job : JobRef) (row : Option DeliveryForWorker) (e : Eff) : Prop where
  stored : ∀ d next, e = .sql (.write (.updateAttempt d .failed next)) →
    ∃ r, row = some r ∧ Drawn env (r.attemptCount + 1) next
  sent : ∀ req, e = .httpStart req → ∃ r nowMs, row = some r ∧ req = outbound env job r nowMs

/-- The answers of `Math.random()` are below 1. -/
def Fair : (e : Eff) → e.Resp → Prop
  | .mathRandom => fun k : ℕ => k < 2 ^ 53
  | _ => fun _ => True

/-- The monitor: what is stored and sent comes from the row that was read. -/
def derivations (env : Env) (job : JobRef) : Monitor Eff Eff.Resp Facts where
  next := Facts.next
  permits m e := Derives env job m.row e
  expects _ e r := Fair e r

section Program

variable {m : Facts} {r : DeliveryForWorker} {α β : Type}

/-- The call stores no time and sends no request. -/
structure Aloof (e : Eff) : Prop where
  stored : ∀ d g next, e ≠ .sql (.write (.updateAttempt d g next))
  sent : ∀ req, e ≠ .httpStart req

theorem Aloof.derives {e : Eff} (h : Aloof e) (row : Option DeliveryForWorker) :
    Derives env job row e :=
  ⟨fun d next he => absurd he (h.stored d _ next), fun req he => absurd he (h.sent req)⟩

/-- Calls after the row was read. -/
structure Draws (env : Env) (job : JobRef) (r : DeliveryForWorker) (e : Eff) : Prop where
  keeps : ∀ d, e ≠ .sql (.selectForDelivery d)
  derives : Derives env job (some r) e

theorem safe_draws {p : Code α} {Q : Facts → Except Err α → Prop} (hp : p.Uses (Draws env job r))
    (hm : m.row = some r) (hQ : ∀ m' x, m'.row = some r → Q m' x) :
    Prog.Safe (derivations env job) m p Q := by
  refine hp.keeps (J := fun m => m.row = some r) hm (fun m e hm he => ⟨?_, fun x => ?_⟩) hQ
  · change Derives env job m.row e
    rw [hm]
    exact he.derives
  · exact (Facts.next_row x he.keeps).trans hm

theorem draws_of_aloof {e : Eff} (h : Aloof e) (hk : ∀ d, e ≠ .sql (.selectForDelivery d)) :
    Draws env job r e := ⟨hk, h.derives _⟩

theorem Neutral.aloof {e : Eff} (h : Neutral e) : Aloof e := by
  refine ⟨?_, ?_⟩
  · rintro d g next rfl
    exact h
  · rintro req rfl
    exact h

theorem draws_neutral {p : Code α} (hp : p.Uses Neutral) : p.Uses (Draws env job r) := by
  refine hp.mono fun e he => draws_of_aloof he.aloof ?_
  rintro d rfl
  exact he

theorem draws_call {e : Eff} (h : Aloof e) (hk : ∀ d, e ≠ .sql (.selectForDelivery d)) :
    (call e).Uses (Draws env job r) := uses_call (draws_of_aloof h hk)

theorem draws_await {e : Eff} {answer : e.Resp → Except Err α} (h : Aloof e)
    (hk : ∀ d, e ≠ .sql (.selectForDelivery d)) : (await e answer).Uses (Draws env job r) :=
  uses_await (draws_of_aloof h hk)

theorem draws_withTx {fn : Code α} (h : fn.Uses (Draws env job r)) :
    (withTx fn).Uses (Draws env job r) := by
  have hsql : ∀ q : Sql, Aloof (.sql q) → (∀ d, q ≠ .selectForDelivery d) →
      Draws env job r (.sql q) := fun q ha hq => draws_of_aloof ha fun d he => hq d (Eff.sql.inj he)
  exact uses_withTx (hsql _ ⟨by simp, by simp⟩ (by simp)) (hsql _ ⟨by simp, by simp⟩ (by simp))
    (hsql _ ⟨by simp, by simp⟩ (by simp)) (hsql _ ⟨by simp, by simp⟩ (by simp)) h

theorem draws_transition (d : DeliveryId) (f g : Status) (a : Actor) (reason : String) :
    (transition d f g a reason).Uses (Draws env job r) :=
  draws_withTx ((draws_await ⟨by simp, by simp⟩ (by simp)).bind fun _ =>
    (draws_await ⟨by simp, by simp⟩ (by simp)).bind fun _ => trivial)

theorem draws_recordAttempt {input : RecordAttemptInput}
    (h : input.toStatus = .failed → Drawn env (r.attemptCount + 1) input.nextAttemptAt) :
    (recordAttempt input).Uses (Draws env job r) := by
  refine draws_withTx ((draws_await ⟨by simp, by simp⟩ (by simp)).bind fun _ => Prog.Uses.bind
    ⟨⟨by simp, ⟨fun d next he => ?_, by simp⟩⟩, fun x => Prog.uses_ofExcept x⟩ fun _ =>
      (draws_await ⟨by simp, by simp⟩ (by simp)).bind fun _ => trivial)
  simp only [Eff.sql.injEq, Sql.write.injEq, Stmt.updateAttempt.injEq] at he
  obtain ⟨-, hto, rfl⟩ := he
  exact ⟨r, rfl, h hto⟩

/-- **The rule for calls that store and send nothing**, before and after the row is read. -/
theorem safe_aloof {p : Code α} {Q : Facts → Except Err α → Prop} (hp : p.Uses Aloof)
    (hQ : ∀ m' x, Q m' x) : Prog.Safe (derivations env job) m p Q :=
  hp.keeps (J := fun _ => True) trivial (fun _ _ _ he => ⟨he.derives _, fun _ => trivial⟩)
    fun m' x _ => hQ m' x

theorem aloof_cleanup (t : Tid) (held : Option EndpointId) :
    (cleanup env job t held).Uses Aloof := by
  refine Prog.Uses.bind ?_ fun _ => (uses_await ⟨by simp, by simp⟩).bind fun _ => trivial
  cases held with
  | none => trivial
  | some ep => exact (uses_releaseBucketToken ep).mono fun e he => he.aloof

/-- **Sequencing rule** for what comes after the row was read. -/
theorem safe_then {p : Code α} {f : α → Code β} {Q : Facts → Except Err β → Prop}
    (hp : p.Uses (Draws env job r)) (hm : m.row = some r) (herr : ∀ m' y, Q m' (.error y))
    (hf : ∀ m' a, m'.row = some r → Prog.Safe (derivations env job) m' (f a) Q) :
    Prog.Safe (derivations env job) m (p.bind f) Q := by
  refine Prog.safe_bind.mpr (safe_draws hp hm fun m' x hm' => ?_)
  cases x with
  | error y => exact herr m' y
  | ok a => exact hf m' a hm'

theorem safe_call_then {e : Eff} {f : e.Resp → Code β} {Q : Facts → Except Err β → Prop}
    (he : Aloof e) (hk : ∀ d, e ≠ .sql (.selectForDelivery d)) (hm : m.row = some r)
    (hf : ∀ m' x, m'.row = some r → Prog.Safe (derivations env job) m' (f x) Q) :
    Prog.Safe (derivations env job) m ((call e).bind f) Q :=
  ⟨he.derives _, fun x _ => hf _ x ((Facts.next_row x hk).trans hm)⟩

theorem safe_random {f : ℕ → Code α} {Q : Facts → Except Err α → Prop}
    (hf : ∀ k, k < 2 ^ 53 → Prog.Safe (derivations env job) m (f k) Q) :
    Prog.Safe (derivations env job) m (mathRandom.bind f) Q :=
  ⟨Aloof.derives ⟨by simp, by simp⟩ _, fun k hk => hf k hk⟩

/-! ## The processor -/

theorem safe_pickup_derivations {Q : Facts → Except Err (Option Pickup) → Prop}
    (herr : ∀ m y, Q m (.error y)) (hnone : ∀ m, Q m (.ok none))
    (hsome : ∀ m p, m.row = some p.delivery → Q m (.ok (some p))) :
    Prog.Safe (derivations env job) m (pickup env job) Q := by
  refine Prog.safe_bind.mpr ⟨Aloof.derives ⟨by simp, by simp⟩ _, fun x _ =>
    Prog.safe_ofExcept.mpr ?_⟩
  match x with
  | .error y => exact herr _ y
  | .ok none => exact hnone _
  | .ok (some r) =>
    have hm : (m.next (.sql (.selectForDelivery job.deliveryId)) (.ok (some r))).row = some r := rfl
    change Prog.Safe _ (m.next (.sql (.selectForDelivery job.deliveryId)) (.ok (some r))) _ _
    generalize m.next (.sql (.selectForDelivery job.deliveryId)) (.ok (some r)) = m at hm
    dsimp only
    split
    · exact hnone _
    split
    · refine safe_call_then ⟨by simp, by simp⟩ (by simp) hm fun m now hm => ?_
      exact safe_then (draws_await ⟨by simp, by simp⟩ (by simp)) hm herr fun m _ _ => herr m _
    refine safe_then (draws_neutral (uses_checkState _)) hm herr fun m breaker hm => ?_
    split
    · refine safe_call_then ⟨by simp, by simp⟩ (by simp) hm fun m now hm => ?_
      refine safe_call_then ⟨by simp, by simp⟩ (by simp) hm fun m later hm => ?_
      refine safe_random fun k hk => ?_
      exact safe_then (draws_recordAttempt fun _ => ⟨later, k, hk, rfl⟩) hm herr fun m _ _ => herr m _
    refine safe_then (draws_neutral (uses_tryAcquire _)) hm herr fun m got hm => ?_
    split
    · exact hsome m _ hm
    · refine safe_call_then ⟨by simp, by simp⟩ (by simp) hm fun m k hm => ?_
      refine safe_call_then ⟨by simp, by simp⟩ (by simp) hm fun m now hm => ?_
      exact safe_then (draws_await ⟨by simp, by simp⟩ (by simp)) hm herr fun m _ _ => herr m _

theorem draws_deliver (nowMs : Time) :
    (withLockHeartbeat (deliver env (outbound env job r nowMs))).Uses (Draws env job r) := by
  refine (draws_call ⟨by simp, by simp⟩ (by simp)).bind fun _ => Prog.Uses.andFinally ?_ ?_
  · refine (draws_call ⟨by simp, by simp⟩ (by simp)).bind fun _ => Prog.Uses.bind ?_ fun _ => ?_
    · refine ⟨⟨by simp, by simp, fun req he => ⟨r, nowMs, rfl, ?_⟩⟩, fun _ => trivial⟩
      exact (Eff.httpStart.inj he).symm
    · refine (draws_call ⟨by simp, by simp⟩ (by simp)).bind fun reply => ?_
      cases reply with
      | response status text => exact (draws_call ⟨by simp, by simp⟩ (by simp)).bind fun _ => trivial
      | thrown e => trivial
  · exact (draws_call ⟨by simp, by simp⟩ (by simp)).bind fun _ => trivial

theorem safe_attemptDelivery_derivations {p : Pickup} {Q : Facts → Except Err Unit → Prop}
    (hm : m.row = some p.delivery) (hQ : ∀ m' x, Q m' x) :
    Prog.Safe (derivations env job) m (attemptDelivery env job p) Q := by
  have herr : ∀ m' y, Q m' (.error y) := fun m' y => hQ m' _
  refine safe_then (draws_transition _ _ _ _ _) hm herr fun m _ hm => ?_
  refine safe_call_then ⟨by simp, by simp⟩ (by simp) hm fun m nowMs hm => ?_
  refine safe_call_then ⟨by simp, by simp⟩ (by simp) hm fun m startedAt hm => ?_
  refine safe_then (draws_deliver nowMs) hm herr fun m result hm => ?_
  refine safe_call_then ⟨by simp, by simp⟩ (by simp) hm fun m finishedAt hm => ?_
  refine safe_call_then ⟨by simp, by simp⟩ (by simp) hm fun m lockLost hm => ?_
  refine safe_then (draws_neutral (uses_noteOutcome _ _)) hm herr fun m _ hm => ?_
  refine safe_call_then ⟨by simp, by simp⟩ (by simp) hm fun m now hm => ?_
  refine safe_random fun k hk => ?_
  refine safe_then (draws_recordAttempt fun hto => ?_) hm herr fun m _ _ => ?_
  · -- a success is stored without a time, and not as FAILED
    dsimp only at hto ⊢
    split at hto
    · cases hto
    · rename_i hne
      rw [if_neg hne]
      exact ⟨now, k, hk, rfl⟩
  · split <;> exact hQ _ _

/-- **Every processor stores the time and sends the request of the row it has read.** -/
theorem safe_derivations (job : JobRef) (t : Tid) :
    Prog.Safe (derivations env job) {} (program env t (.deliver job)) fun _ _ => True := by
  refine Prog.safe_bind.mpr (Prog.Safe.mono (Q := fun _ _ => True) ?_ fun m x _ => ?_)
  · refine Prog.safe_bind.mpr ⟨Aloof.derives ⟨by simp, by simp⟩ _, fun x _ =>
      Prog.safe_ofExcept.mpr ?_⟩
    match x with
    | .error y => trivial
    | .ok false =>
      exact safe_aloof ⟨⟨by simp, by simp⟩, fun now =>
        (uses_await ⟨by simp, by simp⟩).bind fun _ => trivial⟩ fun _ _ => trivial
    | .ok true =>
      refine Prog.safe_bind.mpr (Prog.safe_tryCatch.mpr
        (safe_pickup_derivations (fun m y => ?_) (fun m => ?_) fun m p hm => ?_))
      · refine Prog.safe_bind.mpr (safe_aloof (aloof_cleanup _ _) fun m x => ?_)
        cases x <;> trivial
      · exact safe_aloof (aloof_cleanup _ _) fun _ _ => trivial
      · refine Prog.safe_andFinally.mpr (safe_attemptDelivery_derivations hm fun m x => ?_)
        refine safe_aloof (aloof_cleanup _ _) fun m x' => ?_
        cases x' <;> trivial
  · cases x <;> trivial

end Program

/-! ## Runs -/

theorem Advance.fair {c : Choice} {e : Eff} {r : e.Resp} {k : e.Resp → Code Reply} {w : World}
    {m : Memory} (h : Advance s s' t c th e r k w m) : Fair e r := by
  cases e with
  | mathRandom =>
    have hdone := h.done
    cases hdone
    exact Nat.mod_lt _ (by decide)
  | _ => trivial

/-- What a processor has written in its open transaction, and what it may still do. -/
structure Thread.Deriving (env : Env) (job : JobRef) (th : Thread) : Prop where
  safe : Prog.Safe (derivations env job) th.facts th.prog fun _ _ => True
  wrote : ∀ x ∈ th.facts.tx.getD [], Derives env job th.facts.row (.sql (.write x.1))

/-- **A call keeps it.** -/
theorem Thread.Deriving.called {c : Choice} {e : Eff} {r : e.Resp} {k : e.Resp → Code Reply}
    {w : World} {m : Memory} (h : th.Deriving env job) (hs : s.Ok)
    (hadv : Advance s s' t c th e r k w m) : (th.after e r k m).Deriving env job := by
  have hsafe := h.safe
  rw [hadv.prog] at hsafe
  refine ⟨hsafe.2 r hadv.fair, fun x hx => ?_⟩
  change x ∈ (th.facts.next e r).tx.getD [] at hx
  change Derives env job (th.facts.next e r).row _
  rcases Facts.next_tx hx with hold | ⟨st, g, rfl, rfl⟩
  · rcases hadv.row hs with hsame | ⟨_, -, rfl, -⟩
    · rw [hsame]
      exact h.wrote x hold
    · -- the row is read outside a transaction
      obtain ⟨htx, -⟩ := (hs.threads t th hadv.live).permits hadv.prog
      rw [htx] at hold
      cases hold
  · rw [Facts.next_row (e := .sql (.write st)) r (by simp)]
    exact hsafe.1

theorem reachable_deriving {C : State → Label → Prop} (h : Reachable env C s) :
    ∀ t th job, s.live? t = some th → th.kind = .deliver job → th.Deriving env job := by
  have hinv : Reachable env C s ∧
      ∀ t th job, s.live? t = some th → th.kind = .deliver job → th.Deriving env job := by
    obtain ⟨ls, h⟩ := h
    refine h.invariant (I := fun s => Reachable env C s ∧
      ∀ t th job, s.live? t = some th → th.kind = .deliver job → th.Deriving env job) ?_ ⟨.refl _, ?_⟩
    · rintro s l s' ⟨hr, hI⟩ hC hstep
      refine ⟨hr.snoc hC hstep, fun u th' job hu hk => ?_⟩
      cases step_lives hstep hu with
      | called hl hadv hth =>
        subst hth
        exact (hI u _ job hadv.live hk).called (reachable_ok hr) hadv
      | beat hl hlive hk' hbeat hth =>
        subst hth
        obtain ⟨hsafe, hwrote⟩ := hI u _ job hlive hk
        exact ⟨hsafe, hwrote⟩
      | heard hl hlive hnext hth =>
        subst hth
        obtain ⟨hsafe, hwrote⟩ := hI u _ job hlive hk
        exact ⟨hsafe, hwrote⟩
      | @kept th hlive hreply hsame hmem =>
        obtain ⟨hsafe, hwrote⟩ := hI u th job hlive (hsame.kind ▸ hk)
        have hfacts : th'.facts = th.facts := congrArg facts hsame.trace
        refine ⟨?_, ?_⟩
        · rw [hfacts, hsame.prog]
          exact hsafe
        · rw [hfacts]
          exact hwrote
      | @fresh kd hlen hstart hth =>
        subst hth
        have hkd : kd = .deliver job := hk
        subst hkd
        exact ⟨safe_derivations job _, fun x hx => by cases hx⟩
    · intro t th job ht
      simp [State.live?] at ht
  exact hinv.2

/-- **A processor sends the request of the row it has read.** -/
theorem request_sent {C : State → Label → Prop} (h : Reachable env C s) (ht : s.live? t = some th)
    (hk : th.kind = .deliver job) {req : HttpRequest} {k : Unit → Code Reply}
    (hp : th.prog = .op (.httpStart req) k) :
    ∃ r nowMs, th.facts.row = some r ∧ req = outbound env job r nowMs := by
  have hsafe := (reachable_deriving h t th job ht hk).safe
  rw [hp] at hsafe
  exact hsafe.1.sent req rfl

theorem Advance.row_stays {c : Choice} {e : Eff} {x : e.Resp} {k : e.Resp → Code Reply} {w : World}
    {m : Memory} (h : Advance s s' t c th e x k w m) (hs : s.Ok) {r : DeliveryForWorker}
    (hrow : th.facts.row = some r) : (th.after e x k m).facts.row = some r := by
  change (th.facts.next e x).row = _
  rw [Facts.next_row x, hrow]
  rintro d rfl
  obtain ⟨-, -, -, hnone, -⟩ := (hs.threads t th h.live).permits h.prog
  rw [hrow] at hnone
  cases hnone

/-- **Every request that was sent** is that of the row its processor has read. -/
theorem reachable_sent {C : State → Label → Prop} (h : Reachable env C s) (ht : s.live? t = some th)
    {req : HttpRequest} (hsent : th.facts.sent = some req) :
    ∃ job r nowMs, th.kind = .deliver job ∧ th.facts.row = some r ∧ req = outbound env job r nowMs := by
  have hinv : Reachable env C s ∧ ∀ t th, s.live? t = some th → ∀ req, th.facts.sent = some req →
      ∃ job r nowMs, th.kind = .deliver job ∧ th.facts.row = some r ∧
        req = outbound env job r nowMs := by
    refine h.invariant (I := fun s => Reachable env C s ∧ ∀ t th, s.live? t = some th → ∀ req,
      th.facts.sent = some req → ∃ job r nowMs, th.kind = .deliver job ∧ th.facts.row = some r ∧
        req = outbound env job r nowMs) ⟨.refl _, fun t th ht => ?_⟩ ?_
    · simp [State.live?] at ht
    · rintro s l s' ⟨hr, hI⟩ hl hstep
      refine ⟨hr.snoc hl hstep, fun u th' hu req hsent => ?_⟩
      cases step_arises hstep hu with
      | @called c th e x k w m _ hadv hth =>
        subst hth
        rcases @Facts.next_sent th.facts e x with hsame | ⟨req', rfl, hnew⟩
        · obtain ⟨job, r, nowMs, hk, hrow, hreq⟩ := hI u th hadv.live req (hsame.symm.trans hsent)
          exact ⟨job, r, nowMs, hk, hadv.row_stays (reachable_ok hr) hrow, hreq⟩
        · obtain rfl : req' = req := Option.some.inj (hnew.symm.trans hsent)
          obtain ⟨job, -, hk, -⟩ := ((reachable_ok hr).threads u th hadv.live).permits hadv.prog
          obtain ⟨r, nowMs, hrow, hreq⟩ := request_sent hr hadv.live hk hadv.prog
          exact ⟨job, r, nowMs, hk, hadv.row_stays (reachable_ok hr) hrow, hreq⟩
      | @kept th _ hlive hkept =>
        have hf : th'.facts = th.facts := congrArg facts hkept.trace
        rw [hf] at hsent ⊢
        obtain ⟨job, r, nowMs, hk, h'⟩ := hI u th hlive req hsent
        exact ⟨job, r, nowMs, hkept.kind.trans hk, h'⟩
      | fresh _ _ hth =>
        subst hth
        cases hsent
  exact hinv.2 t th ht req hsent

end WebhookEngine
