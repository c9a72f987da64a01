import WebhookEngine.Proof.Breaker

set_option autoImplicit false

/-!
# The half-open probe

A worker whose `checkState` answered `probe` is *probing* until its `onProbeResult` is over. SET NX
elects one winner among those that find the slot free; it says nothing about a slot that runs out
while its winner still waits for the response, nor about `:open` being set between the EXISTS and the
SET of another `checkState`.

* `ReportsOnce`: only probing workers report, once each. `KeepsProbe`: and neither of the two
  happens.
* `Elected`, `Elected.step`: the slot is there while somebody is probing, and `:open` is not while
  somebody is about to ask for the slot.
* **`one_probe`**: under `KeepsProbe` at most one worker is probing, and `probe` is answered only while
  `:open` is absent.
-/

namespace WebhookEngine

open EffectProg TransitionSystem

variable {env : Env} {ep : EndpointId} {s s' : BreakerWorld} {l : BreakerLabel} {i j v w : ℕ}

/-- The call reports the result of worker `w`. -/
def BreakerThread.reports (th : BreakerThread) (w : ℕ) : Bool :=
  match th.call with
  | .onProbeResult v _ => v = w
  | _ => false

def BreakerThread.over (th : BreakerThread) : Bool :=
  match th.prog with
  | .ret _ => true
  | _ => false

/-- The call has found `:open` absent and has not answered yet. -/
def BreakerThread.electing (th : BreakerThread) : Bool :=
  match th.prog with
  | .op (.redis (.getFails _)) _ => true
  | .op (.redis (.setProbe _ _)) _ => true
  | _ => false

/-- `checkState` has answered `probe` to worker `w`. -/
def BreakerWorld.won (s : BreakerWorld) (w : ℕ) : Bool :=
  s.calls[w]?.any fun th => th.answer = some .probe

/-- The `onProbeResult` of worker `w` is over. -/
def BreakerWorld.reported (s : BreakerWorld) (w : ℕ) : Bool :=
  s.calls.any fun th => th.reports w && th.over

/-- Worker `w` has won the probe and has not reported. -/
def BreakerWorld.probing (s : BreakerWorld) (w : ℕ) : Bool := s.won w && !s.reported w

/-- The callers' part: a probing worker reports, once. -/
def ReportsOnce (s : BreakerWorld) : BreakerLabel → Prop
  | .start (.onProbeResult w _) => s.probing w = true ∧ ∀ th ∈ s.calls, th.reports w = false
  | _ => True

instance (s : BreakerWorld) : (l : BreakerLabel) → Decidable (ReportsOnce s l)
  | .start (.onProbeResult _ _) => inferInstanceAs (Decidable (_ ∧ _))
  | .start .recordFailure => inferInstanceAs (Decidable True)
  | .start .checkState => inferInstanceAs (Decidable True)
  | .tick _ => inferInstanceAs (Decidable True)
  | .cmd _ => inferInstanceAs (Decidable True)

/-- The callers keep to their part, the slot does not run out while a worker is probing, and `:open`
is not set while a `checkState` is between its EXISTS and its answer. -/
def KeepsProbe (ep : EndpointId) (s : BreakerWorld) : BreakerLabel → Prop
  | .tick ms => (∃ w < s.calls.length, s.probing w = true) → s.redis.probeAt s.now ep = true →
      s.redis.probeAt (s.now + ms) ep = true
  | .start c => ReportsOnce s (.start c)
  | .cmd i => s.opening i = true → ∀ th ∈ s.calls, th.electing = false

instance (s : BreakerWorld) : (l : BreakerLabel) → Decidable (KeepsProbe ep s l)
  | .tick _ => inferInstanceAs (Decidable (_ → _ → _))
  | .start c => inferInstanceAs (Decidable (ReportsOnce s (.start c)))
  | .cmd _ => inferInstanceAs (Decidable (_ → _))

/-! ## Reading the calls -/

theorem won_iff : s.won w = true ↔ ∃ th, s.calls[w]? = some th ∧ th.prog = .ret (some .probe) := by
  simp [BreakerWorld.won, Option.any_eq_true, BreakerThread.answer_eq_some]

theorem reported_iff : s.reported w = true ↔
    ∃ (i : ℕ) (th : BreakerThread), s.calls[i]? = some th ∧ th.reports w = true ∧ th.over = true := by
  rw [BreakerWorld.reported, List.any_eq_true]
  constructor
  · rintro ⟨th, hth, h⟩
    obtain ⟨i, hi⟩ := List.mem_iff_getElem?.mp hth
    exact ⟨i, th, hi, Bool.and_eq_true_iff.mp h⟩
  · rintro ⟨i, th, hi, h⟩
    exact ⟨th, List.mem_of_getElem? hi, Bool.and_eq_true_iff.mpr h⟩

theorem probing_iff : s.probing w = true ↔ s.won w = true ∧ s.reported w ≠ true := by
  simp [BreakerWorld.probing]

theorem Stage.over_iff {c : BreakerCall} {st : Stage} :
    BreakerThread.over ⟨c, st.prog env ep⟩ = true ↔ ∃ a, st = .done a := by
  cases st with
  | done a => exact ⟨fun _ => ⟨a, rfl⟩, fun _ => rfl⟩
  | _ => exact ⟨nofun, fun ⟨_, h⟩ => nomatch h⟩

theorem Stage.electing_iff {c : BreakerCall} {st : Stage} :
    BreakerThread.electing ⟨c, st.prog env ep⟩ = true ↔ st = .getFails ∨ st = .setProbe := by
  cases st with
  | getFails => exact ⟨fun _ => Or.inl rfl, fun _ => rfl⟩
  | setProbe => exact ⟨fun _ => Or.inr rfl, fun _ => rfl⟩
  | _ => exact ⟨nofun, fun h => by rcases h with h | h <;> cases h⟩

theorem Sends.not_done {c : BreakerCall} {st st' : Stage} (h : Sends env ep s i c st st' s')
    (a : Option BreakerState) : st ≠ .done a := by
  rintro rfl
  cases h.run

theorem Sends.won {c : BreakerCall} {st st' : Stage} (h : Sends env ep s i c st st' s')
    (hw : s'.won w = true) : s.won w = true ∨ w = i ∧ st' = .done (some .probe) := by
  obtain ⟨th, hth, hp⟩ := won_iff.mp hw
  by_cases hwi : w = i
  · subst hwi
    rw [h.call_self] at hth
    cases hth
    exact Or.inr ⟨rfl, Stage.eq_done hp⟩
  · rw [h.call_other hwi] at hth
    exact Or.inl (won_iff.mpr ⟨th, hth, hp⟩)

theorem Sends.not_won {c : BreakerCall} {st st' : Stage} (h : Sends env ep s i c st st' s') :
    s.won i ≠ true := by
  intro hw
  obtain ⟨th, hth, hp⟩ := won_iff.mp hw
  rw [h.call] at hth
  cases hth
  exact h.not_done _ (Stage.eq_done hp)

theorem Sends.reported {c : BreakerCall} {st st' : Stage} (h : Sends env ep s i c st st' s')
    (hw : s.reported w = true) : s'.reported w = true := by
  obtain ⟨j, th, hj, hr, ho⟩ := reported_iff.mp hw
  refine reported_iff.mpr ⟨j, th, ?_, hr, ho⟩
  refine (h.call_other fun hji => ?_).trans hj
  subst hji
  rw [h.call] at hj
  cases hj
  obtain ⟨a, ha⟩ := Stage.over_iff.mp ho
  exact h.not_done a ha

/-- A worker that is probing after a command was probing before, or has just won. -/
theorem Sends.probing {c : BreakerCall} {st st' : Stage} (h : Sends env ep s i c st st' s')
    (hw : s'.probing w = true) : s.probing w = true ∨ w = i ∧ st' = .done (some .probe) := by
  obtain ⟨hwon, hrep⟩ := probing_iff.mp hw
  rcases h.won hwon with hwon | hself
  · exact Or.inl (probing_iff.mpr ⟨hwon, fun hr => hrep (h.reported hr)⟩)
  · exact Or.inr hself

/-! ## What a command does to the two keys -/

theorem openAt_mono {r : Redis} {now ms : ℕ} (h : r.openAt now ep = false) :
    r.openAt (now + ms) ep = false := by
  unfold Redis.openAt at h ⊢
  cases hexp : r.opened ep with
  | none => rfl
  | some exp =>
    rw [hexp, Option.any_some, decide_eq_false_iff_not] at h
    rw [Option.any_some, decide_eq_false_iff_not]
    exact fun hlt => h (Nat.lt_of_le_of_lt (Nat.le_add_right now ms) hlt)

theorem Stage.run_open {st st' : Stage} {now : Time} {r r' : Redis}
    (h : st.run env ep now r = some (r', st')) (ho : st ≠ .setOpen) (hr : st ≠ .reopen) :
    r'.openAt now ep = r.openAt now ep := by
  cases st with
  | setOpen => exact absurd rfl ho
  | reopen => exact absurd rfl hr
  | setProbe =>
    cases h
    simp only [RedisCmd.exec]
    split <;> rfl
  | done a => cases h
  | _ => cases h; rfl

theorem Stage.run_probe {st st' : Stage} {now : Time} {r r' : Redis}
    (h : st.run env ep now r = some (r', st')) (hw : st' ≠ .done (some .probe))
    (hd : st ≠ .delFailsProbe) (hp : st ≠ .delProbe) : r'.probeAt now ep = r.probeAt now ep := by
  cases st with
  | setProbe =>
    cases hprobe : r.probeAt now ep with
    | false =>
      refine absurd ?_ hw
      have := congrArg (Option.map Prod.snd) h
      simp only [Stage.run, hprobe, Option.map_some, Option.some.injEq] at this
      exact this.symm
    | true =>
      cases h
      simp [RedisCmd.exec, hprobe]
  | delFailsProbe => exact absurd rfl hd
  | delProbe => exact absurd rfl hp
  | done a => cases h
  | _ => cases h; rfl

/-- Before an answer `closed` or `probe` a call is electing, and it becomes so when `:open` is
absent. -/
theorem Stage.run_electing {st st' : Stage} {now : Time} {r r' : Redis}
    (h : st.run env ep now r = some (r', st')) (he : st' = .getFails ∨ st' = .setProbe) :
    st = .existsOpen ∧ r.openAt now ep = false ∨ st = .getFails := by
  have h := congrArg (Option.map Prod.snd) h
  cases st with
  | existsOpen =>
    simp only [Stage.run, Option.map_some, Option.some.injEq] at h
    refine Or.inl ⟨rfl, ?_⟩
    split at h
    · subst h
      rcases he with he | he <;> cases he
    · rename_i ho
      exact Bool.eq_false_iff.mpr ho
  | getFails => exact Or.inr rfl
  | expireFails n =>
    simp only [Stage.run, Option.map_some, Option.some.injEq] at h
    split at h <;> subst h <;> rcases he with he | he <;> cases he
  | setProbe =>
    simp only [Stage.run, Option.map_some, Option.some.injEq] at h
    subst h
    rcases he with he | he <;> cases he
  | done a => cases h
  | _ => cases h; rcases he with he | he <;> cases he

theorem Sends.report {c : BreakerCall} {st st' : Stage} (h : Sends env ep s i c st st' s')
    (hst : st = .delFailsProbe ∨ st = .delProbe) :
    ∃ w ok, c = .onProbeResult w ok ∧ st' = .done none := by
  have hof := h.stage
  have hrun := congrArg (Option.map Prod.snd) h.run
  rcases hst with rfl | rfl
  · cases c with
    | onProbeResult w ok => exact ⟨w, ok, rfl, (Option.some.inj hrun).symm⟩
    | _ => exact hof.elim
  · cases c with
    | onProbeResult w ok => exact ⟨w, ok, rfl, (Option.some.inj hrun).symm⟩
    | _ => exact hof.elim

/-! ## The invariant -/

/-- The slot is there while somebody is probing, and `:open` is not while somebody is about to ask
for the slot. -/
structure Elected (ep : EndpointId) (s : BreakerWorld) : Prop where
  slot : ∀ w, s.probing w = true → s.redis.probeAt s.now ep = true
  unique : ∀ v w, s.probing v = true → s.probing w = true → v = w
  absent : ∀ (i : ℕ) (th : BreakerThread), s.calls[i]? = some th → th.electing = true →
    s.redis.openAt s.now ep = false
  won : ∀ (i w : ℕ) (th : BreakerThread), s.calls[i]? = some th → th.reports w = true →
    s.won w = true
  once : ∀ (i j w : ℕ) (th th' : BreakerThread), s.calls[i]? = some th → s.calls[j]? = some th' →
    th.reports w = true → th'.reports w = true → i = j

theorem Elected.init : Elected ep {} where
  slot w h := absurd (probing_iff.mp h).1 (by simp [BreakerWorld.won])
  unique v w h := absurd (probing_iff.mp h).1 (by simp [BreakerWorld.won])
  absent := nofun
  won := nofun
  once := nofun

theorem Elected.tick {ms : ℕ} (h : Elected ep s) (hC : KeepsProbe ep s (.tick ms)) :
    Elected ep { s with now := s.now + ms } where
  slot w hw := by
    obtain ⟨th, hth, -⟩ := won_iff.mp (probing_iff.mp hw).1
    exact hC ⟨w, (List.getElem?_eq_some_iff.mp hth).1, hw⟩ (h.slot w hw)
  unique := h.unique
  absent i th hth he := openAt_mono (h.absent i th hth he)
  won := h.won
  once := h.once

theorem BreakerCall.first_open (c : BreakerCall) :
    (∀ a, c.first ≠ .done a) ∧ c.first ≠ .getFails ∧ c.first ≠ .setProbe := by
  cases c with
  | onProbeResult w ok => cases ok <;> refine ⟨fun a h => ?_, fun h => ?_, fun h => ?_⟩ <;> cases h
  | _ => refine ⟨fun a h => ?_, fun h => ?_, fun h => ?_⟩ <;> cases h

theorem start_won {c : BreakerCall} :
    BreakerWorld.won { s with calls := s.calls ++ [⟨c, c.program env ep⟩] } w = s.won w := by
  rw [Bool.eq_iff_iff, won_iff, won_iff]
  constructor
  · rintro ⟨th, hth, hp⟩
    rcases start_calls hth with hth | ⟨-, rfl⟩
    · exact ⟨th, hth, hp⟩
    · exact absurd (Stage.eq_done hp) (c.first_open.1 _)
  · rintro ⟨th, hth, hp⟩
    exact ⟨th, (List.getElem?_append_left (List.getElem?_eq_some_iff.mp hth).1).trans hth, hp⟩

theorem start_probing {c : BreakerCall}
    (h : BreakerWorld.probing { s with calls := s.calls ++ [⟨c, c.program env ep⟩] } w = true) :
    s.probing w = true := by
  obtain ⟨hw, hr⟩ := probing_iff.mp h
  rw [start_won] at hw
  refine probing_iff.mpr ⟨hw, fun hrep => hr ?_⟩
  obtain ⟨j, th, hj, h⟩ := reported_iff.mp hrep
  exact reported_iff.mpr
    ⟨j, th, (List.getElem?_append_left (List.getElem?_eq_some_iff.mp hj).1).trans hj, h⟩

theorem KeepsProbe.report {c : BreakerCall} (hC : KeepsProbe ep s (.start c))
    (hr : BreakerThread.reports ⟨c, c.first.prog env ep⟩ w = true) :
    s.probing w = true ∧ ∀ th ∈ s.calls, th.reports w = false := by
  cases c with
  | onProbeResult v ok =>
    have hv : v = w := of_decide_eq_true hr
    subst hv
    exact hC
  | _ => cases hr

theorem Elected.start {c : BreakerCall} (h : Elected ep s) (hC : KeepsProbe ep s (.start c)) :
    Elected ep { s with calls := s.calls ++ [⟨c, c.program env ep⟩] } where
  slot w hw := h.slot w (start_probing hw)
  unique v w hv hw := h.unique v w (start_probing hv) (start_probing hw)
  absent i th hth he := by
    rcases start_calls hth with hth | ⟨-, rfl⟩
    · exact h.absent i th hth he
    · rcases Stage.electing_iff.mp he with hst | hst
      · exact absurd hst c.first_open.2.1
      · exact absurd hst c.first_open.2.2
  won i w th hth hr := by
    rw [start_won]
    rcases start_calls hth with hth | ⟨-, rfl⟩
    · exact h.won i w th hth hr
    · exact (probing_iff.mp (hC.report hr).1).1
  once i j w th th' hth hth' hr hr' := by
    rcases start_calls hth with hth | ⟨rfl, rfl⟩ <;> rcases start_calls hth' with hth' | ⟨rfl, rfl⟩
    · exact h.once i j w th th' hth hth' hr hr'
    · rw [(hC.report hr').2 th (List.mem_of_getElem? hth)] at hr
      cases hr
    · rw [(hC.report hr).2 th' (List.mem_of_getElem? hth')] at hr'
      cases hr'
    · rfl

theorem Elected.after_report {c : BreakerCall} {st st' : Stage} (h : Elected ep s)
    (hsend : Sends env ep s i c st st' s') (hst : st = .delFailsProbe ∨ st = .delProbe) (w : ℕ) :
    s'.probing w ≠ true := by
  intro hw
  obtain ⟨v, ok, rfl, rfl⟩ := hsend.report hst
  have hself : ∀ p, BreakerThread.reports ⟨.onProbeResult v ok, p⟩ v = true := fun _ => decide_eq_true rfl
  have hv : s.probing v = true := by
    refine probing_iff.mpr ⟨h.won i v _ hsend.call (hself _), fun hrep => ?_⟩
    obtain ⟨j, th, hj, hr, ho⟩ := reported_iff.mp hrep
    have hji := h.once j i v _ _ hj hsend.call hr (hself _)
    subst hji
    rw [hsend.call] at hj
    cases hj
    obtain ⟨a, ha⟩ := Stage.over_iff.mp ho
    exact hsend.not_done a ha
  rcases hsend.probing hw with hwas | ⟨-, hne⟩
  · have hwv := h.unique w v hwas hv
    subst hwv
    exact (probing_iff.mp hw).2 (reported_iff.mpr ⟨i, _, hsend.call_self, hself _, rfl⟩)
  · cases hne

theorem Sends.reports {c : BreakerCall} {st st' : Stage} (h : Sends env ep s i c st st' s')
    {th : BreakerThread} (hth : s'.calls[j]? = some th) :
    ∃ th₀, s.calls[j]? = some th₀ ∧ ∀ w, th₀.reports w = th.reports w := by
  by_cases hji : j = i
  · subst hji
    rw [h.call_self] at hth
    cases hth
    exact ⟨_, h.call, fun _ => rfl⟩
  · exact ⟨th, (h.call_other hji).symm.trans hth, fun _ => rfl⟩

theorem Sends.stays_won {c : BreakerCall} {st st' : Stage} (h : Sends env ep s i c st st' s')
    (hw : s.won w = true) : s'.won w = true := by
  obtain ⟨th, hth, hp⟩ := won_iff.mp hw
  refine won_iff.mpr ⟨th, (h.call_other fun hwi => ?_).trans hth, hp⟩
  exact h.not_won (hwi ▸ hw)

/-- **The winner finds the slot free.** -/
theorem Sends.wins {c : BreakerCall} {st : Stage}
    (h : Sends env ep s i c st (.done (some .probe)) s') :
    st = .setProbe ∧ s.redis.probeAt s.now ep = false ∧
      (0 < env.cbProbeSeconds → s'.redis.probeAt s'.now ep = true) := by
  have hrun := h.run
  have hnow := h.now
  generalize s'.redis = r' at hrun ⊢
  cases Stage.run_answer hrun with
  | won hfree =>
    refine ⟨rfl, hfree, fun hp => ?_⟩
    have hlt : s.now < s.now + env.cbProbeSeconds * 1000 :=
      Nat.lt_add_of_pos_right (Nat.mul_pos hp (by decide))
    simp [Redis.probeAt, hnow, hlt]

theorem Elected.cmd (hp : 0 < env.cbProbeSeconds) {c : BreakerCall} {st st' : Stage}
    (h : Elected ep s) (hC : KeepsProbe ep s (.cmd i)) (hsend : Sends env ep s i c st st' s') :
    Elected ep s' where
  slot w hw := by
    by_cases hwin : st' = .done (some .probe)
    · subst hwin
      exact hsend.wins.2.2 hp
    rcases hsend.probing hw with hwas | ⟨-, hself⟩
    · by_cases hrep : st = .delFailsProbe ∨ st = .delProbe
      · exact absurd hw (h.after_report hsend hrep w)
      · have hsame := Stage.run_probe hsend.run hwin (fun h => hrep (Or.inl h)) fun h => hrep (Or.inr h)
        rw [hsend.now, hsame]
        exact h.slot w hwas
    · exact absurd hself hwin
  unique v w hv hw := by
    by_cases hwin : st' = .done (some .probe)
    · subst hwin
      -- nobody held the slot before the winner
      have hself : ∀ x, s'.probing x = true → x = i := by
        intro x hx
        rcases hsend.probing hx with hwas | ⟨hxi, -⟩
        · have hslot := h.slot x hwas
          rw [hsend.wins.2.1] at hslot
          cases hslot
        · exact hxi
      rw [hself v hv, hself w hw]
    · have hwas : ∀ x, s'.probing x = true → s.probing x = true := fun x hx =>
        (hsend.probing hx).resolve_right fun hself => hwin hself.2
      exact h.unique v w (hwas v hv) (hwas w hw)
  absent j th hth he := by
    rw [hsend.now]
    by_cases hji : j = i
    · subst hji
      rw [hsend.call_self] at hth
      cases hth
      rcases Stage.run_electing hsend.run (Stage.electing_iff.mp he) with ⟨rfl, habs⟩ | rfl
      · exact (Stage.run_open hsend.run nofun nofun).trans habs
      · exact (Stage.run_open hsend.run nofun nofun).trans
          (h.absent j _ hsend.call (Stage.electing_iff.mpr (Or.inl rfl)))
    · rw [hsend.call_other hji] at hth
      have hopens : st ≠ .setOpen ∧ st ≠ .reopen := by
        have hno : s.opening i ≠ true := by
          intro hopen
          rw [hC hopen th (List.mem_of_getElem? hth)] at he
          cases he
        rw [BreakerWorld.opening, hsend.call] at hno
        exact ⟨fun h => hno (h ▸ rfl), fun h => hno (h ▸ rfl)⟩
      exact (Stage.run_open hsend.run hopens.1 hopens.2).trans (h.absent j th hth he)
  won j w th hth hr := by
    obtain ⟨th₀, hth₀, hsame⟩ := hsend.reports hth
    exact hsend.stays_won (h.won j w th₀ hth₀ ((hsame w).trans hr))
  once j k w th th' hth hth' hr hr' := by
    obtain ⟨th₀, hth₀, hsame⟩ := hsend.reports hth
    obtain ⟨th₀', hth₀', hsame'⟩ := hsend.reports hth'
    exact h.once j k w th₀ th₀' hth₀ hth₀' ((hsame w).trans hr) ((hsame' w).trans hr')

theorem Elected.step (hp : 0 < env.cbProbeSeconds) (hI : Staged env ep s) (h : Elected ep s)
    (hC : KeepsProbe ep s l) (hstep : s.step env ep l = some s') : Elected ep s' := by
  cases l with
  | tick ms =>
    cases hstep
    exact h.tick hC
  | start c =>
    cases hstep
    exact h.start hC
  | cmd i =>
    obtain ⟨c, st, st', hsend⟩ := cmd_cases hI hstep
    exact h.cmd hp hC hsend

theorem reachable_elected (hp : 0 < env.cbProbeSeconds)
    (h : Reach (BreakerWorld.step env ep) (KeepsProbe ep) {} s) : Elected ep s := by
  refine (h.invariant (I := fun x => Staged env ep x ∧ Elected ep x) ⟨nofun, .init⟩ ?_).2
  rintro x l y ⟨hI, hE⟩ hC hstep
  exact ⟨hI.step hstep, hE.step hp hI hC hstep⟩

/-- **At most one probe.** At most one worker is probing; a command that answers `probe` is sent while
`:open` is absent and nobody is probing. -/
theorem one_probe (hp : 0 < env.cbProbeSeconds)
    (h : Reach (BreakerWorld.step env ep) (KeepsProbe ep) {} s) :
    (∀ v w, s.probing v = true → s.probing w = true → v = w) ∧
      ∀ i s' th, s.step env ep (.cmd i) = some s' → s'.calls[i]? = some th →
        th.answer = some .probe →
          s.redis.openAt s.now ep = false ∧ ∀ w, s.probing w = false := by
  have hE := reachable_elected hp h
  refine ⟨hE.unique, fun i s' th hstep hth hans => ?_⟩
  obtain ⟨c, st, st', hsend⟩ := cmd_cases (reachable_staged h) hstep
  rw [hsend.call_self] at hth
  cases hth
  have hdone : st' = .done (some .probe) := Stage.eq_done (BreakerThread.answer_eq_some.mp hans)
  subst hdone
  obtain ⟨rfl, hfree, -⟩ := hsend.wins
  refine ⟨hE.absent i _ hsend.call (Stage.electing_iff.mpr (Or.inr rfl)), fun w => ?_⟩
  rw [Bool.eq_false_iff]
  intro hw
  rw [hE.slot w hw] at hfree
  cases hfree

/-- The breaker opens; a minute later calls 20 and 21 both find it half-open. -/
def sampleHalfOpen : List BreakerLabel :=
  sampleFailures ++ [.cmd 19, .tick 60000, .start .checkState, .start .checkState, .cmd 20, .cmd 20,
    .cmd 21, .cmd 21]

theorem one_probe_half_open : ∃ s s' th,
    Reach (BreakerWorld.step sampleEnv 0) (KeepsProbe 0) {} s ∧
      s.step sampleEnv 0 (.cmd 20) = some s' ∧ s'.calls[20]? = some th ∧
        th.answer = some .probe ∧ s.redis.openAt s.now 0 = false ∧ s'.probing 20 = true ∧
          ∀ w, s'.probing w = true → w = 20 := by
  have h : (runOf (BreakerWorld.step sampleEnv 0) (KeepsProbe 0) {} sampleHalfOpen).any (fun s =>
      KeepsProbe 0 s (.cmd 20) ∧ (s.step sampleEnv 0 (.cmd 20)).any fun s' => s'.probing 20 ∧
        s'.calls[20]?.any fun th => th.answer = some .probe) = true := by decide +kernel
  obtain ⟨s, hrun, h⟩ := exists_run h
  obtain ⟨hC, h⟩ := of_decide_eq_true h
  obtain ⟨s', hstep, h⟩ := (Option.any_eq_true _ _).mp h
  obtain ⟨hprobe, h⟩ := of_decide_eq_true h
  obtain ⟨th, hth, hans⟩ := (Option.any_eq_true _ _).mp h
  have hs : Reach (BreakerWorld.step sampleEnv 0) (KeepsProbe 0) {} s := ⟨_, hrun⟩
  exact ⟨s, s', th, hs, hstep, hth, of_decide_eq_true hans,
    ((one_probe (by decide) hs).2 20 s' th hstep hth (of_decide_eq_true hans)).1, hprobe,
    fun w hw => (one_probe (by decide) (hs.snoc hC hstep)).1 w 20 hw hprobe⟩

/-- The slot runs out after ten seconds, while call 20 still waits for its response: call 22 wins it
too. And a report between the two commands of call 21 sets `:open` and frees the slot: call 21 answers
`probe` all the same. -/
theorem two_probes :
    (¬ ∀ s, Reach (BreakerWorld.step sampleEnv 0) ReportsOnce {} s →
      ∀ v w, s.probing v = true → s.probing w = true → v = w) ∧
    ¬ ∀ s, Reach (BreakerWorld.step sampleEnv 0) ReportsOnce {} s → ∀ i s' th,
      s.step sampleEnv 0 (.cmd i) = some s' → s'.calls[i]? = some th → th.answer = some .probe →
        s.redis.openAt s.now 0 = false := by
  constructor
  · intro h
    have hex : (runOf (BreakerWorld.step sampleEnv 0) ReportsOnce {} (sampleHalfOpen ++
        [.cmd 20, .tick 10000, .start .checkState, .cmd 22, .cmd 22, .cmd 22])).any
          (fun s => s.probing 20 ∧ s.probing 22) = true := by decide +kernel
    obtain ⟨s, hrun, hs⟩ := exists_run hex
    obtain ⟨h20, h22⟩ := of_decide_eq_true hs
    exact absurd (h s ⟨_, hrun⟩ 20 22 h20 h22) (by decide)
  · intro h
    have hex : (runOf (BreakerWorld.step sampleEnv 0) ReportsOnce {} (sampleHalfOpen ++
        [.cmd 20, .start (.onProbeResult 20 false), .cmd 22, .cmd 22])).any (fun s =>
          s.redis.openAt s.now 0 ∧ (s.step sampleEnv 0 (.cmd 21)).any fun s' =>
            s'.calls[21]?.any fun th => th.answer = some .probe) = true := by decide +kernel
    obtain ⟨s, hrun, hs⟩ := exists_run hex
    obtain ⟨hopen, hs⟩ := of_decide_eq_true hs
    obtain ⟨s', hstep, hs⟩ := (Option.any_eq_true _ _).mp hs
    obtain ⟨th, hth, hans⟩ := (Option.any_eq_true _ _).mp hs
    have hclosed := h s ⟨_, hrun⟩ 21 s' th hstep hth (of_decide_eq_true hans)
    rw [hopen] at hclosed
    cases hclosed

end WebhookEngine
