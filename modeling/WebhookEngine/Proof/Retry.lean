import WebhookEngine.Proof.Sweep

set_option autoImplicit false

/-!
# The stages of a manual retry

* `RetryStage`: where a retry stands, `retryFromDlq` called on its own or from the route.
  `RetryStage.next` is its next call with the stage each answer leads to, and **`RetryStage.laid`**
  says that this is the program.
* `RetryStage.Knows`: what has been read and written at each stage.
* **`reachable_retrying`**: every retry is at one of its stages and knows what belongs to it.
-/

namespace WebhookEngine

open EffectProg TransitionSystem

variable {env : Env} {s s' : State} {t u : Tid} {th th' : Thread} {l : Label} {d : DeliveryId}

/-- Where a retry stands: the call it is about to make, or its outcome. -/
inductive RetryStage where
  | connect
  | begin
  | select
  | update
  | insert
  | commit (r : RetryFromDlqResult)
  | rollback (err : Err)
  | clock (x : IdText)
  | add (x : IdText) (ms : Time)
  | finished (r : Except Err Reply)

/-- What an execution of kind `k` makes of its retry. -/
def Kind.finish (p : Code RetryFromDlqResult) : Kind → Code Reply
  | .postRetry x => do
    let id ← Prog.bind p fun result => match result with
      | .notFound => Prog.raise (.app 404 "DELIVERY_NOT_FOUND")
      | .notInDlq _ => Prog.raise (.app 409 "NOT_IN_DLQ")
      | .ok => do
        let ms ← dateNow
        queueAdd (.retry x ms) x.id
        return .retry x ms
    return .retried id
  | _ => do return .dlq (← p)

/-- The rest of the transaction: `fn` is the rest of its body. -/
def restOfTx {α : Type} (fn : Code α) : Code α :=
  Prog.tryCatch
    (do
      let result ← fn
      sql .commit
      return result)
    fun err => do
      sql .rollback
      Prog.raise err

/-- The body of the transaction from the INSERT on. -/
def restOfInsert (d : DeliveryId) : Code RetryFromDlqResult := do
  let _ ← sql (.write (.insertTransition d (some .dlq) .pending "manual_retry" .manualRetry))
  return .ok

/-- The body of the transaction from the UPDATE on. -/
def restOfUpdate (d : DeliveryId) : Code RetryFromDlqResult := do
  let _ ← sql (.write (.updateStatus d .pending))
  restOfInsert d

/-- The body of the transaction. -/
def restOfSelect (d : DeliveryId) : Code RetryFromDlqResult := do
  let row : Option Status ← sql (.selectStatusForUpdate d)
  match row with
  | none => return .notFound
  | some status => if status ≠ .dlq then return .notInDlq status else restOfUpdate d

namespace RetryStage

/-- The rest of the program. -/
def prog (k : Kind) (d : DeliveryId) : RetryStage → Code Reply
  | .connect => k.finish (retryFromDlq d)
  | .begin => k.finish (Prog.tryCatch
      (do
        sql .begin
        let result ← restOfSelect d
        sql .commit
        return result)
      fun err => do
        sql .rollback
        Prog.raise err)
  | .select => k.finish (restOfTx (restOfSelect d))
  | .update => k.finish (restOfTx (restOfUpdate d))
  | .insert => k.finish (restOfTx (restOfInsert d))
  | .commit r => k.finish (restOfTx (return r))
  | .rollback err => k.finish do
      sql .rollback
      Prog.raise err
  | .clock x => do
    let id ← Prog.bind dateNow fun ms => do
      queueAdd (.retry x ms) x.id
      return JobId.retry x ms
    return .retried id
  | .add x ms => do
    let id ← Prog.bind (queueAdd (.retry x ms) x.id) fun _ => return JobId.retry x ms
    return .retried id
  | .finished (.ok a) => return a
  | .finished (.error err) => Prog.raise err

/-- The stage after the transaction. -/
def answered : Kind → RetryFromDlqResult → RetryStage
  | .postRetry _, .notFound => .finished (.error (.app 404 "DELIVERY_NOT_FOUND"))
  | .postRetry _, .notInDlq _ => .finished (.error (.app 409 "NOT_IN_DLQ"))
  | .postRetry x, .ok => .clock x
  | _, r => .finished (.ok (.dlq r))

/-- The stage after a statement of the transaction: an error rolls it back. -/
def orRollback {α : Type} (f : α → RetryStage) : Except Err α → RetryStage
  | .ok a => f a
  | .error err => .rollback err

/-- The stage after a call outside of it: an error is thrown on. -/
def orOver {α : Type} (f : α → RetryStage) : Except Err α → RetryStage
  | .ok a => f a
  | .error err => .finished (.error err)

/-- The stage after the SELECT. -/
def selected : Option Status → RetryStage
  | none => .commit .notFound
  | some status => if status ≠ .dlq then .commit (.notInDlq status) else .update

/-- The next call of a stage, and the stage its answer leads to. -/
def next (k : Kind) (d : DeliveryId) : RetryStage → Option (Σ e : Eff, e.Resp → RetryStage)
  | .connect => some ⟨.sql .connect, orOver (α := Unit) fun _ => .begin⟩
  | .begin => some ⟨.sql .begin, orRollback (α := Unit) fun _ => .select⟩
  | .select => some ⟨.sql (.selectStatusForUpdate d), orRollback (α := Option Status) selected⟩
  | .update => some ⟨.sql (.write (.updateStatus d .pending)),
      orRollback (α := Option ℕ) fun _ => .insert⟩
  | .insert => some ⟨.sql (.write (.insertTransition d (some .dlq) .pending "manual_retry"
      .manualRetry)), orRollback (α := Option ℕ) fun _ => .commit .ok⟩
  | .commit r => some ⟨.sql .commit, orRollback (α := Unit) fun _ => answered k r⟩
  | .rollback err => some ⟨.sql .rollback, orOver (α := Unit) fun _ => .finished (.error err)⟩
  | .clock x => some ⟨.dateNow, fun ms : Time => .add x ms⟩
  | .add x ms => some ⟨.queueAdd (.retry x ms) x.id,
      orOver (α := Unit) fun _ => .finished (.ok (.retried (.retry x ms)))⟩
  | .finished _ => none

end RetryStage

/-- **The program of a retry is laid out by its stages.** -/
theorem RetryStage.laid {kd : Kind} (hk : kd.retries d) (st : RetryStage) {e : Eff}
    {k : e.Resp → Code Reply} (h : st.prog kd d = .op e k) :
    ∃ f, st.next kd d = some ⟨e, f⟩ ∧ ∀ r, k r = (f r).prog kd d := by
  cases st with
  | select =>
    rcases hk with ⟨n, rfl⟩ | rfl <;> cases h <;> refine ⟨_, rfl, fun r => ?_⟩
    all_goals
      rcases r with x | _ | status
      · rfl
      · rfl
      · cases status <;> rfl
  | commit res =>
    rcases hk with ⟨n, rfl⟩ | rfl <;> cases h <;> refine ⟨_, rfl, fun r => ?_⟩
    all_goals
      cases r with
      | error x => rfl
      | ok x => cases res <;> rfl
  | clock x => cases h; exact ⟨_, rfl, fun r => rfl⟩
  | finished r => cases r <;> cases h
  | _ =>
    rcases hk with ⟨n, rfl⟩ | rfl <;> cases h <;> exact ⟨_, rfl, fun r => by cases r <;> rfl⟩

/-! ## What a retry knows -/

/-- The writes of a retry. -/
def retryWrites (d : DeliveryId) (g g' : ℕ) : List Entry :=
  [(.updateStatus d .pending, g),
    (.insertTransition d (some .dlq) .pending "manual_retry" .manualRetry, g')]

/-- What has been read and written at a stage. -/
def RetryStage.Knows (d : DeliveryId) (m : Facts) : RetryStage → Prop
  | .select => m.tx = some []
  | .update => m.seen = some .dlq ∧ m.tx = some []
  | .insert => m.seen = some .dlq ∧ ∃ g, m.tx = some [(.updateStatus d .pending, g)]
  | .commit .ok => m.seen = some .dlq ∧ ∃ g g', m.tx = some (retryWrites d g g')
  | .commit _ => m.seen ≠ some .dlq ∧ m.tx = some []
  | .rollback err => err = .infra
  | _ => True

/-- The execution is at the stage `st` of a retry of `d`. -/
structure Thread.AtStage (th : Thread) (d : DeliveryId) (st : RetryStage) : Prop where
  prog : th.prog = st.prog th.kind d
  knows : st.Knows d th.facts

theorem RetryStage.knows_next {kd : Kind} {m : Facts} {st : RetryStage} {e : Eff}
    {f : e.Resp → RetryStage} (h : st.Knows d m) (hf : st.next kd d = some ⟨e, f⟩) {r : e.Resp}
    (hr : expectsCall m e r) (hx : ∀ x, e.failure r = some x → x = .infra) :
    (f r).Knows d (m.next e r) := by
  cases st with
  | connect => cases hf; cases r <;> trivial
  | begin =>
    cases hf
    cases r with
    | error x => exact hx x rfl
    | ok x => rfl
  | select =>
    cases hf
    rcases r with x | _ | status
    · exact hx x rfl
    · exact ⟨nofun, h⟩
    · by_cases hst : status = .dlq
      · subst hst
        exact ⟨rfl, h⟩
      · change (RetryStage.selected (some status)).Knows d _
        rw [RetryStage.selected, if_pos hst]
        exact ⟨fun hs => hst (Option.some.inj hs), h⟩
  | update =>
    cases hf
    rcases r with x | _ | g
    · exact hx x rfl
    · exact absurd rfl (hr (by rw [h.2]; rfl))
    · refine ⟨h.1, g, ?_⟩
      change m.tx.map _ = _
      rw [h.2]
      rfl
  | insert =>
    cases hf
    rcases r with x | _ | g'
    · exact hx x rfl
    · obtain ⟨-, g, htx⟩ := h
      exact absurd rfl (hr (by rw [htx]; rfl))
    · obtain ⟨hseen, g, htx⟩ := h
      refine ⟨hseen, g, g', ?_⟩
      change m.tx.map _ = _
      rw [htx]
      rfl
  | commit res =>
    cases hf
    cases r with
    | error x => exact hx x rfl
    | ok x => cases kd <;> cases res <;> trivial
  | rollback x => cases hf; cases r <;> trivial
  | clock x => cases hf; trivial
  | add x ms => cases hf; cases r <;> trivial
  | finished r => cases hf

theorem Advance.disciplined {c : Choice} {e : Eff} {r : e.Resp} {k : e.Resp → Code Reply} {w : World}
    {m : Memory} (h : Advance s s' t c th e r k w m) (hs : s.Ok) : expectsCall th.facts e r := by
  by_cases he : ∃ st, e = .sql (.write st)
  · obtain ⟨st, rfl⟩ := he
    obtain ⟨pg', sess', hex, -, -⟩ := perform_sql h.done
    exact (hs.threads t th h.live).write_expected h.prog hex
  · cases e with
    | sql q =>
      cases q with
      | write st => exact absurd ⟨st, rfl⟩ he
      | _ => trivial
    | _ => trivial

/-- **A call takes a retry to its next stage.** -/
theorem Advance.stage {c : Choice} {e : Eff} {r : e.Resp} {k : e.Resp → Code Reply} {w : World}
    {m : Memory} (h : Advance s s' t c th e r k w m) (hs : s.Ok) (hk : th.kind.retries d)
    {st : RetryStage} (hst : th.AtStage d st) :
    ∃ f, st.next th.kind d = some ⟨e, f⟩ ∧ (th.after e r k m).AtStage d (f r) := by
  obtain ⟨f, hf, hprog⟩ := st.laid hk (hst.prog.symm.trans h.prog)
  exact ⟨f, hf, hprog r, RetryStage.knows_next hst.knows hf (h.disciplined hs)
    fun _ hx => perform_failure h.done hx⟩

theorem Kept.atStage {st : RetryStage} (hk : Kept th th') (h : th.AtStage d st) :
    th'.AtStage d st := by
  refine ⟨?_, ?_⟩
  · rw [hk.prog, hk.kind]
    exact h.prog
  · rw [Thread.facts, hk.trace]
    exact h.knows

theorem atStage_fresh {kd : Kind} (hk : kd.retries d) :
    Thread.AtStage { kind := kd, prog := program env t kd } d .connect := by
  refine ⟨?_, trivial⟩
  rcases hk with ⟨n, rfl⟩ | rfl <;> rfl

/-- Every retry is at one of its stages. -/
def Retrying (s : State) : Prop :=
  ∀ t th, s.live? t = some th → ∀ d, th.kind.retries d → ∃ st, th.AtStage d st

theorem Retrying.step (hs : s.Ok) (h : step env s l = some s') (hI : Retrying s) : Retrying s' := by
  refine step_threads (P := fun _ th => ∀ d, th.kind.retries d → ∃ st, th.AtStage d st) h hI ?_ ?_ ?_
  · intro u th th' hk hold d hd
    obtain ⟨st, hst⟩ := hold d (hk.kind ▸ hd)
    exact ⟨st, hk.atStage hst⟩
  · intro u k _ _ d hd
    exact ⟨.connect, atStage_fresh hd⟩
  · intro t c th e r k w m _ hadv hold d hd
    obtain ⟨st, hst⟩ := hold d hd
    obtain ⟨f, -, hnext⟩ := hadv.stage hs hd hst
    exact ⟨f r, hnext⟩

theorem reachable_retrying {C : State → Label → Prop} (h : Reachable env C s) : Retrying s := by
  have hinv : s.Ok ∧ Retrying s := by
    refine h.invariant (I := fun s => s.Ok ∧ Retrying s) ⟨ok_init, fun t th h => ?_⟩ ?_
    · simp [State.live?] at h
    · rintro s l s' ⟨hs, hI⟩ - hstep
      exact ⟨hs.step hstep, hI.step hs hstep⟩
  exact hinv.2

/-! ## A delivery in DLQ -/

/-- The sample delivery is out of attempts and execution 10, the handler of its job, has moved it to
DLQ. -/
def sampleDlq : List Label :=
  sampleIngest ++ sampleFailure 1 ++ sampleFailure 3 ++ sampleFailure 5 ++ sampleFailure 7 ++
    sampleFailure 9 ++ calls 10 9

/-- What an execution has thrown. -/
def Thread.thrown (th : Thread) : Option Err :=
  match th.prog with
  | .raise err => some err
  | _ => none

theorem Thread.thrown_eq {err : Err} (h : th.thrown = some err) : th.prog = .raise err := by
  unfold Thread.thrown at h
  split at h
  · cases h
    assumption
  · cases h

/-- The delivery a request retries. -/
def Thread.retried (th : Thread) : Option DeliveryId :=
  match th.kind with
  | .postRetry x => some x.id
  | _ => none

theorem Thread.retried_eq (h : th.retried = some d) : th.kind.requestsRetry d := by
  unfold Thread.retried at h
  split at h
  · rename_i x hk
    cases h
    exact ⟨x.spelling, hk⟩
  · cases h

end WebhookEngine
