import WebhookEngine.Proof.Retry

set_option autoImplicit false

/-!
# The stages of the exhaustion handler

* `HandlerStage`: where `handleFailed` stands in the handling of an exhausted job.
  `HandlerStage.next` is its next call with the stage each answer leads to, and
  **`HandlerStage.laid`** says that this is the program.
* `HandlerStage.Knows`: what has been read and written at each stage.
* **`reachable_handling`**: every handler of an exhausted job is at one of its stages and knows what
  belongs to it.
-/

namespace WebhookEngine

open EffectProg TransitionSystem

variable {env : Env} {s s' : State} {t u : Tid} {th th' : Thread} {l : Label} {d : DeliveryId}
  {job : JobRef} {x : IdText}

/-- Where the handler of an exhausted job stands: the call it is about to make, with the row it has
read. -/
inductive HandlerStage where
  | read
  | connect (r : DeliveryForWorker)
  | begin (r : DeliveryForWorker)
  | update (r : DeliveryForWorker)
  | insert (r : DeliveryForWorker)
  | commit (r : DeliveryForWorker)
  | rollback (r : DeliveryForWorker) (err : Err)
  | park (r : DeliveryForWorker)
  | last (r : DeliveryForWorker)
  | alert (r : DeliveryForWorker) (last : Option LastAttemptSummary)
  | finished

/-- Whatever the handler throws is dropped. -/
def dropped (p : Code Unit) : Code Reply := do
  Prog.tryCatch p fun _ => return ()
  return .done

/-- The handler from the alert on. -/
def restOfAlert (r : DeliveryForWorker) (last : Option LastAttemptSummary) : Code Unit := do
  let _ ← call (.alert r last)
  return ()

/-- The handler from the query of the last attempt on. -/
def restOfLast (d : DeliveryId) (r : DeliveryForWorker) : Code Unit := do
  let last : Option LastAttemptSummary ← sql (.selectLastAttempt d)
  restOfAlert r last

/-- The handler after its transaction. -/
def restOfHandler (x : IdText) (r : DeliveryForWorker) : Code Unit := do
  dlqAdd x
  restOfLast x.id r

/-- The body of its transaction from the INSERT on. -/
def restOfMark (d : DeliveryId) (r : DeliveryForWorker) : Code Unit := do
  let _ ← sql (.write (.insertTransition d (some r.status) .dlq "attempts_exhausted" .worker))
  return ()

/-- The body of its transaction. -/
def handlerTx (d : DeliveryId) (r : DeliveryForWorker) : Code Unit := do
  let _ ← sql (.write (.updateStatus d .dlq))
  restOfMark d r

namespace HandlerStage

/-- The rest of the program. -/
def prog (x : IdText) : HandlerStage → Code Reply
  | .read => dropped do
    let delivery : Option DeliveryForWorker ← getForDelivery x.id
    match delivery with
    | none => return ()
    | some delivery =>
      if delivery.status = .dlq then return ()
      else do
        transition x.id delivery.status .dlq .worker "attempts_exhausted"
        restOfHandler x delivery
  | .connect r => dropped do
    transition x.id r.status .dlq .worker "attempts_exhausted"
    restOfHandler x r
  | .begin r => dropped do
    Prog.tryCatch
      (do
        sql .begin
        let result ← handlerTx x.id r
        sql .commit
        return result)
      fun err => do
        sql .rollback
        Prog.raise err
    restOfHandler x r
  | .update r => dropped do
    restOfTx (handlerTx x.id r)
    restOfHandler x r
  | .insert r => dropped do
    restOfTx (restOfMark x.id r)
    restOfHandler x r
  | .commit r => dropped do
    restOfTx (return ())
    restOfHandler x r
  | .rollback r err => dropped do
    Prog.bind (sql .rollback) fun _ => (Prog.raise err : Code Unit)
    restOfHandler x r
  | .park r => dropped (restOfHandler x r)
  | .last r => dropped (restOfLast x.id r)
  | .alert r found => dropped (restOfAlert r found)
  | .finished => return .done

/-- The stage after a statement of the transaction: an error rolls it back. -/
def orRollback {α : Type} (r : DeliveryForWorker) (st : HandlerStage) : Except Err α → HandlerStage
  | .ok _ => st
  | .error err => .rollback r err

/-- The stage after a call outside of it: an error ends the handler. -/
def orOver {α : Type} (f : α → HandlerStage) : Except Err α → HandlerStage
  | .ok a => f a
  | .error _ => .finished

/-- The stage after the read. -/
def found : Option DeliveryForWorker → HandlerStage
  | none => .finished
  | some r => if r.status = .dlq then .finished else .connect r

/-- The next call of a stage, and the stage its answer leads to. -/
def next (x : IdText) : HandlerStage → Option (Σ e : Eff, e.Resp → HandlerStage)
  | .read => some ⟨.sql (.selectForDelivery x.id), orOver (α := Option DeliveryForWorker) found⟩
  | .connect r => some ⟨.sql .connect, orOver (α := Unit) fun _ => .begin r⟩
  | .begin r => some ⟨.sql .begin, orRollback (α := Unit) r (.update r)⟩
  | .update r => some ⟨.sql (.write (.updateStatus x.id .dlq)),
      orRollback (α := Option ℕ) r (.insert r)⟩
  | .insert r => some ⟨.sql (.write (.insertTransition x.id (some r.status) .dlq "attempts_exhausted"
      .worker)), orRollback (α := Option ℕ) r (.commit r)⟩
  | .commit r => some ⟨.sql .commit, orRollback (α := Unit) r (.park r)⟩
  | .rollback _ _ => some ⟨.sql .rollback, fun _ => .finished⟩
  | .park r => some ⟨.dlqAdd x, orOver (α := Unit) fun _ => .last r⟩
  | .last r => some ⟨.sql (.selectLastAttempt x.id),
      orOver (α := Option LastAttemptSummary) fun found => .alert r found⟩
  | .alert r found => some ⟨.alert r found, fun _ => .finished⟩
  | .finished => none

end HandlerStage

/-- **The program of a handler is laid out by its stages.** -/
theorem HandlerStage.laid (st : HandlerStage) {e : Eff} {k : e.Resp → Code Reply}
    (h : st.prog x = .op e k) : ∃ f, st.next x = some ⟨e, f⟩ ∧ ∀ r, k r = (f r).prog x := by
  cases st with
  | read =>
    cases h
    refine ⟨_, rfl, fun r => ?_⟩
    rcases r with err | _ | r
    · rfl
    · rfl
    · change _ = (if r.status = .dlq then HandlerStage.finished else .connect r).prog x
      change Prog.bind (Prog.tryCatch (if r.status = .dlq then _ else _) _) _ = _
      split <;> rfl
  | finished => cases h
  | _ =>
    cases h
    exact ⟨_, rfl, fun r => by cases r <;> rfl⟩

/-! ## What a handler knows -/

/-- The writes of a handler. -/
def handlerWrites (d : DeliveryId) (r : DeliveryForWorker) (g g' : ℕ) : List Entry :=
  [(.updateStatus d .dlq, g),
    (.insertTransition d (some r.status) .dlq "attempts_exhausted" .worker, g')]

/-- The handler has read `r`, which is not in DLQ; `moved` says whether its COMMIT was answered. -/
structure Facts.Took (m : Facts) (d : DeliveryId) (r : DeliveryForWorker) (moved : Bool) : Prop where
  row : m.row = some r
  id : r.id = d
  status : r.status ≠ .dlq
  moved : m.moved = moved

/-- What has been read and written at a stage. -/
def HandlerStage.Knows (d : DeliveryId) (m : Facts) : HandlerStage → Prop
  | .read => m.moved = false
  | .connect r => m.Took d r false
  | .begin r => m.Took d r false
  | .update r => m.Took d r false ∧ m.tx = some []
  | .insert r => m.Took d r false ∧ ∃ g, m.tx = some [(.updateStatus d .dlq, g)]
  | .commit r => m.Took d r false ∧ ∃ g g', m.tx = some (handlerWrites d r g g')
  | .rollback r _ => m.Took d r false
  | .park r => m.Took d r true
  | .last r => m.Took d r true
  | .alert r _ => m.Took d r true
  | .finished => True

/-- The execution is at the stage `st` of handling a job with the text `x` for its delivery. -/
structure Thread.AtTurn (th : Thread) (x : IdText) (st : HandlerStage) : Prop where
  prog : th.prog = st.prog x
  knows : st.Knows x.id th.facts

theorem HandlerStage.knows_next {m : Facts} {st : HandlerStage} {e : Eff} {f : e.Resp → HandlerStage}
    (h : st.Knows x.id m) (hf : st.next x = some ⟨e, f⟩) {r : e.Resp} (hr : expectsCall m e r)
    (hid : e = .sql (.selectForDelivery x.id) → ∀ r', (m.next e r).row = some r' → r'.id = x.id) :
    (f r).Knows x.id (m.next e r) := by
  cases st with
  | read =>
    cases hf
    rcases r with err | _ | r
    · trivial
    · trivial
    · change (if r.status = .dlq then HandlerStage.finished else .connect r).Knows x.id _
      split
      · trivial
      · rename_i hst
        exact ⟨rfl, hid rfl r rfl, hst, h⟩
  | connect r₀ =>
    cases hf
    cases r with
    | error err => trivial
    | ok _ => exact ⟨h.row, h.id, h.status, h.moved⟩
  | begin r₀ =>
    cases hf
    cases r with
    | error err => exact ⟨h.row, h.id, h.status, h.moved⟩
    | ok _ => exact ⟨⟨h.row, h.id, h.status, h.moved⟩, rfl⟩
  | update r₀ =>
    obtain ⟨htook, htx⟩ := h
    cases hf
    rcases r with err | _ | g
    · exact ⟨htook.row, htook.id, htook.status, htook.moved⟩
    · exact absurd rfl (hr (by rw [htx]; rfl))
    · refine ⟨⟨htook.row, htook.id, htook.status, htook.moved⟩, g, ?_⟩
      change m.tx.map _ = _
      rw [htx]
      rfl
  | insert r₀ =>
    obtain ⟨htook, g, htx⟩ := h
    cases hf
    rcases r with err | _ | g'
    · exact ⟨htook.row, htook.id, htook.status, htook.moved⟩
    · exact absurd rfl (hr (by rw [htx]; rfl))
    · refine ⟨⟨htook.row, htook.id, htook.status, htook.moved⟩, g, g', ?_⟩
      change m.tx.map _ = _
      rw [htx]
      rfl
  | commit r₀ =>
    obtain ⟨htook, g, g', htx⟩ := h
    cases hf
    cases r with
    | error err => exact ⟨htook.row, htook.id, htook.status, htook.moved⟩
    | ok _ =>
      refine ⟨htook.row, htook.id, htook.status, ?_⟩
      change (m.moved || m.txHas Stmt.isMove) = true
      rw [Facts.txHas, htx, Bool.or_eq_true]
      exact Or.inr rfl
  | rollback r₀ err => cases hf; trivial
  | park r₀ =>
    cases hf
    cases r with
    | error err => trivial
    | ok _ => exact ⟨h.row, h.id, h.status, h.moved⟩
  | last r₀ =>
    cases hf
    cases r with
    | error err => trivial
    | ok _ => exact ⟨h.row, h.id, h.status, h.moved⟩
  | alert r₀ last => cases hf; trivial
  | finished => cases hf

theorem Db.forDelivery_id {db : Db} {r : DeliveryForWorker} (h : db.forDelivery d = some r) :
    r.id = d := by
  obtain ⟨row, hrow, h⟩ := Option.bind_eq_some_iff.mp h
  obtain ⟨e, -, h⟩ := Option.bind_eq_some_iff.mp h
  obtain ⟨ev, -, rfl⟩ := Option.map_eq_some_iff.mp h
  exact Db.delivery?_id hrow

/-- **A call takes a handler to its next stage.** -/
theorem Advance.turn {c : Choice} {e : Eff} {r : e.Resp} {k : e.Resp → Code Reply} {w : World}
    {m : Memory} (h : Advance s s' t c th e r k w m) (hs : s.Ok) {st : HandlerStage}
    (hst : th.AtTurn x st) :
    ∃ f, st.next x = some ⟨e, f⟩ ∧ (th.after e r k m).AtTurn x (f r) := by
  obtain ⟨f, hf, hprog⟩ := st.laid (hst.prog.symm.trans h.prog)
  refine ⟨f, hf, hprog r, HandlerStage.knows_next hst.knows hf (h.disciplined hs) fun he r' hx => ?_⟩
  subst he
  obtain ⟨-, -, -, hnone, -⟩ := (hs.threads t th h.live).permits h.prog
  obtain ⟨-, hans⟩ := perform_selectForDelivery h.done
  cases r with
  | error y => cases hnone.symm.trans hx
  | ok row =>
    obtain rfl : row = some r' := hx
    exact Db.forDelivery_id (Fault.answer_ok hans.symm).2.symm

theorem HandlerStage.next_commit {st : HandlerStage} {f : Except Err Unit → HandlerStage}
    (h : st.next x = some ⟨.sql .commit, f⟩) :
    ∃ r, st = .commit r ∧ f = HandlerStage.orRollback r (.park r) := by
  cases st with
  | commit r =>
    cases h
    exact ⟨r, rfl, rfl⟩
  | _ => cases h

theorem Advance.handler_commits {c : Choice} {r : Except Err Unit}
    {k : Except Err Unit → Code Reply} {w : World} {m : Memory}
    (h : Advance s s' t c th (.sql .commit) r k w m) (hs : s.Ok) (hk : th.kind = .failed job)
    {x : DeliveryForWorker} (hst : (HandlerStage.commit x).Knows job.deliveryId th.facts)
    (hf : c.fault ≠ .before) :
    s'.pg.db.status? job.deliveryId = some .dlq ∧ ∃ id τ, s'.pg.db.log job.deliveryId =
      s.pg.db.log job.deliveryId ++
        [⟨id, job.deliveryId, some x.status, .dlq, "attempts_exhausted", .worker, τ⟩] := by
  obtain ⟨htook, g, g', htx⟩ := hst
  have hsome := (hs.threads t th h.live).knows _ (.row (Or.inr hk) rfl (by rw [htook.row]; rfl))
  obtain ⟨row, hrow⟩ := Option.isSome_iff_exists.mp hsome
  obtain ⟨-, ws, hws, hdb⟩ := h.commits hs htx
  rw [if_neg hf] at hdb
  obtain ⟨⟨_, _, τ⟩, ws', rfl, hw, hws'⟩ := List.map_eq_cons_iff.mp hws
  obtain ⟨⟨_, id, τ'⟩, ws'', rfl, hw', hws''⟩ := List.map_eq_cons_iff.mp hws'
  obtain rfl := List.map_eq_nil_iff.mp hws''
  cases hw
  cases hw'
  refine ⟨?_, id, τ', ?_⟩
  · rw [hdb]
    simp [Db.status?, hrow]
  · rw [hdb]
    simp

theorem Kept.atTurn {st : HandlerStage} (hk : Kept th th') (h : th.AtTurn x st) : th'.AtTurn x st := by
  refine ⟨hk.prog.trans h.prog, ?_⟩
  rw [Thread.facts, hk.trace]
  exact h.knows

/-- A new handler reads if the job is exhausted, and is over otherwise. -/
theorem atTurn_fresh (env : Env) (t : Tid) (job : JobRef) :
    Thread.AtTurn { kind := .failed job, prog := program env t (.failed job) } job.text
      (if job.attemptsMade < env.maxAttempts then .finished else .read) := by
  have hprog : program env t (.failed job) = Prog.bind (handleFailed env job) fun _ => return .done :=
    rfl
  by_cases hmade : job.attemptsMade < env.maxAttempts
  · refine ⟨?_, ?_⟩
    · change program env t (.failed job) = _
      rw [hprog, handleFailed, if_pos hmade, if_pos hmade]
      rfl
    · rw [if_pos hmade]
      trivial
  · refine ⟨?_, ?_⟩
    · change program env t (.failed job) = _
      rw [hprog, handleFailed, if_neg hmade, if_neg hmade]
      rfl
    · rw [if_neg hmade]
      exact rfl

/-- Every handler is at one of its stages. -/
def Handling (s : State) : Prop :=
  ∀ t th, s.live? t = some th → ∀ job, th.kind = .failed job → ∃ st, th.AtTurn job.text st

theorem Handling.step (hs : s.Ok) (h : step env s l = some s') (hI : Handling s) : Handling s' := by
  refine step_threads (P := fun _ th => ∀ job, th.kind = .failed job →
    ∃ st, th.AtTurn job.text st) h hI ?_ ?_ ?_
  · intro u th th' hk hold job hd
    obtain ⟨st, hst⟩ := hold job (hk.kind ▸ hd)
    exact ⟨st, hk.atTurn hst⟩
  · rintro u k - - job rfl
    exact ⟨_, atTurn_fresh env u job⟩
  · intro t c th e r k w m _ hadv hold job hd
    obtain ⟨st, hst⟩ := hold job hd
    obtain ⟨f, -, hnext⟩ := hadv.turn hs hst
    exact ⟨f r, hnext⟩

theorem reachable_handling {C : State → Label → Prop} (h : Reachable env C s) : Handling s := by
  have hinv : s.Ok ∧ Handling s := by
    refine h.invariant (I := fun s => s.Ok ∧ Handling s) ⟨ok_init, fun t th h => ?_⟩ ?_
    · simp [State.live?] at h
    · rintro s l s' ⟨hs, hI⟩ - hstep
      exact ⟨hs.step hstep, hI.step hs hstep⟩
  exact hinv.2

end WebhookEngine
