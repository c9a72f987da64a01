import WebhookEngine.Proof.Chronicle
import WebhookEngine.Proof.Integrity

set_option autoImplicit false

/-!
# Who wrote the rows

Every row of the audit log and of the attempts is traced to the execution that has inserted it.

* `Thread.Inserted`: the execution got a number for a row it has inserted.
* **`reachable_serially`**: no number of the audit log or of the attempts is given out twice.
* `Authors`: which executions write which rows of the audit log.
* `Ledger`: the requests an execution has sent and the attempts it has inserted.
* **`transitions_attributed`**, **`attempts_attributed`**: the rows and their executions.
-/

namespace WebhookEngine

open EffectProg TransitionSystem

variable {env : Env} {C : State → Label → Prop} {s s' : State} {l : Label} {t u : Tid}
  {th th' : Thread} {job : JobRef} {db : Db}

/-! ## Numbers of rows -/

/-- The counters of the audit log and of the attempts. -/
inductive RowCounter where
  | transitions
  | attempts

variable {q : RowCounter}

def Db.serial (db : Db) : RowCounter → ℕ
  | .transitions => db.transitionSeq
  | .attempts => db.attemptSeq

/-- The counter that numbers what a statement inserts. -/
def Stmt.serial : Stmt → Option RowCounter
  | .insertTransition _ _ _ _ _ => some .transitions
  | .insertAttempt _ => some .attempts
  | _ => none

theorem Stmt.draw_serial {st : Stmt} (h : st.serial = some q) :
    (st.draw db).1 = db.serial q ∧ (st.draw db).2.serial q = db.serial q + 1 := by
  cases st <;> cases h <;> exact ⟨rfl, rfl⟩

theorem Stmt.draw_serial_le (st : Stmt) (q : RowCounter) : db.serial q ≤ (st.draw db).2.serial q := by
  cases st <;> cases q <;> simp [Stmt.draw, Db.serial]

@[simp] theorem Db.apply_serial (w : Write) (q : RowCounter) : (db.apply w).serial q = db.serial q := by
  obtain ⟨st, g, τ⟩ := w
  cases st <;> cases q <;> rfl

@[simp] theorem Db.applyAll_serial (ws : List Write) (q : RowCounter) :
    (db.applyAll ws).serial q = db.serial q := by
  induction ws generalizing db with
  | nil => rfl
  | cons w ws ih => rw [Db.applyAll_cons, ih, Db.apply_serial]

section Server

variable {pg pg' : Postgres} {now : Time} {sess sess' : Option Session} {fault : Fault}
  {rows : List DeliveryId}

theorem Writes.serial_le {st : Stmt} {x : Except Err (Option ℕ)} (h : Writes pg t now sess st pg' sess' x)
    (q : RowCounter) : pg.db.serial q ≤ pg'.db.serial q := by
  cases h with
  | refused => exact Nat.le_refl _
  | missed => exact Nat.le_refl _
  | joins => exact st.draw_serial_le q
  | alone =>
    rw [Db.apply_serial]
    exact st.draw_serial_le q

/-- **The number that is answered** was the next one. -/
theorem Writes.drawn {st : Stmt} {g : ℕ} (h : Writes pg t now sess st pg' sess' (.ok (some g)))
    (hq : st.serial = some q) : g = pg.db.serial q ∧ pg'.db.serial q = g + 1 := by
  generalize hx : (Except.ok (some g) : Except Err (Option ℕ)) = x at h
  cases h with
  | refused => cases hx
  | missed => exact absurd (Fault.answer_ok hx.symm).2 (by simp)
  | joins =>
    cases hx
    exact ⟨(Stmt.draw_serial hq).1, by rw [(Stmt.draw_serial hq).1]; exact (Stmt.draw_serial hq).2⟩
  | alone =>
    obtain rfl := Option.some.inj (Fault.answer_ok hx.symm).2
    rw [Db.apply_serial]
    exact ⟨(Stmt.draw_serial hq).1, by rw [(Stmt.draw_serial hq).1]; exact (Stmt.draw_serial hq).2⟩

theorem Sql.exec_serial_le {c : Sql} {x : Except Err c.Ret}
    (h : c.exec pg t now sess fault rows = some (pg', sess', x)) (q : RowCounter) :
    pg.db.serial q ≤ pg'.db.serial q := by
  cases c with
  | write st => exact (Stmt.exec_cases h).serial_le q
  | commit =>
    cases h
    change _ ≤ Db.serial (ite _ _ _) q
    split
    · exact Nat.le_refl _
    · rw [Db.applyAll_serial]
  | selectUnenqueued grace limit =>
    simp only [Sql.exec] at h
    split at h
    · split at h
      · cases h
        exact Nat.le_refl _
      · cases h
    · cases h
      exact Nat.le_refl _
  | selectStatusForUpdate d =>
    simp only [Sql.exec] at h
    split at h
    · split at h
      · split at h <;> cases h <;> exact Nat.le_refl _
      · cases h
    · cases h
      exact Nat.le_refl _
  | _ =>
    cases h
    exact Nat.le_refl _

end Server

/-- **The counters only go up.** -/
theorem step_serial_le (h : step env s l = some s') (q : RowCounter) :
    s.pg.db.serial q ≤ s'.pg.db.serial q := by
  cases step_happens h with
  | @op t c th e r k w m _ hadv =>
    have hw : s'.pg = w.pg := by rw [hadv.world]
    by_cases hq : ∃ c, e = .sql c
    · obtain ⟨c, rfl⟩ := hq
      obtain ⟨pg', sess', hex, rfl, -⟩ := perform_sql hadv.done
      rw [hw]
      exact Sql.exec_serial_le hex q
    · rw [hw, (perform_other (fun c hc => hq ⟨c, hc⟩) hadv.done).1]
  | settle _ _ hset => cases hset <;> exact Nat.le_refl _
  | createEndpoint hdb =>
    subst hdb
    cases q <;> exact Nat.le_refl _
  | patchEndpoint hdb =>
    subst hdb
    cases q <;> exact Nat.le_refl _
  | _ => exact Nat.le_refl _

/-- **The execution has inserted a row** and was answered with its number. -/
def Thread.Inserted (th : Thread) (st : Stmt) (id : ℕ) : Prop :=
  (⟨.sql (.write st), .ok (some id)⟩ : Event) ∈ th.trace

/-- The numbers that were answered are used up, and each was answered once. -/
structure Serially (s : State) : Prop where
  lt : ∀ (t : Tid) th st q id, s.threads[t]? = some th → st.serial = some q → th.Inserted st id →
    id < s.pg.db.serial q
  once : ∀ (t u : Tid) th th' st st' q id, s.threads[t]? = some th → s.threads[u]? = some th' →
    st.serial = some q → st'.serial = some q → th.Inserted st id → th'.Inserted st' id →
      t = u ∧ st = st'

theorem step_inserted (h : step env s l = some s') (ht : s'.threads[t]? = some th') {st : Stmt} {id : ℕ}
    (hq : st.serial = some q) (hins : th'.Inserted st id) :
    (∃ th, s.threads[t]? = some th ∧ th.Inserted st id) ∨
      (∃ c, l = .op t c) ∧ id = s.pg.db.serial q ∧ s'.pg.db.serial q = id + 1 ∧
        ∀ st', th'.Inserted st' id → st' = st ∨ ∃ th, s.threads[t]? = some th ∧ th.Inserted st' id := by
  cases step_comes h ht with
  | @call c th e x k w m hl hadv hth =>
    subst hth
    have hlive := (State.live?_eq_some.mp hadv.live).1
    rcases List.mem_cons.mp hins with hnew | hold
    · -- the row of this call
      cases hnew
      obtain ⟨pg', sess', hex, hw, -⟩ := perform_sql hadv.done
      obtain ⟨h1, h2⟩ := (Stmt.exec_cases hex).drawn hq
      refine Or.inr ⟨⟨c, hl⟩, h1, ?_, fun st' hins' => ?_⟩
      · rw [hadv.world, hw]
        exact h2
      · rcases List.mem_cons.mp hins' with hsame | hold
        · cases hsame
          exact Or.inl rfl
        · exact Or.inr ⟨th, hlive, hold⟩
    · exact Or.inl ⟨th, hlive, hold⟩
  | @kept th hold _ htrace =>
    refine Or.inl ⟨th, hold, ?_⟩
    unfold Thread.Inserted at hins ⊢
    rwa [htrace] at hins
  | fresh _ htrace =>
    unfold Thread.Inserted at hins
    rw [htrace] at hins
    cases hins

theorem Serially.step (h : step env s l = some s') (hI : Serially s) : Serially s' where
  lt t th st q id ht hq hins := by
    rcases step_inserted h ht hq hins with ⟨th₀, ht₀, hold⟩ | ⟨-, -, hnext, -⟩
    · exact Nat.lt_of_lt_of_le (hI.lt t th₀ st q id ht₀ hq hold) (step_serial_le h q)
    · omega
  once t u th th' st st' q id ht hu hq hq' hins hins' := by
    rcases step_inserted h ht hq hins with ⟨th₀, ht₀, hold⟩ | ⟨⟨c, hl⟩, hid, -, hsame⟩
    · rcases step_inserted h hu hq' hins' with ⟨th₁, hu₁, hold'⟩ | ⟨-, hid, -⟩
      · exact hI.once t u th₀ th₁ st st' q id ht₀ hu₁ hq hq' hold hold'
      · have := hI.lt t th₀ st q id ht₀ hq hold
        omega
    · rcases step_inserted h hu hq' hins' with ⟨th₁, hu₁, hold'⟩ | ⟨⟨c', hl'⟩, -, -, -⟩
      · have := hI.lt u th₁ st' q id hu₁ hq' hold'
        omega
      · -- both are the row of this call
        obtain ⟨rfl, -⟩ := Label.op.inj (hl.symm.trans hl')
        obtain rfl := Option.some.inj (ht.symm.trans hu)
        rcases hsame st' hins' with rfl | ⟨th₁, hu₁, hold'⟩
        · exact ⟨rfl, rfl⟩
        · have := hI.lt t th₁ st' q id hu₁ hq' hold'
          omega

/-- **No number is given out twice**, neither in the audit log nor among the attempts. -/
theorem reachable_serially (h : Reachable env C s) : Serially s :=
  h.invariant (I := Serially) ⟨fun t th st q id ht => (by cases ht),
    fun t u th th' st st' q id ht => (by cases ht)⟩
    fun _ _ _ hI _ hstep => hI.step hstep

/-! ## Rows come from transactions -/

theorem facts_answered {trace : List Event} {st : Stmt} {g : ℕ} (h : (st, g) ∈ (facts trace).tx.getD []) :
    (⟨.sql (.write st), .ok (some g)⟩ : Event) ∈ trace := by
  induction trace with
  | nil => cases h
  | cons ev trace ih =>
    obtain ⟨e, x⟩ := ev
    rcases Facts.next_tx (e := e) h with hold | ⟨st', g', rfl, heq⟩
    · exact List.mem_cons_of_mem _ (ih hold)
    · cases heq
      match x with
      | .error y => exact List.mem_cons_of_mem _ (ih h)
      | .ok none => exact List.mem_cons_of_mem _ (ih h)
      | .ok (some g₁) =>
        have h' : (st, g) ∈ ((facts trace).tx.map (· ++ [(st, g₁)])).getD [] := h
        cases htx : (facts trace).tx with
        | none =>
          rw [htx] at h'
          cases h'
        | some tx =>
          rw [htx] at h' ih
          rcases List.mem_append.mp h' with hold | hnew
          · exact List.mem_cons_of_mem _ (ih hold)
          · cases List.mem_singleton.mp hnew
            exact List.mem_cons_self

/-- The statement that inserts a row of the audit log. -/
def TransitionRow.stmt (tr : TransitionRow) : Stmt :=
  .insertTransition tr.deliveryId tr.fromStatus tr.toStatus tr.reason tr.actor

/-- The statement that inserts an attempt. -/
def AttemptRow.stmt (a : AttemptRow) : Stmt := .insertAttempt a.toAttemptData

theorem Db.mem_applyAll_transitions {ws : List Write} {tr : TransitionRow}
    (h : tr ∈ (db.applyAll ws).transitions) :
    tr ∈ db.transitions ∨ (tr.stmt, tr.id) ∈ ws.map fun w => (w.stmt, w.gen) := by
  induction ws generalizing db with
  | nil => exact Or.inl h
  | cons w ws ih =>
    rw [Db.applyAll_cons] at h
    rcases ih h with hmem | hmem
    · obtain ⟨st, g, τ⟩ := w
      cases st with
      | insertTransition d f st reason a =>
        rcases List.mem_append.mp hmem with hold | hnew
        · exact Or.inl hold
        · cases List.mem_singleton.mp hnew
          exact Or.inr List.mem_cons_self
      | _ => exact Or.inl hmem
    · exact Or.inr (List.mem_cons_of_mem _ hmem)

theorem Db.mem_applyAll_attempts {ws : List Write} {a : AttemptRow}
    (h : a ∈ (db.applyAll ws).attempts) :
    a ∈ db.attempts ∨ (a.stmt, a.id) ∈ ws.map fun w => (w.stmt, w.gen) := by
  induction ws generalizing db with
  | nil => exact Or.inl h
  | cons w ws ih =>
    rw [Db.applyAll_cons] at h
    rcases ih h with hmem | hmem
    · obtain ⟨st, g, τ⟩ := w
      cases st with
      | insertAttempt b =>
        rcases List.mem_append.mp hmem with hold | hnew
        · exact Or.inl hold
        · cases List.mem_singleton.mp hnew
          exact Or.inr List.mem_cons_self
      | _ => exact Or.inl hmem
    · exact Or.inr (List.mem_cons_of_mem _ hmem)

/-- The tables change in a COMMIT of `th`, which applies the writes of its transaction. -/
structure Applies (s s' : State) (t : Tid) (th : Thread) (ws : List Write) : Prop where
  live : s.live? t = some th
  tx : th.facts.tx = some (ws.map fun w => (w.stmt, w.gen))
  script : Script th.kind th.facts (ws.map fun w => (w.stmt, w.gen))
  db : s'.pg.db = s.pg.db.applyAll ws

/-- **The audit log and the attempts change in COMMITs only.** -/
theorem rows_arrive (hs : s.Ok) (h : step env s l = some s') :
    (s'.pg.db.transitions = s.pg.db.transitions ∧ s'.pg.db.attempts = s.pg.db.attempts) ∨
      ∃ t th ws, Applies s s' t th ws := by
  rcases step_cases h with ⟨t, c, -, hop⟩ | hidle
  · obtain ⟨th, e, x, k, w, m, hadv⟩ := stepOp_cases hop
    have hok := hs.threads t th hadv.live
    have hw : s'.pg = w.pg := by rw [hadv.world]
    by_cases hq : ∃ q, e = .sql q
    · obtain ⟨q, rfl⟩ := hq
      obtain ⟨pg', sess', hex, rfl, rfl⟩ := perform_sql hadv.done
      cases (hok.sql hs.db hadv.prog hex).server with
      | tables htab =>
        left
        rw [hw]
        exact ⟨htab.transitions, htab.attempts⟩
      | commit hq hc =>
        subst hq
        obtain ⟨tx, htx, hscript, -⟩ := hok.permits hadv.prog
        obtain ⟨-, ws, hws, hdb⟩ := hadv.commits hs htx
        subst hws
        by_cases hf : c.fault = .before
        · rw [if_pos hf] at hdb
          rw [hdb]
          exact Or.inl ⟨rfl, rfl⟩
        · rw [if_neg hf] at hdb
          exact Or.inr ⟨t, th, ws, hadv.live, htx, hscript, hdb⟩
      | touch =>
        left
        rw [hw]
        exact ⟨rfl, rfl⟩
    · left
      rw [hw, (perform_other (fun q hq' => hq ⟨q, hq'⟩) hadv.done).1]
      exact ⟨rfl, rfl⟩
  · exact Or.inl ⟨hidle.tables.transitions, hidle.tables.attempts⟩

theorem Applies.inserted {ws : List Write} (h : Applies s s' t th ws) {st : Stmt} {id : ℕ}
    (hmem : (st, id) ∈ ws.map fun w => (w.stmt, w.gen)) : th.Inserted st id := by
  refine facts_answered ?_
  change (st, id) ∈ th.facts.tx.getD []
  rw [h.tx]
  exact hmem

/-! ## The audit log -/

/-- **Who writes what into the audit log**: the API a new delivery, its retry a delivery from the DLQ
back, a processor its own delivery forward, the handler of an exhausted job its own into the DLQ. -/
inductive Authors : Kind → TransitionRow → Prop where
  | created {req : EventRequest} {id : ℕ} {d : DeliveryId} {τ : Time} :
      Authors (.postEvent req) ⟨id, d, none, .pending, "created", .api, τ⟩
  | retried {id : ℕ} {x : IdText} {reason : String} {τ : Time} :
      Authors (.postRetry x) ⟨id, x.id, some .dlq, .pending, reason, .manualRetry, τ⟩
  | marked {job : JobRef} {id : ℕ} {f : Status} {reason : String} {τ : Time}
      (hf : f.terminal = false) :
      Authors (.deliver job) ⟨id, job.deliveryId, some f, .delivering, reason, .worker, τ⟩
  | recorded {job : JobRef} {id : ℕ} {f : Status} {o : AttemptOutcome} {reason : String} {τ : Time}
      (hf : f = .delivering ∨ o = .circuitOpen ∧ f.terminal = false) :
      Authors (.deliver job) ⟨id, job.deliveryId, some f, o.toStatus, reason, .worker, τ⟩
  | exhausted {job : JobRef} {id : ℕ} {f : Status} {reason : String} {τ : Time} (hf : f ≠ .dlq) :
      Authors (.failed job) ⟨id, job.deliveryId, some f, .dlq, reason, .worker, τ⟩

theorem Script.authors {k : Kind} {m : Facts} {tx : List Entry} (h : Script k m tx)
    (hcall : ∀ c, k ≠ .repoCall c) {tr : TransitionRow} (hmem : (tr.stmt, tr.id) ∈ tx) :
    Authors k tr := by
  obtain ⟨id, d, f, g, reason, a, τ⟩ := tr
  have hmem : (Stmt.insertTransition d f g reason a, id) ∈ tx := hmem
  cases h with
  | nil => cases hmem
  | move hmv =>
    obtain ⟨⟨rfl, rfl, rfl, rfl, rfl⟩, rfl⟩ := by simpa using hmem
    cases hmv with
    | mark h => exact .marked h.open_
    | exhaust _ hs => exact .exhausted hs
    | retry hk =>
      rcases hk with ⟨n, rfl⟩ | rfl
      · exact .retried
      · exact absurd rfl (hcall _)
    | call => exact absurd rfl (hcall _)
  | record hrec =>
    obtain ⟨⟨rfl, rfl, rfl, rfl, rfl⟩, rfl⟩ := by simpa using hmem
    cases hrec with
    | circuit h hm hd hn ho =>
      rw [hd]
      exact @Authors.recorded _ _ _ .circuitOpen _ _ (Or.inr ⟨rfl, h.open_⟩)
    | outcome h hm hd =>
      rw [hd]
      exact .recorded (Or.inl rfl)
    | call => exact absurd rfl (hcall _)
  | ingest hk =>
    obtain ⟨⟨rfl, rfl, rfl, rfl, rfl⟩, rfl⟩ := by simpa using hmem
    rcases hk with ⟨req, rfl⟩ | ⟨p, rfl⟩
    · exact .created
    · exact absurd rfl (hcall _)
  | claim hk h =>
    obtain ⟨_, -, -, heq⟩ := h _ hmem
    cases heq

/-- **Every row of the audit log was written by one execution**, and by one that may write it. -/
theorem transitions_attributed (h : Reachable env NoCalls s) {tr : TransitionRow}
    (htr : tr ∈ s.pg.db.transitions) :
    ∃ (t : Tid) (th : Thread), s.threads[t]? = some th ∧ th.Inserted tr.stmt tr.id ∧
      Authors th.kind tr ∧ ∀ (u : Tid) (th' : Thread), s.threads[u]? = some th' →
        ∀ tr' : TransitionRow, tr'.id = tr.id → th'.Inserted tr'.stmt tr'.id → u = t := by
  have hsome : ∀ tr ∈ s.pg.db.transitions, ∃ (t : Tid) (th : Thread), s.threads[t]? = some th ∧
      th.Inserted tr.stmt tr.id ∧ Authors th.kind tr := by
    refine h.along (I := fun s => ∀ tr ∈ s.pg.db.transitions, ∃ (t : Tid) (th : Thread),
      s.threads[t]? = some th ∧ th.Inserted tr.stmt tr.id ∧ Authors th.kind tr) nofun ?_
    intro s l s' hr hI _ hstep tr htr
    have hgo : ∀ {t : Tid} {th : Thread}, s.threads[t]? = some th → th.Inserted tr.stmt tr.id →
        Authors th.kind tr → ∃ (t : Tid) (th : Thread), s'.threads[t]? = some th ∧
          th.Inserted tr.stmt tr.id ∧ Authors th.kind tr := by
      intro t th ht hins hau
      obtain ⟨th', ht', hk, new, hnew⟩ := step_continues hstep t th ht
      refine ⟨t, th', ht', ?_, hk ▸ hau⟩
      unfold Thread.Inserted
      rw [← hnew]
      exact List.mem_append_right _ hins
    by_cases hold : tr ∈ s.pg.db.transitions
    · obtain ⟨t, th, ht, hins, hau⟩ := hI tr hold
      exact hgo ht hins hau
    · rcases rows_arrive (reachable_ok hr) hstep with ⟨hsame, -⟩ | ⟨t, th, ws, happ⟩
      · exact absurd (hsame ▸ htr) hold
      · rw [happ.db] at htr
        have hmem := (Db.mem_applyAll_transitions htr).resolve_left hold
        exact hgo (State.live?_eq_some.mp happ.live).1 (happ.inserted hmem)
          (happ.script.authors (kind_ne_call (fun _ _ h => h) hr happ.live) hmem)
  obtain ⟨t, th, ht, hins, hau⟩ := hsome tr htr
  refine ⟨t, th, ht, hins, hau, fun u th' hu tr' hid hins' => ?_⟩
  exact ((reachable_serially h).once u t th' th tr'.stmt tr.stmt .transitions tr.id hu ht rfl rfl
    (hid ▸ hins') hins).1

theorem transitions_attributed_delivered : ∃ (s : State) (tr : TransitionRow) (t : Tid) (th : Thread),
    Reachable sampleEnv NoCalls s ∧ tr ∈ s.pg.db.transitions ∧ tr.toStatus = .delivered ∧
      s.threads[t]? = some th ∧ Authors th.kind tr := by
  obtain ⟨s, hreach, hs⟩ := sample_run (C := NoCalls) (sampleIngest ++ sampleDelivery 1)
    (fun s => s.pg.db.transitions.any fun tr => tr.toStatus = .delivered) (by decide +kernel)
  obtain ⟨tr, htr, hto⟩ := List.any_eq_true.mp hs
  obtain ⟨t, th, ht, -, hau, -⟩ := transitions_attributed hreach htr
  exact ⟨s, tr, t, th, hreach, htr, by simpa using hto, ht, hau⟩

/-! ## Requests and attempts -/

/-- What an execution has sent and stored. -/
structure Ledger where
  requests : List HttpRequest := []
  attempts : List AttemptRow := []

def Ledger.next (m : Ledger) : (e : Eff) → e.Resp → Ledger
  | .httpStart req, _ => { m with requests := req :: m.requests }
  | .sql (.write (.insertAttempt a)), .ok (some g) => { m with attempts := ⟨a, g⟩ :: m.attempts }
  | _, _ => m

/-- **What the requests say about an attempt**: an attempt that was stopped by the breaker sent
nothing, and every other one sent one request that carries its number, and the text `i` for its
delivery. -/
def Witnessed (i : IdText) (requests : List HttpRequest) (a : AttemptData) : Prop :=
  if a.outcome = .circuitOpen then requests = []
  else ∃ req τ signature, requests = [req] ∧
    req.headers = buildWebhookHeaders i a.attemptNumber τ signature

/-- The calls that fit: at most one request, and after it at most one attempt. -/
def permitsLedger (i : IdText) (m : Ledger) : Eff → Prop
  | .httpStart _ => m.requests = [] ∧ m.attempts = []
  | .sql (.write (.insertAttempt a)) => m.attempts = [] ∧ Witnessed i m.requests a
  | _ => True

/-- The monitor. -/
def ledgers (i : IdText) : Monitor Eff Eff.Resp Ledger where
  next := Ledger.next
  permits := permitsLedger i
  expects _ _ _ := True

section Program

variable {m : Ledger} {i : IdText} {α β : Type}

/-- Calls that neither send nor store an attempt. -/
def Discreet : Eff → Prop
  | .httpStart _ => False
  | .sql (.write (.insertAttempt _)) => False
  | _ => True

theorem Discreet.same {e : Eff} (h : Discreet e) :
    permitsLedger i m e ∧ ∀ x, (ledgers i).next m e x = m := by
  cases e with
  | httpStart req => exact h.elim
  | sql q =>
    cases q with
    | write st =>
      cases st with
      | insertAttempt a => exact h.elim
      | _ => exact ⟨trivial, fun _ => rfl⟩
    | _ => exact ⟨trivial, fun _ => rfl⟩
  | _ => exact ⟨trivial, fun _ => rfl⟩

theorem safe_discreet {p : Code α} {Q : Ledger → Except Err α → Prop} (hp : p.Uses Discreet)
    (hQ : ∀ x, Q m x) : Prog.Safe (ledgers i) m p Q :=
  hp.safe (fun _ he => he.same) hQ

/-- **Sequencing rule** for what neither sends nor stores an attempt. -/
theorem safe_discreet_then {p : Code α} {f : α → Code β} {Q : Ledger → Except Err β → Prop}
    (hp : p.Uses Discreet) (herr : ∀ y, Q m (.error y)) (hf : ∀ a, Prog.Safe (ledgers i) m (f a) Q) :
    Prog.Safe (ledgers i) m (p.bind f) Q := by
  refine Prog.safe_bind.mpr (safe_discreet hp fun x => ?_)
  cases x with
  | error y => exact herr y
  | ok a => exact hf a

theorem Discreet.of_remote {p : Code α} (hp : p.Uses Remote) : p.Uses Discreet :=
  hp.mono fun e he => by
    cases e with
    | redis c => trivial
    | _ => exact he.elim

theorem discreet_transition (d : DeliveryId) (f g : Status) (a : Actor) (reason : String) :
    (transition d f g a reason).Uses Discreet :=
  uses_withTx trivial trivial trivial trivial
    ((uses_sql trivial).bind fun _ => (uses_sql trivial).bind fun _ => trivial)

/-- **The rule for `recordAttempt`.** -/
theorem safe_recordAttempt_ledgers {input : RecordAttemptInput} {Q : Ledger → Except Err Unit → Prop}
    (hm : m.attempts = []) (hw : Witnessed i m.requests input.toAttemptData) (hQ : ∀ m' x, Q m' x) :
    Prog.Safe (ledgers i) m (recordAttempt input) Q := by
  refine safe_discreet_then (uses_sql trivial) (fun y => hQ m _) fun _ => Prog.safe_tryCatch.mpr ?_
  -- an error ends in a ROLLBACK
  have hback : ∀ (m : Ledger) (y : Err), Prog.Safe (ledgers i) m
      ((sql .rollback).bind fun _ => Prog.raise y) Q := fun m y =>
    safe_discreet ((uses_sql trivial).bind fun _ => trivial) fun x => hQ m x
  refine safe_discreet_then (uses_sql trivial) (fun y => hback m y) fun _ => ?_
  refine Prog.safe_bind.mpr (Prog.safe_bind.mpr (Prog.safe_bind.mpr
    ⟨⟨hm, hw⟩, fun x _ => Prog.safe_ofExcept.mpr ?_⟩))
  cases x with
  | error y => exact hback _ y
  | ok g =>
    refine safe_discreet ((uses_sql trivial).bind fun _ => (uses_sql trivial).bind fun _ => trivial)
      fun x => ?_
    cases x with
    | error y => exact hback _ y
    | ok _ =>
      refine safe_discreet ((uses_sql trivial).bind fun _ => trivial) fun x => ?_
      cases x with
      | error y => exact hback _ y
      | ok _ => exact hQ _ _

theorem discreet_cleanup (t : Tid) (held : Option EndpointId) :
    (cleanup env job t held).Uses Discreet := Discreet.of_remote (remote_cleanup job t held)

theorem safe_pickup_ledgers (hm : m = {}) :
    Prog.Safe (ledgers i) m (pickup env job) fun m' x => ∀ p, x = .ok (some p) → m' = {} := by
  subst hm
  have herr : ∀ y : Err, ∀ p, (Except.error y : Except Err (Option Pickup)) = .ok (some p) →
      ({} : Ledger) = {} := fun _ _ _ => rfl
  refine safe_discreet_then (uses_sql trivial) herr fun row => ?_
  cases row with
  | none => exact fun _ _ => rfl
  | some r =>
    dsimp only
    split
    · exact fun _ _ => rfl
    split
    · exact safe_discreet ((uses_call trivial).bind fun _ => (uses_await trivial).bind fun _ => trivial)
        fun _ _ _ => rfl
    refine safe_discreet_then (Discreet.of_remote (remote_checkState _)) herr fun breaker => ?_
    split
    · refine safe_discreet_then (uses_call trivial) herr fun now => ?_
      refine safe_discreet_then (uses_call trivial) herr fun later => ?_
      refine safe_discreet_then (uses_call trivial) herr fun k => ?_
      refine Prog.safe_bind.mpr (safe_recordAttempt_ledgers rfl rfl fun m x => ?_)
      cases x <;> exact nofun
    · refine safe_discreet_then (Discreet.of_remote (remote_tryAcquire _)) herr fun got => ?_
      split
      · exact fun _ _ => rfl
      · exact safe_discreet ((uses_call trivial).bind fun _ => (uses_call trivial).bind fun _ =>
          (uses_await trivial).bind fun _ => trivial) fun _ _ _ => rfl

theorem safe_exchange_ledgers {req : HttpRequest}
    {Q : Ledger → Except Err (Except Thrown DeliverResult) → Prop} (hm : m = {})
    (hQ : ∀ x, Q ⟨[req], []⟩ x) :
    Prog.Safe (ledgers i) m (withLockHeartbeat (deliver env req)) Q := by
  subst hm
  refine ⟨trivial, fun _ _ => Prog.safe_andFinally.mpr ⟨trivial, fun _ _ => ⟨⟨rfl, rfl⟩, fun _ _ => ?_⟩⟩⟩
  have hend : ∀ r, Prog.Safe (ledgers i) ⟨[req], []⟩ ((call .clearInterval).bind fun _ => Prog.ret ())
      fun m'' r' => match r' with
        | .ok _ => Q m'' r
        | .error x => Q m'' (.error x) := fun r =>
    ⟨trivial, fun _ _ => hQ r⟩
  refine ⟨trivial, fun reply _ => ?_⟩
  cases reply with
  | response status text => exact ⟨trivial, fun _ _ => hend _⟩
  | thrown e => exact hend _

theorem examine_not_circuitOpen (lockLost : Bool) (res : Except Thrown DeliverResult) :
    (examine env lockLost res).outcome ≠ .circuitOpen := by
  unfold examine
  split <;> split <;> try simp [lockLostFinding]
  · split <;> simp
  · split <;> simp

theorem safe_attemptDelivery_ledgers {p : Pickup} {Q : Ledger → Except Err Unit → Prop}
    (hm : m = {}) (hQ : ∀ m' x, Q m' x) :
    Prog.Safe (ledgers job.text) m (attemptDelivery env job p) Q := by
  refine safe_discreet_then (discreet_transition _ _ _ _ _) (fun y => hQ m _) fun _ => ?_
  refine safe_discreet_then (uses_call trivial) (fun y => hQ m _) fun nowMs => ?_
  refine safe_discreet_then (uses_call trivial) (fun y => hQ m _) fun startedAt => ?_
  refine Prog.safe_bind.mpr (safe_exchange_ledgers hm fun result => ?_)
  cases result with
  | error y => exact hQ _ _
  | ok result =>
    refine safe_discreet_then (uses_call trivial) (fun y => hQ _ _) fun finishedAt => ?_
    refine safe_discreet_then (uses_call trivial) (fun y => hQ _ _) fun lockLost => ?_
    refine safe_discreet_then (Discreet.of_remote (remote_noteOutcome _ _)) (fun y => hQ _ _) fun _ => ?_
    refine safe_discreet_then (uses_call trivial) (fun y => hQ _ _) fun now => ?_
    refine safe_discreet_then (uses_call trivial) (fun y => hQ _ _) fun k => ?_
    refine Prog.safe_bind.mpr (safe_recordAttempt_ledgers rfl ?_ fun m x => ?_)
    · rw [Witnessed, if_neg (examine_not_circuitOpen _ _)]
      exact ⟨_, _, _, rfl, rfl⟩
    · cases x with
      | error y => exact hQ _ _
      | ok _ =>
        dsimp only
        split <;> exact hQ _ _

/-- **Every processor sends at most one request**, and stores at most one attempt, which says so. -/
theorem safe_ledgers (job : JobRef) (t : Tid) :
    Prog.Safe (ledgers job.text) {} (program env t (.deliver job)) fun _ _ => True := by
  refine Prog.safe_bind.mpr (Prog.Safe.mono (Q := fun _ _ => True) ?_ fun m x _ => ?_)
  · refine safe_discreet_then (uses_redis trivial) (fun _ => trivial) fun acquired => ?_
    cases acquired with
    | false =>
      exact safe_discreet ((uses_call trivial).bind fun now =>
        (uses_await trivial).bind fun _ => trivial) fun _ => trivial
    | true =>
      refine Prog.safe_bind.mpr (Prog.safe_tryCatch.mpr
        ((safe_pickup_ledgers rfl).mono fun m x hx => ?_))
      match x with
      | .error y =>
        refine Prog.safe_bind.mpr (safe_discreet (discreet_cleanup _ _) fun x => ?_)
        cases x <;> trivial
      | .ok none => exact safe_discreet (discreet_cleanup _ _) fun _ => trivial
      | .ok (some p) =>
        refine Prog.safe_andFinally.mpr (safe_attemptDelivery_ledgers (hx p rfl) fun m x => ?_)
        refine safe_discreet (discreet_cleanup _ _) fun x' => ?_
        cases x' <;> trivial
  · cases x <;> trivial

end Program

/-! ## The attempts -/

/-- What an execution has sent. -/
def Thread.requests (th : Thread) : List HttpRequest := th.trace.filterMap Event.request?

/-- What the ledger of a processor says. -/
structure Ledger.Sound (i : IdText) (m : Ledger) : Prop where
  single : ∀ a ∈ m.attempts, ∀ b ∈ m.attempts, b = a
  witnessed : ∀ a ∈ m.attempts, Witnessed i m.requests a.toAttemptData

theorem Ledger.Sound.next {i : IdText} {m : Ledger} (h : m.Sound i) {e : Eff} {x : e.Resp}
    (hp : permitsLedger i m e) : (m.next e x).Sound i := by
  by_cases hd : Discreet e
  · have hsame : m.next e x = m := (hd.same (i := i) (m := m)).2 x
    rwa [hsame]
  cases e with
  | httpStart req => exact ⟨h.single, fun a ha => by rw [Ledger.next, hp.2] at ha; cases ha⟩
  | sql q =>
    cases q with
    | write st =>
      cases st with
      | insertAttempt a =>
        match x with
        | .error y => exact h
        | .ok none => exact h
        | .ok (some g) =>
          have honly : ∀ b ∈ (m.next (.sql (.write (.insertAttempt a))) (.ok (some g))).attempts,
              b = ⟨a, g⟩ := by
            intro b hb
            have hb : b ∈ (⟨a, g⟩ : AttemptRow) :: m.attempts := hb
            rw [hp.1] at hb
            exact List.mem_singleton.mp hb
          refine ⟨fun b hb c hc => (honly c hc).trans (honly b hb).symm, fun b hb => ?_⟩
          rw [honly b hb]
          exact hp.2
      | _ => exact absurd trivial hd
    | _ => exact absurd trivial hd
  | _ => exact absurd trivial hd

theorem ledger_requests (i : IdText) (trace : List Event) :
    ((ledgers i).after {} trace).requests = trace.filterMap Event.request? := by
  induction trace with
  | nil => rfl
  | cons ev trace ih =>
    obtain ⟨e, x⟩ := ev
    rw [Monitor.after, List.filterMap_cons, ← ih]
    by_cases hd : Discreet e
    · have hsame := (hd.same (i := i) (m := (ledgers i).after {} trace)).2 x
      rw [hsame]
      cases e with
      | httpStart req => exact hd.elim
      | _ => rfl
    cases e with
    | httpStart req => rfl
    | sql q =>
      cases q with
      | write st =>
        cases st with
        | insertAttempt a =>
          match x with
          | .error y => rfl
          | .ok none => rfl
          | .ok (some g) => rfl
        | _ => exact absurd trivial hd
      | _ => exact absurd trivial hd
    | _ => exact absurd trivial hd

theorem mem_ledger_attempts {i : IdText} {trace : List Event} {a : AttemptRow}
    (h : (⟨.sql (.write a.stmt), .ok (some a.id)⟩ : Event) ∈ trace) :
    a ∈ ((ledgers i).after {} trace).attempts := by
  induction trace with
  | nil => cases h
  | cons ev trace ih =>
    rcases List.mem_cons.mp h with rfl | hold
    · exact List.mem_cons_self
    · obtain ⟨e, x⟩ := ev
      have hmem := ih hold
      change a ∈ (Ledger.next _ e x).attempts
      by_cases hd : Discreet e
      · have hsame : Ledger.next ((ledgers i).after {} trace) e x = _ := (hd.same (i := i)).2 x
        rwa [hsame]
      cases e with
      | httpStart req => exact hmem
      | sql q =>
        cases q with
        | write st =>
          cases st with
          | insertAttempt b =>
            match x with
            | .error y => exact hmem
            | .ok none => exact hmem
            | .ok (some g) => exact List.mem_cons_of_mem _ hmem
          | _ => exact absurd trivial hd
        | _ => exact absurd trivial hd
      | _ => exact absurd trivial hd

theorem reachable_ledger_sound (h : Reachable env C s) (ht : s.threads[t]? = some th)
    (hk : th.kind = .deliver job) : (th.watched (ledgers job.text) {}).Sound job.text :=
  @reachable_kept env C s Ledger (fun k => k = .deliver job) (fun _ _ => ledgers job.text) {}
    (fun _ _ _ _ => True) (Ledger.Sound job.text) (fun t _ hk => hk ▸ safe_ledgers job t)
    (fun _ _ _ _ _ => trivial) ⟨nofun, nofun⟩ (fun _ _ _ _ _ _ hp _ hm => hm.next hp) h t th ht hk

theorem Script.attempter {k : Kind} {m : Facts} {tx : List Entry} (h : Script k m tx)
    (hcall : ∀ c, k ≠ .repoCall c) {a : AttemptRow} (hmem : (a.stmt, a.id) ∈ tx) :
    ∃ job : JobRef, k = .deliver job ∧ job.deliveryId = a.deliveryId := by
  obtain ⟨a, id⟩ := a
  have hmem : (Stmt.insertAttempt a, id) ∈ tx := hmem
  cases h with
  | nil => cases hmem
  | move => simp at hmem
  | record hrec =>
    obtain ⟨rfl, -⟩ := by simpa using hmem
    cases hrec with
    | circuit h hm hd => exact ⟨_, rfl, hd.symm⟩
    | outcome h hm hd => exact ⟨_, rfl, hd.symm⟩
    | call => exact absurd rfl (hcall _)
  | ingest => simp at hmem
  | claim hk h =>
    obtain ⟨_, -, -, heq⟩ := h _ hmem
    cases heq

/-- **Every attempt was stored by one processor of its delivery**, which stored nothing else: it sent
nothing if the breaker had stopped it, and otherwise exactly one request, with the number of the
attempt and the text its job has for the delivery. -/
theorem attempts_attributed (h : Reachable env NoCalls s) {a : AttemptRow}
    (ha : a ∈ s.pg.db.attempts) :
    ∃ (t : Tid) (th : Thread) (job : JobRef), s.threads[t]? = some th ∧ th.kind = .deliver job ∧
      job.deliveryId = a.deliveryId ∧ th.Inserted a.stmt a.id ∧
        Witnessed job.text th.requests a.toAttemptData ∧
          (∀ b : AttemptRow, th.Inserted b.stmt b.id → b = a) ∧
            ∀ (u : Tid) (th' : Thread), s.threads[u]? = some th' →
              ∀ b : AttemptRow, b.id = a.id → th'.Inserted b.stmt b.id → u = t := by
  have hsome : ∀ a ∈ s.pg.db.attempts, ∃ (t : Tid) (th : Thread) (job : JobRef),
      s.threads[t]? = some th ∧ th.kind = .deliver job ∧ job.deliveryId = a.deliveryId ∧
        th.Inserted a.stmt a.id := by
    refine h.along (I := fun s => ∀ a ∈ s.pg.db.attempts, ∃ (t : Tid) (th : Thread) (job : JobRef),
      s.threads[t]? = some th ∧ th.kind = .deliver job ∧ job.deliveryId = a.deliveryId ∧
        th.Inserted a.stmt a.id) nofun ?_
    intro s l s' hr hI _ hstep a ha
    have hgo : ∀ {t : Tid} {th : Thread} {job : JobRef}, s.threads[t]? = some th →
        th.kind = .deliver job → job.deliveryId = a.deliveryId → th.Inserted a.stmt a.id →
          ∃ (t : Tid) (th : Thread) (job : JobRef), s'.threads[t]? = some th ∧
            th.kind = .deliver job ∧ job.deliveryId = a.deliveryId ∧ th.Inserted a.stmt a.id := by
      intro t th job ht hk hd hins
      obtain ⟨th', ht', hk', new, hnew⟩ := step_continues hstep t th ht
      refine ⟨t, th', job, ht', hk'.trans hk, hd, ?_⟩
      unfold Thread.Inserted
      rw [← hnew]
      exact List.mem_append_right _ hins
    by_cases hold : a ∈ s.pg.db.attempts
    · obtain ⟨t, th, job, ht, hk, hd, hins⟩ := hI a hold
      exact hgo ht hk hd hins
    · rcases rows_arrive (reachable_ok hr) hstep with ⟨-, hsame⟩ | ⟨t, th, ws, happ⟩
      · exact absurd (hsame ▸ ha) hold
      · rw [happ.db] at ha
        have hmem := (Db.mem_applyAll_attempts ha).resolve_left hold
        obtain ⟨job, hk, hd⟩ := happ.script.attempter (kind_ne_call (fun _ _ h => h) hr happ.live) hmem
        exact hgo (State.live?_eq_some.mp happ.live).1 hk hd (happ.inserted hmem)
  obtain ⟨t, th, job, ht, hk, hd, hins⟩ := hsome a ha
  obtain ⟨hsingle, hwit⟩ := reachable_ledger_sound h ht hk
  have hmem := mem_ledger_attempts (i := job.text) hins
  refine ⟨t, th, job, ht, hk, hd, hins, ?_, fun b hb => ?_, fun u th' hu b hid hb => ?_⟩
  · rw [Thread.requests, ← ledger_requests job.text]
    exact hwit a hmem
  · exact hsingle a hmem b (mem_ledger_attempts hb)
  · exact ((reachable_serially h).once u t th' th b.stmt a.stmt .attempts a.id hu ht rfl rfl
      (hid ▸ hb) hins).1

theorem attempts_attributed_delivered : ∃ (s : State) (a : AttemptRow) (t : Tid) (th : Thread)
    (job : JobRef), Reachable sampleEnv NoCalls s ∧ a ∈ s.pg.db.attempts ∧
      s.threads[t]? = some th ∧ th.requests.length = 1 ∧
        Witnessed job.text th.requests a.toAttemptData := by
  obtain ⟨s, hreach, hs⟩ := sample_run (C := NoCalls) (sampleIngest ++ sampleDelivery 1)
    (fun s => s.pg.db.attempts.any fun a => a.outcome ≠ .circuitOpen) (by decide +kernel)
  obtain ⟨a, ha, ho⟩ := List.any_eq_true.mp hs
  obtain ⟨t, th, job, ht, -, -, -, hw, -⟩ := attempts_attributed hreach ha
  refine ⟨s, a, t, th, job, hreach, ha, ht, ?_, hw⟩
  rw [Witnessed, if_neg (by simpa using ho)] at hw
  obtain ⟨req, τ, signature, hreq, -⟩ := hw
  rw [hreq]
  rfl

end WebhookEngine
