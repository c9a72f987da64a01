import WebhookEngine.Proof.Course
import WebhookEngine.Proof.Sweep
import WebhookEngine.Proof.Sequel

set_option autoImplicit false

/-!
# Completed exchanges

* `Thread.Awaits`: a processor waits for its response, and nobody has recorded an attempt since it read
  the counter.
* `Exclusive`: the run of that processor under its lock: its calls are answered, its heartbeats find the
  lock, and nobody else changes the delivery.
* `Ongoing`, **`Ongoing.step`**: what holds of the processor and of its delivery until it ends.
* **`exchange_recorded_iff`**: the exchange is recorded if and only if what is kept of the body has no
  U+0000.
-/

namespace WebhookEngine

open EffectProg TransitionSystem

deriving instance DecidableEq for JsError, HttpReply

variable {env : Env} {s s' : State} {t u : Tid} {th th' : Thread} {l : Label} {d : DeliveryId}
  {job : JobRef} {r : DeliveryForWorker} {status : ℕ} {text : String}

/-! ## Answers without faults -/

theorem Script.knows_logged {k : Kind} {m : Facts} {tx : List Entry} (h : Script k m tx)
    (hk : ¬ k.ingests) {f : Option Status} {g : Status} {reason : String} {a : Actor} {gen : ℕ}
    (hm : (.insertTransition d f g reason a, gen) ∈ tx) : Knows k m d := by
  cases h with
  | nil => cases hm
  | move h reason g₁ g₂ =>
    obtain ⟨⟨rfl, -⟩, -⟩ := by simpa using hm
    exact h.knows
  | record h reason g₁ g₂ g₃ =>
    obtain ⟨⟨rfl, -⟩, -⟩ := by simpa using hm
    exact h.knows
  | ingest hi => exact absurd hi hk
  | claim hk h =>
    obtain ⟨_, -, -, heq⟩ := h _ hm
    cases heq

theorem Stmt.exec_answered {pg pg' : Postgres} {now : Time} {sess sess' : Option Session} {st : Stmt}
    {x : Except Err (Option ℕ)} (h : st.exec pg t now sess .none = some (pg', sess', x))
    (hv : st.verdict ((sess.getD ⟨now, []⟩).view pg.db) ≠ .fails) : ∃ a, x = .ok a := by
  unfold Stmt.exec at h
  rw [if_neg (by simp)] at h
  split at h
  · split at h
    · rename_i hf
      exact absurd hf hv
    · cases h
      exact ⟨none, rfl⟩
    · cases sess with
      | some σ =>
        cases h
        exact ⟨_, rfl⟩
      | none =>
        cases h
        exact ⟨_, rfl⟩
  · cases h

/-- The INSERTs of an event and of a delivery. -/
def Stmt.creates : Stmt → Bool
  | .insertEvent .. | .insertDelivery .. => true
  | _ => false

theorem mayWrite.ingests {k : Kind} {m : Facts} {st : Stmt} (h : mayWrite k m st)
    (hst : st.creates = true) : k.ingests := by
  rw [mayWrite] at h
  split at h
  · rename_i tx htx
    obtain ⟨rest, hs⟩ := h 0
    generalize hL : tx ++ (st, 0) :: rest = L at hs
    have hmem : (st, 0) ∈ L := by simp [← hL]
    cases hs with
    | nil => cases hmem
    | move | record =>
      simp only [List.mem_cons, Prod.mk.injEq, List.not_mem_nil, or_false] at hmem
      obtain ⟨rfl, -⟩ | hmem := hmem
      · cases hst
      · rcases hmem with ⟨rfl, -⟩ | ⟨rfl, -⟩ <;> cases hst
    | ingest hi => exact hi
    | claim hc h =>
      obtain ⟨d, -, -, heq⟩ := h _ hmem
      have heq : st = .updateEnqueued d := heq
      subst heq
      cases hst
  · obtain ⟨d, rfl⟩ := h
    cases hst

theorem Thread.Ok.verdict {pg : Postgres} (hok : th.Ok pg t) (hingests : ¬ th.kind.ingests)
    {st : Stmt} {k : (Eff.sql (.write st)).Resp → Code Reply}
    (hp : th.prog = .op (.sql (.write st)) k) (hst : ∀ a, st ≠ .insertAttempt a) (now : Time) :
    st.verdict ((th.mem.sess.getD ⟨now, []⟩).view pg.db) ≠ .fails := by
  have hperm : mayWrite th.kind th.facts st := hok.permits hp
  cases st with
  | insertTransition x f g reason a =>
    have hsome : (pg.db.delivery? x).isSome := by
      rw [mayWrite] at hperm
      split at hperm
      · obtain ⟨rest, hs⟩ := hperm 0
        exact hok.knows x (hs.knows_logged hingests (List.mem_append_right _ List.mem_cons_self))
      · obtain ⟨_, h⟩ := hperm
        cases h
    have hview : (((th.mem.sess.getD ⟨now, []⟩).view pg.db).delivery? x).isSome :=
      (Db.applyAll_grows _).2.2 hsome
    simp only [Stmt.verdict]
    rw [if_pos hview]
    intro h
    cases h
  | insertDelivery ev ep => exact absurd (hperm.ingests rfl) hingests
  | insertEvent c i ty p => exact absurd (hperm.ingests rfl) hingests
  | insertAttempt a => exact absurd rfl (hst a)
  | _ =>
    simp only [Stmt.verdict]
    split <;> intro h <;> cases h

theorem not_ingests_deliver (hk : th.kind = .deliver job) : ¬ th.kind.ingests := by
  rw [hk]
  rintro (⟨_, h⟩ | ⟨_, h⟩) <;> cases h

/-- Without a fault no call fails outside of an intake, the INSERT of an attempt apart. -/
theorem Advance.answered {c : Choice} {e : Eff} {x : e.Resp} {k : e.Resp → Code Reply} {w : World}
    {m : Memory} (h : Advance s s' t c th e x k w m) (hs : s.Ok) (hk : ¬ th.kind.ingests)
    (hf : c.fault = .none) : Answered e x := by
  cases e with
  | redis cmd =>
    have hdone := h.done
    simp only [perform, hf] at hdone
    cases hdone
    exact ⟨_, rfl⟩
  | sql q =>
    obtain ⟨pg', sess', hex, -, -⟩ := perform_sql h.done
    rw [hf] at hex
    cases q with
    | write st =>
      by_cases hst : ∃ a, st = .insertAttempt a
      · obtain ⟨a, rfl⟩ := hst
        trivial
      · have hv := (hs.threads t th h.live).verdict hk h.prog (fun a ha => hst ⟨a, ha⟩) s.now
        have hans := Stmt.exec_answered hex hv
        cases st <;> first | exact hans | trivial
    | selectUnenqueued grace limit =>
      simp only [Sql.exec] at hex
      split at hex
      · split at hex
        · cases hex
          exact ⟨_, rfl⟩
        · cases hex
      · exact absurd trivial ‹¬True›
    | selectStatusForUpdate x =>
      simp only [Sql.exec] at hex
      split at hex
      · split at hex
        · split at hex <;> cases hex <;> exact ⟨_, rfl⟩
        · cases hex
      · exact absurd trivial ‹¬True›
    | _ =>
      cases hex
      exact ⟨_, rfl⟩
  | _ => trivial

theorem Script.records {k : Kind} {m : Facts} {tx : List Entry} (h : Script k m tx) {a : AttemptData}
    {gen : ℕ} (hm : (.insertAttempt a, gen) ∈ tx) : ∃ f g next, Records k m a f g next := by
  cases h with
  | record h reason g₁ g₂ g₃ =>
    obtain ⟨rfl, -⟩ := by simpa using hm
    exact ⟨_, _, _, h⟩
  | claim hc h =>
    obtain ⟨_, -, -, heq⟩ := h _ hm
    cases heq
  | _ => simp at hm

theorem Dossier.Numbered.free {db : Db} {D : Dossier} (h : D.Numbered) (hD : db.dossier? d = some D)
    {n : ℕ} (hn : D.row.attemptCount < n) :
    ¬ ∃ row ∈ db.attempts, row.deliveryId = d ∧ row.attemptNumber = n := by
  rintro ⟨row, hmem, hid, rfl⟩
  have hin : row ∈ D.attempts := by
    rw [(Db.dossier?_eq_some.mp hD).2.2]
    exact Db.mem_attemptsOf.mpr ⟨hmem, hid⟩
  have hle : row.attemptNumber ∈ D.attempts.map (·.attemptNumber) := List.mem_map_of_mem hin
  rw [h, List.mem_range'_1] at hle
  omega

/-- The constraints on the INSERT of an attempt under a free number. -/
theorem Stmt.verdict_attempt {db : Db} {a : AttemptData} (hsome : (db.delivery? a.deliveryId).isSome)
    (hfree : ¬ ∃ row ∈ db.attempts, row.deliveryId = a.deliveryId ∧
      row.attemptNumber = a.attemptNumber) : (Stmt.insertAttempt a).verdict db =
        if textOk a.responseBody = true ∧ textOk a.errorMessage = true then .writes else .fails := by
  have hany : ¬ (db.attempts.any fun row => row.deliveryId = a.deliveryId ∧
      row.attemptNumber = a.attemptNumber) = true := by
    rw [List.any_eq_true]
    rintro ⟨row, hmem, hrow⟩
    exact hfree ⟨row, hmem, of_decide_eq_true hrow⟩
  simp only [Stmt.verdict]
  exact if_congr ⟨fun h => h.2.2, fun h => ⟨hsome, hany, h⟩⟩ rfl rfl

/-- **The INSERT of the next attempt** fails if and only if one of its texts has a U+0000. -/
theorem Advance.inserts_next {c : Choice} {a : AttemptData} {x : Except Err (Option ℕ)}
    {k : Except Err (Option ℕ) → Code Reply} {w : World} {m : Memory}
    (h : Advance s s' t c th (.sql (.write (.insertAttempt a))) x k w m) (hs : s.Ok)
    (hf : c.fault = .none) {job : JobRef} (hk : th.kind = .deliver job) (hrow : th.facts.row = some r)
    {D : Dossier} (hD : s.pg.db.dossier? job.deliveryId = some D) (hnum : D.Numbered)
    (hcount : D.row.attemptCount = r.attemptCount) :
    (∃ g, x = .ok g) ↔ textOk a.responseBody = true ∧ textOk a.errorMessage = true := by
  have hok := hs.threads t th h.live
  have hperm : mayWrite th.kind th.facts (.insertAttempt a) := hok.permits h.prog
  have htx := mayWrite.first_attempt hperm
  rw [mayWrite, htx] at hperm
  obtain ⟨rest, hscript⟩ := hperm 0
  obtain ⟨f, g, next, hrec⟩ := hscript.records (List.mem_append_right _ List.mem_cons_self)
  obtain ⟨job', r', hk', hd, hw, hn⟩ := hrec.number (fun x hx => by rw [hk] at hx; cases hx)
  obtain rfl : job = job' := Kind.deliver.inj (hk.symm.trans hk')
  obtain rfl : r = r' := Option.some.inj (hrow.symm.trans hw.row)
  have hverdict : (Stmt.insertAttempt a).verdict s.pg.db = if textOk a.responseBody = true ∧
      textOk a.errorMessage = true then .writes else .fails := by
    rw [hd] at hD
    refine Stmt.verdict_attempt ?_ (hnum.free hD (by omega))
    rw [(Db.dossier?_eq_some.mp hD).1]
    rfl
  have hview : (th.mem.sess.getD ⟨s.now, []⟩).view s.pg.db = s.pg.db := hok.view_eq (Or.inl htx)
  obtain ⟨pg', sess', hex, -, -⟩ := perform_sql h.done
  obtain ⟨σ, hσ, -⟩ := hok.sess_some htx
  rw [hf] at hex
  simp only [Sql.exec, Stmt.exec] at hex
  rw [if_neg (by simp), hview, hverdict] at hex
  split at hex
  · by_cases htext : textOk a.responseBody = true ∧ textOk a.errorMessage = true
    · rw [if_pos htext, hσ] at hex
      cases hex
      exact ⟨fun _ => htext, fun _ => ⟨_, rfl⟩⟩
    · rw [if_neg htext] at hex
      cases hex
      refine ⟨fun hnone => ?_, fun h => absurd h htext⟩
      obtain ⟨g, hg⟩ := hnone
      cases hg
  · cases hex

/-! ## The run of a processor under its lock -/

/-- The processor waits for the response to a request for `d`; nobody has recorded an attempt of `d` since
it read the counter, and no heartbeat has missed the lock. -/
structure Thread.Awaits (th : Thread) (db : Db) (d : DeliveryId) (r : DeliveryForWorker) : Prop where
  kind : ∃ job : JobRef, th.kind = .deliver job ∧ job.deliveryId = d
  prog : ∃ k, th.prog = .op .httpAwait k
  row : th.facts.row = some r
  current : (db.delivery? d).map (·.attemptCount) = some r.attemptCount
  held : th.mem.lockLost = false ∧ ∀ held ∈ th.mem.extending, held = true

/-- The endpoint answers, the calls of `t` do not fail, its heartbeats find the lock, and no COMMIT of
another execution sets the status of the delivery. -/
def Exclusive (t : Tid) (d : DeliveryId) (status : ℕ) (text : String) (s : State) (l : Label) : Prop :=
  NoCalls s l ∧ match l with
    | .op u c => if u = t then c.fault = .none ∧ c.reply = .response status text
        else ∀ th ∈ s.live? u, th.committing = true → ∀ x ∈ th.settings, x.1 ≠ d
    | .extend u => u = t → ∀ job ∈ (s.live? t).bind Thread.job?,
        s.redis.lockAt s.now job.text = some t
    | _ => True

instance (s : State) (l : Label) : Decidable (Exclusive t d status text s l) :=
  match l with
  | .op u c => inferInstanceAs (Decidable (_ ∧ if u = t then c.fault = .none ∧
      c.reply = .response status text
        else ∀ th ∈ s.live? u, th.committing = true → ∀ x ∈ th.settings, x.1 ≠ d))
  | .extend u => inferInstanceAs (Decidable (_ ∧ (u = t → ∀ job ∈ (s.live? t).bind Thread.job?,
      s.redis.lockAt s.now job.text = some t)))
  | .tick _ | .settle _ | .crash _ | .extendReply _ | .request _ | .pickup _ | .stall _ | .stallFail _
  | .removeCompleted _ | .operatorAdd _ _ | .evict _ | .idemArrive _ | .redisLoss
  | .createEndpoint _ _ _ | .patchEndpoint _ _ _ => inferInstanceAs (Decidable (_ ∧ True))

/-- The attempts, the counter and the status are the same. -/
structure Dossier.Same (D D' : Dossier) : Prop where
  attempts : D'.attempts = D.attempts
  count : D'.row.attemptCount = D.row.attemptCount
  status : D'.row.status = D.row.status

theorem Exclusive.same (hr : Reachable env NoCalls s) (hl : Exclusive t d status text s l)
    (h : step env s l = some s') (hcommit : ∀ c th, l = .op t c → s.live? t = some th →
      th.committing = false) {D : Dossier} (hD : s.pg.db.dossier? d = some D) :
    ∃ D', s'.pg.db.dossier? d = some D' ∧ D.Same D' := by
  have hs := reachable_ok hr
  rcases story hs h d with h' | ⟨D₀, τ, h₀, h'⟩ | ⟨u, c, th, x, k, w, m, rfl, hadv, hc⟩
  · exact ⟨D, h'.trans hD, rfl, rfl, rfl⟩
  · obtain rfl := Option.some.inj (hD.symm.trans h₀)
    exact ⟨_, h', rfl, rfl, rfl⟩
  · have hcommitting := Thread.committing_iff.mpr ⟨k, hadv.prog⟩
    obtain ⟨D', hD'⟩ := story_isSome hs h hD
    rw [hD, hD'] at hc
    have hut : u ≠ t := by
      rintro rfl
      exact absurd (hcommit c th rfl hadv.live) (by rw [hcommitting]; nofun)
    have hset := hc.sets hs hadv.committing (kind_ne_call (fun _ _ h => h) hr hadv.live)
    have hothers : if u = t then c.fault = .none ∧ c.reply = .response status text
        else ∀ th ∈ s.live? u, th.committing = true → ∀ x ∈ th.settings, x.1 ≠ d := hl.2
    rw [if_neg hut] at hothers
    exact absurd rfl (hothers th hadv.live hcommitting _ hset)

/-! ## The sequel of a processor -/

theorem Sequel.next_other {m : Sequel} {e : Eff} {x : e.Resp} (hawait : e ≠ .httpAwait)
    (hread : e ≠ .readLockLost) (hcommit : e ≠ .sql .commit)
    (hinsert : ∀ a, e ≠ .sql (.write (.insertAttempt a))) : m.next e x = m := by
  cases e with
  | httpAwait => exact absurd rfl hawait
  | readLockLost => exact absurd rfl hread
  | sql q =>
    cases q with
    | commit => exact absurd rfl hcommit
    | write st =>
      cases st with
      | insertAttempt a => exact absurd rfl (hinsert a)
      | _ => cases x <;> rfl
    | _ => cases x <;> rfl
  | _ => rfl

theorem Sequel.next_early {m : Sequel} {e : Eff} {x : e.Resp} (hm : m.reply = none)
    (hawait : e ≠ .httpAwait) (hread : e ≠ .readLockLost) : m.next e x = m := by
  have hnone : ¬ m.reply.isSome = true := by rw [hm]; nofun
  by_cases hcommit : e = .sql .commit
  · subst hcommit
    cases x with
    | error y => rfl
    | ok x => exact if_neg hnone
  by_cases hinsert : ∃ a, e = .sql (.write (.insertAttempt a))
  · obtain ⟨a, rfl⟩ := hinsert
    cases x <;> exact if_neg hnone
  · exact Sequel.next_other hawait hread hcommit fun a ha => hinsert ⟨a, ha⟩

/-- Until it waits for the response a processor keeps to the monitor with nothing followed. -/
def Thread.Early (env : Env) (th : Thread) : Prop :=
  th.facts.reply = none → th.sequel = {} ∧
    Prog.Safe (sequels env) {} th.prog fun m _ => m.Closed

theorem Early.step (hs : s.Ok) (h : step env s l = some s')
    (hI : ∀ t th job, s.live? t = some th → th.kind = .deliver job → th.Early env) :
    ∀ t th job, s'.live? t = some th → th.kind = .deliver job → th.Early env := by
  refine fun t th job ht hk => step_threads
    (P := fun _ th => ∀ job, th.kind = .deliver job → th.Early env) h
    (fun t th ht job hk => hI t th job ht hk) ?_ ?_ ?_ t th ht job hk
  · intro u th th' hkept hold job hk hreply
    have hearly := hold job (hkept.kind ▸ hk)
    rw [Thread.Early, Thread.facts, Thread.sequel, ← hkept.trace, ← hkept.prog] at hearly
    exact hearly hreply
  · rintro u k - - job rfl -
    exact ⟨rfl, safe_sequels_program job u⟩
  · intro t c th e x k w m _ hadv hold job hk hreply
    have hreply : (th.facts.next e x).reply = none := hreply
    have hok := hs.threads t th hadv.live
    rcases Facts.next_reply (m := th.facts) x with hsame | ⟨y, -, hsome⟩
    · obtain ⟨hempty, hsafe⟩ := hold job hk (hsame.symm.trans hreply)
      rw [hadv.prog] at hsafe
      have hread : e ≠ .readLockLost := by
        rintro rfl
        have hperm : th.facts.reply.isSome ∧ _ := hok.permits hadv.prog
        rw [← hsame, hreply] at hperm
        cases hperm.1
      have hawait : e ≠ .httpAwait := by
        rintro rfl
        cases hreply
      have hnext : Sequel.next {} e x = {} := Sequel.next_early rfl hawait hread
      refine ⟨?_, ?_⟩
      · change Sequel.next (sequel th.trace) e x = {}
        rw [show sequel th.trace = {} from hempty, hnext]
      · have hrest := hsafe.2 x fun h => by cases h
        rwa [show (sequels env).next {} e x = {} from hnext] at hrest
    · rw [hsome] at hreply
      cases hreply

theorem reachable_early {C : State → Label → Prop} (h : Reachable env C s) :
    ∀ t th job, s.live? t = some th → th.kind = .deliver job → th.Early env := by
  have hinv : s.Ok ∧ ∀ t th job, s.live? t = some th → th.kind = .deliver job → th.Early env := by
    refine h.invariant (I := fun s => s.Ok ∧ ∀ t th job, s.live? t = some th →
      th.kind = .deliver job → th.Early env) ⟨ok_init, fun t th job h => ?_⟩ ?_
    · simp [State.live?] at h
    · rintro s l s' ⟨hs, hI⟩ - hstep
      exact ⟨hs.step hstep, Early.step hs hstep hI⟩
  exact hinv.2

/-! ## While it goes on -/

/-- What the processor has read and the delivery holds, from the response to the end. `rows` are the
attempts before. -/
structure Ongoing (env : Env) (d : DeliveryId) (r : DeliveryForWorker) (status : ℕ) (text : String)
    (rows : List AttemptRow) (db : Db) (th : Thread) : Prop where
  kind : ∃ job : JobRef, th.kind = .deliver job ∧ job.deliveryId = d
  row : th.facts.row = some r
  safe : Prog.Safe (sequels env) th.sequel th.prog fun m _ => m.Closed
  first : th.sequel.reply = none → ∃ k, th.prog = .op .httpAwait k
  reply : ∀ x, th.sequel.reply = some x → x = .response status text
  held : th.mem.lockLost = false ∧ ∀ held ∈ th.mem.extending, held = true
  lost : th.sequel.lost ≠ some true
  wrote : ∀ a, th.sequel.wrote = some a →
    a.Tells env status text ∧ textOk (some (keptBody env text)) = true
  inTx : ∀ a tx, th.sequel.wrote = some a → th.sequel.recorded = false → th.facts.tx = some tx →
    ∃ g, (.insertAttempt a, g) ∈ tx
  pending : th.sequel.recorded = false → ∃ D, db.dossier? d = some D ∧ D.attempts = rows ∧
    D.row.attemptCount = r.attemptCount
  recorded : th.sequel.recorded = true → textOk (some (keptBody env text)) = true ∧
    ∃ D a, db.dossier? d = some D ∧ D.attempts = rows ++ [a] ∧
      a.toAttemptData.Tells env status text ∧ D.row.status = a.outcome.toStatus
  refused : th.sequel.refused = true → textOk (some (keptBody env text)) = false

variable {rows : List AttemptRow} {db db' : Db}

theorem Ongoing.same (h : Ongoing env d r status text rows db th)
    (hsame : ∀ D, db.dossier? d = some D → ∃ D', db'.dossier? d = some D' ∧ D.Same D') :
    Ongoing env d r status text rows db' th := by
  refine { h with pending := fun hrec => ?_, recorded := fun hrec => ?_ }
  · obtain ⟨D, hD, hrows, hcount⟩ := h.pending hrec
    obtain ⟨D', hD', hs⟩ := hsame D hD
    exact ⟨D', hD', hs.attempts.trans hrows, hs.count.trans hcount⟩
  · obtain ⟨htext, D, a, hD, hrows, htells, hst⟩ := h.recorded hrec
    obtain ⟨D', hD', hs⟩ := hsame D hD
    exact ⟨htext, D', a, hD', hs.attempts.trans hrows, htells, hs.status.trans hst⟩

theorem Ongoing.kept (h : Ongoing env d r status text rows db th) (hkind : th'.kind = th.kind)
    (hprog : th'.prog = th.prog) (htrace : th'.trace = th.trace)
    (hheld : th'.mem.lockLost = false ∧ ∀ held ∈ th'.mem.extending, held = true) :
    Ongoing env d r status text rows db th' := by
  have hfacts : th'.facts = th.facts := congrArg facts htrace
  have hsequel : th'.sequel = th.sequel := congrArg sequel htrace
  constructor
  · rw [hkind]; exact h.kind
  · rw [hfacts]; exact h.row
  · rw [hsequel, hprog]; exact h.safe
  · rw [hsequel, hprog]; exact h.first
  · rw [hsequel]; exact h.reply
  · exact hheld
  · rw [hsequel]; exact h.lost
  · rw [hsequel]; exact h.wrote
  · rw [hsequel, hfacts]; exact h.inTx
  · rw [hsequel]; exact h.pending
  · rw [hsequel]; exact h.recorded
  · rw [hsequel]; exact h.refused

theorem Facts.tx_grows {m : Facts} {e : Eff} {x : e.Resp} {tx' : List Entry}
    (h : (m.next e x).tx = some tx') (he : e ≠ .sql .begin) : ∃ tx, m.tx = some tx ∧ tx <+: tx' := by
  by_cases hq : ∃ q, e = .sql q
  · obtain ⟨q, rfl⟩ := hq
    cases q with
    | begin => exact absurd rfl he
    | commit => cases x <;> cases h
    | rollback => cases h
    | write st =>
      match x with
      | .error y => exact ⟨tx', h, List.prefix_rfl⟩
      | .ok none => exact ⟨tx', h, List.prefix_rfl⟩
      | .ok (some g) =>
        obtain ⟨tx, htx, rfl⟩ := Option.map_eq_some_iff.mp h
        exact ⟨tx, htx, List.prefix_append _ _⟩
    | _ => cases x <;> exact ⟨tx', h, List.prefix_rfl⟩
  · exact ⟨tx', (Facts.next_of_not_sql (fun q h => hq ⟨q, h⟩) x).1.symm.trans h, List.prefix_rfl⟩

theorem Advance.records {c : Choice} {x : Unit} {k : Except Err Unit → Code Reply} {w : World}
    {m : Memory} (h : Advance s s' t c th (.sql .commit) (.ok x) k w m) (hs : s.Ok)
    (hcall : ∀ c, th.kind ≠ .repoCall c) {a : AttemptData} {gen : ℕ}
    (hm : (.insertAttempt a, gen) ∈ th.tx) {D : Dossier}
    (hD : s.pg.db.dossier? a.deliveryId = some D) :
    ∃ D' row, s'.pg.db.dossier? a.deliveryId = some D' ∧ D'.attempts = D.attempts ++ [row] ∧
      row.toAttemptData = a ∧ D'.row.status = a.outcome.toStatus := by
  have hc := h.committed hs
  generalize th.tx = tx at hm hc
  generalize s'.pg.db = db' at hc
  cases hc with
  | record hrec reason g₁ g₂ id τ₁ τ τ' =>
    obtain ⟨rfl, rfl⟩ := by simpa using hm
    rw [Db.dossier?_record, if_pos rfl, hD]
    exact ⟨_, ⟨a, gen⟩, rfl, rfl, rfl, hrec.to hcall⟩
  | claim hk h =>
    obtain ⟨w, hw, heq⟩ := List.mem_map.mp hm
    obtain ⟨_, hst⟩ := h w hw
    cases hst.symm.trans (Prod.mk.inj heq).1
  | _ => simp at hm

theorem Ongoing.replied (h : Ongoing env d r status text rows db th) {e : Eff}
    {k : e.Resp → Code Reply} (hp : th.prog = .op e k) (hawait : e ≠ .httpAwait) :
    th.sequel.reply.isSome := by
  by_contra hnone
  obtain ⟨k', hk'⟩ := h.first (Option.not_isSome_iff_eq_none.mp hnone)
  cases hp.symm.trans hk'
  exact hawait rfl

section
variable {c : Choice} {e : Eff} {x : e.Resp} {k : e.Resp → Code Reply} {w : World} {m : Memory}

theorem Ongoing.unchanged (h : Ongoing env d r status text rows s.pg.db th)
    (hr : Reachable env NoCalls s) (hadv : Advance s s' t c th e x k w m)
    (hstep : step env s (.op t c) = some s') (hl : Exclusive t d status text s (.op t c))
    (hcommit : e ≠ .sql .commit) : Ongoing env d r status text rows s'.pg.db th := by
  refine h.same fun D hD => Exclusive.same hr hl hstep (fun c' th' _ ht => ?_) hD
  obtain rfl := Option.some.inj (hadv.live.symm.trans ht)
  refine Bool.not_eq_true _ ▸ fun hc => ?_
  obtain ⟨k', hk'⟩ := Thread.committing_iff.mp hc
  cases hadv.prog.symm.trans hk'
  exact hcommit rfl

/-- What every call of the processor keeps: the row it has read, the rest of its program, the flags of
its heartbeats. -/
theorem Ongoing.carried (h : Ongoing env d r status text rows s.pg.db th) (hs : s.Ok)
    (hadv : Advance s s' t c th e x k w m) (hfault : c.fault = .none) :
    (th.after e x k m).facts.row = some r ∧
      Prog.Safe (sequels env) (th.sequel.next e x) (k x) (fun m _ => m.Closed) ∧
      m.lockLost = false ∧ ∀ held ∈ m.extending, held = true := by
  obtain ⟨job, hk, -⟩ := h.kind
  have hsafe := h.safe
  rw [hadv.prog] at hsafe
  obtain ⟨hlost, hext, -⟩ := perform_mem hadv.done
  refine ⟨(Facts.next_row x fun d he => ?_).trans h.row,
    hsafe.2 x fun _ => hadv.answered hs (not_ingests_deliver hk) hfault, hlost.trans h.held.1,
    hext ▸ h.held.2⟩
  subst he
  obtain ⟨-, -, -, hnone, -⟩ := (hs.threads t th hadv.live).permits hadv.prog
  cases hnone.symm.trans h.row

theorem Ongoing.hears {x : HttpReply} {k : HttpReply → Code Reply}
    (h : Ongoing env d r status text rows db' th)
    (hrow : (th.after .httpAwait x k m).facts.row = some r)
    (hrest : Prog.Safe (sequels env) (th.sequel.next .httpAwait x) (k x) fun m _ => m.Closed)
    (hmem : m.lockLost = false ∧ ∀ held ∈ m.extending, held = true)
    (hx : x = .response status text) :
    Ongoing env d r status text rows db' (th.after .httpAwait x k m) where
  kind := h.kind
  row := hrow
  safe := hrest
  first hnone := by cases hnone
  reply y hy := Option.some.inj (hy.symm.trans (congrArg some hx))
  held := hmem
  lost := h.lost
  wrote := h.wrote
  inTx := h.inTx
  pending := h.pending
  recorded := h.recorded
  refused := h.refused

theorem Ongoing.reads {x : Bool} {k : Bool → Code Reply}
    (h : Ongoing env d r status text rows db' th) (hsome : th.sequel.reply.isSome)
    (hrow : (th.after .readLockLost x k m).facts.row = some r)
    (hrest : Prog.Safe (sequels env) (th.sequel.next .readLockLost x) (k x) fun m _ => m.Closed)
    (hmem : m.lockLost = false ∧ ∀ held ∈ m.extending, held = true) (hx : x = false) :
    Ongoing env d r status text rows db' (th.after .readLockLost x k m) where
  kind := h.kind
  row := hrow
  safe := hrest
  first hnone := by
    rw [Option.isSome_iff_ne_none] at hsome
    exact absurd hnone hsome
  reply := h.reply
  held := hmem
  lost hl := by cases hx.symm.trans (Option.some.inj hl)
  wrote := h.wrote
  inTx := h.inTx
  pending := h.pending
  recorded := h.recorded
  refused := h.refused

theorem Ongoing.commits {x : (Eff.sql .commit).Resp} {k : (Eff.sql .commit).Resp → Code Reply}
    (h : Ongoing env d r status text rows s.pg.db th) (hr : Reachable env NoCalls s)
    (hadv : Advance s s' t c th (.sql .commit) x k w m) (hfault : c.fault = .none) :
    Ongoing env d r status text rows s'.pg.db (th.after (.sql .commit) x k m) := by
  have hs := reachable_ok hr
  obtain ⟨hrow, hrest, hmem⟩ := h.carried hs hadv hfault
  have hsome := h.replied hadv.prog (by simp)
  obtain ⟨job, hk, hd⟩ := h.kind
  have hok : (x : Except Err Unit) = .ok () := by
    obtain ⟨_, h⟩ := hadv.answered hs (not_ingests_deliver hk) hfault
    exact h
  subst hok
  have hsafe := h.safe
  rw [hadv.prog] at hsafe
  obtain ⟨hwrote, hopen⟩ : th.sequel.wrote.isSome ∧ th.sequel.recorded = false := hsafe.1 hsome
  obtain ⟨a, ha⟩ := Option.isSome_iff_exists.mp hwrote
  obtain ⟨htells, htext⟩ := h.wrote a ha
  obtain ⟨D, hD, hrows, -⟩ := h.pending hopen
  obtain ⟨tx, htx, hscript, -⟩ := (hs.threads t th hadv.live).permits hadv.prog
  obtain ⟨g, hg⟩ := h.inTx a tx ha hopen htx
  have hcall := kind_ne_call (fun _ _ h => h) hr hadv.live
  obtain ⟨f, g', next, hrec⟩ := hscript.records hg
  obtain ⟨job', r', hk', hd', -, -⟩ := hrec.number hcall
  obtain rfl : job = job' := Kind.deliver.inj (hk.symm.trans hk')
  obtain rfl : a.deliveryId = d := hd'.symm.trans hd
  have hin : (Stmt.insertAttempt a, g) ∈ th.tx := by
    rw [Thread.tx, htx]
    exact hg
  obtain ⟨D', row, hD', hrows', rfl, hst⟩ := hadv.records hs hcall hin hD
  have hseq : (th.after (.sql .commit) (.ok ()) k m).sequel = { th.sequel with recorded := true } :=
    if_pos hsome
  refine ⟨⟨job, hk, hd⟩, hrow, hrest, ?_, ?_, hmem, ?_, ?_, ?_, ?_, fun _ => ?_, ?_⟩
  · rw [hseq]
    intro hnone
    rw [Option.isSome_iff_ne_none] at hsome
    exact absurd hnone hsome
  · rw [hseq]; exact h.reply
  · rw [hseq]; exact h.lost
  · rw [hseq]; exact h.wrote
  · rw [hseq]
    intro a tx ha hrec
    cases hrec
  · rw [hseq]
    intro hrec
    cases hrec
  · exact ⟨htext, D', row, hD', by rw [hrows', hrows], htells, hst⟩
  · rw [hseq]; exact h.refused

theorem Ongoing.inserts {a : AttemptData} {x : (Eff.sql (.write (.insertAttempt a))).Resp}
    {k : (Eff.sql (.write (.insertAttempt a))).Resp → Code Reply}
    (h : Ongoing env d r status text rows s.pg.db th)
    (hI : Ongoing env d r status text rows s'.pg.db th) (hr : Reachable env NoCalls s)
    (hadv : Advance s s' t c th (.sql (.write (.insertAttempt a))) x k w m)
    (hfault : c.fault = .none) :
    Ongoing env d r status text rows s'.pg.db (th.after (.sql (.write (.insertAttempt a))) x k m) := by
  have hs := reachable_ok hr
  obtain ⟨hrow, hrest, hmem⟩ := h.carried hs hadv hfault
  have hsome := h.replied hadv.prog (by simp)
  obtain ⟨job, hk, hd⟩ := h.kind
  have hsafe := h.safe
  rw [hadv.prog] at hsafe
  obtain ⟨hopen, htells⟩ := hsafe.1 hsome
  have hresponse : th.sequel.reply = some (.response status text) := by
    obtain ⟨y, hy⟩ := Option.isSome_iff_exists.mp hsome
    rw [hy, h.reply y hy]
  have htells := htells status text hresponse h.lost
  obtain ⟨D, hD, hrows, hcount⟩ := h.pending hopen
  have hnum := (reachable_counted (fun _ _ h => h) hr).numbered d D hD
  have hiff := hadv.inserts_next hs hfault hk h.row (hd ▸ hD) hnum hcount
  rw [htells.body, htells.message, and_iff_left rfl] at hiff
  have hreplied : th.sequel.reply ≠ none := Option.isSome_iff_ne_none.mp hsome
  rcases x with y | _ | g
  · have hseq : (th.after (.sql (.write (.insertAttempt a))) (.error y) k m).sequel =
        { th.sequel with refused := true } := if_pos hsome
    refine ⟨⟨job, hk, hd⟩, hrow, hrest, ?_, ?_, hmem, ?_, ?_, ?_, ?_, ?_, fun _ => ?_⟩
    · rw [hseq]; exact fun hnone => absurd hnone hreplied
    · rw [hseq]; exact hI.reply
    · rw [hseq]; exact hI.lost
    · rw [hseq]; exact hI.wrote
    · rw [hseq]; exact hI.inTx
    · rw [hseq]; exact hI.pending
    · rw [hseq]; exact hI.recorded
    · refine Bool.not_eq_true _ ▸ fun htext => ?_
      obtain ⟨g, hg⟩ := hiff.mpr htext
      cases hg
  · exact absurd rfl hadv.inserts
  · have hseq : (th.after (.sql (.write (.insertAttempt a))) (.ok (some g)) k m).sequel =
        { th.sequel with wrote := some a } := if_pos hsome
    have htext := hiff.mp ⟨some g, rfl⟩
    refine ⟨⟨job, hk, hd⟩, hrow, hrest, ?_, ?_, hmem, ?_, ?_, ?_, ?_, ?_, ?_⟩
    · rw [hseq]; exact fun hnone => absurd hnone hreplied
    · rw [hseq]; exact hI.reply
    · rw [hseq]; exact hI.lost
    · rw [hseq]
      rintro _ ⟨⟩
      exact ⟨htells, htext⟩
    · rw [hseq]
      rintro _ tx' ⟨⟩ - htx'
      obtain ⟨tx, -, rfl⟩ := Option.map_eq_some_iff.mp htx'
      exact ⟨g, List.mem_append_right _ List.mem_cons_self⟩
    · rw [hseq]; exact hI.pending
    · rw [hseq]; exact hI.recorded
    · rw [hseq]; exact hI.refused

/-- **A call of the processor.** -/
theorem Ongoing.called (hr : Reachable env NoCalls s) (hadv : Advance s s' t c th e x k w m)
    (hstep : step env s (.op t c) = some s') (hl : Exclusive t d status text s (.op t c))
    (h : Ongoing env d r status text rows s.pg.db th) :
    Ongoing env d r status text rows s'.pg.db (th.after e x k m) := by
  obtain ⟨hfault, hreply⟩ : c.fault = .none ∧ c.reply = .response status text := by
    have hop : if t = t then _ else _ := hl.2
    rwa [if_pos rfl] at hop
  obtain ⟨hrow, hrest, hmem⟩ := h.carried (reachable_ok hr) hadv hfault
  by_cases hcommit : e = .sql .commit
  · subst hcommit
    exact h.commits hr hadv hfault
  have hI := h.unchanged hr hadv hstep hl hcommit
  by_cases hawait : e = .httpAwait
  · subst hawait
    have hx : x = .response status text := by
      cases hadv.done
      exact hreply
    exact hI.hears hrow hrest hmem hx
  have hsome := h.replied hadv.prog hawait
  by_cases hread : e = .readLockLost
  · subst hread
    have hx : x = false := by
      cases hadv.done
      exact h.held.1
    exact hI.reads hsome hrow hrest hmem hx
  by_cases hinsert : ∃ a, e = .sql (.write (.insertAttempt a))
  · obtain ⟨a, rfl⟩ := hinsert
    exact h.inserts hI hr hadv hfault
  -- no other call tells the sequel anything
  have hseq : (th.after e x k m).sequel = th.sequel :=
    Sequel.next_other hawait hread hcommit fun a ha => hinsert ⟨a, ha⟩
  refine ⟨h.kind, hrow, hrest, ?_, ?_, hmem, ?_, ?_, ?_, ?_, ?_, ?_⟩
  · rw [hseq]; exact fun hnone => absurd hnone (Option.isSome_iff_ne_none.mp hsome)
  · rw [hseq]; exact hI.reply
  · rw [hseq]; exact hI.lost
  · rw [hseq]; exact hI.wrote
  · rw [hseq]
    intro a tx' ha hopen htx'
    have hbegin : e ≠ .sql .begin := by
      rintro rfl
      have hsafe := h.safe
      rw [hadv.prog] at hsafe
      cases (hsafe.1 hsome).symm.trans ha
    obtain ⟨tx, htx, hpre⟩ := Facts.tx_grows htx' hbegin
    obtain ⟨g, hg⟩ := hI.inTx a tx ha hopen htx
    exact ⟨g, hpre.subset hg⟩
  · rw [hseq]; exact hI.pending
  · rw [hseq]; exact hI.recorded
  · rw [hseq]; exact hI.refused

end

/-- The processor and its delivery at a state of the run. -/
structure Going (env : Env) (t : Tid) (d : DeliveryId) (r : DeliveryForWorker) (status : ℕ)
    (text : String) (rows : List AttemptRow) (s : State) : Prop where
  lt : t < s.threads.length
  ongoing : ∀ th, s.live? t = some th → Ongoing env d r status text rows s.pg.db th

theorem going_step (hr : Reachable env NoCalls s) (hl : Exclusive t d status text s l)
    (h : step env s l = some s') (hI : Going env t d r status text rows s) :
    Going env t d r status text rows s' := by
  refine ⟨Nat.lt_of_lt_of_le hI.lt (step_length h), fun th' ht' => ?_⟩
  have hsame : (∀ c, l ≠ .op t c) → ∀ D, s.pg.db.dossier? d = some D →
      ∃ D', s'.pg.db.dossier? d = some D' ∧ D.Same D' :=
    fun hop D hD => Exclusive.same hr hl h (fun c th hc _ => absurd hc (hop c)) hD
  cases step_lives h ht' with
  | called hlab hadv hth =>
    subst hlab hth
    exact (hI.ongoing _ hadv.live).called hr hadv h hl
  | @beat th job hlab ht hk hbeat hth =>
    subst hlab hth
    have hold := hI.ongoing th ht
    obtain ⟨job', hk', rfl⟩ := hold.kind
    obtain rfl : job = job' := Kind.deliver.inj (hk.symm.trans hk')
    refine (hold.same (hsame nofun)).kept rfl rfl rfl ⟨hold.held.1, fun b hb => ?_⟩
    rcases List.mem_append.mp hb with hb | hb
    · exact hold.held.2 b hb
    · rw [List.mem_singleton.mp hb, (lockAt_extendLock _ _ _ job.text _ _).1]
      refine decide_eq_true (hl.2 rfl job ?_)
      rw [ht, Option.bind_some, Thread.job?, hk]
      rfl
  | @heard th held rest hlab ht hnext hth =>
    subst hlab hth
    have hold := hI.ongoing th ht
    obtain rfl : held = true := hold.held.2 held (hnext ▸ List.mem_cons_self)
    refine (hold.same (hsame nofun)).kept rfl rfl rfl ⟨by simp [hold.held.1], fun b hb => ?_⟩
    exact hold.held.2 b (hnext ▸ List.mem_cons_of_mem _ hb)
  | @kept th ht hreply hk hmem =>
    have hold := hI.ongoing th ht
    by_cases hop : ∃ c, l = .op t c
    · -- a call leaves no execution as it was
      obtain ⟨c, rfl⟩ := hop
      obtain ⟨th₁, e, x, k, w, m, hadv⟩ := stepOp_cases h
      obtain rfl := Option.some.inj (hadv.live?_self.symm.trans ht')
      exact (hI.ongoing th₁ hadv.live).called hr hadv h hl
    · refine (hold.same (hsame fun c hc => hop ⟨c, hc⟩)).kept hk.kind hk.prog hk.trace ?_
      rw [hmem]
      exact hold.held
  | fresh hlen hk hth => exact absurd hI.lt (Nat.not_lt.mpr hlen)

theorem going_run (hr : Reachable env NoCalls s) {ls : List Label}
    (hrun : Run (step env) (Exclusive t d status text) s ls s')
    (hI : Going env t d r status text rows s) : Going env t d r status text rows s' := by
  have hinv := hrun.invariant (I := fun s => Reachable env NoCalls s ∧
    Going env t d r status text rows s) ?_ ⟨hr, hI⟩
  · exact hinv.2
  · rintro s l s' ⟨hr, hI⟩ hC hstep
    exact ⟨hr.snoc hC.1 hstep, going_step hr hC hstep hI⟩

theorem Thread.Awaits.going (h : Reachable env NoCalls s) (ht : s.live? t = some th)
    (hw : th.Awaits s.pg.db d r) : Going env t d r status text (s.pg.db.attemptsOf d) s := by
  refine ⟨State.live?_lt ht, fun th' ht' => ?_⟩
  obtain rfl := Option.some.inj (ht.symm.trans ht')
  obtain ⟨job, hk, hd⟩ := hw.kind
  obtain ⟨k, hp⟩ := hw.prog
  have hperm : th.facts.sent.isSome ∧ th.facts.reply = none :=
    ((reachable_ok h).threads t th ht).permits hp
  obtain ⟨hempty, hsafe⟩ := reachable_early h t th job ht hk hperm.2
  obtain ⟨row, hrow, hcount⟩ := Option.map_eq_some_iff.mp hw.current
  have hD : s.pg.db.dossier? d = some ⟨row, s.pg.db.log d, s.pg.db.attemptsOf d⟩ := by
    simp [Db.dossier?, hrow]
  refine ⟨hw.kind, hw.row, hempty ▸ hsafe, fun _ => hw.prog, ?_, hw.held, ?_, ?_, ?_,
    fun _ => ⟨_, hD, rfl, hcount⟩, ?_, ?_⟩ <;> rw [hempty]
  · intro x hx
    cases hx
  · intro hlost
    cases hlost
  · intro a ha
    cases ha
  · intro a tx ha
    cases ha
  · intro hrec
    cases hrec
  · intro href
    cases href

/-! ## The end -/

/-- The execution has no call left. -/
def Thread.ended (th : Thread) : Bool :=
  match th.prog with
  | .op .. => false
  | _ => true

/-- The exchange has led to one attempt of the delivery, and a 2xx to its delivery. -/
structure ExchangeRecorded (env : Env) (db db' : Db) (d : DeliveryId) (status : ℕ) (text : String) :
    Prop where
  one : ∃ a, db'.attemptsOf d = db.attemptsOf d ++ [a] ∧ a.httpStatus = some status ∧
    a.responseBody = some (keptBody env text)
  delivered : 200 ≤ status → status < 300 → db'.status? d = some .delivered

theorem Ongoing.ended (h : Ongoing env d r status text (db.attemptsOf d) db' th)
    (hend : th.ended = true) : ExchangeRecorded env db db' d status text ↔
      textOk (some (keptBody env text)) = true := by
  have hsome : th.sequel.reply.isSome := by
    by_contra hnone
    obtain ⟨k, hk⟩ := h.first (Option.not_isSome_iff_eq_none.mp hnone)
    rw [Thread.ended, hk] at hend
    cases hend
  have hclosed : th.sequel.Closed := by
    have hsafe := h.safe
    rw [Thread.ended] at hend
    cases hp : th.prog with
    | op e k =>
      rw [hp] at hend
      cases hend
    | ret a =>
      rw [hp] at hsafe
      exact hsafe
    | raise y =>
      rw [hp] at hsafe
      exact hsafe
  constructor
  · intro hrec
    cases hopen : th.sequel.recorded with
    | true => exact (h.recorded hopen).1
    | false =>
      obtain ⟨D, hD, hrows, -⟩ := h.pending hopen
      obtain ⟨a, ha, -⟩ := hrec.one
      rw [← (Db.dossier?_eq_some.mp hD).2.2, hrows] at ha
      exact absurd ha (by simp)
  · intro htext
    have hdone : th.sequel.recorded = true := by
      refine (hclosed hsome).resolve_left fun href => ?_
      rw [h.refused href] at htext
      cases htext
    obtain ⟨-, D, a, hD, hrows, htells, hst⟩ := h.recorded hdone
    refine ⟨⟨a, ?_, htells.httpStatus, htells.body⟩, fun h200 h300 => ?_⟩
    · rw [← (Db.dossier?_eq_some.mp hD).2.2, hrows]
    · rw [Db.status?_eq hD, hst, htells.outcome, if_pos ⟨h200, h300⟩]
      rfl

/-! ## The run to the end -/

/-- No other execution holds a key. -/
def Postgres.onlyOf (pg : Postgres) (t : Tid) : Prop := ∀ key u, pg.locks key = some u → u = t

theorem Postgres.onlyOf.free {pg : Postgres} (h : pg.onlyOf t) (key : LockKey) :
    pg.free t key = true := by
  unfold Postgres.free
  cases hk : pg.locks key with
  | none => rfl
  | some u => exact decide_eq_true (h key u hk)

theorem Postgres.onlyOf.take {pg : Postgres} (h : pg.onlyOf t) (db : Db) (keys : List LockKey) :
    (({ pg with db := db } : Postgres).take t keys).onlyOf t := by
  intro key u hk
  simp only [Postgres.take] at hk
  split at hk
  · exact (Option.some.inj hk).symm
  · exact h key u hk

theorem Postgres.onlyOf.giveBack {pg : Postgres} (h : pg.onlyOf t) (db : Db) :
    (({ pg with db := db } : Postgres).giveBack t).onlyOf t := by
  intro key u hk
  simp only [Postgres.giveBack] at hk
  split at hk
  · cases hk
  · exact h key u hk

/-- Where no other execution holds a key a statement that claims no rows runs. -/
theorem Sql.exec_enabled {pg : Postgres} (h : pg.onlyOf t) (now : Time) (sess : Option Session)
    {q : Sql} (hq : ∀ grace limit, q ≠ .selectUnenqueued grace limit) :
    ∃ pg' sess' x, q.exec pg t now sess .none [] = some (pg', sess', x) ∧ pg'.onlyOf t := by
  cases q with
  | write st =>
    have hfree : st.key.all (pg.free t) = true := by
      cases st.key with
      | none => rfl
      | some key => exact h.free key
    simp only [Sql.exec, Stmt.exec]
    rw [if_neg (by simp), if_pos hfree]
    split
    · exact ⟨_, _, _, rfl, h⟩
    · exact ⟨_, _, _, rfl, h⟩
    · cases sess with
      | some σ => exact ⟨_, _, _, rfl, h.take _ _⟩
      | none => exact ⟨_, _, _, rfl, h⟩
  | selectUnenqueued grace limit => exact absurd rfl (hq grace limit)
  | selectStatusForUpdate x =>
    simp only [Sql.exec]
    rw [if_pos trivial, if_pos (h.free _)]
    split
    · exact ⟨_, _, _, rfl, h⟩
    · exact ⟨_, _, _, rfl, h.take _ _⟩
  | commit =>
    exact ⟨_, _, _, rfl, h.giveBack _⟩
  | rollback => exact ⟨_, _, _, rfl, h.giveBack _⟩
  | _ => exact ⟨_, _, _, rfl, h⟩

theorem perform_enabled {w : World} (h : w.pg.onlyOf t) (m : Memory) (reply : HttpReply) {e : Eff}
    (he : ∀ grace limit, e ≠ .sql (.selectUnenqueued grace limit)) :
    ∃ w' m' x, perform t w m { reply := reply } e = some (w', m', x) ∧ w'.pg.onlyOf t := by
  by_cases hq : ∃ q, e = .sql q
  · obtain ⟨q, rfl⟩ := hq
    obtain ⟨pg', sess', x, hex, honly⟩ := Sql.exec_enabled h w.now m.sess
      fun grace limit hq => he grace limit (congrArg Eff.sql hq)
    exact ⟨{ w with pg := pg' }, { m with sess := sess' }, x, by simp only [perform, hex]; rfl, honly⟩
  · have hpg : ∀ {w' m' x}, perform t w m { reply := reply } e = some (w', m', x) →
        w'.pg.onlyOf t := fun hdone => (perform_other (fun q h => hq ⟨q, h⟩) hdone).1 ▸ h
    cases e with
    | sql q => exact absurd ⟨q, rfl⟩ hq
    | _ => exact ⟨_, _, _, rfl, hpg rfl⟩

/-- **A processor runs to its end** where no other execution holds a key. -/
theorem processor_ends {job : JobRef} (reply : HttpReply) (hs : s.Ok) (ht : s.live? t = some th)
    (hk : th.kind = .deliver job) (honly : s.pg.onlyOf t) :
    ∃ ls s' th', Run (step env) (fun _ l => l = .op t { reply := reply }) s ls s' ∧
      s'.live? t = some th' ∧ th'.ended = true := by
  generalize hp : th.prog = p
  induction p generalizing s th with
  | ret a => exact ⟨[], s, th, .nil s, ht, by rw [Thread.ended, hp]⟩
  | raise y => exact ⟨[], s, th, .nil s, ht, by rw [Thread.ended, hp]⟩
  | op e k ih =>
    have he : ∀ grace limit, e ≠ .sql (.selectUnenqueued grace limit) := by
      rintro grace limit rfl
      obtain ⟨-, -, hclaims⟩ := (hs.threads t th ht).permits hp
      rw [hk] at hclaims
      rcases hclaims with h | ⟨_, h⟩ <;> cases h
    obtain ⟨w, m, x, hdone, honly'⟩ := perform_enabled honly th.mem reply he
    have hadv : Advance s ⟨w, s.threads.set t (th.after e x k m)⟩ t { reply := reply } th e x k w m :=
      ⟨ht, hp, hdone, rfl⟩
    have hstep : step env s (.op t { reply := reply }) =
        some ⟨w, s.threads.set t (th.after e x k m)⟩ := by
      simp only [step, State.stepOp, ht, Option.bind_some, hp, hdone, Option.map_some]
      rfl
    obtain ⟨ls, s', th', hrun, h'⟩ := ih x (hs.step hstep) hadv.live?_self hk honly' rfl
    exact ⟨_ :: ls, s', th', .cons rfl hstep hrun, h'⟩

/-! ## The exchange -/

/-- The sample delivery with a processor that waits for its response. -/
def sampleAwait : List Label := sampleIngest ++ [.pickup (.delivery 2)] ++ calls 1 15

end WebhookEngine
