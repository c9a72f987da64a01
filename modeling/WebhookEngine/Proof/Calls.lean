import WebhookEngine.Proof.Commits

set_option autoImplicit false

/-!
# Calls to Postgres

* `Executes`: what a statement does: nothing to the tables, a write into the open transaction, an
  UPDATE on its own, a COMMIT. **`exec_cases`** says there is nothing else.
* `State.Ok.call`: a call keeps the invariant of `Sessions`.
* **`reachable_ok`**: the invariant holds in every reachable state.
-/

namespace WebhookEngine

open EffectProg TransitionSystem

variable {env : Env} {s s' : State} {t u : Tid} {th : Thread} {pg pg' : Postgres}
  {sess sess' : Option Session} {now : Time} {fault : Fault} {rows : List DeliveryId}

/-! ## One statement -/

theorem Fault.answer_ok {α : Type} {a b : α} (h : fault.answer a = .ok b) :
    fault = .none ∧ b = a := by
  unfold Fault.answer at h
  split at h
  · rename_i hf
    cases h
    exact ⟨hf, rfl⟩
  · cases h

/-- The ways a writing statement goes. -/
inductive Writes (pg : Postgres) (t : Tid) (now : Time) (sess : Option Session) (st : Stmt) :
    Postgres → Option Session → Except Err (Option ℕ) → Prop where
  | refused {x : Err} : Writes pg t now sess st pg sess (.error x)
  | missed (h : st.verdict ((sess.getD ⟨now, []⟩).view pg.db) = .matchesNothing) {fault : Fault} :
      Writes pg t now sess st pg sess (fault.answer none)
  | joins {σ : Session} (hs : sess = some σ) (hfree : st.key.all (pg.free t))
      (hv : st.verdict (σ.view pg.db) = .writes) :
      Writes pg t now sess st
        (({ pg with db := (st.draw pg.db).2 } : Postgres).take t st.key.toList)
        (some { σ with writes := σ.writes ++ [⟨st, (st.draw pg.db).1, σ.startedAt⟩] })
        (.ok (some (st.draw pg.db).1))
  | alone (hs : sess = none) (hfree : st.key.all (pg.free t)) (hv : st.verdict pg.db = .writes)
      {fault : Fault} :
      Writes pg t now sess st
        { pg with db := (st.draw pg.db).2.apply ⟨st, (st.draw pg.db).1, now⟩ } none
        (fault.answer (some (st.draw pg.db).1))

theorem Stmt.exec_cases {st : Stmt} {r : Except Err (Option ℕ)}
    (h : st.exec pg t now sess fault = some (pg', sess', r)) :
    Writes pg t now sess st pg' sess' r := by
  unfold Stmt.exec at h
  split at h
  · cases h
    exact .refused
  split at h
  · rename_i hfree
    split at h
    · cases h
      exact .refused
    · rename_i hv
      cases h
      exact .missed hv
    · rename_i hv
      cases sess with
      | some σ =>
        cases h
        exact .joins rfl hfree hv
      | none =>
        cases h
        exact .alone rfl hfree hv
  · cases h

theorem Writes.matchesNothing {st : Stmt} {r : Except Err (Option ℕ)}
    (h : Writes pg t now sess st pg' sess' r) (hr : r = .ok none) :
    st.verdict ((sess.getD ⟨now, []⟩).view pg.db) = .matchesNothing := by
  cases h with
  | refused => cases hr
  | missed h => exact h
  | joins hs hfree hv => cases hr
  | alone hs hfree hv => exact absurd (Fault.answer_ok hr).2 (by simp)

/-- A transaction never gets the answer that its row is not there. -/
theorem Writes.expected {st : Stmt} {r : Except Err (Option ℕ)}
    (h : Writes pg t now sess st pg' sess' r) (hr : r = .ok none)
    (hd : ∀ d, st.key = some (.row d) → (pg.db.delivery? d).isSome) :
    ∃ c i ty p, st = .insertEvent c i ty p := by
  have hv := h.matchesNothing hr
  have hsome : ∀ d, st.key = some (.row d) →
      (((sess.getD ⟨now, []⟩).view pg.db).delivery? d).isSome :=
    fun d hk => (Db.applyAll_grows _).2.2 (hd d hk)
  cases st with
  | insertEvent c i ty p => exact ⟨c, i, ty, p, rfl⟩
  | insertDelivery ev ep =>
    simp only [Stmt.verdict] at hv
    split at hv <;> cases hv
  | insertTransition d f st reason a =>
    simp only [Stmt.verdict] at hv
    split at hv <;> cases hv
  | insertAttempt a =>
    simp only [Stmt.verdict] at hv
    split at hv <;> cases hv
  | updateStatus d st => simp [Stmt.verdict, hsome d rfl] at hv
  | updateAttempt d st next => simp [Stmt.verdict, hsome d rfl] at hv
  | updateEnqueued d => simp [Stmt.verdict, hsome d rfl] at hv

/-! ## Writes of a transaction -/

theorem draw_sameTables {st : Stmt} {keys : List LockKey} :
    SameTables pg (({ pg with db := (st.draw pg.db).2 } : Postgres).take t keys) := by
  cases st <;>
    exact ⟨rfl, rfl, rfl, rfl, by simp [Stmt.draw, Postgres.take],
      by simp [Stmt.draw, Postgres.take]⟩

theorem Postgres.take_mine {keys : List LockKey} {key : LockKey} (h : pg.locks key = some t) :
    (pg.take t keys).locks key = some t := by
  change (if key ∈ keys then some t else pg.locks key) = some t
  split
  · rfl
  · exact h

theorem Postgres.free_iff {key : LockKey} :
    pg.free t key = true ↔ ∀ u, pg.locks key = some u → u = t := by
  cases h : pg.locks key <;> simp [Postgres.free, h]

theorem Postgres.take_other {keys : List LockKey} (hfree : ∀ key ∈ keys, pg.free t key)
    {key : LockKey} (hu : u ≠ t) (h : pg.locks key = some u) :
    (pg.take t keys).locks key = some u := by
  change (if key ∈ keys then some t else pg.locks key) = some u
  rw [if_neg]
  · exact h
  · exact fun hk => hu (Postgres.free_iff.mp (hfree key hk) u h)

theorem Postgres.take_row {keys : List LockKey} {key : LockKey}
    (h : (pg.take t keys).locks key = some u) : key ∈ keys ∨ pg.locks key = some u := by
  change (if key ∈ keys then some t else pg.locks key) = some u at h
  split at h
  · rename_i hk
    exact Or.inl hk
  · exact Or.inr h

theorem free_of_all {st : Stmt} (h : st.key.all (pg.free t)) :
    ∀ key ∈ st.key.toList, pg.free t key := by
  intro key hk
  cases hkey : st.key with
  | none => simp [hkey] at hk
  | some key' =>
    simp only [hkey, Option.toList_some, List.mem_singleton] at hk
    simpa [hkey, hk] using h

theorem pending_of_writes {st : Stmt} {σ : Session} {k : Kind} {m : Facts} {tx rest : List Entry}
    (hdb : DbOk pg.db) (hv : st.verdict (σ.view pg.db) = .writes)
    (hs : Script k m (tx ++ (st, (st.draw pg.db).1) :: rest)) (hok : TxOk pg t tx) :
    Pending (({ pg with db := (st.draw pg.db).2 } : Postgres).take t st.key.toList) t
      (tx ++ [(st, (st.draw pg.db).1)]) (st, (st.draw pg.db).1) := by
  have hgrow := fun x => @Db.applyAll_grows pg.db x σ.writes
  cases st with
  | insertEvent c i ty p =>
    refine ⟨Nat.lt_succ_self _, fun r hr => ⟨?_, ?_⟩⟩
    · exact Nat.ne_of_lt (hdb.eventIdsLt r hr)
    · rintro ⟨rfl, rfl⟩
      simp only [Stmt.verdict] at hv
      split_ifs at hv with htext hnone
      · have hmem : r ∈ (σ.view pg.db).events := (hgrow 0).1 r hr
        apply hnone
        rw [Db.eventByKey?, List.find?_isSome]
        exact ⟨r, hmem, by simp⟩
  | insertDelivery ev ep =>
    refine ⟨Nat.lt_succ_self _, ?_⟩
    change Db.delivery? pg.db pg.db.uuidSeq = none
    rw [Db.delivery?_none_iff]
    intro h
    obtain ⟨r, hr, he⟩ := List.mem_map.mp h
    exact absurd he (Nat.ne_of_lt (hdb.idsLt r hr))
  | insertTransition d f st reason a =>
    refine ⟨Nat.lt_succ_self _, fun r hr => ?_, ?_⟩
    · exact hdb.logIdsLt r (Db.mem_log.mp hr).1
    · rcases hs.guarded with ⟨e, he, hk⟩ | ⟨ev, ep, hmem⟩
      · exact Or.inl (hok.owns e he _ hk)
      · exact Or.inr ⟨ev, ep, List.mem_append_left _ hmem⟩
  | insertAttempt a =>
    intro r hr hra
    simp only [Stmt.verdict] at hv
    split at hv
    · rename_i h
      have hmem : r ∈ (σ.view pg.db).attempts := (hgrow 0).2.1 r hr
      refine h.2.1 (List.any_eq_true.mpr ⟨r, hmem, ?_⟩)
      simpa using hra
    · cases hv
  | _ => trivial

theorem Pending.append {tx : List Entry} {e e' : Entry} (h : Pending pg t tx e) :
    Pending pg t (tx ++ [e']) e := by
  obtain ⟨st, g⟩ := e
  cases st with
  | insertTransition d f st reason a =>
    refine ⟨h.1, h.2.1, h.2.2.imp_right ?_⟩
    rintro ⟨ev, ep, hmem⟩
    exact ⟨ev, ep, List.mem_append_left _ hmem⟩
  | _ => exact h

theorem Pending.eventByKey? {tx : List Entry} {e : Entry} (h : Pending pg t tx e) {c i : String}
    (hk : e.1.key = some (.event c i)) : pg.db.eventByKey? c i = none := by
  obtain ⟨st, g⟩ := e
  cases st <;> cases hk
  exact List.find?_eq_none.mpr fun r hr => by simpa using (h.2 r hr).2

theorem TxOk.joins {st : Stmt} {σ : Session} {k : Kind} {m : Facts} {tx rest : List Entry}
    (hdb : DbOk pg.db) (hv : st.verdict (σ.view pg.db) = .writes)
    (hs : Script k m (tx ++ (st, (st.draw pg.db).1) :: rest)) (hok : TxOk pg t tx) :
    TxOk (({ pg with db := (st.draw pg.db).2 } : Postgres).take t st.key.toList) t
      (tx ++ [(st, (st.draw pg.db).1)]) := by
  have hsame : TxOk (({ pg with db := (st.draw pg.db).2 } : Postgres).take t st.key.toList) t tx :=
    hok.same draw_sameTables fun key h => Postgres.take_mine h
  constructor
  · intro e he key hk
    rcases List.mem_append.mp he with he | he
    · exact hsame.owns e he key hk
    · rw [List.mem_singleton.mp he] at hk
      change (if key ∈ st.key.toList then some t else pg.locks key) = some t
      rw [if_pos]
      simpa [Option.mem_toList] using hk
  · intro e he
    rcases List.mem_append.mp he with he | he
    · exact (hsame.pending e he).append
    · rw [List.mem_singleton.mp he]
      exact pending_of_writes hdb hv hs hok

/-! ## The execution that makes the call -/

section After

variable {e : Eff} {r : e.Resp} {k : e.Resp → Code Reply} {m : Memory}

theorem Thread.Ok.permits (hok : th.Ok pg t) (hp : th.prog = .op e k) :
    permitsCall t th.kind th.facts e := by
  have h := hok.safe
  rw [hp] at h
  exact h.1

theorem Thread.Ok.safe_after (hok : th.Ok pg t) (hp : th.prog = .op e k)
    (hr : expectsCall th.facts e r) :
    Prog.Safe (discipline t th.kind) (th.facts.next e r) (k r) fun _ _ => True := by
  have h := hok.safe
  rw [hp] at h
  exact h.2 r hr

theorem Thread.Ok.safe_next (hok : th.Ok pg t) (hp : th.prog = .op e k)
    (hr : expectsCall th.facts e r) :
    Prog.Safe (discipline t (th.after e r k m).kind) (th.after e r k m).facts
      (th.after e r k m).prog fun _ _ => True :=
  hok.safe_after hp hr

theorem Thread.Ok.after_same (hok : th.Ok pg t) (hp : th.prog = .op e k)
    (hr : expectsCall th.facts e r) (hs : m.sess = th.mem.sess)
    (htx : (th.facts.next e r).tx = th.facts.tx)
    (hseen : (th.facts.next e r).seen = th.facts.seen)
    (hknows : ∀ d, Knows th.kind (th.facts.next e r) d → (pg.db.delivery? d).isSome) :
    (th.after e r k m).Ok pg t where
  safe := hok.safe_after hp hr
  sess := by
    rw [Thread.facts_after, htx, ← hok.sess]
    exact congrArg (Option.map _) hs
  knows := hknows
  seen d st hk h hsome := hok.seen d st hk (hseen ▸ h) (htx ▸ hsome)
  tx := by
    rw [Thread.tx, Thread.facts_after, htx]
    exact hok.tx

theorem Thread.Ok.after_closed (hok : th.Ok pg t) (hp : th.prog = .op e k)
    (hr : expectsCall th.facts e r) (hs : m.sess = none) (htx : (th.facts.next e r).tx = none)
    (hknows : ∀ d, Knows th.kind (th.facts.next e r) d → (pg'.db.delivery? d).isSome) :
    (th.after e r k m).Ok pg' t where
  safe := hok.safe_after hp hr
  sess := by
    rw [Thread.facts_after, htx, Memory.entries]
    exact congrArg (Option.map _) hs
  knows := hknows
  seen d st hk h hsome := by
    rw [Thread.facts_after, htx] at hsome
    cases hsome
  tx := by
    rw [Thread.tx, Thread.facts_after, htx]
    exact .nil

theorem Thread.Ok.after_other (hok : th.Ok pg t) (hp : th.prog = .op e k)
    (he : ∀ q, e ≠ .sql q) (hs : m.sess = th.mem.sess) : (th.after e r k m).Ok pg t := by
  obtain ⟨h1, h2, h3, h4, -⟩ := @Facts.next_of_not_sql th.facts e he r
  refine hok.after_same hp ?_ hs h1 h3 fun d hd => hok.knows d (hd.congr h2 h3 h4)
  cases e with
  | sql q => exact absurd rfl (he q)
  | _ => trivial

end After

theorem Thread.Ok.sess_none (hok : th.Ok pg t) (h : th.facts.tx = none) : th.mem.sess = none := by
  have := hok.sess
  rw [h, Memory.entries] at this
  exact Option.map_eq_none_iff.mp this

theorem Thread.Ok.sess_some (hok : th.Ok pg t) {tx : List Entry} (h : th.facts.tx = some tx) :
    ∃ σ, th.mem.sess = some σ ∧ σ.writes.map (fun w => (w.stmt, w.gen)) = tx := by
  have := hok.sess
  rw [h, Memory.entries] at this
  exact Option.map_eq_some_iff.mp this

theorem Thread.Ok.view_eq (hok : th.Ok pg t) (h : th.facts.tx = some [] ∨ th.facts.tx = none) :
    (th.mem.sess.getD ⟨now, []⟩).view pg.db = pg.db := by
  rcases h with h | h
  · obtain ⟨σ, hσ, hw⟩ := hok.sess_some h
    rw [hσ, Option.getD_some, Session.view, List.map_eq_nil_iff.mp hw]
    rfl
  · rw [hok.sess_none h]
    rfl

/-- **What a statement does to the server.** -/
inductive PgStep (t : Tid) (th : Thread) (now : Time) (q : Sql) (pg : Postgres) :
    Postgres → Prop where
  | tables {pg' : Postgres} (h : SameTables pg pg')
      (hl : ∀ key u, u ≠ t → pg.locks key = some u → pg'.locks key = some u)
      (hr : ∀ d u, pg'.locks (.row d) = some u →
        pg.locks (.row d) = some u ∨ (pg.db.delivery? d).isSome)
      (he : ∀ c i u, pg'.locks (.event c i) = some u →
        pg.locks (.event c i) = some u ∨ pg.db.eventByKey? c i = none) : PgStep t th now q pg pg'
  | commit {db' : Db} (hq : q = .commit) (hc : Committed th.kind th.facts pg.db th.tx db') :
      PgStep t th now q pg (({ pg with db := db' }).giveBack t)
  | touch {d : DeliveryId} (hq : q = .write (.updateEnqueued d)) (htx : th.facts.tx = none) :
      PgStep t th now q pg { pg with db := pg.db.apply ⟨.updateEnqueued d, 0, now⟩ }

theorem PgStep.stay {q : Sql} : PgStep t th now q pg pg :=
  .tables (.refl pg) (fun _ _ _ h => h) (fun _ _ h => Or.inl h) fun _ _ _ h => Or.inl h

theorem PgStep.giveBack {q : Sql} : PgStep t th now q pg (pg.giveBack t) :=
  .tables ⟨rfl, rfl, rfl, rfl, Nat.le_refl _, Nat.le_refl _⟩
    (fun _ _ hu h => Postgres.giveBack_other hu h) (fun _ _ h => Or.inl (Postgres.giveBack_old h))
    fun _ _ _ h => Or.inl (Postgres.giveBack_old h)

theorem PgStep.take {q : Sql} {rows : List DeliveryId} (hfree : ∀ d ∈ rows, pg.free t (.row d))
    (hrow : ∀ d ∈ rows, (pg.db.delivery? d).isSome) :
    PgStep t th now q pg (pg.take t (rows.map .row)) := by
  refine .tables ⟨rfl, rfl, rfl, rfl, Nat.le_refl _, Nat.le_refl _⟩
    (fun _ _ hu h => Postgres.take_other (fun key hkey => ?_) hu h) (fun d u h => ?_)
    fun c i u h => ?_
  · obtain ⟨d, hd, rfl⟩ := List.mem_map.mp hkey
    exact hfree d hd
  · rcases Postgres.take_row h with h | h
    · obtain ⟨d', hd', he⟩ := List.mem_map.mp h
      cases he
      exact Or.inr (hrow d hd')
    · exact Or.inl h
  · rcases Postgres.take_row h with h | h
    · obtain ⟨d', -, he⟩ := List.mem_map.mp h
      cases he
    · exact Or.inl h

/-- What a call to Postgres leaves behind: the execution is in order, the server made a `PgStep`, and
uuids the transaction did not have are new. -/
structure SqlDone (t : Tid) (th th' : Thread) (now : Time) (q : Sql) (pg pg' : Postgres) : Prop where
  ok : th'.Ok pg' t
  server : PgStep t th now q pg pg'
  draws : ∀ e ∈ th'.tx, e.draws → e ∈ th.tx ∨ pg.db.uuidSeq ≤ e.2

theorem mem_getD_of_eq {o o' : Option (List Entry)} (h : o' = o) {e : Entry}
    (he : e ∈ o'.getD []) : e ∈ o.getD [] := h ▸ he

theorem Thread.Ok.read (hok : th.Ok pg t) {q : Sql} {r : Except Err q.Ret}
    {k : (Eff.sql q).Resp → Code Reply} (hp : th.prog = .op (.sql q) k)
    (hr : expectsCall th.facts (.sql q) r) (htx : (th.facts.nextSql q r).tx = th.facts.tx)
    (hseen : (th.facts.nextSql q r).seen = th.facts.seen)
    (hknows : ∀ d, Knows th.kind (th.facts.nextSql q r) d → (pg.db.delivery? d).isSome) :
    SqlDone t th (th.after (.sql q) r k { th.mem with sess := th.mem.sess }) now q pg pg :=
  ⟨hok.after_same hp hr rfl htx hseen hknows, .stay, fun _ he _ => Or.inl (mem_getD_of_eq htx he)⟩

theorem Thread.Ok.ended (hok : th.Ok pg t) {q : Sql} {r : Except Err q.Ret}
    {k : (Eff.sql q).Resp → Code Reply} (hp : th.prog = .op (.sql q) k)
    (hr : expectsCall th.facts (.sql q) r) (htx : (th.facts.nextSql q r).tx = none)
    (hpg : PgStep t th now q pg pg')
    (hknows : ∀ d, Knows th.kind (th.facts.nextSql q r) d → (pg'.db.delivery? d).isSome) :
    SqlDone t th (th.after (.sql q) r k { th.mem with sess := none }) now q pg pg' := by
  refine ⟨hok.after_closed hp hr rfl htx hknows, hpg, fun e he _ => ?_⟩
  have : e ∈ (none : Option (List Entry)).getD [] := mem_getD_of_eq htx he
  cases this

theorem Facts.nextSql_commit (m : Facts) (r : Except Err Unit) :
    (m.nextSql .commit r).tx = none ∧ (m.nextSql .commit r).row = m.row ∧
      (m.nextSql .commit r).seen = m.seen ∧ (m.nextSql .commit r).claimed = m.claimed := by
  cases r <;> exact ⟨rfl, rfl, rfl, rfl⟩

theorem Facts.nextSql_rollback (m : Facts) (r : Except Err Unit) :
    (m.nextSql .rollback r).tx = none ∧ (m.nextSql .rollback r).row = m.row ∧
      (m.nextSql .rollback r).seen = m.seen ∧ (m.nextSql .rollback r).claimed = m.claimed := by
  cases r <;> exact ⟨rfl, rfl, rfl, rfl⟩

theorem Thread.Ok.commit (hok : th.Ok pg t) {r : Except Err Unit}
    {k : (Eff.sql .commit).Resp → Code Reply} (hp : th.prog = .op (.sql .commit) k)
    (hex : Sql.commit.exec pg t now th.mem.sess fault rows = some (pg', sess', r)) :
    SqlDone t th (th.after (.sql .commit) r k { th.mem with sess := sess' }) now .commit pg pg' := by
  obtain ⟨tx, htx, hscript, -⟩ := hok.permits hp
  obtain ⟨σ, hσ, hw⟩ := hok.sess_some htx
  have hmine : th.tx = tx := by rw [Thread.tx, htx]; rfl
  cases hex
  obtain ⟨hnone, hrow, hseen, hclaimed⟩ := Facts.nextSql_commit th.facts (fault.answer ())
  refine hok.ended hp trivial hnone ?_ ?_
  · split
    · exact .giveBack
    · refine .commit rfl ?_
      rw [hσ, hmine]
      exact hscript.committed hw
  · intro d hd
    have hsome := hok.knows d (hd.congr hrow hseen hclaimed)
    change Option.isSome (Db.delivery? (ite _ _ _) d) = true
    split
    · exact hsome
    · exact (Db.applyAll_grows _).2.2 hsome

theorem Facts.nextSql_write_alone {m : Facts} (h : m.tx = none) {st : Stmt}
    (r : Except Err (Option ℕ)) : m.nextSql (.write st) r = m := by
  match r with
  | .error x => rfl
  | .ok none => rfl
  | .ok (some g) =>
    change { m with tx := m.tx.map _ } = m
    rw [h]
    exact Facts.closed_of_tx h

theorem Thread.Ok.row_known (hok : th.Ok pg t) {st : Stmt}
    {k : (Eff.sql (.write st)).Resp → Code Reply} (hp : th.prog = .op (.sql (.write st)) k)
    (hsome : th.facts.tx.isSome) {d : DeliveryId} (hk : st.key = some (.row d)) :
    (pg.db.delivery? d).isSome := by
  have hperm : mayWrite th.kind th.facts st := hok.permits hp
  obtain ⟨tx, htx⟩ := Option.isSome_iff_exists.mp hsome
  rw [mayWrite, htx] at hperm
  obtain ⟨rest, hs⟩ := hperm 0
  exact hok.knows d (hs.knows (List.mem_append_right _ List.mem_cons_self) hk)

theorem Thread.Ok.write_expected (hok : th.Ok pg t) {st : Stmt} {r : Except Err (Option ℕ)}
    {k : (Eff.sql (.write st)).Resp → Code Reply} (hp : th.prog = .op (.sql (.write st)) k)
    (hex : st.exec pg t now th.mem.sess fault = some (pg', sess', r)) :
    expectsCall th.facts (.sql (.write st)) r := by
  have hne : th.facts.tx.isSome → (∀ c i ty p, st ≠ .insertEvent c i ty p) → r ≠ .ok none := by
    intro hsome hne hr
    obtain ⟨c, i, ty, p, rfl⟩ :=
      (Stmt.exec_cases hex).expected hr fun d => hok.row_known hp hsome
    exact hne c i ty p rfl
  cases st with
  | insertEvent c i ty p => trivial
  | _ => exact fun hsome => hne hsome (by simp)

theorem Thread.Ok.write (hok : th.Ok pg t) (hdb : DbOk pg.db) {st : Stmt}
    {r : Except Err (Option ℕ)} {k : (Eff.sql (.write st)).Resp → Code Reply}
    (hp : th.prog = .op (.sql (.write st)) k)
    (hex : st.exec pg t now th.mem.sess fault = some (pg', sess', r)) :
    SqlDone t th (th.after (.sql (.write st)) r k { th.mem with sess := sess' }) now (.write st)
      pg pg' := by
  have hperm : mayWrite th.kind th.facts st := hok.permits hp
  have hexpects := hok.write_expected hp hex
  have hw := Stmt.exec_cases hex
  have hstays : ∀ r : Except Err (Option ℕ), (∀ g, r ≠ .ok (some g)) →
      th.facts.nextSql (.write st) r = th.facts := by
    intro r hr
    match r with
    | .error x => rfl
    | .ok none => rfl
    | .ok (some g) => exact absurd rfl (hr g)
  cases hw with
  | @refused x =>
    have h := hstays (.error x) (by simp)
    exact hok.read hp hexpects (by rw [h]) (by rw [h]) (by rw [h]; exact hok.knows)
  | @missed hv f =>
    have h := hstays (f.answer none) fun g hg => by simpa using (Fault.answer_ok hg).2
    exact hok.read hp hexpects (by rw [h]) (by rw [h]) (by rw [h]; exact hok.knows)
  | @joins σ hs hfree hv =>
    have hsome : th.facts.tx.isSome := by
      rw [← hok.sess, Memory.entries, hs]
      rfl
    obtain ⟨tx, htx⟩ := Option.isSome_iff_exists.mp hsome
    have hmine : th.tx = tx := by rw [Thread.tx, htx]; rfl
    rw [mayWrite, htx] at hperm
    obtain ⟨rest, hscript⟩ := hperm (st.draw pg.db).1
    have htx' : (th.facts.nextSql (.write st) (.ok (some (st.draw pg.db).1))).tx =
        some (tx ++ [(st, (st.draw pg.db).1)]) := by
      change th.facts.tx.map _ = _
      rw [htx]
      rfl
    have hjoin : TxOk (({ pg with db := (st.draw pg.db).2 } : Postgres).take t st.key.toList) t
        (tx ++ [(st, (st.draw pg.db).1)]) :=
      TxOk.joins hdb hv hscript (hmine ▸ hok.tx)
    have hsame : SameTables pg
        (({ pg with db := (st.draw pg.db).2 } : Postgres).take t st.key.toList) := draw_sameTables
    refine ⟨⟨hok.safe_after hp hexpects, ?_, fun d hd => ?_, fun d status hk hse hsm => ?_, ?_⟩, ?_, ?_⟩
    · have hwr : σ.writes.map (fun w => (w.stmt, w.gen)) = tx := by
        have := hok.sess
        rw [htx, Memory.entries, hs] at this
        exact Option.some.inj this
      refine Eq.trans ?_ htx'.symm
      change some (List.map _ (σ.writes ++ [_])) = _
      rw [List.map_append, hwr]
      rfl
    · rw [hsame.delivery?]
      exact hok.knows d (hd.congr rfl rfl rfl)
    · obtain ⟨h1, h2⟩ := hok.seen d status hk hse hsome
      exact ⟨Postgres.take_mine h1, by rw [hsame.status?]; exact h2⟩
    · change TxOk _ t ((th.facts.nextSql (.write st) (.ok (some (st.draw pg.db).1))).tx.getD [])
      rw [htx']
      exact hjoin
    · refine .tables hsame (fun key u hu h => Postgres.take_other (free_of_all hfree) hu h)
        (fun d u h => ?_) fun c i u h => ?_
      · rcases Postgres.take_row h with h | h
        · exact Or.inr (hok.row_known hp hsome (by simpa [Option.mem_toList] using h))
        · exact Or.inl h
      · rcases Postgres.take_row h with h | h
        · refine Or.inr (hsame.eventByKey? c i ▸ ?_)
          exact (hjoin.pending _ List.mem_concat_self).eventByKey? (by simpa [Option.mem_toList] using h)
        · exact Or.inl h
    · intro e he hdraws
      have he' : e ∈ tx ++ [(st, (st.draw pg.db).1)] := mem_getD_of_eq htx' he
      rcases List.mem_append.mp he' with he' | he'
      · exact Or.inl (hmine ▸ he')
      · rw [List.mem_singleton.mp he'] at hdraws ⊢
        refine Or.inr ?_
        cases st with
        | insertEvent c i ty p => exact Nat.le_refl _
        | insertDelivery ev ep => exact Nat.le_refl _
        | _ => exact hdraws.elim
  | @alone hs hfree hv f =>
    have hnone : th.facts.tx = none := by
      rw [← hok.sess, Memory.entries, hs]
      rfl
    rw [mayWrite, hnone] at hperm
    obtain ⟨d, rfl⟩ := hperm
    have hfacts : th.facts.nextSql (.write (.updateEnqueued d))
        (f.answer (some ((Stmt.updateEnqueued d).draw pg.db).1)) = th.facts :=
      Facts.nextSql_write_alone hnone _
    refine hok.ended hp hexpects ((congrArg Facts.tx hfacts).trans hnone) (.touch rfl hnone) ?_
    exact fun d' hd' => (Db.apply_grows _).2.2 (hok.knows d' (hd'.congr (congrArg Facts.row hfacts)
      (congrArg Facts.seen hfacts) (congrArg Facts.claimed hfacts)))

theorem Db.forDelivery_isSome {db : Db} {d : DeliveryId} {r : DeliveryForWorker}
    (h : db.forDelivery d = some r) :
    ∃ row, db.delivery? d = some row ∧ r.status = row.status ∧
      r.attemptCount = row.attemptCount := by
  obtain ⟨row, hrow, h⟩ := Option.bind_eq_some_iff.mp h
  obtain ⟨e, -, h⟩ := Option.bind_eq_some_iff.mp h
  obtain ⟨ev, -, rfl⟩ := Option.map_eq_some_iff.mp h
  exact ⟨row, hrow, rfl, rfl⟩

theorem Db.status?_isSome {db : Db} {d : DeliveryId} {st : Status} (h : db.status? d = some st) :
    (db.delivery? d).isSome := by
  obtain ⟨row, hrow, -⟩ := Option.map_eq_some_iff.mp h
  rw [hrow]
  rfl

theorem Thread.Ok.selectForDelivery (hok : th.Ok pg t) {d : DeliveryId}
    {r : Except Err (Option DeliveryForWorker)} {k : (Eff.sql (.selectForDelivery d)).Resp → Code Reply}
    (hp : th.prog = .op (.sql (.selectForDelivery d)) k)
    (hr : r = fault.answer (((th.mem.sess.getD ⟨now, []⟩).view pg.db).forDelivery d)) :
    SqlDone t th (th.after (.sql (.selectForDelivery d)) r k { th.mem with sess := th.mem.sess }) now
      (.selectForDelivery d) pg pg := by
  obtain ⟨htx, -, -, -, hkind⟩ := hok.permits hp
  rw [hok.view_eq (Or.inr htx)] at hr
  match r with
  | .error x => exact hok.read hp trivial rfl rfl hok.knows
  | .ok row =>
    refine hok.read hp trivial rfl rfl fun x hx => ?_
    have hrow : row = pg.db.forDelivery d := (Fault.answer_ok hr.symm).2
    cases hx with
    | @row job hk hd h =>
      have hx : x = d := by
        rcases hkind with ⟨job', hk', rfl, -⟩ | ⟨job', hk', rfl⟩
        · rcases hk with hk | hk
          · rw [hk] at hk'
            cases hk'
            exact hd.symm
          · rw [hk] at hk'
            cases hk'
        · rcases hk with hk | hk
          · rw [hk] at hk'
            cases hk'
          · rw [hk] at hk'
            cases hk'
            exact hd.symm
      obtain ⟨r, hr⟩ := Option.isSome_iff_exists.mp h
      have : pg.db.forDelivery d = some r := hrow.symm.trans hr
      obtain ⟨row, hrow, -⟩ := Db.forDelivery_isSome this
      rw [hx, hrow]
      rfl
    | seen hk h => exact hok.knows x (.seen hk h)
    | claimed h => exact hok.knows x (.claimed h)
    | transition hk => exact hok.knows x (.transition hk)
    | record hk hd => exact hok.knows x (.record hk hd)

theorem Thread.Ok.selectUnenqueued (hok : th.Ok pg t) {grace limit : ℕ}
    {r : Except Err (List DeliveryId)} {k : (Eff.sql (.selectUnenqueued grace limit)).Resp → Code Reply}
    (hp : th.prog = .op (.sql (.selectUnenqueued grace limit)) k)
    (hex : (Sql.selectUnenqueued grace limit).exec pg t now th.mem.sess fault rows =
      some (pg', sess', r)) :
    SqlDone t th (th.after (.sql (.selectUnenqueued grace limit)) r k { th.mem with sess := sess' })
      now (.selectUnenqueued grace limit) pg pg' := by
  simp only [Sql.exec] at hex
  split at hex
  · split at hex
    · rename_i hmay
      cases hex
      simp only [Postgres.mayClaim, Bool.decide_and, Bool.and_eq_true, decide_eq_true_eq] at hmay
      obtain ⟨-, -, hrows, -⟩ := hmay
      have hsome : ∀ d ∈ rows, (pg.db.delivery? d).isSome := by
        intro d hd
        obtain ⟨row, hrow, -⟩ := (Option.any_eq_true _ _).mp (hrows d hd).1
        rw [hrow]
        rfl
      have hsame : SameTables pg (pg.take t (rows.map LockKey.row)) :=
        ⟨rfl, rfl, rfl, rfl, Nat.le_refl _, Nat.le_refl _⟩
      have hthread : (th.after (.sql (.selectUnenqueued grace limit)) (Except.ok rows) k
          { th.mem with sess := th.mem.sess }).Ok pg t := by
        refine hok.after_same hp trivial rfl rfl rfl fun d hd => ?_
        cases hd with
        | row hk hd h => exact hok.knows d (.row hk hd h)
        | seen hk h => exact hok.knows d (.seen hk h)
        | claimed h => exact hsome d h
        | transition hk => exact hok.knows d (.transition hk)
        | record hk hd => exact hok.knows d (.record hk hd)
      exact ⟨hthread.same hsame fun key h => Postgres.take_mine h,
        .take (fun d hd => (hrows d hd).2) hsome, fun e he _ => Or.inl he⟩
    · cases hex
  · cases hex
    exact hok.read hp trivial rfl rfl hok.knows

theorem Thread.Ok.selectStatusForUpdate (hok : th.Ok pg t) {d : DeliveryId}
    {r : Except Err (Option Status)} {k : (Eff.sql (.selectStatusForUpdate d)).Resp → Code Reply}
    (hp : th.prog = .op (.sql (.selectStatusForUpdate d)) k)
    (hex : (Sql.selectStatusForUpdate d).exec pg t now th.mem.sess fault rows =
      some (pg', sess', r)) :
    SqlDone t th (th.after (.sql (.selectStatusForUpdate d)) r k { th.mem with sess := sess' })
      now (.selectStatusForUpdate d) pg pg' := by
  obtain ⟨htx, -, -, hkind⟩ := hok.permits hp
  have hwho : ∀ x, th.kind.retries x → x = d := fun x hx => hx.unique hkind
  simp only [Sql.exec] at hex
  split at hex
  · split at hex
    · rename_i hfree
      rw [hok.view_eq (Or.inl htx)] at hex
      split at hex
      · cases hex
        refine ⟨⟨hok.safe_next hp trivial, hok.sess, fun x hx => ?_, fun x st hk hs => ?_, hok.tx⟩, .stay,
          fun e he _ => Or.inl he⟩
        · cases hx with
          | row hk hd h => exact hok.knows x (.row hk hd h)
          | seen hk h => cases h
          | claimed h => exact hok.knows x (.claimed h)
          | transition hk => exact hok.knows x (.transition hk)
          | record hk hd => exact hok.knows x (.record hk hd)
        · cases hs
      · rename_i st hst
        cases hex
        have hsome : (pg.db.delivery? d).isSome := Db.status?_isSome hst
        have hsame : SameTables pg (pg.take t [LockKey.row d]) :=
          ⟨rfl, rfl, rfl, rfl, Nat.le_refl _, Nat.le_refl _⟩
        have htxok := hok.tx.same hsame fun key h => Postgres.take_mine h
        have htake : PgStep t th now (.selectStatusForUpdate d) pg (pg.take t ([d].map .row)) :=
          .take (by simpa using hfree) (by simpa using hsome)
        refine ⟨⟨hok.safe_next hp trivial, hok.sess, fun x hx => ?_, fun x st' hk hs _ => ?_, htxok⟩,
          htake, fun e he _ => Or.inl he⟩
        · cases hx with
          | row hk hd h => exact hok.knows x (.row hk hd h)
          | seen hk h =>
            rw [hwho x hk]
            exact hsome
          | claimed h => exact hok.knows x (.claimed h)
          | transition hk => exact hok.knows x (.transition hk)
          | record hk hd => exact hok.knows x (.record hk hd)
        · cases hs
          rw [hwho x hk]
          refine ⟨?_, hst⟩
          change (if LockKey.row d ∈ [LockKey.row d] then some t else _) = some t
          rw [if_pos (List.mem_singleton_self _)]
    · cases hex
  · cases hex
    exact hok.read hp trivial rfl rfl hok.knows

/-- **A call to Postgres** leaves the execution and the server in order. -/
theorem Thread.Ok.sql (hok : th.Ok pg t) (hdb : DbOk pg.db) {q : Sql} {r : Except Err q.Ret}
    {k : (Eff.sql q).Resp → Code Reply} (hp : th.prog = .op (.sql q) k)
    (hex : q.exec pg t now th.mem.sess fault rows = some (pg', sess', r)) :
    SqlDone t th (th.after (.sql q) r k { th.mem with sess := sess' }) now q pg pg' := by
  cases q with
  | connect =>
    cases hex
    exact hok.read hp trivial rfl rfl hok.knows
  | begin =>
    obtain ⟨htx, hseen⟩ := hok.permits hp
    have hread : ∀ x, SqlDone t th (th.after (.sql .begin) (Except.error x) k
        { th.mem with sess := th.mem.sess }) now .begin pg pg :=
      fun x => hok.read hp trivial rfl rfl hok.knows
    cases fault with
    | none =>
      cases hex
      refine ⟨⟨hok.safe_next hp trivial, rfl, fun d hd => hok.knows d (hd.congr rfl rfl rfl),
        fun d st hk hs => ?_,
        .nil⟩, .stay, fun e he => nomatch he⟩
      have : th.facts.seen = some st := hs
      rw [hseen] at this
      cases this
    | before =>
      cases hex
      exact hread .infra
    | after =>
      cases hex
      exact hread .infra
  | commit => exact hok.commit hp hex
  | rollback =>
    cases hex
    obtain ⟨hnone, hrow, hseen, hclaimed⟩ := Facts.nextSql_rollback th.facts (fault.answer ())
    exact hok.ended hp trivial hnone .giveBack fun d hd =>
      hok.knows d (hd.congr hrow hseen hclaimed)
  | write st => exact hok.write hdb hp hex
  | selectForDelivery d =>
    cases hex
    exact hok.selectForDelivery hp rfl
  | selectUnenqueued grace limit => exact hok.selectUnenqueued hp hex
  | selectStatusForUpdate d => exact hok.selectStatusForUpdate hp hex
  | selectEventId c i =>
    simp only [Sql.exec, readWith, Option.some.injEq, Prod.mk.injEq] at hex
    obtain ⟨rfl, rfl, -⟩ := hex
    cases r with
    | error x => exact hok.read hp trivial rfl rfl hok.knows
    | ok ev => exact hok.read hp trivial rfl rfl fun d hd => hok.knows d (hd.congr rfl rfl rfl)
  | selectDeliveryOfEvent ev =>
    cases hex
    exact hok.read hp trivial rfl rfl hok.knows
  | selectEndpoint ep =>
    cases hex
    exact hok.read hp trivial rfl rfl hok.knows
  | selectLastAttempt d =>
    cases hex
    exact hok.read hp trivial rfl rfl hok.knows

/-! ## The whole state -/

section Perform

variable {w w' : World} {m m' : Memory} {c : Choice}

theorem perform_other {e : Eff} {r : e.Resp} (he : ∀ q, e ≠ .sql q)
    (h : perform t w m c e = some (w', m', r)) : w'.pg = w.pg ∧ m'.sess = m.sess := by
  cases e with
  | sql q => exact absurd rfl (he q)
  | moveToDelayed id until_ =>
    simp only [perform, World.moveToDelayed] at h
    split at h <;> cases h <;> exact ⟨rfl, rfl⟩
  | _ =>
    cases h
    exact ⟨rfl, rfl⟩

theorem perform_sql {q : Sql} {r : Except Err q.Ret}
    (h : perform t w m c (.sql q) = some (w', m', r)) :
    ∃ pg' sess', q.exec w.pg t w.now m.sess c.fault c.rows = some (pg', sess', r) ∧
      w' = { w with pg := pg' } ∧ m' = { m with sess := sess' } := by
  obtain ⟨⟨pg', sess', r'⟩, hex, h⟩ := Option.map_eq_some_iff.mp h
  cases h
  exact ⟨pg', sess', hex, rfl, rfl⟩

/-- The error an answer is. -/
def failureOf {α : Type} : Except Err α → Option Err
  | .ok _ => none
  | .error x => some x

/-- The error a call was answered with. -/
def Eff.failure : (e : Eff) → e.Resp → Option Err
  | .sql _, r => failureOf r
  | .redis _, r => failureOf r
  | .queueAdd _ _, r => failureOf r
  | .dlqAdd _, r => failureOf r
  | .moveToDelayed _ _, r => failureOf r
  | .isOverloaded, r => failureOf r
  | _, _ => none

theorem Fault.failureOf_answer {α : Type} {fault : Fault} {a : α} {x : Err}
    (h : failureOf (fault.answer a) = some x) : x = .infra := by
  unfold Fault.answer at h
  split at h <;> cases h
  rfl

theorem Fault.failureOf_run {ω α : Type} {fault : Fault} {w : ω} {f : ω × α} {x : Err}
    (h : failureOf (fault.run w f).2 = some x) : x = .infra := by
  unfold Fault.run at h
  split at h
  · cases h
    rfl
  · exact Fault.failureOf_answer h

theorem Sql.exec_failure {pg pg' : Postgres} {now : Time} {sess sess' : Option Session} {fault : Fault}
    {rows : List DeliveryId} {q : Sql} {r : Except Err q.Ret}
    (h : q.exec pg t now sess fault rows = some (pg', sess', r)) {x : Err}
    (hx : failureOf r = some x) : x = .infra := by
  cases q with
  | write st =>
    simp only [Sql.exec, Stmt.exec] at h
    split at h
    · cases h
      cases hx
      rfl
    · split at h
      · split at h
        · cases h
          cases hx
          rfl
        · cases h
          exact Fault.failureOf_answer hx
        · split at h
          · cases h
            cases hx
          · cases h
            exact Fault.failureOf_answer hx
      · cases h
  | selectUnenqueued grace limit =>
    simp only [Sql.exec] at h
    split at h
    · split at h
      · cases h
        cases hx
      · cases h
    · cases h
      cases hx
      rfl
  | selectStatusForUpdate d =>
    simp only [Sql.exec] at h
    split at h
    · split at h
      · split at h <;> cases h <;> cases hx
      · cases h
    · cases h
      cases hx
      rfl
  | _ =>
    cases h
    exact Fault.failureOf_answer hx

/-- **Calls fail with one error only.** -/
theorem perform_failure {e : Eff} {r : e.Resp} (h : perform t w m c e = some (w', m', r)) {x : Err}
    (hx : e.failure r = some x) : x = .infra := by
  cases e with
  | sql q =>
    obtain ⟨pg', sess', hex, -, -⟩ := perform_sql h
    exact Sql.exec_failure hex hx
  | redis cmd =>
    cases h
    exact Fault.failureOf_run hx
  | queueAdd id d =>
    cases h
    exact Fault.failureOf_run hx
  | dlqAdd d =>
    cases h
    exact Fault.failureOf_run hx
  | moveToDelayed id u =>
    simp only [perform, World.moveToDelayed] at h
    split at h
    · cases h
      exact Fault.failureOf_answer hx
    · cases h
      cases hx
      rfl
  | isOverloaded =>
    cases h
    exact Fault.failureOf_answer hx
  | _ => cases hx

end Perform

theorem frame_touch {d : DeliveryId} {g : ℕ} {mine : List Entry} :
    Frame t mine pg { pg with db := pg.db.apply ⟨.updateEnqueued d, g, now⟩ } := by
  have hal : Db.Alike pg.db (pg.db.apply ⟨.updateEnqueued d, g, now⟩) := Db.alike_updateEnqueued
  refine ⟨fun _ _ _ h => h, Nat.le_refl _, Nat.le_refl _, fun x hx => hal.isSome.trans hx,
    fun x hx => Or.inl ?_, fun x => Or.inl ⟨?_, rfl⟩, fun _ h => Or.inl h, fun _ h => Or.inl h⟩
  · change Db.delivery? (Db.apply _ _) x = none
    simp [hx]
  · change Db.status? (Db.apply _ _) x = _
    simp only [Db.status?, Db.delivery?_updateEnqueued]
    split
    · cases Db.delivery? pg.db x <;> rfl
    · rfl

theorem PgStep.other {q : Sql} (h : PgStep t th now q s.pg pg') (hs : s.Ok)
    (ht : s.live? t = some th) {th' : Thread} (hu : u ≠ t) (hlive : s.live? u = some th') :
    th'.Ok pg' u := by
  have hok := hs.threads u th' hlive
  have hmine := (hs.threads t th ht).tx
  have hapart := hs.apart t u th th' (Ne.symm hu) ht hlive
  cases h with
  | tables h hl hr => exact hok.same h fun key => hl key u hu
  | commit hq hc => exact hok.frame (hc.frame hmine) hu hmine hs.rows hapart
  | touch hq htx => exact hok.frame frame_touch hu hmine hs.rows hapart

theorem PgStep.dbOk {q : Sql} (h : PgStep t th now q s.pg pg') (hs : s.Ok)
    (ht : s.live? t = some th) : DbOk pg'.db := by
  have hok := hs.threads t th ht
  cases h with
  | tables h hl hr => exact h.ok hs.db
  | commit hq hc => exact hc.dbOk hs.db hok.tx hok.knows
  | touch hq htx => exact hs.db.alike Db.alike_updateEnqueued

theorem PgStep.keysNew {q : Sql} (h : PgStep t th now q s.pg pg') (hs : s.Ok)
    (ht : s.live? t = some th) (c i : String) (u : Tid) (hl : pg'.locks (.event c i) = some u) :
    pg'.db.eventByKey? c i = none := by
  have hmine := (hs.threads t th ht).tx
  cases h with
  | tables h _ _ he =>
    rw [h.eventByKey?]
    exact (he c i u hl).elim (hs.keys c i u) id
  | commit hq hc =>
    have hold := Postgres.giveBack_old hl
    have hnone := hs.keys c i u hold
    refine List.find?_eq_none.mpr fun r hr hkey => ?_
    obtain ⟨rfl, rfl⟩ : r.clientId = c ∧ r.idempotencyKey = i := by simpa using hkey
    rcases (hc.frame hmine).events r hr with hr | ⟨hown, -⟩
    · exact absurd hkey (List.find?_eq_none.mp hnone r hr)
    -- the owner of the key has given it back
    · change (if s.pg.locks _ = some t then none else _) = some u at hl
      rw [if_pos hown] at hl
      cases hl
  | touch hq htx => exact hs.keys c i u hl

theorem PgStep.rowsExist {q : Sql} (h : PgStep t th now q s.pg pg') (hs : s.Ok)
    (ht : s.live? t = some th) (d : DeliveryId) (u : Tid) (hl : pg'.locks (.row d) = some u) :
    (pg'.db.delivery? d).isSome := by
  have hmine := (hs.threads t th ht).tx
  cases h with
  | tables h _ hr _ =>
    rw [h.delivery?]
    rcases hr d u hl with hl | hsome
    · exact hs.rows d u hl
    · exact hsome
  | commit hq hc => exact (hc.frame hmine).isSome d (hs.rows d u (Postgres.giveBack_old hl))
  | touch hq htx =>
    exact (@frame_touch t s.pg now _ 0 th.tx).isSome d (hs.rows d u hl)

/-- **A call keeps the invariant.** -/
theorem State.Ok.call {c : Choice} {e : Eff} {r : e.Resp} {k : e.Resp → Code Reply} {w : World}
    {m : Memory} (h : Advance s s' t c th e r k w m) (hs : s.Ok) : s'.Ok := by
  have hok := hs.threads t th h.live
  by_cases he : ∃ q, e = .sql q
  · obtain ⟨q, rfl⟩ := he
    obtain ⟨pg', sess', hex, rfl, rfl⟩ := perform_sql h.done
    obtain ⟨hself, hpg, hdraws⟩ := hok.sql hs.db h.prog hex
    have hpg' : s'.pg = pg' := by rw [h.world]
    constructor
    · intro u th' hu
      rw [hpg']
      by_cases hut : u = t
      · subst hut
        rw [h.live?_self] at hu
        cases hu
        exact hself
      · rw [h.live?_other hut] at hu
        exact hpg.other hs h.live hut hu
    · have hnew : ∀ u th', u ≠ t → s.live? u = some th' →
          ∀ e ∈ (th.after (.sql q) r k { th.mem with sess := sess' }).tx, ∀ e' ∈ th'.tx,
            e.draws → e'.draws → e.2 ≠ e'.2 := by
        intro u th' hut hu e he e' he' hd hd'
        rcases hdraws e he hd with he | hge
        · exact hs.apart t u th th' (Ne.symm hut) h.live hu e he e' he' hd hd'
        · have hlt : e'.2 < s.pg.db.uuidSeq := by
            have hp := (hs.threads u th' hu).tx.pending e' he'
            obtain ⟨st, g⟩ := e'
            cases st with
            | insertEvent c i ty p => exact hp.1
            | insertDelivery ev ep => exact hp.1
            | _ => exact hd'.elim
          exact Ne.symm (Nat.ne_of_lt (Nat.lt_of_lt_of_le hlt hge))
      intro u v thu thv huv hu hv
      by_cases hut : u = t
      · subst hut
        rw [h.live?_self] at hu
        cases hu
        rw [h.live?_other (Ne.symm huv)] at hv
        exact hnew v thv (Ne.symm huv) hv
      · rw [h.live?_other hut] at hu
        by_cases hvt : v = t
        · subst hvt
          rw [h.live?_self] at hv
          cases hv
          exact fun e he e' he' hd hd' => (hnew u thu hut hu e' he' e he hd' hd).symm
        · rw [h.live?_other hvt] at hv
          exact hs.apart u v thu thv huv hu hv
    · rw [hpg']
      exact hpg.rowsExist hs h.live
    · rw [hpg']
      exact hpg.keysNew hs h.live
    · rw [hpg']
      exact hpg.dbOk hs h.live
  · have he' : ∀ q, e ≠ .sql q := fun q hq => he ⟨q, hq⟩
    obtain ⟨hpg, hsess⟩ := perform_other he' h.done
    have hpg' : s'.pg = s.pg := by rw [h.world, hpg]
    have htx : (th.after e r k m).tx = th.tx := by
      rw [Thread.tx, Thread.facts_after, (Facts.next_of_not_sql he' r).1]
      rfl
    have hthread : ∀ u th', s'.live? u = some th' →
        ∃ th₀, s.live? u = some th₀ ∧ th'.tx = th₀.tx ∧ th'.Ok s.pg u := by
      intro u th' hu
      by_cases hut : u = t
      · subst hut
        rw [h.live?_self] at hu
        cases hu
        exact ⟨th, h.live, htx, hok.after_other h.prog he' hsess⟩
      · rw [h.live?_other hut] at hu
        exact ⟨th', hu, rfl, hs.threads u th' hu⟩
    constructor
    · intro u th' hu
      rw [hpg']
      obtain ⟨-, -, -, hok'⟩ := hthread u th' hu
      exact hok'
    · intro u v thu thv huv hu hv
      obtain ⟨thu', hu', htu, -⟩ := hthread u thu hu
      obtain ⟨thv', hv', htv, -⟩ := hthread v thv hv
      rw [htu, htv]
      exact hs.apart u v thu' thv' huv hu' hv'
    · rw [hpg']
      exact hs.rows
    · rw [hpg']
      exact hs.keys
    · rw [hpg']
      exact hs.db

theorem ok_init : State.Ok {} where
  threads t th h := by simp [State.live?] at h
  apart t u th th' _ h := by simp [State.live?] at h
  rows d u h := by cases h
  keys c i u h := by cases h
  db := ⟨.nil, nofun, .nil, nofun, .nil, nofun, nofun, nofun, nofun, nofun⟩

theorem State.Ok.step {l : Label} (hs : s.Ok) (h : step env s l = some s') : s'.Ok := by
  rcases step_cases h with ⟨t, c, -, h⟩ | h
  · obtain ⟨th, e, r, k, w, m, h⟩ := stepOp_cases h
    exact hs.call h
  · exact hs.idle h

/-- **The invariant holds in every reachable state.** -/
theorem reachable_ok {C : State → Label → Prop} (h : Reachable env C s) : s.Ok :=
  h.invariant ok_init fun _ _ _ hs _ hstep => hs.step hstep

end WebhookEngine
