import WebhookEngine.Proof.FastPath
import WebhookEngine.Proof.History

set_option autoImplicit false

/-!
# The fast path agrees with the database

The cache is keyed by one string, `wh:idem:{client_id}:{idempotency_key}`, the table by the pair.

* `ingest`: `ingestEvent` run with nobody in between; **`ingest_reaches`**: the system can do the same
  in the steps of one execution.
* `Postgres.ingestAnswer`, **`run_ingestTx`**: the database path answers what the tables say.
* `Misnamed`: the cache answers the key with an event of another client or another key;
  `IngestParams.Storable`: Postgres can store the texts of the call.
* **`ingest_agrees_iff`**: in every reachable state the fast path agrees with the database if and only
  if the call is not `Misnamed`, and it is `Storable` if the cache answers.
* **`ingest_misnamed`**: the clients `a` and `a:b` with the keys `b:c` and `c`.
-/

namespace WebhookEngine

open EffectProg TransitionSystem

variable {env : Env} {s : State} {t : Tid} {th : Thread}

/-! ## A call on its own -/

/-- The calls of execution `t`, answered at once and without faults. -/
def atOnce (t : Tid) (x : World × Memory) (e : Eff) : Option ((World × Memory) × e.Resp) :=
  (perform t x.1 x.2 {} e).map fun y => ((y.1, y.2.1), y.2.2)

/-- `ingestEvent` run by `t` with nobody in between; `none` while it waits for another
transaction. -/
def ingest (t : Tid) (w : World) (p : IngestParams) :
    Option ((World × Memory) × Except Err IngestResult) := (ingestEvent p).run (atOnce t) (w, {})

section Run

variable {w : World} {m : Memory} {α β : Type}

theorem run_sql {q : Sql} {pg' : Postgres} {sess' : Option Session} {r : Except Err q.Ret}
    (h : q.exec w.pg t w.now m.sess .none [] = some (pg', sess', r)) :
    (sql q).run (atOnce t) (w, m) = some (({ w with pg := pg' }, { m with sess := sess' }), r) := by
  simp only [sql, await, Prog.run_bind, Prog.perform, Prog.run, atOnce, perform, h, Option.map_some,
    Option.bind_some, Prog.run_ofExcept]

theorem run_sql_none {q : Sql} (h : q.exec w.pg t w.now m.sess .none [] = none) :
    (sql q).run (atOnce t) (w, m) = none := by
  simp only [sql, await, Prog.run_bind, Prog.perform, Prog.run, atOnce, perform, h, Option.map_none,
    Option.bind_none]

theorem run_getIdem {key : String} :
    (redis (.getIdem key)).run (atOnce t) (w, m) = some ((w, m), .ok (w.redis.idemAt w.now key)) :=
  rfl

theorem run_sendIdem {key : String} {ev : EventId} :
    (call (.sendIdem key ev)).run (atOnce t) (w, m) =
      some (({ w with idemInFlight := w.idemInFlight ++ [(key, ev)] }, m), .ok ()) := rfl

end Run

theorem run_reaches {x : World × Memory} {r : Except Err Reply} (hlive : s.live? t = some th)
    (hrun : th.prog.run (atOnce t) (s.toWorld, th.mem) = some (x, r)) :
    ∃ s' th', Reach (step env) (fun _ _ => True) s s' ∧ s'.toWorld = x.1 ∧
      s'.live? t = some th' ∧ th'.prog = Prog.ofExcept r := by
  generalize hp : th.prog = p at hrun
  induction p generalizing s th with
  | ret a =>
    cases hrun
    exact ⟨s, th, .refl s, rfl, hlive, hp⟩
  | raise y =>
    cases hrun
    exact ⟨s, th, .refl s, rfl, hlive, hp⟩
  | op e k ih =>
    obtain ⟨y, hcall, hrun⟩ := Option.bind_eq_some_iff.mp hrun
    obtain ⟨⟨w, m, a⟩, hdone, rfl⟩ := Option.map_eq_some_iff.mp hcall
    have hadv : Advance s ⟨w, s.threads.set t (th.after e a k m)⟩ t {} th e a k w m :=
      ⟨hlive, hp, hdone, rfl⟩
    have hstep : step env s (.op t {}) = some ⟨w, s.threads.set t (th.after e a k m)⟩ := by
      simp only [step, State.stepOp, hlive, Option.bind_some, hp, hdone, Option.map_some]
      rfl
    obtain ⟨s', th', ⟨ls, hreach⟩, h'⟩ := ih a hadv.live?_self rfl hrun
    exact ⟨s', th', ⟨_ :: ls, .cons trivial hstep hreach⟩, h'⟩

/-- **A call on its own is a run of the system.** -/
theorem ingest_reaches {p : IngestParams} {x : World × Memory} {r : Except Err IngestResult}
    (h : ingest s.threads.length s.toWorld p = some (x, r)) :
    ∃ s' th', Reach (step env) (fun _ _ => True) s s' ∧ s'.toWorld = x.1 ∧
      s'.live? s.threads.length = some th' ∧ th'.prog = Prog.ofExcept (r.map .ingested) := by
  have hlive : (s.spawn env (.repoCall (.ingestEvent p))).live? s.threads.length = _ :=
    State.live?_spawn.trans (if_pos rfl)
  have hrun : (program env s.threads.length (.repoCall (.ingestEvent p))).run
      (atOnce s.threads.length) (s.toWorld, {}) = some (x, r.map .ingested) := by
    cases r with
    | ok a => exact Prog.run_bind_ok h rfl
    | error y => exact Prog.run_bind_error h
  obtain ⟨s', th', ⟨ls, hreach⟩, h'⟩ := run_reaches hlive hrun
  exact ⟨s', th', ⟨.request (.repoCall (.ingestEvent p)) :: ls, .cons trivial rfl hreach⟩, h'⟩

/-- Postgres can store the texts of the call. -/
def IngestParams.Storable (p : IngestParams) : Prop :=
  textOk (some p.clientId) ∧ textOk (some p.idempotencyKey) ∧ textOk (some p.eventType) ∧
    jsonbOk p.payload

instance (p : IngestParams) : Decidable p.Storable := by
  unfold IngestParams.Storable
  infer_instance

theorem verdict_insertEvent (db : Db) (p : IngestParams) :
    (Stmt.insertEvent p.clientId p.idempotencyKey p.eventType p.payload).verdict db =
      if p.Storable then
        if (db.eventByKey? p.clientId p.idempotencyKey).isSome then .matchesNothing else .writes
      else .fails := rfl

/-- What the database alone answers. -/
def Postgres.ingestAnswer (pg : Postgres) (t : Tid) (p : IngestParams) :
    Option (Except Err IngestResult) :=
  if pg.free t (.event p.clientId p.idempotencyKey) then
    if p.Storable then
      match pg.db.eventByKey? p.clientId p.idempotencyKey with
      | some row =>
        match pg.db.deliveryOfEvent row.id with
        | some d => some (.ok ⟨row.id, d.1, d.2, false⟩)
        | none => some (.error (.error "TypeError"))
      | none =>
        if (pg.db.endpoint? p.endpointId).isSome then
          some (.ok ⟨pg.db.uuidSeq, pg.db.uuidSeq + 1, .pending, true⟩)
        else some (.error .infra)
    else some (.error .infra)
  else none

/-! ## The database path -/

section Tx

variable {w : World} {p : IngestParams}

/-- The memory of an execution with an open transaction. -/
def inTx (τ : Time) (ws : List Write) : Memory := { sess := some ⟨τ, ws⟩ }

section Write

variable {st : Stmt} {τ : Time} {ws : List Write}

theorem run_write (hfree : st.key.all (w.pg.free t) = true)
    (hv : st.verdict (w.pg.db.applyAll ws) = .writes) :
    ∃ w', (sql (.write st)).run (atOnce t) (w, inTx τ ws) =
        some ((w', inTx τ (ws ++ [⟨st, (st.draw w.pg.db).1, τ⟩])), .ok (some (st.draw w.pg.db).1)) ∧
      w'.pg.db = (st.draw w.pg.db).2 := by
  have hexec : st.exec w.pg t w.now (some ⟨τ, ws⟩) .none = some
      (({ w.pg with db := (st.draw w.pg.db).2 } : Postgres).take t st.key.toList,
        some ⟨τ, ws ++ [⟨st, (st.draw w.pg.db).1, τ⟩]⟩, .ok (some (st.draw w.pg.db).1)) := by
    simp [Stmt.exec, hfree, Session.view, hv]
  exact ⟨_, run_sql hexec, rfl⟩

theorem run_write_missed (hfree : st.key.all (w.pg.free t) = true)
    (hv : st.verdict (w.pg.db.applyAll ws) = .matchesNothing) :
    (sql (.write st)).run (atOnce t) (w, inTx τ ws) = some ((w, inTx τ ws), .ok none) := by
  have hexec : st.exec w.pg t w.now (some ⟨τ, ws⟩) .none =
      some (w.pg, some ⟨τ, ws⟩, .ok none) := by
    simp [Stmt.exec, hfree, Session.view, hv, Fault.answer]
  exact run_sql hexec

theorem run_write_fails (hfree : st.key.all (w.pg.free t) = true)
    (hv : st.verdict (w.pg.db.applyAll ws) = .fails) :
    (sql (.write st)).run (atOnce t) (w, inTx τ ws) = some ((w, inTx τ ws), .error .infra) := by
  have hexec : st.exec w.pg t w.now (some ⟨τ, ws⟩) .none =
      some (w.pg, some ⟨τ, ws⟩, .error .infra) := by
    simp [Stmt.exec, hfree, Session.view, hv]
  exact run_sql hexec

theorem run_write_waits (hfree : st.key.all (w.pg.free t) = false) :
    (sql (.write st)).run (atOnce t) (w, inTx τ ws) = none := by
  have hexec : st.exec w.pg t w.now (some ⟨τ, ws⟩) .none = none := by
    simp [Stmt.exec, hfree]
  exact run_sql_none hexec

theorem run_commit : ∃ w', (sql .commit).run (atOnce t) (w, inTx τ ws) = some ((w', {}), .ok ()) ∧
    w'.pg.db = w.pg.db.applyAll ws := ⟨_, run_sql rfl, rfl⟩

theorem run_selectEventId {c i : String} :
    (sql (.selectEventId c i)).run (atOnce t) (w, inTx τ []) =
      some ((w, inTx τ []), .ok ((w.pg.db.eventByKey? c i).map (·.id))) := rfl

theorem run_selectDeliveryOfEvent {ev : EventId} :
    (sql (.selectDeliveryOfEvent ev)).run (atOnce t) (w, inTx τ []) =
      some ((w, inTx τ []), .ok (w.pg.db.deliveryOfEvent ev)) := rfl

end Write

theorem run_ingestTx_waits (hfree : w.pg.free t (.event p.clientId p.idempotencyKey) = false) :
    (ingestTx p).run (atOnce t) (w, {}) = none := by
  refine Prog.run_bind_ok (run_sql rfl) (Prog.run_tryCatch_none ?_)
  exact Prog.run_bind_ok (run_sql rfl) (Prog.run_bind_none (run_write_waits hfree))

theorem run_ingestTx_unstorable (hfree : w.pg.free t (.event p.clientId p.idempotencyKey) = true)
    (hp : ¬ p.Storable) : ∃ x, (ingestTx p).run (atOnce t) (w, {}) = some (x, .error .infra) := by
  have hv := (verdict_insertEvent (w.pg.db.applyAll []) p).trans (if_neg hp)
  exact ⟨_, Prog.run_bind_ok (run_sql rfl) (Prog.run_tryCatch_error (Prog.run_bind_ok (run_sql rfl)
    (Prog.run_bind_error (run_write_fails hfree hv))) (Prog.run_bind_ok (run_sql rfl) rfl))⟩

theorem run_ingestTx_known {row : EventRow} {d : DeliveryId × Status} (hp : p.Storable)
    (hfree : w.pg.free t (.event p.clientId p.idempotencyKey) = true)
    (hrow : w.pg.db.eventByKey? p.clientId p.idempotencyKey = some row)
    (hd : w.pg.db.deliveryOfEvent row.id = some d) :
    (ingestTx p).run (atOnce t) (w, {}) = some (({ w with
      pg := w.pg.giveBack t
      idemInFlight := w.idemInFlight ++ [(idemRedisKey p.clientId p.idempotencyKey, row.id)] }, {}),
        .ok ⟨row.id, d.1, d.2, false⟩) := by
  have hv : (Stmt.insertEvent p.clientId p.idempotencyKey p.eventType p.payload).verdict
      (w.pg.db.applyAll []) = .matchesNothing := by
    simp [verdict_insertEvent, Db.applyAll, hp, hrow]
  have hselect := @run_selectEventId t w w.now p.clientId p.idempotencyKey
  have hdelivery := @run_selectDeliveryOfEvent t w w.now row.id
  rw [hrow] at hselect
  rw [hd] at hdelivery
  refine Prog.run_bind_ok (run_sql rfl) (Prog.run_tryCatch_ok (Prog.run_bind_ok (run_sql rfl) ?_))
  refine Prog.run_bind_ok (run_write_missed hfree hv) (Prog.run_bind_ok hselect ?_)
  refine Prog.run_bind_ok hdelivery (Prog.run_bind_ok rfl ?_)
  exact Prog.run_bind_ok (run_sql rfl) (Prog.run_bind_ok run_sendIdem rfl)

/-- The rows of a new event. -/
def Db.ingested (db : Db) (now : Time) (p : IngestParams) : List Write :=
  [⟨.insertEvent p.clientId p.idempotencyKey p.eventType p.payload, db.uuidSeq, now⟩,
    ⟨.insertDelivery db.uuidSeq p.endpointId, db.uuidSeq + 1, now⟩,
    ⟨.insertTransition (db.uuidSeq + 1) none .pending "created" .api, db.transitionSeq, now⟩]

theorem Db.verdict_insertDelivery {db : Db} {now : Time} {n : ℕ} (hdb : DbOk db) :
    (Stmt.insertDelivery db.uuidSeq p.endpointId).verdict
        ({ db with uuidSeq := n }.applyAll ((db.ingested now p).take 1)) =
      if (db.endpoint? p.endpointId).isSome then .writes else .fails := by
  have hev : (Db.event? { db with uuidSeq := n, events := db.events ++
      [⟨db.uuidSeq, p.clientId, p.idempotencyKey, p.eventType, p.payload, now⟩] } db.uuidSeq).isSome := by
    simp [Db.event?]
  have hnew : ¬ db.deliveries.any
      (fun r => r.eventId = db.uuidSeq ∧ r.endpointId = p.endpointId) = true := by
    intro h
    obtain ⟨r, hr, he⟩ := List.any_eq_true.mp h
    obtain ⟨ev, hev, hid⟩ := hdb.deliveryEvent r hr
    exact absurd (hid.trans (of_decide_eq_true he).1) (Nat.ne_of_lt (hdb.eventIdsLt ev hev))
  exact if_congr ⟨fun h => h.2.1, fun h => ⟨hev, h, hnew⟩⟩ rfl rfl

theorem Db.verdict_insertTransition {db : Db} {now : Time} {n : ℕ} :
    (Stmt.insertTransition (db.uuidSeq + 1) none .pending "created" .api).verdict
        ({ db with uuidSeq := n }.applyAll ((db.ingested now p).take 2)) = .writes := by
  simp [Stmt.verdict, Db.ingested, Db.applyAll, Db.apply, Db.delivery?]

theorem run_insertEvent {τ : Time} (hp : p.Storable)
    (hfree : w.pg.free t (.event p.clientId p.idempotencyKey) = true)
    (hrow : w.pg.db.eventByKey? p.clientId p.idempotencyKey = none) :
    ∃ w', (sql (.write (.insertEvent p.clientId p.idempotencyKey p.eventType p.payload))).run
        (atOnce t) (w, inTx τ []) =
          some ((w', inTx τ ((w.pg.db.ingested τ p).take 1)), .ok (some w.pg.db.uuidSeq)) ∧
      w'.pg.db = { w.pg.db with uuidSeq := w.pg.db.uuidSeq + 1 } :=
  run_write hfree (by simp [verdict_insertEvent, Db.applyAll, hp, hrow])

theorem run_insertDelivery {db : Db} {τ : Time} (hdb : DbOk db)
    (hw : w.pg.db = { db with uuidSeq := db.uuidSeq + 1 }) (hep : (db.endpoint? p.endpointId).isSome) :
    ∃ w', (sql (.write (.insertDelivery db.uuidSeq p.endpointId))).run (atOnce t)
        (w, inTx τ ((db.ingested τ p).take 1)) =
          some ((w', inTx τ ((db.ingested τ p).take 2)), .ok (some (db.uuidSeq + 1))) ∧
      w'.pg.db = { db with uuidSeq := db.uuidSeq + 2 } := by
  have hv := (@Db.verdict_insertDelivery p db τ (db.uuidSeq + 1) hdb).trans (if_pos hep)
  rw [← hw] at hv
  obtain ⟨w', hrun, hdb'⟩ := @run_write t w _ τ _ rfl hv
  rw [hw] at hrun hdb'
  exact ⟨w', hrun, hdb'⟩

theorem run_insertTransition {db : Db} {τ : Time} (hw : w.pg.db = { db with uuidSeq := db.uuidSeq + 2 }) :
    ∃ w', (sql (.write (.insertTransition (db.uuidSeq + 1) none .pending "created" .api))).run
        (atOnce t) (w, inTx τ ((db.ingested τ p).take 2)) =
          some ((w', inTx τ (db.ingested τ p)), .ok (some db.transitionSeq)) ∧
      w'.pg.db = { db with uuidSeq := db.uuidSeq + 2, transitionSeq := db.transitionSeq + 1 } := by
  have hv := @Db.verdict_insertTransition p db τ (db.uuidSeq + 2)
  rw [← hw] at hv
  obtain ⟨w', hrun, hdb'⟩ := @run_write t w _ τ _ rfl hv
  rw [hw] at hrun hdb'
  exact ⟨w', hrun, hdb'⟩

theorem run_ingestTx_new (hdb : DbOk w.pg.db) (hp : p.Storable)
    (hfree : w.pg.free t (.event p.clientId p.idempotencyKey) = true)
    (hrow : w.pg.db.eventByKey? p.clientId p.idempotencyKey = none)
    (hep : (w.pg.db.endpoint? p.endpointId).isSome) :
    ∃ w', (ingestTx p).run (atOnce t) (w, {}) =
        some ((w', {}), .ok ⟨w.pg.db.uuidSeq, w.pg.db.uuidSeq + 1, .pending, true⟩) ∧
      w'.pg.db.events = (w.pg.db.applyAll (w.pg.db.ingested w.now p)).events ∧
      w'.pg.db.deliveries = (w.pg.db.applyAll (w.pg.db.ingested w.now p)).deliveries := by
  obtain ⟨w₁, h₁, hdb₁⟩ := @run_insertEvent t w p w.now hp hfree hrow
  obtain ⟨w₂, h₂, hdb₂⟩ := @run_insertDelivery t w₁ p w.pg.db w.now hdb hdb₁ hep
  obtain ⟨w₃, h₃, hdb₃⟩ := @run_insertTransition t w₂ p w.pg.db w.now hdb₂
  obtain ⟨w₄, h₄, hdb₄⟩ := @run_commit t w₃ w.now (w.pg.db.ingested w.now p)
  refine ⟨_, Prog.run_bind_ok (run_sql rfl) (Prog.run_tryCatch_ok (Prog.run_bind_ok (run_sql rfl)
    (Prog.run_bind_ok h₁ (Prog.run_bind_ok h₂ (Prog.run_bind_ok h₃ (Prog.run_bind_ok rfl
      (Prog.run_bind_ok h₄ (Prog.run_bind_ok run_sendIdem rfl)))))))), ?_, ?_⟩
  · change w₄.pg.db.events = _
    rw [hdb₄, hdb₃]
    rfl
  · change w₄.pg.db.deliveries = _
    rw [hdb₄, hdb₃]
    rfl

theorem run_ingestTx_refused (hdb : DbOk w.pg.db) (hp : p.Storable)
    (hfree : w.pg.free t (.event p.clientId p.idempotencyKey) = true)
    (hrow : w.pg.db.eventByKey? p.clientId p.idempotencyKey = none)
    (hep : (w.pg.db.endpoint? p.endpointId).isSome = false) :
    ∃ x, (ingestTx p).run (atOnce t) (w, {}) = some (x, .error .infra) := by
  obtain ⟨w₁, h₁, hdb₁⟩ := @run_insertEvent t w p w.now hp hfree hrow
  have hv := (@Db.verdict_insertDelivery p _ w.now (w.pg.db.uuidSeq + 1) hdb).trans
    (if_neg (by simp [hep]))
  rw [← hdb₁] at hv
  exact ⟨_, Prog.run_bind_ok (run_sql rfl) (Prog.run_tryCatch_error (Prog.run_bind_ok (run_sql rfl)
    (Prog.run_bind_ok h₁ (Prog.run_bind_error (run_write_fails rfl hv))))
      (Prog.run_bind_ok (run_sql rfl) rfl))⟩

theorem DbOk.deliveryOfEvent {db : Db} (hdb : DbOk db) {row : EventRow} (hrow : row ∈ db.events) :
    ∃ d, db.deliveryOfEvent row.id = some d := by
  obtain ⟨d, hd, he⟩ := hdb.eventDelivery row hrow
  refine Option.isSome_iff_exists.mp ?_
  rw [Db.deliveryOfEvent, Option.isSome_map, List.find?_isSome]
  exact ⟨d, hd, decide_eq_true he⟩

/-- **The database path** gives the answer of the database. -/
theorem run_ingestTx (hdb : DbOk w.pg.db) :
    ((ingestTx p).run (atOnce t) (w, {})).map (·.2) = w.pg.ingestAnswer t p := by
  unfold Postgres.ingestAnswer
  split
  · rename_i hfree
    by_cases hp : p.Storable
    · rw [if_pos hp]
      cases hrow : w.pg.db.eventByKey? p.clientId p.idempotencyKey with
      | some row =>
        obtain ⟨d, hd⟩ := hdb.deliveryOfEvent (List.mem_of_find?_eq_some hrow)
        rw [run_ingestTx_known hp hfree hrow hd]
        simp only [hd]
        rfl
      | none =>
        dsimp only
        split
        · rename_i hep
          obtain ⟨w', hrun, -⟩ := run_ingestTx_new hdb hp hfree hrow hep
          rw [hrun]
          rfl
        · rename_i hep
          obtain ⟨x, hrun⟩ := run_ingestTx_refused hdb hp hfree hrow (by simpa using hep)
          rw [hrun]
          rfl
    · obtain ⟨x, hrun⟩ := run_ingestTx_unstorable hfree hp
      rw [if_neg hp, hrun]
      rfl
  · rename_i hfree
    rw [run_ingestTx_waits (by simpa using hfree)]
    rfl

/-- The event and the delivery are those of the row with this client and this key. -/
structure Belongs (db : Db) (p : IngestParams) (r : IngestResult) : Prop where
  event : ∃ row ∈ db.events, row.id = r.eventId ∧ row.clientId = p.clientId ∧
    row.idempotencyKey = p.idempotencyKey
  delivery : ∃ row ∈ db.deliveries, row.id = r.deliveryId ∧ row.eventId = r.eventId

theorem Db.eventByKey?_spec {db : Db} {c i : String} {row : EventRow}
    (h : db.eventByKey? c i = some row) :
    row ∈ db.events ∧ row.clientId = c ∧ row.idempotencyKey = i :=
  ⟨List.mem_of_find?_eq_some h, by simpa using List.find?_some h⟩

theorem Db.deliveryOfEvent_spec {db : Db} {ev : EventId} {d : DeliveryId × Status}
    (h : db.deliveryOfEvent ev = some d) : ∃ row ∈ db.deliveries, row.id = d.1 ∧ row.eventId = ev := by
  obtain ⟨row, hrow, rfl⟩ := Option.map_eq_some_iff.mp h
  exact ⟨row, List.mem_of_find?_eq_some hrow, rfl, by simpa using List.find?_some hrow⟩

theorem belongs_known {db : Db} {row : EventRow} {d : DeliveryId × Status}
    (hrow : row ∈ db.events) (hc : row.clientId = p.clientId)
    (hi : row.idempotencyKey = p.idempotencyKey) (hd : db.deliveryOfEvent row.id = some d) :
    Belongs db p ⟨row.id, d.1, d.2, false⟩ :=
  ⟨⟨row, hrow, rfl, hc, hi⟩, Db.deliveryOfEvent_spec hd⟩

theorem run_ingestTx_belongs (hdb : DbOk w.pg.db) {x : World × Memory} {r : IngestResult}
    (hrun : (ingestTx p).run (atOnce t) (w, {}) = some (x, .ok r)) :
    Belongs x.1.pg.db p r ∧
      (r.isNew = true ↔ w.pg.db.eventByKey? p.clientId p.idempotencyKey = none) := by
  cases hfree : w.pg.free t (.event p.clientId p.idempotencyKey) with
  | false =>
    rw [run_ingestTx_waits hfree] at hrun
    cases hrun
  | true =>
    have hp : p.Storable := by
      by_contra hp
      obtain ⟨y, hrun'⟩ := run_ingestTx_unstorable hfree hp
      rw [hrun'] at hrun
      cases hrun
    cases hrow : w.pg.db.eventByKey? p.clientId p.idempotencyKey with
    | some row =>
      obtain ⟨hmem, hc, hi⟩ := Db.eventByKey?_spec hrow
      obtain ⟨d, hd⟩ := hdb.deliveryOfEvent hmem
      rw [run_ingestTx_known hp hfree hrow hd] at hrun
      cases hrun
      exact ⟨belongs_known hmem hc hi hd, by simp⟩
    | none =>
      cases hep : (w.pg.db.endpoint? p.endpointId).isSome with
      | true =>
        obtain ⟨w', hrun', hev, hdel⟩ := run_ingestTx_new hdb hp hfree hrow hep
        rw [hrun'] at hrun
        cases hrun
        refine ⟨⟨?_, ?_⟩, by simp⟩
        · rw [hev]
          exact ⟨_, List.mem_append_right _ List.mem_cons_self, rfl, rfl, rfl⟩
        · rw [hdel]
          exact ⟨_, List.mem_append_right _ List.mem_cons_self, rfl, rfl⟩
      | false =>
        obtain ⟨y, hrun'⟩ := run_ingestTx_refused hdb hp hfree hrow hep
        rw [hrun'] at hrun
        cases hrun

end Tx

/-! ## The fast path -/

/-- The same world with an empty cache. -/
def World.cold (w : World) : World := { w with redis := { w.redis with idem := fun _ => none } }

/-- The cache answers the key with an event of another client or another key. -/
def Misnamed (w : World) (p : IngestParams) : Prop :=
  ∃ row ∈ w.pg.db.events,
    w.redis.idemAt w.now (idemRedisKey p.clientId p.idempotencyKey) = some row.id ∧
      (row.clientId, row.idempotencyKey) ≠ (p.clientId, p.idempotencyKey)

/-- The fast path agrees with the database. -/
structure Agrees (t : Tid) (w : World) (p : IngestParams) : Prop where
  cold : (ingest t w p).map (·.2) = (ingest t w.cold p).map (·.2)
  belongs : ∀ x r, ingest t w p = some (x, .ok r) → Belongs x.1.pg.db p r
  isNew : ∀ x r, ingest t w p = some (x, .ok r) →
    (r.isNew = true ↔ w.pg.db.eventByKey? p.clientId p.idempotencyKey = none)

section Ingest

variable {w : World} {p : IngestParams}

theorem ingest_miss
    (h : w.redis.idemAt w.now (idemRedisKey p.clientId p.idempotencyKey) = none) :
    ingest t w p = (ingestTx p).run (atOnce t) (w, {}) := by
  have hget := @run_getIdem t w {} (idemRedisKey p.clientId p.idempotencyKey)
  rw [h] at hget
  exact Prog.run_bind_ok hget rfl

theorem ingest_hit {ev : EventId} {d : DeliveryId × Status}
    (h : w.redis.idemAt w.now (idemRedisKey p.clientId p.idempotencyKey) = some ev)
    (hd : w.pg.db.deliveryOfEvent ev = some d) :
    ingest t w p = some ((w, {}), .ok ⟨ev, d.1, d.2, false⟩) := by
  have hget := @run_getIdem t w {} (idemRedisKey p.clientId p.idempotencyKey)
  have hselect : (sql (.selectDeliveryOfEvent ev)).run (atOnce t) (w, {}) =
      some ((w, {}), .ok (w.pg.db.deliveryOfEvent ev)) := rfl
  rw [h] at hget
  rw [hd] at hselect
  exact Prog.run_bind_ok hget (Prog.run_bind_ok hselect rfl)

theorem ingest_cold (hdb : DbOk w.pg.db) :
    (ingest t w.cold p).map (·.2) = w.pg.ingestAnswer t p := by
  rw [ingest_miss rfl]
  exact run_ingestTx hdb

end Ingest

section Reached

variable {C : State → Label → Prop} {p : IngestParams}

theorem cached_event (h : Reachable env C s) {key : String} {ev : EventId}
    (hget : s.redis.idemAt s.now key = some ev) :
    ∃ row ∈ s.pg.db.events, row.id = ev ∧ ∃ d, s.pg.db.deliveryOfEvent ev = some d := by
  obtain ⟨⟨ev', exp⟩, hstored, hev⟩ := Option.bind_eq_some_iff.mp hget
  split at hev
  · cases hev
    obtain ⟨row, hrow, hid, -⟩ := (reachable_remembered h).stored key ev' exp hstored
    have hid : row.id = ev' := hid
    subst hid
    exact ⟨row, hrow, rfl, (reachable_ok h).db.deliveryOfEvent hrow⟩
  · cases hev

theorem eventByKey?_of_mem {db : Db} (hdb : DbOk db) {row : EventRow} (hrow : row ∈ db.events) :
    db.eventByKey? row.clientId row.idempotencyKey = some row := by
  have hsome : (db.eventByKey? row.clientId row.idempotencyKey).isSome := by
    rw [Db.eventByKey?, List.find?_isSome]
    exact ⟨row, hrow, by simp⟩
  obtain ⟨row', hrow'⟩ := Option.isSome_iff_exists.mp hsome
  obtain ⟨hmem, hc, hi⟩ := Db.eventByKey?_spec hrow'
  rw [hrow', List.inj_on_of_nodup_map hdb.eventKeys hmem hrow (Prod.ext hc hi)]

theorem free_of_event (hs : s.Ok) {row : EventRow} {c i : String}
    (hrow : s.pg.db.eventByKey? c i = some row) : s.pg.free t (.event c i) = true := by
  refine Postgres.free_iff.mpr fun u hu => ?_
  rw [hs.keys c i u hu] at hrow
  cases hrow

theorem agrees_of_named (h : Reachable env C s) (hp : ¬ Misnamed s.toWorld p)
    (hstorable : (s.redis.idemAt s.now (idemRedisKey p.clientId p.idempotencyKey)).isSome →
      p.Storable) : Agrees t s.toWorld p := by
  have hs := reachable_ok h
  cases hget : s.redis.idemAt s.now (idemRedisKey p.clientId p.idempotencyKey) with
  | none =>
    have hmiss := @ingest_miss t s.toWorld p hget
    refine ⟨?_, fun x r hrun => ?_, fun x r hrun => ?_⟩
    · rw [hmiss, ingest_cold hs.db]
      exact run_ingestTx hs.db
    · exact (run_ingestTx_belongs hs.db (hmiss.symm.trans hrun)).1
    · exact (run_ingestTx_belongs hs.db (hmiss.symm.trans hrun)).2
  | some ev =>
    obtain ⟨row, hrow, rfl, d, hd⟩ := cached_event h hget
    have hhit := @ingest_hit t s.toWorld p row.id d hget hd
    have hpair : (row.clientId, row.idempotencyKey) = (p.clientId, p.idempotencyKey) :=
      not_not.mp fun hne => hp ⟨row, hrow, hget, hne⟩
    obtain ⟨hc, hi⟩ := Prod.mk.inj hpair
    have hkey : s.pg.db.eventByKey? p.clientId p.idempotencyKey = some row := by
      rw [← hc, ← hi]
      exact eventByKey?_of_mem hs.db hrow
    refine ⟨?_, fun x r hrun => ?_, fun x r hrun => ?_⟩
    · rw [hhit, ingest_cold hs.db]
      simp [Postgres.ingestAnswer, free_of_event hs hkey, hkey, hd, hstorable (by rw [hget]; rfl)]
    · rw [hhit] at hrun
      cases hrun
      exact belongs_known hrow hc hi hd
    · rw [hhit] at hrun
      cases hrun
      simp [hkey]

theorem not_agrees_of_misnamed (h : Reachable env C s) (hp : Misnamed s.toWorld p) :
    ¬ Agrees t s.toWorld p := by
  intro hagree
  have hs := reachable_ok h
  obtain ⟨row, hrow, hget, hne⟩ := hp
  obtain ⟨d, hd⟩ := hs.db.deliveryOfEvent hrow
  obtain ⟨row', hrow', hid, hc, hi⟩ := (hagree.belongs _ _ (ingest_hit hget hd)).event
  have heq : row' = row := List.inj_on_of_nodup_map hs.db.eventIds hrow' hrow hid
  subst heq
  exact hne (Prod.ext hc hi)

theorem storable_of_agrees (h : Reachable env C s) (hagree : Agrees t s.toWorld p)
    (hget : (s.redis.idemAt s.now (idemRedisKey p.clientId p.idempotencyKey)).isSome) : p.Storable := by
  have hs := reachable_ok h
  obtain ⟨ev, hget⟩ := Option.isSome_iff_exists.mp hget
  obtain ⟨row, hrow, rfl, d, hd⟩ := cached_event h hget
  have hcold := hagree.cold
  rw [@ingest_hit t s.toWorld p row.id d hget hd, ingest_cold hs.db] at hcold
  by_contra hp
  rw [Postgres.ingestAnswer, if_neg hp] at hcold
  split_ifs at hcold <;> cases hcold

/-- The call answers: nobody is inserting this very event, its texts can be stored, and the endpoint
exists. -/
theorem ingest_answers (h : Reachable env C s) (hp : p.Storable)
    (hep : (s.pg.db.endpoint? p.endpointId).isSome)
    (hfree : s.pg.free t (.event p.clientId p.idempotencyKey) = true) :
    ∃ x r, ingest t s.toWorld p = some (x, .ok r) := by
  have hs := reachable_ok h
  cases hget : s.redis.idemAt s.now (idemRedisKey p.clientId p.idempotencyKey) with
  | some ev =>
    obtain ⟨row, hrow, rfl, d, hd⟩ := cached_event h hget
    exact ⟨_, _, ingest_hit hget hd⟩
  | none =>
    rw [ingest_miss hget]
    cases hrow : s.pg.db.eventByKey? p.clientId p.idempotencyKey with
    | some row =>
      obtain ⟨d, hd⟩ := hs.db.deliveryOfEvent (Db.eventByKey?_spec hrow).1
      exact ⟨_, _, run_ingestTx_known hp hfree hrow hd⟩
    | none =>
      obtain ⟨w', hrun, -⟩ := run_ingestTx_new hs.db hp hfree hrow hep
      exact ⟨_, _, hrun⟩

/-- **The fast path agrees with the database if and only if** the cache does not answer the key with
an event of another client or another key, and answers no call the database would refuse; and the call
answers. -/
theorem ingest_agrees_iff (h : Reachable env C s) (t : Tid) (p : IngestParams) :
    (Agrees t s.toWorld p ↔ ¬ Misnamed s.toWorld p ∧
      ((s.redis.idemAt s.now (idemRedisKey p.clientId p.idempotencyKey)).isSome → p.Storable)) ∧
      (p.Storable → (s.pg.db.endpoint? p.endpointId).isSome →
        s.pg.free t (.event p.clientId p.idempotencyKey) = true →
          ∃ x r, ingest t s.toWorld p = some (x, .ok r)) :=
  ⟨⟨fun hagree => ⟨fun hp => not_agrees_of_misnamed h hp hagree, storable_of_agrees h hagree⟩,
    fun hp => agrees_of_named h hp.1 hp.2⟩, ingest_answers h⟩

end Reached

/-- Two clients, whose events with the keys `b:c` and `c` have one key in the fast path. -/
def sampleClients : List Label :=
  [.createEndpoint "a" "url" "secret", .createEndpoint "a:b" "url" "secret",
    .request (.postEvent ⟨some "b:c", 0, 0, "type", "payload"⟩)] ++ calls 0 12 ++
      [.settle 0, .idemArrive 0]

theorem ingest_agrees_iff_cached : ∃ s, Reachable sampleEnv NoCalls s ∧
    s.redis.idemAt s.now (idemRedisKey "a" "b:c") = some 2 ∧
      Agrees 1 s.toWorld ⟨"a", "b:c", "type", "payload", 0⟩ := by
  obtain ⟨s, hreach, hs⟩ := sample_run (C := NoCalls) sampleClients
    (fun s => s.redis.idemAt s.now (idemRedisKey "a" "b:c") = some 2 ∧
      s.pg.db.events.all fun row => row.clientId = "a" ∧ row.idempotencyKey = "b:c")
    (by decide +kernel)
  obtain ⟨hget, hall⟩ := of_decide_eq_true hs
  refine ⟨s, hreach, hget, (ingest_agrees_iff hreach 1 _).1.mpr ⟨?_, fun _ => by decide +kernel⟩⟩
  rintro ⟨row, hrow, -, hne⟩
  obtain ⟨hc, hi⟩ : row.clientId = "a" ∧ row.idempotencyKey = "b:c" := by
    simpa using List.all_eq_true.mp hall row hrow
  exact hne (by rw [hc, hi])

/-- The second client gets the event of the first. -/
theorem ingest_misnamed : ¬ ∀ s, Reachable sampleEnv NoCalls s → ∀ t p,
    Agrees t s.toWorld p := by
  intro h
  obtain ⟨s, hreach, hs⟩ := sample_run (C := NoCalls) sampleClients
    (fun s => s.redis.idemAt s.now (idemRedisKey "a:b" "c") = some 2 ∧
      s.pg.db.deliveryOfEvent 2 = some (3, .pending) ∧
        s.pg.db.events.all fun row => row.clientId = "a") (by decide +kernel)
  obtain ⟨hget, hd, hall⟩ := of_decide_eq_true hs
  obtain ⟨row, hrow, -, hc, -⟩ := ((h s hreach 1 ⟨"a:b", "c", "type", "payload", 1⟩).belongs _ _
    (ingest_hit hget hd)).event
  have hother : row.clientId = "a" := by simpa using List.all_eq_true.mp hall row hrow
  rw [hother] at hc
  simp at hc

end WebhookEngine
