import WebhookEngine.Proof.Outcomes
import WebhookEngine.Proof.Reports
import WebhookEngine.Proof.Watched

set_option autoImplicit false

/-!
# Refused requests

A request the API answers with an error of its own, an `AppError`, has changed nothing: all it did was
read. Whatever else goes wrong is answered with 500.

* `Eff.changes`: the calls that change something; `perform_reads`: the others leave what is outside of
  the execution as it was, if it has nothing to commit;
* `refusals`: the errors each route throws itself;
* `reading`, `postEvent_refuses`, `postRetry_refuses`: the monitor and the two routes under it;
* **`refused_harmless`**: what a request that was answered with such an error has done.
-/

namespace WebhookEngine

open EffectProg TransitionSystem

variable {env : Env} {C : State → Label → Prop} {v : State} {t : Tid} {th : Thread} {α β : Type}

/-- Redis commands that only read. -/
def RedisCmd.reads : RedisCmd → Bool
  | .existsOpen _ | .getFails _ | .getIdem _ => true
  | _ => false

/-- The call changes a table, a key, a queue, or something at the other end of an HTTP exchange. -/
def Eff.changes : Eff → Bool
  | .sql (.write _) => true
  | .sql _ => false
  | .redis c => !c.reads
  | .isOverloaded | .dateNow | .mathRandom | .readLockLost => false
  | _ => true

/-- The errors a route handler throws itself; those of Fastify, which answers before a handler runs, are
not among them. -/
def refusals : Kind → List (ℕ × String)
  | .postEvent _ =>
    [(429, "BACKPRESSURE"), (400, "IDEMPOTENCY_KEY_MISSING"), (400, "IDEMPOTENCY_KEY_TOO_LONG"),
      (413, "PAYLOAD_TOO_LARGE"), (400, "VALIDATION_ERROR"), (503, "STORAGE_UNAVAILABLE"),
      (404, "ENDPOINT_NOT_FOUND"), (409, "ENDPOINT_INACTIVE")]
  | .postRetry _ => [(404, "DELIVERY_NOT_FOUND"), (409, "NOT_IN_DLQ")]
  | _ => []

/-- Only overload is answered with a time to wait. -/
theorem refusals_retryAfter {k : Kind} {st : ℕ} {code : String} (h : (st, code) ∈ refusals k) :
    (errorHandler (.app st code)).retryAfter = some "5" ↔ code = "BACKPRESSURE" := by
  cases k with
  | postEvent req =>
    simp only [refusals, List.mem_cons, Prod.mk.injEq, List.not_mem_nil, or_false] at h
    rcases h with h | h | h | h | h | h | h | h <;> simp [errorHandler, h]
  | postRetry d =>
    simp only [refusals, List.mem_cons, Prod.mk.injEq, List.not_mem_nil, or_false] at h
    rcases h with h | h <;> simp [errorHandler, h]
  | _ => cases h

/-! ## The routes -/

/-- Whether a change has been made; calls fail with one error only. -/
def reading : Monitor Eff Eff.Resp Bool where
  next m e _ := m || e.changes
  permits _ _ := True
  expects _ e r := ∀ x, e.failure r = some x → x = .infra

/-- A refusal is one of the list, and comes before any change. -/
def Refuses (l : List (ℕ × String)) (m : Bool) (r : Except Err α) : Prop :=
  ∀ st code, r = .error (.app st code) → m = false ∧ (st, code) ∈ l

/-- The program throws no error of the API's own. -/
def Silent (p : Code α) : Prop :=
  ∀ m, Prog.Safe reading m p fun _ r => ∀ st code, r ≠ .error (.app st code)

theorem Silent.refuses {p : Code α} (h : Silent p) (l : List (ℕ × String)) (m : Bool) :
    Prog.Safe reading m p (Refuses l) :=
  (h m).mono fun _ _ hr st code he => absurd he (hr st code)

theorem silent_ret (a : α) : Silent (Prog.ret a : Code α) := fun _ => nofun

theorem Silent.bind {p : Code α} {f : α → Code β} (hp : Silent p) (hf : ∀ a, Silent (f a)) :
    Silent (p.bind f) := by
  intro m
  refine Prog.safe_bind.mpr ((hp m).mono fun m' r hr => ?_)
  cases r with
  | ok a => exact hf a m'
  | error x =>
    intro st code he
    cases he
    exact hr st code rfl

theorem Silent.tryCatch {p : Code α} {h : Err → Code α} (hp : Silent p)
    (hh : ∀ x, (∀ st code, x ≠ .app st code) → Silent (h x)) : Silent (p.tryCatch h) := by
  intro m
  refine Prog.safe_tryCatch.mpr ((hp m).mono fun m' r hr => ?_)
  cases r with
  | ok a => exact nofun
  | error x => exact hh x (fun st code he => hr st code (he ▸ rfl)) m'

theorem silent_raise {x : Err} (hx : ∀ st code, x ≠ .app st code) :
    Silent (Prog.raise x : Code α) := by
  intro m st code he
  cases he
  exact hx st code rfl

theorem silent_await {e : Eff} {answer : e.Resp → Except Err α}
    (ha : ∀ r x, answer r = .error x → e.failure r = some x) : Silent (await e answer) := by
  intro m
  refine ⟨trivial, fun r hr => Prog.safe_ofExcept.mpr fun st code he => ?_⟩
  cases hr _ (ha r _ he)

theorem failureOf_error {r : Except Err α} {x : Err} (h : r = .error x) : failureOf r = some x := by
  rw [h]
  rfl

theorem silent_sql (q : Sql) : Silent (sql q) := silent_await fun _ _ => failureOf_error

theorem silent_redis (c : RedisCmd) : Silent (redis c) := silent_await fun _ _ => failureOf_error

theorem silent_queueAdd (id : JobId) (d : DeliveryId) : Silent (queueAdd id d) :=
  silent_await fun _ _ => failureOf_error

theorem silent_call (e : Eff) : Silent (call e) := fun _ => ⟨trivial, fun _ _ => nofun⟩

theorem silent_enqueueDelivery (d : DeliveryId) : Silent (enqueueDelivery d) :=
  (silent_queueAdd _ _).bind fun _ => (silent_sql _).bind fun _ => silent_ret ()

theorem silent_ingestTx (p : IngestParams) : Silent (ingestTx p) := by
  have hend : ∀ result : IngestResult, Silent (do
      sql .commit
      let _ ← call (.sendIdem (idemRedisKey p.clientId p.idempotencyKey) result.eventId)
      return result) := fun result =>
    (silent_sql _).bind fun _ => (silent_call _).bind fun _ => silent_ret result
  have hraise : ∀ {f : IngestResult → Code IngestResult},
      Silent ((Prog.raise (.error "TypeError") : Code IngestResult).bind f) :=
    silent_raise fun _ _ => nofun
  refine (silent_sql _).bind fun _ => Silent.tryCatch ?_ fun x hx => ?_
  · refine (silent_sql _).bind fun _ => (silent_sql _).bind fun inserted => ?_
    cases inserted with
    | some ev =>
      refine (silent_sql _).bind fun d => ?_
      cases d with
      | some d => exact (silent_sql _).bind fun _ => hend _
      | none => exact hraise
    | none =>
      refine (silent_sql _).bind fun ev => ?_
      cases ev with
      | some ev =>
        refine (silent_sql _).bind fun d => ?_
        cases d with
        | some d => exact hend _
        | none => exact hraise
      | none => exact hraise
  · exact (silent_sql _).bind fun _ => silent_raise hx

theorem silent_ingestEvent (p : IngestParams) : Silent (ingestEvent p) := by
  refine (silent_redis _).bind fun cached => ?_
  cases cached with
  | none => exact silent_ingestTx p
  | some ev =>
    refine (silent_sql _).bind fun d => ?_
    cases d with
    | some d => exact silent_ret _
    | none => exact silent_ingestTx p

/-- **A call.** It may fail, with one error. -/
theorem reading_await {e : Eff} {answer : e.Resp → Except Err α} {m : Bool}
    {Q : Bool → Except Err α → Prop} (ha : ∀ r x, answer r = .error x → e.failure r = some x)
    (hok : ∀ a, Q (m || e.changes) (.ok a)) (herr : Q (m || e.changes) (.error .infra)) :
    Prog.Safe reading m (await e answer) Q := by
  refine ⟨trivial, fun r hr => Prog.safe_ofExcept.mpr ?_⟩
  cases hx : answer r with
  | ok a => exact hok a
  | error x =>
    cases hr x (ha r x hx)
    exact herr

theorem reading_sql {q : Sql} {m : Bool} {Q : Bool → Except Err q.Ret → Prop}
    (hok : ∀ a, Q (m || (Eff.sql q).changes) (.ok a))
    (herr : Q (m || (Eff.sql q).changes) (.error .infra)) : Prog.Safe reading m (sql q) Q :=
  reading_await (fun _ _ => failureOf_error) hok herr

/-- **A transaction** that fails throws what its body threw, or the one error. -/
theorem reading_withTx {fn : Code α} {m : Bool} {Q : Bool → Except Err α → Prop}
    (hinfra : ∀ m, Q m (.error .infra)) (h : Prog.Safe reading m fn Q) :
    Prog.Safe reading m (withTx fn) Q := by
  have hsql : ∀ {q : Sql} {m : Bool} {f : q.Ret → Code α} {Q : Bool → Except Err α → Prop},
      (Eff.sql q).changes = false → (∀ a, Prog.Safe reading m (f a) Q) → Q m (.error .infra) →
        Prog.Safe reading m ((sql q).bind f) Q := by
    intro q m f Q hq hok herr
    refine Prog.safe_bind.mpr (reading_sql (fun a => ?_) ?_)
    · rw [hq, Bool.or_false]
      exact hok a
    · rw [hq, Bool.or_false]
      exact herr
  have hrollback : ∀ m x, Q m (.error x) →
      Prog.Safe reading m ((sql .rollback).bind fun _ => (Prog.raise x : Code α)) Q :=
    fun m x hx => hsql rfl (fun _ => hx) (hinfra m)
  refine hsql rfl (fun _ => Prog.safe_tryCatch.mpr ?_) (hinfra m)
  refine hsql rfl (fun _ => Prog.safe_bind.mpr (h.mono fun m' r hr => ?_)) (hrollback _ _ (hinfra m))
  cases r with
  | ok a => exact hsql rfl (fun _ => hr) (hrollback _ _ (hinfra m'))
  | error x => exact hrollback _ _ hr

theorem refuses_raise {l : List (ℕ × String)} {st : ℕ} {code : String} (h : (st, code) ∈ l) :
    Refuses l false (.error (.app st code) : Except Err α) := by
  rintro st' code' he
  cases he
  exact ⟨rfl, h⟩

theorem postEvent_refuses (req : EventRequest) :
    Prog.Safe reading false (postEvent env req) (Refuses (refusals (.postEvent req))) := by
  refine Prog.safe_bind.mpr (reading_await (fun _ _ => failureOf_error) (fun overloaded => ?_) nofun)
  dsimp only
  split_ifs
  · exact refuses_raise (by simp [refusals])
  · exact refuses_raise (by simp [refusals])
  · exact refuses_raise (by simp [refusals])
  · exact refuses_raise (by simp [refusals])
  · exact refuses_raise (by simp [refusals])
  · exact refuses_raise (by simp [refusals])
  refine Prog.safe_bind.mpr (Prog.safe_tryCatch.mpr (reading_sql (fun endpoint => ?_) ?_))
  · cases endpoint with
    | none => exact refuses_raise (by simp [refusals])
    | some endpoint =>
      dsimp only
      split_ifs
      · refine Silent.refuses (Silent.bind (silent_ingestEvent _) fun result => ?_) _ _
        split_ifs
        · exact (Silent.tryCatch (silent_enqueueDelivery _) fun _ _ => silent_ret _).bind fun _ =>
            silent_ret result
        · exact silent_ret result
      · exact refuses_raise (by simp [refusals])
  · exact refuses_raise (by simp [refusals])

/-- What `retryFromDlq` has done when it answers that there is nothing to retry. -/
def Unretried (m : Bool) : Except Err RetryFromDlqResult → Prop
  | .ok .ok => True
  | .ok _ => m = false
  | .error x => x = .infra

theorem retryFromDlq_refuses (d : DeliveryId) :
    Prog.Safe reading false (retryFromDlq d) Unretried := by
  refine reading_withTx (fun _ => rfl) (Prog.safe_bind.mpr (reading_sql (fun row => ?_) rfl))
  cases row with
  | none => exact (rfl : Unretried false (.ok .notFound))
  | some status =>
    dsimp only
    split_ifs
    · exact (rfl : Unretried false (.ok (.notInDlq status)))
    · refine Prog.safe_bind.mpr (reading_sql (fun _ => ?_) rfl)
      exact Prog.safe_bind.mpr (reading_sql (fun _ => trivial) rfl)

theorem postRetry_refuses (d : IdText) :
    Prog.Safe reading false (postRetry d) (Refuses (refusals (.postRetry d))) := by
  refine Prog.safe_bind.mpr ((retryFromDlq_refuses d.id).mono fun m r hr => ?_)
  cases r with
  | error x =>
    cases hr
    exact nofun
  | ok result =>
    cases result with
    | notFound =>
      cases hr
      exact refuses_raise (by simp [refusals])
    | notInDlq status =>
      cases hr
      exact refuses_raise (by simp [refusals])
    | ok =>
      exact ((silent_call .dateNow).bind fun ms => (silent_queueAdd _ _).bind fun _ =>
        silent_ret _).refuses _ _

/-! ## What the calls have done -/

/-- What is outside of the executions: tables, keys, queues, and what is under way. -/
structure Outside where
  db : Db
  redis : Redis
  jobs : Jobs
  dlqJobs : List IdText
  idemInFlight : List (String × EventId)
  alerts : List DeliveryId

def World.outside (w : World) : Outside :=
  ⟨w.pg.db, w.redis, w.jobs, w.dlqJobs, w.idemInFlight, w.alerts⟩

theorem RedisCmd.exec_reads {cmd : RedisCmd} (h : cmd.reads = true) (now : Time) (r : Redis) :
    (cmd.exec now r).1 = r := by
  cases cmd with
  | existsOpen ep => rfl
  | getFails ep => rfl
  | getIdem key => rfl
  | _ => cases h

theorem Sql.exec_reads {q : Sql} {pg pg' : Postgres} {now : Time} {sess sess' : Option Session}
    {fault : Fault} {rows : List DeliveryId} {r : Except Err q.Ret}
    (h : q.exec pg t now sess fault rows = some (pg', sess', r)) (hq : (Eff.sql q).changes = false)
    (hw : (sess.map (·.writes)).getD [] = []) : pg'.db = pg.db := by
  cases q with
  | write st => cases hq
  | connect => cases h; rfl
  | begin => cases h; rfl
  | commit =>
    cases h
    simp [hw, Postgres.giveBack, Db.applyAll]
  | rollback => cases h; rfl
  | selectUnenqueued grace limit =>
    simp only [Sql.exec] at h
    split_ifs at h <;> cases h <;> rfl
  | selectStatusForUpdate d =>
    simp only [Sql.exec] at h
    split_ifs at h
    · split at h <;> cases h <;> rfl
    · cases h
      rfl
  | selectForDelivery d => cases h; rfl
  | selectEventId cl key => cases h; rfl
  | selectDeliveryOfEvent ev => cases h; rfl
  | selectEndpoint ep => cases h; rfl
  | selectLastAttempt d => cases h; rfl

theorem perform_reads {w w' : World} {m m' : Memory} {c : Choice} {e : Eff} {r : e.Resp}
    (h : perform t w m c e = some (w', m', r)) (he : e.changes = false)
    (hw : (m.sess.map (·.writes)).getD [] = []) : w'.outside = w.outside := by
  cases e with
  | sql q =>
    obtain ⟨pg', sess', hex, rfl, rfl⟩ := perform_sql h
    simp only [World.outside, Sql.exec_reads hex he hw]
  | redis cmd =>
    have hreads : cmd.reads = true := by simpa [Eff.changes] using he
    have hrun : (c.fault.run w.redis (cmd.exec w.now w.redis)).1 = w.redis := by
      unfold Fault.run
      split
      · rfl
      · exact RedisCmd.exec_reads hreads _ _
    have hw' : w' = { w with redis := (c.fault.run w.redis (cmd.exec w.now w.redis)).1 } := by
      cases h
      rfl
    rw [hw', hrun]
  | dateNow => cases h; rfl
  | mathRandom => cases h; rfl
  | isOverloaded => cases h; rfl
  | readLockLost => cases h; rfl
  | _ => cases he

theorem after_reading (trace : List Event) :
    reading.after false trace = trace.any (·.1.changes) := by
  induction trace with
  | nil => rfl
  | cons ev trace ih =>
    rw [List.any_cons, ← ih, Bool.or_comm]
    rfl

theorem facts_unwritten {trace : List Event} (h : ∀ ev ∈ trace, ev.1.changes = false) :
    (facts trace).tx.getD [] = [] := by
  induction trace with
  | nil => rfl
  | cons ev trace ih =>
    refine List.eq_nil_iff_forall_not_mem.mpr fun x hx => ?_
    rcases Facts.next_tx hx with hx | ⟨st, g, hev, -⟩
    · rw [ih fun ev hev => h ev (List.mem_cons_of_mem _ hev)] at hx
      cases hx
    · have hchanges := h ev List.mem_cons_self
      rw [hev] at hchanges
      cases hchanges

/-- What the client is answered when the request has failed. -/
def Thread.refusal? (th : Thread) : Option Answer :=
  match th.prog with
  | .raise err => some (errorHandler err)
  | _ => none

theorem Thread.refusal?_eq_some {a : Answer} :
    th.refusal? = some a ↔ ∃ err, th.prog = .raise err ∧ errorHandler err = a := by
  unfold Thread.refusal?
  cases th.prog <;> simp

/-- The requests that write. -/
def Kind.request : Kind → Bool
  | .postEvent _ | .postRetry _ => true
  | _ => false

theorem refuses_map {p : Code α} {l : List (ℕ × String)} {m : Bool}
    (h : Prog.Safe reading m p (Refuses l)) (f : α → β) :
    Prog.Safe reading m (p.bind fun a => Prog.ret (f a)) (Refuses l) := by
  refine Prog.safe_bind.mpr (h.mono fun m' r hr => ?_)
  cases r with
  | ok a => exact nofun
  | error x =>
    intro st code he
    cases he
    exact hr st code rfl

theorem program_refuses (t : Tid) {k : Kind} (hk : k.request = true) :
    Prog.Safe reading false (program env t k) (Refuses (refusals k)) := by
  cases k with
  | postEvent req => exact refuses_map (postEvent_refuses req) Reply.ingested
  | postRetry d => exact refuses_map (postRetry_refuses d) Reply.retried
  | _ => cases hk

/-- **A refused request has changed nothing.** If the handler of the route answers with an error other
than 500, it is one of the errors of the route, and none of the steps of the request changed a table, a
key or a queue. -/
theorem refused_harmless {a : Answer} (h : Reachable env C v) (hv : v.live? t = some th)
    (hk : th.kind.request = true) (ha : th.refusal? = some a) (hne : a.statusCode ≠ 500) :
    (a.statusCode, a.code) ∈ refusals th.kind ∧ (a.retryAfter = some "5" ↔ a.code = "BACKPRESSURE") ∧
      ∀ s c s', Reachable env C s → step env s (.op t c) = some s' → Reach (step env) C s' v →
        s'.outside = s.outside := by
  have hsafe : Prog.Safe reading (th.watched reading false) th.prog (Refuses (refusals th.kind)) :=
    reachable_watched (P := fun k => k.request = true) (Q := fun _ k => Refuses (refusals k))
      (fun t _ => program_refuses t) (fun _ _ _ hadv _ _ hx => perform_failure hadv.done hx) h t th
        (State.live?_eq_some.mp hv).1 hk
  obtain ⟨err, hp, rfl⟩ := Thread.refusal?_eq_some.mp ha
  rw [hp] at hsafe
  cases err with
  | app st code =>
    obtain ⟨hread, hmem⟩ := hsafe st code rfl
    have hall : ∀ ev ∈ th.trace, ev.1.changes = false := by
      have hany : th.trace.any (·.1.changes) = false := (after_reading _).symm.trans hread
      simpa using hany
    refine ⟨hmem, ?_, fun s c s' hs hstep hrun => ?_⟩
    · exact refusals_retryAfter hmem
    · obtain ⟨ls, hrun⟩ := hrun
      obtain ⟨th₁, e, r, k, w, m, hadv⟩ := stepOp_cases hstep
      have hin := hadv.in_trace hrun hv
      have hbefore : ∀ ev ∈ th₁.trace, ev.1.changes = false := fun ev hev =>
        hall ev (hin.mem (List.mem_cons_of_mem _ hev))
      have hempty : (th₁.mem.sess.map (·.writes)).getD [] = [] := by
        have hsess : th₁.mem.entries.getD [] = [] := by
          rw [((reachable_ok hs).threads t th₁ hadv.live).sess]
          exact facts_unwritten hbefore
        cases hσ : th₁.mem.sess with
        | none => rfl
        | some σ => simpa [Memory.entries, hσ] using hsess
      have hout := perform_reads hadv.done (hall ⟨e, r⟩ (hin.mem List.mem_cons_self)) hempty
      rw [hadv.world]
      exact hout
  | delayed => exact absurd rfl hne
  | error msg => exact absurd rfl hne
  | infra => exact absurd rfl hne

/-- A retry of a delivery that is not in DLQ: a transaction that commits nothing. -/
theorem refused_harmless_pending : ∃ v th, Reachable sampleEnv (fun _ _ => True) v ∧
    v.live? 1 = some th ∧ th.refusal? = some { statusCode := 409, code := "NOT_IN_DLQ" } ∧
      ∀ s c s', Reachable sampleEnv (fun _ _ => True) s → step sampleEnv s (.op 1 c) = some s' →
        Reach (step sampleEnv) (fun _ _ => True) s' v → s'.outside = s.outside := by
  obtain ⟨v, hreach, hv⟩ := sample_run (C := fun _ _ => True)
    (sampleIngest ++ .request (.postRetry 2) :: calls 1 4)
    (fun s => (s.live? 1).any fun th : Thread => th.kind.request &&
      decide (th.refusal? = some { statusCode := 409, code := "NOT_IN_DLQ" })) (by decide +kernel)
  obtain ⟨th, ht, hth⟩ := (Option.any_eq_true _ _).mp hv
  obtain ⟨hk, ha⟩ := Bool.and_eq_true_iff.mp hth
  have ha : th.refusal? = some { statusCode := 409, code := "NOT_IN_DLQ" } := of_decide_eq_true ha
  exact ⟨v, th, hreach, ht, ha, (refused_harmless hreach ht hk ha (by decide)).2.2⟩

end WebhookEngine
