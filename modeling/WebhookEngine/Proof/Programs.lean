import WebhookEngine.Proof.Discipline

set_option autoImplicit false

/-!
# Every program keeps to its discipline

* `Neutral`: the calls that change no facts; the breaker, the bucket and the clocks make no others.
* `safe_pickup`, `safe_attemptDelivery`, `safe_cleanup`, **`safe_processDelivery`**: the processor.
* `safe_handleFailed`, `safe_postEvent`, `safe_postRetry`: the other executions.
* **`safe_program`**: every program of the system makes permitted calls only.
-/

namespace WebhookEngine

open EffectProg

variable {env : Env} {t : Tid} {k : Kind} {m : Facts}

/-! ## Calls that change no facts -/

/-- Calls that every discipline permits and that leave the facts as they are. -/
def Neutral : Eff → Prop
  | .redis (.setLock _ _ _) => False
  | .redis (.evalReleaseLock _ _) => False
  | .redis _ => True
  | .setInterval => True
  | .clearInterval => True
  | .dateNow => True
  | .mathRandom => True
  | .isOverloaded => True
  | _ => False

theorem Neutral.permits {e : Eff} (h : Neutral e) :
    (discipline t k).permits m e ∧ ∀ r, (discipline t k).next m e r = m := by
  cases e with
  | redis c => cases c <;> first | exact h.elim | exact ⟨trivial, fun _ => rfl⟩
  | setInterval => exact ⟨trivial, fun _ => rfl⟩
  | clearInterval => exact ⟨trivial, fun _ => rfl⟩
  | dateNow => exact ⟨trivial, fun _ => rfl⟩
  | mathRandom => exact ⟨trivial, fun _ => rfl⟩
  | isOverloaded => exact ⟨trivial, fun _ => rfl⟩
  | _ => exact h.elim

theorem safe_neutral {α : Type} {p : Code α} {Q : Facts → Except Err α → Prop}
    (hp : p.Uses Neutral) (hQ : ∀ r, Q m r) : Prog.Safe (discipline t k) m p Q :=
  hp.safe (fun _ h => h.permits) hQ

/-! ## Programs by the calls they use -/

section Uses

variable {S : Eff → Prop}

theorem uses_await {e : Eff} {α : Type} {answer : e.Resp → Except Err α} (h : S e) :
    (await e answer).Uses S :=
  ⟨h, fun r => Prog.uses_ofExcept (answer r)⟩

theorem uses_call {e : Eff} (h : S e) : (call e).Uses S := ⟨h, fun _ => trivial⟩

theorem uses_sql {q : Sql} (h : S (.sql q)) : (sql q).Uses S := uses_await h

theorem uses_redis {c : RedisCmd} (h : S (.redis c)) : (redis c).Uses S := uses_await h

theorem uses_withTx {α : Type} {fn : Code α} (hconnect : S (.sql .connect))
    (hbegin : S (.sql .begin)) (hcommit : S (.sql .commit)) (hrollback : S (.sql .rollback))
    (h : fn.Uses S) : (withTx fn).Uses S := by
  refine (uses_sql hconnect).bind fun _ => Prog.Uses.tryCatch ?_ fun err => ?_
  · exact (uses_sql hbegin).bind fun _ => h.bind fun _ => (uses_sql hcommit).bind fun _ => trivial
  · exact (uses_sql hrollback).bind fun _ => trivial

end Uses

/-! ## Neutral programs -/

theorem uses_recordFailure (ep : EndpointId) : (recordFailure env ep).Uses Neutral := by
  refine (uses_redis (by trivial)).bind fun fails => (uses_redis (by trivial)).bind fun _ => ?_
  split
  · exact (uses_redis (by trivial)).bind fun _ => trivial
  · trivial

theorem uses_checkState (ep : EndpointId) : (checkState env ep).Uses Neutral := by
  refine (uses_redis (by trivial)).bind fun isOpen => ?_
  split
  · trivial
  · refine (uses_redis (by trivial)).bind fun fails => ?_
    split
    · exact (uses_redis (by trivial)).bind fun _ => trivial
    · trivial

theorem uses_onProbeResult (ep : EndpointId) (ok : Bool) :
    (onProbeResult env ep ok).Uses Neutral := by
  unfold onProbeResult
  split
  · exact (uses_redis (by trivial)).bind fun _ => trivial
  · exact (uses_redis (by trivial)).bind fun _ => (uses_redis (by trivial)).bind fun _ => trivial

theorem uses_tryAcquire (ep : EndpointId) : (tryAcquire env ep).Uses Neutral :=
  (uses_redis (by trivial)).bind fun _ => trivial

theorem uses_releaseBucketToken (ep : EndpointId) :
    (releaseBucketToken env ep).Uses Neutral := by
  refine (uses_redis (by trivial)).bind fun current => ?_
  split
  · exact (uses_redis (by trivial)).bind fun _ => (uses_redis (by trivial)).bind fun _ => trivial
  · exact (uses_redis (by trivial)).bind fun _ => trivial

theorem uses_noteOutcome (p : Pickup) (o : AttemptOutcome) :
    (noteOutcome env p o).Uses Neutral := by
  unfold noteOutcome
  split
  · exact uses_onProbeResult _ _
  · split
    · exact uses_recordFailure _
    · trivial

/-! ## The processor -/

theorem not_claims_deliver (job : JobRef) : ¬ (Kind.deliver job).claims := by
  rintro (h | ⟨_, h⟩) <;> cases h

theorem not_claims_failed (job : JobRef) : ¬ (Kind.failed job).claims := by
  rintro (h | ⟨_, h⟩) <;> cases h

/-- The lock is held and nothing was done under it. -/
structure Facts.Fresh (m : Facts) : Prop where
  holds : m.holds = true
  row : m.row = none
  tx : m.tx = none
  seen : m.seen = none
  added : m.added = []
  moved : m.moved = false
  spent : m.spent = false
  sent : m.sent = none
  reply : m.reply = none
  lost : m.lost = none

/-- The body up to the bucket step: it hands over an undelivered row, or ends outside a
transaction. -/
theorem safe_pickup {job : JobRef} (h : m.Fresh) {Q : Facts → Except Err (Option Pickup) → Prop}
    (hsome : ∀ p : Pickup, p.delivery.status.terminal = false →
      Q { m with row := some p.delivery } (.ok (some p)))
    (hnone : ∀ m', m'.tx = none → Q m' (.ok none))
    (herr : ∀ m' y, m'.tx = none → Q m' (.error y)) :
    Prog.Safe (discipline t (.deliver job)) m (pickup env job) Q := by
  refine Prog.safe_bind.mpr (safe_sql.mpr ⟨⟨h.tx, h.moved, h.spent, h.row,
    Or.inl ⟨job, rfl, rfl, h.holds⟩⟩, fun r _ => ?_⟩)
  match r with
  | .error y => exact herr _ y h.tx
  | .ok none => exact hnone _ h.tx
  | .ok (some r) =>
    have hdelay : ∀ u, Prog.Safe (discipline t (.deliver job)) { m with row := some r }
        ((moveToDelayed job.id u).bind fun _ => Prog.raise .delayed) Q := by
      intro u
      refine Prog.safe_bind.mpr (safe_moveToDelayed.mpr ⟨⟨job, rfl, rfl⟩, fun y => ?_⟩)
      cases y <;> exact herr _ _ h.tx
    change Prog.Safe _ _ (if r.status = .delivered ∨ r.status = .dlq then _ else _) _
    split
    · exact hnone _ h.tx
    rename_i hst
    have hopen : r.status.terminal = false := by
      revert hst
      cases r.status <;> simp [Status.terminal]
    have hw : ∀ tx, ({ m with row := some r, tx := tx } : Facts).Working r := by
      intro tx
      refine ⟨?_, rfl, hopen, ?_⟩
      exacts [h.holds, h.spent]
    split
    · exact Prog.safe_bind.mpr (safe_dateNow.mpr fun now => hdelay _)
    refine Prog.safe_bind.mpr (safe_neutral (uses_checkState _) fun b => ?_)
    cases b with
    | error y => exact herr _ y h.tx
    | ok b =>
      dsimp only
      split
      · refine Prog.safe_bind.mpr (safe_dateNow.mpr fun now => ?_)
        refine Prog.safe_bind.mpr (safe_dateNow.mpr fun later => ?_)
        refine Prog.safe_bind.mpr (safe_mathRandom.mpr fun n => ?_)
        refine Prog.safe_bind.mpr (safe_recordAttempt ⟨h.tx, h.seen, h.added⟩ (fun tx => ?_)
          (not_claims_deliver job) (herr _ _ h.tx) (fun y => herr _ y h.tx)
          fun y => herr _ y h.tx)
        exact .circuit (hw tx) h.moved rfl rfl rfl
      · refine Prog.safe_bind.mpr (safe_neutral (uses_tryAcquire _) fun got => ?_)
        cases got with
        | error y => exact herr _ y h.tx
        | ok got =>
          dsimp only
          split
          · exact hsome ⟨r, b⟩ hopen
          · exact Prog.safe_bind.mpr (safe_mathRandom.mpr fun n =>
              Prog.safe_bind.mpr (safe_dateNow.mpr fun now => hdelay _))

theorem examine_success {lockLost : Bool} {r : Except Thrown DeliverResult}
    (h : (examine env lockLost r).outcome = .success) :
    lockLost = false ∧ ∃ res, r = .ok res ∧ 200 ≤ res.status ∧ res.status < 300 := by
  unfold examine at h
  cases lockLost with
  | true =>
    split at h <;> simp [lockLostFinding] at h
  | false =>
    refine ⟨rfl, ?_⟩
    match r with
    | .ok res =>
      refine ⟨res, rfl, ?_⟩
      by_contra hc
      simp [hc] at h
    | .error (.deliverError .timeout message) => simp at h
    | .error (.deliverError .connError message) => simp at h
    | .error (.other message) => simp at h

/-- **The HTTP step**: after it the facts say what was sent and what came back. -/
theorem safe_deliver {job : JobRef} {r : DeliveryForWorker} {req : HttpRequest} (hw : m.Working r)
    (hm : m.moved = true) (hs : m.sent = none) (hr : m.reply = none) (hreq : req.isFor job.deliveryId)
    {Q : Facts → Except Err (Except Thrown DeliverResult) → Prop}
    (hQ : ∀ reply res, (∀ x, res = .ok x → ∃ text, reply = HttpReply.response x.status text) →
      Q { m with sent := some req, reply := some reply } (.ok res)) :
    Prog.Safe (discipline t (.deliver job)) m (deliver env req) Q := by
  refine Prog.safe_bind.mpr (safe_dateNow.mpr fun startedAt => ?_)
  refine Prog.safe_bind.mpr (safe_call.mpr ⟨⟨job, r, rfl, hw, hm, hs, hreq⟩, fun _ _ => ?_⟩)
  refine Prog.safe_bind.mpr (safe_call.mpr ⟨⟨rfl, hr⟩, fun reply _ => ?_⟩)
  cases reply with
  | response status text =>
    refine Prog.safe_bind.mpr (safe_dateNow.mpr fun finishedAt => hQ _ _ fun x hx => ?_)
    cases hx
    exact ⟨text, rfl⟩
  | thrown e => exact hQ _ _ (by simp)

theorem safe_withLockHeartbeat {α : Type} {fn : Code α} {Q : Facts → Except Err α → Prop}
    (h : Prog.Safe (discipline t k) m fn Q) :
    Prog.Safe (discipline t k) m (withLockHeartbeat fn) Q := by
  refine Prog.safe_bind.mpr (safe_call.mpr ⟨trivial, fun _ _ => ?_⟩)
  refine Prog.safe_andFinally.mpr (h.mono fun m' r hr => ?_)
  exact Prog.safe_bind.mpr (safe_call.mpr ⟨trivial, fun _ _ => hr⟩)

theorem isFor_headers (job : JobRef) (url body : String) (n ts : ℕ) (sig : String) :
    (HttpRequest.mk url body (buildWebhookHeaders job.text n ts sig)).isFor job.deliveryId :=
  ⟨job.id.spelling, by simp [buildWebhookHeaders, JobRef.text]⟩

theorem safe_attemptDelivery {job : JobRef} {p : Pickup} (h : m.Fresh)
    (hp : p.delivery.status.terminal = false) {Q : Facts → Except Err Unit → Prop}
    (hQ : ∀ m' r, m'.tx = none → Q m' r) :
    Prog.Safe (discipline t (.deliver job)) { m with row := some p.delivery }
      (attemptDelivery env job p) Q := by
  refine Prog.safe_bind.mpr (safe_transition ⟨h.tx, h.seen, h.added⟩ (fun tx => ?_) (not_claims_deliver job)
    ?_ (fun y => hQ _ _ h.tx) fun y => hQ _ _ h.tx)
  · refine .mark (r := p.delivery) ?_ ?_
    exacts [⟨h.holds, rfl, hp, h.spent⟩, h.moved]
  refine Prog.safe_bind.mpr (safe_dateNow.mpr fun nowMs => ?_)
  refine Prog.safe_bind.mpr (safe_dateNow.mpr fun startedAt => ?_)
  have hw : ({ m with row := some p.delivery, moved := true } : Facts).Working p.delivery :=
    ⟨h.holds, rfl, hp, h.spent⟩
  refine Prog.safe_bind.mpr (safe_withLockHeartbeat (safe_deliver hw rfl h.sent h.reply ?_
    fun reply res hres => ?_))
  · exact isFor_headers ..
  refine Prog.safe_bind.mpr (safe_dateNow.mpr fun finishedAt => ?_)
  refine Prog.safe_bind.mpr (safe_call.mpr ⟨⟨rfl, h.lost⟩, fun lost _ => ?_⟩)
  refine Prog.safe_bind.mpr (safe_neutral (uses_noteOutcome _ _) fun u => ?_)
  cases u with
  | error y => exact hQ _ _ h.tx
  | ok _ =>
    refine Prog.safe_bind.mpr (safe_dateNow.mpr fun now => ?_)
    refine Prog.safe_bind.mpr (safe_mathRandom.mpr fun n => ?_)
    refine Prog.safe_bind.mpr (safe_recordAttempt ⟨h.tx, h.seen, h.added⟩ (fun tx => ?_)
      (not_claims_deliver job) ?_ (fun y => hQ _ _ h.tx) fun y => hQ _ _ h.tx)
    · refine .outcome (r := p.delivery) ?_ rfl rfl ?_ ?_ ?_
      · exact ⟨h.holds, rfl, hp, h.spent⟩
      · rfl
      · intro ho
        obtain ⟨hl, x, hx, hlo, hhi⟩ := examine_success ho
        obtain ⟨text, htext⟩ := hres x hx
        refine ⟨⟨_, rfl, ?_⟩, ⟨x.status, text, congrArg some htext, hlo, hhi⟩, congrArg some hl⟩
        exact isFor_headers ..
      · intro ho
        exact congrArg Option.isSome (if_neg ho)
    · dsimp only
      split <;> exact hQ _ _ h.tx

theorem safe_cleanup {job : JobRef} {held : Option EndpointId} (h0 : m.tx = none)
    {Q : Facts → Except Err Unit → Prop} (hQ : ∀ m' r, m'.tx = none → Q m' r) :
    Prog.Safe (discipline t (.deliver job)) m (cleanup env job t held) Q := by
  refine Prog.safe_bind.mpr (safe_neutral ?_ fun u => ?_)
  · cases held with
    | none => trivial
    | some ep => exact uses_releaseBucketToken ep
  cases u with
  | error y => exact hQ _ _ h0
  | ok _ =>
    refine Prog.safe_bind.mpr (safe_redis.mpr ⟨⟨job, rfl, rfl, rfl, h0⟩, fun r => ?_⟩)
    cases r <;> exact hQ _ _ h0

/-- **The rule of `processDelivery`.** -/
theorem safe_processDelivery {job : JobRef} {Q : Facts → Except Err Unit → Prop}
    (hQ : ∀ m' r, Q m' r) :
    Prog.Safe (discipline t (.deliver job)) {} (processDelivery env job t) Q := by
  refine Prog.safe_bind.mpr (safe_redis.mpr
    ⟨⟨job, rfl, rfl, rfl, rfl, rfl, rfl, rfl⟩, fun acquired => ?_⟩)
  match acquired with
  | .error y => exact hQ _ _
  | .ok false =>
    refine Prog.safe_bind.mpr (safe_dateNow.mpr fun now => ?_)
    refine Prog.safe_bind.mpr (safe_moveToDelayed.mpr ⟨⟨job, rfl, rfl⟩, fun r => ?_⟩)
    cases r <;> exact hQ _ _
  | .ok true =>
    have hf : ({ holds := true } : Facts).Fresh :=
      ⟨rfl, rfl, rfl, rfl, rfl, rfl, rfl, rfl, rfl, rfl⟩
    refine Prog.safe_bind.mpr (Prog.safe_tryCatch.mpr (safe_pickup hf ?_ ?_ ?_))
    · intro p hp
      exact Prog.safe_andFinally.mpr (safe_attemptDelivery hf hp fun m' r h0 =>
        safe_cleanup h0 fun m'' r' _ => by cases r' <;> exact hQ _ _)
    · intro m' h0
      exact safe_cleanup h0 fun m'' r _ => hQ _ _
    · intro m' y h0
      refine Prog.safe_bind.mpr (safe_cleanup h0 fun m'' r _ => ?_)
      cases r <;> exact hQ _ _

/-! ## The other executions -/

/-- **The rule of `handleFailed`.** -/
theorem safe_handleFailed {job : JobRef} {Q : Facts → Except Err Unit → Prop}
    (hQ : ∀ m' r, Q m' r) :
    Prog.Safe (discipline t (.failed job)) {} (handleFailed env job) Q := by
  unfold handleFailed
  split
  · exact hQ _ _
  refine Prog.safe_tryCatch.mpr (Prog.Safe.mono (Q := fun _ _ => True) ?_ fun m' r _ => ?_)
  · refine Prog.safe_bind.mpr (safe_sql.mpr ⟨⟨rfl, rfl, rfl, rfl, Or.inr ⟨job, rfl, rfl⟩⟩,
      fun r _ => ?_⟩)
    match r with
    | .error y => trivial
    | .ok none => trivial
    | .ok (some r) =>
      change Prog.Safe _ _ (if r.status = .dlq then _ else _) _
      split
      · trivial
      rename_i hs
      refine Prog.safe_bind.mpr (safe_transition ⟨rfl, rfl, rfl⟩
        (fun tx => .exhaust (r := r) rfl hs rfl rfl) (not_claims_failed job) ?_
        (fun _ => trivial) fun _ => trivial)
      refine Prog.safe_bind.mpr (safe_dlqAdd.mpr ⟨⟨job, rfl, rfl, rfl⟩, fun r => ?_⟩)
      cases r with
      | error _ => trivial
      | ok _ =>
        refine Prog.safe_bind.mpr (safe_sql.mpr ⟨trivial, fun r _ => ?_⟩)
        cases r with
        | error _ => trivial
        | ok last => exact Prog.safe_bind.mpr (safe_call.mpr ⟨trivial, fun _ _ => trivial⟩)
  · cases r <;> exact hQ _ _

/-- **The rule of `POST /v1/events`.** -/
theorem safe_postEvent {req : EventRequest} {Q : Facts → Except Err IngestResult → Prop}
    (hQ : ∀ m' r, Q m' r) :
    Prog.Safe (discipline t (.postEvent req)) {} (postEvent env req) Q := by
  refine Prog.safe_bind.mpr (safe_neutral (uses_await trivial) fun o => ?_)
  cases o with
  | error y => exact hQ _ _
  | ok overloaded =>
    dsimp only
    iterate 6
      split
      · exact hQ _ _
    refine Prog.safe_bind.mpr (Prog.safe_tryCatch.mpr (safe_sql.mpr ⟨trivial, fun r _ => ?_⟩))
    match r with
    | .error y => exact hQ _ _
    | .ok none => exact hQ _ _
    | .ok (some endpoint) =>
      change Prog.Safe _ _ (if ¬ endpoint.isActive then _ else _) _
      split
      · exact hQ _ _
      refine Prog.safe_bind.mpr (safe_ingestEvent (Or.inl ⟨req, rfl⟩) ⟨rfl, rfl, rfl⟩
        (fun named r => ?_) fun m' y => hQ _ _)
      dsimp only
      split
      · refine Prog.safe_bind.mpr (Prog.safe_tryCatch.mpr
          (safe_enqueueDelivery (Or.inl ⟨req, rfl⟩) rfl fun m' r => ?_))
        cases r <;> exact hQ _ _
      · exact hQ _ _

/-- **The rule of `POST /v1/dlq/:deliveryId/retry`.** -/
theorem safe_postRetry {d : IdText} {Q : Facts → Except Err JobId → Prop}
    (hQ : ∀ m' r, Q m' r) : Prog.Safe (discipline t (.postRetry d)) {} (postRetry d) Q := by
  refine Prog.safe_bind.mpr (safe_retryFromDlq (Or.inl ⟨d.spelling, rfl⟩) ⟨rfl, rfl, rfl⟩ rfl rfl ?_ ?_
    fun _ _ => hQ _ _)
  · refine Prog.safe_bind.mpr (safe_dateNow.mpr fun ms => ?_)
    refine Prog.safe_bind.mpr (safe_queueAdd.mpr
      ⟨Or.inr ⟨d.spelling, rfl, rfl, rfl, rfl, ms, rfl⟩, fun r => ?_⟩)
    cases r <;> exact hQ _ _
  · intro st r hr
    cases r with
    | ok => exact absurd rfl hr
    | notFound => exact hQ _ _
    | notInDlq st => exact hQ _ _

/-- **Every program of the system makes permitted calls only.** -/
theorem safe_program (env : Env) (t : Tid) (k : Kind) :
    Prog.Safe (discipline t k) {} (program env t k) fun _ _ => True := by
  match k with
  | .deliver job => exact Prog.safe_bind.mpr (safe_processDelivery fun m' r => by cases r <;> trivial)
  | .failed job => exact Prog.safe_bind.mpr (safe_handleFailed fun m' r => by cases r <;> trivial)
  | .postEvent req => exact Prog.safe_bind.mpr (safe_postEvent fun m' r => by cases r <;> trivial)
  | .postRetry d => exact Prog.safe_bind.mpr (safe_postRetry fun m' r => by cases r <;> trivial)
  | .sweep =>
    exact Prog.safe_bind.mpr (safe_claimUnenqueued (Or.inl rfl) ⟨rfl, rfl, rfl⟩
      fun m' r => by cases r <;> trivial)
  | .repoCall (.transition d f g a r) =>
    refine Prog.safe_bind.mpr (safe_transition ⟨rfl, rfl, rfl⟩ (fun tx => .call) ?_
      trivial (fun _ => trivial) fun _ => trivial)
    rintro (h | ⟨_, h⟩) <;> cases h
  | .repoCall (.recordAttempt input) =>
    refine Prog.safe_bind.mpr (safe_recordAttempt ⟨rfl, rfl, rfl⟩ (fun tx => .call) ?_ trivial
      (fun _ => trivial) fun _ => trivial)
    rintro (h | ⟨_, h⟩) <;> cases h
  | .repoCall (.retryFromDlq d) =>
    exact Prog.safe_bind.mpr (safe_retryFromDlq (Or.inr rfl) ⟨rfl, rfl, rfl⟩ rfl rfl trivial
      (fun _ _ _ => trivial) fun _ _ => trivial)
  | .repoCall (.enqueueDelivery d) =>
    exact Prog.safe_bind.mpr (safe_enqueueDelivery (Or.inr ⟨_, rfl⟩) rfl fun m' r => by cases r <;> trivial)
  | .repoCall (.claimUnenqueued limit) =>
    exact Prog.safe_bind.mpr
      (safe_claimUnenqueued (Or.inr ⟨limit, rfl⟩) ⟨rfl, rfl, rfl⟩ fun m' r => by cases r <;> trivial)
  | .repoCall (.ingestEvent p) =>
    exact Prog.safe_bind.mpr (safe_ingestEvent (Or.inr ⟨p, rfl⟩) ⟨rfl, rfl, rfl⟩
      (fun _ _ => trivial) fun _ _ => trivial)

end WebhookEngine
