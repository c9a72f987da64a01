import WebhookEngine.Proof.Integrity
import WebhookEngine.Proof.Plain

set_option autoImplicit false

/-!
# Bystanders

Many deliveries and endpoints share one database and one Redis. What an execution works on leaves the
others alone.

* `RedisCmd.endpoint?`, `Redis.Spares`: whose keys a command is about; the other keys stay.
* `Kind.subject`, `Change.subject`: whose row an execution may change.
* `safe_serving`: a processor gives commands only for the endpoint it has read.
* `State.Concerns`: the steps that are about a delivery or an endpoint; `step_spares`: the others leave
  both alone.
* **`bystanders_spared`**: so does a whole run of them.
-/

namespace WebhookEngine

open EffectProg TransitionSystem

variable {env : Env} {C : State → Label → Prop} {s s' : State} {l : Label} {t u : Tid} {th th' : Thread}
  {d : DeliveryId} {ep : EndpointId}

/-! ## Keys -/

/-- The endpoint whose keys the command is about. -/
def RedisCmd.endpoint? : RedisCmd → Option EndpointId
  | .existsOpen ep | .getFails ep | .setProbe ep _ | .incrFails ep | .expireFails ep _ | .setOpen ep _
  | .delFailsProbe ep | .delProbe ep | .evalTokenBucket ep _ _ | .hincrbyTokens ep | .hsetTokens ep _
  | .expireTokens ep _ => some ep
  | .setLock _ _ _ | .evalReleaseLock _ _ | .getIdem _ => none

/-- The delivery whose lock the command is about. -/
def RedisCmd.lock? : RedisCmd → Option DeliveryId
  | .setLock x _ _ | .evalReleaseLock x _ => some x.id
  | _ => none

/-- The locks of the delivery, under every text of its id, and the breaker, the probe and the bucket of
the endpoint are the same. -/
structure Redis.Spares (r r' : Redis) (d : DeliveryId) (ep : EndpointId) : Prop where
  lock : ∀ n, r'.lock ⟨d, n⟩ = r.lock ⟨d, n⟩
  fails : r'.fails ep = r.fails ep
  opened : r'.opened ep = r.opened ep
  probe : r'.probe ep = r.probe ep
  bucket : r'.bucket ep = r.bucket ep

theorem Redis.Spares.refl (r : Redis) : r.Spares r d ep := ⟨fun _ => rfl, rfl, rfl, rfl, rfl⟩

theorem Redis.Spares.trans {r r' r'' : Redis} (h : r.Spares r' d ep) (h' : r'.Spares r'' d ep) :
    r.Spares r'' d ep :=
  ⟨fun n => (h'.lock n).trans (h.lock n), h'.fails.trans h.fails, h'.opened.trans h.opened,
    h'.probe.trans h.probe, h'.bucket.trans h.bucket⟩

/-- **A command is about its keys only.** -/
theorem RedisCmd.exec_spares {c : RedisCmd} (now : Time) (r : Redis) (hd : c.lock? ≠ some d)
    (hep : c.endpoint? ≠ some ep) : r.Spares (c.exec now r).1 d ep := by
  have hne : ∀ {x : EndpointId}, some x ≠ some ep → ep ≠ x := fun h he => h (by rw [he])
  have hnd : ∀ {x : IdText}, some x.id ≠ some d → ∀ n, (⟨d, n⟩ : IdText) ≠ x := by
    rintro x h n rfl
    exact h rfl
  cases c with
  | setLock x token ttl =>
    simp only [RedisCmd.exec]
    split
    · exact ⟨fun n => Function.update_of_ne (hnd hd n) _ _, rfl, rfl, rfl, rfl⟩
    · exact .refl r
  | evalReleaseLock x token =>
    simp only [RedisCmd.exec]
    split
    · exact ⟨fun n => Function.update_of_ne (hnd hd n) _ _, rfl, rfl, rfl, rfl⟩
    · exact .refl r
  | existsOpen x | getFails x | getIdem x => exact .refl r
  | setProbe x ttl =>
    simp only [RedisCmd.exec]
    split
    · exact .refl r
    · exact ⟨fun _ => rfl, rfl, rfl, Function.update_of_ne (hne hep) _ _, rfl⟩
  | incrFails x | expireFails x ttl =>
    exact ⟨fun _ => rfl, Function.update_of_ne (hne hep) _ _, rfl, rfl, rfl⟩
  | setOpen x ttl => exact ⟨fun _ => rfl, rfl, Function.update_of_ne (hne hep) _ _, rfl, rfl⟩
  | delFailsProbe x =>
    exact ⟨fun _ => rfl, Function.update_of_ne (hne hep) _ _, rfl, Function.update_of_ne (hne hep) _ _,
      rfl⟩
  | delProbe x => exact ⟨fun _ => rfl, rfl, rfl, Function.update_of_ne (hne hep) _ _, rfl⟩
  | evalTokenBucket x maxTokens ttl =>
    simp only [RedisCmd.exec]
    split
    · exact .refl r
    · exact ⟨fun _ => rfl, rfl, rfl, rfl, Function.update_of_ne (hne hep) _ _⟩
  | hincrbyTokens x | hsetTokens x n | expireTokens x ttl =>
    exact ⟨fun _ => rfl, rfl, rfl, rfl, Function.update_of_ne (hne hep) _ _⟩

/-- The key is the delivery's or the endpoint's. -/
def RedisKey.isOf (d : DeliveryId) (ep : EndpointId) : RedisKey → Prop
  | .lock x => x.id = d
  | .fails x | .opened x | .probe x | .bucket x => x = ep
  | .idem _ => False

theorem Redis.evict_spares (r : Redis) {key : RedisKey} (h : ¬ key.isOf d ep) :
    r.Spares (r.evict key) d ep := by
  cases key with
  | lock x =>
    refine ⟨fun n => Function.update_of_ne ?_ _ _, rfl, rfl, rfl, rfl⟩
    rintro rfl
    exact h rfl
  | fails x => exact ⟨fun _ => rfl, Function.update_of_ne (Ne.symm h) _ _, rfl, rfl, rfl⟩
  | opened x => exact ⟨fun _ => rfl, rfl, Function.update_of_ne (Ne.symm h) _ _, rfl, rfl⟩
  | probe x => exact ⟨fun _ => rfl, rfl, rfl, Function.update_of_ne (Ne.symm h) _ _, rfl⟩
  | bucket x => exact ⟨fun _ => rfl, rfl, rfl, rfl, Function.update_of_ne (Ne.symm h) _ _⟩
  | idem key => exact ⟨fun _ => rfl, rfl, rfl, rfl, rfl⟩

/-! ## Rows -/

/-- The delivery an execution is about. -/
def Kind.subject : Kind → Option DeliveryId
  | .deliver job => some job.deliveryId
  | .failed job => some job.deliveryId
  | .postRetry d => some d.id
  | .repoCall (.transition d _ _ _ _) => some d
  | .repoCall (.recordAttempt input) => some input.deliveryId
  | .repoCall (.retryFromDlq d) => some d
  | _ => none

theorem Kind.retries.subject {k : Kind} (h : k.retries d) : k.subject = some d := by
  rcases h with ⟨n, rfl⟩ | rfl <;> rfl

/-- **An execution changes the delivery it is about.** -/
theorem Change.subject {k : Kind} {m : Facts} {D : Dossier} {o : Option Dossier}
    (h : Change k m d (some D) o) : k.subject = some d := by
  cases h with
  | moved h =>
    cases h with
    | mark | exhaust | call => rfl
    | retry hk => exact hk.subject
  | recorded h ha =>
    subst ha
    cases h with
    | circuit h hm hd => rw [hd]; rfl
    | outcome h hm hd => rw [hd]; rfl
    | call => rfl

/-- The dossier of a delivery, up to the two marks of the queue, `enqueued` and `updated_at`. -/
def Db.unmarked (db : Db) (d : DeliveryId) : Option Dossier := (db.dossier? d).map (·.touched 0)

theorem story_unmarked (hs : s.Ok) (h : step env s l = some s') (hd : (s.pg.db.delivery? d).isSome)
    (hl : ∀ t c th, l = .op t c → s.live? t = some th → th.kind.subject ≠ some d) :
    s'.pg.db.unmarked d = s.pg.db.unmarked d := by
  unfold Db.unmarked
  rcases story hs h d with h | ⟨D, τ, hD, h⟩ | ⟨t, c, th, r, k, w, m, hop, hadv, hc⟩
  · rw [h]
  · rw [h, hD]
    rfl
  · obtain ⟨row, hrow⟩ := Option.isSome_iff_exists.mp hd
    have hD : s.pg.db.dossier? d = some ⟨row, s.pg.db.log d, s.pg.db.attemptsOf d⟩ := by
      simp [Db.dossier?, hrow]
    rw [hD] at hc
    exact absurd hc.subject (hl t c th hop hadv.live)

/-! ## Programs -/

/-- Calls that are about no endpoint and do not read the row of a processor. -/
def Bare : Eff → Prop
  | .redis c => c.endpoint? = none
  | .sql (.selectForDelivery _) => False
  | _ => True

/-- Calls that are about no endpoint. -/
def Homeless : Eff → Prop
  | .redis c => c.endpoint? = none
  | _ => True

/-- Calls that are about one endpoint at most. -/
def Serving (ep : EndpointId) : Eff → Prop
  | .redis c => ∀ x, c.endpoint? = some x → x = ep
  | .sql (.selectForDelivery _) => False
  | _ => True

theorem Bare.homeless {e : Eff} (h : Bare e) : Homeless e := by
  cases e with
  | redis c => exact h
  | _ => trivial

theorem Bare.serving {e : Eff} (h : Bare e) : Serving ep e := by
  cases e with
  | redis c =>
    intro x hx
    have h : c.endpoint? = none := h
    rw [h] at hx
    cases hx
  | sql q => cases q <;> first | exact h.elim | trivial
  | _ => trivial

section Programs

variable {α : Type}

theorem bare_withTx {fn : Code α} (h : fn.Uses Bare) : (withTx fn).Uses Bare :=
  uses_withTx trivial trivial trivial trivial h

theorem bare_transition (d : DeliveryId) (f g : Status) (a : Actor) (reason : String) :
    (transition d f g a reason).Uses Bare :=
  bare_withTx ((uses_sql trivial).bind fun _ => (uses_sql trivial).bind fun _ => trivial)

theorem bare_recordAttempt (input : RecordAttemptInput) : (recordAttempt input).Uses Bare :=
  bare_withTx ((uses_sql trivial).bind fun _ => (uses_sql trivial).bind fun _ =>
    (uses_sql trivial).bind fun _ => trivial)

theorem bare_claimEach (ds : List DeliveryId) : (claimEach ds).Uses Bare := by
  induction ds with
  | nil => trivial
  | cons d ds ih => exact (uses_await trivial).bind fun _ => (uses_sql trivial).bind fun _ => ih

theorem bare_claimUnenqueued (limit : ℕ) : (claimUnenqueued env limit).Uses Bare :=
  bare_withTx ((uses_sql trivial).bind fun rows => (bare_claimEach rows).bind fun _ => trivial)

theorem bare_retryFromDlq (d : DeliveryId) : (retryFromDlq d).Uses Bare := by
  refine bare_withTx ((uses_sql trivial).bind fun row => ?_)
  match row with
  | none => trivial
  | some st =>
    change Prog.Uses _ (if st ≠ .dlq then _ else _)
    split
    · trivial
    · exact (uses_sql trivial).bind fun _ => (uses_sql trivial).bind fun _ => trivial

theorem bare_enqueueDelivery (d : DeliveryId) : (enqueueDelivery d).Uses Bare :=
  (uses_await trivial).bind fun _ => (uses_sql trivial).bind fun _ => trivial

theorem bare_ingestTx (p : IngestParams) : (ingestTx p).Uses Bare := by
  have hend : ∀ r : IngestResult, ((sql .commit).bind fun _ =>
      (call (.sendIdem (idemRedisKey p.clientId p.idempotencyKey) r.eventId)).bind fun _ =>
        (Prog.ret r : Code IngestResult)).Uses Bare := fun r =>
    (uses_sql trivial).bind fun _ => (uses_call trivial).bind fun _ => trivial
  refine (uses_sql trivial).bind fun _ => Prog.Uses.tryCatch ?_ fun err =>
    (uses_sql trivial).bind fun _ => trivial
  refine (uses_sql trivial).bind fun _ => (uses_sql trivial).bind fun inserted => ?_
  match inserted with
  | some ev =>
    refine (uses_sql trivial).bind fun d => ?_
    match d with
    | some d => exact (uses_sql trivial).bind fun _ => hend ⟨ev, d, .pending, true⟩
    | none => trivial
  | none =>
    refine (uses_sql trivial).bind fun existing => ?_
    match existing with
    | some ev =>
      refine (uses_sql trivial).bind fun d => ?_
      match d with
      | some d => exact hend ⟨ev, d.1, d.2, false⟩
      | none => trivial
    | none => trivial

theorem bare_ingestEvent (p : IngestParams) : (ingestEvent p).Uses Bare := by
  refine (uses_redis (by exact rfl)).bind fun cached => ?_
  match cached with
  | none => exact bare_ingestTx p
  | some ev =>
    refine (uses_sql trivial).bind fun d => ?_
    match d with
    | some d => trivial
    | none => exact bare_ingestTx p

theorem bare_postEvent (req : EventRequest) : (postEvent env req).Uses Bare := by
  refine (uses_await trivial).bind fun overloaded => ?_
  dsimp only
  iterate 6
    split
    · trivial
  refine ((uses_sql trivial).tryCatch fun _ => by trivial).bind fun endpoint => ?_
  match endpoint with
  | none => trivial
  | some endpoint =>
    change Prog.Uses _ (if ¬ endpoint.isActive then _ else _)
    split
    · trivial
    · refine (bare_ingestEvent _).bind fun result => ?_
      split
      · exact ((bare_enqueueDelivery _).tryCatch fun _ => by trivial).bind fun _ => trivial
      · trivial

theorem bare_postRetry (d : IdText) : (postRetry d).Uses Bare := by
  refine (bare_retryFromDlq d.id).bind fun result => ?_
  cases result with
  | ok => exact (uses_call trivial).bind fun _ => (uses_await trivial).bind fun _ => trivial
  | notFound => trivial
  | notInDlq st => trivial

theorem homeless_handleFailed (job : JobRef) : (handleFailed env job).Uses Homeless := by
  unfold handleFailed
  split
  · trivial
  refine Prog.Uses.tryCatch ((uses_sql trivial).bind fun delivery => ?_) fun _ => trivial
  match delivery with
  | none => trivial
  | some delivery =>
    change Prog.Uses _ (if delivery.status = .dlq then _ else _)
    split
    · trivial
    · exact ((bare_transition _ _ _ _ _).mono fun _ h => h.homeless).bind fun _ =>
        (uses_await trivial).bind fun _ => (uses_sql trivial).bind fun _ =>
          (uses_call trivial).bind fun _ => trivial

/-- **Only processors are about endpoints.** -/
theorem homeless_program (t : Tid) {k : Kind} (hk : ∀ job, k ≠ .deliver job) :
    (program env t k).Uses Homeless := by
  cases k with
  | deliver job => exact absurd rfl (hk job)
  | failed job => exact (homeless_handleFailed job).bind fun _ => trivial
  | postEvent req =>
    exact ((bare_postEvent req).mono fun _ h => h.homeless).bind fun _ => trivial
  | postRetry d => exact ((bare_postRetry d).mono fun _ h => h.homeless).bind fun _ => trivial
  | sweep => exact ((bare_claimUnenqueued _).mono fun _ h => h.homeless).bind fun _ => trivial
  | repoCall c =>
    cases c with
    | transition d f g a reason =>
      exact ((bare_transition d f g a reason).mono fun _ h => h.homeless).bind fun _ => trivial
    | recordAttempt input =>
      exact ((bare_recordAttempt input).mono fun _ h => h.homeless).bind fun _ => trivial
    | retryFromDlq d => exact ((bare_retryFromDlq d).mono fun _ h => h.homeless).bind fun _ => trivial
    | enqueueDelivery d =>
      exact ((bare_enqueueDelivery d).mono fun _ h => h.homeless).bind fun _ => trivial
    | claimUnenqueued limit =>
      exact ((bare_claimUnenqueued limit).mono fun _ h => h.homeless).bind fun _ => trivial
    | ingestEvent p => exact ((bare_ingestEvent p).mono fun _ h => h.homeless).bind fun _ => trivial

end Programs

/-! ## The processor -/

/-- The endpoint a processor has read. -/
def Errand.next (m : Option EndpointId) : (e : Eff) → e.Resp → Option EndpointId
  | .sql (.selectForDelivery _), .ok r => r.map (·.endpointId)
  | _, _ => m

/-- The commands are about the endpoint that was read. -/
def errands : Monitor Eff Eff.Resp (Option EndpointId) where
  next := Errand.next
  permits m e := ∀ c x, e = .redis c → c.endpoint? = some x → m = some x
  expects _ _ _ := True

section Processor

variable {α β : Type} {job : JobRef}

theorem Serving.errand {e : Eff} (h : Serving ep e) : errands.permits (some ep) e ∧
    ∀ r, errands.next (some ep) e r = some ep := by
  refine ⟨fun c x hc hx => ?_, fun r => ?_⟩
  · subst hc
    rw [h x hx]
  · cases e with
    | sql q => cases q <;> first | exact h.elim | rfl
    | _ => rfl

theorem safe_serving {p : Code α} {Q : Option EndpointId → Except Err α → Prop}
    (hp : p.Uses (Serving ep)) (hQ : ∀ x, Q (some ep) x) : Prog.Safe errands (some ep) p Q :=
  hp.safe (fun _ h => h.errand) hQ

theorem serving_redis {c : RedisCmd} (hc : c.endpoint? = some ep) : (redis c).Uses (Serving ep) :=
  uses_redis fun _ hx => (Option.some.inj (hc.symm.trans hx)).symm

theorem serving_call {e : Eff} (h : Bare e) : (call e).Uses (Serving ep) := uses_call h.serving

theorem serving_recordFailure : (recordFailure env ep).Uses (Serving ep) := by
  refine (serving_redis rfl).bind fun fails => (serving_redis rfl).bind fun _ => ?_
  split
  · exact (serving_redis rfl).bind fun _ => trivial
  · trivial

theorem serving_checkState : (checkState env ep).Uses (Serving ep) := by
  refine (serving_redis rfl).bind fun isOpen => ?_
  split
  · trivial
  · refine (serving_redis rfl).bind fun fails => ?_
    split
    · exact (serving_redis rfl).bind fun _ => trivial
    · trivial

theorem serving_noteOutcome (p : Pickup) (o : AttemptOutcome) :
    (noteOutcome env p o).Uses (Serving p.delivery.endpointId) := by
  unfold noteOutcome onProbeResult
  split
  · split
    · exact (serving_redis rfl).bind fun _ => trivial
    · exact (serving_redis rfl).bind fun _ => (serving_redis rfl).bind fun _ => trivial
  · split
    · exact serving_recordFailure
    · trivial

theorem serving_releaseBucketToken : (releaseBucketToken env ep).Uses (Serving ep) := by
  refine (serving_redis rfl).bind fun current => ?_
  split
  · exact (serving_redis rfl).bind fun _ => (serving_redis rfl).bind fun _ => trivial
  · exact (serving_redis rfl).bind fun _ => trivial

theorem bare_releaseLock (x : IdText) (t : Tid) : (releaseLock x t).Uses Bare :=
  uses_redis (by exact rfl)

theorem serving_cleanup (t : Tid) :
    (cleanup env job t (some ep)).Uses (Serving ep) :=
  serving_releaseBucketToken.bind fun _ => ((bare_releaseLock _ _).mono fun _ h => h.serving).bind fun _ =>
    trivial

theorem bare_cleanup (t : Tid) : (cleanup env job t none).Uses Bare := by
  have hrelease : ((releaseLock job.text t).bind fun _ => (Prog.ret () : Code Unit)).Uses Bare :=
    (bare_releaseLock _ _).bind fun _ => trivial
  exact hrelease

theorem serving_attemptDelivery (p : Pickup) :
    (attemptDelivery env job p).Uses (Serving p.delivery.endpointId) := by
  refine ((bare_transition _ _ _ _ _).mono fun _ h => h.serving).bind fun _ =>
    (serving_call (by trivial)).bind fun nowMs => (serving_call (by trivial)).bind fun startedAt =>
      Prog.Uses.bind ?_ fun result => (serving_call (by trivial)).bind fun _ =>
        (serving_call (by trivial)).bind fun lockLost => (serving_noteOutcome p _).bind fun _ =>
          (serving_call (by trivial)).bind fun _ => (serving_call (by trivial)).bind fun _ =>
            ((bare_recordAttempt _).mono fun _ h => h.serving).bind fun _ => ?_
  · refine (serving_call (by trivial)).bind fun _ => Prog.Uses.andFinally ?_
      ((serving_call (by trivial)).bind fun _ => trivial)
    refine (serving_call (by trivial)).bind fun _ => (serving_call (by trivial)).bind fun _ =>
      (serving_call (by trivial)).bind fun reply => ?_
    cases reply with
    | response status text => exact (serving_call (by trivial)).bind fun _ => trivial
    | thrown e => trivial
  · split <;> trivial

theorem safe_bare {m : Option EndpointId} {p : Code α} {Q : Option EndpointId → Except Err α → Prop}
    (hp : p.Uses Bare) (hQ : ∀ x, Q m x) : Prog.Safe errands m p Q := by
  refine hp.safe (fun e h => ⟨fun c x hc hx => ?_, fun r => ?_⟩) hQ
  · subst hc
    have h : c.endpoint? = none := h
    rw [h] at hx
    cases hx
  · cases e with
    | sql q => cases q <;> first | exact h.elim | rfl
    | _ => rfl

theorem bare_delay (u : Time) :
    ((moveToDelayed job.id u).bind fun _ => (Prog.raise .delayed : Code α)).Uses Bare :=
  (uses_await trivial).bind fun _ => trivial

theorem safe_pickup_errands {Q : Option EndpointId → Except Err (Option Pickup) → Prop}
    (hsome : ∀ p : Pickup, Q (some p.delivery.endpointId) (.ok (some p)))
    (hnone : ∀ m, Q m (.ok none)) (herr : ∀ m y, Q m (.error y)) :
    Prog.Safe errands none (pickup env job) Q := by
  have hraise : ∀ {β : Type} {m : Option EndpointId} {p : Code β} {f : β → Code (Option Pickup)},
      p.Uses Bare → (∀ b, Prog.Safe errands m (f b) Q) → Prog.Safe errands m (p.bind f) Q :=
    fun hp hf => Prog.safe_bind.mpr (safe_bare hp fun x => by
      cases x with
      | ok b => exact hf b
      | error y => exact herr _ y)
  refine Prog.safe_bind.mpr ⟨nofun, fun x _ => Prog.safe_ofExcept.mpr ?_⟩
  cases x with
  | error y => exact herr _ y
  | ok r =>
    match r with
    | none => exact hnone _
    | some r =>
      change Prog.Safe errands (some r.endpointId)
        (if r.status = .delivered ∨ r.status = .dlq then _ else _) Q
      split
      · exact hnone _
      change Prog.Safe errands (some r.endpointId) (if ¬ r.endpointActive then _ else _) Q
      split
      · exact hraise (uses_call (by trivial)) fun now => hraise (uses_await (by trivial)) fun _ => herr _ _
      refine Prog.safe_bind.mpr (safe_serving serving_checkState fun x => ?_)
      cases x with
      | error y => exact herr _ y
      | ok breakerState =>
        dsimp only
        split
        · exact hraise (uses_call (by trivial)) fun now => hraise (uses_call (by trivial)) fun later =>
            hraise (uses_call (by trivial)) fun k => hraise (bare_recordAttempt _) fun _ => herr _ _
        · refine Prog.safe_bind.mpr
            (safe_serving ((serving_redis rfl).bind fun _ => by trivial) fun x => ?_)
          cases x with
          | error y => exact herr _ y
          | ok got =>
            cases got with
            | true => exact hsome ⟨r, breakerState⟩
            | false =>
              exact hraise (uses_call (by trivial)) fun k => hraise (uses_call (by trivial)) fun now =>
                hraise (uses_await (by trivial)) fun _ => herr _ _

/-- **A processor gives commands only for the endpoint it has read.** -/
theorem safe_errands (t : Tid) :
    Prog.Safe errands none (program env t (.deliver job)) fun _ _ => True := by
  refine Prog.safe_bind.mpr ((?_ : Prog.Safe errands none (processDelivery env job t) fun _ _ => True).mono
    fun m x _ => by cases x <;> trivial)
  refine Prog.safe_bind.mpr (safe_bare (uses_redis (by exact rfl)) fun x => ?_)
  cases x with
  | error y => trivial
  | ok got =>
    dsimp only
    split
    · exact safe_bare ((uses_call (by trivial)).bind fun now => bare_delay _) fun _ => trivial
    · refine Prog.safe_bind.mpr (Prog.safe_tryCatch.mpr (safe_pickup_errands (fun p => ?_) (fun m => ?_)
        fun m y => ?_))
      · exact safe_serving ((serving_attemptDelivery p).andFinally (serving_cleanup t)) fun _ => trivial
      · exact safe_bare (bare_cleanup t) fun _ => trivial
      · exact Prog.safe_bind.mpr (safe_bare (bare_cleanup t) fun x => by cases x <;> trivial)

end Processor

/-! ## The system -/

/-- The execution is a processor of a delivery to the endpoint. -/
def Kind.serves (db : Db) (ep : EndpointId) : Kind → Prop
  | .deliver job => (db.delivery? job.deliveryId).any (·.endpointId = ep) = true
  | _ => False

instance (db : Db) (ep : EndpointId) : (k : Kind) → Decidable (k.serves db ep)
  | .deliver _ => inferInstanceAs (Decidable (_ = true))
  | .failed _ | .postEvent _ | .postRetry _ | .sweep | .repoCall _ => inferInstanceAs (Decidable False)

/-- **The step is about the delivery or about the endpoint.** -/
def State.Concerns (s : State) (d : DeliveryId) (ep : EndpointId) : Label → Prop
  | .op t _ => ∃ th ∈ s.live? t, th.kind.subject = some d ∨ th.kind.serves s.pg.db ep
  | .extend t => ∃ th ∈ s.live? t, th.kind.subject = some d
  | .evict key => key.isOf d ep
  | .redisLoss => True
  | _ => False

instance (d : DeliveryId) (ep : EndpointId) : (key : RedisKey) → Decidable (key.isOf d ep)
  | .lock _ | .fails _ | .opened _ | .probe _ | .bucket _ => inferInstanceAs (Decidable (_ = _))
  | .idem _ => inferInstanceAs (Decidable False)

instance (s : State) (d : DeliveryId) (ep : EndpointId) : (l : Label) → Decidable (s.Concerns d ep l)
  | .op t _ => inferInstanceAs (Decidable (∃ th ∈ s.live? t, _))
  | .extend t => inferInstanceAs (Decidable (∃ th ∈ s.live? t, _))
  | .evict key => inferInstanceAs (Decidable (key.isOf d ep))
  | .redisLoss => inferInstanceAs (Decidable True)
  | .tick _ | .settle _ | .crash _ | .extendReply _ | .request _ | .pickup _ | .stall _ | .stallFail _
  | .removeCompleted _ | .operatorAdd _ _ | .idemArrive _ | .createEndpoint _ _ _
  | .patchEndpoint _ _ _ => inferInstanceAs (Decidable False)

theorem reachable_errand (h : Reachable env C s) : ∀ t th job r, s.live? t = some th →
    th.kind = .deliver job → th.facts.row = some r →
      ∃ row, s.pg.db.delivery? job.deliveryId = some row ∧ row.endpointId = r.endpointId := by
  refine h.along (I := fun s => ∀ t th job r, s.live? t = some th → th.kind = .deliver job →
    th.facts.row = some r → ∃ row, s.pg.db.delivery? job.deliveryId = some row ∧
      row.endpointId = r.endpointId) (fun t th job r ht => by simp [State.live?] at ht) ?_
  intro s l s' hr hI _ hstep u th' job r hu hk hrow
  have hs := reachable_ok hr
  have hstays : (∃ row, s.pg.db.delivery? job.deliveryId = some row ∧ row.endpointId = r.endpointId) →
      ∃ row, s'.pg.db.delivery? job.deliveryId = some row ∧ row.endpointId = r.endpointId := by
    rintro ⟨row, hrow, hep⟩
    obtain ⟨row', hrow', -, hep', -⟩ := story_references hs hstep hrow
    exact ⟨row', hrow', hep'.trans hep⟩
  cases step_arises hstep hu with
  | @called c th e x k w m hl hadv hth =>
    subst hth
    rcases hadv.row hs with hsame | ⟨job', hk', -, hread, hpg⟩
    · exact hstays (hI u th job r hadv.live hk (hsame.symm.trans hrow))
    · have hkind : th.kind = .deliver job := hk
      have hjob : job' = job := by
        rcases hk' with hk' | hk' <;> rw [hk'] at hkind <;> cases hkind
        rfl
      subst hjob
      obtain ⟨row, hrow₁, h⟩ := Option.bind_eq_some_iff.mp (hread.symm.trans hrow)
      obtain ⟨e, he, h⟩ := Option.bind_eq_some_iff.mp h
      obtain ⟨ev, -, rfl⟩ := Option.map_eq_some_iff.mp h
      exact hstays ⟨row, hrow₁, (Table.find?_key EndpointRow.id he).symm⟩
  | @kept th _ hlive hkept =>
    have hf : th'.facts = th.facts := congrArg WebhookEngine.facts hkept.trace
    exact hstays (hI u th job r hlive (hkept.kind ▸ hk) (hf ▸ hrow))
  | fresh hlen hstart hth =>
    subst hth
    cases hrow

theorem Thread.errand (th : Thread) : th.watched errands none = th.facts.row.map (·.endpointId) := by
  unfold Thread.watched Thread.facts
  induction th.trace with
  | nil => rfl
  | cons ev tr ih =>
    obtain ⟨e, r⟩ := ev
    change Errand.next (errands.after none tr) e r =
      ((WebhookEngine.facts tr).next e r).row.map (·.endpointId)
    by_cases he : ∃ d, e = .sql (.selectForDelivery d)
    · obtain ⟨d, rfl⟩ := he
      cases r with
      | error x => exact ih
      | ok r => rfl
    · have hne : ∀ d, e ≠ .sql (.selectForDelivery d) := fun d hd => he ⟨d, hd⟩
      rw [Facts.next_row r hne, ← ih]
      cases e with
      | sql q =>
        cases q with
        | selectForDelivery d => exact absurd rfl (hne d)
        | _ => rfl
      | _ => rfl

/-- Programs that are about no endpoint. -/
def homeless : Monitor Eff Eff.Resp Unit where
  next _ _ _ := ()
  permits _ := Homeless
  expects _ _ _ := True

/-- **Who gives a command about an endpoint** is a processor of a delivery to it. -/
theorem reachable_serves (hr : Reachable env C s) (ht : s.live? t = some th) {c : RedisCmd}
    {k : Except Err c.Ret → Code Reply} (hp : th.prog = .op (.redis c) k) (hc : c.endpoint? = some ep) :
    th.kind.serves s.pg.db ep := by
  have hmem := (State.live?_eq_some.mp ht).1
  by_cases hk : ∃ job, th.kind = .deliver job
  · obtain ⟨job, hk⟩ := hk
    have hsafe := @reachable_watched env C s (Option EndpointId) (fun k => ∃ job, k = .deliver job)
      (fun _ _ => errands) none (fun _ _ _ _ => True)
      (fun t k ⟨job, hk⟩ => by subst hk; exact safe_errands t) (fun _ _ _ _ _ => trivial) hr t th hmem
      ⟨job, hk⟩
    rw [hp, th.errand] at hsafe
    obtain ⟨r, hrow, hr'⟩ := Option.map_eq_some_iff.mp (hsafe.1 c ep rfl hc)
    obtain ⟨row, hdel, hep⟩ := reachable_errand hr t th job r ht hk hrow
    rw [hk]
    change (s.pg.db.delivery? job.deliveryId).any (·.endpointId = ep) = true
    rw [hdel]
    exact decide_eq_true (hep.trans hr')
  · have hsafe := @reachable_watched env C s Unit (fun k => ∀ job, k ≠ .deliver job) (fun _ _ => homeless)
      () (fun _ _ _ _ => True)
      (fun t k hk => (homeless_program t hk).safe (fun e he => ⟨he, fun _ => rfl⟩) fun _ => trivial)
      (fun _ _ _ _ _ => trivial) hr t th hmem fun job hj => hk ⟨job, hj⟩
    rw [hp] at hsafe
    have hnone : c.endpoint? = none := hsafe.1
    rw [hnone] at hc
    cases hc

theorem State.Ok.lock_subject (hs : s.Ok) (ht : s.live? t = some th) {c : RedisCmd}
    {k : Except Err c.Ret → Code Reply} (hp : th.prog = .op (.redis c) k) (hc : c.lock? = some d) :
    th.kind.subject = some d := by
  have hperm := (hs.threads t th ht).permits hp
  cases c with
  | setLock x token ttl =>
    obtain ⟨job, hk, hx, -⟩ := hperm
    cases hc
    rw [hk, hx]
    rfl
  | evalReleaseLock x token =>
    obtain ⟨job, hk, hx, -⟩ := hperm
    cases hc
    rw [hk, hx]
    rfl
  | _ => cases hc

/-- **What is about neither leaves both alone.** -/
theorem step_spares (hr : Reachable env C s) (h : step env s l = some s')
    (hd : (s.pg.db.delivery? d).isSome) (hl : ¬ s.Concerns d ep l) :
    s'.pg.db.unmarked d = s.pg.db.unmarked d ∧ s.redis.Spares s'.redis d ep := by
  have hs := reachable_ok hr
  refine ⟨story_unmarked hs h hd fun t c th hop hlive hsub => hl ?_, ?_⟩
  · subst hop
    exact ⟨th, hlive, Or.inl hsub⟩
  · cases step_happens h with
    | @op t c th e r k w m _ hadv =>
      have hw : s'.redis = w.redis := by rw [hadv.world]
      rw [hw]
      by_cases he : ∃ cmd, e = .redis cmd
      · obtain ⟨cmd, rfl⟩ := he
        rw [(perform_redis hadv.done).1]
        unfold Fault.run
        split
        · exact .refl _
        · refine RedisCmd.exec_spares _ _ (fun hc => hl ?_) fun hc => hl ?_
          · exact ⟨th, hadv.live, Or.inl (hs.lock_subject hadv.live hadv.prog hc)⟩
          · exact ⟨th, hadv.live, Or.inr (reachable_serves hr hadv.live hadv.prog hc)⟩
      · rw [(perform_now hadv.done).2 fun cmd hc => he ⟨cmd, hc⟩]
        exact .refl _
    | settle _ _ hset => cases hset <;> exact .refl _
    | @extend t th job hlive hk hbeat =>
      have hne : d ≠ job.deliveryId := by
        rintro rfl
        exact hl ⟨th, hlive, by rw [hk]; rfl⟩
      change s.redis.Spares (s.redis.extendLock _ _ _ _).1 d ep
      unfold Redis.extendLock
      split
      · refine ⟨fun n => Function.update_of_ne ?_ _ _, rfl, rfl, rfl, rfl⟩
        exact fun he => hne (congrArg IdText.id he)
      · exact .refl _
    | evict => exact Redis.evict_spares _ hl
    | idemArrive => exact ⟨fun _ => rfl, rfl, rfl, rfl, rfl⟩
    | redisLoss => exact absurd trivial hl
    | _ => exact .refl _

/-- **Bystanders**: whatever the executions of other deliveries to other endpoints do, fail or leave
undone, a delivery keeps its status, its attempts, its log and its locks, and its endpoint keeps its
breaker, its probe and its bucket. -/
theorem bystanders_spared (hr : Reachable env C s) {ls : List Label}
    (hrun : Run (step env) (fun s l => C s l ∧ ¬ s.Concerns d ep l) s ls s')
    (hd : (s.pg.db.delivery? d).isSome) :
    s'.pg.db.unmarked d = s.pg.db.unmarked d ∧ s.redis.Spares s'.redis d ep := by
  induction hrun with
  | nil => exact ⟨rfl, .refl _⟩
  | cons hC hstep _ ih =>
    obtain ⟨hdb, hredis⟩ := step_spares hr hstep hd hC.2
    obtain ⟨row, hrow⟩ := Option.isSome_iff_exists.mp hd
    obtain ⟨row', hrow', -⟩ := story_references (reachable_ok hr) hstep hrow
    obtain ⟨hdb', hredis'⟩ := ih (hr.snoc hC.1 hstep) (by rw [hrow']; rfl)
    exact ⟨hdb'.trans hdb, hredis.trans hredis'⟩

/-- A second endpoint, 3, with the delivery 5. -/
def sampleNeighbour : List Label :=
  sampleIngest ++ [.createEndpoint "client" "url" "secret",
    .request (.postEvent ⟨some "key 2", 0, 3, "type", "payload"⟩)] ++ calls 1 12

/-- The delivery 5 is attempted, in vain. -/
def sampleInVain : List Label :=
  .pickup (.delivery 5) :: calls 2 33 { reply := .response 500 "" } ++ [.settle 2]

theorem bystanders_spared_neighbour : ∃ s s', Reachable sampleEnv NoCalls s ∧
    Run (step sampleEnv) (fun s l => NoCalls s l ∧ ¬ s.Concerns 2 0 l) s sampleInVain s' ∧
      s.pg.db.status? 5 = some .pending ∧ s'.pg.db.status? 5 = some .failed ∧
        s'.pg.db.unmarked 2 = s.pg.db.unmarked 2 ∧ s.redis.Spares s'.redis 2 0 := by
  obtain ⟨s, hreach, hs⟩ := sample_run (C := NoCalls) sampleNeighbour (fun s =>
    (s.pg.db.delivery? 2).isSome && decide (s.pg.db.status? 5 = some .pending) &&
      (runOf (step sampleEnv) (fun s l => NoCalls s l ∧ ¬ s.Concerns 2 0 l) s sampleInVain).any
        fun s' => s'.pg.db.status? 5 = some .failed) (by decide +kernel)
  rw [Bool.and_eq_true, Bool.and_eq_true] at hs
  obtain ⟨⟨hd, hpending⟩, hs⟩ := hs
  obtain ⟨s', hrun, hfailed⟩ := exists_run hs
  obtain ⟨hdb, hredis⟩ := bystanders_spared hreach hrun hd
  exact ⟨s, s', hreach, hrun, of_decide_eq_true hpending, of_decide_eq_true hfailed, hdb, hredis⟩

end WebhookEngine
