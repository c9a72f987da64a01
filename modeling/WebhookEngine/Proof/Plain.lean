import WebhookEngine.Proof.Calls

set_option autoImplicit false

/-!
# Plain calls

Most functions touch neither a token bucket nor the event of an ingestion. `Plain` is the set of all
other calls; a monitor of the buckets or of the ingestions ignores a program that `Uses` it.

* **`safe_bracket`**: what a monitor of the buckets has to know of `tryAcquire` and `release` to follow
  `processDelivery`.
-/

namespace WebhookEngine

open EffectProg

variable {env : Env}

/-- No command on a token bucket, and no statement of the database path of `ingestEvent`. -/
def Plain : Eff → Prop
  | .redis (.evalTokenBucket _ _ _) => False
  | .redis (.hincrbyTokens _) => False
  | .redis (.hsetTokens _ _) => False
  | .redis (.expireTokens _ _) => False
  | .sql (.write (.insertEvent _ _ _ _)) => False
  | .sql (.write (.insertDelivery _ _)) => False
  | .sql (.selectEventId _ _) => False
  | .sql (.selectDeliveryOfEvent _) => False
  | _ => True

theorem plain_queueAdd (id : JobId) (d : DeliveryId) : (queueAdd id d).Uses Plain :=
  uses_await trivial

theorem plain_dateNow : dateNow.Uses Plain := uses_call trivial

theorem plain_mathRandom : mathRandom.Uses Plain := uses_call trivial

theorem plain_withTx {α : Type} {fn : Code α} (h : fn.Uses Plain) : (withTx fn).Uses Plain :=
  uses_withTx trivial trivial trivial trivial h

theorem plain_transition (d : DeliveryId) (f g : Status) (a : Actor) (reason : String) :
    (transition d f g a reason).Uses Plain :=
  plain_withTx ((uses_sql (by trivial)).bind fun _ => (uses_sql (by trivial)).bind fun _ => trivial)

theorem plain_recordAttempt (input : RecordAttemptInput) :
    (recordAttempt input).Uses Plain :=
  plain_withTx ((uses_sql (by trivial)).bind fun _ => (uses_sql (by trivial)).bind fun _ =>
    (uses_sql (by trivial)).bind fun _ => trivial)

theorem plain_claimEach (ds : List DeliveryId) : (claimEach ds).Uses Plain := by
  induction ds with
  | nil => trivial
  | cons d ds ih => exact (plain_queueAdd _ _).bind fun _ => (uses_sql (by trivial)).bind fun _ => ih

theorem plain_claimUnenqueued (limit : ℕ) : (claimUnenqueued env limit).Uses Plain :=
  plain_withTx ((uses_sql (by trivial)).bind fun rows => (plain_claimEach rows).bind fun _ => trivial)

theorem plain_retryFromDlq (d : DeliveryId) : (retryFromDlq d).Uses Plain := by
  refine plain_withTx ((uses_sql (by trivial)).bind fun row => ?_)
  match row with
  | none => trivial
  | some status =>
    change Prog.Uses _ (if status ≠ .dlq then _ else _)
    split
    · trivial
    · exact (uses_sql (by trivial)).bind fun _ => (uses_sql (by trivial)).bind fun _ => trivial

theorem plain_enqueueDelivery (d : DeliveryId) : (enqueueDelivery d).Uses Plain :=
  (plain_queueAdd _ _).bind fun _ => (uses_sql (by trivial)).bind fun _ => trivial

theorem plain_postRetry (d : IdText) : (postRetry d).Uses Plain := by
  refine (plain_retryFromDlq d.id).bind fun result => ?_
  cases result with
  | ok => exact plain_dateNow.bind fun _ => (plain_queueAdd _ _).bind fun _ => trivial
  | _ => trivial

theorem plain_handleFailed (job : JobRef) : (handleFailed env job).Uses Plain := by
  unfold handleFailed
  split
  · trivial
  refine Prog.Uses.tryCatch ((uses_sql (by trivial)).bind fun delivery => ?_) fun _ => trivial
  match delivery with
  | none => trivial
  | some delivery =>
    change Prog.Uses _ (if delivery.status = .dlq then _ else _)
    split
    · trivial
    · exact (plain_transition _ _ _ _ _).bind fun _ => (uses_await (by trivial)).bind fun _ =>
        (uses_sql (by trivial)).bind fun _ => (uses_call (by trivial)).bind fun _ => trivial

theorem plain_recordFailure (ep' : EndpointId) : (recordFailure env ep').Uses Plain := by
  refine (uses_await (by trivial)).bind fun fails => (uses_await (by trivial)).bind fun _ => ?_
  split
  · exact (uses_await (by trivial)).bind fun _ => trivial
  · trivial

theorem plain_checkState (ep' : EndpointId) : (checkState env ep').Uses Plain := by
  refine (uses_await (by trivial)).bind fun isOpen => ?_
  split
  · trivial
  · refine (uses_await (by trivial)).bind fun fails => ?_
    split
    · exact (uses_await (by trivial)).bind fun _ => trivial
    · trivial

theorem plain_noteOutcome (p : Pickup) (o : AttemptOutcome) :
    (noteOutcome env p o).Uses Plain := by
  unfold noteOutcome onProbeResult
  split
  · split
    · exact (uses_await (by trivial)).bind fun _ => trivial
    · exact (uses_await (by trivial)).bind fun _ => (uses_await (by trivial)).bind fun _ => trivial
  · split
    · exact plain_recordFailure _
    · trivial

theorem plain_attemptDelivery (job : JobRef) (p : Pickup) :
    (attemptDelivery env job p).Uses Plain := by
  refine (plain_transition _ _ _ _ _).bind fun _ => plain_dateNow.bind fun nowMs =>
    plain_dateNow.bind fun startedAt => Prog.Uses.bind ?_ fun result => plain_dateNow.bind fun _ =>
      (uses_call (by trivial)).bind fun lockLost => (plain_noteOutcome _ _).bind fun _ =>
        plain_dateNow.bind fun _ => plain_mathRandom.bind fun _ =>
          (plain_recordAttempt _).bind fun _ => ?_
  · refine (uses_call (by trivial)).bind fun _ => Prog.Uses.andFinally ?_
      ((uses_call (by trivial)).bind fun _ => trivial)
    refine plain_dateNow.bind fun _ => (uses_call (by trivial)).bind fun _ =>
      (uses_call (by trivial)).bind fun reply => ?_
    cases reply with
    | response status text => exact plain_dateNow.bind fun _ => trivial
    | thrown e => trivial
  · split <;> trivial

theorem uses_processDelivery {S : Eff → Prop} (hplain : ∀ e, Plain e → S e)
    (hredis : ∀ c, S (.redis c)) (job : JobRef) (t : Tid) : (processDelivery env job t).Uses S := by
  have hp : ∀ {α : Type} {p : Code α}, p.Uses Plain → p.Uses S := fun h => h.mono hplain
  have hr : ∀ c : RedisCmd, (redis c).Uses S := fun c =>
    ⟨hredis c, fun r => Prog.uses_ofExcept r⟩
  have hdelay : ∀ u, ((moveToDelayed job.id u).bind fun _ =>
      (Prog.raise .delayed : Code (Option Pickup))).Uses S := fun u =>
    (hp (uses_await (by trivial))).bind fun _ => trivial
  have hcleanup : ∀ o : Option EndpointId, (cleanup env job t o).Uses S := by
    intro o
    refine Prog.Uses.bind ?_ fun _ => (hr _).bind fun _ => trivial
    cases o with
    | none => trivial
    | some ep =>
      refine (hr _).bind fun current => ?_
      split
      · exact (hr _).bind fun _ => (hr _).bind fun _ => trivial
      · exact (hr _).bind fun _ => trivial
  have hpickup : (pickup env job).Uses S := by
    refine (hp (uses_sql (by trivial))).bind fun delivery => ?_
    match delivery with
    | none => trivial
    | some r =>
      change Prog.Uses _ (if r.status = .delivered ∨ r.status = .dlq then _ else _)
      split
      · trivial
      split
      · exact (hp plain_dateNow).bind fun _ => hdelay _
      refine (hp (plain_checkState _)).bind fun b => ?_
      split
      · exact (hp plain_dateNow).bind fun _ => (hp plain_dateNow).bind fun _ =>
          (hp plain_mathRandom).bind fun _ => (hp (plain_recordAttempt _)).bind fun _ => trivial
      · refine Prog.Uses.bind ((hr _).bind fun _ => trivial) fun got => ?_
        split
        · trivial
        · exact (hp plain_mathRandom).bind fun _ => (hp plain_dateNow).bind fun _ => hdelay _
  refine (hr _).bind fun acquired => ?_
  split
  · exact (hp plain_dateNow).bind fun _ => (hp (uses_await (by trivial))).bind fun _ => trivial
  · refine (hpickup.tryCatch fun err => (hcleanup none).bind fun _ => by trivial).bind fun picked => ?_
    match picked with
    | none => exact hcleanup none
    | some p => exact (hp (plain_attemptDelivery job p)).andFinally (hcleanup _)

section Brackets

variable {M : Type} {mon : Monitor Eff Eff.Resp M} {free : M} (taken : EndpointId → M)

/-- **The bracket of the bucket.** A processor whose plain calls a monitor ignores ends where it
started, if every token that `tryAcquire` gets leads to a state from which `release` leads back. -/
theorem safe_bracket (job : JobRef) (t : Tid)
    (hplain : ∀ {α : Type} {p : Code α} {m : M} {Q : M → Except Err α → Prop},
      (m = free ∨ ∃ ep, m = taken ep) → p.Uses Plain → (∀ r, Q m r) → Prog.Safe mon m p Q)
    (hacquire : ∀ ep {Q : M → Except Err Bool → Prop}, Q (taken ep) (.ok true) →
      Q free (.ok false) → (∀ y, Q free (.error y)) → Prog.Safe mon free (tryAcquire env ep) Q)
    (hrelease : ∀ ep {Q : M → Except Err Unit → Prop}, (∀ r, Q free r) →
      Prog.Safe mon (taken ep) (releaseBucketToken env ep) Q) :
    Prog.Safe mon free (processDelivery env job t) fun m _ => m = free := by
  have hquiet : ∀ {α : Type} {p : Code α} {Q : M → Except Err α → Prop}, p.Uses Plain →
      (∀ r, Q free r) → Prog.Safe mon free p Q := fun hp hQ => hplain (Or.inl rfl) hp hQ
  have hthen : ∀ {α β : Type} {p : Code α} {f : α → Code β} {Q : M → Except Err β → Prop},
      p.Uses Plain → (∀ a, Prog.Safe mon free (f a) Q) → (∀ y, Q free (.error y)) →
        Prog.Safe mon free (p.bind f) Q := fun hp hf herr =>
    Prog.safe_bind.mpr (hquiet hp fun r => by
      cases r with
      | ok a => exact hf a
      | error y => exact herr y)
  -- up to the bucket step
  have hpickup : ∀ {Q : M → Except Err (Option Pickup) → Prop},
      (∀ p : Pickup, Q (taken p.delivery.endpointId) (.ok (some p))) → Q free (.ok none) →
        (∀ y, Q free (.error y)) → Prog.Safe mon free (pickup env job) Q := by
    intro Q hsome hnone herr
    have hdelay : ∀ u, Prog.Safe mon free
        ((moveToDelayed job.id u).bind fun _ => Prog.raise .delayed) Q := fun u =>
      hthen (uses_await (by trivial)) (fun _ => herr _) herr
    refine hthen (uses_sql (by trivial)) (fun r => ?_) herr
    match r with
    | none => exact hnone
    | some r =>
      change Prog.Safe _ _ (if r.status = .delivered ∨ r.status = .dlq then _ else _) _
      split
      · exact hnone
      split
      · exact hthen plain_dateNow (fun now => hdelay _) herr
      refine hthen (plain_checkState _) (fun b => ?_) herr
      split
      · refine hthen plain_dateNow (fun now => hthen plain_dateNow (fun later => ?_) herr) herr
        refine hthen plain_mathRandom (fun k => ?_) herr
        exact hthen (plain_recordAttempt _) (fun _ => herr _) herr
      · refine Prog.safe_bind.mpr (hacquire r.endpointId (hsome ⟨r, b⟩) ?_ herr)
        exact hthen plain_mathRandom (fun k => hthen plain_dateNow (fun now => hdelay _) herr) herr
  have hunlock : ∀ {Q : M → Except Err Unit → Prop}, (∀ r, Q free r) →
      Prog.Safe mon free ((releaseLock job.text t).bind fun _ => Prog.ret ()) Q := fun hQ =>
    hquiet ((uses_await (by trivial)).bind fun _ => trivial) hQ
  refine Prog.safe_bind.mpr (hquiet (uses_await (by trivial)) fun acquired => ?_)
  match acquired with
  | .error y => rfl
  | .ok false =>
    exact hquiet (plain_dateNow.bind fun _ => (uses_await (by trivial)).bind fun _ => trivial)
      fun _ => rfl
  | .ok true =>
    refine Prog.safe_bind.mpr (Prog.safe_tryCatch.mpr (hpickup (fun p => ?_) ?_ fun y => ?_))
    · refine Prog.safe_andFinally.mpr
        (hplain (Or.inr ⟨_, rfl⟩) (plain_attemptDelivery job p) fun r => ?_)
      refine Prog.safe_bind.mpr (hrelease _ fun r' => ?_)
      cases r' with
      | error y => rfl
      | ok _ => exact hunlock fun r'' => by cases r'' <;> rfl
    · exact hunlock fun _ => rfl
    · exact Prog.safe_bind.mpr (hunlock fun r => by cases r <;> rfl)

end Brackets

end WebhookEngine
