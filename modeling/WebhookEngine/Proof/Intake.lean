import WebhookEngine.Proof.FastPath
import WebhookEngine.Proof.History
import WebhookEngine.Proof.Plain

set_option autoImplicit false

/-!
# The database path of an ingestion

`Intake` is what the statements of an ingestion say about it: the key it inserted or ran into, the
event and the delivery it inserted or read, and whether its COMMIT was answered.

* `ingestion`: the monitor. A conflict is followed by reads of the row it was with.
* `safe_intake`: every program keeps to it, and what it returns is what its intake says.
-/

namespace WebhookEngine

open EffectProg

variable {env : Env}

/-- What an execution knows of the event it ingests. -/
structure Intake where
  /-- `client_id` and `idempotency_key` of the INSERT that was answered. -/
  key : Option (String × String) := none
  isNew : Bool := false
  event : Option EventId := none
  delivery : Option DeliveryId := none
  /-- The COMMIT was answered. -/
  done : Bool := false

/-- How the intake follows a call to Postgres. -/
def Intake.nextSql (m : Intake) : (q : Sql) → Except Err q.Ret → Intake
  | .write (.insertEvent c i _ _), .ok (some ev) =>
    { key := some (c, i), isNew := true, event := some ev }
  | .write (.insertEvent c i _ _), .ok none => { key := some (c, i) }
  | .write (.insertDelivery _ _), .ok d => { m with delivery := d }
  | .selectEventId _ _, .ok ev => { m with event := ev }
  | .selectDeliveryOfEvent _, .ok d =>
    { m with delivery := if m.key.isSome then d.map (·.1) else m.delivery }
  | .commit, .ok _ => { m with done := m.key.isSome }
  | _, _ => m

def Intake.next (m : Intake) : (e : Eff) → e.Resp → Intake
  | .sql q, r => m.nextSql q r
  | _, _ => m

/-- The intake of an execution, from its calls, latest first. -/
def intake : List Event → Intake
  | [] => {}
  | ev :: trace => (intake trace).next ev.1 ev.2

def permitsIntake (m : Intake) : Eff → Prop
  | .sql .begin => m = {}
  | .sql (.write (.insertEvent _ _ _ _)) => m = {}
  | .sql (.write (.insertDelivery ev _)) =>
    ∃ c i, m = { key := some (c, i), isNew := true, event := some ev }
  | .sql (.write _) => m.key.isSome → m.isNew = true ∨ m.done = true
  | .sql (.selectEventId c i) => m = { key := some (c, i) }
  | .sql (.selectDeliveryOfEvent ev) =>
    m.key.isSome → ∃ c i, m = { key := some (c, i), event := some ev }
  | _ => True

/-- Whatever is read after a conflict is there. -/
def expectsIntake (m : Intake) : (e : Eff) → e.Resp → Prop
  | .sql (.write (.insertDelivery _ _)), r => r ≠ .ok none
  | .sql (.selectEventId _ _), r => r ≠ .ok none
  | .sql (.selectDeliveryOfEvent _), r => m.key.isSome → r ≠ .ok none
  | _, _ => True

def ingestion : Monitor Eff Eff.Resp Intake where
  next := Intake.next
  permits := permitsIntake
  expects := expectsIntake

/-- The execution took the database path, and returns what its intake says. -/
def Intake.Returns (m : Intake) (r : IngestResult) : Prop :=
  m.key.isSome → m.done = true ∧ m.event = some r.eventId ∧ m.delivery = some r.deliveryId ∧
    m.isNew = r.isNew

/-! ## Rules -/

theorem Plain.ignored {e : Eff} (h : Plain e) :
    ingestion.permits {} e ∧ ∀ r, ingestion.next {} e r = {} := by
  cases e with
  | sql q =>
    cases q with
    | write st =>
      cases st with
      | insertEvent c i ty p => exact h.elim
      | insertDelivery ev ep => exact h.elim
      | _ => exact ⟨nofun, fun r => by cases r <;> rfl⟩
    | begin => exact ⟨rfl, fun r => by cases r <;> rfl⟩
    | selectEventId c i => exact h.elim
    | selectDeliveryOfEvent ev => exact h.elim
    | _ => exact ⟨trivial, fun r => by cases r <;> rfl⟩
  | _ => exact ⟨trivial, fun r => rfl⟩

theorem safe_plain_intake {α : Type} {p : Code α} {Q : Intake → Except Err α → Prop}
    (hp : p.Uses Plain) (hQ : ∀ r, Q {} r) : Prog.Safe ingestion {} p Q :=
  hp.safe (fun _ h => h.ignored) hQ

variable {m : Intake}

theorem safe_sql_intake {q : Sql} {Q : Intake → Except Err q.Ret → Prop} :
    Prog.Safe ingestion m (sql q) Q ↔ permitsIntake m (.sql q) ∧
      ∀ r, expectsIntake m (.sql q) r → Q (m.nextSql q r) r := by
  unfold sql await
  rw [Prog.safe_bind]
  exact and_congr Iff.rfl (forall_congr' fun r => imp_congr Iff.rfl Prog.safe_ofExcept)

theorem safe_other_sql {q : Sql} {Q : Intake → Except Err q.Ret → Prop}
    (hp : permitsIntake m (.sql q)) (hn : ∀ r, m.nextSql q r = m) (hQ : ∀ r, Q m r) :
    Prog.Safe ingestion m (sql q) Q := by
  refine safe_sql_intake.mpr ⟨hp, fun r _ => ?_⟩
  rw [hn r]
  exact hQ r

theorem safe_ingestEnd {key : String} {r : IngestResult} {m : Intake} (hkey : m.key.isSome)
    (hev : m.event = some r.eventId) (hd : m.delivery = some r.deliveryId) (hnew : m.isNew = r.isNew) :
    Prog.Safe ingestion m
      ((sql .commit).bind fun _ => (call (.sendIdem key r.eventId)).bind fun _ => Prog.ret r)
      fun m' x => ∀ y, x = .ok y → m'.Returns y := by
  refine Prog.safe_bind.mpr (safe_sql_intake.mpr ⟨trivial, fun c _ => ?_⟩)
  cases c with
  | error y => exact nofun
  | ok _ =>
    refine Prog.safe_bind.mpr ⟨trivial, fun _ _ => ?_⟩
    intro y hy
    cases hy
    exact fun _ => ⟨hkey, hev, hd, hnew⟩

/-- **The rule of the database path.** -/
theorem safe_ingestTx_intake {p : IngestParams} {Q : Intake → Except Err IngestResult → Prop}
    (hok : ∀ m r, m.Returns r → Q m (.ok r)) (herr : ∀ m y, Q m (.error y)) :
    Prog.Safe ingestion {} (ingestTx p) Q := by
  refine Prog.safe_bind.mpr (safe_other_sql trivial (fun r => by cases r <;> rfl) fun r => ?_)
  cases r with
  | error y => exact herr _ y
  | ok _ =>
    refine Prog.safe_tryCatch.mpr (Prog.Safe.mono (Q := fun m r => ∀ x, r = .ok x → m.Returns x) ?_
      fun m' r hr => ?_)
    · refine Prog.safe_bind.mpr (safe_other_sql rfl (fun r => by cases r <;> rfl) fun r => ?_)
      cases r with
      | error y => exact nofun
      | ok _ =>
        refine Prog.safe_bind.mpr (safe_sql_intake.mpr ⟨rfl, fun inserted _ => ?_⟩)
        match inserted with
        | .error y => exact nofun
        | .ok (some ev) =>
          refine Prog.safe_bind.mpr (safe_sql_intake.mpr ⟨⟨_, _, rfl⟩, fun d hd => ?_⟩)
          match d with
          | .error y => exact nofun
          | .ok none => exact absurd rfl hd
          | .ok (some d) =>
            refine Prog.safe_bind.mpr (safe_other_sql (fun _ => Or.inl rfl)
              (fun r => by cases r <;> rfl) fun r => ?_)
            cases r with
            | error y => exact nofun
            | ok _ => exact safe_ingestEnd (r := ⟨ev, d, .pending, true⟩) rfl rfl rfl rfl
        | .ok none =>
          refine Prog.safe_bind.mpr (safe_sql_intake.mpr ⟨rfl, fun existing he => ?_⟩)
          match existing with
          | .error y => exact nofun
          | .ok none => exact absurd rfl he
          | .ok (some ev) =>
            refine Prog.safe_bind.mpr (safe_sql_intake.mpr ⟨fun _ => ⟨_, _, rfl⟩, fun d hd => ?_⟩)
            match d with
            | .error y => exact nofun
            | .ok none => exact absurd rfl (hd rfl)
            | .ok (some d) => exact safe_ingestEnd (r := ⟨ev, d.1, d.2, false⟩) rfl rfl rfl rfl
    · cases r with
      | ok x => exact hok m' x (hr x rfl)
      | error y =>
        refine Prog.safe_bind.mpr (safe_other_sql trivial (fun r => by cases r <;> rfl) fun r => ?_)
        cases r <;> exact herr _ _

/-- **The rule of `ingestEvent`.** On the fast path nothing is inserted. -/
theorem safe_ingestEvent_intake {p : IngestParams} {Q : Intake → Except Err IngestResult → Prop}
    (hok : ∀ m r, m.Returns r → Q m (.ok r)) (herr : ∀ m y, Q m (.error y)) :
    Prog.Safe ingestion {} (ingestEvent p) Q := by
  refine Prog.safe_bind.mpr (safe_plain_intake (uses_await (by trivial)) fun cached => ?_)
  match cached with
  | .error y => exact herr _ y
  | .ok none => exact safe_ingestTx_intake hok herr
  | .ok (some ev) =>
    refine Prog.safe_bind.mpr (safe_sql_intake.mpr ⟨nofun, fun d _ => ?_⟩)
    match d with
    | .error y => exact herr _ y
    | .ok none => exact safe_ingestTx_intake hok herr
    | .ok (some d) => exact hok _ _ nofun

theorem safe_enqueueDelivery_intake {d : DeliveryId} (hm : m.key.isSome → m.done = true)
    {Q : Intake → Except Err Unit → Prop} (hQ : ∀ r, Q m r) :
    Prog.Safe ingestion m (enqueueDelivery d) Q := by
  refine Prog.safe_bind.mpr ⟨trivial, fun r _ => Prog.safe_ofExcept.mpr ?_⟩
  cases r with
  | error y => exact hQ _
  | ok _ =>
    refine Prog.safe_bind.mpr (safe_other_sql (fun h => Or.inr (hm h)) (fun r => by cases r <;> rfl)
      fun r => ?_)
    cases r <;> exact hQ _

theorem safe_postEvent_intake {req : EventRequest} :
    Prog.Safe ingestion {} (postEvent env req) fun m r => ∀ x, r = .ok x → m.Returns x := by
  refine Prog.safe_bind.mpr (safe_plain_intake (uses_await (by trivial)) fun o => ?_)
  cases o with
  | error y => exact nofun
  | ok overloaded =>
    dsimp only
    iterate 6
      split
      · exact nofun
    refine Prog.safe_bind.mpr (Prog.safe_tryCatch.mpr
      (safe_plain_intake (uses_sql (by trivial)) fun r => ?_))
    match r with
    | .error y => exact nofun
    | .ok none => exact nofun
    | .ok (some endpoint) =>
      change Prog.Safe _ _ (if ¬ endpoint.isActive then _ else _) _
      split
      · exact nofun
      refine Prog.safe_bind.mpr (safe_ingestEvent_intake (fun m r hr => ?_) fun m y => nofun)
      have hret : ∀ x, Except.ok r = (Except.ok x : Except Err IngestResult) → m.Returns x := by
        intro x hx
        cases hx
        exact hr
      dsimp only
      split
      · refine Prog.safe_bind.mpr (Prog.safe_tryCatch.mpr (safe_enqueueDelivery_intake
          (fun h => (hr h).1) fun r => ?_))
        cases r <;> exact hret
      · exact hret

/-- **Every program keeps to the monitor**, and an ingestion returns what its intake says. -/
theorem safe_intake (t : Tid) (k : Kind) :
    Prog.Safe ingestion {} (program env t k) fun m r => ∀ x, r = .ok (.ingested x) → m.Returns x := by
  match k with
  | .deliver job =>
    refine Prog.Uses.safe (S := fun e => Plain e ∨ ∃ c, e = .redis c) ?_ (fun e he => ?_) ?_
    · exact Prog.Uses.bind
        (uses_processDelivery (fun e he => Or.inl he) (fun c => Or.inr ⟨c, rfl⟩) job t) fun _ => trivial
    · rcases he with he | ⟨c, rfl⟩
      · exact he.ignored
      · exact ⟨trivial, fun _ => rfl⟩
    · exact fun _ _ _ => nofun
  | .failed job =>
    exact safe_plain_intake ((plain_handleFailed job).bind fun _ => trivial) fun _ _ _ => nofun
  | .postEvent req =>
    refine Prog.safe_bind.mpr (safe_postEvent_intake.mono fun m r hr => ?_)
    cases r with
    | error y => exact nofun
    | ok x =>
      intro y hy
      cases hy
      exact hr x rfl
  | .postRetry d =>
    exact safe_plain_intake ((plain_postRetry d).bind fun _ => trivial) fun _ _ _ => nofun
  | .sweep =>
    exact safe_plain_intake ((plain_claimUnenqueued _).bind fun _ => trivial) fun _ _ _ => nofun
  | .repoCall (.transition d f g a r) =>
    exact safe_plain_intake ((plain_transition d f g a r).bind fun _ => trivial) fun _ _ _ => nofun
  | .repoCall (.recordAttempt input) =>
    exact safe_plain_intake ((plain_recordAttempt input).bind fun _ => trivial) fun _ _ _ => nofun
  | .repoCall (.retryFromDlq d) =>
    exact safe_plain_intake ((plain_retryFromDlq d).bind fun _ => trivial) fun _ _ _ => nofun
  | .repoCall (.enqueueDelivery d) =>
    exact safe_plain_intake ((plain_enqueueDelivery d).bind fun _ => trivial) fun _ _ _ => nofun
  | .repoCall (.claimUnenqueued limit) =>
    exact safe_plain_intake ((plain_claimUnenqueued limit).bind fun _ => trivial) fun _ _ _ => nofun
  | .repoCall (.ingestEvent p) =>
    refine Prog.safe_bind.mpr (safe_ingestEvent_intake (fun m r hr => ?_) fun m y => nofun)
    intro x hx
    cases hx
    exact hr

end WebhookEngine
