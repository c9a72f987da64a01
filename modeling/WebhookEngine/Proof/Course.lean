import WebhookEngine.Proof.Outcomes

set_option autoImplicit false

/-!
# How a processor ends

`Course` is what the calls of a processor say about its end: what it read, whether it gave its job
back, and the outcome of the attempt it committed.

* `courses`: the monitor. No statement follows `moveToDelayed`, and no `moveToDelayed` a COMMIT.
* **`safe_course`**: every processor keeps to it; one that returns has found nothing to do or has
  committed a success.
* `lawful_wrote`: the course knows the outcome of the attempt in the open transaction.
-/

namespace WebhookEngine

open EffectProg

variable {env : Env}

/-- What the calls of a processor say about its end. -/
structure Course where
  /-- What `getForDelivery` answered: the status, or that there is no such row. -/
  row : Option (Option Status) := none
  /-- `moveToDelayed` was called. -/
  parked : Bool := false
  /-- A COMMIT was sent. -/
  sent : Bool := false
  /-- The outcome of the attempt that the open transaction has inserted. -/
  wrote : Option AttemptOutcome := none
  /-- The outcome of the attempt whose COMMIT was answered. -/
  saved : Option AttemptOutcome := none

/-- How the course follows a call. -/
def Course.next (m : Course) : (e : Eff) → e.Resp → Course
  | .moveToDelayed _ _, _ => { m with parked := true }
  | .sql (.selectForDelivery _), .ok r => { m with row := some (r.map (·.status)) }
  | .sql .begin, .ok _ => { m with wrote := none }
  | .sql (.write (.insertAttempt a)), .ok (some _) => { m with wrote := some a.outcome }
  | .sql .commit, .ok _ => { m with sent := true, saved := m.wrote }
  | .sql .commit, .error _ => { m with sent := true }
  | _, _ => m

/-- The course of an execution, from its calls, latest first. -/
def course : List Event → Course
  | [] => {}
  | ev :: trace => (course trace).next ev.1 ev.2

def Thread.course (th : Thread) : Course := WebhookEngine.course th.trace

def permitsCourse (m : Course) : Eff → Prop
  | .sql _ => m.parked = false
  | .moveToDelayed _ _ => m.sent = false
  | _ => True

/-- An INSERT inserts. -/
def expectsCourse : (e : Eff) → e.Resp → Prop
  | .sql (.write (.insertAttempt _)), r => r ≠ .ok none
  | _, _ => True

def courses : Monitor Eff Eff.Resp Course where
  next := Course.next
  permits := permitsCourse
  expects _ := expectsCourse

/-- There was no row, or one that is settled, or a success was committed. -/
def Course.Final (m : Course) : Prop :=
  m.row = some none ∨ (∃ st : Status, m.row = some (some st) ∧ st.terminal = true) ∨
    m.saved = some .success

/-- What a processor establishes when it returns. -/
def returnsFinal {α : Type} (m : Course) (r : Except Err α) : Prop := ∀ a, r = .ok a → m.Final

/-! ## Rules -/

/-- Calls that the course does not follow. -/
def Aside : Eff → Prop
  | .sql _ => False
  | .moveToDelayed _ _ => False
  | _ => True

variable {m : Course} {α : Type}

theorem Aside.ignored {e : Eff} (h : Aside e) :
    courses.permits m e ∧ ∀ r, courses.next m e r = m := by
  cases e with
  | sql q => exact h.elim
  | moveToDelayed id u => exact h.elim
  | _ => exact ⟨trivial, fun r => rfl⟩

theorem Neutral.aside (e : Eff) (h : Neutral e) : Aside e := by
  cases e <;> first | exact h.elim | trivial

theorem safe_aside {p : Code α} {Q : Course → Except Err α → Prop} (hp : p.Uses Aside)
    (hQ : ∀ r, Q m r) : Prog.Safe courses m p Q :=
  hp.safe (fun _ h => h.ignored) hQ

theorem safe_neutral_course {p : Code α} {Q : Course → Except Err α → Prop}
    (hp : p.Uses Neutral) (hQ : ∀ r, Q m r) : Prog.Safe courses m p Q :=
  safe_aside (hp.mono Neutral.aside) hQ

theorem safe_call_aside {e : Eff} {Q : Course → Except Err e.Resp → Prop} (h : Aside e)
    (hQ : ∀ r, Q m (.ok r)) : Prog.Safe courses m (call e) Q := by
  obtain ⟨h1, h2⟩ := h.ignored (m := m)
  refine ⟨h1, fun r _ => ?_⟩
  rw [h2 r]
  exact hQ r

theorem aside_redis (c : RedisCmd) : (redis c).Uses Aside := uses_redis trivial

theorem safe_sql_course {q : Sql} {Q : Course → Except Err q.Ret → Prop} :
    Prog.Safe courses m (sql q) Q ↔
      m.parked = false ∧ ∀ r, expectsCourse (.sql q) r → Q (m.next (.sql q) r) r := by
  unfold sql await
  rw [Prog.safe_bind]
  exact and_congr Iff.rfl (forall_congr' fun r => imp_congr Iff.rfl Prog.safe_ofExcept)

theorem safe_sql_aside {q : Sql} {Q : Course → Except Err q.Ret → Prop} (h0 : m.parked = false)
    (hn : ∀ r, m.next (.sql q) r = m) (hQ : ∀ r, Q m r) : Prog.Safe courses m (sql q) Q := by
  refine safe_sql_course.mpr ⟨h0, fun r _ => ?_⟩
  rw [hn r]
  exact hQ r

theorem safe_park {id : JobId} {u : Time} {Q : Course → Except Err α → Prop} (h0 : m.sent = false)
    (herr : ∀ m' y, Q m' (.error y)) :
    Prog.Safe courses m ((moveToDelayed id u).bind fun _ => Prog.raise .delayed) Q := by
  refine Prog.safe_bind.mpr ⟨h0, fun r _ => Prog.safe_ofExcept.mpr ?_⟩
  cases r <;> exact herr _ _

/-- **The rule of `withTx`**; whoever sees an error makes no more statements. -/
theorem safe_withTx_course {fn : Code α} {Q : Course → Except Err α → Prop} (h0 : m.parked = false)
    (herr : ∀ m' y, Q m' (.error y))
    (hfn : Prog.Safe courses { m with wrote := none } fn fun m' r =>
      m'.parked = false ∧ ∀ a, r = .ok a → Q { m' with sent := true, saved := m'.wrote } (.ok a)) :
    Prog.Safe courses m (withTx fn) Q := by
  have hrb : ∀ (m' : Course) (x : Err), m'.parked = false →
      Prog.Safe courses m' ((sql .rollback).bind fun _ => Prog.raise x) Q := by
    intro m' x h
    refine Prog.safe_bind.mpr (safe_sql_aside h (fun r => by cases r <;> rfl) fun r => ?_)
    cases r <;> exact herr _ _
  refine Prog.safe_bind.mpr (safe_sql_aside h0 (fun r => by cases r <;> rfl) fun r => ?_)
  cases r with
  | error x => exact herr _ _
  | ok _ =>
    refine Prog.safe_tryCatch.mpr (Prog.safe_bind.mpr (safe_sql_course.mpr ⟨h0, fun r _ => ?_⟩))
    cases r with
    | error x => exact hrb m x h0
    | ok _ =>
      refine Prog.safe_bind.mpr (hfn.mono fun m' r hr => ?_)
      cases r with
      | error x => exact hrb m' x hr.1
      | ok a =>
        refine Prog.safe_bind.mpr (safe_sql_course.mpr ⟨hr.1, fun r _ => ?_⟩)
        cases r with
        | error x => exact hrb _ x hr.1
        | ok _ => exact hr.2 a rfl

theorem safe_transition_course {d : DeliveryId} {f g : Status} {a : Actor} {reason : String}
    {Q : Course → Except Err Unit → Prop} (h0 : m.parked = false)
    (hok : Q { m with sent := true, wrote := none, saved := none } (.ok ()))
    (herr : ∀ m' y, Q m' (.error y)) :
    Prog.Safe courses m (transition d f g a reason) Q := by
  refine safe_withTx_course h0 herr (Prog.safe_bind.mpr ?_)
  have h0 : ({ m with wrote := none } : Course).parked = false := h0
  refine safe_sql_aside h0 (fun r => by cases r <;> rfl) fun r => ?_
  cases r with
  | error x => exact ⟨h0, nofun⟩
  | ok _ =>
    refine Prog.safe_bind.mpr (safe_sql_aside h0 (fun r => by cases r <;> rfl) fun r => ?_)
    cases r with
    | error x => exact ⟨h0, nofun⟩
    | ok _ => exact ⟨h0, fun _ _ => hok⟩

/-- **The rule of `recordAttempt`.** -/
theorem safe_recordAttempt_course {input : RecordAttemptInput} {Q : Course → Except Err Unit → Prop}
    (h0 : m.parked = false)
    (hok : Q { m with sent := true, wrote := some input.outcome, saved := some input.outcome } (.ok ()))
    (herr : ∀ m' y, Q m' (.error y)) :
    Prog.Safe courses m (recordAttempt input) Q := by
  refine safe_withTx_course h0 herr (Prog.safe_bind.mpr (safe_sql_course.mpr ⟨h0, fun r hr => ?_⟩))
  match r, hr with
  | .error x, _ => exact ⟨h0, nofun⟩
  | .ok none, hr => exact absurd rfl hr
  | .ok (some g), _ =>
    have h0 : ({ m with wrote := some input.outcome } : Course).parked = false := h0
    refine Prog.safe_bind.mpr (safe_sql_aside h0 (fun r => by cases r <;> rfl) fun r => ?_)
    cases r with
    | error x => exact ⟨h0, nofun⟩
    | ok _ =>
      refine Prog.safe_bind.mpr (safe_sql_aside h0 (fun r => by cases r <;> rfl) fun r => ?_)
      cases r with
      | error x => exact ⟨h0, nofun⟩
      | ok _ => exact ⟨h0, fun _ _ => hok⟩

/-! ## The processor -/

theorem safe_pickup_course {job : JobRef} (h0 : m.parked = false) (h1 : m.sent = false)
    {Q : Course → Except Err (Option Pickup) → Prop}
    (hsome : ∀ m' p, m'.parked = false → Q m' (.ok (some p)))
    (hnone : ∀ m', m'.Final → Q m' (.ok none)) (herr : ∀ m' y, Q m' (.error y)) :
    Prog.Safe courses m (pickup env job) Q := by
  refine Prog.safe_bind.mpr (safe_sql_course.mpr ⟨h0, fun r _ => ?_⟩)
  match r with
  | .error y => exact herr _ y
  | .ok none => exact hnone _ (Or.inl rfl)
  | .ok (some r) =>
    change Prog.Safe courses { m with row := some (some r.status) }
      (if r.status = .delivered ∨ r.status = .dlq then _ else _) _
    split
    · rename_i hst
      refine hnone _ (Or.inr (Or.inl ⟨r.status, rfl, ?_⟩))
      rcases hst with hst | hst <;> rw [hst] <;> rfl
    split
    · exact Prog.safe_bind.mpr (safe_call_aside (by trivial) fun _ => safe_park h1 herr)
    refine Prog.safe_bind.mpr (safe_neutral_course (uses_checkState _) fun b => ?_)
    cases b with
    | error y => exact herr _ y
    | ok b =>
      dsimp only
      split
      · refine Prog.safe_bind.mpr (safe_call_aside (by trivial) fun now => ?_)
        refine Prog.safe_bind.mpr (safe_call_aside (by trivial) fun later => ?_)
        refine Prog.safe_bind.mpr (safe_call_aside (by trivial) fun n => ?_)
        exact Prog.safe_bind.mpr (safe_recordAttempt_course h0 (herr _ _) fun _ y => herr _ y)
      · refine Prog.safe_bind.mpr (safe_neutral_course (uses_tryAcquire _) fun got => ?_)
        cases got with
        | error y => exact herr _ y
        | ok got =>
          dsimp only
          split
          · exact hsome _ ⟨r, b⟩ h0
          · exact Prog.safe_bind.mpr (safe_call_aside (by trivial) fun n =>
              Prog.safe_bind.mpr (safe_call_aside (by trivial) fun now => safe_park h1 herr))

theorem safe_deliver_course {req : HttpRequest}
    {Q : Course → Except Err (Except Thrown DeliverResult) → Prop} (hQ : ∀ res, Q m (.ok res)) :
    Prog.Safe courses m (deliver env req) Q := by
  refine Prog.safe_bind.mpr (safe_call_aside (by trivial) fun startedAt => ?_)
  refine Prog.safe_bind.mpr (safe_call_aside (by trivial) fun _ => ?_)
  refine Prog.safe_bind.mpr (safe_call_aside (by trivial) fun reply => ?_)
  cases reply with
  | response status text => exact Prog.safe_bind.mpr (safe_call_aside (by trivial) fun _ => hQ _)
  | thrown e => exact hQ _

theorem safe_withLockHeartbeat_course {fn : Code α} {Q : Course → Except Err α → Prop}
    (h : Prog.Safe courses m fn Q) : Prog.Safe courses m (withLockHeartbeat fn) Q := by
  refine Prog.safe_bind.mpr (safe_call_aside (by trivial) fun _ => ?_)
  refine Prog.safe_andFinally.mpr (h.mono fun m' r hr => ?_)
  exact Prog.safe_bind.mpr (safe_call_aside (by trivial) fun _ => hr)

theorem safe_attemptDelivery_course {job : JobRef} {p : Pickup} (h0 : m.parked = false)
    {Q : Course → Except Err Unit → Prop} (hok : ∀ m', m'.Final → Q m' (.ok ()))
    (herr : ∀ m' y, Q m' (.error y)) : Prog.Safe courses m (attemptDelivery env job p) Q := by
  refine Prog.safe_bind.mpr (safe_transition_course h0 ?_ herr)
  refine Prog.safe_bind.mpr (safe_call_aside (by trivial) fun nowMs => ?_)
  refine Prog.safe_bind.mpr (safe_call_aside (by trivial) fun startedAt => ?_)
  refine Prog.safe_bind.mpr (safe_withLockHeartbeat_course (safe_deliver_course fun res => ?_))
  refine Prog.safe_bind.mpr (safe_call_aside (by trivial) fun finishedAt => ?_)
  refine Prog.safe_bind.mpr (safe_call_aside (by trivial) fun lost => ?_)
  refine Prog.safe_bind.mpr (safe_neutral_course (uses_noteOutcome _ _) fun u => ?_)
  cases u with
  | error y => exact herr _ y
  | ok _ =>
    refine Prog.safe_bind.mpr (safe_call_aside (by trivial) fun now => ?_)
    refine Prog.safe_bind.mpr (safe_call_aside (by trivial) fun n => ?_)
    refine Prog.safe_bind.mpr (safe_recordAttempt_course h0 ?_ herr)
    dsimp only
    split
    · rename_i hsucc
      exact hok _ (Or.inr (Or.inr (congrArg some hsucc)))
    · exact herr _ _

theorem aside_cleanup (job : JobRef) (token : Tid) (held : Option EndpointId) :
    (cleanup env job token held).Uses Aside := by
  refine Prog.Uses.bind ?_ fun _ => (aside_redis _).bind fun _ => trivial
  cases held with
  | none => trivial
  | some ep => exact (uses_releaseBucketToken ep).mono Neutral.aside

/-- **How a processor ends.** -/
theorem safe_course (job : JobRef) (t : Tid) :
    Prog.Safe courses {} (processDelivery env job t) returnsFinal := by
  have herr : ∀ (m : Course) (y : Err), returnsFinal (α := Unit) m (.error y) := fun _ _ => nofun
  refine Prog.safe_bind.mpr (safe_aside (aside_redis _) fun acquired => ?_)
  match acquired with
  | .error y => exact herr _ y
  | .ok false =>
    exact Prog.safe_bind.mpr (safe_call_aside (by trivial) fun now => safe_park rfl herr)
  | .ok true =>
    refine Prog.safe_bind.mpr (Prog.safe_tryCatch.mpr (safe_pickup_course rfl rfl ?_ ?_ ?_))
    · intro m p h0
      refine Prog.safe_andFinally.mpr (safe_attemptDelivery_course h0 ?_ ?_)
      · intro m' hfinal
        refine safe_aside (aside_cleanup _ _ _) fun r => ?_
        cases r with
        | error y => exact herr _ y
        | ok _ => exact fun _ _ => hfinal
      · intro m' y
        refine safe_aside (aside_cleanup _ _ _) fun r => ?_
        cases r <;> exact herr _ _
    · intro m hfinal
      exact safe_aside (aside_cleanup _ _ _) fun r _ _ => hfinal
    · intro m y
      refine Prog.safe_bind.mpr (safe_aside (aside_cleanup _ _ _) fun r => ?_)
      cases r <;> exact herr _ _

theorem safe_course_program (job : JobRef) (t : Tid) :
    Prog.Safe courses {} (program env t (.deliver job)) returnsFinal := by
  refine Prog.safe_bind.mpr ((safe_course job t).mono fun m r hr => ?_)
  cases r with
  | error y => exact nofun
  | ok _ => exact fun _ _ => hr () rfl

/-! ## The attempt of the open transaction -/

theorem Script.first_attempt {k : Kind} {m : Facts} {tx rest : List Entry} {a : AttemptData} {g : ℕ}
    (h : Script k m (tx ++ (.insertAttempt a, g) :: rest)) : tx = [] := by
  generalize hL : tx ++ (Stmt.insertAttempt a, g) :: rest = L at h
  cases h with
  | nil => simp at hL
  | move h reason g₁ g₂ =>
    rcases tx with _ | ⟨e₁, _ | ⟨e₂, tx⟩⟩ <;> simp at hL
  | record h reason g₁ g₂ g₃ =>
    rcases tx with _ | ⟨e₁, _ | ⟨e₂, _ | ⟨e₃, tx⟩⟩⟩ <;> simp at hL
    rfl
  | ingest hk c i ty p ep ev d' g' =>
    rcases tx with _ | ⟨e₁, _ | ⟨e₂, _ | ⟨e₃, tx⟩⟩⟩ <;> simp at hL
  | claim hk h =>
    obtain ⟨d', -, -, heq⟩ := h (.insertAttempt a, g) (by simp [← hL])
    cases heq

theorem mayWrite.first_attempt {k : Kind} {f : Facts} {a : AttemptData}
    (h : mayWrite k f (.insertAttempt a)) : f.tx = some [] := by
  unfold mayWrite at h
  split at h
  · rename_i tx htx
    obtain ⟨rest, hs⟩ := h 0
    rw [htx, hs.first_attempt]
  · obtain ⟨d, hd⟩ := h
    cases hd

/-- The outcome of the attempt a statement inserts. -/
def Stmt.outcome? : Stmt → Option AttemptOutcome
  | .insertAttempt a => some a.outcome
  | _ => none

/-- The outcome of the attempt a transaction inserts. -/
def outcomeOf (tx : List Entry) : Option AttemptOutcome := tx.findSome? fun e => e.1.outcome?

/-- **The course knows the attempt** of the open transaction. -/
theorem lawful_wrote {t : Tid} {k : Kind} {tr : List Event} (h : Lawful t k tr)
    (htx : (facts tr).tx.isSome) : (course tr).wrote = outcomeOf ((facts tr).tx.getD []) := by
  induction h with
  | nil => cases htx
  | @cons tr h e hp r ih =>
    cases e with
    | sql q =>
      cases q with
      | begin =>
        cases r with
        | error x => exact ih htx
        | ok _ => rfl
      | commit => cases r <;> cases htx
      | rollback => cases htx
      | write st =>
        match r with
        | .error x => cases st <;> exact ih htx
        | .ok none => cases st <;> exact ih htx
        | .ok (some g) =>
          have htx : ((facts tr).tx.map (· ++ [(st, g)])).isSome := htx
          rw [Option.isSome_map] at htx
          obtain ⟨tx, htx'⟩ := Option.isSome_iff_exists.mp htx
          have hnext : (facts (⟨.sql (.write st), Except.ok (some g)⟩ :: tr)).tx =
              (facts tr).tx.map (· ++ [(st, g)]) := rfl
          rw [hnext, htx']
          have hold := ih htx
          rw [htx'] at hold
          cases st with
          | insertAttempt a =>
            have hempty : (facts tr).tx = some [] := mayWrite.first_attempt hp
            obtain rfl : tx = [] := Option.some.inj (htx'.symm.trans hempty)
            rfl
          | _ =>
            refine hold.trans ?_
            simp [outcomeOf, List.findSome?_append, Stmt.outcome?]
      | _ => cases r <;> exact ih htx
    | _ =>
      rw [facts, (Facts.next_of_not_sql (by simp) r).1] at htx ⊢
      exact ih htx

/-! ## All processors -/

/-- Every processor keeps to its course. -/
def OnCourse (s : State) : Prop :=
  ∀ t th job, s.live? t = some th → th.kind = .deliver job →
    Prog.Safe courses th.course th.prog returnsFinal

variable {s s' : State} {l : Label}

theorem Advance.inserts {t : Tid} {th : Thread} {c : Choice} {e : Eff} {r : e.Resp}
    {k : e.Resp → Code Reply} {w : World} {mem : Memory} (h : Advance s s' t c th e r k w mem) :
    expectsCourse e r := by
  cases e with
  | sql q =>
    cases q with
    | write st =>
      cases st with
      | insertAttempt a =>
        intro hr
        obtain ⟨pg', sess', hex, -, -⟩ := perform_sql h.done
        obtain ⟨_, _, _, _, heq⟩ := (Stmt.exec_cases hex).expected hr (by simp [Stmt.key])
        cases heq
      | _ => trivial
    | _ => trivial
  | _ => trivial

theorem OnCourse.step (h : step env s l = some s') (hI : OnCourse s) : OnCourse s' := by
  intro u th' job hu hk
  cases step_arises h hu with
  | called _ hadv hth =>
    subst hth
    have hsafe := hI u _ job hadv.live hk
    rw [hadv.prog] at hsafe
    exact hsafe.2 _ hadv.inserts
  | @kept th _ hlive hkept =>
    have hc : th'.course = th.course := congrArg WebhookEngine.course hkept.trace
    rw [hc, hkept.prog]
    exact hI u th job hlive (hkept.kind.symm.trans hk)
  | @fresh kd hlen hstart hth =>
    subst hth
    have hkd : kd = .deliver job := hk
    subst hkd
    exact safe_course_program job u

theorem reachable_onCourse {C : State → Label → Prop} (h : Reachable env C s) : OnCourse s := by
  refine h.invariant (I := OnCourse) (fun t th job h => ?_) fun s l s' hI _ hstep => hI.step hstep
  simp [State.live?] at h

end WebhookEngine
