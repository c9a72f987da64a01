import WebhookEngine.Proof.Unrecorded

set_option autoImplicit false

/-!
# What an attempt says about its exchange

`classify` looks for the codes of undici's timeouts in the message of the error; undici puts them in
its `code`.

* `JsError.TimedOut`, `Classified`: how an exchange is to be classified.
* `Carries`: the calls that write what the processor makes of its exchange.
* **`safe_hearings`**: from the moment it has examined the result a processor writes only that.
* `LosesLock`: `onLockLost` runs before the result is examined.
* **`outcome_faithful_iff`**: the attempt of an exchange is classified as it should be if and only if
  the lock was lost, or there was a response, or the error was no timeout and did not look like one.
-/

namespace WebhookEngine

open EffectProg TransitionSystem

variable {env : Env} {C : State → Label → Prop} {s s' : State} {l : Label} {t : Tid}
  {th th' : Thread} {job : JobRef}

/-! ## The classification -/

/-- The codes of the errors undici fails with when its headers, body or connect timeout has passed. -/
def timeoutCodes : List String :=
  ["UND_ERR_HEADERS_TIMEOUT", "UND_ERR_BODY_TIMEOUT", "UND_ERR_CONNECT_TIMEOUT"]

/-- undici failed with a timeout. -/
def JsError.TimedOut (e : JsError) : Prop := ∃ code ∈ timeoutCodes, e.code = some code

/-- The error says that it is a timeout where the engine looks for it. -/
def JsError.SaysTimeout (e : JsError) : Prop :=
  e.isError = true ∧ (e.name = "AbortError" ∨ ∃ code ∈ timeoutCodes, jsIncludes e.message code = true)

/-- **How an exchange is to be classified**, with the reason its transition is to give. -/
inductive Classified (env : Env) (lost : Prop) : HttpReply → AttemptOutcome → String → Prop where
  | lockLost (h : lost) (reply : HttpReply) : Classified env lost reply .lockLost "lock_lost"
  | success (h : ¬ lost) (status : ℕ) (text : String) (hs : 200 ≤ status ∧ status < 300) :
      Classified env lost (.response status text) .success ("http_" ++ toString status)
  | httpError (h : ¬ lost) (status : ℕ) (text : String) (hs : ¬ (200 ≤ status ∧ status < 300)) :
      Classified env lost (.response status text) .httpError ("http_" ++ toString status)
  | timeout (h : ¬ lost) (e : JsError) (he : e.TimedOut) :
      Classified env lost (.thrown e) .timeout ("timeout_" ++ showSeconds env.httpTimeoutMs ++ "s")
  | connError (h : ¬ lost) (e : JsError) (he : ¬ e.TimedOut) :
      Classified env lost (.thrown e) .connError "conn_error"

theorem classify_eq (e : JsError) : classify e = .timeout ↔ e.SaysTimeout := by
  simp only [classify, JsError.SaysTimeout, timeoutCodes]
  split
  · rename_i h
    simpa using h
  · rename_i h
    simpa using h

/-- What `deliver` makes of a reply, but for the latency. -/
def settled (env : Env) : HttpReply → Except Thrown DeliverResult
  | .response status text => .ok ⟨status, keptBody env text, 0⟩
  | .thrown e => .error (.deliverError (classify e) e.message)

/-- What the processor makes of a reply. -/
def found (env : Env) (lost : Bool) (reply : HttpReply) : Finding :=
  examine env lost (settled env reply)

theorem found_lost (reply : HttpReply) : found env true reply = lockLostFinding := by
  cases reply <;> rfl

theorem found_response (status : ℕ) (text : String) :
    (found env false (.response status text)).outcome =
        (if 200 ≤ status ∧ status < 300 then .success else .httpError) ∧
      (found env false (.response status text)).reason = "http_" ++ toString status := by
  by_cases h : 200 ≤ status ∧ status < 300 <;> simp [found, settled, examine, h]

theorem found_thrown (e : JsError) :
    (e.SaysTimeout → (found env false (.thrown e)).outcome = .timeout ∧
      (found env false (.thrown e)).reason = "timeout_" ++ showSeconds env.httpTimeoutMs ++ "s") ∧
    (¬ e.SaysTimeout → (found env false (.thrown e)).outcome = .connError ∧
      (found env false (.thrown e)).reason = "conn_error") := by
  refine ⟨fun h => ?_, fun h => ?_⟩
  · simp [found, settled, examine, (classify_eq e).mpr h]
  · have hconn : classify e = .connError := by
      cases hc : classify e with
      | connError => rfl
      | timeout => exact absurd ((classify_eq e).mp hc) h
    simp [found, settled, examine, hconn]

/-- **The processor's verdict is the right one** if and only if the lock was lost, or the error says
that it is a timeout exactly if it is one. -/
theorem found_verdict_iff (lost : Bool) (reply : HttpReply) :
    Classified env (lost = true) reply (found env lost reply).outcome (found env lost reply).reason ↔
      (lost = true ∨ ∀ e, reply = .thrown e → (e.TimedOut ↔ e.SaysTimeout)) := by
  cases lost with
  | true =>
    rw [found_lost]
    exact ⟨fun _ => Or.inl rfl, fun _ => .lockLost rfl reply⟩
  | false =>
    have hno : ¬ (false = true) := Bool.false_ne_true
    cases reply with
    | response status text =>
      obtain ⟨ho, hr⟩ := @found_response env status text
      refine ⟨fun _ => Or.inr (fun e he => by cases he), fun _ => ?_⟩
      rw [ho, hr]
      split
      · rename_i h
        exact .success hno status text h
      · rename_i h
        exact .httpError hno status text h
    | thrown e =>
      by_cases hs : e.SaysTimeout
      · obtain ⟨ho, hr⟩ := (@found_thrown env e).1 hs
        rw [ho, hr]
        refine ⟨fun h => Or.inr fun e' he' => ?_, fun h => ?_⟩
        · cases he'
          cases h with
          | timeout _ _ he => exact ⟨fun _ => hs, fun _ => he⟩
        · exact .timeout hno e (((h.resolve_left hno) e rfl).mpr hs)
      · obtain ⟨ho, hr⟩ := (@found_thrown env e).2 hs
        rw [ho, hr]
        refine ⟨fun h => Or.inr fun e' he' => ?_, fun h => ?_⟩
        · cases he'
          cases h with
          | connError _ _ he => exact ⟨fun h => absurd h he, fun h => absurd h hs⟩
        · exact .connError hno e fun he => hs (((h.resolve_left hno) e rfl).mp he)

/-! ## What is written -/

/-- The call writes nothing else than the finding. -/
def Carries (f : Finding) : Eff → Prop
  | .sql (.write (.insertAttempt a)) => a.outcome = f.outcome ∧ a.httpStatus = f.httpStatus ∧
      a.responseBody = f.responseBody ∧ a.errorMessage = f.errorMessage
  | .sql (.write (.updateAttempt _ g _)) => g = f.outcome.toStatus
  | .sql (.write (.insertTransition _ _ g reason _)) => g = f.outcome.toStatus ∧ reason = f.reason
  | _ => True

/-- After the exchange a write comes after the examination and carries the finding. -/
def Reports (env : Env) (reply : Option HttpReply) (lost : Option Bool) (e : Eff) : Prop :=
  ∀ x, reply = some x → ∀ st, e = .sql (.write st) → ∃ b, lost = some b ∧ Carries (found env b x) e

/-- The monitor: the result is examined outside a transaction, and what follows carries the finding. -/
def hearings (env : Env) : Monitor Eff Eff.Resp Facts where
  next := Facts.next
  permits m e := (¬ Offline e → m.tx = none) ∧ Reports env m.reply m.lost e
  expects _ _ _ := True

/-- What the execution has heard of its exchange. -/
structure Facts.Heard (m : Facts) (reply : Option HttpReply) (lost : Option Bool) : Prop where
  reply : m.reply = reply
  lost : m.lost = lost

variable {m : Facts} {reply : Option HttpReply} {lost : Option Bool} {α : Type}

theorem Facts.Heard.next (h : m.Heard reply lost) {e : Eff} (he : Offline e) (r : e.Resp) :
    (m.next e r).Heard reply lost := by
  refine ⟨?_, ?_⟩
  · rcases Facts.next_reply (m := m) r with hsame | ⟨x, hev, -⟩
    · exact hsame.trans h.reply
    · cases hev
      exact he.elim
  · rcases Facts.next_lost (m := m) r with hsame | ⟨b, hev, -⟩
    · exact hsame.trans h.lost
    · cases hev
      exact he.elim

/-- Calls that are no part of the exchange and carry its finding. -/
def Tells (env : Env) (reply : Option HttpReply) (lost : Option Bool) (e : Eff) : Prop :=
  Offline e ∧ Reports env reply lost e

theorem safe_tells {p : Code α} {Q : Facts → Except Err α → Prop} (hm : m.Heard reply lost)
    (hp : p.Uses (Tells env reply lost)) (hQ : ∀ m' r, m'.Heard reply lost → Q m' r) :
    Prog.Safe (hearings env) m p Q := by
  refine hp.keeps (J := fun m => m.Heard reply lost) hm (fun m e hm he => ⟨⟨?_, ?_⟩, fun r => ?_⟩) hQ
  · exact fun h => absurd he.1 h
  · rw [hm.reply, hm.lost]
    exact he.2
  · exact hm.next he.1 r

theorem tells_of_offline {p : Code α} (hp : p.Uses Offline) : p.Uses (Tells env none lost) :=
  hp.mono fun e he => ⟨he, fun x hx => by cases hx⟩

theorem tells_plain {e : Eff} (h : Neutral e) : Tells env reply lost e := by
  refine ⟨Neutral.offline e h, fun x _ st he => ?_⟩
  subst he
  exact h.elim

theorem tells_redis (c : RedisCmd) : (redis c).Uses (Tells env reply lost) :=
  uses_redis ⟨trivial, fun _ _ st he => by cases he⟩

theorem tells_read {q : Sql} (h : ∀ st, q ≠ .write st) : Tells env reply lost (.sql q) :=
  ⟨trivial, fun _ _ st he => absurd (Eff.sql.inj he) (h st)⟩

theorem safe_sql_hearing {q : Sql} {Q : Facts → Except Err q.Ret → Prop} (hm : m.Heard reply lost)
    (hq : Tells env reply lost (.sql q))
    (hQ : ∀ r, (m.nextSql q r).Heard reply lost → Q (m.nextSql q r) r) :
    Prog.Safe (hearings env) m (sql q) Q := by
  refine Prog.safe_bind.mpr ⟨⟨fun h => absurd trivial h, ?_⟩, fun r _ => ?_⟩
  · rw [hm.reply, hm.lost]
    exact hq.2
  · exact Prog.safe_ofExcept.mpr (hQ r (hm.next (e := .sql q) hq.1 r))

/-- **The rule of `withTx`**: when it returns, no transaction is open. -/
theorem safe_withTx_hearing {fn : Code α} {Q : Facts → Except Err α → Prop}
    (hm : m.Heard reply lost) (hfn : fn.Uses (Tells env reply lost))
    (hok : ∀ m' a, m'.Heard reply lost → m'.tx = none → Q m' (.ok a))
    (herr : ∀ m' y, m'.Heard reply lost → Q m' (.error y)) :
    Prog.Safe (hearings env) m (withTx fn) Q := by
  have hrb : ∀ (m : Facts) (y : Err), m.Heard reply lost →
      Prog.Safe (hearings env) m ((sql .rollback).bind fun _ => Prog.raise y) Q := by
    intro m y hm
    refine Prog.safe_bind.mpr (safe_sql_hearing hm (tells_read (by simp)) fun r hm' => ?_)
    cases r with
    | error y' => exact herr _ y' hm'
    | ok _ => exact herr _ y hm'
  refine Prog.safe_bind.mpr (safe_sql_hearing hm (tells_read (by simp)) fun r hm => ?_)
  cases r with
  | error y => exact herr _ y hm
  | ok _ =>
    refine Prog.safe_tryCatch.mpr (Prog.safe_bind.mpr
      (safe_sql_hearing hm (tells_read (by simp)) fun r hm => ?_))
    cases r with
    | error y => exact hrb _ y hm
    | ok _ =>
      refine Prog.safe_bind.mpr (safe_tells hm hfn fun m r hm => ?_)
      cases r with
      | error y => exact hrb _ y hm
      | ok a =>
        refine Prog.safe_bind.mpr (safe_sql_hearing hm (tells_read (by simp)) fun r hm => ?_)
        cases r with
        | error y => exact hrb _ y hm
        | ok _ => exact hok _ a hm rfl

theorem tells_withTx {fn : Code α} (h : fn.Uses (Tells env reply lost)) :
    (withTx fn).Uses (Tells env reply lost) :=
  uses_withTx (tells_read (by simp)) (tells_read (by simp)) (tells_read (by simp))
    (tells_read (by simp)) h

theorem tells_recordAttempt {input : RecordAttemptInput} {x : HttpReply} {b : Bool}
    (hcarry : Carries (found env b x) (.sql (.write (.insertAttempt input.toAttemptData))))
    (hto : input.toStatus = (found env b x).outcome.toStatus)
    (hreason : input.reason = (found env b x).reason) :
    (recordAttempt input).Uses (Tells env (some x) (some b)) := by
  have htells : ∀ st, Carries (found env b x) (.sql (.write st)) →
      Tells env (some x) (some b) (.sql (.write st)) := by
    refine fun st hst => ⟨trivial, fun x' hx st' _ => ⟨b, rfl, ?_⟩⟩
    cases hx
    exact hst
  refine tells_withTx ((uses_sql (htells _ hcarry)).bind fun _ => ?_)
  refine (uses_sql (htells (.updateAttempt _ input.toStatus _) hto)).bind fun _ => ?_
  exact (uses_sql (htells (.insertTransition _ _ _ input.reason _) ⟨hto, hreason⟩)).bind
    fun _ => trivial

theorem tells_cleanup (job : JobRef) (token : Tid) (held : Option EndpointId) :
    (cleanup env job token held).Uses (Tells env reply lost) := by
  refine Prog.Uses.bind ?_ fun _ => (tells_redis _).bind fun _ => trivial
  cases held with
  | none => trivial
  | some ep => exact (uses_releaseBucketToken ep).mono fun e he => tells_plain he

theorem safe_call_hearing {e : Eff} {Q : Facts → Except Err e.Resp → Prop} (htx : m.tx = none)
    (he : ∀ q, e ≠ .sql q) (hQ : ∀ r, Q (m.next e r) (.ok r)) :
    Prog.Safe (hearings env) m (call e) Q :=
  ⟨⟨fun _ => htx, fun _ _ st hst => absurd hst (he (.write st))⟩, fun r _ => hQ r⟩

theorem Detached.offline {e : Eff} (h : Detached e) : Offline e := by
  cases e with
  | sql q => exact h.elim
  | _ => exact h

theorem safe_call_unheard {e : Eff} {Q : Facts → Except Err e.Resp → Prop}
    (hm : m.Heard reply none) (htx : m.tx = none) (he : Detached e)
    (hQ : ∀ m' r, m'.Heard reply none → m'.tx = none → Q m' (.ok r)) :
    Prog.Safe (hearings env) m (call e) Q := by
  have hsql : ∀ q, e ≠ .sql q := by
    rintro q rfl
    exact he
  exact safe_call_hearing htx hsql fun r => hQ _ r (hm.next he.offline r)
    ((Facts.next_of_not_sql hsql r).1.trans htx)

theorem safe_deliver_hearing {req : HttpRequest}
    {Q : Facts → Except Err (Except Thrown DeliverResult) → Prop} (hm : m.Heard none none)
    (htx : m.tx = none) (hQ : ∀ m' x result, m'.Heard (some x) none → m'.tx = none →
      (∀ b, examine env b result = found env b x) → Q m' (.ok result)) :
    Prog.Safe (hearings env) m (withLockHeartbeat (deliver env req)) Q := by
  refine Prog.safe_bind.mpr (safe_call_unheard hm htx (by trivial) fun m _ hm htx => ?_)
  refine Prog.safe_andFinally.mpr ?_
  refine Prog.safe_bind.mpr (safe_call_unheard hm htx (by trivial) fun m startedAt hm htx => ?_)
  refine Prog.safe_bind.mpr (safe_call_unheard hm htx (by trivial) fun m _ hm htx => ?_)
  refine Prog.safe_bind.mpr (safe_call_hearing htx (by simp) fun x => ?_)
  have hm : (m.next .httpAwait x).Heard (some x) none := ⟨rfl, hm.lost⟩
  have htx : (m.next .httpAwait x).tx = none := htx
  generalize m.next .httpAwait x = m at hm htx
  cases x with
  | response status text =>
    refine Prog.safe_bind.mpr (safe_call_unheard hm htx (by trivial) fun m finishedAt hm htx => ?_)
    refine Prog.safe_bind.mpr (safe_call_unheard hm htx (by trivial) fun m _ hm htx => ?_)
    exact hQ m _ _ hm htx fun b => rfl
  | thrown e =>
    refine Prog.safe_bind.mpr (safe_call_unheard hm htx (by trivial) fun m _ hm htx => ?_)
    exact hQ m _ _ hm htx fun b => rfl

theorem safe_attemptDelivery_hearing {p : Pickup} {Q : Facts → Except Err Unit → Prop}
    (hm : m.Heard none none) (hQ : ∀ m' r, Q m' r) :
    Prog.Safe (hearings env) m (attemptDelivery env job p) Q := by
  have htransition : (do
      let _ ← sql (.write (.updateStatus job.deliveryId .delivering))
      let _ ← sql (.write (.insertTransition job.deliveryId (some p.delivery.status) .delivering
        ("attempt_" ++ toString (p.delivery.attemptCount + 1)) .worker))
      return () : Code Unit).Uses (Tells env none none) :=
    tells_of_offline ((offline_sql _).bind fun _ => (offline_sql _).bind fun _ => trivial)
  refine Prog.safe_bind.mpr (safe_withTx_hearing hm htransition (fun m _ hm htx => ?_)
    fun m y hm => hQ _ _)
  refine Prog.safe_bind.mpr (safe_call_unheard hm htx (by trivial) fun m nowMs hm htx => ?_)
  refine Prog.safe_bind.mpr (safe_call_unheard hm htx (by trivial) fun m startedAt hm htx => ?_)
  refine Prog.safe_bind.mpr (safe_deliver_hearing hm htx fun m x result hm htx hfound => ?_)
  refine Prog.safe_bind.mpr (safe_call_unheard hm htx (by trivial) fun m finishedAt hm htx => ?_)
  refine Prog.safe_bind.mpr (safe_call_hearing htx (by simp) fun b => ?_)
  have hm : (m.next .readLockLost b).Heard (some x) (some b) := ⟨hm.reply, rfl⟩
  generalize m.next .readLockLost b = m at hm
  refine safe_tells hm ?_ fun m r _ => hQ m r
  rw [hfound b]
  refine ((uses_noteOutcome p _).mono fun e he => tells_plain he).bind fun _ => ?_
  refine Prog.Uses.bind ⟨tells_plain trivial, fun _ => trivial⟩ fun now => ?_
  refine Prog.Uses.bind ⟨tells_plain trivial, fun _ => trivial⟩ fun k => ?_
  refine (tells_recordAttempt ⟨rfl, rfl, rfl, rfl⟩ rfl rfl).bind fun _ => ?_
  split <;> trivial

/-- **After it has examined the result a processor writes its finding only.** -/
theorem safe_hearings (job : JobRef) (t : Tid) :
    Prog.Safe (hearings env) {} (program env t (.deliver job)) fun _ _ => True := by
  have hoffline : ∀ {β : Type} {m : Facts} {p : Code β}, m.Heard none none → p.Uses Offline →
      Prog.Safe (hearings env) m p fun _ _ => True :=
    fun hm hp => safe_tells hm (tells_of_offline hp) fun _ _ _ => trivial
  refine Prog.safe_bind.mpr (Prog.Safe.mono (Q := fun _ _ => True) ?_ fun m r _ => ?_)
  · refine Prog.safe_bind.mpr (safe_tells ⟨rfl, rfl⟩
      (tells_of_offline (uses_await (by trivial))) fun m acquired hm => ?_)
    match acquired with
    | .error y => trivial
    | .ok false => exact hoffline hm ((uses_call (by trivial)).bind fun now => offline_park)
    | .ok true =>
      refine Prog.safe_bind.mpr (Prog.safe_tryCatch.mpr
        (safe_tells hm (tells_of_offline (offline_pickup job)) fun m r hm => ?_))
      match r with
      | .error y =>
        refine Prog.safe_bind.mpr
          (safe_tells hm (tells_of_offline (offline_cleanup _ _ _)) fun m r hm => ?_)
        cases r <;> trivial
      | .ok none => exact hoffline hm (offline_cleanup _ _ _)
      | .ok (some p) =>
        refine Prog.safe_andFinally.mpr (safe_attemptDelivery_hearing hm fun m r => ?_)
        have hheard : m.Heard m.reply m.lost := ⟨rfl, rfl⟩
        refine safe_tells hheard (tells_cleanup _ _ _) fun m r' _ => ?_
        cases r' <;> trivial
  · cases r <;> trivial

/-! ## Runs -/

/-- What a processor has written of its exchange in its open transaction, and may still write. -/
structure Thread.Reporting (env : Env) (th : Thread) : Prop where
  safe : Prog.Safe (hearings env) th.facts th.prog fun _ _ => True
  wrote : ∀ x ∈ th.facts.tx.getD [], Reports env th.facts.reply th.facts.lost (.sql (.write x.1))

/-- **A call keeps it.** -/
theorem Thread.Reporting.called {c : Choice} {e : Eff} {r : e.Resp} {k : e.Resp → Code Reply}
    {w : World} {mem : Memory} (h : th.Reporting env) (hadv : Advance s s' t c th e r k w mem) :
    (th.after e r k mem).Reporting env := by
  have hsafe := h.safe
  rw [hadv.prog] at hsafe
  obtain ⟨⟨hclosed, hreports⟩, hnext⟩ := hsafe
  refine ⟨hnext r trivial, fun x hx => ?_⟩
  change x ∈ (th.facts.next e r).tx.getD [] at hx
  change Reports env (th.facts.next e r).reply (th.facts.next e r).lost _
  by_cases hoff : Offline e
  · obtain ⟨hreply, hlost⟩ := Facts.Heard.next (m := th.facts) ⟨rfl, rfl⟩ hoff r
    rw [hreply, hlost]
    rcases Facts.next_tx hx with hold | ⟨st, g, rfl, rfl⟩
    · exact h.wrote x hold
    · exact hreports
  · -- the exchange and its examination come outside a transaction
    have htx : (th.facts.next e r).tx = none := by
      refine ((Facts.next_of_not_sql (fun q hq => ?_) r).1).trans (hclosed hoff)
      subst hq
      exact hoff trivial
    rw [htx] at hx
    cases hx

theorem reporting_step (h : step env s l = some s')
    (hI : ∀ t th job, s.live? t = some th → th.kind = .deliver job → th.Reporting env) :
    ∀ t th job, s'.live? t = some th → th.kind = .deliver job → th.Reporting env := by
  intro u th' job hu hk
  cases step_lives h hu with
  | called hl hadv hth =>
    subst hth
    exact (hI u _ job hadv.live hk).called hadv
  | beat hl hlive hk' hbeat hth =>
    subst hth
    obtain ⟨hsafe, hwrote⟩ := hI u _ job hlive hk
    exact ⟨hsafe, hwrote⟩
  | heard hl hlive hnext hth =>
    subst hth
    obtain ⟨hsafe, hwrote⟩ := hI u _ job hlive hk
    exact ⟨hsafe, hwrote⟩
  | @kept th hlive hreply hsame hmem =>
    obtain ⟨hsafe, hwrote⟩ := hI u th job hlive (hsame.kind ▸ hk)
    have hfacts : th'.facts = th.facts := congrArg facts hsame.trace
    refine ⟨?_, ?_⟩
    · rw [hfacts, hsame.prog]
      exact hsafe
    · rw [hfacts]
      exact hwrote
  | fresh hlen hstart hth =>
    subst hth
    obtain rfl : _ = Kind.deliver job := hk
    exact ⟨safe_hearings job u, fun x hx => by cases hx⟩

theorem reachable_reporting (h : Reachable env C s) (ht : s.live? t = some th)
    (hk : th.kind = .deliver job) : th.Reporting env := by
  refine h.invariant (I := fun s => ∀ t th job, s.live? t = some th → th.kind = .deliver job →
    th.Reporting env) ?_ (fun s l s' hI _ hstep => reporting_step hstep hI) t th job ht hk
  intro t th job ht
  simp [State.live?] at ht

/-- `onLockLost` runs in execution `t` before its result is examined. -/
def LosesLock (t : Tid) (s : State) (l : Label) (_ : State) : Prop :=
  l = .extendReply t ∧ ∃ th, s.live? t = some th ∧ th.facts.lost = none ∧
    th.mem.extending.head? = some false

/-- What the execution knows of its lock is whether `onLockLost` has run. -/
structure Heeds (t : Tid) (lost : Prop) (s : State) : Prop where
  lt : lost → t < s.threads.length
  flag : ∀ th, s.live? t = some th → th.facts.lost = none → (th.mem.lockLost = true ↔ lost)
  read : ∀ th b, s.live? t = some th → th.facts.lost = some b → (b = true ↔ lost)

theorem heeds_step {lost : Prop} (hs : s.Ok) (h : step env s l = some s') (hI : Heeds t lost s) :
    Heeds t (lost ∨ LosesLock t s l s') s' := by
  have hlt : lost ∨ LosesLock t s l s' → t < s'.threads.length := by
    rintro (h' | ⟨-, th, hth, -⟩)
    · exact Nat.lt_of_lt_of_le (hI.lt h') (step_length h)
    · exact Nat.lt_of_lt_of_le (State.live?_lt hth) (step_length h)
  have hsame : ∀ {p : Prop}, ¬ LosesLock t s l s' → (p ↔ lost) → (p ↔ lost ∨ LosesLock t s l s') :=
    fun hno hp => hp.trans (or_iff_left hno).symm
  suffices hth' : ∀ th', s'.live? t = some th' →
      (th'.facts.lost = none → (th'.mem.lockLost = true ↔ lost ∨ LosesLock t s l s')) ∧
        ∀ b, th'.facts.lost = some b → (b = true ↔ lost ∨ LosesLock t s l s') from
    ⟨hlt, fun th' ht' => (hth' th' ht').1, fun th' b ht' => (hth' th' ht').2 b⟩
  intro th' ht'
  cases step_lives h ht' with
  | @called c th e r k w m hl hadv hth =>
    have hno : ¬ LosesLock t s l s' := by
      rintro ⟨hl', -⟩
      rw [hl] at hl'
      cases hl'
    subst hth
    have hmem := (perform_mem hadv.done).1
    change ((th.facts.next e r).lost = none → (m.lockLost = true ↔ _)) ∧
      ∀ b, (th.facts.next e r).lost = some b → _
    rcases Facts.next_lost (m := th.facts) r with hlost | ⟨b, hev, hlost⟩
    · rw [hlost, hmem]
      exact ⟨fun hnone => hsame hno (hI.flag th hadv.live hnone),
        fun b hb => hsame hno (hI.read th b hadv.live hb)⟩
    · -- the result is examined
      rw [hlost]
      refine ⟨(fun h => by cases h), fun b' hb' => hsame hno ?_⟩
      cases hev
      cases hb'
      obtain ⟨-, hnone⟩ := (hs.threads t th hadv.live).permits hadv.prog
      have hdone := hadv.done
      cases hdone
      exact hI.flag th hadv.live hnone
  | @beat th job hl hlive hk hbeat hth =>
    have hno : ¬ LosesLock t s l s' := by
      rintro ⟨hl', -⟩
      rw [hl] at hl'
      cases hl'
    subst hth
    exact ⟨fun hnone => hsame hno (hI.flag th hlive hnone),
      fun b hb => hsame hno (hI.read th b hlive hb)⟩
  | @heard th held rest hl hlive hnext hth =>
    have hloses : LosesLock t s l s' ↔ th.facts.lost = none ∧ held = false := by
      refine ⟨?_, fun ⟨hnone, hheld⟩ => ⟨hl, th, hlive, hnone, by rw [hnext, hheld]; rfl⟩⟩
      rintro ⟨-, th₀, hth₀, hnone, hhead⟩
      obtain rfl := Option.some.inj (hlive.symm.trans hth₀)
      rw [hnext] at hhead
      exact ⟨hnone, Option.some.inj hhead⟩
    subst hth
    refine ⟨fun hnone => ?_, fun b hb => hsame (fun h => ?_) (hI.read th b hlive hb)⟩
    · rw [hloses, ← hI.flag th hlive hnone]
      cases held <;> simp [show th.facts.lost = none from hnone]
    · rw [show th.facts.lost = some b from hb] at hloses
      cases (hloses.mp h).1
  | @kept th hlive hreply hk hmem =>
    have hno : ¬ LosesLock t s l s' := fun h => hreply h.1
    have hfacts : th'.facts = th.facts := congrArg facts hk.trace
    rw [hfacts, hmem]
    exact ⟨fun hnone => hsame hno (hI.flag th hlive hnone),
      fun b hb => hsame hno (hI.read th b hlive hb)⟩
  | fresh hlen hk hth =>
    subst hth
    have hnever : ¬ (lost ∨ LosesLock t s l s') := by
      rintro (h' | ⟨-, th, hth, -⟩)
      · exact absurd (hI.lt h') (Nat.not_lt.mpr hlen)
      · exact absurd (State.live?_lt hth) (Nat.not_lt.mpr hlen)
    exact ⟨fun _ => ⟨(fun h => by cases h), fun h => absurd h hnever⟩, fun b hb => by cases hb⟩

/-- **What the processor reads is whether `onLockLost` has run**, in every run. -/
theorem run_heeds {ls : List Label} (h : Run (step env) C {} ls s) (t : Tid) :
    Heeds t (Occurs (step env) (LosesLock t) {} ls) s := by
  have hinv := h.recall (P := LosesLock t) (Q := LosesLock t)
    (I := fun p _ s => Reachable env C s ∧ Heeds t p s) ?_ ⟨.refl _, ?_⟩
  · exact hinv.2
  · rintro p - s l s' ⟨hr, hI⟩ hC hstep
    exact ⟨hr.snoc hC hstep, heeds_step (reachable_ok hr) hstep hI⟩
  · refine ⟨False.elim, fun th hth => ?_, fun th b hth => ?_⟩ <;> simp [State.live?] at hth

/-! ## The attempt -/

theorem lawful_await {k : Kind} {tr : List Event} (h : Lawful t k tr) {x : HttpReply}
    (hx : (⟨.httpAwait, x⟩ : Event) ∈ tr) : (facts tr).reply = some x := by
  induction tr with
  | nil => cases hx
  | cons ev tr ih =>
    obtain ⟨e, r⟩ := ev
    rcases List.mem_cons.mp hx with hnew | hold
    · cases hnew
      rfl
    · rcases Facts.next_reply (m := facts tr) r with hsame | ⟨y, hev, -⟩
      · exact hsame.trans (ih h.tail hold)
      · -- there is one exchange
        cases hev
        obtain ⟨-, hnone⟩ := h.permits
        rw [ih h.tail hold] at hnone
        cases hnone

/-- An attempt is written with the status it leads to and with one transition. -/
theorem attempt_written {c : Choice} {d : DeliveryId} {a : AttemptRow} (hs : s.Ok)
    (h : step env s (.op t c) = some s') (ht : s.live? t = some th)
    (ha : s'.pg.db.attemptsOf d = s.pg.db.attemptsOf d ++ [a]) :
    ∃ f g next reason g₁ g₂ id, th.facts.tx = some [(.insertAttempt a.toAttemptData, g₁),
        (.updateAttempt a.deliveryId g next, g₂),
        (.insertTransition a.deliveryId (some f) g reason .worker, id)] ∧
      s'.pg.db.status? d = some g ∧ ∃ tr, s'.pg.db.log d = s.pg.db.log d ++ [tr] ∧
        tr.toStatus = g ∧ tr.reason = reason := by
  obtain ⟨t', c', th', r, k, w, m, hl, hadv, D, f, g, next, reason, g₁, g₂, id, τ, τ', htx, hD, hD'⟩ :=
    attempt_recorded hs h ha
  cases hl
  obtain rfl := Option.some.inj (hadv.live.symm.trans ht)
  refine ⟨f, g, next, reason, g₁, g₂, id, htx, Db.status?_eq hD',
    ⟨id, D.row.id, some f, g, reason, .worker, τ'⟩, ?_, rfl, rfl⟩
  rw [Db.log_eq (hs.step h).db, hD', Db.log_eq hs.db, hD]
  rfl

/-- What the attempt of an exchange says, with the status and the reason written with it. -/
structure ClassifiedAs (env : Env) (lost : Prop) (reply : HttpReply) (db db' : Db) (d : DeliveryId)
    (o : AttemptOutcome) : Prop where
  log : ∃ tr, db'.log d = db.log d ++ [tr] ∧ tr.toStatus = o.toStatus ∧
    Classified env lost reply o tr.reason
  status : db'.status? d = some o.toStatus

theorem classified_iff {ls : List Label} (hrun : Run (step env) C {} ls s) (ht : s.live? t = some th)
    (hk : th.kind = .deliver job) {reply : HttpReply} (hreply : (⟨.httpAwait, reply⟩ : Event) ∈ th.trace)
    {c : Choice} (h : step env s (.op t c) = some s') {a : AttemptRow}
    (ha : s'.pg.db.attemptsOf job.deliveryId = s.pg.db.attemptsOf job.deliveryId ++ [a]) :
    ClassifiedAs env (Occurs (step env) (LosesLock t) {} ls) reply s.pg.db s'.pg.db job.deliveryId
        a.outcome ↔
      Occurs (step env) (LosesLock t) {} ls ∨
        ∀ e, reply = .thrown e → (e.TimedOut ↔ e.SaysTimeout) := by
  have hr : Reachable env C s := ⟨ls, hrun⟩
  have hs := reachable_ok hr
  obtain ⟨f, g, next, reason, g₁, g₂, g₃, htx, hst, tr, hlog, hto, hreason⟩ := attempt_written hs h ht ha
  have hheard : th.facts.reply = some reply := lawful_await (reachable_lawfulTrace hr t th ht) hreply
  have hwrote := (reachable_reporting hr ht hk).wrote
  rw [htx, hheard] at hwrote
  obtain ⟨b, hb, ho, -⟩ := hwrote (.insertAttempt a.toAttemptData, g₁) (by simp) reply rfl _ rfl
  obtain ⟨b', hb', hto', hreason'⟩ :=
    hwrote (.insertTransition a.deliveryId (some f) g reason .worker, g₃) (by simp) reply rfl _ rfl
  obtain rfl : b = b' := Option.some.inj (hb.symm.trans hb')
  have hlost : b = true ↔ Occurs (step env) (LosesLock t) {} ls := (run_heeds hrun t).read th b ht hb
  have hverdict := @found_verdict_iff env b reply
  rw [← ho, ← hreason', ← hreason, propext hlost] at hverdict
  rw [← ho] at hto'
  rw [← hverdict]
  constructor
  · intro hclass
    obtain ⟨tr', hlog', -, hclass⟩ := hclass.log
    obtain rfl : tr = tr' := by simpa using hlog.symm.trans hlog'
    exact hclass
  · exact fun hclass => ⟨⟨tr, hlog, hto.trans hto', hclass⟩, hst.trans (congrArg some hto')⟩

/-- **An exchange is classified as it should be if and only if the lock was lost, or there was a
response, or the error is no timeout and does not say that it is one**: for every run up to the step
with which a processor records the attempt of its exchange, whatever the reply and the heartbeats. -/
theorem outcome_faithful_iff {ls : List Label} (hrun : Run (step env) C {} ls s)
    (ht : s.live? t = some th) (hk : th.kind = .deliver job) {reply : HttpReply}
    (hreply : (⟨.httpAwait, reply⟩ : Event) ∈ th.trace)
    (hundici : ∀ e, reply = .thrown e → e.TimedOut → ¬ e.SaysTimeout) {c : Choice}
    (h : step env s (.op t c) = some s') {a : AttemptRow}
    (ha : s'.pg.db.attemptsOf job.deliveryId = s.pg.db.attemptsOf job.deliveryId ++ [a]) :
    ClassifiedAs env (Occurs (step env) (LosesLock t) {} ls) reply s.pg.db s'.pg.db job.deliveryId
        a.outcome ↔
      Occurs (step env) (LosesLock t) {} ls ∨ (∃ status text, reply = .response status text) ∨
        ∃ e, reply = .thrown e ∧ ¬ e.TimedOut ∧ ¬ e.SaysTimeout := by
  rw [classified_iff hrun ht hk hreply h ha]
  refine or_congr_right ⟨fun hsaid => ?_, ?_⟩
  · cases reply with
    | response status text => exact Or.inl ⟨status, text, rfl⟩
    | thrown e =>
      have hno : ¬ e.TimedOut := fun he => hundici e rfl he ((hsaid e rfl).mp he)
      exact Or.inr ⟨e, rfl, hno, fun he => hno ((hsaid e rfl).mpr he)⟩
  · rintro (⟨status, text, rfl⟩ | ⟨e, rfl, hno, hsaid⟩) e' he'
    · cases he'
    · cases he'
      exact ⟨fun h => absurd h hno, fun h => absurd h hsaid⟩

/-- The headers timeout of undici. -/
def headersTimeout : JsError :=
  ⟨true, "HeadersTimeoutError", "Headers Timeout Error", some "UND_ERR_HEADERS_TIMEOUT"⟩

/-- The sample delivery, `n` calls after its processor began to wait for `reply`. -/
def sampleReply (reply : HttpReply) (n : ℕ) : List Label := sampleAwait ++ calls 1 n { reply := reply }

/-- The processor of the sample is about to record its first attempt, and has not lost its lock. -/
def Thread.concludes (th : Thread) (reply : HttpReply) : Bool :=
  match th.kind with
  | .deliver job => job.deliveryId = 2 ∧ th.facts.reply = some reply ∧ th.facts.lost = some false
  | _ => false

theorem sample_concluded (reply : HttpReply) (n : ℕ)
    (h : (runOf (step sampleEnv) NoCalls {} (sampleReply reply n)).any (fun s =>
      (s.live? 1).any (fun th => th.concludes reply) && s.pg.db.attemptsOf 2 = [] &&
        (step sampleEnv s (.op 1 {})).any fun s' => (s'.pg.db.attemptsOf 2).length = 1) = true) :
    ∃ s th job s' a, Run (step sampleEnv) NoCalls {} (sampleReply reply n) s ∧ s.live? 1 = some th ∧
      th.kind = .deliver job ∧ job.deliveryId = 2 ∧ (⟨.httpAwait, reply⟩ : Event) ∈ th.trace ∧
        step sampleEnv s (.op 1 {}) = some s' ∧
          s'.pg.db.attemptsOf job.deliveryId = s.pg.db.attemptsOf job.deliveryId ++ [a] ∧
            ¬ Occurs (step sampleEnv) (LosesLock 1) {} (sampleReply reply n) := by
  obtain ⟨s, hrun, hs⟩ := exists_run h
  simp only [Bool.and_eq_true, decide_eq_true_eq] at hs
  obtain ⟨⟨hany, hnone⟩, hone⟩ := hs
  obtain ⟨th, ht, hth⟩ := (Option.any_eq_true _ _).mp hany
  obtain ⟨s', hstep, hlen⟩ := (Option.any_eq_true _ _).mp hone
  obtain ⟨a, ha⟩ := List.length_eq_one_iff.mp (of_decide_eq_true hlen)
  unfold Thread.concludes at hth
  split at hth
  · rename_i job hk
    obtain ⟨hd, hreply, hlost⟩ := of_decide_eq_true hth
    obtain ⟨l₁, l₂, htrace, -⟩ := lawful_reply (reachable_lawfulTrace ⟨_, hrun⟩ 1 th ht) hreply
    refine ⟨s, th, job, s', a, hrun, ht, hk, hd, ?_, hstep, ?_, fun hocc => ?_⟩
    · rw [htrace]
      simp
    · rw [hd, hnone, ha]
      rfl
    · cases ((run_heeds hrun 1).read th false ht hlost).mpr hocc
  · cases hth

theorem outcome_faithful_iff_ok : ∃ s s' : State, ∃ a : AttemptRow,
    s'.pg.db.attemptsOf 2 = s.pg.db.attemptsOf 2 ++ [a] ∧ ClassifiedAs sampleEnv
      (Occurs (step sampleEnv) (LosesLock 1) {} (sampleReply (.response 200 "ok") 12))
        (.response 200 "ok") s.pg.db s'.pg.db 2 a.outcome := by
  obtain ⟨s, th, job, s', a, hrun, ht, hk, hd, hreply, hstep, ha, -⟩ :=
    sample_concluded (.response 200 "ok") 12 (by decide +kernel)
  have h := (outcome_faithful_iff hrun ht hk hreply (fun e he => by cases he) hstep ha).mpr
    (Or.inr (Or.inl ⟨200, "ok", rfl⟩))
  rw [hd] at ha h
  exact ⟨s, s', a, ha, h⟩

/-- A timeout of undici is recorded as something else. -/
theorem timeout_misclassified : ¬ ∀ (s s' : State) (ls : List Label) (t : Tid) (th : Thread)
    (job : JobRef) (reply : HttpReply) (c : Choice) (a : AttemptRow),
      Run (step sampleEnv) NoCalls {} ls s → s.live? t = some th → th.kind = .deliver job →
        (⟨.httpAwait, reply⟩ : Event) ∈ th.trace →
          (∀ e, reply = .thrown e → e.TimedOut → ¬ e.SaysTimeout) →
            step sampleEnv s (.op t c) = some s' →
              s'.pg.db.attemptsOf job.deliveryId = s.pg.db.attemptsOf job.deliveryId ++ [a] →
                ClassifiedAs sampleEnv (Occurs (step sampleEnv) (LosesLock t) {} ls) reply s.pg.db
                  s'.pg.db job.deliveryId a.outcome := by
  intro h
  obtain ⟨s, th, job, s', a, hrun, ht, hk, -, hreply, hstep, ha, hheld⟩ :=
    sample_concluded (.thrown headersTimeout) 13 (by decide +kernel)
  have hquiet : ¬ headersTimeout.SaysTimeout := fun hsaid => by
    have := (classify_eq headersTimeout).mpr hsaid
    revert this
    decide +kernel
  have hclass := h s s' _ 1 th job _ _ a hrun ht hk hreply (fun e he _ => by cases he; exact hquiet)
    hstep ha
  have hsaid := ((classified_iff hrun ht hk hreply hstep ha).mp hclass).resolve_left hheld
  exact hquiet ((hsaid headersTimeout rfl).mp ⟨"UND_ERR_HEADERS_TIMEOUT", by decide, rfl⟩)

end WebhookEngine
