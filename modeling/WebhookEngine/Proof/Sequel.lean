import WebhookEngine.Proof.TerminalLock

set_option autoImplicit false

/-!
# What follows an exchange

* `Sequel`: what the calls of a processor say about its attempt since the HTTP exchange ended: the
  answer, what was written, and whether the INSERT was refused or the COMMIT answered.
* `sequels`: the monitor. It expects that no command fails and no statement but the INSERT does.
* **`safe_sequels`**: then a processor ends with its attempt recorded or refused.
-/

namespace WebhookEngine

open EffectProg TransitionSystem

variable {env : Env} {α : Type}

/-- What the calls of a processor say since its exchange ended. -/
structure Sequel where
  reply : Option HttpReply := none
  /-- What `lockLost` was when it was read. -/
  lost : Option Bool := none
  /-- The attempt that was inserted. -/
  wrote : Option AttemptData := none
  /-- The INSERT of the attempt failed. -/
  refused : Bool := false
  /-- The COMMIT of the attempt was answered. -/
  recorded : Bool := false

/-- How the sequel follows a call. -/
def Sequel.next (m : Sequel) : (e : Eff) → e.Resp → Sequel
  | .httpAwait, r => { m with reply := some r }
  | .readLockLost, b => { m with lost := some b }
  | .sql (.write (.insertAttempt a)), .ok _ => if m.reply.isSome then { m with wrote := some a } else m
  | .sql (.write (.insertAttempt _)), .error _ =>
    if m.reply.isSome then { m with refused := true } else m
  | .sql .commit, .ok _ => if m.reply.isSome then { m with recorded := true } else m
  | _, _ => m

/-- The sequel of an execution, from its calls, latest first. -/
def sequel : List Event → Sequel
  | [] => {}
  | ev :: trace => (sequel trace).next ev.1 ev.2

def Thread.sequel (th : Thread) : Sequel := WebhookEngine.sequel th.trace

/-- What is kept of the body of a response. -/
def keptBody (env : Env) (text : String) : String :=
  String.ofList (sliceUtf16 env.maxResponseBodyBytes text.toList)

/-- The attempt is that of a response. -/
structure AttemptData.Tells (a : AttemptData) (env : Env) (status : ℕ) (text : String) : Prop where
  httpStatus : a.httpStatus = some status
  body : a.responseBody = some (keptBody env text)
  message : textOk a.errorMessage = true
  outcome : a.outcome = if 200 ≤ status ∧ status < 300 then .success else .httpError

/-- After the exchange there is one transaction, which starts with its attempt. -/
def permitsSequel (env : Env) (m : Sequel) : Eff → Prop
  | .sql .begin => m.wrote = none
  | .sql .commit => m.wrote.isSome ∧ m.recorded = false
  | .sql (.write (.insertAttempt a)) => m.recorded = false ∧ ∀ status text,
      m.reply = some (.response status text) → m.lost ≠ some true → a.Tells env status text
  | _ => True

/-- No command fails, and no statement but the INSERT of the attempt. -/
def Answered : (e : Eff) → e.Resp → Prop
  | .sql (.write (.insertAttempt _)), _ => True
  | .sql _, r => ∃ a, r = .ok a
  | .redis _, r => ∃ a, r = .ok a
  | _, _ => True

def sequels (env : Env) : Monitor Eff Eff.Resp Sequel where
  next := Sequel.next
  permits m e := m.reply.isSome → permitsSequel env m e
  expects m e r := m.reply.isSome → Answered e r

/-- The attempt was recorded or refused. -/
def Sequel.Closed (m : Sequel) : Prop := m.reply.isSome → m.refused = true ∨ m.recorded = true

/-! ## Before the exchange -/

/-- Calls that are not part of the exchange. -/
def Offline : Eff → Prop
  | .httpAwait => False
  | .readLockLost => False
  | _ => True

theorem Neutral.offline (e : Eff) (h : Neutral e) : Offline e := by
  cases e <;> first | exact h.elim | trivial

theorem offline_sql (q : Sql) : (sql q).Uses Offline := uses_sql trivial

theorem offline_withTx {fn : Code α} (h : fn.Uses Offline) : (withTx fn).Uses Offline :=
  uses_withTx trivial trivial trivial trivial h

theorem offline_transition (d : DeliveryId) (f g : Status) (a : Actor) (reason : String) :
    (transition d f g a reason).Uses Offline :=
  offline_withTx ((offline_sql _).bind fun _ => (offline_sql _).bind fun _ => trivial)

theorem offline_recordAttempt (input : RecordAttemptInput) : (recordAttempt input).Uses Offline :=
  offline_withTx ((offline_sql _).bind fun _ => (offline_sql _).bind fun _ =>
    (offline_sql _).bind fun _ => trivial)

theorem offline_park {id : JobId} {u : Time} :
    ((moveToDelayed id u).bind fun _ => (Prog.raise .delayed : Code α)).Uses Offline :=
  (uses_await (by trivial)).bind fun _ => trivial

theorem offline_pickup (job : JobRef) : (pickup env job).Uses Offline := by
  refine (offline_sql _).bind fun delivery => ?_
  match delivery with
  | none => trivial
  | some r =>
    change Prog.Uses _ (if r.status = .delivered ∨ r.status = .dlq then _ else _)
    split
    · trivial
    split
    · exact (uses_call (by trivial)).bind fun _ => offline_park
    refine ((uses_checkState _).mono Neutral.offline).bind fun b => ?_
    split
    · exact (uses_call (by trivial)).bind fun _ => (uses_call (by trivial)).bind fun _ =>
        (uses_call (by trivial)).bind fun _ => (offline_recordAttempt _).bind fun _ => trivial
    · refine ((uses_tryAcquire _).mono Neutral.offline).bind fun got => ?_
      split
      · trivial
      · exact (uses_call (by trivial)).bind fun _ => (uses_call (by trivial)).bind fun _ =>
          offline_park

theorem offline_cleanup (job : JobRef) (token : Tid) (held : Option EndpointId) :
    (cleanup env job token held).Uses Offline := by
  refine Prog.Uses.bind ?_ fun _ => (uses_await (by trivial)).bind fun _ => trivial
  cases held with
  | none => trivial
  | some ep => exact (uses_releaseBucketToken ep).mono Neutral.offline

/-! ## Rules -/

variable {m : Sequel}

theorem safe_offline {p : Code α} {Q : Sequel → Except Err α → Prop} (hp : p.Uses Offline)
    (hQ : ∀ r, Q {} r) : Prog.Safe (sequels env) {} p Q := by
  refine hp.safe (fun e he => ⟨nofun, fun r => ?_⟩) hQ
  cases e with
  | sql q =>
    cases q with
    | write st => cases st <;> cases r <;> rfl
    | _ => cases r <;> rfl
  | httpAwait => exact he.elim
  | readLockLost => exact he.elim
  | _ => rfl

/-- Calls that the sequel does not follow. -/
def Detached : Eff → Prop
  | .sql _ => False
  | e => Offline e

theorem safe_detached {p : Code α} {Q : Sequel → Except Err α → Prop} (hp : p.Uses Detached)
    (hQ : ∀ r, Q m r) : Prog.Safe (sequels env) m p Q := by
  refine hp.safe (fun e he => ?_) hQ
  cases e with
  | sql q => exact he.elim
  | httpAwait => exact he.elim
  | readLockLost => exact he.elim
  | _ => exact ⟨fun _ => trivial, fun r => rfl⟩

theorem safe_call_detached {e : Eff} {Q : Sequel → Except Err e.Resp → Prop} (h : Detached e)
    (hQ : ∀ r, Q m (.ok r)) : Prog.Safe (sequels env) m (call e) Q := by
  have hnext : ∀ r, m.next e r = m := by
    intro r
    cases e with
    | sql q => exact h.elim
    | httpAwait => exact h.elim
    | readLockLost => exact h.elim
    | _ => rfl
  refine ⟨fun _ => ?_, fun r _ => ?_⟩
  · cases e with
    | sql q => exact h.elim
    | _ => trivial
  · change Q (m.next e r) (.ok r)
    rw [hnext r]
    exact hQ r

theorem Neutral.detached (e : Eff) (h : Neutral e) : Detached e := by
  cases e <;> first | exact h.elim | trivial

theorem detached_redis (c : RedisCmd) : (redis c).Uses Detached := uses_redis trivial

theorem safe_redis_answered {c : RedisCmd} {Q : Sequel → Except Err c.Ret → Prop}
    (hr : m.reply.isSome) (hQ : ∀ a, Q m (.ok a)) : Prog.Safe (sequels env) m (redis c) Q := by
  unfold redis await
  refine Prog.safe_bind.mpr ⟨fun _ => trivial, fun r hans => Prog.safe_ofExcept.mpr ?_⟩
  obtain ⟨a, rfl⟩ := hans hr
  exact hQ a

theorem safe_sql_sequel {q : Sql} {Q : Sequel → Except Err q.Ret → Prop} (hr : m.reply.isSome)
    (hp : permitsSequel env m (.sql q)) (hQ : ∀ r, Answered (.sql q) r → Q (m.next (.sql q) r) r) :
    Prog.Safe (sequels env) m (sql q) Q := by
  unfold sql await
  exact Prog.safe_bind.mpr ⟨fun _ => hp, fun r hans => Prog.safe_ofExcept.mpr (hQ r (hans hr))⟩

theorem safe_sql_answered {q : Sql} {Q : Sequel → Except Err q.Ret → Prop} (hr : m.reply.isSome)
    (hp : permitsSequel env m (.sql q)) (hans : ∀ r, Answered (.sql q) r → ∃ a, r = .ok a)
    (hn : ∀ a, m.next (.sql q) (.ok a) = m) (hQ : ∀ a, Q m (.ok a)) :
    Prog.Safe (sequels env) m (sql q) Q := by
  refine safe_sql_sequel hr hp fun r hr => ?_
  obtain ⟨a, rfl⟩ := hans r hr
  rw [hn a]
  exact hQ a

/-- **The rule of `recordAttempt` after the exchange.** -/
theorem safe_recordAttempt_sequel {input : RecordAttemptInput}
    {Q : Sequel → Except Err Unit → Prop} (hr : m.reply.isSome) (hw : m.wrote = none)
    (hrec : m.recorded = false)
    (htells : ∀ status text, m.reply = some (.response status text) → m.lost ≠ some true →
      input.toAttemptData.Tells env status text)
    (hrefused : ∀ m' y, m'.Closed → Q m' (.error y)) (hrecorded : ∀ m', m'.Closed → Q m' (.ok ())) :
    Prog.Safe (sequels env) m (recordAttempt input) Q := by
  refine Prog.safe_bind.mpr
    (safe_sql_answered hr trivial (fun _ h => h) (fun _ => rfl) fun _ => ?_)
  refine Prog.safe_tryCatch.mpr (Prog.safe_bind.mpr
    (safe_sql_answered hr hw (fun _ h => h) (fun _ => rfl) fun _ => ?_))
  refine Prog.safe_bind.mpr (Prog.safe_bind.mpr (safe_sql_sequel hr ⟨hrec, htells⟩ fun r _ => ?_))
  cases r with
  | error y =>
    have hnext : m.next (.sql (.write (.insertAttempt input.toAttemptData))) (.error y) =
        { m with refused := true } := if_pos hr
    rw [hnext]
    refine Prog.safe_bind.mpr
      (safe_sql_answered hr trivial (fun _ h => h) (fun _ => rfl) fun _ => ?_)
    exact hrefused _ y fun _ => Or.inl rfl
  | ok a =>
    have hnext : m.next (.sql (.write (.insertAttempt input.toAttemptData))) (.ok a) =
        { m with wrote := some input.toAttemptData } := if_pos hr
    rw [hnext]
    refine Prog.safe_bind.mpr
      (safe_sql_answered hr trivial (fun _ h => h) (fun _ => rfl) fun _ => ?_)
    refine Prog.safe_bind.mpr
      (safe_sql_answered hr trivial (fun _ h => h) (fun _ => rfl) fun _ => ?_)
    refine Prog.safe_bind.mpr (safe_sql_sequel hr ⟨rfl, hrec⟩ fun r hans => ?_)
    obtain ⟨_, rfl⟩ := hans
    have hend : Sequel.next { m with wrote := some input.toAttemptData } (.sql .commit) (.ok ()) =
        { m with wrote := some input.toAttemptData, recorded := true } := if_pos hr
    have hclosed : Sequel.Closed
        (Sequel.next { m with wrote := some input.toAttemptData } (.sql .commit) (.ok ())) := by
      rw [hend]
      exact fun _ => Or.inr rfl
    exact hrecorded _ hclosed

theorem safe_noteOutcome_sequel {p : Pickup} {o : AttemptOutcome}
    {Q : Sequel → Except Err Unit → Prop} (hr : m.reply.isSome) (hQ : Q m (.ok ())) :
    Prog.Safe (sequels env) m (noteOutcome env p o) Q := by
  have hredis : ∀ {c : RedisCmd} {f : c.Ret → Code Unit},
      (∀ a, Prog.Safe (sequels env) m (f a) Q) →
        Prog.Safe (sequels env) m ((redis c).bind f) Q :=
    fun hf => Prog.safe_bind.mpr (safe_redis_answered hr hf)
  unfold noteOutcome onProbeResult recordFailure
  split
  · split
    · exact hredis fun _ => hQ
    · exact hredis fun _ => hredis fun _ => hQ
  split
  · refine hredis fun fails => hredis fun _ => ?_
    split
    · exact hredis fun _ => hQ
    · exact hQ
  · exact hQ

/-! ## The processor -/

theorem textOk_message (n : ℕ) : textOk (some ("HTTP " ++ toString n)) = true := by
  have hdigits : Char.ofNat 0 ∉ (toString n).toList := by
    intro h
    have : (Char.ofNat 0).isDigit = true := by
      refine Nat.isDigit_of_mem_toDigits (b := 10) (n := n) (by decide) (by decide) ?_
      simpa [toString, Nat.repr] using h
    revert this
    decide
  have hlabel : Char.ofNat 0 ∉ "HTTP ".toList := by decide
  simp only [textOk, Option.all_some, Bool.not_eq_true', List.contains_eq_mem, String.toList_append,
    List.mem_append, decide_eq_false_iff_not]
  rintro (h | h)
  · exact hlabel h
  · exact hdigits h

theorem examine_response (env : Env) (status : ℕ) (text : String) (latency : Int) :
    ∃ message reason, examine env false (.ok ⟨status, keptBody env text, latency⟩) =
      ⟨if 200 ≤ status ∧ status < 300 then .success else .httpError, some status,
        some (keptBody env text), message, reason⟩ ∧ textOk message = true := by
  by_cases h : 200 ≤ status ∧ status < 300
  · exact ⟨none, _, by simp [examine, h]; rfl, rfl⟩
  · exact ⟨_, _, by simp [examine, h]; rfl, textOk_message status⟩

theorem safe_deliver_sequel {req : HttpRequest}
    {Q : Sequel → Except Err (Except Thrown DeliverResult) → Prop}
    (hQ : ∀ reply result, (∀ status text, reply = .response status text →
      ∃ latency, result = .ok ⟨status, keptBody env text, latency⟩) →
        Q { reply := some reply } (.ok result)) :
    Prog.Safe (sequels env) {} (withLockHeartbeat (deliver env req)) Q := by
  refine Prog.safe_bind.mpr (safe_call_detached (by trivial) fun _ => Prog.safe_andFinally.mpr ?_)
  refine Prog.safe_bind.mpr (safe_call_detached (by trivial) fun startedAt => ?_)
  refine Prog.safe_bind.mpr (safe_call_detached (by trivial) fun _ => ?_)
  refine Prog.safe_bind.mpr ⟨nofun, fun reply _ => ?_⟩
  cases reply with
  | response status text =>
    refine Prog.safe_bind.mpr (safe_call_detached (by trivial) fun finishedAt => ?_)
    refine Prog.safe_bind.mpr (safe_call_detached (by trivial) fun _ => ?_)
    refine hQ _ _ fun status' text' he => ?_
    cases he
    exact ⟨_, rfl⟩
  | thrown e => exact Prog.safe_bind.mpr (safe_call_detached (by trivial) fun _ => hQ _ _ nofun)

theorem safe_attemptDelivery_sequel {job : JobRef} {p : Pickup} {Q : Sequel → Except Err Unit → Prop}
    (hQ : ∀ m r, m.Closed → Q m r) :
    Prog.Safe (sequels env) {} (attemptDelivery env job p) Q := by
  refine Prog.safe_bind.mpr (safe_offline (offline_transition _ _ _ _ _) fun r => ?_)
  cases r with
  | error y => exact hQ _ _ nofun
  | ok _ =>
    refine Prog.safe_bind.mpr (safe_call_detached (by trivial) fun nowMs => ?_)
    refine Prog.safe_bind.mpr (safe_call_detached (by trivial) fun startedAt => ?_)
    refine Prog.safe_bind.mpr (safe_deliver_sequel fun reply result hresult => ?_)
    refine Prog.safe_bind.mpr (safe_call_detached (by trivial) fun finishedAt => ?_)
    refine Prog.safe_bind.mpr ⟨fun _ => trivial, fun lost _ => ?_⟩
    refine Prog.safe_bind.mpr (safe_noteOutcome_sequel rfl ?_)
    refine Prog.safe_bind.mpr (safe_call_detached (by trivial) fun now => ?_)
    refine Prog.safe_bind.mpr (safe_call_detached (by trivial) fun k => ?_)
    refine Prog.safe_bind.mpr (safe_recordAttempt_sequel rfl rfl rfl ?_ (fun m y hm => hQ m _ hm)
      fun m hm => ?_)
    · intro status text hreply hlost
      have hlost : lost = false := Bool.not_eq_true _ ▸ fun h => hlost (congrArg some h)
      obtain ⟨latency, rfl⟩ := hresult status text (Option.some.inj hreply)
      subst hlost
      obtain ⟨message, reason, hfound, hmessage⟩ := examine_response env status text latency
      refine ⟨?_, ?_, ?_, ?_⟩
      · exact congrArg Finding.httpStatus hfound
      · exact congrArg Finding.responseBody hfound
      · exact (congrArg (fun f => textOk f.errorMessage) hfound).trans hmessage
      · exact congrArg Finding.outcome hfound
    · dsimp only
      split <;> exact hQ m _ hm

/-- **A processor whose exchange has ended records its attempt, or its INSERT fails**, as long as
nothing else does. -/
theorem safe_sequels (job : JobRef) (t : Tid) :
    Prog.Safe (sequels env) {} (processDelivery env job t) fun m _ => m.Closed := by
  have hcleanup : ∀ (m : Sequel) (held : Option EndpointId), m.Closed →
      Prog.Safe (sequels env) m (cleanup env job t held) fun m _ => m.Closed := by
    intro m held hm
    refine safe_detached (Prog.Uses.bind ?_ fun _ => (detached_redis _).bind fun _ => trivial)
      fun _ => hm
    cases held with
    | none => trivial
    | some ep => exact (uses_releaseBucketToken ep).mono Neutral.detached
  refine Prog.safe_bind.mpr (safe_offline (uses_await (by trivial)) fun acquired => ?_)
  match acquired with
  | .error y => exact nofun
  | .ok false =>
    exact safe_offline ((uses_call (by trivial)).bind fun now => offline_park) fun r => nofun
  | .ok true =>
    refine Prog.safe_bind.mpr (Prog.safe_tryCatch.mpr (safe_offline (offline_pickup job) fun r => ?_))
    match r with
    | .error y =>
      refine Prog.safe_bind.mpr (safe_offline (offline_cleanup _ _ _) fun r => ?_)
      cases r <;> exact nofun
    | .ok none => exact safe_offline (offline_cleanup _ _ _) fun r => nofun
    | .ok (some p) =>
      refine Prog.safe_andFinally.mpr (safe_attemptDelivery_sequel fun m r hm => ?_)
      refine (hcleanup m _ hm).mono fun m' r' hm' => ?_
      cases r' <;> exact hm'

theorem safe_sequels_program (job : JobRef) (t : Tid) :
    Prog.Safe (sequels env) {} (program env t (.deliver job)) fun m _ => m.Closed := by
  refine Prog.safe_bind.mpr ((safe_sequels job t).mono fun m r hm => ?_)
  cases r <;> exact hm

end WebhookEngine
