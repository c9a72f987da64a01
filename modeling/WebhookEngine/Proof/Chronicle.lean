import WebhookEngine.Proof.Attempts
import WebhookEngine.Proof.Derived
import WebhookEngine.Proof.Watched

set_option autoImplicit false

/-!
# When the attempts were made

Every time a processor stores comes from its own clock, read after it has read the row.

* `Chronicle`: the facts of an execution with the times it has read.
* `AttemptData.WellFormed`: what the columns of an attempt have to do with each other.
* `Chronicle.Stamped`, `Chronicle.Planned`: an attempt and the time of the next one, as they may be
  stored.
* **`safe_chronicles`**: every processor keeps to it.
* `Dossier.Chronicled`, `reachable_chronicled`: what is true of the attempts of every delivery.
-/

namespace WebhookEngine

open EffectProg TransitionSystem

variable {env : Env} {s s' : State} {l : Label} {t u : Tid} {th th' : Thread} {job : JobRef}

/-! ## Attempts -/

/-- **What the columns of an attempt have to do with each other.** -/
def AttemptData.WellFormed (env : Env) (a : AttemptData) : Prop :=
  match a.outcome with
  | .success => a.errorMessage = none ∧ ∃ status body, a.httpStatus = some status ∧ 200 ≤ status ∧
      status < 300 ∧ a.responseBody = some body ∧ jsLength body ≤ env.maxResponseBodyBytes
  | .httpError => ∃ status body, a.httpStatus = some status ∧ ¬ (200 ≤ status ∧ status < 300) ∧
      a.responseBody = some body ∧ jsLength body ≤ env.maxResponseBodyBytes ∧
        a.errorMessage = some ("HTTP " ++ toString status)
  | .timeout => a.httpStatus = none ∧ a.responseBody = none ∧ a.errorMessage.isSome = true
  | .connError => a.httpStatus = none ∧ a.responseBody = none ∧ a.errorMessage.isSome = true
  | .circuitOpen => a.httpStatus = none ∧ a.responseBody = none ∧
      a.errorMessage = some "circuit_open" ∧ a.startedAt = a.finishedAt
  | .lockLost => a.httpStatus = none ∧ a.responseBody = none ∧ a.errorMessage = some "lock_lost"

theorem jsLength_sliceUtf16 (n : ℕ) (cs : List Char) :
    jsLength (String.ofList (sliceUtf16 n cs)) ≤ n := by
  unfold jsLength
  rw [String.toList_ofList]
  fun_induction sliceUtf16 n cs with
  | case1 n => exact Nat.zero_le _
  | case2 c cs => exact Nat.zero_le _
  | case3 c cs h => simp [h]
  | case4 c cs h => decide
  | case5 n c cs h ih =>
    rw [List.map_cons, List.sum_cons, if_pos h]
    omega
  | case6 n c cs h ih =>
    rw [List.map_cons, List.sum_cons, if_neg h]
    omega

/-- Of a response the first units of the text are kept. -/
def DeliverResult.Cut (env : Env) : Except Thrown DeliverResult → Prop
  | .ok res => jsLength res.body ≤ env.maxResponseBodyBytes
  | .error _ => True

/-- **What is made of the HTTP step is well-formed**, whatever the times are. -/
theorem examine_wellFormed {lockLost : Bool} {res : Except Thrown DeliverResult}
    (h : DeliverResult.Cut env res) (d : DeliveryId) (n : ℕ) (latency : Int) (τ τ' : Time) :
    AttemptData.WellFormed env
      { deliveryId := d
        attemptNumber := n
        outcome := (examine env lockLost res).outcome
        httpStatus := (examine env lockLost res).httpStatus
        responseBody := (examine env lockLost res).responseBody
        errorMessage := (examine env lockLost res).errorMessage
        latencyMs := latency
        startedAt := τ
        finishedAt := τ' } := by
  cases lockLost with
  | true => rcases res with (⟨kind, message⟩ | message) | result <;> exact ⟨rfl, rfl, rfl⟩
  | false =>
    rcases res with (⟨kind, message⟩ | message) | result
    · cases kind <;> exact ⟨rfl, rfl, rfl⟩
    · exact ⟨rfl, rfl, rfl⟩
    · by_cases hs : 200 ≤ result.status ∧ result.status < 300
      · simp only [examine, if_pos hs, Bool.false_eq_true, if_false]
        exact ⟨rfl, _, _, rfl, hs.1, hs.2, rfl, h⟩
      · simp only [examine, if_neg hs, Bool.false_eq_true, if_false]
        exact ⟨_, _, rfl, hs, rfl, h, rfl⟩

/-! ## The monitor -/

/-- The facts of an execution with the answers of `Date.now()` since the row was read. -/
structure Chronicle where
  facts : Facts := {}
  times : List Time := []

/-- How the times follow a call. -/
def Chronicle.nextTimes (times : List Time) : (e : Eff) → e.Resp → List Time
  | .dateNow, (τ : ℕ) => τ :: times
  | .sql (.selectForDelivery _), _ => []
  | _, _ => times

/-- How a chronicle follows a call. -/
def Chronicle.next (m : Chronicle) (e : Eff) (r : e.Resp) : Chronicle :=
  ⟨m.facts.next e r, Chronicle.nextTimes m.times e r⟩

/-- **The attempt may be stored**: it has the next number, and was made after the row was read. -/
structure Chronicle.Stamped (env : Env) (m : Chronicle) (a : AttemptData) : Prop where
  number : ∃ r, m.facts.row = some r ∧ a.attemptNumber = r.attemptCount + 1
  started : a.startedAt ∈ m.times
  finished : a.finishedAt ∈ m.times
  order : a.startedAt ≤ a.finishedAt
  latency : a.latencyMs = (a.finishedAt : Int) - a.startedAt
  wellFormed : a.WellFormed env

/-- **The time of the next attempt may be stored with the attempt**: there is none after a success,
and otherwise the backoff is counted from a moment after the attempt. -/
structure Chronicle.Planned (env : Env) (m : Chronicle) (a : AttemptData) (next : Option Time) :
    Prop where
  success : a.outcome = .success → next = none
  failure : a.outcome ≠ .success → ∃ τ ∈ m.times, ∃ k, k < 2 ^ 53 ∧ a.finishedAt ≤ τ ∧
    next = some (τ + webhookBackoff env a.attemptNumber k)

/-- The calls that fit: an attempt is the first write of its transaction. -/
def permitsChronicle (env : Env) (m : Chronicle) : Eff → Prop
  | .sql (.selectForDelivery _) => m.facts.tx = none
  | .sql (.write (.insertAttempt a)) => m.facts.tx = some [] ∧ m.Stamped env a
  | .sql (.write (.updateAttempt _ _ next)) =>
    ∀ a gen, (.insertAttempt a, gen) ∈ m.facts.tx.getD [] → m.Planned env a next
  | _ => True

/-- The clock does not go back, and `Math.random()` is below 1. -/
def expectsChronicle (m : Chronicle) : (e : Eff) → e.Resp → Prop
  | .dateNow, (τ : ℕ) => ∀ σ ∈ m.times, σ ≤ τ
  | .mathRandom, (k : ℕ) => k < 2 ^ 53
  | _, _ => True

/-- The monitor. -/
def chronicles (env : Env) : Monitor Eff Eff.Resp Chronicle where
  next := Chronicle.next
  permits := permitsChronicle env
  expects := expectsChronicle

/-! ## The processor -/

section Program

variable {m : Chronicle} {r : DeliveryForWorker} {τs : List Time} {α β : Type}

/-- The row was read, and these times were answered since. -/
structure Chronicle.Has (m : Chronicle) (r : DeliveryForWorker) (τs : List Time) : Prop where
  row : m.facts.row = some r
  times : ∀ τ ∈ τs, τ ∈ m.times

/-- Calls that read no row and store no attempt. -/
def Unwritten : Eff → Prop
  | .sql (.selectForDelivery _) => False
  | .sql (.write (.insertAttempt _)) => False
  | .sql (.write (.updateAttempt _ _ _)) => False
  | _ => True

theorem Unwritten.permits {e : Eff} (h : Unwritten e) : permitsChronicle env m e := by
  cases e with
  | sql q =>
    cases q with
    | selectForDelivery d => exact h.elim
    | write st =>
      cases st with
      | insertAttempt a => exact h.elim
      | updateAttempt d g next => exact h.elim
      | _ => trivial
    | _ => trivial
  | _ => trivial

theorem Chronicle.mem_nextTimes {times : List Time} {e : Eff} (he : ∀ d, e ≠ .sql (.selectForDelivery d))
    (x : e.Resp) {τ : Time} (h : τ ∈ times) : τ ∈ Chronicle.nextTimes times e x := by
  cases e with
  | sql q =>
    cases q with
    | selectForDelivery d => exact absurd rfl (he d)
    | _ => exact h
  | dateNow => exact List.mem_cons_of_mem _ h
  | _ => exact h

theorem Chronicle.Has.next (h : m.Has r τs) {e : Eff} (he : ∀ d, e ≠ .sql (.selectForDelivery d))
    (x : e.Resp) : (m.next e x).Has r τs :=
  ⟨(Facts.next_row x he).trans h.row, fun τ hτ => Chronicle.mem_nextTimes he x (h.times τ hτ)⟩

theorem Unwritten.keeps {e : Eff} (h : Unwritten e) : ∀ d, e ≠ .sql (.selectForDelivery d) := by
  rintro d rfl
  exact h

theorem safe_unwritten {p : Code α} {Q : Chronicle → Except Err α → Prop} (hp : p.Uses Unwritten)
    (hm : m.Has r τs) (hQ : ∀ m' x, m'.Has r τs → Q m' x) : Prog.Safe (chronicles env) m p Q :=
  hp.keeps (J := fun m => m.Has r τs) hm
    (fun _ _ hm he => ⟨he.permits, fun x => hm.next he.keeps x⟩) hQ

/-- **Sequencing rule** for what comes after the row was read. -/
theorem safe_unwritten_then {p : Code α} {f : α → Code β} {Q : Chronicle → Except Err β → Prop}
    (hp : p.Uses Unwritten) (hm : m.Has r τs) (herr : ∀ m' y, Q m' (.error y))
    (hf : ∀ m' a, m'.Has r τs → Prog.Safe (chronicles env) m' (f a) Q) :
    Prog.Safe (chronicles env) m (p.bind f) Q := by
  refine Prog.safe_bind.mpr (safe_unwritten hp hm fun m' x hm' => ?_)
  cases x with
  | error y => exact herr m' y
  | ok a => exact hf m' a hm'

theorem safe_plain_call_then {e : Eff} {f : e.Resp → Code β} {Q : Chronicle → Except Err β → Prop}
    (he : Unwritten e) (hm : m.Has r τs)
    (hf : ∀ m' x, m'.Has r τs → Prog.Safe (chronicles env) m' (f x) Q) :
    Prog.Safe (chronicles env) m ((call e).bind f) Q :=
  ⟨he.permits, fun x _ => hf _ x (hm.next he.keeps x)⟩

theorem safe_clock {f : Time → Code β} {Q : Chronicle → Except Err β → Prop} (hm : m.Has r τs)
    (hf : ∀ m' τ, m'.Has r (τ :: τs) → (∀ σ ∈ τs, σ ≤ τ) → Prog.Safe (chronicles env) m' (f τ) Q) :
    Prog.Safe (chronicles env) m (dateNow.bind f) Q := by
  refine ⟨trivial, fun τ hτ => hf _ τ ⟨hm.row, fun σ hσ => ?_⟩ fun σ hσ => hτ σ (hm.times σ hσ)⟩
  rcases List.mem_cons.mp hσ with rfl | hσ
  · exact List.mem_cons_self
  · exact List.mem_cons_of_mem _ (hm.times σ hσ)

theorem safe_draw {f : ℕ → Code β} {Q : Chronicle → Except Err β → Prop} (hm : m.Has r τs)
    (hf : ∀ m' k, m'.Has r τs → k < 2 ^ 53 → Prog.Safe (chronicles env) m' (f k) Q) :
    Prog.Safe (chronicles env) m (mathRandom.bind f) Q :=
  ⟨trivial, fun k hk => hf _ k ⟨hm.row, hm.times⟩ hk⟩

/-- **The rule for `recordAttempt`.** -/
theorem safe_recordAttempt_chronicles {input : RecordAttemptInput}
    {Q : Chronicle → Except Err Unit → Prop} (hm : m.Has r τs)
    (hstamp : ∀ m' : Chronicle, m'.Has r τs → m'.Stamped env input.toAttemptData)
    (hplan : ∀ m' : Chronicle, m'.Has r τs → m'.Planned env input.toAttemptData input.nextAttemptAt)
    (hQ : ∀ m' x, m'.Has r τs → Q m' x) :
    Prog.Safe (chronicles env) m (recordAttempt input) Q := by
  refine Prog.safe_bind.mpr (safe_unwritten (uses_sql trivial) hm fun m x hm => ?_)
  cases x with
  | error y => exact hQ m _ hm
  | ok _ =>
    refine Prog.safe_tryCatch.mpr ?_
    -- an error ends in a ROLLBACK
    have hback : ∀ (m : Chronicle) (y : Err), m.Has r τs → Prog.Safe (chronicles env) m
        ((sql .rollback).bind fun _ => Prog.raise y) Q := fun m y hm =>
      safe_unwritten ((uses_sql trivial).bind fun _ => trivial) hm hQ
    refine Prog.safe_bind.mpr ⟨trivial, fun x _ => Prog.safe_ofExcept.mpr ?_⟩
    cases x with
    | error y => exact hback _ y (hm.next (by simp) _)
    | ok _ =>
      have hm1 : (m.next (.sql .begin) (.ok ())).Has r τs := hm.next (by simp) _
      have htx : (m.next (.sql .begin) (.ok ())).facts.tx = some [] := rfl
      refine Prog.safe_bind.mpr (Prog.safe_bind.mpr (Prog.safe_bind.mpr
        ⟨⟨htx, hstamp _ hm1⟩, fun x _ => Prog.safe_ofExcept.mpr ?_⟩))
      have hm2 := hm1.next (e := .sql (.write (.insertAttempt input.toAttemptData))) (by simp) x
      cases x with
      | error y => exact hback _ y hm2
      | ok g =>
        refine Prog.safe_bind.mpr (Prog.safe_bind.mpr ⟨fun a gen ha => ?_, fun x _ =>
          Prog.safe_ofExcept.mpr ?_⟩)
        · -- the attempt is the one of this transaction
          have hmine : a = input.toAttemptData := by
            cases g with
            | none => cases ha
            | some g => exact (Stmt.insertAttempt.inj (Prod.mk.inj (List.mem_singleton.mp ha)).1)
          subst hmine
          exact hplan _ hm2
        have hm3 := hm2.next (e := .sql (.write (.updateAttempt input.deliveryId input.toStatus
          input.nextAttemptAt))) (by simp) x
        cases x with
        | error y => exact hback _ y hm3
        | ok _ =>
          refine Prog.safe_bind.mpr (safe_unwritten (uses_sql trivial) hm3 fun m x hm => ?_)
          cases x with
          | error y => exact hback _ y hm
          | ok _ =>
            refine Prog.safe_bind.mpr (safe_unwritten (uses_sql trivial) hm fun m x hm => ?_)
            cases x with
            | error y => exact hback _ y hm
            | ok _ => exact hQ m _ hm

theorem unwritten_of_neutral {p : Code α} (hp : p.Uses Neutral) : p.Uses Unwritten :=
  hp.mono fun e he => by
    cases e with
    | sql q => exact he.elim
    | _ => trivial

theorem unwritten_transition (d : DeliveryId) (f g : Status) (a : Actor) (reason : String) :
    (transition d f g a reason).Uses Unwritten :=
  uses_withTx trivial trivial trivial trivial
    ((uses_sql trivial).bind fun _ => (uses_sql trivial).bind fun _ => trivial)

theorem unwritten_cleanup (t : Tid) (held : Option EndpointId) :
    (cleanup env job t held).Uses Unwritten :=
  (remote_cleanup job t held).mono fun e he => by
    cases e with
    | redis c => trivial
    | _ => exact he.elim

theorem safe_pickup_chronicles {Q : Chronicle → Except Err (Option Pickup) → Prop}
    (hm : m.facts.tx = none) (herr : ∀ m y, Q m (.error y)) (hnone : ∀ m, Q m (.ok none))
    (hsome : ∀ m p, m.Has p.delivery [] → Q m (.ok (some p))) :
    Prog.Safe (chronicles env) m (pickup env job) Q := by
  refine Prog.safe_bind.mpr ⟨hm, fun x _ => Prog.safe_ofExcept.mpr ?_⟩
  match x with
  | .error y => exact herr _ y
  | .ok none => exact hnone _
  | .ok (some r) =>
    have hm : (m.next (.sql (.selectForDelivery job.deliveryId)) (.ok (some r))).Has r [] :=
      ⟨rfl, nofun⟩
    change Prog.Safe _ (m.next (.sql (.selectForDelivery job.deliveryId)) (.ok (some r))) _ _
    generalize m.next (.sql (.selectForDelivery job.deliveryId)) (.ok (some r)) = m at hm
    dsimp only
    split
    · exact hnone _
    split
    · refine safe_clock hm fun m now hm _ => ?_
      exact safe_unwritten_then (uses_await trivial) hm herr fun m _ _ => herr m _
    refine safe_unwritten_then (unwritten_of_neutral (uses_checkState _)) hm herr fun m breaker hm => ?_
    split
    · refine safe_clock hm fun m now hm _ => safe_clock hm fun m later hm hle => ?_
      refine safe_draw hm fun m k hm hk => Prog.safe_bind.mpr ?_
      have hle : now ≤ later := hle now List.mem_cons_self
      refine safe_recordAttempt_chronicles hm (fun m hm => ⟨⟨r, hm.row, rfl⟩, ?_, ?_, ?_, ?_, ?_⟩)
        (fun m hm => ⟨nofun, fun _ => ⟨later, hm.times _ List.mem_cons_self, k, hk, hle, rfl⟩⟩) ?_
      · exact hm.times now (List.mem_cons_of_mem _ List.mem_cons_self)
      · exact hm.times now (List.mem_cons_of_mem _ List.mem_cons_self)
      · exact Nat.le_refl _
      · exact (Int.sub_self _).symm
      · exact ⟨rfl, rfl, rfl, rfl⟩
      · intro m x hm
        cases x <;> exact herr m _
    refine safe_unwritten_then (unwritten_of_neutral (uses_tryAcquire _)) hm herr fun m got hm => ?_
    split
    · exact hsome m _ hm
    · refine safe_draw hm fun m k hm _ => safe_clock hm fun m now hm _ => ?_
      exact safe_unwritten_then (uses_await trivial) hm herr fun m _ _ => herr m _

/-- The exchange takes place after the times already read, and its result is cut. -/
theorem safe_exchange {req : HttpRequest}
    {Q : Chronicle → Except Err (Except Thrown DeliverResult) → Prop} (hm : m.Has r τs)
    (hQ : ∀ m' res, m'.Has r τs → DeliverResult.Cut env res → Q m' (.ok res)) :
    Prog.Safe (chronicles env) m (withLockHeartbeat (deliver env req)) Q := by
  refine safe_plain_call_then trivial hm fun m _ hm => Prog.safe_andFinally.mpr ?_
  have hclear : ∀ (m : Chronicle) (res : Except Thrown DeliverResult), m.Has r τs →
      DeliverResult.Cut env res → Prog.Safe (chronicles env) m
        ((call .clearInterval).bind fun _ => Prog.ret ()) fun m'' r' =>
          match r' with
          | .ok _ => Q m'' (.ok res)
          | .error x => Q m'' (.error x) := fun m res hm hcut =>
    ⟨trivial, fun _ _ => hQ _ res ⟨hm.row, hm.times⟩ hcut⟩
  refine safe_clock hm fun m startedAt hm _ => ?_
  refine safe_plain_call_then trivial hm fun m _ hm => ?_
  refine safe_plain_call_then trivial hm fun m reply hm => ?_
  have hm : m.Has r τs := ⟨hm.row, fun τ hτ => hm.times τ (List.mem_cons_of_mem _ hτ)⟩
  cases reply with
  | response status text =>
    refine safe_clock hm fun m finishedAt hm _ => hclear _ _ ⟨hm.row, fun τ hτ =>
      hm.times τ (List.mem_cons_of_mem _ hτ)⟩ ?_
    exact jsLength_sliceUtf16 _ _
  | thrown e => exact hclear _ _ hm trivial

theorem safe_attemptDelivery_chronicles {p : Pickup} {Q : Chronicle → Except Err Unit → Prop}
    (hm : m.Has p.delivery []) (hQ : ∀ m' x, Q m' x) :
    Prog.Safe (chronicles env) m (attemptDelivery env job p) Q := by
  have herr : ∀ m' y, Q m' (.error y) := fun m' y => hQ m' _
  refine safe_unwritten_then (unwritten_transition _ _ _ _ _) hm herr fun m _ hm => ?_
  refine safe_clock hm fun m nowMs hm _ => safe_clock hm fun m startedAt hm _ => ?_
  refine Prog.safe_bind.mpr (safe_exchange hm fun m result hm hcut => ?_)
  refine safe_clock hm fun m finishedAt hm hle => ?_
  have hle : startedAt ≤ finishedAt := hle _ List.mem_cons_self
  refine safe_plain_call_then trivial hm fun m lockLost hm => ?_
  refine safe_unwritten_then (unwritten_of_neutral (uses_noteOutcome _ _)) hm herr fun m _ hm => ?_
  refine safe_clock hm fun m now hm hnow => safe_draw hm fun m k hm hk => ?_
  have hnow : finishedAt ≤ now := hnow _ List.mem_cons_self
  refine Prog.safe_bind.mpr (safe_recordAttempt_chronicles hm
    (fun m hm => ⟨⟨_, hm.row, rfl⟩, ?_, ?_, hle, rfl, examine_wellFormed hcut _ _ _ _ _⟩)
    (fun m hm => ⟨fun ho => if_pos ho, fun ho => ⟨now, hm.times _ List.mem_cons_self, k, hk, hnow,
      if_neg ho⟩⟩) ?_)
  · exact hm.times _ (List.mem_cons_of_mem _ (List.mem_cons_of_mem _ List.mem_cons_self))
  · exact hm.times _ (List.mem_cons_of_mem _ List.mem_cons_self)
  · intro m x _
    cases x with
    | error y => exact herr m y
    | ok _ =>
      dsimp only
      split <;> exact hQ _ _

/-- A program that keeps no row may do what it wants but read one and store attempts. -/
theorem safe_unwritten_end {p : Code α} {Q : Chronicle → Except Err α → Prop} (hp : p.Uses Unwritten)
    (hQ : ∀ m' x, Q m' x) : Prog.Safe (chronicles env) m p Q :=
  hp.keeps (J := fun _ => True) trivial (fun _ _ _ he => ⟨he.permits, fun _ => trivial⟩)
    fun m' x _ => hQ m' x

/-- **Every processor stores the times it has read, after the row.** -/
theorem safe_chronicles (job : JobRef) (t : Tid) :
    Prog.Safe (chronicles env) {} (program env t (.deliver job)) fun _ _ => True := by
  refine Prog.safe_bind.mpr (Prog.Safe.mono (Q := fun _ _ => True) ?_ fun m x _ => ?_)
  · refine Prog.safe_bind.mpr ⟨trivial, fun x _ => Prog.safe_ofExcept.mpr ?_⟩
    match x with
    | .error y => trivial
    | .ok false =>
      exact safe_unwritten_end ((uses_call trivial).bind fun now =>
        (uses_await trivial).bind fun _ => trivial) fun _ _ => trivial
    | .ok true =>
      refine Prog.safe_bind.mpr (Prog.safe_tryCatch.mpr
        (safe_pickup_chronicles rfl (fun m y => ?_) (fun m => ?_) fun m p hm => ?_))
      · refine Prog.safe_bind.mpr (safe_unwritten_end (unwritten_cleanup _ _) fun m x => ?_)
        cases x <;> trivial
      · exact safe_unwritten_end (unwritten_cleanup _ _) fun _ _ => trivial
      · refine Prog.safe_andFinally.mpr (safe_attemptDelivery_chronicles hm fun m x => ?_)
        refine safe_unwritten_end (unwritten_cleanup _ _) fun m x' => ?_
        cases x' <;> trivial
  · cases x <;> trivial

end Program

/-! ## The clock of the system -/

variable {C : State → Label → Prop}

theorem step_now (h : step env s l = some s') : s.now ≤ s'.now := by
  cases step_happens h with
  | op hadv => exact Nat.le_of_eq (by rw [hadv.world]; exact (perform_now hadv.done).1.symm)
  | settle _ _ hset => cases hset <;> exact Nat.le_refl _
  | tick => exact Nat.le_add_right _ _
  | _ => exact Nat.le_refl _

/-- What an execution knows, with the times it has read. -/
abbrev Thread.chronicle (env : Env) (th : Thread) : Chronicle := th.watched (chronicles env) {}

theorem chronicle_facts (trace : List Event) :
    ((chronicles env).after {} trace).facts = facts trace := by
  induction trace with
  | nil => rfl
  | cons ev trace ih => exact congrArg (fun m : Facts => m.next ev.1 ev.2) ih

theorem Chronicle.nextTimes_mem {times : List Time} {e : Eff} {x : e.Resp} {τ : Time}
    (h : τ ∈ Chronicle.nextTimes times e x) : τ ∈ times ∨ e = .dateNow ∧ HEq x τ := by
  cases e with
  | sql q =>
    cases q with
    | selectForDelivery d => cases h
    | _ => exact Or.inl h
  | dateNow =>
    rcases List.mem_cons.mp h with rfl | h
    · exact Or.inr ⟨rfl, HEq.rfl⟩
    · exact Or.inl h
  | _ => exact Or.inl h

theorem reachable_past (h : Reachable env C s) : ∀ t th, s.live? t = some th →
    ∀ τ ∈ (th.chronicle env).times, τ ≤ s.now := by
  refine h.invariant (I := fun s => ∀ t th, s.live? t = some th →
    ∀ τ ∈ (th.chronicle env).times, τ ≤ s.now) (fun t th ht => by simp [State.live?] at ht) ?_
  intro s l s' hI _ hstep u th' hu τ hτ
  cases step_arises hstep hu with
  | @called c th e x k w m hl hadv hth =>
    subst hth
    rcases Chronicle.nextTimes_mem (e := e) hτ with hτ | ⟨rfl, hx⟩
    · exact Nat.le_trans (hI u th hadv.live τ hτ) (step_now hstep)
    · have hdone := hadv.done
      cases hdone
      rw [← eq_of_heq hx]
      exact step_now hstep
  | kept _ hlive hk =>
    rw [Thread.chronicle, Thread.watched, hk.trace] at hτ
    exact Nat.le_trans (hI u _ hlive τ hτ) (step_now hstep)
  | fresh hlen hk hth =>
    subst hth
    cases hτ

theorem Advance.chronicled {c : Choice} {e : Eff} {x : e.Resp} {k : e.Resp → Code Reply} {w : World}
    {m : Memory} (hr : Reachable env C s) (hadv : Advance s s' t c th e x k w m) :
    expectsChronicle (th.chronicle env) e x := by
  cases e with
  | dateNow =>
    have hdone := hadv.done
    cases hdone
    exact reachable_past hr t th hadv.live
  | mathRandom => exact hadv.fair
  | _ => trivial

/-- **What an open transaction stores.** -/
structure Chronicle.Keeps (env : Env) (m : Chronicle) : Prop where
  stamped : ∀ a gen, (.insertAttempt a, gen) ∈ m.facts.tx.getD [] → m.Stamped env a
  planned : ∀ a gen d g next gen', (.insertAttempt a, gen) ∈ m.facts.tx.getD [] →
    (.updateAttempt d g next, gen') ∈ m.facts.tx.getD [] → m.Planned env a next

theorem Chronicle.Stamped.next {m : Chronicle} {a : AttemptData} (h : m.Stamped env a) {e : Eff}
    (he : ∀ d, e ≠ .sql (.selectForDelivery d)) (x : e.Resp) : (m.next e x).Stamped env a := by
  obtain ⟨⟨r, hr, hn⟩, hs, hf, ho, hl, hw⟩ := h
  exact ⟨⟨r, (Facts.next_row x he).trans hr, hn⟩, Chronicle.mem_nextTimes he x hs,
    Chronicle.mem_nextTimes he x hf, ho, hl, hw⟩

theorem Chronicle.Planned.next {m : Chronicle} {a : AttemptData} {time : Option Time}
    (h : m.Planned env a time) {e : Eff} (he : ∀ d, e ≠ .sql (.selectForDelivery d)) (x : e.Resp) :
    (m.next e x).Planned env a time := by
  refine ⟨h.success, fun ho => ?_⟩
  obtain ⟨τ, hτ, k, hk, hle, hnext⟩ := h.failure ho
  exact ⟨τ, Chronicle.mem_nextTimes he x hτ, k, hk, hle, hnext⟩

/-- **A call keeps it.** -/
theorem Chronicle.Keeps.next {m : Chronicle} (h : m.Keeps env) {e : Eff} {x : e.Resp}
    (hp : permitsChronicle env m e) : (m.next e x).Keeps env := by
  by_cases hq : ∃ d, e = .sql (.selectForDelivery d)
  · -- the row is read outside a transaction
    obtain ⟨d, rfl⟩ := hq
    have hnone : ∀ y : Entry, y ∉ (m.next (.sql (.selectForDelivery d)) x).facts.tx.getD [] := by
      intro y hy
      rcases Facts.next_tx (e := .sql (.selectForDelivery d)) hy with hold | ⟨st, g, he, -⟩
      · rw [show m.facts.tx = none from hp] at hold
        cases hold
      · cases he
    exact ⟨fun a gen ha => absurd ha (hnone _), fun a gen _ _ _ _ ha => absurd ha (hnone _)⟩
  have he : ∀ d, e ≠ .sql (.selectForDelivery d) := fun d hd => hq ⟨d, hd⟩
  refine ⟨fun a gen ha => ?_, fun a gen d g next gen' ha hu => ?_⟩
  · rcases Facts.next_tx ha with hold | ⟨st, g, rfl, heq⟩
    · exact (h.stamped a gen hold).next he x
    · cases heq
      exact hp.2.next he x
  · rcases Facts.next_tx ha with hold | ⟨st, g₁, rfl, heq⟩
    · rcases Facts.next_tx hu with hold' | ⟨st, g₁, rfl, heq'⟩
      · exact (h.planned a gen d g next gen' hold hold').next he x
      · cases heq'
        exact (hp a gen hold).next he x
    · cases heq
      rcases Facts.next_tx hu with hold' | ⟨st, g₁, he', heq'⟩
      · -- the attempt is the first write
        rw [hp.1] at hold'
        cases hold'
      · cases heq'
        cases he'

theorem reachable_keeps (h : Reachable env C s) (ht : s.live? t = some th)
    (hk : th.kind = .deliver job) : (th.chronicle env).Keeps env := by
  refine @reachable_kept env C s Chronicle (fun k => ∃ job, k = .deliver job)
    (fun _ _ => chronicles env) {} (fun _ _ _ _ => True) (Chronicle.Keeps env) ?_ ?_ ?_ ?_ h t th
    (State.live?_eq_some.mp ht).1 ⟨job, hk⟩
  · rintro t k ⟨job, rfl⟩
    exact safe_chronicles job t
  · intro s s' t c th e x k w m hr _ _ hadv _
    exact hadv.chronicled hr
  · exact ⟨nofun, nofun⟩
  · intro t k m e x _ hp _ hm
    exact hm.next hp

/-! ## The attempts of a delivery -/

/-- What is true of the attempts of a delivery. -/
structure Dossier.Chronicled (env : Env) (now : Time) (D : Dossier) : Prop where
  wellFormed : ∀ a ∈ D.attempts, a.WellFormed env
  past : ∀ a ∈ D.attempts, a.startedAt ≤ a.finishedAt ∧ a.finishedAt ≤ now ∧
    a.latencyMs = (a.finishedAt : Int) - a.startedAt
  ordered : ∀ a ∈ D.attempts, ∀ b ∈ D.attempts, a.attemptNumber < b.attemptNumber →
    a.finishedAt ≤ b.startedAt
  unplanned : D.attempts = [] → D.row.nextAttemptAt = none
  planned : ∀ before a, D.attempts = before ++ [a] →
    (a.outcome = .success → D.row.nextAttemptAt = none) ∧
      (a.outcome ≠ .success → ∃ next, D.row.nextAttemptAt = some next ∧
        a.finishedAt + backoffBase env a.attemptNumber / 2 ≤ next ∧
          next ≤ now + backoffBase env a.attemptNumber)

theorem Dossier.Chronicled.later {D D' : Dossier} {now now' : Time} (h : D.Chronicled env now)
    (hnow : now ≤ now') (ha : D'.attempts = D.attempts)
    (hn : D'.row.nextAttemptAt = D.row.nextAttemptAt) : D'.Chronicled env now' := by
  refine ⟨?_, ?_, ?_, ?_, ?_⟩
  · rw [ha]
    exact h.wellFormed
  · rw [ha]
    intro a hmem
    obtain ⟨h1, h2, h3⟩ := h.past a hmem
    exact ⟨h1, Nat.le_trans h2 hnow, h3⟩
  · rw [ha]
    exact h.ordered
  · rw [ha, hn]
    exact h.unplanned
  · rw [ha, hn]
    intro before a heq
    refine ⟨(h.planned before a heq).1, fun ho => ?_⟩
    obtain ⟨next, h1, h2, h3⟩ := (h.planned before a heq).2 ho
    exact ⟨next, h1, h2, Nat.le_trans h3 (Nat.add_le_add_right hnow _)⟩

/-- Every attempt up to the number an execution has read ended before the times it has read since. -/
def Preceded (env : Env) (s : State) : Prop :=
  ∀ t th job r D, s.live? t = some th → th.kind = .deliver job → th.facts.row = some r →
    s.pg.db.dossier? job.deliveryId = some D → ∀ a ∈ D.attempts, a.attemptNumber ≤ r.attemptCount →
      ∀ τ ∈ (th.chronicle env).times, a.finishedAt ≤ τ

theorem story_old (hs : s.Ok) (hcount : Counted s)
    (hcall : ∀ t th, s.live? t = some th → ∀ c, th.kind ≠ .repoCall c)
    (h : step env s l = some s') {d : DeliveryId} {D D' : Dossier} (hD : s.pg.db.dossier? d = some D)
    (hD' : s'.pg.db.dossier? d = some D') {a : AttemptRow} (ha : a ∈ D'.attempts)
    (hn : a.attemptNumber ≤ D.row.attemptCount) : a ∈ D.attempts := by
  rcases story hs h d with hsame | ⟨D₀, τ, hD₀, hsame⟩ | ⟨t, c, th, x, k, w, m, -, hadv, hc⟩
  · rw [hD, hD'] at hsame
    cases hsame
    exact ha
  · rw [hD] at hD₀
    rw [hD'] at hsame
    cases hD₀
    cases hsame
    exact ha
  · rw [hD, hD'] at hc
    cases hc with
    | moved => exact ha
    | @recorded _ b f g next hrec hd hnew id hid gen hm reason τ τ' =>
      rcases List.mem_append.mp ha with hold | hnow
      · exact hold
      · -- the new one has the next number
        have hnext := hcount.next hadv.live (hcall t th hadv.live) hrec (hd ▸ hD) hnew
        rw [List.mem_singleton.mp hnow] at hn
        have hn : b.attemptNumber ≤ D.row.attemptCount := hn
        omega

theorem Preceded.step (hs : s.Ok) (hcount : Counted s)
    (hcall : ∀ t th, s.live? t = some th → ∀ c, th.kind ≠ .repoCall c)
    (hpast : ∀ d D, s.pg.db.dossier? d = some D → D.Chronicled env s.now)
    (h : step env s l = some s') (hI : Preceded env s) : Preceded env s' := by
  have hread : ∀ t th job r D', s.live? t = some th → th.kind = .deliver job →
      th.facts.row = some r → s'.pg.db.dossier? job.deliveryId = some D' →
        ∃ D, s.pg.db.dossier? job.deliveryId = some D ∧
          ∀ a ∈ D'.attempts, a.attemptNumber ≤ r.attemptCount → a ∈ D.attempts := by
    intro t th job r D' ht hk hr hD'
    have hsome := (hs.threads t th ht).knows _ (.row (Or.inl hk) rfl (by rw [hr]; rfl))
    obtain ⟨row, hrow⟩ := Option.isSome_iff_exists.mp hsome
    have hD := congrArg (Option.map fun r =>
      Dossier.mk r (s.pg.db.log job.deliveryId) (s.pg.db.attemptsOf job.deliveryId)) hrow
    refine ⟨_, hD, fun a ha hn => story_old hs hcount hcall h hD hD' ha ?_⟩
    exact Nat.le_trans hn (hcount.read t th job r _ ht (Or.inl hk) hr hD)
  intro t th' job r D' ht hk hr hD' a ha hn τ hτ
  cases step_arises h ht with
  | @called c th e x k w m hl hadv hth =>
    subst hth
    rcases hadv.row hs with hrow | ⟨job', -, rfl, -⟩
    · obtain ⟨D, hD, hold⟩ := hread t th job r D' hadv.live hk (hrow.symm.trans hr) hD'
      rcases Chronicle.nextTimes_mem (e := e) hτ with hτ | ⟨rfl, hx⟩
      · exact hI t th job r D hadv.live hk (hrow.symm.trans hr) hD a (hold a ha hn) hn τ hτ
      · have hdone := hadv.done
        cases hdone
        rw [← eq_of_heq hx]
        exact ((hpast _ D hD).past a (hold a ha hn)).2.1
    · cases hτ
  | @kept th _ hlive hkept =>
    have hf : th'.facts = th.facts := congrArg WebhookEngine.facts hkept.trace
    rw [hkept.kind] at hk
    rw [hf] at hr
    rw [Thread.chronicle, Thread.watched, hkept.trace] at hτ
    obtain ⟨D, hD, hold⟩ := hread t th job r D' hlive hk hr hD'
    exact hI t th job r D hlive hk hr hD a (hold a ha hn) hn τ hτ
  | fresh hlen hstart hth =>
    subst hth
    cases hr

theorem stamped_of_tx (h : Reachable env C s) (ht : s.live? t = some th)
    (hk : th.kind = .deliver job) {a : AttemptData} {gen : ℕ}
    (ha : (.insertAttempt a, gen) ∈ th.facts.tx.getD []) : (th.chronicle env).Stamped env a :=
  (reachable_keeps h ht hk).stamped a gen (by rw [chronicle_facts]; exact ha)

theorem planned_of_tx (h : Reachable env C s) (ht : s.live? t = some th)
    (hk : th.kind = .deliver job) {a : AttemptData} {gen gen' : ℕ} {d : DeliveryId} {g : Status}
    {next : Option Time} (ha : (.insertAttempt a, gen) ∈ th.facts.tx.getD [])
    (hu : (.updateAttempt d g next, gen') ∈ th.facts.tx.getD []) :
    (th.chronicle env).Planned env a next :=
  (reachable_keeps h ht hk).planned a gen d g next gen' (by rw [chronicle_facts]; exact ha)
    (by rw [chronicle_facts]; exact hu)

/-- **A recorded attempt** comes after all others, and the next one after it. -/
theorem Dossier.Chronicled.recorded {m : Chronicle} {D : Dossier} {r : DeliveryForWorker}
    {a : AttemptRow} {id : ℕ} {f g : Status} {next : Option Time} {reason : String} {τ τ' now : Time}
    (h : D.Chronicled env now) (hnum : D.Numbered) (hr : m.facts.row = some r)
    (hcount : a.attemptNumber = D.row.attemptCount + 1)
    (hbefore : ∀ b ∈ D.attempts, b.attemptNumber ≤ r.attemptCount → ∀ σ ∈ m.times, b.finishedAt ≤ σ)
    (hnow : ∀ σ ∈ m.times, σ ≤ now) (hs : m.Stamped env a.toAttemptData)
    (hp : m.Planned env a.toAttemptData next) :
    (D.recorded a id f g next reason τ τ').Chronicled env now := by
  have hle : ∀ b ∈ D.attempts, b.attemptNumber ≤ D.row.attemptCount := by
    intro b hb
    have hmem : b.attemptNumber ∈ D.attempts.map (·.attemptNumber) := List.mem_map_of_mem hb
    rw [hnum, List.mem_range'_1] at hmem
    omega
  have hread : r.attemptCount = D.row.attemptCount := by
    obtain ⟨r', hr', hn⟩ := hs.number
    rw [hr] at hr'
    cases hr'
    have hn : a.attemptNumber = r.attemptCount + 1 := hn
    omega
  have hmem : ∀ b, b ∈ (D.recorded a id f g next reason τ τ').attempts ↔ b ∈ D.attempts ∨ b = a :=
    fun b => by simp [Dossier.recorded]
  refine ⟨?_, ?_, ?_, ?_, ?_⟩
  · intro b hb
    rcases (hmem b).mp hb with hb | rfl
    · exact h.wellFormed b hb
    · exact hs.wellFormed
  · intro b hb
    rcases (hmem b).mp hb with hb | rfl
    · exact h.past b hb
    · exact ⟨hs.order, hnow _ hs.finished, hs.latency⟩
  · intro b hb b' hb' hlt
    rcases (hmem b).mp hb with hold | rfl
    · rcases (hmem b').mp hb' with hold' | rfl
      · exact h.ordered b hold b' hold' hlt
      · exact hbefore b hold (hread ▸ hle b hold) _ hs.started
    · rcases (hmem b').mp hb' with hold' | rfl
      · have := hle b' hold'
        omega
      · exact absurd hlt (Nat.lt_irrefl _)
  · intro hnil
    simp [Dossier.recorded] at hnil
  · intro before b heq
    obtain rfl : a = b := by
      have := congrArg List.getLast? heq
      simpa [Dossier.recorded] using this
    refine ⟨hp.success, fun ho => ?_⟩
    obtain ⟨σ, hσ, k, hk, hle, hnext⟩ := hp.failure ho
    obtain ⟨hlow, hhigh⟩ : backoffBase env a.attemptNumber / 2 ≤ webhookBackoff env a.attemptNumber k ∧
        webhookBackoff env a.attemptNumber k ≤ backoffBase env a.attemptNumber :=
      webhookBackoff_mem a.attemptNumber hk
    exact ⟨_, hnext, Nat.add_le_add hle hlow, Nat.add_le_add (hnow σ hσ) hhigh⟩

theorem reachable_chronicled (hC : ∀ s l, C s l → NoCalls s l) (h : Reachable env C s) :
    Preceded env s ∧ ∀ d D, s.pg.db.dossier? d = some D → D.Chronicled env s.now := by
  refine h.along (I := fun s => Preceded env s ∧
    ∀ d D, s.pg.db.dossier? d = some D → D.Chronicled env s.now) ⟨?_, fun d D hD => by cases hD⟩ ?_
  · intro t th job r D ht
    simp [State.live?] at ht
  rintro s l s' hr ⟨hpre, hI⟩ hCl hstep
  have hs := reachable_ok hr
  have hcount := reachable_counted hC hr
  have hcall : ∀ t th, s.live? t = some th → ∀ c, th.kind ≠ .repoCall c :=
    fun t th ht => kind_ne_call hC hr ht
  refine ⟨hpre.step hs hcount hcall hI hstep, fun d D' hD' => ?_⟩
  have hnow := step_now hstep
  rcases story hs hstep d with hsame | ⟨D, τ, hD, hsame⟩ | ⟨t, c, th, x, k, w, m, hl, hadv, hc⟩
  · exact (hI d D' (hsame.symm.trans hD')).later hnow rfl rfl
  · rw [hD'] at hsame
    cases hsame
    exact (hI d D hD).later hnow rfl rfl
  · rw [hD'] at hc
    cases hD : s.pg.db.dossier? d with
    | none =>
      rw [hD] at hc
      cases hc
      exact ⟨fun a ha => (by cases ha), fun a ha => (by cases ha), fun a ha => (by cases ha),
        fun _ => rfl, fun before a heq => by simp [Dossier.created] at heq⟩
    | some D =>
      have hatt := Db.attemptsOf_eq (hs.step hstep).db d
      rw [hD'] at hatt
      rw [hD] at hc
      generalize hD₁ : some D' = o at hc
      cases hc with
      | moved =>
        cases hD₁
        exact (hI d D hD).later hnow rfl rfl
      | @recorded _ a f g next hrec hd hnew id hid gen hm reason τ τ' =>
        cases hD₁
        subst hd
        -- the whole transaction
        have hold := Db.attemptsOf_eq hs.db a.deliveryId
        rw [hD] at hold
        obtain ⟨t', c', th', x', k', w', m', hl', hadv', D₀, f₀, g₀, next₀, reason₀, g₁, g₂, id₀, τ₀,
          τ₁, htx, hD₀, hD₁⟩ := attempt_recorded (a := ⟨a, gen⟩) hs hstep (hatt.trans (by rw [hold]; rfl))
        obtain ⟨rfl, rfl⟩ := Label.op.inj (hl'.symm.trans hl)
        obtain rfl := Option.some.inj (hadv'.live.symm.trans hadv.live)
        obtain rfl := Option.some.inj (hD₀.symm.trans hD)
        rw [hD'] at hD₁
        rw [Option.some.inj hD₁]
        obtain ⟨job, r, hk, hjob, hw, -⟩ := hrec.number (hcall t' th' hadv.live)
        have hmem : (Stmt.insertAttempt a, g₁) ∈ th'.facts.tx.getD [] := by
          rw [htx]
          exact List.mem_cons_self
        have hupd : (Stmt.updateAttempt a.deliveryId g₀ next₀, g₂) ∈ th'.facts.tx.getD [] := by
          rw [htx]
          exact List.mem_cons_of_mem _ List.mem_cons_self
        rw [← hjob] at hD
        refine ((hI _ _ hD).later hnow rfl rfl).recorded (hcount.numbered _ _ hD)
          ((congrArg Facts.row (chronicle_facts th'.trace)).trans hw.row)
          (hcount.next hadv.live (hcall t' th' hadv.live) hrec (hjob ▸ hD) hnew) ?_ ?_
          (stamped_of_tx hr hadv.live hk hmem) (planned_of_tx hr hadv.live hk hmem hupd)
        · exact hpre t' th' job r _ hadv.live hk hw.row hD
        · exact fun σ hσ => Nat.le_trans (reachable_past hr t' th' hadv.live σ hσ) hnow

/-! ## What the tables show -/

theorem chronicled_of_mem (h : Reachable env NoCalls s) {a : AttemptRow} (ha : a ∈ s.pg.db.attempts) :
    ∃ D : Dossier, D.attempts = s.pg.db.attemptsOf a.deliveryId ∧ D.Chronicled env s.now := by
  obtain ⟨row, hrow⟩ := Option.isSome_iff_exists.mp ((reachable_ok h).db.attemptRef a ha)
  have hD := congrArg (Option.map fun r =>
    Dossier.mk r (s.pg.db.log a.deliveryId) (s.pg.db.attemptsOf a.deliveryId)) hrow
  exact ⟨_, rfl, (reachable_chronicled (fun _ _ h => h) h).2 _ _ hD⟩

/-- **The attempts of a delivery follow each other in time**: each ends before the next one starts. -/
theorem attempts_follow (h : Reachable env NoCalls s) {a : AttemptRow} (ha : a ∈ s.pg.db.attempts) :
    a.startedAt ≤ a.finishedAt ∧ a.finishedAt ≤ s.now ∧
      a.latencyMs = (a.finishedAt : Int) - a.startedAt ∧
        ∀ b ∈ s.pg.db.attempts, b.deliveryId = a.deliveryId → a.attemptNumber < b.attemptNumber →
          a.finishedAt ≤ b.startedAt := by
  obtain ⟨D, hatt, hD⟩ := chronicled_of_mem h ha
  have hmem : ∀ b ∈ s.pg.db.attempts, b.deliveryId = a.deliveryId → b ∈ D.attempts := by
    intro b hb hd
    rw [hatt]
    exact Db.mem_attemptsOf.mpr ⟨hb, hd⟩
  obtain ⟨h1, h2, h3⟩ := hD.past a (hmem a ha rfl)
  exact ⟨h1, h2, h3, fun b hb hd hlt => hD.ordered a (hmem a ha rfl) b (hmem b hb hd) hlt⟩

/-- **The columns of every attempt fit together.** -/
theorem attempts_wellFormed (h : Reachable env NoCalls s) {a : AttemptRow}
    (ha : a ∈ s.pg.db.attempts) : a.WellFormed env := by
  obtain ⟨D, hatt, hD⟩ := chronicled_of_mem h ha
  refine hD.wellFormed a ?_
  rw [hatt]
  exact Db.mem_attemptsOf.mpr ⟨ha, rfl⟩

theorem reachable_unsuccessful (h : Reachable env NoCalls s) {d : DeliveryId} {D : Dossier}
    (hD : s.pg.db.dossier? d = some D) : D.row.status = .failed →
      ∃ before, ∃ a : AttemptRow, D.attempts = before ++ [a] ∧ a.outcome ≠ .success := by
  refine reachable_dossier (P := fun D => D.row.status = .failed →
    ∃ before, ∃ a : AttemptRow, D.attempts = before ++ [a] ∧ a.outcome ≠ .success) ?_ (fun D τ h => h)
    ?_ h hD
  · intro d ev ep id τ τ' hst
    cases hst
  · intro s t th d D D' hr ht _ h hc hst
    have hcall := kind_ne_call (fun _ _ h => h) hr ht.live
    cases hc with
    | moved hmv => exact absurd hst (hmv.to hcall).2
    | @recorded _ a f g next hrec ha hnew id hid gen hm reason τ τ' =>
      refine ⟨D.attempts, ⟨a, gen⟩, rfl, fun ho => ?_⟩
      have hg : g = .failed := hst
      have ho : a.outcome = .success := ho
      rw [hrec.to hcall, ho] at hg
      cases hg

/-- **`next_attempt_at` is the plan after the last attempt**: there is none before the first attempt
and after a success, and otherwise it lies a backoff after the end of the attempt; a FAILED delivery
always has one. -/
theorem next_attempt_planned (h : Reachable env NoCalls s) {row : DeliveryRow}
    (hrow : row ∈ s.pg.db.deliveries) :
    (s.pg.db.attemptsOf row.id = [] → row.nextAttemptAt = none) ∧
      (∀ before a, s.pg.db.attemptsOf row.id = before ++ [a] →
        (a.outcome = .success → row.nextAttemptAt = none) ∧
          (a.outcome ≠ .success → ∃ next, row.nextAttemptAt = some next ∧
            a.finishedAt + backoffBase env a.attemptNumber / 2 ≤ next ∧
              next ≤ s.now + backoffBase env a.attemptNumber)) ∧
        (row.status = .failed → row.nextAttemptAt.isSome) := by
  have hD := (reachable_ok h).db.dossier?_of_mem hrow
  have hchron := (reachable_chronicled (fun _ _ h => h) h).2 _ _ hD
  refine ⟨hchron.unplanned, hchron.planned, fun hst => ?_⟩
  obtain ⟨before, a, heq, ho⟩ := reachable_unsuccessful h hD hst
  obtain ⟨next, hnext, -⟩ := (hchron.planned before a heq).2 ho
  exact hnext ▸ rfl

/-- A delivery that fails once and is delivered twenty seconds later. -/
def sampleTwice : List Label :=
  sampleIngest ++ .pickup (.delivery 2) :: calls 1 33 { reply := .response 500 "no" } ++
    [.settle 1, .tick 20000, .pickup (.delivery 2)] ++ calls 3 31

theorem attempts_follow_twice : ∃ s, ∃ a ∈ s.pg.db.attempts, ∃ b ∈ s.pg.db.attempts,
    Reachable sampleEnv NoCalls s ∧ a.attemptNumber < b.attemptNumber ∧ a.finishedAt ≤ b.startedAt := by
  obtain ⟨s, hreach, hs⟩ := sample_run (C := NoCalls) sampleTwice (fun s =>
    s.pg.db.attempts.any fun a => s.pg.db.attempts.any fun b =>
      b.deliveryId = a.deliveryId ∧ a.attemptNumber < b.attemptNumber) (by decide +kernel)
  obtain ⟨a, ha, hs⟩ := List.any_eq_true.mp hs
  obtain ⟨b, hb, hs⟩ := List.any_eq_true.mp hs
  obtain ⟨hd, hlt⟩ : b.deliveryId = a.deliveryId ∧ a.attemptNumber < b.attemptNumber := by
    simpa using hs
  exact ⟨s, a, ha, b, hb, hreach, hlt, (attempts_follow hreach ha).2.2.2 b hb hd hlt⟩

theorem attempts_wellFormed_twice : ∃ s, ∃ a ∈ s.pg.db.attempts, Reachable sampleEnv NoCalls s ∧
    a.outcome = .httpError ∧ a.WellFormed sampleEnv := by
  obtain ⟨s, hreach, hs⟩ := sample_run (C := NoCalls) sampleTwice
    (fun s => s.pg.db.attempts.any fun a => a.outcome = .httpError) (by decide +kernel)
  obtain ⟨a, ha, ho⟩ := List.any_eq_true.mp hs
  exact ⟨s, a, ha, hreach, by simpa using ho, attempts_wellFormed hreach ha⟩

theorem next_attempt_planned_once : ∃ s, ∃ row ∈ s.pg.db.deliveries, Reachable sampleEnv NoCalls s ∧
    row.status = .failed ∧ row.nextAttemptAt.isSome := by
  obtain ⟨s, hreach, hs⟩ := sample_run (C := NoCalls) (sampleTwice.take 48)
    (fun s => s.pg.db.deliveries.any fun row => row.status = .failed) (by decide +kernel)
  obtain ⟨row, hrow, hst⟩ := List.any_eq_true.mp hs
  have hst : row.status = .failed := by simpa using hst
  exact ⟨s, row, hrow, hreach, hst, (next_attempt_planned hreach hrow).2.2 hst⟩

end WebhookEngine
