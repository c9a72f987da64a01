import WebhookEngine.Proof.Parked
import WebhookEngine.Proof.RetryOnce
import WebhookEngine.Proof.Unrecorded

set_option autoImplicit false

/-!
# An exhaustion that is emitted more than once

BullMQ may emit `failed` any number of times for one exhausted job, and each time `handleFailed` is
invoked. The *invocations* for a delivery run beside each other and beside everything else.

* `emitStep`: the system in which `failed` can be emitted at any time for any job.
* `Exhaustion`: a job that was exhausted, and which time under its id; the results hold for every
  assignment of the invocations to the exhaustions.
* `Serial`: the condition under which the handler is idempotent. No COMMIT changes the status of the
  delivery while an invocation is between its read and its own COMMIT, and an invocation finds DLQ if
  and only if another one for the same exhaustion has brought the delivery there.
* `Thread.Stands`: how far an invocation has come; `Serialized`: what holds between the steps.
-/

namespace WebhookEngine

open EffectProg TransitionSystem

variable {env : Env} {s s' : State} {t u : Tid} {th th' : Thread} {l : Label} {d : DeliveryId}
  {job : JobRef} {J : JobId} {x : IdText} {γ : Tid → ℕ}

/-! ## The system -/

/-- What can happen next: a step of the engine, or `failed` emitted for a job. -/
inductive EmitLabel where
  | sys (l : Label)
  | emit (job : JobRef)

def emitStep (env : Env) (s : State) : EmitLabel → Option State
  | .sys l => step env s l
  | .emit job => some (s.spawn env (.failed job))

/-- What holds of every execution, whatever is emitted. -/
structure Emitting (env : Env) (s : State) : Prop where
  ok : s.Ok
  kinds : ∀ t th, s.live? t = some th → ∀ c, th.kind ≠ .repoCall c
  turns : ∀ t th, s.live? t = some th → ∀ job, th.kind = .failed job →
    ∃ st, th.AtTurn job.text st ∧ (job.attemptsMade < env.maxAttempts → st = .finished)

theorem Thread.Ok.handler (env : Env) (pg : Postgres) (t : Tid) (job : JobRef) :
    Thread.Ok pg t { kind := .failed job, prog := program env t (.failed job) } where
  safe := safe_program env t _
  sess := rfl
  knows x hx := by
    cases hx with
    | row hk hd hr => cases hr
    | seen hk hs => cases hs
    | claimed h => cases h
    | transition hk => cases hk
    | record hk hd => cases hk
  seen x st hk hs := by cases hs
  tx := .nil

theorem State.Ok.emit (hs : s.Ok) (job : JobRef) : (s.spawn env (.failed job)).Ok where
  threads u th hu := by
    rw [State.live?_spawn] at hu
    split at hu
    · cases hu
      exact .handler env _ u job
    · exact hs.threads u th hu
  apart t u th th' htu ht hu e he e' he' := by
    rw [State.live?_spawn] at ht hu
    split at ht
    · cases ht
      cases he
    · split at hu
      · cases hu
        cases he'
      · exact hs.apart t u th th' htu ht hu e he e' he'
  rows := hs.rows
  keys := hs.keys
  db := hs.db

theorem atTurn_emitted (env : Env) (t : Tid) (job : JobRef) :
    ∃ st, Thread.AtTurn { kind := .failed job, prog := program env t (.failed job) }
      job.text st ∧ (job.attemptsMade < env.maxAttempts → st = .finished) :=
  ⟨_, atTurn_fresh env t job, fun h => if_pos h⟩

theorem Emitting.emit (hI : Emitting env s) (job : JobRef) :
    Emitting env (s.spawn env (.failed job)) where
  ok := hI.ok.emit job
  kinds u th hu := by
    rw [State.live?_spawn] at hu
    split at hu
    · cases hu
      intro c hc
      cases hc
    · exact hI.kinds u th hu
  turns u th hu job' hk := by
    rw [State.live?_spawn] at hu
    split at hu
    · cases hu
      cases hk
      exact atTurn_emitted env u job
    · exact hI.turns u th hu job' hk

theorem emitting_step (hI : Emitting env s) (hl : NoCalls s l) (h : step env s l = some s') :
    Emitting env s' := by
  have hall : ∀ u th, s'.live? u = some th → (∀ c, th.kind ≠ .repoCall c) ∧
      ∀ job, th.kind = .failed job → ∃ st, th.AtTurn job.text st ∧
        (job.attemptsMade < env.maxAttempts → st = .finished) := by
    refine step_threads (P := fun _ th => (∀ c, th.kind ≠ .repoCall c) ∧
      ∀ job, th.kind = .failed job → ∃ st, th.AtTurn job.text st ∧
        (job.attemptsMade < env.maxAttempts → st = .finished)) h
      (fun u th hu => ⟨hI.kinds u th hu, hI.turns u th hu⟩) ?_ ?_ ?_
    · rintro u th th' hk ⟨hcall, hturn⟩
      refine ⟨hk.kind ▸ hcall, fun job hj => ?_⟩
      obtain ⟨st, hst, hover⟩ := hturn job (hk.kind ▸ hj)
      exact ⟨st, hk.atTurn hst, hover⟩
    · rintro u k - hk
      refine ⟨?_, ?_⟩
      · rintro c rfl
        cases hk with
        | request hl' => exact absurd hl (by rw [hl']; exact id)
      · rintro job rfl
        exact atTurn_emitted env u job
    · rintro t c th e r k w m - hadv ⟨hcall, hturn⟩
      refine ⟨hcall, fun job hj => ?_⟩
      obtain ⟨st, hst, hover⟩ := hturn job hj
      obtain ⟨f, hf, hnext⟩ := hadv.turn hI.ok hst
      refine ⟨f r, hnext, fun hmade => ?_⟩
      rw [hover hmade] at hf
      cases hf
  exact ⟨hI.ok.step h, fun u th hu => (hall u th hu).1, fun u th hu => (hall u th hu).2⟩

/-! ## The invocations for a delivery -/

/-- The exhausted job of `d` the execution was invoked for. -/
def Thread.exhausted (env : Env) (d : DeliveryId) (th : Thread) : Option JobId :=
  match th.kind with
  | .failed job =>
    if job.deliveryId = d ∧ env.maxAttempts ≤ job.attemptsMade then some job.id else none
  | _ => none

theorem Thread.exhausted_eq_some : th.exhausted env d = some J ↔ ∃ job, th.kind = .failed job ∧
    job.deliveryId = d ∧ env.maxAttempts ≤ job.attemptsMade ∧ job.id = J := by
  unfold Thread.exhausted
  split
  · rename_i job hk
    rw [Option.ite_none_right_eq_some]
    refine ⟨fun ⟨⟨hd, hmade⟩, hJ⟩ => ⟨job, hk, hd, hmade, Option.some.inj hJ⟩, ?_⟩
    rintro ⟨job', hk', hd, hmade, hJ⟩
    cases hk.symm.trans hk'
    exact ⟨⟨hd, hmade⟩, congrArg some hJ⟩
  · rename_i hk
    constructor
    · intro h
      cases h
    · rintro ⟨job, hk', -⟩
      exact absurd hk' (hk job)

def Eff.isAlert : Eff → Bool
  | .alert _ _ => true
  | _ => false

/-- The alerts the execution has fired. -/
def Thread.alerts (th : Thread) : ℕ := th.trace.countP (·.1.isAlert)

/-- The invocation has read a status other than DLQ, and has not committed yet. -/
def Thread.between (env : Env) (d : DeliveryId) (th : Thread) : Bool :=
  (th.exhausted env d).isSome && th.facts.row.any (fun r => r.status ≠ .dlq) && !th.facts.moved

/-- One exhaustion. The id of the job does not name it: after a loss of Redis the id can come back, and
the new job be exhausted too. -/
structure Exhaustion where
  job : JobId
  round : ℕ
deriving DecidableEq

/-- The exhaustion the execution was invoked for. Which one of those of its job it is, only the run
says: `γ` names the round for each invocation. -/
def Exhaustion.of? (env : Env) (d : DeliveryId) (γ : Tid → ℕ) (i : Thread × Tid) : Option Exhaustion :=
  (i.1.exhausted env d).map fun J => ⟨J, γ i.2⟩

/-- The invocations for the exhaustion `E` that have brought `d` to DLQ. -/
def State.movesFor (s : State) (env : Env) (d : DeliveryId) (γ : Tid → ℕ) (E : Exhaustion) : ℕ :=
  s.threads.zipIdx.countP fun i => Exhaustion.of? env d γ i = some E ∧ i.1.facts.moved = true

/-- The alerts fired for the exhaustion `E`. -/
def State.alertsFor (s : State) (env : Env) (d : DeliveryId) (γ : Tid → ℕ) (E : Exhaustion) : ℕ :=
  ((s.threads.zipIdx.filter fun i => Exhaustion.of? env d γ i = some E).map fun i => i.1.alerts).sum

/-- The execution is about to read a delivery. -/
def Thread.reading (th : Thread) : Bool :=
  match th.prog with
  | .op (.sql (.selectForDelivery _)) _ => true
  | _ => false

/-- No execution but `t` is between its read and its COMMIT. -/
def State.onlyBetween (s : State) (env : Env) (d : DeliveryId) (t : Tid) : Prop :=
  ∀ u < s.threads.length, u ≠ t → ∀ th ∈ s.threads[u]?, th.between env d = false

instance (s : State) (t : Tid) : Decidable (s.onlyBetween env d t) :=
  inferInstanceAs (Decidable (∀ u < s.threads.length, u ≠ t → ∀ th ∈ s.threads[u]?,
    th.between env d = false))

/-- The condition: the calls of the invocations do not fail, and none of them dies before its end. What
an invocation reads is DLQ exactly if its exhaustion has been handled already; and no COMMIT that takes
effect changes the status of `d` while another invocation is between its read and its COMMIT. -/
def Serial (env : Env) (d : DeliveryId) (γ : Tid → ℕ) (s : State) : EmitLabel → Prop
  | .emit _ => True
  | .sys l => NoCalls s l ∧ match l with
    | .op t c => ∀ th ∈ s.live? t,
        (∀ J ∈ th.exhausted env d, c.fault = .none ∧ (th.reading = true →
          (s.pg.db.forDelivery d).any fun r => (r.status = .dlq) = (0 < s.movesFor env d γ ⟨J, γ t⟩))) ∧
        (th.committing = true → c.fault ≠ .before → ∀ x ∈ th.settings, x.1 = d →
          s.pg.db.status? d ≠ some x.2 → s.onlyBetween env d t)
    | .crash t => ∀ th ∈ s.live? t, th.exhausted env d ≠ none → th.ended = true
    | _ => True

/-! ## How far an invocation has come -/

/-- The invocation has calls left and has not failed. -/
def HandlerStage.going : HandlerStage → Bool
  | .rollback _ _ | .finished => false
  | _ => true

/-- How far an invocation for `d` has come; `moved` says whether its exhaustion has been handled. -/
inductive Thread.Stands (d : DeliveryId) (moved : Prop) (th : Thread) : Prop where
  | going {n : ℕ} {st : HandlerStage} (alive : th.alive = true) (turn : th.AtTurn ⟨d, n⟩ st)
      (hgoing : st.going = true) (halerts : th.alerts = 0)
  | finished (hprog : th.prog = .ret .done) (halerts : th.alerts = th.facts.moved.toNat)
      (hunmoved : th.facts.moved = false →
        moved ∧ th.facts.row.any (fun r => r.status ≠ .dlq) = false)

theorem Thread.Stands.mono {p q : Prop} (h : th.Stands d p) (hpq : p → q) : th.Stands d q := by
  cases h with
  | going alive turn hgoing halerts => exact .going alive turn hgoing halerts
  | finished hprog halerts hunmoved =>
    exact .finished hprog halerts fun hm => ⟨hpq (hunmoved hm).1, (hunmoved hm).2⟩

theorem not_ingests_failed (hk : th.kind = .failed job) : ¬ th.kind.ingests := by
  rw [hk]
  rintro (⟨_, h⟩ | ⟨_, h⟩) <;> cases h

section
variable {c : Choice} {e : Eff} {r : e.Resp} {k : e.Resp → Code Reply} {w : World} {m : Memory}
  {st : HandlerStage} {f : e.Resp → HandlerStage} {E : Exhaustion}

/-- Without a fault an invocation goes on from call to call up to the alert. -/
theorem Advance.goes_on (hadv : Advance s s' t c th e r k w m) (hs : s.Ok)
    (hk : th.kind = .failed job) (hfault : c.fault = .none) (hf : st.next x = some ⟨e, f⟩)
    (hgoing : st.going = true) (hread : st ≠ .read) :
    (e.isAlert = false ∧ (f r).going = true) ∨
      (e.isAlert = true ∧ (∃ row last, st = .alert row last) ∧ f r = .finished) := by
  have hans := hadv.answered hs (not_ingests_failed hk) hfault
  cases st with
  | read => exact absurd rfl hread
  | rollback | finished => cases hgoing
  | alert row last =>
    cases hf
    exact Or.inr ⟨rfl, ⟨row, last, rfl⟩, rfl⟩
  | park row =>
    cases hf
    have hdone := hadv.done
    simp only [perform, hfault] at hdone
    cases hdone
    exact Or.inl ⟨rfl, rfl⟩
  | _ =>
    cases hf
    obtain ⟨a, rfl⟩ := hans
    exact Or.inl ⟨rfl, rfl⟩

theorem HandlerStage.next_select {f : (Eff.sql (.selectForDelivery d)).Resp → HandlerStage}
    (h : st.next x = some ⟨.sql (.selectForDelivery d), f⟩) : st = .read := by
  cases st with
  | read => rfl
  | _ => cases h

theorem Thread.alerts_after : (th.after e r k m).alerts = th.alerts + e.isAlert.toNat := by
  change (⟨e, r⟩ :: th.trace).countP _ = _
  rw [List.countP_cons]
  cases e.isAlert <;> rfl

theorem Thread.exhausted_after : (th.after e r k m).exhausted env d = th.exhausted env d := rfl

/-- What a call of an invocation comes to. -/
structure Invoked (env : Env) (s : State) (d : DeliveryId) (γ : Tid → ℕ) (E : Exhaustion)
    (th th' : Thread) (e : Eff) : Prop where
  stands : th'.Stands d (0 < s.movesFor env d γ E)
  moved : th'.facts.moved = true ↔ th.facts.moved = true ∨ e = .sql .commit
  commit : e = .sql .commit → th.between env d = true ∧ ∃ n x, th.AtTurn ⟨d, n⟩ (.commit x)
  between : th'.between env d = true → e ≠ .sql .commit ∧
    (th.between env d = true ∧ th'.facts.row = th.facts.row ∨
      ∃ x, th'.facts.row = some x ∧ s.pg.db.status? d = some x.status ∧ s.movesFor env d γ E = 0)

/-- **The read of an invocation.** -/
theorem Advance.invocation_reads {r : (Eff.sql (.selectForDelivery d)).Resp}
    {k : (Eff.sql (.selectForDelivery d)).Resp → Code Reply}
    (hadv : Advance s s' t c th (.sql (.selectForDelivery d)) r k w m) (hs : s.Ok)
    (hfault : c.fault = .none) {n : ℕ} (hturn : th.AtTurn ⟨d, n⟩ .read) (halive : th.alive = true)
    (halerts : th.alerts = 0) (hread : (s.pg.db.forDelivery d).any fun x =>
      (x.status = .dlq) = (0 < s.movesFor env d γ E)) :
    Invoked env s d γ E th (th.after (.sql (.selectForDelivery d)) r k m)
      (.sql (.selectForDelivery d)) := by
  obtain ⟨x, hx, hiff⟩ := (Option.any_eq_true _ _).mp hread
  have hiff : (x.status = .dlq) = (0 < s.movesFor env d γ E) := of_decide_eq_true hiff
  obtain ⟨htx, -⟩ := (hs.threads t th hadv.live).permits hadv.prog
  obtain ⟨-, hans⟩ := perform_selectForDelivery hadv.done
  rw [(hs.threads t th hadv.live).view_eq (Or.inr htx), hx, hfault] at hans
  obtain ⟨f, hf, hnext⟩ := hadv.turn hs hturn
  have hfound : f r = if x.status = .dlq then .finished else .connect x := by
    cases hf
    subst hans
    rfl
  rw [hfound] at hnext
  have halerts' : (th.after (.sql (.selectForDelivery d)) r k m).alerts = 0 :=
    Thread.alerts_after.trans (by rw [halerts]; rfl)
  have halive' : (th.after (.sql (.selectForDelivery d)) r k m).alive = true := halive
  have hrow : (th.after (.sql (.selectForDelivery d)) r k m).facts.row = some x := by
    subst hans
    rfl
  have hmoved : (th.after (.sql (.selectForDelivery d)) r k m).facts.moved = false :=
    (Facts.next_moved r (by simp)).trans hturn.knows
  generalize th.after (.sql (.selectForDelivery d)) r k m = th' at *
  obtain ⟨row, hdel, hstatus, -⟩ := Db.forDelivery_isSome hx
  have hst : s.pg.db.status? d = some x.status := by rw [Db.status?, hdel, hstatus]; rfl
  refine ⟨?_, ?_, fun h => ?_, fun hbetween => ⟨by simp, Or.inr ⟨x, hrow, hst, ?_⟩⟩⟩
  · by_cases hdlq : x.status = .dlq
    · rw [if_pos hdlq] at hnext
      refine .finished hnext.prog (by rw [halerts', hmoved]; rfl) fun _ => ⟨hiff ▸ hdlq, ?_⟩
      rw [hrow]
      simp [hdlq]
    · rw [if_neg hdlq] at hnext
      exact .going halive' hnext rfl halerts'
  · rw [hmoved, hturn.knows]
    simp
  · cases h
  · rw [Thread.between, hrow] at hbetween
    have hdlq : x.status ≠ .dlq := by
      simp only [Option.any_some, Bool.and_eq_true, decide_eq_true_eq] at hbetween
      exact hbetween.1.2
    exact Nat.eq_zero_of_not_pos (hiff ▸ hdlq)

/-- **A call of an invocation.** -/
theorem Thread.Stands.called (h : th.Stands d (0 < s.movesFor env d γ E))
    (hadv : Advance s s' t c th e r k w m) (hs : s.Ok) (hJ : th.exhausted env d = some J)
    (hfault : c.fault = .none) (hread : th.reading = true → (s.pg.db.forDelivery d).any fun x =>
      (x.status = .dlq) = (0 < s.movesFor env d γ E)) :
    Invoked env s d γ E th (th.after e r k m) e := by
  obtain ⟨job, hk, hd, -, -⟩ := Thread.exhausted_eq_some.mp hJ
  cases h with
  | finished hprog => cases hadv.prog.symm.trans hprog
  | @going n st halive hturn hgoing halerts =>
    obtain ⟨f, hf, hnext⟩ := hadv.turn hs hturn
    by_cases hst : st = .read
    · subst hst
      cases hf
      exact hadv.invocation_reads hs hfault hturn halive halerts
        (hread (by rw [Thread.reading, hadv.prog]))
    have hselect : ∀ x, e ≠ .sql (.selectForDelivery x) := by
      rintro x rfl
      exact hst (HandlerStage.next_select hf)
    have hrow : (th.after e r k m).facts.row = th.facts.row := Facts.next_row r hselect
    have hcommit : e = .sql .commit → (th.after e r k m).facts.moved = true ∧
        th.between env d = true ∧ ∃ n x, th.AtTurn ⟨d, n⟩ (.commit x) := by
      rintro rfl
      obtain ⟨x, rfl, rfl⟩ := HandlerStage.next_commit hf
      obtain ⟨a, rfl⟩ := hadv.answered hs (not_ingests_failed hk) hfault
      obtain ⟨htook, -⟩ := hturn.knows
      refine ⟨hnext.knows.moved, ?_, n, x, hturn⟩
      rw [Thread.between, hJ, htook.row, htook.moved]
      simp [htook.status]
    have hsame : e ≠ .sql .commit → (th.after e r k m).facts.moved = th.facts.moved :=
      fun he => Facts.next_moved r he
    refine ⟨?_, ?_, fun he => (hcommit he).2, fun hbetween => ?_⟩
    · rcases hadv.goes_on hs hk hfault hf hgoing hst with ⟨hno, hgo⟩ | ⟨hyes, ⟨x, y, rfl⟩, hover⟩
      · exact .going halive hnext hgo (by rw [Thread.alerts_after, halerts, hno]; rfl)
      · have hmoved : (th.after e r k m).facts.moved = true := by
          refine (hsame ?_).trans hturn.knows.moved
          rintro rfl
          cases hyes
        rw [hover] at hnext
        refine .finished hnext.prog ?_ fun hm => by cases hmoved.symm.trans hm
        rw [Thread.alerts_after, halerts, hyes, hmoved]
        rfl
    · by_cases he : e = .sql .commit
      · rw [(hcommit he).1]
        simp [he]
      · rw [hsame he]
        simp [he]
    · have he : e ≠ .sql .commit := by
        intro he
        rw [Thread.between, (hcommit he).1] at hbetween
        simp at hbetween
      refine ⟨he, Or.inl ⟨?_, hrow⟩⟩
      rw [Thread.between, hrow, hsame he] at hbetween
      exact hbetween

end

/-! ## Between the steps -/

/-- The invocations that have brought `d` to DLQ. -/
def State.moves (s : State) (env : Env) (d : DeliveryId) : ℕ :=
  s.threads.zipIdx.countP fun i => (i.1.exhausted env d).isSome ∧ i.1.facts.moved = true

/-- **What holds between the steps**: how far each invocation has come, that the status one has read is
still there when it commits, and that each exhaustion is handled at most once. -/
structure Serialized (env : Env) (d : DeliveryId) (γ : Tid → ℕ) (s : State) : Prop where
  base : Emitting env s
  stands : ∀ (u : Tid) th J, s.threads[u]? = some th → th.exhausted env d = some J →
    th.Stands d (0 < s.movesFor env d γ ⟨J, γ u⟩)
  reads : ∀ (u : Tid) th J, s.threads[u]? = some th → th.exhausted env d = some J →
    th.between env d = true →
      ∃ x, th.facts.row = some x ∧ s.pg.db.status? d = some x.status ∧
        s.movesFor env d γ ⟨J, γ u⟩ = 0
  once : ∀ E, s.movesFor env d γ E ≤ 1
  entries : s.pg.db.entries d = s.moves env d

theorem Thread.exhausted_congr (h : th'.kind = th.kind) :
    th'.exhausted env d = th.exhausted env d := by
  rw [Thread.exhausted, Thread.exhausted, h]

theorem HandlerStage.going_prog {st : HandlerStage} (h : st.going = true) :
    ∃ e k, st.prog x = .op e k := by
  cases st with
  | rollback | finished => cases h
  | _ => exact ⟨_, _, rfl⟩

/-- An invocation that makes no call stands where it stood. -/
theorem Thread.Stands.kept {p : Prop} (h : th.Stands d p) (hprog : th'.prog = th.prog)
    (htrace : th'.trace = th.trace) (halive : th.alive = true → th.ended = false → th'.alive = true) :
    th'.Stands d p := by
  have hfacts : th'.facts = th.facts := congrArg WebhookEngine.facts htrace
  cases h with
  | @going n st alive turn hgoing halerts =>
    obtain ⟨e, k, hop⟩ := HandlerStage.going_prog hgoing
    have hmore : th.ended = false := by rw [Thread.ended, turn.prog, hop]
    refine .going (halive alive hmore) ⟨hprog.trans turn.prog, hfacts ▸ turn.knows⟩ hgoing ?_
    rw [Thread.alerts, htrace]
    exact halerts
  | finished hover halerts hunmoved =>
    refine .finished (hprog.trans hover) ?_ (hfacts ▸ hunmoved)
    rw [Thread.alerts, htrace, hfacts]
    exact halerts

theorem Serialized.rest (hI : Serialized env d γ s) (hbase : Emitting env s')
    (hlen : s.threads.length ≤ s'.threads.length)
    (hstems : ∀ (u : Tid) th', s'.threads[u]? = some th' → Stems env s l u th')
    (hstatus : s'.pg.db.status? d = s.pg.db.status? d) (hlog : s'.pg.db.log d = s.pg.db.log d)
    (hends : ∀ (u : Tid) th, s.threads[u]? = some th → th.alive = true →
      l = .settle u ∨ l = .crash u → th.exhausted env d ≠ none → th.ended = true) :
    Serialized env d γ s' := by
  have hcount : ∀ p : Thread × Tid → Bool,
      (∀ (u : Tid) (th th' : Thread), th'.kind = th.kind → th'.trace = th.trace →
        p (th', u) = p (th, u)) →
        (∀ u k prog, p ({ kind := k, prog := prog }, u) = false) →
          s'.threads.zipIdx.countP p = s.threads.zipIdx.countP p := by
    intro p hkept hfresh
    refine Table.countP_zipIdx_extends p hlen (fun i x y hx hy => ?_) fun i y hi hy => ?_
    · cases hstems i y hy with
      | kept hold hkind _ htrace =>
        obtain rfl := Option.some.inj (hold.symm.trans hx)
        exact hkept i _ y hkind htrace
      | fresh hnew => exact absurd (List.getElem?_eq_some_iff.mp hx).1 (Nat.not_lt.mpr hnew)
    · cases hstems i y hy with
      | kept hold => exact absurd (List.getElem?_eq_some_iff.mp hold).1 (Nat.not_lt.mpr hi)
      | fresh _ hth => exact hth ▸ hfresh i _ _
  have hmoves : ∀ E, s'.movesFor env d γ E = s.movesFor env d γ E := by
    intro E
    refine hcount _ (fun u th th' hk htr => ?_) fun u k prog => ?_
    · refine decide_eq_decide.mpr ?_
      simp only [Exhaustion.of?, Thread.exhausted_congr hk, Thread.facts, htr]
    · exact decide_eq_false fun h => by cases h.2
  refine ⟨hbase, fun u th' J hu hJ => ?_, fun u th' J hu hJ hb => ?_, fun E => ?_, ?_⟩
  · rw [hmoves]
    cases hstems u th' hu with
    | @kept th hold hkind hprog htrace halive =>
      have hJ' : th.exhausted env d = some J := (Thread.exhausted_congr hkind).symm.trans hJ
      refine (hI.stands u th J hold hJ').kept hprog htrace fun alive hmore => ?_
      refine (halive alive).resolve_right fun h => ?_
      cases hmore.symm.trans (hends u th hold alive h (by rw [hJ']; simp))
    | @fresh k _ hth =>
      subst hth
      obtain ⟨job, rfl, rfl, hmade, -⟩ := Thread.exhausted_eq_some.mp hJ
      have hturn := atTurn_fresh env u job
      rw [if_neg (Nat.not_lt.mpr hmade)] at hturn
      exact .going rfl hturn rfl rfl
  · rw [hmoves, hstatus]
    cases hstems u th' hu with
    | @kept th hold hkind hprog htrace halive =>
      have hfacts : th'.facts = th.facts := congrArg facts htrace
      rw [hfacts]
      refine hI.reads u th J hold ((Thread.exhausted_congr hkind).symm.trans hJ) ?_
      rw [Thread.between, hfacts, Thread.exhausted_congr hkind] at hb
      exact hb
    | fresh _ hth =>
      subst hth
      rw [Thread.between, hJ] at hb
      cases hb
  · rw [hmoves]
    exact hI.once E
  · rw [Db.entries, hlog, ← Db.entries, hI.entries]
    refine (hcount _ (fun u th th' hk htr => ?_) fun u k prog => ?_).symm
    · refine decide_eq_decide.mpr ?_
      simp only [Thread.exhausted_congr hk, Thread.facts, htr]
    · exact decide_eq_false fun h => by cases h.2

section
variable {c : Choice} {e : Eff} {r : e.Resp} {k : e.Resp → Code Reply} {w : World} {m : Memory}

theorem Advance.threads (h : Advance s s' t c th e r k w m) :
    s'.threads = s.threads.set t (th.after e r k m) := by
  rw [h.state]

theorem Advance.countP (h : Advance s s' t c th e r k w m) (p : Thread × Tid → Bool) :
    s'.threads.zipIdx.countP p + (p (th, t)).toNat =
      s.threads.zipIdx.countP p + (p (th.after e r k m, t)).toNat := by
  rw [h.threads]
  exact Table.countP_zipIdx_set_add p (State.live?_eq_some.mp h.live).1 _

theorem Advance.others (h : Advance s s' t c th e r k w m) (hu : s'.threads[u]? = some th') :
    u = t ∧ th' = th.after e r k m ∨ u ≠ t ∧ s.threads[u]? = some th' := by
  rw [h.threads] at hu
  by_cases hut : u = t
  · subst hut
    rw [List.getElem?_set_self (State.live?_lt h.live)] at hu
    exact Or.inl ⟨rfl, (Option.some.inj hu).symm⟩
  · rw [List.getElem?_set_ne (Ne.symm hut)] at hu
    exact Or.inr ⟨hut, hu⟩

theorem Emitting.entries (hI : Emitting env s) (h : step env s (.op t c) = some s')
    (hadv : Advance s s' t c th e r k w m) (hnone : th.exhausted env d = none) :
    s'.pg.db.entries d = s.pg.db.entries d := by
  have hs := hI.ok
  rcases story hs h d with h' | ⟨D, τ, hD, h'⟩ | ⟨t', c', th', r', k', w', m', hl, hadv', hc⟩
  · rw [Db.entries, Db.entries, Db.log_eq hs.db, Db.log_eq (hs.step h).db, h']
  · rw [Db.entries, Db.entries, Db.log_eq hs.db, Db.log_eq (hs.step h).db, h', hD]
    rfl
  · cases hl
    obtain rfl := Option.some.inj (hadv'.live.symm.trans hadv.live)
    cases hD' : s'.pg.db.dossier? d with
    | none =>
      rw [hD'] at hc
      generalize s.pg.db.dossier? d = o at hc
      cases hc
    | some D' =>
      rw [hD'] at hc
      have hdlq : D'.row.status ≠ .dlq := by
        intro hdlq
        obtain ⟨job, hk, hd⟩ := hc.exhausted (hI.kinds t th' hadv.live) hdlq
        obtain ⟨st, hturn, hover⟩ := hI.turns t th' hadv.live job hk
        by_cases hmade : job.attemptsMade < env.maxAttempts
        · rw [hover hmade] at hturn
          cases hadv.prog.symm.trans hturn.prog
        · have hsome : th'.exhausted env d = some job.id :=
            Thread.exhausted_eq_some.mpr ⟨job, hk, hd, Nat.le_of_not_lt hmade, rfl⟩
          cases hnone.symm.trans hsome
      rw [hc.entries hs hD', decide_eq_false hdlq]
      rfl

/-- No call changes the status of the delivery while another invocation is between its read and its
COMMIT. -/
theorem Serialized.status (hI : Serialized env d γ s) (h : step env s (.op t c) = some s')
    (hadv : Advance s s' t c th e r k w m) (hl : Serial env d γ s (.sys (.op t c)))
    (hut : u ≠ t) (hu : s.threads[u]? = some th') (hb : th'.between env d = true) :
    s'.pg.db.status? d = s.pg.db.status? d := by
  have hs := hI.base.ok
  by_contra hne
  obtain ⟨J, hJ⟩ : ∃ J, th'.exhausted env d = some J := by
    rw [Thread.between, Bool.and_eq_true, Bool.and_eq_true] at hb
    exact Option.isSome_iff_exists.mp hb.1.1
  obtain ⟨x, -, hst, -⟩ := hI.reads u th' J hu hJ hb
  obtain ⟨row, hrow⟩ := Option.isSome_iff_exists.mp (Db.status?_isSome hst)
  have hD : s.pg.db.dossier? d = some ⟨row, s.pg.db.log d, s.pg.db.attemptsOf d⟩ := by
    simp [Db.dossier?, hrow]
  obtain ⟨D', hD'⟩ := story_isSome hs h hD
  rcases story hs h d with h' | ⟨D, τ, hD, h'⟩ | ⟨t', c', th₁, r', k', w', m', hop, hadv', hc⟩
  · exact hne (Db.status?_of_dossier? h')
  · exact hne (by rw [Db.status?_eq h', Db.status?_eq hD]; rfl)
  · cases hop
    obtain rfl := Option.some.inj (hadv'.live.symm.trans hadv.live)
    rw [hD, hD'] at hc
    have hsets := hc.sets hs hadv'.committing (hI.base.kinds t th₁ hadv.live)
    rw [Db.status?_eq hD'] at hne
    have hfalse := (hl.2 th₁ hadv.live).2 (Thread.committing_iff.mpr ⟨k', hadv'.prog⟩)
      (hadv'.takes_effect hs (by rw [Db.status?_eq hD']; exact hne)) _ hsets rfl (Ne.symm hne) u
      (List.getElem?_eq_some_iff.mp hu).1 hut th' hu
    cases hb.symm.trans hfalse

/-- **A call of somebody else.** -/
theorem Serialized.call_other (hI : Serialized env d γ s) (h : step env s (.op t c) = some s')
    (hadv : Advance s s' t c th e r k w m) (hl : Serial env d γ s (.sys (.op t c)))
    (hnone : th.exhausted env d = none) : Serialized env d γ s' := by
  have hcount : ∀ p : Thread × Tid → Bool, (p (th, t) = false ∧ p (th.after e r k m, t) = false) →
      s'.threads.zipIdx.countP p = s.threads.zipIdx.countP p := by
    rintro p ⟨hp, hp'⟩
    have := hadv.countP p
    rwa [hp, hp'] at this
  have hmoves : ∀ E, s'.movesFor env d γ E = s.movesFor env d γ E := by
    refine fun E => hcount _ ⟨decide_eq_false fun h => ?_, decide_eq_false fun h => ?_⟩
    · rw [Exhaustion.of?, hnone] at h
      cases h.1
    · rw [Exhaustion.of?, Thread.exhausted_after, hnone] at h
      cases h.1
  have hold : ∀ {u : Tid} {th' J}, s'.threads[u]? = some th' → th'.exhausted env d = some J →
      u ≠ t ∧ s.threads[u]? = some th' := by
    intro u th' J hu hJ
    rcases hadv.others hu with ⟨-, rfl⟩ | h
    · cases hnone.symm.trans hJ
    · exact h
  refine ⟨emitting_step hI.base hl.1 h, fun u th' J hu hJ => ?_, fun u th' J hu hJ hb => ?_,
    fun E => ?_, ?_⟩
  · rw [hmoves]
    exact hI.stands u th' J (hold hu hJ).2 hJ
  · obtain ⟨hut, hu⟩ := hold hu hJ
    rw [hmoves, hI.status h hadv hl hut hu hb]
    exact hI.reads u th' J hu hJ hb
  · rw [hmoves]
    exact hI.once E
  · rw [hI.base.entries h hadv hnone, hI.entries]
    refine (hcount _ ⟨decide_eq_false fun h => ?_, decide_eq_false fun h => ?_⟩).symm
    · rw [hnone] at h
      cases h.1
    · rw [Thread.exhausted_after, hnone] at h
      cases h.1

theorem Serialized.commit (hI : Serialized env d γ s) {r : (Eff.sql .commit).Resp}
    {k : (Eff.sql .commit).Resp → Code Reply} (h : step env s (.op t c) = some s')
    (hadv : Advance s s' t c th (.sql .commit) r k w m) (hl : Serial env d γ s (.sys (.op t c)))
    (hJ : th.exhausted env d = some J)
    (hinv : Invoked env s d γ ⟨J, γ t⟩ th (th.after (.sql .commit) r k m) (.sql .commit)) :
    Serialized env d γ s' := by
  have hs := hI.base.ok
  have hget := (State.live?_eq_some.mp hadv.live).1
  obtain ⟨hbetween, n, x, hturn⟩ := hinv.commit rfl
  obtain ⟨htook, g, g', htx⟩ := hturn.knows
  obtain ⟨job, hk, rfl, -, -⟩ := Thread.exhausted_eq_some.mp hJ
  have hfault : c.fault = .none := ((hl.2 th hadv.live).1 J hJ).1
  obtain ⟨hstatus, id, τ, hlog⟩ := hadv.handler_commits hs hk hturn.knows (by simp [hfault])
  obtain ⟨y, hrow, hst, hzero⟩ := hI.reads t th J hget hJ hbetween
  obtain rfl : x = y := Option.some.inj (htook.row.symm.trans hrow)
  -- nobody else is between its read and its COMMIT
  have hsets : (job.deliveryId, Status.dlq) ∈ th.settings := by
    have hin : (Stmt.updateStatus job.deliveryId .dlq, g) ∈ th.tx := by
      rw [Thread.tx, htx]
      exact List.mem_cons_self
    exact Thread.mem_settings hin rfl
  have hnobody : ∀ {u : Tid} {th'}, u ≠ t → s.threads[u]? = some th' →
      th'.between env job.deliveryId = false := by
    intro u th' hut hu
    refine (hl.2 th hadv.live).2 (Thread.committing_iff.mpr ⟨k, hadv.prog⟩) (by simp [hfault]) _
      hsets rfl ?_ u (List.getElem?_eq_some_iff.mp hu).1 hut th' hu
    rw [hst]
    exact fun h => htook.status (Option.some.inj h)
  have hmoved : (th.after (.sql .commit) r k m).facts.moved = true := hinv.moved.mpr (Or.inr rfl)
  have hmoves : ∀ E, s'.movesFor env job.deliveryId γ E =
      s.movesFor env job.deliveryId γ E + (decide (⟨J, γ t⟩ = E)).toNat := by
    intro E
    have hcount := hadv.countP fun i =>
      Exhaustion.of? env job.deliveryId γ i = some E ∧ i.1.facts.moved = true
    rw [Exhaustion.of?, Exhaustion.of?, Thread.exhausted_after, hJ, htook.moved, hmoved] at hcount
    simpa [State.movesFor] using hcount
  refine ⟨emitting_step hI.base hl.1 h, fun u th' K hu hK => ?_, fun u th' K hu hK hb => ?_,
    fun E => ?_, ?_⟩
  · have hle : ∀ {E}, 0 < s.movesFor env job.deliveryId γ E →
        0 < s'.movesFor env job.deliveryId γ E := by
      intro E
      rw [hmoves]
      exact fun h => Nat.lt_of_lt_of_le h (Nat.le_add_right _ _)
    rcases hadv.others hu with ⟨rfl, rfl⟩ | ⟨-, hu⟩
    · cases hJ.symm.trans hK
      exact hinv.stands.mono hle
    · exact (hI.stands u th' K hu hK).mono hle
  · rcases hadv.others hu with ⟨-, rfl⟩ | ⟨hut, hu⟩
    · exact absurd rfl (hinv.between hb).1
    · cases hb.symm.trans (hnobody hut hu)
  · rw [hmoves]
    by_cases hE : ⟨J, γ t⟩ = E
    · subst hE
      simp [hzero]
    · simpa [hE] using hI.once E
  · have hcount := hadv.countP fun i =>
      (i.1.exhausted env job.deliveryId).isSome ∧ i.1.facts.moved = true
    rw [Thread.exhausted_after, hJ, htook.moved, hmoved] at hcount
    rw [Db.entries, hlog, List.countP_append, ← Db.entries, hI.entries, State.moves, State.moves]
    simpa using hcount.symm

theorem Serialized.call_own (hI : Serialized env d γ s) (h : step env s (.op t c) = some s')
    (hadv : Advance s s' t c th e r k w m) (hl : Serial env d γ s (.sys (.op t c)))
    (hJ : th.exhausted env d = some J) (hinv : Invoked env s d γ ⟨J, γ t⟩ th (th.after e r k m) e)
    (hcommit : e ≠ .sql .commit) : Serialized env d γ s' := by
  have hs := hI.base.ok
  have hget := (State.live?_eq_some.mp hadv.live).1
  have hmoved : (th.after e r k m).facts.moved = th.facts.moved := Facts.next_moved r hcommit
  have hcount : ∀ p : Thread × Tid → Bool, p (th.after e r k m, t) = p (th, t) →
      s'.threads.zipIdx.countP p = s.threads.zipIdx.countP p := by
    intro p hp
    have := hadv.countP p
    rw [hp] at this
    exact Nat.add_right_cancel this
  have hmoves : ∀ E, s'.movesFor env d γ E = s.movesFor env d γ E := fun E =>
    hcount _ (by rw [Exhaustion.of?, Exhaustion.of?, Thread.exhausted_after, hmoved])
  have hstatus := hadv.status? hs h hcommit d
  refine ⟨emitting_step hI.base hl.1 h, fun u th' K hu hK => ?_, fun u th' K hu hK hb => ?_,
    fun E => ?_, ?_⟩
  · rw [hmoves]
    rcases hadv.others hu with ⟨rfl, rfl⟩ | ⟨-, hu⟩
    · cases hJ.symm.trans hK
      exact hinv.stands
    · exact hI.stands u th' K hu hK
  · rw [hmoves, hstatus]
    rcases hadv.others hu with ⟨rfl, rfl⟩ | ⟨-, hu⟩
    · cases hJ.symm.trans hK
      rcases (hinv.between hb).2 with ⟨hold, hrow⟩ | hread
      · rw [hrow]
        exact hI.reads _ th J hget hJ hold
      · exact hread
    · exact hI.reads u th' K hu hK hb
  · rw [hmoves]
    exact hI.once E
  · rw [Db.entries, hadv.log hs h hcommit, ← Db.entries, hI.entries]
    exact (hcount _ (by rw [Thread.exhausted_after, hmoved])).symm

/-- **Every step keeps it.** -/
theorem serialized_step (hI : Serialized env d γ s) {l : EmitLabel} (hl : Serial env d γ s l)
    (h : emitStep env s l = some s') : Serialized env d γ s' := by
  cases l with
  | emit job =>
    cases h
    refine hI.rest (l := .redisLoss) (hI.base.emit job) ?_ (fun u th' hu => ?_) rfl rfl ?_
    · exact List.length_append ▸ Nat.le_add_right _ _
    · exact stems_spawn rfl (fun _ _ h => .kept h rfl rfl rfl Or.inl) hu
    · rintro u th - - (hno | hno) <;> cases hno
  | sys l =>
    have h : step env s l = some s' := h
    by_cases hop : ∃ t c, l = .op t c
    · obtain ⟨t, c, rfl⟩ := hop
      obtain ⟨th, e, r, k, w, m, hadv⟩ := stepOp_cases h
      cases hJ : th.exhausted env d with
      | none => exact hI.call_other h hadv hl hJ
      | some J =>
        obtain ⟨hfault, hread⟩ := (hl.2 th hadv.live).1 J hJ
        have hget := (State.live?_eq_some.mp hadv.live).1
        have hinv := (hI.stands t th J hget hJ).called hadv hI.base.ok hJ hfault hread
        by_cases hcommit : e = .sql .commit
        · subst hcommit
          exact hI.commit h hadv hl hJ hinv
        · exact hI.call_own h hadv hl hJ hinv hcommit
    · have hno : ∀ t c, l ≠ .op t c := fun t c hl => hop ⟨t, c, hl⟩
      have hidle := step_idle h hno
      refine hI.rest (emitting_step hI.base hl.1 h) (step_length h) (fun u th' hu => step_stems h hno hu)
        (hidle.tables.status? d) (hidle.tables.log d) ?_
      rintro u th hu halive (rfl | rfl) hsome
      · obtain ⟨th₀, hlive, hover, -⟩ := settle_cases h
        obtain rfl := Option.some.inj ((State.live?_eq_some.mp hlive).1.symm.trans hu)
        rw [Thread.ended]
        cases hp : th₀.prog with
        | op e k => exact absurd hp (hover e k)
        | ret a => rfl
        | raise y => rfl
      · exact hl.2 th (State.live?_eq_some.mpr ⟨hu, halive⟩) hsome

end

theorem reachable_serialized (h : Reach (emitStep env) (Serial env d γ) {} s) :
    Serialized env d γ s := by
  refine h.invariant ⟨⟨ok_init, ?_, ?_⟩, ?_, ?_, fun J => Nat.zero_le 1, rfl⟩ fun s l s' hI hl hstep =>
    serialized_step hI hl hstep
  · intro t th ht
    simp [State.live?] at ht
  · intro t th ht
    simp [State.live?] at ht
  · intro u th J hu
    cases hu
  · intro u th J hu
    cases hu

/-! ## Once for each exhaustion -/

/-- The exhaustions of jobs of `d` that the handler was invoked for. -/
def State.exhaustions (s : State) (env : Env) (d : DeliveryId) (γ : Tid → ℕ) : List Exhaustion :=
  (s.threads.zipIdx.filterMap (Exhaustion.of? env d γ)).dedup

/-- No invocation for `d` has a call left. -/
def State.settledFor (s : State) (env : Env) (d : DeliveryId) : Bool :=
  s.threads.all fun th => th.exhausted env d = none ∨ th.ended = true

/-- Each exhaustion of a job of `d` has added one transition to DLQ and fired one alert. -/
structure State.HandledOnce (s : State) (env : Env) (d : DeliveryId) (γ : Tid → ℕ) : Prop where
  moved : ∀ E ∈ s.exhaustions env d γ, s.movesFor env d γ E = 1
  alerted : ∀ E ∈ s.exhaustions env d γ, s.alertsFor env d γ E = 1
  entries : s.pg.db.entries d = (s.exhaustions env d γ).length

theorem Thread.Stands.ended {p : Prop} (h : th.Stands d p) (hend : th.ended = true) :
    th.alerts = th.facts.moved.toNat ∧ (th.facts.moved = false → p) := by
  cases h with
  | going alive turn hgoing =>
    obtain ⟨e, k, hop⟩ := HandlerStage.going_prog hgoing
    rw [Thread.ended, turn.prog, hop] at hend
    cases hend
  | finished hprog halerts hunmoved => exact ⟨halerts, fun hm => (hunmoved hm).1⟩

theorem Serialized.handledOnce (hI : Serialized env d γ s) (hend : s.settledFor env d = true) :
    s.HandledOnce env d γ := by
  have hended : ∀ {i E}, i ∈ s.threads.zipIdx → Exhaustion.of? env d γ i = some E →
      i.1.alerts = i.1.facts.moved.toNat ∧
        (i.1.facts.moved = false → 0 < s.movesFor env d γ E) := by
    rintro ⟨th, u⟩ E hi hE
    obtain ⟨J, hJ, rfl⟩ := Option.map_eq_some_iff.mp hE
    have hu := List.mk_mem_zipIdx_iff_getElem?.mp hi
    refine (hI.stands u th J hu hJ).ended ?_
    have hor := of_decide_eq_true (List.all_eq_true.mp hend th (List.mem_of_getElem? hu))
    exact hor.resolve_left (by simp [hJ])
  have hmoved : ∀ E ∈ s.threads.zipIdx.filterMap (Exhaustion.of? env d γ),
      s.movesFor env d γ E = 1 := by
    intro E hE
    obtain ⟨i, hi, hE⟩ := List.mem_filterMap.mp hE
    refine Nat.le_antisymm (hI.once E) ?_
    by_cases hm : i.1.facts.moved = true
    · exact List.countP_pos_iff.mpr ⟨i, hi, decide_eq_true ⟨hE, hm⟩⟩
    · exact (hended hi hE).2 (by simpa using hm)
  refine ⟨fun E hE => hmoved E (List.mem_dedup.mp hE), fun E hE => ?_, ?_⟩
  · rw [State.alertsFor, Table.sum_filter_toNat _ (fun i : Thread × Tid => i.1.facts.moved) _
      fun i hi hq => (hended hi (of_decide_eq_true hq)).1]
    simpa [State.movesFor] using hmoved E (List.mem_dedup.mp hE)
  · rw [hI.entries, State.exhaustions, State.moves,
      ← Table.countP_marked _ (fun i : Thread × Tid => i.1.facts.moved) hmoved]
    refine List.countP_congr fun i _ => ?_
    rw [Exhaustion.of?, Option.isSome_map]

/-- **The handler is idempotent when its invocations and the retries are serial**: no invocation
overwrites a status other than the one it has read, and once none of them has a call left each
exhaustion of a job has added one transition to DLQ and fired one alert. -/
theorem exhaustion_handled_once (h : Reach (emitStep env) (Serial env d γ) {} s) :
    (∀ t th x, s.live? t = some th → th.exhausted env d ≠ none → th.committing = true →
      th.facts.row = some x → s.pg.db.status? d = some x.status) ∧
    (s.settledFor env d = true → s.HandledOnce env d γ) := by
  have hI := reachable_serialized h
  refine ⟨fun t th x hlive hsome hcommit hrow => ?_, hI.handledOnce⟩
  obtain ⟨J, hJ⟩ := Option.ne_none_iff_exists'.mp hsome
  have hget := (State.live?_eq_some.mp hlive).1
  obtain ⟨k, hp⟩ := Thread.committing_iff.mp hcommit
  cases hI.stands t th J hget hJ with
  | finished hprog => cases hp.symm.trans hprog
  | going alive turn hgoing =>
    obtain ⟨f, hf, -⟩ := HandlerStage.laid _ (turn.prog.symm.trans hp)
    obtain ⟨y, rfl, -⟩ := HandlerStage.next_commit hf
    obtain ⟨htook, -⟩ := turn.knows
    obtain ⟨z, hz, hst, -⟩ := hI.reads t th J hget hJ (by
      rw [Thread.between, hJ, htook.row, htook.moved]
      simp [htook.status])
    rw [hst, Option.some.inj (hz.symm.trans hrow)]

instance (s : State) : (l : EmitLabel) → Decidable (Serial env d γ s l)
  | .emit _ => .isTrue trivial
  | .sys l => match l with
    | .op t _ => inferInstanceAs (Decidable (_ ∧ ∀ th ∈ s.live? t, _))
    | .crash t => inferInstanceAs (Decidable (_ ∧ ∀ th ∈ s.live? t,
        th.exhausted env d ≠ none → th.ended = true))
    | .tick _ | .settle _ | .operatorAdd _ _ | .extend _ | .extendReply _ | .request _ | .pickup _
    | .stall _ | .stallFail _ | .removeCompleted _ | .evict _ | .idemArrive _ | .redisLoss
    | .createEndpoint _ _ _ | .patchEndpoint _ _ _ => inferInstanceAs (Decidable (_ ∧ True))

theorem emitted_run {C : State → EmitLabel → Prop} [∀ s l, Decidable (C s l)] (ls : List EmitLabel)
    (p : State → Bool) (h : (runOf (emitStep sampleEnv) C {} ls).any p = true) :
    ∃ s, Reach (emitStep sampleEnv) C {} s ∧ p s = true := by
  obtain ⟨s, hrun, hp⟩ := exists_run h
  exact ⟨s, ⟨ls, hrun⟩, hp⟩

/-- The API dies before it records that it enqueued the delivery, and the job is exhausted. `failed` is
emitted a second time after the handler has come to its end, the delivery is retried, and Redis is lost.
A sweep adds the original job again, which is exhausted too, and its handler is execution 23. -/
def sampleEmittedAgain : List EmitLabel :=
  List.map .sys ([.createEndpoint "client" "url" "secret",
    .request (.postEvent ⟨some "key", 0, 0, "type", "payload"⟩)] ++ calls 0 11 ++ [.crash 0] ++
    sampleFailure 1 ++ sampleFailure 3 ++ sampleFailure 5 ++ sampleFailure 7 ++ sampleFailure 9 ++
    calls 10 9) ++ .emit ⟨.delivery 2, 2, 5⟩ ::
  List.map .sys (calls 11 1 ++ .request (.postRetry 2) :: calls 12 8 ++ .redisLoss ::
    sampleSweep 13 ++ calls 13 1 ++ sampleFailure 14 ++ sampleFailure 16 ++ sampleFailure 18 ++
    sampleFailure 20 ++ sampleFailure 22 ++ calls 23 9)

/-- The second exhaustion of the sample begins with its handler. -/
def sampleRound (t : Tid) : ℕ := if t < 23 then 0 else 1

theorem exhaustion_handled_once_again : ∃ s : State,
    s.exhaustions sampleEnv 2 sampleRound = [⟨.delivery 2, 0⟩, ⟨.delivery 2, 1⟩] ∧
      s.HandledOnce sampleEnv 2 sampleRound := by
  obtain ⟨s, hreach, hs⟩ := emitted_run (C := Serial sampleEnv 2 sampleRound) sampleEmittedAgain
    (fun s => s.exhaustions sampleEnv 2 sampleRound = [⟨.delivery 2, 0⟩, ⟨.delivery 2, 1⟩] ∧
      s.settledFor sampleEnv 2 = true) (by decide +kernel)
  obtain ⟨htwo, hend⟩ := of_decide_eq_true hs
  exact ⟨s, htwo, (exhaustion_handled_once hreach).2 hend⟩

/-- The calls of the invocations do not fail, and none of them dies before its end. No job is lost, so
that each job is exhausted at most once. -/
def Faultless (env : Env) (d : DeliveryId) (s : State) : EmitLabel → Prop
  | .emit _ => True
  | .sys l => KeepsJobs s l ∧ match l with
    | .op t c => ∀ th ∈ s.live? t, th.exhausted env d ≠ none → c.fault = .none
    | .crash t => ∀ th ∈ s.live? t, th.exhausted env d ≠ none → th.ended = true
    | _ => True

instance (s : State) : (l : EmitLabel) → Decidable (Faultless env d s l)
  | .emit _ => .isTrue trivial
  | .sys l => match l with
    | .op t c => inferInstanceAs (Decidable (_ ∧ ∀ th ∈ s.live? t,
        th.exhausted env d ≠ none → c.fault = .none))
    | .crash t => inferInstanceAs (Decidable (_ ∧ ∀ th ∈ s.live? t,
        th.exhausted env d ≠ none → th.ended = true))
    | .tick _ | .settle _ | .operatorAdd _ _ | .extend _ | .extendReply _ | .request _ | .pickup _
    | .stall _ | .stallFail _ | .removeCompleted _ | .evict _ | .idemArrive _ | .redisLoss
    | .createEndpoint _ _ _ | .patchEndpoint _ _ _ => inferInstanceAs (Decidable (_ ∧ True))

/-- `failed` is emitted a second time at once, and both invocations read PENDING before the first one
commits; the second one has `n` calls after that. -/
def sampleEmittedTwice (n : ℕ) : List EmitLabel :=
  (sampleIngest ++ sampleFailure 1 ++ sampleFailure 3 ++ sampleFailure 5 ++ sampleFailure 7 ++
    sampleFailure 9).map .sys ++ .emit ⟨.delivery 2, 2, 5⟩ ::
      (calls 10 1 ++ calls 11 1 ++ calls 10 8 ++ calls 11 n).map .sys

/-- **Two invocations for one exhaustion**: the second one writes DLQ over DLQ though it has read
PENDING, and the exhaustion adds two transitions and fires two alerts. -/
theorem exhaustion_handled_twice :
    (¬ ∀ s, Reach (emitStep sampleEnv) (Faultless sampleEnv 2) {} s →
      ∀ t th x, s.live? t = some th → th.exhausted sampleEnv 2 ≠ none → th.committing = true →
        th.facts.row = some x → s.pg.db.status? 2 = some x.status) ∧
    ¬ ∀ s, Reach (emitStep sampleEnv) (Faultless sampleEnv 2) {} s →
      s.settledFor sampleEnv 2 = true → s.HandledOnce sampleEnv 2 fun _ => 0 := by
  constructor
  · intro h
    obtain ⟨s, hreach, hs⟩ := emitted_run (C := Faultless sampleEnv 2) (sampleEmittedTwice 4)
      (fun s => (s.live? 11).any fun th => th.exhausted sampleEnv 2 ≠ none ∧
        th.committing = true ∧ th.facts.row.any fun x => s.pg.db.status? 2 ≠ some x.status)
      (by decide +kernel)
    obtain ⟨th, hlive, hth⟩ := (Option.any_eq_true _ _).mp hs
    obtain ⟨hsome, hcommit, hrow⟩ := of_decide_eq_true hth
    obtain ⟨x, hx, hne⟩ := (Option.any_eq_true _ _).mp hrow
    exact of_decide_eq_true hne (h s hreach 11 th x hlive hsome hcommit hx)
  · intro h
    obtain ⟨s, hreach, hs⟩ := emitted_run (C := Faultless sampleEnv 2) (sampleEmittedTwice 8)
      (fun s => s.settledFor sampleEnv 2 = true ∧
        s.exhaustions sampleEnv 2 (fun _ => 0) = [⟨.delivery 2, 0⟩] ∧
          s.movesFor sampleEnv 2 (fun _ => 0) ⟨.delivery 2, 0⟩ = 2 ∧
            s.alertsFor sampleEnv 2 (fun _ => 0) ⟨.delivery 2, 0⟩ = 2 ∧ s.pg.db.entries 2 = 2)
      (by decide +kernel)
    obtain ⟨hend, hone, htwo, -, -⟩ := of_decide_eq_true hs
    have hmoved := (h s hreach hend).moved ⟨.delivery 2, 0⟩ (by rw [hone]; exact List.mem_cons_self)
    rw [htwo] at hmoved
    cases hmoved

end WebhookEngine
