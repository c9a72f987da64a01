import WebhookEngine.Proof.Tokens

set_option autoImplicit false

/-!
# The passages of a processor

`Passage` is what the calls of `processDelivery` say about the lock, the heartbeat, the breaker, the
bucket and the request.

* `passages`: the monitor. The lock is taken before the heartbeat starts, and `lockLost` is read after
  it stopped.
* `Passage.Ends`: what a processor leaves behind, by the way it ends.
* **`safe_passages`**: every processor keeps to it.
* **`step_lives`**: what a step does to one execution.
* `Passing`, `reachable_passing`: so do all processors of the system.
-/

namespace WebhookEngine

open EffectProg TransitionSystem

variable {env : Env}

/-- What the calls of a processor say about it. -/
structure Passage where
  /-- The lock may be stored under its token. -/
  mayHold : Bool := false
  /-- The heartbeat was started. -/
  begun : Bool := false
  /-- The heartbeat is running. -/
  beating : Bool := false
  /-- What `lockLost` was when it was read. -/
  lost : Option Bool := none
  /-- `checkState` answered 'probe'. -/
  won : Bool := false
  /-- The bucket script gave a token, or its answer was lost. -/
  took : Bool := false
  /-- A command of `release` was sent to the bucket. -/
  gave : Bool := false
  /-- The bucket script gave a token. -/
  granted : Bool := false
  /-- A statement other than the SELECT of `getForDelivery` was sent. -/
  wrote : Bool := false
  /-- A COMMIT was answered. -/
  marked : Bool := false
  /-- The requests sent. -/
  sent : ℕ := 0
  /-- A command was sent that writes `:fails` or `:open`. -/
  noted : Bool := false
  /-- The commands that start `onProbeResult`: the DEL of a success, the SET of a failure. -/
  reports : ℕ := 0
  deriving DecidableEq

/-- How the passage follows a call. -/
def Passage.next (m : Passage) : (e : Eff) → e.Resp → Passage
  | .redis (.setLock _ _ _), .ok got => { m with mayHold := got }
  | .redis (.setLock _ _ _), .error _ => { m with mayHold := true }
  | .redis (.evalReleaseLock _ _), .ok _ => { m with mayHold := false }
  | .redis (.setProbe _ _), .ok won => { m with won := won }
  | .redis (.evalTokenBucket _ _ _), .ok remaining =>
    { m with took := m.took || granted? remaining, granted := granted? remaining }
  | .redis (.evalTokenBucket _ _ _), .error _ => { m with took := true }
  | .redis (.hincrbyTokens _), _ => { m with gave := true }
  | .redis (.hsetTokens _ _), _ => { m with gave := true }
  | .redis (.expireTokens _ _), _ => { m with gave := true }
  | .redis (.incrFails _), _ => { m with noted := true }
  | .redis (.expireFails _ _), _ => { m with noted := true }
  | .redis (.setOpen _ _), _ => { m with noted := true, reports := m.reports + 1 }
  | .redis (.delFailsProbe _), _ => { m with noted := true, reports := m.reports + 1 }
  | .sql (.selectForDelivery _), _ => m
  | .sql .commit, .ok _ => { m with wrote := true, marked := true }
  | .sql _, _ => { m with wrote := true }
  | .setInterval, _ => { m with begun := true, beating := true }
  | .clearInterval, _ => { m with beating := false }
  | .readLockLost, b => { m with lost := some b }
  | .httpStart _, _ => { m with sent := m.sent + 1 }
  | _, _ => m

def permitsPassage (m : Passage) : Eff → Prop
  | .redis (.setLock _ _ _) => m.mayHold = false ∧ m.begun = false ∧ m.lost = none
  | .setInterval => m.lost = none
  | .readLockLost => m.beating = false
  | _ => True

/-- Nothing but BullMQ's own error makes a job delayed. -/
def expectsPassage : (e : Eff) → e.Resp → Prop
  | .sql _, r => r ≠ .error .delayed
  | .redis _, r => r ≠ .error .delayed
  | .moveToDelayed _ _, r => r ≠ .error .delayed
  | _, _ => True

def passages : Monitor Eff Eff.Resp Passage where
  next := Passage.next
  permits := permitsPassage
  expects _ := expectsPassage

/-- **Who won the probe sends one request and reports it, if it got a token and its transition was
committed**, and sends none otherwise; who found its lock lost has written the breaker's keys if it
had won the probe. -/
structure Passage.Told (m : Passage) : Prop where
  probe : m.won = true →
    if m.granted ∧ m.marked then m.sent = 1 ∧ m.reports = 1 else m.sent = 0
  lost : m.lost = some true → m.noted = m.won

/-- The processor has done nothing to the delivery, its endpoint or its bucket. -/
structure Passage.Unused (m : Passage) : Prop where
  begun : m.begun = false
  took : m.took = false
  gave : m.gave = false
  wrote : m.wrote = false
  sent : m.sent = 0
  noted : m.noted = false

/-- **What a processor leaves behind.** -/
structure Passage.Ends {α : Type} (m : Passage) (r : Except Err α) : Prop where
  told : m.Told
  delayed : r = .error .delayed → m.Unused ∧ m.mayHold = false

/-! ## Rules -/

variable {m : Passage} {α : Type}

theorem safe_sql_passage {q : Sql} {Q : Passage → Except Err q.Ret → Prop} :
    Prog.Safe passages m (sql q) Q ↔
      ∀ r, r ≠ .error .delayed → Q (m.next (.sql q) r) r := by
  unfold sql await
  rw [Prog.safe_bind]
  refine Iff.trans (and_iff_right (by cases q <;> trivial)) ?_
  exact forall_congr' fun r => imp_congr Iff.rfl Prog.safe_ofExcept

theorem safe_redis_passage {c : RedisCmd} {Q : Passage → Except Err c.Ret → Prop} :
    Prog.Safe passages m (redis c) Q ↔
      permitsPassage m (.redis c) ∧ ∀ r, r ≠ .error .delayed → Q (m.next (.redis c) r) r := by
  unfold redis await
  rw [Prog.safe_bind]
  exact and_congr Iff.rfl (forall_congr' fun r => imp_congr Iff.rfl Prog.safe_ofExcept)

@[simp] theorem safe_dateNow_passage {Q : Passage → Except Err Time → Prop} :
    Prog.Safe passages m dateNow Q ↔ ∀ now, Q m (.ok now) :=
  ⟨fun h now => h.2 now trivial, fun h => ⟨trivial, fun now _ => h now⟩⟩

@[simp] theorem safe_mathRandom_passage {Q : Passage → Except Err ℕ → Prop} :
    Prog.Safe passages m mathRandom Q ↔ ∀ n, Q m (.ok n) :=
  ⟨fun h n => h.2 n trivial, fun h => ⟨trivial, fun n _ => h n⟩⟩

theorem raised {β : Type} {y : Err} (h : (.error y : Except Err β) ≠ .error .delayed) :
    y ≠ .delayed := fun hy => h (congrArg _ hy)

theorem raised_again {β : Type} {y : Err} (h : y ≠ .delayed) :
    (.error y : Except Err β) ≠ .error .delayed := fun heq => h (Except.error.inj heq)

theorem safe_park_passage {id : JobId} {u : Time} {Q : Passage → Except Err α → Prop}
    (h : ∀ y, Q m (.error y)) :
    Prog.Safe passages m ((moveToDelayed id u).bind fun _ => Prog.raise .delayed) Q := by
  refine Prog.safe_bind.mpr ⟨trivial, fun r _ => Prog.safe_ofExcept.mpr ?_⟩
  cases r <;> exact h _

theorem safe_stmt_passage {st : Stmt} {Q : Passage → Except Err (Option ℕ) → Prop}
    (hm : m.wrote = true) (hok : ∀ o, Q m (.ok o)) (herr : ∀ y, y ≠ .delayed → Q m (.error y)) :
    Prog.Safe passages m (sql (.write st)) Q := by
  have hnext : ∀ r, m.next (.sql (.write st)) r = m := by
    intro r
    cases m
    cases hm
    rfl
  refine safe_sql_passage.mpr fun r hr => ?_
  rw [hnext]
  cases r with
  | ok o => exact hok o
  | error y => exact herr y (raised hr)

/-- **The rule of `withTx`** for a body that makes statements only. -/
theorem safe_withTx_passage {fn : Code α} {Q : Passage → Except Err α → Prop}
    (hfn : Prog.Safe passages { m with wrote := true } fn fun m' r =>
      m' = { m with wrote := true } ∧ r ≠ .error .delayed)
    (hok : ∀ a, Q { m with wrote := true, marked := true } (.ok a))
    (herr : ∀ y, y ≠ .delayed → Q { m with wrote := true } (.error y)) :
    Prog.Safe passages m (withTx fn) Q := by
  have hrb : ∀ x : Err, x ≠ .delayed → Prog.Safe passages { m with wrote := true }
      ((sql .rollback).bind fun _ => Prog.raise x) Q := by
    intro x hx
    refine Prog.safe_bind.mpr (safe_sql_passage.mpr fun r hr => ?_)
    cases r with
    | ok _ => exact herr x hx
    | error y => exact herr y (raised hr)
  refine Prog.safe_bind.mpr (safe_sql_passage.mpr fun r hr => ?_)
  cases r with
  | error y => exact herr y (raised hr)
  | ok _ =>
    refine Prog.safe_tryCatch.mpr (Prog.safe_bind.mpr (safe_sql_passage.mpr fun r hr => ?_))
    cases r with
    | error y => exact hrb y (raised hr)
    | ok _ =>
      refine Prog.safe_bind.mpr (hfn.mono ?_)
      rintro m' r ⟨rfl, hr⟩
      cases r with
      | error y => exact hrb y (raised hr)
      | ok a =>
        refine Prog.safe_bind.mpr (safe_sql_passage.mpr fun r hr => ?_)
        cases r with
        | error y => exact hrb y (raised hr)
        | ok _ => exact hok a

theorem safe_transition_passage {d : DeliveryId} {f g : Status} {a : Actor} {reason : String}
    {Q : Passage → Except Err Unit → Prop} (hok : Q { m with wrote := true, marked := true } (.ok ()))
    (herr : ∀ y, y ≠ .delayed → Q { m with wrote := true } (.error y)) :
    Prog.Safe passages m (transition d f g a reason) Q := by
  refine safe_withTx_passage ?_ (fun _ => hok) herr
  refine Prog.safe_bind.mpr (safe_stmt_passage rfl (fun _ => ?_) fun y hy => ⟨rfl, by simpa using hy⟩)
  refine Prog.safe_bind.mpr (safe_stmt_passage rfl (fun _ => ?_) fun y hy => ⟨rfl, by simpa using hy⟩)
  exact ⟨rfl, nofun⟩

theorem safe_recordAttempt_passage {input : RecordAttemptInput} {Q : Passage → Except Err Unit → Prop}
    (hok : Q { m with wrote := true, marked := true } (.ok ()))
    (herr : ∀ y, y ≠ .delayed → Q { m with wrote := true } (.error y)) :
    Prog.Safe passages m (recordAttempt input) Q := by
  refine safe_withTx_passage ?_ (fun _ => hok) herr
  refine Prog.safe_bind.mpr (safe_stmt_passage rfl (fun _ => ?_) fun y hy => ⟨rfl, by simpa using hy⟩)
  refine Prog.safe_bind.mpr (safe_stmt_passage rfl (fun _ => ?_) fun y hy => ⟨rfl, by simpa using hy⟩)
  refine Prog.safe_bind.mpr (safe_stmt_passage rfl (fun _ => ?_) fun y hy => ⟨rfl, by simpa using hy⟩)
  exact ⟨rfl, nofun⟩

/-! ## The processor -/

/-- The passage before anything was done, but for the lock and the breaker's verdict. -/
abbrev Passage.early (won : Bool) : Passage := { mayHold := true, won := won }

/-- The passage of a processor with a bucket token. -/
abbrev Passage.ready (won : Bool) : Passage := { Passage.early won with took := true, granted := true }

/-- `checkState` answers 'probe' exactly if the SET of the probe key did. -/
theorem safe_checkState_passage {ep : EndpointId} {Q : Passage → Except Err BreakerState → Prop}
    (hok : ∀ b : BreakerState, Q (.early (b = .probe)) (.ok b))
    (herr : ∀ y, y ≠ .delayed → Q (.early false) (.error y)) :
    Prog.Safe passages (.early false) (checkState env ep) Q := by
  refine Prog.safe_bind.mpr (safe_redis_passage.mpr ⟨trivial, fun r hr => ?_⟩)
  match r with
  | .error y => exact herr y (raised hr)
  | .ok true => exact hok .opened
  | .ok false =>
    refine Prog.safe_bind.mpr (safe_redis_passage.mpr ⟨trivial, fun r hr => ?_⟩)
    cases r with
    | error y => exact herr y (raised hr)
    | ok fails =>
      dsimp only
      split
      · refine Prog.safe_bind.mpr (safe_redis_passage.mpr ⟨trivial, fun r hr => ?_⟩)
        match r with
        | .error y => exact herr y (raised hr)
        | .ok true => exact hok .probe
        | .ok false => exact hok .opened
      · exact hok .closed

theorem Passage.told_of_unwon (h : m.won = false) (h' : m.lost = none) : m.Told :=
  ⟨fun hw => absurd (h.symm.trans hw) Bool.false_ne_true, fun hl => by rw [h'] at hl; cases hl⟩

theorem Passage.told_of_unsent (hm : (m.granted && m.marked) = false) (hs : m.sent = 0)
    (hl : m.lost = none) : m.Told := by
  refine ⟨fun _ => ?_, fun h => by rw [hl] at h; cases h⟩
  rw [if_neg (by simpa using hm)]
  exact hs

theorem safe_pickup_passage {job : JobRef} {Q : Passage → Except Err (Option Pickup) → Prop}
    (hsome : ∀ p : Pickup, Q (.ready (p.breakerState = .probe)) (.ok (some p)))
    (hnone : Q (.early false) (.ok none))
    (herr : ∀ m y, m.Told → (y = .delayed → m.Unused) → Q m (.error y)) :
    Prog.Safe passages (.early false) (pickup env job) Q := by
  have hearly : ∀ won, (Passage.early won).Told := fun won => Passage.told_of_unsent rfl rfl rfl
  have hunused : ∀ won, (Passage.early won).Unused := fun won => ⟨rfl, rfl, rfl, rfl, rfl, rfl⟩
  refine Prog.safe_bind.mpr (safe_sql_passage.mpr fun r hr => ?_)
  match r with
  | .error y => exact herr _ y (hearly _) fun _ => hunused _
  | .ok none => exact hnone
  | .ok (some r) =>
    change Prog.Safe passages (.early false) (if r.status = .delivered ∨ r.status = .dlq then _ else _) _
    split
    · exact hnone
    split
    · refine Prog.safe_bind.mpr (safe_dateNow_passage.mpr fun now => safe_park_passage fun y => ?_)
      exact herr _ y (hearly _) fun _ => hunused _
    refine Prog.safe_bind.mpr (safe_checkState_passage (fun b => ?_) fun y hy => ?_)
    · dsimp only
      split
      · rename_i hb
        rw [hb]
        refine Prog.safe_bind.mpr (safe_dateNow_passage.mpr fun now => ?_)
        refine Prog.safe_bind.mpr (safe_dateNow_passage.mpr fun later => ?_)
        refine Prog.safe_bind.mpr (safe_mathRandom_passage.mpr fun k => ?_)
        refine Prog.safe_bind.mpr (safe_recordAttempt_passage ?_ fun y hy => ?_)
        · exact herr _ _ (Passage.told_of_unwon rfl rfl) nofun
        · exact herr _ _ (Passage.told_of_unwon rfl rfl) fun h => absurd h hy
      · refine Prog.safe_bind.mpr (Prog.safe_bind.mpr (safe_redis_passage.mpr ⟨trivial, fun got hr => ?_⟩))
        cases got with
        | error y =>
          exact herr _ _ (Passage.told_of_unsent rfl rfl rfl) fun h => absurd h (raised hr)
        | ok remaining =>
          change Prog.Safe passages { Passage.early _ with
            took := granted? remaining, granted := granted? remaining }
              (if granted? remaining = true then _ else _) _
          cases granted? remaining with
          | true => exact hsome ⟨r, b⟩
          | false =>
            refine Prog.safe_bind.mpr (safe_mathRandom_passage.mpr fun k => ?_)
            refine Prog.safe_bind.mpr (safe_dateNow_passage.mpr fun now => safe_park_passage fun y => ?_)
            exact herr _ y (hearly _) fun _ => hunused _
    · exact herr _ y (hearly _) fun h => absurd h hy

/-- A lost lock is the outcome whatever the request brought. -/
theorem examine_lost (res : Except Thrown DeliverResult) : (examine env true res).outcome = .lockLost := by
  match res with
  | .ok _ => rfl
  | .error (.deliverError kind message) => rfl
  | .error (.other message) => rfl

theorem safe_noteOutcome_passage {p : Pickup} {o : AttemptOutcome}
    {Q : Passage → Except Err Unit → Prop} (hw : m.won = decide (p.breakerState = .probe))
    (hs : m.sent = 1) (hr : m.reports = 0) (hn : m.noted = false)
    (hm : (m.granted && m.marked) = true) (hl : m.lost = some true → o = .lockLost)
    (hQ : ∀ m' r, m'.Told → (m'.granted && m'.marked) = true → m'.lost = m.lost → r ≠ .error .delayed →
      Q m' r) : Prog.Safe passages m (noteOutcome env p o) Q := by
  have hmarked : m.granted = true ∧ m.marked = true := by simpa using hm
  -- a probe has one request and one report, and says so in the keys
  have hreported : ∀ m' : Passage, m' = { m with noted := true, reports := m.reports + 1 } →
      p.breakerState = .probe → m'.Told := by
    rintro m' rfl hb
    have hwon : m.won = true := by rw [hw]; simpa using hb
    refine ⟨fun _ => ?_, fun _ => hwon.symm⟩
    rw [if_pos hmarked]
    exact ⟨hs, congrArg Nat.succ hr⟩
  unfold noteOutcome onProbeResult
  split
  · rename_i hb
    split
    · refine Prog.safe_bind.mpr (safe_redis_passage.mpr ⟨trivial, fun r hr' => ?_⟩)
      cases r with
      | error y => exact hQ _ _ (hreported _ rfl hb) hm rfl (raised_again (raised hr'))
      | ok _ => exact hQ _ _ (hreported _ rfl hb) hm rfl nofun
    · refine Prog.safe_bind.mpr (safe_redis_passage.mpr ⟨trivial, fun r hr' => ?_⟩)
      cases r with
      | error y => exact hQ _ _ (hreported _ rfl hb) hm rfl (raised_again (raised hr'))
      | ok _ =>
        refine Prog.safe_bind.mpr (safe_redis_passage.mpr ⟨trivial, fun r hr' => ?_⟩)
        cases r with
        | error y => exact hQ _ _ (hreported _ rfl hb) hm rfl (raised_again (raised hr'))
        | ok _ => exact hQ _ _ (hreported _ rfl hb) hm rfl nofun
  · rename_i hb
    have hwon : m.won = false := by rw [hw]; simpa using hb
    have hunwon : ∀ m' : Passage, m'.won = m.won → (m'.lost = some true → m'.noted = false) → m'.Told :=
      fun m' h h' => ⟨fun hw' => absurd ((h.trans hwon).symm.trans hw') Bool.false_ne_true,
        fun hlost => (h' hlost).trans (h.trans hwon).symm⟩
    split
    · rename_i hreal
      -- a real failure is no lost lock
      have hnot : m.lost ≠ some true := fun h => by rw [hl h] at hreal; cases hreal
      refine Prog.safe_bind.mpr (safe_redis_passage.mpr ⟨trivial, fun r hr' => ?_⟩)
      cases r with
      | error y => exact hQ _ _ (hunwon _ rfl fun h => absurd h hnot) hm rfl (raised_again (raised hr'))
      | ok fails =>
        refine Prog.safe_bind.mpr (safe_redis_passage.mpr ⟨trivial, fun r hr' => ?_⟩)
        cases r with
        | error y => exact hQ _ _ (hunwon _ rfl fun h => absurd h hnot) hm rfl (raised_again (raised hr'))
        | ok _ =>
          dsimp only
          split
          · refine Prog.safe_bind.mpr (safe_redis_passage.mpr ⟨trivial, fun r hr' => ?_⟩)
            cases r with
            | error y =>
              exact hQ _ _ (hunwon _ rfl fun h => absurd h hnot) hm rfl (raised_again (raised hr'))
            | ok _ => exact hQ _ _ (hunwon _ rfl fun h => absurd h hnot) hm rfl nofun
          · exact hQ _ _ (hunwon _ rfl fun h => absurd h hnot) hm rfl nofun
    · exact hQ _ _ (hunwon _ rfl fun _ => hn) hm rfl nofun

theorem safe_request_passage {req : HttpRequest}
    {Q : Passage → Except Err (Except Thrown DeliverResult) → Prop} (hl : m.lost = none)
    (hQ : ∀ res, Q { m with begun := true, beating := false, sent := m.sent + 1 } (.ok res)) :
    Prog.Safe passages m (withLockHeartbeat (deliver env req)) Q := by
  refine Prog.safe_bind.mpr ⟨hl, fun _ _ => Prog.safe_andFinally.mpr ?_⟩
  refine Prog.safe_bind.mpr (safe_dateNow_passage.mpr fun startedAt => ?_)
  refine Prog.safe_bind.mpr ⟨trivial, fun _ _ => Prog.safe_bind.mpr ⟨trivial, fun reply _ => ?_⟩⟩
  cases reply with
  | response status text =>
    refine Prog.safe_bind.mpr (safe_dateNow_passage.mpr fun _ => ?_)
    exact ⟨trivial, fun _ _ => hQ _⟩
  | thrown e => exact ⟨trivial, fun _ _ => hQ _⟩

theorem safe_attemptDelivery_passage {job : JobRef} {p : Pickup} {Q : Passage → Except Err Unit → Prop}
    (hQ : ∀ m r, m.Told → r ≠ .error .delayed → Q m r) :
    Prog.Safe passages (.ready (p.breakerState = .probe)) (attemptDelivery env job p) Q := by
  refine Prog.safe_bind.mpr (safe_transition_passage ?_ fun y hy => ?_)
  · refine Prog.safe_bind.mpr (safe_dateNow_passage.mpr fun nowMs => ?_)
    refine Prog.safe_bind.mpr (safe_dateNow_passage.mpr fun startedAt => ?_)
    refine Prog.safe_bind.mpr (safe_request_passage rfl fun res => ?_)
    refine Prog.safe_bind.mpr (safe_dateNow_passage.mpr fun finishedAt => ?_)
    refine Prog.safe_bind.mpr ⟨rfl, fun lost _ => ?_⟩
    refine Prog.safe_bind.mpr (safe_noteOutcome_passage rfl rfl rfl rfl rfl (fun h => ?_) ?_)
    · cases h
      exact examine_lost res
    · intro m r hm hready hlost hr
      cases r with
      | error y => exact hQ _ _ hm hr
      | ok _ =>
        -- recording the attempt changes nothing of this
        have hmarked : m.granted = true ∧ m.marked = true := by simpa using hready
        have hkeep : ∀ m' : Passage, m' = { m with wrote := true, marked := true } ∨
            m' = { m with wrote := true } → m'.Told := by
          rintro m' (rfl | rfl)
          · refine ⟨fun hw => ?_, hm.lost⟩
            have := hm.probe hw
            rw [if_pos hmarked] at this
            rw [if_pos ⟨hmarked.1, rfl⟩]
            exact this
          · exact ⟨hm.probe, hm.lost⟩
        refine Prog.safe_bind.mpr (safe_dateNow_passage.mpr fun now => ?_)
        refine Prog.safe_bind.mpr (safe_mathRandom_passage.mpr fun k => ?_)
        refine Prog.safe_bind.mpr (safe_recordAttempt_passage ?_ fun y hy => ?_)
        · dsimp only
          split
          · exact hQ _ _ (hkeep _ (Or.inl rfl)) nofun
          · exact hQ _ _ (hkeep _ (Or.inl rfl)) (raised_again nofun)
        · exact hQ _ _ (hkeep _ (Or.inr rfl)) (raised_again hy)
  · exact hQ _ _ (Passage.told_of_unsent rfl rfl rfl) (raised_again hy)

theorem safe_cleanup_passage {job : JobRef} {t : Tid} {held : Option EndpointId}
    {Q : Passage → Except Err Unit → Prop}
    (hok : Q { m with mayHold := false, gave := held.isSome || m.gave } (.ok ()))
    (herr : ∀ g y, y ≠ .delayed → Q { m with gave := g } (.error y)) :
    Prog.Safe passages m (cleanup env job t held) Q := by
  have hrelease : Prog.Safe passages { m with gave := held.isSome || m.gave }
      ((releaseLock job.text t).bind fun _ => Prog.ret ()) Q := by
    refine Prog.safe_bind.mpr (safe_redis_passage.mpr ⟨trivial, fun r hr => ?_⟩)
    cases r with
    | ok _ => exact hok
    | error y => exact herr _ y (raised hr)
  refine Prog.safe_bind.mpr ?_
  cases held with
  | none => exact hrelease
  | some ep =>
    refine Prog.safe_bind.mpr (safe_redis_passage.mpr ⟨trivial, fun r hr => ?_⟩)
    cases r with
    | error y => exact herr _ y (raised hr)
    | ok current =>
      dsimp only
      split
      · refine Prog.safe_bind.mpr (safe_redis_passage.mpr ⟨trivial, fun r hr => ?_⟩)
        cases r with
        | error y => exact herr _ y (raised hr)
        | ok _ =>
          refine Prog.safe_bind.mpr (safe_redis_passage.mpr ⟨trivial, fun r hr => ?_⟩)
          cases r with
          | error y => exact herr _ y (raised hr)
          | ok _ => exact hrelease
      · refine Prog.safe_bind.mpr (safe_redis_passage.mpr ⟨trivial, fun r hr => ?_⟩)
        cases r with
        | error y => exact herr _ y (raised hr)
        | ok _ => exact hrelease

/-- **What every processor leaves behind.** -/
theorem safe_passages (job : JobRef) (t : Tid) :
    Prog.Safe passages {} (processDelivery env job t) Passage.Ends := by
  have hkeep : ∀ {m m' : Passage} (g : Bool), m.Told → m' = { m with mayHold := false, gave := g } ∨
      m' = { m with gave := g } → m'.Told := by
    rintro m m' g h (rfl | rfl) <;> exact ⟨h.probe, h.lost⟩
  refine Prog.safe_bind.mpr (safe_redis_passage.mpr ⟨⟨rfl, rfl, rfl⟩, fun acquired hr => ?_⟩)
  match acquired with
  | .error y => exact ⟨Passage.told_of_unwon rfl rfl, fun h => absurd (Except.error.inj h) (raised hr)⟩
  | .ok false =>
    refine Prog.safe_bind.mpr (safe_dateNow_passage.mpr fun now => safe_park_passage fun y => ?_)
    exact ⟨Passage.told_of_unwon rfl rfl, fun _ => ⟨⟨rfl, rfl, rfl, rfl, rfl, rfl⟩, rfl⟩⟩
  | .ok true =>
    refine Prog.safe_bind.mpr (Prog.safe_tryCatch.mpr (safe_pickup_passage ?_ ?_ ?_))
    · intro p
      refine Prog.safe_andFinally.mpr (safe_attemptDelivery_passage fun m r hm hr => ?_)
      refine safe_cleanup_passage ⟨hkeep _ hm (Or.inl rfl), fun h => absurd h hr⟩ fun g y hy => ?_
      exact ⟨hkeep g hm (Or.inr rfl), fun h => absurd (Except.error.inj h) hy⟩
    · refine safe_cleanup_passage ⟨Passage.told_of_unwon rfl rfl, nofun⟩ fun g y hy => ?_
      exact ⟨Passage.told_of_unwon rfl rfl, fun h => absurd (Except.error.inj h) hy⟩
    · intro m y hm hunused
      refine Prog.safe_bind.mpr
        (safe_cleanup_passage ⟨hkeep _ hm (Or.inl rfl), fun h => ?_⟩ fun g x hx => ?_)
      · have h := hunused (Except.error.inj h)
        exact ⟨⟨h.begun, h.took, h.gave, h.wrote, h.sent, h.noted⟩, rfl⟩
      · exact ⟨hkeep g hm (Or.inr rfl), fun h => absurd (Except.error.inj h) hx⟩

/-! ## The memory of an execution -/

variable {s s' : State} {l : Label} {t u : Tid} {th th' : Thread}

/-- A call takes no time, and only a command changes Redis. -/
theorem perform_now {w w' : World} {m m' : Memory} {c : Choice} {e : Eff} {r : e.Resp}
    (h : perform t w m c e = some (w', m', r)) :
    w'.now = w.now ∧ ((∀ cmd, e ≠ .redis cmd) → w'.redis = w.redis) := by
  cases e with
  | sql q =>
    obtain ⟨pg', sess', -, rfl, -⟩ := perform_sql h
    exact ⟨rfl, fun _ => rfl⟩
  | redis cmd =>
    cases h
    exact ⟨rfl, fun hne => absurd rfl (hne cmd)⟩
  | moveToDelayed id u =>
    simp only [perform, World.moveToDelayed] at h
    split at h <;> cases h <;> exact ⟨rfl, fun _ => rfl⟩
  | _ =>
    cases h
    exact ⟨rfl, fun _ => rfl⟩

theorem step_mem (h : step env s l = some s') (hu : s.live? u = some th) (hu' : s'.live? u = some th')
    (hop : ∀ c, l ≠ .op u c) (hextend : l ≠ .extend u) (hreply : l ≠ .extendReply u) :
    th'.mem = th.mem := by
  have hsame : s.live? u = some th' → th'.mem = th.mem := fun h => by
    rw [hu] at h
    cases h
    rfl
  have hput : ∀ {t : Tid} {th₀ th₁ : Thread} {w : World}, s.live? t = some th₀ →
      (u = t → th₁.alive = true → False) →
        (State.mk w (s.threads.set t th₁)).live? u = some th' → th'.mem = th.mem := by
    intro t th₀ th₁ w hlive hne h
    rw [State.live?_set hlive rfl] at h
    split at h
    · rename_i hut
      split at h
      · rename_i halive
        exact (hne hut halive).elim
      · cases h
    · exact hsame h
  have hspawn : ∀ {s₁ : State} {k : Kind}, s₁.threads.length = s.threads.length →
      (s₁.live? u = some th' → th'.mem = th.mem) → (s₁.spawn env k).live? u = some th' →
        th'.mem = th.mem := by
    intro s₁ k hlen hs₁ h
    rw [State.live?_spawn, if_neg (Nat.ne_of_lt (hlen ▸ State.live?_lt hu))] at h
    exact hs₁ h
  cases step_happens h with
  | @op t c _ _ _ _ _ _ _ h =>
    rw [h.live?_other fun hut => hop c (hut ▸ rfl)] at hu'
    exact hsame hu'
  | settle hlive _ h =>
    cases h with
    | plain => exact hput hlive (fun _ h => Bool.false_ne_true h) hu'
    | completes => exact hput hlive (fun _ h => Bool.false_ne_true h) hu'
    | fails => exact hspawn List.length_set (hput hlive fun _ h => Bool.false_ne_true h) hu'
  | crash hlive => exact hput hlive (fun _ h => Bool.false_ne_true h) hu'
  | extend hlive => exact hput hlive (fun hut _ => hextend (hut ▸ rfl)) hu'
  | extendReply hlive => exact hput hlive (fun hut _ => hreply (hut ▸ rfl)) hu'
  | request | pickup | stallFail => exact hspawn rfl hsame hu'
  | _ => exact hsame hu'

theorem extend_mem (h : s.extend env t = some s') : ∃ th job, s.live? t = some th ∧
    th.kind = .deliver job ∧ th.mem.heartbeat = true ∧ s'.now = s.now ∧
      s'.redis = (s.redis.extendLock s.now job.text t env.lockTtlMs).1 ∧
        ∀ u, s'.live? u = if u = t then some { th with mem := { th.mem with extending :=
          th.mem.extending ++ [(s.redis.extendLock s.now job.text t env.lockTtlMs).2] } }
            else s.live? u := by
  obtain ⟨th, hlive, h⟩ := Option.bind_eq_some_iff.mp h
  split at h
  · rename_i job hk
    split at h
    · rename_i hbeat
      obtain rfl := Option.some.inj h
      refine ⟨th, job, hlive, hk, hbeat, rfl, rfl, fun u => ?_⟩
      have halive := (State.live?_eq_some.mp hlive).2
      refine (State.live?_put hlive).trans ?_
      rw [halive, if_pos rfl]
      rfl
    · cases h
  · cases h

theorem extendReply_mem (h : s.extendReply t = some s') : ∃ th held rest, s.live? t = some th ∧
    th.mem.extending = held :: rest ∧ s'.toWorld = s.toWorld ∧
      ∀ u, s'.live? u = if u = t then some { th with mem := { th.mem with
        extending := rest, lockLost := th.mem.lockLost || !held } } else s.live? u := by
  obtain ⟨th, hlive, h⟩ := Option.bind_eq_some_iff.mp h
  split at h
  · cases h
  · rename_i held rest hext
    cases h
    refine ⟨th, held, rest, hlive, hext, rfl, fun u => ?_⟩
    have halive := (State.live?_eq_some.mp hlive).2
    refine (State.live?_put hlive).trans ?_
    rw [halive, if_pos rfl]

/-! ## All processors -/

/-- The passage of an execution, from its calls, latest first. -/
def passage : List Event → Passage
  | [] => {}
  | ev :: trace => (passage trace).next ev.1 ev.2

def Thread.passage (th : Thread) : Passage := WebhookEngine.passage th.trace

/-- **The passage of a processor fits its program and its memory.** -/
structure Thread.Passing (th : Thread) : Prop where
  safe : Prog.Safe passages th.passage th.prog Passage.Ends
  quiet : th.passage.lost.isSome → th.passage.beating = false
  beat : th.mem.heartbeat = th.passage.beating
  before : th.passage.begun = false →
    th.passage.beating = false ∧ th.mem.lockLost = false ∧ th.mem.extending = []

def Passing (s : State) : Prop :=
  ∀ t th job, s.live? t = some th → th.kind = .deliver job → th.Passing

theorem Advance.expected {c : Choice} {e : Eff} {r : e.Resp} {k : e.Resp → Code Reply} {w : World}
    {m : Memory} (h : Advance s s' t c th e r k w m) : expectsPassage e r := by
  have hne : e.failure r ≠ some .delayed := by
    intro hx
    cases perform_failure h.done hx
  cases e with
  | sql q => exact fun hr => hne (congrArg failureOf hr)
  | redis cmd => exact fun hr => hne (congrArg failureOf hr)
  | moveToDelayed id u => exact fun hr => hne (congrArg failureOf hr)
  | _ => trivial

/-- The calls of the heartbeat. -/
def Eff.beats : Eff → Bool
  | .setInterval => true
  | .clearInterval => true
  | .readLockLost => true
  | _ => false

theorem Passage.next_still {e : Eff} (r : e.Resp) (h : e.beats = false) :
    (m.next e r).begun = m.begun ∧ (m.next e r).beating = m.beating ∧
      (m.next e r).lost = m.lost := by
  cases e with
  | sql q =>
    cases q with
    | selectForDelivery d => exact ⟨rfl, rfl, rfl⟩
    | commit => cases r <;> exact ⟨rfl, rfl, rfl⟩
    | _ => exact ⟨rfl, rfl, rfl⟩
  | redis c =>
    cases c with
    | setLock d token ttl => cases r <;> exact ⟨rfl, rfl, rfl⟩
    | evalReleaseLock d token => cases r <;> exact ⟨rfl, rfl, rfl⟩
    | setProbe ep ttl => cases r <;> exact ⟨rfl, rfl, rfl⟩
    | evalTokenBucket ep max ttl => cases r <;> exact ⟨rfl, rfl, rfl⟩
    | _ => exact ⟨rfl, rfl, rfl⟩
  | setInterval => cases h
  | clearInterval => cases h
  | readLockLost => cases h
  | _ => exact ⟨rfl, rfl, rfl⟩

theorem perform_mem {w w' : World} {m m' : Memory} {c : Choice} {e : Eff} {r : e.Resp}
    (h : perform t w m c e = some (w', m', r)) : m'.lockLost = m.lockLost ∧
      m'.extending = m.extending ∧ (e.beats = false → m'.heartbeat = m.heartbeat) := by
  cases e with
  | sql q =>
    obtain ⟨pg', sess', -, -, rfl⟩ := perform_sql h
    exact ⟨rfl, rfl, fun _ => rfl⟩
  | setInterval =>
    cases h
    exact ⟨rfl, rfl, nofun⟩
  | clearInterval =>
    cases h
    exact ⟨rfl, rfl, nofun⟩
  | moveToDelayed id u =>
    simp only [perform, World.moveToDelayed] at h
    split at h <;> cases h <;> exact ⟨rfl, rfl, fun _ => rfl⟩
  | _ =>
    cases h
    exact ⟨rfl, rfl, fun _ => rfl⟩

theorem Thread.Passing.called {c : Choice} {e : Eff} {r : e.Resp} {k : e.Resp → Code Reply}
    {w : World} {mem : Memory} (hI : th.Passing) (h : Advance s s' t c th e r k w mem) :
    (th.after e r k mem).Passing := by
  have hsafe := hI.safe
  rw [h.prog] at hsafe
  obtain ⟨hpermit, hsafe⟩ := hsafe
  obtain ⟨hlost, hext, hbeat⟩ := perform_mem h.done
  have hpassage : (th.after e r k mem).passage = th.passage.next e r := rfl
  have hbefore : th.passage.begun = false → mem.lockLost = false ∧ mem.extending = [] := fun hb =>
    ⟨hlost.trans (hI.before hb).2.1, hext.trans (hI.before hb).2.2⟩
  cases hb : e.beats with
  | false =>
    obtain ⟨h1, h2, h3⟩ := th.passage.next_still r hb
    refine ⟨hsafe r h.expected, fun hl => ?_, ?_, fun hbegun => ?_⟩
    · rw [hpassage, h3] at hl
      rw [hpassage, h2]
      exact hI.quiet hl
    · rw [hpassage, h2]
      exact (hbeat hb).trans hI.beat
    · rw [hpassage, h1] at hbegun
      rw [hpassage, h2]
      exact ⟨(hI.before hbegun).1, hbefore hbegun⟩
  | true =>
    have hdone := h.done
    cases e with
    | setInterval =>
      cases hdone
      refine ⟨hsafe _ h.expected, fun hl => ?_, rfl, nofun⟩
      have hl : th.passage.lost.isSome := hl
      rw [show th.passage.lost = none from hpermit] at hl
      cases hl
    | clearInterval =>
      cases hdone
      exact ⟨hsafe _ h.expected, fun _ => rfl, rfl, fun hbegun => ⟨rfl, hbefore hbegun⟩⟩
    | readLockLost =>
      cases hdone
      exact ⟨hsafe _ h.expected, fun _ => hpermit, hI.beat, hI.before⟩
    | _ => cases hb

theorem safe_passages_program (job : JobRef) (t : Tid) :
    Prog.Safe passages {} (program env t (.deliver job)) Passage.Ends := by
  refine Prog.safe_bind.mpr ((safe_passages job t).mono fun m r hr => ?_)
  cases r with
  | error y => exact ⟨hr.told, fun h => hr.delayed (congrArg _ (Except.error.inj h))⟩
  | ok _ => exact ⟨hr.told, nofun⟩

/-- **What a step does to an execution that is alive after it.** -/
inductive Lives (env : Env) (s : State) (l : Label) (s' : State) (u : Tid) (th' : Thread) : Prop where
  | called {c : Choice} {th : Thread} {e : Eff} {r : e.Resp} {k : e.Resp → Code Reply} {w : World}
      {m : Memory} (hl : l = .op u c) (h : Advance s s' u c th e r k w m) (hth : th' = th.after e r k m)
  | beat {th : Thread} {job : JobRef} (hl : l = .extend u) (h : s.live? u = some th)
      (hk : th.kind = .deliver job) (hbeat : th.mem.heartbeat = true)
      (hth : th' = { th with mem := { th.mem with extending := th.mem.extending ++
        [(s.redis.extendLock s.now job.text u env.lockTtlMs).2] } })
  | heard {th : Thread} {held : Bool} {rest : List Bool} (hl : l = .extendReply u)
      (h : s.live? u = some th) (hext : th.mem.extending = held :: rest)
      (hth : th' = { th with mem :=
        { th.mem with extending := rest, lockLost := th.mem.lockLost || !held } })
  | kept {th : Thread} (h : s.live? u = some th) (hreply : l ≠ .extendReply u)
      (hk : Kept th th') (hmem : th'.mem = th.mem)
  | fresh {k : Kind} (hlen : s.threads.length ≤ u) (hk : k.Starts s l)
      (hth : th' = { kind := k, prog := program env u k })

theorem step_lives (h : step env s l = some s') (hu : s'.live? u = some th') :
    Lives env s l s' u th' := by
  by_cases hop : ∃ c, l = .op u c
  · obtain ⟨c, rfl⟩ := hop
    obtain ⟨th, e, r, k, w, m, hadv⟩ := stepOp_cases h
    exact .called rfl hadv (Option.some.inj (hu.symm.trans hadv.live?_self))
  by_cases hext : l = .extend u
  · subst hext
    obtain ⟨th, job, hlive, hk, hbeat, -, -, hth⟩ := extend_mem h
    rw [hth u, if_pos rfl] at hu
    exact .beat rfl hlive hk hbeat (Option.some.inj hu).symm
  by_cases hrep : l = .extendReply u
  · subst hrep
    obtain ⟨th, held, rest, hlive, hnext, -, hth⟩ := extendReply_mem h
    rw [hth u, if_pos rfl] at hu
    exact .heard rfl hlive hnext (Option.some.inj hu).symm
  cases step_arises h hu with
  | called hl => exact absurd ⟨_, hl⟩ hop
  | kept _ hlive hk =>
    exact .kept hlive hrep hk (step_mem h hlive hu (fun c hc => hop ⟨c, hc⟩) hext hrep)
  | fresh hlen hk hth => exact .fresh hlen hk hth

theorem Passing.step (h : step env s l = some s') (hI : Passing s) : Passing s' := by
  intro u th' job hu hk
  cases step_lives h hu with
  | called hl hadv hth =>
    subst hth
    exact (hI u _ job hadv.live hk).called hadv
  | beat hl hlive hk' hbeat hth =>
    subst hth
    have hold := hI u _ job hlive hk
    refine ⟨hold.safe, hold.quiet, hold.beat, fun hb => ?_⟩
    have := (hold.before hb).1
    rw [← hold.beat, hbeat] at this
    cases this
  | heard hl hlive hnext hth =>
    subst hth
    have hold := hI u _ job hlive hk
    refine ⟨hold.safe, hold.quiet, hold.beat, fun hb => ?_⟩
    have := (hold.before hb).2.2
    rw [hnext] at this
    cases this
  | @kept th hlive hreply hsame hmem =>
    have hold := hI u th job hlive (hsame.kind ▸ hk)
    have hpassage : th'.passage = th.passage := congrArg WebhookEngine.passage hsame.trace
    refine ⟨?_, ?_, ?_, ?_⟩
    · rw [hpassage, hsame.prog]
      exact hold.safe
    · rw [hpassage]
      exact hold.quiet
    · rw [hpassage, hmem]
      exact hold.beat
    · rw [hpassage, hmem]
      exact hold.before
  | fresh hlen hstart hth =>
    subst hth
    obtain rfl : _ = Kind.deliver job := hk
    exact ⟨safe_passages_program job u, nofun, rfl, fun _ => ⟨rfl, rfl, rfl⟩⟩

theorem reachable_passing {C : State → Label → Prop} (h : Reachable env C s) : Passing s := by
  refine h.invariant (I := Passing) (fun t th job h => ?_) fun s l s' hI _ hstep => hI.step hstep
  simp [State.live?] at h

end WebhookEngine
