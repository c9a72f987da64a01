import WebhookEngine.Proof.Programs
import WebhookEngine.Proof.Steps
import WebhookEngine.Proof.Tables

set_option autoImplicit false

/-!
# Open transactions

What is true of every open transaction in every reachable state, whatever the other executions do.

* `TxOk`: a transaction owns the keys of its writes, and what it is about to insert is not in the
  tables yet: no row with its uuid, no attempt with its number, no event with its key, and only
  smaller ids in the audit log of its delivery.
* `Thread.Ok`: the program is safe, its facts agree with its session, and the deliveries it knows of
  exist.
* `DbOk`: primary, unique and foreign keys of the tables.
* `Frame`: what a commit of one execution may do to the tables; `Thread.Ok.frame` is what the others
  keep.
-/

namespace WebhookEngine

open EffectProg

variable {env : Env} {s s' : State} {t u : Tid} {th th' : Thread} {pg pg' : Postgres}

/-- The facts of an execution. -/
def Thread.facts (th : Thread) : Facts := WebhookEngine.facts th.trace

/-- The writes of its open transaction. -/
def Thread.tx (th : Thread) : List Entry := th.facts.tx.getD []

/-- The writes of the session. -/
def Memory.entries (m : Memory) : Option (List Entry) :=
  m.sess.map fun σ => σ.writes.map fun w => (w.stmt, w.gen)

@[simp] theorem Thread.facts_after {e : Eff} {r : e.Resp} {k : e.Resp → Code Reply} {m : Memory} :
    (th.after e r k m).facts = th.facts.next e r := rfl

theorem Facts.next_of_not_sql {m : Facts} {e : Eff} (he : ∀ q, e ≠ .sql q) (r : e.Resp) :
    (m.next e r).tx = m.tx ∧ (m.next e r).row = m.row ∧ (m.next e r).seen = m.seen ∧
      (m.next e r).claimed = m.claimed ∧ (m.next e r).moved = m.moved := by
  cases e with
  | sql q => exact absurd rfl (he q)
  | redis c =>
    cases c with
    | setLock d token ttl => cases r <;> exact ⟨rfl, rfl, rfl, rfl, rfl⟩
    | _ => exact ⟨rfl, rfl, rfl, rfl, rfl⟩
  | queueAdd id d => cases r <;> exact ⟨rfl, rfl, rfl, rfl, rfl⟩
  | _ => exact ⟨rfl, rfl, rfl, rfl, rfl⟩

theorem Facts.nextSql_keeps {m : Facts} {q : Sql} (r : Except Err q.Ret) :
    (m.nextSql q r).holds = m.holds ∧ (m.nextSql q r).added = m.added ∧
      (m.nextSql q r).sent = m.sent ∧ (m.nextSql q r).reply = m.reply ∧
        (m.nextSql q r).lost = m.lost := by
  cases q with
  | write st =>
    match r with
    | .error x => exact ⟨rfl, rfl, rfl, rfl, rfl⟩
    | .ok none => exact ⟨rfl, rfl, rfl, rfl, rfl⟩
    | .ok (some g) => exact ⟨rfl, rfl, rfl, rfl, rfl⟩
  | _ => cases r <;> exact ⟨rfl, rfl, rfl, rfl, rfl⟩

/-! ## The deliveries an execution knows of -/

/-- The execution has seen the row of the delivery, or was given its id by one who has. -/
inductive Knows (k : Kind) (m : Facts) (d : DeliveryId) : Prop where
  | row {job : JobRef} (hk : k = .deliver job ∨ k = .failed job) (hd : job.deliveryId = d)
      (hr : m.row.isSome)
  | seen (hk : k.retries d) (hs : m.seen.isSome)
  | claimed (h : d ∈ m.claimed)
  | transition {f g : Status} {a : Actor} {reason : String}
      (hk : k = .repoCall (.transition d f g a reason))
  | record {input : RecordAttemptInput} (hk : k = .repoCall (.recordAttempt input))
      (hd : input.deliveryId = d)

theorem Knows.congr {k : Kind} {m m' : Facts} {d : DeliveryId} (h : Knows k m' d)
    (hr : m'.row = m.row) (hs : m'.seen = m.seen) (hc : m'.claimed = m.claimed) : Knows k m d := by
  cases h with
  | row hk hd h => exact .row hk hd (hr ▸ h)
  | seen hk h => exact .seen hk (hs ▸ h)
  | claimed h => exact .claimed (hc ▸ h)
  | transition hk => exact .transition hk
  | record hk hd => exact .record hk hd

theorem Moves.knows {k : Kind} {m : Facts} {d : DeliveryId} {f g : Status} {a : Actor}
    (h : Moves k m d f g a) : Knows k m d := by
  cases h with
  | mark h hm => exact .row (Or.inl rfl) rfl (by simp [h.row])
  | exhaust hr hs hm hsp => exact .row (Or.inr rfl) rfl (by simp [hr])
  | retry hk hs hm hsp => exact .seen hk (by simp [hs])
  | call => exact .transition rfl

theorem Records.knows {k : Kind} {m : Facts} {a : AttemptData} {f g : Status} {next : Option Time}
    (h : Records k m a f g next) : Knows k m a.deliveryId := by
  cases h with
  | circuit h hm hd hn ho => exact .row (Or.inl rfl) hd.symm (by simp [h.row])
  | outcome h hm hd hn ho hnext => exact .row (Or.inl rfl) hd.symm (by simp [h.row])
  | call => exact .record rfl rfl

/-- A transaction updates rows the execution knows of. -/
theorem Script.knows {k : Kind} {m : Facts} {tx : List Entry} (h : Script k m tx) {e : Entry}
    (he : e ∈ tx) {d : DeliveryId} (hd : e.1.key = some (.row d)) : Knows k m d := by
  cases h with
  | nil => cases he
  | move h reason g₁ g₂ =>
    rcases List.mem_cons.mp he with rfl | he
    · cases hd
      exact h.knows
    · rw [List.mem_singleton.mp he] at hd
      cases hd
  | record h reason g₁ g₂ g₃ =>
    rcases List.mem_cons.mp he with rfl | he
    · cases hd
    rcases List.mem_cons.mp he with rfl | he
    · cases hd
      exact h.knows
    · rw [List.mem_singleton.mp he] at hd
      cases hd
  | ingest hk c i ty p ep ev d' g =>
    rcases List.mem_cons.mp he with rfl | he
    · cases hd
    rcases List.mem_cons.mp he with rfl | he
    · cases hd
    · rw [List.mem_singleton.mp he] at hd
      cases hd
  | claim hk h =>
    obtain ⟨d', -, hc, heq⟩ := h e he
    rw [heq] at hd
    cases hd
    exact .claimed hc

/-- The audit row of a transaction comes after the update of the delivery, or after its insert. -/
theorem Script.guarded {k : Kind} {m : Facts} {tx rest : List Entry} {d : DeliveryId}
    {f : Option Status} {st : Status} {reason : String} {a : Actor} {g : ℕ}
    (h : Script k m (tx ++ (.insertTransition d f st reason a, g) :: rest)) :
    (∃ e ∈ tx, e.1.key = some (.row d)) ∨ ∃ ev ep, (.insertDelivery ev ep, d) ∈ tx := by
  generalize hL : tx ++ (Stmt.insertTransition d f st reason a, g) :: rest = L at h
  cases h with
  | nil => simp at hL
  | move h reason g₁ g₂ =>
    rcases tx with _ | ⟨e₁, _ | ⟨e₂, tx⟩⟩ <;> simp at hL
    obtain ⟨rfl, ⟨⟨rfl, -⟩, -⟩, -⟩ := hL
    exact Or.inl ⟨_, List.mem_singleton_self _, rfl⟩
  | record h reason g₁ g₂ g₃ =>
    rcases tx with _ | ⟨e₁, _ | ⟨e₂, _ | ⟨e₃, tx⟩⟩⟩ <;> simp at hL
    obtain ⟨rfl, rfl, ⟨⟨rfl, -⟩, -⟩, -⟩ := hL
    exact Or.inl ⟨_, List.mem_cons_of_mem _ (List.mem_singleton_self _), rfl⟩
  | ingest hk c i ty p ep ev d' g' =>
    rcases tx with _ | ⟨e₁, _ | ⟨e₂, _ | ⟨e₃, tx⟩⟩⟩ <;> simp at hL
    obtain ⟨rfl, rfl, ⟨⟨rfl, -⟩, -⟩, -⟩ := hL
    exact Or.inr ⟨ev, ep, List.mem_cons_of_mem _ (List.mem_singleton_self _)⟩
  | claim hk h =>
    obtain ⟨d', -, -, heq⟩ := h (.insertTransition d f st reason a, g) (by simp [← hL])
    cases heq

/-! ## The invariants -/

/-- What a write is about to insert is not in the tables yet. -/
def Pending (pg : Postgres) (t : Tid) (tx : List Entry) : Entry → Prop
  | (.insertEvent c k _ _, g) => g < pg.db.uuidSeq ∧
      ∀ r ∈ pg.db.events, r.id ≠ g ∧ ¬ (r.clientId = c ∧ r.idempotencyKey = k)
  | (.insertDelivery _ _, g) => g < pg.db.uuidSeq ∧ pg.db.delivery? g = none
  | (.insertTransition d _ _ _ _, g) => g < pg.db.transitionSeq ∧ (∀ r ∈ pg.db.log d, r.id < g) ∧
      (pg.locks (.row d) = some t ∨ ∃ ev ep, (.insertDelivery ev ep, d) ∈ tx)
  | (.insertAttempt a, _) => ∀ r ∈ pg.db.attempts,
      ¬ (r.deliveryId = a.deliveryId ∧ r.attemptNumber = a.attemptNumber)
  | _ => True

/-- The entry drew a uuid. -/
def Entry.draws : Entry → Prop
  | (.insertEvent _ _ _ _, _) => True
  | (.insertDelivery _ _, _) => True
  | _ => False

/-- **The open transaction** `tx` of `t`. -/
structure TxOk (pg : Postgres) (t : Tid) (tx : List Entry) : Prop where
  owns : ∀ e ∈ tx, ∀ key, e.1.key = some key → pg.locks key = some t
  pending : ∀ e ∈ tx, Pending pg t tx e

theorem TxOk.nil : TxOk pg t [] := ⟨by simp, by simp⟩

/-- **One execution.** -/
structure Thread.Ok (pg : Postgres) (t : Tid) (th : Thread) : Prop where
  safe : Prog.Safe (discipline t th.kind) th.facts th.prog fun _ _ => True
  sess : th.mem.entries = th.facts.tx
  knows : ∀ d, Knows th.kind th.facts d → (pg.db.delivery? d).isSome
  seen : ∀ d st, th.kind.retries d → th.facts.seen = some st → th.facts.tx.isSome →
    pg.locks (.row d) = some t ∧ pg.db.status? d = some st
  tx : TxOk pg t th.tx

/-- **The tables**: primary keys, unique keys and references. -/
structure DbOk (db : Db) : Prop where
  ids : (db.deliveries.map (·.id)).Nodup
  idsLt : ∀ r ∈ db.deliveries, r.id < db.uuidSeq
  eventIds : (db.events.map (·.id)).Nodup
  eventIdsLt : ∀ r ∈ db.events, r.id < db.uuidSeq
  eventKeys : (db.events.map fun r => (r.clientId, r.idempotencyKey)).Nodup
  eventDelivery : ∀ r ∈ db.events, ∃ d ∈ db.deliveries, d.eventId = r.id
  deliveryEvent : ∀ d ∈ db.deliveries, ∃ r ∈ db.events, r.id = d.eventId
  logRef : ∀ r ∈ db.transitions, (db.delivery? r.deliveryId).isSome
  logIdsLt : ∀ r ∈ db.transitions, r.id < db.transitionSeq
  attemptRef : ∀ r ∈ db.attempts, (db.delivery? r.deliveryId).isSome

/-- **The whole state.** -/
structure State.Ok (s : State) : Prop where
  threads : ∀ t th, s.live? t = some th → th.Ok s.pg t
  apart : ∀ t u th th', t ≠ u → s.live? t = some th → s.live? u = some th' →
    ∀ e ∈ th.tx, ∀ e' ∈ th'.tx, e.draws → e'.draws → e.2 ≠ e'.2
  rows : ∀ d u, s.pg.locks (.row d) = some u → (s.pg.db.delivery? d).isSome
  keys : ∀ c i u, s.pg.locks (.event c i) = some u → s.pg.db.eventByKey? c i = none
  db : DbOk s.pg.db

/-! ## Statements that leave the tables alone -/

theorem SameTables.delivery? (h : SameTables pg pg') (d : DeliveryId) :
    pg'.db.delivery? d = pg.db.delivery? d := by
  rw [Db.delivery?, h.deliveries, Db.delivery?]

theorem SameTables.status? (h : SameTables pg pg') (d : DeliveryId) :
    pg'.db.status? d = pg.db.status? d := by
  rw [Db.status?, h.delivery?, Db.status?]

theorem SameTables.eventByKey? (h : SameTables pg pg') (c i : String) :
    pg'.db.eventByKey? c i = pg.db.eventByKey? c i := by
  rw [Db.eventByKey?, h.events, Db.eventByKey?]

theorem SameTables.log (h : SameTables pg pg') (d : DeliveryId) :
    pg'.db.log d = pg.db.log d := by
  rw [Db.log, h.transitions, Db.log]

theorem SameTables.attemptsOf (h : SameTables pg pg') (d : DeliveryId) :
    pg'.db.attemptsOf d = pg.db.attemptsOf d := by
  rw [Db.attemptsOf, h.attempts, Db.attemptsOf]

theorem SameTables.dossier? (h : SameTables pg pg') (d : DeliveryId) :
    pg'.db.dossier? d = pg.db.dossier? d :=
  Db.dossier?_congr (h.delivery? d) (h.log d) (h.attemptsOf d)

theorem SameTables.ok (h : SameTables pg pg') (hdb : DbOk pg.db) : DbOk pg'.db where
  ids := by rw [h.deliveries]; exact hdb.ids
  idsLt r hr := by
    rw [h.deliveries] at hr
    exact Nat.lt_of_lt_of_le (hdb.idsLt r hr) h.uuidSeq
  eventIds := by rw [h.events]; exact hdb.eventIds
  eventIdsLt r hr := by
    rw [h.events] at hr
    exact Nat.lt_of_lt_of_le (hdb.eventIdsLt r hr) h.uuidSeq
  eventKeys := by rw [h.events]; exact hdb.eventKeys
  eventDelivery := by rw [h.events, h.deliveries]; exact hdb.eventDelivery
  deliveryEvent := by rw [h.events, h.deliveries]; exact hdb.deliveryEvent
  logRef r hr := by
    rw [h.transitions] at hr
    rw [h.delivery?]
    exact hdb.logRef r hr
  logIdsLt r hr := by
    rw [h.transitions] at hr
    exact Nat.lt_of_lt_of_le (hdb.logIdsLt r hr) h.transitionSeq
  attemptRef r hr := by
    rw [h.attempts] at hr
    rw [h.delivery?]
    exact hdb.attemptRef r hr

theorem Pending.same {tx : List Entry} {e : Entry} (h : SameTables pg pg')
    (hl : ∀ key, pg.locks key = some u → pg'.locks key = some u) (hp : Pending pg u tx e) :
    Pending pg' u tx e := by
  obtain ⟨st, g⟩ := e
  cases st with
  | insertEvent c k ty p =>
    refine ⟨Nat.lt_of_lt_of_le hp.1 h.uuidSeq, ?_⟩
    rw [h.events]
    exact hp.2
  | insertDelivery ev ep =>
    refine ⟨Nat.lt_of_lt_of_le hp.1 h.uuidSeq, ?_⟩
    rw [h.delivery?]
    exact hp.2
  | insertTransition d f st reason a =>
    refine ⟨Nat.lt_of_lt_of_le hp.1 h.transitionSeq, ?_, hp.2.2.imp_left (hl _)⟩
    rw [h.log]
    exact hp.2.1
  | insertAttempt a =>
    change ∀ r ∈ pg'.db.attempts, _
    rw [h.attempts]
    exact hp
  | _ => trivial

theorem TxOk.same {tx : List Entry} (h : SameTables pg pg')
    (hl : ∀ key, pg.locks key = some u → pg'.locks key = some u) (hok : TxOk pg u tx) :
    TxOk pg' u tx where
  owns e he key hk := hl key (hok.owns e he key hk)
  pending e he := (hok.pending e he).same h hl

theorem Thread.Ok.same (h : SameTables pg pg')
    (hl : ∀ key, pg.locks key = some u → pg'.locks key = some u) (hok : th.Ok pg u) :
    th.Ok pg' u where
  safe := hok.safe
  sess := hok.sess
  knows d hd := by
    rw [h.delivery?]
    exact hok.knows d hd
  seen d st hk hs htx := by
    obtain ⟨h1, h2⟩ := hok.seen d st hk hs htx
    exact ⟨hl _ h1, by rw [h.status?]; exact h2⟩
  tx := hok.tx.same h hl

theorem Thread.Ok.kept (hk : Kept th th') (hok : th.Ok pg t) : th'.Ok pg t := by
  have hf : th'.facts = th.facts := congrArg WebhookEngine.facts hk.trace
  refine ⟨?_, ?_, ?_, ?_, ?_⟩
  · rw [hk.kind, hf, hk.prog]
    exact hok.safe
  · rw [hf, ← hok.sess, Memory.entries, hk.sess]
    rfl
  · rw [hk.kind, hf]
    exact hok.knows
  · rw [hk.kind, hf]
    exact hok.seen
  · rw [Thread.tx, hf]
    exact hok.tx

theorem Thread.Ok.fresh {k : Kind} {l : Label} (hk : k.Starts s l) :
    Thread.Ok s.pg t { kind := k, prog := program env t k } where
  safe := safe_program env t k
  sess := rfl
  knows d hd := by
    cases hd with
    | row hk' hd hr => cases hr
    | seen hk' hs => cases hs
    | claimed h => cases h
    | transition hk' =>
      cases hk' with
      | refl =>
        cases hk with
        | request hl h => exact h
    | record hk' hd =>
      cases hk' with
      | refl =>
        cases hk with
        | request hl h => exact hd ▸ h
  seen d st hk hs := nomatch hs
  tx := .nil

theorem Thread.tx_fresh {k : Kind} :
    Thread.tx { kind := k, prog := program env t k } = [] := rfl

theorem Thread.tx_kept (hk : Kept th th') : th'.tx = th.tx := by
  rw [Thread.tx, Thread.facts, hk.trace]
  rfl

/-- **A step without a call keeps the invariant.** -/
theorem State.Ok.idle {l : Label} (h : Idle env s l s') (hs : s.Ok) : s'.Ok where
  threads u th' hu := by
    cases h.threads u th' hu with
    | kept hlive hk =>
      exact ((hs.threads u _ hlive).same h.tables fun key => h.locksKept u th' key hu).kept hk
    | fresh hlen hk hth =>
      subst hth
      refine .same h.tables (fun key => h.locksKept u _ key hu) (.fresh hk)
  apart t u th th' htu ht hu e he e' he' := by
    cases h.threads t th ht with
    | fresh hlen hk hth =>
      subst hth
      rw [Thread.tx_fresh] at he
      cases he
    | kept hlive hk =>
      rw [Thread.tx_kept hk] at he
      cases h.threads u th' hu with
      | fresh hlen hk' hth =>
        subst hth
        rw [Thread.tx_fresh] at he'
        cases he'
      | kept hlive' hk' =>
        rw [Thread.tx_kept hk'] at he'
        exact hs.apart t u _ _ htu hlive hlive' e he e' he'
  rows d u hl := by
    rw [h.tables.delivery?]
    exact hs.rows d u (h.locksOld u _ hl)
  keys c i u hl := by
    rw [h.tables.eventByKey?]
    exact hs.keys c i u (h.locksOld u _ hl)
  db := h.tables.ok hs.db

end WebhookEngine
