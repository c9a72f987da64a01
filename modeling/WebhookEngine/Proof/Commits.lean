import WebhookEngine.Proof.Sessions

set_option autoImplicit false

/-!
# Commits

* `Committed`: what a COMMIT makes of the tables, one constructor for each transaction of the
  repositories; `Script.committed` says there are no others.
* `Committed.dbOk`: the keys and references of the tables survive it.
* `Committed.frame`, **`Thread.Ok.frame`**: it does not disturb the other executions.
-/

namespace WebhookEngine

open EffectProg

variable {k : Kind} {m : Facts} {t u : Tid} {th : Thread} {pg pg' : Postgres} {db db' : Db}

/-! ## What a COMMIT does -/

/-- **The effect of a COMMIT.** -/
inductive Committed (k : Kind) (m : Facts) (db : Db) : List Entry → Db → Prop where
  | nil : Committed k m db [] db
  | move {d : DeliveryId} {f g : Status} {a : Actor} (h : Moves k m d f g a) (reason : String)
      (g₁ id : ℕ) (τ τ' : Time) :
      Committed k m db [(.updateStatus d g, g₁), (.insertTransition d (some f) g reason a, id)]
        (db.applyAll [⟨.updateStatus d g, g₁, τ⟩,
          ⟨.insertTransition d (some f) g reason a, id, τ'⟩])
  | record {a : AttemptData} {f g : Status} {next : Option Time} (h : Records k m a f g next)
      (reason : String) (g₁ g₂ id : ℕ) (τ₁ τ τ' : Time) :
      Committed k m db [(.insertAttempt a, g₁), (.updateAttempt a.deliveryId g next, g₂),
          (.insertTransition a.deliveryId (some f) g reason .worker, id)]
        (db.applyAll [⟨.insertAttempt a, g₁, τ₁⟩, ⟨.updateAttempt a.deliveryId g next, g₂, τ⟩,
          ⟨.insertTransition a.deliveryId (some f) g reason .worker, id, τ'⟩])
  | ingest (hk : k.ingests) (c i ty p : String) (ep : EndpointId) (ev d id : ℕ) (τ₁ τ τ' : Time) :
      Committed k m db [(.insertEvent c i ty p, ev), (.insertDelivery ev ep, d),
          (.insertTransition d none .pending "created" .api, id)]
        (db.applyAll [⟨.insertEvent c i ty p, ev, τ₁⟩, ⟨.insertDelivery ev ep, d, τ⟩,
          ⟨.insertTransition d none .pending "created" .api, id, τ'⟩])
  | claim {ws : List Write} (hk : k.claims) (h : ∀ w ∈ ws, ∃ d, w.stmt = .updateEnqueued d) :
      Committed k m db (ws.map fun w => (w.stmt, w.gen)) (db.applyAll ws)

theorem writes_cons {ws : List Write} {st : Stmt} {g : ℕ} {tx : List Entry}
    (h : ws.map (fun w => (w.stmt, w.gen)) = (st, g) :: tx) :
    ∃ τ ws', ws = ⟨st, g, τ⟩ :: ws' ∧ ws'.map (fun w => (w.stmt, w.gen)) = tx := by
  obtain ⟨⟨st', g', τ⟩, ws', rfl, he, h'⟩ := List.map_eq_cons_iff.mp h
  cases he
  exact ⟨τ, ws', rfl, h'⟩

theorem Script.committed {tx : List Entry} (h : Script k m tx) {ws : List Write}
    (hw : ws.map (fun w => (w.stmt, w.gen)) = tx) : Committed k m db tx (db.applyAll ws) := by
  cases h with
  | nil =>
    rw [List.map_eq_nil_iff.mp hw]
    exact .nil
  | move h reason g₁ g₂ =>
    obtain ⟨τ, ws₁, rfl, hw₁⟩ := writes_cons hw
    obtain ⟨τ', ws₂, rfl, hw₂⟩ := writes_cons hw₁
    rw [List.map_eq_nil_iff.mp hw₂]
    exact .move h reason g₁ g₂ τ τ'
  | record h reason g₁ g₂ g₃ =>
    obtain ⟨τ₁, ws₁, rfl, hw₁⟩ := writes_cons hw
    obtain ⟨τ, ws₂, rfl, hw₂⟩ := writes_cons hw₁
    obtain ⟨τ', ws₃, rfl, hw₃⟩ := writes_cons hw₂
    rw [List.map_eq_nil_iff.mp hw₃]
    exact .record h reason g₁ g₂ g₃ τ₁ τ τ'
  | ingest hk c i ty p ep ev d g =>
    obtain ⟨τ₁, ws₁, rfl, hw₁⟩ := writes_cons hw
    obtain ⟨τ, ws₂, rfl, hw₂⟩ := writes_cons hw₁
    obtain ⟨τ', ws₃, rfl, hw₃⟩ := writes_cons hw₂
    rw [List.map_eq_nil_iff.mp hw₃]
    exact .ingest hk c i ty p ep ev d g τ₁ τ τ'
  | claim hk h =>
    subst hw
    refine .claim hk fun w hw => ?_
    obtain ⟨d, -, -, heq⟩ := h (w.stmt, w.gen) (List.mem_map_of_mem hw)
    exact ⟨d, heq⟩

/-! ## The tables stay in order -/

theorem Db.Alike.mem (h : Db.Alike db db') {r' : DeliveryRow} (hr : r' ∈ db'.deliveries) :
    ∃ r ∈ db.deliveries, r.id = r'.id ∧ r.eventId = r'.eventId := by
  have : (r'.id, r'.eventId) ∈ db.deliveries.map fun r => (r.id, r.eventId) :=
    h.keys ▸ List.mem_map_of_mem hr
  simpa using this

theorem Db.Alike.symm (h : Db.Alike db db') : Db.Alike db' db :=
  ⟨h.keys.symm, h.events.symm, h.attempts.symm, h.transitions.symm, h.uuidSeq.symm,
    h.transitionSeq.symm⟩

theorem DbOk.alike (hdb : DbOk db) (h : Db.Alike db db') : DbOk db' where
  ids := by
    have : db'.deliveries.map (·.id) = db.deliveries.map (·.id) := by
      simpa [List.map_map, Function.comp_def] using congrArg (List.map Prod.fst) h.keys
    rw [this]
    exact hdb.ids
  idsLt r hr := by
    obtain ⟨r₀, hr₀, hid, -⟩ := h.mem hr
    rw [← hid, h.uuidSeq]
    exact hdb.idsLt r₀ hr₀
  eventIds := by rw [h.events]; exact hdb.eventIds
  eventIdsLt := by rw [h.events, h.uuidSeq]; exact hdb.eventIdsLt
  eventKeys := by rw [h.events]; exact hdb.eventKeys
  eventDelivery := by
    rw [h.events]
    intro r hr
    obtain ⟨d, hd, he⟩ := hdb.eventDelivery r hr
    obtain ⟨d', hd', -, he'⟩ := h.symm.mem hd
    exact ⟨d', hd', he'.trans he⟩
  deliveryEvent := by
    rw [h.events]
    intro d' hd'
    obtain ⟨d, hd, -, he⟩ := h.mem hd'
    rw [← he]
    exact hdb.deliveryEvent d hd
  logRef r hr := by
    rw [h.transitions] at hr
    rw [h.isSome]
    exact hdb.logRef r hr
  logIdsLt := by rw [h.transitions, h.transitionSeq]; exact hdb.logIdsLt
  attemptRef r hr := by
    rw [h.attempts] at hr
    rw [h.isSome]
    exact hdb.attemptRef r hr

theorem DbOk.insertTransition (hdb : DbOk db) {d : DeliveryId} {f : Option Status} {st : Status}
    {reason : String} {a : Actor} {id : ℕ} {τ : Time} (hd : (db.delivery? d).isSome)
    (hid : id < db.transitionSeq) :
    DbOk (db.apply ⟨.insertTransition d f st reason a, id, τ⟩) :=
  { hdb with
    logRef := fun r hr => by
      rcases List.mem_append.mp hr with hr | hr
      · exact hdb.logRef r hr
      · rw [List.mem_singleton.mp hr]
        exact hd
    logIdsLt := fun r hr => by
      rcases List.mem_append.mp hr with hr | hr
      · exact hdb.logIdsLt r hr
      · rw [List.mem_singleton.mp hr]
        exact hid }

theorem DbOk.insertAttempt (hdb : DbOk db) {a : AttemptData} {id : ℕ} {τ : Time}
    (hd : (db.delivery? a.deliveryId).isSome) : DbOk (db.apply ⟨.insertAttempt a, id, τ⟩) :=
  { hdb with
    attemptRef := fun r hr => by
      rcases List.mem_append.mp hr with hr | hr
      · exact hdb.attemptRef r hr
      · rw [List.mem_singleton.mp hr]
        exact hd }

theorem DbOk.insertEventDelivery (hdb : DbOk db) {c i ty p : String} {ep : EndpointId} {ev d : ℕ}
    {τ₁ τ : Time} (hev : ev < db.uuidSeq)
    (hnew : ∀ r ∈ db.events, r.id ≠ ev ∧ ¬ (r.clientId = c ∧ r.idempotencyKey = i))
    (hd : d < db.uuidSeq) (hnone : db.delivery? d = none) :
    DbOk ((db.apply ⟨.insertEvent c i ty p, ev, τ₁⟩).apply ⟨.insertDelivery ev ep, d, τ⟩) where
  ids := Table.nodup_map_append_single _ hdb.ids (Db.delivery?_none_iff.mp hnone)
  idsLt r hr := by
    rcases List.mem_append.mp hr with hr | hr
    · exact hdb.idsLt r hr
    · rw [List.mem_singleton.mp hr]
      exact hd
  eventIds := by
    refine Table.nodup_map_append_single EventRow.id hdb.eventIds ?_
    intro h
    obtain ⟨r, hr, he⟩ := List.mem_map.mp h
    exact (hnew r hr).1 he
  eventIdsLt r hr := by
    rcases List.mem_append.mp hr with hr | hr
    · exact hdb.eventIdsLt r hr
    · rw [List.mem_singleton.mp hr]
      exact hev
  eventKeys := by
    refine Table.nodup_map_append_single (fun r : EventRow => (r.clientId, r.idempotencyKey))
      hdb.eventKeys ?_
    intro h
    obtain ⟨r, hr, he⟩ := List.mem_map.mp h
    exact (hnew r hr).2 (Prod.mk.inj he)
  eventDelivery r hr := by
    rcases List.mem_append.mp hr with hr | hr
    · obtain ⟨d', hd', he⟩ := hdb.eventDelivery r hr
      exact ⟨d', List.mem_append_left _ hd', he⟩
    · rw [List.mem_singleton.mp hr]
      exact ⟨_, List.mem_append_right _ (List.mem_singleton_self _), rfl⟩
  deliveryEvent r hr := by
    rcases List.mem_append.mp hr with hr | hr
    · obtain ⟨e, he, hid⟩ := hdb.deliveryEvent r hr
      exact ⟨e, List.mem_append_left _ he, hid⟩
    · rw [List.mem_singleton.mp hr]
      exact ⟨_, List.mem_append_right _ (List.mem_singleton_self _), rfl⟩
  logRef r hr := by
    simpa using Or.inl (hdb.logRef r hr)
  logIdsLt := hdb.logIdsLt
  attemptRef r hr := by
    simpa using Or.inl (hdb.attemptRef r hr)

theorem Committed.dbOk {tx : List Entry} (hc : Committed k m pg.db tx db') (hdb : DbOk pg.db)
    (hok : TxOk pg t tx) (hknows : ∀ d, Knows k m d → (pg.db.delivery? d).isSome) : DbOk db' := by
  cases hc with
  | nil => exact hdb
  | @move d f g a h reason g₁ id τ τ' =>
    obtain ⟨hid, -, -⟩ := hok.pending (.insertTransition d (some f) g reason a, id) (by simp)
    have hal : Db.Alike pg.db (pg.db.apply ⟨.updateStatus d g, g₁, τ⟩) := Db.alike_updateStatus
    refine (hdb.alike hal).insertTransition ?_ hid
    rw [hal.isSome]
    exact hknows d h.knows
  | @record a f g next h reason g₁ g₂ id τ₁ τ τ' =>
    obtain ⟨hid, -, -⟩ :=
      hok.pending (.insertTransition a.deliveryId (some f) g reason .worker, id) (by simp)
    have hsome := hknows a.deliveryId h.knows
    have h1 : DbOk (pg.db.apply ⟨.insertAttempt a, g₁, τ₁⟩) := hdb.insertAttempt hsome
    have hal : Db.Alike _ ((pg.db.apply ⟨.insertAttempt a, g₁, τ₁⟩).apply
      ⟨.updateAttempt a.deliveryId g next, g₂, τ⟩) := Db.alike_updateAttempt
    refine (h1.alike hal).insertTransition ?_ hid
    rw [hal.isSome]
    exact hsome
  | ingest hk c i ty p ep ev d id τ₁ τ τ' =>
    obtain ⟨hev, hnew⟩ := hok.pending (.insertEvent c i ty p, ev) (by simp)
    obtain ⟨hd, hnone⟩ := hok.pending (.insertDelivery ev ep, d) (by simp)
    obtain ⟨hid, -, -⟩ :=
      hok.pending (.insertTransition d none .pending "created" .api, id) (by simp)
    refine (hdb.insertEventDelivery hev hnew hd hnone).insertTransition ?_ hid
    simp
  | claim hk h => exact hdb.alike (Db.alike_claim h)

/-! ## The other executions are not disturbed -/

/-- What a statement of `t` with the open transaction `mine` may do to the tables and keys. -/
structure Frame (t : Tid) (mine : List Entry) (pg pg' : Postgres) : Prop where
  locks : ∀ key u, u ≠ t → pg.locks key = some u → pg'.locks key = some u
  uuidSeq : pg.db.uuidSeq ≤ pg'.db.uuidSeq
  transitionSeq : pg.db.transitionSeq ≤ pg'.db.transitionSeq
  isSome : ∀ d, (pg.db.delivery? d).isSome → (pg'.db.delivery? d).isSome
  isNone : ∀ d, pg.db.delivery? d = none →
    pg'.db.delivery? d = none ∨ ∃ ev ep, (.insertDelivery ev ep, d) ∈ mine
  same : ∀ d, (pg'.db.status? d = pg.db.status? d ∧ pg'.db.log d = pg.db.log d) ∨
    pg.locks (.row d) = some t ∨ ∃ ev ep, (.insertDelivery ev ep, d) ∈ mine
  attempts : ∀ r ∈ pg'.db.attempts,
    r ∈ pg.db.attempts ∨ pg.locks (.attempt r.deliveryId r.attemptNumber) = some t
  events : ∀ r ∈ pg'.db.events, r ∈ pg.db.events ∨
    (pg.locks (.event r.clientId r.idempotencyKey) = some t ∧
      ∃ c i ty p, (.insertEvent c i ty p, r.id) ∈ mine)

theorem Frame.same_of_other {mine tx : List Entry} (hf : Frame t mine pg pg') (hu : u ≠ t)
    (hmine : TxOk pg t mine) (hrows : ∀ d u, pg.locks (.row d) = some u → (pg.db.delivery? d).isSome)
    (htx : TxOk pg u tx)
    (hapart : ∀ e ∈ mine, ∀ e' ∈ tx, e.draws → e'.draws → e.2 ≠ e'.2) {d : DeliveryId}
    (hd : pg.locks (.row d) = some u ∨ ∃ ev ep, (.insertDelivery ev ep, d) ∈ tx) :
    pg'.db.status? d = pg.db.status? d ∧ pg'.db.log d = pg.db.log d := by
  rcases hf.same d with h | h | ⟨ev, ep, h⟩
  · exact h
  · have hsome := hrows d t h
    rcases hd with hd | ⟨ev, ep, hd⟩
    · rw [h] at hd
      exact absurd (Option.some.inj hd).symm hu
    · have hnone : pg.db.delivery? d = none := (htx.pending _ hd).2
      rw [hnone] at hsome
      cases hsome
  · have hnone : pg.db.delivery? d = none := (hmine.pending _ h).2
    rcases hd with hd | ⟨ev', ep', hd⟩
    · have hsome := hrows d u hd
      rw [hnone] at hsome
      cases hsome
    · exact (hapart _ h _ hd trivial trivial rfl).elim

theorem TxOk.frame {mine tx : List Entry} (hf : Frame t mine pg pg') (hu : u ≠ t)
    (hmine : TxOk pg t mine) (hrows : ∀ d u, pg.locks (.row d) = some u → (pg.db.delivery? d).isSome)
    (hapart : ∀ e ∈ mine, ∀ e' ∈ tx, e.draws → e'.draws → e.2 ≠ e'.2) (htx : TxOk pg u tx) :
    TxOk pg' u tx where
  owns e he key hk := hf.locks key u hu (htx.owns e he key hk)
  pending e he := by
    have hp := htx.pending e he
    obtain ⟨st, g⟩ := e
    cases st with
    | insertEvent c k ty p =>
      refine ⟨Nat.lt_of_lt_of_le hp.1 hf.uuidSeq, fun r hr => ?_⟩
      rcases hf.events r hr with hr | ⟨hl, c', i', ty', p', hr⟩
      · exact hp.2 r hr
      · refine ⟨hapart _ hr _ he trivial trivial, ?_⟩
        rintro ⟨rfl, rfl⟩
        have := htx.owns _ he _ rfl
        rw [hl] at this
        exact hu (Option.some.inj this).symm
    | insertDelivery ev ep =>
      refine ⟨Nat.lt_of_lt_of_le hp.1 hf.uuidSeq, ?_⟩
      rcases hf.isNone g hp.2 with h | ⟨ev', ep', h⟩
      · exact h
      · exact (hapart _ h _ he trivial trivial rfl).elim
    | insertTransition d f st reason a =>
      refine ⟨Nat.lt_of_lt_of_le hp.1 hf.transitionSeq, ?_, hp.2.2.imp_left (hf.locks _ u hu)⟩
      rw [(hf.same_of_other hu hmine hrows htx hapart hp.2.2).2]
      exact hp.2.1
    | insertAttempt a =>
      intro r hr
      rcases hf.attempts r hr with hr | hl
      · exact hp r hr
      · rintro ⟨h1, h2⟩
        have := htx.owns _ he (.attempt a.deliveryId a.attemptNumber) rfl
        rw [← h1, ← h2, hl] at this
        exact hu (Option.some.inj this).symm
    | _ => trivial

/-- **What the other executions keep.** -/
theorem Thread.Ok.frame {mine : List Entry} (hf : Frame t mine pg pg') (hu : u ≠ t)
    (hmine : TxOk pg t mine) (hrows : ∀ d u, pg.locks (.row d) = some u → (pg.db.delivery? d).isSome)
    (hapart : ∀ e ∈ mine, ∀ e' ∈ th.tx, e.draws → e'.draws → e.2 ≠ e'.2) (hok : th.Ok pg u) :
    th.Ok pg' u where
  safe := hok.safe
  sess := hok.sess
  knows d hd := hf.isSome d (hok.knows d hd)
  seen d st hk hs htx := by
    obtain ⟨h1, h2⟩ := hok.seen d st hk hs htx
    refine ⟨hf.locks _ u hu h1, ?_⟩
    rw [(hf.same_of_other hu hmine hrows hok.tx hapart (Or.inl h1)).1]
    exact h2
  tx := TxOk.frame hf hu hmine hrows hapart hok.tx

theorem Postgres.giveBack_other {key : LockKey} (hu : u ≠ t) (h : pg.locks key = some u) :
    (pg.giveBack t).locks key = some u := by
  change (if pg.locks key = some t then none else pg.locks key) = some u
  rw [h, if_neg (by simpa using hu)]

theorem Postgres.giveBack_old {key : LockKey} (h : (pg.giveBack t).locks key = some u) :
    pg.locks key = some u := by
  change (if pg.locks key = some t then none else pg.locks key) = some u at h
  split at h
  · cases h
  · exact h

theorem Db.status?_of_dossier? {d : DeliveryId} (h : db'.dossier? d = db.dossier? d) :
    db'.status? d = db.status? d := by
  have := congrArg (Option.map fun D : Dossier => D.row.status) h
  simpa [Db.dossier?, Db.status?, Function.comp_def] using this

theorem Db.status?_eq {d : DeliveryId} {D : Dossier} (h : db.dossier? d = some D) :
    db.status? d = some D.row.status := by
  rw [Db.status?, (Db.dossier?_eq_some.mp h).1]
  rfl

/-- **A COMMIT disturbs no other execution.** -/
theorem Committed.frame {tx : List Entry} (hc : Committed k m pg.db tx db') (hok : TxOk pg t tx) :
    Frame t tx pg (({ pg with db := db' }).giveBack t) := by
  have hlocks : ∀ key u, u ≠ t → pg.locks key = some u →
      (({ pg with db := db' } : Postgres).giveBack t).locks key = some u :=
    fun key u hu h => Postgres.giveBack_other hu h
  cases hc with
  | nil =>
    exact ⟨hlocks, Nat.le_refl _, Nat.le_refl _, fun _ h => h, fun _ h => Or.inl h,
      fun _ => Or.inl ⟨rfl, rfl⟩, fun _ h => Or.inl h, fun _ h => Or.inl h⟩
  | @move d f g a h reason g₁ id τ τ' =>
    have hlock : pg.locks (.row d) = some t := hok.owns _ List.mem_cons_self _ rfl
    refine ⟨hlocks, Nat.le_refl _, Nat.le_refl _, fun x => (Db.applyAll_grows _).2.2, fun x hx => ?_,
      fun x => ?_, fun _ h => Or.inl h, fun _ h => Or.inl h⟩
    · refine Or.inl ?_
      change Db.delivery? (Db.applyAll _ _) x = none
      simp [hx]
    · by_cases hx : x = d
      · rw [hx]
        exact Or.inr (Or.inl hlock)
      · refine Or.inl ⟨Db.status?_of_dossier? ?_, ?_⟩
        · exact Db.dossier?_move.trans (if_neg hx)
        · change Db.log (Db.applyAll _ _) x = _
          simp [hx]
  | @record a f g next h reason g₁ g₂ id τ₁ τ τ' =>
    have hlock : pg.locks (.row a.deliveryId) = some t :=
      hok.owns (.updateAttempt a.deliveryId g next, g₂) (by simp) _ rfl
    have hlock' : pg.locks (.attempt a.deliveryId a.attemptNumber) = some t :=
      hok.owns _ List.mem_cons_self _ rfl
    refine ⟨hlocks, Nat.le_refl _, Nat.le_refl _, fun x => (Db.applyAll_grows _).2.2, fun x hx => ?_,
      fun x => ?_, fun r hr => ?_, fun _ h => Or.inl h⟩
    · refine Or.inl ?_
      change Db.delivery? (Db.applyAll _ _) x = none
      simp [hx]
    · by_cases hx : x = a.deliveryId
      · rw [hx]
        exact Or.inr (Or.inl hlock)
      · refine Or.inl ⟨Db.status?_of_dossier? ?_, ?_⟩
        · exact Db.dossier?_record.trans (if_neg hx)
        · change Db.log (Db.applyAll _ _) x = _
          simp [hx]
    · rcases List.mem_append.mp hr with hr | hr
      · exact Or.inl hr
      · rw [List.mem_singleton.mp hr]
        exact Or.inr hlock'
  | ingest hk c i ty p ep ev d id τ₁ τ τ' =>
    have hlock : pg.locks (.event c i) = some t := hok.owns _ List.mem_cons_self _ rfl
    have hmem : (Stmt.insertDelivery ev ep, d) ∈ [(Stmt.insertEvent c i ty p, ev),
      (Stmt.insertDelivery ev ep, d), (Stmt.insertTransition d none .pending "created" .api, id)] := by
      simp
    refine ⟨hlocks, Nat.le_refl _, Nat.le_refl _, fun x => (Db.applyAll_grows _).2.2, fun x hx => ?_,
      fun x => ?_, fun _ h => Or.inl h, fun r hr => ?_⟩
    · by_cases hxd : x = d
      · rw [hxd]
        exact Or.inr ⟨ev, ep, hmem⟩
      · refine Or.inl ?_
        change Db.delivery? (Db.applyAll _ _) x = none
        simp [hx, Ne.symm hxd]
    · by_cases hxd : x = d
      · rw [hxd]
        exact Or.inr (Or.inr ⟨ev, ep, hmem⟩)
      · refine Or.inl ⟨?_, ?_⟩
        · change Db.status? (Db.applyAll _ _) x = _
          simp [Db.status?, Ne.symm hxd]
        · change Db.log (Db.applyAll _ _) x = _
          simp [hxd]
    · rcases List.mem_append.mp hr with hr | hr
      · exact Or.inl hr
      · rw [List.mem_singleton.mp hr]
        exact Or.inr ⟨hlock, c, i, ty, p, List.mem_cons_self⟩
  | @claim ws hk h =>
    have hal : Db.Alike pg.db (pg.db.applyAll ws) := Db.alike_claim h
    refine ⟨hlocks, Nat.le_of_eq hal.uuidSeq.symm, Nat.le_of_eq hal.transitionSeq.symm, fun x hx => ?_,
      fun x hx => ?_, fun x => ?_, fun r hr => ?_, fun r hr => ?_⟩
    · exact hal.isSome.trans hx
    · refine Or.inl (Option.not_isSome_iff_eq_none.mp ?_)
      change ¬ (Db.delivery? (Db.applyAll _ _) x).isSome = true
      rw [hal.isSome, hx]
      simp
    · refine Or.inl ⟨?_, ?_⟩
      · change Db.status? (Db.applyAll _ _) x = _
        rcases Db.dossier?_claim h with h' | ⟨τ, h'⟩
        · exact Db.status?_of_dossier? h'
        · have := congrArg (Option.map fun D : Dossier => D.row.status) h'
          simpa [Db.dossier?, Db.status?, Function.comp_def, Dossier.touched] using this
      · change Db.log (Db.applyAll _ _) x = _
        rw [Db.log, hal.transitions, Db.log]
    · exact Or.inl (hal.attempts ▸ hr)
    · exact Or.inl (hal.events ▸ hr)

end WebhookEngine
