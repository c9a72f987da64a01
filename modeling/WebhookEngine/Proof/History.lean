import WebhookEngine.Proof.Calls

set_option autoImplicit false

/-!
# The history of a delivery

* `Change`: what a COMMIT makes of the dossier of one delivery.
* **`story`**: what a step makes of it: nothing, the bookkeeping of an `add`, or the `Change` of a
  COMMIT with everything that is known about the execution that commits.
* **`Informed.step`**: the rule for what an execution knows from the row it read: it is true when the
  row is read, and what happens to the dossier later has to keep it.
-/

namespace WebhookEngine

open EffectProg TransitionSystem

variable {env : Env} {s s' : State} {t u : Tid} {th th' : Thread} {l : Label}

/-- **The effect of a COMMIT on the dossier of `d`.** -/
inductive Change (k : Kind) (m : Facts) (d : DeliveryId) : Option Dossier → Option Dossier → Prop where
  | created (hk : k.ingests) (ev ep id : ℕ) (τ τ' : Time) :
      Change k m d none (some (.created d ev ep id τ τ'))
  | moved {D : Dossier} {f g : Status} {a : Actor} (h : Moves k m d f g a) {id : ℕ}
      (hid : ∀ r ∈ D.log, r.id < id) {gen : ℕ} (hm : (.updateStatus d g, gen) ∈ m.tx.getD [])
      (reason : String) (τ τ' : Time) :
      Change k m d (some D) (some (D.moved id f g reason a τ τ'))
  | recorded {D : Dossier} {a : AttemptData} {f g : Status} {next : Option Time}
      (h : Records k m a f g next) (ha : a.deliveryId = d)
      (hnew : ∀ r ∈ D.attempts, r.attemptNumber ≠ a.attemptNumber) {id : ℕ}
      (hid : ∀ r ∈ D.log, r.id < id) {gen : ℕ} (hm : (.insertAttempt a, gen) ∈ m.tx.getD [])
      (reason : String) (τ τ' : Time) :
      Change k m d (some D) (some (D.recorded ⟨a, gen⟩ id f g next reason τ τ'))

theorem Facts.txHas_of_mem {m : Facts} {p : Stmt → Bool} {e : Entry} (he : e ∈ m.tx.getD [])
    (hp : p e.1 = true) : m.txHas p = true := by
  rw [Facts.txHas, List.any_eq_true]
  exact ⟨e, he, hp⟩

theorem Db.log_empty {db : Db} (hdb : DbOk db) {d : DeliveryId} (h : db.delivery? d = none) :
    db.log d = [] := by
  refine List.eq_nil_iff_forall_not_mem.mpr fun r hr => ?_
  obtain ⟨hr, hd⟩ := Db.mem_log.mp hr
  have := hdb.logRef r hr
  rw [hd, h] at this
  cases this

theorem Db.attemptsOf_empty {db : Db} (hdb : DbOk db) {d : DeliveryId}
    (h : db.delivery? d = none) : db.attemptsOf d = [] := by
  refine List.eq_nil_iff_forall_not_mem.mpr fun r hr => ?_
  obtain ⟨hr, hd⟩ := Db.mem_attemptsOf.mp hr
  have := hdb.attemptRef r hr
  rw [hd, h] at this
  cases this

theorem Db.dossier?_none {db : Db} {d : DeliveryId} :
    db.dossier? d = none ↔ db.delivery? d = none := Option.map_eq_none_iff

theorem Db.log_eq {db : Db} (hdb : DbOk db) (d : DeliveryId) :
    db.log d = (db.dossier? d).elim [] Dossier.log := by
  cases hD : db.dossier? d with
  | none => exact Db.log_empty hdb (Db.dossier?_none.mp hD)
  | some D => exact (Db.dossier?_eq_some.mp hD).2.1.symm

theorem Db.attemptsOf_eq {db : Db} (hdb : DbOk db) (d : DeliveryId) :
    db.attemptsOf d = (db.dossier? d).elim [] Dossier.attempts := by
  cases hD : db.dossier? d with
  | none => exact Db.attemptsOf_empty hdb (Db.dossier?_none.mp hD)
  | some D => exact (Db.dossier?_eq_some.mp hD).2.2.symm

theorem Committed.story {pg : Postgres} {db' : Db}
    (hc : Committed th.kind th.facts pg.db th.tx db') (hdb : DbOk pg.db) (hok : th.Ok pg t)
    (d : DeliveryId) :
    db'.dossier? d = pg.db.dossier? d ∨
      (∃ D τ, pg.db.dossier? d = some D ∧ db'.dossier? d = some (D.touched τ)) ∨
        Change th.kind th.facts d (pg.db.dossier? d) (db'.dossier? d) := by
  have htx := hok.tx
  generalize hmine : th.tx = tx at hc htx
  cases hc with
  | nil => exact Or.inl rfl
  | @move x f g a h reason g₁ id τ τ' =>
    rw [Db.dossier?_move]
    by_cases hx : d = x
    · subst hx
      rw [if_pos rfl]
      obtain ⟨row, hrow⟩ := Option.isSome_iff_exists.mp (hok.knows d h.knows)
      have hD : pg.db.dossier? d = some ⟨row, pg.db.log d, pg.db.attemptsOf d⟩ := by
        simp [Db.dossier?, hrow]
      obtain ⟨-, hid, -⟩ := htx.pending (.insertTransition d (some f) g reason a, id) (by simp)
      have hmem : (Stmt.updateStatus d g, g₁) ∈ th.facts.tx.getD [] := by
        rw [← Thread.tx, hmine]
        exact List.mem_cons_self
      rw [hD]
      exact Or.inr (Or.inr (.moved h hid hmem reason τ τ'))
    · rw [if_neg hx]
      exact Or.inl rfl
  | @record a f g next h reason g₁ g₂ id τ₁ τ τ' =>
    rw [Db.dossier?_record]
    by_cases hx : d = a.deliveryId
    · subst hx
      rw [if_pos rfl]
      obtain ⟨row, hrow⟩ := Option.isSome_iff_exists.mp (hok.knows _ h.knows)
      have hD : pg.db.dossier? a.deliveryId =
          some ⟨row, pg.db.log a.deliveryId, pg.db.attemptsOf a.deliveryId⟩ := by
        simp [Db.dossier?, hrow]
      obtain ⟨-, hid, -⟩ :=
        htx.pending (.insertTransition a.deliveryId (some f) g reason .worker, id) (by simp)
      have hnew := htx.pending (.insertAttempt a, g₁) List.mem_cons_self
      rw [hD]
      have hmem : (Stmt.insertAttempt a, g₁) ∈ th.facts.tx.getD [] := by
        rw [← Thread.tx, hmine]
        exact List.mem_cons_self
      refine Or.inr (Or.inr (.recorded h rfl (fun r hr hn => ?_) hid hmem reason τ τ'))
      obtain ⟨hr, hd⟩ := Db.mem_attemptsOf.mp hr
      exact hnew r hr ⟨hd, hn⟩
    · rw [if_neg hx]
      exact Or.inl rfl
  | ingest hk c i ty p ep ev x id τ₁ τ τ' =>
    obtain ⟨-, hnone⟩ := htx.pending (.insertDelivery ev ep, x) (by simp)
    rw [Db.dossier?_ingest hnone (Db.log_empty hdb hnone) (Db.attemptsOf_empty hdb hnone)]
    by_cases hx : d = x
    · subst hx
      rw [if_pos rfl, Db.dossier?_none.mpr hnone]
      exact Or.inr (Or.inr (.created hk ev ep id τ τ'))
    · rw [if_neg hx]
      exact Or.inl rfl
  | claim hk h =>
    rcases @Db.dossier?_claim _ d _ h with h | ⟨τ, h⟩
    · exact Or.inl h
    · cases hD : pg.db.dossier? d with
      | none => exact Or.inl (by rw [h, hD]; rfl)
      | some D => exact Or.inr (Or.inl ⟨D, τ, rfl, by rw [h, hD]; rfl⟩)

/-- A COMMIT applies the writes of its transaction unless it fails before it takes effect. -/
theorem Advance.commits {c : Choice} {r : Except Err Unit} {k : Except Err Unit → Code Reply}
    {w : World} {m : Memory} (h : Advance s s' t c th (.sql .commit) r k w m) (hs : s.Ok)
    {tx : List Entry} (htx : th.facts.tx = some tx) :
    r = c.fault.answer () ∧ ∃ ws : List Write, ws.map (fun w => (w.stmt, w.gen)) = tx ∧
      s'.pg.db = if c.fault = .before then s.pg.db else s.pg.db.applyAll ws := by
  obtain ⟨σ, hσ, hw⟩ := (hs.threads t th h.live).sess_some htx
  obtain ⟨pg', sess', hex, hw', -⟩ := perform_sql h.done
  have hpg : s'.pg = pg' := by rw [h.world, hw']
  cases hex
  refine ⟨rfl, σ.writes, hw, ?_⟩
  rw [hpg, hσ]
  rfl

theorem Advance.committed {c : Choice} {x : Unit} {k : Except Err Unit → Code Reply} {w : World}
    {m : Memory} (h : Advance s s' t c th (.sql .commit) (.ok x) k w m) (hs : s.Ok) :
    Committed th.kind th.facts s.pg.db th.tx s'.pg.db := by
  obtain ⟨tx, htx, hscript, -⟩ := (hs.threads t th h.live).permits h.prog
  have hmine : th.tx = tx := by rw [Thread.tx, htx]; rfl
  obtain ⟨hans, ws, hws, hdb⟩ := h.commits hs htx
  have hfault : c.fault = .none := (Fault.answer_ok hans.symm).1
  rw [hdb, hmine, if_neg (by simp [hfault])]
  exact hscript.committed hws

/-- **What a step makes of a dossier.** -/
theorem story (hs : s.Ok) (h : step env s l = some s') (d : DeliveryId) :
    s'.pg.db.dossier? d = s.pg.db.dossier? d ∨
      (∃ D τ, s.pg.db.dossier? d = some D ∧ s'.pg.db.dossier? d = some (D.touched τ)) ∨
        ∃ t c th r k w m, l = .op t c ∧ Advance s s' t c th (.sql .commit) r k w m ∧
          Change th.kind th.facts d (s.pg.db.dossier? d) (s'.pg.db.dossier? d) := by
  rcases step_cases h with ⟨t, c, hl, h⟩ | h
  · obtain ⟨th, e, r, k, w, m, h⟩ := stepOp_cases h
    have hok := hs.threads t th h.live
    by_cases he : ∃ q, e = .sql q
    · obtain ⟨q, rfl⟩ := he
      obtain ⟨pg', sess', hex, rfl, rfl⟩ := perform_sql h.done
      have hpg' : s'.pg = pg' := by rw [h.world]
      have hpg := (hok.sql hs.db h.prog hex).server
      rw [hpg']
      cases hpg with
      | tables hsame _ _ => exact Or.inl (hsame.dossier? d)
      | commit hq hc =>
        subst hq
        rcases hc.story hs.db hok d with hd | hd | hd
        · exact Or.inl hd
        · exact Or.inr (Or.inl hd)
        · exact Or.inr (Or.inr ⟨t, c, th, r, k, _, _, hl, h, hd⟩)
      | @touch x hq htx =>
        change Db.dossier? (Db.apply _ _) d = _ ∨ _
        rw [Db.dossier?_touch]
        by_cases hx : d = x
        · subst hx
          cases hD : s.pg.db.dossier? d with
          | none => exact Or.inl (by rw [if_pos rfl]; rfl)
          | some D => exact Or.inr (Or.inl ⟨D, s.now, rfl, by rw [if_pos rfl]; rfl⟩)
        · exact Or.inl (by rw [if_neg hx])
    · obtain ⟨hpg, -⟩ := perform_other (fun q hq => he ⟨q, hq⟩) h.done
      rw [h.world, hpg]
      exact Or.inl rfl
  · exact Or.inl (h.tables.dossier? d)

theorem Script.updates {k : Kind} {m : Facts} {tx : List Entry} (h : Script k m tx)
    {a : AttemptData} {g : ℕ} (ha : (.insertAttempt a, g) ∈ tx) :
    ∃ e ∈ tx, e.1.key = some (.row a.deliveryId) := by
  cases h with
  | nil => cases ha
  | move h reason g₁ g₂ => simp at ha
  | @record a' f st next h reason g₁ g₂ g₃ =>
    obtain ⟨rfl, -⟩ : a = a' ∧ g = g₁ := by simpa using ha
    exact ⟨(.updateAttempt a.deliveryId st next, g₂), by simp, rfl⟩
  | ingest hk c i ty p ep ev d g' => simp at ha
  | claim hk h =>
    obtain ⟨d, -, -, heq⟩ := h _ ha
    cases heq

/-- Whoever commits a change of a delivery holds its row. -/
theorem Change.row_locked {c : Choice} {r : Except Err Unit} {k : Except Err Unit → Code Reply}
    {w : World} {m : Memory} {d : DeliveryId} {D : Dossier} {o : Option Dossier} (hs : s.Ok)
    (hadv : Advance s s' t c th (.sql .commit) r k w m)
    (hc : Change th.kind th.facts d (some D) o) : s.pg.locks (.row d) = some t := by
  have hok := hs.threads t th hadv.live
  cases hc with
  | moved h hid hm reason τ τ' => exact hok.tx.owns _ hm _ rfl
  | recorded h ha hnew hid hm reason τ τ' =>
    obtain ⟨tx, htx, hscript, -⟩ := hok.permits hadv.prog
    rw [htx] at hm
    obtain ⟨e, he, hkey⟩ := hscript.updates hm
    have hmine : e ∈ th.tx := by
      rw [Thread.tx, htx]
      exact he
    exact ha ▸ hok.tx.owns e hmine _ hkey

/-- The status of a delivery stays while an execution that makes no call holds its row. -/
theorem story_locked (hs : s.Ok) (h : step env s l = some s') {d : DeliveryId}
    (hlock : s.pg.locks (.row d) = some u) (hl : ∀ c, l ≠ .op u c) :
    s'.pg.db.status? d = s.pg.db.status? d := by
  obtain ⟨row, hrow⟩ := Option.isSome_iff_exists.mp (hs.rows d u hlock)
  have hD : s.pg.db.dossier? d = some ⟨row, s.pg.db.log d, s.pg.db.attemptsOf d⟩ := by
    simp [Db.dossier?, hrow]
  rcases story hs h d with h | ⟨D, τ, hD, h⟩ | ⟨t, c, th, r, k, w, m, rfl, hadv, hc⟩
  · exact Db.status?_of_dossier? h
  · rw [Db.status?_eq h, Db.status?_eq hD]
    rfl
  · rw [hD] at hc
    have htu : some t = some u := (hc.row_locked hs hadv).symm.trans hlock
    cases htu
    exact absurd rfl (hl c)

theorem Advance.status? {c : Choice} {e : Eff} {r : e.Resp} {k : e.Resp → Code Reply} {w : World}
    {m : Memory} (hadv : Advance s s' t c th e r k w m) (hs : s.Ok)
    (h : step env s (.op t c) = some s') (he : e ≠ .sql .commit) (d : DeliveryId) :
    s'.pg.db.status? d = s.pg.db.status? d := by
  rcases story hs h d with h | ⟨D, τ, hD, h⟩ | ⟨t', c', th', r', k', w', m', hl, hadv', -⟩
  · exact Db.status?_of_dossier? h
  · rw [Db.status?_eq h, Db.status?_eq hD]
    rfl
  · cases hl
    have hth : th' = th := Option.some.inj (hadv'.live.symm.trans hadv.live)
    subst hth
    have hprog := hadv'.prog.symm.trans hadv.prog
    cases hprog
    exact absurd rfl he

theorem Advance.log {c : Choice} {e : Eff} {r : e.Resp} {k : e.Resp → Code Reply} {w : World}
    {m : Memory} (hadv : Advance s s' t c th e r k w m) (hs : s.Ok)
    (h : step env s (.op t c) = some s') (he : e ≠ .sql .commit) (d : DeliveryId) :
    s'.pg.db.log d = s.pg.db.log d := by
  rw [Db.log_eq (hs.step h).db, Db.log_eq hs.db]
  rcases story hs h d with h | ⟨D, τ, hD, h⟩ | ⟨t', c', th', r', k', w', m', hl, hadv', -⟩
  · rw [h]
  · rw [h, hD]
    rfl
  · cases hl
    have hth : th' = th := Option.some.inj (hadv'.live.symm.trans hadv.live)
    subst hth
    cases hadv'.prog.symm.trans hadv.prog
    exact absurd rfl he

theorem DbOk.dossier?_of_mem {db : Db} (hdb : DbOk db) {row : DeliveryRow}
    (h : row ∈ db.deliveries) :
    db.dossier? row.id = some ⟨row, db.log row.id, db.attemptsOf row.id⟩ := by
  have : db.delivery? row.id = some row := Table.find?_eq_of_mem DeliveryRow.id hdb.ids h
  rw [Db.dossier?, this]
  rfl

theorem story_isSome (hs : s.Ok) (h : step env s l = some s') {d : DeliveryId} {D : Dossier}
    (hD : s.pg.db.dossier? d = some D) : ∃ D', s'.pg.db.dossier? d = some D' := by
  rcases story hs h d with h | ⟨_, τ, -, h⟩ | ⟨t, c, th, r, k, w, m, -, -, hc⟩
  · exact ⟨D, h.trans hD⟩
  · exact ⟨_, h⟩
  · cases hc' : s'.pg.db.dossier? d with
    | some D' => exact ⟨D', rfl⟩
    | none =>
      rw [hc'] at hc
      generalize s.pg.db.dossier? d = o at hc
      cases hc

theorem story_log (hs : s.Ok) (h : step env s l = some s') (d : DeliveryId) :
    s.pg.db.log d <+: s'.pg.db.log d := by
  cases hD : s.pg.db.dossier? d with
  | none =>
    rw [Db.log_empty hs.db (Db.dossier?_none.mp hD)]
    exact List.nil_prefix
  | some D =>
    obtain ⟨D', hD'⟩ := story_isSome hs h hD
    rw [← (Db.dossier?_eq_some.mp hD).2.1, ← (Db.dossier?_eq_some.mp hD').2.1]
    rcases story hs h d with h | ⟨D₀, τ, h₀, h⟩ | ⟨t, c, th, r, k, w, m, -, -, hc⟩
    · rw [hD, hD'] at h
      cases h
      exact List.prefix_rfl
    · rw [hD] at h₀
      rw [hD'] at h
      cases h₀
      cases h
      exact List.prefix_rfl
    · rw [hD, hD'] at hc
      cases hc with
      | moved => exact List.prefix_append _ _
      | recorded => exact List.prefix_append _ _

/-- What an execution of kind `k` with the facts `m` may write into the log of a delivery. -/
inductive Logs (k : Kind) (m : Facts) (d : DeliveryId) : TransitionRow → Prop where
  | created (hk : k.ingests) (id : ℕ) (τ : Time) :
      Logs k m d ⟨id, d, none, .pending, "created", .api, τ⟩
  | moved {f g : Status} {a : Actor} (h : Moves k m d f g a) (id x : ℕ) (reason : String)
      (τ : Time) : Logs k m d ⟨id, x, some f, g, reason, a, τ⟩
  | recorded {a : AttemptData} {f g : Status} {next : Option Time} (h : Records k m a f g next)
      (ha : a.deliveryId = d) (id x : ℕ) (reason : String) (τ : Time) :
      Logs k m d ⟨id, x, some f, g, reason, .worker, τ⟩

/-- **Every row of the log came with a COMMIT that may write it.** -/
theorem story_entry (hs : s.Ok) (h : step env s l = some s') {d : DeliveryId} {tr : TransitionRow}
    (hnew : tr ∈ s'.pg.db.log d) (hold : tr ∉ s.pg.db.log d) :
    ∃ t c th r k w m, l = .op t c ∧ Advance s s' t c th (.sql .commit) r k w m ∧
      Logs th.kind th.facts d tr := by
  cases hD' : s'.pg.db.dossier? d with
  | none =>
    rw [Db.log_empty (hs.step h).db (Db.dossier?_none.mp hD')] at hnew
    cases hnew
  | some D' =>
    have hlog' : D'.log = s'.pg.db.log d := (Db.dossier?_eq_some.mp hD').2.1
    rw [← hlog'] at hnew
    have hnot : ∀ D, s.pg.db.dossier? d = some D → tr ∉ D.log := fun D hD => by
      rw [(Db.dossier?_eq_some.mp hD).2.1]
      exact hold
    rcases story hs h d with hsame | ⟨D, τ, hD, h'⟩ | ⟨t, c, th, r, k, w, m, hl, hadv, hc⟩
    · exact absurd hnew (hnot D' (hsame.symm.trans hD'))
    · rw [hD'] at h'
      cases h'
      exact absurd hnew (hnot D hD)
    · refine ⟨t, c, th, r, k, w, m, hl, hadv, ?_⟩
      rw [hD'] at hc
      cases hD : s.pg.db.dossier? d with
      | none =>
        rw [hD] at hc
        cases hc with
        | created hk ev ep id τ τ' =>
          rw [List.mem_singleton.mp hnew]
          exact .created hk id τ'
      | some D =>
        rw [hD] at hc
        cases hc with
        | moved hmv hid hm reason τ τ' =>
          rcases List.mem_append.mp hnew with hmem | hmem
          · exact absurd hmem (hnot D hD)
          · rw [List.mem_singleton.mp hmem]
            exact .moved hmv _ _ reason τ'
        | recorded hrec ha hfresh hid hm reason τ τ' =>
          rcases List.mem_append.mp hnew with hmem | hmem
          · exact absurd hmem (hnot D hD)
          · rw [List.mem_singleton.mp hmem]
            exact .recorded hrec ha _ _ reason τ'

/-- Execution `t` is about to COMMIT. -/
structure Committing (s : State) (t : Tid) (th : Thread) : Prop where
  live : s.live? t = some th
  prog : ∃ k, th.prog = .op (.sql .commit) k

theorem Advance.committing {c : Choice} {r : Except Err Unit} {k : Except Err Unit → Code Reply}
    {w : World} {m : Memory} (h : Advance s s' t c th (.sql .commit) r k w m) : Committing s t th :=
  ⟨h.live, k, h.prog⟩

theorem Committing.open_ (h : Committing s t th) (hs : s.Ok) : th.facts.tx.isSome := by
  obtain ⟨k, hp⟩ := h.prog
  obtain ⟨tx, htx, -⟩ := (hs.threads t th h.live).permits hp
  rw [htx]
  rfl

/-- **The rule for dossiers.** A property that new dossiers have and that the commits keep is true
of all dossiers of all reachable states. -/
theorem reachable_dossier {C : State → Label → Prop} {P : Dossier → Prop}
    (hcreated : ∀ d ev ep id τ τ', P (.created d ev ep id τ τ'))
    (htouched : ∀ D τ, P D → P (D.touched τ))
    (hchange : ∀ {s : State} {t : Tid} {th : Thread} {d : DeliveryId} {D D' : Dossier},
      Reachable env C s → Committing s t th → s.pg.db.dossier? d = some D → P D →
        Change th.kind th.facts d (some D) (some D') → P D')
    (h : Reachable env C s) {d : DeliveryId} {D : Dossier} (hD : s.pg.db.dossier? d = some D) :
    P D := by
  have hinv : Reachable env C s ∧ ∀ d D, s.pg.db.dossier? d = some D → P D := by
    obtain ⟨ls, h⟩ := h
    refine h.invariant
      (I := fun s => Reachable env C s ∧ ∀ d D, s.pg.db.dossier? d = some D → P D) ?_
      ⟨.refl _, nofun⟩
    rintro s l s' ⟨hr, hI⟩ hCl hstep
    refine ⟨hr.snoc hCl hstep, fun d D' hD' => ?_⟩
    rcases story (reachable_ok hr) hstep d with h | ⟨D, τ, hD, h⟩ | ⟨t, c, th, r, k, w, m, -, ha, hc⟩
    · exact hI d D' (h.symm.trans hD')
    · rw [hD'] at h
      cases h
      exact htouched D τ (hI d D hD)
    · rw [hD'] at hc
      cases hD : s.pg.db.dossier? d with
      | none =>
        rw [hD] at hc
        cases hc
        exact hcreated ..
      | some D =>
        rw [hD] at hc
        exact hchange hr ha.committing hD (hI d D hD) hc
  exact hinv.2 d D hD

/-! ## What the executions know -/

theorem Facts.nextSql_row {m : Facts} {q : Sql} (r : Except Err q.Ret) :
    (m.nextSql q r).row = m.row ∨
      ∃ d row, q = .selectForDelivery d ∧ HEq r (Except.ok row : Except Err (Option DeliveryForWorker)) ∧
        (m.nextSql q r).row = row := by
  cases q with
  | selectForDelivery d =>
    cases r with
    | error x => exact Or.inl rfl
    | ok row => exact Or.inr ⟨d, row, rfl, HEq.rfl, rfl⟩
  | write st =>
    match r with
    | .error x => exact Or.inl rfl
    | .ok none => exact Or.inl rfl
    | .ok (some g) => exact Or.inl rfl
  | _ => cases r <;> exact Or.inl rfl

theorem Facts.next_row {m : Facts} {e : Eff} (r : e.Resp)
    (he : ∀ d, e ≠ .sql (.selectForDelivery d)) : (m.next e r).row = m.row := by
  by_cases hq : ∃ q, e = .sql q
  · obtain ⟨q, rfl⟩ := hq
    rcases @Facts.nextSql_row m q r with hsame | ⟨d, row, rfl, -, -⟩
    · exact hsame
    · exact absurd rfl (he d)
  · exact (Facts.next_of_not_sql (fun q h => hq ⟨q, h⟩) r).2.1

theorem perform_selectForDelivery {w w' : World} {m m' : Memory} {c : Choice} {d : DeliveryId}
    {r : Except Err (Option DeliveryForWorker)}
    (h : perform t w m c (.sql (.selectForDelivery d)) = some (w', m', r)) :
    w'.pg = w.pg ∧
      r = c.fault.answer (((m.sess.getD ⟨w.now, []⟩).view w.pg.db).forDelivery d) := by
  cases h
  exact ⟨rfl, rfl⟩

theorem Advance.row {c : Choice} {e : Eff} {r : e.Resp} {k : e.Resp → Code Reply} {w : World}
    {m : Memory} (h : Advance s s' t c th e r k w m) (hs : s.Ok) :
    (th.facts.next e r).row = th.facts.row ∨
      ∃ job : JobRef, (th.kind = .deliver job ∨ th.kind = .failed job) ∧
        e = .sql (.selectForDelivery job.deliveryId) ∧
          (th.facts.next e r).row = s.pg.db.forDelivery job.deliveryId ∧ s'.pg = s.pg := by
  by_cases he : ∃ q, e = .sql q
  · obtain ⟨q, rfl⟩ := he
    have hok := hs.threads t th h.live
    rcases @Facts.nextSql_row th.facts _ r with hr | ⟨d, row, rfl, hr, hrow⟩
    · exact Or.inl hr
    · obtain ⟨htx, -, -, -, hkind⟩ := hok.permits h.prog
      obtain ⟨hpg, hans⟩ := perform_selectForDelivery h.done
      rw [hok.view_eq (Or.inr htx)] at hans
      have hval := (Fault.answer_ok (hans.symm.trans (eq_of_heq hr))).2
      have hpg' : s'.pg = s.pg := by rw [h.world, hpg]
      refine Or.inr ?_
      rcases hkind with ⟨job, hk, rfl, -⟩ | ⟨job, hk, rfl⟩
      · exact ⟨job, Or.inl hk, rfl, hrow.trans hval, hpg'⟩
      · exact ⟨job, Or.inr hk, rfl, hrow.trans hval, hpg'⟩
  · exact Or.inl (Facts.next_of_not_sql (fun q hq => he ⟨q, hq⟩) r).2.1

/-- Every execution that has read the row of its delivery knows `P` of it. -/
def Informed (s : State) (P : DeliveryForWorker → Dossier → Prop) : Prop :=
  ∀ t th job r D, s.live? t = some th → (th.kind = .deliver job ∨ th.kind = .failed job) →
    th.facts.row = some r → s.pg.db.dossier? job.deliveryId = some D → P r D

/-- **The rule of knowledge.** -/
theorem Informed.step {P : DeliveryForWorker → Dossier → Prop} (hs : s.Ok)
    (h : step env s l = some s')
    (hread : ∀ r D, r.status = D.row.status → r.attemptCount = D.row.attemptCount → P r D)
    (hstable : ∀ d r D D', s.pg.db.dossier? d = some D → s'.pg.db.dossier? d = some D' →
      P r D → P r D')
    (hP : Informed s P) : Informed s' P := by
  have hold : ∀ t th job r D', s.live? t = some th →
      (th.kind = .deliver job ∨ th.kind = .failed job) → th.facts.row = some r →
      s'.pg.db.dossier? job.deliveryId = some D' → P r D' := by
    intro t th job r D' hlive hk hr hD'
    have hsome := (hs.threads t th hlive).knows _ (.row hk rfl (by rw [hr]; rfl))
    obtain ⟨row, hrow⟩ := Option.isSome_iff_exists.mp hsome
    have hD := congrArg (Option.map fun r =>
      Dossier.mk r (s.pg.db.log job.deliveryId) (s.pg.db.attemptsOf job.deliveryId)) hrow
    exact hstable _ r _ D' hD hD' (hP t th job r _ hlive hk hr hD)
  intro t th' job r D' hlive' hk hr hD'
  cases step_arises h hlive' with
  | @called c th e ans k w m _ hadv hth =>
    subst hth
    rw [Thread.facts_after] at hr
    rcases hadv.row hs with hrow | ⟨job', hk', -, hrow, hpg⟩
    · exact hold t th job r D' hadv.live hk (hrow.symm.trans hr) hD'
    · have hjob : job' = job := by
        have hkind : (th.after e ans k m).kind = th.kind := rfl
        rcases hk with hk | hk <;> rcases hk' with hk' | hk' <;>
          · rw [hkind, hk'] at hk
            cases hk
            try rfl
      subst hjob
      obtain ⟨row, hdel, hst, hcount⟩ := Db.forDelivery_isSome (hrow.symm.trans hr)
      rw [hpg] at hD'
      obtain ⟨hdel', -, -⟩ := Db.dossier?_eq_some.mp hD'
      rw [hdel] at hdel'
      cases hdel'
      exact hread r D' hst hcount
  | kept _ hlive hkept =>
    have hf : th'.facts = _ := congrArg WebhookEngine.facts hkept.trace
    rw [hkept.kind] at hk
    rw [hf] at hr
    exact hold t _ job r D' hlive hk hr hD'
  | fresh hlen hstart hth =>
    subst hth
    cases hr

theorem informed_init (P : DeliveryForWorker → Dossier → Prop) : Informed {} P := by
  intro t th job r D h
  simp [State.live?] at h

/-! ## Runs of the engine alone -/

theorem step_kind (h : step env s l = some s') (hlive : s'.live? u = some th') :
    (∃ th, s.live? u = some th ∧ th'.kind = th.kind) ∨ th'.kind.Starts s l := by
  cases step_arises h hlive with
  | called _ hadv hth =>
    subst hth
    exact Or.inl ⟨_, hadv.live, rfl⟩
  | kept _ hold hk => exact Or.inl ⟨_, hold, hk.kind⟩
  | fresh hlen hk hth =>
    subst hth
    exact Or.inr hk

theorem kind_ne_call {C : State → Label → Prop} (hC : ∀ s l, C s l → NoCalls s l)
    (h : Reachable env C s) (hlive : s.live? t = some th) (c : RepoCall) : th.kind ≠ .repoCall c := by
  have hinv : ∀ t th, s.live? t = some th → ∀ c, th.kind ≠ .repoCall c := by
    refine h.invariant (I := fun s => ∀ t th, s.live? t = some th → ∀ c, th.kind ≠ .repoCall c)
      ?_ ?_
    · intro t th h
      simp [State.live?] at h
    · intro s l s' ih hCl hstep u th' hlive c
      rcases step_kind hstep hlive with ⟨th, hold, hk⟩ | hk
      · rw [hk]
        exact ih u th hold c
      · intro hc
        rw [hc] at hk
        cases hk with
        | request hl hs =>
          subst hl
          exact hC _ _ hCl
  exact hinv t th hlive c

/-! ## Recorded attempts -/

/-- **What a step writes with an attempt**: the transaction its execution commits, as a whole. -/
theorem attempt_recorded (hs : s.Ok) (h : step env s l = some s') {d : DeliveryId} {a : AttemptRow}
    (ha : s'.pg.db.attemptsOf d = s.pg.db.attemptsOf d ++ [a]) :
    ∃ t c th r k w m, l = .op t c ∧ Advance s s' t c th (.sql .commit) r k w m ∧
      ∃ D f g next reason g₁ g₂ id τ τ', th.facts.tx = some [(.insertAttempt a.toAttemptData, g₁),
          (.updateAttempt a.deliveryId g next, g₂),
          (.insertTransition a.deliveryId (some f) g reason .worker, id)] ∧
        s.pg.db.dossier? d = some D ∧
          s'.pg.db.dossier? d = some (D.recorded a id f g next reason τ τ') := by
  rw [Db.attemptsOf_eq hs.db, Db.attemptsOf_eq (hs.step h).db] at ha
  have hne : ∀ rows : List AttemptRow, rows ≠ rows ++ [a] := fun rows h => by simp at h
  rcases story hs h d with hD | ⟨D, τ, hD, hD'⟩ | ⟨t, c, th, r, k, w, m, hl, hadv, hc⟩
  · rw [hD] at ha
    exact absurd ha (hne _)
  · rw [hD, hD'] at ha
    exact absurd ha (hne _)
  refine ⟨t, c, th, r, k, w, m, hl, hadv, ?_⟩
  obtain ⟨tx, htx, hscript, -⟩ := (hs.threads t th hadv.live).permits hadv.prog
  obtain ⟨-, ws, hws, hdb⟩ := hadv.commits hs htx
  generalize hD : s.pg.db.dossier? d = o at ha hc
  generalize hD' : s'.pg.db.dossier? d = o' at ha hc
  cases hc with
  | created => exact absurd ha (hne [])
  | @moved D => exact absurd ha (hne D.attempts)
  | @recorded D a' f₀ g₀ next₀ hrec hd hnew id₀ hid gen hmem reason₀ τ τ' =>
    obtain rfl : (⟨a', gen⟩ : AttemptRow) = a := by
      simpa [Dossier.recorded] using ha
    rw [htx] at hmem
    cases hscript with
    | nil => cases hmem
    | move => simp at hmem
    | ingest => simp at hmem
    | claim hk hclaims =>
      obtain ⟨x, -, -, hx⟩ := hclaims _ hmem
      cases hx
    | @record b f g next hrec' reason g₁ g₂ id =>
      obtain ⟨rfl, rfl⟩ : a' = b ∧ gen = g₁ := by simpa using hmem
      obtain ⟨τ₁, ws₁, rfl, hw₁⟩ := writes_cons hws
      obtain ⟨τ₂, ws₂, rfl, hw₂⟩ := writes_cons hw₁
      obtain ⟨τ₃, ws₃, rfl, hw₃⟩ := writes_cons hw₂
      obtain rfl := List.map_eq_nil_iff.mp hw₃
      refine ⟨D, f, g, next, reason, gen, g₂, id, τ₂, τ₃, htx, rfl, ?_⟩
      rw [← hD']
      split at hdb
      · -- a COMMIT that fails writes nothing
        rw [hdb, hD] at hD'
        have := congrArg (fun o => (o.elim [] Dossier.attempts).length) hD'
        simp [Dossier.recorded] at this
      · rw [hdb, Db.dossier?_record, if_pos hd.symm, hD]
        rfl

/-! ## A small system -/

/-- The default configuration with constant runtime functions. -/
def sampleEnv : Env :=
  { Config.default with
    hmacSha256Hex := fun _ _ => ""
    stringify := fun _ => ""
    toISOString := fun _ => "" }

/-- At most one delivery of an endpoint is in flight. -/
def narrowEnv : Env := { sampleEnv with rlMaxInflight := 1 }

/-- A breaker that opens on the first failure. -/
def touchyEnv : Env := { sampleEnv with cbFailThreshold := 1 }

theorem computed_run (env : Env) {C : State → Label → Prop} [∀ s l, Decidable (C s l)]
    (ls : List Label) (p : State → Bool) (h : (runOf (step env) C {} ls).any p = true) :
    ∃ s, Reachable env C s ∧ p s = true := by
  obtain ⟨s, hrun, hp⟩ := exists_run h
  exact ⟨s, ⟨ls, hrun⟩, hp⟩

theorem sample_run {C : State → Label → Prop} [∀ s l, Decidable (C s l)] (ls : List Label)
    (p : State → Bool) (h : (runOf (step sampleEnv) C {} ls).any p = true) :
    ∃ s, Reachable sampleEnv C s ∧ p s = true := computed_run sampleEnv ls p h

/-- `n` calls of execution `t`. -/
def calls (t : Tid) (n : ℕ) (c : Choice := {}) : List Label := List.replicate n (.op t c)

/-- An endpoint, and an event for it: the delivery has the id 2 and the job `.delivery 2`. -/
def sampleIngest : List Label :=
  [.createEndpoint "client" "url" "secret",
    .request (.postEvent ⟨some "key", 0, 0, "type", "payload"⟩)] ++ calls 0 12 ++ [.settle 0]

/-- Execution `t` picks up the delivery and delivers it. -/
def sampleDelivery (t : Tid) : List Label := .pickup (.delivery 2) :: calls t 31 ++ [.settle t]

end WebhookEngine
