import WebhookEngine.Proof.History

set_option autoImplicit false

/-!
# The endpoint of a delivery is there

`deliveries.endpoint_id` refers to `endpoints`, of which nothing is deleted. With the reference to
`events` this makes the join of `getForDelivery` find every delivery.

* `Db.Refs`, `Session.Refs`: the rows and the uncommitted rows refer to endpoints that are there.
* **`forDelivery_none`**: a delivery that `getForDelivery` does not find does not exist.
-/

namespace WebhookEngine

open EffectProg TransitionSystem

variable {env : Env} {s s' : State} {l : Label} {db : Db} {pg pg' : Postgres} {t : Tid}

/-- The delivery a write inserts refers to an endpoint of `db`. -/
def Write.Refs (db : Db) (w : Write) : Prop :=
  ∀ ev ep, w.stmt = .insertDelivery ev ep → (db.endpoint? ep).isSome

/-- Every delivery refers to an endpoint. -/
def Db.Refs (db : Db) : Prop := ∀ row ∈ db.deliveries, (db.endpoint? row.endpointId).isSome

/-- So does every delivery that is not committed yet. -/
def Session.Refs (db : Db) (σ : Session) : Prop := ∀ w ∈ σ.writes, w.Refs db

theorem Db.endpoint?_congr {db' : Db} (h : db'.endpoints = db.endpoints) (ep : EndpointId) :
    db'.endpoint? ep = db.endpoint? ep := by
  rw [Db.endpoint?, h, Db.endpoint?]

theorem Db.apply_endpoints (w : Write) : (db.apply w).endpoints = db.endpoints := by
  obtain ⟨st, g, τ⟩ := w
  cases st <;> rfl

theorem Db.applyAll_endpoints (ws : List Write) : (db.applyAll ws).endpoints = db.endpoints := by
  induction ws generalizing db with
  | nil => rfl
  | cons w ws ih => exact ih.trans (Db.apply_endpoints w)

theorem Db.Refs.modify {d : DeliveryId} {f : DeliveryRow → DeliveryRow} (h : db.Refs)
    (hf : ∀ r, (f r).endpointId = r.endpointId) : (db.modifyDelivery d f).Refs := by
  intro row hrow
  obtain ⟨r, hr, rfl⟩ := List.mem_map.mp hrow
  have hep : (if r.id = d then f r else r).endpointId = r.endpointId := by
    split
    · exact hf r
    · rfl
  rw [hep]
  exact h r hr

theorem Db.Refs.apply {w : Write} (h : db.Refs) (hw : w.Refs db) : (db.apply w).Refs := by
  obtain ⟨st, g, τ⟩ := w
  cases st with
  | insertDelivery ev ep =>
    intro row hrow
    rcases List.mem_append.mp hrow with hrow | hrow
    · exact h row hrow
    · obtain rfl := List.mem_singleton.mp hrow
      exact hw ev ep rfl
  | updateStatus d st => exact h.modify fun _ => rfl
  | updateAttempt d st next => exact h.modify fun _ => rfl
  | updateEnqueued d => exact h.modify fun _ => rfl
  | _ => exact h

theorem Write.Refs.congr {db' : Db} {w : Write} (h : w.Refs db)
    (he : db'.endpoints = db.endpoints) : w.Refs db' := by
  intro ev ep hst
  rw [Db.endpoint?_congr he]
  exact h ev ep hst

theorem Db.Refs.applyAll {ws : List Write} (h : db.Refs) (hw : ∀ w ∈ ws, w.Refs db) :
    (db.applyAll ws).Refs := by
  induction ws generalizing db with
  | nil => exact h
  | cons w ws ih =>
    refine ih (h.apply (hw w List.mem_cons_self)) fun w' hw' => ?_
    exact (hw w' (List.mem_cons_of_mem _ hw')).congr (Db.apply_endpoints w)

theorem Stmt.verdict_refs {st : Stmt} {ws : List Write}
    (h : st.verdict (db.applyAll ws) = .writes) (g : ℕ) (τ : Time) : Write.Refs db ⟨st, g, τ⟩ := by
  rintro ev ep rfl
  simp only [Stmt.verdict] at h
  split at h
  · rename_i hv
    rw [← Db.endpoint?_congr (Db.applyAll_endpoints ws)]
    exact hv.2.1
  · cases h

theorem Stmt.draw_deliveries (st : Stmt) : (st.draw db).2.deliveries = db.deliveries ∧
    (st.draw db).2.endpoints = db.endpoints := by
  cases st <;> exact ⟨rfl, rfl⟩

theorem Db.Refs.draw {st : Stmt} (h : db.Refs) : (st.draw db).2.Refs := by
  obtain ⟨hd, he⟩ : (st.draw db).2.deliveries = db.deliveries ∧
      (st.draw db).2.endpoints = db.endpoints := st.draw_deliveries
  intro row hrow
  rw [Db.endpoint?_congr he]
  exact h row (hd ▸ hrow)

/-- What a statement keeps. -/
structure KeepsRefs (pg pg' : Postgres) (sess' : Option Session) : Prop where
  rows : pg'.db.Refs
  endpoints : pg'.db.endpoints = pg.db.endpoints
  open_ : ∀ σ, sess' = some σ → σ.Refs pg.db

theorem Writes.refs {now : Time} {sess sess' : Option Session} {st : Stmt}
    {r : Except Err (Option ℕ)} (h : Writes pg t now sess st pg' sess' r) (hdb : pg.db.Refs)
    (hσ : ∀ σ, sess = some σ → σ.Refs pg.db) : KeepsRefs pg pg' sess' := by
  cases h with
  | refused => exact ⟨hdb, rfl, hσ⟩
  | missed h => exact ⟨hdb, rfl, hσ⟩
  | @joins σ hs hfree hv =>
    refine ⟨hdb.draw, st.draw_deliveries.2, fun σ' hσ' w hw => ?_⟩
    cases hσ'
    rcases List.mem_append.mp hw with hw | hw
    · exact hσ σ hs w hw
    · rw [List.mem_singleton.mp hw]
      exact Stmt.verdict_refs hv _ _
  | alone hs hfree hv =>
    refine ⟨hdb.draw.apply ?_, (Db.apply_endpoints _).trans st.draw_deliveries.2, nofun⟩
    exact (@Stmt.verdict_refs _ _ [] hv _ _).congr st.draw_deliveries.2

theorem Sql.exec_refs {q : Sql} {now : Time} {sess sess' : Option Session} {fault : Fault}
    {rows : List DeliveryId} {r : Except Err q.Ret}
    (h : q.exec pg t now sess fault rows = some (pg', sess', r)) (hdb : pg.db.Refs)
    (hσ : ∀ σ, sess = some σ → σ.Refs pg.db) : KeepsRefs pg pg' sess' := by
  have hsame : KeepsRefs pg pg sess := ⟨hdb, rfl, hσ⟩
  cases q with
  | connect => cases h; exact hsame
  | begin =>
    cases h
    refine ⟨hdb, rfl, fun σ hs => ?_⟩
    split at hs
    · cases hs
      exact nofun
    · exact hσ σ hs
  | commit =>
    cases h
    refine ⟨?_, ?_, nofun⟩
    · change Db.Refs (if fault = .before then _ else _)
      split
      · exact hdb
      · refine hdb.applyAll fun w hw => ?_
        cases hs : sess with
        | none =>
          rw [hs] at hw
          cases hw
        | some σ =>
          rw [hs] at hw
          exact hσ σ hs w hw
    · change (if fault = .before then _ else _ : Db).endpoints = _
      split
      · rfl
      · exact Db.applyAll_endpoints _
  | rollback => cases h; exact ⟨hdb, rfl, nofun⟩
  | write st => exact (Stmt.exec_cases h).refs hdb hσ
  | selectUnenqueued grace limit =>
    simp only [Sql.exec] at h
    split at h
    · split at h
      · cases h
        exact ⟨hdb, rfl, hσ⟩
      · cases h
    · cases h
      exact hsame
  | selectStatusForUpdate d =>
    simp only [Sql.exec] at h
    split at h
    · split at h
      · split at h
        · cases h
          exact hsame
        · cases h
          exact ⟨hdb, rfl, hσ⟩
      · cases h
    · cases h
      exact hsame
  | _ => cases h; exact hsame

/-! ## The whole state -/

/-- Every delivery, committed or not, refers to an endpoint. -/
structure State.Refs (s : State) : Prop where
  rows : s.pg.db.Refs
  open_ : ∀ t th σ, s.live? t = some th → th.mem.sess = some σ → σ.Refs s.pg.db

theorem endpoints_stay (h : step env s l = some s') (hl : ∀ t c, l ≠ .op t c) (ep : EndpointId)
    (hep : (s.pg.db.endpoint? ep).isSome) : (s'.pg.db.endpoint? ep).isSome := by
  have hsame : s'.pg.db.endpoints = s.pg.db.endpoints → (s'.pg.db.endpoint? ep).isSome := by
    intro he
    rw [Db.endpoint?_congr he]
    exact hep
  cases step_happens h with
  | op => exact absurd rfl (hl _ _)
  | settle _ _ h => cases h <;> exact hsame rfl
  | createEndpoint hdb =>
    subst hdb
    simp only [Db.endpoint?, List.find?_append, Option.isSome_or] at hep ⊢
    rw [hep, Bool.true_or]
  | patchEndpoint hdb =>
    subst hdb
    rw [Db.endpoint?, List.find?_isSome] at hep ⊢
    obtain ⟨r, hr, hid⟩ := hep
    refine ⟨_, List.mem_map_of_mem hr, ?_⟩
    split <;> exact hid
  | _ => exact hsame rfl

theorem State.Refs.step (h : step env s l = some s') (hI : s.Refs) : s'.Refs := by
  by_cases hop : ∃ t c, l = .op t c
  · obtain ⟨t, c, rfl⟩ := hop
    obtain ⟨th, e, r, k, w, m, hadv⟩ := stepOp_cases h
    have hw : s'.pg = w.pg := by rw [hadv.world]
    have hother : ∀ u th' σ, s'.pg.db.endpoints = s.pg.db.endpoints → u ≠ t →
        s'.live? u = some th' → th'.mem.sess = some σ → σ.Refs s'.pg.db := by
      intro u th' σ he hut hu hσ w hw
      rw [hadv.live?_other hut] at hu
      exact (hI.open_ u th' σ hu hσ w hw).congr he
    by_cases he : ∃ q, e = .sql q
    · obtain ⟨q, rfl⟩ := he
      obtain ⟨pg', sess', hex, rfl, rfl⟩ := perform_sql hadv.done
      have hkeep := Sql.exec_refs hex hI.rows fun σ hσ => hI.open_ t th σ hadv.live hσ
      have he : s'.pg.db.endpoints = s.pg.db.endpoints := by
        rw [hw]
        exact hkeep.endpoints
      refine ⟨by rw [hw]; exact hkeep.rows, fun u th' σ hu hσ => ?_⟩
      by_cases hut : u = t
      · subst hut
        rw [hadv.live?_self] at hu
        cases hu
        exact fun w hw => (hkeep.open_ σ hσ w hw).congr he
      · exact hother u th' σ he hut hu hσ
    · obtain ⟨hpg, hsess⟩ := perform_other (fun q hq => he ⟨q, hq⟩) hadv.done
      have hpg' : s'.pg = s.pg := hw.trans hpg
      refine ⟨by rw [hpg']; exact hI.rows, fun u th' σ hu hσ => ?_⟩
      by_cases hut : u = t
      · subst hut
        rw [hadv.live?_self] at hu
        cases hu
        rw [hpg']
        exact hI.open_ u th σ hadv.live (hsess.symm.trans hσ)
      · exact hother u th' σ (by rw [hpg']) hut hu hσ
  · have hl : ∀ t c, l ≠ .op t c := fun t c hl => hop ⟨t, c, hl⟩
    have hidle := step_idle h hl
    have hstay := endpoints_stay h hl
    refine ⟨fun row hrow => ?_, fun u th' σ hu hσ w hw ev ep hst => ?_⟩
    · rw [hidle.tables.deliveries] at hrow
      exact hstay _ (hI.rows row hrow)
    · cases hidle.threads u th' hu with
      | @kept th hlive hkept =>
        exact hstay ep (hI.open_ u th σ hlive (hkept.sess.symm.trans hσ) w hw ev ep hst)
      | fresh hlen hstart hth =>
        subst hth
        cases hσ

theorem reachable_refs {C : State → Label → Prop} (h : Reachable env C s) : s.Refs := by
  refine h.invariant (I := State.Refs) ⟨nofun, fun t th σ h => ?_⟩ fun s l s' hI _ hstep =>
    hI.step hstep
  simp [State.live?] at h

/-- **A delivery that is not found does not exist.** -/
theorem forDelivery_none {C : State → Label → Prop} (h : Reachable env C s) {d : DeliveryId}
    (hnone : s.pg.db.forDelivery d = none) : s.pg.db.delivery? d = none := by
  by_contra hne
  obtain ⟨row, hrow⟩ := Option.ne_none_iff_exists'.mp hne
  have hmem : row ∈ s.pg.db.deliveries := List.mem_of_find?_eq_some hrow
  obtain ⟨e, he⟩ := Option.isSome_iff_exists.mp ((reachable_refs h).rows row hmem)
  obtain ⟨ev, hev, hid⟩ := (reachable_ok h).db.deliveryEvent row hmem
  have hsome : (s.pg.db.event? row.eventId).isSome := by
    refine List.find?_isSome.mpr ⟨ev, hev, ?_⟩
    simpa using hid
  obtain ⟨ev', hev'⟩ := Option.isSome_iff_exists.mp hsome
  simp [Db.forDelivery, hrow, he, hev'] at hnone

end WebhookEngine
