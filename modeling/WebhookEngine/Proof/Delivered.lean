import WebhookEngine.Proof.Outcomes

set_option autoImplicit false

/-!
# DELIVERED is final, where nothing writes over it

`transition` updates the status whatever it is, from a status its caller read earlier. A worker that
stalls between its read and its mark writes over the DELIVERED of another one, and so does the
exhaustion handler of a job that failed after its success was committed.

* `SparesDelivered`: no `transition` updates a delivery that is DELIVERED.
* `Known`: once a delivery is DELIVERED, whoever still works from an undelivered row has a stale
  attempt number, so that the unique key stops its `recordAttempt`.
* **`delivered_absorbing`**: in runs under `SparesDelivered` a DELIVERED delivery stays DELIVERED and
  its log has one DELIVERED row.
* **`delivered_overwritten`**: in other runs it need not.
-/

namespace WebhookEngine

open EffectProg TransitionSystem

variable {env : Env} {s s' : State} {l : Label} {t : Tid} {th : Thread}

/-- The delivery whose status the execution is about to update. -/
def Thread.updating (th : Thread) : Option DeliveryId :=
  match th.prog with
  | .op (.sql (.write (.updateStatus d _))) _ => some d
  | _ => none

/-- No `transition` updates a delivery that is DELIVERED. -/
def SparesDelivered (s : State) : Label → Prop
  | .op t _ => ∀ d ∈ (s.live? t).bind Thread.updating, s.pg.db.status? d ≠ some .delivered
  | _ => True

instance (s : State) : (l : Label) → Decidable (SparesDelivered s l)
  | .op t _ => inferInstanceAs
      (Decidable (∀ d ∈ (s.live? t).bind Thread.updating, s.pg.db.status? d ≠ some .delivered))
  | .tick _ | .settle _ | .crash _ | .extend _ | .extendReply _ | .request _ | .pickup _ | .stall _
  | .stallFail _ | .removeCompleted _ | .operatorAdd _ _ | .evict _ | .idemArrive _ | .redisLoss
  | .createEndpoint _ _ _ | .patchEndpoint _ _ _ => inferInstanceAs (Decidable True)

/-- The engine alone, and nothing writes over DELIVERED. -/
def Sparing (s : State) (l : Label) : Prop := NoCalls s l ∧ SparesDelivered s l

instance (s : State) (l : Label) : Decidable (Sparing s l) :=
  inferInstanceAs (Decidable (_ ∧ _))

/-! ## What the executions know -/

/-- The counter read is not above the current one, and below it if the delivery was delivered
since. -/
structure Known (r : DeliveryForWorker) (D : Dossier) : Prop where
  le : r.attemptCount ≤ D.row.attemptCount
  lt : D.row.status = .delivered → r.status.terminal = false → r.attemptCount < D.row.attemptCount

theorem Known.step (hs : s.Ok) (hcall : ∀ t th, s.live? t = some th → ∀ c, th.kind ≠ .repoCall c)
    (h : step env s l = some s') {d : DeliveryId} {r : DeliveryForWorker} {D D' : Dossier}
    (hD : s.pg.db.dossier? d = some D) (hD' : s'.pg.db.dossier? d = some D') (hk : Known r D) :
    Known r D' := by
  refine ⟨Nat.le_trans hk.le (story_count hs h hD hD'), fun hst hopen => ?_⟩
  rcases story hs h d with h | ⟨D₀, τ, h₀, h⟩ | ⟨t, c, th, ans, k, w, m, -, hadv, hc⟩
  · rw [hD, hD'] at h
    cases h
    exact hk.lt hst hopen
  · rw [hD] at h₀
    rw [hD'] at h
    cases h₀
    cases h
    exact hk.lt hst hopen
  · rw [hD, hD'] at hc
    cases hc with
    | moved hmv hid hm reason τ τ' =>
      have hne := (hmv.to (hcall t th hadv.live)).1
      exact absurd hst hne
    | recorded => exact Nat.lt_succ_of_le hk.le

theorem reachable_known {C : State → Label → Prop} (hC : ∀ s l, C s l → NoCalls s l)
    (h : Reachable env C s) : Informed s Known := by
  have hinv : Reachable env C s ∧ Informed s Known := by
    obtain ⟨ls, h⟩ := h
    refine h.invariant (I := fun s => Reachable env C s ∧ Informed s Known) ?_
      ⟨.refl _, informed_init _⟩
    rintro s l s' ⟨hr, hI⟩ hCl hstep
    have hs := reachable_ok hr
    refine ⟨hr.snoc hCl hstep, hI.step hs hstep ?_ ?_⟩
    · intro r D hst hcount
      refine ⟨Nat.le_of_eq hcount, fun hdel hopen => ?_⟩
      rw [hst, hdel] at hopen
      cases hopen
    · intro d r D D' hD hD' hk
      exact hk.step hs (fun t th hlive => kind_ne_call hC hr hlive) hstep hD hD'
  exact hinv.2

theorem Records.undelivered {C : State → Label → Prop} (hC : ∀ s l, C s l → NoCalls s l)
    (hr : Reachable env C s) (hlive : s.live? t = some th) {a : AttemptData} {f g : Status}
    {next : Option Time} (h : Records th.kind th.facts a f g next) {D : Dossier}
    (hD : s.pg.db.dossier? a.deliveryId = some D)
    (hnew : ∀ r ∈ D.attempts, r.attemptNumber ≠ a.attemptNumber) : D.row.status ≠ .delivered := by
  intro hst
  have hcall := kind_ne_call hC hr hlive
  have hn := (reachable_counted hC hr).next hlive hcall h hD hnew
  obtain ⟨job, r, hk, hd, hw, hn'⟩ := h.number hcall
  rw [← hd] at hD
  have hlt := (reachable_known hC hr t th job r D hlive (Or.inl hk) hw.row hD).lt hst hw.open_
  have heq : r.attemptCount = D.row.attemptCount := Nat.succ.inj (hn'.symm.trans hn)
  exact Nat.ne_of_lt hlt heq

/-! ## Open updates -/

/-- No open transaction has updated the status of a DELIVERED delivery. -/
def Spared (s : State) : Prop :=
  ∀ t th d g gen, s.live? t = some th → (.updateStatus d g, gen) ∈ th.tx →
    s.pg.db.status? d ≠ some .delivered

theorem Spared.step (hs : s.Ok) (hl : SparesDelivered s l) (h : step env s l = some s')
    (hI : Spared s) : Spared s' := by
  intro u th' d g gen hu hmem
  cases step_arises h hu with
  | @called c th e r k w m hl' hadv hth =>
    subst hl' hth
    have he : e ≠ .sql .commit := by
      rintro rfl
      have hnone : (th.facts.nextSql .commit r).tx = none := (Facts.nextSql_commit _ r).1
      have : (Stmt.updateStatus d g, gen) ∈ (th.facts.nextSql .commit r).tx.getD [] := hmem
      rw [hnone] at this
      cases this
    rw [hadv.status? hs h he]
    rcases Facts.next_tx hmem with hmem | ⟨st, g', rfl, heq⟩
    · exact hI u th d g gen hadv.live hmem
    · cases heq
      refine hl d ?_
      rw [hadv.live]
      simp [Thread.updating, hadv.prog]
  | @kept th hop hlive hk =>
    have hmem : (Stmt.updateStatus d g, gen) ∈ th.tx := Thread.tx_kept hk ▸ hmem
    -- the row is locked by this execution
    have hlock := (hs.threads u th hlive).tx.owns _ hmem (.row d) rfl
    rw [story_locked hs h hlock hop]
    exact hI u th d g gen hlive hmem
  | fresh hlen hk hth =>
    subst hth
    cases hmem

/-! ## Once delivered -/

/-- One DELIVERED row if the delivery is DELIVERED, and none otherwise. -/
def Dossier.Once (D : Dossier) : Prop :=
  D.log.countP (fun r => r.toStatus = .delivered) = if D.row.status = .delivered then 1 else 0

theorem reachable_spared (h : Reachable env Sparing s) : Spared s := by
  have hinv : s.Ok ∧ Spared s := by
    refine h.invariant (I := fun s => s.Ok ∧ Spared s) ⟨ok_init, ?_⟩ ?_
    · intro t th d g gen h
      simp [State.live?] at h
    · rintro s l s' ⟨hs, hI⟩ hl hstep
      exact ⟨hs.step hstep, hI.step hs hl.2 hstep⟩
  exact hinv.2

theorem Sparing.noCalls (s : State) (l : Label) (h : Sparing s l) : NoCalls s l := h.1

theorem Change.undelivered (hr : Reachable env Sparing s) (hlive : s.live? t = some th)
    {d : DeliveryId} {D : Dossier} {o : Option Dossier} (hD : s.pg.db.dossier? d = some D)
    (hc : Change th.kind th.facts d (some D) o) : D.row.status ≠ .delivered := by
  cases hc with
  | moved hmv hid hm reason τ τ' =>
    intro hst
    exact reachable_spared hr t th d _ _ hlive hm ((Db.status?_eq hD).trans (congrArg some hst))
  | recorded hrec ha hnew hid hm reason τ τ' =>
    subst ha
    exact hrec.undelivered Sparing.noCalls hr hlive hD hnew

theorem reachable_once (h : Reachable env Sparing s) {d : DeliveryId} {D : Dossier}
    (hD : s.pg.db.dossier? d = some D) : D.Once := by
  refine reachable_dossier (P := Dossier.Once) ?_ (fun D τ h => h) ?_ h hD
  · intro d ev ep id τ τ'
    rfl
  · intro s t th d D D' hr ht hD h hc
    have hopen := hc.undelivered hr ht.live hD
    have hcall := kind_ne_call Sparing.noCalls hr ht.live
    have hzero : D.log.countP (fun r => r.toStatus = .delivered) = 0 := h.trans (if_neg hopen)
    cases hc with
    | @moved _ f g a hmv id hid gen hm reason τ τ' =>
      have hne := (hmv.to hcall).1
      rw [Dossier.Once, Dossier.moved, List.countP_append, hzero]
      simp [hne]
    | @recorded _ a f g next hrec ha hnew id hid gen hm reason τ τ' =>
      rw [Dossier.Once, Dossier.recorded, List.countP_append, hzero]
      by_cases hg : g = .delivered <;> simp [hg]

theorem delivered_step (hr : Reachable env Sparing s) (h : step env s l = some s') {d : DeliveryId}
    (hd : s.pg.db.status? d = some .delivered) : s'.pg.db.status? d = some .delivered := by
  rcases story (reachable_ok hr) h d with h | ⟨D, τ, hD, h⟩ | ⟨t, c, th, r, k, w, m, -, hadv, hc⟩
  · rw [Db.status?_of_dossier? h, hd]
  · rw [Db.status?_eq hD] at hd
    rw [Db.status?_eq h, ← hd]
    rfl
  · obtain ⟨row, hrow⟩ := Option.isSome_iff_exists.mp (Db.status?_isSome hd)
    have hD : s.pg.db.dossier? d = some ⟨row, s.pg.db.log d, s.pg.db.attemptsOf d⟩ := by
      simp [Db.dossier?, hrow]
    rw [Db.status?_eq hD] at hd
    rw [hD] at hc
    exact absurd (Option.some.inj hd) (hc.undelivered hr hadv.live hD)

/-- **In runs in which no `transition` updates a DELIVERED delivery, DELIVERED is absorbing**, and
no delivery gets a second DELIVERED row. -/
theorem delivered_absorbing (h : Reachable env Sparing s) (d : DeliveryId) :
    (s.pg.db.log d).countP (fun r => r.toStatus = .delivered) ≤ 1 ∧
      (s.pg.db.status? d = some .delivered → ∀ ls u, Run (step env) Sparing s ls u →
        u.pg.db.status? d = some .delivered) := by
  constructor
  · cases hD : s.pg.db.dossier? d with
    | none =>
      rw [Db.log_empty (reachable_ok h).db (Db.dossier?_none.mp hD)]
      exact Nat.zero_le 1
    | some D =>
      have honce : D.log.countP (fun r => r.toStatus = .delivered) = _ := reachable_once h hD
      rw [← (Db.dossier?_eq_some.mp hD).2.1, honce]
      split <;> omega
  · intro hd ls u hrun
    have hinv : Reachable env Sparing u ∧ u.pg.db.status? d = some .delivered := by
      refine hrun.invariant (I := fun u => Reachable env Sparing u ∧
        u.pg.db.status? d = some .delivered) ?_ ⟨h, hd⟩
      rintro s l s' ⟨hr, hd⟩ hl hstep
      exact ⟨hr.snoc hl hstep, delivered_step hr hstep hd⟩
    exact hinv.2

/-- A worker delivers, and another one that waited for the lock finds the delivery DELIVERED. -/
theorem delivered_absorbing_delivered : ∃ s u ls, Reachable sampleEnv Sparing s ∧
    s.pg.db.status? 2 = some .delivered ∧ Run (step sampleEnv) Sparing s ls u ∧ 3 ≤ u.threads.length ∧
      u.pg.db.status? 2 = some .delivered := by
  obtain ⟨s, hreach, hs⟩ := sample_run (C := Sparing) (sampleIngest ++ sampleDelivery 1)
    (fun s => s.pg.db.status? 2 = some .delivered ∧
      (runOf (step sampleEnv) Sparing s (.operatorAdd (.retry 2 0) 2 :: .pickup (.retry 2 0) ::
        calls 2 3)).any fun u => 3 ≤ u.threads.length) (by decide +kernel)
  obtain ⟨hst, hrun⟩ := of_decide_eq_true hs
  obtain ⟨u, hrun, hu⟩ := exists_run hrun
  exact ⟨s, u, _, hreach, hst, hrun, of_decide_eq_true hu,
    (delivered_absorbing hreach 2).2 hst _ u hrun⟩

/-- A worker stops before it marks the delivery until its lock has expired; another one delivers;
then the first one marks the delivery. -/
def sampleStale : List Label :=
  sampleIngest ++ .pickup (.delivery 2) :: calls 1 7 ++
    [.tick 60000, .stall (.delivery 2)] ++ sampleDelivery 2

theorem delivered_overwritten : ¬ ∀ s, Reachable sampleEnv NoCalls s → ∀ d,
    s.pg.db.status? d = some .delivered → ∀ ls u, Run (step sampleEnv) NoCalls s ls u →
      u.pg.db.status? d = some .delivered := by
  intro h
  obtain ⟨s, hreach, hs⟩ := sample_run (C := NoCalls) sampleStale
    (fun s => s.pg.db.status? 2 = some .delivered ∧
      (runOf (step sampleEnv) NoCalls s (calls 1 3)).any fun u =>
        u.pg.db.status? 2 = some .delivering) (by decide +kernel)
  obtain ⟨hst, hrun⟩ := of_decide_eq_true hs
  obtain ⟨u, hrun, hu⟩ := exists_run hrun
  have hdel := h s hreach 2 hst _ u hrun
  rw [of_decide_eq_true hu] at hdel
  cases hdel

end WebhookEngine
