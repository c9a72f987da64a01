import WebhookEngine.Proof.Delivered
import WebhookEngine.Proof.Sweep

set_option autoImplicit false

/-!
# No request after success

A processor holds the lock of its delivery from `acquire` to `release`, and every request and every
write of it lies between. `LockKept` says that the lock is there for as long as its holder believes
to have it, so that two holders of one lock are one. The key of the lock is the text of the id in the
job's data, though, and a retry job keeps the text of the request's path.

* `SpeltAlike`: no processor asks for a lock while another one holds that of another text of the id.
* `Facts.Quiet`: a processor that will neither send nor write any more, unless it reads the row anew.
* `quiet_step`: while a delivery is DELIVERED or DLQ, its processors stay quiet.
* **`no_request_after_delivered`**: in such runs no request for the delivery is started after a COMMIT
  of DELIVERED, before a manual retry has moved it from DLQ to PENDING.
* **`request_after_delivered`**: in other runs it may be.
-/

namespace WebhookEngine

open EffectProg TransitionSystem

variable {env : Env} {s s' : State} {l : Label} {t u : Tid} {th th' : Thread} {d : DeliveryId}

/-- The request the execution is about to start. -/
def Thread.sending (th : Thread) : Option HttpRequest :=
  match th.prog with
  | .op (.httpStart req) _ => some req
  | _ => none

theorem Thread.sending_eq_some {req : HttpRequest} (h : th.sending = some req) :
    ∃ k, th.prog = .op (.httpStart req) k := by
  unfold Thread.sending at h
  split at h
  · rename_i req' k hp
    cases h
    exact ⟨k, hp⟩
  · cases h

/-- The key of the lock the execution believes to hold. -/
def Thread.holding (th : Thread) : Option IdText :=
  match th.kind with
  | .deliver job => if th.facts.holds then some job.text else none
  | _ => none

/-- The key of the lock the execution is about to ask for. -/
def Thread.locking (th : Thread) : Option IdText :=
  match th.prog with
  | .op (.redis (.setLock x _ _)) _ => some x
  | _ => none

/-- The lock of a delivery is never lost while its holder is still executing. -/
def LockKept (s : State) (_ : Label) : Prop :=
  ∀ t < s.threads.length, ∀ x ∈ (s.live? t).bind Thread.holding, s.redis.lockAt s.now x = some t

instance (s : State) (l : Label) : Decidable (LockKept s l) :=
  inferInstanceAs (Decidable (∀ t < s.threads.length, ∀ x ∈ (s.live? t).bind Thread.holding, _))

theorem LockKept.held (h : LockKept s l) (ht : s.live? t = some th) {job : JobRef}
    (hk : th.kind = .deliver job) (hh : th.facts.holds = true) :
    s.redis.lockAt s.now job.text = some t := by
  refine h t (State.live?_lt ht) job.text ?_
  rw [ht]
  simp [Thread.holding, hk, hh]

theorem LockKept.unique (h : LockKept s l) (ht : s.live? t = some th) (hu : s.live? u = some th')
    {job job' : JobRef} (hk : th.kind = .deliver job) (hk' : th'.kind = .deliver job')
    (hd : job.text = job'.text) (hh : th.facts.holds = true) (hh' : th'.facts.holds = true) :
    t = u := by
  have h1 := h.held ht hk hh
  have h2 := h.held hu hk' hh'
  rw [hd, h2] at h1
  exact (Option.some.inj h1).symm

/-- The engine alone, without lost locks. -/
def Locked (s : State) (l : Label) : Prop := NoCalls s l ∧ LockKept s l

instance (s : State) (l : Label) : Decidable (Locked s l) := inferInstanceAs (Decidable (_ ∧ _))

/-- Nobody asks for the lock of a delivery while another execution holds that of another text of its
id. -/
def SpeltAlike (s : State) : Label → Prop
  | .op t _ => ∀ x ∈ (s.live? t).bind Thread.locking, ∀ u < s.threads.length,
      ∀ y ∈ (s.live? u).bind Thread.holding, y.id = x.id → y = x
  | _ => True

instance (s : State) : (l : Label) → Decidable (SpeltAlike s l)
  | .op t _ => inferInstanceAs (Decidable (∀ x ∈ (s.live? t).bind Thread.locking,
      ∀ u < s.threads.length, ∀ y ∈ (s.live? u).bind Thread.holding, y.id = x.id → y = x))
  | .tick _ | .settle _ | .crash _ | .extend _ | .extendReply _ | .request _ | .pickup _ | .stall _
  | .stallFail _ | .removeCompleted _ | .operatorAdd _ _ | .evict _ | .idemArrive _ | .redisLoss
  | .createEndpoint _ _ _ | .patchEndpoint _ _ _ => inferInstanceAs (Decidable True)

/-- The engine alone, without lost locks, and with one lock for each delivery. -/
def OneLock (s : State) (l : Label) : Prop := Locked s l ∧ SpeltAlike s l

instance (s : State) (l : Label) : Decidable (OneLock s l) := inferInstanceAs (Decidable (_ ∧ _))

theorem OneLock.noCalls (s : State) (l : Label) (h : OneLock s l) : NoCalls s l := h.1.1

/-! ## One text for each delivery -/

theorem Facts.next_holds {m : Facts} {e : Eff} (r : e.Resp) :
    (m.next e r).holds = true → m.holds = true ∨ ∃ d token ttl, e = .redis (.setLock d token ttl) := by
  cases e with
  | sql q =>
    intro h
    exact Or.inl ((Facts.nextSql_keeps r).1.symm.trans h)
  | redis c =>
    cases c with
    | setLock d token ttl => exact fun _ => Or.inr ⟨d, token, ttl, rfl⟩
    | evalReleaseLock d token =>
      intro h
      cases h
    | _ => exact fun h => Or.inl h
  | queueAdd id d => cases r <;> exact fun h => Or.inl h
  | _ => exact fun h => Or.inl h

/-- The execution holds the lock of the job it runs. -/
structure Thread.Holds (th : Thread) (job : JobRef) : Prop where
  kind : th.kind = .deliver job
  holds : th.facts.holds = true

theorem Thread.Holds.holding {job : JobRef} (h : th.Holds job) : th.holding = some job.text := by
  simp [Thread.holding, h.kind, h.holds]

theorem Thread.holding_eq_some {x : IdText} (h : th.holding = some x) :
    ∃ job, th.Holds job ∧ job.text = x := by
  unfold Thread.holding at h
  split at h
  · rename_i job hk
    split at h
    · rename_i hh
      exact ⟨job, ⟨hk, hh⟩, Option.some.inj h⟩
    · cases h
  · cases h

theorem Thread.Holds.before (hs : s.Ok) (h : step env s l = some s') (hu : s'.live? u = some th')
    {job : JobRef} (hh : th'.Holds job) :
    (∃ th, s.live? u = some th ∧ th.Holds job) ∨
      ∃ c th, l = .op u c ∧ s.live? u = some th ∧ th.kind = .deliver job ∧
        th.locking = some job.text := by
  cases step_arises h hu with
  | @called c th e r k w m hl hadv hth =>
    subst hth
    have hk : th.kind = .deliver job := hh.kind
    rcases Facts.next_holds r hh.holds with hold | ⟨x, token, ttl, rfl⟩
    · exact Or.inl ⟨th, hadv.live, hk, hold⟩
    · obtain ⟨job', hk', rfl, -⟩ := (hs.threads u th hadv.live).permits hadv.prog
      cases hk.symm.trans hk'
      exact Or.inr ⟨c, th, hl, hadv.live, hk, by simp [Thread.locking, hadv.prog]⟩
  | @kept th _ hlive hkept =>
    have hf : th'.facts = th.facts := congrArg WebhookEngine.facts hkept.trace
    exact Or.inl ⟨th, hlive, hkept.kind.symm.trans hh.kind, hf ▸ hh.holds⟩
  | fresh hlen hstart hth =>
    subst hth
    exact absurd hh.holds Bool.false_ne_true

/-- The holders of a delivery write its id alike. -/
def HeldAlike (s : State) : Prop :=
  ∀ t u th th' job job', s.live? t = some th → s.live? u = some th' → th.Holds job →
    th'.Holds job' → job.deliveryId = job'.deliveryId → job.text = job'.text

theorem HeldAlike.step (hs : s.Ok) (hl : SpeltAlike s l) (h : step env s l = some s')
    (hI : HeldAlike s) : HeldAlike s' := by
  -- one of two holders has just asked for its lock, the other one has held its own
  have hasked : ∀ {t u : Tid} {c : Choice} {th th' : Thread} {job job' : JobRef}, l = .op t c →
      s.live? t = some th → th.locking = some job.text → s.live? u = some th' → th'.Holds job' →
        job'.deliveryId = job.deliveryId → job'.text = job.text := by
    rintro t u c th th' job job' rfl ht hlock hu hh hd
    refine hl job.text ?_ u (State.live?_lt hu) job'.text ?_ hd
    · rw [ht]
      exact hlock
    · rw [hu]
      exact hh.holding
  intro t u th th' job job' ht hu hh hh' hd
  rcases hh.before hs h ht with ⟨x, hx, hhx⟩ | ⟨c, x, hop, hx, hkx, hlock⟩
  · rcases hh'.before hs h hu with ⟨y, hy, hhy⟩ | ⟨c', y, hop', hy, hky, hlock'⟩
    · exact hI t u x y job job' hx hy hhx hhy hd
    · exact hasked hop' hy hlock' hx hhx hd
  · rcases hh'.before hs h hu with ⟨y, hy, hhy⟩ | ⟨c', y, hop', hy, hky, hlock'⟩
    · exact (hasked hop hx hlock hy hhy hd.symm).symm
    · cases hop.symm.trans hop'
      cases hx.symm.trans hy
      cases hkx.symm.trans hky
      rfl

theorem reachable_heldAlike (h : Reachable env OneLock s) : HeldAlike s := by
  have hinv : s.Ok ∧ HeldAlike s := by
    refine h.invariant (I := fun s => s.Ok ∧ HeldAlike s) ⟨ok_init, ?_⟩ ?_
    · intro t u th th' job job' ht
      simp [State.live?] at ht
    · rintro s l s' ⟨hs, hI⟩ hl hstep
      exact ⟨hs.step hstep, hI.step hs hl.2 hstep⟩
  exact hinv.2

/-! ## Quiet processors -/

/-- An execution with these facts neither sends nor writes until it reads the row again. -/
def Facts.Quiet (m : Facts) : Prop := ∀ r, ¬ m.Working r

theorem Facts.nextSql_spent {m : Facts} {q : Sql} (r : Except Err q.Ret) (h : m.spent = true) :
    (m.nextSql q r).spent = true := by
  cases q with
  | commit =>
    cases r with
    | error x => rfl
    | ok x =>
      change (m.spent || _) = true
      rw [h]
      rfl
  | write st =>
    match r with
    | .error x => exact h
    | .ok none => exact h
    | .ok (some g) => exact h
  | _ => cases r <;> exact h

theorem Facts.next_spent {m : Facts} {e : Eff} (r : e.Resp) (h : m.spent = true) :
    (m.next e r).spent = true := by
  cases e with
  | sql q => exact Facts.nextSql_spent r h
  | redis c =>
    cases c with
    | setLock d token ttl => cases r <;> exact h
    | _ => exact h
  | queueAdd id d =>
    cases r with
    | error x => rfl
    | ok x => exact h
  | _ => exact h

/-- While its delivery is DELIVERED or DLQ, a processor stays quiet. -/
theorem Advance.quiet {c : Choice} {e : Eff} {r : e.Resp} {k : e.Resp → Code Reply} {w : World}
    {m : Memory} (h : Advance s s' t c th e r k w m) (hs : s.Ok) {job : JobRef}
    (hk : th.kind = .deliver job) {st : Status} (hst : s.pg.db.status? job.deliveryId = some st)
    (hterm : st.terminal = true) (hq : th.facts.Quiet) : (th.facts.next e r).Quiet := by
  have hok := hs.threads t th h.live
  intro x hw
  rcases h.row hs with hrow | ⟨job', hk', -, hrow, -⟩
  · rcases Facts.next_holds r hw.holds with hh | ⟨d, token, ttl, rfl⟩
    · refine hq x ⟨hh, hrow.symm.trans hw.row, hw.open_, ?_⟩
      by_contra hsp
      have := hw.unspent
      rw [Facts.next_spent r (by simpa using hsp)] at this
      cases this
    · obtain ⟨-, -, -, -, hnone, -⟩ := hok.permits h.prog
      have := hrow.symm.trans hw.row
      rw [hnone] at this
      cases this
  · have hjob : job' = job := by
      rw [hk] at hk'
      rcases hk' with hk' | hk' <;> cases hk'
      rfl
    subst hjob
    obtain ⟨row, hdel, hst', -⟩ := Db.forDelivery_isSome (hrow.symm.trans hw.row)
    have hrst : row.status = st := by simpa [Db.status?, hdel] using hst
    have hopen := hw.open_
    rw [hst', hrst, hterm] at hopen
    cases hopen

/-- All processors of the delivery are quiet. -/
def Hushed (s : State) (d : DeliveryId) : Prop :=
  ∀ t th job, s.live? t = some th → th.kind = .deliver job → job.deliveryId = d → th.facts.Quiet

theorem quiet_step (hs : s.Ok) (h : step env s l = some s') {st : Status}
    (hst : s.pg.db.status? d = some st) (hterm : st.terminal = true) (hq : Hushed s d) :
    Hushed s' d := by
  intro u th' job hu hk hd
  cases step_arises h hu with
  | called _ hadv hth =>
    subst hth
    exact hadv.quiet hs hk (hd ▸ hst) hterm (hq u _ job hadv.live hk hd)
  | @kept th _ hlive hkept =>
    have hf : th'.facts = th.facts := congrArg WebhookEngine.facts hkept.trace
    rw [hf]
    exact hq u th job hlive (hkept.kind ▸ hk) hd
  | fresh hlen hstart hth =>
    subst hth
    intro r hw
    exact Bool.false_ne_true hw.holds

/-! ## The COMMIT of DELIVERED -/

theorem Facts.nextSql_commit_spent {m : Facts} (r : Except Err Unit)
    (h : m.txHas Stmt.isRecord = true) : (m.nextSql .commit r).spent = true := by
  cases r with
  | error x => rfl
  | ok x =>
    change (m.spent || m.txHas Stmt.isRecord) = true
    rw [h, Bool.or_true]

/-- The processors of a DELIVERED delivery are quiet. -/
def Delivered.Hushes (s : State) : Prop := ∀ d, s.pg.db.status? d = some .delivered → Hushed s d

theorem Delivered.Hushes.step (hr : Reachable env OneLock s) (hl : LockKept s l)
    (h : step env s l = some s') (hI : Delivered.Hushes s) : Delivered.Hushes s' := by
  intro d hd
  have hs := reachable_ok hr
  by_cases hd₀ : s.pg.db.status? d = some .delivered
  · exact quiet_step hs h hd₀ rfl (hI d hd₀)
  rcases story hs h d with h' | ⟨D, τ, hD, h'⟩ | ⟨t, c, th, r, k, w, m, rfl, hadv, hc⟩
  · exact absurd ((Db.status?_of_dossier? h').symm.trans hd) hd₀
  · rw [Db.status?_eq h'] at hd
    exact absurd ((Db.status?_eq hD).trans hd) hd₀
  have hcall := kind_ne_call OneLock.noCalls hr hadv.live
  have hdos : ∃ D', s'.pg.db.dossier? d = some D' ∧ D'.row.status = .delivered := by
    obtain ⟨row, hrow, hst⟩ := Option.map_eq_some_iff.mp hd
    exact ⟨⟨row, s'.pg.db.log d, s'.pg.db.attemptsOf d⟩, by simp [Db.dossier?, hrow], hst⟩
  obtain ⟨D', hD', hst⟩ := hdos
  rw [hD'] at hc
  generalize s.pg.db.dossier? d = o at hc
  cases hc with
  | created => cases hst
  | moved hmv hid hm reason τ τ' => exact absurd hst (hmv.to hcall).1
  | @recorded D a f g next hrec ha hnew id hid gen hm reason τ τ' =>
    obtain ⟨job, x, hk, hjob, hw, -⟩ := hrec.number hcall
    intro u th' job' hu hk' hd'
    by_cases hut : u = t
    · subst hut
      rw [hadv.live?_self] at hu
      cases hu
      have hspent : (th.facts.nextSql .commit r).spent = true :=
        Facts.nextSql_commit_spent r (Facts.txHas_of_mem hm rfl)
      intro x' hw'
      have := hw'.unspent
      rw [Thread.facts_after] at this
      exact Bool.false_ne_true (this.symm.trans hspent)
    · rw [hadv.live?_other hut] at hu
      intro x' hw'
      have hsame : job'.deliveryId = job.deliveryId := hd'.trans (ha.symm.trans hjob.symm)
      have htext := reachable_heldAlike hr u t th' th job' job hu hadv.live ⟨hk', hw'.holds⟩
        ⟨hk, hw.holds⟩ hsame
      exact hut (hl.unique hu hadv.live hk' hk htext hw'.holds hw.holds)

theorem reachable_hushed (h : Reachable env OneLock s) : Delivered.Hushes s := by
  have hinv : Reachable env OneLock s ∧ Delivered.Hushes s := by
    obtain ⟨ls, h⟩ := h
    refine h.invariant (I := fun s => Reachable env OneLock s ∧ Delivered.Hushes s) ?_ ⟨.refl _, ?_⟩
    · rintro s l s' ⟨hr, hI⟩ hl hstep
      exact ⟨hr.snoc hl hstep, hI.step hr hl.1.2 hstep⟩
    · intro d hd
      cases hd
  exact hinv.2

/-! ## Until the manual retry -/

/-- The manual retries of a delivery so far. -/
def Db.retries (db : Db) (d : DeliveryId) : ℕ :=
  (db.log d).countP fun tr => tr.triple = (some .dlq, .pending, .manualRetry)

theorem retries_step (hs : s.Ok) (h : step env s l = some s') (d : DeliveryId) :
    s.pg.db.retries d ≤ s'.pg.db.retries d := by
  obtain ⟨new, hnew⟩ := story_log hs h d
  rw [Db.retries, Db.retries, ← hnew, List.countP_append]
  exact Nat.le_add_right _ _

theorem retries_run {C : State → Label → Prop} {ls : List Label} {v : State}
    (h : Run (step env) C s ls v) (hs : s.Ok) (d : DeliveryId) :
    s.pg.db.retries d ≤ v.pg.db.retries d := by
  induction h with
  | nil => exact Nat.le_refl _
  | cons hC hstep _ ih => exact Nat.le_trans (retries_step hs hstep d) (ih (hs.step hstep))

/-- The delivery is DELIVERED or DLQ and its processors are quiet. -/
structure Closed (s : State) (d : DeliveryId) : Prop where
  status : s.pg.db.status? d = some .delivered ∨ s.pg.db.status? d = some .dlq
  hushed : Hushed s d

theorem closed_step (hr : Reachable env OneLock s) (h : step env s l = some s')
    (hretry : s'.pg.db.retries d = s.pg.db.retries d) (hI : Closed s d) : Closed s' d := by
  have hs := reachable_ok hr
  refine ⟨?_, ?_⟩
  · rcases story hs h d with h' | ⟨D, τ, hD, h'⟩ | ⟨t, c, th, r, k, w, m, rfl, hadv, hc⟩
    · rw [Db.status?_of_dossier? h']
      exact hI.status
    · have hsame : s'.pg.db.status? d = s.pg.db.status? d := by
        rw [Db.status?_eq h', Db.status?_eq hD]
        rfl
      rw [hsame]
      exact hI.status
    have hcall := kind_ne_call OneLock.noCalls hr hadv.live
    have hquiet : ∀ job x, th.kind = .deliver job → job.deliveryId = d → ¬ th.facts.Working x :=
      fun job x hk hd => hI.hushed t th job hadv.live hk hd x
    cases hD : s.pg.db.dossier? d with
    | none =>
      have hnone : s.pg.db.status? d = none := by
        rw [Db.status?, Db.dossier?_none.mp hD]
        rfl
      rcases hI.status with hst | hst <;> cases hnone.symm.trans hst
    | some D =>
      obtain ⟨D', hD'⟩ := story_isSome hs h hD
      rw [hD, hD'] at hc
      rw [Db.status?_eq hD']
      cases hc with
      | @moved _ f g a hmv id hid gen hm reason τ τ' =>
        generalize hkind : th.kind = kd at hmv
        cases hmv with
        | mark hw hmoved => exact absurd hw (hquiet _ _ hkind rfl)
        | exhaust hrow hs' hmoved hsp => exact Or.inr rfl
        | retry hk hs' hmoved hsp =>
          have hlog : s'.pg.db.log d = s.pg.db.log d ++
              [⟨id, D.row.id, some .dlq, .pending, reason, .manualRetry, τ'⟩] := by
            rw [← (Db.dossier?_eq_some.mp hD').2.1, ← (Db.dossier?_eq_some.mp hD).2.1]
            rfl
          rw [Db.retries, hlog, List.countP_append, Db.retries] at hretry
          simp [TransitionRow.triple] at hretry
        | call => exact absurd hkind (hcall _)
      | recorded hrec ha hnew hid hm reason τ τ' =>
        obtain ⟨job, x, hk, hjob, hw, -⟩ := hrec.number hcall
        exact absurd hw (hquiet job x hk (hjob.trans ha))
  · rcases hI.status with hst | hst
    · exact quiet_step hs h hst rfl hI.hushed
    · exact quiet_step hs h hst rfl hI.hushed

theorem closed_run {ls : List Label} {v : State} (h : Run (step env) OneLock s ls v)
    (hr : Reachable env OneLock s) (hretry : v.pg.db.retries d = s.pg.db.retries d)
    (hI : Closed s d) : Closed v d := by
  induction h with
  | nil => exact hI
  | @cons s s₁ v l ls hC hstep h ih =>
    have hr₁ : Reachable env OneLock s₁ := hr.snoc hC hstep
    have hle := retries_step (reachable_ok hr) hstep d
    have hle' := retries_run h (reachable_ok hr₁) d
    have hsame : s₁.pg.db.retries d = s.pg.db.retries d := by omega
    exact ih hr₁ (hretry.trans hsame.symm) (closed_step hr hstep hsame hI)

/-- **With one lock for each delivery no request for it is started after a COMMIT of DELIVERED**, unless
a manual retry moved it from DLQ to PENDING in between. -/
theorem no_request_after_delivered (h : Reachable env OneLock s)
    (hd : s.pg.db.status? d = some .delivered) {ls : List Label} {v : State}
    (hrun : Run (step env) OneLock s ls v) (hretry : v.pg.db.retries d = s.pg.db.retries d)
    (ht : v.live? t = some th) {req : HttpRequest} (hreq : th.sending = some req) :
    ∃ job, th.kind = .deliver job ∧ req.isFor job.deliveryId ∧ job.deliveryId ≠ d := by
  have hclosed : Closed v d := closed_run hrun h hretry ⟨Or.inl hd, reachable_hushed h d hd⟩
  have hv : Reachable env OneLock v := h.run hrun
  obtain ⟨k, hp⟩ := Thread.sending_eq_some hreq
  obtain ⟨job, r, hk, hw, -, -, hfor⟩ := ((reachable_ok hv).threads t th ht).permits hp
  exact ⟨job, hk, hfor, fun hjob => hclosed.hushed t th job ht hk hjob r hw⟩

/-- After a delivery, a second job for it and a worker that is about to send another delivery. -/
def sampleSecond : List Label :=
  [.operatorAdd (.retry 2 0) 2, .pickup (.retry 2 0)] ++ calls 2 3 ++
    .request (.postEvent ⟨some "key 2", 0, 0, "type", "payload"⟩) :: calls 3 12 ++
      .pickup (.delivery 4) :: calls 4 14

theorem no_request_after_delivered_second : ∃ s v ls th req, Reachable sampleEnv OneLock s ∧
    s.pg.db.status? 2 = some .delivered ∧ Run (step sampleEnv) OneLock s ls v ∧
      v.live? 4 = some th ∧ th.sending = some req ∧
        ∃ job, th.kind = .deliver job ∧ req.isFor job.deliveryId ∧ job.deliveryId ≠ 2 := by
  obtain ⟨s, hreach, hs⟩ := sample_run (C := OneLock) (sampleIngest ++ sampleDelivery 1)
    (fun s => s.pg.db.status? 2 = some .delivered ∧ s.pg.db.retries 2 = 0 ∧
      (runOf (step sampleEnv) OneLock s sampleSecond).any fun v =>
        v.pg.db.retries 2 = 0 ∧ ((v.live? 4).bind Thread.sending).isSome) (by decide +kernel)
  obtain ⟨hst, hzero, hrun⟩ := of_decide_eq_true hs
  obtain ⟨v, hrun, hv⟩ := exists_run hrun
  obtain ⟨hzero', hsend⟩ := of_decide_eq_true hv
  obtain ⟨req, hsend⟩ := Option.isSome_iff_exists.mp hsend
  obtain ⟨th, ht, hsend⟩ := Option.bind_eq_some_iff.mp hsend
  exact ⟨s, v, _, th, req, hreach, hst, hrun, ht, hsend,
    no_request_after_delivered hreach hst hrun (hzero'.trans hzero.symm) ht hsend⟩

/-- The API dies before it records that it enqueued the delivery, whose job is exhausted. Then Redis is
lost, the delivery is retried under another text of its id, and a sweep adds its original job again. -/
def sampleRespelt : List Label :=
  [.createEndpoint "client" "url" "secret",
    .request (.postEvent ⟨some "key", 0, 0, "type", "payload"⟩)] ++ calls 0 11 ++ [.crash 0] ++
    sampleFailure 1 ++ sampleFailure 3 ++ sampleFailure 5 ++ sampleFailure 7 ++ sampleFailure 9 ++
    calls 10 9 ++ [.redisLoss, .request (.postRetry ⟨2, 1⟩)] ++ calls 11 8 ++ sampleSweep 12 ++
    calls 12 1

theorem request_after_delivered : ¬ ∀ s, Reachable sampleEnv Locked s → ∀ d,
    s.pg.db.status? d = some .delivered → ∀ ls v, Run (step sampleEnv) Locked s ls v →
      v.pg.db.retries d = s.pg.db.retries d → ∀ t th req, v.live? t = some th →
        th.sending = some req →
          ∃ job, th.kind = .deliver job ∧ req.isFor job.deliveryId ∧ job.deliveryId ≠ d := by
  intro h
  -- both jobs are picked up; the second worker has delivered when the first one is about to send
  obtain ⟨s, hreach, hs⟩ := sample_run (C := Locked)
    (sampleRespelt ++ .pickup (.retry ⟨2, 1⟩ 0) :: calls 13 14 ++ .pickup (.delivery 2) :: calls 14 28)
    (fun s => s.pg.db.status? 2 = some .delivered ∧ (s.live? 13).any fun th =>
      th.sending.isSome && decide (th.holding = some ⟨2, 1⟩)) (by decide +kernel)
  obtain ⟨hst, hth⟩ := of_decide_eq_true hs
  obtain ⟨th, ht, hth⟩ := (Option.any_eq_true _ _).mp hth
  obtain ⟨hsend, hhold⟩ := Bool.and_eq_true_iff.mp hth
  obtain ⟨req, hsend⟩ := Option.isSome_iff_exists.mp hsend
  obtain ⟨job, hk, -, hne⟩ := h s hreach 2 hst [] s (.nil s) rfl 13 th req ht hsend
  obtain ⟨job', hh, htext⟩ := Thread.holding_eq_some (of_decide_eq_true hhold)
  cases hk.symm.trans hh.kind
  exact hne (congrArg IdText.id htext)

end WebhookEngine
