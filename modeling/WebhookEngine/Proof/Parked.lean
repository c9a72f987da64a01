import WebhookEngine.Proof.Handler
import WebhookEngine.Proof.LiveJobs

set_option autoImplicit false

/-!
# The dead-letter queue

* `Parks`: no COMMIT takes a delivery out of DLQ, and nothing comes between the COMMIT of a handler and
  its `add`.
* **`dlq_mirrored`**: under `Parks` the queue `webhook-dlq` is the set of the deliveries in DLQ.
-/

namespace WebhookEngine

open EffectProg TransitionSystem

variable {env : Env} {s s' : State} {t u : Tid} {th th' : Thread} {l : Label} {d : DeliveryId}
  {job : JobRef} {x : IdText}

/-! ## Into DLQ -/

theorem AttemptOutcome.toStatus_ne_dlq (o : AttemptOutcome) : o.toStatus ≠ .dlq := by
  cases o <;> decide

/-- Only the handler of one of its jobs brings a delivery to DLQ. -/
theorem Change.exhausted {k : Kind} {m : Facts} {o : Option Dossier} {D' : Dossier}
    (hc : Change k m d o (some D')) (hk : ∀ c, k ≠ .repoCall c) (h : D'.row.status = .dlq) :
    ∃ job, k = .failed job ∧ job.deliveryId = d := by
  cases hc with
  | created => cases h
  | recorded hrec => exact absurd ((hrec.to hk).symm.trans h) (AttemptOutcome.toStatus_ne_dlq _)
  | moved hmv =>
    cases hmv with
    | mark => cases h
    | exhaust => exact ⟨_, rfl, rfl⟩
    | retry => cases h
    | call => exact absurd rfl (hk _)

/-! ## The condition -/

/-- The job whose failure the execution handles. -/
def Kind.handled : Kind → Option JobRef
  | .failed job => some job
  | _ => none

/-- The text under which the execution is about to add a delivery to `webhook-dlq`. -/
def Thread.parking (th : Thread) : Option IdText :=
  match th.prog with
  | .op (.dlqAdd x) _ => some x
  | _ => none

/-- A COMMIT of this execution takes no delivery out of DLQ. -/
def Thread.leavesDlq (th : Thread) (db : Db) : Bool :=
  th.settings.any fun x => x.2 ≠ .dlq ∧ db.status? x.1 = some .dlq

/-- The condition: `webhook-dlq` is not lost; no COMMIT that takes effect takes a delivery out of DLQ;
the COMMIT of a handler does not take effect without being answered; and the handler neither dies
before its `add` nor does the `add` throw before it takes effect. -/
def Parks (s : State) (l : Label) : Prop :=
  NoCalls s l ∧ match l with
    | .redisLoss => False
    | .crash t => ∀ th ∈ s.live? t, th.parking = none
    | .op t c => ∀ th ∈ s.live? t, (th.parking ≠ none → c.fault ≠ .before) ∧
        (th.committing = true → (th.kind.handled ≠ none → c.fault ≠ .after) ∧
          (c.fault ≠ .before → th.leavesDlq s.pg.db = false))
    | _ => True

instance (s : State) (l : Label) : Decidable (Parks s l) :=
  match l with
  | .redisLoss => inferInstanceAs (Decidable (_ ∧ False))
  | .crash t => inferInstanceAs (Decidable (_ ∧ ∀ th ∈ s.live? t, th.parking = none))
  | .op t _ => inferInstanceAs (Decidable (_ ∧ ∀ th ∈ s.live? t, _))
  | .tick _ | .settle _ | .operatorAdd _ _ | .extend _ | .extendReply _ | .request _ | .pickup _
  | .stall _ | .stallFail _ | .removeCompleted _ | .evict _ | .idemArrive _ | .createEndpoint _ _ _
  | .patchEndpoint _ _ _ => inferInstanceAs (Decidable (_ ∧ True))

/-! ## Into DLQ and out of it -/

theorem Advance.takes_effect {c : Choice} {r : Except Err Unit} {k : Except Err Unit → Code Reply}
    {w : World} {m : Memory} (h : Advance s s' t c th (.sql .commit) r k w m) (hs : s.Ok)
    (hne : s'.pg.db.status? d ≠ s.pg.db.status? d) : c.fault ≠ .before := by
  obtain ⟨tx, htx, -⟩ := (hs.threads t th h.live).permits h.prog
  obtain ⟨-, ws, -, hdb⟩ := h.commits hs htx
  intro hf
  rw [hdb, if_pos hf] at hne
  exact hne rfl

theorem dlq_stays (hr : Reachable env Parks s) (hl : Parks s l) (h : step env s l = some s')
    (hst : s.pg.db.status? d = some .dlq) : s'.pg.db.status? d = some .dlq := by
  have hs := reachable_ok hr
  by_contra hne
  have hchanged : s'.pg.db.status? d ≠ s.pg.db.status? d := fun h => hne (h.trans hst)
  rcases story hs h d with h' | ⟨D, τ, hD, h'⟩ | ⟨t, c, th, r, k, w, m, rfl, hadv, hc⟩
  · exact hchanged (Db.status?_of_dossier? h')
  · exact hchanged (by rw [Db.status?_eq h', Db.status?_eq hD]; rfl)
  · obtain ⟨row, hrow⟩ := Option.isSome_iff_exists.mp (Db.status?_isSome hst)
    have hD : s.pg.db.dossier? d = some ⟨row, s.pg.db.log d, s.pg.db.attemptsOf d⟩ := by
      simp [Db.dossier?, hrow]
    obtain ⟨D', hD'⟩ := story_isSome hs h hD
    rw [hD, hD'] at hc
    have hsets := hc.sets hs hadv.committing (kind_ne_call (fun _ _ h => h.1) hr hadv.live)
    have hkeep := ((hl.2 th hadv.live).2 (Thread.committing_iff.mpr ⟨k, hadv.prog⟩)).2
      (hadv.takes_effect hs hchanged)
    rw [Db.status?_eq hD'] at hne
    refine absurd hkeep (Bool.not_eq_false _ ▸ List.any_eq_true.mpr ⟨_, hsets, ?_⟩)
    exact decide_eq_true ⟨fun h => hne (congrArg some h), hst⟩

/-- A delivery comes to DLQ through the handler of one of its jobs, which then adds it to
`webhook-dlq`. -/
theorem came_to_dlq (hr : Reachable env Parks s) (hl : Parks s l) (h : step env s l = some s')
    (hst : s.pg.db.status? d ≠ some .dlq) (hst' : s'.pg.db.status? d = some .dlq) :
    ∃ t th job r, s'.live? t = some th ∧ th.kind = .failed job ∧ job.deliveryId = d ∧
      th.AtTurn job.text (.park r) := by
  have hs := reachable_ok hr
  have hchanged : s'.pg.db.status? d ≠ s.pg.db.status? d := fun h => hst (h.symm.trans hst')
  rcases story hs h d with h' | ⟨D, τ, hD, h'⟩ | ⟨t, c, th, r, k, w, m, rfl, hadv, hc⟩
  · exact absurd (Db.status?_of_dossier? h') hchanged
  · exact absurd (by rw [Db.status?_eq h', Db.status?_eq hD]; rfl) hchanged
  · have hcall := kind_ne_call (fun _ _ h => h.1) hr hadv.live
    cases hD' : s'.pg.db.dossier? d with
    | none =>
      rw [Db.status?, Db.dossier?_none.mp hD'] at hst'
      cases hst'
    | some D' =>
      rw [Db.status?_eq hD'] at hst'
      have hdlq := Option.some.inj hst'
      rw [hD'] at hc
      obtain ⟨job, hk, rfl⟩ := hc.exhausted hcall hdlq
      obtain ⟨st, hturn⟩ := reachable_handling hr t th hadv.live job hk
      obtain ⟨f, hf, hnext⟩ := hadv.turn hs hturn
      obtain ⟨x, rfl, rfl⟩ := HandlerStage.next_commit hf
      obtain ⟨-, g, g', htx⟩ := hturn.knows
      have hanswered := ((hl.2 th hadv.live).2 (Thread.committing_iff.mpr ⟨k, hadv.prog⟩)).1
        (by rw [hk]; exact fun h => by cases h)
      have heffect := hadv.takes_effect hs hchanged
      have hnone : c.fault = .none := by
        cases hf : c.fault with
        | none => rfl
        | before => exact absurd hf heffect
        | after => exact absurd hf hanswered
      have hans := (hadv.commits hs htx).1
      rw [hnone] at hans
      subst hans
      exact ⟨t, _, job, x, hadv.live?_self, hk, rfl, hnext⟩

/-! ## The queue -/

/-- The deliveries `webhook-dlq` has a job for. -/
def World.inDlqQueue (w : World) : List DeliveryId := w.dlqJobs.map (·.id)

theorem step_dlqJobs (h : step env s l = some s') (hl : l ≠ .redisLoss) :
    s'.inDlqQueue = s.inDlqQueue ∨
      ∃ t c th x r k w m, l = .op t c ∧ Advance s s' t c th (.dlqAdd x) r k w m := by
  have hsame : s'.dlqJobs = s.dlqJobs → s'.inDlqQueue = s.inDlqQueue :=
    congrArg (List.map IdText.id)
  cases step_happens h with
  | @op t c th e r k w m _ hadv =>
    cases e with
    | dlqAdd x => exact Or.inr ⟨t, c, th, x, r, k, w, m, rfl, hadv⟩
    | sql q =>
      obtain ⟨pg', sess', -, hw, -⟩ := perform_sql hadv.done
      exact Or.inl (hsame (by rw [hadv.world, hw]))
    | moveToDelayed id u =>
      have hdone := hadv.done
      simp only [perform, World.moveToDelayed] at hdone
      refine Or.inl ?_
      rw [hadv.world]
      split at hdone <;> cases hdone <;> rfl
    | _ =>
      have hdone := hadv.done
      cases hdone
      exact Or.inl (hsame (by rw [hadv.world]))
  | settle _ _ h => cases h <;> exact Or.inl rfl
  | redisLoss => exact absurd rfl hl
  | _ => exact Or.inl rfl

theorem Advance.parks {c : Choice} {r : Except Err Unit} {k : Except Err Unit → Code Reply}
    {w : World} {m : Memory} (h : Advance s s' t c th (.dlqAdd x) r k w m) (hf : c.fault ≠ .before) :
    s'.pg = s.pg ∧ ∀ d, d ∈ s'.inDlqQueue ↔ d ∈ s.inDlqQueue ∨ d = x.id := by
  have hdone := h.done
  simp only [perform, Fault.run, if_neg hf] at hdone
  cases hdone
  rw [h.world]
  refine ⟨rfl, fun d => ?_⟩
  unfold World.inDlqQueue
  by_cases hx : x ∈ s.dlqJobs
  · rw [if_pos hx]
    exact ⟨Or.inl, fun h => h.elim id fun hd => hd ▸ List.mem_map_of_mem hx⟩
  · rw [if_neg hx, List.map_append, List.mem_append, List.map_singleton, List.mem_singleton]

/-- A handler on its way to `add`. -/
def State.parks (s : State) (d : DeliveryId) : Prop :=
  ∃ t th job r, s.live? t = some th ∧ th.kind = .failed job ∧ job.deliveryId = d ∧
    th.AtTurn job.text (.park r)

/-- The queue holds the deliveries in DLQ but for those a handler is about to add. -/
structure Parked (s : State) : Prop where
  listed : ∀ d ∈ s.inDlqQueue, s.pg.db.status? d = some .dlq
  parked : ∀ d, s.pg.db.status? d = some .dlq → d ∈ s.inDlqQueue ∨ s.parks d
  parking : ∀ d, s.parks d → s.pg.db.status? d = some .dlq

theorem Thread.AtTurn.parking {r : DeliveryForWorker} (h : th.AtTurn x (.park r)) :
    th.parking = some x := by
  rw [Thread.parking, h.prog]
  rfl

theorem parks_step (h : step env s l = some s') (hl : Parks s l) (hp : s.parks d) :
    s'.parks d ∨ d ∈ s'.inDlqQueue := by
  obtain ⟨t, th, job, r, ht, hk, hd, hturn⟩ := hp
  have hop : ∃ k, th.prog = .op (.dlqAdd job.text) k := ⟨_, hturn.prog⟩
  by_cases hown : ∃ c, l = .op t c
  · obtain ⟨c, rfl⟩ := hown
    obtain ⟨th₀, e, r₀, k, w, m, hadv⟩ := stepOp_cases h
    obtain rfl := Option.some.inj (hadv.live.symm.trans ht)
    obtain ⟨k', hk'⟩ := hop
    cases hadv.prog.symm.trans hk'
    have hf := (hl.2 th₀ hadv.live).1 (by rw [hturn.parking]; nofun)
    exact Or.inr (((hadv.parks hf).2 d).mpr (Or.inr hd.symm))
  · have hsettle : l ≠ .settle t := by
      rintro rfl
      obtain ⟨th₀, hlive, hover, -⟩ := settle_cases h
      obtain rfl := Option.some.inj (hlive.symm.trans ht)
      obtain ⟨k, hk'⟩ := hop
      exact hover _ _ hk'
    have hcrash : l ≠ .crash t := by
      rintro rfl
      cases (hl.2 th ht).symm.trans hturn.parking
    obtain ⟨th', ht', hk'⟩ := step_survives h ht hsettle hcrash
    refine Or.inl ⟨t, th', job, r, ht', hk'.trans hk, hd, ?_⟩
    cases step_arises h ht' with
    | called hl' => exact absurd ⟨_, hl'⟩ hown
    | kept _ hlive hkept =>
      obtain rfl := Option.some.inj (hlive.symm.trans ht)
      exact hkept.atTurn hturn
    | fresh hlen => exact absurd (State.live?_lt ht) (Nat.not_lt.mpr hlen)

theorem HandlerStage.prog_park {st : HandlerStage} {k : Except Err Unit → Code Reply}
    {y : IdText} (h : st.prog x = .op (.dlqAdd y) k) : ∃ r, st = .park r := by
  cases st with
  | park r => exact ⟨r, rfl⟩
  | _ => cases h

theorem HandlerStage.next_park {st : HandlerStage} {e : Eff} {f : e.Resp → HandlerStage}
    {r : e.Resp} {y : DeliveryForWorker} (h : st.next x = some ⟨e, f⟩) (hr : f r = .park y) :
    st = .commit y ∧ e = .sql .commit := by
  cases st with
  | commit z =>
    cases h
    cases r with
    | ok _ =>
      cases hr
      exact ⟨rfl, rfl⟩
    | error _ => cases hr
  | read =>
    cases h
    rcases r with _ | _ | z
    · cases hr
    · cases hr
    · change (if z.status = .dlq then HandlerStage.finished else .connect z) = _ at hr
      split at hr <;> cases hr
  | finished => cases h
  | rollback z err | alert z last =>
    cases h
    cases hr
  | _ =>
    cases h
    cases r <;> cases hr

/-- A handler about to `add` has been there before, or has just committed. -/
theorem parks_back (hr : Reachable env Parks s) (hl : Parks s l) (h : step env s l = some s')
    (hp : s'.parks d) : s.parks d ∨ s'.pg.db.status? d = some .dlq := by
  have hs := reachable_ok hr
  obtain ⟨t, th', job, r, ht', hk', rfl, hturn'⟩ := hp
  cases step_arises h ht' with
  | @called c th e r₀ k w m hl' hadv hth =>
    subst hl' hth
    have hk : th.kind = .failed job := hk'
    obtain ⟨st, hturn⟩ := reachable_handling hr t th hadv.live job hk
    obtain ⟨f, hf, hnext⟩ := hadv.turn hs hturn
    obtain ⟨x, hx⟩ := HandlerStage.prog_park (hnext.prog.symm.trans hturn'.prog)
    obtain ⟨rfl, rfl⟩ := HandlerStage.next_park hf hx
    refine Or.inr (hadv.handler_commits hs hk hturn.knows fun hb => ?_).1
    obtain ⟨-, g, g', htx⟩ := hturn.knows
    have hans := (hadv.commits hs htx).1
    rw [hb] at hans
    subst hans
    cases hf
    cases hx
  | kept _ hlive hkept =>
    refine Or.inl ⟨t, _, job, r, hlive, hkept.kind.symm.trans hk', rfl, ?_, ?_⟩
    · exact hkept.prog.symm.trans hturn'.prog
    · have := hturn'.knows
      rwa [Thread.facts, hkept.trace] at this
  | fresh hlen hk hth =>
    subst hth
    cases hturn'.knows.moved

theorem Parked.step (hr : Reachable env Parks s) (hl : Parks s l) (h : step env s l = some s')
    (hI : Parked s) : Parked s' := by
  refine ⟨fun d hd => ?_, fun d hd => ?_, fun d hd => ?_⟩
  · by_cases hold : d ∈ s.inDlqQueue
    · exact dlq_stays hr hl h (hI.listed d hold)
    · rcases step_dlqJobs h (fun he => by subst he; exact hl.2) with h' | h'
      · exact absurd (h' ▸ hd) hold
      · obtain ⟨t, c, th, x, r, k, w, m, rfl, hadv⟩ := h'
        obtain ⟨job, hk, rfl, -⟩ := ((reachable_ok hr).threads t th hadv.live).permits hadv.prog
        have hparking : th.parking = some job.text := by rw [Thread.parking, hadv.prog]
        obtain ⟨hpg, hmem⟩ := hadv.parks ((hl.2 th hadv.live).1 (by rw [hparking]; nofun))
        obtain rfl := ((hmem d).mp hd).resolve_left hold
        obtain ⟨st, hturn⟩ := reachable_handling hr t th hadv.live job hk
        obtain ⟨y, rfl⟩ := HandlerStage.prog_park (hturn.prog.symm.trans hadv.prog)
        rw [hpg]
        exact hI.parking _ ⟨t, th, job, y, hadv.live, hk, rfl, hturn⟩
  · by_cases hst : s.pg.db.status? d = some .dlq
    · rcases hI.parked d hst with hold | hparks
      · refine Or.inl ?_
        rcases step_dlqJobs h (fun he => by subst he; exact hl.2) with h' | h'
        · exact h' ▸ hold
        · obtain ⟨t, c, th, x, r, k, w, m, rfl, hadv⟩ := h'
          obtain ⟨job, hk, rfl, -⟩ := ((reachable_ok hr).threads t th hadv.live).permits hadv.prog
          have hparking : th.parking = some job.text := by rw [Thread.parking, hadv.prog]
          have hmem := (hadv.parks ((hl.2 th hadv.live).1 (by rw [hparking]; nofun))).2
          exact (hmem d).mpr (Or.inl hold)
      · exact (parks_step h hl hparks).symm
    · obtain ⟨t, th, job, r, hp⟩ := came_to_dlq hr hl h hst hd
      exact Or.inr ⟨t, th, job, r, hp⟩
  · rcases parks_back hr hl h hd with hold | hnow
    · exact dlq_stays hr hl h (hI.parking d hold)
    · exact hnow

theorem reachable_parked (h : Reachable env Parks s) : Parked s := by
  have hinv : Reachable env Parks s ∧ Parked s := by
    obtain ⟨ls, h⟩ := h
    refine h.invariant (I := fun s => Reachable env Parks s ∧ Parked s) ?_
      ⟨.refl _, nofun, nofun, ?_⟩
    · rintro s l s' ⟨hr, hI⟩ hC hstep
      exact ⟨hr.snoc hC hstep, hI.step hr hC hstep⟩
    · rintro d ⟨t, th, job, r, ht, -⟩
      simp [State.live?] at ht
  exact hinv.2

/-! ## The mirror -/

/-- The execution handles a failed job or retries a delivery, and has a call to make. -/
def Thread.busy (th : Thread) : Bool :=
  match th.kind, th.prog with
  | .failed _, .op .. => true
  | .postRetry _, .op .. => true
  | _, _ => false

/-- No handler and no retry is in progress. -/
def State.quiet (s : State) : Bool := s.threads.all fun th => !(th.alive && th.busy)

theorem State.quiet.parks (h : s.quiet = true) : ¬ s.parks d := by
  rintro ⟨t, th, job, r, ht, hk, -, hturn⟩
  obtain ⟨hget, halive⟩ := State.live?_eq_some.mp ht
  have hnot := List.all_eq_true.mp h th (List.mem_of_getElem? hget)
  have hbusy : th.busy = true := by
    rw [Thread.busy, hk, hturn.prog]
    rfl
  rw [halive, hbusy] at hnot
  cases hnot

/-- **`webhook-dlq` holds the deliveries in DLQ.** -/
theorem dlq_mirrored (h : Reachable env Parks s) (hq : s.quiet = true) (d : DeliveryId) :
    d ∈ s.inDlqQueue ↔ s.pg.db.status? d = some .dlq :=
  ⟨(reachable_parked h).listed d, fun hd =>
    ((reachable_parked h).parked d hd).resolve_right (State.quiet.parks hq)⟩

theorem dlq_mirrored_delivery_two : ∃ s : State, s.dlqJobs = [2] ∧
    (2 ∈ s.inDlqQueue ↔ s.pg.db.status? 2 = some .dlq) := by
  obtain ⟨s, hreach, hs⟩ := sample_run (C := Parks) sampleDlq
    (fun s => s.dlqJobs = [2] ∧ s.quiet = true) (by decide +kernel)
  obtain ⟨hjobs, hq⟩ := of_decide_eq_true hs
  exact ⟨s, hjobs, dlq_mirrored hreach hq 2⟩

/-- A retried delivery stays in `webhook-dlq`. -/
theorem dlq_not_mirrored : ¬ ∀ s : State, Reachable sampleEnv KeepsJobs s → s.quiet = true →
    ∀ d, d ∈ s.inDlqQueue ↔ s.pg.db.status? d = some .dlq := by
  intro h
  obtain ⟨s, hreach, hs⟩ := sample_run (C := KeepsJobs)
    (sampleDlq ++ [.request (.postRetry 2)] ++ calls 11 8)
    (fun s => 2 ∈ s.inDlqQueue ∧ s.quiet = true ∧ s.pg.db.status? 2 = some .pending)
    (by decide +kernel)
  obtain ⟨hmem, hq, hst⟩ := of_decide_eq_true hs
  rw [h s hreach hq 2, hst] at hmem
  cases hmem

end WebhookEngine
