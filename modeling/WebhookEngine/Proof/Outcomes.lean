import WebhookEngine.Proof.AuditLog

set_option autoImplicit false

/-!
# Attempts and transitions

* `Lawful`: the calls an execution has made were all permitted; `lawful_exchange` reads from its facts
  the order in which they came.
* `Told`: as many DELIVERED rows as successes and as many FAILED rows as other attempts.
* **`attempts_and_transitions`**: in every reachable state the two tables tell the same story, and
  every success was committed by a processor that had got a 2xx answer to its request.
* `Thread.settings`: the statuses a transaction sets; **`Change.sets`** finds them in every change of a
  dossier.
-/

namespace WebhookEngine

open EffectProg TransitionSystem

variable {env : Env} {s s' : State} {C : State → Label → Prop} {l : Label} {t : Tid} {k : Kind}

/-! ## Traces -/

/-- Every call of the trace was permitted when it was made. -/
inductive Lawful (t : Tid) (k : Kind) : List Event → Prop where
  | nil : Lawful t k []
  | cons {tr : List Event} (h : Lawful t k tr) {e : Eff} (hp : permitsCall t k (facts tr) e)
      (r : e.Resp) : Lawful t k (⟨e, r⟩ :: tr)

theorem lawful_step (hs : s.Ok) (h : step env s l = some s')
    (hI : ∀ t th, s.live? t = some th → Lawful t th.kind th.trace) :
    ∀ t th, s'.live? t = some th → Lawful t th.kind th.trace := by
  intro u th' hu
  cases step_arises h hu with
  | called _ hadv hth =>
    subst hth
    exact (hI u _ hadv.live).cons ((hs.threads u _ hadv.live).permits hadv.prog) _
  | kept _ hlive hk =>
    rw [hk.kind, hk.trace]
    exact hI u _ hlive
  | fresh hlen hk hth =>
    subst hth
    exact .nil

theorem reachable_lawfulTrace (h : Reachable env C s) :
    ∀ t th, s.live? t = some th → Lawful t th.kind th.trace := by
  have hinv : s.Ok ∧ ∀ t th, s.live? t = some th → Lawful t th.kind th.trace := by
    refine h.invariant
      (I := fun s => s.Ok ∧ ∀ t th, s.live? t = some th → Lawful t th.kind th.trace) ?_ ?_
    · refine ⟨ok_init, fun t th h => ?_⟩
      simp [State.live?] at h
    · rintro s l s' ⟨hs, hI⟩ - hstep
      exact ⟨hs.step hstep, lawful_step hs hstep hI⟩
  exact hinv.2

theorem Facts.next_tx {m : Facts} {e : Eff} {r : e.Resp} {x : Entry}
    (h : x ∈ (m.next e r).tx.getD []) :
    x ∈ m.tx.getD [] ∨ ∃ st g, e = .sql (.write st) ∧ x = (st, g) := by
  by_cases he : ∃ q, e = .sql q
  · obtain ⟨q, rfl⟩ := he
    cases q with
    | write st =>
      match r with
      | .error x => exact Or.inl h
      | .ok none => exact Or.inl h
      | .ok (some g) =>
        have h' : x ∈ (m.tx.map (· ++ [(st, g)])).getD [] := h
        cases htx : m.tx with
        | none =>
          rw [htx] at h'
          cases h'
        | some tx =>
          rw [htx] at h'
          rcases List.mem_append.mp h' with h' | h'
          · exact Or.inl h'
          · exact Or.inr ⟨st, g, rfl, List.mem_singleton.mp h'⟩
    | begin =>
      cases r with
      | error y => exact Or.inl h
      | ok y => cases h
    | commit => cases r <;> cases h
    | rollback => cases h
    | _ => cases r <;> exact Or.inl h
  · rw [(Facts.next_of_not_sql (fun q hq => he ⟨q, hq⟩) r).1] at h
    exact Or.inl h

theorem Facts.next_sent {m : Facts} {e : Eff} (r : e.Resp) :
    (m.next e r).sent = m.sent ∨ ∃ req, e = .httpStart req ∧ (m.next e r).sent = some req := by
  cases e with
  | sql q => exact Or.inl (Facts.nextSql_keeps r).2.2.1
  | redis c =>
    cases c with
    | setLock d token ttl => cases r <;> exact Or.inl rfl
    | _ => exact Or.inl rfl
  | queueAdd id d => cases r <;> exact Or.inl rfl
  | httpStart req => exact Or.inr ⟨req, rfl, rfl⟩
  | _ => exact Or.inl rfl

theorem Facts.next_reply {m : Facts} {e : Eff} (r : e.Resp) :
    (m.next e r).reply = m.reply ∨
      ∃ x, (⟨e, r⟩ : Event) = ⟨.httpAwait, x⟩ ∧ (m.next e r).reply = some x := by
  cases e with
  | sql q => exact Or.inl (Facts.nextSql_keeps r).2.2.2.1
  | redis c =>
    cases c with
    | setLock d token ttl => cases r <;> exact Or.inl rfl
    | _ => exact Or.inl rfl
  | queueAdd id d => cases r <;> exact Or.inl rfl
  | httpAwait => exact Or.inr ⟨r, rfl, rfl⟩
  | _ => exact Or.inl rfl

theorem Facts.next_lost {m : Facts} {e : Eff} (r : e.Resp) :
    (m.next e r).lost = m.lost ∨
      ∃ b, (⟨e, r⟩ : Event) = ⟨.readLockLost, b⟩ ∧ (m.next e r).lost = some b := by
  cases e with
  | sql q => exact Or.inl (Facts.nextSql_keeps r).2.2.2.2
  | redis c =>
    cases c with
    | setLock d token ttl => cases r <;> exact Or.inl rfl
    | _ => exact Or.inl rfl
  | queueAdd id d => cases r <;> exact Or.inl rfl
  | readLockLost => exact Or.inr ⟨r, rfl, rfl⟩
  | _ => exact Or.inl rfl

theorem Lawful.tail {ev : Event} {tr : List Event} (h : Lawful t k (ev :: tr)) : Lawful t k tr := by
  cases h with
  | cons h hp r => exact h

theorem Lawful.permits {ev : Event} {tr : List Event} (h : Lawful t k (ev :: tr)) :
    permitsCall t k (facts tr) ev.1 := by
  cases h with
  | cons h hp r => exact hp

theorem lawful_sent {tr : List Event} (h : Lawful t k tr) {req : HttpRequest}
    (hs : (facts tr).sent = some req) : ∃ l₁ l₂, tr = l₁ ++ ⟨.httpStart req, ()⟩ :: l₂ := by
  induction tr with
  | nil => cases hs
  | cons ev tr ih =>
    obtain ⟨e, r⟩ := ev
    rcases @Facts.next_sent (facts tr) e r with hsame | ⟨req', rfl, hnew⟩
    · obtain ⟨l₁, l₂, rfl⟩ := ih h.tail (hsame.symm.trans hs)
      exact ⟨_ :: l₁, l₂, rfl⟩
    · obtain rfl : req' = req := Option.some.inj (hnew.symm.trans hs)
      exact ⟨[], tr, rfl⟩

theorem lawful_reply {tr : List Event} (h : Lawful t k tr) {x : HttpReply}
    (hr : (facts tr).reply = some x) :
    ∃ l₁ l₂, tr = l₁ ++ ⟨.httpAwait, x⟩ :: l₂ ∧ Lawful t k l₂ ∧
      (facts l₂).sent = (facts tr).sent ∧ (facts tr).sent.isSome := by
  induction tr with
  | nil => cases hr
  | cons ev tr ih =>
    obtain ⟨e, r⟩ := ev
    rcases @Facts.next_reply (facts tr) e r with hsame | ⟨x', hev, hnew⟩
    · obtain ⟨l₁, l₂, rfl, hl, hs, hsome⟩ := ih h.tail (hsame.symm.trans hr)
      rcases @Facts.next_sent (facts (l₁ ++ ⟨.httpAwait, x⟩ :: l₂)) e r with hsent | ⟨req, rfl, -⟩
      · refine ⟨_ :: l₁, l₂, rfl, hl, ?_, ?_⟩
        · exact hs.trans hsent.symm
        · exact hsent ▸ hsome
      · obtain ⟨_, _, _, _, _, hnone, _⟩ := h.permits
        rw [hnone] at hsome
        cases hsome
    · cases hev
      obtain rfl : x' = x := Option.some.inj (hnew.symm.trans hr)
      obtain ⟨hsome, -⟩ := h.permits
      exact ⟨[], tr, rfl, h.tail, rfl, hsome⟩

theorem lawful_lost {tr : List Event} (h : Lawful t k tr) {b : Bool}
    (hb : (facts tr).lost = some b) :
    ∃ l₁ l₂, tr = l₁ ++ ⟨.readLockLost, b⟩ :: l₂ ∧ Lawful t k l₂ ∧
      (facts l₂).reply = (facts tr).reply ∧ (facts tr).reply.isSome ∧
        (facts l₂).sent = (facts tr).sent := by
  induction tr with
  | nil => cases hb
  | cons ev tr ih =>
    obtain ⟨e, r⟩ := ev
    rcases @Facts.next_lost (facts tr) e r with hsame | ⟨b', hev, hnew⟩
    · obtain ⟨l₁, l₂, rfl, hl, hr, hsome, hs⟩ := ih h.tail (hsame.symm.trans hb)
      have hsent : (facts (⟨e, r⟩ :: (l₁ ++ ⟨.readLockLost, b⟩ :: l₂))).sent =
          (facts (l₁ ++ ⟨.readLockLost, b⟩ :: l₂)).sent := by
        rcases @Facts.next_sent (facts (l₁ ++ ⟨.readLockLost, b⟩ :: l₂)) e r with h' | ⟨req, rfl, -⟩
        · exact h'
        · obtain ⟨_, _, _, _, _, hnone, _⟩ := h.permits
          obtain ⟨x, hx⟩ := Option.isSome_iff_exists.mp hsome
          obtain ⟨-, -, -, -, -, hsent⟩ := lawful_reply h.tail hx
          rw [hnone] at hsent
          cases hsent
      rcases @Facts.next_reply (facts (l₁ ++ ⟨.readLockLost, b⟩ :: l₂)) e r with hrep | ⟨x, hev, -⟩
      · refine ⟨_ :: l₁, l₂, rfl, hl, hr.trans hrep.symm, ?_, hs.trans hsent.symm⟩
        exact hrep ▸ hsome
      · cases hev
        obtain ⟨-, hnone⟩ := h.permits
        rw [hnone] at hsome
        cases hsome
    · cases hev
      obtain rfl : b' = b := Option.some.inj (hnew.symm.trans hb)
      obtain ⟨hsome, -⟩ := h.permits
      exact ⟨[], tr, rfl, h.tail, rfl, hsome, rfl⟩

/-- The calls of a successful exchange, latest first: a request for the delivery was started, a 2xx
answer came back, and after that `lockLost` was read as false. -/
def Exchange (d : DeliveryId) (tr : List Event) : Prop :=
  ∃ l₁ l₂ l₃ l₄ req status text,
    tr = l₁ ++ ⟨.readLockLost, false⟩ :: l₂ ++ ⟨.httpAwait, HttpReply.response status text⟩ :: l₃ ++
      ⟨.httpStart req, ()⟩ :: l₄ ∧
    req.isFor d ∧ 200 ≤ status ∧ status < 300

theorem lawful_exchange {tr : List Event} (h : Lawful t k tr) {d : DeliveryId}
    (hp : (facts tr).Proven d) : Exchange d tr := by
  obtain ⟨⟨req, hreq, hfor⟩, ⟨status, text, hreply, hlo, hhi⟩, hlost⟩ := hp
  obtain ⟨l₁, tr₁, rfl, h₁, hr₁, -, hs₁⟩ := lawful_lost h hlost
  obtain ⟨l₂, tr₂, rfl, h₂, hs₂, -⟩ := lawful_reply h₁ (hr₁.trans hreply)
  obtain ⟨l₃, l₄, rfl⟩ := lawful_sent h₂ (hs₂.trans (hs₁.trans hreq))
  exact ⟨l₁, l₂, l₃, l₄, req, status, text, by simp, hfor, hlo, hhi⟩

/-! ## The two tables -/

/-- As many DELIVERED rows as successes, as many FAILED rows as other attempts. -/
structure Dossier.Told (D : Dossier) : Prop where
  delivered : D.log.countP (fun r => r.toStatus = .delivered) =
    D.attempts.countP fun a => a.outcome = .success
  failed : D.log.countP (fun r => r.toStatus = .failed) =
    D.attempts.countP fun a => a.outcome ≠ .success

theorem Moves.to {m : Facts} {d : DeliveryId} {f g : Status} {a : Actor}
    (h : Moves k m d f g a) (hk : ∀ c, k ≠ .repoCall c) : g ≠ .delivered ∧ g ≠ .failed := by
  cases h with
  | call => exact absurd rfl (hk _)
  | _ => decide

theorem Records.to {m : Facts} {a : AttemptData} {f g : Status} {next : Option Time}
    (h : Records k m a f g next) (hk : ∀ c, k ≠ .repoCall c) : g = a.outcome.toStatus := by
  cases h with
  | circuit h hm hd hn ho =>
    rw [ho]
    rfl
  | outcome => rfl
  | call => exact absurd rfl (hk _)

theorem reachable_told (h : Reachable env NoCalls s) {d : DeliveryId} {D : Dossier}
    (hD : s.pg.db.dossier? d = some D) : D.Told := by
  refine reachable_dossier (P := Dossier.Told) ?_ ?_ ?_ h hD
  · intro d ev ep id τ τ'
    exact ⟨rfl, rfl⟩
  · intro D τ h
    exact ⟨h.delivered, h.failed⟩
  · intro s t th d D D' hr ht _ h hc
    have hcall := kind_ne_call (fun _ _ h => h) hr ht.live
    cases hc with
    | @moved _ f g a hmv id hid gen hm reason τ τ' =>
      obtain ⟨h1, h2⟩ := hmv.to hcall
      constructor
      · rw [Dossier.moved, List.countP_append, h.delivered]
        simp [h1]
      · rw [Dossier.moved, List.countP_append, h.failed]
        simp [h2]
    | @recorded _ a f g next hrec ha hnew id hid gen hm reason τ τ' =>
      have hto := hrec.to hcall
      subst hto
      constructor
      · rw [Dossier.recorded, List.countP_append, List.countP_append, h.delivered]
        by_cases ho : a.outcome = .success <;> simp [AttemptOutcome.toStatus, ho]
      · rw [Dossier.recorded, List.countP_append, List.countP_append, h.failed]
        by_cases ho : a.outcome = .success <;> simp [AttemptOutcome.toStatus, ho]

/-- The attempt was committed by a processor of its delivery after a successful exchange. -/
def Backed (s : State) (a : AttemptRow) : Prop :=
  ∃ (t : Tid) (th : Thread) (job : JobRef), s.threads[t]? = some th ∧ th.kind = .deliver job ∧
    job.deliveryId = a.deliveryId ∧ ∃ later earlier r,
      th.trace = later ++ ⟨.sql .commit, r⟩ :: earlier ∧
        (.insertAttempt a.toAttemptData, a.id) ∈ (facts earlier).tx.getD [] ∧
          Exchange a.deliveryId earlier

theorem Backed.step {a : AttemptRow} (h : step env s l = some s') (hb : Backed s a) :
    Backed s' a := by
  obtain ⟨t, th, job, ht, hk, hd, later, earlier, r, htr, hmem, hex⟩ := hb
  obtain ⟨th', ht', hk', new, hnew⟩ := step_continues h t th ht
  refine ⟨t, th', job, ht', hk'.trans hk, hd, new ++ later, earlier, r, ?_, hmem, hex⟩
  rw [← hnew, htr, List.append_assoc]

theorem reachable_backed (h : Reachable env NoCalls s) :
    ∀ d D, s.pg.db.dossier? d = some D → ∀ a ∈ D.attempts, a.outcome = .success → Backed s a := by
  have hinv : Reachable env NoCalls s ∧ ∀ d D, s.pg.db.dossier? d = some D →
      ∀ a ∈ D.attempts, a.outcome = .success → Backed s a := by
    obtain ⟨ls, h⟩ := h
    refine h.invariant (I := fun s => Reachable env NoCalls s ∧ ∀ d D,
      s.pg.db.dossier? d = some D → ∀ a ∈ D.attempts, a.outcome = .success → Backed s a) ?_
      ⟨.refl _, nofun⟩
    rintro s l s' ⟨hr, hI⟩ hCl hstep
    refine ⟨hr.snoc hCl hstep, fun d D' hD' a ha hsucc => ?_⟩
    rcases story (reachable_ok hr) hstep d with h | ⟨D, τ, hD, h⟩ | ⟨t, c, th, r, k, w, m, -, hadv, hc⟩
    · exact (hI d D' (h.symm.trans hD') a ha hsucc).step hstep
    · rw [hD'] at h
      cases h
      exact (hI d D hD a ha hsucc).step hstep
    · rw [hD'] at hc
      have hcall := kind_ne_call (fun _ _ h => h) hr hadv.live
      cases hD : s.pg.db.dossier? d with
      | none =>
        rw [hD] at hc
        cases hc
        cases ha
      | some D =>
        rw [hD] at hc
        cases hc with
        | moved => exact (hI d D hD a ha hsucc).step hstep
        | @recorded _ a' f g next hrec hd hnew id hid gen hm reason τ τ' =>
          rcases List.mem_append.mp ha with ha | ha
          · exact (hI d D hD a ha hsucc).step hstep
          · obtain rfl := List.mem_singleton.mp ha
            generalize hkind : th.kind = kd at hrec
            cases hrec with
            | circuit h hm' hd' hn ho =>
              rw [ho] at hsucc
              cases hsucc
            | @outcome job _ r' _ _ h hm' hd' hn ho hnext =>
              have hlaw := reachable_lawfulTrace hr t th hadv.live
              have hthread := (State.live?_eq_some.mp hadv.live?_self).1
              refine ⟨t, _, job, hthread, hkind, hd'.symm, [], th.trace, r, rfl, hm, ?_⟩
              have hproven : (facts th.trace).Proven job.deliveryId := ho hsucc
              exact hd' ▸ lawful_exchange hlaw hproven
            | call => exact absurd hkind (hcall _)
  exact hinv.2

/-- **The attempts and the transitions of a delivery tell the same story**, and every success was
committed by a processor that had got a 2xx answer to its request for the delivery. -/
theorem attempts_and_transitions (h : Reachable env NoCalls s) {row : DeliveryRow}
    (hrow : row ∈ s.pg.db.deliveries) :
    (s.pg.db.log row.id).countP (fun r => r.toStatus = .delivered) =
        (s.pg.db.attemptsOf row.id).countP (fun a => a.outcome = .success) ∧
      (s.pg.db.log row.id).countP (fun r => r.toStatus = .failed) =
        (s.pg.db.attemptsOf row.id).countP (fun a => a.outcome ≠ .success) ∧
      (∀ a ∈ s.pg.db.attemptsOf row.id, a.outcome = .success → Backed s a) ∧
      (row.status = .delivered → ∃ a ∈ s.pg.db.attemptsOf row.id, a.outcome = .success) := by
  have hD := (reachable_ok h).db.dossier?_of_mem hrow
  have htold := reachable_told h hD
  refine ⟨htold.delivered, htold.failed, reachable_backed h _ _ hD, fun hst => ?_⟩
  obtain ⟨-, before, last, hlog, hlast⟩ := reachable_projects h hD
  have hpos : 0 < (s.pg.db.log row.id).countP fun r => r.toStatus = .delivered := by
    refine List.countP_pos_iff.mpr ⟨last, ?_, ?_⟩
    · have hlog : s.pg.db.log row.id = before ++ [last] := hlog
      simp [hlog]
    · simpa [hst] using hlast
  have hdel : (s.pg.db.log row.id).countP (fun r => r.toStatus = .delivered) = _ := htold.delivered
  rw [hdel] at hpos
  obtain ⟨a, ha, hsucc⟩ := List.countP_pos_iff.mp hpos
  exact ⟨a, ha, by simpa using hsucc⟩

theorem attempts_and_transitions_delivered : ∃ s row, Reachable sampleEnv NoCalls s ∧
    row ∈ s.pg.db.deliveries ∧ row.status = .delivered ∧
      ∃ a ∈ s.pg.db.attemptsOf row.id, a.outcome = .success ∧ Backed s a := by
  obtain ⟨s, hreach, hs⟩ := sample_run (C := NoCalls) (sampleIngest ++ sampleDelivery 1)
    (fun s => s.pg.db.deliveries.any fun row => row.status = .delivered) (by decide +kernel)
  obtain ⟨row, hrow, hst⟩ := List.any_eq_true.mp hs
  have hst : row.status = .delivered := by simpa using hst
  obtain ⟨-, -, hbacked, hsucc⟩ := attempts_and_transitions hreach hrow
  obtain ⟨a, ha, ho⟩ := hsucc hst
  exact ⟨s, row, hreach, hrow, hst, a, ha, ho, hbacked a ha ho⟩

/-! ## What a transaction sets -/

variable {th : Thread} {d : DeliveryId}

/-- The delivery whose status a statement sets, and the status. -/
def Stmt.sets : Stmt → Option (DeliveryId × Status)
  | .updateStatus d st => some (d, st)
  | .updateAttempt d st _ => some (d, st)
  | _ => none

/-- The statuses set by the open transaction. -/
def Thread.settings (th : Thread) : List (DeliveryId × Status) := th.tx.filterMap fun e => e.1.sets

theorem Thread.mem_settings {e : Entry} {x : DeliveryId × Status} (he : e ∈ th.tx)
    (hx : e.1.sets = some x) : x ∈ th.settings :=
  List.mem_filterMap.mpr ⟨e, he, hx⟩

theorem Script.sets_attempt {k : Kind} {m : Facts} {tx : List Entry} (h : Script k m tx)
    (hk : ∀ c, k ≠ .repoCall c) {a : AttemptData} {g : ℕ} (ha : (.insertAttempt a, g) ∈ tx) :
    ∃ e ∈ tx, e.1.sets = some (a.deliveryId, a.outcome.toStatus) := by
  cases h with
  | nil => cases ha
  | move h reason g₁ g₂ => simp at ha
  | @record a' f st next h reason g₁ g₂ g₃ =>
    obtain ⟨rfl, -⟩ : a = a' ∧ g = g₁ := by simpa using ha
    refine ⟨(.updateAttempt a.deliveryId st next, g₂), by simp, ?_⟩
    rw [← h.to hk]
    rfl
  | ingest hk c i ty p ep ev d g' => simp at ha
  | claim hk h =>
    obtain ⟨d, -, -, heq⟩ := h _ ha
    cases heq

/-- **Whoever changes a dossier sets its status.** -/
theorem Change.sets (hs : s.Ok) (ht : Committing s t th) (hk : ∀ c, th.kind ≠ .repoCall c)
    {D D' : Dossier} (hc : Change th.kind th.facts d (some D) (some D')) :
    (d, D'.row.status) ∈ th.settings := by
  obtain ⟨k, hp⟩ := ht.prog
  obtain ⟨tx, htx, hscript, -⟩ := (hs.threads t th ht.live).permits hp
  have htx' : th.tx = tx := by rw [Thread.tx, htx]; rfl
  cases hc with
  | moved hmv hid hm reason τ τ' => exact Thread.mem_settings hm rfl
  | recorded hrec ha hnew hid hm reason τ τ' =>
    rw [show th.facts.tx.getD [] = tx from htx'] at hm
    obtain ⟨e, he, hsets⟩ := hscript.sets_attempt hk hm
    rw [ha, ← hrec.to hk] at hsets
    exact Thread.mem_settings (htx' ▸ he) hsets

end WebhookEngine
