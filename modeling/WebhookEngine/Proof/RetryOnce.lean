import WebhookEngine.Proof.Budget
import WebhookEngine.Proof.Retry

set_option autoImplicit false

/-!
# One retry per entry into the DLQ

* `Unforged`: no `transition` call is made in the name of a manual retry.
* `Returns d r`: the step is the COMMIT with which a retry of `d` returns `r`.
* `Enters d`: the step commits a transition of `d` to DLQ.
* **`one_retry_per_entry`**: a delivery is retried at most as often as it has entered the DLQ, between
  two retries that return ok it enters the DLQ, and a retry that is refused writes nothing.
-/

namespace WebhookEngine

open EffectProg TransitionSystem

variable {env : Env} {s s' v : State} {t u : Tid} {th th' : Thread} {l : Label} {d : DeliveryId}

/-- The caller of `transition` does not pass for a manual retry: every caller there is names the
worker. -/
def Unforged (_ : State) : Label → Prop
  | .request (.repoCall (.transition _ _ _ a _)) => a ≠ .manualRetry
  | _ => True

instance (s : State) : (l : Label) → Decidable (Unforged s l)
  | .request k => match k with
    | .repoCall c => match c with
      | .transition _ _ _ a _ => (inferInstance : Decidable (a ≠ .manualRetry))
      | .recordAttempt _ | .retryFromDlq _ | .enqueueDelivery _ | .claimUnenqueued _
      | .ingestEvent _ => .isTrue trivial
    | .deliver _ | .failed _ | .postEvent _ | .postRetry _ | .sweep => .isTrue trivial
  | .tick _ | .op _ _ | .settle _ | .crash _ | .extend _ | .extendReply _ | .pickup _ | .stall _
  | .stallFail _ | .removeCompleted _ | .operatorAdd _ _ | .evict _ | .idemArrive _ | .redisLoss
  | .createEndpoint _ _ _ | .patchEndpoint _ _ _ => .isTrue trivial

/-- The transitions of a delivery to DLQ so far. -/
def Db.entries (db : Db) (d : DeliveryId) : ℕ := (db.log d).countP fun tr => tr.toStatus = .dlq

/-- A transition of `d` to DLQ is committed. -/
def Enters (d : DeliveryId) (s : State) (_ : Label) (s' : State) : Prop :=
  s.pg.db.entries d < s'.pg.db.entries d

/-- A retry of `d` commits and returns `r`: what is left of its execution is what follows `r`. -/
def Returns (d : DeliveryId) (r : RetryFromDlqResult) (s : State) (l : Label) (s' : State) : Prop :=
  ∃ t c th th', l = .op t c ∧ Committing s t th ∧ th.kind.retries d ∧ s'.live? t = some th' ∧
    th'.prog = th.kind.finish (return r)

/-- Execution `t` changes the database. -/
def Alters (t : Tid) (s : State) (l : Label) (s' : State) : Prop :=
  (∃ c, l = .op t c) ∧ s'.pg.db ≠ s.pg.db

/-! ## Retries that return ok -/

theorem RetryStage.answered_prog {kd : Kind} (hk : kd.retries d) (r : RetryFromDlqResult) :
    (RetryStage.answered kd r).prog kd d = kd.finish (return r) := by
  rcases hk with ⟨n, rfl⟩ | rfl <;> cases r <;> rfl

theorem Kind.finish_ok {kd : Kind} (hk : kd.retries d) {r : RetryFromDlqResult}
    (h : kd.finish (return r) = kd.finish (return .ok)) : r = .ok := by
  rcases hk with ⟨n, rfl⟩ | rfl <;> cases r <;> first | rfl | cases h

theorem RetryStage.next_commit {kd : Kind} {st : RetryStage} {f : Except Err Unit → RetryStage}
    (h : st.next kd d = some ⟨.sql .commit, f⟩) :
    ∃ r, st = .commit r ∧ f = RetryStage.orRollback fun _ => RetryStage.answered kd r := by
  cases st with
  | commit r =>
    cases h
    exact ⟨r, rfl, rfl⟩
  | _ => cases h

theorem Advance.retry_commits {c : Choice} {r : Except Err Unit} {k : Except Err Unit → Code Reply}
    {w : World} {m : Memory} (h : Advance s s' t c th (.sql .commit) r k w m) (hs : s.Ok)
    (hk : th.kind.retries d) (hst : (RetryStage.commit .ok).Knows d th.facts)
    (hf : c.fault ≠ .before) :
    s.pg.db.status? d = some .dlq ∧ s'.pg.db.status? d = some .pending ∧
      ∃ tr, s'.pg.db.log d = s.pg.db.log d ++ [tr] := by
  obtain ⟨hseen, g, g', htx⟩ := hst
  obtain ⟨-, hdlq⟩ := (hs.threads t th h.live).seen d .dlq hk hseen (by rw [htx]; rfl)
  obtain ⟨-, ws, hws, hdb⟩ := h.commits hs htx
  rw [if_neg hf] at hdb
  obtain ⟨⟨_, _, τ⟩, ws', rfl, hw, hws'⟩ := List.map_eq_cons_iff.mp hws
  obtain ⟨⟨_, id, τ'⟩, ws'', rfl, hw', hws''⟩ := List.map_eq_cons_iff.mp hws'
  obtain rfl := List.map_eq_nil_iff.mp hws''
  cases hw
  cases hw'
  obtain ⟨row, hrow⟩ := Option.isSome_iff_exists.mp (Db.status?_isSome hdlq)
  refine ⟨hdlq, ?_, ?_⟩
  · rw [hdb]
    simp [Db.status?, hrow]
  · refine ⟨⟨id, d, some .dlq, .pending, "manual_retry", .manualRetry, τ'⟩, ?_⟩
    rw [hdb]
    simp

/-- A retry returns ok only from DLQ, and leaves the delivery PENDING. -/
theorem Returns.status (hs : s.Ok) (hI : Retrying s) (h : step env s l = some s')
    (hret : Returns d .ok s l s') :
    s.pg.db.status? d = some .dlq ∧ s'.pg.db.status? d = some .pending := by
  obtain ⟨t, c, th, th', rfl, hcom, hk, hlive', hprog⟩ := hret
  obtain ⟨th₀, e, r, k, w, m, hadv⟩ := stepOp_cases h
  obtain rfl := Option.some.inj (hadv.live.symm.trans hcom.live)
  obtain rfl := Option.some.inj (hlive'.symm.trans hadv.live?_self)
  obtain ⟨k', hk'⟩ := hcom.prog
  cases hadv.prog.symm.trans hk'
  obtain ⟨st, hst⟩ := hI t th₀ hadv.live d hk
  obtain ⟨f, hf, hnext⟩ := hadv.stage hs hk hst
  obtain ⟨res, rfl, rfl⟩ := RetryStage.next_commit hf
  have hres : (RetryStage.orRollback (fun _ : Unit => RetryStage.answered th₀.kind res) r).prog
      th₀.kind d = th₀.kind.finish (return .ok) := hnext.prog.symm.trans hprog
  cases r with
  | error x => rcases hk with ⟨n, hk⟩ | hk <;> rw [hk] at hres <;> cases hres
  | ok x =>
    obtain rfl := Kind.finish_ok hk ((RetryStage.answered_prog hk res).symm.trans hres)
    obtain ⟨tx, htx, -⟩ := (hs.threads t th₀ hadv.live).permits hadv.prog
    have hf : c.fault = .none := (Fault.answer_ok (hadv.commits hs htx).1.symm).1
    obtain ⟨h1, h2, -⟩ := hadv.retry_commits hs hk hst.knows (by rw [hf]; nofun)
    exact ⟨h1, h2⟩

/-! ## Entries -/

theorem Change.logged {k : Kind} {m : Facts} {o : Option Dossier} {D' : Dossier}
    (hc : Change k m d o (some D')) :
    ∃ tr, D'.log = (o.elim [] Dossier.log) ++ [tr] ∧ tr.toStatus = D'.row.status := by
  cases hc with
  | created => exact ⟨_, rfl, rfl⟩
  | moved => exact ⟨_, rfl, rfl⟩
  | recorded => exact ⟨_, rfl, rfl⟩

theorem Change.entries {k : Kind} {m : Facts} {D' : Dossier} (hs : s.Ok)
    (hD' : s'.pg.db.dossier? d = some D')
    (hc : Change k m d (s.pg.db.dossier? d) (some D')) :
    s'.pg.db.entries d = s.pg.db.entries d + (decide (D'.row.status = .dlq)).toNat := by
  obtain ⟨tr, hlog, htr⟩ := hc.logged
  rw [Db.entries, Db.entries, Db.log_eq hs.db d, ← (Db.dossier?_eq_some.mp hD').2.1, hlog,
    List.countP_append, List.countP_singleton, htr]
  by_cases hdlq : D'.row.status = .dlq <;> simp [hdlq]

theorem enters_of_dlq (hs : s.Ok) (h : step env s l = some s') (hst : s.pg.db.status? d ≠ some .dlq)
    (hst' : s'.pg.db.status? d = some .dlq) : Enters d s l s' := by
  rcases story hs h d with hsame | ⟨D, τ, hD, hD'⟩ | ⟨t, c, th, r, k, w, m, -, -, hc⟩
  · exact absurd ((Db.status?_of_dossier? hsame).symm.trans hst') hst
  · rw [Db.status?_eq hD'] at hst'
    rw [Db.status?_eq hD] at hst
    exact absurd hst' hst
  · cases hD' : s'.pg.db.dossier? d with
    | none =>
      rw [Db.status?, Db.dossier?_none.mp hD'] at hst'
      cases hst'
    | some D' =>
      rw [Db.status?_eq hD'] at hst'
      rw [hD'] at hc
      rw [Enters, hc.entries hs hD', decide_eq_true (Option.some.inj hst')]
      exact Nat.lt_succ_self _

/-- What a retry needs: while the delivery is not in DLQ no retry of it returns ok. -/
theorem no_second_retry {C : State → Label → Prop} (hr : Reachable env C s)
    (h : step env s l = some s') (hok : Returns d .ok s l s') (hs' : Reachable env C s')
    {ls : List Label} (hrun : Run (step env) C s' ls v) (hno : ¬ Occurs (step env) (Enters d) s' ls) :
    ¬ Occurs (step env) (Returns d .ok) s' ls := by
  have hpending := (hok.status (reachable_ok hr) (reachable_retrying hr) h).2
  refine (hrun.recall (P := Enters d) (Q := Returns d .ok)
    (I := fun p q v => Reachable env C v ∧ (¬ p → v.pg.db.status? d ≠ some .dlq ∧ ¬ q))
    ?_ ⟨hs', fun _ => ⟨by rw [hpending]; nofun, id⟩⟩).2 hno |>.2
  rintro p q v l v' ⟨hv, hI⟩ hl hstep
  refine ⟨hv.snoc hl hstep, fun hp => ?_⟩
  obtain ⟨hst, hq⟩ := hI fun h => hp (Or.inl h)
  refine ⟨fun hst' => hp (Or.inr (enters_of_dlq (reachable_ok hv) hstep hst hst')), ?_⟩
  rintro (h | h)
  · exact hq h
  · exact hst (h.status (reachable_ok hv) (reachable_retrying hv) hstep).1

/-! ## As many entries as retries -/

theorem unforged_kind (h : Reachable env Unforged s) (ht : s.live? t = some th) {f g : Status}
    {a : Actor} {reason : String} (hk : th.kind = .repoCall (.transition d f g a reason)) :
    a ≠ .manualRetry := by
  have hinv : ∀ t th, s.live? t = some th → ∀ d f g a reason,
      th.kind = .repoCall (.transition d f g a reason) → a ≠ .manualRetry := by
    refine h.invariant (I := fun s => ∀ t th, s.live? t = some th → ∀ d f g a reason,
      th.kind = .repoCall (.transition d f g a reason) → a ≠ .manualRetry) ?_ ?_
    · intro t th h
      simp [State.live?] at h
    · intro s l s' ih hl hstep u th' hlive d f g a reason hk
      rcases step_kind hstep hlive with ⟨th, hold, hsame⟩ | hstarts
      · exact ih u th hold d f g a reason (hsame ▸ hk)
      · rw [hk] at hstarts
        cases hstarts with
        | request hl' _ =>
          subst hl'
          exact hl
  exact hinv t th ht d f g a reason hk

/-- The entries of an audit log into DLQ. -/
def Dossier.entries (D : Dossier) : ℕ := D.log.countP fun tr => tr.toStatus = .dlq

/-- Every retry, and the present stay in DLQ, has its entry. -/
def Dossier.Paid (D : Dossier) : Prop :=
  D.retries + (if D.row.status = .dlq then 1 else 0) ≤ D.entries

theorem Dossier.Paid.retries {D : Dossier} (h : D.Paid) : D.retries ≤ D.entries :=
  Nat.le_trans (Nat.le_add_right _ _) h

theorem Dossier.Paid.append {D D' : Dossier} (h : D.Paid) {tr : TransitionRow}
    (hlog : D'.log = D.log ++ [tr]) (hst : D'.row.status = tr.toStatus)
    (htr : tr.triple ≠ (some .dlq, .pending, .manualRetry)) : D'.Paid := by
  have hold := h.retries
  have hretries : D'.retries = D.retries := by
    rw [Dossier.retries, hlog, List.countP_append, List.countP_singleton, if_neg (by simpa using htr)]
    rfl
  rw [Dossier.Paid, hretries, hst, Dossier.entries, hlog, List.countP_append, List.countP_singleton]
  by_cases hdlq : tr.toStatus = .dlq
  · rw [if_pos hdlq, if_pos (decide_eq_true hdlq)]
    exact Nat.succ_le_succ hold
  · rw [if_neg hdlq, if_neg (by simpa using hdlq)]
    exact hold

theorem reachable_paid (h : Reachable env Unforged s) {D : Dossier}
    (hD : s.pg.db.dossier? d = some D) : D.Paid := by
  refine reachable_dossier (P := Dossier.Paid) ?_ (fun D τ h => h) ?_ h hD
  · intro d ev ep id τ τ'
    exact Nat.zero_le _
  · intro s t th d D D' hr ht hD hpaid hc
    generalize hkind : th.kind = kd at hc
    cases hc with
    | recorded hrec ha hnew hid hm reason τ τ' =>
      exact hpaid.append rfl rfl fun htr => by cases congrArg (·.2.2) htr
    | moved hmv hid hm reason τ τ' =>
      cases hmv with
      | mark hw hm => exact hpaid.append rfl rfl fun htr => by cases congrArg (·.2.2) htr
      | exhaust hr hs hm hsp => exact hpaid.append rfl rfl fun htr => by cases congrArg (·.2.2) htr
      | call =>
        refine hpaid.append rfl rfl fun htr => ?_
        have ha := unforged_kind hr ht.live hkind
        cases htr
        exact ha rfl
      | retry hk hseen hm hsp =>
        have hs := reachable_ok hr
        have hdlq := ((hs.threads t th ht.live).seen d .dlq (hkind ▸ hk) hseen (ht.open_ hs)).2
        rw [Db.status?_eq hD] at hdlq
        have hold : D.retries + 1 ≤ D.entries := by
          have := hpaid
          rwa [Dossier.Paid, if_pos (Option.some.inj hdlq)] at this
        change Dossier.retries _ + 0 ≤ Dossier.entries _
        rw [Dossier.retries, Dossier.entries, Dossier.moved, List.countP_append, List.countP_append]
        exact hold

/-- **A delivery is retried at most as often as it has entered the DLQ.** -/
theorem retries_le_entries (h : Reachable env Unforged s) (d : DeliveryId) :
    s.pg.db.retries d ≤ s.pg.db.entries d := by
  cases hD : s.pg.db.dossier? d with
  | none =>
    rw [Db.retries, Db.log_empty (reachable_ok h).db (Db.dossier?_none.mp hD)]
    exact Nat.zero_le _
  | some D =>
    rw [Db.retries, Db.entries, ← (Db.dossier?_eq_some.mp hD).2.1]
    exact (reachable_paid h hD).retries

/-! ## Retries that are refused -/

/-- The stages on the way to a refusal. -/
def RetryStage.refusing (kd : Kind) : RetryStage → Prop
  | .connect => True
  | .begin => True
  | .select => True
  | .commit r => r ≠ .ok
  | .finished r => ∃ res, res ≠ .ok ∧ RetryStage.answered kd res = .finished r
  | _ => False

theorem RetryStage.refusing_of_prog {kd : Kind} (hk : kd.retries d) {st : RetryStage}
    {res : RetryFromDlqResult} (hres : res ≠ .ok) (h : st.prog kd d = kd.finish (return res)) :
    st.refusing kd := by
  cases st with
  | finished r =>
    refine ⟨res, hres, ?_⟩
    rcases hk with ⟨n, rfl⟩ | rfl <;> cases res <;> cases r <;> cases h <;> rfl
  | connect => trivial
  | begin => trivial
  | select => trivial
  | commit r => rcases hk with ⟨n, rfl⟩ | rfl <;> cases res <;> cases h
  | clock x => rcases hk with ⟨n, rfl⟩ | rfl <;> cases res <;> first | exact absurd rfl hres | cases h
  | _ => rcases hk with ⟨n, rfl⟩ | rfl <;> cases res <;> cases h

/-- A retry on the way to a refusal has been there from the start. -/
theorem RetryStage.refusing_back {kd : Kind} (hk : kd.retries d) {m : Facts} {st : RetryStage}
    (hst : st.Knows d m) {e : Eff} {f : e.Resp → RetryStage} (hf : st.next kd d = some ⟨e, f⟩)
    {r : e.Resp} (hx : ∀ x, e.failure r = some x → x = .infra) (h : (f r).refusing kd) :
    st.refusing kd := by
  cases st with
  | connect => trivial
  | begin => trivial
  | select => trivial
  | commit res =>
    rintro rfl
    cases hf
    cases r with
    | error x => exact h
    | ok x =>
      rcases hk with ⟨n, rfl⟩ | rfl
      · exact h
      · obtain ⟨res, hres, hans⟩ := h
        cases hans
        exact hres rfl
  | update => cases hf; cases r <;> exact h
  | insert =>
    cases hf
    cases r with
    | error x => exact h
    | ok x => exact h rfl
  | rollback err =>
    have herr : err = .infra := hst
    subst herr
    cases hf
    cases r with
    | error x =>
      obtain rfl := hx x rfl
      obtain ⟨res, -, hans⟩ := h
      rcases hk with ⟨n, rfl⟩ | rfl <;> cases res <;> cases hans
    | ok x =>
      obtain ⟨res, -, hans⟩ := h
      rcases hk with ⟨n, rfl⟩ | rfl <;> cases res <;> cases hans
  | clock x => cases hf; exact h
  | add x ms =>
    cases hf
    cases r with
    | error x =>
      obtain rfl := hx x rfl
      obtain ⟨res, -, hans⟩ := h
      rcases hk with ⟨n, rfl⟩ | rfl <;> cases res <;> cases hans
    | ok x =>
      obtain ⟨res, -, hans⟩ := h
      rcases hk with ⟨n, rfl⟩ | rfl <;> cases res <;> cases hans
  | finished r => cases hf

theorem Advance.refused {c : Choice} {e : Eff} {r : e.Resp} {k : e.Resp → Code Reply} {w : World}
    {m : Memory} (h : Advance s s' t c th e r k w m) (hs : s.Ok) {st : RetryStage}
    (hst : st.Knows d th.facts) {f : e.Resp → RetryStage} (hf : st.next th.kind d = some ⟨e, f⟩)
    (href : st.refusing th.kind) : s'.pg.db = s.pg.db := by
  cases st with
  | commit res =>
    have htx : th.facts.tx = some [] := by
      cases res with
      | ok => exact absurd rfl href
      | notFound => exact hst.2
      | notInDlq status => exact hst.2
    cases hf
    obtain ⟨-, ws, hws, hdb⟩ := h.commits hs htx
    obtain rfl := List.map_eq_nil_iff.mp hws
    rw [hdb, Db.applyAll_nil, ite_self]
  | connect | begin =>
    cases hf
    obtain ⟨pg', sess', hex, hw, -⟩ := perform_sql h.done
    cases hex
    rw [h.world, hw]
  | select =>
    cases hf
    obtain ⟨pg', sess', hex, hw, -⟩ := perform_sql h.done
    have hpg : s'.pg = pg' := by rw [h.world, hw]
    rw [hpg]
    simp only [Sql.exec] at hex
    split at hex
    · split at hex
      · split at hex <;> cases hex <;> rfl
      · cases hex
    · cases hex
      rfl
  | finished r => cases hf
  | _ => exact href.elim

/-- **A retry that is refused changes nothing.** -/
theorem refused_alters_nothing {C : State → Label → Prop} {ls : List Label}
    (h : Run (step env) C {} ls s) (ht : s.live? t = some th) (hk : th.kind.retries d)
    {r : RetryFromDlqResult} (hr : r ≠ .ok) (hprog : th.prog = th.kind.finish (return r)) :
    ¬ Occurs (step env) (Alters t) {} ls := by
  have hinv := h.recall (P := Alters t) (Q := Alters t)
    (I := fun p _ v => Reachable env C v ∧ (v.threads.length ≤ t → ¬ p) ∧
      ∀ th, v.live? t = some th → th.kind.retries d →
        ∃ st, th.AtStage d st ∧ (st.refusing th.kind → ¬ p))
    ?_ ⟨.refl _, fun _ hp => hp, fun th ht => by simp [State.live?] at ht⟩
  · obtain ⟨st, hst, hp⟩ := hinv.2.2 th ht hk
    exact hp (RetryStage.refusing_of_prog hk hr (hst.prog.symm.trans hprog))
  rintro p - v l v' ⟨hv, hnew, hI⟩ hl hstep
  have hs := reachable_ok hv
  by_cases hop : ∃ c, l = .op t c
  · -- its own call
    obtain ⟨c, rfl⟩ := hop
    obtain ⟨th, e, r, k, w, m, hadv⟩ := stepOp_cases hstep
    refine ⟨hv.snoc hl hstep, fun hlen => ?_, fun th' ht' hk' => ?_⟩
    · rw [hadv.length] at hlen
      exact absurd (State.live?_lt hadv.live) (Nat.not_lt.mpr hlen)
    obtain rfl := Option.some.inj (ht'.symm.trans hadv.live?_self)
    obtain ⟨st, hst, hp⟩ := hI th hadv.live hk'
    obtain ⟨f, hf, hnext⟩ := hadv.stage hs hk' hst
    refine ⟨f r, hnext, fun href => ?_⟩
    have hback := RetryStage.refusing_back hk' hst.knows hf
      (fun _ hx => perform_failure hadv.done hx) href
    rintro (hp' | hp')
    · exact hp hback hp'
    · exact hp'.2 (hadv.refused hs hst.knows hf hback)
  · have hsame : ∀ {q : Prop}, ¬ q → ¬ (q ∨ Alters t v l v') := fun hq h => h.elim hq fun h => hop h.1
    refine ⟨hv.snoc hl hstep, fun hlen => hsame (hnew ((step_length hstep).trans hlen)), ?_⟩
    have hkept := step_threads (P := fun u th => u = t → th.kind.retries d →
      ∃ st, th.AtStage d st ∧ (st.refusing th.kind → ¬ p)) hstep ?_ ?_ ?_ ?_
    · intro th' ht' hk'
      obtain ⟨st, hst, hp⟩ := hkept t th' ht' rfl hk'
      exact ⟨st, hst, fun href => hsame (hp href)⟩
    · rintro u th hu rfl
      exact hI th hu
    · rintro u th th' hk hold rfl hk'
      obtain ⟨st, hst, hp⟩ := hold rfl (hk.kind ▸ hk')
      exact ⟨st, hk.atStage hst, fun href => hp (hk.kind ▸ href)⟩
    · rintro u k hlen - rfl hk'
      exact ⟨.connect, atStage_fresh hk', fun _ => hnew hlen⟩
    · rintro t' c th e r k w m rfl - - rfl
      exact absurd ⟨c, rfl⟩ hop

/-! ## Retries and entries -/

/-- **One retry per entry into the DLQ.** A delivery has at most as many manual retries as entries;
between the COMMITs of two retries that return ok it enters the DLQ again; and a retry that is refused
changes nothing in the database. -/
theorem one_retry_per_entry {ls : List Label} (h : Run (step env) Unforged {} ls s)
    (d : DeliveryId) :
    s.pg.db.retries d ≤ s.pg.db.entries d ∧
      (∀ l s' ls' v, Unforged s l → step env s l = some s' → Returns d .ok s l s' →
        Run (step env) Unforged s' ls' v → ¬ Occurs (step env) (Enters d) s' ls' →
          ¬ Occurs (step env) (Returns d .ok) s' ls') ∧
      ∀ t th r, s.live? t = some th → th.kind.retries d → th.prog = th.kind.finish (return r) →
        r ≠ .ok → ¬ Occurs (step env) (Alters t) {} ls := by
  have hr : Reachable env Unforged s := ⟨ls, h⟩
  refine ⟨retries_le_entries hr d, ?_, ?_⟩
  · intro l s' ls' v hl hstep hok hrun hno
    exact no_second_retry hr hstep hok (hr.snoc hl hstep) hrun hno
  · intro t th r ht hk hprog hne
    exact refused_alters_nothing h ht hk hne hprog

/-- Two requests retry the delivery at once: the second one waits for the row and is refused. -/
theorem one_retry_per_entry_twice : ∃ ls s th, Run (step sampleEnv) Unforged {} ls s ∧
    s.pg.db.retries 2 = 1 ∧ 1 ≤ s.pg.db.entries 2 ∧ s.live? 12 = some th ∧
      th.prog = .raise (.app 409 "NOT_IN_DLQ") ∧ ¬ Occurs (step sampleEnv) (Alters 12) {} ls := by
  have hcomputed : (runOf (step sampleEnv) Unforged {} (sampleDlq ++
      [.request (.postRetry 2), .request (.postRetry 2), .op 12 {}, .op 12 {}] ++ calls 11 6 ++
        calls 12 2)).any (fun s => s.pg.db.retries 2 = 1 ∧ (s.live? 12).any fun th =>
          th.thrown = some (.app 409 "NOT_IN_DLQ") ∧ th.retried = some 2) = true := by
    decide +kernel
  obtain ⟨s, hrun, hs⟩ := exists_run hcomputed
  obtain ⟨hretries, hlive⟩ := of_decide_eq_true hs
  obtain ⟨th, ht, hth⟩ := (Option.any_eq_true _ _).mp hlive
  obtain ⟨hthrown, hkind⟩ := of_decide_eq_true hth
  obtain ⟨n, hkind⟩ := Thread.retried_eq hkind
  have hprog := Thread.thrown_eq hthrown
  obtain ⟨hle, -, hquiet⟩ := one_retry_per_entry hrun 2
  refine ⟨_, s, th, hrun, hretries, hretries ▸ hle, ht, hprog, ?_⟩
  refine hquiet 12 th (.notInDlq .pending) ht (Or.inl ⟨n, hkind⟩) ?_ nofun
  rw [hprog, hkind]
  rfl

end WebhookEngine
