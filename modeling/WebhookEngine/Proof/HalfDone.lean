import WebhookEngine.Proof.RetryOnce

set_option autoImplicit false

/-!
# Manual retries that fail

* `Touches t d`: execution `t` changes the status of `d`, its transitions or the queue.
* `Mishap t`: the request `t` has found DLQ and the answer to its COMMIT is lost, or its `add` throws.
* **`retry_untouched_iff`**: a request that answers an error has touched nothing exactly if it had no
  such mishap.
-/

namespace WebhookEngine

open EffectProg TransitionSystem

variable {env : Env} {s s' v : State} {t u : Tid} {th th' : Thread} {l : Label} {d : DeliveryId}
  {x : IdText} {p q : Prop}

/-- Execution `t` changes the status of the delivery, its transitions or the queue. -/
def Touches (t : Tid) (d : DeliveryId) (s : State) (l : Label) (s' : State) : Prop :=
  (∃ c, l = .op t c) ∧ ¬ (s'.pg.db.status? d = s.pg.db.status? d ∧
    s'.pg.db.log d = s.pg.db.log d ∧ s'.jobs = s.jobs)

/-- The execution is about to call `webhookDeliveryQueue.add`. -/
def Thread.enqueuing (th : Thread) : Bool :=
  match th.prog with
  | .op (.queueAdd _ _) _ => true
  | _ => false

/-- The request `t` has read DLQ and its COMMIT takes effect without being answered, or its `add`
throws. -/
def Mishap (t : Tid) (s : State) (l : Label) (_ : State) : Prop :=
  ∃ c th, l = .op t c ∧ s.live? t = some th ∧
    (th.committing = true ∧ th.facts.seen = some .dlq ∧ c.fault = .after ∨
      th.enqueuing = true ∧ c.fault ≠ .none)

/-! ## What the calls touch -/

theorem Thread.enqueuing_iff : th.enqueuing = true ↔ ∃ id d k, th.prog = .op (.queueAdd id d) k := by
  unfold Thread.enqueuing
  split
  · rename_i id d k hp
    exact ⟨fun _ => ⟨id, d, k, hp⟩, fun _ => rfl⟩
  · rename_i hne
    refine ⟨nofun, ?_⟩
    rintro ⟨id, d, k, hp⟩
    exact absurd hp (hne id d k)

theorem Advance.untouched {c : Choice} {e : Eff} {r : e.Resp} {k : e.Resp → Code Reply} {w : World}
    {m : Memory} (hadv : Advance s s' t c th e r k w m) (hs : s.Ok)
    (h : step env s (.op t c) = some s') (hcommit : e ≠ .sql .commit) (hjobs : s'.jobs = s.jobs) :
    ¬ Touches t d s (.op t c) s' := fun htouch =>
  htouch.2 ⟨hadv.status? hs h hcommit d, hadv.log hs h hcommit d, hjobs⟩

theorem Advance.no_mishap {c : Choice} {e : Eff} {r : e.Resp} {k : e.Resp → Code Reply} {w : World}
    {m : Memory} (hadv : Advance s s' t c th e r k w m)
    (hcommit : e = .sql .commit → th.facts.seen ≠ some .dlq ∨ c.fault ≠ .after)
    (hadd : ∀ id d, e = .queueAdd id d → c.fault = .none) : ¬ Mishap t s (.op t c) s' := by
  rintro ⟨c', th', hl, hlive, hmis⟩
  cases hl
  obtain rfl := Option.some.inj (hlive.symm.trans hadv.live)
  rcases hmis with ⟨hc, hseen, hf⟩ | ⟨ha, hf⟩
  · obtain ⟨k', hk'⟩ := Thread.committing_iff.mp hc
    cases hadv.prog.symm.trans hk'
    rcases hcommit rfl with h | h
    · exact h hseen
    · exact h hf
  · obtain ⟨id, d, k', hk'⟩ := Thread.enqueuing_iff.mp ha
    cases hadv.prog.symm.trans hk'
    exact hf (hadd id d rfl)

/-! ## The account of a request -/

/-- What has become of the request at a stage: whether it has touched anything, and whether it has had
a mishap. -/
def RetryStage.Account (touched mishap : Prop) : RetryStage → Prop
  | .clock _ => touched ∧ ¬ mishap
  | .add _ _ => touched ∧ ¬ mishap
  | .rollback _ => (touched ↔ mishap)
  | .finished (.error _) => (touched ↔ mishap)
  | .finished (.ok _) => True
  | _ => ¬ touched ∧ ¬ mishap

theorem or_both_false {a b : Prop} (hp : ¬ p ∧ ¬ q) (ha : ¬ a) (hb : ¬ b) : ¬ (p ∨ a) ∧ ¬ (q ∨ b) :=
  ⟨fun h => h.elim hp.1 ha, fun h => h.elim hp.2 hb⟩

theorem iff_of_both_false {a b : Prop} (h : ¬ a ∧ ¬ b) : a ↔ b := iff_of_false h.1 h.2

/-- **The account through one call.** -/
theorem Advance.account {c : Choice} {e : Eff} {r : e.Resp} {k : e.Resp → Code Reply} {w : World}
    {m : Memory} (hadv : Advance s s' t c th e r k w m) (hs : s.Ok)
    (h : step env s (.op t c) = some s') (hk : th.kind = .postRetry x) {st : RetryStage}
    (hst : st.Knows x.id th.facts) {f : e.Resp → RetryStage} (hf : st.next th.kind x.id = some ⟨e, f⟩)
    (hacc : st.Account p q) :
    (f r).Account (p ∨ Touches t x.id s (.op t c) s') (q ∨ Mishap t s (.op t c) s') := by
  have hquiet : ∀ {e : Eff} {r : e.Resp} {k : e.Resp → Code Reply} {w : World} {m : Memory},
      Advance s s' t c th e r k w m → e ≠ .sql .commit → (∀ id d, e ≠ .queueAdd id d) →
        s'.jobs = s.jobs → ¬ Touches t x.id s (.op t c) s' ∧ ¬ Mishap t s (.op t c) s' :=
    fun hadv hcommit hadd hjobs => ⟨hadv.untouched hs h hcommit hjobs,
      hadv.no_mishap (fun he => absurd he hcommit) fun id d he => absurd he (hadd id d)⟩
  rw [hk] at hf
  cases st with
  | connect | begin | update | insert =>
    cases hf
    obtain ⟨ht, hm⟩ := hquiet hadv (by simp) (by simp) hadv.sql_jobs
    have hboth := or_both_false hacc ht hm
    cases r with
    | error err => exact iff_of_both_false hboth
    | ok _ => exact hboth
  | select =>
    cases hf
    obtain ⟨ht, hm⟩ := hquiet hadv (by simp) (by simp) hadv.sql_jobs
    have hboth := or_both_false hacc ht hm
    rcases r with err | _ | status
    · exact iff_of_both_false hboth
    · exact hboth
    · cases status <;> exact hboth
  | rollback err =>
    cases hf
    obtain ⟨ht, hm⟩ := hquiet hadv (by simp) (by simp) hadv.sql_jobs
    have hboth : (p ∨ Touches t x.id s (.op t c) s') ↔ (q ∨ Mishap t s (.op t c) s') := by
      rw [or_iff_left ht, or_iff_left hm]
      exact hacc
    cases r <;> exact hboth
  | clock y =>
    cases hf
    have hjobs : s'.jobs = s.jobs := by
      have hdone := hadv.done
      cases hdone
      rw [hadv.world]
    obtain ⟨-, hm⟩ := hquiet hadv (by simp) (by simp) hjobs
    exact ⟨Or.inl hacc.1, fun h => h.elim hacc.2 hm⟩
  | add y ms =>
    obtain ⟨ht, hno⟩ := hacc
    cases hf
    have hdone := hadv.done
    by_cases hfault : c.fault = .none
    · simp only [perform, Fault.run, hfault, Fault.answer] at hdone
      cases hdone
      trivial
    · have hmis : Mishap t s (.op t c) s' :=
        ⟨c, th, rfl, hadv.live, Or.inr ⟨Thread.enqueuing_iff.mpr ⟨_, _, _, hadv.prog⟩, hfault⟩⟩
      cases r with
      | error err => exact iff_of_true (Or.inl ht) (Or.inr hmis)
      | ok _ => trivial
  | commit res =>
    cases hf
    have htables : s'.pg.db = s.pg.db → ¬ Touches t x.id s (.op t c) s' := fun hdb htouch =>
      htouch.2 ⟨by rw [hdb], by rw [hdb], hadv.sql_jobs⟩
    by_cases hres : res = .ok
    · subst hres
      obtain ⟨hseen, g, g', htx⟩ := hst
      obtain ⟨hans, ws, -, hdb⟩ := hadv.commits hs htx
      have hkr : th.kind.retries x.id := Or.inl ⟨x.spelling, hk⟩
      have htouch : c.fault ≠ .before → Touches t x.id s (.op t c) s' := by
        intro hf
        obtain ⟨-, -, tr, hlog⟩ := hadv.retry_commits hs hkr ⟨hseen, g, g', htx⟩ hf
        refine ⟨⟨c, rfl⟩, fun hsame => ?_⟩
        rw [hlog] at hsame
        exact List.cons_ne_nil _ _ (List.append_right_eq_self.mp hsame.2.1)
      cases hfault : c.fault with
      | none =>
        rw [hfault] at hans
        subst hans
        refine ⟨Or.inr (htouch (by simp [hfault])), fun h => h.elim hacc.2 ?_⟩
        exact hadv.no_mishap (fun _ => Or.inr (by simp [hfault])) fun id d he => by cases he
      | before =>
        rw [hfault] at hans
        subst hans
        have hdb : s'.pg.db = s.pg.db := by rw [hdb, if_pos hfault]
        exact iff_of_both_false (or_both_false hacc (htables hdb)
          (hadv.no_mishap (fun _ => Or.inr (by simp [hfault])) fun id d he => by cases he))
      | after =>
        rw [hfault] at hans
        subst hans
        refine iff_of_true (Or.inr (htouch (by simp [hfault]))) (Or.inr ?_)
        exact ⟨c, th, rfl, hadv.live,
          Or.inl ⟨Thread.committing_iff.mpr ⟨_, hadv.prog⟩, hseen, hfault⟩⟩
    · have hnone : th.facts.seen ≠ some .dlq ∧ th.facts.tx = some [] := by
        cases res with
        | ok => exact absurd rfl hres
        | notFound => exact hst
        | notInDlq status => exact hst
      obtain ⟨-, ws, hws, hdb⟩ := hadv.commits hs hnone.2
      obtain rfl := List.map_eq_nil_iff.mp hws
      rw [Db.applyAll_nil, ite_self] at hdb
      have hboth : ¬ (p ∨ Touches t x.id s (.op t c) s') ∧ ¬ (q ∨ Mishap t s (.op t c) s') :=
        or_both_false (by cases res <;> exact hacc) (htables hdb)
          (hadv.no_mishap (fun _ => Or.inl hnone.1) fun id d he => by cases he)
      cases r with
      | error err => exact iff_of_both_false hboth
      | ok _ =>
        cases res with
        | ok => exact absurd rfl hres
        | notFound => exact iff_of_both_false hboth
        | notInDlq status => exact iff_of_both_false hboth
  | finished r => cases hf

/-! ## The request from its start to its answer -/

/-- What is known of the request `t` in the course of a run. -/
structure Traced (t : Tid) (x : IdText) (p q : Prop) (v : State) : Prop where
  ok : v.Ok
  started : t < v.threads.length
  stage : ∀ th, v.live? t = some th → th.kind = .postRetry x ∧ ∃ st, th.AtStage x.id st ∧ st.Account p q

theorem Traced.step (hI : Traced t x p q s) (h : step env s l = some s') :
    Traced t x (p ∨ Touches t x.id s l s') (q ∨ Mishap t s l s') s' where
  ok := hI.ok.step h
  started := Nat.lt_of_lt_of_le hI.started (step_length h)
  stage := by
    intro th' ht'
    by_cases hop : ∃ c, l = .op t c
    · obtain ⟨c, rfl⟩ := hop
      obtain ⟨th, e, r, k, w, m, hadv⟩ := stepOp_cases h
      obtain rfl := Option.some.inj (ht'.symm.trans hadv.live?_self)
      obtain ⟨hk, st, hst, hacc⟩ := hI.stage th hadv.live
      obtain ⟨f, hf, hnext⟩ := hadv.stage hI.ok (Or.inl ⟨x.spelling, hk⟩) hst
      exact ⟨hk, f r, hnext, hadv.account hI.ok h hk hst.knows hf hacc⟩
    · have htouch : ¬ Touches t x.id s l s' := fun h => hop h.1
      have hmis : ¬ Mishap t s l s' := fun ⟨c, _, hl, _⟩ => hop ⟨c, hl⟩
      have hkept := step_threads (P := fun u th => u = t →
        th.kind = .postRetry x ∧ ∃ st, th.AtStage x.id st ∧ st.Account p q) h ?_ ?_ ?_ ?_
      · rw [or_iff_left htouch, or_iff_left hmis]
        exact hkept t th' ht' rfl
      · rintro u th hu rfl
        exact hI.stage th hu
      · rintro u th th' hk hold rfl
        obtain ⟨hkind, st, hst, hacc⟩ := hold rfl
        exact ⟨hk.kind.trans hkind, st, hk.atStage hst, hacc⟩
      · rintro u k hlen - rfl
        exact absurd hI.started (Nat.not_lt.mpr hlen)
      · rintro t' c th e r k w m rfl - - rfl
        exact absurd ⟨c, rfl⟩ hop

/-- **Manual retry is all or nothing** when it has no mishap, and only then: a request that answers an
error has changed neither the status of the delivery, nor its transitions, nor the queue, if and only
if it did not lose the answer to the COMMIT of a retry, and its `add` did not throw. -/
theorem retry_untouched_iff {C : State → Label → Prop} (h : Reachable env C s) {ls : List Label}
    (hrun : Run (step env) C (s.spawn env (.postRetry x)) ls s')
    (ht : s'.live? s.threads.length = some th) {err : Err} (herr : th.prog = .raise err) :
    ¬ Occurs (step env) (Touches s.threads.length x.id) (s.spawn env (.postRetry x)) ls ↔
      ¬ Occurs (step env) (Mishap s.threads.length) (s.spawn env (.postRetry x)) ls := by
  have hspawn : step env s (.request (.postRetry x)) = some (s.spawn env (.postRetry x)) := rfl
  have hstart : Traced s.threads.length x False False (s.spawn env (.postRetry x)) := by
    refine ⟨(reachable_ok h).step hspawn, ?_, fun th ht => ?_⟩
    · simp [State.spawn]
    · rw [State.live?_spawn, if_pos rfl] at ht
      cases ht
      exact ⟨rfl, .connect, atStage_fresh (Or.inl ⟨x.spelling, rfl⟩), id, id⟩
  have hinv := hrun.recall (P := Touches s.threads.length x.id) (Q := Mishap s.threads.length)
    (I := Traced s.threads.length x) (fun p q v l v' hI _ hstep => hI.step hstep) hstart
  obtain ⟨hk, st, hst, hacc⟩ := hinv.stage th ht
  have hprog := hst.prog.symm.trans herr
  rw [hk] at hprog
  cases st with
  | finished r =>
    cases r with
    | error err => exact not_congr hacc
    | ok a => cases hprog
  | commit res => cases res <;> cases hprog
  | _ => cases hprog

theorem untouched_alone {C : State → Label → Prop} {ls : List Label} (hrun : Run (step env) C s ls s')
    (hown : ∀ l ∈ ls, ∃ c, l = .op t c) (h : ¬ Occurs (step env) (Touches t d) s ls) :
    s'.pg.db.status? d = s.pg.db.status? d ∧ s'.pg.db.log d = s.pg.db.log d ∧ s'.jobs = s.jobs := by
  induction hrun with
  | nil => exact ⟨rfl, rfl, rfl⟩
  | cons hC hstep _ ih =>
    rw [occurs_cons hstep] at h
    obtain ⟨h1, h2⟩ := not_or.mp h
    obtain ⟨i1, i2, i3⟩ := ih (fun l hl => hown l (List.mem_cons_of_mem _ hl)) h2
    obtain ⟨c, rfl⟩ := hown _ List.mem_cons_self
    by_contra hne
    refine h1 ⟨⟨c, rfl⟩, fun hsame => hne ?_⟩
    exact ⟨i1.trans hsame.1, i2.trans hsame.2.1, i3.trans hsame.2.2⟩

/-! ## Half done -/

/-- The calls of request 11 up to its `add`, which throws. -/
def sampleHalfDone : List Label := calls 11 7 ++ [.op 11 { fault := .before }]

theorem sampleHalfDone_own : ∀ l ∈ sampleHalfDone, ∃ c, l = .op 11 c := by
  intro l hl
  rcases List.mem_append.mp hl with hl | hl
  · exact ⟨_, List.eq_of_mem_replicate hl⟩
  · exact ⟨_, List.mem_singleton.mp hl⟩

/-- The delivery is in DLQ, its retry commits, and the queue is down. -/
theorem sample_halfDone : ∃ s s' th, Reachable sampleEnv (fun _ _ => True) s ∧
    s.threads.length = 11 ∧ s.pg.db.status? 2 = some .dlq ∧
      Run (step sampleEnv) (fun _ _ => True) (s.spawn sampleEnv (.postRetry 2)) sampleHalfDone s' ∧
        s'.pg.db.status? 2 = some .pending ∧ s'.live? 11 = some th ∧ th.prog = .raise .infra := by
  obtain ⟨s, hreach, hs⟩ := sample_run (C := fun _ _ => True) sampleDlq
    (fun s => s.threads.length = 11 ∧ s.pg.db.status? 2 = some .dlq ∧
      (runOf (step sampleEnv) (fun _ _ => True) (s.spawn sampleEnv (.postRetry 2))
        sampleHalfDone).any fun s' => s'.pg.db.status? 2 = some .pending ∧
          (s'.live? 11).any fun th => th.thrown = some .infra) (by decide +kernel)
  obtain ⟨hlen, hdlq, hany⟩ := of_decide_eq_true hs
  obtain ⟨s', hrun, hs'⟩ := exists_run hany
  obtain ⟨hpending, hlive⟩ := of_decide_eq_true hs'
  obtain ⟨th, ht, hth⟩ := (Option.any_eq_true _ _).mp hlive
  exact ⟨s, s', th, hreach, hlen, hdlq, hrun, hpending, ht,
    Thread.thrown_eq (of_decide_eq_true hth)⟩

theorem retry_untouched_iff_down : ∃ (s s' : State) (th : Thread), s'.live? s.threads.length = some th ∧
    th.prog = .raise .infra ∧
      (¬ Occurs (step sampleEnv) (Touches s.threads.length 2) (s.spawn sampleEnv (.postRetry 2))
          sampleHalfDone ↔
        ¬ Occurs (step sampleEnv) (Mishap s.threads.length) (s.spawn sampleEnv (.postRetry 2))
          sampleHalfDone) := by
  obtain ⟨s, s', th, hreach, hlen, -, hrun, -, ht, herr⟩ := sample_halfDone
  rw [← hlen] at ht
  exact ⟨s, s', th, ht, herr, retry_untouched_iff hreach hrun ht herr⟩

/-- A retry whose `add` throws leaves the delivery PENDING. -/
theorem retry_half_done : ¬ ∀ (s s' : State) (ls : List Label) (x : IdText) (th : Thread)
    (err : Err), Reachable sampleEnv (fun _ _ => True) s →
      Run (step sampleEnv) (fun _ _ => True) (s.spawn sampleEnv (.postRetry x)) ls s' →
        s'.live? s.threads.length = some th → th.prog = .raise err →
          ¬ Occurs (step sampleEnv) (Touches s.threads.length x.id)
            (s.spawn sampleEnv (.postRetry x)) ls := by
  intro h
  obtain ⟨s, s', th, hreach, hlen, hdlq, hrun, hpending, ht, herr⟩ := sample_halfDone
  rw [← hlen] at ht
  have hno := h s s' _ 2 th .infra hreach hrun ht herr
  rw [hlen] at hno
  obtain ⟨hsame, -⟩ := untouched_alone hrun sampleHalfDone_own hno
  have hkept : s'.pg.db.status? 2 = some .dlq := hsame.trans hdlq
  cases hpending.symm.trans hkept

end WebhookEngine
