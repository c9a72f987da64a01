import Mathlib.Data.List.Chain
import WebhookEngine.Proof.Phases

set_option autoImplicit false

/-!
# The chain of transitions

* `Engaged`: a processor that may still write, or the handler of an exhausted job, with the row it
  read; `Expected` is the status it takes the delivery to have.
* `Ordered.alone`: while an execution is engaged with a delivery no other one changes it, so what it
  takes for the status is the status.
* **`transitions_connected`**: in runs without loss of Redis and of locks the audit log of a delivery
  starts with (NULL, PENDING), and each later row starts where the one before ends.
-/

namespace WebhookEngine

open EffectProg TransitionSystem

variable {env : Env} {s s' : State} {l : Label} {t u : Tid} {th th' : Thread} {d : DeliveryId}

theorem Inert.step (h : step env s l = some s') (hI : Inert env s) : Inert env s' := by
  intro u th' job hu hk hmax
  cases step_arises h hu with
  | called _ hadv hth =>
    subst hth
    exact absurd hadv.prog (hI u _ job hadv.live hk hmax _ _)
  | kept _ hlive hkept =>
    rw [hkept.prog]
    exact hI u _ job hlive (hkept.kind.symm.trans hk) hmax
  | @fresh kd hlen hstart hth =>
    subst hth
    have hkd : kd = .failed job := hk
    subst hkd
    intro e k hp
    simp [program, handleFailed, hmax] at hp

/-! ## Engaged executions -/

/-- The execution works on the delivery from the row it read. -/
inductive Engaged (env : Env) (th : Thread) (d : DeliveryId) (r : DeliveryForWorker) : Prop where
  | worker {job : JobRef} (hk : th.kind = .deliver job) (hd : job.deliveryId = d)
      (hw : th.facts.Working r)
  | handler {job : JobRef} (hk : th.kind = .failed job) (hd : job.deliveryId = d)
      (hrow : th.facts.row = some r) (ha : Agent env th d)

/-- The status it takes the delivery to have. -/
def Facts.expected (m : Facts) (r : DeliveryForWorker) : Status :=
  if m.moved then .delivering else r.status

theorem Engaged.row {r : DeliveryForWorker} (h : Engaged env th d r) : th.facts.row = some r := by
  cases h with
  | worker hk hd hw => exact hw.row
  | handler hk hd hrow ha => exact hrow

theorem Engaged.unspent {r : DeliveryForWorker} (h : Engaged env th d r) :
    th.facts.spent = false := by
  cases h with
  | worker hk hd hw => exact hw.unspent
  | handler hk hd hrow ha => exact ha.unspent

theorem Engaged.kind {r : DeliveryForWorker} (h : Engaged env th d r) :
    ∃ job : JobRef, (th.kind = .deliver job ∨ th.kind = .failed job) ∧ job.deliveryId = d := by
  cases h with
  | worker hk hd hw => exact ⟨_, Or.inl hk, hd⟩
  | handler hk hd hrow ha => exact ⟨_, Or.inr hk, hd⟩

/-- What is invariant: the phases, and that the engaged know the status. -/
structure Ordered (env : Env) (s : State) : Prop where
  inert : Inert env s
  phase : ∀ d, Phase env s d
  knows : ∀ t th d r, s.live? t = some th → Engaged env th d r →
    s.pg.db.status? d = some (th.facts.expected r)

/-- **Who changes a delivery is engaged with it, or takes it from DLQ**; and in either case the status
it starts from is the one it takes the delivery to have. -/
theorem Change.engaged (ht : Committing s t th) (hs : s.Ok) (hinert : Inert env s)
    (hcall : ∀ c, th.kind ≠ .repoCall c) {D D' : Dossier}
    (hc : Change th.kind th.facts d (some D) (some D')) :
    ∃ tr, D'.log = D.log ++ [tr] ∧ D'.row.status = tr.toStatus ∧
      ((∃ x, Engaged env th d x ∧ tr.fromStatus = some (th.facts.expected x)) ∨
        s.pg.db.status? d = some .dlq ∧ tr.fromStatus = some .dlq) := by
  cases hc with
  | @moved D f g a hmv id hid gen hm reason τ τ' =>
    refine ⟨_, rfl, rfl, ?_⟩
    generalize hkind : th.kind = kd at hmv
    cases hmv with
    | @mark job _ x hw hmoved =>
      exact Or.inl ⟨x, .worker hkind rfl hw, by simp [Facts.expected, hmoved]⟩
    | @exhaust job _ x hrow hne hmoved hsp =>
      have ha := hinert.agent ht hkind hmoved hsp
      exact Or.inl ⟨x, .handler hkind rfl hrow ha, by simp [Facts.expected, hmoved]⟩
    | retry hk hseen hmoved hsp =>
      have hseen' := (hs.threads t th ht.live).seen d .dlq (hkind ▸ hk) hseen (ht.open_ hs)
      exact Or.inr ⟨hseen'.2, rfl⟩
    | call => exact absurd hkind (hcall _)
  | @recorded D a f g next hrec ha hnew id hid gen hm reason τ τ' =>
    refine ⟨_, rfl, rfl, Or.inl ?_⟩
    generalize hkind : th.kind = kd at hrec
    cases hrec with
    | @circuit job _ x _ next hw hmoved hd hn ho =>
      exact ⟨x, .worker hkind (hd.symm.trans ha) hw, by simp [Facts.expected, hmoved]⟩
    | @outcome job _ x _ next hw hmoved hd hn ho hnext =>
      exact ⟨x, .worker hkind (hd.symm.trans ha) hw, by simp [Facts.expected, hmoved]⟩
    | call => exact absurd hkind (hcall _)

theorem Ordered.unique (hI : Ordered env s) (hl : LockKept s l) (ht : s.live? t = some th)
    (hu : s.live? u = some th') {r r' : DeliveryForWorker} (h : Engaged env th d r)
    (h' : Engaged env th' d r') : t = u := by
  cases h with
  | worker hk hd hw =>
    cases h' with
    | worker hk' hd' hw' =>
      -- they run one job, so that they write the id alike
      have hid := (hI.phase d).processed_unique ⟨t, th, _, ht, hk, rfl, hd⟩
        ⟨u, th', _, hu, hk', rfl, hd'⟩
      have htext := congrArg₂ IdText.mk (hd.trans hd'.symm) (congrArg JobId.spelling hid)
      exact hl.unique ht hu hk hk' htext hw.holds hw'.holds
    | handler hk' hd' hrow' ha' =>
      have hp : s.processed d _ := ⟨t, th, _, ht, hk, rfl, hd⟩
      exact absurd ⟨th', hu, ha'⟩ ((hI.phase d).of_processed hp |>.1 u)
  | handler hk hd hrow ha =>
    cases h' with
    | worker hk' hd' hw' =>
      have hp : s.processed d _ := ⟨u, th', _, hu, hk', rfl, hd'⟩
      exact absurd ⟨th, ht, ha⟩ ((hI.phase d).of_processed hp |>.1 t)
    | handler hk' hd' hrow' ha' =>
      obtain ⟨huniq, -⟩ := (hI.phase d).of_agent ⟨th', hu, ha'⟩
      exact huniq t ⟨th, ht, ha⟩

theorem Ordered.not_dlq (hI : Ordered env s) (ht : s.live? t = some th) {r : DeliveryForWorker}
    (h : Engaged env th d r) : s.pg.db.status? d ≠ some .dlq := by
  cases h with
  | worker hk hd hw => exact ((hI.phase d).of_processed ⟨t, th, _, ht, hk, rfl, hd⟩).2
  | handler hk hd hrow ha => exact ((hI.phase d).of_agent ⟨th, ht, ha⟩).2

theorem Engaged.isSome (hs : s.Ok) (ht : s.live? t = some th) {r : DeliveryForWorker}
    (h : Engaged env th d r) : ∃ D, s.pg.db.dossier? d = some D := by
  obtain ⟨job, hk, hd⟩ := h.kind
  have hsome := (hs.threads t th ht).knows d (.row hk hd (by rw [h.row]; rfl))
  obtain ⟨row, hrow⟩ := Option.isSome_iff_exists.mp hsome
  exact ⟨⟨row, s.pg.db.log d, s.pg.db.attemptsOf d⟩, by simp [Db.dossier?, hrow]⟩

/-- **While an execution is engaged with a delivery no other one changes its status.** -/
theorem Ordered.alone (hI : Ordered env s) (hs : s.Ok)
    (hcall : ∀ t th, s.live? t = some th → ∀ c, th.kind ≠ .repoCall c) (hl : LockKept s l)
    (h : step env s l = some s') (hu : s.live? u = some th') {r : DeliveryForWorker}
    (he : Engaged env th' d r) (hne : ∀ c, l ≠ .op u c) :
    s'.pg.db.status? d = s.pg.db.status? d := by
  rcases story hs h d with h' | ⟨D, τ, hD, h'⟩ | ⟨t, c, th, ans, k, w, m, hop, hadv, hc⟩
  · exact Db.status?_of_dossier? h'
  · rw [Db.status?_eq h', Db.status?_eq hD]
    rfl
  · obtain ⟨D, hD⟩ := he.isSome hs hu
    obtain ⟨D', hD'⟩ := story_isSome hs h hD
    rw [hD, hD'] at hc
    obtain ⟨tr, -, -, ⟨x, hx, -⟩ | ⟨hdlq, -⟩⟩ := hc.engaged hadv.committing hs hI.inert
      (hcall t th hadv.live)
    · obtain rfl := hI.unique hl hadv.live hu hx he
      exact absurd hop (hne c)
    · exact absurd hdlq (hI.not_dlq hu he)

/-! ## What the engaged know -/

theorem Facts.working_next {m : Facts} {e : Eff} {r : e.Resp} {x : DeliveryForWorker}
    (hrow : (m.next e r).row = m.row)
    (hlock : ∀ d token ttl, e = .redis (.setLock d token ttl) → m.row = none)
    (h : (m.next e r).Working x) : m.Working x := by
  have hx : m.row = some x := hrow.symm.trans h.row
  refine ⟨?_, hx, h.open_, Facts.next_unspent r h.unspent⟩
  rcases Facts.next_holds r h.holds with hh | ⟨d, token, ttl, he⟩
  · exact hh
  · rw [hlock d token ttl he] at hx
    cases hx

theorem Engaged.before {c : Choice} {e : Eff} {r : e.Resp} {k : e.Resp → Code Reply} {w : World}
    {m : Memory} (hadv : Advance s s' t c th e r k w m) (hs : s.Ok)
    (hrow : (th.facts.next e r).row = th.facts.row) {x : DeliveryForWorker}
    (h : Engaged env (th.after e r k m) d x) : Engaged env th d x := by
  have hok := hs.threads t th hadv.live
  cases h with
  | worker hk hd hw =>
    refine .worker hk hd (Facts.working_next hrow ?_ hw)
    rintro d token ttl rfl
    obtain ⟨-, -, -, -, hnone, -⟩ := hok.permits hadv.prog
    exact hnone
  | handler hk hd hrow' ha =>
    refine .handler hk hd (hrow.symm.trans hrow') ⟨Facts.next_unspent r ha.unspent, Or.inl ?_⟩
    rcases ha.role with ⟨job, hk', hd', hmax, hm⟩ | ⟨⟨n, hk'⟩, -⟩
    · exact ⟨job, hk', hd', hmax, Facts.next_unmoved r hm⟩
    · cases hk.symm.trans hk'

theorem Engaged.committed {c : Choice} {r : Except Err Unit} {k : Except Err Unit → Code Reply}
    {w : World} {m : Memory} (hadv : Advance s s' t c th (.sql .commit) r k w m) (hs : s.Ok)
    {x : DeliveryForWorker} (h : Engaged env (th.after (.sql .commit) r k m) d x)
    (hold : s.pg.db.status? d = some (th.facts.expected x)) :
    s'.pg.db.status? d = some ((th.facts.nextSql .commit r).expected x) := by
  have hok := hs.threads t th hadv.live
  have hsp : (th.facts.nextSql .commit r).spent = false := h.unspent
  cases r with
  | error y => cases hsp
  | ok y =>
    have hmoved : (th.facts.nextSql .commit (.ok y)).moved =
        (th.facts.moved || th.tx.any fun e => e.1.isMove) := rfl
    have hspent : (th.facts.spent || th.tx.any fun e => e.1.isRecord) = false := hsp
    obtain ⟨job, hk, hd⟩ := h.kind
    have hk : th.kind = .deliver job ∨ th.kind = .failed job := hk
    have hc := hadv.committed hs
    change _ = some (if (th.facts.moved || th.tx.any fun e => e.1.isMove) then _ else _)
    generalize hmine : th.tx = tx at hc hspent
    generalize s'.pg.db = db' at hc ⊢
    cases hc with
    | nil => simpa [Facts.expected] using hold
    | @move d' f g a hmv reason g₁ id τ τ' =>
      have hmark : d' = d ∧ (g = .delivering ∨ th.kind = .failed job) := by
        generalize hkind : th.kind = kd at hmv
        cases hmv with
        | mark hw hm =>
          rcases hk with hk | hk <;> cases hkind.symm.trans hk
          exact ⟨hd, Or.inl rfl⟩
        | exhaust hrow hne hm hsp' =>
          rcases hk with hk | hk <;> cases hkind.symm.trans hk
          exact ⟨hd, Or.inr rfl⟩
        | retry hk' hs' hm hsp' =>
          rcases hk' with ⟨n, rfl⟩ | rfl <;> rcases hk with hk | hk <;> cases hkind.symm.trans hk
        | call => rcases hk with hk | hk <;> cases hkind.symm.trans hk
      obtain ⟨rfl, hg⟩ := hmark
      have hsome : (s.pg.db.delivery? d').isSome := Db.status?_isSome hold
      rw [Db.status?_move hsome]
      rcases hg with rfl | hfailed
      · simp [Stmt.isMove]
      · -- a handler that has moved is no agent any more
        have hm' : (th.facts.nextSql .commit (.ok y)).moved = true := by
          rw [hmoved, hmine]
          simp [Stmt.isMove]
        cases h with
        | worker hk' => cases hfailed.symm.trans hk'
        | handler hk' hd' hrow' ha =>
          rcases ha.role with ⟨_, -, -, -, hm⟩ | ⟨⟨n, hk''⟩, -⟩
          · exact absurd (hm.symm.trans hm') Bool.false_ne_true
          · cases hk'.symm.trans hk''
    | record => simp [Stmt.isRecord] at hspent
    | ingest hk' =>
      rcases hk' with ⟨_, hk'⟩ | ⟨_, hk'⟩ <;> rcases hk with hk | hk <;> cases hk'.symm.trans hk
    | claim hk' =>
      rcases hk' with hk' | ⟨_, hk'⟩ <;> rcases hk with hk | hk <;> cases hk'.symm.trans hk

theorem Ordered.step (hs : s.Ok) (hjobs : s.jobs.Ok env)
    (hcall : ∀ t th, s.live? t = some th → ∀ c, th.kind ≠ .repoCall c) (hl : Undisturbed env s l)
    (h : step env s l = some s') (hI : Ordered env s) : Ordered env s' where
  inert := hI.inert.step h
  phase d := Phase.step hs hjobs hI.inert hcall hl.2 h (hI.phase d)
  knows u th' d r hu he := by
    cases step_arises h hu with
    | @called c th e ans k w m hl' hadv hth =>
      subst hl' hth
      by_cases hcommit : e = .sql .commit
      · subst hcommit
        have hrow : (th.facts.nextSql .commit ans).row = th.facts.row :=
          (Facts.nextSql_commit _ ans).2.1
        have hold := hI.knows u th d r hadv.live (he.before hadv hs hrow)
        exact he.committed hadv hs hold
      · have hmoved := Facts.next_moved (m := th.facts) ans hcommit
        rw [hadv.status? hs h hcommit, Facts.expected, Thread.facts_after, hmoved]
        rcases hadv.row hs with hrow | ⟨job, hk, rfl, hrow, -⟩
        · exact hI.knows u th d r hadv.live (he.before hadv hs hrow)
        · -- the row was just read
          obtain ⟨-, hunmoved, -⟩ := (hs.threads u th hadv.live).permits hadv.prog
          obtain ⟨job', hk', rfl⟩ := he.kind
          have hk' : th.kind = .deliver job' ∨ th.kind = .failed job' := hk'
          have hjob : job' = job := by
            rcases hk with hk | hk <;> rcases hk' with hk' | hk' <;> cases hk.symm.trans hk' <;> rfl
          subst hjob
          obtain ⟨row, hdel, hst, -⟩ := Db.forDelivery_isSome (hrow.symm.trans he.row)
          rw [hunmoved, hst, Db.status?, hdel]
          rfl
    | @kept th hop hlive hkept =>
      have hf : th'.facts = th.facts := congrArg WebhookEngine.facts hkept.trace
      have hold : Engaged env th d r := by
        cases he with
        | worker hk hd hw => exact .worker (hkept.kind.symm.trans hk) hd (hf ▸ hw)
        | handler hk hd hrow ha =>
          refine .handler (hkept.kind.symm.trans hk) hd (hf ▸ hrow) ⟨hf ▸ ha.unspent, ?_⟩
          rw [← hf, ← hkept.kind]
          exact ha.role
      rw [hf, hI.alone hs hcall hl.1.2 h hlive hold hop]
      exact hI.knows u th d r hlive hold
    | fresh hlen hstart hth =>
      subst hth
      cases he.row

theorem ordered_init : Ordered env {} where
  inert t th job h := by simp [State.live?] at h
  phase d := by
    refine .active (.delivery d) (Or.inl rfl) ?_ ?_ ?_ fun h => ?_
    · rintro id ⟨j, hj, -⟩
      cases hj
    · rintro id ⟨t, th, job, h, -⟩
      simp [State.live?] at h
    · rintro t ⟨th, h, -⟩
      simp [State.live?] at h
    · cases h
  knows t th d r h := by simp [State.live?] at h

theorem reachable_ordered (h : Reachable env (Undisturbed env) s) : Ordered env s := by
  have hinv : Reachable env (Undisturbed env) s ∧ Ordered env s := by
    obtain ⟨ls, h⟩ := h
    refine h.invariant (I := fun s => Reachable env (Undisturbed env) s ∧ Ordered env s) ?_
      ⟨.refl _, ordered_init⟩
    rintro s l s' ⟨hr, hI⟩ hl hstep
    refine ⟨hr.snoc hl hstep, hI.step (reachable_ok hr) (reachable_jobs hr) ?_ hl hstep⟩
    exact fun t th hlive => kind_ne_call Undisturbed.noCalls hr hlive
  exact hinv.2

/-! ## The log -/

/-- The log starts with (NULL, PENDING), and each row starts where the one before ends. -/
structure Connected (log : List TransitionRow) : Prop where
  first : ∃ tr rest, log = tr :: rest ∧ tr.fromStatus = none ∧ tr.toStatus = .pending
  links : log.IsChain fun a b => b.fromStatus = some a.toStatus

theorem Connected.append {log : List TransitionRow} (h : Connected log) {last tr : TransitionRow}
    {before : List TransitionRow} (hlast : log = before ++ [last])
    (htr : tr.fromStatus = some last.toStatus) : Connected (log ++ [tr]) := by
  refine ⟨?_, ?_⟩
  · obtain ⟨tr₀, rest, hlog, h1, h2⟩ := h.first
    exact ⟨tr₀, rest ++ [tr], by rw [hlog]; rfl, h1, h2⟩
  · rw [List.isChain_append]
    refine ⟨h.links, List.isChain_singleton _, fun a ha b hb => ?_⟩
    have ha' : last = a := by simpa [hlast] using ha
    have hb' : tr = b := by simpa using hb
    rw [← ha', ← hb', htr]

theorem reachable_connected (h : Reachable env (Undisturbed env) s) {D : Dossier}
    (hD : s.pg.db.dossier? d = some D) : Connected D.log := by
  refine reachable_dossier (P := fun D => Connected D.log) ?_ (fun D τ h => h) ?_ h hD
  · intro d ev ep id τ τ'
    exact ⟨⟨_, [], rfl, rfl, rfl⟩, List.isChain_singleton _⟩
  · intro s t th d D D' hr ht hD hI hc
    have hord := reachable_ordered hr
    have hcall := kind_ne_call Undisturbed.noCalls hr ht.live
    obtain ⟨-, before, last, hlog, hlast⟩ := reachable_projects hr hD
    have hstatus := Db.status?_eq hD
    obtain ⟨tr, hlog', -, hfrom⟩ := hc.engaged ht (reachable_ok hr) hord.inert hcall
    have htr : tr.fromStatus = some last.toStatus := by
      rw [hlast]
      rcases hfrom with ⟨x, hx, hfrom⟩ | ⟨hdlq, hfrom⟩
      · rw [hfrom, ← hord.knows t th d x ht.live hx, hstatus]
      · rw [hfrom, ← hdlq, hstatus]
    rw [hlog']
    exact hI.append hlog htr

/-- **The transition chain is connected**: in the order of their ids the audit rows of a delivery
start with (NULL, PENDING), and each later one starts where the one before ends. -/
theorem transitions_connected (h : Reachable env (Undisturbed env) s) {row : DeliveryRow}
    (hrow : row ∈ s.pg.db.deliveries) :
    ((s.pg.db.log row.id).Pairwise fun a b => a.id < b.id) ∧
      (∃ tr rest, s.pg.db.log row.id = tr :: rest ∧ tr.fromStatus = none ∧
        tr.toStatus = .pending) ∧
      (s.pg.db.log row.id).IsChain fun a b => b.fromStatus = some a.toStatus := by
  have hD := (reachable_ok h).db.dossier?_of_mem hrow
  have hconn := reachable_connected h hD
  exact ⟨(reachable_projects h hD).sorted, hconn.first, hconn.links⟩

/-- A worker died after it marked the delivery and another one has marked it again. -/
theorem transitions_connected_repickup : ∃ s row, Reachable sampleEnv (Undisturbed sampleEnv) s ∧
    row ∈ s.pg.db.deliveries ∧ 3 ≤ (s.pg.db.log row.id).length ∧
      (s.pg.db.log row.id).IsChain fun a b => b.fromStatus = some a.toStatus := by
  obtain ⟨s, hreach, hs⟩ := sample_run (C := Undisturbed sampleEnv) sampleRepickup
    (fun s => s.pg.db.deliveries.any fun row => 3 ≤ (s.pg.db.log row.id).length) (by decide +kernel)
  obtain ⟨row, hrow, hlen⟩ := List.any_eq_true.mp hs
  exact ⟨s, row, hreach, hrow, by simpa using hlen, (transitions_connected hreach hrow).2.2⟩

end WebhookEngine
