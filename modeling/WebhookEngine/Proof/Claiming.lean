import WebhookEngine.Proof.Deadlock
import WebhookEngine.Proof.Sweep

set_option autoImplicit false

/-!
# What a sweep may add

`claimUnenqueued` adds jobs from inside its transaction, one row after the other, while workers, manual
retries and other sweeps go on.

* **`dossier_held`**: nothing about a delivery changes while another execution holds its row.
* `Claims`: the rows the SELECT of the open transaction has answered; `safe_claims`: only for these does
  the sweep add jobs, under their own ids.
* `Claimed`, `reachable_claimed`: they are locked, and as they were when the SELECT chose them.
* **`sweep_exact`**: what a sweep is about to add is still to be recovered, and no other sweep has it.
-/

namespace WebhookEngine

open EffectProg TransitionSystem

variable {env : Env} {C : State → Label → Prop} {s s' : State} {l : Label} {t u : Tid} {th th' : Thread}
  {d : DeliveryId}

/-! ## Rows that are held -/

theorem Db.dossier?_claim_other {db : Db} {ws : List Write}
    (hws : ∀ w ∈ ws, ∃ x, w.stmt = .updateEnqueued x ∧ d ≠ x) :
    (db.applyAll ws).dossier? d = db.dossier? d := by
  induction ws generalizing db with
  | nil => rfl
  | cons w ws ih =>
    obtain ⟨st, g, τ⟩ := w
    obtain ⟨x, rfl, hx⟩ := hws ⟨st, g, τ⟩ List.mem_cons_self
    rw [Db.applyAll_cons, ih fun w hw => hws w (List.mem_cons_of_mem _ hw), Db.dossier?_touch, if_neg hx]

theorem Committed.dossier_held {pg : Postgres} {db' : Db}
    (hc : Committed th.kind th.facts pg.db th.tx db') (hdb : DbOk pg.db) (hok : th.Ok pg t)
    (hsome : (pg.db.delivery? d).isSome) (hfree : pg.locks (.row d) ≠ some t) :
    db'.dossier? d = pg.db.dossier? d := by
  have htx := hok.tx
  generalize hmine : th.tx = tx at hc htx
  cases hc with
  | nil => rfl
  | @move x f g a h reason g₁ id τ τ' =>
    rw [Db.dossier?_move, if_neg]
    rintro rfl
    exact hfree (htx.owns _ List.mem_cons_self _ rfl)
  | @record a f g next h reason g₁ g₂ id τ₁ τ τ' =>
    rw [Db.dossier?_record, if_neg]
    rintro rfl
    exact hfree (htx.owns (.updateAttempt a.deliveryId g next, g₂) (by simp) _ rfl)
  | ingest hk c i ty p ep ev x id τ₁ τ τ' =>
    obtain ⟨-, hnone⟩ := htx.pending (.insertDelivery ev ep, x) (by simp)
    rw [Db.dossier?_ingest hnone (Db.log_empty hdb hnone) (Db.attemptsOf_empty hdb hnone), if_neg]
    rintro rfl
    rw [hnone] at hsome
    cases hsome
  | @claim ws hk h =>
    refine Db.dossier?_claim_other fun w hw => ?_
    obtain ⟨x, hx⟩ := h w hw
    refine ⟨x, hx, ?_⟩
    rintro rfl
    refine hfree (htx.owns (w.stmt, w.gen) (List.mem_map_of_mem hw) _ ?_)
    rw [hx]
    rfl

theorem Writes.free {pg pg' : Postgres} {now : Time} {sess sess' : Option Session} {st : Stmt}
    {r : Except Err (Option ℕ)} (h : Writes pg t now sess st pg' sess' r) :
    pg' = pg ∨ st.key.all (pg.free t) := by
  cases h with
  | refused => exact Or.inl rfl
  | missed => exact Or.inl rfl
  | joins hs hfree hv => exact Or.inr hfree
  | alone hs hfree hv => exact Or.inr hfree

theorem Sql.exec_held {pg pg' : Postgres} {now : Time} {fault : Fault} {rows : List DeliveryId} {q : Sql}
    {r : Except Err q.Ret} {sess' : Option Session} {k : Except Err q.Ret → Code Reply} (hdb : DbOk pg.db)
    (hok : th.Ok pg t) (hp : th.prog = .op (.sql q) k)
    (hex : q.exec pg t now th.mem.sess fault rows = some (pg', sess', r))
    (hsome : (pg.db.delivery? d).isSome) (hlock : pg.locks (.row d) = some u) (hu : u ≠ t) :
    pg'.db.dossier? d = pg.db.dossier? d := by
  cases (hok.sql hdb hp hex).server with
  | tables hsame _ _ => exact hsame.dossier? d
  | commit hq hc =>
    subst hq
    refine hc.dossier_held hdb hok hsome fun h => hu ?_
    exact Option.some.inj (hlock.symm.trans h)
  | @touch x hq htx =>
    subst hq
    by_cases hx : d = x
    · subst hx
      rcases (Stmt.exec_cases hex).free with h | h
      · exact congrArg (fun pg : Postgres => pg.db.dossier? d) h
      · exact absurd (Postgres.free_iff.mp h u hlock) hu
    · change Db.dossier? (Db.apply _ _) d = _
      rw [Db.dossier?_touch, if_neg hx]

/-- **Nothing about a delivery changes while another execution holds its row.** -/
theorem dossier_held (hs : s.Ok) (h : step env s l = some s') (hlock : s.pg.locks (.row d) = some u)
    (hl : ∀ c, l ≠ .op u c) : s'.pg.db.dossier? d = s.pg.db.dossier? d := by
  rcases step_cases h with ⟨t, c, rfl, h⟩ | h
  · obtain ⟨th, e, r, k, w, m, hadv⟩ := stepOp_cases h
    have hu : u ≠ t := fun hu => hl c (by rw [hu])
    have hok := hs.threads t th hadv.live
    by_cases he : ∃ q, e = .sql q
    · obtain ⟨q, rfl⟩ := he
      obtain ⟨pg', sess', hex, rfl, rfl⟩ := perform_sql hadv.done
      rw [hadv.world]
      exact Sql.exec_held hs.db hok hadv.prog hex (hs.rows d u hlock) hlock hu
    · obtain ⟨hpg, -⟩ := perform_other (fun q hq => he ⟨q, hq⟩) hadv.done
      rw [hadv.world, hpg]
  · exact h.tables.dossier? d

/-! ## The rows of a sweep -/

/-- The rows the SELECT of the open transaction has answered. -/
def Claims.next (m : Option (List DeliveryId)) : (e : Eff) → e.Resp → Option (List DeliveryId)
  | .sql (.selectUnenqueued _ _), .ok rows => some rows
  | .sql .begin, _ => none
  | .sql .commit, _ => none
  | .sql .rollback, _ => none
  | _, _ => m

/-- Jobs are added for these rows, under their own ids. -/
def permitsClaim (env : Env) (m : Option (List DeliveryId)) : Eff → Prop
  | .sql (.selectUnenqueued grace _) => grace = env.reconcilerGraceSeconds
  | .queueAdd id d => id = .delivery d ∧ ∃ rows, m = some rows ∧ d ∈ rows
  | _ => True

/-- The monitor. -/
def claims (env : Env) : Monitor Eff Eff.Resp (Option (List DeliveryId)) where
  next := Claims.next
  permits := permitsClaim env
  expects _ _ _ := True

/-- What the execution has claimed in its open transaction. -/
abbrev Thread.claimed (env : Env) (th : Thread) : Option (List DeliveryId) :=
  th.watched (claims env) none

section Program

variable {m : Option (List DeliveryId)}

theorem safe_claimEach_claims {rows ds : List DeliveryId} (hds : ∀ d ∈ ds, d ∈ rows)
    {Q : Option (List DeliveryId) → Except Err Unit → Prop} (hQ : ∀ x, Q (some rows) x) :
    Prog.Safe (claims env) (some rows) (claimEach ds) Q := by
  induction ds with
  | nil => exact hQ _
  | cons d ds ih =>
    refine Prog.safe_bind.mpr ⟨⟨rfl, rows, rfl, hds d List.mem_cons_self⟩, fun x _ =>
      Prog.safe_ofExcept.mpr ?_⟩
    cases x with
    | error y => exact hQ _
    | ok _ =>
      refine Prog.safe_bind.mpr ⟨trivial, fun x _ => Prog.safe_ofExcept.mpr ?_⟩
      cases x with
      | error y => exact hQ _
      | ok _ => exact ih fun x hx => hds x (List.mem_cons_of_mem _ hx)

/-- **A sweep adds jobs for the rows of its SELECT only.** -/
theorem safe_claims (limit : ℕ) {Q : Option (List DeliveryId) → Except Err ℕ → Prop} (hQ : ∀ m x, Q m x) :
    Prog.Safe (claims env) none (claimUnenqueued env limit) Q := by
  refine Prog.safe_bind.mpr ⟨trivial, fun x _ => Prog.safe_ofExcept.mpr ?_⟩
  cases x with
  | error y => exact hQ _ _
  | ok _ =>
    have hrollback : ∀ m y, Prog.Safe (claims env) m ((sql .rollback).bind fun _ => Prog.raise y) Q := by
      refine fun m y => Prog.safe_bind.mpr ⟨trivial, fun x _ => Prog.safe_ofExcept.mpr ?_⟩
      cases x <;> exact hQ _ _
    refine Prog.safe_tryCatch.mpr (Prog.safe_bind.mpr ⟨trivial, fun x _ => Prog.safe_ofExcept.mpr ?_⟩)
    cases x with
    | error y => exact hrollback _ _
    | ok _ =>
      refine Prog.safe_bind.mpr (Prog.safe_bind.mpr ⟨rfl, fun x _ => Prog.safe_ofExcept.mpr ?_⟩)
      cases x with
      | error y => exact hrollback _ _
      | ok rows =>
        refine Prog.safe_bind.mpr (safe_claimEach_claims (fun _ h => h) fun x => ?_)
        cases x with
        | error y => exact hrollback _ _
        | ok _ =>
          refine Prog.safe_bind.mpr ⟨trivial, fun x _ => Prog.safe_ofExcept.mpr ?_⟩
          cases x with
          | error y => exact hrollback _ _
          | ok _ => exact hQ _ _

theorem safe_claims_program (t : Tid) {k : Kind} (hk : k.claims) :
    Prog.Safe (claims env) none (program env t k) fun _ _ => True := by
  rcases hk with rfl | ⟨limit, rfl⟩
  · exact Prog.safe_bind.mpr (safe_claims _ fun m x => by cases x <;> trivial)
  · exact Prog.safe_bind.mpr (safe_claims _ fun m x => by cases x <;> trivial)

end Program

theorem Sql.exec_inside {pg pg' : Postgres} {now : Time} {σ : Session} {sess' : Option Session}
    {fault : Fault} {rows : List DeliveryId} {q : Sql} {r : Except Err q.Ret}
    (h : q.exec pg t now (some σ) fault rows = some (pg', sess', r)) (hq : q ≠ .begin)
    (hcloses : q.closes = false) : ∃ σ', sess' = some σ' ∧ σ'.startedAt = σ.startedAt ∧
      pg'.db.deliveries = pg.db.deliveries := by
  cases q with
  | begin => exact absurd rfl hq
  | commit | rollback => cases hcloses
  | write st =>
    have hw := Stmt.exec_cases h
    generalize hsess : some σ = sess at hw
    cases hw with
    | refused => exact ⟨σ, hsess.symm, rfl, rfl⟩
    | missed => exact ⟨σ, hsess.symm, rfl, rfl⟩
    | joins hs hfree hv =>
      cases hsess.trans hs
      refine ⟨_, rfl, rfl, ?_⟩
      cases st <;> rfl
    | alone hs hfree hv => cases hsess.trans hs
  | selectUnenqueued grace limit =>
    simp only [Sql.exec] at h
    split at h
    · split at h
      · cases h
        exact ⟨σ, rfl, rfl, rfl⟩
      · cases h
    · cases h
      exact ⟨σ, rfl, rfl, rfl⟩
  | selectStatusForUpdate d =>
    simp only [Sql.exec] at h
    split at h
    · split at h
      · split at h <;> cases h <;> exact ⟨σ, rfl, rfl, rfl⟩
      · cases h
    · cases h
      exact ⟨σ, rfl, rfl, rfl⟩
  | _ =>
    cases h
    exact ⟨σ, rfl, rfl, rfl⟩

theorem Sql.exec_selectUnenqueued {pg pg' : Postgres} {now : Time} {σ : Session} {sess' : Option Session}
    {fault : Fault} {rows ds : List DeliveryId} {grace limit : ℕ}
    (h : (Sql.selectUnenqueued grace limit).exec pg t now (some σ) fault rows =
      some (pg', sess', .ok ds)) :
    sess' = some σ ∧ pg'.db = pg.db ∧
      ∀ d ∈ ds, ∃ row, pg.db.delivery? d = some row ∧ claimable grace σ.startedAt row = true := by
  simp only [Sql.exec] at h
  split at h
  · split at h
    · rename_i hmay
      cases h
      refine ⟨rfl, rfl, fun d hd => ?_⟩
      obtain ⟨-, -, hrows, -⟩ := of_decide_eq_true hmay
      exact (Option.any_eq_true _ _).mp (hrows d hd).1
    · cases h
  · cases h

/-- **The rows a sweep has claimed** are locked, and as they were when its SELECT chose them. -/
def Claimed (env : Env) (s : State) : Prop :=
  ∀ t th rows, s.live? t = some th → th.kind.claims → th.claimed env = some rows →
    (∃ keys, th.holdings.keys = some keys ∧ ∀ d ∈ rows, .row d ∈ keys) ∧
      ∃ σ, th.mem.sess = some σ ∧ ∀ d ∈ rows, ∃ row, s.pg.db.delivery? d = some row ∧
        claimable env.reconcilerGraceSeconds σ.startedAt row = true

theorem Db.dossier?_of_delivery? {db : Db} {row : DeliveryRow} (h : db.delivery? d = some row) :
    db.dossier? d = some ⟨row, db.log d, db.attemptsOf d⟩ := by
  simp [Db.dossier?, h]

theorem claims_permits {c : Choice} {e : Eff} {r : e.Resp} {k : e.Resp → Code Reply} {w : World}
    {m : Memory} (hr : Reachable env C s) (hadv : Advance s s' t c th e r k w m) (hk : th.kind.claims) :
    permitsClaim env (th.claimed env) e := by
  have hsafe := @reachable_watched env C s (Option (List DeliveryId)) Kind.claims (fun _ _ => claims env)
    none (fun _ _ _ _ => True) (fun t k hk => safe_claims_program t hk) (fun _ _ _ _ _ => trivial) hr t th
    (State.live?_eq_some.mp hadv.live).1 hk
  rw [hadv.prog] at hsafe
  exact hsafe.1

theorem Holdings.next_inside {m : Holdings} {q : Sql} {keys : List LockKey} (hkeys : m.keys = some keys)
    (hq : q ≠ .begin) (hcloses : q.closes = false) (r : Except Err q.Ret) :
    (m.next (.sql q) r).keys = some (keys ++ q.takes r) := by
  cases q with
  | begin => exact absurd rfl hq
  | commit | rollback => cases hcloses
  | _ => simp [Holdings.next, Sql.closes, hkeys]

theorem Claimed.inside (hI : Claimed env s) {c : Choice} {q : Sql} {r : Except Err q.Ret}
    {k : Except Err q.Ret → Code Reply} {w : World} {m : Memory} {rows : List DeliveryId}
    (hadv : Advance s s' t c th (.sql q) r k w m) (hk : th.kind.claims) (hq : q ≠ .begin)
    (hcloses : q.closes = false) (hm : th.claimed env = some rows) :
    (∃ keys, (th.holdings.next (.sql q) r).keys = some keys ∧ ∀ d ∈ rows, .row d ∈ keys) ∧
      ∃ σ, m.sess = some σ ∧ ∀ d ∈ rows, ∃ row, s'.pg.db.delivery? d = some row ∧
        claimable env.reconcilerGraceSeconds σ.startedAt row = true := by
  obtain ⟨⟨keys, hkeys, hrows⟩, σ, hσ, hclaim⟩ := hI t th rows hadv.live hk hm
  obtain ⟨pg', sess', hex, rfl, rfl⟩ := perform_sql hadv.done
  rw [hσ] at hex
  obtain ⟨σ', rfl, hstarted, hdb⟩ := Sql.exec_inside hex hq hcloses
  refine ⟨⟨_, Holdings.next_inside hkeys hq hcloses r, fun d hd => ?_⟩, σ', rfl, fun d hd => ?_⟩
  · exact List.mem_append_left _ (hrows d hd)
  · rw [hadv.world, hstarted, Db.delivery?, hdb]
    exact hclaim d hd

theorem reachable_claimed (h : Reachable env C s) : Claimed env s := by
  refine h.along (I := Claimed env) (fun t th rows ht => by simp [State.live?] at ht) ?_
  intro s l s' hr hI _ hstep u th' rows hu hk hm
  have hs := reachable_ok hr
  cases step_arises hstep hu with
  | @called c th e r k w m hl hadv hth =>
    subst hl hth
    have hm : Claims.next (th.claimed env) e r = some rows := hm
    have hsafe := claims_permits hr hadv hk
    by_cases he : ∃ q, e = .sql q
    · obtain ⟨q, rfl⟩ := he
      obtain ⟨pg', sess', hex, rfl, rfl⟩ := perform_sql hadv.done
      -- every statement but the SELECT and the ends of the transaction
      have hinside : q ≠ .begin → q.closes = false → th.claimed env = some rows → _ :=
        fun hq hcloses hm => hI.inside hadv hk hq hcloses hm
      cases q with
      | begin => cases hm
      | commit | rollback => cases hm
      | selectUnenqueued grace limit =>
        cases r with
        | error x => exact hinside (by simp) rfl hm
        | ok ds =>
          cases hm
          have hgrace : grace = env.reconcilerGraceSeconds := hsafe
          subst hgrace
          have hok := hs.threads u th hadv.live
          obtain ⟨htx, -, -⟩ := hok.permits hadv.prog
          obtain ⟨σ, hσ, -⟩ := hok.sess_some htx
          rw [hσ] at hex
          obtain ⟨rfl, hdb, hclaim⟩ := Sql.exec_selectUnenqueued hex
          obtain ⟨keys, hkeys⟩ := Option.isSome_iff_exists.mp (hok.sess_open.symm.trans (by rw [hσ]; rfl))
          have hkeys' : (th.holdings.next (.sql (.selectUnenqueued env.reconcilerGraceSeconds limit))
              (.ok rows)).keys = some (keys ++ rows.map .row) := Holdings.next_inside hkeys (by simp) rfl _
          refine ⟨⟨_, hkeys', fun d hd => ?_⟩, σ, rfl, ?_⟩
          · exact List.mem_append_right _ (List.mem_map_of_mem hd)
          · rw [hadv.world, hdb]
            exact hclaim
      | _ => exact hinside (by simp) rfl hm
    · have hne : ∀ q, e ≠ .sql q := fun q hq => he ⟨q, hq⟩
      obtain ⟨hpg, hsess⟩ := perform_other hne hadv.done
      have hm : th.claimed env = some rows := by
        cases e with
        | sql q => exact absurd rfl (hne q)
        | _ => exact hm
      obtain ⟨⟨keys, hkeys, hrows⟩, σ, hσ, hclaim⟩ := hI u th rows hadv.live hk hm
      refine ⟨⟨keys, ?_, hrows⟩, σ, hsess.trans hσ, fun d hd => ?_⟩
      · exact (Holdings.next_keys _ hne r).trans hkeys
      · rw [hadv.world, hpg]
        exact hclaim d hd
  | @kept th hop hlive hkept =>
    have hm : th.claimed env = some rows := by
      rw [Thread.claimed, Thread.watched, ← hkept.trace]
      exact hm
    obtain ⟨⟨keys, hkeys, hrows⟩, σ, hσ, hclaim⟩ := hI u th rows hlive (hkept.kind ▸ hk) hm
    refine ⟨⟨keys, ?_, hrows⟩, σ, hkept.sess.trans hσ, fun d hd => ?_⟩
    · rw [Thread.holdings, hkept.trace]
      exact hkeys
    · obtain ⟨row, hrow, hc⟩ := hclaim d hd
      have hlock := (reachable_keyed hr).held u th keys hlive hkeys _ (hrows d hd)
      have hsame := dossier_held hs hstep hlock hop
      rw [(Db.dossier?_of_delivery? hrow)] at hsame
      exact ⟨row, (Db.dossier?_eq_some.mp hsame).1, hc⟩
  | fresh hlen hstart hth =>
    subst hth
    cases hm

/-- **A sweep is exact**: whenever it is about to add a job, the job is that of a delivery whose row it
holds, that is still PENDING, or FAILED with its next attempt overdue, and has not been touched for the
grace period; and no other sweep has claimed that delivery. -/
theorem sweep_exact (h : Reachable env C s) (ht : s.live? t = some th) (hk : th.kind.claims) {id : JobId}
    {k : Except Err Unit → Code Reply} (hp : th.prog = .op (.queueAdd id d) k) :
    id = .delivery d ∧ s.pg.locks (.row d) = some t ∧
      (∃ row σ, s.pg.db.delivery? d = some row ∧ th.mem.sess = some σ ∧
        (row.status = .pending ∨ row.status = .failed ∧ ∃ next ∈ row.nextAttemptAt, next < σ.startedAt) ∧
          row.updatedAt + env.reconcilerGraceSeconds * 1000 < σ.startedAt) ∧
      ∀ u th' rows, s.live? u = some th' → th'.kind.claims → th'.claimed env = some rows →
        d ∈ rows → u = t := by
  have hsafe := @reachable_watched env C s (Option (List DeliveryId)) Kind.claims (fun _ _ => claims env)
    none (fun _ _ _ _ => True) (fun t k hk => safe_claims_program t hk) (fun _ _ _ _ _ => trivial) h t th
    (State.live?_eq_some.mp ht).1 hk
  rw [hp] at hsafe
  obtain ⟨hid, rows, hrows, hd⟩ := hsafe.1
  obtain ⟨⟨keys, hkeys, hheld⟩, σ, hσ, hclaim⟩ := reachable_claimed h t th rows ht hk hrows
  obtain ⟨row, hrow, hc⟩ := hclaim d hd
  have hlock : s.pg.locks (.row d) = some t := (reachable_keyed h).held t th keys ht hkeys _ (hheld d hd)
  refine ⟨hid, hlock, ⟨row, σ, hrow, hσ, ?_⟩, fun u th' rows' hu hk' hrows' hd' => ?_⟩
  · obtain ⟨hst, hupd⟩ := of_decide_eq_true hc
    refine ⟨hst.imp_right fun hst => ⟨hst.1, ?_⟩, hupd⟩
    obtain ⟨next, hnext, hlt⟩ := (Option.any_eq_true _ _).mp hst.2
    exact ⟨next, hnext, of_decide_eq_true hlt⟩
  · obtain ⟨⟨keys', hkeys', hheld'⟩, -⟩ := reachable_claimed h u th' rows' hu hk' hrows'
    have hlock' := (reachable_keyed h).held u th' keys' hu hkeys' _ (hheld' d hd')
    exact Option.some.inj (hlock'.symm.trans hlock)

theorem Thread.adding_eq_some {id : JobId} (h : th.adding = some (id, d)) :
    th.kind.claims ∧ ∃ k, th.prog = .op (.queueAdd id d) k := by
  unfold Thread.adding at h
  split at h
  · rename_i k hp
    split at h
    · rename_i hk
      cases h
      exact ⟨hk, k, hp⟩
    · cases h
  · cases h

theorem sweep_exact_pending : ∃ s th row, Reachable sampleEnv NoCalls s ∧ s.live? 1 = some th ∧
    th.kind.claims ∧ s.pg.locks (.row 2) = some 1 ∧ s.pg.db.delivery? 2 = some row ∧
      (row.status = .pending ∨ row.status = .failed) := by
  obtain ⟨s, hreach, hs⟩ := sample_run (C := NoCalls)
    (sampleIngest ++ [.tick 60001, .request .sweep] ++ calls 1 2 ++ [.op 1 { rows := [2] }])
    (fun s => (s.live? 1).any fun th => th.adding = some (.delivery 2, 2)) (by decide +kernel)
  obtain ⟨th, ht, hadding⟩ := (Option.any_eq_true _ _).mp hs
  obtain ⟨hk, k, hp⟩ := Thread.adding_eq_some (of_decide_eq_true hadding)
  obtain ⟨-, hlock, ⟨row, σ, hrow, -, hst, -⟩, -⟩ := sweep_exact hreach ht hk hp
  exact ⟨s, th, row, hreach, ht, hk, hlock, hrow, hst.imp_right And.left⟩

end WebhookEngine
