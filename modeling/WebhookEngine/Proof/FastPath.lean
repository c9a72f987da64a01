import WebhookEngine.Proof.Calls

set_option autoImplicit false

/-!
# The idempotency fast path

A `wh:idem` key is set after the COMMIT of the event it stands for, by a SET nobody waits for.

* `Db.Names`: the event is committed and the key was built from its client and its key.
* `step_grows`: committed events stay.
* **`reachable_remembered`**: whatever an execution is about to send, what is on its way to Redis and
  what Redis stores names a committed event.
-/

namespace WebhookEngine

open EffectProg TransitionSystem

variable {env : Env} {s s' : State} {l : Label} {t u : Tid} {th th' : Thread} {x : String × EventId}

/-- The event is committed and has this key in the fast path. -/
def Db.Names (db : Db) (x : String × EventId) : Prop :=
  ∃ row ∈ db.events, row.id = x.2 ∧ idemRedisKey row.clientId row.idempotencyKey = x.1

/-! ## Committed events -/

theorem Db.applyAll_events {db : Db} (ws : List Write) :
    ∀ r ∈ db.events, r ∈ (db.applyAll ws).events := (Db.applyAll_grows (x := 0) ws).1

theorem Committed.grows {k : Kind} {m : Facts} {db db' : Db} {tx : List Entry}
    (h : Committed k m db tx db') : ∀ r ∈ db.events, r ∈ db'.events := by
  cases h with
  | nil => exact fun _ h => h
  | move h reason g₁ id τ τ' => exact Db.applyAll_events _
  | record h reason g₁ g₂ id τ₁ τ τ' => exact Db.applyAll_events _
  | ingest hk c i ty p ep ev d id τ₁ τ τ' => exact Db.applyAll_events _
  | claim hk h => exact Db.applyAll_events _

theorem Advance.grows {c : Choice} {e : Eff} {r : e.Resp} {k : e.Resp → Code Reply} {w : World}
    {m : Memory} (h : Advance s s' t c th e r k w m) (hs : s.Ok) :
    ∀ row ∈ s.pg.db.events, row ∈ s'.pg.db.events := by
  have hw : s'.pg = w.pg := by rw [h.world]
  rw [hw]
  by_cases he : ∃ q, e = .sql q
  · obtain ⟨q, rfl⟩ := he
    obtain ⟨pg', sess', hex, rfl, rfl⟩ := perform_sql h.done
    cases ((hs.threads t th h.live).sql hs.db h.prog hex).server with
    | tables htab => exact fun row hrow => htab.events ▸ hrow
    | commit hq hc => exact hc.grows
    | touch => exact fun _ h => h
  · have hpg := (perform_other (fun q hq => he ⟨q, hq⟩) h.done).1
    rw [hpg]
    exact fun _ h => h

theorem step_grows (hs : s.Ok) (h : step env s l = some s') :
    ∀ row ∈ s.pg.db.events, row ∈ s'.pg.db.events := by
  rcases step_cases h with ⟨t, c, -, h⟩ | h
  · obtain ⟨th, e, r, k, w, m, h⟩ := stepOp_cases h
    exact h.grows hs
  · exact fun row hrow => h.tables.events ▸ hrow

theorem Db.Names.step (hs : s.Ok) (h : step env s l = some s') (hx : s.pg.db.Names x) :
    s'.pg.db.Names x := by
  obtain ⟨row, hrow, hx⟩ := hx
  exact ⟨row, step_grows hs h row hrow, hx⟩

theorem Db.applyAll_names {db : Db} {ws : List Write}
    (hx : x ∈ (ws.map fun w => (w.stmt, w.gen)).filterMap Entry.named?) : (db.applyAll ws).Names x := by
  induction ws generalizing db with
  | nil => cases hx
  | cons w ws ih =>
    obtain ⟨st, g, τ⟩ := w
    cases st with
    | insertEvent c i ty p =>
      rcases List.mem_cons.mp hx with rfl | hx
      · exact ⟨⟨g, c, i, ty, p, τ⟩, Db.applyAll_events ws _ (by simp [Db.apply]), rfl, rfl⟩
      · exact ih hx
    | _ => exact ih hx

/-! ## What an execution may send -/

theorem Advance.named {c : Choice} {e : Eff} {r : e.Resp} {k : e.Resp → Code Reply} {w : World}
    {m : Memory} (h : Advance s s' t c th e r k w m) (hs : s.Ok)
    (hx : x ∈ (th.facts.next e r).named) : x ∈ th.facts.named ∨ s'.pg.db.Names x := by
  have hok := hs.threads t th h.live
  have hw : s'.pg = w.pg := by rw [h.world]
  rw [hw]
  cases e with
  | sql q =>
    obtain ⟨pg', sess', hex, rfl, rfl⟩ := perform_sql h.done
    have hperm := hok.permits h.prog
    cases q with
    | commit =>
      cases r with
      | error y => exact Or.inl hx
      | ok y =>
        rcases List.mem_append.mp hx with hx | hx
        · refine Or.inr ?_
          obtain ⟨tx, htx, -⟩ := hperm
          obtain ⟨σ, hσ, hwr⟩ := hok.sess_some htx
          simp only [Sql.exec, Option.some.injEq, Prod.mk.injEq] at hex
          obtain ⟨rfl, -, hans⟩ := hex
          have hfault := (Fault.answer_ok hans).1
          have hdb : (if c.fault = .before then s.pg.db else
              s.pg.db.applyAll ((th.mem.sess.map (·.writes)).getD [])) = s.pg.db.applyAll σ.writes := by
            rw [hfault, hσ]
            rfl
          change Db.Names (ite _ _ _) x
          rw [hdb]
          rw [htx, ← hwr] at hx
          exact Db.applyAll_names hx
        · exact Or.inl hx
    | selectEventId cl i =>
      cases r with
      | error y => exact Or.inl hx
      | ok ev =>
        rcases List.mem_append.mp hx with hx | hx
        · refine Or.inr ?_
          simp only [Sql.exec, readWith, Option.some.injEq, Prod.mk.injEq] at hex
          obtain ⟨rfl, -, hans⟩ := hex
          rw [hok.view_eq (Or.inl hperm)] at hans
          have hev : ev = _ := (Fault.answer_ok hans).2
          rw [hev, Option.map_map] at hx
          obtain ⟨row, hrow, rfl⟩ := Option.map_eq_some_iff.mp (Option.mem_toList.mp hx)
          obtain ⟨hc, hi⟩ : row.clientId = cl ∧ row.idempotencyKey = i := by
            simpa using List.find?_some hrow
          exact ⟨row, List.mem_of_find?_eq_some hrow, rfl, by rw [hc, hi]; rfl⟩
        · exact Or.inl hx
    | write st =>
      cases r with
      | error y => exact Or.inl hx
      | ok g => cases g <;> exact Or.inl hx
    | _ => cases r <;> exact Or.inl hx
  | redis cmd =>
    cases cmd with
    | setLock d token ttl => cases r <;> exact Or.inl hx
    | _ => exact Or.inl hx
  | queueAdd id d => cases r <;> exact Or.inl hx
  | _ => exact Or.inl hx

/-! ## Redis -/

theorem RedisCmd.exec_idem (cmd : RedisCmd) (now : Time) (r : Redis) :
    (cmd.exec now r).1.idem = r.idem := by
  cases cmd <;> simp only [RedisCmd.exec] <;> (try split) <;> rfl

theorem Redis.extendLock_idem (r : Redis) (now : Time) (d : IdText) (token : Tid) (ttl : ℕ) :
    (r.extendLock now d token ttl).1.idem = r.idem := by
  unfold Redis.extendLock
  split <;> rfl

/-- Where the entries of the fast path come from. -/
structure IdemStep (s s' : State) : Prop where
  sent : ∀ x ∈ s'.idemInFlight, x ∈ s.idemInFlight ∨
    ∃ t th k, s.live? t = some th ∧ th.prog = .op (.sendIdem x.1 x.2) k
  stored : ∀ key ev exp, s'.redis.idem key = some (ev, exp) →
    s.redis.idem key = some (ev, exp) ∨ (key, ev) ∈ s.idemInFlight

theorem IdemStep.of_eq (h : s'.idemInFlight = s.idemInFlight) (h' : s'.redis.idem = s.redis.idem) :
    IdemStep s s' where
  sent _ hx := Or.inl (h ▸ hx)
  stored _ _ _ hx := Or.inl (h' ▸ hx)

theorem Advance.idem {c : Choice} {e : Eff} {r : e.Resp} {k : e.Resp → Code Reply} {w : World}
    {m : Memory} (h : Advance s s' t c th e r k w m) : IdemStep s s' := by
  have hw : s'.idemInFlight = w.idemInFlight ∧ s'.redis = w.redis := by
    rw [h.world]
    exact ⟨rfl, rfl⟩
  have hdone := h.done
  cases e with
  | sql q =>
    obtain ⟨pg', sess', -, rfl, rfl⟩ := perform_sql hdone
    exact .of_eq hw.1 (congrArg Redis.idem hw.2)
  | redis cmd =>
    refine .of_eq ?_ ?_
    · cases hdone
      exact hw.1
    · have hredis : w.redis = (c.fault.run s.redis (cmd.exec s.now s.redis)).1 := by cases hdone; rfl
      rw [hw.2, hredis, Fault.run]
      split
      · rfl
      · exact cmd.exec_idem s.now s.redis
  | sendIdem key ev =>
    cases hdone
    refine ⟨fun x hx => ?_, fun _ _ _ hx => Or.inl (hw.2 ▸ hx)⟩
    rw [hw.1] at hx
    rcases List.mem_append.mp hx with hx | hx
    · exact Or.inl hx
    · rw [List.mem_singleton.mp hx]
      exact Or.inr ⟨t, th, k, h.live, h.prog⟩
  | moveToDelayed id until_ =>
    simp only [perform, World.moveToDelayed] at hdone
    split at hdone <;> cases hdone <;> exact .of_eq hw.1 (congrArg Redis.idem hw.2)
  | _ =>
    cases hdone
    exact .of_eq hw.1 (congrArg Redis.idem hw.2)

theorem step_idem (h : step env s l = some s') : IdemStep s s' := by
  cases step_happens h with
  | op h => exact h.idem
  | settle _ _ h => cases h <;> exact .of_eq rfl rfl
  | extend => exact .of_eq rfl (Redis.extendLock_idem ..)
  | @evict key =>
    refine ⟨fun x hx => Or.inl hx, fun k ev exp hx => Or.inl ?_⟩
    cases key with
    | idem key =>
      have hx : Function.update s.redis.idem key none k = some (ev, exp) := hx
      by_cases hk : k = key
      · rw [hk, Function.update_self] at hx
        cases hx
      · rwa [Function.update_of_ne hk] at hx
    | _ => exact hx
  | @idemArrive i y hy =>
    refine ⟨fun x hx => Or.inl (List.mem_of_mem_eraseIdx hx), fun k ev exp hx => ?_⟩
    have hx : Function.update s.redis.idem y.1 (some (y.2, s.now + env.idemTtlSeconds * 1000)) k =
        some (ev, exp) := hx
    by_cases hk : k = y.1
    · rw [hk, Function.update_self] at hx
      cases hx
      exact Or.inr (hk ▸ List.mem_of_getElem? hy)
    · rw [Function.update_of_ne hk] at hx
      exact Or.inl hx
  | redisLoss =>
    refine ⟨fun x hx => Or.inl hx, fun k ev exp hx => ?_⟩
    cases hx
  | _ => exact .of_eq rfl rfl

/-! ## The invariant -/

/-- **What the fast path remembers** names committed events. -/
structure Remembered (s : State) : Prop where
  named : ∀ t th, s.live? t = some th → ∀ x ∈ th.facts.named, s.pg.db.Names x
  sent : ∀ x ∈ s.idemInFlight, s.pg.db.Names x
  stored : ∀ key ev exp, s.redis.idem key = some (ev, exp) → s.pg.db.Names (key, ev)

theorem Remembered.step (hI : Remembered s) (hs : s.Ok) (h : step env s l = some s') :
    Remembered s' where
  named u th' hu x hx := by
    cases step_arises h hu with
    | called _ hadv hth =>
      subst hth
      rcases hadv.named hs hx with hx | hx
      · exact (hI.named u _ hadv.live x hx).step hs h
      · exact hx
    | @kept th _ hlive hkept =>
      have hf : th'.facts = th.facts := congrArg facts hkept.trace
      exact (hI.named u th hlive x (hf ▸ hx)).step hs h
    | fresh hlen hstart hth =>
      subst hth
      cases hx
  sent x hx := by
    rcases (step_idem h).sent x hx with hx | ⟨t, th, k, hlive, hp⟩
    · exact (hI.sent x hx).step hs h
    · exact (hI.named t th hlive x ((hs.threads t th hlive).permits hp)).step hs h
  stored key ev exp hx := by
    rcases (step_idem h).stored key ev exp hx with hx | hx
    · exact (hI.stored key ev exp hx).step hs h
    · exact (hI.sent _ hx).step hs h

theorem reachable_remembered {C : State → Label → Prop} (h : Reachable env C s) : Remembered s := by
  have hinv : Reachable env C s ∧ Remembered s := by
    refine h.invariant (I := fun s => Reachable env C s ∧ Remembered s)
      ⟨.refl _, ⟨fun t th ht => ?_, nofun, nofun⟩⟩ ?_
    · simp [State.live?] at ht
    · rintro s l s' ⟨hr, hI⟩ hl hstep
      exact ⟨hr.snoc hl hstep, hI.step (reachable_ok hr) hstep⟩
  exact hinv.2

end WebhookEngine
