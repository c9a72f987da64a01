import WebhookEngine.Model.Endpoints
import WebhookEngine.Proof.Creation
import WebhookEngine.Proof.Derived
import WebhookEngine.Proof.References
import WebhookEngine.Proof.Watched

set_option autoImplicit false

/-!
# From the request of a client to the request to its endpoint

* `Db.Lasts`, **`step_lasts`**: events, the references of deliveries and the secrets of endpoints are
  written once.
* `Mirrors`: what a processor has read of a delivery agrees with the tables for ever.
* `Honours`: the event and the delivery of a request of the API, as the tables have them.
* `orders`: the monitor of `POST /v1/events`; what it inserts is what it was asked for.
* **`requests_faithful`**: every request that is sent carries what the client has sent.
* **`accepted_durable`**: what was accepted as new is in the tables.
-/

namespace WebhookEngine

open EffectProg TransitionSystem

variable {env : Env} {C : State → Label → Prop} {s s' : State} {l : Label} {t u : Tid}
  {th th' : Thread} {job : JobRef} {db db' db'' : Db}

/-! ## What is written once -/

/-- **What stays**: events as they are, deliveries with their references, endpoints with their client
and their secret. -/
structure Db.Lasts (db db' : Db) : Prop where
  delivery : ∀ d row, db.delivery? d = some row → ∃ row', db'.delivery? d = some row' ∧
    row'.eventId = row.eventId ∧ row'.endpointId = row.endpointId ∧
      row.attemptCount ≤ row'.attemptCount
  event : ∀ ev row, db.event? ev = some row → db'.event? ev = some row
  endpoint : ∀ ep e, db.endpoint? ep = some e → ∃ e', db'.endpoint? ep = some e' ∧
    e'.clientId = e.clientId ∧ e'.signingSecret = e.signingSecret

theorem story_references (hs : s.Ok) (h : step env s l = some s') {d : DeliveryId} {row : DeliveryRow}
    (hrow : s.pg.db.delivery? d = some row) : ∃ row', s'.pg.db.delivery? d = some row' ∧
      row'.eventId = row.eventId ∧ row'.endpointId = row.endpointId ∧
        row.attemptCount ≤ row'.attemptCount := by
  have hD : s.pg.db.dossier? d = some ⟨row, s.pg.db.log d, s.pg.db.attemptsOf d⟩ := by
    simp [Db.dossier?, hrow]
  rcases story hs h d with hsame | ⟨D, τ, hD₁, hD'⟩ | ⟨t, c, th, x, k, w, m, -, -, hc⟩
  · exact ⟨row, (Db.dossier?_eq_some.mp (hsame.trans hD)).1, rfl, rfl, Nat.le_refl _⟩
  · rw [hD] at hD₁
    cases hD₁
    exact ⟨_, (Db.dossier?_eq_some.mp hD').1, rfl, rfl, Nat.le_refl _⟩
  · rw [hD] at hc
    cases hD' : s'.pg.db.dossier? d with
    | none =>
      rw [hD'] at hc
      cases hc
    | some D' =>
      have hrow' := (Db.dossier?_eq_some.mp hD').1
      rw [hD'] at hc
      cases hc with
      | moved => exact ⟨_, hrow', rfl, rfl, Nat.le_refl _⟩
      | recorded => exact ⟨_, hrow', rfl, rfl, Nat.le_succ _⟩

/-- **What a step makes of an endpoint.** -/
theorem step_endpoint (hr : s.Refs) (h : step env s l = some s') {ep : EndpointId} {e : EndpointRow}
    (he : s.pg.db.endpoint? ep = some e) : s'.pg.db.endpoint? ep = some (l.patch ep e) := by
  have hsame : s'.pg.db.endpoints = s.pg.db.endpoints → s'.pg.db.endpoint? ep = some e := fun hp =>
    (Db.endpoint?_congr hp ep).trans he
  cases step_happens h with
  | @op t c th call x k w m _ hadv =>
    refine hsame ?_
    rw [hadv.world]
    by_cases hq : ∃ q, call = .sql q
    · obtain ⟨q, rfl⟩ := hq
      obtain ⟨pg', sess', hex, rfl, -⟩ := perform_sql hadv.done
      exact (Sql.exec_refs hex hr.rows fun σ hσ => hr.open_ _ _ σ hadv.live hσ).endpoints
    · exact congrArg (·.db.endpoints) (perform_other (fun q hq' => hq ⟨q, hq'⟩) hadv.done).1
  | settle _ _ hset => cases hset <;> exact hsame rfl
  | createEndpoint hdb =>
    subst hdb
    simp only [Db.endpoint?, List.find?_append] at he ⊢
    rw [he]
    rfl
  | @patchEndpoint ep' isActive url _ hdb =>
    subst hdb
    have hfind := Table.find?_update EndpointRow.id s.pg.db.endpoints
      (f := PatchBody.apply ⟨isActive, url⟩) (fun _ => rfl) ep' ep
    have he : (s.pg.db.endpoints.find? fun r => r.id = ep) = some e := he
    rw [he] at hfind
    refine hfind.trans ?_
    by_cases hep : ep = ep'
    · simp [Label.patch, hep]
    · simp [Label.patch, hep, Ne.symm hep]
  | _ => exact hsame rfl

theorem story_endpoints (hr : s.Refs) (h : step env s l = some s') {ep : EndpointId} {e : EndpointRow}
    (he : s.pg.db.endpoint? ep = some e) : ∃ e', s'.pg.db.endpoint? ep = some e' ∧
      e'.clientId = e.clientId ∧ e'.signingSecret = e.signingSecret := by
  refine ⟨_, step_endpoint hr h he, ?_⟩
  cases l with
  | patchEndpoint ep' isActive url =>
    by_cases hep : ep' = ep <;> simp [Label.patch, PatchBody.apply, hep]
  | _ => exact ⟨rfl, rfl⟩

/-- **What is written once.** -/
theorem step_lasts (hs : s.Ok) (hr : s.Refs) (h : step env s l = some s') :
    s.pg.db.Lasts s'.pg.db where
  delivery _ _ hrow := story_references hs h hrow
  event ev row hrow := by
    cases step_extends hs h with
    | same he _ => rwa [Db.event?, he]
    | added _ he _ =>
      rw [Db.event?, he, List.find?_append]
      rw [Db.event?] at hrow
      rw [hrow]
      rfl
  endpoint _ _ he := story_endpoints hr h he

/-! ## What is sent -/

/-- **What a processor has read** of the delivery agrees with the tables. -/
def Mirrors (db : Db) (d : DeliveryId) (r : DeliveryForWorker) : Prop :=
  ∃ row ev e, db.delivery? d = some row ∧ db.event? row.eventId = some ev ∧
    db.endpoint? row.endpointId = some e ∧ r.eventId = ev.id ∧ r.eventType = ev.eventType ∧
      r.payload = ev.payload ∧ r.receivedAt = ev.receivedAt ∧ r.signingSecret = e.signingSecret ∧
        r.attemptCount ≤ row.attemptCount

theorem Mirrors.lasts {d : DeliveryId} {r : DeliveryForWorker} (h : Mirrors db d r)
    (hdb : db.Lasts db') : Mirrors db' d r := by
  obtain ⟨row, ev, e, hrow, hev, he, h1, h2, h3, h4, h5, h6⟩ := h
  obtain ⟨row', hrow', hk, hp, hc⟩ := hdb.delivery d row hrow
  obtain ⟨e', he', -, hsec⟩ := hdb.endpoint _ e he
  exact ⟨row', ev, e', hrow', hk ▸ hdb.event _ ev hev, hp ▸ he', h1, h2, h3, h4, h5.trans hsec.symm,
    Nat.le_trans h6 hc⟩

theorem Db.forDelivery_mirrors {d : DeliveryId} {r : DeliveryForWorker}
    (h : db.forDelivery d = some r) : Mirrors db d r := by
  obtain ⟨row, hrow, h⟩ := Option.bind_eq_some_iff.mp h
  obtain ⟨e, he, h⟩ := Option.bind_eq_some_iff.mp h
  obtain ⟨ev, hev, rfl⟩ := Option.map_eq_some_iff.mp h
  exact ⟨row, ev, e, hrow, hev, he, rfl, rfl, rfl, rfl, rfl, Nat.le_refl _⟩

theorem reachable_mirrors (h : Reachable env C s) : ∀ t th job r, s.live? t = some th →
    (th.kind = .deliver job ∨ th.kind = .failed job) → th.facts.row = some r →
      Mirrors s.pg.db job.deliveryId r := by
  refine h.along (I := fun s => ∀ t th job r, s.live? t = some th →
    (th.kind = .deliver job ∨ th.kind = .failed job) → th.facts.row = some r →
      Mirrors s.pg.db job.deliveryId r) (fun t th job r ht => by simp [State.live?] at ht) ?_
  intro s l s' hr hI _ hstep u th' job r hu hk hrow
  have hs := reachable_ok hr
  have hlasts := step_lasts hs (reachable_refs hr) hstep
  cases step_arises hstep hu with
  | @called c th e x k w m hl hadv hth =>
    subst hth
    rcases hadv.row hs with hsame | ⟨job', hk', -, hread, hpg⟩
    · exact (hI u th job r hadv.live hk (hsame.symm.trans hrow)).lasts hlasts
    · have hjob : job' = job := by
        have hkind : (th.after e x k m).kind = th.kind := rfl
        rw [hkind] at hk
        rcases hk with hk | hk <;> rcases hk' with hk' | hk' <;> rw [hk'] at hk <;> cases hk <;> rfl
      subst hjob
      rw [hpg]
      exact Db.forDelivery_mirrors (hread.symm.trans hrow)
  | @kept th _ hlive hkept =>
    have hf : th'.facts = th.facts := congrArg WebhookEngine.facts hkept.trace
    exact (hI u th job r hlive (hkept.kind ▸ hk) (hf ▸ hrow)).lasts hlasts
  | fresh hlen hstart hth =>
    subst hth
    cases hrow

/-- **A request that carries the event** of the delivery, signed with the secret of its endpoint. -/
def Faithful (env : Env) (db : Db) (d : IdText) (req : HttpRequest) : Prop :=
  ∃ row ev e n τ, db.delivery? d.id = some row ∧ db.event? row.eventId = some ev ∧
    db.endpoint? row.endpointId = some e ∧ 1 ≤ n ∧ n ≤ row.attemptCount + 1 ∧
      req.body = env.stringify ⟨ev.id, ev.eventType, env.toISOString ev.receivedAt, ev.payload⟩ ∧
        req.headers = buildWebhookHeaders d n (τ / 1000)
          (sign env e.signingSecret (τ / 1000) req.body)

theorem Faithful.lasts {d : IdText} {req : HttpRequest} (h : Faithful env db d req)
    (hdb : db.Lasts db') : Faithful env db' d req := by
  obtain ⟨row, ev, e, n, τ, hrow, hev, he, h1, h2, h3, h4⟩ := h
  obtain ⟨row', hrow', hk, hp, hc⟩ := hdb.delivery d.id row hrow
  obtain ⟨e', he', -, hsec⟩ := hdb.endpoint _ e he
  exact ⟨row', ev, e', n, τ, hrow', hk ▸ hdb.event _ ev hev, hp ▸ he', h1,
    Nat.le_trans h2 (Nat.add_le_add_right hc 1), h3, hsec.symm ▸ h4⟩

theorem Mirrors.faithful {r : DeliveryForWorker} (h : Mirrors db job.deliveryId r)
    (τ : Time) : Faithful env db job.text (outbound env job r τ) := by
  obtain ⟨row, ev, e, hrow, hev, he, h1, h2, h3, h4, h5, h6⟩ := h
  refine ⟨row, ev, e, r.attemptCount + 1, τ, hrow, hev, he, Nat.le_add_left 1 _,
    Nat.add_le_add_right h6 1, ?_, ?_⟩
  · rw [← h1, ← h2, ← h3, ← h4]
    rfl
  · rw [← h5]
    rfl

theorem reachable_faithful (h : Reachable env C s) : ∀ (t : Tid) th req x, s.threads[t]? = some th →
    (⟨.httpStart req, x⟩ : Event) ∈ th.trace →
      ∃ job, th.kind = .deliver job ∧ Faithful env s.pg.db job.text req := by
  refine h.along (I := fun s => ∀ (t : Tid) th req x, s.threads[t]? = some th →
    (⟨.httpStart req, x⟩ : Event) ∈ th.trace →
      ∃ job, th.kind = .deliver job ∧ Faithful env s.pg.db job.text req)
    (fun t th req x ht => by cases ht) ?_
  intro s l s' hr hI _ hstep t th' req x ht hmem
  have hs := reachable_ok hr
  have hlasts := step_lasts hs (reachable_refs hr) hstep
  have hold : ∀ th, s.threads[t]? = some th → (⟨.httpStart req, x⟩ : Event) ∈ th.trace →
      th'.kind = th.kind → ∃ job, th'.kind = .deliver job ∧
        Faithful env s'.pg.db job.text req := by
    intro th ht hmem hk
    obtain ⟨job, hjob, hf⟩ := hI t th req x ht hmem
    exact ⟨job, hk.trans hjob, hf.lasts hlasts⟩
  cases step_comes hstep ht with
  | @call c th e r k w m hl hadv hth =>
    subst hth
    have hget := (State.live?_eq_some.mp hadv.live).1
    rcases List.mem_cons.mp hmem with heq | hmem
    · cases heq
      -- the request is the one for the row that was read
      obtain ⟨job, r, hk, hw, -⟩ := (hs.threads t th hadv.live).permits hadv.prog
      obtain ⟨r', τ, hr', hreq⟩ := request_sent hr hadv.live hk hadv.prog
      have hmirror := reachable_mirrors hr t th job r' hadv.live (Or.inl hk) hr'
      refine ⟨job, hk, ?_⟩
      rw [hreq]
      exact (hmirror.lasts hlasts).faithful τ
    · exact hold th hget hmem rfl
  | @kept th hget hprog htrace =>
    obtain ⟨th₁, hget₁, hk, -⟩ := step_continues hstep t th hget
    rw [ht] at hget₁
    cases hget₁
    exact hold th hget (htrace ▸ hmem) hk
  | fresh hprog htrace =>
    rw [htrace] at hmem
    cases hmem

/-! ## What is asked for -/

/-- The request passes the checks of `POST /v1/events`. -/
structure EventRequest.Valid (env : Env) (req : EventRequest) : Prop where
  key : req.idempotencyKey.getD "" ≠ "" ∧ jsLength (req.idempotencyKey.getD "") ≤ 255
  content : req.contentLength ≤ env.maxPayloadBytes
  eventType : req.eventType ≠ "" ∧ jsLength req.eventType ≤ 255
  payload : req.payload.utf8ByteSize ≤ env.maxPayloadBytes

/-- The write stores what the request asks for, under the client of the endpoint that was read. -/
def Places (env : Env) (req : EventRequest) (endpoint : Option EndpointRow) : Stmt → Prop
  | .insertEvent c i ty p => req.Valid env ∧ i = req.idempotencyKey.getD "" ∧ ty = req.eventType ∧
      p = req.payload ∧ ∃ e, endpoint = some e ∧ e.clientId = c
  | .insertDelivery _ ep => ep = req.endpointId
  | _ => True

/-- The facts of an execution with the endpoint it has read and whether it has inserted an event. -/
structure Order where
  facts : Facts := {}
  endpoint : Option EndpointRow := none
  inserted : Bool := false

/-- How the endpoint follows a call. -/
def Order.nextEndpoint (endpoint : Option EndpointRow) : (e : Eff) → e.Resp → Option EndpointRow
  | .sql (.selectEndpoint _), .ok e => e
  | _, _ => endpoint

/-- A call inserts an event. -/
def Eff.inserts : (e : Eff) → e.Resp → Bool
  | .sql (.write (.insertEvent _ _ _ _)), .ok (some _) => true
  | _, _ => false

def Order.next (m : Order) (e : Eff) (r : e.Resp) : Order :=
  ⟨m.facts.next e r, Order.nextEndpoint m.endpoint e r, m.inserted || e.inserts r⟩

/-- The calls that fit. -/
def permitsOrder (env : Env) (req : EventRequest) (m : Order) : Eff → Prop
  | .sql (.selectEndpoint ep) => ep = req.endpointId ∧ m.facts.tx = none
  | .sql (.write st) => Places env req m.endpoint st
  | _ => True

/-- The monitor. -/
def orders (env : Env) (req : EventRequest) : Monitor Eff Eff.Resp Order where
  next := Order.next
  permits := permitsOrder env req
  expects _ _ _ := True

section Program

variable {req : EventRequest} {m : Order} {endpoint : EndpointRow} {α : Type}

/-- Calls after the endpoint was read. -/
structure Furthers (env : Env) (req : EventRequest) (endpoint : EndpointRow) (e : Eff) : Prop where
  keeps : ∀ ep, e ≠ .sql (.selectEndpoint ep)
  writes : ∀ st, e = .sql (.write st) → Places env req (some endpoint) st

theorem furthers_other {e : Eff} (h : ∀ ep, e ≠ .sql (.selectEndpoint ep))
    (hw : ∀ st, e ≠ .sql (.write st)) : Furthers env req endpoint e :=
  ⟨h, fun st he => absurd he (hw st)⟩

theorem furthers_write {st : Stmt} (h : Places env req (some endpoint) st) :
    Furthers env req endpoint (.sql (.write st)) := by
  refine ⟨by simp, fun st' he => ?_⟩
  cases he
  exact h

theorem Furthers.permits {e : Eff} (h : Furthers env req endpoint e) (hm : m.endpoint = some endpoint) :
    permitsOrder env req m e := by
  cases e with
  | sql q =>
    cases q with
    | selectEndpoint ep => exact absurd rfl (h.keeps ep)
    | write st =>
      change Places env req m.endpoint st
      rw [hm]
      exact h.writes st rfl
    | _ => trivial
  | _ => trivial

theorem Order.next_endpoint {e : Eff} (he : ∀ ep, e ≠ .sql (.selectEndpoint ep)) (x : e.Resp) :
    (m.next e x).endpoint = m.endpoint := by
  cases e with
  | sql q =>
    cases q with
    | selectEndpoint ep => exact absurd rfl (he ep)
    | _ => rfl
  | _ => rfl

/-- What a part of the program after the endpoint was read keeps. -/
structure Order.Keeping (m : Order) (endpoint : EndpointRow) (m' : Order) : Prop where
  endpoint : m'.endpoint = some endpoint
  inserted : m.inserted = true → m'.inserted = true

theorem safe_furthers {p : Code α} {Q : Order → Except Err α → Prop}
    (hp : p.Uses (Furthers env req endpoint)) (hm : m.endpoint = some endpoint)
    (hQ : ∀ m' x, m.Keeping endpoint m' → Q m' x) : Prog.Safe (orders env req) m p Q := by
  refine hp.keeps (J := m.Keeping endpoint) ⟨hm, id⟩ (fun m' e hm' he => ⟨he.permits hm'.endpoint,
    fun x => ⟨(Order.next_endpoint he.keeps x).trans hm'.endpoint, fun h => ?_⟩⟩) hQ
  change (m'.inserted || _) = true
  rw [hm'.inserted h, Bool.true_or]

/-- **Sequencing rule** after the endpoint was read. -/
theorem safe_furthers_then {β : Type} {p : Code α} {f : α → Code β} {Q : Order → Except Err β → Prop}
    (hp : p.Uses (Furthers env req endpoint)) (hm : m.endpoint = some endpoint)
    (herr : ∀ m' y, Q m' (.error y))
    (hf : ∀ m' a, m.Keeping endpoint m' → Prog.Safe (orders env req) m' (f a) Q) :
    Prog.Safe (orders env req) m (p.bind f) Q := by
  refine Prog.safe_bind.mpr (safe_furthers hp hm fun m' x hm' => ?_)
  cases x with
  | error y => exact herr m' y
  | ok a => exact hf m' a hm'

/-- What an ingestion returns as new it has inserted. -/
def Order.Answers (endpoint : EndpointRow) (m : Order) (x : Except Err IngestResult) : Prop :=
  ∀ r, x = .ok r → m.endpoint = some endpoint ∧ (r.isNew = true → m.inserted = true)

theorem safe_ingestTx_orders {p : IngestParams} (hm : m.endpoint = some endpoint)
    (hep : p.endpointId = req.endpointId) (hp : Places env req (some endpoint)
      (.insertEvent p.clientId p.idempotencyKey p.eventType p.payload)) :
    Prog.Safe (orders env req) m (ingestTx p) (Order.Answers endpoint) := by
  have hother : ∀ q : Sql, (∀ ep, q ≠ .selectEndpoint ep) → (∀ st, q ≠ .write st) →
      Furthers env req endpoint (.sql q) := fun q h1 h2 =>
    furthers_other (fun ep he => h1 ep (Eff.sql.inj he)) fun st he => h2 st (Eff.sql.inj he)
  refine safe_furthers_then (uses_sql (hother _ (by simp) (by simp))) hm (fun _ _ => nofun)
    fun m _ hm => Prog.safe_tryCatch.mpr ?_
  refine Prog.Safe.mono (Q := Order.Answers endpoint) ?_ fun m x hx => ?_
  · -- COMMIT, and the SET nobody waits for
    have hend : ∀ (m : Order) (result : IngestResult), m.endpoint = some endpoint →
        (result.isNew = true → m.inserted = true) → Prog.Safe (orders env req) m
          ((sql .commit).bind fun _ =>
            (call (.sendIdem (idemRedisKey p.clientId p.idempotencyKey) result.eventId)).bind fun _ =>
              (Prog.ret result : Code IngestResult)) (Order.Answers endpoint) := by
      intro m result hm hnew
      refine safe_furthers_then (uses_sql (hother _ (by simp) (by simp))) hm (fun _ _ => nofun)
        fun m' _ hm' => ?_
      refine safe_furthers_then (uses_call (furthers_other (by simp) (by simp))) hm'.endpoint
        (fun _ _ => nofun) fun m'' _ hm'' => ?_
      intro r hr
      cases hr
      exact ⟨hm''.endpoint, fun h => hm''.inserted (hm'.inserted (hnew h))⟩
    refine safe_furthers_then (uses_sql (hother _ (by simp) (by simp))) hm.endpoint (fun _ _ => nofun)
      fun m _ hm => Prog.safe_bind.mpr ?_
    refine ⟨(furthers_write hp).permits hm.endpoint, fun inserted _ => Prog.safe_ofExcept.mpr ?_⟩
    have hm1 : (m.next (.sql (.write (.insertEvent p.clientId p.idempotencyKey p.eventType
      p.payload))) inserted).endpoint = some endpoint := hm.endpoint
    match inserted with
    | .error y => exact nofun
    | .ok (some eventId) =>
      have hins : (m.next (.sql (.write (.insertEvent p.clientId p.idempotencyKey p.eventType
        p.payload))) (.ok (some eventId))).inserted = true := Bool.or_true _
      have hdel : Places env req (some endpoint) (.insertDelivery eventId p.endpointId) := hep
      refine safe_furthers_then (uses_sql (furthers_write hdel)) hm1 (fun _ _ => nofun) fun m' d hm' => ?_
      cases d with
      | none => exact nofun
      | some d =>
        refine safe_furthers_then (uses_sql (furthers_write (by trivial))) hm'.endpoint
          (fun _ _ => nofun) fun m'' _ hm'' => ?_
        exact hend m'' _ hm''.endpoint fun _ => hm''.inserted (hm'.inserted hins)
    | .ok none =>
      refine safe_furthers_then (uses_sql (hother _ (by simp) (by simp))) hm1 (fun _ _ => nofun)
        fun m' existing hm' => ?_
      cases existing with
      | none => exact nofun
      | some eventId =>
        refine safe_furthers_then (uses_sql (hother _ (by simp) (by simp))) hm'.endpoint
          (fun _ _ => nofun) fun m'' d hm'' => ?_
        cases d with
        | none => exact nofun
        | some d => exact hend m'' _ hm''.endpoint nofun
  · cases x with
    | ok r => exact hx
    | error y =>
      refine Prog.safe_bind.mpr ⟨trivial, fun x _ => Prog.safe_ofExcept.mpr ?_⟩
      cases x <;> exact nofun

theorem safe_ingestEvent_orders {p : IngestParams} (hm : m.endpoint = some endpoint)
    (hep : p.endpointId = req.endpointId) (hp : Places env req (some endpoint)
      (.insertEvent p.clientId p.idempotencyKey p.eventType p.payload)) :
    Prog.Safe (orders env req) m (ingestEvent p) (Order.Answers endpoint) := by
  refine safe_furthers_then (uses_redis (furthers_other (by simp) (by simp))) hm (fun _ _ => nofun)
    fun m cached hm => ?_
  cases cached with
  | none => exact safe_ingestTx_orders hm.endpoint hep hp
  | some ev =>
    refine safe_furthers_then (uses_sql (furthers_other (by simp) (by simp))) hm.endpoint
      (fun _ _ => nofun) fun m' d hm' => ?_
    cases d with
    | none => exact safe_ingestTx_orders hm'.endpoint hep hp
    | some d =>
      -- the fast path returns nothing new
      intro r hr
      cases hr
      exact ⟨hm'.endpoint, nofun⟩

theorem furthers_enqueueDelivery (d : DeliveryId) :
    (enqueueDelivery d).Uses (Furthers env req endpoint) :=
  (uses_await (furthers_other (by simp) (by simp))).bind fun _ =>
    (uses_sql (furthers_write (by trivial))).bind fun _ => trivial

/-- What is returned as new was inserted. -/
def Order.Returns (m : Order) (x : Except Err Reply) : Prop :=
  ∀ r, x = .ok (.ingested r) → r.isNew = true → m.inserted = true

/-- **`POST /v1/events` stores what it is asked for**, and returns as new what it has stored. -/
theorem safe_orders (req : EventRequest) (t : Tid) :
    Prog.Safe (orders env req) {} (program env t (.postEvent req)) Order.Returns := by
  refine Prog.safe_bind.mpr (Prog.Safe.mono
    (Q := fun m x => ∀ r, x = .ok r → r.isNew = true → m.inserted = true) ?_ fun m x hx => ?_)
  · refine Prog.safe_bind.mpr ⟨trivial, fun x _ => Prog.safe_ofExcept.mpr ?_⟩
    match x with
    | .error y => exact nofun
    | .ok overloaded =>
      dsimp only
      split
      · exact nofun
      split
      · exact nofun
      rename_i hkey
      split
      · exact nofun
      rename_i hlen
      split
      · exact nofun
      rename_i hcontent
      split
      · exact nofun
      rename_i htype
      split
      · exact nofun
      rename_i hpayload
      have hvalid : req.Valid env :=
        ⟨⟨hkey, Nat.le_of_not_lt hlen⟩, Nat.le_of_not_lt hcontent,
          ⟨fun h => htype (Or.inl h), Nat.le_of_not_lt fun h => htype (Or.inr h)⟩,
          Nat.le_of_not_lt hpayload⟩
      refine Prog.safe_bind.mpr (Prog.safe_tryCatch.mpr ⟨⟨rfl, rfl⟩, fun x _ =>
        Prog.safe_ofExcept.mpr ?_⟩)
      match x with
      | .error y => exact nofun
      | .ok none => exact nofun
      | .ok (some endpoint) =>
        dsimp only
        split
        · exact nofun
        refine Prog.safe_bind.mpr (Prog.Safe.mono (@safe_ingestEvent_orders env req _ endpoint
          ⟨endpoint.clientId, _, _, _, _⟩ rfl rfl ⟨hvalid, rfl, rfl, rfl, _, rfl, rfl⟩) fun m x hx => ?_)
        cases x with
        | error y => exact nofun
        | ok r =>
          obtain ⟨hm, hnew⟩ := hx r rfl
          dsimp only
          split
          · refine safe_furthers_then (Prog.Uses.tryCatch (furthers_enqueueDelivery _) fun _ => trivial)
              hm (fun _ _ => nofun) fun m' _ hm' => ?_
            intro r' hr' h
            cases hr'
            exact hm'.inserted (hnew h)
          · intro r' hr' h
            cases hr'
            exact hnew h
  · cases x with
    | error y => exact nofun
    | ok x =>
      intro r hr h
      cases hr
      exact hx x rfl h

end Program

/-- What an ingestion knows, with the endpoint it has read. -/
abbrev Thread.order (env : Env) (req : EventRequest) (th : Thread) : Order :=
  th.watched (orders env req) {}

theorem order_facts (req : EventRequest) (trace : List Event) :
    ((orders env req).after {} trace).facts = facts trace := by
  induction trace with
  | nil => rfl
  | cons ev trace ih => exact congrArg (fun m : Facts => m.next ev.1 ev.2) ih

/-- The writes of the open transaction are what was asked for. -/
def Order.Keeps (env : Env) (req : EventRequest) (m : Order) : Prop :=
  ∀ st g, (st, g) ∈ m.facts.tx.getD [] → Places env req m.endpoint st

theorem Order.Keeps.next {req : EventRequest} {m : Order} (h : m.Keeps env req) {e : Eff} {x : e.Resp}
    (hp : permitsOrder env req m e) : (m.next e x).Keeps env req := by
  intro st g hmem
  have hmem : (st, g) ∈ (m.facts.next e x).tx.getD [] := hmem
  by_cases hq : ∃ ep, e = .sql (.selectEndpoint ep)
  · -- the endpoint is read outside a transaction
    obtain ⟨ep, rfl⟩ := hq
    rcases Facts.next_tx hmem with hold | ⟨st', g', he, -⟩
    · rw [hp.2] at hold
      cases hold
    · cases he
  rw [Order.next_endpoint (fun ep he => hq ⟨ep, he⟩)]
  rcases Facts.next_tx hmem with hold | ⟨st', g', rfl, heq⟩
  · exact h st g hold
  · cases heq
    exact hp

theorem reachable_order {req : EventRequest} (h : Reachable env C s) (ht : s.threads[t]? = some th)
    (hk : th.kind = .postEvent req) :
    Prog.Safe (orders env req) (th.order env req) th.prog Order.Returns :=
  @reachable_watched env C s Order (fun k => k = .postEvent req) (fun _ _ => orders env req) {}
    (fun _ _ m x => m.Returns x) (fun t _ hk => hk ▸ safe_orders req t) (fun _ _ _ _ _ => trivial) h t th
    ht hk

theorem reachable_places {req : EventRequest} (h : Reachable env C s) (ht : s.live? t = some th)
    (hk : th.kind = .postEvent req) {st : Stmt} {g : ℕ} (hmem : (st, g) ∈ th.tx) :
    Places env req (th.order env req).endpoint st := by
  refine @reachable_kept env C s Order (fun k => k = .postEvent req) (fun _ _ => orders env req) {}
    (fun _ _ m x => m.Returns x) (Order.Keeps env req) (fun t _ hk => hk ▸ safe_orders req t)
    (fun _ _ _ _ _ => trivial) nofun (fun _ _ _ _ _ _ hp _ hm => hm.next hp) h t th
    (State.live?_eq_some.mp ht).1 hk st g ?_
  change (st, g) ∈ (th.order env req).facts.tx.getD []
  rw [order_facts]
  exact hmem

theorem reachable_endpoint {req : EventRequest} (h : Reachable env C s) :
    ∀ t th e, s.live? t = some th → th.kind = .postEvent req → (th.order env req).endpoint = some e →
      ∃ e', s.pg.db.endpoint? req.endpointId = some e' ∧ e'.clientId = e.clientId := by
  refine h.along (I := fun s => ∀ t th e, s.live? t = some th → th.kind = .postEvent req →
    (th.order env req).endpoint = some e → ∃ e', s.pg.db.endpoint? req.endpointId = some e' ∧
      e'.clientId = e.clientId) (fun t th e ht => by simp [State.live?] at ht) ?_
  intro s l s' hr hI _ hstep u th' e hu hk he
  have hs := reachable_ok hr
  have hlasts := step_lasts hs (reachable_refs hr) hstep
  have hold : ∀ th : Thread, s.live? u = some th → th.kind = .postEvent req →
      (th.order env req).endpoint = some e →
        ∃ e', s'.pg.db.endpoint? req.endpointId = some e' ∧ e'.clientId = e.clientId := by
    intro th ht hk he
    obtain ⟨e₁, he₁, hc₁⟩ := hI u th e ht hk he
    obtain ⟨e₂, he₂, hc₂, -⟩ := hlasts.endpoint _ e₁ he₁
    exact ⟨e₂, he₂, hc₂.trans hc₁⟩
  cases step_arises hstep hu with
  | @called c th call x k w m hl hadv hth =>
    subst hth
    have hk : th.kind = .postEvent req := hk
    by_cases hq : ∃ ep, call = .sql (.selectEndpoint ep)
    · obtain ⟨ep, rfl⟩ := hq
      have hsafe := reachable_order hr (State.live?_eq_some.mp hadv.live).1 hk
      rw [hadv.prog] at hsafe
      obtain ⟨rfl, htx⟩ := hsafe.1
      cases x with
      | error y => exact hold th hadv.live hk he
      | ok o =>
        obtain ⟨pg', sess', hex, hw, -⟩ := perform_sql hadv.done
        simp only [Sql.exec, readWith, Option.some.injEq, Prod.mk.injEq] at hex
        obtain ⟨rfl, -, hans⟩ := hex
        rw [order_facts] at htx
        rw [(hs.threads u th hadv.live).view_eq (Or.inr htx)] at hans
        have hval := (Fault.answer_ok hans).2
        have heq : o = some e := he
        refine ⟨e, ?_, rfl⟩
        rw [hadv.world, hw, ← hval, heq]
    · exact hold th hadv.live hk
        ((Order.next_endpoint (fun ep hep => hq ⟨ep, hep⟩) x).symm.trans he)
  | @kept th _ hlive hkept =>
    rw [Thread.order, Thread.watched, hkept.trace] at he
    exact hold th hlive (hkept.kind ▸ hk) he
  | fresh hlen hstart hth =>
    subst hth
    cases he

/-! ## What was accepted -/

/-- **An event that comes into the tables** comes with its delivery, from the transaction of an
ingestion. -/
theorem event_arrives (hs : s.Ok) (h : step env s l = some s') {row : EventRow}
    (hnew : row ∈ s'.pg.db.events) (hold : row ∉ s.pg.db.events) :
    ∃ t c th x k w m ep d drow, l = .op t c ∧ Advance s s' t c th (.sql .commit) x k w m ∧
      th.kind.ingests ∧ (.insertEvent row.clientId row.idempotencyKey row.eventType row.payload,
        row.id) ∈ th.tx ∧ (.insertDelivery row.id ep, d) ∈ th.tx ∧
          s'.pg.db.delivery? d = some drow ∧ drow.eventId = row.id ∧ drow.endpointId = ep := by
  rcases step_cases h with ⟨t, c, hl, hop⟩ | hidle
  · obtain ⟨th, e, x, k, w, m, hadv⟩ := stepOp_cases hop
    have hok := hs.threads t th hadv.live
    have hw : s'.pg = w.pg := by rw [hadv.world]
    by_cases hq : ∃ q, e = .sql q
    · obtain ⟨q, rfl⟩ := hq
      obtain ⟨pg', sess', hex, rfl, rfl⟩ := perform_sql hadv.done
      cases (hok.sql hs.db hadv.prog hex).server with
      | tables htab =>
        rw [hw] at hnew
        exact absurd (htab.events ▸ hnew) hold
      | commit hq hc =>
        subst hq
        have hids := (hs.step h).db.ids
        rw [hw] at hnew hids ⊢
        generalize htx : th.tx = tx at hc
        cases hc with
        | ingest hk x y ty p ep ev d id τ₁ τ τ' =>
          obtain rfl : row = ⟨ev, x, y, ty, p, τ₁⟩ :=
            (List.mem_append.mp hnew).elim (fun hmem => absurd hmem hold) List.mem_singleton.mp
          refine ⟨t, c, th, _, k, _, _, ep, d, ⟨d, ev, ep, .pending, 0, none, false, τ, τ⟩, hl, hadv, hk,
            ?_, ?_, ?_, rfl, rfl⟩
          · rw [htx]
            exact List.mem_cons_self
          · rw [htx]
            exact List.mem_cons_of_mem _ List.mem_cons_self
          · exact Table.find?_eq_of_mem DeliveryRow.id hids
              (List.mem_append_right _ (List.mem_singleton_self _))
        | claim hk hclaim => exact absurd ((Db.alike_claim hclaim).events ▸ hnew) hold
        | _ => exact absurd hnew hold
      | touch =>
        rw [hw] at hnew
        exact absurd hnew hold
    · rw [hw, (perform_other (fun q hq' => hq ⟨q, hq'⟩) hadv.done).1] at hnew
      exact absurd hnew hold
  · exact absurd (hidle.tables.events ▸ hnew) hold

/-- **The event and the delivery of a request**, as the tables have them. -/
structure Honours (env : Env) (db : Db) (row : EventRow) (req : EventRequest) : Prop where
  valid : req.Valid env
  key : row.idempotencyKey = req.idempotencyKey.getD ""
  eventType : row.eventType = req.eventType
  payload : row.payload = req.payload
  delivery : ∃ d drow, db.delivery? d = some drow ∧ drow.eventId = row.id ∧
    drow.endpointId = req.endpointId
  client : ∃ e, db.endpoint? req.endpointId = some e ∧ e.clientId = row.clientId

theorem Honours.lasts {row : EventRow} {req : EventRequest} (h : Honours env db row req)
    (hdb : db.Lasts db') : Honours env db' row req := by
  obtain ⟨hv, hk, hty, hp, ⟨d, drow, hd, h1, h2⟩, e, he, hc⟩ := h
  obtain ⟨drow', hd', hev, hep, -⟩ := hdb.delivery d drow hd
  obtain ⟨e', he', hc', -⟩ := hdb.endpoint _ e he
  exact ⟨hv, hk, hty, hp, ⟨d, drow', hd', hev.trans h1, hep.trans h2⟩, e', he', hc'.trans hc⟩

/-- **An event that comes into the tables** carries the request of the execution that commits it. -/
theorem event_honoured (hr : Reachable env NoCalls s) (h : step env s l = some s') {row : EventRow}
    (hnew : row ∈ s'.pg.db.events) (hold : row ∉ s.pg.db.events) :
    ∃ t c th req, l = .op t c ∧ s.threads[t]? = some th ∧ th.kind = .postEvent req ∧
      Honours env s'.pg.db row req := by
  have hs := reachable_ok hr
  obtain ⟨t, c, th, x, k, w, m, ep, d, drow, hl, hadv, hk, hins, hdel, hd, hev, hep⟩ :=
    event_arrives hs h hnew hold
  obtain ⟨req, hk⟩ : ∃ req, th.kind = .postEvent req := by
    rcases hk with hk | ⟨p, hk⟩
    · exact hk
    · exact absurd hk (kind_ne_call (fun _ _ h => h) hr hadv.live _)
  obtain ⟨hv, hkey, hty, hp, e, he, hc⟩ := reachable_places hr hadv.live hk hins
  have hep' : ep = req.endpointId := reachable_places hr hadv.live hk hdel
  obtain ⟨e₁, he₁, hc₁⟩ := reachable_endpoint hr t th e hadv.live hk he
  obtain ⟨e₂, he₂, hc₂, -⟩ := (step_lasts hs (reachable_refs hr) h).endpoint _ e₁ he₁
  exact ⟨t, c, th, req, hl, (State.live?_eq_some.mp hadv.live).1, hk, hv, hkey, hty, hp,
    ⟨d, drow, hd, hev, hep.trans hep'⟩, e₂, he₂, (hc₂.trans hc₁).trans hc⟩

/-- **Events and requests belong together.** -/
structure Sourced (env : Env) (s : State) : Prop where
  source : ∀ row ∈ s.pg.db.events, ∃ (t : Tid) (th : Thread) (req : EventRequest),
    s.threads[t]? = some th ∧ th.kind = .postEvent req ∧ Honours env s.pg.db row req
  stored : ∀ (t : Tid) th req ev, s.threads[t]? = some th → th.kind = .postEvent req →
    (intake th.trace).Creates ev → ∃ row ∈ s.pg.db.events, row.id = ev ∧ Honours env s.pg.db row req

theorem Sourced.step (hr : Reachable env NoCalls s) (h : step env s l = some s') (hC : NoCalls s l)
    (hI : Sourced env s) : Sourced env s' where
  source row hrow := by
    have hlasts := step_lasts (reachable_ok hr) (reachable_refs hr) h
    by_cases hold : row ∈ s.pg.db.events
    · obtain ⟨t, th, req, ht, hk, hc⟩ := hI.source row hold
      obtain ⟨th', ht', hk', -⟩ := step_continues h t th ht
      exact ⟨t, th', req, ht', hk'.trans hk, hc.lasts hlasts⟩
    · obtain ⟨t, c, th, req, -, ht, hk, hc⟩ := event_honoured hr h hrow hold
      obtain ⟨th', ht', hk', -⟩ := step_continues h t th ht
      exact ⟨t, th', req, ht', hk'.trans hk, hc⟩
  stored t th' req ev ht hk hc := by
    have hs := reachable_ok hr
    have hlasts := step_lasts hs (reachable_refs hr) h
    have hkind : ∀ th, s.threads[t]? = some th → th'.kind = th.kind := by
      intro th hth
      obtain ⟨th₁, ht₁, hk₁, -⟩ := step_continues h t th hth
      rw [ht] at ht₁
      cases ht₁
      exact hk₁
    rcases (step_comes h ht).creates hs (reachable_ingested hr) hc with ⟨th, hth, hc₀⟩ | ⟨⟨c, hl⟩, hnew⟩
    · obtain ⟨row, hrow, hid, hcar⟩ := hI.stored t th req ev hth ((hkind th hth).symm.trans hk) hc₀
      exact ⟨row, (step_extends hs h).events row hrow, hid, hcar.lasts hlasts⟩
    · -- the event has just been committed, by this execution
      have hr' := hr.snoc hC h
      obtain ⟨row, hrow, hid⟩ := hc.committed ((reachable_ingested hr').threads t th' ht).holds
      obtain ⟨t', c', th, req', hl', hth, hk', hcar⟩ :=
        event_honoured hr h hrow fun hmem => hnew row hmem hid
      obtain ⟨rfl, -⟩ := Label.op.inj (hl'.symm.trans hl)
      have hreq := hk.symm.trans ((hkind th hth).trans hk')
      cases hreq
      exact ⟨row, hrow, hid, hcar⟩

theorem reachable_sourced (h : Reachable env NoCalls s) : Sourced env s :=
  h.along ⟨nofun, fun t th req ev ht => by cases ht⟩ fun _ _ _ hr hI hC hstep => hI.step hr hstep hC

theorem order_inserted (req : EventRequest) (trace : List Event) :
    ((orders env req).after {} trace).inserted = true → (intake trace).key.isSome := by
  induction trace with
  | nil => exact nofun
  | cons ev trace ih =>
    obtain ⟨e, x⟩ := ev
    intro h
    have hor := (Bool.or_eq_true _ _).mp h
    change ((intake trace).next e x).key.isSome
    cases e with
    | sql q =>
      cases q with
      | write st =>
        cases st with
        | insertEvent c i ty p =>
          match x with
          | .error y => exact hor.elim ih nofun
          | .ok none => rfl
          | .ok (some g) => rfl
        | _ => cases x <;> exact hor.elim ih nofun
      | _ => cases x <;> exact hor.elim ih nofun
    | _ => exact hor.elim ih nofun

/-! ## The results -/

/-- **The request conveys what was asked for**: the event that was asked for, to the endpoint that was
asked for, under the text the job has for the delivery and a number it has reached, and signed with the
secret of the endpoint. -/
def Conveys (env : Env) (db : Db) (d : IdText) (ask : EventRequest) (req : HttpRequest) : Prop :=
  ∃ row ev e n τ, db.delivery? d.id = some row ∧ row.endpointId = ask.endpointId ∧
    db.event? row.eventId = some ev ∧ db.endpoint? row.endpointId = some e ∧ ev.clientId = e.clientId ∧
      ev.idempotencyKey = ask.idempotencyKey.getD "" ∧ 1 ≤ n ∧ n ≤ row.attemptCount + 1 ∧
        req.body = env.stringify ⟨ev.id, ask.eventType, env.toISOString ev.receivedAt, ask.payload⟩ ∧
          req.headers = buildWebhookHeaders d n (τ / 1000)
            (sign env e.signingSecret (τ / 1000) req.body)

/-- **Every request that is sent conveys what a client has asked for.** -/
theorem requests_faithful (h : Reachable env NoCalls s) (ht : s.threads[t]? = some th)
    {req : HttpRequest} {x : Unit} (hreq : (⟨.httpStart req, x⟩ : Event) ∈ th.trace) :
    ∃ (job : JobRef) (u : Tid) (th' : Thread) (ask : EventRequest), th.kind = .deliver job ∧
      s.threads[u]? = some th' ∧ th'.kind = .postEvent ask ∧ ask.Valid env ∧
        Conveys env s.pg.db job.text ask req := by
  obtain ⟨job, hk, row, ev, e, n, τ, hrow, hev, he, h1, h2, h3, h4⟩ :=
    reachable_faithful h t th req x ht hreq
  obtain ⟨u, th', ask, hu, hk', hcar⟩ := (reachable_sourced h).source ev (List.mem_of_find?_eq_some hev)
  obtain ⟨d, drow, hd, hdev, hdep⟩ := hcar.delivery
  obtain ⟨e', he', hc⟩ := hcar.client
  -- an event has one delivery
  have hid : ev.id = row.eventId := by simpa using List.find?_some hev
  have hlink : ∀ {d : DeliveryId} {r : DeliveryRow}, s.pg.db.delivery? d = some r →
      r.eventId = ev.id → (d, ev.id) ∈ s.pg.db.links := fun {d r} hr hre =>
    Db.mem_links.mpr ⟨r, List.mem_of_find?_eq_some hr, by simpa using List.find?_some hr, hre⟩
  obtain rfl := (reachable_singles h).unique (hlink hd hdev) (hlink hrow hid.symm)
  obtain rfl := Option.some.inj (hd.symm.trans hrow)
  obtain rfl : e' = e := Option.some.inj ((hdep ▸ he').symm.trans he)
  refine ⟨job, u, th', ask, hk, hu, hk', hcar.valid, drow, ev, e', n, τ, hrow, hdep, hev, he, hc.symm,
    hcar.key, h1, h2, ?_, h4⟩
  rw [h3, hcar.eventType, hcar.payload]

/-- The request a call sends. -/
def Event.request? : Event → Option HttpRequest
  | ⟨.httpStart req, _⟩ => some req
  | _ => none

theorem Event.request?_eq_some {ev : Event} {req : HttpRequest} (h : ev.request? = some req) :
    ∃ x, ev = ⟨.httpStart req, x⟩ := by
  unfold Event.request? at h
  split at h
  · cases h
    exact ⟨_, rfl⟩
  · cases h

theorem requests_faithful_delivered : ∃ (s : State) (th : Thread) (req : HttpRequest) (x : Unit)
    (job : JobRef) (ask : EventRequest), Reachable sampleEnv NoCalls s ∧ s.threads[1]? = some th ∧
      (⟨.httpStart req, x⟩ : Event) ∈ th.trace ∧ Conveys sampleEnv s.pg.db job.text ask req := by
  obtain ⟨s, hreach, hs⟩ := sample_run (C := NoCalls) (sampleIngest ++ sampleDelivery 1)
    (fun s => (s.threads[1]?).any fun th => th.trace.any fun ev => ev.request?.isSome) (by decide +kernel)
  obtain ⟨th, ht, hs⟩ := (Option.any_eq_true _ _).mp hs
  obtain ⟨ev, hev, hs⟩ := List.any_eq_true.mp hs
  obtain ⟨req, hreq⟩ := Option.isSome_iff_exists.mp hs
  obtain ⟨x, rfl⟩ := Event.request?_eq_some hreq
  obtain ⟨job, u, th', ask, -, -, -, -, hc⟩ := requests_faithful hreach ht hev
  exact ⟨s, th, req, x, job, ask, hreach, ht, hev, hc⟩

/-- **What was accepted as new is in the tables**, as it was asked for, and no other execution was
answered with it as new. -/
theorem accepted_durable (h : Reachable env NoCalls s) (ht : s.threads[t]? = some th)
    {ask : EventRequest} (hk : th.kind = .postEvent ask) {r : IngestResult}
    (hp : th.prog = .ret (.ingested r)) (hnew : r.isNew = true) :
    (∃ ev row e, s.pg.db.event? r.eventId = some ev ∧ s.pg.db.delivery? r.deliveryId = some row ∧
      row.eventId = r.eventId ∧ row.endpointId = ask.endpointId ∧
        s.pg.db.endpoint? ask.endpointId = some e ∧ ev.clientId = e.clientId ∧
          ev.idempotencyKey = ask.idempotencyKey.getD "" ∧ ev.eventType = ask.eventType ∧
            ev.payload = ask.payload) ∧
      ∀ (u : Tid) (th' : Thread) (ask' : EventRequest) (r' : IngestResult), s.threads[u]? = some th' →
        th'.kind = .postEvent ask' → th'.prog = .ret (.ingested r') → r'.isNew = true →
          r'.deliveryId = r.deliveryId → u = t := by
  have hs := reachable_ok h
  have hanswered : ∀ {t : Tid} {th : Thread} {ask : EventRequest} {r : IngestResult},
      s.threads[t]? = some th → th.kind = .postEvent ask → th.prog = .ret (.ingested r) →
        r.isNew = true →
          (intake th.trace).Creates r.eventId ∧ (r.deliveryId, r.eventId) ∈ s.pg.db.links := by
    intro t th ask r ht hk hp hnew
    have hret := reachable_order h ht hk
    rw [hp] at hret
    obtain ⟨⟨c, i⟩, hkey⟩ := Option.isSome_iff_exists.mp (order_inserted ask th.trace (hret r rfl hnew))
    obtain ⟨-, hlink, hcr⟩ := ((reachable_ingested h).threads t th ht).answered ⟨hp, hkey⟩
    exact ⟨hcr hnew, hlink⟩
  obtain ⟨hcr, hlink⟩ := hanswered ht hk hp hnew
  obtain ⟨ev, hev, hid, hcar⟩ := (reachable_sourced h).stored t th ask r.eventId ht hk hcr
  obtain ⟨d, drow, hd, hdev, hdep⟩ := hcar.delivery
  obtain ⟨e, he, hc⟩ := hcar.client
  have hmine : (d, r.eventId) ∈ s.pg.db.links :=
    Db.mem_links.mpr ⟨drow, List.mem_of_find?_eq_some hd, by simpa using List.find?_some hd,
      hdev.trans hid⟩
  obtain rfl := (reachable_singles h).unique hmine hlink
  refine ⟨⟨ev, drow, e, ?_, hd, hdev.trans hid, hdep, he, hc.symm, hcar.key, hcar.eventType,
    hcar.payload⟩, fun u th' ask' r' hu hk' hp' hnew' hsame => ?_⟩
  · rw [← hid]
    exact Table.find?_eq_of_mem EventRow.id hs.db.eventIds hev
  · obtain ⟨hcr', hlink'⟩ := hanswered hu hk' hp' hnew'
    have hev' : r'.eventId = r.eventId := by
      obtain ⟨row₁, hmem₁, hid₁, he₁⟩ := Db.mem_links.mp hlink'
      obtain ⟨row₂, hmem₂, hid₂, he₂⟩ := Db.mem_links.mp hlink
      have hrow : row₁ = row₂ := List.inj_on_of_nodup_map hs.db.ids hmem₁ hmem₂
        (hid₁.trans (hsame.trans hid₂.symm))
      rw [← he₁, hrow, he₂]
    exact (reachable_ingested h).once u t th' th r.eventId hu ht (hev' ▸ hcr') hcr

/-- What the execution has answered as new. -/
def Thread.news? (th : Thread) : Option (EventRequest × IngestResult) :=
  match th.kind, th.prog with
  | .postEvent ask, .ret (.ingested r) => if r.isNew then some (ask, r) else none
  | _, _ => none

theorem Thread.news?_eq_some {ask : EventRequest} {r : IngestResult} (h : th.news? = some (ask, r)) :
    th.kind = .postEvent ask ∧ th.prog = .ret (.ingested r) ∧ r.isNew = true := by
  unfold Thread.news? at h
  split at h
  · rename_i ask' r' hk hp
    split at h
    · rename_i hnew
      cases h
      exact ⟨hk, hp, hnew⟩
    · cases h
  · cases h

theorem accepted_durable_ingested : ∃ (s : State) (th : Thread) (ask : EventRequest)
    (r : IngestResult), Reachable sampleEnv NoCalls s ∧ s.threads[0]? = some th ∧
      th.kind = .postEvent ask ∧ th.prog = .ret (.ingested r) ∧ r.isNew = true ∧
        ∃ ev, s.pg.db.event? r.eventId = some ev ∧ ev.payload = ask.payload := by
  obtain ⟨s, hreach, hs⟩ := sample_run (C := NoCalls) sampleIngest
    (fun s => (s.threads[0]?).any fun th => th.news?.isSome) (by decide +kernel)
  obtain ⟨th, ht, hs⟩ := (Option.any_eq_true _ _).mp hs
  obtain ⟨⟨ask, r⟩, hnews⟩ := Option.isSome_iff_exists.mp hs
  obtain ⟨hk, hp, hnew⟩ := Thread.news?_eq_some hnews
  obtain ⟨ev, row, e, hev, -, -, -, -, -, -, -, hpay⟩ := (accepted_durable hreach ht hk hp hnew).1
  exact ⟨s, th, ask, r, hreach, ht, hk, hp, hnew, ev, hev, hpay⟩

end WebhookEngine
