import WebhookEngine.Model.Scripts

set_option autoImplicit false

/-!
# A script call is one atomic step

`LoadedScript.eval` takes up to seven calls, any of which can be overtaken by others, and its server
can forget the script in the middle. To whoever awaits it, it is still a single atomic command that
is answered, fails, or loses its answer.

* `EvalPhase`, `evalMonitor`, `eval_safe`, `boot_safe`: the script of a call runs at most once, by the
  digest of its own source, and what it answered is what the call returns;
* `Simulates`, `simulates_step`: the simulation, one command at a time;
* **`scripts_atomic`**: every run of the objects of the class is a run of atomic calls.
-/

namespace WebhookEngine

open EffectProg TransitionSystem

variable {S A D V W : Type}

/-- Where a call stands with its script: not run, or run with this answer. -/
inductive EvalPhase (V : Type) where
  | fresh
  | settled (r : Except JsError V)

/-- An answer other than NOSCRIPT settles the call. -/
def EvalPhase.evalsha (m : EvalPhase V) : Except JsError V → EvalPhase V
  | .ok v => .settled (.ok v)
  | .error err => if isNoScriptError err then m else .settled (.error err)

variable (host : ScriptHost S A D V) (source : S)

/-- The digest an object can have in its field. -/
def Digest (sha : Option String) : Prop := sha = none ∨ sha = some (host.sha1 source)

/-- A digest is only ever that of `source`; the script is run on `args` while no answer has settled
the call, or never when there are none. -/
def evalMonitor (args : Option A) : Monitor (ScriptEff S A) (ScriptEff.Resp V) (EvalPhase V) where
  next
    | m, .evalsha _ _, r => m.evalsha r
    | m, _, _ => m
  permits
    | m, .evalsha sha a => m = .fresh ∧ args = some a ∧ Digest host source sha
    | _, .setSha sha => sha = host.sha1 source
    | _, .scriptLoad src => src = source
    | _, _ => True
  expects
    | _, .getSha, sha => Digest host source sha
    | _, .scriptLoad _, r => ∀ sha, r = .ok sha → sha = host.sha1 source
    | _, _, _ => True

/-- A call returns what settled it, and fails if nothing did. -/
def EvalPhase.Ends : EvalPhase V → Except JsError V → Prop
  | .fresh, r => ∃ err, r = .error err
  | .settled r', r => r = r'

theorem boot_safe : (LoadedScript.boot source : ScriptCode S A V Unit).Safe
    (evalMonitor host source none) .fresh fun _ _ => True := by
  refine ⟨rfl, fun r hr => ?_⟩
  cases r with
  | error err => trivial
  | ok sha => exact ⟨hr sha rfl, fun _ _ => trivial⟩

theorem evalsha_safe {args : A} {Q : EvalPhase V → Except JsError V → Prop}
    (hQ : ∀ r, Q (EvalPhase.fresh.evalsha r) r) :
    (LoadedScript.getSha >>= fun sha => LoadedScript.evalsha sha args : ScriptCode S A V V).Safe
      (evalMonitor host source (some args)) .fresh Q := by
  refine ⟨trivial, fun sha hsha => ⟨⟨rfl, rfl, hsha⟩, fun r _ => ?_⟩⟩
  exact Prog.safe_ofExcept.mpr (hQ r)

theorem ends_evalsha (r : Except JsError V) : (EvalPhase.fresh.evalsha r).Ends r := by
  cases r with
  | ok v => rfl
  | error err =>
    by_cases herr : isNoScriptError err = true
    · simp only [EvalPhase.evalsha, herr, if_true]
      exact ⟨err, rfl⟩
    · simp only [EvalPhase.evalsha, herr]
      rfl

theorem eval_safe (args : A) : (LoadedScript.eval source args : ScriptCode S A V V).Safe
    (evalMonitor host source (some args)) .fresh EvalPhase.Ends := by
  refine ⟨trivial, fun r _ => ?_⟩
  cases r with
  | error err => exact ⟨err, rfl⟩
  | ok _ =>
    refine Prog.safe_tryCatch.mpr (evalsha_safe host source fun r => ?_)
    cases r with
    | ok v => rfl
    | error err =>
      by_cases herr : isNoScriptError err = true
      · -- NOSCRIPT: nothing has run yet, and the second EVALSHA may settle the call.
        simp only [EvalPhase.evalsha, herr, if_true, Bool.not_true, Bool.false_eq_true, if_false]
        refine ⟨rfl, fun r hr => ?_⟩
        cases r with
        | error err' => exact ⟨err', rfl⟩
        | ok sha => exact ⟨hr sha rfl, fun _ _ => evalsha_safe host source ends_evalsha⟩
      · simp only [EvalPhase.evalsha, herr, Bool.not_false, if_true]
        rfl

/-! ## The simulation -/

variable {host source}

/-- The server knows a script by its own digest only. -/
def ScriptServer.Ok (host : ScriptHost S A D V) (server : ScriptServer S D) : Prop :=
  ∀ sha src, server.loaded sha = some src → host.sha1 src = sha

def LoadedScript.Ok (host : ScriptHost S A D V) (o : LoadedScript S A V) : Prop :=
  Digest host o.source o.sha ∧ ∃ m, o.booting.Safe (evalMonitor host o.source none) m fun _ _ => True

/-- The answer of an atomic call: the model has one error for all that Redis can throw. -/
def atomicAnswer (r : Except JsError V) : Except Err V := r.mapError fun _ => .infra

/-- The result of the atomic call: none while the call can still run its script. -/
def EvalPhase.Shows : EvalPhase V → ScriptCode S A V V → Option (Except Err V) → Prop
  | .fresh, .op _ _, r => r = none
  | .fresh, _, r => r = some (.error .infra)
  | .settled r', _, r => r = some (atomicAnswer r')

/-- A call and the atomic call it implements. -/
structure Implements (host : ScriptHost S A D V) (c : EvalCall S A V) (a : AtomicCall S A V) :
    Prop where
  source : a.source = c.source
  args : a.args = c.args
  phase : ∃ m, c.prog.Safe (evalMonitor host c.source (some c.args)) m EvalPhase.Ends ∧
    m.Shows c.prog a.result

/-- The states of the two systems. -/
structure Simulates (host : ScriptHost S A D V) (s : ScriptSystem S A D V)
    (t : AtomicSystem S A D V) : Prop where
  data : t.data = s.server.data
  server : s.server.Ok host
  objs : ∀ o ∈ s.objs, o.Ok host
  owned : ∀ c ∈ s.calls, ∃ o, s.objs[c.obj]? = some o ∧ o.source = c.source
  length : t.calls.length = s.calls.length
  calls : ∀ (i : ℕ) c a, s.calls[i]? = some c → t.calls[i]? = some a → Implements host c a

/-- What a command leaves of its server and its object. -/
structure Performed (host : ScriptHost S A D V) (o o' : LoadedScript S A V)
    (server' : ScriptServer S D) : Prop where
  server : server'.Ok host
  source : o'.source = o.source
  booting : o'.booting = o.booting
  digest : Digest host o.source o'.sha

/-- A command of a call in phase `m`: either it does not touch the data and the phase stays, or it
runs the script once, the way an atomic call does, and settles the call. -/
def RunsOnce (host : ScriptHost S A D V) (source : S) (args : Option A) (data data' : D)
    (m m' : EvalPhase V) : Prop :=
  (data' = data ∧ m' = m) ∨ ∃ a r fault, args = some a ∧ m = .fresh ∧ m' = .settled r ∧
    (data', atomicAnswer r) = Fault.run fault data (host.run source a data)

theorem noScript_isNoScriptError : isNoScriptError noScript = true := by decide +kernel

theorem ScriptServer.Ok.evalsha (hsha : Function.Injective host.sha1)
    {server server' : ScriptServer S D} (h : server.Ok host) {tr : Transport} {sha : Option String}
    {a : A} {r : Except JsError V} (hd : Digest host source sha)
    (hr : tr.run server (server.evalsha host sha a) = (server', r)) :
    server'.Ok host ∧
      RunsOnce host source (some a) server.data server'.data .fresh (EvalPhase.fresh.evalsha r) := by
  -- What the server does: nothing, or the script of this digest.
  have hserver : (server.evalsha host sha a = (server, .error noScript)) ∨
      server.evalsha host sha a = ({ server with data := (host.run source a server.data).1 },
        .ok (host.run source a server.data).2) := by
    unfold ScriptServer.evalsha
    cases hsrc : sha.bind server.loaded with
    | none => exact .inl rfl
    | some src =>
      refine .inr ?_
      obtain ⟨x, rfl, hx⟩ := Option.bind_eq_some_iff.mp hsrc
      have hx' : x = host.sha1 source := by simpa [Digest] using hd
      obtain rfl := hsha ((h x src hx).trans hx')
      rfl
  cases tr with
  | answered =>
    simp only [Transport.run] at hr
    rcases hserver with hs | hs
    · obtain ⟨rfl, rfl⟩ := Prod.mk.inj (hs.symm.trans hr)
      refine ⟨h, .inl ⟨rfl, ?_⟩⟩
      simp only [EvalPhase.evalsha, noScript_isNoScriptError, if_true]
    · obtain ⟨rfl, rfl⟩ := Prod.mk.inj (hs.symm.trans hr)
      exact ⟨h, .inr ⟨a, _, .none, rfl, rfl, rfl, rfl⟩⟩
  | lost e =>
    obtain ⟨rfl, rfl⟩ := Prod.mk.inj hr
    refine ⟨h, .inr ⟨a, .error e.1, .before, rfl, rfl, ?_, rfl⟩⟩
    simp [EvalPhase.evalsha, e.2]
  | unanswered e =>
    obtain ⟨rfl, rfl⟩ := Prod.mk.inj hr
    have hm : EvalPhase.fresh.evalsha (.error e.1 : Except JsError V) = .settled (.error e.1) := by
      simp [EvalPhase.evalsha, e.2]
    rcases hserver with hs | hs
    · exact ⟨by rw [hs]; exact h, .inr ⟨a, _, .before, rfl, rfl, hm, by rw [hs]; rfl⟩⟩
    · exact ⟨by rw [hs]; exact h, .inr ⟨a, _, .after, rfl, rfl, hm, by rw [hs]; rfl⟩⟩

theorem ScriptServer.Ok.scriptLoad {server server' : ScriptServer S D} (h : server.Ok host)
    {tr : Transport} {r : Except JsError String}
    (hr : tr.run server (server.scriptLoad host source) = (server', r)) :
    server'.Ok host ∧ server'.data = server.data ∧ ∀ sha, r = .ok sha → sha = host.sha1 source := by
  have hload : (server.scriptLoad host source).1.Ok host := by
    intro sha src hsrc
    simp only [ScriptServer.scriptLoad, Function.update_apply] at hsrc
    split at hsrc
    · cases hsrc; exact ‹sha = _›.symm
    · exact h sha src hsrc
  cases tr with
  | answered =>
    obtain ⟨rfl, rfl⟩ := Prod.mk.inj hr
    exact ⟨hload, rfl, fun sha h => by cases h; rfl⟩
  | lost e =>
    obtain ⟨rfl, rfl⟩ := Prod.mk.inj hr
    exact ⟨h, rfl, fun sha h => by cases h⟩
  | unanswered e =>
    obtain ⟨rfl, rfl⟩ := Prod.mk.inj hr
    exact ⟨hload, rfl, fun sha h => by cases h⟩

/-- **One command.** -/
theorem ScriptServer.Ok.perform (hsha : Function.Injective host.sha1)
    {server server' : ScriptServer S D} (h : server.Ok host) {o o' : LoadedScript S A V}
    (ho : Digest host o.source o.sha) {tr : Transport} {e : ScriptEff S A} {r : e.Resp V}
    {args : Option A} {m : EvalPhase V}
    (hp : (evalMonitor host o.source args).permits m e)
    (hr : server.perform host o tr e = some (server', o', r)) :
    Performed host o o' server' ∧ (evalMonitor host o.source args).expects m e r ∧
      RunsOnce host o.source args server.data server'.data m
        ((evalMonitor host o.source args).next m e r) := by
  cases e with
  | ready =>
    simp only [ScriptServer.perform] at hr
    split at hr <;> cases hr
    all_goals exact ⟨⟨h, rfl, rfl, ho⟩, trivial, .inl ⟨rfl, rfl⟩⟩
  | getSha =>
    cases hr
    exact ⟨⟨h, rfl, rfl, ho⟩, ho, .inl ⟨rfl, rfl⟩⟩
  | setSha sha =>
    cases hr
    exact ⟨⟨h, rfl, rfl, .inr (congrArg some hp)⟩, trivial, .inl ⟨rfl, rfl⟩⟩
  | scriptLoad src =>
    obtain rfl : src = o.source := hp
    cases hr
    obtain ⟨h1, h2, h3⟩ := h.scriptLoad rfl
    exact ⟨⟨h1, rfl, rfl, ho⟩, h3, .inl ⟨h2, rfl⟩⟩
  | evalsha sha a =>
    obtain ⟨rfl, rfl, hd⟩ := hp
    cases hr
    obtain ⟨h1, h2⟩ := h.evalsha hsha hd rfl
    exact ⟨⟨h1, rfl, rfl, ho⟩, trivial, h2⟩

section Step

variable {act : W → D → D}

theorem AtomicSystem.step_run {t : AtomicSystem S A D V} {i : ℕ} {a : AtomicCall S A V}
    {f : Fault} {data : D} {r : Except Err V} (ha : t.calls[i]? = some a) (hr : a.result = none)
    (h : (data, r) = f.run t.data (host.run a.source a.args t.data)) :
    t.step host act (.run i f) =
      some { data := data, calls := t.calls.set i { a with result := some r } } := by
  simp [AtomicSystem.step, ha, hr, ← h]

variable (act) in
theorem EvalPhase.Shows.advance {t : AtomicSystem S A D V} {i : ℕ} {a : AtomicCall S A V}
    (ha : t.calls[i]? = some a) {e : ScriptEff S A} {k : e.Resp V → ScriptCode S A V V}
    {p : ScriptCode S A V V} {m m' : EvalPhase V} (hm : m.Shows (.op e k) a.result) {data : D}
    (h : RunsOnce host a.source (some a.args) t.data data m m') {mon : Monitor _ _ (EvalPhase V)}
    (hp : p.Safe mon m' EvalPhase.Ends) :
    ∃ r, Reach (AtomicSystem.step host act) (fun _ _ => True) t
        { data := data, calls := t.calls.set i { a with result := r } } ∧ m'.Shows p r := by
  have hstay : Reach (AtomicSystem.step host act) (fun _ _ => True) t
      { data := t.data, calls := t.calls.set i a } := by
    obtain ⟨hlt, rfl⟩ := List.getElem?_eq_some_iff.mp ha
    rw [List.set_getElem_self]
    exact .refl t
  rcases h with ⟨rfl, rfl⟩ | ⟨a', r, fault, h1, rfl, rfl, h2⟩
  · cases m' with
    | settled r => exact ⟨a.result, hstay, hm⟩
    | fresh =>
      cases p with
      | op e' k' => exact ⟨a.result, hstay, hm⟩
      | ret v => obtain ⟨err, herr⟩ := hp; cases herr
      | raise err =>
        -- The call gives up without having run its script: the atomic call fails.
        exact ⟨some (.error .infra), (Reach.refl t).snoc trivial
          (AtomicSystem.step_run (f := .before) ha hm rfl), rfl⟩
  · cases h1
    exact ⟨some (atomicAnswer r), (Reach.refl t).snoc trivial (AtomicSystem.step_run ha hm h2), rfl⟩

theorem Performed.ok {o o' : LoadedScript S A V} {server' : ScriptServer S D}
    (h : Performed host o o' server') (ho : o.Ok host) : o'.Ok host := by
  unfold LoadedScript.Ok
  rw [h.source, h.booting]
  exact ⟨h.digest, ho.2⟩

theorem Simulates.set_obj {s : ScriptSystem S A D V} {t : AtomicSystem S A D V}
    (h : Simulates host s t) {j : ℕ} {o o' : LoadedScript S A V} (ho : s.objs[j]? = some o)
    (hsrc : o'.source = o.source) (hok : o'.Ok host) :
    (∀ x ∈ s.objs.set j o', x.Ok host) ∧
      ∀ c ∈ s.calls, ∃ x, (s.objs.set j o')[c.obj]? = some x ∧ x.source = c.source := by
  refine ⟨fun x hx => ?_, fun c hc => ?_⟩
  · rcases List.mem_or_eq_of_mem_set hx with hx | rfl
    · exact h.objs x hx
    · exact hok
  · obtain ⟨x, hx, hxc⟩ := h.owned c hc
    by_cases hj : j = c.obj
    · subst hj
      obtain rfl := Option.some.inj (hx.symm.trans ho)
      exact ⟨o', List.getElem?_set_self (List.getElem?_eq_some_iff.mp ho).1, hsrc.trans hxc⟩
    · exact ⟨x, (List.getElem?_set_ne hj).trans hx, hxc⟩

theorem Simulates.stepOp (hsha : Function.Injective host.sha1) {s s' : ScriptSystem S A D V}
    {t : AtomicSystem S A D V} (h : Simulates host s t) {i : ℕ} {tr : Transport}
    (hs : s.stepOp host i tr = some s') :
    ∃ t', Reach (AtomicSystem.step host act) (fun _ _ => True) t t' ∧ Simulates host s' t' := by
  obtain ⟨c, hc, hs⟩ := Option.bind_eq_some_iff.mp hs
  obtain ⟨o, ho, hs⟩ := Option.bind_eq_some_iff.mp hs
  obtain ⟨hlt, -⟩ := List.getElem?_eq_some_iff.mp hc
  have hlt' : i < t.calls.length := h.length ▸ hlt
  have ha : t.calls[i]? = some t.calls[i] := List.getElem?_eq_getElem hlt'
  obtain ⟨hasrc, haargs, m, hsafe, hm⟩ := h.calls i c _ hc ha
  have hsrc : o.source = c.source := by
    obtain ⟨x, hx, hxc⟩ := h.owned c (List.mem_of_getElem? hc)
    rwa [Option.some.inj (hx.symm.trans ho)] at hxc
  cases hprog : c.prog with
  | ret _ => simp [hprog] at hs
  | raise _ => simp [hprog] at hs
  | op e k =>
    rw [hprog] at hsafe hm
    simp only [hprog] at hs
    obtain ⟨⟨server', o', r⟩, hr, rfl⟩ := Option.map_eq_some_iff.mp hs
    rw [← hsrc] at hsafe
    have hook := h.objs o (List.mem_of_getElem? ho)
    obtain ⟨hp, hexp, hset⟩ := h.server.perform hsha hook.1 hsafe.1 hr
    have hsafe' := hsafe.2 r hexp
    rw [hsrc, ← hasrc, ← haargs, ← h.data] at hset
    obtain ⟨res, ht', hshow⟩ := hm.advance act ha hset hsafe'
    refine ⟨_, ht', rfl, hp.server, (h.set_obj ho hp.source (hp.ok hook)).1, ?_, ?_, ?_⟩
    · intro c' hc'
      rcases List.mem_or_eq_of_mem_set hc' with hc' | rfl
      · exact (h.set_obj ho hp.source (hp.ok hook)).2 c' hc'
      · exact (h.set_obj ho hp.source (hp.ok hook)).2 c (List.mem_of_getElem? hc)
    · simpa using h.length
    · intro j c' a' hc' ha'
      by_cases hij : i = j
      · subst hij
        rw [List.getElem?_set_self hlt] at hc'
        rw [List.getElem?_set_self hlt'] at ha'
        cases hc'
        cases ha'
        exact ⟨hasrc, haargs, _, hsrc ▸ hsafe', hshow⟩
      · rw [List.getElem?_set_ne hij] at hc' ha'
        exact h.calls j c' a' hc' ha'

theorem Simulates.stepBoot (hsha : Function.Injective host.sha1) {s s' : ScriptSystem S A D V}
    {t : AtomicSystem S A D V} (h : Simulates host s t) {j : ℕ} {tr : Transport}
    (hs : s.stepBoot host j tr = some s') : Simulates host s' t := by
  obtain ⟨o, ho, hs⟩ := Option.bind_eq_some_iff.mp hs
  obtain ⟨hdigest, m, hsafe⟩ := h.objs o (List.mem_of_getElem? ho)
  cases hprog : o.booting with
  | ret _ => simp [hprog] at hs
  | raise _ => simp [hprog] at hs
  | op e k =>
    rw [hprog] at hsafe
    simp only [hprog] at hs
    obtain ⟨⟨server', o', r⟩, hr, rfl⟩ := Option.map_eq_some_iff.mp hs
    obtain ⟨hp, hexp, hset⟩ := h.server.perform hsha hdigest hsafe.1 hr
    let o₁ : LoadedScript S A V := { o' with booting := k r }
    have hok : o₁.Ok host := by
      refine ⟨hp.source ▸ hp.digest, (evalMonitor host o.source none).next m e r, ?_⟩
      show (k r).Safe (evalMonitor host o'.source none) _ _
      rw [hp.source]
      exact hsafe.2 r hexp
    have hdata : server'.data = s.server.data := by
      rcases hset with ⟨hdata, -⟩ | ⟨_, _, _, hnone, -⟩
      · exact hdata
      · cases hnone
    have hsrc : o₁.source = o.source := hp.source
    obtain ⟨h1, h2⟩ := h.set_obj ho hsrc hok
    exact ⟨h.data.trans hdata.symm, hp.server, h1, h2, h.length, h.calls⟩

theorem Simulates.call {s : ScriptSystem S A D V} {t : AtomicSystem S A D V}
    (h : Simulates host s t) {j : ℕ} {o : LoadedScript S A V} (ho : s.objs[j]? = some o) (args : A) :
    Simulates host
      { s with calls := s.calls ++ [{ obj := j, source := o.source, args := args }] }
      { t with calls := t.calls ++ [{ source := o.source, args := args }] } := by
  refine ⟨h.data, h.server, h.objs, ?_, by simp [h.length], ?_⟩
  · intro c hc
    rcases List.mem_append.mp hc with hc | hc
    · exact h.owned c hc
    · obtain rfl := List.mem_singleton.mp hc
      exact ⟨o, ho, rfl⟩
  · intro i c a hc ha
    rw [List.getElem?_append] at hc ha
    rw [h.length] at ha
    split at hc <;> rename_i hlt
    · rw [if_pos hlt] at ha
      exact h.calls i c a hc ha
    · rw [if_neg hlt] at ha
      obtain rfl := List.mem_singleton.mp (List.mem_of_getElem? hc)
      obtain rfl := List.mem_singleton.mp (List.mem_of_getElem? ha)
      exact ⟨rfl, rfl, .fresh, eval_safe host o.source args, rfl⟩

/-- **One step.** -/
theorem Simulates.step (hsha : Function.Injective host.sha1) {s s' : ScriptSystem S A D V}
    {t : AtomicSystem S A D V} (h : Simulates host s t) {l : ScriptLabel S A W}
    (hs : s.step host act l = some s') :
    ∃ t', Reach (AtomicSystem.step host act) (fun _ _ => True) t t' ∧ Simulates host s' t' := by
  cases l with
  | other w =>
    cases hs
    refine ⟨{ t with data := act w t.data }, (Reach.refl t).snoc trivial (l := .other w) rfl, ?_⟩
    exact ⟨congrArg (act w) h.data, h.server, h.objs, h.owned, h.length, h.calls⟩
  | forget =>
    cases hs
    refine ⟨t, .refl t, h.data, ?_, h.objs, h.owned, h.length, h.calls⟩
    intro sha src hsrc
    cases hsrc
  | create source =>
    cases hs
    refine ⟨t, .refl t, h.data, h.server, ?_, ?_, h.length, h.calls⟩
    · intro o ho
      rcases List.mem_append.mp ho with ho | ho
      · exact h.objs o ho
      · obtain rfl := List.mem_singleton.mp ho
        exact ⟨.inl rfl, .fresh, boot_safe host source⟩
    · intro c hc
      obtain ⟨o, ho, hsrc⟩ := h.owned c hc
      exact ⟨o, (List.getElem?_append_left (List.getElem?_eq_some_iff.mp ho).1).trans ho, hsrc⟩
  | boot obj tr => exact ⟨t, .refl t, h.stepBoot hsha hs⟩
  | call obj args =>
    obtain ⟨o, ho, rfl⟩ := Option.map_eq_some_iff.mp hs
    exact ⟨_, (Reach.refl t).snoc trivial (l := .call o.source args) rfl, h.call ho args⟩
  | op i tr => exact h.stepOp hsha hs

end Step

/-! ## Refinement -/

/-- What a caller sees of a call: once it has ended, its answer is that of the atomic call. -/
def EvalCall.Sees (c : EvalCall S A V) (a : AtomicCall S A V) : Prop :=
  a.source = c.source ∧ a.args = c.args ∧
    match c.prog with
    | .op _ _ => True
    | .ret v => a.result = some (.ok v)
    | .raise _ => a.result = some (.error .infra)

/-- The two systems store the same data and have the same calls, with the same answers. -/
structure ScriptSystem.Agrees (s : ScriptSystem S A D V) (t : AtomicSystem S A D V) : Prop where
  data : t.data = s.server.data
  length : t.calls.length = s.calls.length
  calls : ∀ (i : ℕ) c a, s.calls[i]? = some c → t.calls[i]? = some a → c.Sees a

theorem Simulates.agrees {s : ScriptSystem S A D V} {t : AtomicSystem S A D V}
    (h : Simulates host s t) : s.Agrees t := by
  refine ⟨h.data, h.length, fun i c a hc ha => ?_⟩
  obtain ⟨hsrc, hargs, m, hsafe, hm⟩ := h.calls i c a hc ha
  refine ⟨hsrc, hargs, ?_⟩
  cases hprog : c.prog with
  | op e k => trivial
  | ret v =>
    rw [hprog] at hsafe hm
    cases m with
    | fresh => obtain ⟨err, herr⟩ := hsafe; cases herr
    | settled r =>
      obtain rfl : (.ok v : Except JsError V) = r := hsafe
      exact hm
  | raise err =>
    rw [hprog] at hsafe hm
    cases m with
    | fresh => exact hm
    | settled r =>
      obtain rfl : (.error err : Except JsError V) = r := hsafe
      exact hm

variable (act : W → D → D)

/-- **A script call is one atomic step.** However the commands of the objects' calls interleave with
each other, with the constructors, with everything else done to the data and with the server
forgetting its scripts, there is a run of atomic calls that agrees with it, also up to any earlier
state of the run. -/
theorem scripts_atomic (hsha : Function.Injective host.sha1)
    {C : ScriptSystem S A D V → ScriptLabel S A W → Prop} {data : D} {s s' : ScriptSystem S A D V}
    (hs : Reach (ScriptSystem.step host act) C { server := { data := data } } s)
    (hs' : Reach (ScriptSystem.step host act) C s s') :
    ∃ t t', Reach (AtomicSystem.step host act) (fun _ _ => True) { data := data } t ∧ s.Agrees t ∧
      Reach (AtomicSystem.step host act) (fun _ _ => True) t t' ∧ s'.Agrees t' := by
  have hstep : ∀ (u : ScriptSystem S A D V) (t : AtomicSystem S A D V) l v,
      Simulates host u t → C u l → u.step host act l = some v →
        ∃ t', Reach (AtomicSystem.step host act) (fun _ _ => True) t t' ∧ Simulates host v t' :=
    fun u t l v h _ hl => h.step hsha hl
  have hinit : Simulates host ({ server := { data := data } } : ScriptSystem S A D V)
      ({ data := data } : AtomicSystem S A D V) := by
    constructor <;> simp [ScriptServer.Ok]
  obtain ⟨t, ht, hR⟩ := hs.simulate hinit hstep
  obtain ⟨t', ht', hR'⟩ := hs'.simulate hR hstep
  exact ⟨t, t', ht, hR.agrees, ht', hR'.agrees⟩

/-- The digests of the three files. -/
def scriptSha1 : LuaScript → String
  | .releaseLock => "69cb1455c3aa59f923d13d0dead6de7b1de62a7f"
  | .extendLock => "45035be67776fdbbfebe4fddf25fb8b7d7296ccb"
  | .tokenBucket => "05faaf953835ab497ac4de950579d4283ccbf459"

theorem scriptSha1_injective : Function.Injective scriptSha1 := by
  intro a b h
  revert h
  cases a <;> cases b <;> decide

/-- A lock is taken and released; before the EVALSHA the server restarts and forgets the script. -/
def forgottenRun : List (ScriptLabel LuaScript ScriptCall RedisLife) :=
  [.create .releaseLock, .boot 0 .answered, .boot 0 .answered, .other (.cmd (.setLock 7 3 30000)),
    .call 0 (.releaseLock 7 3), .op 0 .answered, .op 0 .answered, .forget, .op 0 .answered,
    .op 0 .answered, .op 0 .answered, .op 0 .answered, .op 0 .answered]

/-- The lock of delivery 7 is free and the only call has answered that it released it. -/
def released (s : ScriptSystem LuaScript ScriptCall (Time × Redis) Int) : Bool :=
  (s.server.data.2.lock 7).isNone &&
    match s.calls with
    | [c] =>
      match c.prog with
      | .ret v => v = 1
      | _ => false
    | _ => false

theorem scripts_atomic_forgotten : ∃ s t,
    Reach (ScriptSystem.step (engineScripts scriptSha1) RedisLife.act) (fun _ _ => True)
      { server := { data := (0, {}) } } s ∧ released s = true ∧
    Reach (AtomicSystem.step (engineScripts scriptSha1) RedisLife.act) (fun _ _ => True)
      { data := (0, {}) } t ∧ s.Agrees t := by
  have hcomputed : (runOf (ScriptSystem.step (engineScripts scriptSha1) RedisLife.act)
      (fun _ _ => True) { server := { data := (0, {}) } } forgottenRun).any released = true := by
    decide +kernel
  obtain ⟨s, hs, hp⟩ := exists_run hcomputed
  obtain ⟨t, -, ht, hst, -⟩ := scripts_atomic RedisLife.act scriptSha1_injective ⟨_, hs⟩ (.refl s)
  exact ⟨s, t, ⟨_, hs⟩, hp, ht, hst⟩

/-! ## The model's calls -/

section Model

variable (sha1 : LuaScript → String) (w : World) (m : Memory) (c : Choice)

/-- `lock.release` is the atomic call of `release_lock.lua`, and 1 is `true`. -/
theorem perform_evalReleaseLock (t : Tid) (d : IdText) (token : Tid) :
    perform t w m c (.redis (.evalReleaseLock d token)) =
      let (data, r) := c.fault.run (w.now, w.redis)
        ((engineScripts sha1).run .releaseLock (.releaseLock d token) (w.now, w.redis))
      some ({ w with redis := data.2 }, m, r.map fun v => decide (v = 1)) := by
  cases hf : c.fault <;> by_cases h : w.redis.lockAt w.now d = some token
  all_goals
    simp [perform, hf, Fault.run, Fault.answer, RedisCmd.exec, engineScripts, ScriptCall.script,
      ScriptCall.exec, h, Except.map]

/-- `tryAcquire` is the atomic call of `token_bucket.lua`. -/
theorem perform_evalTokenBucket (t : Tid) (ep : EndpointId) (maxTokens ttlSeconds : ℕ) :
    perform t w m c (.redis (.evalTokenBucket ep maxTokens ttlSeconds)) =
      let (data, r) := c.fault.run (w.now, w.redis)
        ((engineScripts sha1).run .tokenBucket (.tokenBucket ep maxTokens ttlSeconds)
          (w.now, w.redis))
      some ({ w with redis := data.2 }, m, r) := by
  cases hf : c.fault
  all_goals
    simp [perform, hf, Fault.run, Fault.answer, engineScripts, ScriptCall.script, ScriptCall.exec]
    rfl

/-- The heartbeat's `extend` is the atomic call of `extend_lock.lua`. -/
theorem extendLock_run (r : Redis) (now : Time) (d : IdText) (token : Tid) (ttlMs : ℕ) :
    r.extendLock now d token ttlMs =
      let (data, v) := (engineScripts sha1).run .extendLock (.extendLock d token ttlMs) (now, r)
      (data.2, decide (v = 1)) := by
  by_cases h : r.lockAt now d = some token
  all_goals simp [engineScripts, ScriptCall.script, ScriptCall.exec, Redis.extendLock, h]

end Model

end WebhookEngine
