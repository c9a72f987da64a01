import WebhookEngine.Proof.Scripts

set_option autoImplicit false

/-!
# When a script is uploaded again

Callers of `LoadedScript.eval` never see NOSCRIPT, provided the server does not forget a script a
second time between the upload a call has made and its second EVALSHA; and while it forgets nothing,
a call is one EVALSHA and uploads nothing.

* `Sure`, `sureMonitor`, `eval_sure`: what a call can rely on at each point of `eval`;
* `BootStage`: where the constructor's function of an object stands;
* `Served`, `served_step`: the invariant of the system;
* **`noscript_hidden`**, **`one_round_trip`**.
-/

namespace WebhookEngine

open EffectProg TransitionSystem

variable {S A D V W : Type}

/-- The error is not NOSCRIPT. -/
def Mild {α : Type} (r : Except JsError α) : Prop :=
  ∀ err, r = .error err → isNoScriptError err = false

theorem mild_ok {α : Type} (a : α) : Mild (.ok a) := fun _ h => nomatch h

/-- What a call can be sure of: that its object has the digest and that the server has the script.
`tried` is whether it has made an EVALSHA. -/
structure Sure where
  digest : Bool := false
  known : Bool := false
  tried : Bool := false

variable (host : ScriptHost S A D V) (source : S) (keeps : Bool)

/-- With `keeps` the server has every script whose object is ready; a call then makes one EVALSHA and
no upload. -/
def sureMonitor : Monitor (ScriptEff S A) (ScriptEff.Resp V) Sure where
  next
    | m, .ready, .ok _ => { m with digest := true, known := keeps }
    | m, .scriptLoad _, .ok _ => { m with known := true }
    | m, .evalsha _ _, _ => { m with tried := true }
    | m, _, _ => m
  permits
    | _, .setSha sha => sha = host.sha1 source
    | _, .scriptLoad src => src = source ∧ keeps = false
    | m, .evalsha sha _ => sha = some (host.sha1 source) ∧ (keeps = true → m.tried = false)
    | _, _ => True
  expects
    | _, .ready, r => Mild r
    | m, .getSha, sha => m.digest = true → sha = some (host.sha1 source)
    | _, .scriptLoad _, r => Mild r ∧ ∀ sha, r = .ok sha → sha = host.sha1 source
    | m, .evalsha _ _, r => m.known = true → Mild r
    | _, _, _ => True

theorem eval_sure (args : A) : (LoadedScript.eval source args : ScriptCode S A V V).Safe
    (sureMonitor host source keeps) {} fun _ r => Mild r := by
  refine ⟨trivial, fun r hr => ?_⟩
  cases r with
  | error err =>
    intro err' h
    cases h
    exact hr err rfl
  | ok _ =>
    refine ⟨trivial, fun sha hsha => ⟨⟨hsha rfl, fun _ => rfl⟩, fun r hr => ?_⟩⟩
    refine Prog.safe_tryCatch.mpr (Prog.safe_ofExcept.mpr ?_)
    cases r with
    | ok v => exact mild_ok v
    | error err =>
      by_cases herr : isNoScriptError err = true
      · -- NOSCRIPT, so the server has not kept the script: upload it.
        have hkeeps : keeps = false := by
          by_contra hk
          exact absurd (hr (Bool.eq_true_of_not_eq_false hk) err rfl) (by simp [herr])
        subst hkeeps
        simp only [herr, Bool.not_true, Bool.false_eq_true, if_false]
        refine ⟨⟨rfl, rfl⟩, fun r hr => ?_⟩
        cases r with
        | error err' => exact fun e h => by cases h; exact hr.1 err' rfl
        | ok sha =>
          refine ⟨hr.2 sha rfl, fun _ _ => ⟨trivial, fun sha' hsha' => ?_⟩⟩
          refine ⟨⟨hsha' rfl, fun h => nomatch h⟩, fun r hr => ?_⟩
          exact Prog.safe_ofExcept.mpr (hr rfl)
      · simp only [herr, Bool.not_false, if_true]
        intro e h
        cases h
        simpa using herr

/-! ## The invariant -/

variable {host source keeps}

/-- The server has the script. -/
def ScriptServer.Knows (host : ScriptHost S A D V) (server : ScriptServer S D) (source : S) : Prop :=
  (server.loaded (host.sha1 source)).isSome = true

/-- Where the constructor's function of an object stands. -/
inductive BootStage (host : ScriptHost S A D V) (keeps : Bool) (server : ScriptServer S D)
    (o : LoadedScript S A V) : Prop where
  | start (h : o.booting = LoadedScript.boot o.source)
  | uploaded (h : o.booting = LoadedScript.setSha (host.sha1 o.source))
      (hknows : keeps = true → server.Knows host o.source)
  | ready (h : o.booting = .ret ()) (hsha : o.sha = some (host.sha1 o.source))
      (hknows : keeps = true → server.Knows host o.source)
  | failed {err : JsError} (h : o.booting = .raise err) (herr : isNoScriptError err = false)

/-- A call that has made its upload and not yet ended. -/
def EvalCall.Reloading (c : EvalCall S A V) : Prop :=
  (∃ e k, c.prog = .op e k) ∧ ∃ sha : String, ⟨.scriptLoad c.source, .ok sha⟩ ∈ c.trace

/-- The commands of a call, latest first. -/
def EvalCall.commands (c : EvalCall S A V) : List (ScriptEff S A) :=
  (c.trace.map Sigma.fst).filter fun
    | .scriptLoad _ | .evalsha _ _ => true
    | .ready | .getSha | .setSha _ => false

/-- What a call is sure of is so; with `keeps` its commands are at most one EVALSHA. -/
structure EvalCall.Relies (host : ScriptHost S A D V) (keeps : Bool) (server : ScriptServer S D)
    (o : LoadedScript S A V) (c : EvalCall S A V) (m : Sure) : Prop where
  source : o.source = c.source
  safe : c.prog.Safe (sureMonitor host c.source keeps) m fun _ r => Mild r
  digest : m.digest = true → o.sha = some (host.sha1 c.source)
  known : m.known = true → (∃ e k, c.prog = .op e k) → server.Knows host c.source
  uploaded : m.known = true → keeps = true ∨ ∃ sha : String, ⟨.scriptLoad c.source, .ok sha⟩ ∈ c.trace
  untried : keeps = true → m.tried = false → c.commands = []
  tried : keeps = true → c.commands = [] ∨ ∃ sha a, c.commands = [.evalsha sha a]

structure Served (host : ScriptHost S A D V) (keeps : Bool) (s : ScriptSystem S A D V) : Prop where
  objs : ∀ o ∈ s.objs, BootStage host keeps s.server o
  calls : ∀ c ∈ s.calls, ∃ o m, s.objs[c.obj]? = some o ∧ c.Relies host keeps s.server o m

/-- What no command takes back. -/
structure Sustained (host : ScriptHost S A D V) (server server' : ScriptServer S D)
    (o o' : LoadedScript S A V) : Prop where
  source : o'.source = o.source
  digest : o.sha = some (host.sha1 o.source) → o'.sha = some (host.sha1 o.source)
  knows : ∀ src, server.Knows host src → server'.Knows host src

theorem Sustained.refl (server : ScriptServer S D) (o : LoadedScript S A V) :
    Sustained host server server o o := ⟨rfl, id, fun _ => id⟩

theorem BootStage.sustain {server server' : ScriptServer S D} {o o' : LoadedScript S A V}
    (h : BootStage host keeps server o) (hs : Sustained host server server' o o')
    (hb : o'.booting = o.booting) : BootStage host keeps server' o' := by
  cases h with
  | start h => exact .start (by rw [hb, h, hs.source])
  | uploaded h hk =>
    exact .uploaded (by rw [hb, h, hs.source]) fun hkeeps => by
      rw [hs.source]
      exact hs.knows _ (hk hkeeps)
  | ready h hsha hk =>
    refine .ready (hb.trans h) (by rw [hs.source]; exact hs.digest hsha) fun hkeeps => ?_
    rw [hs.source]
    exact hs.knows _ (hk hkeeps)
  | failed h herr => exact .failed (hb.trans h) herr

theorem EvalCall.Relies.sustain {server server' : ScriptServer S D} {o o' : LoadedScript S A V}
    {c : EvalCall S A V} {m : Sure} (h : c.Relies host keeps server o m)
    (hs : Sustained host server server' o o') : c.Relies host keeps server' o' m := by
  refine ⟨hs.source.trans h.source, h.safe, fun hd => ?_, ?_, h.uploaded, h.untried, h.tried⟩
  · rw [← h.source]
    exact hs.digest (h.source ▸ h.digest hd)
  · intro hm hop
    exact hs.knows _ (h.known hm hop)

theorem ScriptServer.scriptLoad_knows (host : ScriptHost S A D V) (server : ScriptServer S D)
    (src : S) :
    (server.scriptLoad host src).1.Knows host src ∧
      ∀ src', server.Knows host src' → (server.scriptLoad host src).1.Knows host src' := by
  refine ⟨by simp [ScriptServer.Knows, ScriptServer.scriptLoad], fun src' h => ?_⟩
  simp only [ScriptServer.Knows, ScriptServer.scriptLoad, Function.update_apply]
  split
  · rfl
  · exact h

theorem Transport.run_scriptLoad {tr : Transport} {server server' : ScriptServer S D} {src : S}
    {r : Except JsError String} (hr : tr.run server (server.scriptLoad host src) = (server', r)) :
    (∀ src', server.Knows host src' → server'.Knows host src') ∧ Mild r ∧
      ∀ sha, r = .ok sha → sha = host.sha1 src ∧ server'.Knows host src := by
  obtain ⟨hnew, hold⟩ := server.scriptLoad_knows host src
  cases tr with
  | answered =>
    cases hr
    exact ⟨hold, mild_ok _, fun sha h => ⟨by cases h; rfl, hnew⟩⟩
  | lost e =>
    cases hr
    exact ⟨fun _ h => h, fun _ h => by cases h; exact e.2, fun _ h => by cases h⟩
  | unanswered e =>
    cases hr
    exact ⟨hold, fun _ h => by cases h; exact e.2, fun _ h => by cases h⟩

theorem Transport.run_evalsha {tr : Transport} {server server' : ScriptServer S D} {src : S} {a : A}
    {r : Except JsError V}
    (hr : tr.run server (server.evalsha host (some (host.sha1 src)) a) = (server', r)) :
    (∀ src', server.Knows host src' → server'.Knows host src') ∧ (server.Knows host src → Mild r) := by
  have hold : ∀ src', server.Knows host src' →
      (server.evalsha host (some (host.sha1 src)) a).1.Knows host src' := by
    intro src' h
    unfold ScriptServer.Knows ScriptServer.evalsha
    split <;> exact h
  cases tr with
  | answered =>
    obtain rfl := congrArg Prod.fst hr
    obtain rfl := congrArg Prod.snd hr
    refine ⟨hold, fun h => ?_⟩
    obtain ⟨x, hx⟩ := Option.isSome_iff_exists.mp h
    simp only [Transport.run, ScriptServer.evalsha, Option.bind_some, hx]
    exact mild_ok _
  | lost e =>
    cases hr
    exact ⟨fun _ h => h, fun _ _ h => by cases h; exact e.2⟩
  | unanswered e =>
    cases hr
    exact ⟨hold, fun _ _ h => by cases h; exact e.2⟩

/-- **One command of a call.** -/
theorem ScriptServer.perform_sure {server server' : ScriptServer S D} {o o' : LoadedScript S A V}
    {tr : Transport} {e : ScriptEff S A} {r : e.Resp V} {m : Sure}
    (hstage : BootStage host keeps server o)
    (hdigest : m.digest = true → o.sha = some (host.sha1 o.source))
    (hknown : m.known = true → server.Knows host o.source)
    (hp : (sureMonitor host o.source keeps).permits m e)
    (hr : server.perform host o tr e = some (server', o', r)) :
    Sustained host server server' o o' ∧ o'.booting = o.booting ∧
      (sureMonitor host o.source keeps).expects m e r ∧
      (((sureMonitor host o.source keeps).next m e r).digest = true →
        o'.sha = some (host.sha1 o.source)) ∧
      (((sureMonitor host o.source keeps).next m e r).known = true →
        server'.Knows host o.source) := by
  cases e with
  | ready =>
    cases hstage with
    | start h => simp [ScriptServer.perform, h, LoadedScript.boot, LoadedScript.scriptLoad,
        LoadedScript.await, Prog.perform] at hr
    | uploaded h => simp [ScriptServer.perform, h, LoadedScript.setSha] at hr
    | ready h hsha hk =>
      simp only [ScriptServer.perform, h] at hr
      cases hr
      exact ⟨.refl _ _, rfl, mild_ok _, fun _ => hsha, hk⟩
    | failed h herr =>
      simp only [ScriptServer.perform, h] at hr
      cases hr
      exact ⟨.refl _ _, rfl, fun _ h => by cases h; exact herr, hdigest, hknown⟩
  | getSha =>
    cases hr
    exact ⟨.refl _ _, rfl, hdigest, hdigest, hknown⟩
  | setSha sha =>
    cases hr
    have hsha : some sha = some (host.sha1 o.source) := congrArg some hp
    exact ⟨⟨rfl, fun _ => hsha, fun _ => id⟩, rfl, trivial, fun _ => hsha, hknown⟩
  | scriptLoad src =>
    obtain ⟨rfl, -⟩ := hp
    obtain ⟨server₁, r₁, htr⟩ : ∃ x y, tr.run server (server.scriptLoad host o.source) = (x, y) :=
      ⟨_, _, rfl⟩
    obtain ⟨hold, hmild, hok⟩ := Transport.run_scriptLoad htr
    simp only [ScriptServer.perform, htr] at hr
    cases hr
    refine ⟨⟨rfl, id, hold⟩, rfl, ⟨hmild, fun sha h => (hok sha h).1⟩, ?_⟩
    cases r with
    | ok sha => exact ⟨hdigest, fun _ => (hok sha rfl).2⟩
    | error err => exact ⟨hdigest, fun h => hold _ (hknown h)⟩
  | evalsha sha a =>
    obtain ⟨rfl, -⟩ := hp
    obtain ⟨server₁, r₁, htr⟩ :
        ∃ x y, tr.run server (server.evalsha host (some (host.sha1 o.source)) a) = (x, y) :=
      ⟨_, _, rfl⟩
    obtain ⟨hold, hmild⟩ := Transport.run_evalsha htr
    simp only [ScriptServer.perform, htr] at hr
    cases hr
    exact ⟨⟨rfl, id, hold⟩, rfl, fun h => hmild (hknown h), hdigest, fun h => hold _ (hknown h)⟩

theorem EvalCall.Relies.next {server server' : ScriptServer S D} {o o' : LoadedScript S A V}
    {c : EvalCall S A V} {m : Sure} (h : c.Relies host keeps server o m) {tr : Transport}
    (hstage : BootStage host keeps server o) {e : ScriptEff S A}
    {k : e.Resp V → ScriptCode S A V V} (hprog : c.prog = .op e k) {r : e.Resp V}
    (hr : server.perform host o tr e = some (server', o', r)) :
    Sustained host server server' o o' ∧ o'.booting = o.booting ∧
      EvalCall.Relies host keeps server' o' { c with prog := k r, trace := ⟨e, r⟩ :: c.trace }
        ((sureMonitor host c.source keeps).next m e r) := by
  obtain ⟨hsrc, hsafe, hdigest, hknown, hup, huntried, htried⟩ := h
  rw [hprog] at hsafe
  rw [← hsrc] at hsafe hdigest hknown
  obtain ⟨hsus, hboot, hexp, hd, hk⟩ :=
    ScriptServer.perform_sure hstage hdigest (fun hm => hknown hm ⟨e, k, hprog⟩) hsafe.1 hr
  refine ⟨hsus, hboot, hsus.source.trans hsrc, ?_, ?_, ?_, ?_, ?_, ?_⟩
  · rw [← hsrc]
    exact hsafe.2 r hexp
  · rw [← hsrc]
    exact hd
  · rw [← hsrc]
    exact fun hm _ => hk hm
  · intro hm
    cases e with
    | ready =>
      cases r with
      | ok _ => exact .inl hm
      | error _ => exact (hup hm).imp_right fun ⟨sha, hsha⟩ => ⟨sha, List.mem_cons_of_mem _ hsha⟩
    | scriptLoad src =>
      obtain ⟨rfl, -⟩ := hsafe.1
      cases r with
      | ok sha => exact .inr ⟨sha, hsrc ▸ List.mem_cons_self⟩
      | error _ => exact (hup hm).imp_right fun ⟨sha, hsha⟩ => ⟨sha, List.mem_cons_of_mem _ hsha⟩
    | getSha | setSha _ | evalsha _ _ =>
      exact (hup hm).imp_right fun ⟨sha, hsha⟩ => ⟨sha, List.mem_cons_of_mem _ hsha⟩
  · intro hkeeps hm
    cases e with
    | ready => cases r <;> exact huntried hkeeps hm
    | scriptLoad src =>
      obtain ⟨-, hk⟩ := hsafe.1
      cases hk.symm.trans hkeeps
    | getSha | setSha _ => exact huntried hkeeps hm
    | evalsha _ _ => cases hm
  · intro hkeeps
    cases e with
    | ready | getSha | setSha _ => exact htried hkeeps
    | scriptLoad src =>
      obtain ⟨-, hk⟩ := hsafe.1
      cases hk.symm.trans hkeeps
    | evalsha sha a =>
      have hnone := huntried hkeeps (hsafe.1.2 hkeeps)
      exact .inr ⟨sha, a, congrArg (_ :: ·) hnone⟩

theorem Served.replace {s : ScriptSystem S A D V} (h : Served host keeps s)
    {server' : ScriptServer S D} {j : ℕ} {o o' : LoadedScript S A V} (ho : s.objs[j]? = some o)
    (hs : Sustained host s.server server' o o') (hstage : BootStage host keeps server' o') :
    Served host keeps { s with server := server', objs := s.objs.set j o' } := by
  refine ⟨fun x hx => ?_, fun c hc => ?_⟩
  · rcases List.mem_or_eq_of_mem_set hx with hx | rfl
    · exact (h.objs x hx).sustain ⟨rfl, id, hs.knows⟩ rfl
    · exact hstage
  · obtain ⟨x, m, hx, hrel⟩ := h.calls c hc
    by_cases hj : j = c.obj
    · subst hj
      obtain rfl := Option.some.inj (hx.symm.trans ho)
      exact ⟨o', m, List.getElem?_set_self (List.getElem?_eq_some_iff.mp ho).1, hrel.sustain hs⟩
    · exact ⟨x, m, (List.getElem?_set_ne hj).trans hx, hrel.sustain ⟨rfl, id, hs.knows⟩⟩

theorem Served.stepBoot {s s' : ScriptSystem S A D V} (h : Served host keeps s) {j : ℕ}
    {tr : Transport} (hs : s.stepBoot host j tr = some s') : Served host keeps s' := by
  obtain ⟨o, ho, hs⟩ := Option.bind_eq_some_iff.mp hs
  cases h.objs o (List.mem_of_getElem? ho) with
  | start hb =>
    obtain ⟨server', r, htr⟩ :
        ∃ x y, tr.run s.server (s.server.scriptLoad host o.source) = (x, y) := ⟨_, _, rfl⟩
    obtain ⟨hold, hmild, hok⟩ := Transport.run_scriptLoad htr
    have hs' : s' = { s with
        server := server'
        objs := s.objs.set j { o with
          booting := (Prog.ofExcept r).bind LoadedScript.setSha } } := by
      rw [hb] at hs
      simp only [LoadedScript.boot, LoadedScript.scriptLoad, LoadedScript.await, Prog.perform,
        Prog.bind_eq, Prog.op_bind, ScriptServer.perform, htr] at hs
      exact (Option.some.inj hs).symm
    subst hs'
    refine h.replace ho ⟨rfl, id, hold⟩ ?_
    cases r with
    | ok sha =>
      obtain ⟨rfl, hnew⟩ := hok sha rfl
      exact .uploaded rfl fun _ => hnew
    | error err => exact .failed rfl (hmild err rfl)
  | uploaded hb hk =>
    rw [hb] at hs
    cases hs
    refine h.replace ho ⟨rfl, fun _ => rfl, fun _ => id⟩ ?_
    exact .ready rfl rfl hk
  | ready hb hsha hk => simp [hb] at hs
  | failed hb herr => simp [hb] at hs

theorem Served.stepOp {s s' : ScriptSystem S A D V} (h : Served host keeps s) {i : ℕ}
    {tr : Transport} (hs : s.stepOp host i tr = some s') : Served host keeps s' := by
  obtain ⟨c, hc, hs⟩ := Option.bind_eq_some_iff.mp hs
  obtain ⟨o, ho, hs⟩ := Option.bind_eq_some_iff.mp hs
  obtain ⟨x, m, hx, hrel⟩ := h.calls c (List.mem_of_getElem? hc)
  obtain rfl : x = o := Option.some.inj (hx.symm.trans ho)
  cases hprog : c.prog with
  | ret _ => simp [hprog] at hs
  | raise _ => simp [hprog] at hs
  | op e k =>
    simp only [hprog] at hs
    obtain ⟨⟨server', o', r⟩, hr, rfl⟩ := Option.map_eq_some_iff.mp hs
    have hstage := h.objs x (List.mem_of_getElem? ho)
    obtain ⟨hsus, hboot, hrel'⟩ := hrel.next hstage hprog hr
    have hs' := h.replace ho hsus (hstage.sustain hsus hboot)
    refine ⟨hs'.objs, fun c' hc' => ?_⟩
    rcases List.mem_or_eq_of_mem_set hc' with hc' | rfl
    · exact hs'.calls c' hc'
    · exact ⟨o', _, List.getElem?_set_self (List.getElem?_eq_some_iff.mp ho).1, hrel'⟩

variable {act : W → D → D}

/-- **One step.** -/
theorem Served.step {s s' : ScriptSystem S A D V} (h : Served host keeps s)
    {l : ScriptLabel S A W} (hl : l = .forget → keeps = false ∧ ∀ c ∈ s.calls, ¬ c.Reloading)
    (hs : s.step host act l = some s') : Served host keeps s' := by
  cases l with
  | other w =>
    cases hs
    refine ⟨fun o ho => (h.objs o ho).sustain ⟨rfl, id, fun _ => id⟩ rfl, fun c hc => ?_⟩
    obtain ⟨o, m, ho, hrel⟩ := h.calls c hc
    exact ⟨o, m, ho, hrel.sustain ⟨rfl, id, fun _ => id⟩⟩
  | forget =>
    obtain ⟨rfl, hquiet⟩ := hl rfl
    cases hs
    refine ⟨fun o ho => ?_, fun c hc => ?_⟩
    · cases h.objs o ho with
      | start hb => exact .start hb
      | uploaded hb _ => exact .uploaded hb fun h => nomatch h
      | ready hb hsha _ => exact .ready hb hsha fun h => nomatch h
      | failed hb herr => exact .failed hb herr
    · obtain ⟨o, m, ho, hrel⟩ := h.calls c hc
      refine ⟨o, m, ho, { hrel with known := fun hm hop => ?_ }⟩
      -- Whoever counts on the script has uploaded it, and nobody is between upload and EVALSHA.
      rcases hrel.uploaded hm with h | hload
      · cases h
      · exact absurd ⟨hop, hload⟩ (hquiet c hc)
  | create source =>
    cases hs
    refine ⟨fun o ho => ?_, fun c hc => ?_⟩
    · rcases List.mem_append.mp ho with ho | ho
      · exact h.objs o ho
      · obtain rfl := List.mem_singleton.mp ho
        exact .start rfl
    · obtain ⟨o, m, ho, hrel⟩ := h.calls c hc
      exact ⟨o, m, (List.getElem?_append_left (List.getElem?_eq_some_iff.mp ho).1).trans ho, hrel⟩
  | boot obj tr => exact h.stepBoot hs
  | call obj args =>
    obtain ⟨o, ho, rfl⟩ := Option.map_eq_some_iff.mp hs
    refine ⟨h.objs, fun c hc => ?_⟩
    rcases List.mem_append.mp hc with hc | hc
    · exact h.calls c hc
    · obtain rfl := List.mem_singleton.mp hc
      exact ⟨o, {}, ho, rfl, eval_sure host o.source keeps args, by simp, by simp, by simp,
        fun _ _ => rfl, fun _ => .inl rfl⟩
  | op i tr => exact h.stepOp hs

theorem reach_served {C : ScriptSystem S A D V → ScriptLabel S A W → Prop}
    (hC : ∀ s, C s .forget → keeps = false ∧ ∀ c ∈ s.calls, ¬ c.Reloading) {data : D}
    {s : ScriptSystem S A D V}
    (h : Reach (ScriptSystem.step host act) C { server := { data := data } } s) :
    Served host keeps s := by
  refine h.invariant ⟨by simp, by simp⟩ ?_
  intro u l v hu hl hv
  exact hu.step (fun hforget => hC u (hforget ▸ hl)) hv

variable (act)

/-- **Callers never see NOSCRIPT**, provided the server forgets no script while a call is between the
upload it has made and its end. -/
theorem noscript_hidden {C : ScriptSystem S A D V → ScriptLabel S A W → Prop}
    (hC : ∀ s, C s .forget → ∀ c ∈ s.calls, ¬ c.Reloading) {data : D} {s : ScriptSystem S A D V}
    (h : Reach (ScriptSystem.step host act) C { server := { data := data } } s)
    {c : EvalCall S A V} (hc : c ∈ s.calls) {err : JsError} (herr : c.prog = .raise err) :
    isNoScriptError err = false := by
  have hserved : Served host false s := reach_served (fun u hu => ⟨rfl, hC u hu⟩) h
  obtain ⟨o, m, -, hrel⟩ := hserved.calls c hc
  have hsafe := hrel.safe
  rw [herr] at hsafe
  exact hsafe err rfl

/-- Redis refuses writes. -/
def readOnly : Failure where
  val := { isError := true, name := "ReplyError", message := "READONLY" }
  property := by decide +kernel

/-- The server restarts before a call, and refuses the upload the call makes. -/
def refusedRun : List (ScriptLabel LuaScript ScriptCall RedisLife) :=
  [.create .releaseLock, .boot 0 .answered, .boot 0 .answered, .forget, .call 0 (.releaseLock 7 3),
    .op 0 .answered, .op 0 .answered, .op 0 .answered, .op 0 (.lost readOnly)]

/-- The server forgets its scripts only when there are no calls. -/
def forgetsIdle (s : ScriptSystem LuaScript ScriptCall (Time × Redis) Int) :
    ScriptLabel LuaScript ScriptCall RedisLife → Bool
  | .forget => s.calls.isEmpty
  | _ => true

/-- Some call has thrown. -/
def someThrown (s : ScriptSystem LuaScript ScriptCall (Time × Redis) Int) : Bool :=
  s.calls.any fun c =>
    match c.prog with
    | .raise _ => true
    | _ => false

theorem noscript_hidden_refused : ∃ s, ∃ c ∈ s.calls, ∃ err,
    Reach (ScriptSystem.step (engineScripts scriptSha1) RedisLife.act)
      (fun s l => forgetsIdle s l = true) { server := { data := (0, {}) } } s ∧
      c.prog = .raise err ∧ isNoScriptError err = false := by
  have hcomputed : (runOf (ScriptSystem.step (engineScripts scriptSha1) RedisLife.act)
      (fun s l => forgetsIdle s l = true) { server := { data := (0, {}) } } refusedRun).any
        someThrown = true := by
    decide +kernel
  obtain ⟨s, hs, hp⟩ := exists_run hcomputed
  obtain ⟨c, hc, hthrown⟩ := List.any_eq_true.mp hp
  cases hprog : c.prog with
  | op _ _ => simp [hprog] at hthrown
  | ret _ => simp [hprog] at hthrown
  | raise err =>
    refine ⟨s, c, hc, err, ⟨_, hs⟩, hprog, noscript_hidden RedisLife.act ?_ ⟨_, hs⟩ hc hprog⟩
    intro u hu
    simp [List.isEmpty_iff.mp (show u.calls.isEmpty = true from hu)]

/-- **One round trip.** While the server forgets nothing, all that a call has sent is one EVALSHA. -/
theorem one_round_trip {C : ScriptSystem S A D V → ScriptLabel S A W → Prop}
    (hC : ∀ s, ¬ C s .forget) {data : D} {s : ScriptSystem S A D V}
    (h : Reach (ScriptSystem.step host act) C { server := { data := data } } s)
    {c : EvalCall S A V} (hc : c ∈ s.calls) :
    c.commands = [] ∨ ∃ sha a, c.commands = [.evalsha sha a] := by
  have hserved : Served host true s := reach_served (fun u hu => absurd hu (hC u)) h
  obtain ⟨o, m, -, hrel⟩ := hserved.calls c hc
  exact hrel.tried rfl

/-- The server forgets nothing. -/
def remembers : ScriptLabel LuaScript ScriptCall RedisLife → Bool
  | .forget => false
  | _ => true

/-- A lock is taken and released. -/
def releasedRun : List (ScriptLabel LuaScript ScriptCall RedisLife) :=
  [.create .releaseLock, .boot 0 .answered, .boot 0 .answered, .other (.cmd (.setLock 7 3 30000)),
    .call 0 (.releaseLock 7 3), .op 0 .answered, .op 0 .answered, .op 0 .answered]

theorem one_round_trip_released : ∃ s,
    Reach (ScriptSystem.step (engineScripts scriptSha1) RedisLife.act)
      (fun _ l => remembers l = true) { server := { data := (0, {}) } } s ∧ released s = true ∧
      ∀ c ∈ s.calls, c.commands = [] ∨ ∃ sha a, c.commands = [.evalsha sha a] := by
  have hcomputed : (runOf (ScriptSystem.step (engineScripts scriptSha1) RedisLife.act)
      (fun _ l => remembers l = true) { server := { data := (0, {}) } } releasedRun).any
        released = true := by
    decide +kernel
  obtain ⟨s, hs, hp⟩ := exists_run hcomputed
  refine ⟨s, ⟨_, hs⟩, hp, fun c hc => one_round_trip RedisLife.act ?_ ⟨_, hs⟩ hc⟩
  intro u hu
  cases hu

end WebhookEngine
