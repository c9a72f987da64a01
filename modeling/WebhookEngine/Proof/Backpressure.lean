import WebhookEngine.Model.Backpressure
import WebhookEngine.Proof.Memo

set_option autoImplicit false

/-!
# Verdicts of `isOverloaded`

* `Gauge.Sound`: the invariant. What `memoTtl` knows was read from the queue while the command was on
  its way, and who asks is served what was completed less than `ttlMs` before, or what is on its way.
* `Gauge.Changes`: what a reaction of `memoTtl` does to its invocations; `Sound.memo`: it keeps the
  invariant.
* **`verdict_recent`**: a verdict is true of the queue at a moment that lies back no longer than
  `ttlMs` and the time its command took.
-/

namespace WebhookEngine

open TransitionSystem

variable {E : Type} {ttlMs : ℕ} {g g' : Gauge E} {m : Memo JobCounts E} {i : ℕ}

namespace Gauge

/-- The command of the invocation read these counts, before that time. -/
def Read (g : Gauge E) (i : ℕ) (counts : JobCounts) (time : ℕ) : Prop :=
  ∃ f u, g.fetches[i]? = some f ∧ f.sentAt ≤ u ∧ u ≤ time ∧ (u, counts) ∈ g.past

/-- Who asked at that time is served by an invocation that ended less than `ttlMs` before, or has not
ended before. -/
def Timely (ttlMs : ℕ) (g : Gauge E) (t : ℕ) : Source JobCounts → Prop
  | .cached counts => ∃ i time, g.memo.Completed i counts time ∧ time ≤ t ∧ t < time + ttlMs
  | .shares i => (∃ f, g.fetches[i]? = some f ∧ f.sentAt ≤ t) ∧ t ≤ g.memo.now ∧
      ∀ counts time, g.memo.Completed i counts time → t ≤ time

/-- **The invariant.** -/
structure Sound (ttlMs : ℕ) (g : Gauge E) : Prop where
  memo : g.memo.Sound ttlMs
  length : g.fetches.length = g.memo.invocations.length
  asked : g.askedAt.length = g.memo.calls.length
  current : (g.memo.now, g.queue) ∈ g.past
  sent : ∀ (i : ℕ) f, g.fetches[i]? = some f → f.sentAt ≤ g.memo.now ∧
    ∀ counts, f.answer = some counts → g.Read i counts g.memo.now
  resolved : ∀ (i : ℕ) counts, g.memo.invocations[i]? = some (.resolved counts) →
    ∃ f, g.fetches[i]? = some f ∧ f.answer = some counts
  completed : ∀ i counts time, g.memo.Completed i counts time → g.Read i counts time
  calls : ∀ (c : ℕ) call t, g.memo.calls[c]? = some call → g.askedAt[c]? = some t →
    g.Timely ttlMs t call.source

/-! ## The queue -/

theorem Sound.passes (h : g.Sound ttlMs) (ms : ℕ) (queue : JobCounts) :
    Sound ttlMs { g with
      memo := { g.memo with now := g.memo.now + ms }
      queue := queue
      past := g.past ++ [(g.memo.now + ms, queue)] } := by
  have hread : ∀ {i counts time}, g.Read i counts time → Read { g with
      memo := { g.memo with now := g.memo.now + ms }
      queue := queue
      past := g.past ++ [(g.memo.now + ms, queue)] } i counts time := by
    rintro i counts time ⟨f, u, hf, hu, hle, hmem⟩
    exact ⟨f, u, hf, hu, hle, List.mem_append_left _ hmem⟩
  refine ⟨h.memo.step (l := .tick ms) rfl, h.length, h.asked, by simp,
    fun i f hf => ⟨?_, fun counts hc => ?_⟩, h.resolved,
    fun i counts time hc => hread (h.completed i counts time hc), fun c call t hc ht => ?_⟩
  · exact Nat.le_add_right_of_le (h.sent i f hf).1
  · obtain ⟨f', u, hf', hu, hle, hmem⟩ := hread ((h.sent i f hf).2 counts hc)
    exact ⟨f', u, hf', hu, Nat.le_add_right_of_le hle, hmem⟩
  · have hold := h.calls c call t hc ht
    cases hs : call.source with
    | cached counts =>
      rw [hs] at hold
      exact hold
    | shares i =>
      rw [hs] at hold
      exact ⟨hold.1, Nat.le_add_right_of_le hold.2.1, hold.2.2⟩

theorem Sound.reads (h : g.Sound ttlMs) (hstep : g.read i = some g') : g'.Sound ttlMs := by
  unfold Gauge.read at hstep
  split at hstep
  · rename_i sentAt hi
    cases hstep
    have hset : ∀ {j : ℕ} {f : CountsFetch}, g.fetches[j]? = some f → ∃ f',
        (g.fetches.set i ⟨sentAt, some g.queue⟩)[j]? = some f' ∧ f'.sentAt = f.sentAt ∧
          ∀ counts, f.answer = some counts → f'.answer = some counts := by
      intro j f hf
      by_cases hj : j = i
      · subst hj
        cases hi.symm.trans hf
        refine ⟨_, List.getElem?_set_self (List.getElem?_eq_some_iff.mp hi).1, rfl, nofun⟩
      · exact ⟨f, (List.getElem?_set_ne (Ne.symm hj)).trans hf, rfl, fun _ hc => hc⟩
    have hread : ∀ {j counts time}, g.Read j counts time → Read
        { g with fetches := g.fetches.set i ⟨sentAt, some g.queue⟩ } j counts time := by
      rintro j counts time ⟨f, u, hf, hu, hle, hmem⟩
      obtain ⟨f', hf', hsent, -⟩ := hset hf
      exact ⟨f', u, hf', hsent ▸ hu, hle, hmem⟩
    refine ⟨h.memo, List.length_set.trans h.length, h.asked, h.current, fun j f hf => ?_,
      fun j counts hj => ?_, fun j counts time hc => hread (h.completed j counts time hc),
      fun c call t hc ht => ?_⟩
    · by_cases hj : j = i
      · subst hj
        have hlt := (List.getElem?_eq_some_iff.mp hi).1
        have hself : (g.fetches.set j ⟨sentAt, some g.queue⟩)[j]? = some ⟨sentAt, some g.queue⟩ :=
          List.getElem?_set_self hlt
        cases hself.symm.trans hf
        have hsent := (h.sent j _ hi).1
        refine ⟨hsent, fun counts hc => ?_⟩
        cases hc
        exact ⟨_, g.memo.now, hself, hsent, Nat.le_refl _, h.current⟩
      · have hold : g.fetches[j]? = some f := (List.getElem?_set_ne (Ne.symm hj)).symm.trans hf
        exact ⟨(h.sent j f hold).1, fun counts hc => hread ((h.sent j f hold).2 counts hc)⟩
    · obtain ⟨f, hf, ha⟩ := h.resolved j counts hj
      obtain ⟨f', hf', -, ha'⟩ := hset hf
      exact ⟨f', hf', ha' counts ha⟩
    · have hold := h.calls c call t hc ht
      cases hs : call.source with
      | cached counts =>
        rw [hs] at hold
        exact hold
      | shares j =>
        rw [hs] at hold
        obtain ⟨⟨f, hf, hle⟩, hrest⟩ := hold
        obtain ⟨f', hf', hsent, -⟩ := hset hf
        exact ⟨⟨f', hf', hsent ▸ hle⟩, hrest⟩
  · cases hstep

/-! ## The memoised function -/

/-- What a settled promise and a reaction do: they make no calls and start no invocations; who has
resolved has the answer of its command, and who has completed had resolved and does so now. -/
structure Changes (g : Gauge E) (m : Memo JobCounts E) : Prop where
  now : m.now = g.memo.now
  length : m.invocations.length = g.memo.invocations.length
  sources : m.calls.map (·.source) = g.memo.calls.map (·.source)
  resolved : ∀ (i : ℕ) counts, m.invocations[i]? = some (.resolved counts) →
    ∃ f, g.fetches[i]? = some f ∧ f.answer = some counts
  completed : ∀ (i : ℕ) counts time, m.Completed i counts time → g.memo.Completed i counts time ∨
    time = g.memo.now ∧ g.memo.invocations[i]? = some (.resolved counts)
  kept : ∀ (i : ℕ) counts time, g.memo.Completed i counts time → m.Completed i counts time

theorem Sound.changes (h : g.Sound ttlMs) (hm : m.Sound ttlMs) (hch : g.Changes m) :
    Sound ttlMs { g with memo := m } := by
  have hnow := hch.now
  refine ⟨hm, h.length.trans hch.length.symm, ?_, ?_, fun i f hf => ?_, hch.resolved,
    fun i counts time hc => ?_, fun c call t hc ht => ?_⟩
  · have hlen := congrArg List.length hch.sources
    rw [List.length_map, List.length_map] at hlen
    exact h.asked.trans hlen.symm
  · rw [hnow]
    exact h.current
  · rw [hnow]
    exact h.sent i f hf
  · rcases hch.completed i counts time hc with hc | ⟨rfl, hi⟩
    · exact h.completed i counts time hc
    · obtain ⟨f, hf, ha⟩ := h.resolved i counts hi
      exact (h.sent i f hf).2 counts ha
  · obtain ⟨call', hc', hsource⟩ : ∃ call', g.memo.calls[c]? = some call' ∧
        call'.source = call.source := by
      have hmap : (g.memo.calls.map (·.source))[c]? = some call.source := by
        rw [← hch.sources, List.getElem?_map, hc]
        rfl
      rw [List.getElem?_map] at hmap
      exact Option.map_eq_some_iff.mp hmap
    have hold := h.calls c call' t hc' ht
    rw [hsource] at hold
    cases hs : call.source with
    | cached counts =>
      rw [hs] at hold
      obtain ⟨i, time, hi, hrest⟩ := hold
      exact ⟨i, time, hch.kept i counts time hi, hrest⟩
    | shares i =>
      rw [hs] at hold
      refine ⟨hold.1, hnow ▸ hold.2.1, fun counts time hi => ?_⟩
      rcases hch.completed i counts time hi with hi | ⟨rfl, -⟩
      · exact hold.2.2 counts time hi
      · exact hold.2.1

theorem changes_set {p q : Invocation JobCounts E} (h : g.Sound ttlMs)
    (hi : g.memo.invocations[i]? = some p)
    (hq : ∀ counts, q = .resolved counts → ∃ f, g.fetches[i]? = some f ∧ f.answer = some counts)
    (hdone : ∀ counts time, q = .completed counts time ∨ q = .fulfilled counts time →
      p = .completed counts time ∨ p = .fulfilled counts time ∨
        time = g.memo.now ∧ p = .resolved counts)
    (hkept : ∀ counts time, p = .completed counts time ∨ p = .fulfilled counts time →
      q = .completed counts time ∨ q = .fulfilled counts time)
    (cached : Option (JobCounts × ℕ)) (pending : Option ℕ) :
    g.Changes { g.memo.set i q with cached := cached, pending := pending } where
  now := rfl
  length := Memo.length_set
  sources := rfl
  resolved j counts hj := by
    by_cases hji : j = i
    · subst hji
      exact hq counts (Option.some_inj.mp ((Memo.set_self hi).symm.trans hj))
    · exact h.resolved j counts ((Memo.set_other hji).symm.trans hj)
  completed j counts time hj := by
    by_cases hji : j = i
    · subst hji
      have hqt : q = .completed counts time ∨ q = .fulfilled counts time :=
        hj.imp (fun hc => Option.some_inj.mp ((Memo.set_self hi).symm.trans hc))
          fun hc => Option.some_inj.mp ((Memo.set_self hi).symm.trans hc)
      rcases hdone counts time hqt with rfl | rfl | ⟨rfl, rfl⟩
      · exact Or.inl (Or.inl hi)
      · exact Or.inl (Or.inr hi)
      · exact Or.inr ⟨rfl, hi⟩
    · exact Or.inl (hj.imp (Memo.set_other hji).symm.trans (Memo.set_other hji).symm.trans)
  kept j counts time hj := by
    by_cases hji : j = i
    · subst hji
      have hpt : p = .completed counts time ∨ p = .fulfilled counts time :=
        hj.imp (fun hc => Option.some_inj.mp (hi.symm.trans hc))
          fun hc => Option.some_inj.mp (hi.symm.trans hc)
      rcases hkept counts time hpt with rfl | rfl
      · exact Or.inl (Memo.set_self hi)
      · exact Or.inr (Memo.set_self hi)
    · exact hj.imp (Memo.set_other hji).trans (Memo.set_other hji).trans

theorem changes_settle (h : g.Sound ttlMs) {result : Except E JobCounts}
    (hs : g.memo.settle i result = some m)
    (ha : ∀ counts, result = .ok counts → ∃ f, g.fetches[i]? = some f ∧ f.answer = some counts) :
    g.Changes m := by
  unfold Memo.settle at hs
  split at hs
  · rename_i counts hi
    cases hs
    refine changes_set h hi (fun c hc => ?_) (by simp) (by simp) g.memo.cached g.memo.pending
    cases hc
    exact ha counts rfl
  · rename_i err hi
    cases hs
    exact changes_set h hi (by simp) (by simp) (by simp) g.memo.cached g.memo.pending
  · cases hs

theorem changes_react (h : g.Sound ttlMs) (hs : g.memo.react ttlMs i = some m) : g.Changes m := by
  unfold Memo.react at hs
  split at hs
  · rename_i counts hi
    cases hs
    exact changes_set h hi (by simp) (by simp) (by simp) _ none
  · rename_i err hi
    cases hs
    exact changes_set h hi (by simp) (by simp) (by simp) g.memo.cached g.memo.pending
  · rename_i err hi
    cases hs
    exact changes_set h hi (by simp) (by simp) (by simp) g.memo.cached none
  · rename_i counts time hi
    cases hs
    exact changes_set h hi (by simp) (by simp) (by simp) g.memo.cached g.memo.pending
  · cases hs

theorem changes_deliver {c : ℕ} (h : g.Sound ttlMs) (hs : g.memo.deliver c = some m) :
    g.Changes m := by
  unfold Memo.deliver at hs
  split at hs
  · rename_i i hc
    obtain ⟨r, -, rfl⟩ := Option.map_eq_some_iff.mp hs
    refine ⟨rfl, rfl, List.ext_getElem? fun c' => ?_, h.resolved, fun _ _ _ hi => Or.inl hi,
      fun _ _ _ hi => hi⟩
    rw [List.getElem?_map, List.getElem?_map]
    by_cases hcc : c' = c
    · subst hcc
      rw [List.getElem?_set_self (List.getElem?_eq_some_iff.mp hc).1, hc]
      rfl
    · rw [List.getElem?_set_ne (Ne.symm hcc)]
  · cases hs

theorem Sound.call_cases (h : g.Sound ttlMs) : ∃ call : MemoCall JobCounts E,
    g.memo.call.calls = g.memo.calls ++ [call] ∧ g.memo.call.now = g.memo.now ∧
      (g.memo.call.invocations = g.memo.invocations ∧ g.send = g.fetches ∧
          g.Timely ttlMs g.memo.now call.source ∨
        g.memo.call.invocations = g.memo.invocations ++ [.running] ∧
          g.send = g.fetches ++ [{ sentAt := g.memo.now }] ∧
            call.source = .shares g.fetches.length) := by
  obtain ⟨call, hcalls, hans⟩ := call_answers h.memo
  have hnow : g.memo.call.now = g.memo.now := by
    unfold Memo.call
    split
    · rfl
    · split <;> rfl
  refine ⟨call, hcalls, hnow, ?_⟩
  generalize call.source = source at hans
  cases hans with
  | shares hout hold =>
    obtain ⟨p, hp, ho⟩ := hout
    have hlt := h.length ▸ Memo.lt_of_getElem? hp
    refine Or.inl ⟨hold, if_pos (by rw [hold]), ⟨_, List.getElem?_eq_getElem hlt, ?_⟩, Nat.le_refl _,
      fun counts time hc => ?_⟩
    · exact (h.sent _ _ (List.getElem?_eq_getElem hlt)).1
    · rcases hc with hc | hc <;> cases hp.symm.trans hc <;> cases ho
  | starts hnone hnew =>
    refine Or.inr ⟨hnew, if_neg (by rw [hnew]; simp), ?_⟩
    rw [h.length]
  | cached hi hle hlt hold =>
    exact Or.inl ⟨hold, if_pos (by rw [hold]), _, _, hi, hle, hlt⟩

theorem Sound.asks (h : g.Sound ttlMs) : g.call.Sound ttlMs := by
  obtain ⟨call, hcalls, hnow, hcase⟩ := h.call_cases
  have hlen : g.send.length = g.memo.call.invocations.length := by
    rcases hcase with ⟨hi, hs, -⟩ | ⟨hi, hs, -⟩
    · rw [hi, hs, h.length]
    · rw [hi, hs, List.length_append, List.length_append, h.length]
      rfl
  have hfetch : ∀ {j : ℕ} {f : CountsFetch}, g.fetches[j]? = some f → g.send[j]? = some f := by
    intro j f hf
    rcases hcase with ⟨-, hs, -⟩ | ⟨-, hs, -⟩
    · rw [hs, hf]
    · rw [hs, List.getElem?_append_left (List.getElem?_eq_some_iff.mp hf).1, hf]
  have hsent : ∀ {j : ℕ} {f : CountsFetch}, g.send[j]? = some f →
      g.fetches[j]? = some f ∨ f = { sentAt := g.memo.now } := by
    intro j f hf
    rcases hcase with ⟨-, hs, -⟩ | ⟨-, hs, -⟩
    · exact Or.inl (hs ▸ hf)
    · rw [hs, List.getElem?_append] at hf
      split at hf
      · exact Or.inl hf
      · exact Or.inr (List.mem_singleton.mp (List.mem_of_getElem? hf))
  have hinv : ∀ {j : ℕ} {p : Invocation JobCounts E}, p ≠ .running →
      (g.memo.call.invocations[j]? = some p ↔ g.memo.invocations[j]? = some p) := by
    intro j p hp
    rcases hcase with ⟨hi, -⟩ | ⟨hi, -⟩
    · rw [hi]
    · rw [hi, List.getElem?_append]
      split
      · rfl
      · rename_i hlt
        rw [List.getElem?_eq_none (Nat.le_of_not_lt hlt)]
        refine ⟨fun hj => ?_, nofun⟩
        exact absurd (List.mem_singleton.mp (List.mem_of_getElem? hj)) hp
  have hcompleted : ∀ {j counts time},
      g.memo.call.Completed j counts time ↔ g.memo.Completed j counts time :=
    or_congr (hinv nofun) (hinv nofun)
  have hread : ∀ {j counts time}, g.Read j counts time → g.call.Read j counts time := by
    rintro j counts time ⟨f, u, hf, hrest⟩
    exact ⟨f, u, hfetch hf, hrest⟩
  have htimely : ∀ {t source}, g.Timely ttlMs t source → g.call.Timely ttlMs t source := by
    intro t source ht
    cases source with
    | cached counts =>
      obtain ⟨j, time, hj, hrest⟩ := ht
      exact ⟨j, time, hcompleted.mpr hj, hrest⟩
    | shares j =>
      obtain ⟨⟨f, hf, hle⟩, hpast, hdone⟩ := ht
      exact ⟨⟨f, hfetch hf, hle⟩, hnow.symm ▸ hpast, fun counts time hj =>
        hdone counts time (hcompleted.mp hj)⟩
  refine ⟨h.memo.calling, hlen, ?_, ?_, fun j f hf => ?_, fun j counts hj => ?_,
    fun j counts time hj => hread (h.completed j counts time (hcompleted.mp hj)),
    fun c call' t hc ht => ?_⟩
  · change (g.askedAt ++ [g.memo.now]).length = g.memo.call.calls.length
    rw [hcalls, List.length_append, List.length_append, h.asked]
    rfl
  · change (g.memo.call.now, g.queue) ∈ g.past
    rw [hnow]
    exact h.current
  · change f.sentAt ≤ g.memo.call.now ∧ ∀ counts, f.answer = some counts →
      g.call.Read j counts g.memo.call.now
    rw [hnow]
    rcases hsent hf with hf | rfl
    · exact ⟨(h.sent j f hf).1, fun counts hc => hread ((h.sent j f hf).2 counts hc)⟩
    · exact ⟨Nat.le_refl _, nofun⟩
  · have hj' : g.memo.invocations[j]? = some (.resolved counts) :=
      (hinv (p := .resolved counts) nofun).mp hj
    obtain ⟨f, hf, ha⟩ := h.resolved j counts hj'
    exact ⟨f, hfetch hf, ha⟩
  · change g.memo.call.calls[c]? = some call' at hc
    change (g.askedAt ++ [g.memo.now])[c]? = some t at ht
    rw [hcalls] at hc
    by_cases hlt : c < g.memo.calls.length
    · rw [List.getElem?_append_left hlt] at hc
      rw [List.getElem?_append_left (h.asked ▸ hlt)] at ht
      exact htimely (h.calls c call' t hc ht)
    · have hle := (List.getElem?_eq_some_iff.mp hc).1
      rw [List.length_append, List.length_singleton] at hle
      obtain rfl : c = g.memo.calls.length := by omega
      rw [List.getElem?_concat_length] at hc
      rw [← h.asked, List.getElem?_concat_length] at ht
      cases hc
      cases ht
      rcases hcase with ⟨-, -, hnew⟩ | ⟨hi, hs, hnew⟩
      · exact htimely hnew
      · rw [hnew]
        refine ⟨⟨{ sentAt := g.memo.now }, ?_, Nat.le_refl _⟩, Nat.le_of_eq hnow.symm, ?_⟩
        · change g.send[g.fetches.length]? = _
          rw [hs, List.getElem?_concat_length]
        · intro counts time hj
          have hlt' : g.fetches.length < g.memo.invocations.length := by
            rcases hcompleted.mp hj with hj | hj
            · exact Memo.lt_of_getElem? hj
            · exact Memo.lt_of_getElem? hj
          exact absurd hlt' (Nat.not_lt.mpr (Nat.le_of_eq h.length.symm))

/-! ## Runs -/

theorem Sound.step (h : g.Sound ttlMs) {l : GaugeLabel E} (hstep : gaugeStep ttlMs g l = some g') :
    g'.Sound ttlMs := by
  cases l with
  | tick ms =>
    cases hstep
    exact h.passes ms g.queue
  | jobs counts =>
    cases hstep
    exact h.passes 0 counts
  | call =>
    cases hstep
    exact h.asks
  | read i => exact h.reads hstep
  | arrive i =>
    change g.arrive i = some g' at hstep
    unfold Gauge.arrive at hstep
    split at hstep
    · rename_i sentAt counts hi
      obtain ⟨m, hs, rfl⟩ := Option.map_eq_some_iff.mp hstep
      refine h.changes (h.memo.step (l := .settle i (.ok counts)) hs) (changes_settle h hs ?_)
      rintro _ ⟨⟩
      exact ⟨_, hi, rfl⟩
    · cases hstep
  | fail i err =>
    obtain ⟨m, hs, rfl⟩ := Option.map_eq_some_iff.mp hstep
    exact h.changes (h.memo.step (l := .settle i (.error err)) hs) (changes_settle h hs nofun)
  | react i =>
    obtain ⟨m, hs, rfl⟩ := Option.map_eq_some_iff.mp hstep
    exact h.changes (h.memo.step (l := .react i) hs) (changes_react h hs)
  | deliver c =>
    obtain ⟨m, hs, rfl⟩ := Option.map_eq_some_iff.mp hstep
    exact h.changes (h.memo.step (l := .deliver c) hs) (changes_deliver h hs)

theorem sound_init : Sound ttlMs ({} : Gauge E) where
  memo := WebhookEngine.sound_init
  length := rfl
  asked := rfl
  current := List.mem_singleton.mpr rfl
  sent _ _ := nofun
  resolved _ _ := nofun
  completed _ _ _ h := by rcases h with h | h <;> cases h
  calls _ _ _ := nofun

end Gauge

/-- A state the queue and those who ask for its depth come to. -/
abbrev Gauge.Reachable (ttlMs : ℕ) (g : Gauge E) : Prop :=
  Reach (gaugeStep ttlMs) (fun _ _ => True) {} g

theorem reachable_gauge (h : g.Reachable ttlMs) : g.Sound ttlMs :=
  h.invariant Gauge.sound_init fun _ _ _ hg _ hstep => hg.step hstep

/-- What `isOverloaded` answers to a call, once `getCounts` has. -/
def MemoCall.verdict? (limit : ℕ) (call : MemoCall JobCounts E) : Option (Except E Bool) :=
  call.answer.map fun r => r.map (JobCounts.overloaded limit)

/-- Who is answered is answered by an invocation that has completed, not long before he asked. -/
theorem Gauge.Sound.answered (h : g.Sound ttlMs) {c t : ℕ} {call : MemoCall JobCounts E}
    (hc : g.memo.calls[c]? = some call) (ht : g.askedAt[c]? = some t) {counts : JobCounts}
    (ha : call.answer = some (.ok counts)) : ∃ i time f, g.memo.Completed i counts time ∧
      g.fetches[i]? = some f ∧ f.sentAt ≤ t ∧ t ≤ time + ttlMs := by
  have htimely := h.calls c call t hc ht
  have hserved := h.memo.calls c call hc
  obtain ⟨source, answer⟩ := call
  obtain rfl : answer = some (.ok counts) := ha
  cases source with
  | cached value =>
    obtain rfl : counts = value := Except.ok.inj (Option.some.inj hserved)
    obtain ⟨i, time, hi, hle, hlt⟩ := htimely
    obtain ⟨f, u, hf, hu, hut, -⟩ := h.completed i counts time hi
    exact ⟨i, time, f, hi, hf, Nat.le_trans hu (Nat.le_trans hut hle), Nat.le_of_lt hlt⟩
  | shares i =>
    obtain ⟨⟨f, hf, hle⟩, -, hdone⟩ := htimely
    have hout : g.memo.outcome i = some (.ok counts) := hserved.2 _ rfl
    unfold Memo.outcome at hout
    split at hout
    · rename_i value time hi
      cases hout
      have hcompleted : g.memo.Completed i counts time := Or.inr hi
      exact ⟨i, time, f, hcompleted, hf, hle, Nat.le_add_right_of_le (hdone counts time hcompleted)⟩
    · cases hout
    · cases hout

/-- **A verdict is recent.** It is true of the queue at a moment `u` at which the command was on its
way, from `f.sentAt` to `time`; the command had not ended more than `ttlMs` before the request asked,
so that `u` lies back no longer than `ttlMs` and the time the command took. -/
theorem verdict_recent (h : g.Reachable ttlMs) {limit c t : ℕ} {call : MemoCall JobCounts E}
    (hc : g.memo.calls[c]? = some call) (ht : g.askedAt[c]? = some t) {verdict : Bool}
    (hv : call.verdict? limit = some (.ok verdict)) :
    ∃ i f time u counts, g.memo.Completed i counts time ∧ g.fetches[i]? = some f ∧ f.sentAt ≤ u ∧
      u ≤ time ∧ f.sentAt ≤ t ∧ t ≤ time + ttlMs ∧ t ≤ u + (time - f.sentAt) + ttlMs ∧
        (u, counts) ∈ g.past ∧ counts.overloaded limit = verdict := by
  have hg := reachable_gauge h
  obtain ⟨r, ha, hr⟩ := Option.map_eq_some_iff.mp hv
  cases r with
  | error err => cases hr
  | ok counts =>
    have hverdict : counts.overloaded limit = verdict := Except.ok.inj hr
    obtain ⟨i, time, f, hi, hf, hsent, hle⟩ := hg.answered hc ht ha
    obtain ⟨f', u, hf', hu, hut, hpast⟩ := hg.completed i counts time hi
    obtain rfl := Option.some.inj (hf.symm.trans hf')
    exact ⟨i, f, time, u, counts, hi, hf, hu, hut, hsent, hle, by omega, hpast, hverdict⟩

/-- Two requests share a command; the queue has been emptied when its answer arrives, and the third
request is still told that it is full. -/
def sampleGauge : List (GaugeLabel String) :=
  [.jobs ⟨some 40, some 20⟩, .tick 5, .call, .tick 2, .read 0, .call, .jobs ⟨some 0, none⟩, .tick 3,
    .arrive 0, .react 0, .react 0, .deliver 0, .deliver 1, .tick 999, .call]

theorem verdict_recent_shared : ∃ g : Gauge String, g.Reachable 1000 ∧ g.askedAt = [5, 7, 1009] ∧
    ∃ call, g.memo.calls[2]? = some call ∧ call.verdict? 50 = some (.ok true) ∧
      ∃ i f time u counts, g.memo.Completed i counts time ∧ g.fetches[i]? = some f ∧ f.sentAt ≤ u ∧
        u ≤ time ∧ f.sentAt ≤ 1009 ∧ 1009 ≤ time + 1000 ∧ 1009 ≤ u + (time - f.sentAt) + 1000 ∧
          (u, counts) ∈ g.past ∧ counts.overloaded 50 = true := by
  have hany : ((runOf (gaugeStep 1000) (fun _ _ => True) ({} : Gauge String) sampleGauge).any fun g =>
      decide (g.askedAt = [5, 7, 1009]) &&
        (g.memo.calls[2]?).any fun call => decide (call.answer = some (.ok ⟨some 40, some 20⟩))) =
          true := by decide +kernel
  obtain ⟨g, hrun, hg⟩ := exists_run hany
  obtain ⟨hasked, hcall⟩ := Bool.and_eq_true_iff.mp hg
  have hasked : g.askedAt = [5, 7, 1009] := of_decide_eq_true hasked
  obtain ⟨call, hc, ha⟩ := (Option.any_eq_true _ _).mp hcall
  have hv : call.verdict? 50 = some (.ok true) := by
    rw [MemoCall.verdict?, of_decide_eq_true ha]
    rfl
  have hreach : g.Reachable 1000 := ⟨_, hrun⟩
  exact ⟨g, hreach, hasked, call, hc, hv, verdict_recent hreach hc (by rw [hasked]; rfl) hv⟩

end WebhookEngine
