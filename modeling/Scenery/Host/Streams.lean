import Scenery.Host.RunScopes

/-!
# Event streams and the generation they attest

While the latest accepted run of a conversation can execute, every stream of the conversation that
has not ended attests the generation of that run: a stream attaches with it, and the acceptance of
a run ends the streams that attest another one.
-/

namespace Scenery.Host

open List

variable {cfg : HostConfig} {key : String → Prop} {gens : List Generation} {n : ℕ}

theorem live_letGo {run : AssistantRun} : Live n (Scope.letGo run gens) ↔ Live n gens := by
  unfold Scope.letGo
  split
  · exact Iff.rfl
  · exact live_addInFlight

theorem dispatchable_iff {run : AssistantRun} :
    dispatchable gens run = true ↔ ∃ n, run.generation = some n ∧ Live n gens := by
  simp [dispatchable, Option.any_eq_true, lookup_isSome]

/-! ## The run whose generation is attested -/

def Scope.Executes (s : Scope) (conversation : String) (run : AssistantRun) : Prop :=
  s.latest conversation = some run.ref ∧ run ∈ s.runs ∧ dispatchable s.generations run = true

structure Narrower (s s' : Scope) : Prop where
  latest : ∀ conversation ref, s'.latest conversation = some ref →
    s.latest conversation = some ref
  retained : ∀ conversation, ∀ r ∈ s.runs, s'.latest conversation = some r.ref →
    r.conversation = conversation →
      ∃ r' ∈ s'.runs, r'.ref = r.ref ∧ r'.conversation = r.conversation
  held : ∀ r ∈ s.runs, ∀ r' ∈ s'.runs, r.key = r'.key →
    r'.number = r.number ∧ (r'.generation = r.generation ∨ r'.generation = none)

namespace Narrower

variable {s s' : Scope} {run : AssistantRun}

theorem of_eq (hruns : s'.runs = s.runs) (hlatest : s'.latest = s.latest) : Narrower s s' where
  latest conversation ref h := by rwa [hlatest] at h
  retained _ r hr _ _ := ⟨r, hruns ▸ hr, rfl, rfl⟩
  held r hr r' hr' hk := by
    rw [hruns] at hr'
    obtain rfl := eq_of_key hr hr' hk
    exact ⟨rfl, .inl rfl⟩

theorem latest_of_without {conversation : String} {ref : RunRef} {latest : String → Option RunRef}
    (h : Scope.without run latest conversation = some ref) :
    latest conversation = some ref ∧ (conversation = run.conversation → ref ≠ run.ref) := by
  unfold Scope.without at h
  split at h
  · cases h
  · rename_i hne
    exact ⟨h, fun hc href => hne ⟨hc, href ▸ h⟩⟩

theorem forget (hrun : run ∈ s.runs) : Narrower s (s.forget run) where
  latest _ _ h := (latest_of_without h).1
  retained conversation r hr h hc := by
    refine ⟨r, Scope.mem_forget.mpr ⟨hr, fun hk => ?_⟩, rfl, rfl⟩
    obtain rfl := eq_of_key hr hrun hk
    exact (latest_of_without h).2 hc.symm rfl
  held r hr r' hr' hk := by
    obtain rfl := eq_of_key hr (Scope.mem_forget.mp hr').1 hk
    exact ⟨rfl, .inl rfl⟩

theorem revoke (hrun : run ∈ s.runs) : Narrower s (s.revoke run) where
  latest _ _ h := (latest_of_without h).1
  retained conversation r hr h hc := by
    refine ⟨r, Table.mem_update_of_not AssistantRun.key_expired hr (decide_eq_false fun hk => ?_),
      rfl, rfl⟩
    obtain rfl := eq_of_key hr hrun hk
    exact (latest_of_without h).2 hc.symm rfl
  held r hr r' hr' hk := by
    rcases Scope.mem_revoke hr' with ⟨r₀, hr₀, -, rfl⟩ | ⟨hr', -⟩
    · obtain rfl := eq_of_key hr hr₀ hk
      exact ⟨rfl, .inr rfl⟩
    · obtain rfl := eq_of_key hr hr' hk
      exact ⟨rfl, .inl rfl⟩

theorem exists_setState {r : AssistantRun} (hr : r ∈ s.runs) (run : AssistantRun)
    (state : RunState) : ∃ r' ∈ (s.setState run state).runs,
      r'.ref = r.ref ∧ r'.conversation = r.conversation ∧ r'.number = r.number := by
  by_cases hk : r.key = run.key
  · exact ⟨r.enter state, Table.mem_update_of (AssistantRun.key_enter state) hr (decide_eq_true hk),
      rfl, rfl, rfl⟩
  · exact ⟨r, Table.mem_update_of_not (AssistantRun.key_enter state) hr (decide_eq_false hk),
      rfl, rfl, rfl⟩

theorem setState (run : AssistantRun) (state : RunState) : Narrower s (s.setState run state) where
  latest _ _ h := h
  retained _ r hr _ _ := by
    obtain ⟨r', hr', href, hc, -⟩ := exists_setState hr run state
    exact ⟨r', hr', href, hc⟩
  held r hr r' hr' hk := by
    obtain ⟨r₀, hr₀, rfl | rfl⟩ := Scope.mem_setState hr'
    · obtain rfl := eq_of_key hr hr₀ hk
      exact ⟨rfl, .inl rfl⟩
    · obtain rfl := eq_of_key hr hr₀ hk
      exact ⟨rfl, .inl rfl⟩

theorem install {conversation runID : String} {g : ℕ}
    (h : runKey conversation runID ∉ s.runs.rows.map AssistantRun.key) :
    Narrower s (s.install conversation runID g h) where
  latest _ _ h := h
  retained _ r hr _ _ := ⟨r, (Table.mem_insert h).mpr (.inl hr), rfl, rfl⟩
  held r hr r' hr' hk := by
    rcases (Table.mem_insert h).mp hr' with hr' | rfl
    · obtain rfl := eq_of_key hr hr' hk
      exact ⟨rfl, .inl rfl⟩
    · have hmem : r.key ∈ s.runs.rows.map AssistantRun.key := mem_map_of_mem hr
      rw [hk] at hmem
      exact absurd hmem h

end Narrower

/-! ## The invariant -/

structure Attesting (s : Scope) : Prop where
  latest : ∀ conversation ref, s.latest conversation = some ref →
    ∃ run ∈ s.runs, run.ref = ref ∧ run.conversation = conversation
  agree : ∀ conversation run, s.Executes conversation run → ∀ stream ∈ s.streams,
    stream.conversation = conversation → stream.ended = false → stream.number = run.number
  attested : ∀ stream ∈ s.streams, stream.ended = false →
    Live stream.number s.generations ∨ stream.number ∈ s.retiring
  retiring : ∀ n ∈ s.retiring, n ∈ s.generations.map Generation.number ∧ ¬ Live n s.generations
  answered : ∀ n ∈ s.answered, n ∈ s.generations.map Generation.number ∧
    ¬ Live n s.generations ∧ n ∉ s.retiring
  nodup : s.retiring.Nodup

namespace Attesting

variable {s s' : Scope} {run : AssistantRun}

theorem of_empty (hlatest : ∀ conversation, s.latest conversation = none)
    (hstreams : s.streams = []) (hretiring : s.retiring = []) (hanswered : s.answered = []) :
    Attesting s where
  latest conversation ref h := by
    rw [hlatest] at h
    cases h
  agree conversation run h := by
    have hnone := h.1
    rw [hlatest] at hnone
    cases hnone
  attested := by
    rw [hstreams]
    exact fun stream hmem => absurd hmem not_mem_nil
  retiring := by
    rw [hretiring]
    exact fun n hmem => absurd hmem not_mem_nil
  answered := by
    rw [hanswered]
    exact fun n hmem => absurd hmem not_mem_nil
  nodup := hretiring ▸ nodup_nil

variable {conversation : String}

theorem executes (h : Attesting s) (hheld : Counted s) (hn : Narrower s s')
    (hlive : ∀ n ∈ s.generations.map Generation.number, Live n s'.generations →
      Live n s.generations) {r' : AssistantRun}
    (hexec : s'.Executes conversation r') :
    ∃ r, s.Executes conversation r ∧ r.number = r'.number := by
  obtain ⟨hlatest, hr', hd⟩ := hexec
  have hlatest₀ := hn.latest _ _ hlatest
  obtain ⟨r, hr, href, -⟩ := h.latest _ _ hlatest₀
  obtain ⟨hnumber, hgen⟩ := hn.held r hr r' hr' (congrArg RunRef.key href)
  obtain ⟨n, hn', hln⟩ := dispatchable_iff.mp hd
  have hgen : r.generation = some n := by
    rcases hgen with hgen | hgen
    · rw [← hgen, hn']
    · rw [hgen] at hn'
      cases hn'
  refine ⟨r, ⟨href.symm ▸ hlatest₀, hr, ?_⟩, hnumber.symm⟩
  exact dispatchable_iff.mpr ⟨n, hgen, hlive n (hheld.held r hr n hgen).2 hln⟩

theorem latest_of_narrower (h : Attesting s) (hn : Narrower s s')
    {ref : RunRef} (hlatest : s'.latest conversation = some ref) :
    ∃ run ∈ s'.runs, run.ref = ref ∧ run.conversation = conversation := by
  obtain ⟨r, hr, rfl, hc⟩ := h.latest _ _ (hn.latest _ _ hlatest)
  obtain ⟨r', hr', href, hc'⟩ := hn.retained _ r hr hlatest hc
  exact ⟨r', hr', href, hc'.trans hc⟩

theorem narrow (h : Attesting s) (hheld : Counted s) (hn : Narrower s s')
    (hstreams : ∀ stream ∈ s'.streams, stream ∈ s.streams)
    (hnumbers : ∀ n ∈ s.generations.map Generation.number,
      n ∈ s'.generations.map Generation.number ∧ (Live n s'.generations ↔ Live n s.generations))
    (hretiring : s'.retiring = s.retiring) (hanswered : s'.answered = s.answered) :
    Attesting s' where
  latest _ _ hlatest := h.latest_of_narrower hn hlatest
  agree conversation r' hexec stream hmem hc he := by
    obtain ⟨r, hr, hnumber⟩ := h.executes hheld hn (fun n hn => (hnumbers n hn).2.mp) hexec
    rw [← hnumber]
    exact h.agree conversation r hr stream (hstreams stream hmem) hc he
  attested stream hmem he := by
    rw [hretiring]
    refine (h.attested stream (hstreams stream hmem) he).imp_left fun hlive => ?_
    exact (hnumbers _ hlive.mem).2.mpr hlive
  retiring n hn := by
    obtain ⟨hmem, hdead⟩ := h.retiring n (hretiring ▸ hn)
    exact ⟨(hnumbers n hmem).1, fun hlive => hdead ((hnumbers n hmem).2.mp hlive)⟩
  answered n hn := by
    obtain ⟨hmem, hdead, hdone⟩ := h.answered n (hanswered ▸ hn)
    exact ⟨(hnumbers n hmem).1, fun hlive => hdead ((hnumbers n hmem).2.mp hlive),
      hretiring.symm ▸ hdone⟩
  nodup := hretiring.symm ▸ h.nodup

theorem remove {number : ℕ} {force : Bool} {gens : List Generation} (h : Attesting s)
    (hheld : Counted s) (hr : removeGeneration number force s.generations = .ok gens) :
    Attesting (s.remove number gens) := by
  have hn : Narrower s (s.remove number gens) := .of_eq rfl rfl
  have hlive : ∀ n, Live n gens ↔ n ≠ number ∧ Live n s.generations := fun n => live_remove hr
  have hwas : Live number s.generations := live_of_remove hr
  refine ⟨fun _ _ => h.latest_of_narrower hn,
    fun conversation r' hexec stream hmem hc he => ?_, fun stream hmem he => ?_, fun n hmem => ?_,
    fun n hmem => ?_, ?_⟩
  · obtain ⟨r, hr', hnumber⟩ := h.executes hheld hn (fun n _ hl => ((hlive n).mp hl).2) hexec
    rw [← hnumber]
    exact h.agree conversation r hr' stream hmem hc he
  · by_cases hnum : stream.number = number
    · exact .inr (hnum ▸ mem_cons_self)
    · exact (h.attested stream hmem he).imp (fun hl => (hlive _).mpr ⟨hnum, hl⟩)
        (mem_cons_of_mem _)
  · change n ∈ gens.map _ ∧ ¬ Live n gens
    rw [numbers_remove hr, hlive]
    rcases mem_cons.mp hmem with rfl | hmem
    · exact ⟨hwas.mem, fun hl => hl.1 rfl⟩
    · exact ⟨(h.retiring n hmem).1, fun hl => (h.retiring n hmem).2 hl.2⟩
  · obtain ⟨hmem, hdead, hdone⟩ := h.answered n hmem
    change n ∈ gens.map _ ∧ ¬ Live n gens ∧ n ∉ number :: s.retiring
    rw [numbers_remove hr, hlive]
    refine ⟨hmem, fun hl => hdead hl.2, fun hret => ?_⟩
    rcases mem_cons.mp hret with rfl | hret
    · exact hdead hwas
    · exact hdone hret
  · exact nodup_cons.mpr ⟨fun hmem => (h.retiring number hmem).2 hwas, h.nodup⟩

theorem mem_of_unended {p : Stream → Prop} [DecidablePred p] {streams : List Stream}
    {stream : Stream} (he : stream.ended = false)
    (h : stream ∈ streams.map fun t => if p t then { t with ended := true } else t) :
    stream ∈ streams ∧ ¬ p stream := by
  obtain ⟨t, ht, rfl⟩ := mem_map.mp h
  by_cases hp : p t
  · rw [if_pos hp] at he
    cases he
  · rw [if_neg hp]
    exact ⟨ht, hp⟩

theorem endStreams {number : ℕ} (h : Attesting s) (hmem : number ∈ s.retiring) :
    Attesting (s.endStreams number) where
  latest := h.latest
  agree conversation r hexec stream hs hc he :=
    h.agree conversation r hexec stream (mem_of_unended he hs).1 hc he
  attested stream hs he := by
    obtain ⟨hs, hne⟩ := mem_of_unended he hs
    exact (h.attested stream hs he).imp_right (mem_erase_of_ne hne).mpr
  retiring n hn := h.retiring n (mem_of_mem_erase hn)
  answered n hn := by
    rcases mem_cons.mp hn with rfl | hn
    · exact ⟨(h.retiring n hmem).1, (h.retiring n hmem).2, h.nodup.not_mem_erase⟩
    · obtain ⟨hnum, hdead, hdone⟩ := h.answered n hn
      exact ⟨hnum, hdead, fun hret => hdone (mem_of_mem_erase hret)⟩
  nodup := h.nodup.erase number

theorem accept (h : Attesting s) (hrun : ∃ r ∈ s.runs, r.ref = run.ref ∧
    r.conversation = run.conversation ∧ r.number = run.number) : Attesting (s.accept run) := by
  unfold Scope.accept
  split
  · exact h
  obtain ⟨r, hr, href, hc, hnumber⟩ := hrun
  refine ⟨fun conversation ref hlatest => ?_, fun conversation r' hexec stream hs hsc he => ?_,
    fun stream hs he => h.attested stream (mem_of_unended he hs).1 he, h.retiring, h.answered,
    h.nodup⟩
  · by_cases hconv : conversation = run.conversation
    · simp only [if_pos hconv, Option.some.injEq] at hlatest
      exact ⟨r, hr, href.trans hlatest, hc.trans hconv.symm⟩
    · simp only [if_neg hconv] at hlatest
      exact h.latest _ _ hlatest
  · obtain ⟨hs, hne⟩ := mem_of_unended he hs
    obtain ⟨hlatest, hr', hd⟩ := hexec
    by_cases hconv : conversation = run.conversation
    · simp only [if_pos hconv, Option.some.injEq] at hlatest
      -- the run that executes now is the accepted one
      have hkey : r'.key = r.key := congrArg RunRef.key (hlatest.symm.trans href.symm)
      obtain rfl := eq_of_key hr' hr hkey
      rw [hnumber]
      exact not_not.mp fun hno => hne ⟨hsc.trans hconv, hno⟩
    · simp only [if_neg hconv] at hlatest
      exact h.agree conversation r' ⟨hlatest, hr', hd⟩ stream hs hsc he

theorem attested_eq (hheld : Counted s) {g : ℕ}
    (hexec : s.Executes conversation run) : s.attested conversation g = run.number := by
  obtain ⟨hlatest, hrun, hd⟩ := hexec
  have hfind : s.find run.ref = some run := by
    refine Option.filter_eq_some_iff.mpr ⟨Table.find_eq_some.mpr ⟨hrun, rfl⟩, ?_⟩
    exact decide_eq_true rfl
  obtain ⟨n, hgen, -⟩ := dispatchable_iff.mp hd
  unfold Scope.attested
  rw [hlatest, Option.bind_some, hfind]
  simp only [hd, if_true, hgen, Option.getD_some]
  exact (hheld.held run hrun n hgen).1

theorem attach {g : ℕ} (h : Attesting s) (hheld : Counted s) :
    Attesting (s.attach conversation g) where
  latest := h.latest
  agree conversation' r hexec stream hs hc he := by
    rcases mem_cons.mp hs with rfl | hs
    · obtain rfl : conversation = conversation' := hc
      exact attested_eq hheld hexec
    · exact h.agree conversation' r hexec stream hs hc he
  attested stream hs he := by
    rcases mem_cons.mp hs with rfl | hs
    · refine .inl (not_not.mp fun hdead => ?_)
      have hended := lookup_isNone.mpr hdead
      exact absurd (hended.symm.trans he) (by simp)
    · exact h.attested stream hs he
  retiring := h.retiring
  answered := h.answered
  nodup := h.nodup

theorem same_generations (s : Scope) : ∀ n ∈ s.generations.map Generation.number,
    n ∈ s.generations.map Generation.number ∧ (Live n s.generations ↔ Live n s.generations) :=
  fun _ hn => ⟨hn, Iff.rfl⟩

theorem same_addInFlight (s : Scope) (g : ℕ) (d : ℤ) : ∀ n ∈ s.generations.map Generation.number,
    n ∈ (addInFlight g d s.generations).map Generation.number ∧
      (Live n (addInFlight g d s.generations) ↔ Live n s.generations) :=
  fun _ hn => ⟨(numbers_addInFlight g d s.generations).symm ▸ hn, live_addInFlight⟩

theorem same_letGo (s : Scope) (run : AssistantRun) : ∀ n ∈ s.generations.map Generation.number,
    n ∈ (Scope.letGo run s.generations).map Generation.number ∧
      (Live n (Scope.letGo run s.generations) ↔ Live n s.generations) :=
  fun _ hn => ⟨(numbers_letGo run s.generations).symm ▸ hn, live_letGo⟩

theorem move (h : Attesting s) (hheld : Counted s) (hmove : Move cfg key s s') : Attesting s' := by
  cases hmove with
  | publish hp =>
    refine h.narrow hheld (.of_eq rfl rfl) (fun _ hs => hs) (fun n hn => ⟨?_, ?_⟩) rfl rfl
    · obtain ⟨-, -, rfl⟩ := publish_eq_ok hp
      exact mem_cons_of_mem _ hn
    · exact live_publish hheld.descending hp hn
  | hold | complete =>
    exact h.narrow hheld (.of_eq rfl rfl) (fun _ hs => hs) (same_addInFlight s _ _) rfl rfl
  | remove hr => exact h.remove hheld hr
  | endStreams hn => exact h.endStreams hn
  | install _ _ _ hnew =>
    exact h.narrow hheld (.install hnew) (fun _ hs => hs) (same_addInFlight s _ _) rfl rfl
  | forget hrun => exact h.narrow hheld (.forget hrun) (fun _ hs => hs) (same_letGo s _) rfl rfl
  | revoke hrun => exact h.narrow hheld (.revoke hrun) (fun _ hs => hs) (same_letGo s _) rfl rfl
  | setState =>
    exact h.narrow hheld (.setState _ _) (fun _ hs => hs) (same_generations s) rfl rfl
  | @accept run hrun =>
    have hset : Attesting (s.setState run .active) :=
      h.narrow hheld (.setState _ _) (fun _ hs => hs) (same_generations s) rfl rfl
    exact hset.accept (Narrower.exists_setState hrun run .active)
  | attach => exact h.attach hheld
  | detach =>
    exact h.narrow hheld (.of_eq rfl rfl) (fun _ => mem_of_mem_filter)
      (same_generations s) rfl rfl
  | gone | restart => exact of_empty (fun _ => rfl) rfl rfl rfl

theorem moves (h : Attesting s) (hheld : Counted s) (hmoves : Moves cfg key s s') :
    Attesting s' := by
  have hboth : Attesting s' ∧ Counted s' := by
    induction hmoves with
    | refl => exact ⟨h, hheld⟩
    | tail _ hmove ih => exact ⟨ih.1.move ih.2 hmove, ih.2.move hmove⟩
  exact hboth.1

end Attesting

section Sessions

variable {β : Type} [DecidableEq β] {c : LineCodec RunRecord β} {s : Session β}

theorem attesting_of_run {ok : Session β → Session.Event → Prop}
    (h : Run (Session.step cfg c) ok Session.initial s) : Attesting s.scope := by
  have hinv := h.invariant
    (P := fun s => Recorded c s ∧ Counted s.scope ∧ Attesting s.scope) ⟨.initial, ?_, ?_⟩ ?_
  · exact hinv.2.2
  · exact counted_of_empty rfl rfl fun run hrun => absurd hrun (Table.not_mem_empty run)
  · exact .of_empty (fun _ => rfl) rfl rfl rfl
  · rintro s e s' ⟨hrec, hcounted, hattesting⟩ - hs
    obtain ⟨hrec', hmoves⟩ := step_spec hrec hs
    exact ⟨hrec', hcounted.moves hmoves, hattesting.moves hcounted hmoves⟩

/-- Overlapping streams agree while a run can execute: in every state of every session, if the
latest accepted run of a conversation can execute, then any two attached streams of the
conversation that have not ended attest the generation of that run; and once the retirement of a
generation has been answered, no attached stream that has not ended attests it. -/
theorem overlapping_streams_agree {ok : Session β → Session.Event → Prop} (cfg : HostConfig)
    (c : LineCodec RunRecord β) (h : Run (Session.step cfg c) ok Session.initial s) :
    (∀ conversation run, s.scope.Executes conversation run →
      ∀ stream₁ ∈ s.scope.streams, ∀ stream₂ ∈ s.scope.streams,
        stream₁.conversation = conversation → stream₂.conversation = conversation →
        stream₁.ended = false → stream₂.ended = false →
        run.generation = some stream₁.number ∧ stream₁.number = stream₂.number) ∧
    ∀ n ∈ s.scope.answered, ∀ stream ∈ s.scope.streams, stream.ended = false →
      stream.number ≠ n := by
  have hattesting := attesting_of_run h
  have hcounted := (invariant_of_run h).2
  constructor
  · intro conversation run hexec stream₁ h₁ stream₂ h₂ hc₁ hc₂ he₁ he₂
    have hn₁ := hattesting.agree conversation run hexec stream₁ h₁ hc₁ he₁
    have hn₂ := hattesting.agree conversation run hexec stream₂ h₂ hc₂ he₂
    obtain ⟨n, hgen, -⟩ := dispatchable_iff.mp hexec.2.2
    refine ⟨?_, hn₁.trans hn₂.symm⟩
    rw [hgen, hn₁, (hcounted.held run hexec.2.1 n hgen).1]
  · rintro n hn stream hs he rfl
    obtain ⟨-, hdead, hdone⟩ := hattesting.answered _ hn
    exact (hattesting.attested stream hs he).elim hdead hdone

end Sessions

/-! ## Two streams of one conversation -/

namespace StreamSample

def manifest (n : ℕ) : Manifest := { RunSample.manifest with generation := n }

def idle : List Session.Event :=
  [.start ⟨true, true, ⟨false, false⟩⟩ (some .replaced), .publish (manifest 1), .acquire 0,
    .attach RunSample.conversation 1, .publish (manifest 2), .acquire 0,
    .attach RunSample.conversation 2]

def executing : List Session.Event :=
  [.start ⟨true, true, ⟨false, false⟩⟩ (some .replaced), .publish (manifest 1), .acquire 0,
    .attach RunSample.conversation 1,
    .reserve RunSample.conversation "run-1" 1 (.result .committed) (some .replaced)
      (.result .committed),
    .finish ⟨runKey RunSample.conversation "run-1", 1⟩ .accepted (.result .committed)
      (some .replaced),
    .publish (manifest 2), .acquire 0, .attach RunSample.conversation 2]

def run : AssistantRun := ⟨RunSample.conversation, "run-1", 1, some 1, .active, 1, false⟩

end StreamSample

open StreamSample in
theorem overlapping_streams_agree_executing :
    ∃ s, Run (Session.step RunSample.config RunSample.codec) Session.Fresh Session.initial s ∧
      s.scope.Executes RunSample.conversation run ∧ s.scope.streams.length = 2 ∧
      ∀ stream₁ ∈ s.scope.streams, ∀ stream₂ ∈ s.scope.streams,
        stream₁.conversation = RunSample.conversation →
        stream₂.conversation = RunSample.conversation →
        stream₁.ended = false → stream₂.ended = false →
        run.generation = some stream₁.number ∧ stream₁.number = stream₂.number := by
  refine Run.exists_of_decide
    (P := fun s => (s.scope.latest RunSample.conversation = some run.ref ∧
      run ∈ s.scope.runs.rows ∧ dispatchable s.scope.generations run = true) ∧
      s.scope.streams.length = 2) executing (by decide +kernel) fun s hrun hs => ?_
  have hexecutes : s.scope.Executes RunSample.conversation run := ⟨hs.1.1, hs.1.2.1, hs.1.2.2⟩
  exact ⟨hexecutes, hs.2,
    (overlapping_streams_agree RunSample.config RunSample.codec hrun).1 _ _ hexecutes⟩

open StreamSample in
/-- Without an accepted run two streams attest different generations. -/
theorem overlapping_streams_differ :
    ∃ s, Run (Session.step RunSample.config RunSample.codec) Session.Fresh Session.initial s ∧
      ∃ stream₁ ∈ s.scope.streams, ∃ stream₂ ∈ s.scope.streams,
        stream₁.conversation = stream₂.conversation ∧ stream₁.ended = false ∧
        stream₂.ended = false ∧ stream₁.number ≠ stream₂.number :=
  Run.exists_decide idle (by decide +kernel)

end Scenery.Host
