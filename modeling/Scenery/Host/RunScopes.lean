import Scenery.Host.RunJournal

/-!
# Runs hold exactly their generation

Every call of a host is a sequence of moves of its memory, and keeps the run journal in step with
it.
-/

namespace Scenery.Host

open Relation List

variable {β : Type} {cfg : HostConfig} {c : LineCodec RunRecord β} {key : String → Prop}

structure Recorded (c : LineCodec RunRecord β) (s : Session β) : Prop where
  files : s.journal.marker = true ∨ ∃ rs, s.journal.Holds c rs ∧ Bounded rs
  live : s.running = true → s.journal.poisoned = false →
    ∃ rs, s.journal.Exact c rs ∧ Bounded rs ∧ keptAfter rs = keptRuns s.scope.runs
  bound : s.scope.runs.rows.length ≤ runLimit

theorem files_of_spoiled {j : Journal β} {rs : List RunRecord} (h : j.Spoiled c rs)
    (hb : Bounded rs) : j.marker = true ∨ ∃ rs, j.Holds c rs ∧ Bounded rs := by
  rcases h.2 with hm | hf | hholds
  · exact .inl hm
  · cases hm : j.marker with
    | true => exact .inl rfl
    | false => exact .inr ⟨[], (Journal.exact_nil hm hf).holds, bounded_nil⟩
  · exact .inr ⟨rs, hholds, hb⟩

variable {w : Written}

namespace Recorded

variable {s s' : Session β}

theorem initial : Recorded c (Session.initial : Session β) where
  files := .inr ⟨[], (Journal.exact_nil rfl rfl).holds, bounded_nil⟩
  live h := by cases h
  bound := Nat.zero_le _

theorem congr (h : Recorded c s) (hj : s'.journal = s.journal) (hr : s'.running = s.running)
    (hruns : keptRuns s'.scope.runs = keptRuns s.scope.runs) : Recorded c s' where
  files := hj ▸ h.files
  live := by
    rw [hj, hr, hruns]
    exact h.live
  bound := by
    rw [← length_keptRuns, hruns, length_keptRuns]
    exact h.bound

theorem crash (h : Recorded c s) : Recorded c s.crash where
  files := h.files
  live hr := by cases hr
  bound := by
    refine Nat.le_trans (Nat.le_of_eq ?_) h.bound
    exact length_map _

theorem of_poisoned (hp : s.journal.poisoned = true)
    (hf : s.journal.marker = true ∨ ∃ rs, s.journal.Holds c rs ∧ Bounded rs)
    (hb : s.scope.runs.rows.length ≤ runLimit) : Recorded c s where
  files := hf
  live _ hp' := by
    rw [hp] at hp'
    cases hp'
  bound := hb

theorem of_exact {rs : List RunRecord} (h : s.journal.Exact c rs) (hb : Bounded rs)
    (hk : keptAfter rs = keptRuns s.scope.runs) : Recorded c s where
  files := .inr ⟨rs, h.holds, hb⟩
  live _ _ := ⟨rs, h, hb, hk⟩
  bound := by
    rw [← length_keptRuns, ← hk]
    exact hb rs prefix_rfl

theorem compact (h : Recorded c s) (hrun : s.running = true) (long : Prop) [Decidable long]
    (result : Option RewriteResult) :
    Recorded c (if long then s.compact c result else s) := by
  split
  · cases result with
    | none => exact h.crash
    | some result =>
      cases hp : s.journal.poisoned with
      | true =>
        refine h.congr ?_ rfl rfl
        change s.journal.rewrite c s.scope.records result = s.journal
        unfold Journal.rewrite
        rw [if_pos hp]
      | false =>
        obtain ⟨rs, hexact, hb, -⟩ := h.live hrun hp
        rcases hexact.rewrite hp s.scope.records result with ⟨-, hexact'⟩ | hspoiled
        · exact of_exact hexact' (bounded_records h.bound) (keptAfter_records s.scope)
        · exact of_poisoned hspoiled.1 (files_of_spoiled hspoiled hb) h.bound
  · exact h

theorem commit (h : Recorded c s) (hrun : s.running = true) {r : RunRecord} {scope : Scope}
    (hk : keptRuns scope.runs = keep (keptRuns s.scope.runs) r)
    (hb : scope.runs.rows.length ≤ runLimit) {j : Journal β} {fate : Fate}
    (hc : s.journal.commit c r w = (j, fate)) :
    (fate = .gone → Recorded c { s with journal := j }.crash) ∧
      (fate = .failed → ∀ scope', scope'.runs.rows.length ≤ runLimit →
        Recorded c { s with scope := scope', journal := j }) ∧
      (fate = .committed → Recorded c { s with scope := scope, journal := j }) := by
  cases hp : s.journal.poisoned with
  | true =>
    obtain ⟨hj, hfate⟩ := Journal.commit_of_poisoned (c := c) hp r w
    rw [hc] at hj hfate
    obtain rfl : j = s.journal := hj
    exact ⟨fun _ => h.crash, fun _ scope' hb' => of_poisoned hp h.files hb',
      fun hf => absurd hf hfate⟩
  | false =>
    obtain ⟨rs, hexact, hbound, hkept⟩ := h.live hrun hp
    have hnext : keptAfter (rs ++ [r]) = keptRuns scope.runs := by
      rw [keptAfter_concat, hkept, hk]
    have hbound' : Bounded (rs ++ [r]) := by
      refine hbound.concat ?_
      rw [hnext, length_keptRuns]
      exact hb
    rcases hexact.commit hp r w with ⟨hf, hp', hexact'⟩ | ⟨hf, hfiles⟩ | ⟨hf, hfiles⟩
    · rw [hc] at hf hp' hexact'
      obtain rfl : fate = .committed := hf
      exact ⟨by simp, by simp, fun _ => of_exact hexact' hbound' hnext⟩
    · rw [hc] at hf hfiles
      obtain rfl : fate = .failed := hf
      refine ⟨by simp, fun _ scope' hb' => ?_, by simp⟩
      rcases hfiles with hspoiled | hspoiled
      · exact of_poisoned hspoiled.1 (files_of_spoiled hspoiled hbound') hb'
      · exact of_poisoned hspoiled.1 (files_of_spoiled hspoiled hbound) hb'
    · rw [hc] at hf hfiles
      obtain rfl : fate = .gone := hf
      refine ⟨fun _ => ?_, by simp, by simp⟩
      have hfiles' : ∃ rs, j.Holds c rs ∧ Bounded rs := by
        rcases hfiles with hholds | hholds
        · exact ⟨rs ++ [r], hholds, hbound'⟩
        · exact ⟨rs, hholds, hbound⟩
      exact ⟨.inr hfiles', nofun, h.crash.bound⟩

theorem endRun (h : Recorded c s) (hrun : s.running = true) (run : AssistantRun) (w : Written)
    (compaction : Option RewriteResult) : Recorded c (s.endRun c run w compaction) := by
  have hk := keptRuns_forget s.scope run
  have hb : (s.scope.forget run).runs.rows.length ≤ runLimit :=
    Scope.length_forget_le.trans h.bound
  unfold Session.endRun
  rcases hc : s.journal.commit c run.endedRecord w with ⟨j, _ | _ | _⟩
  · exact ((h.commit hrun hk hb hc).2.2 rfl).compact hrun _ compaction
  · exact ((h.commit hrun hk hb hc).2.1 rfl _ hb).compact hrun _ compaction
  · exact (h.commit hrun hk hb hc).1 rfl

end Recorded

/-! ## What the calls do to the memory -/

section Calls

variable {s s' : Session β}

theorem compact_cases (s : Session β) (long : Prop) [Decidable long]
    (result : Option RewriteResult) :
    (if long then s.compact c result else s).used = s.used ∧
      ((if long then s.compact c result else s).scope = s.scope ∧
          (if long then s.compact c result else s).running = s.running ∨
        (if long then s.compact c result else s).scope = s.scope.gone ∧
          (if long then s.compact c result else s).running = false) := by
  split
  · cases result with
    | none => exact ⟨rfl, .inr ⟨rfl, rfl⟩⟩
    | some result => exact ⟨rfl, .inl ⟨rfl, rfl⟩⟩
  · exact ⟨rfl, .inl ⟨rfl, rfl⟩⟩

variable {run : AssistantRun} {compaction : Option RewriteResult}

theorem endRun_cases {s s' : Session β} (h : s.endRun c run w compaction = s') :
    s'.used = s.used ∧
      (s'.scope = s.scope.forget run ∧ s'.running = s.running ∨
        (s'.scope = s.scope.gone ∨ s'.scope = (s.scope.forget run).gone) ∧ s'.running = false) := by
  subst h
  unfold Session.endRun
  rcases hc : s.journal.commit c run.endedRecord w with ⟨j, fate⟩
  obtain ⟨hused, hcompact⟩ := compact_cases (c := c)
    { s with scope := s.scope.forget run, journal := j } (2 * runLimit ≤ j.lines) compaction
  cases fate with
  | committed | failed =>
    exact ⟨hused, hcompact.imp id fun hgone => ⟨.inr hgone.1, hgone.2⟩⟩
  | gone => exact ⟨rfl, .inr ⟨.inl rfl, rfl⟩⟩

variable {ok : Bool}

theorem room_cases (h : s.room c w compaction = (s', ok)) :
    s' = s ∧ (ok = true → s.scope.runs.rows.length < runLimit) ∨
      ∃ run ∈ s.scope.runs, dispatchable s.scope.generations run = false ∧ ok = true ∧
        s.endRun c run w compaction = s' := by
  unfold Session.room at h
  split at h
  · rename_i hlen
    cases h
    exact .inl ⟨rfl, fun _ => hlen⟩
  · split at h
    · rename_i run hfind
      cases h
      exact .inr ⟨run, mem_of_find?_eq_some hfind, by simpa using find?_some hfind,
        rfl, rfl⟩
    · cases h
      exact .inl ⟨rfl, fun h => by cases h⟩

theorem room_spec (hb : s.scope.runs.rows.length ≤ runLimit)
    (h : s.room c w compaction = (s', ok)) :
    s'.used = s.used ∧ (∀ k ∈ s'.scope.keys, k ∈ s.scope.keys) ∧
      (ok = true → s'.running = true → s'.scope.runs.rows.length < runLimit) := by
  rcases room_cases h with ⟨rfl, hlen⟩ | ⟨run, hrun, -, rfl, hend⟩
  · exact ⟨rfl, fun k hk => hk, fun hok _ => hlen hok⟩
  · obtain ⟨hused, ⟨hscope, -⟩ | ⟨hscope, hstop⟩⟩ := endRun_cases hend
    · rw [hscope]
      exact ⟨hused, fun k hk => (Scope.mem_keys_forget.mp hk).1,
        fun _ _ => Nat.lt_of_lt_of_le (Scope.length_forget_lt hrun) hb⟩
    · refine ⟨hused, fun k hk => ?_, fun _ hr => by rw [hstop] at hr; cases hr⟩
      rcases hscope with hscope | hscope
      · rwa [hscope, Scope.keys_gone] at hk
      · rw [hscope, Scope.keys_gone] at hk
        exact (Scope.mem_keys_forget.mp hk).1

variable {conversation runID : String} {roomWrite w : Written} {answer : Except String RunRef}

theorem reserve_cases {g : ℕ} (hb : s.scope.runs.rows.length ≤ runLimit)
    (h : s.reserve c conversation runID g roomWrite compaction w = (s', answer)) :
    s' = s ∨ ∃ s₁ ok, s.room c roomWrite compaction = (s₁, ok) ∧
      (s' = s₁ ∨
        s₁.running = true ∧ s₁.scope.runs.rows.length < runLimit ∧
          ∃ hnew : runKey conversation runID ∉ s₁.scope.runs.rows.map AssistantRun.key, ∃ j fate,
            s₁.journal.commit c (s₁.scope.reserved conversation runID g).startRecord w = (j, fate) ∧
            (fate = .gone ∧ s' = { s₁ with journal := j }.crash ∨
              fate = .failed ∧ s' = { s₁ with journal := j } ∨
              fate = .committed ∧
                s' = { s₁ with scope := s₁.scope.install conversation runID g hnew,
                               journal := j })) := by
  unfold Session.reserve at h
  split at h
  · exact .inl (Prod.mk.inj h).1.symm
  split at h
  · exact .inl (Prod.mk.inj h).1.symm
  rename_i hkey
  refine .inr ?_
  rcases hroom : s.room c roomWrite compaction with ⟨s₁, _ | _⟩
  · rw [hroom] at h
    exact ⟨s₁, false, rfl, .inl (Prod.mk.inj h).1.symm⟩
  · rw [hroom] at h
    refine ⟨s₁, true, rfl, ?_⟩
    obtain ⟨-, hkeys, hlen⟩ := room_spec hb hroom
    simp only at h
    split at h
    · exact .inl (Prod.mk.inj h).1.symm
    · rename_i hrun
      have hrun : s₁.running = true := by simpa using hrun
      have hnew : runKey conversation runID ∉ s₁.scope.runs.rows.map AssistantRun.key :=
        fun hmem => hkey (hkeys _ hmem)
      refine .inr ⟨hrun, hlen rfl hrun, hnew, ?_⟩
      rcases hc : s₁.journal.commit c (s₁.scope.reserved conversation runID g).startRecord w
        with ⟨j, _ | _ | _⟩
      · rw [hc] at h
        simp only [dif_neg hnew] at h
        exact ⟨j, _, rfl, .inr (.inr ⟨rfl, (Prod.mk.inj h).1.symm⟩)⟩
      · rw [hc] at h
        exact ⟨j, _, rfl, .inr (.inl ⟨rfl, (Prod.mk.inj h).1.symm⟩)⟩
      · rw [hc] at h
        exact ⟨j, _, rfl, .inl ⟨rfl, (Prod.mk.inj h).1.symm⟩⟩

/-! ## Every call is a sequence of moves -/

abbrev Moves (cfg : HostConfig) (key : String → Prop) : Scope → Scope → Prop :=
  ReflTransGen (Move cfg key)

theorem endRun_moves (hmem : run ∈ s.scope.runs) (h : s.endRun c run w compaction = s') :
    Moves cfg key s.scope s'.scope := by
  obtain ⟨-, ⟨hscope, -⟩ | ⟨hscope | hscope, -⟩⟩ := endRun_cases h
  · rw [hscope]
    exact .single (.forget hmem)
  · rw [hscope]
    exact .single .gone
  · rw [hscope]
    exact .tail (.single (.forget hmem)) .gone

theorem room_moves (h : s.room c w compaction = (s', ok)) : Moves cfg key s.scope s'.scope := by
  rcases room_cases h with ⟨rfl, -⟩ | ⟨run, hrun, -, -, hend⟩
  · exact .refl
  · exact endRun_moves hrun hend

theorem requests_room (h : s.room c w compaction = (s', ok)) (hrun : s'.running = true) :
    s'.scope.requests = s.scope.requests := by
  rcases room_cases h with ⟨rfl, -⟩ | ⟨run, -, -, -, hend⟩
  · rfl
  · obtain ⟨-, ⟨hscope, -⟩ | ⟨-, hstop⟩⟩ := endRun_cases hend
    · rw [hscope]
      rfl
    · rw [hstop] at hrun
      cases hrun

theorem reserve_moves {g : ℕ} (hb : s.scope.runs.rows.length ≤ runLimit) (hg : g ∈ s.scope.requests)
    (hkey : key (runKey conversation runID))
    (h : s.reserve c conversation runID g roomWrite compaction w = (s', answer)) :
    Moves cfg key s.scope s'.scope := by
  rcases reserve_cases hb h with rfl | ⟨s₁, ok, hroom, rfl | ⟨hrun, hlen, hnew, j, fate, -, hcase⟩⟩
  · exact .refl
  · exact room_moves hroom
  · have hmoves : Moves cfg key s.scope s₁.scope := room_moves hroom
    have hg₁ : g ∈ s₁.scope.requests := requests_room hroom hrun ▸ hg
    rcases hcase with ⟨-, rfl⟩ | ⟨-, rfl⟩ | ⟨-, rfl⟩
    · exact hmoves.tail .gone
    · exact hmoves
    · exact hmoves.tail (.install hg₁ hkey hlen hnew)

def reserves (e : Session.Event) (k : String) : Prop :=
  ∃ conversation runID g roomWrite compaction w,
    e = .reserve conversation runID g roomWrite compaction w ∧ k = runKey conversation runID

def Session.Event.quiet : Session.Event → Bool
  | .publish _ => true
  | .acquire _ => true
  | .complete _ => true
  | .remove _ _ => true
  | .endStreams _ => true
  | .attach _ _ => true
  | .detach _ => true
  | _ => false

variable {e : Session.Event}

theorem act_of_quiet (he : e.quiet = true) (h : s.act cfg c e = some s') :
    ∃ scope, s' = { s with scope := scope } ∧ scope.runs = s.scope.runs ∧
      ∀ key, Moves cfg key s.scope scope := by
  cases e with simp only [Session.act] at h
  | publish m =>
    split at h
    · exact ⟨s.scope, (Option.some.inj h).symm, rfl, fun _ => .refl⟩
    · rename_i gens hpub
      exact ⟨_, (Option.some.inj h).symm, rfl, fun _ => .single (.publish hpub)⟩
  | acquire number =>
    split at h
    · exact ⟨s.scope, (Option.some.inj h).symm, rfl, fun _ => .refl⟩
    · rename_i g htarget
      exact ⟨_, (Option.some.inj h).symm, rfl, fun _ => .single (.hold (mem_of_target htarget))⟩
  | complete g =>
    split at h
    · rename_i hg
      exact ⟨_, (Option.some.inj h).symm, rfl, fun _ => .single (.complete hg)⟩
    · cases h
  | remove number force =>
    split at h
    · exact ⟨s.scope, (Option.some.inj h).symm, rfl, fun _ => .refl⟩
    · rename_i gens hremove
      exact ⟨_, (Option.some.inj h).symm, rfl, fun _ => .single (.remove hremove)⟩
  | endStreams number =>
    split at h
    · rename_i hn
      exact ⟨_, (Option.some.inj h).symm, rfl, fun _ => .single (.endStreams hn)⟩
    · cases h
  | attach conversation g =>
    split at h
    · rename_i hg
      exact ⟨_, (Option.some.inj h).symm, rfl, fun _ => .single (.attach hg)⟩
    · cases h
  | detach id => exact ⟨_, (Option.some.inj h).symm, rfl, fun _ => .single .detach⟩
  | _ => cases he

theorem keptRuns_accept (s : Scope) (run : AssistantRun) :
    keptRuns ((s.setState run .active).accept run).runs = keptRuns s.runs := by
  refine Eq.trans ?_ (keptRuns_setState s run .active)
  unfold Scope.accept
  split <;> rfl

inductive Called (cfg : HostConfig) (c : LineCodec RunRecord β) (s : Session β)
    (e : Session.Event) : Session β → Prop where
  | noted {scope : Scope} (hkept : keptRuns scope.runs = keptRuns s.scope.runs)
    (hmoves : ∀ key, Moves cfg key s.scope scope) : Called cfg c s e { s with scope := scope }
  | crash : Called cfg c s e s.crash
  | ended {run : AssistantRun} {w : Written} {compaction : Option RewriteResult}
    (hmem : run ∈ s.scope.runs) (he : e = .finish run.ref .rejected w compaction ∨
      e = .observed run.ref true w compaction) : Called cfg c s e (s.endRun c run w compaction)
  | revoked {ref : RunRef} {run : AssistantRun} {w : Written} {j : Journal β} {fate : Fate}
    (he : e = .expire ref w) (hmem : run ∈ s.scope.runs)
    (hc : s.journal.commit c run.revokedRecord w = (j, fate)) (hfate : fate ≠ .gone) :
    Called cfg c s e { s with scope := s.scope.revoke run, journal := j }
  | cut {ref : RunRef} {run : AssistantRun} {w : Written} {j : Journal β} (he : e = .expire ref w)
    (hc : s.journal.commit c run.revokedRecord w = (j, .gone)) :
    Called cfg c s e { s with journal := j }.crash
  | reserved {conversation runID : String} {g : ℕ} {roomWrite w : Written}
    {compaction : Option RewriteResult} {s₁ : Session β} {answer : Except String RunRef}
    (he : e = .reserve conversation runID g roomWrite compaction w) (hg : g ∈ s.scope.requests)
    (hreserve : s.reserve c conversation runID g roomWrite compaction w = (s₁, answer)) :
    Called cfg c s e { s₁ with used := runKey conversation runID :: s.used }

theorem called_of_act (h : s.act cfg c e = some s') : Called cfg c s e s' := by
  have hsame : Called cfg c s e s := .noted rfl fun _ => .refl
  by_cases hq : e.quiet = true
  · obtain ⟨scope, rfl, hruns, hmoves⟩ := act_of_quiet hq h
    exact .noted (congrArg keptRuns hruns) hmoves
  cases e with
  | reserve conversation runID g roomWrite compaction w =>
    simp only [Session.act] at h
    split at h
    · rename_i hg
      cases h
      exact .reserved rfl hg rfl
    · cases h
  | finish ref outcome w compaction =>
    cases h
    unfold Session.finish
    split
    · exact hsame
    · rename_i run hfind
      obtain ⟨hmem, rfl⟩ := Scope.find_eq_some hfind
      cases outcome with
      | accepted => exact .noted (keptRuns_accept _ run) fun _ => .single (.accept hmem)
      | rejected => exact .ended hmem (.inl rfl)
      | unknown => exact .noted (keptRuns_setState _ run .unknown) fun _ => .single (.setState hmem)
  | observed ref terminal w compaction =>
    cases h
    unfold Session.observed
    split
    · exact hsame
    · rename_i run hfind
      obtain ⟨hmem, rfl⟩ := Scope.find_eq_some hfind
      split_ifs with _ hterminal
      · exact hsame
      · exact .ended hmem (.inr (by rw [hterminal]))
      · exact .noted (keptRuns_accept _ run) fun _ => .single (.accept hmem)
      · exact hsame
  | expire ref w =>
    cases h
    unfold Session.expire
    split
    · exact hsame
    · rename_i run hfind
      have hmem := (Scope.find_eq_some hfind).1
      split
      · exact hsame
      · rcases hc : s.journal.commit c run.revokedRecord w with ⟨j, _ | _ | _⟩
        · exact .revoked rfl hmem hc (by decide)
        · exact .revoked rfl hmem hc (by decide)
        · exact .cut rfl hc
  | crash =>
    cases h
    exact .crash
  | start o compaction => cases h
  | _ => exact absurd rfl hq

theorem act_moves (hb : s.scope.runs.rows.length ≤ runLimit) (h : s.act cfg c e = some s') :
    Moves cfg (reserves e) s.scope s'.scope := by
  cases called_of_act h with
  | noted _ hmoves => exact hmoves _
  | crash | cut => exact .single .gone
  | ended hmem => exact endRun_moves hmem rfl
  | revoked _ hmem => exact .single (.revoke hmem)
  | @reserved _ _ _ _ _ _ s₁ _ he hg hreserve =>
    have hmoves : Moves cfg (reserves e) s.scope s₁.scope :=
      reserve_moves hb hg ⟨_, _, _, _, _, _, he, rfl⟩ hreserve
    exact hmoves

/-! ## Every call keeps the journal in step -/

namespace Recorded

theorem room (h : Recorded c s) (hrun : s.running = true) {ok : Bool}
    (hroom : s.room c w compaction = (s', ok)) :
    Recorded c s' := by
  rcases room_cases hroom with ⟨rfl, -⟩ | ⟨run, -, -, -, rfl⟩
  · exact h
  · exact h.endRun hrun run w compaction

theorem reserve (h : Recorded c s) (hrun : s.running = true) {g : ℕ}
    (hreserve : s.reserve c conversation runID g roomWrite compaction w = (s', answer)) :
    Recorded c s' := by
  rcases reserve_cases h.bound hreserve with
    rfl | ⟨s₁, ok, hroom, rfl | ⟨hrun₁, hlen, hnew, j, fate, hc, hcase⟩⟩
  · exact h
  · exact h.room hrun hroom
  · have h₁ : Recorded c s₁ := h.room hrun hroom
    have hb : (s₁.scope.install conversation runID g hnew).runs.rows.length ≤ runLimit := by
      have hlen' : (s₁.scope.install conversation runID g hnew).runs.rows.length =
          s₁.scope.runs.rows.length + 1 := length_append
      omega
    have hcommit := h₁.commit hrun₁ (keptRuns_install s₁.scope hnew) hb hc
    rcases hcase with ⟨hfate, rfl⟩ | ⟨hfate, rfl⟩ | ⟨hfate, rfl⟩
    · exact hcommit.1 hfate
    · exact hcommit.2.1 hfate s₁.scope h₁.bound
    · exact hcommit.2.2 hfate

theorem act (h : Recorded c s) (hrun : s.running = true) (hact : s.act cfg c e = some s') :
    Recorded c s' := by
  have hb (run : AssistantRun) : (s.scope.revoke run).runs.rows.length ≤ runLimit := by
    rw [Scope.length_revoke]
    exact h.bound
  cases called_of_act hact with
  | noted hkept => exact h.congr rfl rfl hkept
  | crash => exact h.crash
  | @ended run w compaction => exact h.endRun hrun run w compaction
  | @revoked _ run _ _ fate _ _ hc hfate =>
    have hcommit := h.commit hrun (keptRuns_revoke s.scope run) (hb run) hc
    cases fate with
    | committed => exact hcommit.2.2 rfl
    | failed => exact hcommit.2.1 rfl _ (hb run)
    | gone => exact absurd rfl hfate
  | @cut _ run _ _ _ hc => exact (h.commit hrun (keptRuns_revoke s.scope run) (hb run) hc).1 rfl
  | reserved _ _ hreserve => exact (h.reserve hrun hreserve).congr rfl rfl rfl

end Recorded

theorem start_spec [DecidableEq β] {o : Journal.Replaying} (h : Recorded c s)
    (hstart : s.start c o compaction = some s') :
    Recorded c s' ∧ s'.used = s.used ∧ Moves cfg key s.scope s'.scope := by
  unfold Session.start at hstart
  split at hstart
  · cases hstart
  rename_i t j hreplay
  let s₁ : Session β := { s with scope := { Scope.empty with runs := t.1, sequence := t.2 },
                                 journal := j, running := true }
  have h₁ : Recorded c s₁ ∧ ∀ run ∈ t.1, run.generation = none := by
    rcases h.files with hm | ⟨rs, hholds, hb⟩
    · obtain ⟨rfl, hm', hp⟩ := Journal.replay_of_marker hm hreplay
      exact ⟨.of_poisoned hp (.inl hm') (Nat.zero_le _),
        fun run hrun => absurd hrun (Table.not_mem_empty run)⟩
    · rcases Journal.replay_cases hholds hreplay with
        ⟨n, rfl, -, rs₀, hpre, hfold⟩ | ⟨-, -, hfold, hexact⟩
      · -- what was replayed before the journal was poisoned is bounded, too
        obtain ⟨hkept, hgen⟩ := foldlM_replayRun hfold
        have hlen : t.1.rows.length ≤ runLimit := by
          rw [← length_keptRuns, hkept]
          exact hb rs₀ hpre
        have hholds' : ({ s.journal with lines := n } : Journal β).Holds c rs := hholds
        have hspoiled := hholds'.poison o.faults
        exact ⟨.of_poisoned hspoiled.1 (files_of_spoiled hspoiled hb) hlen, hgen⟩
      · obtain ⟨hkept, hgen⟩ := foldlM_replayRun hfold
        exact ⟨.of_exact hexact hb hkept.symm, hgen⟩
  obtain ⟨hrec, hgen⟩ := h₁
  cases hstart
  refine ⟨hrec.compact rfl _ compaction, ?_⟩
  obtain ⟨hused, ⟨hscope, -⟩ | ⟨hscope, -⟩⟩ :=
    compact_cases (c := c) s₁ (runLimit < j.lines) compaction
  · refine ⟨hused, ?_⟩
    rw [hscope]
    exact .single (.restart hgen hrec.bound)
  · refine ⟨hused, ?_⟩
    rw [hscope]
    exact .tail (.single (.restart hgen hrec.bound)) .gone

section Steps

variable [DecidableEq β]

theorem step_spec (h : Recorded c s) (hs : s.step cfg c e = some s') :
    Recorded c s' ∧ Moves cfg (reserves e) s.scope s'.scope := by
  unfold Session.step at hs
  split at hs
  · rename_i hrun
    exact ⟨h.act hrun hs, act_moves h.bound hs⟩
  · split at hs
    · rename_i o compaction
      have hspec : Recorded c s' ∧ s'.used = s.used ∧
          Moves cfg (reserves (.start o compaction)) s.scope s'.scope := start_spec h hs
      exact ⟨hspec.1, hspec.2.2⟩
    · cases hs

theorem Counted.moves {s s' : Scope} (h : Counted s) (hmoves : Moves cfg key s s') : Counted s' := by
  induction hmoves with
  | refl => exact h
  | tail _ hmove ih => exact ih.move hmove

theorem invariant_of_run {ok : Session β → Session.Event → Prop}
    (h : Run (Session.step cfg c) ok Session.initial s) : Recorded c s ∧ Counted s.scope := by
  refine h.invariant (P := fun s => Recorded c s ∧ Counted s.scope) ⟨.initial, ?_⟩ ?_
  · exact counted_of_empty rfl rfl fun run hrun => absurd hrun (Table.not_mem_empty run)
  · intro s e s' hinv _ hs
    obtain ⟨hrec, hmoves⟩ := step_spec hinv.1 hs
    exact ⟨hrec, hinv.2.moves hmoves⟩

end Steps

/-! ## Runs that are over -/

def Over (k : String) (s : Scope) : Prop :=
  ∀ run ∈ s.runs, run.key = k → run.revoked = true ∨ run.generation = none

variable {k : String}

theorem Over.of_generation {s : Scope} (h : ∀ run ∈ s.runs, run.generation = none) :
    Over k s := fun run hrun _ => .inr (h run hrun)

theorem Over.setState {s : Scope} (h : Over k s) (run : AssistantRun) (state : RunState) :
    Over k (s.setState run state) := by
  intro r hr hk
  obtain ⟨r₀, hr₀, rfl | rfl⟩ := Scope.mem_setState hr
  · exact h r hr₀ hk
  · exact h r₀ hr₀ hk

theorem Over.move {s s' : Scope} (h : Over k s) (hk : ¬ key k) (hmove : Move cfg key s s') :
    Over k s' := by
  cases hmove with
  | publish | hold | complete | remove | endStreams | attach | detach => exact h
  | install _ hkey _ hnew =>
    intro r hr hrk
    rcases (Table.mem_insert hnew).mp hr with hr | rfl
    · exact h r hr hrk
    · exact absurd (hrk ▸ hkey) hk
  | forget => exact fun r hr => h r (Scope.mem_forget.mp hr).1
  | revoke =>
    intro r hr hrk
    rcases Scope.mem_revoke hr with ⟨r₀, -, -, rfl⟩ | ⟨hr, -⟩
    · exact .inl rfl
    · exact h r hr hrk
  | setState => exact h.setState _ _
  | @accept run hrun =>
    have hset := h.setState run .active
    unfold Scope.accept
    split
    · exact hset
    · exact hset
  | gone =>
    refine Over.of_generation fun r hr => ?_
    obtain ⟨r₀, -, rfl⟩ := Scope.mem_gone hr
    rfl
  | restart ht => exact Over.of_generation ht

theorem Over.moves {s s' : Scope} (h : Over k s) (hk : ¬ key k) (hmoves : Moves cfg key s s') :
    Over k s' := by
  induction hmoves with
  | refl => exact h
  | tail _ hmove ih => exact ih.move hk hmove

theorem Over.runGeneration {call : Session.Call} (h : Over call.key s.scope)
    (hnamed : trimSpace call.conversationDigest ≠ "" ∨ trimSpace call.runID ≠ "") :
    ∃ message, s.runGeneration call = .error message := by
  unfold Session.runGeneration
  split_ifs with hblank
  · exact absurd hblank (by
      rintro ⟨hdigest, hrun⟩
      exact hnamed.elim (· hdigest) (· hrun))
  · exact ⟨_, rfl⟩
  · exact ⟨_, rfl⟩
  · split
    · exact ⟨_, rfl⟩
    · rename_i run hfind
      obtain ⟨hmem, hkey⟩ := Table.find_eq_some.mp hfind
      rcases h run hmem hkey with hrevoked | hgen
      · rw [if_pos hrevoked]
        exact ⟨_, rfl⟩
      · have hdispatch : dispatchable s.scope.generations run = false := by
          simp [dispatchable, hgen]
        rw [hdispatch]
        split_ifs with _ hno
        · exact ⟨_, rfl⟩
        · exact ⟨_, rfl⟩
        · exact absurd rfl hno

theorem eq_of_key {s : Scope} {run run' : AssistantRun} (h : run ∈ s.runs) (h' : run' ∈ s.runs)
    (hk : run.key = run'.key) : run = run' := Table.eq_of_key h h' hk

theorem keys_endRun (hk : k ∈ s.scope.keys) (hne : k ≠ run.key)
    (h : s.endRun c run w compaction = s') : k ∈ s'.scope.keys := by
  have hforget : k ∈ (s.scope.forget run).keys := Scope.mem_keys_forget.mpr ⟨hk, hne⟩
  obtain ⟨-, ⟨hscope, -⟩ | ⟨hscope | hscope, -⟩⟩ := endRun_cases h
  · rwa [hscope]
  · rwa [hscope, Scope.keys_gone]
  · rwa [hscope, Scope.keys_gone]

theorem keys_room {ok : Bool} (hmem : run ∈ s.scope.runs)
    (hd : dispatchable s.scope.generations run = true) (h : s.room c w compaction = (s', ok)) :
    run.key ∈ s'.scope.keys := by
  have hkey : run.key ∈ s.scope.keys := mem_map_of_mem hmem
  rcases room_cases h with ⟨rfl, -⟩ | ⟨run₀, hrun₀, hno, -, hend⟩
  · exact hkey
  · refine keys_endRun hkey (fun hk => ?_) hend
    rw [eq_of_key hmem hrun₀ hk, hno] at hd
    cases hd

theorem keys_reserve {g : ℕ} (hb : s.scope.runs.rows.length ≤ runLimit) (hmem : run ∈ s.scope.runs)
    (hd : dispatchable s.scope.generations run = true)
    (h : s.reserve c conversation runID g roomWrite compaction w = (s', answer)) :
    run.key ∈ s'.scope.keys := by
  rcases reserve_cases hb h with rfl | ⟨s₁, ok, hroom, rfl | ⟨-, -, hnew, j, fate, -, hcase⟩⟩
  · exact mem_map_of_mem hmem
  · exact keys_room hmem hd hroom
  · have hkey : run.key ∈ s₁.scope.keys := keys_room hmem hd hroom
    rcases hcase with ⟨-, rfl⟩ | ⟨-, rfl⟩ | ⟨-, rfl⟩
    · exact (Scope.keys_gone (s := s₁.scope)).symm ▸ hkey
    · exact hkey
    · obtain ⟨r, hr, hrk⟩ := mem_map.mp hkey
      exact mem_map.mpr ⟨r, (Table.mem_insert hnew).mpr (.inl hr), hrk⟩

/-! ## The session as a whole -/

theorem used_act (h : s.act cfg c e = some s') (hk : k ∈ s.used) : k ∈ s'.used := by
  cases called_of_act h with
  | ended => exact (endRun_cases rfl).1.symm ▸ hk
  | reserved => exact mem_cons_of_mem _ hk
  | _ => exact hk

theorem used_step [DecidableEq β] (hrec : Recorded c s) (h : s.step cfg c e = some s')
    (hk : k ∈ s.used) : k ∈ s'.used := by
  unfold Session.step at h
  split at h
  · exact used_act h hk
  · split at h
    · have hspec : Recorded c s' ∧ s'.used = s.used ∧ Moves cfg (fun _ => False) s.scope s'.scope :=
        start_spec hrec h
      exact hspec.2.1.symm ▸ hk
    · cases h

theorem over_of_run [DecidableEq β] {t : Session β} (hrec : Recorded c s) (hk : k ∈ s.used)
    (h : Over k s.scope) (hrun : Run (Session.step cfg c) Session.Fresh s t) :
    Over k t.scope := by
  have hinv := hrun.invariant (P := fun t => Recorded c t ∧ k ∈ t.used ∧ Over k t.scope)
    ⟨hrec, hk, h⟩ ?_
  · exact hinv.2.2
  · rintro t e t' ⟨hrec, hk, hover⟩ hfresh hs
    obtain ⟨hrec', hmoves⟩ := step_spec hrec hs
    refine ⟨hrec', used_step hrec hs hk, hover.moves ?_ hmoves⟩
    rintro ⟨conversation, runID, g, roomWrite, compaction, w, rfl, rfl⟩
    exact hfresh hk

/-- Assistant runs hold exactly their generation, in every state of every session whose
reservations draw fresh run ids: the counter of a generation is the number of open requests and
of runs that hold it; a run that was reserved and is not retained, is revoked, or holds no
generation (it ended, it expired, or an earlier host started it) never gets one again; a run that
can execute is removed only by the rejection of its start or by its terminal event; and no more
runs are retained than the limit. -/
theorem runs_hold_their_generation [DecidableEq β] (cfg : HostConfig) (c : LineCodec RunRecord β)
    (h : Run (Session.step cfg c) Session.Fresh Session.initial s) :
    (∀ g ∈ s.scope.generations, g.inFlight =
      s.scope.requests.count g.number +
        s.scope.runs.rows.countP fun run => run.generation = some g.number) ∧
    (∀ (call : Session.Call) t,
      trimSpace call.conversationDigest ≠ "" ∨ trimSpace call.runID ≠ "" → call.key ∈ s.used →
      (∀ run ∈ s.scope.runs, run.key = call.key → run.revoked = true ∨ run.generation = none) →
      Run (Session.step cfg c) Session.Fresh s t →
      ∃ message, t.runGeneration call = .error message) ∧
    (∀ e s' run, s.running = true → s.step cfg c e = some s' → run ∈ s.scope.runs →
      dispatchable s.scope.generations run = true → run.key ∉ s'.scope.keys →
      (∃ w compaction, e = .finish run.ref .rejected w compaction) ∨
        ∃ w compaction, e = .observed run.ref true w compaction) ∧
    s.scope.runs.rows.length ≤ runLimit := by
  obtain ⟨hrec, hcounted⟩ := invariant_of_run h
  refine ⟨hcounted.inFlight, fun call t hnamed hused hover hrun => ?_,
    fun e s' run hlive hs hmem hd hgone => ?_, hrec.bound⟩
  · exact (over_of_run hrec hused hover hrun).runGeneration hnamed
  · unfold Session.step at hs
    rw [if_pos hlive] at hs
    have hkey : run.key ∈ s.scope.keys := mem_map_of_mem hmem
    cases called_of_act hs with
    | @noted scope hkept =>
      have hkeys : scope.keys = s.scope.keys := by
        rw [Scope.keys, ← keys_keptRuns, hkept, keys_keptRuns, Scope.keys]
      exact absurd (hkeys ▸ hkey) hgone
    | crash => exact absurd (Scope.keys_gone.symm ▸ hkey) hgone
    | @ended run₀ w compaction hrun₀ he =>
      by_cases hk : run.key = run₀.key
      · obtain rfl := eq_of_key hmem hrun₀ hk
        exact he.imp (fun he => ⟨w, compaction, he⟩) fun he => ⟨w, compaction, he⟩
      · exact absurd (keys_endRun hkey hk rfl) hgone
    | revoked => exact absurd (Scope.keys_revoke.symm ▸ hkey) hgone
    | cut => exact absurd (Scope.keys_gone.symm ▸ hkey) hgone
    | reserved _ _ hreserve => exact absurd (keys_reserve hrec.bound hmem hd hreserve) hgone
end Calls

namespace RunSample

def codec : LineCodec RunRecord (Option RunRecord) := .symbols

def config : HostConfig := ⟨"contract-1", []⟩

def manifest : Manifest :=
  ⟨1, "contract-1", ⟨"contract-1", "implementation-1", "digest-1", "linux/amd64"⟩, [], []⟩

def call : Session.Call := ⟨"assistant", "principal-1", "digest-1", "run-1"⟩

def conversation : String := conversationKey "assistant" "principal-1" "digest-1"

def events : List Session.Event :=
  [.start ⟨true, true, ⟨false, false⟩⟩ (some .replaced), .publish manifest, .acquire 0,
    .reserve conversation "run-1" 1 (.result .committed) (some .replaced) (.result .committed),
    .finish ⟨runKey conversation "run-1", 1⟩ .unknown (.result .committed) (some .replaced),
    .expire ⟨runKey conversation "run-1", 1⟩ (.result .committed)]

end RunSample

open RunSample in
theorem runs_hold_their_generation_expired :
    ∃ s, Run (Session.step RunSample.config codec) Session.Fresh Session.initial s ∧
      s.scope.runs.rows.length = 1 ∧ ∃ message, s.runGeneration call = .error message :=
  Run.exists_of_decide (P := fun s => s.scope.runs.rows.length = 1 ∧ call.key ∈ s.used ∧
    ∀ run ∈ s.scope.runs.rows, run.revoked = true) events (by decide +kernel)
    fun s hrun ⟨hlength, hused, hrevoked⟩ =>
      ⟨hlength, (runs_hold_their_generation RunSample.config codec hrun).2.1 call s
        (.inr (by decide +kernel)) hused (fun run hmem _ => .inl (hrevoked run hmem)) .refl⟩

end Scenery.Host
