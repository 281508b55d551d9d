import Mathlib.Logic.Relation
import Scenery.Host.Conversations

/-!
# Holders of a generation

Every call of a host changes its memory by a few moves.
-/

namespace Scenery.Host

open List

variable {cfg : HostConfig} {s s' : Scope} {run : AssistantRun}

inductive Move (cfg : HostConfig) (key : String → Prop) : Scope → Scope → Prop where
  | publish {s : Scope} {m : Manifest} {gens : List Generation}
    (h : publish cfg m s.generations = .ok gens) : Move cfg key s { s with generations := gens }
  | hold {s : Scope} {g : Generation} (h : g ∈ s.generations) : Move cfg key s (s.hold g.number)
  | complete {s : Scope} {g : ℕ} (h : g ∈ s.requests) : Move cfg key s (s.complete g)
  | remove {s : Scope} {number : ℕ} {force : Bool} {gens : List Generation}
    (h : removeGeneration number force s.generations = .ok gens) :
    Move cfg key s (s.remove number gens)
  | endStreams {s : Scope} {number : ℕ} (h : number ∈ s.retiring) :
    Move cfg key s (s.endStreams number)
  | install {s : Scope} {conversation runID : String} {g : ℕ} (hg : g ∈ s.requests)
    (hkey : key (runKey conversation runID)) (hroom : s.runs.rows.length < runLimit)
    (h : runKey conversation runID ∉ s.runs.rows.map AssistantRun.key) :
    Move cfg key s (s.install conversation runID g h)
  | forget {s : Scope} {run : AssistantRun} (h : run ∈ s.runs) : Move cfg key s (s.forget run)
  | revoke {s : Scope} {run : AssistantRun} (h : run ∈ s.runs) : Move cfg key s (s.revoke run)
  | setState {s : Scope} {run : AssistantRun} {state : RunState} (h : run ∈ s.runs) :
    Move cfg key s (s.setState run state)
  | accept {s : Scope} {run : AssistantRun} (h : run ∈ s.runs) :
    Move cfg key s ((s.setState run .active).accept run)
  | attach {s : Scope} {conversation : String} {g : ℕ} (h : g ∈ s.requests) :
    Move cfg key s (s.attach conversation g)
  | detach {s : Scope} {id : ℕ} : Move cfg key s (s.detach id)
  | gone {s : Scope} : Move cfg key s s.gone
  | restart {s : Scope} {t : Table AssistantRun.key} {n : ℕ}
    (h : ∀ run ∈ t, run.generation = none) (hlen : t.rows.length ≤ runLimit) :
    Move cfg key s { Scope.empty with runs := t, sequence := n }

def Scope.holders (s : Scope) (number : ℕ) : ℤ :=
  s.requests.count number + s.runs.rows.countP fun run => run.generation = some number

theorem mem_addInFlight {gens : List Generation} {n : ℕ} {d : ℤ} {g' : Generation}
    (h : g' ∈ addInFlight n d gens) :
    ∃ g ∈ gens, g'.number = g.number ∧ g'.retired = g.retired ∧
      g'.inFlight = g.inFlight + if g.number = n then d else 0 := by
  obtain ⟨g, hg, rfl⟩ := mem_map.mp h
  refine ⟨g, hg, ?_⟩
  by_cases hn : g.number = n <;> simp [hn]

theorem inFlight_addInFlight {n : ℕ} {d : ℤ}
    (h : ∀ g ∈ s.generations, g.inFlight = s.holders g.number)
    (hs : ∀ m, s'.holders m = s.holders m + if m = n then d else 0) :
    ∀ g ∈ addInFlight n d s.generations, g.inFlight = s'.holders g.number := by
  intro g' hg'
  obtain ⟨g, hg, hnumber, -, hflight⟩ := mem_addInFlight hg'
  rw [hflight, h g hg, hnumber, hs]

theorem inFlight_letGo (h : ∀ g ∈ s.generations, g.inFlight = s.holders g.number)
    (hs : ∀ m, s'.holders m = s.holders m - if run.generation = some m then 1 else 0) :
    ∀ g ∈ Scope.letGo run s.generations, g.inFlight = s'.holders g.number := by
  unfold Scope.letGo
  cases hgen : run.generation with
  | none =>
    intro g hg
    rw [h g hg, hs, hgen]
    simp
  | some n =>
    refine inFlight_addInFlight h fun m => ?_
    rw [hs, hgen]
    by_cases hm : m = n
    · simp
      omega
    · simp [hm, Ne.symm hm]

theorem numbers_letGo (run : AssistantRun) (gens : List Generation) :
    (Scope.letGo run gens).map Generation.number = gens.map Generation.number := by
  unfold Scope.letGo
  split
  · rfl
  · exact numbers_addInFlight _ _ _

theorem holders_hold (g m : ℕ) :
    (s.hold g).holders m = s.holders m + if m = g then 1 else 0 := by
  unfold Scope.holders Scope.hold
  by_cases hm : m = g
  · simp [hm]
    omega
  · simp [hm, Ne.symm hm]

theorem holders_complete {g : ℕ} (h : g ∈ s.requests) (m : ℕ) :
    (s.complete g).holders m = s.holders m + if m = g then -1 else 0 := by
  unfold Scope.holders Scope.complete
  rw [count_erase]
  by_cases hm : m = g
  · have hpos : 0 < s.requests.count g := count_pos_iff.mpr h
    simp [hm]
    omega
  · simp [hm, Ne.symm hm]

theorem holders_forget (h : run ∈ s.runs) (m : ℕ) :
    (s.forget run).holders m = s.holders m - if run.generation = some m then 1 else 0 := by
  have hcount := s.runs.countP_delete_key (fun r => decide (r.generation = some m)) h
  unfold Scope.holders Scope.forget
  rw [hcount]
  by_cases hm : run.generation = some m <;> simp [hm]
  omega

theorem holders_revoke (h : run ∈ s.runs) (m : ℕ) :
    (s.revoke run).holders m = s.holders m - if run.generation = some m then 1 else 0 := by
  have hcount := s.runs.countP_update_key (fun r => decide (r.generation = some m)) h
    .expired AssistantRun.key_expired
  unfold Scope.holders Scope.revoke
  by_cases hm : run.generation = some m <;>
    simp [hm, AssistantRun.expired, AssistantRun.released] at hcount ⊢ <;> omega

theorem holders_setState (h : run ∈ s.runs) (state : RunState) (m : ℕ) :
    (s.setState run state).holders m = s.holders m := by
  have hcount := s.runs.countP_update_key (fun r => decide (r.generation = some m)) h
    (.enter state) (AssistantRun.key_enter state)
  unfold Scope.holders Scope.setState
  by_cases hm : run.generation = some m <;> simp [hm, AssistantRun.enter] at hcount ⊢ <;> omega

theorem holders_install {conversation runID : String} {g : ℕ}
    (h : runKey conversation runID ∉ s.runs.rows.map AssistantRun.key) (m : ℕ) :
    (s.install conversation runID g h).holders m = s.holders m + if m = g then 1 else 0 := by
  have hcount : (s.install conversation runID g h).runs.rows.countP
      (fun r => decide (r.generation = some m)) =
        s.runs.rows.countP (fun r => decide (r.generation = some m)) + if m = g then 1 else 0 := by
    refine (s.runs.countP_insert _ (s.reserved conversation runID g) h).trans ?_
    by_cases hm : m = g
    · simp [hm, Scope.reserved]
    · simp [hm, Ne.symm hm, Scope.reserved]
  unfold Scope.holders
  rw [hcount]
  by_cases hm : m = g
  · simp only [hm, Scope.install, if_true]
    omega
  · simp [hm, Scope.install]

structure Counted (s : Scope) : Prop where
  descending : Descending s.generations
  requests : ∀ g ∈ s.requests, g ∈ s.generations.map Generation.number
  held : ∀ run ∈ s.runs, ∀ n, run.generation = some n →
    n = run.number ∧ n ∈ s.generations.map Generation.number
  inFlight : ∀ g ∈ s.generations, g.inFlight = s.holders g.number

theorem counted_of_empty (hg : s.generations = []) (hr : s.requests = [])
    (hruns : ∀ run ∈ s.runs, run.generation = none) : Counted s where
  descending := hg ▸ List.Pairwise.nil
  requests := by
    rw [hr]
    exact fun g hmem => absurd hmem not_mem_nil
  held := by
    intro run hrun n hn
    rw [hruns run hrun] at hn
    cases hn
  inFlight := by
    rw [hg]
    exact fun g hmem => absurd hmem not_mem_nil

namespace Counted

variable {key : String → Prop}

section

variable (h : Counted s)
include h

theorem congr (hg : s'.generations = s.generations) (hr : s'.requests = s.requests)
    (hruns : s'.runs = s.runs) : Counted s' where
  descending := hg ▸ h.descending
  requests := by
    rw [hg, hr]
    exact h.requests
  held := by
    rw [hg, hruns]
    exact h.held
  inFlight := by
    have hholders : s'.holders = s.holders := by
      funext n
      unfold Scope.holders
      rw [hr, hruns]
    rw [hg, hholders]
    exact h.inFlight

theorem publish {m : Manifest} {gens : List Generation}
    (hp : publish cfg m s.generations = .ok gens) : Counted { s with generations := gens } := by
  have hdesc := h.descending.publish hp
  obtain ⟨-, -, rfl⟩ := publish_eq_ok hp
  have hnew : m.generation ∉ s.generations.map Generation.number := fun hmem =>
    Nat.lt_irrefl _ ((pairwise_cons.mp hdesc).1 _ hmem)
  refine ⟨hdesc, fun g hg => mem_cons_of_mem _ (h.requests g hg), fun run hrun n hn =>
    ⟨(h.held run hrun n hn).1, mem_cons_of_mem _ (h.held run hrun n hn).2⟩, fun g hg => ?_⟩
  rcases mem_cons.mp hg with rfl | hg
  · have hcount : s.requests.count m.generation = 0 :=
      count_eq_zero.mpr fun hmem => hnew (h.requests _ hmem)
    have hruns : s.runs.rows.countP (fun run => run.generation = some m.generation) = 0 :=
      countP_eq_zero.mpr fun run hrun hgen =>
        hnew (h.held run hrun _ (of_decide_eq_true hgen)).2
    change (0 : ℤ) = s.requests.count m.generation +
      s.runs.rows.countP fun run => run.generation = some m.generation
    rw [hcount, hruns]
    rfl
  · exact h.inFlight g hg

theorem adjust
    (hnumbers : s'.generations.map Generation.number = s.generations.map Generation.number)
    (hreq : ∀ g ∈ s'.requests, g ∈ s.generations.map Generation.number)
    (hheld : ∀ run ∈ s'.runs, ∀ n, run.generation = some n →
      n = run.number ∧ n ∈ s.generations.map Generation.number)
    (hflight : ∀ g ∈ s'.generations, g.inFlight = s'.holders g.number) : Counted s' where
  descending := by
    rw [Descending, hnumbers]
    exact h.descending
  requests := by
    rw [hnumbers]
    exact hreq
  held := by
    rw [hnumbers]
    exact hheld
  inFlight := hflight

theorem setState (hrun : run ∈ s.runs) (state : RunState) :
    Counted (s.setState run state) := by
  refine h.adjust rfl h.requests (fun r hr n hn => ?_) fun g hg => ?_
  · obtain ⟨r₀, hr₀, rfl | rfl⟩ := Scope.mem_setState hr
    · exact h.held r hr₀ n hn
    · exact h.held r₀ hr₀ n hn
  · rw [holders_setState hrun]
    exact h.inFlight g hg

theorem accept (run : AssistantRun) : Counted (s.accept run) := by
  unfold Scope.accept
  split
  · exact h
  · exact h.congr rfl rfl rfl

theorem move (hmove : Move cfg key s s') : Counted s' := by
  cases hmove with
  | publish hp => exact h.publish hp
  | @hold g hg =>
    refine h.adjust (numbers_addInFlight _ _ _) (fun n hn => ?_) h.held
      (inFlight_addInFlight h.inFlight (holders_hold g.number))
    rcases mem_cons.mp hn with rfl | hn
    · exact mem_map_of_mem hg
    · exact h.requests n hn
  | complete hg =>
    exact h.adjust (numbers_addInFlight _ _ _)
      (fun n hn => h.requests n (mem_of_mem_erase hn)) h.held
      (inFlight_addInFlight h.inFlight (holders_complete hg))
  | @remove number force gens hr =>
    refine h.adjust (numbers_remove hr) h.requests h.held fun g hg => ?_
    rw [Scope.remove, removeGeneration_eq_ok hr] at hg
    obtain ⟨g₀, hg₀, rfl⟩ := mem_map.mp hg
    have hflight := h.inFlight g₀ hg₀
    by_cases hn : g₀.number = number
    · rw [if_pos hn]
      exact hflight
    · rw [if_neg hn]
      exact hflight
  | endStreams | attach | detach => exact h.congr rfl rfl rfl
  | @install conversation runID g hg _ _ hnew =>
    refine h.adjust (numbers_addInFlight _ _ _) h.requests (fun r hr n hn => ?_)
      (inFlight_addInFlight h.inFlight (holders_install hnew))
    rcases (Table.mem_insert hnew).mp hr with hr | rfl
    · exact h.held r hr n hn
    · cases hn
      exact ⟨rfl, h.requests _ hg⟩
  | forget hrun =>
    exact h.adjust (numbers_letGo _ _) h.requests
      (fun r hr n hn => h.held r (Scope.mem_forget.mp hr).1 n hn)
      (inFlight_letGo h.inFlight (holders_forget hrun))
  | revoke hrun =>
    refine h.adjust (numbers_letGo _ _) h.requests (fun r hr n hn => ?_)
      (inFlight_letGo h.inFlight (holders_revoke hrun))
    rcases Scope.mem_revoke hr with ⟨r₀, -, -, rfl⟩ | ⟨hr, -⟩
    · cases hn
    · exact h.held r hr n hn
  | setState hrun => exact h.setState hrun _
  | accept hrun => exact (h.setState hrun _).accept _
  | gone =>
    refine counted_of_empty rfl rfl fun r hr => ?_
    obtain ⟨r₀, -, rfl⟩ := Scope.mem_gone hr
    rfl
  | restart ht => exact counted_of_empty rfl rfl ht

end

end Counted

end Scenery.Host
