import Mathlib.Data.Fintype.Basic
import Mathlib.Data.Nat.Notation
import Mathlib.Tactic.SplitIfs
import Scenery.Runs

/-!
# The lock of deployment applies

`acquireDeploymentApplyLock` of `internal/deployplan/deployment_state.go` and its release, as
steps on one file.
-/

namespace Scenery.Deploy.ApplyLock

open Option

inductive Content (ι : Type) : Type where
  | invalid
  | legacy
  | record (owner : ι)
  deriving DecidableEq

structure LockFile (ι : Type) where
  serial : ℕ
  content : Content ι
  deriving DecidableEq

inductive Phase (ι : Type) : Type where
  | idle
  | looking (tries : ℕ)
  | creating (tries : ℕ)
  | reading (tries : ℕ)
  | checking (tries serial : ℕ) (owner : ι)
  | removing (tries serial : ℕ) (owner : ι)
  | unlinking (tries serial : ℕ) (owner : ι)
  | syncingDir (tries : ℕ)
  | writing (serial : ℕ)
  | syncing (serial : ℕ)
  | holding (serial : ℕ)
  | releasing (serial : ℕ)
  deriving DecidableEq

structure Removal (ι : Type) where
  process : ι
  file : ℕ
  target : ℕ
  deriving DecidableEq

structure State (ι : Type) where
  alive : ι → Bool
  phase : ι → Phase ι
  owned : ι → Option ℕ
  file : Option (LockFile ι)
  next : ℕ
  removals : List (Removal ι)

inductive Action where
  | call
  | lstat
  | create
  | write
  | sync
  | read
  | verify
  | stat
  | unlink
  | syncDir
  | fail
  | exit
  deriving DecidableEq

variable {ι : Type} [DecidableEq ι]

namespace State

def goto (s : State ι) (i : ι) (phase : Phase ι) : State ι :=
  { s with phase := Function.update s.phase i phase }

@[simp] theorem goto_phase_self (s : State ι) (i : ι) (phase : Phase ι) :
    (s.goto i phase).phase i = phase := Function.update_self ..

@[simp] theorem goto_phase_ne (s : State ι) {i j : ι} (h : j ≠ i) (phase : Phase ι) :
    (s.goto i phase).phase j = s.phase j := Function.update_of_ne h ..

def disown (s : State ι) (i : ι) : State ι := { s with owned := Function.update s.owned i none }

def remove (s : State ι) (i : ι) (target : ℕ) : State ι :=
  match s.file with
  | none => s
  | some f => { s with file := none, removals := ⟨i, f.serial, target⟩ :: s.removals }

end State

def written (i : ι) (serial : ℕ) (file : Option (LockFile ι)) : Option (LockFile ι) :=
  file.map fun f => if f.serial = serial then ⟨serial, .record i⟩ else f

def examined (tries : ℕ) : Option (LockFile ι) → Phase ι
  | none => .looking tries
  | some ⟨serial, .record owner⟩ => .checking tries serial owner
  | some ⟨_, .invalid⟩ => .idle
  | some ⟨_, .legacy⟩ => .idle

def act (s : State ι) (i : ι) : Action → Option (State ι)
  | .call =>
    match s.phase i with
    | .idle => some (s.goto i (.looking 3))
    | _ => none
  | .lstat =>
    match s.phase i with
    | .looking 0 => some (s.goto i .idle)
    | .looking (tries + 1) =>
      some (s.goto i (if s.file = none then .creating tries else .reading tries))
    | _ => none
  | .create =>
    match s.phase i with
    | .creating tries =>
      if s.file = none then
        some { s.goto i (.writing s.next) with
          file := some ⟨s.next, .invalid⟩
          owned := Function.update s.owned i (some s.next)
          next := s.next + 1 }
      else some (s.goto i (.reading tries))
    | _ => none
  | .write =>
    match s.phase i with
    | .writing serial => some { s.goto i (.syncing serial) with file := written i serial s.file }
    | _ => none
  | .sync =>
    match s.phase i with
    | .syncing serial => some (s.goto i (.holding serial))
    | _ => none
  | .read =>
    match s.phase i with
    | .reading tries => some (s.goto i (examined tries s.file))
    | _ => none
  | .verify =>
    match s.phase i with
    | .checking tries serial owner =>
      some (s.goto i (if s.alive owner then .idle else .removing tries serial owner))
    | _ => none
  | .stat =>
    match s.phase i with
    | .removing tries serial owner =>
      some (s.goto i (if s.file = none then .idle else .unlinking tries serial owner))
    | .holding serial =>
      some (if s.file = none then (s.goto i .idle).disown i else s.goto i (.releasing serial))
    | _ => none
  | .unlink =>
    match s.phase i with
    | .unlinking tries serial _ =>
      some ((s.goto i (if s.file = none then .idle else .syncingDir tries)).remove i serial)
    | .releasing serial => some (((s.goto i .idle).disown i).remove i serial)
    | _ => none
  | .syncDir =>
    match s.phase i with
    | .syncingDir tries => some (s.goto i (.looking tries))
    | _ => none
  | .fail =>
    match s.phase i with
    | .idle => none
    -- the release has failed, and its error is ignored
    | .holding _ => some ((s.goto i .idle).disown i)
    | .releasing _ => some ((s.goto i .idle).disown i)
    | _ => some (s.goto i .idle)
  | .exit => some { s with alive := Function.update s.alive i false }

def step (s : State ι) (event : ι × Action) : Option (State ι) :=
  if s.alive event.1 then act s event.1 event.2 else none

/-! ## Exclusion -/

def State.Exclusive (s : State ι) : Prop :=
  ∀ i j, s.alive i = true → s.alive j = true → s.owned i ≠ none → s.owned j ≠ none → i = j

def State.Aimed (s : State ι) : Prop := ∀ r ∈ s.removals, r.file = r.target

def Phase.examining : Phase ι → Option (ℕ × ι)
  | .checking _ serial owner => some (serial, owner)
  | .removing _ serial owner => some (serial, owner)
  | .unlinking _ serial owner => some (serial, owner)
  | _ => none

def Undisturbed (s : State ι) (event : ι × Action) : Prop :=
  event.2 = .create → s.file = none → ∀ j, s.alive j = true → (s.phase j).examining = none

structure State.Resting (s : State ι) : Prop where
  idle : ∀ i, s.phase i = .idle
  owned : ∀ i, s.owned i = none
  removals : s.removals = []

def Phase.own : Phase ι → Option ℕ
  | .writing serial => some serial
  | .syncing serial => some serial
  | .holding serial => some serial
  | .releasing serial => some serial
  | _ => none

def Phase.condemned : Phase ι → Option ι
  | .removing _ _ owner => some owner
  | .unlinking _ _ owner => some owner
  | _ => none

/-- A live owner of the lock has its file, and only dead owners are condemned. -/
structure Inv (s : State ι) : Prop where
  exclusive : s.Exclusive
  owned : ∀ i n, s.alive i = true → s.owned i = some n →
    ∃ content, s.file = some ⟨n, content⟩ ∧ ∀ o, content = .record o → o = i
  own : ∀ i n, s.alive i = true → (s.phase i).own = some n → s.owned i = some n
  examining : ∀ i n o, s.alive i = true → (s.phase i).examining = some (n, o) →
    s.file = none ∨ s.file = some ⟨n, .record o⟩
  condemned : ∀ i o, (s.phase i).condemned = some o → s.alive o = false
  aimed : s.Aimed

section

variable {s s' : State ι} {i : ι}

omit [DecidableEq ι] in
theorem State.Resting.inv (h : s.Resting) : Inv s := by
  refine ⟨fun i _ _ _ hi => absurd (h.owned i) hi, fun i n _ hi => ?_, fun i n _ hi => ?_,
    fun i n o _ hi => ?_, fun i o hi => ?_, fun r hr => ?_⟩
  · rw [h.owned i] at hi
    cases hi
  · rw [h.idle i] at hi
    cases hi
  · rw [h.idle i] at hi
    cases hi
  · rw [h.idle i] at hi
    cases hi
  · rw [h.removals] at hr
    cases hr

variable {φ : Phase ι}

theorem Inv.goto (h : Inv s) (hown : ∀ n, φ.own = some n → s.owned i = some n)
    (hexamining : ∀ n o, φ.examining = some (n, o) → s.file = none ∨ s.file = some ⟨n, .record o⟩)
    (hcondemned : ∀ o, φ.condemned = some o → s.alive o = false) : Inv (s.goto i φ) where
  exclusive := h.exclusive
  owned := h.owned
  own j n hj hn := by
    rcases seen_update_cases Phase.own hn with ⟨rfl, hself⟩ | ⟨hji, hn⟩
    · exact hown n hself
    · exact h.own j n hj hn
  examining j n o hj hn := by
    rcases seen_update_cases Phase.examining hn with ⟨rfl, hself⟩ | ⟨hji, hn⟩
    · exact hexamining n o hself
    · exact h.examining j n o hj hn
  condemned j o hn := by
    rcases seen_update_cases Phase.condemned hn with ⟨rfl, hself⟩ | ⟨hji, hn⟩
    · exact hcondemned o hself
    · exact h.condemned j o hn
  aimed := h.aimed

theorem Inv.goto_free (h : Inv s) (hown : φ.own = none) (hex : φ.examining = none)
    (hcond : φ.condemned = none) : Inv (s.goto i φ) :=
  h.goto (fun n hn => by cases hown.symm.trans hn) (fun n o hn => by cases hex.symm.trans hn)
    fun o hn => by cases hcond.symm.trans hn

theorem Inv.disown (h : Inv s) (hown : (s.phase i).own = none) : Inv (s.disown i) := by
  have hold : ∀ j n, Function.update s.owned i none j = some n → j ≠ i ∧ s.owned j = some n := by
    intro j n hn
    rcases update_cases hn with ⟨rfl, hself⟩ | ⟨hji, hn⟩
    · cases hself
    · exact ⟨hji, hn⟩
  have hsome : ∀ j, Function.update s.owned i none j ≠ none → s.owned j ≠ none := by
    intro j hj
    obtain ⟨n, hn⟩ := ne_none_iff_exists'.mp hj
    rw [(hold j n hn).2]
    exact some_ne_none n
  refine ⟨fun j k hj hk hoj hok => h.exclusive j k hj hk (hsome j hoj) (hsome k hok),
    fun j n hj hn => h.owned j n hj (hold j n hn).2, fun j n hj hn => ?_, h.examining, h.condemned,
    h.aimed⟩
  have hji : j ≠ i := by
    rintro rfl
    exact absurd (hown.symm.trans hn) (by simp)
  exact (Function.update_of_ne hji _ _).trans (h.own j n hj hn)

omit [DecidableEq ι] in
theorem Inv.remove (h : Inv s) {target : ℕ} (htarget : ∀ f, s.file = some f → f.serial = target)
    (hfree : ∀ j, s.file ≠ none → s.alive j = true → s.owned j = none) :
    Inv (s.remove i target) := by
  cases hfile : s.file with
  | none => simpa only [State.remove, hfile] using h
  | some f =>
    have hnone : ∀ j, s.alive j = true → s.owned j = none := fun j hj =>
      hfree j (by rw [hfile]; exact some_ne_none f) hj
    simp only [State.remove, hfile]
    refine ⟨h.exclusive, fun j n hj hn => ?_, h.own, fun j n o _ _ => .inl rfl, h.condemned, ?_⟩
    · cases (hnone j hj).symm.trans hn
    · intro r hr
      rcases List.mem_cons.mp hr with rfl | hr
      · exact htarget f hfile
      · exact h.aimed r hr

theorem Inv.create (h : Inv s) (hfile : s.file = none)
    (hquiet : ∀ j, s.alive j = true → (s.phase j).examining = none) :
    Inv { s.goto i (.writing s.next) with
      file := some ⟨s.next, .invalid⟩
      owned := Function.update s.owned i (some s.next)
      next := s.next + 1 } := by
  -- no live process has a lock, since there is no file
  have hnone : ∀ j, s.alive j = true → s.owned j = none := by
    intro j hj
    cases hn : s.owned j with
    | none => rfl
    | some n =>
      obtain ⟨content, hf, -⟩ := h.owned j n hj hn
      cases hfile.symm.trans hf
  have honly : ∀ j, s.alive j = true → Function.update s.owned i (some s.next) j ≠ none → j = i := by
    intro j hj hn
    by_contra hji
    rw [Function.update_of_ne hji] at hn
    exact hn (hnone j hj)
  refine ⟨fun j k hj hk hoj hok => (honly j hj hoj).trans (honly k hk hok).symm,
    fun j n hj hn => ?_, fun j n hj hn => ?_, fun j n o hj hn => ?_, fun j o hn => ?_, h.aimed⟩
  · have hji : j = i := honly j hj (by dsimp only at hn; rw [hn]; exact some_ne_none n)
    subst hji
    dsimp only at hn
    rw [Function.update_self] at hn
    cases hn
    exact ⟨_, rfl, nofun⟩
  · dsimp only [State.goto] at hn ⊢
    by_cases hji : j = i
    · subst hji
      rw [Function.update_self] at hn ⊢
      exact hn
    · rw [Function.update_of_ne hji] at hn ⊢
      exact h.own j n hj hn
  · rcases seen_update_cases Phase.examining hn with ⟨rfl, hself⟩ | ⟨hji, hn⟩
    · cases hself
    · cases (hquiet j hj).symm.trans hn
  · rcases seen_update_cases Phase.condemned hn with ⟨rfl, hself⟩ | ⟨hji, hn⟩
    · cases hself
    · exact h.condemned j o hn

theorem Inv.write (h : Inv s) {n : ℕ} (hi : s.alive i = true) (hphase : s.phase i = .writing n) :
    Inv { s.goto i (.syncing n) with file := written i n s.file } := by
  have hown : s.owned i = some n := h.own i n hi (by rw [hphase]; rfl)
  obtain ⟨content, hfile, hcontent⟩ := h.owned i n hi hown
  have hgoto : Inv (s.goto i (.syncing n)) := by
    refine h.goto (fun m hm => ?_) nofun nofun
    cases hm
    exact hown
  have hwritten : written i n s.file = some ⟨n, .record i⟩ := by
    rw [hfile, written, map_some, if_pos rfl]
  refine ⟨h.exclusive, fun j m hj hm => ?_, hgoto.own, fun j m o hj hm => ?_, hgoto.condemned, h.aimed⟩
  · -- the only process with a lock is the one that writes
    obtain rfl : j = i := h.exclusive j i hj hi (by dsimp only [State.goto] at hm; simp [hm])
      (by simp [hown])
    cases hown.symm.trans hm
    exact ⟨_, hwritten, fun o ho => by cases ho; rfl⟩
  · rcases hgoto.examining j m o hj hm with hnone | hrecord
    · cases hnone.symm.trans hfile
    · cases hfile.symm.trans hrecord
      obtain rfl := hcontent o rfl
      exact .inr hwritten

theorem Inv.exit (h : Inv s) : Inv { s with alive := Function.update s.alive i false } := by
  have hold : ∀ j, Function.update s.alive i false j = true → s.alive j = true := by
    intro j hj
    by_cases hji : j = i
    · rw [hji, Function.update_self] at hj
      cases hj
    · rwa [Function.update_of_ne hji] at hj
  refine ⟨fun j k hj hk => h.exclusive j k (hold j hj) (hold k hk),
    fun j n hj => h.owned j n (hold j hj), fun j n hj => h.own j n (hold j hj),
    fun j n o hj => h.examining j n o (hold j hj), fun j o hn => ?_, h.aimed⟩
  dsimp only
  by_cases hoi : o = i
  · rw [hoi, Function.update_self]
  · rw [Function.update_of_ne hoi]
    exact h.condemned j o hn

theorem Inv.unlink (h : Inv s) {tries n : ℕ} {o : ι} (hi : s.alive i = true)
    (hphase : s.phase i = .unlinking tries n o) (hown : φ.own = none)
    (hex : φ.examining = none) (hcond : φ.condemned = none) : Inv ((s.goto i φ).remove i n) := by
  have hfile : ∀ f, s.file = some f → f = ⟨n, .record o⟩ := by
    intro f hf
    rcases h.examining i n o hi (by rw [hphase]; rfl) with hnone | hrecord
    · cases hnone.symm.trans hf
    · exact Option.some.inj (hf.symm.trans hrecord)
  have hdead : s.alive o = false := h.condemned i o (by rw [hphase]; rfl)
  refine (h.goto_free hown hex hcond).remove (fun f hf => by rw [hfile f hf]) fun j hne hj => ?_
  -- a live process with a lock would be the dead owner
  cases hn : s.owned j with
  | none => exact hn
  | some m =>
    obtain ⟨content, hf, hcontent⟩ := h.owned j m hj hn
    cases hfile _ hf
    obtain rfl := hcontent o rfl
    cases hdead.symm.trans hj

theorem Inv.give_up (h : Inv s) : Inv ((s.goto i .idle).disown i) := by
  refine (h.goto_free rfl rfl rfl).disown ?_
  rw [State.goto_phase_self]
  rfl

theorem Inv.release (h : Inv s) {n : ℕ} (hi : s.alive i = true)
    (hphase : s.phase i = .releasing n) : Inv (((s.goto i .idle).disown i).remove i n) := by
  have hown : s.owned i = some n := h.own i n hi (by rw [hphase]; rfl)
  obtain ⟨content, hfile, -⟩ := h.owned i n hi hown
  refine h.give_up.remove (fun f hf => ?_) fun j _ hj => ?_
  · cases hfile.symm.trans hf
    rfl
  · by_cases hji : j = i
    · rw [hji]
      exact Function.update_self ..
    · refine (Function.update_of_ne hji ..).trans ?_
      by_contra hne
      exact hji (h.exclusive j i hj hi hne (by rw [hown]; exact some_ne_none n))

theorem Inv.act (h : Inv s) {a : Action} (hi : s.alive i = true) (hok : Undisturbed s (i, a))
    (hs : act s i a = some s') : Inv s' := by
  cases a with simp only [ApplyLock.act] at hs
  | call | syncDir =>
    split at hs <;> cases hs
    exact h.goto_free rfl rfl rfl
  | lstat =>
    split at hs <;> cases hs
    · exact h.goto_free rfl rfl rfl
    · split_ifs
      · exact h.goto_free rfl rfl rfl
      · exact h.goto_free rfl rfl rfl
  | create =>
    split at hs
    · split_ifs at hs with hfile
      · cases hs
        exact h.create hfile (hok rfl hfile)
      · cases hs
        exact h.goto_free rfl rfl rfl
    · cases hs
  | write =>
    split at hs <;> cases hs
    rename_i hphase
    exact h.write hi hphase
  | sync =>
    split at hs <;> cases hs
    rename_i n hphase
    refine h.goto (fun m hm => ?_) nofun nofun
    cases hm
    exact h.own i n hi (by rw [hphase]; rfl)
  | read =>
    split at hs <;> cases hs
    cases hfile : s.file with
    | none => exact h.goto_free rfl rfl rfl
    | some f =>
      obtain ⟨n, content⟩ := f
      cases content with
      | invalid | legacy => exact h.goto_free rfl rfl rfl
      | record o =>
        refine h.goto nofun (fun m o hm => ?_) nofun
        cases hm
        exact .inr hfile
  | verify =>
    split at hs <;> cases hs
    rename_i tries n o hphase
    split_ifs with halive
    · exact h.goto_free rfl rfl rfl
    · refine h.goto nofun (fun m o hm => ?_) fun o hm => ?_
      · cases hm
        exact h.examining i n _ hi (by rw [hphase]; rfl)
      · cases hm
        exact Bool.eq_false_iff.mpr halive
  | stat =>
    split at hs <;> cases hs
    · rename_i tries n o hphase
      split_ifs
      · exact h.goto_free rfl rfl rfl
      · refine h.goto nofun (fun m o hm => ?_) fun o hm => ?_
        · cases hm
          exact h.examining i n _ hi (by rw [hphase]; rfl)
        · cases hm
          exact h.condemned i _ (by rw [hphase]; rfl)
    · rename_i n hphase
      split_ifs
      · exact h.give_up
      · refine h.goto (fun m hm => ?_) nofun nofun
        cases hm
        exact h.own i n hi (by rw [hphase]; rfl)
  | unlink =>
    split at hs <;> cases hs
    · rename_i hphase
      split_ifs
      · exact h.unlink hi hphase rfl rfl rfl
      · exact h.unlink hi hphase rfl rfl rfl
    · rename_i hphase
      exact h.release hi hphase
  | fail =>
    split at hs <;> cases hs
    · exact h.give_up
    · exact h.give_up
    · exact h.goto_free rfl rfl rfl
  | exit =>
    cases hs
    exact h.exit

/-- In every undisturbed run at most one live process has a lock, and every process removes only
the lock whose owner it has found dead, or its own. -/
theorem apply_lock_exclusive {s₀ : State ι} (h₀ : s₀.Resting) (hrun : Run step Undisturbed s₀ s) :
    s.Exclusive ∧ s.Aimed := by
  have hinv : Inv s := hrun.invariant h₀.inv fun s event s' h hok hs => by
    rw [step] at hs
    split_ifs at hs with hi
    exact h.act hi hok hs
  exact ⟨hinv.exclusive, hinv.aimed⟩

end

instance [Fintype ι] (s : State ι) (event : ι × Action) : Decidable (Undisturbed s event) :=
  inferInstanceAs (Decidable (event.2 = .create → s.file = none →
    ∀ j, s.alive j = true → (s.phase j).examining = none))

def abandoned : State (Fin 3) where
  alive i := i ≠ 0
  phase _ := .idle
  owned _ := none
  file := some ⟨0, .record 0⟩
  next := 1
  removals := []

theorem abandoned_resting : abandoned.Resting := ⟨fun _ => rfl, fun _ => rfl, rfl⟩

def condemn (i : Fin 3) : List (Fin 3 × Action) :=
  [(i, .call), (i, .lstat), (i, .read), (i, .verify), (i, .stat)]

def take (i : Fin 3) : List (Fin 3 × Action) :=
  [(i, .unlink), (i, .syncDir), (i, .lstat), (i, .create), (i, .write), (i, .sync)]

theorem apply_lock_exclusive_abandoned :
    ∃ s : State (Fin 3), Run step Undisturbed abandoned s ∧ s.owned 1 = some 1 ∧
      s.removals = [⟨1, 0, 0⟩] ∧ s.Exclusive ∧ s.Aimed :=
  Run.exists_of_decide (P := fun s => s.owned 1 = some 1 ∧ s.removals = [⟨1, 0, 0⟩])
    (condemn 1 ++ take 1) (by decide +kernel) fun _ hrun hs =>
      ⟨hs.1, hs.2, apply_lock_exclusive abandoned_resting hrun⟩

/-- Two processes find the same owner dead, and the second one removes the lock of the first. -/
theorem apply_lock_taken_twice :
    ∃ s : State (Fin 3), Run step (fun _ _ => True) abandoned s ∧ ¬ s.Exclusive ∧ ¬ s.Aimed := by
  refine Run.exists_of_decide (P := fun s => s.alive 1 = true ∧ s.alive 2 = true ∧
    s.owned 1 = some 1 ∧ s.owned 2 = some 2 ∧ ⟨2, 1, 0⟩ ∈ s.removals)
    (condemn 1 ++ condemn 2 ++ take 1 ++ take 2) (by decide +kernel)
    fun s hrun ⟨h₁, h₂, ho₁, ho₂, hr⟩ => ⟨fun hex => ?_, fun haimed => ?_⟩
  · have h12 := hex 1 2 h₁ h₂ (by rw [ho₁]; exact some_ne_none 1)
      (by rw [ho₂]; exact some_ne_none 2)
    exact absurd h12 (by decide)
  · exact absurd (haimed _ hr) (by decide)

end Scenery.Deploy.ApplyLock
