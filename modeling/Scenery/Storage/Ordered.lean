import Mathlib.Data.Finset.Sort
import Mathlib.Order.BoundedOrder.Basic

/-!
# Ordered scans of reclaimable material

`scanOrderedGenerationMaterials` of `internal/storagefs` visits the material of a generation in
the order of its paths.
-/

namespace Scenery.Storage

open List

/- A material stands for its path: the code only compares paths, and no two materials of a
generation have the same. -/
variable {π : Type} [LinearOrder π]

abbrev Sorted (l : List π) : Prop := l.Pairwise (· ≤ ·)

/-! ## Sorting by runs -/

/-- The heap of `mergeOrderedRuns`: the least of the next items, the earliest source first. -/
def popLeast : List (List π) → Option (π × List (List π))
  | [] => none
  | [] :: rest => (popLeast rest).map fun (m, rest) => (m, [] :: rest)
  | (m :: run) :: rest =>
    match popLeast rest with
    | none => some (m, run :: rest)
    | some (least, rest') =>
      if least < m then some (least, (m :: run) :: rest') else some (m, run :: rest)

def mergeLoop : ℕ → List (List π) → List π
  | 0, _ => []
  | n + 1, sources =>
    match popLeast sources with
    | none => []
    | some (m, sources) => m :: mergeLoop n sources

def mergeOrderedRuns (runs : List (List π)) : List π := mergeLoop runs.flatten.length runs

structure OrderedSorter (π : Type) where
  runs : List (List π)
  items : List π

namespace OrderedSorter

def flush (s : OrderedSorter π) : OrderedSorter π :=
  if s.items = [] then s else ⟨s.runs ++ [s.items.insertionSort (· ≤ ·)], []⟩

def add (s : OrderedSorter π) (value : π) : OrderedSorter π :=
  let s := { s with items := s.items ++ [value] }
  if s.items.length < 256 then s else s.flush

end OrderedSorter

def mergeGroup : List (List π) → List π
  | [run] => run
  | runs => mergeOrderedRuns runs

def mergePass (runs : List (List π)) : List (List π) :=
  if runs = [] then [] else mergeGroup (runs.take 64) :: mergePass (runs.drop 64)
  termination_by runs.length
  decreasing_by
    have := length_pos_iff.mpr (by assumption : runs ≠ [])
    rw [length_drop]
    omega

theorem length_mergePass (runs : List (List π)) :
    64 * (mergePass runs).length ≤ runs.length + 63 := by
  fun_induction mergePass runs with
  | case1 => simp
  | case2 runs h ih =>
    have := length_pos_iff.mpr h
    simp only [length_cons, length_drop] at ih ⊢
    omega

def mergePasses (runs : List (List π)) : List π :=
  if 64 < runs.length then mergePasses (mergePass runs) else mergeGroup runs
  termination_by runs.length
  decreasing_by
    have := length_mergePass runs
    omega

def OrderedSorter.finish (s : OrderedSorter π) : List π := mergePasses s.flush.runs

def insertBounded (batchSize : ℕ) (last : π) (batch : List π) (m : π) : List π :=
  if m ≤ last then batch
  else
    let i := (batch.takeWhile (· < m)).length
    if i = batchSize then batch else (batch.take i ++ m :: batch.drop i).take batchSize

/-- What is not determined by the code: the order of the listing in each scan, whether the
visitor removes what it is given, and whether there is space for the runs. -/
structure Scan (π : Type) where
  listing : ℕ → Finset π → List π
  nodup : ∀ k present, (listing k present).Nodup
  mem_listing : ∀ k present m, m ∈ listing k present ↔ m ∈ present
  removes : π → Bool
  outOfSpace : Bool

/-- The visited material, from the batch `k` on, and `none` when the fuel does not suffice. -/
def scanBounded (scan : Scan π) : ℕ → ℕ → π → Finset π → Option (List π)
  | 0, _, _, _ => none
  | fuel + 1, k, last, present =>
    let batch := (scan.listing k present).foldl (insertBounded 128 last) []
    if batch.length < 128 then some batch
    else
      (scanBounded scan fuel (k + 1) (batch.foldl (fun _ m => m) last)
        (present.filter fun m => m ∉ batch ∨ scan.removes m = false)).map (batch ++ ·)

structure Generation (π : Type) [LinearOrder π] [OrderBot π] where
  materials : Finset π
  bot_notMem : ⊥ ∉ materials

def scanOrderedGenerationMaterials [OrderBot π] (scan : Scan π) (g : Generation π) :
    Option (List π) :=
  if scan.outOfSpace then scanBounded scan (g.materials.card + 1) 1 ⊥ g.materials
  else some ((scan.listing 0 g.materials).foldl OrderedSorter.add ⟨[], []⟩).finish

/-! ## The sorter -/

theorem popLeast_spec {sources : List (List π)} (hs : ∀ run ∈ sources, Sorted run) :
    match popLeast sources with
    | none => sources.flatten = []
    | some (m, rest) => (∀ a ∈ sources.flatten, m ≤ a) ∧
        (∀ run ∈ rest, Sorted run) ∧ (m :: rest.flatten).Perm sources.flatten := by
  induction sources with
  | nil => rfl
  | cons run sources ih =>
    have ih := ih fun r hr => hs r (.tail _ hr)
    cases run with
    | nil =>
      rw [popLeast]
      cases hpop : popLeast sources with
      | none | some => simpa [hpop] using ih
    | cons m run =>
      obtain ⟨hle, hrun⟩ := pairwise_cons.mp (hs _ (.head _))
      have hrest : ∀ r ∈ run :: sources, Sorted r := by
        rintro r (_ | ⟨_, hr⟩)
        · exact hrun
        · exact hs r (.tail _ hr)
      rw [popLeast]
      cases hpop : popLeast sources with
      | none =>
        rw [hpop] at ih
        exact ⟨by simpa [ih] using hle, hrest, .refl _⟩
      | some p =>
        obtain ⟨hleast, hsorted, hperm⟩ := hpop ▸ ih
        dsimp only
        by_cases hlt : p.1 < m
        · rw [if_pos hlt]
          refine ⟨fun a ha => ?_, ?_, perm_middle.symm.trans (hperm.append_left (m :: run))⟩
          · rw [flatten_cons, mem_append, mem_cons] at ha
            rcases ha with (rfl | ha) | ha
            · exact hlt.le
            · exact hlt.le.trans (hle a ha)
            · exact hleast a ha
          · rintro r (_ | ⟨_, hr⟩)
            · exact hs _ (.head _)
            · exact hsorted r hr
        · rw [if_neg hlt]
          refine ⟨fun a ha => ?_, hrest, .refl _⟩
          rw [flatten_cons, mem_append, mem_cons] at ha
          rcases ha with (rfl | ha) | ha
          · exact le_rfl
          · exact hle a ha
          · exact (not_lt.mp hlt).trans (hleast a ha)

theorem mergeLoop_spec {n : ℕ} {sources : List (List π)}
    (hn : sources.flatten.length = n) (hs : ∀ run ∈ sources, Sorted run) :
    Sorted (mergeLoop n sources) ∧ (mergeLoop n sources).Perm sources.flatten := by
  induction n generalizing sources with
  | zero =>
    rw [eq_nil_of_length_eq_zero hn]
    exact ⟨.nil, .refl _⟩
  | succ n ih =>
    have hpop := popLeast_spec hs
    rw [mergeLoop]
    split at hpop
    · next hnone =>
      rw [hpop] at hn
      cases hn
    · next m rest hsome =>
      obtain ⟨hle, hrest, hperm⟩ := hpop
      have hlength := hperm.length_eq
      obtain ⟨hsorted, hmerged⟩ := ih (by grind) hrest
      refine ⟨pairwise_cons.mpr ⟨fun a ha => ?_, hsorted⟩, (hmerged.cons m).trans hperm⟩
      exact hle a (hperm.mem_iff.mp (.tail _ (hmerged.mem_iff.mp ha)))

variable {runs : List (List π)}

theorem mergeGroup_spec (hs : ∀ run ∈ runs, Sorted run) :
    Sorted (mergeGroup runs) ∧ (mergeGroup runs).Perm runs.flatten := by
  rw [mergeGroup.eq_def]
  split
  · next run => exact ⟨hs run (.head _), by simp⟩
  · exact mergeLoop_spec rfl hs

theorem mergePass_spec (hs : ∀ run ∈ runs, Sorted run) :
    (∀ run ∈ mergePass runs, Sorted run) ∧ (mergePass runs).flatten.Perm runs.flatten := by
  fun_induction mergePass runs with
  | case1 => exact ⟨hs, .refl _⟩
  | case2 runs _ ih =>
    obtain ⟨hsorted, hgroup⟩ := mergeGroup_spec fun r hr => hs r (mem_of_mem_take hr)
    obtain ⟨hrest, hperm⟩ := ih fun r hr => hs r (mem_of_mem_drop hr)
    refine ⟨forall_mem_cons.mpr ⟨hsorted, hrest⟩, ?_⟩
    have h := hgroup.append hperm
    rwa [← flatten_append, take_append_drop] at h

theorem mergePasses_spec (hs : ∀ run ∈ runs, Sorted run) :
    Sorted (mergePasses runs) ∧ (mergePasses runs).Perm runs.flatten := by
  fun_induction mergePasses runs with
  | case1 runs _ ih =>
    obtain ⟨hsorted, hperm⟩ := mergePass_spec hs
    exact ⟨(ih hsorted).1, (ih hsorted).2.trans hperm⟩
  | case2 => exact mergeGroup_spec hs

namespace OrderedSorter

def Holds (s : OrderedSorter π) (l : List π) : Prop :=
  (∀ run ∈ s.runs, Sorted run) ∧ (s.runs.flatten ++ s.items).Perm l

variable {s : OrderedSorter π} {l : List π}

theorem Holds.flush (h : s.Holds l) : s.flush.Holds l ∧ s.flush.items = [] := by
  rw [OrderedSorter.flush]
  split
  · next hnil => exact ⟨h, hnil⟩
  · refine ⟨⟨?_, ?_⟩, rfl⟩
    · simpa [or_imp, forall_and] using ⟨h.1, s.items.pairwise_insertionSort (· ≤ ·)⟩
    · simpa using ((s.items.perm_insertionSort (· ≤ ·)).append_left _).trans h.2

theorem Holds.add (h : s.Holds l) (m : π) : (s.add m).Holds (l ++ [m]) := by
  have hadd : OrderedSorter.Holds { s with items := s.items ++ [m] } (l ++ [m]) :=
    ⟨h.1, by simpa using h.2.append_right [m]⟩
  rw [OrderedSorter.add]
  split
  · exact hadd
  · exact hadd.flush.1

theorem Holds.foldl_add (h : s.Holds l) (listing : List π) :
    (listing.foldl OrderedSorter.add s).Holds (l ++ listing) := by
  induction listing generalizing s l with
  | nil => simpa using h
  | cons m listing ih => simpa using ih (h.add m)

theorem Holds.finish (h : s.Holds l) : Sorted s.finish ∧ s.finish.Perm l := by
  obtain ⟨⟨hsorted, hperm⟩, hnil⟩ := h.flush
  obtain ⟨hs, hp⟩ := mergePasses_spec hsorted
  rw [hnil, append_nil] at hperm
  exact ⟨hs, hp.trans hperm⟩

end OrderedSorter

/-! ## The batches -/

theorem insertBounded_take {last m : π} (hm : last < m) (n : ℕ) (s : List π) :
    insertBounded n last (s.take n) m = (s.orderedInsert (· ≤ ·) m).take n := by
  rw [insertBounded, if_neg (not_le.mpr hm)]
  induction s generalizing n with
  | nil => cases n <;> simp
  | cons b s ih =>
    cases n with
    | zero => simp
    | succ n =>
      rw [orderedInsert_cons]
      split
      · next hle =>
        have hb : ¬ b < m := not_lt.mpr hle
        cases n <;> simp [hb, take_take]
      · next hle =>
        have hb : b < m := not_le.mp hle
        simp only [take_succ_cons, takeWhile_cons, hb, ← ih n]
        simp
        split <;> rfl

/-- A scan selects the first paths after the last one visited. -/
theorem foldl_insertBounded {n : ℕ} (last : π) (listing : List π) {s : List π} (hs : Sorted s) :
    ∃ t, listing.foldl (insertBounded n last) (s.take n) = t.take n ∧ Sorted t ∧
      t.Perm (listing.filter (last < ·) ++ s) := by
  induction listing generalizing s with
  | nil => exact ⟨s, rfl, hs, .refl _⟩
  | cons m listing ih =>
    by_cases hm : last < m
    · obtain ⟨t, ht, hsorted, hperm⟩ := ih (hs.orderedInsert m _)
      refine ⟨t, ?_, hsorted, hperm.trans ?_⟩
      · rw [foldl_cons, insertBounded_take hm, ht]
      · rw [filter_cons_of_pos (by simpa using hm)]
        exact ((perm_orderedInsert (· ≤ ·) m s).append_left _).trans perm_middle
    · obtain ⟨t, ht, hsorted, hperm⟩ := ih hs
      refine ⟨t, ?_, hsorted, ?_⟩
      · rw [foldl_cons, insertBounded, if_pos (not_lt.mp hm), ht]
      · rwa [filter_cons_of_neg (by simpa using hm)]

/-- The batches from `last` on visit what is present after it. -/
theorem scanBounded_eq (scan : Scan π) {s : List π} (hs : s.Pairwise (· < ·))
    {fuel k : ℕ} {last : π} {present : Finset π}
    (hpresent : ∀ m, m ∈ present ∧ last < m ↔ m ∈ s) (hfuel : s.length < fuel) :
    scanBounded scan fuel k last present = some s := by
  induction fuel generalizing s k last present with
  | zero => omega
  | succ fuel ih =>
    obtain ⟨t, ht, hsorted, hperm⟩ :=
      foldl_insertBounded (n := 128) last (scan.listing k present) .nil
    have hlisted : ((scan.listing k present).filter (last < ·)).Perm s :=
      (perm_ext_iff_of_nodup ((scan.nodup k present).filter _) (hs.imp ne_of_lt)).mpr
        fun m => by simp [scan.mem_listing, hpresent]
    rw [append_nil] at hperm
    obtain rfl : t = s := (hperm.trans hlisted).eq_of_pairwise' hsorted (hs.imp le_of_lt)
    rw [take_nil] at ht
    simp only [scanBounded, ht]
    split
    · next hlt => rw [take_of_length_le (by grind)]
    · next hlt =>
      have hlength : 127 < t.length := by grind
      obtain ⟨init, m, rest, rfl, hinit⟩ : ∃ init m rest, t = init ++ m :: rest ∧
          init.length = 127 := ⟨t.take 127, t[127], t.drop 128, by simp, by grind⟩
      have htake : (init ++ m :: rest).take 128 = init ++ [m] := by
        rw [append_cons]
        exact take_left' (by simp [hinit])
      have hnext : (init ++ [m]).foldl (fun _ m => m) last = m := by simp
      obtain ⟨-, hrest, hbefore⟩ := pairwise_append.mp hs
      obtain ⟨hafter, hrest⟩ := pairwise_cons.mp hrest
      -- what is present after the batch is what comes after its last path
      have hleft : ∀ a, a ∈ present.filter (fun a => a ∉ init ++ [m] ∨ scan.removes a = false) ∧
          m < a ↔ a ∈ rest := by
        intro a
        have ha := hpresent a
        have hm := hpresent m
        rw [Finset.mem_filter]
        grind
      rw [htake, hnext, ih hrest hleft (by grind), Option.map_some, append_assoc,
        singleton_append]

/-- Whatever the order of the listings, whether the visitor removes what it is given, and
whether there is space for the runs, the scan visits every material once, by increasing path. -/
theorem scanOrderedGenerationMaterials_eq [OrderBot π] (scan : Scan π) (g : Generation π) :
    scanOrderedGenerationMaterials scan g = some (g.materials.sort (· ≤ ·)) := by
  rw [scanOrderedGenerationMaterials]
  split
  · refine scanBounded_eq scan g.materials.sortedLT_sort.pairwise (fun m => ?_) (by simp)
    rw [Finset.mem_sort]
    exact ⟨fun h => h.1, fun h => ⟨h, bot_lt_iff_ne_bot.mpr fun he => g.bot_notMem (he ▸ h)⟩⟩
  · have h : OrderedSorter.Holds (⟨[], []⟩ : OrderedSorter π) [] := ⟨by simp, .refl _⟩
    obtain ⟨hsorted, hperm⟩ := (h.foldl_add (scan.listing 0 g.materials)).finish
    have hlisted : (scan.listing 0 g.materials).Perm (g.materials.sort (· ≤ ·)) :=
      (perm_ext_iff_of_nodup (scan.nodup 0 g.materials) (g.materials.sort_nodup _)).mpr
        fun m => by rw [scan.mem_listing, Finset.mem_sort]
    rw [(hperm.trans hlisted).eq_of_pairwise' hsorted (g.materials.pairwise_sort _)]

/-- A directory that lists its names backwards, with no space for runs. -/
def backwards : Scan ℕ where
  listing _ present := (present.sort (· ≤ ·)).reverse
  nodup _ present := nodup_reverse.mpr (present.sort_nodup _)
  mem_listing _ _ _ := by simp
  removes _ := true
  outOfSpace := true

theorem scanOrderedGenerationMaterials_eq_backwards :
    ∃ l, scanOrderedGenerationMaterials backwards ⟨{3, 1, 2}, by decide⟩ = some l ∧
      Sorted l ∧ l.length = 3 :=
  ⟨_, scanOrderedGenerationMaterials_eq _ _, Finset.pairwise_sort _ _, by simp⟩

end Scenery.Storage
