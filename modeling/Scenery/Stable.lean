import Mathlib.Data.List.Basic
import Mathlib.Data.List.Induction

/-!
# Stable sorting

A stable sort keeps the order of elements that compare equal.
-/

namespace Scenery

open List

variable {α : Type}

def insertAfter (le : α → α → Bool) (x : α) : List α → List α
  | [] => [x]
  | y :: l => if le y x then y :: insertAfter le x l else x :: y :: l

def stableSort (le : α → α → Bool) (l : List α) : List α :=
  l.foldl (fun sorted x => insertAfter le x sorted) []

section

variable {le : α → α → Bool} {x : α} {l : List α}

theorem insertAfter_perm : (insertAfter le x l).Perm (x :: l) := by
  induction l with
  | nil => exact .refl _
  | cons y l ih =>
    rw [insertAfter]
    split
    · exact (ih.cons y).trans (.swap x y l)
    · exact .refl _

theorem stableSort_append_singleton :
    stableSort le (l ++ [x]) = insertAfter le x (stableSort le l) := by
  simp [stableSort, foldl_append]

theorem stableSort_perm : (stableSort le l).Perm l := by
  induction l using List.reverseRecOn with
  | nil => exact .refl _
  | append_singleton l x ih =>
    rw [stableSort_append_singleton]
    exact (insertAfter_perm.trans (ih.cons x)).trans (perm_append_singleton x l).symm

theorem stableSort_eq_self (h : l.Pairwise (le · ·)) : stableSort le l = l := by
  induction l using List.reverseRecOn with
  | nil => rfl
  | append_singleton l x ih =>
    obtain ⟨hl, -, hx⟩ := pairwise_append.mp h
    rw [stableSort_append_singleton, ih hl]
    clear h ih hl
    induction l with
    | nil => rfl
    | cons y l ih =>
      have hy : le y x = true := hx y (by simp) x (by simp)
      rw [insertAfter, if_pos hy, ih fun z hz => hx z (by simp [hz])]
      rfl

variable (htotal : ∀ x y, le x y ∨ le y x) (htrans : ∀ x y z, le x y → le y z → le x z)
include htotal htrans

theorem pairwise_insertAfter (h : l.Pairwise (le · ·)) :
    (insertAfter le x l).Pairwise (le · ·) := by
  induction l with
  | nil => exact pairwise_singleton _ _
  | cons y l ih =>
    obtain ⟨hy, hl⟩ := pairwise_cons.mp h
    rw [insertAfter]
    split
    · next hyx =>
      refine pairwise_cons.mpr ⟨fun z hz => ?_, ih hl⟩
      rcases mem_cons.mp (insertAfter_perm.subset hz) with rfl | hz
      · exact hyx
      · exact hy z hz
    · next hyx =>
      have hxy : le x y = true := (htotal x y).resolve_right hyx
      refine pairwise_cons.mpr ⟨fun z hz => ?_, h⟩
      rcases mem_cons.mp hz with rfl | hz
      · exact hxy
      · exact htrans x y z hxy (hy z hz)

theorem pairwise_stableSort : (stableSort le l).Pairwise (le · ·) := by
  induction l using List.reverseRecOn with
  | nil => exact .nil
  | append_singleton l x ih =>
    rw [stableSort_append_singleton]
    exact pairwise_insertAfter htotal htrans ih

omit htotal in
theorem filter_insertAfter (h : l.Pairwise (le · ·)) (p : α → Bool) :
    (insertAfter le x l).filter p =
      if p x then insertAfter le x (l.filter p) else l.filter p := by
  induction l with
  | nil => cases hp : p x <;> simp [insertAfter, hp]
  | cons y l ih =>
    obtain ⟨hy, hl⟩ := pairwise_cons.mp h
    rw [insertAfter]
    split
    · next hyx =>
      simp only [filter_cons, ih hl]
      split_ifs <;> simp [insertAfter, hyx]
    · next hyx =>
      -- what follows a greater element is greater
      have hgreater : ∀ z ∈ (y :: l).filter p, ¬ le z x := by
        intro z hz hzx
        rcases mem_cons.mp (mem_of_mem_filter hz) with rfl | hz
        · exact hyx hzx
        · exact hyx (htrans y z x (hy z hz) hzx)
      rw [filter_cons]
      split
      · cases hf : (y :: l).filter p with
        | nil => rfl
        | cons z rest => rw [insertAfter, if_neg (hgreater z (by simp [hf]))]
      · rfl

theorem filter_stableSort (p : α → Bool) :
    (stableSort le l).filter p = stableSort le (l.filter p) := by
  induction l using List.reverseRecOn with
  | nil => rfl
  | append_singleton l x ih =>
    rw [stableSort_append_singleton, filter_insertAfter htrans
      (pairwise_stableSort htotal htrans), ih, filter_append]
    cases hp : p x
    · simp [hp]
    · simp [hp, stableSort_append_singleton]

theorem stableSort_stableSort_append (x : α) :
    stableSort le (stableSort le l ++ [x]) = stableSort le (l ++ [x]) := by
  rw [stableSort_append_singleton, stableSort_append_singleton,
    stableSort_eq_self (pairwise_stableSort htotal htrans)]

end

end Scenery
