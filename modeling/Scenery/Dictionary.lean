import Mathlib.Data.List.Basic
import Mathlib.Data.Nat.Notation

/-!
# Dictionaries

An association list with the operations of a directory: look up a name, write an entry, remove
one.
-/

namespace Scenery

open List

abbrev Dictionary (κ β : Type) := List (κ × β)

namespace Dictionary

variable {κ β : Type} [DecidableEq κ]

def get (d : Dictionary κ β) (k : κ) : Option β := (d.find? fun e => e.1 = k).map Prod.snd

def erase (d : Dictionary κ β) (k : κ) : Dictionary κ β := d.filter fun e => e.1 ≠ k

def set (d : Dictionary κ β) (k : κ) (b : β) : Dictionary κ β := (k, b) :: d.erase k

@[simp] theorem get_erase_self (d : Dictionary κ β) (k : κ) : (d.erase k).get k = none := by
  unfold get erase
  rw [find?_eq_none.mpr]
  · rfl
  · intro e he
    simpa using (mem_filter.mp he).2

theorem get_erase_ne (d : Dictionary κ β) {k k' : κ} (h : k' ≠ k) :
    (d.erase k).get k' = d.get k' := by
  unfold get erase
  congr 1
  induction d with
  | nil => rfl
  | cons e d ih =>
    by_cases hk : e.1 = k
    · have hk' : e.1 ≠ k' := fun h' => h (h'.symm.trans hk)
      rw [filter_cons_of_neg (by simp [hk]), ih, find?_cons_of_neg (by simp [hk'])]
    · rw [filter_cons_of_pos (by simp [hk]), find?_cons, find?_cons, ih]

@[simp] theorem get_set_self (d : Dictionary κ β) (k : κ) (b : β) : (d.set k b).get k = some b := by
  simp [get, set]

theorem get_set_ne (d : Dictionary κ β) {k k' : κ} (b : β) (h : k' ≠ k) :
    (d.set k b).get k' = d.get k' := by
  rw [← get_erase_ne d h, set, get, find?_cons_of_neg (by simp [h.symm])]
  rfl

theorem exists_fresh (d : Dictionary ℕ β) (n : ℕ) : ∃ k, n < k ∧ d.get k = none := by
  induction d generalizing n with
  | nil => exact ⟨n + 1, Nat.lt_succ_self n, rfl⟩
  | cons e d ih =>
    obtain ⟨k, hk, hget⟩ := ih (max n e.1)
    have hne : e.1 ≠ k := by omega
    refine ⟨k, by omega, ?_⟩
    rw [get, find?_cons_of_neg (by simp [hne])]
    exact hget

end Dictionary

end Scenery
