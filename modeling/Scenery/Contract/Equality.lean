import Mathlib.Data.Fintype.EquivFin
import Mathlib.Data.Rat.Defs

/-!
# Equality of validation values

`contractValidationEqual` of `internal/contract/contract_validation_eval.go` compares two maps by
their sizes and by a lookup in the right one, which gives `nil` for a missing key.
-/

namespace Scenery.Contract

/-- A list has its items by index, a map its values by key. -/
inductive ValidationValue where
  | null
  | bool (b : Bool)
  | string (s : String)
  | number (q : ℚ)
  | list (length : ℕ) (item : Fin length → ValidationValue)
  | map (keys : Finset String) (value : keys → ValidationValue)

namespace ValidationValue

variable {left right : ValidationValue}

def lookup (keys : Finset String) (value : keys → ValidationValue) (key : String) :
    ValidationValue :=
  if h : key ∈ keys then value ⟨key, h⟩ else null

def contractValidationEqual : ValidationValue → ValidationValue → Bool
  | number a, number b => a = b
  | list m a, list n b =>
    if h : m = n then ∀ i, contractValidationEqual (a i) (b (i.cast h)) else false
  | map s a, map t b =>
    s.card = t.card ∧ ∀ key, contractValidationEqual (a key) (lookup t b key)
  -- `reflect.DeepEqual`
  | null, null => true
  | bool a, bool b => a = b
  | string a, string b => a = b
  | _, _ => false

def NoNullMember : ValidationValue → Prop
  | list _ a => ∀ i, (a i).NoNullMember
  | map _ a => ∀ key, a key ≠ null ∧ (a key).NoNullMember
  | _ => True

theorem equal_refl (v : ValidationValue) : contractValidationEqual v v = true := by
  induction v with
  | list n a ih => simp [contractValidationEqual, ih]
  | map keys a ih => simp [contractValidationEqual, lookup, ih]
  | _ => simp [contractValidationEqual]

theorem eq_null_of_equal (h : contractValidationEqual left null = true) : left = null := by
  cases left with
  | null => rfl
  | _ => simp [contractValidationEqual] at h

theorem eq_of_equal (hnull : left.NoNullMember) (h : contractValidationEqual left right = true) :
    left = right := by
  induction left generalizing right with
  | list m a ih =>
    cases right with
    | list n b =>
      simp only [contractValidationEqual] at h
      split at h
      · rename_i hlength
        subst hlength
        congr 1
        funext i
        exact ih i (hnull i) (of_decide_eq_true h i)
      · cases h
    | _ => simp [contractValidationEqual] at h
  | map s a ih =>
    cases right with
    | map t b =>
      obtain ⟨hcard, hall⟩ := of_decide_eq_true h
      -- a key that is missing on the right would have the value null on the left
      have hsub : s ⊆ t := by
        intro key hkey
        by_contra hmissing
        have hvalue := hall ⟨key, hkey⟩
        rw [lookup, dif_neg hmissing] at hvalue
        exact (hnull ⟨key, hkey⟩).1 (eq_null_of_equal hvalue)
      obtain rfl := Finset.eq_of_subset_of_card_le hsub hcard.ge
      congr 1
      funext key
      have hvalue := hall key
      rw [lookup, dif_pos key.2] at hvalue
      exact ih key (hnull key).2 hvalue
    | _ => simp [contractValidationEqual] at h
  | _ => cases right <;> simp_all [contractValidationEqual]

/-- A value with a null member in a map equals a value it is not: the member is replaced by one
under a key the map does not have. -/
theorem exists_equal_ne (hnull : ¬ left.NoNullMember) :
    ∃ right, contractValidationEqual left right = true ∧ left ≠ right := by
  induction left with
  | list n a ih =>
    obtain ⟨i, hi⟩ := not_forall.mp hnull
    obtain ⟨v, hequal, hne⟩ := ih i hi
    refine ⟨list n (Function.update a i v), ?_, fun heq => hne ?_⟩
    · have hitem : ∀ j, contractValidationEqual (a j) (Function.update a i v j) = true := by
        intro j
        rcases eq_or_ne j i with rfl | hj
        · rwa [Function.update_self]
        · rw [Function.update_of_ne hj]
          exact equal_refl _
      simpa [contractValidationEqual] using hitem
    · rw [eq_of_heq (list.inj heq).2, Function.update_self]
  | map keys a ih =>
    obtain ⟨key, hkey⟩ := not_forall.mp hnull
    by_cases hvalue : a key = null
    · obtain ⟨fresh, hfresh⟩ := Infinite.exists_notMem_finset keys
      refine ⟨map (insert fresh (keys.erase key)) fun k => lookup keys a k, ?_, fun heq => ?_⟩
      · refine decide_eq_true ⟨?_, fun k => ?_⟩
        · rw [Finset.card_insert_of_notMem fun h => hfresh (Finset.mem_of_mem_erase h),
            Finset.card_erase_add_one key.2]
        · rcases eq_or_ne k key with rfl | hk
          · have hmissing : k.1 ∉ insert fresh (keys.erase k) := by
              simp only [Finset.mem_insert, Finset.mem_erase, ne_eq, not_true, false_and, or_false]
              exact fun h => hfresh (h ▸ k.2)
            rw [lookup, dif_neg hmissing, hvalue]
            rfl
          · have hmem : k.1 ∈ insert fresh (keys.erase key) :=
              Finset.mem_insert_of_mem (Finset.mem_erase.mpr ⟨fun h => hk (Subtype.ext h), k.2⟩)
            rw [lookup, dif_pos hmem, lookup, dif_pos k.2]
            exact equal_refl _
      · rw [(map.inj heq).1] at hfresh
        exact hfresh (Finset.mem_insert_self ..)
    · obtain ⟨v, hequal, hne⟩ := ih key fun h => hkey ⟨hvalue, h⟩
      refine ⟨map keys (Function.update a key v), ?_, fun heq => hne ?_⟩
      · refine decide_eq_true ⟨rfl, fun k => ?_⟩
        rw [lookup, dif_pos k.2]
        rcases eq_or_ne k key with rfl | hk
        · rwa [Function.update_self]
        · rw [Function.update_of_ne hk]
          exact equal_refl _
      · rw [eq_of_heq (map.inj heq).2, Function.update_self]
  | _ => exact absurd trivial hnull

/-- **When validation equality is an equivalence.** It is reflexive. A value is equal to exactly
itself, and equality with it is symmetric and transitive, if and only if no map in it has a null
member. -/
theorem contractValidationEqual_equivalence (left : ValidationValue) :
    contractValidationEqual left left = true ∧
      ((∀ right, (contractValidationEqual left right = true ↔ left = right) ∧
        (contractValidationEqual left right = true → contractValidationEqual right left = true) ∧
        ∀ other, contractValidationEqual left right = true →
          contractValidationEqual right other = true →
            contractValidationEqual left other = true) ↔ left.NoNullMember) := by
  refine ⟨equal_refl left, fun h => ?_,
    fun hnull right => ⟨⟨eq_of_equal hnull, ?_⟩, fun h => ?_, ?_⟩⟩
  · by_contra hnull
    obtain ⟨right, hequal, hne⟩ := exists_equal_ne hnull
    exact hne ((h right).1.mp hequal)
  · rintro rfl
    exact equal_refl left
  · rw [eq_of_equal hnull h]
    exact equal_refl right
  · intro other h hother
    rw [eq_of_equal hnull h]
    exact hother

def member (key : String) (v : ValidationValue) : ValidationValue := map {key} fun _ => v

/-- A map with a null member equals a map without its key, which does not equal it. -/
theorem contractValidationEqual_asymmetric :
    contractValidationEqual (member "a" null) (member "b" (bool true)) = true ∧
      contractValidationEqual (member "b" (bool true)) (member "a" null) = false := by
  decide

end ValidationValue

end Scenery.Contract
