import Mathlib.Algebra.Group.Int.Defs
import Mathlib.Algebra.Group.Nat.Defs
import Mathlib.Data.Nat.Notation
import Mathlib.Data.Int.Notation
import Mathlib.Data.List.Induction
import Mathlib.Tactic.SplitIfs

/-!
# Octets

Numbers in big-endian order, 64-bit integers in two's complement, and lowercase hexadecimal text.
-/

namespace Scenery

open List

abbrev Octets := List UInt8

namespace Octets

def ascii (s : String) : Octets := s.toList.map fun c => UInt8.ofNat c.toNat

def ofNumber : ℕ → ℕ → Octets
  | 0, _ => []
  | width + 1, n => ofNumber width (n / 256) ++ [UInt8.ofNat n]

def number (o : Octets) : ℕ := o.foldl (fun n b => n * 256 + b.toNat) 0

@[simp] theorem length_ofNumber (width n : ℕ) : (ofNumber width n).length = width := by
  induction width generalizing n with
  | zero => rfl
  | succ width ih => simp [ofNumber, ih]

theorem number_append_singleton (o : Octets) (b : UInt8) :
    number (o ++ [b]) = number o * 256 + b.toNat := by
  simp [number]

variable {n : ℕ}

theorem number_ofNumber {width : ℕ} (h : n < 256 ^ width) : number (ofNumber width n) = n := by
  induction width generalizing n with
  | zero =>
    rw [Nat.lt_one_iff.mp h]
    rfl
  | succ width ih =>
    have hdiv : n / 256 < 256 ^ width := by
      rw [Nat.div_lt_iff_lt_mul (by decide)]
      rwa [Nat.pow_succ] at h
    rw [ofNumber, number_append_singleton, ih hdiv, UInt8.toNat_ofNat']
    exact Nat.div_add_mod' n 256

variable {o : Octets}

theorem ofNumber_number {width : ℕ} (h : o.length = width) : ofNumber width (number o) = o := by
  induction o using List.reverseRecOn generalizing width with
  | nil =>
    obtain rfl : 0 = width := h
    rfl
  | append_singleton o b ih =>
    rw [length_append, length_singleton] at h
    subst h
    have hb : b.toNat < 256 := UInt8.toNat_lt b
    have hdiv : (number o * 256 + b.toNat) / 256 = number o := by omega
    have hlast : UInt8.ofNat (number o * 256 + b.toNat) = b := by
      apply UInt8.toNat_inj.mp
      rw [UInt8.toNat_ofNat']
      omega
    rw [number_append_singleton, ofNumber, hdiv, ih rfl, hlast]

def unsigned (z : ℤ) : ℕ := (z % 2 ^ 64).toNat

def signed (n : ℕ) : ℤ := if n < 2 ^ 63 then n else n - 2 ^ 64

def Int64 (z : ℤ) : Prop := -2 ^ 63 ≤ z ∧ z < 2 ^ 63

instance (z : ℤ) : Decidable (Int64 z) := inferInstanceAs (Decidable (_ ∧ _))

theorem unsigned_lt (z : ℤ) : unsigned z < 256 ^ 8 := by
  unfold unsigned
  omega

theorem signed_unsigned {z : ℤ} (h : Int64 z) : signed (unsigned z) = z := by
  unfold signed unsigned
  obtain ⟨hlow, hhigh⟩ := h
  split_ifs <;> omega

def hexDigit (n : ℕ) : UInt8 := UInt8.ofNat (if n < 10 then 48 + n else 87 + n)

def hexValue (c : UInt8) : Option ℕ :=
  if 48 ≤ c.toNat ∧ c.toNat ≤ 57 then some (c.toNat - 48)
  else if 97 ≤ c.toNat ∧ c.toNat ≤ 102 then some (c.toNat - 87)
  else if 65 ≤ c.toNat ∧ c.toNat ≤ 70 then some (c.toNat - 55)
  else none

def isCapital (c : UInt8) : Bool := 65 ≤ c.toNat ∧ c.toNat ≤ 90

def hexEncode : Octets → Octets
  | [] => []
  | b :: rest => hexDigit (b.toNat / 16) :: hexDigit (b.toNat % 16) :: hexEncode rest

def hexDecode : Octets → Option Octets
  | [] => some []
  | [_] => none
  | c :: d :: rest =>
    match hexValue c, hexValue d, hexDecode rest with
    | some high, some low, some o => some (UInt8.ofNat (high * 16 + low) :: o)
    | _, _, _ => none

@[simp] theorem length_hexEncode (o : Octets) : (hexEncode o).length = 2 * o.length := by
  induction o with
  | nil => rfl
  | cons b rest ih =>
    simp only [hexEncode, length_cons, ih]
    omega

theorem toNat_hexDigit (h : n < 16) : (hexDigit n).toNat = if n < 10 then 48 + n else 87 + n := by
  unfold hexDigit
  rw [UInt8.toNat_ofNat']
  split_ifs <;> omega

theorem hexValue_hexDigit (h : n < 16) : hexValue (hexDigit n) = some n := by
  unfold hexValue
  rw [toNat_hexDigit h]
  split_ifs <;> first | omega | exact congrArg some (by omega)

variable {c : UInt8}

theorem hexDecode_cons_cons {d : UInt8} {rest : Octets} (h : hexDecode (c :: d :: rest) = some o) :
    ∃ high low o', hexValue c = some high ∧ hexValue d = some low ∧ hexDecode rest = some o' ∧
      o = UInt8.ofNat (high * 16 + low) :: o' := by
  unfold hexDecode at h
  split at h
  · rename_i high low o' hc hd hrest
    exact ⟨high, low, o', hc, hd, hrest, (Option.some.inj h).symm⟩
  · cases h

theorem hexDecode_hexEncode (o : Octets) : hexDecode (hexEncode o) = some o := by
  induction o with
  | nil => rfl
  | cons b rest ih =>
    have hb : b.toNat < 256 := UInt8.toNat_lt b
    rw [hexEncode, hexDecode, hexValue_hexDigit (by omega), hexValue_hexDigit (by omega), ih]
    have hjoin : b.toNat / 16 * 16 + b.toNat % 16 = b.toNat := Nat.div_add_mod' _ _
    simp only [hjoin, UInt8.ofNat_toNat]

theorem hexDigit_of_hexValue (hc : isCapital c = false)
    (h : hexValue c = some n) : n < 16 ∧ hexDigit n = c := by
  have hcap : ¬ (65 ≤ c.toNat ∧ c.toNat ≤ 90) := of_decide_eq_false hc
  have hn : n < 16 ∧ (if n < 10 then 48 + n else 87 + n) = c.toNat := by
    unfold hexValue at h
    split_ifs at h with hdigit hsmall hlarge
    · cases h
      refine ⟨by omega, ?_⟩
      rw [if_pos (by omega)]
      omega
    · cases h
      refine ⟨by omega, ?_⟩
      rw [if_neg (by omega)]
      omega
    · omega
  refine ⟨hn.1, ?_⟩
  rw [hexDigit, hn.2, UInt8.ofNat_toNat]

theorem hexEncode_of_hexDecode : ∀ {text o : Octets}, (∀ c ∈ text, isCapital c = false) →
    hexDecode text = some o → text = hexEncode o
  | [], o, _, h => by
    cases h
    rfl
  | [_], _, _, h => by cases h
  | c :: d :: rest, o, hcap, h => by
    obtain ⟨high, low, o', hc, hd, hrest, rfl⟩ := hexDecode_cons_cons h
    obtain ⟨hhigh, hdigit⟩ := hexDigit_of_hexValue (hcap c mem_cons_self) hc
    obtain ⟨hlow, hdigit'⟩ := hexDigit_of_hexValue
      (hcap d (mem_cons_of_mem _ mem_cons_self)) hd
    have hcap' : ∀ x ∈ rest, isCapital x = false := fun x hx =>
      hcap x (mem_cons_of_mem _ (mem_cons_of_mem _ hx))
    have hbyte : (UInt8.ofNat (high * 16 + low)).toNat = high * 16 + low := by
      rw [UInt8.toNat_ofNat']
      omega
    have hdiv : (high * 16 + low) / 16 = high := by omega
    have hmod : (high * 16 + low) % 16 = low := by omega
    rw [hexEncode, hbyte, hdiv, hmod, hdigit, hdigit', ← hexEncode_of_hexDecode hcap' hrest]

theorem mem_hexEncode (h : c ∈ hexEncode o) :
    (48 ≤ c.toNat ∧ c.toNat ≤ 57) ∨ (97 ≤ c.toNat ∧ c.toNat ≤ 102) := by
  induction o with
  | nil => cases h
  | cons b rest ih =>
    have hb : b.toNat < 256 := UInt8.toNat_lt b
    have hdigit : ∀ n < 16, (48 ≤ (hexDigit n).toNat ∧ (hexDigit n).toNat ≤ 57) ∨
        (97 ≤ (hexDigit n).toNat ∧ (hexDigit n).toNat ≤ 102) := by
      intro n hn
      rw [toNat_hexDigit hn]
      split_ifs <;> omega
    rcases mem_cons.mp h with rfl | h
    · exact hdigit _ (by omega)
    · rcases mem_cons.mp h with rfl | h
      · exact hdigit _ (by omega)
      · exact ih h

theorem isCapital_of_mem_hexEncode (h : c ∈ hexEncode o) : isCapital c = false := by
  have hdigit := mem_hexEncode h
  simp only [isCapital, decide_eq_false_iff_not]
  omega

end Octets

end Scenery
