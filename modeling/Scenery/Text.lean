import Mathlib.Data.List.DropRight
import Mathlib.Data.String.Basic

/-!
# Text helpers of the Go standard library

The few functions of `strings`, `fmt` and `path/filepath` whose results the modelled code
depends on.
-/

namespace Scenery

open List

def isSpace (c : Char) : Bool :=
  c.toNat ∈ [0x09, 0x0a, 0x0b, 0x0c, 0x0d, 0x20, 0x85, 0xa0, 0x1680, 0x2028, 0x2029, 0x202f,
    0x205f, 0x3000] || (0x2000 ≤ c.toNat && c.toNat ≤ 0x200a)

def trimSpace (s : String) : String :=
  String.ofList ((s.toList.dropWhile isSpace).rdropWhile isSpace)

theorem trimSpace_eq_self {s : String} (hhead : ∀ c ∈ s.toList.head?, isSpace c = false)
    (hlast : ∀ c ∈ s.toList.getLast?, isSpace c = false) : trimSpace s = s := by
  have hdrop : s.toList.dropWhile isSpace = s.toList := by
    cases hs : s.toList with
    | nil => rfl
    | cons c rest =>
      have hc : isSpace c = false := hhead c (by rw [hs]; rfl)
      rw [dropWhile_cons, hc]
      rfl
  have hrdrop : s.toList.rdropWhile isSpace = s.toList := by
    refine rdropWhile_eq_self_iff.mpr fun hne => ?_
    have hc := hlast _ (getLast?_eq_getLast_of_ne_nil hne)
    simp [hc]
  rw [trimSpace, hdrop, hrdrop, String.ofList_toList]

theorem trimSpace_trimSpace (s : String) : trimSpace (trimSpace s) = trimSpace s := by
  refine trimSpace_eq_self (fun c hc => ?_) fun c hc => ?_
  · -- what is left is a prefix of a list that does not start with a space
    rw [trimSpace, String.toList_ofList] at hc
    have hpre := rdropWhile_prefix isSpace (s.toList.dropWhile isSpace)
    obtain ⟨rest, hrest⟩ := head?_eq_some_iff.mp hc
    rw [hrest] at hpre
    obtain ⟨more, hmore⟩ := hpre
    have hhead := head?_dropWhile_not isSpace s.toList
    rw [← hmore, cons_append, head?_cons] at hhead
    exact Bool.eq_false_iff.mpr (by simpa using hhead)
  · rw [trimSpace, String.toList_ofList] at hc
    obtain ⟨hne, rfl⟩ := mem_getLast?_eq_getLast hc
    exact Bool.eq_false_iff.mpr (rdropWhile_last_not isSpace _ hne)

theorem isSpace_of_isDigit {c : Char} (h : c.isDigit = true) : isSpace c = false := by
  have hrange : 48 ≤ c.toNat ∧ c.toNat ≤ 57 := by
    simpa [Char.isDigit, UInt32.le_iff_toNat_le] using h
  refine Bool.eq_false_iff.mpr fun hspace => ?_
  simp only [isSpace, mem_cons, not_mem_nil, or_false, Bool.or_eq_true,
    Bool.and_eq_true, decide_eq_true_eq] at hspace
  omega

theorem trimSpace_append_toDigits {s : String} {front : List Char} (n : ℕ)
    (hs : s.toList = front ++ Nat.toDigits 10 n) (hfront : ∀ c ∈ front.head?, isSpace c = false) :
    trimSpace s = s := by
  have hdigit : ∀ c ∈ Nat.toDigits 10 n, isSpace c = false := fun c hc =>
    isSpace_of_isDigit (Nat.isDigit_of_mem_toDigits (by decide) (by decide) hc)
  refine trimSpace_eq_self (fun c hc => ?_) fun c hc => ?_
  · rw [hs] at hc
    cases front with
    | nil => exact hdigit c (mem_of_head? hc)
    | cons x rest => exact hfront c hc
  · rw [hs, getLast?_append_of_ne_nil _ Nat.toDigits_ne_nil] at hc
    exact hdigit c (mem_of_getLast? hc)

def pad6 (n : ℕ) : String :=
  String.ofList (List.replicate (6 - (Nat.toDigits 10 n).length) '0' ++ Nat.toDigits 10 n)

theorem pad6_injective : Function.Injective pad6 := by
  intro m n h
  have hl := String.ofList_inj.mp h
  have hval : ∀ k : ℕ, Nat.ofDigitChars 10
      (List.replicate (6 - (Nat.toDigits 10 k).length) '0' ++ Nat.toDigits 10 k) 0 = k := by
    intro k
    rw [Nat.ofDigitChars_append, Nat.ofDigitChars_replicate_zero, Nat.mul_zero,
      Nat.ofDigitChars_ten_toDigits]
  rw [← hval m, hl, hval n]

example : pad6 12 = "000012" := by decide

theorem intercalate_append (sep : List Char) {ys : List (List Char)} (hys : ys ≠ []) :
    ∀ {xs : List (List Char)}, xs ≠ [] →
      sep.intercalate (xs ++ ys) = sep.intercalate xs ++ (sep ++ sep.intercalate ys)
  | [], h => absurd rfl h
  | [x], _ => by
    obtain ⟨y, rest, rfl⟩ := exists_cons_of_ne_nil hys
    rw [singleton_append, intercalate_cons_cons, intercalate_singleton,
      append_assoc]
  | x :: x' :: rest, _ => by
    have ih : sep.intercalate (x' :: rest ++ ys) =
        sep.intercalate (x' :: rest) ++ (sep ++ sep.intercalate ys) :=
      intercalate_append sep hys (cons_ne_nil _ _)
    rw [cons_append, cons_append, intercalate_cons_cons,
      intercalate_cons_cons, ← cons_append, ih]
    simp only [append_assoc]

theorem intercalate_lt_append {sep : String} (hsep : sep ≠ "") {xs ys : List String}
    (hxs : xs ≠ []) (hys : ys ≠ []) : sep.intercalate xs < sep.intercalate (xs ++ ys) := by
  rw [String.lt_iff_toList_lt, String.toList_intercalate, String.toList_intercalate,
    map_append, intercalate_append _ (by simpa using hys) (by simpa using hxs)]
  have hrest : sep.toList ++ sep.toList.intercalate (ys.map String.toList) ≠ [] :=
    fun h => hsep (String.toList_eq_nil_iff.mp (append_eq_nil_iff.mp h).1)
  obtain ⟨c, rest, hc⟩ := exists_cons_of_ne_nil hrest
  rw [hc]
  have hlex : ∀ l : List Char, List.Lex (· < ·) (l ++ []) (l ++ c :: rest) :=
    List.Lex.append_left _ .nil
  simpa using hlex (sep.toList.intercalate (xs.map String.toList))

def cleanStep (rooted : Bool) (stack : List (List Char)) (part : List Char) : List (List Char) :=
  if part = [] ∨ part = ['.'] then stack
  else if part = ['.', '.'] then
    match stack with
    | [] => if rooted then [] else [part]
    | top :: rest => if top = ['.', '.'] then part :: top :: rest else rest
  else part :: stack

def clean (s : String) : String :=
  let rooted : Bool := s.toList.head? = some '/'
  let parts := ((s.toList.splitOn '/').foldl (cleanStep rooted) []).reverse
  let body := String.ofList (List.intercalate ['/'] parts)
  if rooted then "/" ++ body else if parts = [] then "." else body

def base (s : String) : String :=
  match ((s.toList.splitOn '/').filter fun part => !part.isEmpty).getLast? with
  | some part => String.ofList part
  | none => if s = "" then "." else "/"

end Scenery
