import Mathlib.Data.Int.Notation
import Mathlib.Data.List.Basic

/-!
# Concrete syntax

`internal/scn/cst.go`: the tokens of the lexer are completed by the source between them. Kinds and
ranges are those of `concreteTokenKind`, `byteRange` and `ConvertRange`.
-/

namespace Scenery.Syntax

open List

/-- A token of the lexer, with the offsets of its range. -/
structure Token (τ : Type) where
  type : τ
  bytes : List UInt8
  start : ℤ
  stop : ℤ

structure ConcreteToken (ρ : Type) where
  kind : String
  bytes : List UInt8
  range : ρ

variable {τ ρ : Type}

def Token.first (t : Token τ) (cursor sourceLength : ℕ) : ℕ :=
  (min (max t.start cursor) sourceLength).toNat

def Token.last (t : Token τ) (cursor sourceLength : ℕ) : ℕ :=
  min (t.first cursor sourceLength + t.bytes.length) sourceLength

def slice (source : List UInt8) (start stop : ℕ) : List UInt8 := (source.take stop).drop start

def appended (p : Prop) [Decidable p] (item : ConcreteToken ρ) : List (ConcreteToken ρ) :=
  if p then [item] else []

section

variable (concreteTokenKind : τ → String) (range : ℤ → ℤ → ρ) (source : List UInt8)

/-- The loop of `buildConcreteSyntaxTree`, from a cursor on. -/
def buildTokens : ℕ → List (Token τ) → List (ConcreteToken ρ)
  | cursor, [] =>
    appended (cursor < source.length)
      ⟨"trivia", slice source cursor source.length, range cursor source.length⟩
  | cursor, t :: tokens =>
    let start := t.first cursor source.length
    let stop := t.last cursor source.length
    appended (cursor < start) ⟨"trivia", slice source cursor start, range cursor start⟩ ++
      appended (0 < t.bytes.length)
        ⟨concreteTokenKind t.type, slice source start stop, range t.start t.stop⟩ ++
      buildTokens stop tokens

def buildConcreteSyntaxTree (tokens : List (Token τ)) : List (ConcreteToken ρ) :=
  buildTokens concreteTokenKind range source 0 tokens

end

def countTokens (sourceLength : ℕ) : (count cursor : ℕ) → List (Token τ) → ℕ
  | count, cursor, [] => if cursor < sourceLength then count + 1 else count
  | count, cursor, t :: tokens =>
    let count := if cursor < t.first cursor sourceLength then count + 1 else count
    let count := if 0 < t.bytes.length then count + 1 else count
    countTokens sourceLength count (t.last cursor sourceLength) tokens

def concreteTokenCount (tokens : List (Token τ)) (sourceLength : ℕ) : ℕ :=
  countTokens sourceLength 0 0 tokens

variable {source : List UInt8} {cursor start stop : ℕ}

theorem Token.first_le_last {t : Token τ} {n : ℕ} (h : cursor ≤ n) :
    cursor ≤ t.first cursor n ∧ t.first cursor n ≤ t.last cursor n ∧ t.last cursor n ≤ n := by
  unfold Token.last Token.first
  omega

theorem slice_append_drop (h : start ≤ stop) (hstop : stop ≤ source.length) :
    slice source start stop ++ source.drop stop = source.drop start := by
  rw [slice, ← drop_append_of_le_length (by simpa [hstop] using h), take_append_drop]

theorem appended_bytes {p : Prop} [Decidable p] {kind : String} {r : ρ} (h : ¬ p → stop ≤ start) :
    (appended p ⟨kind, slice source start stop, r⟩).flatMap ConcreteToken.bytes =
      slice source start stop := by
  unfold appended
  split
  · exact flatMap_singleton _ _
  · rename_i hp
    exact (drop_eq_nil_of_le (Nat.le_trans (length_take_le _ _) (h hp))).symm

variable {concreteTokenKind : τ → String} {range : ℤ → ℤ → ρ}

theorem buildTokens_bytes (tokens : List (Token τ)) (h : cursor ≤ source.length) :
    (buildTokens concreteTokenKind range source cursor tokens).flatMap ConcreteToken.bytes =
      source.drop cursor := by
  induction tokens generalizing cursor with
  | nil => rw [buildTokens, appended_bytes Nat.le_of_not_lt, slice, take_length]
  | cons t tokens ih =>
    obtain ⟨hfirst, hlast, hend⟩ := t.first_le_last h
    have htoken : ¬ 0 < t.bytes.length →
        t.last cursor source.length ≤ t.first cursor source.length := by
      unfold Token.last
      omega
    rw [buildTokens, flatMap_append, flatMap_append, ih hend, appended_bytes Nat.le_of_not_lt,
      appended_bytes htoken, append_assoc, slice_append_drop hlast hend,
      slice_append_drop hfirst (Nat.le_trans hlast hend)]

theorem countTokens_eq (tokens : List (Token τ)) (count : ℕ) :
    countTokens source.length count cursor tokens =
      count + (buildTokens concreteTokenKind range source cursor tokens).length := by
  induction tokens generalizing count cursor with
  | nil =>
    rw [countTokens, buildTokens, appended]
    split <;> rfl
  | cons t tokens ih =>
    rw [countTokens, buildTokens, ih, length_append, length_append, appended, appended]
    split_ifs <;> simp only [length_singleton, length_nil] <;> omega

/-- Whatever tokens the lexer returns, the concrete tokens are the source, and as many as are
counted in advance. -/
theorem buildConcreteSyntaxTree_lossless (concreteTokenKind : τ → String) (range : ℤ → ℤ → ρ)
    (source : List UInt8) (tokens : List (Token τ)) :
    (buildConcreteSyntaxTree concreteTokenKind range source tokens).flatMap ConcreteToken.bytes =
        source ∧
      (buildConcreteSyntaxTree concreteTokenKind range source tokens).length =
        concreteTokenCount tokens source.length :=
  ⟨buildTokens_bytes tokens (Nat.zero_le _), by
    rw [concreteTokenCount, countTokens_eq, Nat.zero_add]
    rfl⟩

end Scenery.Syntax
