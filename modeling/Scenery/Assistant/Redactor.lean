import Mathlib.Data.Nat.Notation
import Mathlib.Data.List.Sort
import Mathlib.Tactic.SplitIfs

/-!
# The redactor of public text

Text is redacted in chunks: a chunk is appended to what is pending, and all but the last runes of
it are scanned for the patterns and given out; the rest waits for the next chunk, or for the
flush.
-/

namespace Scenery.Assistant

open List

abbrev Text := List Char

structure Unicode where
  letter : Char → Bool
  digit : Char → Bool
  mark : Char → Bool
  nfkc : Text → Text

def redactionReplacement : Text := "assistant runtime".toList

structure Pattern where
  literal : Text
  token : Bool
  boundaryBefore : Bool
  nonempty : literal ≠ []
  deriving DecidableEq

def defaultRedactionPatterns : List Text :=
  ["eve".toList, "/eve/".toList, "/eve/v1".toList, "eve_".toList, "eve-".toList,
    "node_modules/eve".toList, "from \"eve\"".toList, "from \"eve/".toList,
    "@vercel/connect/eve".toList]

section

variable (u : Unicode)

def compile (literal : Text) : Option Pattern :=
  if h : literal = [] then none
  else some {
    literal := literal
    token := literal.all fun r => u.letter r || u.digit r || u.mark r
    boundaryBefore := literal.getLast? = some '_' ∨ literal.getLast? = some '-'
    nonempty := h }

def redactionPatterns : List Pattern :=
  (defaultRedactionPatterns.filterMap (compile u)).insertionSort
    fun p q => q.literal.length ≤ p.literal.length

def maxTail : ℕ := (redactionPatterns u).foldl (fun n p => max n (p.literal.length + 2)) 1

def isWordRune (r : Char) : Bool := u.letter r || u.digit r || u.mark r || r == '_'

def tokenBoundary (previous next : Option Char) : Bool :=
  !previous.any (isWordRune u) && !next.any (isWordRune u)

def equalFold (input literal : Text) : Bool :=
  (input.take literal.length).map Char.toLower = literal.map Char.toLower

def Pattern.matches (p : Pattern) (previous : Option Char) (input : Text) : Bool :=
  equalFold input p.literal &&
    (!p.token || tokenBoundary u previous input[p.literal.length]?) &&
    !(p.boundaryBefore && previous.any (isWordRune u))

def matchingPattern (previous : Option Char) (input : Text) : Option Pattern :=
  (redactionPatterns u).find? fun p => p.matches u previous input

/-- The loop of `redactPrefix`, in at most so many rounds: what is given out, and the input that
is left. -/
def redactRounds : ℕ → Option Char → Text → ℕ → Text × Text
  | 0, _, input, _ => ([], input)
  | _ + 1, _, [], _ => ([], [])
  | _ + 1, _, input, 0 => ([], input)
  | rounds + 1, previous, r :: rest, limit + 1 =>
    match matchingPattern u previous (r :: rest) with
    | some p =>
      let size := p.literal.length
      if limit + 1 < size then ([], r :: rest)
      else
        let (output, left) := redactRounds rounds ((r :: rest)[size - 1]?) ((r :: rest).drop size)
          (limit + 1 - size)
        (redactionReplacement ++ output, left)
    | none =>
      let (output, left) := redactRounds rounds (some r) rest limit
      (r :: output, left)

def redactPrefix (input : Text) (limit : ℕ) : Text × Text :=
  redactRounds u input.length none input limit

def safeLimit (pending : Text) : ℕ := pending.length - maxTail u

def write (pending chunk : Text) : Text × Text :=
  if chunk = [] then ([], pending)
  else
    let pending := u.nfkc (pending ++ chunk)
    redactPrefix u pending (safeLimit u pending)

def flush (pending : Text) : Text :=
  if pending = [] then []
  else
    let pending := u.nfkc pending
    (redactPrefix u pending pending.length).1

def writeAll (chunks : List Text) : Text × Text :=
  chunks.foldl (fun s chunk =>
    let (output, pending) := write u s.2 chunk
    (s.1 ++ output, pending)) ([], [])

def redactChunks (chunks : List Text) : Text := (writeAll u chunks).1 ++ flush u (writeAll u chunks).2

def redactString (value : Text) : Text := (write u [] value).1 ++ flush u (write u [] value).2

end

variable {u : Unicode}

/-! ## The loop -/

variable {previous : Option Char}

theorem length_le_of_matchingPattern {p : Pattern} {input : Text}
    (h : matchingPattern u previous input = some p) : p.literal.length ≤ input.length := by
  have hmatch := find?_some h
  simp only [Pattern.matches, equalFold, Bool.and_eq_true, decide_eq_true_eq] at hmatch
  have hlen := congrArg List.length hmatch.1.1
  simp only [length_map, length_take] at hlen
  omega

theorem redactRounds_of_none {rounds : ℕ} {r : Char} {rest : Text} {limit : ℕ}
    (h : matchingPattern u previous (r :: rest) = none) :
    redactRounds u (rounds + 1) previous (r :: rest) (limit + 1) =
      (r :: (redactRounds u rounds (some r) rest limit).1,
        (redactRounds u rounds (some r) rest limit).2) := by
  conv_lhs => unfold redactRounds
  simp only [h]

theorem redactRounds_of_some {rounds : ℕ} {r : Char} {rest : Text} {limit : ℕ} {p : Pattern}
    (h : matchingPattern u previous (r :: rest) = some p) :
    redactRounds u (rounds + 1) previous (r :: rest) (limit + 1) =
      if limit + 1 < p.literal.length then ([], r :: rest)
      else
        (redactionReplacement ++ (redactRounds u rounds ((r :: rest)[p.literal.length - 1]?)
            ((r :: rest).drop p.literal.length) (limit + 1 - p.literal.length)).1,
          (redactRounds u rounds ((r :: rest)[p.literal.length - 1]?)
            ((r :: rest).drop p.literal.length) (limit + 1 - p.literal.length)).2) := by
  conv_lhs => unfold redactRounds
  simp only [h]

theorem le_length_redactRounds (rounds : ℕ) (previous : Option Char) (input : Text) (limit : ℕ) :
    input.length ≤ (redactRounds u rounds previous input limit).2.length + limit := by
  induction rounds generalizing previous input limit with
  | zero => exact Nat.le_add_right _ _
  | succ rounds ih =>
    cases input with
    | nil => exact Nat.zero_le _
    | cons r rest =>
      cases limit with
      | zero => exact Nat.le_refl _
      | succ limit =>
        cases hm : matchingPattern u previous (r :: rest) with
        | none =>
          have hle := ih (some r) rest limit
          rw [redactRounds_of_none hm, length_cons]
          dsimp only
          omega
        | some p =>
          rw [redactRounds_of_some hm]
          split_ifs with hlimit
          · exact Nat.le_add_right _ _
          · have hle := ih ((r :: rest)[p.literal.length - 1]?) ((r :: rest).drop p.literal.length)
              (limit + 1 - p.literal.length)
            rw [length_drop] at hle
            dsimp only
            omega

theorem le_maxTail :
    1 ≤ maxTail u ∧ ∀ p ∈ redactionPatterns u, p.literal.length + 2 ≤ maxTail u := by
  unfold maxTail
  generalize redactionPatterns u = l, 1 = n
  induction l generalizing n with
  | nil => exact ⟨Nat.le_refl n, nofun⟩
  | cons p l ih =>
    obtain ⟨hn, hl⟩ := ih (max n (p.literal.length + 2))
    exact ⟨Nat.le_trans (Nat.le_max_left _ _) hn,
      forall_mem_cons.mpr ⟨Nat.le_trans (Nat.le_max_right _ _) hn, hl⟩⟩

theorem writeAll_append (chunks : List Text) (chunk : Text) :
    writeAll u (chunks ++ [chunk]) =
      ((writeAll u chunks).1 ++ (write u (writeAll u chunks).2 chunk).1,
        (write u (writeAll u chunks).2 chunk).2) := by
  rw [writeAll, foldl_append]
  rfl

end Scenery.Assistant
