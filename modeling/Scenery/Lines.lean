import Mathlib.Data.List.Basic

/-!
# Files of lines

A file to which records are appended, one line each.
-/

namespace Scenery

open List

variable {β ρ : Type}

def splitLines [DecidableEq β] (newline : β) : List β → List (List β) × List β
  | [] => ([], [])
  | b :: rest =>
    match splitLines newline rest with
    | (ls, tail) =>
      if b = newline then ([] :: ls, tail)
      else match ls with
        | [] => ([], b :: tail)
        | l :: ls => ((b :: l) :: ls, tail)

def joinLines (newline : β) (ls : List (List β)) : List β := ls.flatMap (· ++ [newline])

section Splitting

variable [DecidableEq β] {newline : β}

theorem splitLines_of_not_mem {p : List β} (h : newline ∉ p) : splitLines newline p = ([], p) := by
  induction p with
  | nil => rfl
  | cons b rest ih =>
    have hb : b ≠ newline := fun hb => h (hb ▸ mem_cons_self)
    have hrest : newline ∉ rest := fun hmem => h (mem_cons_of_mem b hmem)
    rw [splitLines, ih hrest]
    exact if_neg hb

theorem splitLines_line {l : List β} (h : newline ∉ l) (rest : List β) :
    splitLines newline (l ++ newline :: rest) =
      (l :: (splitLines newline rest).1, (splitLines newline rest).2) := by
  induction l with
  | nil =>
    exact if_pos rfl
  | cons b l ih =>
    have hb : b ≠ newline := fun hb => h (hb ▸ mem_cons_self)
    have hl : newline ∉ l := fun hmem => h (mem_cons_of_mem b hmem)
    rw [cons_append, splitLines, ih hl]
    exact if_neg hb

theorem splitLines_joinLines {ls : List (List β)} {tail : List β} (hls : ∀ l ∈ ls, newline ∉ l)
    (htail : newline ∉ tail) : splitLines newline (joinLines newline ls ++ tail) = (ls, tail) := by
  induction ls with
  | nil => exact splitLines_of_not_mem htail
  | cons l ls ih =>
    have hjoin : joinLines newline (l :: ls) ++ tail =
        l ++ newline :: (joinLines newline ls ++ tail) := by
      simp [joinLines]
    rw [hjoin, splitLines_line (hls l mem_cons_self),
      ih fun l' hl' => hls l' (mem_cons_of_mem l hl')]

end Splitting

structure LineCodec (ρ β : Type) where
  newline : β
  encode : ρ → List β
  decode : List β → Option ρ
  decode_encode : ∀ r, decode (encode r) = some r
  newline_not_mem : ∀ r, newline ∉ encode r

namespace LineCodec

/-- Each record is one symbol. -/
def symbols : LineCodec ρ (Option ρ) where
  newline := none
  encode r := [some r]
  decode
    | [some r] => some r
    | _ => none
  decode_encode _ := rfl
  newline_not_mem _ := by simp

variable (c : LineCodec ρ β)

def line (r : ρ) : List β := c.encode r ++ [c.newline]

def file (rs : List ρ) : List β := joinLines c.newline (rs.map c.encode)

@[simp] theorem file_concat (rs : List ρ) (r : ρ) : c.file (rs ++ [r]) = c.file rs ++ c.line r := by
  simp [file, line, joinLines]

theorem take_line (r : ρ) (n : ℕ) :
    (c.line r).length ≤ n ∧ (c.line r).take n = c.line r ∨
      n < (c.line r).length ∧ c.newline ∉ (c.line r).take n := by
  rcases Nat.lt_or_ge n (c.line r).length with hn | hn
  · refine .inr ⟨hn, fun hmem => c.newline_not_mem r ?_⟩
    have hle : n ≤ (c.encode r).length := by
      rw [line, length_append, length_singleton] at hn
      omega
    rw [line, take_append_of_le_length hle] at hmem
    exact mem_of_mem_take hmem
  · exact .inl ⟨hn, take_of_length_le hn⟩

theorem splitLines_file [DecidableEq β] {rs : List ρ} {tail : List β} (htail : c.newline ∉ tail) :
    splitLines c.newline (c.file rs ++ tail) = (rs.map c.encode, tail) := by
  refine splitLines_joinLines (fun l hl => ?_) htail
  obtain ⟨r, -, rfl⟩ := mem_map.mp hl
  exact c.newline_not_mem r

theorem encode_injective : Function.Injective c.encode := by
  intro r r' h
  have hdecode := c.decode_encode r
  rw [h, c.decode_encode r'] at hdecode
  exact (Option.some.inj hdecode).symm

theorem file_append_inj [DecidableEq β] {rs rs' : List ρ} {tail tail' : List β}
    (htail : c.newline ∉ tail)
    (htail' : c.newline ∉ tail') (h : c.file rs ++ tail = c.file rs' ++ tail') : rs = rs' := by
  have hsplit : splitLines c.newline (c.file rs ++ tail) = (rs.map c.encode, tail) :=
    c.splitLines_file htail
  rw [h, c.splitLines_file htail'] at hsplit
  exact (map_injective_iff.mpr c.encode_injective (Prod.mk.inj hsplit).1).symm

end LineCodec

end Scenery
