import Mathlib.Data.List.Find
import Mathlib.Data.List.Induction
import Scenery.Assistant.Redactor

/-!
# Chunks

A write drops what it has given out, and with it the rune before the next pattern. What comes out
is the same for all ways to split a text when the pass over the whole text never needs that rune
where a write can stop.
-/

namespace Scenery.Assistant

open List

section

variable (u : Unicode)

/-- One pass over the whole text: the runes of a replaced pattern are skipped, and each other one is
looked at behind the rune before it. -/
def scan : Option Char → ℕ → Text → Text
  | _, _, [] => []
  | _, skip + 1, r :: rest => scan (some r) skip rest
  | previous, 0, r :: rest =>
    match matchingPattern u previous (r :: rest) with
    | some p => redactionReplacement ++ scan (some r) (p.literal.length - 1) rest
    | none => r :: scan (some r) 0 rest

/-- The pass over a text gives out something and comes to what is left, behind a rune. -/
inductive Reaches : Option Char → Text → Text → Option Char → Text → Prop where
  | refl (previous input) : Reaches previous input [] previous input
  | rune {previous r rest out previous' left} (h : matchingPattern u previous (r :: rest) = none)
      (hrest : Reaches (some r) rest out previous' left) :
      Reaches previous (r :: rest) (r :: out) previous' left
  | pattern {previous r rest out previous' left p}
      (h : matchingPattern u previous (r :: rest) = some p)
      (hrest : Reaches (r :: rest)[p.literal.length - 1]? ((r :: rest).drop p.literal.length) out
        previous' left) :
      Reaches previous (r :: rest) (redactionReplacement ++ out) previous' left

/-- Wherever the pass comes to with a tail left, the rune before makes no difference. -/
def Steady (text : Text) : Prop :=
  ∀ out previous left, Reaches u none text out previous left → maxTail u ≤ left.length →
    matchingPattern u previous left = matchingPattern u none left

end

variable {u : Unicode} {previous : Option Char} {input more : Text} {p : Pattern} {n : ℕ}
  {chunks : List Text}

theorem matchingPattern_append (h : maxTail u ≤ input.length) :
    matchingPattern u previous (input ++ more) = matchingPattern u previous input := by
  refine find?_congr fun p hp => ?_
  have hle := (le_maxTail.2 p hp).trans h
  simp only [Pattern.matches, equalFold]
  rw [take_append_of_le_length (by omega), getElem?_append_left (by omega)]

theorem matchingPattern_take (h : maxTail u ≤ (input.take n).length) :
    matchingPattern u previous (input.take n) = matchingPattern u previous input := by
  have happend := @matchingPattern_append u previous _ (input.drop n) h
  rwa [take_append_drop, eq_comm] at happend

section

variable {r : Char} {rest : Text}

theorem scan_skip (h : n ≤ rest.length) :
    scan u (some r) n rest = scan u ((r :: rest)[n]?) 0 (rest.drop n) := by
  induction n generalizing r rest with
  | zero => rfl
  | succ n ih =>
    cases rest with
    | nil => cases h
    | cons r' rest => exact ih (Nat.le_of_succ_le_succ h)

theorem scan_of_none (h : matchingPattern u previous (r :: rest) = none) :
    scan u previous 0 (r :: rest) = r :: scan u (some r) 0 rest := by
  rw [scan, h]

theorem scan_of_some (h : matchingPattern u previous (r :: rest) = some p) :
    scan u previous 0 (r :: rest) = redactionReplacement ++
      scan u ((r :: rest)[p.literal.length - 1]?) 0 ((r :: rest).drop p.literal.length) := by
  have hlen := length_le_of_matchingPattern h
  obtain ⟨n, hn⟩ := Nat.exists_eq_succ_of_ne_zero (length_pos_iff.mpr p.nonempty).ne'
  rw [scan, h]
  simp only [hn] at hlen ⊢
  exact congrArg _ (scan_skip (Nat.le_of_succ_le_succ hlen))

end

theorem redactRounds_length (hn : input.length ≤ n) :
    (redactRounds u n previous input input.length).1 = scan u previous 0 input := by
  induction n generalizing previous input with
  | zero =>
    rw [length_eq_zero_iff.mp (Nat.le_zero.mp hn)]
    rfl
  | succ n ih =>
    cases input with
    | nil => rfl
    | cons r rest =>
      rw [length_cons] at hn ⊢
      cases h : matchingPattern u previous (r :: rest) with
      | none => rw [redactRounds_of_none h, scan_of_none h, ih (Nat.le_of_succ_le_succ hn)]
      | some p =>
        have hle := length_le_of_matchingPattern h
        have hpos := length_pos_iff.mpr p.nonempty
        have hdrop := length_drop (i := p.literal.length) (l := r :: rest)
        rw [length_cons] at hle hdrop
        rw [redactRounds_of_some h, if_neg (Nat.not_lt.mpr hle), scan_of_some h, ← hdrop,
          ih (by omega)]

section

variable {previous' : Option Char} {out left : Text}

theorem Reaches.scan (h : Reaches u previous input out previous' left) :
    scan u previous 0 input = out ++ scan u previous' 0 left := by
  induction h with
  | refl => rfl
  | rune h _ ih => rw [scan_of_none h, ih, cons_append]
  | pattern h _ ih => rw [scan_of_some h, ih, append_assoc]

theorem Reaches.trans {out' left' : Text} {previous'' : Option Char}
    (h : Reaches u previous input out previous' left)
    (h' : Reaches u previous' left out' previous'' left') :
    Reaches u previous input (out ++ out') previous'' left' := by
  induction h with
  | refl => exact h'
  | rune hm _ ih => exact .rune hm (ih h')
  | pattern hm _ ih =>
    rw [append_assoc]
    exact .pattern hm (ih h')

/-- The first rune before only matters for the first pattern. -/
theorem Reaches.of_none (h : Reaches u none input out previous' left)
    (hm : matchingPattern u previous input = matchingPattern u none input) :
    out = [] ∧ left = input ∨ Reaches u previous input out previous' left := by
  cases h with
  | refl => exact .inl ⟨rfl, rfl⟩
  | rune h hrest => exact .inr (.rune (hm.trans h) hrest)
  | pattern h hrest => exact .inr (.pattern (hm.trans h) hrest)

/-- A pass up to the safe limit comes to where the pass over any longer text comes to. -/
theorem reaches_redactRounds {n limit : ℕ} (hn : input.length ≤ n)
    (hlimit : limit = 0 ∨ limit + maxTail u ≤ input.length) :
    ∃ previous', Reaches u previous (input ++ more) (redactRounds u n previous input limit).1
      previous' ((redactRounds u n previous input limit).2 ++ more) := by
  induction n generalizing previous input limit with
  | zero => exact ⟨previous, .refl _ _⟩
  | succ n ih =>
    cases input with
    | nil => exact ⟨previous, .refl _ _⟩
    | cons r rest =>
      cases limit with
      | zero => exact ⟨previous, .refl _ _⟩
      | succ limit =>
        have htail := hlimit.resolve_left (Nat.succ_ne_zero limit)
        rw [length_cons] at hn htail
        have hmatch := @matchingPattern_append u previous (r :: rest) more
          (by rw [length_cons]; omega)
        cases h : matchingPattern u previous (r :: rest) with
        | none =>
          obtain ⟨previous', hreaches⟩ := @ih (some r) rest limit (by omega) (by omega)
          rw [redactRounds_of_none h]
          exact ⟨previous', .rune (hmatch.trans h) hreaches⟩
        | some p =>
          rw [redactRounds_of_some h]
          split_ifs with hsize
          · exact ⟨previous, .refl _ _⟩
          · have hpos := length_pos_iff.mpr p.nonempty
            obtain ⟨previous', hreaches⟩ := @ih (r :: rest)[p.literal.length - 1]?
              ((r :: rest).drop p.literal.length) (limit + 1 - p.literal.length)
              (by rw [length_drop, length_cons]; omega) (by rw [length_drop, length_cons]; omega)
            refine ⟨previous', .pattern (hmatch.trans h) ?_⟩
            change Reaches u (r :: rest ++ more)[_]? ((r :: rest ++ more).drop _) _ _ _
            rwa [drop_append_of_le_length (by rw [length_cons]; omega),
              getElem?_append_left (by rw [length_cons]; omega)]

theorem redactRounds_zero (n : ℕ) : redactRounds u n previous input 0 = ([], input) := by
  cases n <;> cases input <;> rfl

/-- Where the pass comes to with a tail left, a write can stop. -/
theorem Reaches.redactRounds (h : Reaches u previous input out previous' left)
    (htail : maxTail u ≤ left.length) :
    ∃ k, left = input.drop k ∧ k + left.length = input.length ∧ ∀ n, k ≤ n →
      redactRounds u n previous (input.take (k + maxTail u)) k = (out, left.take (maxTail u)) := by
  induction h with
  | refl previous input =>
    exact ⟨0, rfl, Nat.zero_add _, fun n _ => by rw [redactRounds_zero, Nat.zero_add]⟩
  | @rune previous r rest out previous' left h _ ih =>
    obtain ⟨k, hleft, hlen, hrounds⟩ := ih htail
    refine ⟨k + 1, hleft, by rw [length_cons]; omega, fun n hn => ?_⟩
    obtain ⟨n, rfl⟩ := Nat.exists_eq_add_of_le' hn
    have htake : (r :: rest).take (k + 1 + maxTail u) = r :: rest.take (k + maxTail u) := by
      rw [Nat.add_right_comm, take_succ_cons]
    have hnone := (matchingPattern_take (n := k + 1 + maxTail u)
      (by rw [length_take, length_cons]; omega)).trans h
    rw [htake] at hnone ⊢
    rw [← Nat.add_assoc, redactRounds_of_none hnone, hrounds _ (by omega)]
  | @pattern previous r rest out previous' left p h _ ih =>
    obtain ⟨k, hleft, hlen, hrounds⟩ := ih htail
    have hle := length_le_of_matchingPattern h
    obtain ⟨j, hj⟩ := Nat.exists_eq_add_one.mpr (length_pos_iff.mpr p.nonempty)
    rw [length_drop] at hlen
    refine ⟨k + p.literal.length, by rw [hleft, drop_drop, Nat.add_comm], by omega, fun n hn => ?_⟩
    obtain ⟨m, rfl⟩ := Nat.exists_eq_add_of_le' (by omega : 1 ≤ n)
    have htake : (r :: rest).take (k + p.literal.length + maxTail u) =
        r :: rest.take (k + j + maxTail u) := by
      rw [hj, ← Nat.add_assoc, Nat.add_right_comm, take_succ_cons]
    have hsome := (matchingPattern_take (n := k + p.literal.length + maxTail u)
      (by rw [length_take]; omega)).trans h
    rw [htake] at hsome
    rw [htake, hj, ← Nat.add_assoc, redactRounds_of_some hsome, if_neg (by omega), ← htake,
      drop_take, getElem?_take_of_lt (by omega)]
    have hk : k + p.literal.length + maxTail u - p.literal.length = k + maxTail u := by omega
    have hk' : k + j + 1 - p.literal.length = k := by omega
    rw [hk, hk', hrounds m (by omega)]

/-! ## Patterns behind a word -/

theorem head_of_equalFold (h : equalFold input p.literal = true) :
    input.head?.map Char.toLower = p.literal.head?.map Char.toLower := by
  have hpos := length_pos_iff.mpr p.nonempty
  have hhead := congrArg head? (of_decide_eq_true h)
  rwa [head?_map, head?_map, head?_take, if_neg hpos.ne'] at hhead

theorem matchingPattern_none (h : previous.any (isWordRune u) = true → ∀ p ∈ redactionPatterns u,
    (p.token || p.boundaryBefore) = true → equalFold input p.literal = false) :
    matchingPattern u previous input = matchingPattern u none input := by
  refine find?_congr fun p hp => ?_
  by_cases hprevious : previous.any (isWordRune u) = true
  · by_cases hp' : (p.token || p.boundaryBefore) = true
    · simp [Pattern.matches, h hprevious p hp hp']
    · obtain ⟨ht, hb⟩ := Bool.or_eq_false_iff.mp (Bool.eq_false_iff.mpr hp')
      simp [Pattern.matches, ht, hb]
  · simp [Pattern.matches, tokenBoundary, Bool.eq_false_iff.mpr hprevious]

section
variable (hword : ∀ r : Char, r.toNat < 128 → (u.letter r || u.digit r || u.mark r) = r.isAlphanum)
include hword

/-- The patterns that need a boundary are those that begin with one letter. -/
theorem needs_boundary_iff (hp : p ∈ redactionPatterns u) :
    (p.token || p.boundaryBefore) = true ↔ p.literal.head?.map Char.toLower = some 'e' := by
  obtain ⟨literal, hliteral, hp⟩ := mem_filterMap.mp ((mem_insertionSort _).mp hp)
  have hascii : defaultRedactionPatterns.all (·.all (·.toNat < 128)) = true := by decide +kernel
  have htoken : literal.all (fun r => u.letter r || u.digit r || u.mark r) =
      literal.all Char.isAlphanum := by
    rw [Bool.eq_iff_iff, all_eq_true, all_eq_true]
    refine forall₂_congr fun r hr => ?_
    rw [hword r (of_decide_eq_true (all_eq_true.mp (all_eq_true.mp hascii literal hliteral) r hr))]
  have hdefault : ∀ literal ∈ defaultRedactionPatterns, (literal.all Char.isAlphanum ||
      decide (literal.getLast? = some '_' ∨ literal.getLast? = some '-')) = true ↔
        literal.head?.map Char.toLower = some 'e' := by decide +kernel
  unfold compile at hp
  split at hp <;> cases hp
  rw [htoken]
  exact hdefault literal hliteral

/-- Where the rune before makes a difference, no pattern matches behind it. -/
theorem matchingPattern_behind
    (h : matchingPattern u previous input ≠ matchingPattern u none input) :
    matchingPattern u previous input = none ∧ ∃ r rest, input = r :: rest ∧ r ≠ 'a' := by
  obtain ⟨hprevious, p, hp, hneeds, hfold⟩ : previous.any (isWordRune u) = true ∧
      ∃ p ∈ redactionPatterns u, (p.token || p.boundaryBefore) = true ∧
        equalFold input p.literal = true := by
    by_contra hall
    refine h (matchingPattern_none fun hprevious p hp hneeds => ?_)
    by_contra hfold
    exact hall ⟨hprevious, p, hp, hneeds, eq_true_of_ne_false hfold⟩
  have hhead := (head_of_equalFold hfold).trans ((needs_boundary_iff hword hp).mp hneeds)
  constructor
  · refine find?_eq_none.mpr fun q hq hmatch => ?_
    simp only [Pattern.matches, Bool.and_eq_true] at hmatch
    have hq := (needs_boundary_iff hword hq).mpr ((head_of_equalFold hmatch.1.1).symm.trans hhead)
    simp_all [tokenBoundary]
  · cases input with
    | nil => cases hhead
    | cons r rest =>
      refine ⟨r, rest, rfl, ?_⟩
      rintro rfl
      exact absurd hhead (by simp)

end

/-! ## All ways to split a text -/

theorem Reaches.suffix (h : Reaches u previous input out previous' left) : left <:+ input := by
  induction h with
  | refl => exact suffix_refl _
  | rune _ _ ih => exact ih.trans (suffix_cons _ _)
  | pattern _ _ ih => exact ih.trans (drop_suffix _ _)

theorem scan_previous (h : matchingPattern u previous input = matchingPattern u none input) :
    scan u previous 0 input = scan u none 0 input := by
  cases input with
  | nil => rfl
  | cons r rest =>
    cases hnone : matchingPattern u none (r :: rest) with
    | none => rw [scan_of_none hnone, scan_of_none (h.trans hnone)]
    | some p => rw [scan_of_some hnone, scan_of_some (h.trans hnone)]

section
variable (hnfkc : ∀ text : Text, (∀ r ∈ text, r.toNat < 128) → u.nfkc text = text)
include hnfkc

/-- The writes come to where the pass over the whole text comes to, with a tail pending once they
have given out something. -/
theorem reaches_writeAll (hascii : ∀ r ∈ chunks.flatten ++ more, r.toNat < 128)
    (hsteady : Steady u (chunks.flatten ++ more)) :
    ∃ previous, Reaches u none (chunks.flatten ++ more) (writeAll u chunks).1 previous
        ((writeAll u chunks).2 ++ more) ∧
      (previous = none ∨ maxTail u ≤ (writeAll u chunks).2.length) := by
  induction chunks using reverseRecOn generalizing more with
  | nil => exact ⟨none, .refl _ _, .inl rfl⟩
  | append_singleton chunks chunk ih =>
    rw [flatten_append, flatten_singleton, append_assoc] at hascii hsteady ⊢
    obtain ⟨previous, hreaches, htail⟩ := ih hascii hsteady
    rw [writeAll_append]
    by_cases hchunk : chunk = []
    · subst hchunk
      exact ⟨previous, by simpa [write] using hreaches, by simpa [write] using htail⟩
    generalize (writeAll u chunks).2 = pending at *
    rw [← append_assoc pending] at hreaches
    have hsame : u.nfkc (pending ++ chunk) = pending ++ chunk :=
      hnfkc _ fun r hr => hascii r (hreaches.suffix.subset (mem_append_left _ hr))
    have hm : matchingPattern u previous (pending ++ chunk ++ more) =
        matchingPattern u none (pending ++ chunk ++ more) := by
      obtain rfl | htail := htail
      · rfl
      · exact hsteady _ _ _ hreaches (by simp only [length_append]; omega)
    simp only [write, if_neg hchunk, hsame, redactPrefix]
    by_cases hlong : maxTail u ≤ (pending ++ chunk).length
    · have hlength := @le_length_redactRounds u (pending ++ chunk).length none (pending ++ chunk)
        (safeLimit u (pending ++ chunk))
      obtain ⟨previous', hpass⟩ := @reaches_redactRounds u none (pending ++ chunk) more _
        (safeLimit u (pending ++ chunk)) le_rfl (by unfold safeLimit; omega)
      have hleft : maxTail u ≤ (redactRounds u (pending ++ chunk).length none (pending ++ chunk)
          (safeLimit u (pending ++ chunk))).2.length := by
        unfold safeLimit at hlength ⊢
        omega
      obtain ⟨hout, hleft'⟩ | hpass := hpass.of_none hm
      · exact ⟨previous, by rwa [hout, hleft', append_nil], .inr hleft⟩
      · exact ⟨previous', hreaches.trans hpass, .inr hleft⟩
    · have hzero : safeLimit u (pending ++ chunk) = 0 := by
        unfold safeLimit
        omega
      rw [hzero, redactRounds_zero]
      refine ⟨previous, by rwa [append_nil], htail.imp_right fun htail => ?_⟩
      exact htail.trans (by simp)

theorem redactChunks_of_steady (hascii : ∀ r ∈ chunks.flatten, r.toNat < 128)
    (hsteady : Steady u chunks.flatten) : redactChunks u chunks = scan u none 0 chunks.flatten := by
  obtain ⟨previous, hreaches, htail⟩ :=
    @reaches_writeAll u [] chunks hnfkc (by rwa [append_nil]) (by rwa [append_nil])
  rw [append_nil, append_nil] at hreaches
  have hsame : u.nfkc (writeAll u chunks).2 = (writeAll u chunks).2 :=
    hnfkc _ fun r hr => hascii r (hreaches.suffix.subset hr)
  have hm : matchingPattern u previous (writeAll u chunks).2 =
      matchingPattern u none (writeAll u chunks).2 := by
    obtain rfl | htail := htail
    · rfl
    · exact hsteady _ _ _ hreaches htail
  rw [hreaches.scan, scan_previous hm, redactChunks, flush, hsame]
  split_ifs with hpending
  · rw [hpending]
    rfl
  · exact congrArg _ (redactRounds_length le_rfl)

/-- A pattern at the start of what is pending is replaced, by the write or by the flush. -/
theorem head_of_write {pending chunk : Text} (hascii : ∀ r ∈ pending ++ chunk, r.toNat < 128)
    (h : matchingPattern u none (pending ++ chunk) = some p) :
    ((write u pending chunk).1 ++ flush u (write u pending chunk).2).head? = some 'a' := by
  have hflush : ∀ {input : Text}, (∀ r ∈ input, r.toNat < 128) →
      matchingPattern u none input = some p → (flush u input).head? = some 'a' := by
    intro input hascii hm
    have hne : input ≠ [] := by
      rintro rfl
      have hle := length_le_of_matchingPattern hm
      exact absurd (Nat.le_zero.mp hle) (length_pos_iff.mpr p.nonempty).ne'
    rw [flush, if_neg hne, hnfkc input hascii]
    simp only [redactPrefix]
    rw [redactRounds_length le_rfl]
    obtain ⟨r, rest, rfl⟩ := exists_cons_of_ne_nil hne
    rw [scan_of_some hm]
    rfl
  by_cases hchunk : chunk = []
  · subst hchunk
    rw [append_nil] at h hascii
    simpa [write] using hflush hascii h
  · simp only [write, if_neg hchunk, hnfkc _ hascii, redactPrefix]
    generalize safeLimit u (pending ++ chunk) = limit
    generalize pending ++ chunk = input at h hascii
    cases input with
    | nil => simpa [redactRounds] using hflush hascii h
    | cons r rest =>
      cases limit with
      | zero => simpa [redactRounds_zero] using hflush hascii h
      | succ limit =>
        rw [length_cons, redactRounds_of_some h]
        split_ifs
        · simpa using hflush hascii h
        · rfl

/-- **Redaction does not depend on chunking** for the texts where the rune before what is left makes
no difference. -/
theorem redactChunks_iff
    (hword : ∀ r : Char, r.toNat < 128 → (u.letter r || u.digit r || u.mark r) = r.isAlphanum)
    {text : Text} (hascii : ∀ r ∈ text, r.toNat < 128) :
    (∀ chunks, chunks.flatten = text → redactChunks u chunks = scan u none 0 text ∧
      redactString u text = scan u none 0 text) ↔ Steady u text := by
  constructor
  · intro h out previous left hreaches htail
    by_contra hne
    -- the first write stops where the rune before matters
    obtain ⟨k, hleft, hlen, hrounds⟩ := hreaches.redactRounds htail
    obtain ⟨hbehind, r, rest, rfl, hr⟩ := matchingPattern_behind hword hne
    obtain ⟨p, hp⟩ := Option.ne_none_iff_exists'.mp fun hnone => hne (hbehind.trans hnone.symm)
    have hsplit := (h [text.take (k + maxTail u), text.drop (k + maxTail u)] (by simp)).1
    have htake : (text.take (k + maxTail u)).length = k + maxTail u := by
      rw [length_take]
      omega
    have hwrite : write u [] (text.take (k + maxTail u)) = (out, (r :: rest).take (maxTail u)) := by
      have htail := (le_maxTail (u := u)).1
      rw [write, if_neg (length_pos_iff.mp (by omega)), nil_append,
        hnfkc _ fun r hr => hascii r (mem_of_mem_take hr)]
      simp only [redactPrefix, safeLimit, htake, Nat.add_sub_cancel]
      exact hrounds _ (Nat.le_add_right _ _)
    have hrest : (r :: rest).take (maxTail u) ++ text.drop (k + maxTail u) = r :: rest := by
      rw [hleft, ← drop_drop, take_append_drop]
    have hhead : ((write u ((r :: rest).take (maxTail u)) _).1 ++ flush u _).head? = some 'a' :=
      head_of_write hnfkc (by rw [hrest]; exact fun c hc => hascii c (hreaches.suffix.subset hc))
        (by rw [hrest, hp])
    rw [hreaches.scan, scan_of_none hbehind] at hsplit
    simp only [redactChunks, writeAll, foldl_cons, foldl_nil, hwrite, nil_append, append_assoc,
      append_cancel_left_eq] at hsplit
    rw [hsplit] at hhead
    exact hr (Option.some.inj hhead)
  · rintro hsteady chunks rfl
    refine ⟨redactChunks_of_steady hnfkc hascii hsteady, ?_⟩
    have hone := @redactChunks_of_steady u [chunks.flatten] hnfkc
    rw [flatten_singleton] at hone
    exact hone hascii hsteady

end

end

namespace Sample

def ascii : Unicode where
  letter := Char.isAlpha
  digit := Char.isDigit
  mark _ := false
  nfkc := id

end Sample

theorem redactChunks_iff_split :
    redactChunks Sample.ascii [['e'], ['v', 'e']] = "assistant runtime".toList ∧
      redactString Sample.ascii ['e', 'v', 'e'] = "assistant runtime".toList := by
  have hscan : scan Sample.ascii none 0 ['e', 'v', 'e'] = "assistant runtime".toList := by
    decide +kernel
  have hsteady : Steady Sample.ascii ['e', 'v', 'e'] := by
    intro out previous left hreaches htail
    have hlength := hreaches.suffix.length_le
    have : maxTail Sample.ascii = 21 := by decide +kernel
    simp at hlength
    omega
  rw [← hscan]
  exact (redactChunks_iff (fun _ _ => rfl) (fun r _ => by simp [Sample.ascii, Char.isAlphanum])
    (by simp)).mpr hsteady [['e'], ['v', 'e']] rfl

/-- The `x` is given out by the write, and the flush takes `eve` for a word of its own. -/
theorem redactString_after_word :
    scan Sample.ascii none 0 "xeve                  ".toList = "xeve                  ".toList ∧
      redactString Sample.ascii "xeve                  ".toList =
        "xassistant runtime                  ".toList := by
  decide +kernel

end Scenery.Assistant
