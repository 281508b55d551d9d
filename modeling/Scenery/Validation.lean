import Mathlib.Data.List.DropRight
import Scenery.Globs

/-!
# Changed files

`internal/validation/changed.go`: the globs that choose what to validate. A slash-separated text is
the list of its segments.
-/

namespace Scenery.Validation

open Globs

abbrev Segment := List Char

abbrev Path := List Segment

def doubleStar : Segment := ['*', '*']

/-- The meaning of a pattern, where `**` stands for any number of segments. -/
def Selects : Path → Path → Prop := Matches (· = doubleStar) wild

/-- `unicode.IsSpace`, and `filepath.Match` for patterns without brackets and backslashes: its
wildcards match no slash. -/
structure Library where
  isSpace : Char → Bool
  isSpace_eq : ∀ c ∈ ['*', '?', 'a'], isSpace c = false
  pathMatch : Path → Path → Bool
  pathMatch_iff {pattern file} (h : ∀ s ∈ pattern, '[' ∉ s ∧ '\\' ∉ s) :
    pathMatch pattern file = true ↔ List.Forall₂ (fun a b => wild a b = true) pattern file

variable (lib : Library)

/-- `strings.TrimSpace`: a slash is no space, so only the ends of the outer segments change. -/
def trimSpace (path : Path) : Path :=
  ((path.modifyHead (·.dropWhile lib.isSpace)).reverse.modifyHead
    (·.rdropWhile lib.isSpace)).reverse

def globMatchSegments : Path → Path → Bool :=
  matchParts (· = doubleStar) fun a b => lib.pathMatch [a] [b]

/-- `strings.CutPrefix` of `./` -/
def cutDot : Path → Path × Bool
  | ['.'] :: a :: rest => (a :: rest, true)
  | pattern => (pattern, false)

/-- `filepath.Base` -/
def base (file : Path) : Segment := (file.reverse.find? (· ≠ [])).getD ['/']

def globMatches (pattern file : Path) : Bool :=
  let file := trimSpace lib file
  let (pattern, anchored) := cutDot (trimSpace lib pattern)
  if pattern = [[]] ∨ file = [[]] then false
  else if pattern = file then true
  else if 1 < pattern.length ∧ pattern.getLast? = some doubleStar then
    pattern.dropLast.isPrefixOf file
  else globMatchSegments lib pattern file || lib.pathMatch pattern file ||
    !anchored && pattern.length = 1 && lib.pathMatch pattern [base file]

variable {lib} {pattern file p f : Path}

/-! ## Surrounding spaces -/

/-- The text begins or ends with a space. -/
def Padded (lib : Library) (path : Path) : Prop :=
  (∃ c s rest, path = (c :: s) :: rest ∧ lib.isSpace c = true) ∨
    ∃ c s rest, path = rest ++ [s ++ [c]] ∧ lib.isSpace c = true

theorem trimSpace_of_not_padded (h : ¬ Padded lib p) : trimSpace lib p = p := by
  have hhead : ∀ {s rest}, p = s :: rest → s.dropWhile lib.isSpace = s := by
    rintro (_ | ⟨c, s⟩) rest rfl
    · rfl
    · exact List.dropWhile_cons_of_neg fun hc => h (.inl ⟨c, s, rest, rfl, hc⟩)
  have hlast : ∀ {s} rest, p = rest ++ [s] → s.rdropWhile lib.isSpace = s := by
    rintro s rest rfl
    rcases List.eq_nil_or_concat' s with rfl | ⟨s, c, rfl⟩
    · rfl
    · exact List.rdropWhile_concat_neg _ _ _ fun hc => h (.inr ⟨c, s, rest, rfl, hc⟩)
  cases p with
  | nil => rfl
  | cons s rest =>
    rcases List.eq_nil_or_concat' rest with rfl | ⟨mid, t, rfl⟩
    · simp [trimSpace, hhead rfl, hlast [] rfl]
    · simp [trimSpace, hhead rfl, hlast (s :: mid) rfl]

theorem mem_trimSpace {s : Segment} (hs : s ∈ trimSpace lib p) : ∃ t ∈ p, s ⊆ t := by
  cases p with
  | nil => simp [trimSpace] at hs
  | cons t rest =>
    rcases List.eq_nil_or_concat' rest with rfl | ⟨mid, u, rfl⟩
    · simp only [trimSpace, List.modifyHead_cons, List.reverse_singleton, List.mem_singleton] at hs
      exact ⟨t, List.mem_cons_self, hs ▸ List.Subset.trans ( List.rdropWhile_prefix _ _).subset
        (List.dropWhile_suffix _).subset⟩
    · simp [trimSpace] at hs
      rcases hs with rfl | hs | rfl
      · exact ⟨t, by simp, (List.dropWhile_suffix _).subset⟩
      · exact ⟨s, by simp [hs], List.Subset.refl s⟩
      · exact ⟨u, by simp, ( List.rdropWhile_prefix _ _).subset⟩

/-- A pattern with a space at an end selects only paths with that space. -/
theorem Padded.of_selects (hp : Padded lib p) (h : Selects p f) : Padded lib f := by
  have hany : ∀ {c}, lib.isSpace c = true → decide (c = '*') = false := fun hc =>
    decide_eq_false (by rintro rfl; simp [lib.isSpace_eq] at hc)
  have hone : ∀ {c d}, lib.isSpace c = true → (c = '?' || c = d) = true → c = d := by
    intro c d hc h
    refine (by simpa using h : c = '?' ∨ c = d).resolve_left ?_
    rintro rfl
    simp [lib.isSpace_eq] at hc
  have hsegment : ∀ {s : Segment} {c}, c ∈ s → lib.isSpace c = true →
      decide (s = doubleStar) = false := by
    refine fun hmem hc => decide_eq_false ?_
    rintro rfl
    exact absurd (by simpa [doubleStar] using hmem) (of_decide_eq_false (hany hc))
  rcases hp with ⟨c, s, rest, rfl, hc⟩ | ⟨c, s, rest, rfl, hc⟩
  · obtain ⟨b, l, rfl, hb, -⟩ := Matches.uncons h (hsegment (by simp) hc)
    obtain ⟨d, b, rfl, hd, -⟩ := (matchParts_iff.mp hb).uncons (hany hc)
    exact .inl ⟨c, b, l, by rw [hone hc hd], hc⟩
  · obtain ⟨l, b, rfl, hb⟩ := Matches.unconcat h (hsegment (by simp) hc)
    obtain ⟨b, d, rfl, hd⟩ := (matchParts_iff.mp hb).unconcat (hany hc)
    exact .inr ⟨c, b, l, by rw [hone hc hd], hc⟩

/-! ## The meaning of a pattern -/

def Plain (p : Path) : Prop := ∀ s ∈ p, '[' ∉ s ∧ '\\' ∉ s ∧ '/' ∉ s

/-- A text that is split at its slashes. -/
def IsPath (f : Path) : Prop := f ≠ [] ∧ ∀ s ∈ f, '/' ∉ s

theorem Plain.cutDot (hp : Plain p) : Plain (cutDot (trimSpace lib p)).1 := by
  intro s hs
  obtain ⟨t, ht, hsub⟩ : ∃ t ∈ p, s ⊆ t := by
    refine mem_trimSpace (?_ : s ∈ trimSpace lib p)
    unfold Validation.cutDot at hs
    split at hs
    · next heq => exact heq ▸ List.mem_cons_of_mem _ hs
    · exact hs
  obtain ⟨h₁, h₂, h₃⟩ := hp t ht
  exact ⟨fun h => h₁ (hsub h), fun h => h₂ (hsub h), fun h => h₃ (hsub h)⟩

theorem selects_self (file : Path) : Selects file file :=
  .of_forall₂ (List.forall₂_same.mpr fun s _ => .inr (wild_self s))

theorem globMatchSegments_iff (hp : Plain p) :
    globMatchSegments lib p f = true ↔ Selects p f := by
  rw [globMatchSegments, Selects, ← matchParts_iff, matchParts_congr fun s hs => funext fun t => ?_]
  rw [Bool.eq_iff_iff, lib.pathMatch_iff (by simpa using ⟨(hp s hs).1, (hp s hs).2.1⟩)]
  simp

/-- What is matched is selected by the pattern without spaces around it and without `./`. -/
theorem selects_of_globMatches {rest : Path} {anchored : Bool}
    (hcut : cutDot (trimSpace lib p) = (rest, anchored)) (hp : Plain rest)
    (hbase : anchored = true ∨ 1 < rest.length) (hf : ¬ Padded lib f)
    (h : globMatches lib p f = true) : rest ≠ [[]] ∧ f ≠ [[]] ∧ Selects rest f := by
  simp only [globMatches, hcut, trimSpace_of_not_padded hf] at h
  split at h
  · cases h
  next hne =>
  refine ⟨fun h => hne (.inl h), fun h => hne (.inr h), ?_⟩
  split at h
  · next heq => exact heq ▸ selects_self _
  split at h
  · next hstar =>
    obtain ⟨r, rfl⟩ := List.isPrefixOf_iff_prefix.mp h
    conv_lhs => rw [← List.dropLast_append_getLast? _ hstar.2]
    exact (selects_self _).append (List.append_nil r ▸ .any (decide_eq_true rfl) .nil)
  · rw [Bool.or_eq_true, Bool.or_eq_true, globMatchSegments_iff hp] at h
    rcases h with (h | h) | h
    · exact h
    · exact .of_forall₂ (((lib.pathMatch_iff fun s hs => ⟨(hp s hs).1, (hp s hs).2.1⟩).mp h).imp
        fun _ _ => .inr)
    · simp only [Bool.and_eq_true, decide_eq_true_eq, Bool.not_eq_true'] at h
      rcases hbase with hanchored | hlength
      · exact absurd (h.1.1.symm.trans hanchored) (by decide)
      · omega

theorem globMatches_self {anchored : Bool} (hcut : cutDot (trimSpace lib p) = (f, anchored))
    (hne : f ≠ [[]]) (hf : ¬ Padded lib f) : globMatches lib p f = true := by
  simp [globMatches, hcut, trimSpace_of_not_padded hf, hne]

theorem not_selects_dot (p : Path) : ¬ Selects (['.'] :: p) p := by
  induction p with
  | nil =>
    intro h
    obtain ⟨b, l, hl, -⟩ := Matches.uncons h (by decide)
    cases hl
  | cons s p ih =>
    intro h
    obtain ⟨b, l, hl, hb, h⟩ := Matches.uncons h (by decide)
    obtain ⟨rfl, rfl⟩ := List.cons.inj hl
    obtain rfl := (wild_iff (by decide)).mp hb
    exact ih h

/-- A file name for each segment: the wildcards are replaced by a letter. -/
def sample (p : Path) : Path := p.map (·.map fun c => if c = '*' ∨ c = '?' then 'a' else c)

theorem selects_sample (p : Path) : Selects p (sample p) := by
  refine .of_forall₂ (List.forall₂_map_right_iff.mpr (List.forall₂_same.mpr fun s _ => .inr ?_))
  refine matchParts_iff.mpr (.of_forall₂ (List.forall₂_map_right_iff.mpr ?_))
  exact List.forall₂_same.mpr fun c _ => by
    by_cases hstar : c = '*'
    · simp [hstar]
    · by_cases hmark : c = '?' <;> simp [hstar, hmark]

theorem of_sample_eq (h : sample p = p) {s : Segment} (hs : s ∈ p) : '*' ∉ s ∧ '?' ∉ s := by
  have hmap := List.map_eq_map_iff.mp (h.trans (List.map_id p).symm) s hs
  have hchar := List.map_eq_map_iff.mp (hmap.trans (List.map_id s).symm)
  constructor <;> exact fun hc => absurd (hchar _ hc) (by decide)

theorem not_padded_sample (hne : p ≠ []) (h : ¬ Padded lib (p ++ [doubleStar])) :
    ¬ Padded lib (sample p ++ [['a']]) := by
  have ha : ∀ {c}, lib.isSpace c = true → c ≠ 'a' := by
    rintro c hc rfl
    simp [lib.isSpace_eq] at hc
  rintro (⟨c, s, rest, heq, hc⟩ | ⟨c, s, rest, heq, hc⟩)
  · obtain ⟨t, q, rfl⟩ := List.exists_cons_of_ne_nil hne
    obtain ⟨d, u, rfl, hd, -⟩ := List.map_eq_cons_iff.mp (List.cons.inj heq).1
    split at hd
    · exact ha hc hd.symm
    · exact h (.inl ⟨d, u, q ++ [doubleStar], rfl, hd ▸ hc⟩)
  · have hlast := congrArg List.getLast? heq
    simp only [List.getLast?_concat, Option.some.injEq] at hlast
    have hchar := congrArg List.getLast? hlast
    simp only [List.getLast?_concat, List.getLast?_singleton, Option.some.injEq] at hchar
    exact ha hc hchar.symm

theorem cutDot_of_head (h : p.head? ≠ some ['.']) : cutDot p = (p, false) := by
  unfold cutDot
  split
  · exact absurd rfl h
  · rfl

/-- When a pattern means what it says. Of a pattern with spaces around it only what is left when
these and a `./` are removed counts, which then is nothing or begins with a space, so that it
selects nothing either. Another pattern does not begin with `./`, has no wildcard before a final
`/**` and does not select the empty path. -/
def Faithful (lib : Library) (p : Path) : Prop :=
  (Padded lib p → (cutDot (trimSpace lib p)).1 = [[]] ∨ Padded lib (cutDot (trimSpace lib p)).1) ∧
  (¬ Padded lib p → p.head? ≠ some ['.'] ∧
    (p.getLast? = some doubleStar → ∀ s ∈ p.dropLast, '*' ∉ s ∧ '?' ∉ s) ∧ ¬ Selects p [[]])

/-- The pattern means what it says, for every file path without surrounding spaces. -/
def MeansWhatItSays (lib : Library) (p : Path) : Prop :=
  ∀ file, IsPath file → ¬ Padded lib file → (globMatches lib p file = true ↔ Selects p file)

theorem Plain.isPath (hp : Plain p) (hne : p ≠ []) : IsPath p :=
  ⟨hne, fun s hs => (hp s hs).2.2⟩

theorem MeansWhatItSays.head (h : MeansWhatItSays lib p) (hp : Plain p) (hslash : 1 < p.length)
    (hpadded : ¬ Padded lib p) : p.head? ≠ some ['.'] := by
  intro hdot
  obtain ⟨a, q, rfl⟩ : ∃ a q, p = ['.'] :: a :: q := by
    rcases p with _ | ⟨s, _ | ⟨a, q⟩⟩
    · cases hdot
    · exact absurd hslash (lt_irrefl 1)
    · exact ⟨a, q, by rw [Option.some.inj hdot]⟩
  have hcut : cutDot (trimSpace lib (['.'] :: a :: q)) = (a :: q, true) := by
    rw [trimSpace_of_not_padded hpadded]
    rfl
  have hrest : Plain (a :: q) := fun s hs => hp s (List.mem_cons_of_mem _ hs)
  obtain ⟨hne, -, hselects⟩ := selects_of_globMatches hcut hrest (.inl rfl) hpadded
    ((h _ (hp.isPath (by simp)) hpadded).mpr (selects_self _))
  have hnp : ¬ Padded lib (a :: q) := fun hpad => hpadded (hpad.of_selects hselects)
  exact not_selects_dot _ ((h _ (hrest.isPath (by simp)) hnp).mp (globMatches_self hcut hne hnp))

theorem MeansWhatItSays.last (h : MeansWhatItSays lib p) (hp : Plain p) (hslash : 1 < p.length)
    (hpadded : ¬ Padded lib p) (hlast : p.getLast? = some doubleStar) :
    ∀ s ∈ p.dropLast, '*' ∉ s ∧ '?' ∉ s := by
  have hsplit := List.dropLast_append_getLast? _ hlast
  have hne : p.dropLast ≠ [] := by
    intro hnil
    rw [hnil] at hsplit
    exact absurd (hsplit ▸ hslash) (lt_irrefl 1)
  have hnp : ¬ Padded lib (sample p.dropLast ++ [['a']]) :=
    not_padded_sample hne (hsplit.symm ▸ hpadded)
  have hselects : Selects p (sample p.dropLast ++ [['a']]) := by
    conv_lhs => rw [← hsplit]
    exact (selects_sample _).append (.any (r := [['a']]) (decide_eq_true rfl) .nil)
  have hpath : IsPath (sample p.dropLast ++ [['a']]) := by
    refine ⟨by simp, fun s hs hslash => ?_⟩
    rcases List.mem_append.mp hs with hs | hs
    · obtain ⟨t, ht, rfl⟩ := List.mem_map.mp hs
      obtain ⟨c, hc, heq⟩ := List.mem_map.mp hslash
      split at heq
      · cases heq
      · exact (hp t (List.mem_of_mem_dropLast ht)).2.2 (heq ▸ hc)
    · simp_all
  have hmatch := (h _ hpath hnp).mpr hselects
  simp only [globMatches, trimSpace_of_not_padded hpadded, trimSpace_of_not_padded hnp,
    cutDot_of_head (h.head hp hslash hpadded), hslash, hlast, and_self, if_true] at hmatch
  have hprefix : p.dropLast <+: sample p.dropLast ++ [['a']] := by
    split at hmatch
    · cases hmatch
    split at hmatch
    · next heq => exact heq ▸ List.dropLast_prefix _
    · exact List.isPrefixOf_iff_prefix.mp hmatch
  have hlength : p.dropLast.length = (sample p.dropLast).length := by simp [sample]
  have heq := (List.prefix_of_prefix_length_le hprefix (List.prefix_append _ _)
    hlength.le).eq_of_length hlength
  exact fun s hs => of_sample_eq heq.symm hs

theorem MeansWhatItSays.empty (h : MeansWhatItSays lib p) : ¬ Selects p [[]] := by
  intro hempty
  have hnp : ¬ Padded lib [[]] := by
    rintro (⟨c, s, rest, heq, -⟩ | ⟨c, s, rest, heq, -⟩)
    · cases heq
    · simpa using congrArg List.getLast? heq
  have hfalse : globMatches lib p [[]] = false := by simp [globMatches, trimSpace]
  exact absurd ((h [[]] ⟨by simp, by simp⟩ hnp).mpr hempty) (by simp [hfalse])

def documented : Library where
  isSpace c := c = ' '
  isSpace_eq := by simp
  pathMatch pattern file := decide (List.Forall₂ (fun a b => wild a b = true) pattern file)
  pathMatch_iff _ := decide_eq_true_iff

end Scenery.Validation
