import Scenery.Globs
import Scenery.Watchignore

/-!
# Rules of a gitignore file

`parseWatchIgnoreRule`, over a line that is split at its slashes, against the meaning of the line.
-/

namespace Scenery.Watchignore

open Scenery.Globs List

/-- What no segment of a path is. -/
def reserved : List String := ["", ".", ".."]

/-- One more segment in `path.Clean`; what is kept so far stands last segment first. -/
def cleanSegment (rooted : Bool) (out : List String) (s : String) : List String :=
  if s = "" ∨ s = "." then out
  else if s = ".." then
    match out with
    | [] => if rooted then [] else [s]
    | top :: rest => if top = ".." then s :: out else rest
  else s :: out

/-- `path.Clean` over segments, the first of which is empty in a rooted path. -/
def clean (parts : List String) : List String :=
  if parts.head? = some "" then
    match parts.foldl (cleanSegment true) [] with
    | [] => ["", ""]
    | out => "" :: out.reverse
  else
    match parts.foldl (cleanSegment false) [] with
    | [] => ["."]
    | out => out.reverse

structure Library where
  /-- `path.Match`, which fails on a malformed pattern -/
  pathMatch : String → String → Option Bool
  pathMatch_eq {pattern name} (h : '[' ∉ pattern.toList ∧ '\\' ∉ pattern.toList) :
    pathMatch pattern name = some (wild pattern.toList name.toList)

variable (lib : Library)

def matchGitignoreSegment (pattern name : String) : Bool :=
  if pattern.toList.any (· ∈ ['*', '?', '[', '\\']) then
    (lib.pathMatch pattern name).getD (pattern = name)
  else pattern = name

def globs : Globs where
  segment := matchGitignoreSegment lib
  path := matchParts (· = "**") (matchGitignoreSegment lib)

/-- Over the reversed text. -/
def trimUnescapedTrailingSpaces : List Char → List Char
  | ' ' :: rest =>
    if (rest.takeWhile (· = '\\')).length % 2 = 1 then ' ' :: rest
    else trimUnescapedTrailingSpaces rest
  | text => text

def trimEnd (s : String) : String :=
  match s.toList.reverse with
  | '\r' :: rest => .ofList (trimUnescapedTrailingSpaces rest).reverse
  | text => .ofList (trimUnescapedTrailingSpaces text).reverse

/-- Comments have no rule; the flag says whether the line is negated. -/
def cutMarks : List Char → Option (List Char × Bool)
  | '\\' :: '#' :: rest => some ('#' :: rest, false)
  | '#' :: _ => none
  | '\\' :: '!' :: rest => some ('!' :: rest, false)
  | '!' :: rest => some (rest, true)
  | text => some (text, false)

/-- The line without the slashes at its end and one at its beginning. -/
def trimSlashes (line : List String) : List String :=
  let trimmed := line.rdropWhile (· = "")
  if trimmed.head? = some "" then trimmed.tail else trimmed

def parsePattern (base line : List String) (negated : Bool) : Option Rule :=
  let body := trimSlashes line
  if body = [] ∨ clean body = ["."] then none
  else some {
    pattern := "/".intercalate (clean body)
    patternParts := clean body
    dirOnly := 1 < line.length && line.getLast? = some ""
    hasSlash := 1 < (clean body).length
    base, negated }

/-- The line without a carriage return and the spaces at its end, which git drops as well. -/
def trimLine (line : List String) : List String := line.dropLast ++ [trimEnd (line.getLastD "")]

def parseWatchIgnoreRule (base line : List String) : Option Rule :=
  match trimLine line with
  | [] => none
  | first :: rest =>
    (cutMarks first.toList).bind fun (text, negated) =>
      parsePattern base (.ofList text :: rest) negated

/-- A line with a pattern: its marks, and the segments between the slashes. A line that begins with
a number sign is a comment. -/
structure Line where
  negated : Bool
  leading : Bool
  trailing : Bool
  parts : List String
  nonempty : parts ≠ []
  plain : ∀ s ∈ parts, '[' ∉ s.toList ∧ '\\' ∉ s.toList ∧ '/' ∉ s.toList
  first : leading = false → parts.head? ≠ some "" ∧
    (negated = false → (parts.headD "").toList.head? ∉ [some '#', some '!'])
  last : trailing = false → parts.getLast? ≠ some ""

namespace Line

variable (x : Line)

def slashes : List String :=
  (if x.leading then [""] else []) ++ x.parts ++ if x.trailing then [""] else []

def text : List String := x.slashes.modifyHead fun s => if x.negated then "!" ++ s else s

def anchored : Bool := x.leading || 1 < x.parts.length

end Line

def MatchesPath : List String → List String → Prop :=
  Matches (· = "**") fun a b => wild a.toList b.toList

/-- The meaning of a line in git. A last `**` stands for all that is inside. -/
def Line.Ignores (x : Line) (sub : List String) (isDir : Bool) : Prop :=
  (if x.anchored then
    if x.parts.getLast? = some "**" then
      ∃ dir rest, sub = dir ++ rest ∧ rest ≠ [] ∧ MatchesPath x.parts.dropLast dir
    else MatchesPath x.parts sub
  else wild (x.parts.headD "").toList (sub.getLastD "").toList = true) ∧
  (x.trailing = true → isDir = true)

def IsName (s : String) : Prop := s ∉ reserved ∧ '/' ∉ s.toList

/-- When the rule of a line has the line's meaning. If the segments are names, a leading slash is
not the only one, and a last `**` has only its like before it (`/**` alone selects everything). A
line with another segment matches nothing in git, so that a part of it must be left when the
path is cleaned. -/
def Line.Faithful (x : Line) : Prop :=
  ((∀ s ∈ x.parts, s ∉ reserved) →
    (x.leading = true → 1 < x.parts.length ∨ x.parts = ["**"]) ∧
      (x.parts.getLast? = some "**" → ∀ s ∈ x.parts, s = "**")) ∧
  ((∃ s ∈ x.parts, s ∈ reserved) →
    trimSlashes x.slashes = [] ∨ ∃ s ∈ clean (trimSlashes x.slashes), s ∈ reserved)

variable {lib} {x : Line} {parts sub : List String} {s : String} {isDir : Bool}

theorem matchGitignoreSegment_eq {pattern name : String}
    (h : '[' ∉ pattern.toList ∧ '\\' ∉ pattern.toList) :
    matchGitignoreSegment lib pattern name = wild pattern.toList name.toList := by
  unfold matchGitignoreSegment
  split
  · rw [lib.pathMatch_eq h]
    rfl
  · next hplain =>
    have hwild : '*' ∉ pattern.toList ∧ '?' ∉ pattern.toList := by
      constructor <;> exact fun hc => hplain (any_eq_true.mpr ⟨_, hc, by decide⟩)
    rw [Bool.eq_iff_iff, wild_iff hwild, decide_eq_true_iff, String.toList_inj]

theorem cleanSegment_subset (r : Bool) (out : List String) (t : String) :
    cleanSegment r out t ⊆ t :: out := by
  cases out <;> simp only [cleanSegment] <;> split_ifs <;> simp

theorem mem_foldl_clean {r : Bool} {out : List String}
    (hs : s ∈ parts.foldl (cleanSegment r) out) : s ∈ parts ∨ s ∈ out := by
  induction parts generalizing out with
  | nil => exact .inr hs
  | cons t parts ih =>
    rcases ih hs with h | h
    · exact .inl (mem_cons_of_mem t h)
    · rcases mem_cons.mp (cleanSegment_subset r out t h) with rfl | h
      · exact .inl mem_cons_self
      · exact .inr h

theorem clean_subset (hs : s ∈ clean parts) : s ∈ parts ∨ s = "" ∨ s = "." := by
  have hmem := fun r h => (@mem_foldl_clean parts s r [] h).resolve_right not_mem_nil
  unfold clean at hs
  split at hs <;> split at hs <;> grind

theorem clean_ne (parts : List String) : clean parts ≠ [] := by
  unfold clean
  split <;> split <;> simp_all

theorem clean_eq (hne : parts ≠ []) (h : ∀ s ∈ parts, s ∉ reserved) :
    clean parts = parts := by
  have hfold : ∀ (l out : List String), (∀ s ∈ l, s ∉ reserved) →
      l.foldl (cleanSegment false) out = l.reverse ++ out := by
    intro l
    induction l with
    | nil => exact fun out hl => rfl
    | cons s l ih =>
      intro out hl
      obtain ⟨hs, hl⟩ := forall_mem_cons.mp hl
      have hpush : cleanSegment false out s = s :: out := by simp_all [cleanSegment, reserved]
      rw [foldl_cons, hpush, ih _ hl, reverse_cons, append_assoc]
      rfl
  have hhead : parts.head? ≠ some "" := fun hhead =>
    h "" (mem_of_mem_head? hhead) (by decide)
  rw [clean, if_neg hhead, hfold _ _ h, append_nil]
  split <;> simp_all

theorem exists_eq_singleton (hne : parts ≠ []) (hlen : ¬ 1 < parts.length) : ∃ s, parts = [s] :=
  length_eq_one_iff.mp (le_antisymm (not_lt.mp hlen) (length_pos_iff.mpr hne))

/-- What the rule of a pattern with these segments matches. -/
def Hits (parts sub : List String) : Prop :=
  if 1 < parts.length then MatchesPath parts sub
  else wild (parts.headD "").toList (sub.getLastD "").toList = true

theorem matchesExact_iff {r : Rule} (hr : r.pattern = "/".intercalate r.patternParts)
    (hslash : r.hasSlash = decide (1 < r.patternParts.length)) (hne : r.patternParts ≠ [])
    (hplain : ∀ s ∈ r.patternParts, '[' ∉ s.toList ∧ '\\' ∉ s.toList) :
    r.matchesExact (globs lib) sub isDir = true ↔
      Hits r.patternParts sub ∧ (r.dirOnly = true → isDir = true) := by
  have hdir : (!r.dirOnly || isDir) = true ↔ (r.dirOnly = true → isDir = true) := by
    cases r.dirOnly <;> simp
  rw [Rule.matchesExact, Bool.and_eq_true, hdir, hslash, hr, Hits]
  refine and_congr_left' ?_
  by_cases hlen : 1 < r.patternParts.length
  · simp only [hlen, decide_true, if_true, globs, MatchesPath]
    rw [← matchParts_iff, matchParts_congr fun s hs => funext fun name =>
      matchGitignoreSegment_eq (hplain s hs)]
  · obtain ⟨s, hs⟩ := exists_eq_singleton hne hlen
    simp only [globs, hs]
    change matchGitignoreSegment lib s _ = true ↔ wild s.toList _ = true
    rw [matchGitignoreSegment_eq (hplain s (by simp [hs]))]

theorem dirOnly_slashes (x : Line) :
    (decide (1 < x.slashes.length) && decide (x.slashes.getLast? = some "")) = x.trailing := by
  have hlen := length_pos_iff.mpr x.nonempty
  have hlast := x.last
  unfold Line.slashes
  cases htrailing : x.trailing with
  | false => simp_all [getLast?_append, getLast?_eq_some_getLast x.nonempty]
  | true =>
    simp
    omega

theorem parse_text {line : List String} (base : List String) (hline : trimLine line = x.text) :
    parseWatchIgnoreRule base line = parsePattern base x.slashes x.negated := by
  obtain ⟨first, rest, hslashes⟩ : ∃ first rest, x.slashes = first :: rest :=
    exists_cons_of_ne_nil (by simp [Line.slashes, x.nonempty])
  have htext : x.text = (if x.negated then "!" ++ first else first) :: rest := by
    rw [Line.text, hslashes, modifyHead_cons]
  rw [parseWatchIgnoreRule, hline, hslashes, htext]
  cases hn : x.negated with
  | false =>
    have hmarks : cutMarks first.toList = some (first.toList, false) := by
      obtain ⟨s, parts, hparts⟩ := exists_cons_of_ne_nil x.nonempty
      have hplain := (x.plain s (by simp [hparts])).2.1
      have hfirst := x.first
      cases hleading : x.leading <;> simp_all [Line.slashes]
      · obtain ⟨rfl, -⟩ := hslashes
        unfold cutMarks
        split <;> simp_all
      · obtain ⟨rfl, -⟩ := hslashes
        rfl
    simp only [Bool.false_eq_true, if_false, hmarks, Option.bind_some, String.ofList_toList]
  | true =>
    have hmarks : cutMarks ("!" ++ first).toList = some (first.toList, true) := by
      rw [String.toList_append]
      rfl
    simp only [if_true, hmarks, Option.bind_some, String.ofList_toList]

theorem trimSlashes_slashes (hx : ∀ s ∈ x.parts, s ∉ reserved) :
    trimSlashes x.slashes = x.parts := by
  have hparts : ∀ s ∈ x.parts, s ≠ "" := fun s hs h => hx s hs (by simp [h, reserved])
  have hkept (l : List String) : (l ++ x.parts).rdropWhile (· = "") = l ++ x.parts := by
    rw [rdropWhile_eq_self_iff]
    intro hne
    rw [getLast_append_of_ne_nil hne x.nonempty]
    simpa using hparts _ (getLast_mem x.nonempty)
  have htrimmed : x.slashes.rdropWhile (· = "") = (if x.leading then [""] else []) ++ x.parts := by
    unfold Line.slashes
    cases x.trailing
    · exact (congrArg _ (append_nil _)).trans (hkept _)
    · exact (rdropWhile_concat_pos _ _ _ (by simp)).trans (hkept _)
  obtain ⟨s, rest, hs⟩ := exists_cons_of_ne_nil x.nonempty
  have hfirst := hparts s (by simp [hs])
  rw [trimSlashes, htrimmed]
  cases x.leading <;> simp [hs, hfirst]

theorem mem_trimSlashes (hs : s ∈ trimSlashes x.slashes) : s ∈ x.parts ∨ s = "" := by
  have hmem : s ∈ x.slashes := by
    simp only [trimSlashes] at hs
    split at hs
    · exact ( rdropWhile_prefix _ _).subset (mem_of_mem_tail hs)
    · exact ( rdropWhile_prefix _ _).subset hs
  unfold Line.slashes at hmem
  split at hmem <;> split at hmem <;> simp_all <;> tauto

theorem plain_clean (hs : s ∈ clean (trimSlashes x.slashes)) :
    '[' ∉ s.toList ∧ '\\' ∉ s.toList ∧ '/' ∉ s.toList := by
  rcases clean_subset hs with hs | rfl | rfl
  · rcases mem_trimSlashes hs with hs | rfl
    · exact x.plain s hs
    · decide
  · decide
  · decide +kernel

/-- The path is matched by what is left of the line when it is cleaned. -/
theorem matched_iff (lib : Library) (isDir : Bool) {line : List String} (base : List String)
    (hline : trimLine line = x.text) (hsub : sub ≠ []) :
    (parseWatchIgnoreRule base line).any
        (·.matchesEntry (globs lib) (base ++ sub) isDir) = true ↔
      trimSlashes x.slashes ≠ [] ∧ clean (trimSlashes x.slashes) ≠ ["."] ∧
        Hits (clean (trimSlashes x.slashes)) sub ∧ (x.trailing = true → isDir = true) := by
  rw [parse_text base hline, parsePattern, dirOnly_slashes]
  split
  · next h => exact iff_of_false (by simp) fun hne => h.elim hne.1 hne.2.1
  · next h =>
    rw [not_or] at h
    rw [Option.any_some, Rule.matchesEntry_base, decide_eq_true (length_pos_iff.mpr hsub),
      Bool.true_and, matchesExact_iff rfl rfl (clean_ne _) fun s hs => ?_]
    · simp [h]
    · exact ⟨(plain_clean hs).1, (plain_clean hs).2.1⟩

theorem not_matchesPath (hs : s ∈ parts) (hr : s ∈ reserved)
    (hsub : ∀ t ∈ sub, IsName t) : ¬ MatchesPath parts sub := by
  intro h
  have hliteral : s ≠ "**" ∧ '*' ∉ s.toList ∧ '?' ∉ s.toList := by
    simp only [reserved, mem_cons, not_mem_nil, or_false] at hr
    rcases hr with rfl | rfl | rfl <;> decide +kernel
  obtain ⟨b, hb, hone⟩ := Matches.exists_one h hs (decide_eq_false hliteral.1)
  rw [wild_iff hliteral.2, String.toList_inj] at hone
  exact (hsub b hb).1 (hone ▸ hr)

theorem not_hits (hs : s ∈ parts) (hr : s ∈ reserved) (hne : sub ≠ [])
    (hsub : ∀ t ∈ sub, IsName t) : ¬ Hits parts sub := by
  unfold Hits
  split
  · exact not_matchesPath hs hr hsub
  · next hlen =>
    obtain ⟨t, rfl⟩ := exists_eq_singleton (ne_nil_of_mem hs) hlen
    obtain rfl := mem_singleton.mp hs
    intro h
    have hlast : ∀ t ∈ [sub.getLast hne], IsName t := by simpa using hsub _ (getLast_mem hne)
    refine not_matchesPath hs hr hlast (.of_forall₂ (.cons (.inr ?_) .nil))
    simpa [getLastD_eq_getLast?, getLast?_eq_some_getLast hne] using h

/-- The segments that stand for one segment each. -/
def singles (parts : List String) : List String := parts.filter fun s => !decide (s = "**")

theorem matchesPath_singles (parts : List String) : MatchesPath parts (singles parts) :=
  matches_filter (fun s : String => wild_self s.toList) parts

theorem matchesPath_nil (h : ∀ s ∈ parts, s = "**") : MatchesPath parts [] := by
  have hnone : singles parts = [] := filter_eq_nil_iff.mpr fun s hs => by simp [h s hs]
  exact hnone ▸ matchesPath_singles parts

theorem hits_of_faithful (hlead : x.leading = true → 1 < x.parts.length ∨ x.parts = ["**"])
    (hstar : x.parts.getLast? = some "**" → ∀ s ∈ x.parts, s = "**") (hsub : sub ≠ []) :
    Hits x.parts sub ∧ (x.trailing = true → isDir = true) ↔ x.Ignores sub isDir := by
  refine and_congr_left' ?_
  by_cases hlen : 1 < x.parts.length
  · have hanchored : x.anchored = true := by simp [Line.anchored, hlen]
    rw [Hits, if_pos hlen, if_pos hanchored]
    split
    · next hlast =>
      -- where `**` is all there is, everything is matched
      obtain ⟨s, rest, hs⟩ := exists_cons_of_ne_nil x.nonempty
      have hall : ∀ t ∈ s :: rest, t = "**" := hs ▸ hstar hlast
      refine iff_of_true ?_ ⟨[], sub, rfl, hsub, ?_⟩
      · rw [hs, ← append_nil sub]
        exact .any (decide_eq_true (hall s mem_cons_self))
          (matchesPath_nil fun t ht => hall t (mem_cons_of_mem s ht))
      · exact matchesPath_nil fun t ht => hstar hlast t (mem_of_mem_dropLast ht)
    · rfl
  · rw [Hits, if_neg hlen]
    cases hleading : x.leading with
    | false => simp [Line.anchored, hleading, hlen]
    | true =>
      have hparts := (hlead hleading).resolve_left hlen
      have hanchored : x.anchored = true := by simp [Line.anchored, hleading]
      rw [if_pos hanchored, hparts]
      refine iff_of_true (matchParts_iff.mpr ?_) ⟨[], sub, rfl, hsub, .nil⟩
      exact append_nil (sub.getLastD "").toList ▸ .any rfl (.any (r := []) rfl .nil)

theorem faithful_of_hits (hx : ∀ s ∈ x.parts, s ∉ reserved)
    (h : ∀ sub isDir, sub ≠ [] → (∀ s ∈ sub, IsName s) →
      (Hits x.parts sub ∧ (x.trailing = true → isDir = true) ↔ x.Ignores sub isDir)) :
    (x.leading = true → 1 < x.parts.length ∨ x.parts = ["**"]) ∧
      (x.parts.getLast? = some "**" → ∀ s ∈ x.parts, s = "**") := by
  have hname : ∀ s ∈ x.parts, IsName s := fun s hs => ⟨hx s hs, (x.plain s hs).2.2⟩
  constructor
  · intro hleading
    by_contra! hshort
    obtain ⟨s, hs⟩ := exists_eq_singleton x.nonempty (not_lt.mpr hshort.1)
    have hstar : s ≠ "**" := fun heq => hshort.2 (heq ▸ hs)
    have hself : Hits x.parts [s, s] := by
      rw [Hits, if_neg (not_lt.mpr hshort.1), hs]
      exact wild_self _
    have hignores := (h [s, s] true (by simp) (by simp [hname s (by simp [hs])])).mp
      ⟨hself, fun _ => rfl⟩
    have hpath : MatchesPath [s] [s, s] := by
      simpa [Line.Ignores, Line.anchored, hleading, hs, hstar] using hignores.1
    obtain ⟨b, l, hl, -, ⟨⟩⟩ := Matches.uncons hpath (decide_eq_false hstar)
    cases hl
  · intro hlast
    by_contra! hother
    obtain ⟨s, hs, hne⟩ := hother
    have hlen : 1 < x.parts.length := by
      by_contra hlen
      obtain ⟨t, ht⟩ := exists_eq_singleton x.nonempty hlen
      simp_all
    have hmem : s ∈ singles x.parts := mem_filter.mpr ⟨hs, by simp [hne]⟩
    have hself : Hits x.parts (singles x.parts) := by
      rw [Hits, if_pos hlen]
      exact matchesPath_singles _
    have hignores := (h _ true (ne_nil_of_mem hmem) fun t ht =>
      hname t (mem_of_mem_filter ht)).mp ⟨hself, fun _ => rfl⟩
    obtain ⟨dir, rest, hsplit, hrest, hdir⟩ : ∃ dir rest, singles x.parts = dir ++ rest ∧
        rest ≠ [] ∧ MatchesPath x.parts.dropLast dir := by
      simpa [Line.Ignores, Line.anchored, hlen, hlast] using hignores.1
    -- what stands before the `**` needs as many segments as there are
    have hle : (singles x.parts.dropLast).length ≤ dir.length := hdir.length_le
    have hsame : singles x.parts = singles x.parts.dropLast := by
      conv_lhs => rw [← dropLast_append_getLast? _ hlast]
      simp [singles]
    have hlength := congrArg length hsplit
    have hpos := length_pos_iff.mpr hrest
    rw [length_append, hsame] at hlength
    omega

theorem not_ignores (hs : s ∈ x.parts) (hr : s ∈ reserved) (hne : sub ≠ [])
    (hsub : ∀ t ∈ sub, IsName t) : ¬ x.Ignores sub isDir := by
  have hstar : s ≠ "**" := by
    rintro rfl
    exact absurd hr (by decide)
  rintro ⟨h, -⟩
  split at h
  · split at h
    · next hlast =>
      obtain ⟨dir, rest, rfl, -, h⟩ := h
      have hmem : s ∈ x.parts.dropLast := by
        rw [← dropLast_append_getLast? _ hlast] at hs
        simpa [hstar] using hs
      exact not_matchesPath hmem hr (fun t ht => hsub t (mem_append_left _ ht)) h
    · exact not_matchesPath hs hr hsub h
  · next hanchored =>
    have hlen : ¬ 1 < x.parts.length := by simp_all [Line.anchored]
    exact not_hits hs hr hne hsub (by rwa [Hits, if_neg hlen])

theorem hits_self (hne : parts ≠ []) : Hits parts parts := by
  unfold Hits
  split
  · exact .of_forall₂ (forall₂_same.mpr fun s _ => .inr (wild_self _))
  · next hlen =>
    obtain ⟨s, rfl⟩ := exists_eq_singleton hne hlen
    exact wild_self _

/-- **When a rule has the meaning of its line**, for every path. -/
theorem matchesEntry_iff (base : List String) {line : List String}
    (hline : trimLine line = x.text) :
    (∀ r, parseWatchIgnoreRule base line = some r → r.negated = x.negated) ∧
    ((∀ sub isDir, sub ≠ [] → (∀ s ∈ sub, IsName s) →
      ((parseWatchIgnoreRule base line).any
        (·.matchesEntry (globs lib) (base ++ sub) isDir) = true ↔ x.Ignores sub isDir)) ↔
      x.Faithful) := by
  constructor
  · intro r hr
    rw [parse_text base hline, parsePattern] at hr
    split at hr
    · cases hr
    · exact (Option.some.inj hr) ▸ rfl
  have hmatched := fun sub isDir (hsub : sub ≠ []) => matched_iff lib isDir base hline hsub
  by_cases hx : ∀ s ∈ x.parts, s ∉ reserved
  · have hdot : x.parts ≠ ["."] := fun h => hx "." (by simp [h]) (by decide)
    have hfaithful : x.Faithful ↔
        (x.leading = true → 1 < x.parts.length ∨ x.parts = ["**"]) ∧
          (x.parts.getLast? = some "**" → ∀ s ∈ x.parts, s = "**") :=
      ⟨fun h => h.1 hx, fun h => ⟨fun _ => h, fun ⟨s, hs, hr⟩ => absurd hr (hx s hs)⟩⟩
    simp only [trimSlashes_slashes hx, clean_eq x.nonempty hx, ne_eq, x.nonempty, hdot,
      not_false_iff, true_and] at hmatched
    rw [hfaithful]
    constructor
    · intro h
      exact faithful_of_hits hx fun sub isDir hne hsub =>
        (hmatched sub isDir hne).symm.trans (h sub isDir hne hsub)
    · exact fun h sub isDir hne _ => (hmatched sub isDir hne).trans (hits_of_faithful h.1 h.2 hne)
  · push Not at hx
    obtain ⟨s, hs, hr⟩ := hx
    have hfaithful : x.Faithful ↔ trimSlashes x.slashes = [] ∨
        ∃ s ∈ clean (trimSlashes x.slashes), s ∈ reserved :=
      ⟨fun h => h.2 ⟨s, hs, hr⟩, fun h => ⟨fun hx => absurd hr (hx s hs), fun _ => h⟩⟩
    rw [hfaithful]
    constructor
    · intro h
      by_contra! hleft
      have hnames : ∀ t ∈ clean (trimSlashes x.slashes), IsName t := by
        exact fun t ht => ⟨hleft.2 t ht, (plain_clean ht).2.2⟩
      have hdot : clean (trimSlashes x.slashes) ≠ ["."] :=
        fun heq => hleft.2 "." (by simp [heq]) (by decide)
      exact not_ignores hs hr (clean_ne _) hnames ((h _ true (clean_ne _) hnames).mp
        ((hmatched _ _ (clean_ne _)).mpr ⟨hleft.1, hdot, hits_self (clean_ne _), fun _ => rfl⟩))
    · intro h sub isDir hne hsub
      refine iff_of_false (fun hmatch => ?_) (not_ignores hs hr hne hsub)
      obtain ⟨hbody, -, hhits, -⟩ := (hmatched sub isDir hne).mp hmatch
      obtain ⟨t, ht, htr⟩ := h.resolve_left hbody
      exact not_hits ht htr hne hsub hhits

def documented : Library where
  pathMatch pattern name := some (wild pattern.toList name.toList)
  pathMatch_eq _ := rfl

/-- The line `a/*` with two spaces behind it -/
def inner : Line := ⟨false, false, false, ["a", "*"], by decide, by decide +kernel, by decide +kernel,
  by decide⟩

theorem matchesEntry_iff_inner : inner.Faithful ∧
    ∀ sub isDir, sub ≠ [] → (∀ s ∈ sub, IsName s) →
      ((parseWatchIgnoreRule ["src"] ["a", "*  "]).any
        (·.matchesEntry (globs documented) (["src"] ++ sub) isDir) = true ↔
          inner.Ignores sub isDir) := by
  have hfaithful : inner.Faithful := ⟨fun _ => by decide +kernel, by decide +kernel⟩
  exact ⟨hfaithful, (matchesEntry_iff ["src"] (by decide +kernel)).2.mpr hfaithful⟩

def rooted : Line := ⟨false, true, false, ["a"], by decide, by decide +kernel, nofun, by decide⟩

/-- The rule of `/a` matches `b/a`. -/
theorem rooted_matches_below :
    ((parseWatchIgnoreRule [] rooted.text).any
      (·.matchesEntry (globs documented) ["b", "a"] false)) = true ∧
    ¬ rooted.Ignores ["b", "a"] false := by
  refine ⟨by decide +kernel, fun h => ?_⟩
  have hmatch : MatchesPath ["a"] ["b", "a"] := h.1
  exact absurd (matchParts_iff.mpr hmatch) (by decide +kernel)

end Scenery.Watchignore
