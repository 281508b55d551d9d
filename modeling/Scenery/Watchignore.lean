import Mathlib.Data.List.DropRight
import Scenery.Dictionary
import Scenery.Runs

/-!
# Ignored entries

`internal/watchignore`: the rules of a walk over a tree, where the contribution of a directory
is kept while the rules of further directories are appended.
-/

namespace Scenery.Watchignore

open List

def last {α : Type} (p : α → Bool) (rules : List α) : ℕ := (rules.rdropWhile fun r => !p r).length

section Last

variable {α : Type} {p q : α → Bool} {rules : List α} {r : α}

theorem last_le (p : α → Bool) (rules : List α) : last p rules ≤ rules.length :=
  ( rdropWhile_prefix _ rules).length_le

theorem last_concat_pos (h : p r = true) : last p (rules ++ [r]) = rules.length + 1 := by
  rw [last, rdropWhile_concat_neg _ _ _ (by simp [h]), length_append,
    length_singleton]

theorem last_concat_neg (h : p r = false) : last p (rules ++ [r]) = last p rules := by
  rw [last, rdropWhile_concat_pos _ _ _ (by simp [h]), last]

theorem drop_concat (p : α → Bool) (rules : List α) (r : α) :
    (rules ++ [r]).drop (last p rules) = rules.drop (last p rules) ++ [r] :=
  drop_append_of_le_length (last_le p rules)

theorem last_append {more : List α} (h : ∀ r ∈ more, p r = false) :
    last p (rules ++ more) = last p rules := by
  induction more using List.reverseRecOn with
  | nil => rw [append_nil]
  | append_singleton more r ih =>
    rw [← append_assoc, last_concat_neg (h r (by simp)), ih fun r hr => h r (by simp [hr])]

/-- A second search looks only behind the first one's hit. -/
theorem last_or (p q : α → Bool) (rules : List α) :
    last p rules + last q (rules.drop (last p rules)) = last (fun r => p r || q r) rules := by
  induction rules using List.reverseRecOn with
  | nil => rfl
  | append_singleton rules r ih =>
    cases hp : p r with
    | true =>
      rw [last_concat_pos hp, last_concat_pos (by simp [hp]), drop_of_length_le (by simp)]
      rfl
    | false =>
      rw [last_concat_neg hp, drop_concat]
      cases hq : q r with
      | true =>
        have := last_le p rules
        rw [last_concat_pos hq, last_concat_pos (by simp [hq]), length_drop]
        omega
      | false => rw [last_concat_neg hq, last_concat_neg (by simp [hp, hq]), ih]

/-- The last rule of `p` or `q` decides; behind the last one of `p`, only `q` is looked at. -/
theorem find_or (value : α → Bool) (hp : ∀ r, p r = true → value r = true) (q : α → Bool)
    (rules : List α) :
    ((rules.drop (last p rules)).reverse.find? q).elim (decide (0 < last p rules)) value =
      (rules.reverse.find? fun r => q r || p r).any value := by
  induction rules using List.reverseRecOn with
  | nil => rfl
  | append_singleton rules r ih =>
    cases h : p r with
    | true =>
      rw [last_concat_pos h, drop_of_length_le (by simp), reverse_concat,
        find?_cons_of_pos (by simp [h])]
      simp [hp r h]
    | false =>
      rw [last_concat_neg h, drop_concat, reverse_concat, reverse_concat]
      cases hq : q r with
      | true =>
        rw [find?_cons_of_pos hq, find?_cons_of_pos (by simp [hq])]
        rfl
      | false =>
        rw [find?_cons_of_neg (by simp [hq]), find?_cons_of_neg (by simp [h, hq]), ih]

theorem any_or (p q : α → Bool) (rules : List α) :
    (rules.any fun r => p r || q r) = (rules.any p || rules.any q) := by
  rw [Bool.eq_iff_iff, Bool.or_eq_true, any_eq_true, any_eq_true, any_eq_true]
  simp only [Bool.or_eq_true, and_or_left, exists_or]

end Last

structure Pattern where
  pattern : String
  patternParts : List String
  dirOnly : Bool
  hasSlash : Bool

structure Rule extends Pattern where
  base : List String
  negated : Bool

def Pattern.rule (p : Pattern) : Rule := ⟨p, [], false⟩

structure Globs where
  segment : String → String → Bool
  path : List String → List String → Bool

variable (g : Globs)

def partsUnderWatchBase (parts base : List String) : Option (List String) :=
  if base.isPrefixOf parts then some (parts.drop base.length) else none

namespace Rule

def matchesExact (r : Rule) (sub : List String) (isDir : Bool) : Bool :=
  (if r.hasSlash then g.path r.patternParts sub else g.segment r.pattern (sub.getLastD "")) &&
    (!r.dirOnly || isDir)

def matchesSelfOrParent (r : Rule) (sub : List String) (isDir : Bool) : Bool :=
  (List.range sub.length).any fun i =>
    r.matchesExact g (sub.take (i + 1)) (decide (i + 1 < sub.length) || isDir)

def «matches» (r : Rule) (parts : List String) (isDir : Bool) : Bool :=
  match partsUnderWatchBase parts r.base with
  | none => false
  | some sub => decide (0 < sub.length) &&
    if r.negated then r.matchesExact g sub isDir else r.matchesSelfOrParent g sub isDir

def matchesEntry (r : Rule) (parts : List String) (isDir : Bool) : Bool :=
  match partsUnderWatchBase parts r.base with
  | none => false
  | some sub => decide (0 < sub.length) && r.matchesExact g sub isDir

def matchesParent (r : Rule) (parts : List String) : ℕ → Bool
  | 0 => false
  | n + 1 => r.matchesParent parts n || r.matchesEntry g (parts.take (n + 1)) true

variable {g} {r : Rule} {parts sub : List String} {isDir : Bool} {n : ℕ}

theorem base_of_matchesEntry (h : r.matchesEntry g parts isDir = true) :
    r.base <+: parts ∧ r.base.length < parts.length := by
  unfold matchesEntry partsUnderWatchBase at h
  by_cases hbase : r.base <+: parts
  · simp only [ isPrefixOf_iff_prefix.mpr hbase, if_true, Bool.and_eq_true, decide_eq_true_eq,
      length_drop] at h
    exact ⟨hbase, by omega⟩
  · simp [hbase] at h

theorem base_of_matchesParent (h : r.matchesParent g parts n = true) :
    r.base <+: parts ∧ r.base.length < n := by
  induction n with
  | zero => cases h
  | succ n ih =>
    rcases Bool.or_eq_true_iff.mp h with h | h
    · exact ⟨(ih h).1, Nat.lt_succ_of_lt (ih h).2⟩
    · obtain ⟨hbase, hlength⟩ := base_of_matchesEntry h
      rw [length_take] at hlength
      exact ⟨hbase.trans ( take_prefix _ _), by omega⟩

theorem matchesParent_append {more : List String} (h : n ≤ parts.length) :
    r.matchesParent g (parts ++ more) n = r.matchesParent g parts n := by
  induction n with
  | zero => rfl
  | succ n ih =>
    rw [matchesParent, matchesParent, ih (by omega), take_append_of_le_length h]

theorem matchesParent_take (h : n ≤ parts.length) :
    r.matchesParent g (parts.take n) n = r.matchesParent g parts n := by
  conv_rhs => rw [← take_append_drop n parts]
  exact (matchesParent_append (length_take_of_le h).ge).symm

theorem matchesEntry_base (sub : List String) :
    r.matchesEntry g (r.base ++ sub) isDir =
      (decide (0 < sub.length) && r.matchesExact g sub isDir) := by
  simp [matchesEntry, partsUnderWatchBase]

theorem matchesSelfOrParent_concat (x : String) : r.matchesSelfOrParent g (sub ++ [x]) isDir =
    (r.matchesSelfOrParent g sub true || r.matchesExact g (sub ++ [x]) isDir) := by
  rw [Bool.eq_iff_iff]
  simp only [matchesSelfOrParent, length_append, length_singleton, range_succ,
    any_append, Bool.or_eq_true, any_eq_true, mem_range]
  refine or_congr (exists_congr fun i => and_congr_right fun hi => ?_)
    (by simp [take_of_length_le])
  rw [take_append_of_le_length hi, decide_eq_true (by omega), Bool.or_true, Bool.true_or]

/-- Above an entry, a rule matches what it matches below its base. -/
theorem matchesParent_base (sub : List String) :
    r.matchesParent g (r.base ++ sub) (r.base ++ sub).length = r.matchesSelfOrParent g sub true := by
  induction sub using List.reverseRecOn with
  | nil =>
    rw [Bool.eq_false_iff.mpr fun h => absurd (base_of_matchesParent h).2 (by simp)]
    rfl
  | append_singleton sub x ih =>
    rw [← append_assoc, length_append, length_singleton, matchesParent,
      matchesParent_append le_rfl, ih, ← length_singleton, ← length_append,
      take_length, append_assoc, matchesEntry_base, matchesSelfOrParent_concat]
    simp

/-- A rule matches an entry when it matches the entry itself or, unless it is negated, one of its
parents. -/
theorem matches_eq (parts : List String) : r.«matches» g parts isDir =
    (r.matchesEntry g parts isDir ||
      (!r.negated && r.matchesParent g parts (parts.length - 1))) := by
  by_cases hbase : r.base <+: parts
  · obtain ⟨sub, rfl⟩ := hbase
    have hall : r.«matches» g (r.base ++ sub) isDir = (decide (0 < sub.length) &&
        if r.negated then r.matchesExact g sub isDir else r.matchesSelfOrParent g sub isDir) := by
      simp [«matches», partsUnderWatchBase]
    rw [hall, matchesEntry_base]
    induction sub using List.reverseRecOn with
    | nil =>
      rw [Bool.eq_false_iff.mpr fun h => absurd (base_of_matchesParent h).2 (by simp)]
      simp
    | append_singleton sub x ih =>
      have hlength : (r.base ++ sub ++ [x]).length - 1 = (r.base ++ sub).length := by simp
      rw [← append_assoc, hlength, matchesParent_append le_rfl, matchesParent_base,
        matchesSelfOrParent_concat]
      cases r.negated <;> simp [Bool.or_comm]
  · have hself : r.matchesEntry g parts isDir = false :=
      Bool.eq_false_iff.mpr fun h => hbase (base_of_matchesEntry h).1
    have hparent : r.matchesParent g parts (parts.length - 1) = false :=
      Bool.eq_false_iff.mpr fun h => hbase (base_of_matchesParent h).1
    simp [«matches», partsUnderWatchBase, hbase, hself, hparent]

end Rule

structure ParentIgnore where
  configured : Bool
  lastRule : ℕ

structure Matcher where
  loaded : List (List String)
  configRules : List Pattern
  gitRules : List Rule
  parents : Dictionary (List String) ParentIgnore

namespace Matcher

/-- `LoadDir`, with the rules of the directory's file; `LoadDirEntries`, with none when the
directory lists no file. -/
def loadDir (m : Matcher) (rel : List String) (lines : List (Pattern × Bool)) : Matcher :=
  if m.loaded.any (· = rel) then m
  else { m with
    loaded := rel :: m.loaded
    gitRules := m.gitRules ++ lines.map fun l => ⟨l.1, rel, l.2⟩ }

def new (patterns : List Pattern) (lines : List (Pattern × Bool)) : Matcher :=
  loadDir ⟨[], patterns, [], []⟩ [] lines

def ignored (m : Matcher) (parts : List String) (isDir : Bool) : Bool :=
  if m.configRules.isEmpty && m.gitRules.isEmpty || parts.isEmpty then false
  else m.configRules.any (·.rule.«matches» g parts isDir) ||
    (m.gitRules.reverse.find? (·.«matches» g parts isDir)).any (!·.negated)

def parentIgnore (m : Matcher) (parts : List String) :
    ℕ → ParentIgnore × Dictionary (List String) ParentIgnore
  | 0 => (⟨false, 0⟩, m.parents)
  | n + 1 =>
    let dir := parts.take (n + 1)
    match m.parents.get dir with
    | some state => (state, m.parents)
    | none =>
      let (parent, parents) := m.parentIgnore parts n
      let state : ParentIgnore :=
        ⟨parent.configured || m.configRules.any (·.rule.matchesEntry g dir true),
          parent.lastRule + last (fun r => !r.negated && r.matchesEntry g dir true)
            (m.gitRules.drop parent.lastRule)⟩
      (state, parents.set dir state)

def ignoredEntry (m : Matcher) (parts : List String) (isDir : Bool) : Bool × Matcher :=
  if m.configRules.isEmpty && m.gitRules.isEmpty || parts.isEmpty then (false, m)
  else
    let (parent, parents) := m.parentIgnore g parts (parts.length - 1)
    (parent.configured || m.configRules.any (·.rule.matchesEntry g parts isDir) ||
      ((m.gitRules.drop parent.lastRule).reverse.find? (·.matchesEntry g parts isDir)).elim
        (decide (0 < parent.lastRule)) (!·.negated), { m with parents })

def contribution (m : Matcher) (parts : List String) (n : ℕ) : ParentIgnore :=
  ⟨m.configRules.any (·.rule.matchesParent g parts n),
    last (fun r => !r.negated && r.matchesParent g parts n) m.gitRules⟩

def Loaded (m : Matcher) (parts : List String) (n : ℕ) : Prop := ∀ k ≤ n, parts.take k ∈ m.loaded

def Memo (m : Matcher) (parents : Dictionary (List String) ParentIgnore) : Prop :=
  ∀ dir state, parents.get dir = some state →
    m.Loaded dir dir.length ∧ state = m.contribution g dir dir.length

variable {g} {m : Matcher}

theorem contribution_zero (m : Matcher) (parts : List String) :
    m.contribution g parts 0 = ⟨false, 0⟩ := by
  simp [contribution, Rule.matchesParent, last]

variable {parts : List String}

theorem contribution_take {n : ℕ} (h : n ≤ parts.length) :
    m.contribution g (parts.take n) n = m.contribution g parts n := by
  simp only [contribution, Rule.matchesParent_take h]

theorem contribution_succ (m : Matcher) (parts : List String) (n : ℕ) :
    m.contribution g parts (n + 1) =
      ⟨(m.contribution g parts n).configured ||
          m.configRules.any (·.rule.matchesEntry g (parts.take (n + 1)) true),
        (m.contribution g parts n).lastRule +
          last (fun r => !r.negated && r.matchesEntry g (parts.take (n + 1)) true)
            (m.gitRules.drop (m.contribution g parts n).lastRule)⟩ := by
  simp only [contribution, last_or, Rule.matchesParent, Bool.and_or_distrib_left, any_or]

theorem parentIgnore_spec {n : ℕ} (hmemo : m.Memo g m.parents) (hn : n ≤ parts.length)
    (hloaded : m.Loaded parts n) : (m.parentIgnore g parts n).1 = m.contribution g parts n ∧
      m.Memo g (m.parentIgnore g parts n).2 := by
  induction n with
  | zero => exact ⟨(contribution_zero m parts).symm, hmemo⟩
  | succ n ih =>
    have hlength : (parts.take (n + 1)).length = n + 1 := length_take_of_le hn
    have htake := contribution_take (g := g) (m := m) hn
    simp only [parentIgnore]
    cases hget : m.parents.get (parts.take (n + 1)) with
    | some state =>
      have hstate := (hmemo _ _ hget).2
      rw [hlength, htake] at hstate
      exact ⟨hstate, hmemo⟩
    | none =>
      obtain ⟨hstate, hmemo'⟩ := ih (by omega) fun k hk => hloaded k (by omega)
      simp only [hstate, ← contribution_succ]
      refine ⟨trivial, fun dir state hdir => ?_⟩
      by_cases h : dir = parts.take (n + 1)
      · subst h
        rw [Dictionary.get_set_self] at hdir
        cases hdir
        rw [hlength]
        refine ⟨fun k hk => ?_, htake.symm⟩
        rw [take_take, Nat.min_eq_left hk]
        exact hloaded k hk
      · rw [Dictionary.get_set_ne _ _ h] at hdir
        exact hmemo' dir state hdir

theorem ignoredEntry_spec {isDir : Bool} (hmemo : m.Memo g m.parents)
    (hloaded : m.Loaded parts (parts.length - 1)) :
    (m.ignoredEntry g parts isDir).1 = m.ignored g parts isDir ∧
      (m.ignoredEntry g parts isDir).2.Memo g (m.ignoredEntry g parts isDir).2.parents := by
  obtain ⟨hparent, hmemo'⟩ := parentIgnore_spec hmemo (Nat.sub_le _ _) hloaded
  unfold ignoredEntry ignored
  split
  · exact ⟨rfl, hmemo⟩
  · have hconfig : m.configRules.any (·.rule.«matches» g parts isDir) =
        (m.configRules.any (·.rule.matchesParent g parts (parts.length - 1)) ||
          m.configRules.any (·.rule.matchesEntry g parts isDir)) := by
      rw [← any_or]
      exact any_congr rfl fun p => (Rule.matches_eq _).trans (Bool.or_comm _ _)
    rw [hconfig]
    simp only [hparent, contribution, Rule.matches_eq]
    rw [find_or _ fun r h => (Bool.and_eq_true_iff.mp h).1]
    exact ⟨rfl, hmemo'⟩

theorem memo_loadDir {rel : List String} {lines : List (Pattern × Bool)}
    (hmemo : m.Memo g m.parents) :
    (m.loadDir rel lines).Memo g (m.loadDir rel lines).parents := by
  unfold loadDir
  split
  · exact hmemo
  · rename_i hrel
    replace hrel : rel ∉ m.loaded := by simpa using hrel
    intro dir state hget
    obtain ⟨hloaded, hstate⟩ := hmemo dir state hget
    refine ⟨fun k hk => mem_cons_of_mem rel (hloaded k hk), hstate.trans ?_⟩
    rw [contribution, contribution, last_append]
    -- the new rules are below a directory that was not loaded, so not above this one
    intro r hr
    obtain ⟨l, -, rfl⟩ := mem_map.mp hr
    refine Bool.eq_false_iff.mpr fun h => ?_
    have hbase : rel <+: dir := (Rule.base_of_matchesParent (Bool.and_eq_true_iff.mp h).2).1
    rw [prefix_iff_eq_take.mp hbase] at hrel
    exact hrel (hloaded _ hbase.length_le)

inductive Action where
  | load (rel : List String) (lines : List (Pattern × Bool))
  | ask (parts : List String) (isDir : Bool)

def step (g : Globs) (m : Matcher) : Action → Option Matcher
  | .load rel lines => some (m.loadDir rel lines)
  | .ask parts isDir => some (m.ignoredEntry g parts isDir).2

def loadedBefore (m : Matcher) : Action → Prop
  | .load _ _ => True
  | .ask parts _ => m.Loaded parts (parts.length - 1)

/-- **Kept contributions decide as the reference does.** In every walk that loads the directories
an entry is in before it asks about the entry, `IgnoredEntry` decides as `Ignored`. -/
theorem ignoredEntry_eq_ignored {patterns : List Pattern} {lines : List (Pattern × Bool)}
    {parts : List String} {isDir : Bool} (hrun : Run (step g) loadedBefore (new patterns lines) m)
    (hloaded : m.Loaded parts (parts.length - 1)) :
    (m.ignoredEntry g parts isDir).1 = m.ignored g parts isDir := by
  refine (ignoredEntry_spec (hrun.invariant (P := fun m => m.Memo g m.parents) ?_ ?_) hloaded).1
  · exact memo_loadDir fun _ _ h => by cases h
  · intro m a m' hmemo hok hs
    cases a with
    | load rel lines =>
      cases hs
      exact memo_loadDir hmemo
    | ask parts isDir =>
      cases hs
      exact (ignoredEntry_spec hmemo hok).2

theorem ignoredEntry_eq_ignored_nested : let g : Globs := ⟨(· == ·), (· == ·)⟩
    let b : Pattern := ⟨"b", ["b"], false, false⟩
    let m := (((new [] [(b, false)]).loadDir ["a"] [(b, true)]).ignoredEntry g ["a", "b"] true).2
    let m' := m.loadDir ["a", "b"] [(b, false)]
    (m'.parents.get ["a"]).isSome = true ∧
      (m'.ignoredEntry g ["a", "b", "b"] true).1 = m'.ignored g ["a", "b", "b"] true := by
  intro g b m m'
  have hloaded : m'.Loaded ["a", "b", "b"] 2 := by
    unfold Loaded
    decide
  have hrun : Run (step g) loadedBefore (new [] [(b, false)]) m :=
    .snoc (a := .ask ["a", "b"] true)
      (Run.refl.snoc (a := .load ["a"] [(b, true)]) trivial rfl)
      (by unfold loadedBefore Loaded; decide) rfl
  exact ⟨by decide, ignoredEntry_eq_ignored
    (hrun.snoc (a := .load ["a", "b"] [(b, false)]) trivial rfl) hloaded⟩

end Matcher

end Scenery.Watchignore
