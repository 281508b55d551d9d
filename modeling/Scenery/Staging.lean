import Mathlib.Data.List.Pairwise
import Scenery.Restart
import Scenery.Publish

/-!
# From a list of files to a journal

Both writers of journals walk over their files in the order of the path texts, look at what stands
at each path, and number the entries they keep.
-/

namespace Scenery

open List

open Prog (call ReadOnly wp run)

structure Layout (digest : Data → String) (root directory : Path) (d₀ : Disk Data)
    (changes : List Change) : Prop where
  recorded : ∀ c ∈ changes, c.Recorded digest root
  placed : ∀ i c, changes[i]? = some c → c.entry.stage = stagePath directory i ∧
    c.entry.backup = backupPath directory i
  below : ∀ c ∈ changes, c.entry.path ≠ [] ∧ c.target root = root ++ c.entry.path
  base : ∀ c ∈ changes, d₀.node (c.target root) = fileAt c.before
  clear : ∀ c ∈ changes, d₀.Clear (c.target root).dropLast
  sorted : changes.Pairwise fun c c' => c.entry.path.text < c'.entry.path.text

namespace Layout

variable {digest : Data → String} {root directory : Path} {d₀ : Disk Data}
  {changes : List Change} {c c' : Change}

theorem nil : Layout digest root directory d₀ [] where
  recorded _ hc := absurd hc not_mem_nil
  placed i c hi := by
    cases hi
  below _ hc := absurd hc not_mem_nil
  base _ hc := absurd hc not_mem_nil
  clear _ hc := absurd hc not_mem_nil
  sorted := List.Pairwise.nil

section

variable (h : Layout digest root directory d₀ changes)
include h

theorem append (hrec : c.Recorded digest root)
    (hplace : c.entry.stage = stagePath directory changes.length ∧
      c.entry.backup = backupPath directory changes.length)
    (hbelow : c.entry.path ≠ [] ∧ c.target root = root ++ c.entry.path)
    (hbase : d₀.node (c.target root) = fileAt c.before)
    (hclear : d₀.Clear (c.target root).dropLast)
    (hlast : ∀ c' ∈ changes, c'.entry.path.text < c.entry.path.text) :
    Layout digest root directory d₀ (changes ++ [c]) := by
  have hmem : ∀ {P : Change → Prop}, (∀ c ∈ changes, P c) → P c → ∀ c' ∈ changes ++ [c], P c' := by
    intro P hall hc c' hc'
    rcases mem_append.mp hc' with hc' | hc'
    · exact hall c' hc'
    · rw [mem_singleton.mp hc']
      exact hc
  refine ⟨hmem h.recorded hrec, fun i c' hi => ?_, hmem h.below hbelow, hmem h.base hbase,
    hmem h.clear hclear, ?_⟩
  · by_cases hlt : i < changes.length
    · rw [getElem?_append_left hlt] at hi
      exact h.placed i c' hi
    · rw [getElem?_append_right (Nat.le_of_not_lt hlt)] at hi
      have hi0 : i - changes.length = 0 := by
        have := (List.getElem?_eq_some_iff.mp hi).1
        rw [length_singleton] at this
        omega
      rw [hi0] at hi
      obtain rfl : c = c' := Option.some.inj hi
      rw [show i = changes.length by omega]
      exact hplace
  · rw [pairwise_append]
    refine ⟨h.sorted, pairwise_singleton _ _, fun c' hc' c'' hc'' => ?_⟩
    rw [mem_singleton.mp hc'']
    exact hlast c' hc'

theorem target_injective (hc : c ∈ changes)
    (hc' : c' ∈ changes) (heq : c.target root = c'.target root) : c = c' := by
  rw [(h.below c hc).2, (h.below c' hc').2, append_cancel_left_eq] at heq
  by_contra hne
  have : Std.Symm fun c c' : Change => c.entry.path ≠ c'.entry.path := ⟨fun _ _ h => h.symm⟩
  have hpaths : changes.Pairwise fun c c' => c.entry.path ≠ c'.entry.path := by
    refine h.sorted.imp fun {c c'} hlt hp => ?_
    rw [hp] at hlt
    exact String.lt_irrefl _ hlt
  exact hpaths.forall hc hc' hne heq

theorem text_lt_of_prefix (hc : c ∈ changes)
    (hc' : c' ∈ changes) (hpre : c'.target root <+: (c.target root).dropLast) :
    c'.entry.path.text < c.entry.path.text := by
  obtain ⟨hne, ht⟩ := h.below c hc
  obtain ⟨hne', ht'⟩ := h.below c' hc'
  rw [ht, ht', dropLast_append_of_ne_nil hne, prefix_append_right_inj] at hpre
  obtain ⟨rest, hrest⟩ := hpre
  have hpath : c'.entry.path ++ (rest ++ [c.entry.path.getLast hne]) = c.entry.path := by
    rw [← append_assoc, hrest, dropLast_append_getLast]
  rw [← hpath]
  exact intercalate_lt_append (by decide) hne'
    (append_ne_nil_of_right_ne_nil _ (cons_ne_nil _ _))

theorem ordered :
    changes.Pairwise fun c c' => ¬ c'.target root <+: (c.target root).dropLast := by
  refine h.sorted.imp_of_mem fun {c c'} hc hc' hlt hpre => ?_
  exact String.lt_asymm hlt (h.text_lt_of_prefix hc hc' hpre)

theorem above (hc : c ∈ changes)
    (hc' : c' ∈ changes) (hpre : c'.target root <+: (c.target root).dropLast) :
    c'.before = none := by
  rcases (h.clear c hc).node_eq hpre with hn | hn <;> rw [h.base c' hc'] at hn
  · exact fileAt_eq_none.mp hn
  · exact absurd hn (fileAt_ne_dir _)

end

def txn (owner : Owner) (suffix : String) (named : Option Path) (receipt : Path)
    (h : Layout digest root directory d₀ changes) (hnamed : named = none ∨ named = some receipt)
    (hdir : directory = transactionRoot root ++ ["change-" ++ suffix])
    (hwithin : root <+: receipt) (hapart : ∀ c ∈ changes, ¬ receipt <+: c.target root)
    (hplace : receipt = directory ++ ["committed"] ∨ ¬ transactionRoot root <+: receipt) :
    Txn digest root where
  journal := ⟨owner, named, directory, changes.map Change.entry⟩
  changes := changes
  suffix := suffix
  receipt := receipt
  entries_eq := rfl
  directory_eq := hdir
  receipt_eq := hnamed
  receipt_within := hwithin
  receipt_apart := hapart
  receipt_place := hplace
  recorded := h.recorded
  placed := h.placed
  target_injective _ hc _ hc' := h.target_injective hc hc'
  ordered := h.ordered
  above _ hc _ hc' := h.above hc hc'

end Layout

/-! ## What stands at a path -/

section

variable {digest : Data → String} {P : Publisher} {d d' : Disk Data}

theorem readOnly_readBefore (path : Path) (relative : RelPath) :
    ReadOnly txMachine (readBefore path relative) := by
  refine (readOnly_lstat path).bind fun x => ?_
  split
  · trivial
  · trivial
  · exact (readOnly_sys (Disk.reads_readFile path)).bind fun _ => trivial
  · trivial

theorem runs_readBefore {path : Path} {relative : RelPath} {before : Option Data}
    (h : Prog.Runs txMachine (readBefore path relative) d (.ok before) d') :
    d.node path = fileAt before ∧ (path ≠ [] → d.Clear path.dropLast) := by
  obtain ⟨x, d₁, hx, hrest⟩ := Prog.runs_bind_ok h
  obtain ⟨rfl, rfl⟩ := runs_lstat hx
  split at hrest
  · rename_i hl
    obtain rfl := Except.ok.inj hrest.1
    exact ⟨Disk.lstat_error hl, fun _ => (Disk.clear_of_missing hl).mono ( dropLast_prefix _)⟩
  · cases hrest.1
  · obtain ⟨z, d₂, hz, hret⟩ := Prog.runs_bind_ok hrest
    obtain ⟨-, hz⟩ := runs_readFile hz
    obtain rfl := Except.ok.inj hret.1
    refine ⟨hz, fun hne => d₁.clear_dropLast hne ?_⟩
    rw [hz]
    exact Option.some_ne_none _
  · cases hrest.1

theorem readOnly_inspectFile (file : File) : ReadOnly txMachine (inspectFile digest P file) := by
  unfold inspectFile
  split
  · trivial
  · refine (readOnly_unlessMissing (readOnly_rejectPathSymlinks _ _)).bind fun _ =>
      (readOnly_readBefore _ _).bind fun before => ?_
    split <;> trivial

theorem confinedPath_ok {root : Path} {relative : RelPath} {path : Path}
    (h : confinedPath root relative = .ok path) :
    path = joinRoot root relative ∧ (path = root ∨ relative ≠ [] ∧ path = root ++ relative) := by
  unfold confinedPath at h
  split at h
  · rename_i hrel
    cases h
    refine ⟨rfl, ?_⟩
    by_cases hdot : relative = ["."]
    · exact .inl (if_pos hdot)
    · exact .inr ⟨(hrel.resolve_left hdot).1, if_neg hdot⟩
  · cases h

theorem runs_inspectFile {file : File} {before : Option Data}
    (hroot : d.node P.root = some .dir)
    (h : Prog.Runs txMachine (inspectFile digest P file) d (.ok before) d') :
    confinedPath P.root file.path = .ok (joinRoot P.root file.path) ∧
      (file.path ≠ [] ∧ joinRoot P.root file.path = P.root ++ file.path) ∧
      d.node (joinRoot P.root file.path) = fileAt before ∧
      d.Clear (joinRoot P.root file.path).dropLast := by
  unfold inspectFile at h
  split at h
  · cases h.1
  · rename_i path hpath
    obtain ⟨rfl, hplace⟩ := confinedPath_ok hpath
    obtain ⟨_, d₁, hreject, hrest⟩ := Prog.runs_bind_ok h
    obtain rfl := (readOnly_unlessMissing (readOnly_rejectPathSymlinks _ _)).runs hreject
    obtain ⟨b, d₂, hread, hverify⟩ := Prog.runs_bind_ok hrest
    obtain ⟨hnode, hclear⟩ := runs_readBefore hread
    obtain rfl : b = before := by
      split at hverify
      · cases hverify.1
      · exact (Except.ok.inj hverify.1).symm
    -- the root is a directory, so it was not accepted
    have hbelow := hplace.resolve_left fun heq => by
      rw [heq, hroot] at hnode
      exact fileAt_ne_dir _ hnode.symm
    refine ⟨hpath, hbelow, hnode, hclear ?_⟩
    rw [hbelow.2]
    exact append_ne_nil_of_right_ne_nil _ hbelow.1

end

/-- The transaction directory while the entries of `changes` are staged and nothing has been
moved; the rest of the tree is that of `d₀`. -/
structure Shelf (directory : Path) (d₀ : Disk Data) (changes : List Change) (d : Disk Data) :
    Prop where
  outside : ∀ q, ¬ directory <+: q → d.node q = d₀.node q
  here : d.node directory = some .dir
  marker : d.node (directory ++ ["committed"]) = none
  backup : ∀ i, d.node (backupPath directory i) = none
  stage : ∀ i, d.node (stagePath directory i) = fileAt (changes[i]?.bind Change.after)

section

variable {directory : Path} {d₀ d d' : Disk Data} {changes : List Change} {c : Change}

theorem Shelf.append (h : Shelf directory d₀ changes d)
    (hstage : d'.node (stagePath directory changes.length) = fileAt c.after)
    (hne : ∀ q, q ≠ directory ++ ["backups"] → q ≠ directory ++ ["staged"] →
      q ≠ stagePath directory changes.length → d'.node q = d.node q) :
    Shelf directory d₀ (changes ++ [c]) d' where
  outside q hq := by
    refine (hne q ?_ ?_ ?_).trans (h.outside q hq) <;> rintro rfl <;>
      exact hq (prefix_append _ _)
  here := (hne _ (by simp) (by simp) (by simp [stagePath])).trans h.here
  marker := (hne _ (by simp) (by simp) (by simp [stagePath])).trans h.marker
  backup i := (hne _ (by simp [backupPath]) (by simp [backupPath])
    (by simp [backupPath, stagePath])).trans (h.backup i)
  stage i := by
    by_cases heq : i = changes.length
    · rw [heq, hstage, getElem?_append_right (Nat.le_refl _), Nat.sub_self]
      rfl
    · have hi : (changes ++ [c])[i]? = changes[i]? := by
        by_cases hlt : i < changes.length
        · exact getElem?_append_left hlt
        · rw [getElem?_eq_none (by rw [length_append, length_singleton]; omega),
            getElem?_eq_none (by omega)]
      rw [hi, ← h.stage i]
      refine hne _ (by simp [stagePath]) (by simp [stagePath]) ?_
      simp only [stagePath, ne_eq, append_cancel_left_eq, List.cons.injEq, and_true, true_and]
      exact fun hp => heq (pad6_injective hp)

theorem Shelf.clear (h : Shelf directory d₀ changes d) {p : Path} (hp : ¬ directory <+: p)
    (hc : d.Clear p.dropLast) : d₀.Clear p.dropLast := by
  intro q hq n hn
  refine hc q hq n ?_
  rw [h.outside q fun hpre => hp ?_]
  · exact hn
  · exact hpre.trans (((mem_inits q _).mp hq).trans ( dropLast_prefix p))

end

/-! ## The staging loop -/

def File.after (file : File) : Option Data := if file.remove then none else some (.bytes file.bytes)

namespace Publisher

def Unlogged (P : Publisher) (d : Disk Data) : Prop :=
  ∀ e ∈ d.log, e.1 ≠ journalPath P.root ∧ e.1 ≠ P.receipt

/-- `PublishContext` has just taken the lock: its directory holds the prepared lock record
and nothing else, and recovery, which ran before, left a proper gate file or none. -/
structure Owns (P : Publisher) (d : Disk Data) : Prop where
  gate : d.node (gatePath P.root) = none ∨ ∃ y, d.node (gatePath P.root) = some (.file y)
  lock : d.node (lockPath P.root) = some (.file (.lock P.lock))
  directory : d.node P.directory = some .dir
  fresh : ∀ q, P.directory <+: q → q ≠ P.directory → q ≠ P.preparedLock → d.node q = none
  unlogged : P.Unlogged d

/-- What `PublishContext` has put into its directory: the artifact directories are created
as entries need them. -/
structure Holds (P : Publisher) (d₀ : Disk Data) (changes : List Change) (d : Disk Data) :
    Prop extends Shelf P.directory d₀ changes d where
  backups : d.node (P.directory ++ ["backups"]) = if changes = [] then none else some .dir
  staged : d.node (P.directory ++ ["staged"]) =
    if changes.any (·.after.isSome) then some .dir else none
  unlogged : P.Unlogged d

variable {P : Publisher} {d₀ d d' : Disk Data} {changes : List Change}

theorem Owns.holds (h : P.Owns d) : P.Holds d [] d where
  outside _ _ := rfl
  here := h.directory
  marker := h.fresh _ (prefix_append _ _) (by simp) (by simp [preparedLock])
  backups := h.fresh _ (prefix_append _ _) (by simp) (by simp [preparedLock])
  backup i := h.fresh _ (prefix_append _ _) (by simp [backupPath])
    (by simp [backupPath, preparedLock])
  staged := h.fresh _ (prefix_append _ _) (by simp) (by simp [preparedLock])
  stage i := h.fresh _ (prefix_append _ _) (by simp [stagePath])
    (by simp [stagePath, preparedLock])
  unlogged := h.unlogged

theorem Unlogged.congr (h : P.Unlogged d) (hlog : d'.log = d.log) : P.Unlogged d' := by
  unfold Unlogged
  rw [hlog]
  exact h

theorem Unlogged.stage (h : P.Unlogged d) {i : ℕ} {y : Data}
    (hlog : d'.log = (stagePath P.directory i, y) :: d.log) : P.Unlogged d' := by
  intro e he
  rw [hlog] at he
  rcases mem_cons.mp he with rfl | he
  · constructor
    · intro heq
      have := congrArg List.length heq
      simp [stagePath, journalPath, directory] at this
    · simp [stagePath, receipt]
  · exact h e he

theorem Holds.append (h : P.Holds d₀ changes d) {c : Change}
    (hbackups : d'.node (P.directory ++ ["backups"]) = some .dir)
    (hstaged : d'.node (P.directory ++ ["staged"]) =
      if c.after.isSome then some .dir else d.node (P.directory ++ ["staged"]))
    (hstage : d'.node (stagePath P.directory changes.length) = fileAt c.after)
    (hne : ∀ q, q ≠ P.directory ++ ["backups"] → q ≠ P.directory ++ ["staged"] →
      q ≠ stagePath P.directory changes.length → d'.node q = d.node q)
    (hun : P.Unlogged d') : P.Holds d₀ (changes ++ [c]) d' where
  toShelf := h.toShelf.append hstage hne
  backups := by
    rw [hbackups, if_neg (append_ne_nil_of_right_ne_nil _ (cons_ne_nil _ _))]
  staged := by
    rw [hstaged, h.staged, any_append, any_cons, any_nil, Bool.or_false]
    cases c.after.isSome <;> cases changes.any (·.after.isSome) <;> rfl
  unlogged := hun

def change (digest : Data → String) (P : Publisher) (index : ℕ) (file : File)
    (before : Option Data) : Change :=
  ⟨newEntry digest P index file before, before, file.after⟩

theorem wp_stageEntry {digest : Data → String} (h : P.Holds d₀ changes d) (file : File)
    (before : Option Data) :
    wp txMachine
      (fun r d' => P.Unlogged d' ∧
        (r = .ok () → P.Holds d₀ (changes ++ [P.change digest changes.length file before]) d'))
      P.Unlogged (stageEntry file (newEntry digest P changes.length file before)) d := by
  have hbackup : (backupPath P.directory changes.length).dropLast = P.directory ++ ["backups"] := by
    simp [backupPath]
  have hstage : (stagePath P.directory changes.length).dropLast = P.directory ++ ["staged"] := by
    simp [stagePath]
  refine wp_mkdirAll (fun d₁ h₁ => h.unlogged.congr h₁.log) (fun d₁ h₁ hdir₁ => ?_)
    fun e d₁ h₁ => ⟨h.unlogged.congr h₁.log, fun h => by cases h⟩
  simp only [newEntry, hbackup] at h₁ hdir₁ ⊢
  have hun₁ := h.unlogged.congr h₁.log
  have hsame₁ := fun q hq => h₁.child (q := q) h.here hq
  have hbackups₁ := hdir₁ _ (prefix_refl _)
  by_cases hr : file.remove
  · rw [if_pos hr]
    have hafter : file.after = none := if_pos hr
    have hend : P.Holds d₀ (changes ++ [P.change digest changes.length file before]) d₁ := by
      refine h.append hbackups₁ ?_ ?_ (fun q hq _ _ => hsame₁ q hq) hun₁
      · rw [change, hafter, hsame₁ _ (by simp)]
        rfl
      · rw [change, hafter, hsame₁ _ (by simp [stagePath]), h.stage,
          getElem?_eq_none (Nat.le_refl _)]
        rfl
    exact ⟨hun₁, hun₁, fun _ => hend⟩
  · rw [if_neg hr]
    have hafter : file.after = some (.bytes file.bytes) := if_neg hr
    have hdirectory₁ : d₁.node P.directory = some .dir := by
      rw [hsame₁ _ (by simp), h.here]
    refine wp_mkdirAll (fun d₂ h₂ => hun₁.congr h₂.log) (fun d₂ h₂ hdir₂ => ?_)
      fun e d₂ h₂ => ⟨hun₁.congr h₂.log, fun h => by cases h⟩
    rw [hstage] at h₂ hdir₂
    have hun₂ := hun₁.congr h₂.log
    have hsame₂ := fun q hq => h₂.child (q := q) hdirectory₁ hq
    have hstaged₂ := hdir₂ _ (prefix_refl _)
    refine Prog.wp_bind_ret.mp (wp_writeFile (hstage ▸ hstaged₂) (fun d₃ hlog _ => hun₂.congr hlog)
      (fun d₃ hlog hnode hne => ?_) fun e d₃ hlog _ => ⟨hun₂.congr hlog, fun h => by cases h⟩)
    have hun₃ := hun₂.stage hlog
    have hend : P.Holds d₀ (changes ++ [P.change digest changes.length file before]) d₃ := by
      refine h.append ?_ ?_ ?_ (fun q hq₁ hq₂ hq₃ => ?_) hun₃
      · rw [hne _ (by simp [stagePath]), hsame₂ _ (by simp), hbackups₁]
      · rw [change, hafter, hne _ (by simp [stagePath]), hstaged₂]
        rfl
      · rw [change, hafter, hnode]
        rfl
      · rw [hne q hq₃, hsame₂ q hq₂, hsame₁ q hq₁]
    exact ⟨hun₃, hun₃, fun _ => hend⟩

structure Staged (digest : Data → String) (P : Publisher) (files : List File) (d₀ : Disk Data)
    (changes : List Change) (d : Disk Data) : Prop where
  layout : Layout digest P.root P.directory d₀ changes
  holds : P.Holds d₀ changes d
  source : ∀ c ∈ changes, ∃ f ∈ files, f.path = c.entry.path ∧ c.after = f.after
  differ : ∀ c ∈ changes, c.before ≠ c.after

variable {digest : Data → String} {files : List File}

theorem unchanged_iff (file : File) (before : Option Data) :
    unchanged file before = true ↔ before = file.after := by
  unfold unchanged File.after
  cases before <;> cases file.remove <;> simp

theorem Staged.append (h : Staged digest P files d₀ changes d) {file : File} (hfile : file ∈ files)
    {before : Option Data} (hconf : confinedPath P.root file.path = .ok (joinRoot P.root file.path))
    (hbelow : file.path ≠ [] ∧ joinRoot P.root file.path = P.root ++ file.path)
    (hout : ¬ transactionRoot P.root <+: joinRoot P.root file.path)
    (hbase : d₀.node (joinRoot P.root file.path) = fileAt before)
    (hclear : d₀.Clear (joinRoot P.root file.path).dropLast)
    (hlast : ∀ c ∈ changes, c.entry.path.text < file.path.text) (hdiff : before ≠ file.after)
    (hholds : P.Holds d₀ (changes ++ [P.change digest changes.length file before]) d') :
    Staged digest P files d₀ (changes ++ [P.change digest changes.length file before]) d' := by
  have hrec : (P.change digest changes.length file before).Recorded digest P.root := by
    refine ⟨hconf, ?_, hout, rfl, ?_, ?_, ?_, ?_⟩
    · show joinRoot P.root file.path ≠ []
      rw [hbelow.2]
      exact append_ne_nil_of_right_ne_nil _ hbelow.1
    · show (!file.remove) = file.after.isSome
      unfold File.after
      cases file.remove <;> rfl
    · intro x hx
      show digest (before.getD (.bytes [])) = digest x
      rw [show before = some x from hx]
      rfl
    · intro x hx
      show digest (.bytes file.bytes) = digest x
      have hx : file.after = some x := hx
      unfold File.after at hx
      split at hx
      · cases hx
      · rw [Option.some.inj hx]
    · exact fun hb ha => hdiff (hb.trans ha.symm)
  refine ⟨h.layout.append hrec ⟨rfl, rfl⟩ hbelow hbase hclear hlast, hholds, ?_, ?_⟩
  · intro c hc
    rcases mem_append.mp hc with hc | hc
    · exact h.source c hc
    · rw [mem_singleton.mp hc]
      exact ⟨file, hfile, rfl, rfl⟩
  · intro c hc
    rcases mem_append.mp hc with hc | hc
    · exact h.differ c hc
    · rw [mem_singleton.mp hc]
      exact hdiff

def Distinct (last : Option String) (todo : List File) : Prop :=
  (∀ t, last = some t → ∀ f ∈ todo, t < f.path.text) ∧
    todo.Pairwise fun f f' => f.path.text < f'.path.text

theorem Distinct.cons {last : Option String} {file : File} {rest : List File}
    (hnext : ∀ t, last = some t → t ≤ file.path.text) (hdup : last ≠ some file.path.text)
    (h : Distinct (some file.path.text) rest) : Distinct last (file :: rest) := by
  have hfile : ∀ t, last = some t → t < file.path.text := fun t ht =>
    lt_of_le_of_ne (hnext t ht) fun heq => hdup (heq ▸ ht)
  refine ⟨fun t ht f hf => ?_, pairwise_cons.mpr ⟨h.1 _ rfl, h.2⟩⟩
  rcases mem_cons.mp hf with rfl | hf
  · exact hfile t ht
  · exact lt_trans (hfile t ht) (h.1 _ rfl f hf)

theorem wp_stageFiles (hout : ∀ f ∈ files, ¬ transactionRoot P.root <+: joinRoot P.root f.path)
    (todo : List File) (last : Option String) (changes : List Change) (d : Disk Data)
    (hmem : ∀ f ∈ todo, f ∈ files)
    (hsorted : todo.Pairwise fun f f' => f.path.text ≤ f'.path.text)
    (hlast : ∀ c ∈ changes, ∃ t, last = some t ∧ c.entry.path.text ≤ t)
    (hnext : ∀ t, last = some t → ∀ f ∈ todo, t ≤ f.path.text)
    (h : Staged digest P files d₀ changes d) :
    wp txMachine
      (fun r d' => P.Unlogged d' ∧ ∀ es, r = .ok es → Distinct last todo ∧
        ∃ cs, es = cs.map Change.entry ∧ Staged digest P files d₀ cs d')
      P.Unlogged (stageFiles digest P last (changes.map Change.entry) todo) d := by
  induction todo generalizing last changes d with
  | nil =>
    refine ⟨h.holds.unlogged, h.holds.unlogged, fun es hes => ⟨?_, changes, ?_, h⟩⟩
    · exact ⟨fun t _ f hf => absurd hf not_mem_nil, List.Pairwise.nil⟩
    · exact (Except.ok.inj hes).symm
  | cons file rest ih =>
    have hun := h.holds.unlogged
    have herr : ∀ e : TxError, P.Unlogged d ∧ ∀ es, (Except.error e : Except TxError _) = .ok es →
        Distinct last (file :: rest) ∧
          ∃ cs, es = cs.map Change.entry ∧ Staged digest P files d₀ cs d :=
      fun e => ⟨hun, nofun⟩
    have hfile := hmem file mem_cons_self
    have hmem' : ∀ f ∈ rest, f ∈ files := fun f hf => hmem f (mem_cons_of_mem _ hf)
    obtain ⟨hhead, hrest⟩ := pairwise_cons.mp hsorted
    have hnext' : ∀ t, some file.path.text = some t → ∀ f ∈ rest, t ≤ f.path.text := by
      intro t ht f hf
      rw [← Option.some.inj ht]
      exact hhead f hf
    have hroot : d.node P.root = some .dir :=
      Disk.node_of_dir h.holds.here (by
        rw [Publisher.directory, transactionRoot, append_assoc]
        exact prefix_append _ _)
    refine wp_look (readOnly_sys Disk.reads_poll) hun (fun _ _ => ?_) herr
    split
    · exact ⟨hun, herr _⟩
    rename_i hdup
    have hcons : Distinct (some file.path.text) rest → Distinct last (file :: rest) :=
      Distinct.cons (fun t ht => hnext t ht file mem_cons_self) hdup
    -- the texts seen so far are strictly below this one
    have hlt : ∀ c ∈ changes, c.entry.path.text < file.path.text := by
      intro c hc
      obtain ⟨t, rfl, hct⟩ := hlast c hc
      have htf := hnext t rfl file mem_cons_self
      exact lt_of_le_of_lt hct (lt_of_le_of_ne htf fun heq => hdup (by rw [heq]))
    refine wp_look (readOnly_inspectFile file) hun (fun before hbefore => ?_) herr
    obtain ⟨hconf, hbelow, hnode, hclear⟩ := runs_inspectFile hroot hbefore
    have hout' := hout file hfile
    split
    · refine (ih _ changes d hmem' hrest (fun c hc => ?_) hnext' h).mono
        (fun r d' _ h' => ⟨h'.1, fun es hes => ⟨hcons (h'.2 es hes).1, (h'.2 es hes).2⟩⟩)
        fun _ h => h
      exact ⟨_, rfl, le_of_lt (hlt c hc)⟩
    rename_i hchanged
    rw [unchanged_iff] at hchanged
    refine Prog.wp_bind ?_
    have hlen : (changes.map Change.entry).length = changes.length := length_map _
    rw [hlen]
    refine (wp_stageEntry h.holds file before).mono (fun r d₁ _ h₁ => ?_) fun _ h => h
    cases r with
    | error e => exact ⟨h₁.1, nofun⟩
    | ok _ =>
      have hbase : d₀.node (joinRoot P.root file.path) = fileAt before := by
        rw [← h.holds.outside _ fun hpre => hout' ((prefix_append _ _).trans hpre)]
        exact hnode
      have h' := h.append hfile hconf hbelow hout' hbase (h.holds.clear (fun hpre => hout' ((prefix_append _ _).trans hpre)) hclear) hlt
        hchanged (h₁.2 rfl)
      have hmap : changes.map Change.entry ++ [newEntry digest P changes.length file before] =
          (changes ++ [P.change digest changes.length file before]).map Change.entry := by
        rw [map_append]
        rfl
      simp only [hmap]
      refine (ih _ _ d₁ hmem' hrest (fun c hc => ⟨_, rfl, ?_⟩) hnext' h').mono
        (fun r d' _ h' => ⟨h'.1, fun es hes => ⟨hcons (h'.2 es hes).1, (h'.2 es hes).2⟩⟩)
        fun _ h => h
      rcases mem_append.mp hc with hc | hc
      · exact le_of_lt (hlt c hc)
      · rw [mem_singleton.mp hc]
        exact le_refl _

end Publisher

end Scenery
