import Scenery.Rules

/-!
# The state of a journaled transaction

A journal names, for every file it replaces, three places: the target, the backup of the old
contents and the staged new contents.
-/

namespace Scenery

open Option

open Prog (call ReadOnly wp run)

structure Change where
  entry : Entry
  before : Option Data
  after : Option Data

def fileAt (x : Option Data) : Option (Node Data) := x.map .file

theorem fileAt_ne_dir (x : Option Data) : fileAt x ≠ some .dir := by
  cases x <;> exact nofun

theorem fileAt_eq_none {x : Option Data} : fileAt x = none ↔ x = none := map_eq_none_iff

theorem fileAt_eq_file {x : Option Data} {y : Data} : fileAt x = some (.file y) ↔ x = some y := by
  cases x <;> simp [fileAt]

def Entry.Stranded (root : Path) (e : Entry) (d : Disk Data) : Prop :=
  e.beforeExists ∧ e.afterExists ∧ d.node e.backup ≠ none ∧
    d.node (joinRoot root e.path) = none ∧ d.node e.stage = none

namespace Change

def target (root : Path) (c : Change) : Path := joinRoot root c.entry.path

/-- The entry records the change: flags and digests are those of its contents, and its
target is a path of the workspace outside the transaction's own files. -/
structure Recorded (digest : Data → String) (root : Path) (c : Change) : Prop where
  confined : confinedPath root c.entry.path = .ok (c.target root)
  proper : c.target root ≠ []
  outside : ¬ transactionRoot root <+: c.target root
  beforeExists : c.entry.beforeExists = c.before.isSome
  afterExists : c.entry.afterExists = c.after.isSome
  beforeDigest : ∀ x, c.before = some x → c.entry.beforeDigest = digest x
  afterDigest : ∀ x, c.after = some x → c.entry.afterDigest = digest x
  actual : c.before = none → c.after ≠ none

def Safe (root : Path) (c : Change) (d : Disk Data) : Prop :=
  d.node c.entry.backup = none ∧
      (d.node (c.target root) = fileAt c.before ∨
        c.before = none ∧ d.node (c.target root) = fileAt c.after) ∨
    c.before ≠ none ∧ d.node c.entry.backup = fileAt c.before ∧
      (d.node (c.target root) = none ∨ d.node (c.target root) = fileAt c.after)

def Restored (root : Path) (c : Change) (d : Disk Data) : Prop :=
  d.node c.entry.backup = none ∧ d.node (c.target root) = fileAt c.before

structure Moved (root : Path) (c : Change) (d d' : Disk Data) : Prop where
  log : d'.log = d.log
  node : ∀ q, q ≠ c.target root → q ≠ c.entry.backup → d'.node q = d.node q

variable {root : Path} {c : Change} {d d₁ d₂ : Disk Data}

theorem Moved.refl (root : Path) (c : Change) (d : Disk Data) : c.Moved root d d :=
  ⟨rfl, fun _ _ _ => rfl⟩

theorem Restored.safe (h : c.Restored root d) : c.Safe root d := .inl ⟨h.1, .inl h.2⟩

theorem Safe.target_ne_dir (h : c.Safe root d) : d.node (c.target root) ≠ some .dir := by
  rcases h with ⟨-, h | ⟨-, h⟩⟩ | ⟨-, -, h | h⟩ <;> rw [h]
  · exact fileAt_ne_dir _
  · exact fileAt_ne_dir _
  · exact fun h => by cases h
  · exact fileAt_ne_dir _

theorem Safe.backup_eq (h : c.Safe root d) :
    d.node c.entry.backup = none ∨ ∃ y, d.node c.entry.backup = some (.file y) := by
  rcases h with ⟨h, -⟩ | ⟨hne, h, -⟩
  · exact .inl h
  · obtain ⟨y, hy⟩ := ne_none_iff_exists'.mp hne
    exact .inr ⟨y, by rw [h, hy]; rfl⟩

theorem Safe.congr (h : c.Safe root d) (ht : d₁.node (c.target root) = d.node (c.target root))
    (hb : d₁.node c.entry.backup = d.node c.entry.backup) : c.Safe root d₁ := by
  unfold Safe
  rw [ht, hb]
  exact h

theorem Restored.congr (h : c.Restored root d)
    (ht : d₁.node (c.target root) = d.node (c.target root))
    (hb : d₁.node c.entry.backup = d.node c.entry.backup) : c.Restored root d₁ :=
  ⟨hb.trans h.1, ht.trans h.2⟩

end Change

/-! ## Rolling one entry back -/

section

variable {digest : Data → String} {root : Path} {c : Change} {d : Disk Data}

theorem readOnly_verifyTarget (target : Path) (entry : Entry) :
    ReadOnly txMachine (verifyTarget digest target entry) := by
  refine (readOnly_pathExists _).bind fun b => ?_
  split
  · refine (readOnly_regularFileBytes _ _).bind fun y => ?_
    split
    · trivial
    · split <;> trivial
  · split
    · refine (readOnly_pathExists _).bind fun b => ?_
      split <;> trivial
    · trivial

theorem readOnly_checkUntouched (target : Path) (entry : Entry) :
    ReadOnly txMachine (checkUntouched digest target entry) := by
  refine (readOnly_pathExists _).bind fun b => ?_
  split
  · refine (readOnly_regularFileBytes _ _).attempt.bind fun r => ?_
    split
    · trivial
    · split <;> trivial
  · trivial

theorem wp_restoreBackup (hbt : c.entry.backup ≠ c.target root) {b : Data}
    (hb : c.before = some b) (hpar : d.node (c.target root).dropLast = some .dir)
    (hback : d.node c.entry.backup = some (.file b))
    (ht : d.node (c.target root) = none ∨ d.node (c.target root) = fileAt c.after) :
    wp txMachine
      (fun r d' => (c.Moved root d d' ∧ c.Safe root d') ∧ (r = .ok () → c.Restored root d'))
      (fun d' => c.Moved root d d' ∧ c.Safe root d')
      (restoreBackup digest (c.target root) c.entry) d := by
  have hmid : ∀ d', c.Moved root d d' → d'.node c.entry.backup = some (.file b) →
      (d'.node (c.target root) = none ∨ d'.node (c.target root) = fileAt c.after) →
      c.Moved root d d' ∧ c.Safe root d' := by
    intro d' hm hb' ht'
    refine ⟨hm, .inr ⟨?_, ?_, ht'⟩⟩
    · rw [hb]
      exact some_ne_none b
    · rw [hb', hb]
      rfl
  have hI := hmid d (Change.Moved.refl root c d) hback ht
  have herr : ∀ e : TxError, (c.Moved root d d ∧ c.Safe root d) ∧
      ((Except.error e : Except TxError Unit) = .ok () → c.Restored root d) :=
    fun e => ⟨hI, nofun⟩
  refine wp_look_attempt (readOnly_regularFileBytes _ _) hI fun r _ => ?_
  split
  · exact ⟨hI, herr _⟩
  split
  · exact ⟨hI, herr _⟩
  refine wp_look (readOnly_verifyTarget _ _) hI (fun _ _ => ?_) herr
  refine wp_removeMissing hI (fun d₁ h₁ => ?_) herr
  -- the target is missing now; nothing else has changed
  have hpar₁ : d₁.node (c.target root).dropLast = some .dir := by
    by_cases heq : (c.target root).dropLast = c.target root
    · rw [heq] at hpar
      rcases ht with ht | ht <;> rw [hpar] at ht
      · cases ht
      · exact absurd ht.symm (fileAt_ne_dir _)
    · rw [h₁.node _ heq, hpar]
  have hm₁ : c.Moved root d d₁ := ⟨h₁.log, fun q hq _ => h₁.node q hq⟩
  have hback₁ : d₁.node c.entry.backup = some (.file b) := by rw [h₁.node _ hbt, hback]
  have hgrown : ∀ d₂, Disk.Grown (c.target root).dropLast d₁ d₂ →
      c.Moved root d d₂ ∧ c.Safe root d₂ := by
    intro d₂ h₂
    have hsame := fun q => h₂.of_dir (q := q) hpar₁
    refine hmid d₂ ⟨h₂.log.trans hm₁.log, fun q hq hq' => (hsame q).trans (hm₁.node q hq hq')⟩
      ((hsame _).trans hback₁) (.inl ((hsame _).trans h₁.gone))
  refine ⟨hmid d₁ hm₁ hback₁ (.inl h₁.gone), ?_⟩
  refine wp_mkdirAll hgrown (fun d₂ h₂ _ => ?_) fun e d₂ h₂ => ⟨hgrown d₂ h₂, nofun⟩
  have hI₂ := hgrown d₂ h₂
  refine Prog.wp_bind_ret.mp (wp_rename hI₂ (fun y d₃ hy _ hlog hnode => ?_)
    fun e => ⟨hI₂, nofun⟩)
  -- the rename made the backup the target
  obtain rfl : y = b := by
    rw [h₂.of_dir hpar₁, hback₁] at hy
    cases hy
    rfl
  have hrest : c.Restored root d₃ := by
    refine ⟨?_, ?_⟩
    · rw [hnode, if_neg hbt, if_pos rfl]
    · rw [hnode, if_pos rfl, hb]
      rfl
  have hm₃ : c.Moved root d d₃ := by
    refine ⟨hlog.trans hI₂.1.log, fun q hq hq' => ?_⟩
    rw [hnode, if_neg hq, if_neg hq', hI₂.1.node q hq hq']
  exact ⟨⟨hm₃, hrest.safe⟩, ⟨hm₃, hrest.safe⟩, fun _ => hrest⟩

theorem wp_rollbackEntry (hrec : c.Recorded digest root) (hbt : c.entry.backup ≠ c.target root)
    (hpar : c.before ≠ none → d.node (c.target root).dropLast = some .dir)
    (hsafe : c.Safe root d) :
    wp txMachine
      (fun r d' => (c.Moved root d d' ∧ c.Safe root d') ∧ (r = .ok () → c.Restored root d') ∧
        (c.Restored root d → c.Restored root d'))
      (fun d' => c.Moved root d d' ∧ c.Safe root d')
      (rollbackEntry digest root c.entry) d := by
  have hI : c.Moved root d d ∧ c.Safe root d := ⟨Change.Moved.refl root c d, hsafe⟩
  unfold rollbackEntry
  rw [hrec.confined]
  refine wp_pathExists hI ?_
  rcases hsafe with ⟨hnone, ht⟩ | ⟨hne, hbk, ht⟩
  · rw [hnone, if_neg (by exact nofun)]
    by_cases hb : c.before = none
    · rw [if_neg (by rw [hrec.beforeExists, hb]; exact nofun)]
      have hI : c.Moved root d d ∧ c.Safe root d := ⟨Change.Moved.refl root c d, hI.2⟩
      have herr : ∀ e : TxError, (c.Moved root d d ∧ c.Safe root d) ∧
          ((Except.error e : Except TxError Unit) = .ok () → c.Restored root d) ∧
          (c.Restored root d → c.Restored root d) := fun e => ⟨hI, nofun, id⟩
      refine wp_pathExists hI ?_
      split
      · refine wp_look (readOnly_regularFileBytes _ _) hI (fun y _ => ?_) herr
        split
        · exact ⟨hI, herr _⟩
        refine Prog.wp_bind_ret.mp (wp_remove hI (fun d₁ _ h₁ => ?_) fun e => herr _)
        have hrest : c.Restored root d₁ := by
          refine ⟨?_, ?_⟩
          · rw [h₁.node _ hbt, hnone]
          · rw [h₁.gone, hb]
            rfl
        have hd₁ : c.Moved root d d₁ ∧ c.Safe root d₁ :=
          ⟨⟨h₁.log, fun q hq _ => h₁.node q hq⟩, hrest.safe⟩
        exact ⟨hd₁, hd₁, fun _ => hrest, fun _ => hrest⟩
      · rename_i hex
        have hrest : c.Restored root d := by
          refine ⟨hnone, ?_⟩
          rw [hb]
          exact not_isSome_iff_eq_none.mp hex
        exact ⟨hI, hI, fun _ => hrest, id⟩
    · rw [if_pos (by rw [hrec.beforeExists]; exact isSome_iff_ne_none.mpr hb)]
      -- the check changes nothing, and the target still holds the old contents
      have hrest : c.Restored root d := ⟨hnone, ht.resolve_right fun h => hb h.1⟩
      exact (readOnly_checkUntouched _ _).wp hI fun _ _ => ⟨hI, fun _ => hrest, id⟩
  · obtain ⟨b, hb⟩ := ne_none_iff_exists'.mp hne
    have hbk' : d.node c.entry.backup = some (.file b) := by
      rw [hbk, hb]
      rfl
    rw [hbk', isSome_some, if_pos rfl]
    refine (wp_restoreBackup hbt hb (hpar hne) hbk' ht).mono (fun r d' _ h => ?_) fun _ h => h
    refine ⟨h.1, h.2, fun hrest => ?_⟩
    rw [hrest.1] at hbk'
    cases hbk'

theorem exists_after {n : Node Data} (hn : d.node (c.target root) = some n)
    (ht : d.node (c.target root) = none ∨ d.node (c.target root) = fileAt c.after) :
    ∃ a, c.after = some a ∧ d.node (c.target root) = some (.file a) := by
  have hafter := ht.resolve_left (by rw [hn]; exact nofun)
  cases ha : c.after with
  | none =>
    rw [hn, ha] at hafter
    cases hafter
  | some a => exact ⟨a, rfl, hafter.trans (congrArg fileAt ha)⟩

theorem run_verifyTarget_ok (hrec : c.Recorded digest root)
    (ht : d.node (c.target root) = none ∨ d.node (c.target root) = fileAt c.after)
    (hstage : d.node (c.target root) = none → c.after ≠ none → d.node c.entry.stage ≠ none) :
    run txMachine (verifyTarget digest (c.target root) c.entry) d = (.ok (), d) := by
  refine (Prog.run_bind_ok (run_pathExists _)).trans ?_
  rcases hn : d.node (c.target root) with _ | n
  · rw [if_neg (by exact nofun)]
    by_cases ha : c.after = none
    · rw [if_neg (by rw [hrec.afterExists, ha]; exact nofun)]
      rfl
    · rw [if_pos (by rw [hrec.afterExists]; exact isSome_iff_ne_none.mpr ha)]
      refine (Prog.run_bind_ok (run_pathExists _)).trans ?_
      rw [if_pos (isSome_iff_ne_none.mpr (hstage hn ha))]
      rfl
  · obtain ⟨a, ha, hfile⟩ := exists_after hn ht
    refine (Prog.run_bind_ok (run_regularFileBytes _ hfile)).trans ?_
    rw [if_neg (by rw [hrec.afterExists, ha]; exact fun h => h rfl),
      if_neg (by rw [hrec.afterDigest a ha]; exact fun h => h rfl)]
    rfl

theorem run_verifyTarget_missing (digest : Data → String) {target : Path} {entry : Entry}
    (hafter : entry.afterExists)
    (ht : d.node target = none) (hstage : d.node entry.stage = none) :
    ∃ e, run txMachine (verifyTarget digest target entry) d = (.error e, d) := by
  unfold verifyTarget
  simp only [Prog.bind_eq, Prog.run_bind_ok (run_pathExists _)]
  rw [ht, if_neg (by exact nofun), if_pos hafter,
    Prog.run_bind_ok (run_pathExists _), hstage]
  exact ⟨_, rfl⟩

section

variable (hrec : c.Recorded digest root)
include hrec

theorem run_restoreBackup_ok
    (hbt : c.entry.backup ≠ c.target root) {b : Data}
    (hb : c.before = some b) (hpar : d.node (c.target root).dropLast = some .dir)
    (hback : d.node c.entry.backup = some (.file b))
    (ht : d.node (c.target root) = none ∨ d.node (c.target root) = fileAt c.after)
    (hstage : d.node (c.target root) = none → c.after ≠ none → d.node c.entry.stage ≠ none) :
    (run txMachine (restoreBackup digest (c.target root) c.entry) d).1 = .ok () := by
  have hdir : d.node (c.target root) ≠ some .dir := by
    rcases ht with ht | ht <;> rw [ht]
    · exact fun h => by cases h
    · exact fileAt_ne_dir _
  have hlt : (c.target root).dropLast ≠ c.target root := by
    intro heq
    rw [heq] at hpar
    exact hdir hpar
  obtain ⟨d₁, hrun₁, h₁⟩ := run_removeMissing hpar hdir
  have hpar₁ : d₁.node (c.target root).dropLast = some .dir := by rw [h₁.node _ hlt, hpar]
  obtain ⟨d₂, hrun₂, h₂⟩ := run_mkdirAll (Disk.clear_of_dir hpar₁)
  have hsame := fun q => h₂.of_dir (q := q) hpar₁
  have hback₂ : d₂.node c.entry.backup = some (.file b) := by
    rw [hsame, h₁.node _ hbt, hback]
  have hw : d₂.Writable (c.target root) := by
    refine ⟨hrec.proper, ?_, ?_⟩
    · rw [hsame, hpar₁]
    · rw [hsame, h₁.gone]
      exact nofun
  obtain ⟨d₃, hren, -, -⟩ := Disk.rename_ok hback₂ hw
  unfold restoreBackup
  simp only [Prog.bind_eq, Prog.run_attempt_bind, run_regularFileBytes _ hback]
  rw [if_neg (by rw [hrec.beforeDigest b hb]; exact fun h => h rfl),
    Prog.run_bind_ok (run_verifyTarget_ok hrec ht hstage), Prog.run_bind_ok hrun₁,
    Prog.run_bind_ok hrun₂, run_sys_ok (o := .rename _ _) hren]

theorem run_checkUntouched_ok {b : Data}
    (hb : c.before = some b) (ht : d.node (c.target root) = fileAt c.before) :
    (run txMachine (checkUntouched digest (c.target root) c.entry) d).1 = .ok () := by
  have hfile : d.node (c.target root) = some (.file b) := by
    rw [ht, hb]
    rfl
  unfold checkUntouched
  simp only [Prog.bind_eq, Prog.run_bind_ok (run_pathExists _)]
  rw [hfile, isSome_some, if_pos rfl, Prog.run_attempt_bind,
    run_regularFileBytes _ hfile]
  simp only
  rw [if_neg (by rw [hrec.beforeDigest b hb]; exact fun h => h rfl)]
  rfl

theorem run_removeCreated_ok
    (ht : d.node (c.target root) = none ∨ d.node (c.target root) = fileAt c.after) :
    (run txMachine (removeCreated digest (c.target root) c.entry) d).1 = .ok () := by
  unfold removeCreated
  simp only [Prog.bind_eq, Prog.run_bind_ok (run_pathExists _)]
  rcases hn : d.node (c.target root) with _ | n
  · rfl
  · obtain ⟨a, ha, hfile⟩ := exists_after hn ht
    rw [isSome_some, if_pos rfl, Prog.run_bind_ok (run_regularFileBytes _ hfile),
      if_neg (by rw [hrec.afterDigest a ha]; exact fun h => h rfl)]
    obtain ⟨d₁, hrun, -⟩ := run_remove hfile
    rw [hrun]

theorem run_rollbackEntry_ok
    (hbt : c.entry.backup ≠ c.target root)
    (hpar : c.before ≠ none → d.node (c.target root).dropLast = some .dir)
    (hsafe : c.Safe root d) (hstr : ¬ c.entry.Stranded root d) :
    (run txMachine (rollbackEntry digest root c.entry) d).1 = .ok () := by
  unfold rollbackEntry
  rw [hrec.confined]
  simp only [Prog.bind_eq, Prog.run_bind_ok (run_pathExists _)]
  rcases hsafe with ⟨hnone, ht⟩ | ⟨hne, hbk, ht⟩
  · rw [hnone, if_neg (by exact nofun)]
    rcases hbefore : c.before with _ | b
    · rw [if_neg (by rw [hrec.beforeExists, hbefore]; exact nofun)]
      refine run_removeCreated_ok hrec (ht.imp (fun h => ?_) fun h => h.2)
      rw [h, hbefore]
      rfl
    · rw [if_pos (by rw [hrec.beforeExists, hbefore]; rfl)]
      refine run_checkUntouched_ok hrec hbefore (ht.resolve_right fun h => ?_)
      rw [hbefore] at h
      cases h.1
  · obtain ⟨b, hb⟩ := ne_none_iff_exists'.mp hne
    have hbk' : d.node c.entry.backup = some (.file b) := by
      rw [hbk, hb]
      rfl
    rw [hbk', isSome_some, if_pos rfl]
    refine run_restoreBackup_ok hrec hbt hb (hpar hne) hbk' ht fun hn ha hstage => hstr ?_
    refine ⟨?_, ?_, ?_, hn, hstage⟩
    · rw [hrec.beforeExists, hb]
      rfl
    · rw [hrec.afterExists]
      exact isSome_iff_ne_none.mpr ha
    · rw [hbk']
      exact some_ne_none _

theorem run_rollbackEntry_stranded (hsafe : c.Safe root d)
    (hstr : c.entry.Stranded root d) :
    ∃ e, run txMachine (rollbackEntry digest root c.entry) d = (.error e, d) := by
  obtain ⟨-, hafter, hbk, ht, hstage⟩ := hstr
  obtain ⟨y, hy⟩ := hsafe.backup_eq.resolve_left hbk
  obtain ⟨b, hb⟩ : ∃ b, c.before = some b ∧ b = y := by
    rcases hsafe with ⟨h, -⟩ | ⟨-, h, -⟩
    · exact absurd h hbk
    · exact ⟨y, fileAt_eq_file.mp (h.symm.trans hy), rfl⟩
  obtain ⟨hb, rfl⟩ := hb
  obtain ⟨e, he⟩ := run_verifyTarget_missing digest hafter ht hstage
  unfold rollbackEntry restoreBackup
  rw [hrec.confined]
  simp only [Prog.bind_eq, Prog.run_bind_ok (run_pathExists _), hy, isSome_some, if_true,
    Prog.run_attempt_bind, run_regularFileBytes _ hy]
  rw [if_neg (by rw [hrec.beforeDigest b hb]; exact fun h => h rfl)]
  exact ⟨e, Prog.run_bind_error he⟩

end

end

end Scenery
