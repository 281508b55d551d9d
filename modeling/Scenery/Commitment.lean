import Scenery.Acquisition
import Scenery.Commit
import Scenery.Installation

/-!
# A committed plan is a transaction

`commitPlannedEdits` and `applyChangePlanWithOptions`, cut off at any point: before the journal is
in place there is no journal and no receipt; afterwards the tree holds a transaction of these
edits within its life, committed exactly when the receipt is linked.
-/

namespace Scenery

open List

open Prog (call ReadOnly wp run)

def SourceEdit.contents (edit : SourceEdit) : Option Data :=
  if edit.afterExists then some (.bytes edit.after) else none

/-- What the callers of `commitPlannedEdits` promise about their edits: the paths are clean,
lie outside the managed directory and occur once, and every edit starts or ends with a
file. -/
structure Planned (edits : List SourceEdit) : Prop where
  proper : ∀ e ∈ edits, e.path ≠ [] ∧ e.path.all properPart = true
  unmanaged : ∀ e ∈ edits, e.path.head? ≠ some ".scenery"
  actual : ∀ e ∈ edits, e.beforeExists = true ∨ e.afterExists = true
  distinct : edits.Pairwise fun a b => a.path.text ≠ b.path.text

/-! ## Clean paths -/

namespace Evolution

theorem cleanStep_proper {kept : List String} {part : String} (h : properPart part = true) :
    cleanStep kept part = kept ++ [part] := by
  simp only [properPart, Bool.and_eq_true, decide_eq_true_eq, ne_eq] at h
  rw [cleanStep, if_neg (not_or.mpr h.1), if_neg fun hc => h.2 hc.1]

theorem foldl_cleanStep {parts : List String} (kept : List String)
    (h : parts.all properPart = true) : parts.foldl cleanStep kept = kept ++ parts := by
  induction parts generalizing kept with
  | nil => exact (append_nil kept).symm
  | cons part rest ih =>
    rw [all_cons, Bool.and_eq_true] at h
    rw [foldl_cons, cleanStep_proper h.1, ih _ h.2, append_assoc]
    rfl

theorem clean_eq {relative : RelPath} (hne : relative ≠ []) (h : relative.all properPart = true) :
    clean relative = relative := by
  rw [clean, foldl_cleanStep [] h, nil_append, if_neg hne]

theorem readOnly_checkParents (relative : RelPath) :
    ∀ (parts : List String) (current : Path),
      ReadOnly txMachine (checkParents relative current parts)
  | [], _ => trivial
  | part :: rest, current => by
    refine (readOnly_lstat (current ++ [part])).bind fun x => ?_
    split
    · trivial
    · trivial
    · trivial
    · exact readOnly_checkParents relative rest _

theorem readOnly_confinedPath (root : Path) (relative : RelPath) :
    ReadOnly txMachine (confinedPath root relative) := by
  unfold confinedPath
  split
  · trivial
  · exact (readOnly_checkParents _ _ _).bind fun _ => trivial

theorem runs_confinedPath {root path : Path} {relative : RelPath} {d d' : Disk Data}
    (hne : relative ≠ []) (hproper : relative.all properPart = true)
    (h : Prog.Runs txMachine (confinedPath root relative) d (.ok path) d') :
    path = joinRoot root relative := by
  unfold confinedPath at h
  split at h
  · cases h.1
  · obtain ⟨_, d₁, -, hrest⟩ := Prog.runs_bind_ok h
    rw [← clean_eq hne hproper]
    exact Except.ok.inj hrest.1

end Evolution

section

variable {root : Path} {relative : RelPath}

theorem joinRoot_proper (h : relative.all properPart = true) :
    joinRoot root relative = root ++ relative := by
  refine if_neg fun heq => ?_
  rw [heq] at h
  exact absurd h (by decide)

theorem confinedPath_proper (hne : relative ≠ []) (h : relative.all properPart = true) :
    confinedPath root relative = .ok (joinRoot root relative) :=
  if_pos (.inr ⟨hne, h⟩)

theorem not_prefix_managed (hne : relative ≠ []) (h : relative.all properPart = true)
    (hhead : relative.head? ≠ some ".scenery") (rest : List String) :
    ¬ root ++ ".scenery" :: rest <+: joinRoot root relative ∧
      ¬ joinRoot root relative <+: root ++ ".scenery" :: rest := by
  obtain ⟨part, tail, rfl⟩ := exists_cons_of_ne_nil hne
  have hpart : ".scenery" ≠ part := fun heq => hhead (by rw [← heq]; rfl)
  rw [joinRoot_proper h, prefix_append_right_inj, prefix_append_right_inj]
  constructor
  · rintro ⟨t, ht⟩
    exact hpart (List.cons.inj ht).1
  · rintro ⟨t, ht⟩
    exact hpart (List.cons.inj ht).1.symm

theorem not_managed (hne : relative ≠ []) (h : relative.all properPart = true)
    (hhead : relative.head? ≠ some ".scenery") :
    ¬ transactionRoot root <+: joinRoot root relative :=
  (not_prefix_managed hne h hhead ["transactions"]).1

end

/-! ## Taking the lock -/

namespace Publisher

variable {digest : Data → String} {P : Publisher} {d₀ d d' : Disk Data}

/-- No journal is left and the directory of the new transaction is unused. -/
structure Idle (P : Publisher) (d : Disk Data) : Prop where
  journal : ∀ j, d.node (journalPath P.root) ≠ some (.file (.journal j))
  fresh : ∀ q, P.directory <+: q → d.node q = none
  suffix : '.' ∉ P.suffix.toList

/-- Outside the directory of transactions the tree is that of `d₀`, but for the directories
on the way to it. -/
def Alike (P : Publisher) (d₀ d : Disk Data) : Prop :=
  ∀ q, ¬ transactionRoot P.root <+: q → d.node q = d₀.node q ∨
    d₀.node q = none ∧ d.node q = some .dir ∧ q <+: transactionRoot P.root

structure Locked (P : Publisher) (d : Disk Data) : Prop extends P.Idle d where
  top : d.node (transactionRoot P.root) = some .dir
  gate : d.node (gatePath P.root) = none ∨ ∃ y, d.node (gatePath P.root) = some (.file y)
  lock : d.node (lockPath P.root) = some (.file (.lock P.lock))

theorem Idle.swept (h : P.Idle d) (hs : Swept P.root d d') : P.Idle d' where
  journal := hs.journal h.journal
  fresh q hq := by
    have hgate : q ≠ gatePath P.root := fun heq =>
      directory_not_prefix (change_append_ne (by decide)) (heq ▸ hq)
    rcases hs.below q hgate with heq | hnone
    · exact heq.trans (h.fresh q hq)
    · exact hnone
  suffix := h.suffix

theorem Idle.not_prefix (h : P.Idle d) (name : String) (hname : '.' ∈ name.toList) :
    ¬ P.directory <+: transactionRoot P.root ++ [name] := by
  refine directory_not_prefix fun heq => ?_
  rw [← heq, String.toList_append] at hname
  rcases mem_append.mp hname with hdot | hdot
  · exact absurd hdot (by decide)
  · exact h.suffix hdot

def Quiet (P : Publisher) (d₀ d : Disk Data) : Prop := P.Idle d ∧ P.Alike d₀ d

theorem Quiet.swept (h : P.Quiet d₀ d) (hs : Swept P.root d d') : P.Quiet d₀ d' :=
  ⟨h.1.swept hs, fun q hq => by
    rw [hs.outside q hq]
    exact h.2 q hq⟩

theorem Quiet.grown (h : P.Quiet d₀ d) (hg : Disk.Grown (transactionRoot P.root) d d') :
    P.Quiet d₀ d' := by
  refine ⟨⟨fun j => ?_, fun q hq => ?_, h.1.suffix⟩, fun q hq => ?_⟩
  · rw [hg.of_not_prefix fun hpre => absurd hpre.length_le (by simp [journalPath])]
    exact h.1.journal j
  · rw [hg.of_not_prefix fun hpre => P.not_prefix_root (hq.trans hpre)]
    exact h.1.fresh q hq
  · rcases hg.node q with heq | hnew
    · rw [heq]
      exact h.2 q hq
    · rcases h.2 q hq with heq | hold
      · exact .inr ⟨heq ▸ hnew.1, hnew.2⟩
      · rw [hold.2.1] at hnew
        cases hnew.1

theorem Quiet.lock_changed (h : P.Quiet d₀ d)
    (hsame : ∀ q, q ≠ lockPath P.root → d'.node q = d.node q) : P.Quiet d₀ d' := by
  refine ⟨⟨fun j => ?_, fun q hq => ?_, h.1.suffix⟩, fun q hq => ?_⟩
  · rw [hsame (journalPath P.root) (Txn.top_ne_top (by decide))]
    exact h.1.journal j
  · rw [hsame q fun heq => directory_not_prefix (change_append_ne (by decide)) (heq ▸ hq)]
    exact h.1.fresh q hq
  · rw [hsame q fun heq => hq (heq ▸ prefix_append _ _)]
    exact h.2 q hq

theorem wp_releaseLock {Q : Except TxError Unit → Disk Data → Prop} {I : Disk Data → Prop}
    {f : Unit → TxProg Unit} (hI : I d)
    (hok : ∀ d', d' = d ∨ Disk.Removed (lockPath P.root) d d' → wp txMachine Q I (f ()) d') :
    wp txMachine Q I ((releaseLock P).bind f) d := by
  refine wp_remove_ignored hI fun _ d' h' => ?_
  exact hok d' (h'.imp_right And.right)

theorem wp_lockWorkspace (h : P.Idle d₀) :
    wp txMachine (fun r d' => P.Quiet d₀ d' ∧ (r = .ok () → P.Locked d'))
      (P.Quiet d₀) (lockWorkspace digest P) d₀ := by
  have hquiet : P.Quiet d₀ d₀ := ⟨h, fun q _ => .inl rfl⟩
  refine Prog.wp_bind ((wp_recover_quiet h.journal).mono (fun r d₁ _ h₁ => ?_) fun d₁ h₁ =>
    hquiet.swept h₁)
  obtain ⟨hswept, hgate⟩ := h₁
  have hq₁ := hquiet.swept hswept
  cases r with
  | error e => exact ⟨hq₁, fun h => by cases h⟩
  | ok _ =>
    have hgate₁ : d₁.node (gatePath P.root) = none ∨
        ∃ y, d₁.node (gatePath P.root) = some (.file y) := by
      rcases hgate rfl with hnone | hfile
      · rcases hswept.gate with heq | hfile
        · left
          rw [heq]
          by_contra hne
          have hdir := d₀.tree _ (transactionRoot P.root) (prefix_append _ _)
            (Txn.root_ne_top _) hne
          rw [hnone] at hdir
          cases hdir
        · exact .inr hfile
      · exact .inr hfile
    refine wp_mkdirAll (fun _ => hq₁.grown) (fun d₂ h₂ hdir₂ => ?_) fun e d₂ h₂ =>
      ⟨hq₁.grown h₂, fun h => by cases h⟩
    have hq₂ := hq₁.grown h₂
    have htop₂ : d₂.node (transactionRoot P.root) = some .dir := hdir₂ _ (prefix_refl _)
    have hgate₂ : d₂.node (gatePath P.root) = d₁.node (gatePath P.root) :=
      h₂.of_not_prefix fun hpre => absurd hpre.length_le (by simp [gatePath])
    refine wp_look (readOnly_rejectPathSymlinks _ _) hq₂ (fun _ _ => ?_) fun e => ⟨hq₂, fun h => by cases h⟩
    refine wp_createFile hq₂ (fun d₃ _ h₃ => ?_) fun e => ⟨hq₂, hq₂, fun h => by cases h⟩
    have hq₃ := hq₂.lock_changed h₃.node
    refine wp_writeCreated hq₃ (fun d₄ h₄ => ?_) fun e => ?_
    · have hplaced := h₃.trans h₄
      have hq₄ := hq₂.lock_changed hplaced.node
      refine ⟨hq₄, hq₄, fun _ => ⟨hq₄.1, ?_, ?_, hplaced.file⟩⟩
      · exact (hplaced.node _ (Txn.root_ne_top _)).trans htop₂
      · rw [hplaced.node (gatePath P.root) (Txn.top_ne_top (by decide)), hgate₂]
        exact hgate₁
    · refine wp_releaseLock hq₃ fun d₄ h₄ => ?_
      have hq₄ : P.Quiet d₀ d₄ := by
        rcases h₄ with rfl | h₄
        · exact hq₃
        · exact hq₃.lock_changed h₄.node
      exact ⟨hq₄, hq₄, fun h => by cases h⟩

/-! ## Staging -/

def Beside (P : Publisher) (dₗ d : Disk Data) : Prop :=
  ∀ q, ¬ P.directory <+: q → q ≠ journalTemporary P.root → q ≠ lockPath P.root →
    d.node q = dₗ.node q

theorem Beside.refl (P : Publisher) (d : Disk Data) : P.Beside d d := fun _ _ _ _ => rfl

theorem Beside.trans {d₁ d₂ : Disk Data} (h₁ : P.Beside d d₁)
    (h₂ : ∀ q, ¬ P.directory <+: q → q ≠ journalTemporary P.root → q ≠ lockPath P.root →
      d₂.node q = d₁.node q) : P.Beside d d₂ :=
  fun q hdir htmp hlock => (h₂ q hdir htmp hlock).trans (h₁ q hdir htmp hlock)

end Publisher

section

variable {digest : Data → String} {P : Publisher} {edits : List SourceEdit} {dₗ d d' : Disk Data}
  {changes : List Change}

theorem readOnly_checkPlanned (path : Path) (edit : SourceEdit) :
    ReadOnly txMachine (checkPlanned digest path edit) := by
  refine (readOnly_lstat path).bind fun x => ?_
  split
  · split <;> trivial
  · trivial
  · split
    · refine (readOnly_sys (Disk.reads_readFile path)).bind fun _ => ?_
      split <;> trivial
    · trivial
  · trivial

variable {edit : SourceEdit}

theorem runs_checkPlanned {path : Path}
    (h : Prog.Runs txMachine (checkPlanned digest path edit) d (.ok ()) d') :
    ∃ before : Option Data, d.node path = fileAt before ∧ edit.beforeExists = before.isSome ∧
      (∀ x, before = some x → edit.beforeDigest = digest x) ∧
      (path ≠ [] → d.Clear path.dropLast) := by
  obtain ⟨x, d₁, hx, hrest⟩ := Prog.runs_bind_ok h
  obtain ⟨rfl, rfl⟩ := runs_lstat hx
  split at hrest
  · rename_i hl
    split at hrest
    · cases hrest.1
    · rename_i hb
      refine ⟨none, Disk.lstat_error hl, Bool.eq_false_iff.mpr hb, nofun, ?_⟩
      exact fun _ => (Disk.clear_of_missing hl).mono ( dropLast_prefix _)
  · cases hrest.1
  · split at hrest
    · rename_i hb
      obtain ⟨y, d₂, hy, hdigest⟩ := Prog.runs_bind_ok hrest
      obtain ⟨rfl, hy⟩ := runs_readFile hy
      split at hdigest
      · cases hdigest.1
      · rename_i heq
        refine ⟨some y, hy, hb, fun x hx => ?_, fun hne => d₂.clear_dropLast hne ?_⟩
        · rw [← Option.some.inj hx]
          exact (not_not.mp heq).symm
        · rw [hy]
          exact Option.some_ne_none _
    · cases hrest.1
  · cases hrest.1

def editChange (digest : Data → String) (P : Publisher) (index : ℕ) (edit : SourceEdit)
    (before : Option Data) : Change :=
  ⟨editEntry digest P index edit, before, edit.contents⟩

theorem editChange_recorded (hplan : Planned edits) (hmem : edit ∈ edits)
    {before : Option Data} (hexists : edit.beforeExists = before.isSome)
    (hdigest : ∀ x, before = some x → edit.beforeDigest = digest x) (index : ℕ) :
    (editChange digest P index edit before).Recorded digest P.root := by
  obtain ⟨hne, hproper⟩ := hplan.proper edit hmem
  refine ⟨confinedPath_proper hne hproper, ?_, not_managed hne hproper (hplan.unmanaged edit hmem),
    hexists, ?_, hdigest, ?_, ?_⟩
  · show joinRoot P.root edit.path ≠ []
    rw [joinRoot_proper hproper]
    exact append_ne_nil_of_right_ne_nil _ hne
  · show edit.afterExists = edit.contents.isSome
    unfold SourceEdit.contents
    cases edit.afterExists <;> rfl
  · intro x hx
    have hx : edit.contents = some x := hx
    unfold SourceEdit.contents at hx
    split at hx
    · rw [← Option.some.inj hx]
      rfl
    · cases hx
  · intro hb ha
    have hb : before = none := hb
    have ha : edit.contents = none := ha
    unfold SourceEdit.contents at ha
    rw [hb] at hexists
    rcases hplan.actual edit hmem with h | h
    · rw [hexists] at h
      cases h
    · rw [if_pos h] at ha
      cases ha

structure EditsStaged (digest : Data → String) (P : Publisher) (dₗ : Disk Data)
    (done : List SourceEdit) (changes : List Change) (d : Disk Data) : Prop where
  layout : Layout digest P.root P.directory dₗ changes
  shelf : Shelf P.directory dₗ changes d
  staged : d.node (P.directory ++ ["staged"]) = some .dir
  backups : d.node (P.directory ++ ["backups"]) = some .dir
  source : changes.map (fun c => (c.entry.path, c.after)) = done.map fun e => (e.path, e.contents)

variable {done : List SourceEdit}

theorem EditsStaged.beside (h : EditsStaged digest P dₗ done changes d) :
    P.Beside dₗ d := fun q hq _ _ => h.shelf.outside q hq

theorem EditsStaged.append {before : Option Data} (h : EditsStaged digest P dₗ done changes d)
    (hplan : Planned edits) (hmem : edit ∈ edits) (hexists : edit.beforeExists = before.isSome)
    (hdigest : ∀ x, before = some x → edit.beforeDigest = digest x)
    (hbase : dₗ.node (joinRoot P.root edit.path) = fileAt before)
    (hclear : dₗ.Clear (joinRoot P.root edit.path).dropLast)
    (hlast : ∀ c ∈ changes, c.entry.path.text < edit.path.text)
    (hstage : d'.node (stagePath P.directory changes.length) = fileAt edit.contents)
    (hsame : ∀ q, q ≠ stagePath P.directory changes.length → d'.node q = d.node q) :
    EditsStaged digest P dₗ (done ++ [edit])
      (changes ++ [editChange digest P changes.length edit before]) d' := by
  obtain ⟨hne, hproper⟩ := hplan.proper edit hmem
  refine ⟨h.layout.append (editChange_recorded hplan hmem hexists hdigest _) ⟨rfl, rfl⟩
    ⟨hne, joinRoot_proper hproper⟩ hbase hclear hlast,
    h.shelf.append hstage fun q _ _ => hsame q, ?_, ?_, ?_⟩
  · exact (hsame _ (by simp [stagePath])).trans h.staged
  · exact (hsame _ (by simp [stagePath])).trans h.backups
  · rw [map_append, map_append, h.source]
    rfl

theorem Planned.sorted (h : Planned edits) :
    (edits.insertionSort SourceEdit.Before).Pairwise fun a b => a.path.text < b.path.text := by
  have : Std.Total SourceEdit.Before := ⟨fun a b => String.le_total a.path.text b.path.text⟩
  have : IsTrans SourceEdit SourceEdit.Before := ⟨fun _ _ _ => String.le_trans⟩
  have hle := pairwise_insertionSort SourceEdit.Before edits
  have hne := (perm_insertionSort SourceEdit.Before edits).symm.pairwise h.distinct
    Ne.symm
  exact hle.imp₂ (fun _ _ => lt_of_le_of_ne) hne

variable {c : Change}

theorem EditsStaged.mem_done (h : EditsStaged digest P dₗ done changes d) (hc : c ∈ changes) :
    ∃ e ∈ done, e.path = c.entry.path ∧ e.contents = c.after := by
  have hmem : (c.entry.path, c.after) ∈ done.map fun e => (e.path, e.contents) :=
    h.source ▸ mem_map_of_mem hc
  obtain ⟨e, he, heq⟩ := mem_map.mp hmem
  exact ⟨e, he, (Prod.mk.inj heq).1, (Prod.mk.inj heq).2⟩

theorem wp_writeSyncedFile {α : Type} {p : Path} {x : Data}
    {Q : Except TxError α → Disk Data → Prop} {I : Disk Data → Prop} {f : Unit → TxProg α} (hI : I d)
    (hpart : ∀ y d', d.node p = none → Disk.Placed p y d d' → I d')
    (hok : ∀ d', d.node p = none → Disk.Placed p x d d' → wp txMachine Q I (f ()) d')
    (herr : ∀ e d', d' = d ∨ (∃ y, Disk.Placed p y d d') → Q (.error e) d') :
    wp txMachine Q I ((writeSyncedFile p x).bind f) d := by
  refine Prog.wp_bind (Prog.wp_bind (wp_createFile hI (fun d₁ hnone h₁ => ?_) fun e => ?_))
  · have hI₁ := hpart _ d₁ hnone h₁
    refine ⟨hI₁, Prog.wp_bind_ret.mp (wp_writeCreated hI₁ (fun d₂ h₂ => ?_) fun e => ?_)⟩
    · exact ⟨hpart _ d₂ hnone (h₁.trans h₂), hok d₂ hnone (h₁.trans h₂)⟩
    · exact ⟨hI₁, herr _ _ (.inr ⟨_, h₁⟩)⟩
  · exact ⟨hI, herr _ _ (.inl rfl)⟩

theorem wp_stageEdits (hplan : Planned edits) (todo : List SourceEdit) :
    ∀ (done : List SourceEdit) (changes : List Change) (d : Disk Data),
      edits.insertionSort SourceEdit.Before = done ++ todo →
      EditsStaged digest P dₗ done changes d →
      wp txMachine
        (fun r d' => P.Beside dₗ d' ∧ ∀ entries, r = .ok entries →
          ∃ changes', entries = changes'.map Change.entry ∧
            EditsStaged digest P dₗ (edits.insertionSort SourceEdit.Before) changes' d')
        (P.Beside dₗ) (stageEdits digest P (changes.map Change.entry) todo) d := by
  induction todo with
  | nil =>
    intro done changes d hsplit h
    rw [append_nil] at hsplit
    refine ⟨h.beside, h.beside, fun entries hr => ⟨changes, (Except.ok.inj hr).symm, ?_⟩⟩
    rw [hsplit]
    exact h
  | cons edit rest ih =>
    intro done changes d hsplit h
    have hI := h.beside
    have hmem : edit ∈ edits := by
      refine (mem_insertionSort SourceEdit.Before).mp ?_
      rw [hsplit]
      exact mem_append_right _ mem_cons_self
    obtain ⟨hne, hproper⟩ := hplan.proper edit hmem
    have hunder : ¬ P.directory <+: joinRoot P.root edit.path := fun hpre =>
      not_managed hne hproper (hplan.unmanaged edit hmem) (P.directory_under.trans hpre)
    refine wp_look (Evolution.readOnly_confinedPath _ _) hI (fun path hpath => ?_) fun e =>
      ⟨hI, nofun⟩
    obtain rfl := Evolution.runs_confinedPath hne hproper hpath
    refine wp_look (readOnly_checkPlanned _ _) hI (fun _ hcheck => ?_) fun e => ⟨hI, nofun⟩
    obtain ⟨before, hbase, hexists, hdigest, hclear⟩ := runs_checkPlanned hcheck
    have hroot : joinRoot P.root edit.path ≠ [] := by
      rw [joinRoot_proper hproper]
      exact append_ne_nil_of_right_ne_nil _ hne
    have hlast : ∀ c ∈ changes, c.entry.path.text < edit.path.text := by
      intro c hc
      obtain ⟨e, he, hpath, -⟩ := h.mem_done hc
      have hsorted := hplan.sorted
      rw [hsplit] at hsorted
      rw [← hpath]
      exact (pairwise_append.mp hsorted).2.2 e he edit mem_cons_self
    -- what is left to do once the new contents, if any, are staged
    have hrest : ∀ d₁, d₁.node (stagePath P.directory changes.length) = fileAt edit.contents →
        (∀ q, q ≠ stagePath P.directory changes.length → d₁.node q = d.node q) →
        wp txMachine
          (fun r d' => P.Beside dₗ d' ∧ ∀ entries, r = .ok entries →
            ∃ changes', entries = changes'.map Change.entry ∧
              EditsStaged digest P dₗ (edits.insertionSort SourceEdit.Before) changes' d')
          (P.Beside dₗ) (stageEdits digest P (changes.map Change.entry ++
            [editEntry digest P (changes.map Change.entry).length edit]) rest) d₁ := by
      intro d₁ hstage hsame
      have h₁ := h.append hplan hmem hexists hdigest ((h.shelf.outside _ hunder) ▸ hbase)
        (h.shelf.clear hunder (hclear hroot)) hlast hstage hsame
      have hnext := ih (done ++ [edit]) _ d₁ (by simp [hsplit]) h₁
      rw [map_append] at hnext
      rw [length_map]
      exact hnext
    by_cases hafter : edit.afterExists = true
    · rw [if_pos hafter]
      have hcontents : edit.contents = some (.bytes edit.after) := if_pos hafter
      rw [length_map]
      have hplaced : ∀ y d₁, Disk.Placed (stagePath P.directory changes.length) y d d₁ →
          P.Beside dₗ d₁ := by
        intro y d₁ h₁
        refine hI.trans fun q hq _ _ => h₁.node q ?_
        rintro rfl
        exact hq (prefix_append _ _)
      refine wp_writeSyncedFile hI (fun y d₁ _ => hplaced y d₁) (fun d₁ _ h₁ => ?_)
        fun e d₁ h₁ => ⟨?_, nofun⟩
      · refine length_map Change.entry ▸ hrest d₁ ?_ h₁.node
        rw [hcontents]
        exact h₁.file
      · rcases h₁ with rfl | ⟨y, h₁⟩
        · exact hI
        · exact hplaced y d₁ h₁
    · rw [if_neg hafter]
      refine hrest d ?_ fun _ _ => rfl
      have hcontents : edit.contents = none := if_neg hafter
      rw [h.shelf.stage, getElem?_eq_none (Nat.le_refl _), hcontents]
      rfl

/-! ## The journal -/

def Reserved (root : Path) (receipt : Option Path) : Prop :=
  ∀ p, receipt = some p → ∃ name rest, p = root ++ ".scenery" :: name :: rest ∧
    name ≠ "transactions"

structure Commits (digest : Data → String) (P : Publisher) (edits : List SourceEdit)
    (receipt : Option Path) (dₗ : Disk Data) (T : Txn digest P.root) : Prop where
  owner : T.journal.owner = P.owner
  directory : T.journal.directory = P.directory
  named : T.journal.receipt = receipt
  marker : receipt = none → T.receipt = P.receipt
  base : ∀ c ∈ T.changes, dₗ.node (c.target P.root) = fileAt c.before
  source : T.changes.map (fun c => (c.entry.path, c.after)) =
    (edits.insertionSort SourceEdit.Before).map fun e => (e.path, e.contents)

theorem Reserved.under {root p : Path} (h : Reserved root (some p)) :
    ¬ transactionRoot root <+: p ∧ root <+: p := by
  obtain ⟨name, rest, rfl, hname⟩ := h p rfl
  refine ⟨fun hpre => hname ?_, prefix_append _ _⟩
  have hpre : root ++ [".scenery", "transactions"] <+: root ++ ".scenery" :: name :: rest := hpre
  rw [prefix_append_right_inj, cons_prefix_cons, cons_prefix_cons] at hpre
  exact hpre.2.1.symm

variable {receipt : Option Path}

theorem EditsStaged.exists_txn (hplan : Planned edits) (hres : Reserved P.root receipt)
    (h : EditsStaged digest P dₗ (edits.insertionSort SourceEdit.Before) changes d) :
    ∃ T : Txn digest P.root, T.changes = changes ∧ Commits digest P edits receipt dₗ T ∧
      T.journal = editJournal P receipt (changes.map Change.entry) := by
  have hhead : ∀ c ∈ changes, ∀ rest, ¬ P.root ++ ".scenery" :: rest <+: c.target P.root := by
    intro c hc rest
    obtain ⟨e, he, hpath, -⟩ := h.mem_done hc
    have he := (mem_insertionSort SourceEdit.Before).mp he
    obtain ⟨hne, hproper⟩ := hplan.proper e he
    have hm : ¬ P.root ++ ".scenery" :: rest <+: joinRoot P.root e.path :=
      (not_prefix_managed hne hproper (hplan.unmanaged e he) rest).1
    rw [hpath] at hm
    exact hm
  cases receipt with
  | none =>
    refine ⟨h.layout.txn P.owner P.suffix none P.receipt (.inl rfl) rfl ?_ (fun c hc => ?_)
      (.inl rfl), rfl, ⟨rfl, rfl, rfl, fun _ => rfl, h.layout.base, h.source⟩, rfl⟩
    · exact ((prefix_append _ _).trans P.directory_under).trans (prefix_append _ _)
    · have hr : P.receipt = P.root ++ ".scenery" :: ["transactions", "change-" ++ P.suffix, "committed"] := by
        simp [Publisher.receipt, Publisher.directory, transactionRoot]
      rw [hr]
      exact hhead c hc _
  | some p =>
    obtain ⟨hout, hin⟩ := hres.under
    obtain ⟨name, rest, hp, -⟩ := hres p rfl
    refine ⟨h.layout.txn P.owner P.suffix (some p) p (.inr rfl) rfl hin (fun c hc => ?_)
      (.inr hout), rfl, ⟨rfl, rfl, rfl, (fun h => by cases h), h.layout.base, h.source⟩, rfl⟩
    rw [hp]
    exact hhead c hc _

theorem Publisher.Locked.grown {name : String} (h : P.Locked dₗ)
    (hg : Disk.Grown (P.directory ++ [name]) dₗ d) {q : Path} (hq : q ≠ P.directory ++ [name])
    (hdir : q ≠ P.directory) : d.node q = dₗ.node q := by
  rcases hg.node q with heq | ⟨hnone, -, hpre⟩
  · exact heq
  · have hpre := (prefix_concat_iff.mp hpre).resolve_left hq
    have hpre := (prefix_concat_iff.mp hpre).resolve_left hdir
    rw [Disk.node_of_dir h.top hpre] at hnone
    cases hnone

theorem Publisher.Locked.staged (h : P.Locked dₗ)
    (hg : Disk.Grown (P.directory ++ ["staged"]) dₗ d)
    (hdir : ∀ q, q <+: P.directory ++ ["staged"] → d.node q = some .dir)
    (hg' : Disk.Grown (P.directory ++ ["backups"]) d d')
    (hdir' : ∀ q, q <+: P.directory ++ ["backups"] → d'.node q = some .dir) :
    EditsStaged digest P dₗ [] [] d' := by
  have hhere : d.node P.directory = some .dir := hdir _ (prefix_append _ _)
  have hsame : ∀ q, q ≠ P.directory → q ≠ P.directory ++ ["staged"] →
      q ≠ P.directory ++ ["backups"] → d'.node q = dₗ.node q := fun q h₁ h₂ h₃ =>
    (hg'.child hhere h₃).trans (h.grown hg h₂ h₁)
  have hnone : ∀ q, P.directory <+: q → q ≠ P.directory → q ≠ P.directory ++ ["staged"] →
      q ≠ P.directory ++ ["backups"] → d'.node q = none := fun q hq h₁ h₂ h₃ =>
    (hsame q h₁ h₂ h₃).trans (h.fresh q hq)
  refine ⟨.nil, ⟨fun q hq => hsame q ?_ ?_ ?_, hdir' _ (prefix_append _ _), ?_, fun i => ?_,
    fun i => ?_⟩, ?_, hdir' _ (prefix_refl _), rfl⟩
  · exact fun heq => hq (heq ▸ prefix_refl _)
  · exact fun heq => hq (heq ▸ prefix_append _ _)
  · exact fun heq => hq (heq ▸ prefix_append _ _)
  · exact hnone _ (prefix_append _ _) (by simp) (by simp) (by simp)
  · exact hnone _ (prefix_append _ _) (by simp [backupPath]) (by simp [backupPath])
      (by simp [backupPath])
  · exact hnone _ (prefix_append _ _) (by simp [stagePath]) (by simp [stagePath])
      (by simp [stagePath])
  · exact (hg'.child hhere (by simp)).trans (hdir _ (prefix_refl _))

variable {T : Txn digest P.root}

theorem Commits.temporary_not_own (h : Commits digest P edits receipt dₗ T) (hidle : P.Idle dₗ) :
    ¬ T.Own (journalTemporary P.root) := by
  rintro (hq | hq | hq | hq | hq | hq)
  · exact hq (prefix_append _ _)
  · exact Txn.root_ne_top _ hq.symm
  · exact Txn.top_ne_top (by decide) hq
  · exact Txn.top_ne_top (by decide) hq
  · exact Txn.top_ne_top (by decide) hq
  · rw [h.directory] at hq
    exact hidle.not_prefix _ (by decide) hq

def Uncommitted (digest : Data → String) (P : Publisher) (edits : List SourceEdit)
    (receipt : Option Path) (dₗ d : Disk Data) : Prop :=
  P.Beside dₗ d ∨ ∃ T : Txn digest P.root, Commits digest P edits receipt dₗ T ∧
    T.Within false d ∧ d.node T.receipt = none

theorem wp_writeJournal (hlock : P.Locked dₗ) (hT : Commits digest P edits receipt dₗ T)
    (h : EditsStaged digest P dₗ (edits.insertionSort SourceEdit.Before) T.changes d)
    (hreceipt : d.node T.receipt = none) :
    wp txMachine
      (fun r d' => (r = .ok () → T.Progress [] T.changes d') ∧ ∀ e, r = .error e → P.Beside dₗ d')
      (Uncommitted digest P edits receipt dₗ) (writeJournal P.root T.journal) d := by
  have hbeside : ∀ d', (∀ q, q ≠ journalTemporary P.root → d'.node q = d.node q) →
      P.Beside dₗ d' := fun d' hsame => h.beside.trans fun q _ htmp _ => hsame q htmp
  refine wp_remove_ignored (.inl h.beside) fun _ d₁ h₁ => ?_
  have hsame₁ : ∀ q, q ≠ journalTemporary P.root → d₁.node q = d.node q := by
    rcases h₁ with rfl | ⟨-, h₁⟩
    · exact fun q _ => rfl
    · exact h₁.node
  refine wp_writeSyncedFile (.inl (hbeside d₁ hsame₁)) (fun y d₂ _ h₂ => ?_) (fun d₂ _ h₂ => ?_)
    fun e d₂ h₂ => ⟨nofun, fun _ _ => ?_⟩
  · exact .inl (hbeside d₂ fun q hq => (h₂.node q hq).trans (hsame₁ q hq))
  · have hsame₂ : ∀ q, q ≠ journalTemporary P.root → d₂.node q = d.node q := fun q hq =>
      (h₂.node q hq).trans (hsame₁ q hq)
    have hI₂ := hbeside d₂ hsame₂
    refine wp_call (fun d₃ hc => ?_) fun x d₃ hs => ?_
    · obtain rfl : d₃ = d₂ := hc
      exact .inl hI₂
    rcases Disk.step_rename hs with ⟨rfl, -, -, y, hy, hnode⟩ | ⟨⟨e, rfl⟩, rfl⟩
    · -- the journal is in place
      obtain rfl : Data.journal T.journal = y := by
        have hfile := h₂.file
        rw [hy] at hfile
        cases hfile
        rfl
      have hprogress : T.Progress [] T.changes d₃ := by
        refine .of_shelf (hT.directory ▸ h.layout) (hT.directory ▸ h.shelf) hlock.gate ?_
          (.inr (hT.directory ▸ h.staged)) (.inr (hT.directory ▸ h.backups)) hreceipt ?_ ?_ ?_
        · rw [hT.owner, hT.directory]
          exact hlock.lock
        · rw [hT.directory]
          exact fun heq => hlock.not_prefix "change-apply.json" (by decide)
            (heq ▸ prefix_refl _)
        · rw [hnode, if_pos rfl]
        · intro q hown hq
          have htmp : q ≠ journalTemporary P.root := fun heq =>
            hT.temporary_not_own hlock.toIdle (heq ▸ hown)
          rw [hnode, if_neg hq, if_neg htmp, hsame₂ q htmp]
      exact ⟨.inr ⟨T, hT, .inl hprogress.opened, hprogress.opened.receipt⟩,
        fun _ => hprogress, nofun⟩
    · refine wp_remove_ignored (.inl hI₂) fun _ d₄ h₄ => ?_
      have hI₄ : P.Beside dₗ d₄ := by
        rcases h₄ with rfl | ⟨-, h₄⟩
        · exact hI₂
        · exact hI₂.trans fun q _ htmp _ => h₄.node q htmp
      exact ⟨.inl hI₄, nofun, fun _ _ => hI₄⟩
  · refine hbeside d₂ fun q hq => ?_
    rcases h₂ with rfl | ⟨y, h₂⟩
    · exact hsame₁ q hq
    · exact (h₂.node q hq).trans (hsame₁ q hq)

/-! ## Installation -/

theorem wp_moveAway (hrec : c.Recorded digest P.root) (ha : c.Apart P.root)
    (h : c.Untouched P.root d) :
    c.Advances P.root (c.Vacated P.root) (moveAway (c.target P.root) c.entry) d := by
  have hI := h.stays
  unfold moveAway
  cases hb : c.before with
  | none =>
    rw [if_neg (by rw [hrec.beforeExists, hb]; exact nofun)]
    refine ⟨hI, hI, fun _ => ⟨?_, ?_, h.stage⟩⟩
    · rw [h.backup, hb]
      rfl
    · rw [h.target, hb]
      rfl
  | some b =>
    rw [if_pos (by rw [hrec.beforeExists, hb]; rfl)]
    exact Change.wp_moveAway ha h

theorem wp_installEdit (hrec : c.Recorded digest P.root) (ha : c.Apart P.root)
    (hne : c.entry.path ≠ []) (hproper : c.entry.path.all properPart = true)
    (hroot : d.node [] = some .dir) (h : c.Untouched P.root d) :
    c.Advances P.root (fun d' => d'.node (c.target P.root) = fileAt c.after)
      (installEdit P c.entry) d := by
  have hI := h.stays
  refine wp_look_attempt (Evolution.readOnly_confinedPath _ _) hI fun r hr => ?_
  cases r with
  | ok path =>
    obtain rfl : path = c.target P.root := Evolution.runs_confinedPath hne hproper hr
    exact (wp_moveAway hrec ha h).bind fun _ => Change.wp_install hrec ha
  | error e =>
    show wp txMachine _ _ ((moveAway [] c.entry).bind fun _ => install [] c.entry) d
    unfold moveAway
    cases hb : c.before with
    | none =>
      have hafter : c.after ≠ none := hrec.actual hb
      rw [if_neg (by rw [hrec.beforeExists, hb]; exact nofun)]
      show wp txMachine _ _ (install [] c.entry) d
      unfold install
      rw [if_pos (by rw [hrec.afterExists]; exact Option.isSome_iff_ne_none.mpr hafter)]
      have hgrown : ∀ d₁, Disk.Grown [] d d₁ → c.Advanced P.root d d₁ ∧ c.Partway P.root d₁ := by
        intro d₁ hg
        have hsame : ∀ q, d₁.node q = d.node q := fun q => hg.of_dir hroot
        refine ⟨⟨hg.log, fun q _ _ _ => .inl (hsame q)⟩, ?_⟩
        have hu : c.Untouched P.root d₁ :=
          ⟨(hsame _).trans h.backup, (hsame _).trans h.target, (hsame _).trans h.stage⟩
        exact hu.partway
      refine wp_mkdirAll hgrown (fun d₁ hg _ => ?_) fun e d₁ hg => ⟨hgrown d₁ hg, nofun⟩
      refine Prog.wp_bind_ret.mp (wp_rename (hgrown d₁ hg) (fun y d₂ _ hw _ _ => ?_)
        fun e => ⟨hgrown d₁ hg, nofun⟩)
      exact absurd rfl hw.1
    | some b =>
      rw [if_pos (by rw [hrec.beforeExists, hb]; rfl)]
      refine wp_rename hI (fun y d₁ hy _ _ _ => ?_) fun e => ⟨hI, nofun⟩
      rw [hroot] at hy
      cases hy

theorem Commits.exists_edit (h : Commits digest P edits receipt dₗ T) (hc : c ∈ T.changes) :
    ∃ e ∈ edits, e.path = c.entry.path ∧ e.contents = c.after := by
  have hmem : (c.entry.path, c.after) ∈
      (edits.insertionSort SourceEdit.Before).map fun e => (e.path, e.contents) :=
    h.source ▸ mem_map_of_mem hc
  obtain ⟨e, he, heq⟩ := mem_map.mp hmem
  exact ⟨e, (mem_insertionSort SourceEdit.Before).mp he, (Prod.mk.inj heq).1,
    (Prod.mk.inj heq).2⟩

theorem Commits.proper (hplan : Planned edits) (h : Commits digest P edits receipt dₗ T)
    (hc : c ∈ T.changes) :
    c.entry.path ≠ [] ∧ c.entry.path.all properPart = true := by
  obtain ⟨e, he, hpath, -⟩ := h.exists_edit hc
  rw [← hpath]
  exact hplan.proper e he

/-! ## `commitPlannedEdits` -/

theorem readOnly_checkReceipt (receipt : Option Path) :
    ReadOnly txMachine (checkReceipt receipt) := by
  cases receipt with
  | none => trivial
  | some p =>
    refine (readOnly_lstat p).bind fun x => ?_
    split <;> trivial

theorem runs_checkReceipt {p : Path}
    (h : Prog.Runs txMachine (checkReceipt (some p)) d (.ok ()) d') : d.node p = none := by
  obtain ⟨x, d₁, hx, hrest⟩ := Prog.runs_bind_ok h
  obtain ⟨rfl, rfl⟩ := runs_lstat hx
  split at hrest
  · cases hrest.1
  · rename_i hl
    exact Disk.lstat_error hl
  · cases hrest.1

variable {receipt : Option Path}

theorem wp_stageEditJournal (hlock : P.Locked dₗ) (hplan : Planned edits)
    (hres : Reserved P.root receipt) (hnone : ∀ p, receipt = some p → dₗ.node p = none)
    (hg : Disk.Grown (P.directory ++ ["staged"]) dₗ d)
    (hdir : ∀ q, q <+: P.directory ++ ["staged"] → d.node q = some .dir) :
    wp txMachine
      (fun r d' => (∀ e, r = .error e → P.Beside dₗ d') ∧ ∀ entries, r = .ok entries →
        ∃ T : Txn digest P.root, Commits digest P edits receipt dₗ T ∧
          entries = T.changes.map Change.entry ∧ T.Progress [] T.changes d')
      (Uncommitted digest P edits receipt dₗ) (stageEditJournal digest P edits receipt) d := by
  have hhere : d.node P.directory = some .dir := hdir _ (prefix_append _ _)
  have hbeside : P.Beside dₗ d := fun q hq _ _ => hlock.grown hg
    (fun heq => hq (heq ▸ prefix_append _ _)) fun heq => hq (heq ▸ prefix_refl _)
  have hgrown : ∀ d₁, Disk.Grown (P.directory ++ ["backups"]) d d₁ → P.Beside dₗ d₁ := fun d₁ h₁ =>
    hbeside.trans fun q hq _ _ => h₁.child hhere fun heq => hq (heq ▸ prefix_append _ _)
  refine wp_mkdirAll (fun d₁ h₁ => .inl (hgrown d₁ h₁)) (fun d₁ h₁ hdir₁ => ?_)
    fun e d₁ h₁ => ⟨fun _ _ => hgrown d₁ h₁, nofun⟩
  refine Prog.wp_bind ((wp_stageEdits hplan _ [] [] d₁ (nil_append _).symm
    (hlock.staged hg hdir h₁ hdir₁)).mono (fun r d₂ _ h₂ => ?_) fun _ => .inl)
  cases r with
  | error e => exact ⟨fun _ _ => h₂.1, nofun⟩
  | ok entries =>
    obtain ⟨changes, rfl, hstaged⟩ := h₂.2 entries rfl
    obtain ⟨T, rfl, hT, hjournal⟩ := hstaged.exists_txn hplan hres
    have hreceipt : d₂.node T.receipt = none := by
      cases hr : receipt with
      | none =>
        rw [hT.marker hr]
        exact hstaged.shelf.marker
      | some p =>
        have heq : T.receipt = p := by
          rcases T.receipt_eq with hn | hn
          · rw [hT.named, hr] at hn
            cases hn
          · rw [hT.named, hr] at hn
            exact (Option.some.inj hn).symm
        rw [hr] at hres
        rw [heq, hstaged.shelf.outside p fun hpre => hres.under.1 (P.directory_under.trans hpre)]
        exact hnone p hr
    have hwrite := wp_writeJournal hlock hT hstaged hreceipt
    rw [hjournal] at hwrite
    refine Prog.wp_bind (hwrite.mono (fun r d₃ _ h₃ => ?_) fun _ h => h)
    cases r with
    | error e => exact ⟨fun _ _ => h₃.2 e rfl, nofun⟩
    | ok _ =>
      have hprogress := h₃.1 rfl
      refine ⟨.inr ⟨T, hT, .inl hprogress.opened, hprogress.opened.receipt⟩, nofun,
        fun entries hr => ⟨T, hT, (Except.ok.inj hr).symm, hprogress⟩⟩

theorem wp_rollbackCommitted (hT : Commits digest P edits receipt dₗ T) (h : T.Open d)
    {Q : Except TxError Unit → Disk Data → Prop} {I : Disk Data → Prop} {f : Unit → TxProg Unit}
    (hI : ∀ d', Uncommitted digest P edits receipt dₗ d' → I d')
    (hok : ∀ d', Uncommitted digest P edits receipt dₗ d' → wp txMachine Q I (f ()) d') :
    wp txMachine Q I ((rollbackCommitted digest P).bind f) d := by
  have huncommitted : ∀ d', T.Within false d' ∧ T.Keeps d d' →
      Uncommitted digest P edits receipt dₗ d' := by
    intro d' hd'
    refine .inr ⟨T, hT, hd'.1, ?_⟩
    rcases hd'.2.receipt with heq | hnone
    · exact heq.trans h.receipt
    · exact hnone
  have hwithin : T.Within false d := .inl h
  have hforeign : T.Foreign true false (inspectOwnerState P.process) := .inl rfl
  refine Prog.wp_bind (Prog.wp_bind (Prog.wp_attempt ((Txn.wp_recover hforeign hwithin).mono
    (fun r d₁ _ h₁ => ?_) fun d₁ h₁ => hI d₁ (huncommitted d₁ h₁))))
  have hd₁ := huncommitted d₁ h₁.1
  exact ⟨hI d₁ hd₁, hok d₁ hd₁⟩

theorem wp_commitOwned (hlock : P.Locked dₗ) (hplan : Planned edits)
    (hres : Reserved P.root receipt) :
    wp txMachine
      (fun r d' => Uncommitted digest P edits receipt dₗ d' ∧ (r = .ok () →
        ∃ T : Txn digest P.root, Commits digest P edits receipt dₗ T ∧ T.Progress T.changes [] d'))
      (Uncommitted digest P edits receipt dₗ) (commitOwned digest P edits receipt) dₗ := by
  -- giving up before the journal is in place
  have hgiveUp : ∀ d, P.Beside dₗ d → ∀ e, wp txMachine
      (fun r d' => Uncommitted digest P edits receipt dₗ d' ∧ (r = .ok () →
        ∃ T : Txn digest P.root, Commits digest P edits receipt dₗ T ∧ T.Progress T.changes [] d'))
      (Uncommitted digest P edits receipt dₗ)
      ((releaseLock P).bind fun _ => Prog.fail e) d := by
    intro d hd e
    refine Publisher.wp_releaseLock (.inl hd) fun d₁ h₁ => ?_
    have hd₁ : P.Beside dₗ d₁ := by
      rcases h₁ with rfl | h₁
      · exact hd
      · exact hd.trans fun q _ _ => h₁.node q
    exact ⟨.inl hd₁, .inl hd₁, nofun⟩
  have hbeside := Publisher.Beside.refl P dₗ
  refine wp_look_attempt (readOnly_checkReceipt receipt) (.inl hbeside) fun r hr => ?_
  cases r with
  | error e => exact hgiveUp dₗ hbeside e
  | ok _ =>
    have hnone : ∀ p, receipt = some p → dₗ.node p = none := by
      rintro p rfl
      exact runs_checkReceipt hr
    have hgrown : ∀ d, Disk.Grown (P.directory ++ ["staged"]) dₗ d → P.Beside dₗ d :=
      fun d hg q hq _ _ => hlock.grown hg (fun heq => hq (heq ▸ prefix_append _ _))
        fun heq => hq (heq ▸ prefix_refl _)
    refine wp_call (fun d hc => .inl (hgrown d (Disk.cut_mkdirAll hc))) fun x d hs => ?_
    obtain ⟨hg, hdir⟩ := Disk.step_mkdirAll hs
    cases x with
    | error e => exact hgiveUp d (hgrown d hg) _
    | ok _ =>
      refine Prog.wp_bind (Prog.wp_attempt ((wp_stageEditJournal hlock hplan hres hnone hg
        (hdir rfl)).mono (fun r d₁ _ h₁ => ?_) fun _ h => h))
      cases r with
      | error e =>
        have hd₁ := h₁.1 e rfl
        have hpruned : ∀ d₂, Disk.Pruned P.directory d₁ d₂ → P.Beside dₗ d₂ := fun d₂ h₂ =>
          hd₁.trans fun q hq _ _ => h₂.outside q hq
        exact wp_removeAll (fun d₂ h₂ => .inl (hpruned d₂ h₂)) fun _ d₂ h₂ =>
          hgiveUp d₂ (hpruned d₂ h₂) e
      | ok entries =>
        obtain ⟨T, hT, rfl, hprogress⟩ := h₁.2 entries rfl
        have hopen : ∀ d₂, T.Open d₂ → Uncommitted digest P edits receipt dₗ d₂ := fun d₂ h₂ =>
          .inr ⟨T, hT, .inl h₂, h₂.receipt⟩
        refine Prog.wp_bind (Prog.wp_attempt ((Txn.wp_each rfl (fun _ _ => rfl)
          (fun c hc _ hroot => wp_installEdit (T.recorded c hc) (Txn.apart hc)
            (hT.proper hplan hc).1 (hT.proper hplan hc).2 hroot)
          T.changes [] d₁ rfl hprogress).mono (fun r d₂ _ h₂ => ?_) fun d₂ h₂ => hopen d₂ h₂.1))
        have hd₂ := hopen d₂ h₂.1.1
        cases r with
        | ok _ => exact ⟨hd₂, hd₂, fun _ => ⟨T, hT, h₂.2 rfl⟩⟩
        | error e =>
          refine wp_rollbackCommitted hT h₂.1.1 (fun _ h => h) fun d₃ h₃ => ?_
          exact ⟨h₃, h₃, nofun⟩

end

end Scenery
