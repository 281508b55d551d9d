import Scenery.Recovery

/-!
# When a recovery run succeeds

`Txn.wp_recover` says that a recovery run never damages a transaction.
-/

namespace Scenery

open List

open Prog (call ReadOnly wp run)

def Journal.Stocked (journal : Journal) (d : Disk Data) : Prop :=
  d.node (journal.directory ++ ["staged"]) = some .dir ∧
    d.node (journal.directory ++ ["backups"]) = some .dir

namespace Txn

variable {digest : Data → String} {root : Path} {T : Txn digest root} {c c' : Change}
  {d d' : Disk Data}

/-! ## Validation of the metadata -/

theorem run_validateArtifact_ok {artifact dir : Path} (hdl : artifact.dropLast = dir)
    (hpre : transactionRoot root <+: dir) (hdir : d.node dir = some .dir)
    (hfile : d.node artifact = none ∨ ∃ y, d.node artifact = some (.file y)) :
    run txMachine (validateArtifact (transactionRoot root) artifact) d = (.ok (), d) := by
  subst hdl
  unfold validateArtifact
  simp only [Prog.bind_eq, Prog.run_attempt_bind,
    run_rejectPathSymlinks_ok hpre hdir nofun, Prog.run_bind_ok (run_lstat _)]
  rcases hfile with hn | ⟨y, hy⟩
  · rw [Disk.lstat, hn, Disk.missing_of_parent hdir hn]
    rfl
  · rw [Disk.lstat_of_node hy]
    rfl

theorem run_validateArtifact_missing {artifact dir : Path} (hdl : artifact.dropLast = dir)
    (hpre : transactionRoot root <+: dir) (hne : transactionRoot root ≠ dir)
    (hdir : d.node dir = none) :
    ∃ e, run txMachine (validateArtifact (transactionRoot root) artifact) d = (.error e, d) := by
  subst hdl
  obtain ⟨e, he⟩ := run_rejectPathSymlinks_missing hpre hne hdir
  unfold validateArtifact
  simp only [Prog.bind_eq, Prog.run_attempt_bind, he]
  exact ⟨_, rfl⟩

theorem stage_dropLast (hc : c ∈ T.changes) :
    c.entry.stage.dropLast = T.journal.directory ++ ["staged"] := by
  obtain ⟨i, hi, -⟩ := T.exists_index hc
  rw [hi]
  simp [stagePath]

theorem backup_dropLast (hc : c ∈ T.changes) :
    c.entry.backup.dropLast = T.journal.directory ++ ["backups"] := by
  obtain ⟨i, -, hi⟩ := T.exists_index hc
  rw [hi]
  simp [backupPath]

theorem root_ne_artifact (name : String) :
    transactionRoot root ≠ T.journal.directory ++ [name] := by
  intro h
  have := congrArg List.length h
  rw [T.directory_eq] at this
  simp at this

theorem run_validateEntries_ok (hp : T.Present d) (hstock : T.journal.Stocked d)
    (hbackup : ∀ c ∈ T.changes, d.node c.entry.backup = none ∨
      ∃ y, d.node c.entry.backup = some (.file y)) :
    ∀ (cs : List Change) (i : ℕ), (∀ k c, cs[k]? = some c → T.changes[i + k]? = some c) →
      run txMachine (validateEntries root T.journal.directory i (cs.map Change.entry)) d =
        (.ok (), d)
  | [], _, _ => rfl
  | c :: rest, i, hcs => by
    have hc := hcs 0 c rfl
    have hmem : c ∈ T.changes := mem_of_getElem? hc
    obtain ⟨hstage, hback⟩ := T.placed i c hc
    have hgood : ¬ (c.entry.stage ≠ stagePath T.journal.directory i ∨
        c.entry.backup ≠ backupPath T.journal.directory i ∨
        ¬ T.journal.directory <+: c.entry.stage ∨ ¬ T.journal.directory <+: c.entry.backup) := by
      rw [hstage, hback]
      simp [stagePath, backupPath]
    have h₁ := run_validateArtifact_ok (stage_dropLast hmem) (artifact_under _) hstock.1
      (hp.stage c hmem)
    have h₂ := run_validateArtifact_ok (backup_dropLast hmem) (artifact_under _) hstock.2
      (hbackup c hmem)
    rw [map_cons, validateEntries, if_neg hgood]
    simp only [Prog.bind_eq]
    rw [Prog.run_bind_ok h₁, Prog.run_bind_ok h₂, (T.recorded c hmem).confined]
    refine run_validateEntries_ok hp hstock hbackup rest (i + 1) fun k c' hk => ?_
    rw [Nat.add_assoc, Nat.add_comm 1 k]
    exact hcs (k + 1) c' hk

theorem run_validateEntries_missing (hp : T.Present d) (hstock : ¬ T.journal.Stocked d)
    (hne : T.changes ≠ []) :
    ∃ e, run txMachine (validateEntries root T.journal.directory 0 T.journal.entries) d =
      (.error e, d) := by
  obtain ⟨c, rest, hcs⟩ := exists_cons_of_ne_nil hne
  have hmem : c ∈ T.changes := hcs ▸ mem_cons_self
  obtain ⟨hstage, hback⟩ := T.placed 0 c (by rw [hcs]; rfl)
  have hgood : ¬ (c.entry.stage ≠ stagePath T.journal.directory 0 ∨
      c.entry.backup ≠ backupPath T.journal.directory 0 ∨
      ¬ T.journal.directory <+: c.entry.stage ∨ ¬ T.journal.directory <+: c.entry.backup) := by
    rw [hstage, hback]
    simp [stagePath, backupPath]
  rw [T.entries_eq, hcs, map_cons, validateEntries, if_neg hgood]
  rcases hp.staged with hstaged | hstaged
  · obtain ⟨e, he⟩ := run_validateArtifact_missing (stage_dropLast hmem) (artifact_under _)
      (root_ne_artifact _) hstaged
    exact ⟨e, Prog.run_bind_error he⟩
  · -- the staged file is accepted, so it is the backup that has no directory
    have hbackups := hp.backups.resolve_right fun h => hstock ⟨hstaged, h⟩
    have hok := run_validateArtifact_ok (stage_dropLast hmem) (artifact_under _) hstaged
      (hp.stage c hmem)
    obtain ⟨e, he⟩ := run_validateArtifact_missing (backup_dropLast hmem) (artifact_under _)
      (root_ne_artifact _) hbackups
    exact ⟨e, (Prog.run_bind_ok hok).trans (Prog.run_bind_error he)⟩

theorem run_validateReceipt (hwithin : root <+: T.receipt)
    (h : d.node T.receipt = none ∨ ∃ y, d.node T.receipt = some (.file y)) :
    run txMachine (validateReceipt root T.journal.receipt) d = (.ok (), d) := by
  rcases T.receipt_eq with hnone | hsome
  · rw [hnone]
    rfl
  rw [hsome, validateReceipt, if_neg (not_not.mpr hwithin)]
  simp only [Prog.bind_eq, Prog.run_bind_ok (run_pathExists _)]
  rcases h with h | ⟨y, hy⟩
  · rw [h]
    rfl
  · rw [hy, Option.isSome_some, if_pos rfl]
    simp only [Prog.run_attempt_bind,
      run_rejectPathSymlinks_ok hwithin hy nofun]
    rfl

def OwnLock (T : Txn digest root) (lock : Option Lock) : Prop :=
  lock = none ∨ lock = some ⟨T.journal.owner, T.journal.directory⟩

theorem run_validateDirectory_own (hm : T.Meta d) :
    run txMachine (validateDirectory (transactionRoot root) T.journal.directory) d =
      (.ok (), d) := by
  have hd := hm.directory
  rw [T.directory_eq] at hd ⊢
  exact run_validateDirectory T.suffix hm.top hd

variable {lock : Option Lock}

theorem run_validateLock (hm : T.Meta d) (hl : T.OwnLock lock) :
    run txMachine (validateLock root T.journal lock) d = (.ok (), d) := by
  rcases hl with rfl | rfl
  · rfl
  · unfold validateLock
    simp only [Prog.bind_eq, Prog.run_bind_ok (run_validateDirectory_own hm)]
    rw [if_neg (not_not.mpr rfl)]
    rfl

theorem run_validateMetadata_eq (hm : T.Meta d) (hl : T.OwnLock lock)
    (h : d.node T.receipt = none ∨ ∃ y, d.node T.receipt = some (.file y)) :
    run txMachine (validateMetadata root lock T.journal) d =
      run txMachine (validateEntries root T.journal.directory 0 T.journal.entries) d := by
  unfold validateMetadata
  simp only [Prog.bind_eq]
  rw [Prog.run_bind_ok (run_validateDirectory_own hm), Prog.run_bind_ok (run_validateLock hm hl),
    Prog.run_bind_ok (run_validateReceipt T.receipt_within h)]

variable {committed : Bool}

theorem run_validateMetadata (h : T.Live committed d) (hl : T.OwnLock lock) :
    (run txMachine (validateMetadata root lock T.journal) d).1 = .ok () ↔
      T.changes = [] ∨ T.journal.Stocked d := by
  rw [run_validateMetadata_eq h.toMeta hl h.receipt]
  constructor
  · intro hok
    by_contra hcon
    obtain ⟨hne, hstock⟩ := not_or.mp hcon
    obtain ⟨e, he⟩ := run_validateEntries_missing h.toPresent hstock hne
    rw [he] at hok
    cases hok
  · rintro (hnil | hstock)
    · rw [T.entries_eq, hnil]
      rfl
    · rw [T.entries_eq, run_validateEntries_ok h.toPresent hstock (fun _ => h.backup)
        T.changes 0 fun k c hk => by rwa [Nat.zero_add]]

/-! ## The rollback loop -/

theorem stranded_moved (hc : c ∈ T.changes) (hc' : c' ∈ T.changes) (hne : c' ≠ c)
    (hm : c.Moved root d d') : c'.entry.Stranded root d' ↔ c'.entry.Stranded root d := by
  have ht : d'.node (c'.target root) = d.node (c'.target root) :=
    hm.node _ (fun h => hne (T.target_injective c' hc' c hc h)) (backup_ne_target hc hc').symm
  have hb : d'.node c'.entry.backup = d.node c'.entry.backup :=
    hm.node _ (backup_ne_target hc' hc) fun h => hne (backup_injective hc' hc h)
  have hs : d'.node c'.entry.stage = d.node c'.entry.stage :=
    hm.node _ (ne_target (T.stage_artifact hc').under hc) (stage_ne_backup hc' hc)
  unfold Entry.Stranded
  rw [show joinRoot root c'.entry.path = c'.target root from rfl, ht, hb, hs]

theorem run_rollbackEntry_moved (h : T.Open d) (hc : c ∈ T.changes) :
    let out := run txMachine (rollbackEntry digest root c.entry) d
    c.Moved root d out.2 ∧ T.Open out.2 ∧ (out.1 = .ok () → c.Restored root out.2) := by
  have hw := (wp_rollbackEntry (T.recorded c hc) (backup_ne_target hc hc) (h.parent c hc)
    (h.safe c hc)).run
  exact ⟨hw.1.1, h.moved hc hw.1.1 hw.1.2, hw.2.1⟩

theorem run_rollbackEntries_ok (cs : List Change) (hcs : ∀ c ∈ cs, c ∈ T.changes) (h : T.Open d)
    (hstr : ∀ c ∈ cs, ¬ c.entry.Stranded root d) :
    (run txMachine (rollbackEntries digest root (cs.map Change.entry)) d).1 = .ok () := by
  induction cs generalizing d with
  | nil => rfl
  | cons c rest ih =>
    have hc := hcs c mem_cons_self
    have hok := run_rollbackEntry_ok (T.recorded c hc) (backup_ne_target hc hc) (h.parent c hc)
      (h.safe c hc) (hstr c mem_cons_self)
    obtain ⟨hm, hopen, hrest⟩ := run_rollbackEntry_moved h hc
    refine (congrArg Prod.fst (Prog.run_bind_ok (Prod.ext hok rfl))).trans ?_
    refine ih (fun c' hc' => hcs c' (mem_cons_of_mem _ hc')) hopen fun c' hc' => ?_
    by_cases heq : c' = c
    · -- the entry has just been restored, so its backup is gone
      rintro ⟨-, -, hb, -⟩
      rw [heq] at hb
      exact hb (hrest hok).1
    · rw [stranded_moved hc (hcs c' (mem_cons_of_mem _ hc')) heq hm]
      exact hstr c' (mem_cons_of_mem _ hc')

theorem run_rollbackEntries_stranded (cs : List Change) (hcs : ∀ c ∈ cs, c ∈ T.changes)
    (h : T.Open d) (hstr : ∃ c ∈ cs, c.entry.Stranded root d) :
    (run txMachine (rollbackEntries digest root (cs.map Change.entry)) d).1 ≠ .ok () := by
  induction cs generalizing d with
  | nil =>
    obtain ⟨c, hc, -⟩ := hstr
    cases hc
  | cons c rest ih =>
    have hc := hcs c mem_cons_self
    obtain ⟨hm, hopen, -⟩ := run_rollbackEntry_moved h hc
    rcases hrun : run txMachine (rollbackEntry digest root c.entry) d with ⟨e | u, d₁⟩
    · rw [show run txMachine (rollbackEntries digest root ((c :: rest).map Change.entry)) d =
        (.error e, d₁) from Prog.run_bind_error hrun]
      exact fun h => by cases h
    · rw [show run txMachine (rollbackEntries digest root ((c :: rest).map Change.entry)) d =
        run txMachine (rollbackEntries digest root (rest.map Change.entry)) d₁
        from Prog.run_bind_ok hrun]
      rw [hrun] at hm hopen
      refine ih (fun c' hc' => hcs c' (mem_cons_of_mem _ hc')) hopen ?_
      obtain ⟨c', hc', hs⟩ := hstr
      have hne : c' ≠ c := by
        rintro rfl
        obtain ⟨e, he⟩ := run_rollbackEntry_stranded (T.recorded c' hc) (h.safe c' hc) hs
        rw [hrun] at he
        cases he
      have hmem := (mem_cons.mp hc').resolve_left hne
      exact ⟨c', hmem, (stranded_moved hc (hcs c' hc') hne hm).mpr hs⟩

/-! ## The run -/

theorem run_discardJournal (hp : T.Present d) :
    (run txMachine (discardJournal root T.journal) d).1 = .ok () := by
  obtain ⟨d₁, hrun, -⟩ := run_remove hp.journal
  unfold discardJournal
  simp only [Prog.bind_eq, Prog.run_bind_ok hrun]
  rfl

theorem Live.run_receiptExists (h : T.Live committed d) :
    run txMachine (receiptExists T.journal.receipt) d = (.ok committed, d) := by
  have hruns := Prog.runs_run (M := txMachine) (receiptExists T.journal.receipt) d
  have hsnd := (readOnly_receiptExists T.journal.receipt).run_snd d
  rcases hrun : run txMachine (receiptExists T.journal.receipt) d with ⟨e | b, d₁⟩
  · rcases T.receipt_eq with hnone | hsome
    · rw [hnone] at hrun
      cases hrun
    · rw [hsome] at hrun
      rw [receiptExists, run_pathExists] at hrun
      cases hrun
  · rw [hrun] at hruns hsnd
    obtain rfl := h.runs_receiptExists hruns
    exact Prod.ext rfl hsnd

theorem run_settleJournal (h : T.Live committed d) :
    (run txMachine (settleJournal digest root T.journal) d).1 = .ok () ↔
      committed = true ∨ ∀ c ∈ T.changes, ¬ c.entry.Stranded root d := by
  unfold settleJournal
  simp only [Prog.bind_eq, Prog.run_bind_ok h.run_receiptExists]
  cases committed with
  | true =>
    exact iff_of_true (run_discardJournal (Sealed.toPresent h)) (.inl rfl)
  | false =>
    have hopen : T.Open d := h
    rw [if_neg Bool.false_ne_true, T.entries_eq, ← map_reverse]
    have hcs : ∀ c ∈ T.changes.reverse, c ∈ T.changes := fun _ => mem_reverse.mp
    constructor
    · intro hok
      refine .inr fun c hc hstr => ?_
      have hno := run_rollbackEntries_stranded _ hcs hopen ⟨c, mem_reverse.mpr hc, hstr⟩
      rcases hrun : run txMachine (rollbackEntries digest root
          (T.changes.reverse.map Change.entry)) d with ⟨e | u, d₁⟩
      · rw [Prog.run_bind_error hrun] at hok
        cases hok
      · rw [hrun] at hno
        exact hno rfl
    · rintro (hf | hstr)
      · cases hf
      have hok := run_rollbackEntries_ok _ hcs hopen fun c hc => hstr c (hcs c hc)
      have hw := (wp_rollbackEntries _ hcs hopen).run
      rw [Prog.run_bind_ok (Prod.ext hok rfl)]
      exact run_discardJournal hw.1.1.toPresent

theorem run_lockRecovery (hm : T.Meta d) :
    ∃ d', run txMachine (lockRecovery (transactionRoot root)) d = (.ok (), d') ∧
      (∀ q, q ≠ gatePath root → d'.node q = d.node q) ∧
      (d'.node (gatePath root) = d.node (gatePath root) ∨
        ∃ y, d'.node (gatePath root) = some (.file y)) := by
  have hpar : d.node (gatePath root).dropLast = some .dir := by
    rw [gatePath, dropLast_concat]
    exact hm.top
  unfold lockRecovery
  rw [show transactionRoot root ++ ["recovery.lock"] = gatePath root from rfl]
  rcases hm.gate with hg | ⟨y, hy⟩
  · -- the gate file is missing and gets created
    have hreject : run txMachine
        (unlessMissing (rejectPathSymlinks (transactionRoot root) (gatePath root))) d =
          (.ok (), d) := by
      rw [unlessMissing, gatePath, rejectPathSymlinks, if_pos (prefix_append _ _),
        drop_left]
      simp only [Prog.bind_eq, Prog.run_attempt_bind, rejectParts,
        Prog.run_bind_ok (run_lstat _)]
      rw [show transactionRoot root ++ ["recovery.lock"] = gatePath root from rfl, Disk.lstat, hg,
        Disk.missing_of_parent hpar hg]
      rfl
    have hw : d.Writable (gatePath root) := by
      refine ⟨append_ne_nil_of_right_ne_nil _ (cons_ne_nil _ _), hpar, ?_⟩
      rw [hg]
      exact fun h => by cases h
    simp only [Prog.bind_eq, Prog.run_bind_ok hreject]
    exact ⟨_, run_sys_ok (o := .openFile _ _) (Disk.openFile_none hg hw), fun _ => Disk.node_put_ne _ _ _ _ _,
      .inr ⟨_, Disk.node_put_self _ _ _ _ _ _⟩⟩
  · have hreject : run txMachine
        (unlessMissing (rejectPathSymlinks (transactionRoot root) (gatePath root))) d =
          (.ok (), d) := by
      have hr : run txMachine (rejectPathSymlinks (transactionRoot root) (gatePath root)) d =
          (.ok (), d) :=
        run_rejectPathSymlinks_ok (prefix_append _ _) hy fun h => by cases h
      rw [unlessMissing]
      simp only [Prog.bind_eq, Prog.run_attempt_bind, hr]
      rfl
    have hopen : d.openFile (gatePath root) (.bytes []) = (.ok (), d) := by
      rw [Disk.openFile, hy]
    simp only [Prog.bind_eq, Prog.run_bind_ok hreject]
    exact ⟨d, run_sys_ok (o := .openFile _ _) hopen, fun _ _ => rfl, .inl rfl⟩

section

variable {committed force allowCurrentOwner : Bool} {inspectOwner : Owner → OwnerState}

def Abandoned (T : Txn digest root) (force : Bool) (inspectOwner : Owner → OwnerState) : Prop :=
  force = true ∨ inspectOwner T.journal.owner = .recoverable

theorem Abandoned.foreign (h : T.Abandoned force inspectOwner) :
    T.Foreign force allowCurrentOwner inspectOwner := by
  rcases h with h | h
  · exact .inl h
  · refine .inr (.inr ?_)
    rw [h]
    exact nofun

theorem Meta.run_readLock (hm : T.Meta d) :
    ∃ lock, run txMachine (readLock (lockPath root)) d = (.ok lock, d) ∧ T.OwnLock lock := by
  rcases hm.lock with hl | hl
  · refine ⟨none, run_readLock_none ?_ hl, .inl rfl⟩
    rw [lockPath, dropLast_concat]
    exact hm.top
  · exact ⟨_, run_readLock_some hl, .inr rfl⟩

theorem run_recover_eq (allowCurrentOwner : Bool) (hm : T.Meta d)
    (hab : T.Abandoned force inspectOwner) :
    ∃ d' lock, (∀ q, q ≠ gatePath root → d'.node q = d.node q) ∧
      (d'.node (gatePath root) = d.node (gatePath root) ∨
        ∃ y, d'.node (gatePath root) = some (.file y)) ∧ T.OwnLock lock ∧
      run txMachine (recoverWithOwnerInspector digest root force allowCurrentOwner inspectOwner) d =
        run txMachine (recoverUnlocked digest root force allowCurrentOwner inspectOwner lock) d' := by
  obtain ⟨d', hrun, hne, hgate⟩ := run_lockRecovery hm
  have hm' : T.Meta d' := by
    refine hm.mono (hne _ (root_ne_top _)) hgate (.inl (hne _ (top_ne_top (by decide))))
      (.inl (hne _ fun heq => directory_not_prefix_gate (T := T) ?_))
    rw [heq]
  obtain ⟨lock, hlock, hown⟩ := hm'.run_readLock
  refine ⟨d', lock, hne, hgate, hown, ?_⟩
  have hreject : run txMachine (rejectPathSymlinks root (transactionRoot root)) d = (.ok (), d) :=
    run_rejectPathSymlinks_ok (prefix_append _ _) hm.top nofun
  have hlocked : run txMachine
      (recoverLocked digest root force allowCurrentOwner inspectOwner) d' =
      run txMachine (recoverUnlocked digest root force allowCurrentOwner inspectOwner lock) d' := by
    refine (Prog.run_bind_ok hlock).trans ?_
    rcases hown with rfl | rfl
    · rfl
    · have hno : ownerBlocks force allowCurrentOwner inspectOwner
          ⟨T.journal.owner, T.journal.directory⟩ = false := by
        rcases hab with hf | ho
        · rw [ownerBlocks, hf]
          rfl
        · simp [ownerBlocks, ho]
      simp only [hno]
      rfl
  refine (Prog.run_bind_ok (run_lstat _)).trans ?_
  rw [Disk.lstat_of_node hm.top]
  refine (Prog.run_bind_ok hreject).trans ?_
  exact (Prog.run_bind_ok hrun).trans hlocked

theorem run_recoverLockOnly (hs : T.Settled committed d) (hown : T.OwnLock lock) :
    (run txMachine (recoverLockOnly root force allowCurrentOwner inspectOwner lock) d).1 =
      .ok () := by
  rcases hown with rfl | rfl
  · rfl
  · rw [recoverLockOnly]
    split
    · rfl
    · simp only [Prog.bind_eq, Prog.run_bind_ok (run_validateDirectory_own hs.toMeta)]
      rfl

theorem run_recoverJournal (h : T.Live committed d) (hab : T.Abandoned force inspectOwner)
    (hown : T.OwnLock lock) :
    (run txMachine (recoverJournal digest root force allowCurrentOwner inspectOwner lock
        T.journal) d).1 = .ok () ↔
      (T.changes = [] ∨ T.journal.Stocked d) ∧
        (committed = true ∨ ∀ c ∈ T.changes, ¬ c.entry.Stranded root d) := by
  rw [← run_settleJournal h, ← run_validateMetadata h hown]
  have hsnd := (readOnly_validateMetadata root lock T.journal).run_snd d
  unfold recoverJournal
  rcases hv : run txMachine (validateMetadata root lock T.journal) d with ⟨e | u, d₁⟩
  · simp only [Prog.bind_eq, Prog.run_bind_error hv]
    exact iff_of_false nofun fun h => by cases h.1
  · obtain rfl : d₁ = d := by rw [← hsnd, hv]
    simp only [Prog.bind_eq, Prog.run_bind_ok hv, true_and]
    rcases hab with hf | ho
    · rw [if_pos hf]
    · rw [ho, ite_self]

theorem run_recover_iff (h : T.Within committed d) (hab : T.Abandoned force inspectOwner) :
    (run txMachine (recoverWithOwnerInspector digest root force allowCurrentOwner inspectOwner)
        d).1 = .ok () ↔
      d.node (journalPath root) = none ∨ (T.changes = [] ∨ T.journal.Stocked d) ∧
        (committed = true ∨ ∀ c ∈ T.changes, ¬ c.entry.Stranded root d) := by
  have hm : T.Meta d := h.elim Live.toMeta Settled.toMeta
  obtain ⟨d', lock, hne, hgate, hown, hrun⟩ := run_recover_eq allowCurrentOwner hm hab
  have h' := h.gate hne hgate
  have hj : d'.node (journalPath root) = d.node (journalPath root) :=
    hne _ (top_ne_top (by decide))
  have hstr : ∀ c ∈ T.changes, (c.entry.Stranded root d' ↔ c.entry.Stranded root d) := by
    intro c hc
    unfold Entry.Stranded
    rw [show joinRoot root c.entry.path = c.target root from rfl,
      hne _ (ne_target (prefix_append _ _) hc).symm, hne _ ((T.backup_artifact hc).top_ne _).symm,
      hne _ ((T.stage_artifact hc).top_ne _).symm]
  have hstock : T.journal.Stocked d' ↔ T.journal.Stocked d := by
    unfold Journal.Stocked
    rw [hne _ (top_ne_artifact (cons_ne_nil _ _)).symm,
      hne _ (top_ne_artifact (cons_ne_nil _ _)).symm]
  rw [hrun, ← hj]
  rcases h' with hlive | hs
  · have hread := run_readJournal_some hlive.toPresent.journal
    have hunlocked : run txMachine
        (recoverUnlocked digest root force allowCurrentOwner inspectOwner lock) d' =
        run txMachine (recoverJournal digest root force allowCurrentOwner inspectOwner lock
          T.journal) d' := Prog.run_bind_ok hread
    rw [hlive.toPresent.journal, hunlocked, run_recoverJournal hlive hab hown]
    refine Iff.trans ?_ (or_iff_right (Option.some_ne_none _)).symm
    rw [hstock]
    exact and_congr_right fun _ => or_congr_right (forall₂_congr fun c hc => not_congr (hstr c hc))
  · rw [hs.journal]
    refine iff_of_true ?_ (.inl rfl)
    refine (congrArg Prod.fst (Prog.run_bind_ok (run_readJournal_none hs.top hs.journal))).trans ?_
    exact run_recoverLockOnly hs hown

end

end Txn

end Scenery
