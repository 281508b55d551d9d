import Scenery.Application

/-!
# Recovery after a crash

Recovery removes an installed target before it renames the backup into place: cut off there, it
stops for good.
-/

namespace Scenery

open List

open Prog (call ReadOnly wp run)

/-- A writer took the lock in `dₗ`, journaled `j` and was cut off; so may have been any number
of recoveries since. A publication may find the journal of another writer and recover it first; the
commitments are taken from where there is none. -/
inductive Interrupted (digest : Data → String) (P : Publisher) (j : Journal) (dₗ : Disk Data) :
    Disk Data → Prop where
  | published {attempts : ℕ} {files : List File} {d₀ d d' : Disk Data} :
      Publisher.Ready digest P.root d₀ → d₀.log = [] →
      (∀ f ∈ files, ¬ transactionRoot P.root <+: joinRoot P.root f.path) →
      Prog.Runs txMachine (acquire digest P attempts) d₀ (.ok ()) dₗ →
      Prog.Crash txMachine (publishOwned digest P files) dₗ d →
      (journalPath P.root, .journal j) ∈ d.log → Recoveries digest P.root P.owner d d' →
      Interrupted digest P j dₗ d'
  | committed {edits : List SourceEdit} {receipt : Option Path} {d₀ d d' : Disk Data} :
      P.Idle d₀ → Planned edits → Reserved P.root receipt →
      Prog.Runs txMachine (lockWorkspace digest P) d₀ (.ok ()) dₗ →
      Prog.Crash txMachine (commitOwned digest P edits receipt) dₗ d →
      d.node (journalPath P.root) = some (.file (.journal j)) →
      Recoveries digest P.root P.owner d d' → Interrupted digest P j dₗ d'
  | applied {a : Apply} {d₀ d d' : Disk Data} :
      P.Idle d₀ → Planned a.edits →
      Prog.Runs txMachine (lockWorkspace digest P) d₀ (.ok ()) dₗ →
      Prog.Crash txMachine (applyOwned digest P a) dₗ d →
      d.node (journalPath P.root) = some (.file (.journal j)) →
      Recoveries digest P.root P.owner d d' → Interrupted digest P j dₗ d'

section

variable {digest : Data → String} {P : Publisher} {j : Journal} {dₗ d d' : Disk Data}

theorem Txn.Within.journal_eq {root : Path} {T : Txn digest root} {committed : Bool}
    (h : T.Within committed d) (hj : d.node (journalPath root) = some (.file (.journal j))) :
    T.Live committed d ∧ T.journal = j := by
  rcases h with hlive | hs
  · refine ⟨hlive, ?_⟩
    have hjournal := hlive.toPresent.journal
    rw [hj] at hjournal
    cases hjournal
    rfl
  · rw [hs.journal] at hj
    cases hj

theorem Publisher.Beside.no_journal (h : P.Beside dₗ d) (hidle : P.Idle dₗ) :
    d.node (journalPath P.root) ≠ some (.file (.journal j)) := by
  rw [h (journalPath P.root) (hidle.not_prefix _ (by decide)) (Txn.top_ne_top (by decide))
    (Txn.top_ne_top (by decide))]
  exact hidle.journal j

theorem Uncommitted.exists_txn {edits : List SourceEdit} {receipt : Option Path}
    (h : Uncommitted digest P edits receipt dₗ d) (hidle : P.Idle dₗ)
    (hj : d.node (journalPath P.root) = some (.file (.journal j))) :
    ∃ T : Txn digest P.root, T.journal = j ∧ T.journal.owner = P.owner ∧
      (∀ c ∈ T.changes, dₗ.node (c.target P.root) = fileAt c.before) ∧ T.Within false d := by
  rcases h with hbeside | ⟨T, hT, hwithin, -⟩
  · exact absurd hj (hbeside.no_journal hidle)
  · exact ⟨T, (hwithin.journal_eq hj).2, hT.owner, hT.base, hwithin⟩

theorem Interrupted.exists_txn (h : Interrupted digest P j dₗ d) :
    ∃ T : Txn digest P.root, T.journal = j ∧
      (∀ c ∈ T.changes, dₗ.node (c.target P.root) = fileAt c.before) ∧
      ∃ committed, T.Within committed d := by
  -- later recoveries keep it so
  have hlater : ∀ {d₁ d₂ : Disk Data}, Recoveries digest P.root P.owner d₁ d₂ →
      (∃ T : Txn digest P.root, T.journal = j ∧ T.journal.owner = P.owner ∧
        (∀ c ∈ T.changes, dₗ.node (c.target P.root) = fileAt c.before) ∧
        ∃ committed, T.Within committed d₁) →
      ∃ T : Txn digest P.root, T.journal = j ∧
        (∀ c ∈ T.changes, dₗ.node (c.target P.root) = fileAt c.before) ∧
        ∃ committed, T.Within committed d₂ := by
    rintro d₁ d₂ hrec ⟨T, hT, howner, hbase, committed, hwithin⟩
    rw [← howner] at hrec
    exact ⟨T, hT, hbase, committed, (hrec.within hwithin).1⟩
  cases h with
  | published hready hlog hout hacquire hcrash hdurable hrec =>
    refine hlater hrec ?_
    have hun : P.Unlogged _ := fun e he => absurd (hlog ▸ he) not_mem_nil
    have hown := ((hready.wp_acquire _ hun).runs hacquire).2 rfl
    rcases (Publisher.wp_publishOwned hown hout).crash hcrash with
      hun' | ⟨T, hpub, committed, hwithin, hlogged⟩
    · exact absurd hdurable (hun'.not_durable _)
    · exact ⟨T, (Data.journal.inj (hlogged.journal _ hdurable)).symm, hpub.owner, hpub.base,
        committed, hwithin⟩
  | committed hidle hplan hres hlock hcrash hj hrec =>
    refine hlater hrec ?_
    have hlocked := ((Publisher.wp_lockWorkspace hidle).runs hlock).2 rfl
    obtain ⟨T, hT, howner, hbase, hwithin⟩ :=
      ((wp_commitOwned hlocked hplan hres).crash hcrash).exists_txn hlocked.toIdle hj
    exact ⟨T, hT, howner, hbase, false, hwithin⟩
  | applied hidle hplan hlock hcrash hj hrec =>
    refine hlater hrec ?_
    have hlocked := ((Publisher.wp_lockWorkspace hidle).runs hlock).2 rfl
    rcases (wp_applyOwned hlocked hplan).crash hcrash with huncommitted | ⟨T, hT, hwithin⟩
    · obtain ⟨T, hT, howner, hbase, hwithin⟩ := huncommitted.exists_txn hlocked.toIdle hj
      exact ⟨T, hT, howner, hbase, false, hwithin⟩
    · exact ⟨T, (hwithin.journal_eq hj).2, hT.owner, hT.base, true, hwithin⟩

/-- So is a commitment that is cut off with its journal written. -/
theorem interrupted_commitPlannedEdits {edits : List SourceEdit} {receipt : Option Path}
    {d₀ : Disk Data} (hidle : P.Idle d₀) (hplan : Planned edits) (hres : Reserved P.root receipt)
    (hcrash : Prog.Crash txMachine (commitPlannedEdits digest P edits receipt) d₀ d)
    (hj : d.node (journalPath P.root) = some (.file (.journal j)))
    (hrec : Recoveries digest P.root P.owner d d') : ∃ dₗ, Interrupted digest P j dₗ d' := by
  obtain hlocking | ⟨_, dₗ, hlock, hcrash⟩ := Prog.crash_bind hcrash
  · have hquiet := (Publisher.wp_lockWorkspace hidle).crash hlocking
    exact absurd hj (hquiet.1.journal j)
  · exact ⟨dₗ, .committed hidle hplan hres hlock hcrash hj hrec⟩

/-! ## Recovering again -/

/-- A recovery of `j` that was cut off while it was rolling back: it holds the gate, has read
lock and journal, the metadata is valid, there is no receipt, and the loop over the entries
did not come to its end. -/
def RollbackCrash (digest : Data → String) (root : Path) (j : Journal) (d d' : Disk Data) : Prop :=
  ∃ d₁ lock, Prog.Runs txMachine (lockRecovery (transactionRoot root)) d (.ok ()) d₁ ∧
    (run txMachine (readLock (lockPath root)) d₁).1 = .ok lock ∧
    (run txMachine (readJournal root) d₁).1 = .ok (some j) ∧
    (run txMachine (validateMetadata root lock j) d₁).1 = .ok () ∧
    (run txMachine (receiptExists j.receipt) d₁).1 = .ok false ∧
    Prog.Crash txMachine (rollbackEntries digest root j.entries.reverse) d₁ d'

def RecoveryCall.GoesAhead (call : RecoveryCall) (owner : Owner) : Prop :=
  call.force = true ∨ inspectOwnerState call.process owner = .recoverable

namespace Txn

variable {root : Path} {T : Txn digest root} {committed : Bool}

theorem run_program_iff {call : RecoveryCall} (h : T.Within committed d)
    (hcall : call.GoesAhead T.journal.owner) :
    (run txMachine (call.program digest root) d).1 = .ok () ↔
      d.node (journalPath root) = none ∨ (T.changes = [] ∨ T.journal.Stocked d) ∧
        (committed = true ∨ ∀ e ∈ T.journal.entries, ¬ e.Stranded root d) := by
  have hstr : (∀ e ∈ T.journal.entries, ¬ e.Stranded root d) ↔
      ∀ c ∈ T.changes, ¬ c.entry.Stranded root d := by
    rw [T.entries_eq]
    exact forall_mem_map
  have hab : T.Abandoned call.force (inspectOwnerState call.process) := hcall
  rw [hstr]
  unfold RecoveryCall.program
  cases hforce : call.force <;> rw [hforce] at hab
  · exact run_recover_iff h hab
  · exact run_recover_iff h hab

theorem run_program_settled {call : RecoveryCall} (h : T.Within committed d)
    (hcall : call.GoesAhead T.journal.owner)
    (hok : (run txMachine (call.program digest root) d).1 = .ok ()) :
    T.Settled committed (run txMachine (call.program digest root) d).2 := by
  have hab : T.Abandoned call.force (inspectOwnerState call.process) := hcall
  unfold RecoveryCall.program at hok ⊢
  cases hforce : call.force <;> rw [hforce] at hab hok
  · exact (wp_recover hab.foreign h).run.2 hok
  · exact (wp_recover hab.foreign h).run.2 hok

theorem Within.rollbackCrash (h : T.Within committed d)
    (hcrash : RollbackCrash digest root T.journal d d') :
    T.Open d' ∧ (T.changes = [] ∨ T.journal.Stocked d') := by
  obtain ⟨d₁, lock, hgate, hlock, hjournal, hvalid, hreceipt, hloop⟩ := hcrash
  have hwithin₁ : T.Within committed d₁ := by
    have hwp : wp txMachine (fun _ => T.Within committed) (fun _ => True)
        (lockRecovery (transactionRoot root)) d := by
      refine Prog.wp_bind_ret.mp (wp_lockRecovery trivial fun d₁ _ hsame hg => ?_)
      have hw₁ := h.gate hsame hg
      exact ⟨trivial, fun _ => ⟨trivial, hw₁⟩, fun _ => hw₁⟩
    exact hwp.runs hgate
  have hpresent : d₁.node (journalPath root) = some (.file (.journal T.journal)) := by
    have hread := Prog.runs_run (M := txMachine) (readJournal root) d₁
    rw [hjournal] at hread
    rcases runs_readJournal hread with ⟨hnone, -⟩ | ⟨j, hj, hnode⟩
    · cases hnone
    · rw [Option.some.inj hj]
      exact hnode
  have hlive := (hwithin₁.journal_eq hpresent).1
  obtain rfl : committed = false := by
    have hread := Prog.runs_run (M := txMachine) (receiptExists T.journal.receipt) d₁
    rw [hreceipt] at hread
    exact hlive.runs_receiptExists hread
  have hstocked : T.changes = [] ∨ T.journal.Stocked d₁ := by
    obtain ⟨lock', hlock', hown⟩ := hlive.toMeta.run_readLock
    rw [hlock'] at hlock
    rw [← Except.ok.inj hlock] at hvalid
    exact (run_validateMetadata hlive hown).mp hvalid
  have hopen : T.Open d₁ := hlive
  rw [T.entries_eq, ← map_reverse] at hloop
  obtain ⟨hopen', hkeeps⟩ :=
    (wp_rollbackEntries T.changes.reverse (fun _ => mem_reverse.mp) hopen).crash hloop
  refine ⟨hopen', hstocked.imp_right fun hs => ?_⟩
  have hne : d'.node (journalPath root) ≠ none := by
    rw [hopen'.journal]
    exact Option.some_ne_none _
  exact ⟨(hkeeps.artifacts hne _).trans hs.1, (hkeeps.artifacts hne _).trans hs.2⟩

end Txn

/-- **When recovery can be restarted.** After a crash inside the rollback of a recovery, the
next one that may go ahead returns without an error, with every journaled path as it was
when the lock was taken, exactly when no entry is stranded. -/
theorem rollback_restartable_iff {call : RecoveryCall} (h : Interrupted digest P j dₗ d)
    (hcrash : RollbackCrash digest P.root j d d') (hcall : call.GoesAhead j.owner) :
    ((run txMachine (call.program digest P.root) d').1 = .ok () ∧
      P.AllBefore j dₗ (run txMachine (call.program digest P.root) d').2) ↔
    ∀ e ∈ j.entries, ¬ e.Stranded P.root d' := by
  obtain ⟨T, rfl, hbase, committed, hwithin⟩ := h.exists_txn
  obtain ⟨hopen, hstocked⟩ := hwithin.rollbackCrash hcrash
  have hwithin' : T.Within false d' := .inl hopen
  have hiff := Txn.run_program_iff hwithin' hcall
  have hbefore : (run txMachine (call.program digest P.root) d').1 = .ok () →
      P.AllBefore T.journal dₗ (run txMachine (call.program digest P.root) d').2 := by
    intro hok e he
    have hsettled := Txn.run_program_settled hwithin' hcall hok
    rw [T.entries_eq] at he
    obtain ⟨c, hc, rfl⟩ := mem_map.mp he
    exact (hsettled.targets c hc).trans (hbase c hc).symm
  have hjournal : d'.node (journalPath P.root) ≠ none := by
    rw [hopen.journal]
    exact Option.some_ne_none _
  rw [and_iff_left_of_imp hbefore, hiff]
  constructor
  · rintro (hnone | ⟨-, hcommitted | hstranded⟩)
    · exact absurd hnone hjournal
    · cases hcommitted
    · exact hstranded
  · exact fun hstranded => .inr ⟨hstocked, .inr hstranded⟩

/-! ## Recovering a publication -/

end

instance (root : Path) (e : Entry) (d : Disk Data) : Decidable (e.Stranded root d) :=
  inferInstanceAs (Decidable (_ ∧ _ ∧ _ ∧ _ ∧ _))

namespace Sample

def locked : Disk Data := (run txMachine (acquire digest publisher 1) tree).2

def installed : Disk Data := Prog.stop txMachine 15 (publishOwned digest publisher [overwrite]) locked

def gated : Disk Data := (run txMachine (lockRecovery (transactionRoot [])) installed).2

def rolledBack (n : ℕ) : Disk Data :=
  Prog.stop txMachine n (rollbackEntries digest [] overwriteJournal.entries.reverse) gated

theorem interrupted_installed : Interrupted digest publisher overwriteJournal locked installed := by
  have hrun := Prog.runs_run (M := txMachine) (acquire digest publisher 1) tree
  refine .published ready_tree rfl (by decide) hrun
    (Prog.crash_stop 15 (publishOwned digest publisher [overwrite]) locked) ?_ .refl
  decide +kernel

theorem rollbackCrash_rolledBack (n : ℕ) :
    RollbackCrash digest [] overwriteJournal installed (rolledBack n) := by
  have hgate := Prog.runs_run (M := txMachine) (lockRecovery (transactionRoot [])) installed
  rw [show (run txMachine (lockRecovery (transactionRoot [])) installed).1 = .ok () by
    decide +kernel] at hgate
  refine ⟨gated, some publisher.lock, hgate, ?_, ?_, ?_, ?_, Prog.crash_stop n _ gated⟩
  all_goals decide +kernel

theorem goesAhead_recovery : recovery.GoesAhead overwriteJournal.owner :=
  .inr (by decide +kernel)

def removal : File := ⟨["a"], [], true, ""⟩

def removed : Disk Data :=
  Prog.stop txMachine 26 (publishContext digest publisher 1 [removal]) tree

end Sample

open Sample in
theorem rollback_restartable_restored :
    (run txMachine (recovery.program digest []) (rolledBack 9)).1 = .ok () ∧
      publisher.AllBefore overwriteJournal locked
        (run txMachine (recovery.program digest []) (rolledBack 9)).2 := by
  refine (rollback_restartable_iff interrupted_installed (rollbackCrash_rolledBack 9)
    goesAhead_recovery).mpr ?_
  decide +kernel

open Sample in
/-- A rollback that was cut off between the removal of the new contents and the return of the
old ones: every later recovery takes the missing file for an external change. -/
theorem rollback_strands_overwrite :
    Interrupted digest publisher overwriteJournal locked installed ∧
      RollbackCrash digest [] overwriteJournal installed (rolledBack 7) ∧
      recovery.GoesAhead overwriteJournal.owner ∧
      (rolledBack 7).node ["a"] = none ∧
      (run txMachine (recovery.program digest []) (rolledBack 7)).1 ≠ .ok () := by
  refine ⟨interrupted_installed, rollbackCrash_rolledBack 7, goesAhead_recovery, ?_⟩
  decide +kernel

end Scenery
