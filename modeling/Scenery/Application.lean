import Scenery.Atomicity
import Scenery.Commitment

/-!
# Applying a change plan

`applyChangePlanWithOptions` after its edits are committed: it links the change receipt, which
seals the transaction, and calls `finalize`.
-/

namespace Scenery

open List

open Prog (call ReadOnly wp run)

namespace Txn

variable {digest : Data → String} {root : Path} {T : Txn digest root} {d d' : Disk Data}

/-- A change of the tree elsewhere: the directory of transactions, the targets and the receipt
are as they were, and no directory is lost. -/
structure Elsewhere (T : Txn digest root) (d d' : Disk Data) : Prop where
  under : ∀ q, transactionRoot root <+: q → d'.node q = d.node q
  targets : ∀ c ∈ T.changes, d'.node (c.target root) = d.node (c.target root)
  receipt : d'.node T.receipt = d.node T.receipt
  dirs : ∀ q, d.node q = some .dir → d'.node q = some .dir

theorem Meta.elsewhere (h : T.Meta d) (he : T.Elsewhere d d') : T.Meta d' :=
  h.mono (he.under _ (prefix_refl _)) (.inl (he.under _ (prefix_append _ _)))
    (.inl (he.under _ (prefix_append _ _))) (.inl (he.under _ T.directory_under))

theorem Present.elsewhere (h : T.Present d) (he : T.Elsewhere d d') : T.Present d' where
  journal := (he.under _ (prefix_append _ _)).trans h.journal
  staged := by
    rw [he.under _ (artifact_under _)]
    exact h.staged
  backups := by
    rw [he.under _ (artifact_under _)]
    exact h.backups
  stage c hc := by
    rw [he.under _ (T.stage_artifact hc).under]
    exact h.stage c hc
  parent c hc hb := he.dirs _ (h.parent c hc hb)

theorem Progress.elsewhere (h : T.Progress T.changes [] d) (he : T.Elsewhere d d') :
    T.Progress T.changes [] d' := by
  refine ⟨⟨h.opened.toMeta.elsewhere he, h.opened.toPresent.elsewhere he,
    he.receipt.trans h.opened.receipt, fun c hc => ?_⟩,
    fun c hc => (he.targets c hc).trans (h.installed c hc), fun c hc => absurd hc not_mem_nil⟩
  exact (h.opened.safe c hc).congr (he.targets c hc) (he.under _ (T.backup_artifact hc).under)

theorem Sealed.elsewhere (h : T.Sealed d) (he : T.Elsewhere d d') : T.Sealed d' where
  toMeta := h.toMeta.elsewhere he
  toPresent := h.toPresent.elsewhere he
  named := h.named
  receipt := by
    rw [he.receipt]
    exact h.receipt
  installed c hc := (he.targets c hc).trans (h.installed c hc)
  backup c hc := by
    rw [he.under _ (T.backup_artifact hc).under]
    exact h.backup c hc

theorem Sealed.pruned (h : T.Sealed d) (hr : ¬ transactionRoot root <+: T.receipt)
    (hj : ¬ T.journal.directory <+: journalPath root)
    (hp : Disk.Pruned T.journal.directory d d') : T.Sealed d' where
  toMeta := h.toMeta.mono (hp.outside _ directory_not_prefix_root)
    (.inl (hp.outside _ directory_not_prefix_gate))
    (.inl (hp.outside _ directory_not_prefix_lock)) (hp.below _)
  journal := (hp.outside _ hj).trans h.journal
  staged := by
    rcases hp.below (T.journal.directory ++ ["staged"]) with heq | hnone
    · rw [heq]
      exact h.staged
    · exact .inl hnone
  backups := by
    rcases hp.below (T.journal.directory ++ ["backups"]) with heq | hnone
    · rw [heq]
      exact h.backups
    · exact .inl hnone
  stage c hc := by
    rcases hp.below c.entry.stage with heq | hnone
    · rw [heq]
      exact h.stage c hc
    · exact .inl hnone
  parent c hc hb := by
    refine (hp.outside _ fun hpre => ?_).trans (h.parent c hc hb)
    exact not_prefix_target T.directory_under hc (hpre.trans ( dropLast_prefix _))
  named := h.named
  receipt := by
    rw [hp.outside _ fun hpre => hr (T.directory_under.trans hpre)]
    exact h.receipt
  installed c hc := (hp.outside _ (not_prefix_target T.directory_under hc)).trans (h.installed c hc)
  backup c hc := by
    rcases hp.below c.entry.backup with heq | hnone
    · rw [heq]
      exact h.backup c hc
    · exact .inl hnone

theorem Sealed.unlocked (h : T.Sealed d) (hr : Disk.Removed (lockPath root) d d') :
    T.Sealed d' where
  toMeta := by
    refine h.toMeta.mono (hr.node _ (root_ne_top _)) (.inl (hr.node _ (top_ne_top (by decide))))
      (.inr hr.gone) (.inl (hr.node _ fun heq => directory_not_prefix_lock (T := T) ?_))
    rw [heq]
  toPresent := h.toPresent.congr fun q hq => hr.node q (not_watched_top (by decide) hq)
  named := h.named
  receipt := by
    rw [hr.node _ (top_ne_receipt _).symm]
    exact h.receipt
  installed c hc := (hr.node _ (ne_target (prefix_append _ _) hc).symm).trans (h.installed c hc)
  backup c hc := by
    rw [hr.node _ ((T.backup_artifact hc).top_ne _).symm]
    exact h.backup c hc

end Txn

section

variable {digest : Data → String} {P : Publisher} {edits : List SourceEdit} {name : String}
  {dₗ d d' : Disk Data} {T : Txn digest P.root}

theorem reserved_appliedPlanPath (root : Path) (name : String) :
    Reserved root (some (appliedPlanPath root name)) := by
  rintro p hp
  exact ⟨"changes", ["applied", name], (Option.some.inj hp).symm, by decide⟩

theorem Commits.receipt_eq (hT : Commits digest P edits (some (appliedPlanPath P.root name)) dₗ T) :
    T.receipt = appliedPlanPath P.root name ∧ T.journal.receipt = some T.receipt := by
  rcases T.receipt_eq with hn | hn
  · rw [hT.named] at hn
    cases hn
  · refine ⟨?_, hn⟩
    rw [hT.named] at hn
    exact (Option.some.inj hn).symm

variable {receipt : Option Path}

theorem Commits.target_not_prefix (hplan : Planned edits)
    (hT : Commits digest P edits receipt dₗ T) {c : Change} (hc : c ∈ T.changes)
    (rest : List String) : ¬ c.target P.root <+: P.root ++ ".scenery" :: rest := by
  obtain ⟨e, he, hpath, -⟩ := hT.exists_edit hc
  obtain ⟨hne, hproper⟩ := hplan.proper e he
  have hm : ¬ joinRoot P.root e.path <+: P.root ++ ".scenery" :: rest :=
    (not_prefix_managed hne hproper (hplan.unmanaged e he) rest).2
  rw [hpath] at hm
  exact hm

theorem Commits.exists_change (hT : Commits digest P edits receipt dₗ T) {e : SourceEdit}
    (he : e ∈ edits) : ∃ c ∈ T.changes, c.entry.path = e.path ∧ c.after = e.contents := by
  have hmem : (e.path, e.contents) ∈ T.changes.map fun c => (c.entry.path, c.after) := by
    rw [hT.source]
    exact mem_map_of_mem (f := fun e : SourceEdit => (e.path, e.contents))
      ((mem_insertionSort SourceEdit.Before).mpr he)
  obtain ⟨c, hc, heq⟩ := mem_map.mp hmem
  exact ⟨c, hc, (Prod.mk.inj heq).1, (Prod.mk.inj heq).2⟩

theorem Commits.changes_eq_nil (hT : Commits digest P edits receipt dₗ T) :
    T.changes = [] ↔ edits = [] := by
  have hlen := congrArg List.length hT.source
  rw [length_map, length_map, length_insertionSort] at hlen
  rw [← length_eq_zero_iff, ← length_eq_zero_iff, hlen]

/-! ## The receipt -/

theorem Commits.elsewhere_grown (hplan : Planned edits)
    (hT : Commits digest P edits (some (appliedPlanPath P.root name)) dₗ T)
    (hg : Disk.Grown (appliedPlanPath P.root name).dropLast d d') : T.Elsewhere d d' := by
  have hlast : (appliedPlanPath P.root name).dropLast = P.root ++ [".scenery", "changes", "applied"] := by
    simp [appliedPlanPath]
  rw [hlast] at hg
  refine ⟨fun q hq => hg.of_not_prefix fun hpre => ?_, fun c hc => hg.of_not_prefix ?_,
    hg.of_not_prefix fun hpre => ?_, fun q hq => ?_⟩
  · have hroot := hq.trans hpre
    have hroot : P.root ++ [".scenery", "transactions"] <+: P.root ++ [".scenery", "changes", "applied"] :=
      hroot
    rw [prefix_append_right_inj] at hroot
    exact absurd hroot (by decide)
  · exact hT.target_not_prefix hplan hc _
  · rw [hT.receipt_eq.1] at hpre
    exact absurd hpre.length_le (by simp [appliedPlanPath])
  · rw [hg.of_ne_none (by rw [hq]; exact Option.some_ne_none _)]
    exact hq

theorem Commits.elsewhere_beside (hplan : Planned edits)
    (hT : Commits digest P edits (some (appliedPlanPath P.root name)) dₗ T) {other : String}
    (hother : other ≠ name) (hdir : d.node (appliedPlanPath P.root other) ≠ some .dir)
    (hsame : ∀ q, q ≠ appliedPlanPath P.root other → d'.node q = d.node q) : T.Elsewhere d d' := by
  refine ⟨fun q hq => hsame q ?_, fun c hc => hsame _ ?_, hsame _ ?_, fun q hq => ?_⟩
  · rintro rfl
    exact (reserved_appliedPlanPath P.root other).under.1 hq
  · intro heq
    exact hT.target_not_prefix hplan hc ["changes", "applied", other] (heq ▸ prefix_refl _)
  · rw [hT.receipt_eq.1]
    simp only [appliedPlanPath, ne_eq, append_cancel_left_eq, List.cons.injEq, and_true, true_and]
    exact fun heq => hother heq.symm
  · rw [hsame q fun heq => hdir (heq ▸ hq)]
    exact hq

theorem receiptTemporary_eq (root : Path) (name stamp : String) :
    receiptTemporary (appliedPlanPath root name) stamp =
      appliedPlanPath root (name ++ ".tmp-" ++ stamp) := by
  simp [receiptTemporary, appliedPlanPath, getLastD_eq_getLast?]

theorem temporary_ne (name stamp : String) : name ++ ".tmp-" ++ stamp ≠ name := by
  intro heq
  have hlen := congrArg String.length heq
  have htmp : (".tmp-" : String).length = 5 := by decide
  rw [String.length_append, String.length_append, htmp] at hlen
  omega

theorem wp_writeChangeReceiptOnce {stamp : String} {data : Bytes} (hplan : Planned edits)
    (hT : Commits digest P edits (some (appliedPlanPath P.root name)) dₗ T)
    (h : T.Progress T.changes [] d) :
    wp txMachine
      (fun r d' => (r = .ok () → T.Sealed d') ∧ ∀ e, r = .error e → T.Progress T.changes [] d')
      (fun d' => T.Open d' ∨ T.Sealed d')
      (writeChangeReceiptOnce P.root (appliedPlanPath P.root name) stamp data) d := by
  have hother := temporary_ne name stamp
  unfold writeChangeReceiptOnce
  rw [receiptTemporary_eq]
  have hgrown : ∀ d₁, Disk.Grown (appliedPlanPath P.root name).dropLast d d₁ →
      T.Progress T.changes [] d₁ := fun d₁ hg => h.elsewhere (hT.elsewhere_grown hplan hg)
  refine wp_mkdirAll (fun d₁ hg => .inl (hgrown d₁ hg).opened) (fun d₁ hg _ => ?_)
    fun e d₁ hg => ⟨nofun, fun _ _ => hgrown d₁ hg⟩
  have h₁ := hgrown d₁ hg
  refine wp_look (readOnly_rejectPathSymlinks _ _) (.inl h₁.opened) (fun _ _ => ?_) fun e =>
    ⟨nofun, fun _ _ => h₁⟩
  refine wp_lstat (.inl h₁.opened) ?_
  split
  · exact ⟨.inl h₁.opened, nofun, fun _ _ => h₁⟩
  · refine Prog.wp_bind (wp_createFile (.inl h₁.opened) (fun d₂ hnone h₂ => ?_) fun e => ?_)
    · have hdir : d₁.node (appliedPlanPath P.root (name ++ ".tmp-" ++ stamp)) ≠ some .dir := by
        rw [hnone]
        exact nofun
      have hp₂ := h₁.elsewhere (hT.elsewhere_beside hplan hother hdir h₂.node)
      -- the prepared file may go again
      have hremove : ∀ d₃, T.Progress T.changes [] d₃ → ∀ e, wp txMachine
          (fun r d' => (r = .ok () → T.Sealed d') ∧ ∀ e, r = .error e → T.Progress T.changes [] d')
          (fun d' => T.Open d' ∨ T.Sealed d')
          (Prog.bind (call (.remove (appliedPlanPath P.root (name ++ ".tmp-" ++ stamp)))) fun _ =>
            (Prog.fail e : TxProg Unit)) d₃ := by
        intro d₃ h₃ e
        refine wp_remove_ignored (.inl h₃.opened) fun _ d₄ h₄ => ?_
        have hp₄ : T.Progress T.changes [] d₄ := by
          rcases h₄ with rfl | ⟨hdir, h₄⟩
          · exact h₃
          · exact h₃.elsewhere (hT.elsewhere_beside hplan hother hdir h₄.node)
        exact ⟨.inl hp₄.opened, nofun, fun _ _ => hp₄⟩
      refine ⟨.inl hp₂.opened, wp_writeCreated (.inl hp₂.opened) (fun d₃ h₃ => ?_) fun e => ?_⟩
      · have hp₃ := h₁.elsewhere (hT.elsewhere_beside hplan hother hdir (h₂.trans h₃).node)
        refine wp_call (fun d₄ hc => ?_) fun x d₄ hs => ?_
        · obtain rfl : d₄ = d₃ := hc
          exact .inl hp₃.opened
        rcases Disk.step_link hs with ⟨rfl, y, -, -, hfile, -, hsame⟩ | ⟨⟨e, rfl⟩, rfl⟩
        · have hsealed : T.Sealed d₄ := by
            rw [← hT.receipt_eq.1] at hfile hsame
            exact hp₃.opened.seal hT.receipt_eq.2 hp₃.installed hfile hsame
          refine wp_remove_ignored (.inr hsealed) fun _ d₅ h₅ => ?_
          have hsealed₅ : T.Sealed d₅ := by
            rcases h₅ with rfl | ⟨hdir, h₅⟩
            · exact hsealed
            · exact hsealed.elsewhere (hT.elsewhere_beside hplan hother hdir h₅.node)
          exact ⟨.inr hsealed₅, fun _ => hsealed₅, nofun⟩
        · exact hremove d₄ hp₃ _
      · exact hremove d₂ hp₂ _
    · exact ⟨.inl h₁.opened, nofun, fun _ _ => h₁⟩
  · exact ⟨.inl h₁.opened, nofun, fun _ _ => h₁⟩

theorem wp_finalize (hidle : P.Idle dₗ)
    (hT : Commits digest P edits (some (appliedPlanPath P.root name)) dₗ T) (h : T.Sealed d) :
    wp txMachine (fun _ => T.Within true) (T.Within true) (finalize P) d := by
  have hr : ¬ transactionRoot P.root <+: T.receipt := by
    rw [hT.receipt_eq.1]
    exact (reserved_appliedPlanPath P.root name).under.1
  have hj : ¬ T.journal.directory <+: journalPath P.root := by
    rw [hT.directory]
    exact hidle.not_prefix _ (by decide)
  have hpruned : ∀ d₁, Disk.Pruned P.directory d d₁ → T.Sealed d₁ := fun d₁ h₁ =>
    h.pruned hr hj (hT.directory ▸ h₁)
  refine wp_removeAll (fun d₁ h₁ => .inl (hpruned d₁ h₁)) fun _ d₁ h₁ => ?_
  have hs₁ := hpruned d₁ h₁
  refine wp_remove_ignored (.inl hs₁) fun _ d₂ h₂ => ?_
  have hw₂ : T.Within true d₂ := by
    rcases h₂ with rfl | ⟨-, h₂⟩
    · exact .inl hs₁
    · exact .inr (Txn.settled_of_removed hs₁.toMeta hs₁.installed h₂)
  refine Publisher.wp_releaseLock hw₂ fun d₃ h₃ => ?_
  have hw₃ : T.Within true d₃ := by
    rcases h₃ with rfl | h₃
    · exact hw₂
    · rcases hw₂ with hs | hs
      · exact .inl (Txn.Sealed.unlocked hs h₃)
      · exact .inr (hs.unlocked h₃)
  exact ⟨hw₃, hw₃⟩

/-! ## The whole call -/

/-- What a crashed apply leaves, once the lock was held in `dₗ`: an uncommitted transaction or
a committed one. -/
def Applied (digest : Data → String) (P : Publisher) (a : Apply) (dₗ d : Disk Data) : Prop :=
  Uncommitted digest P a.edits (some (appliedPlanPath P.root a.name)) dₗ d ∨
    ∃ T : Txn digest P.root, Commits digest P a.edits (some (appliedPlanPath P.root a.name)) dₗ T ∧
      T.Within true d

theorem wp_applyOwned {a : Apply} (hlock : P.Locked dₗ) (hplan : Planned a.edits) :
    wp txMachine (fun _ d' => Applied digest P a dₗ d') (Applied digest P a dₗ)
      (applyOwned digest P a) dₗ := by
  refine Prog.wp_bind ((wp_commitOwned hlock hplan (reserved_appliedPlanPath P.root a.name)).mono
    (fun r d₁ _ h₁ => ?_) fun _ => .inl)
  cases r with
  | error e => exact .inl h₁.1
  | ok _ =>
    obtain ⟨T, hT, hprogress⟩ := h₁.2 rfl
    have hopen : ∀ d', T.Open d' → Applied digest P a dₗ d' := fun d' h' =>
      .inl (.inr ⟨T, hT, .inl h', h'.receipt⟩)
    -- both failures after the commit end in the rollback
    have hrollback : ∀ d', T.Open d' → ∀ e, wp txMachine (fun _ => Applied digest P a dₗ)
        (Applied digest P a dₗ) ((rollbackCommitted digest P).bind fun _ => Prog.fail e) d' :=
      fun d' h' e => wp_rollbackCommitted hT h' (fun _ => .inl) fun d'' h'' =>
        ⟨.inl h'', .inl h''⟩
    show wp txMachine _ _ (applyCommitted digest P a) d₁
    unfold applyCommitted
    by_cases hvalid : a.valid = true
    · rw [if_neg (not_not.mpr hvalid)]
      refine Prog.wp_bind (Prog.wp_attempt ((wp_writeChangeReceiptOnce hplan hT hprogress).mono
        (fun r d₂ _ h₂ => ?_) fun d₂ h₂ => ?_))
      · cases r with
        | error e => exact hrollback d₂ (h₂.2 e rfl).opened e
        | ok _ =>
          exact (wp_finalize hlock.toIdle hT (h₂.1 rfl)).mono
            (fun r d₃ _ h₃ => .inr ⟨T, hT, h₃⟩) fun d₃ h₃ => .inr ⟨T, hT, h₃⟩
      · rcases h₂ with h₂ | h₂
        · exact hopen d₂ h₂
        · exact .inr ⟨T, hT, .inl h₂⟩
    · rw [if_pos hvalid]
      exact hrollback d₁ hprogress.opened _

namespace Publisher

variable {d₀ : Disk Data}

theorem Quiet.trans (h₁ : P.Quiet d₀ d) (h₂ : P.Quiet d d') : P.Quiet d₀ d' := by
  refine ⟨h₂.1, fun q hq => ?_⟩
  rcases h₂.2 q hq with heq | hnew
  · rw [heq]
    exact h₁.2 q hq
  · rcases h₁.2 q hq with heq | hold
    · exact .inr ⟨heq ▸ hnew.1, hnew.2⟩
    · rw [hold.2.1] at hnew
      cases hnew.1

def Applying (digest : Data → String) (P : Publisher) (a : Apply) (d₀ d : Disk Data) : Prop :=
  P.Quiet d₀ d ∨ ∃ dₗ, P.Quiet d₀ dₗ ∧ P.Locked dₗ ∧ Applied digest P a dₗ d

theorem wp_applyChangePlanWithOptions {a : Apply} (hplan : Planned a.edits) (attempts : ℕ) :
    ∀ d, P.Quiet d₀ d → wp txMachine (fun _ d' => Applying digest P a d₀ d')
      (Applying digest P a d₀) (applyChangePlanWithOptions digest P a attempts) d := by
  induction attempts with
  | zero => exact fun d h => ⟨.inl h, .inl h⟩
  | succ attempts ih =>
    intro d h
    refine Prog.wp_bind (Prog.wp_attempt ((wp_lockWorkspace h.1).mono (fun r d₁ _ h₁ => ?_)
      fun d₁ h₁ => .inl (h.trans h₁)))
    have hq₁ := h.trans h₁.1
    cases r with
    | ok _ =>
      have hlock := h₁.2 rfl
      exact (wp_applyOwned hlock hplan).mono (fun r d₂ _ h₂ => .inr ⟨d₁, hq₁, hlock, h₂⟩)
        fun d₂ h₂ => .inr ⟨d₁, hq₁, hlock, h₂⟩
    | error e =>
      dsimp only
      split
      · exact ih d₁ hq₁
      · exact ih d₁ hq₁
      · exact ⟨.inl hq₁, .inl hq₁⟩
      · contradiction

theorem Applying.committed {a : Apply} (h : Applying digest P a d₀ d)
    (hnone : d₀.node (appliedPlanPath P.root a.name) = none)
    (hlinked : d.node (appliedPlanPath P.root a.name) ≠ none) :
    ∃ dₗ, ∃ T : Txn digest P.root,
      Commits digest P a.edits (some (appliedPlanPath P.root a.name)) dₗ T ∧ T.Within true d := by
  have hout := (reserved_appliedPlanPath P.root a.name).under.1
  have hquiet : ∀ d', P.Quiet d₀ d' → d'.node (appliedPlanPath P.root a.name) = none := by
    intro d' h'
    rcases h'.2 _ hout with heq | hnew
    · exact heq.trans hnone
    · have hpre : P.root ++ [".scenery", "changes", "applied", a.name] <+:
          P.root ++ [".scenery", "transactions"] := hnew.2.2
      exact absurd hpre.length_le (by simp)
  rcases h with h | ⟨dₗ, hq, -, (hbeside | ⟨T, hT, -, hreceipt⟩) | hT⟩
  · exact absurd (hquiet d h) hlinked
  · refine absurd ((hbeside _ (fun hpre => hout (P.directory_under.trans hpre)) ?_ ?_).trans
      (hquiet dₗ hq)) hlinked
    · exact fun heq => hout (heq ▸ prefix_append _ _)
    · exact fun heq => hout (heq ▸ prefix_append _ _)
  · rw [hT.receipt_eq.1] at hreceipt
    exact absurd hreceipt hlinked
  · exact ⟨dₗ, hT⟩

/-- **When a committed apply can be recovered.** The apply was cut off after its receipt was
linked, and another process finds its owner dead. Recovery returns without an error, with
every edit in place, exactly when there was nothing to edit, the journal is gone, or both
artifact directories are still there. -/
theorem committed_apply_recovers_iff {a : Apply} {attempts : ℕ} {process : Process} {read : Bool}
    (hidle : P.Idle d₀) (hplan : Planned a.edits)
    (hnone : d₀.node (appliedPlanPath P.root a.name) = none)
    (hcrash : Prog.Crash txMachine (applyChangePlanWithOptions digest P a attempts) d₀ d)
    (hlinked : d.node (appliedPlanPath P.root a.name) ≠ none)
    (hdead : inspectOwnerState process P.owner = .recoverable) :
    ((run txMachine (recoverOrReject digest P.root read process) d).1 = .ok () ∧
      ∀ e ∈ a.edits, (run txMachine (recoverOrReject digest P.root read process) d).2.node
        (joinRoot P.root e.path) = fileAt e.contents) ↔
    a.edits = [] ∨ d.node (journalPath P.root) = none ∨
      d.node (P.directory ++ ["staged"]) = some .dir ∧
        d.node (P.directory ++ ["backups"]) = some .dir := by
  have hquiet : P.Quiet d₀ d₀ := ⟨hidle, fun q _ => .inl rfl⟩
  have happlying : Applying digest P a d₀ d :=
    (wp_applyChangePlanWithOptions hplan attempts d₀ hquiet).crash hcrash
  obtain ⟨dₗ, T, hT, hwithin⟩ := happlying.committed hnone hlinked
  have hab : T.Abandoned false (inspectOwnerState process) := by
    refine .inr ?_
    rw [hT.owner]
    exact hdead
  have hiff : (run txMachine (recoverOrReject digest P.root read process) d).1 = .ok () ↔ _ :=
    T.run_recover_iff hwithin hab
  -- a recovery that succeeds settles the committed transaction
  have hplaced : (run txMachine (recoverOrReject digest P.root read process) d).1 = .ok () →
      ∀ e ∈ a.edits, (run txMachine (recoverOrReject digest P.root read process) d).2.node
        (joinRoot P.root e.path) = fileAt e.contents := by
    intro hok e he
    have hsettled := (Txn.wp_recover hab.foreign hwithin).run.2 hok
    obtain ⟨c, hc, hpath, hafter⟩ := hT.exists_change he
    rw [← hpath, ← hafter]
    exact hsettled.targets c hc
  rw [and_iff_left_of_imp hplaced, hiff, hT.changes_eq_nil]
  simp only [true_or, and_true, Journal.Stocked, hT.directory]
  exact or_left_comm

end Publisher

end

namespace Sample

def edit : SourceEdit := ⟨["a"], "A", [1], true, true⟩

def plan : Apply := ⟨[edit], "plan.json", [2], "8-9", true⟩

theorem idle_tree : publisher.Idle tree where
  journal j hj := by
    cases hj
  fresh q hq := by
    by_contra hne
    have hdir := tree.tree q [".scenery"] ((prefix_append _ _).trans hq) ?_ hne
    · cases hdir
    · rintro rfl
      exact absurd hq.length_le (by decide)
  suffix := by decide

theorem planned_edit : Planned plan.edits where
  proper := by decide
  unmanaged := by decide
  actual := by decide
  distinct := pairwise_singleton _ _

def linked : Disk Data :=
  Prog.stop txMachine 28 (applyChangePlanWithOptions digest publisher plan 1) tree

def undressed : Disk Data :=
  Prog.stop txMachine 30 (applyChangePlanWithOptions digest publisher plan 1) tree

end Sample

namespace Publisher

open Sample in
theorem committed_apply_recovers_linked :
    (run txMachine (recoverOrReject digest [] false successor) linked).1 = .ok () ∧
      ∀ e ∈ plan.edits, (run txMachine (recoverOrReject digest [] false successor) linked).2.node
        (joinRoot [] e.path) = fileAt e.contents := by
  refine (committed_apply_recovers_iff (P := publisher) (d := linked) idle_tree planned_edit
    (by decide +kernel) (Prog.crash_stop 28 _ tree) (by decide +kernel) (by decide +kernel)).mpr ?_
  right
  right
  decide +kernel

open Sample in
/-- Between the removal of the directory and that of the journal it fails: the receipt is
there and the file is in place, but the journal names directories that are gone. -/
theorem finalize_blocks_recovery :
    Prog.Crash txMachine (applyChangePlanWithOptions digest publisher plan 1) tree undressed ∧
      undressed.node (appliedPlanPath [] plan.name) ≠ none ∧
      undressed.node ["a"] = some (.file (.bytes [1])) ∧
      inspectOwnerState successor publisher.owner = .recoverable ∧
      (run txMachine (recoverOrReject digest [] false successor) undressed).1 ≠ .ok () := by
  refine ⟨Prog.crash_stop 30 _ tree, ?_⟩
  decide +kernel

end Publisher

end Scenery
