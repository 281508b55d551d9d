import Mathlib.Data.List.Nodup
import Scenery.Transaction

/-!
# Recovery of a whole journal

`Txn` is a journal together with the contents its entries stand for, laid out the way both writers
of journals lay it out.
-/

namespace Scenery

open List

open Prog (call ReadOnly wp run)

structure Txn (digest : Data → String) (root : Path) where
  journal : Journal
  changes : List Change
  suffix : String
  receipt : Path
  entries_eq : journal.entries = changes.map Change.entry
  directory_eq : journal.directory = transactionRoot root ++ ["change-" ++ suffix]
  receipt_eq : journal.receipt = none ∨ journal.receipt = some receipt
  receipt_within : root <+: receipt
  receipt_apart : ∀ c ∈ changes, ¬ receipt <+: c.target root
  receipt_place : receipt = journal.directory ++ ["committed"] ∨ ¬ transactionRoot root <+: receipt
  recorded : ∀ c ∈ changes, c.Recorded digest root
  placed : ∀ i c, changes[i]? = some c → c.entry.stage = stagePath journal.directory i ∧
    c.entry.backup = backupPath journal.directory i
  target_injective : ∀ c ∈ changes, ∀ c' ∈ changes, c.target root = c'.target root → c = c'
  ordered : changes.Pairwise fun c c' => ¬ c'.target root <+: (c.target root).dropLast
  above : ∀ c ∈ changes, ∀ c' ∈ changes, c'.target root <+: (c.target root).dropLast →
    c'.before = none

def gatePath (root : Path) : Path := transactionRoot root ++ ["recovery.lock"]

variable {name : String}

namespace Txn

variable {digest : Data → String} {root : Path} {T : Txn digest root} {c c' : Change}
  {d d' : Disk Data}

/-! ## The paths of a transaction are apart -/

def Artifact (T : Txn digest root) (q : Path) : Prop :=
  ∃ name file, q = T.journal.directory ++ [name, file]

theorem exists_index (hc : c ∈ T.changes) : ∃ i, c.entry.stage = stagePath T.journal.directory i ∧
    c.entry.backup = backupPath T.journal.directory i := by
  obtain ⟨i, hi⟩ := mem_iff_getElem?.mp hc
  exact ⟨i, T.placed i c hi⟩

theorem stage_artifact (hc : c ∈ T.changes) : T.Artifact c.entry.stage := by
  obtain ⟨i, hi, -⟩ := T.exists_index hc
  exact ⟨_, _, hi⟩

theorem backup_artifact (hc : c ∈ T.changes) : T.Artifact c.entry.backup := by
  obtain ⟨i, -, hi⟩ := T.exists_index hc
  exact ⟨_, _, hi⟩

theorem artifact_injective {directory : Path} {i j : ℕ}
    (h : directory ++ [name, pad6 i] = directory ++ [name, pad6 j]) : i = j := by
  simp only [append_cancel_left_eq, List.cons.injEq, and_true, true_and] at h
  exact pad6_injective h

theorem eq_of_artifact {artifact : Change → Path}
    (hplaced : ∀ i c, T.changes[i]? = some c → artifact c = T.journal.directory ++ [name, pad6 i])
    (hc : c ∈ T.changes) (hc' : c' ∈ T.changes) (h : artifact c = artifact c') : c = c' := by
  obtain ⟨i, hi⟩ := mem_iff_getElem?.mp hc
  obtain ⟨j, hj⟩ := mem_iff_getElem?.mp hc'
  rw [hplaced i c hi, hplaced j c' hj] at h
  rw [artifact_injective h, hj] at hi
  exact (Option.some.inj hi).symm

theorem backup_injective (hc : c ∈ T.changes) (hc' : c' ∈ T.changes)
    (h : c.entry.backup = c'.entry.backup) : c = c' :=
  eq_of_artifact (fun i c hi => (T.placed i c hi).2) hc hc' h

theorem stage_injective (hc : c ∈ T.changes) (hc' : c' ∈ T.changes)
    (h : c.entry.stage = c'.entry.stage) : c = c' :=
  eq_of_artifact (fun i c hi => (T.placed i c hi).1) hc hc' h

theorem nodup (T : Txn digest root) : T.changes.Nodup := by
  rw [nodup_iff_getElem?_ne_getElem?]
  intro i j hij hj heq
  obtain ⟨c, hc⟩ : ∃ c, T.changes[j]? = some c := ⟨_, getElem?_eq_getElem hj⟩
  have hb := (T.placed i c (heq.trans hc)).2.symm.trans (T.placed j c hc).2
  exact Nat.ne_of_lt hij (artifact_injective hb)

theorem stage_ne_backup (hc : c ∈ T.changes) (hc' : c' ∈ T.changes) :
    c.entry.stage ≠ c'.entry.backup := by
  obtain ⟨i, hi, -⟩ := T.exists_index hc
  obtain ⟨j, -, hj⟩ := T.exists_index hc'
  rw [hi, hj, stagePath, backupPath, Ne, append_cancel_left_eq]
  simp

variable {q : Path}

theorem not_prefix_target (hq : transactionRoot root <+: q) (hc : c ∈ T.changes) :
    ¬ q <+: c.target root := fun h => (T.recorded c hc).outside (hq.trans h)

theorem ne_target (hq : transactionRoot root <+: q) (hc : c ∈ T.changes) :
    q ≠ c.target root := fun h => not_prefix_target hq hc (h ▸ prefix_refl _)

theorem ne_target_dropLast (hq : transactionRoot root <+: q) (hc : c ∈ T.changes) :
    q ≠ (c.target root).dropLast :=
  fun h => not_prefix_target hq hc (h ▸ dropLast_prefix _)

theorem directory_under : transactionRoot root <+: T.journal.directory :=
  T.directory_eq ▸ prefix_append _ _

theorem top_ne_artifact {rest : List String} (hrest : rest ≠ []) :
    transactionRoot root ++ [name] ≠ T.journal.directory ++ rest := by
  rw [T.directory_eq, append_assoc, Ne, append_cancel_left_eq]
  intro h
  exact hrest (List.cons.inj h).2.symm

theorem top_ne_receipt (name : String) : transactionRoot root ++ [name] ≠ T.receipt := by
  rcases T.receipt_place with h | h
  · rw [h]
    exact top_ne_artifact (cons_ne_nil _ _)
  · exact fun heq => h (heq ▸ prefix_append _ _)

theorem receipt_ne_target (hc : c ∈ T.changes) : T.receipt ≠ c.target root :=
  fun h => T.receipt_apart c hc (h ▸ prefix_refl _)

namespace Artifact

variable {q : Path}

section

variable (h : T.Artifact q)
include h

theorem below : T.journal.directory <+: q := by
  obtain ⟨name, file, rfl⟩ := h
  exact prefix_append _ _

theorem under : transactionRoot root <+: q := T.directory_under.trans h.below

theorem top_ne (name : String) : transactionRoot root ++ [name] ≠ q := by
  obtain ⟨_, _, rfl⟩ := h
  exact top_ne_artifact (cons_ne_nil _ _)

theorem directory_ne (name : String) : T.journal.directory ++ [name] ≠ q := by
  obtain ⟨_, _, rfl⟩ := h
  rw [Ne, append_cancel_left_eq]
  exact fun h => by cases (List.cons.inj h).2

theorem receipt_ne : T.receipt ≠ q := by
  rcases T.receipt_place with hplace | hplace
  · exact hplace ▸ h.directory_ne _
  · exact fun heq => hplace (heq ▸ h.under)

theorem root_ne : transactionRoot root ≠ q := by
  obtain ⟨_, _, rfl⟩ := h
  intro heq
  have := congrArg List.length heq
  rw [T.directory_eq] at this
  simp at this

end

end Artifact

theorem backup_ne_target (hc : c ∈ T.changes) (hc' : c' ∈ T.changes) :
    c.entry.backup ≠ c'.target root := ne_target (T.backup_artifact hc).under hc'

theorem receipt_ne_artifact (hname : name ≠ "committed") :
    T.journal.directory ++ [name] ≠ T.receipt := by
  rcases T.receipt_place with h | h
  · rw [h, Ne, append_cancel_left_eq]
    exact fun heq => hname (List.cons.inj heq).1
  · exact fun heq => h (heq ▸ T.directory_under.trans (prefix_append _ _))

theorem root_ne_receipt : transactionRoot root ≠ T.receipt := by
  rcases T.receipt_place with h | h
  · intro heq
    have := congrArg List.length heq
    rw [h, T.directory_eq] at this
    simp at this
  · exact fun heq => h (heq ▸ prefix_refl _)

theorem directory_not_prefix_top (hname : "change-" ++ T.suffix ≠ name) :
    ¬ T.journal.directory <+: transactionRoot root ++ [name] := by
  rw [T.directory_eq, prefix_append_right_inj]
  rintro ⟨rest, h⟩
  exact hname (List.cons.inj h).1

theorem directory_not_prefix_gate : ¬ T.journal.directory <+: gatePath root :=
  directory_not_prefix_top (change_append_ne (by decide))

theorem directory_not_prefix_lock : ¬ T.journal.directory <+: lockPath root :=
  directory_not_prefix_top (change_append_ne (by decide))

theorem directory_not_prefix_root : ¬ T.journal.directory <+: transactionRoot root := by
  intro h
  have := h.length_le
  rw [T.directory_eq, length_append, length_singleton] at this
  omega

/-! ## Phases -/

structure Meta (T : Txn digest root) (d : Disk Data) : Prop where
  top : d.node (transactionRoot root) = some .dir
  gate : d.node (gatePath root) = none ∨ ∃ y, d.node (gatePath root) = some (.file y)
  lock : d.node (lockPath root) = none ∨
    d.node (lockPath root) = some (.file (.lock ⟨T.journal.owner, T.journal.directory⟩))
  directory : d.node T.journal.directory = some .dir ∨ d.node T.journal.directory = none

structure Present (T : Txn digest root) (d : Disk Data) : Prop where
  journal : d.node (journalPath root) = some (.file (.journal T.journal))
  staged : d.node (T.journal.directory ++ ["staged"]) = none ∨
    d.node (T.journal.directory ++ ["staged"]) = some .dir
  backups : d.node (T.journal.directory ++ ["backups"]) = none ∨
    d.node (T.journal.directory ++ ["backups"]) = some .dir
  stage : ∀ c ∈ T.changes, d.node c.entry.stage = none ∨ ∃ y, d.node c.entry.stage = some (.file y)
  parent : ∀ c ∈ T.changes, c.before ≠ none → d.node (c.target root).dropLast = some .dir

structure Open (T : Txn digest root) (d : Disk Data) : Prop extends T.Meta d, T.Present d where
  receipt : d.node T.receipt = none
  safe : ∀ c ∈ T.changes, c.Safe root d

structure Sealed (T : Txn digest root) (d : Disk Data) : Prop extends T.Meta d, T.Present d where
  named : T.journal.receipt = some T.receipt
  receipt : ∃ y, d.node T.receipt = some (.file y)
  installed : ∀ c ∈ T.changes, d.node (c.target root) = fileAt c.after
  backup : ∀ c ∈ T.changes, d.node c.entry.backup = none ∨
    ∃ y, d.node c.entry.backup = some (.file y)

def outcome (committed : Bool) (c : Change) : Option Data := if committed then c.after else c.before

structure Settled (T : Txn digest root) (committed : Bool) (d : Disk Data) : Prop
    extends T.Meta d where
  journal : d.node (journalPath root) = none
  targets : ∀ c ∈ T.changes, d.node (c.target root) = fileAt (outcome committed c)

def Watched (T : Txn digest root) (q : Path) : Prop :=
  q = journalPath root ∨ q = T.journal.directory ++ ["staged"] ∨
    q = T.journal.directory ++ ["backups"] ∨
    ∃ c ∈ T.changes, q = c.entry.stage ∨ c.before ≠ none ∧ q = (c.target root).dropLast

theorem Present.congr (h : T.Present d) (hq : ∀ q, T.Watched q → d'.node q = d.node q) :
    T.Present d' where
  journal := (hq _ (.inl rfl)).trans h.journal
  staged := by
    rw [hq _ (.inr (.inl rfl))]
    exact h.staged
  backups := by
    rw [hq _ (.inr (.inr (.inl rfl)))]
    exact h.backups
  stage c hc := by
    rw [hq _ (.inr (.inr (.inr ⟨c, hc, .inl rfl⟩)))]
    exact h.stage c hc
  parent c hc hb := (hq _ (.inr (.inr (.inr ⟨c, hc, .inr ⟨hb, rfl⟩⟩)))).trans
    (h.parent c hc hb)

theorem Meta.mono (h : T.Meta d)
    (htop : d'.node (transactionRoot root) = d.node (transactionRoot root))
    (hgate : d'.node (gatePath root) = d.node (gatePath root) ∨
      ∃ y, d'.node (gatePath root) = some (.file y))
    (hlock : d'.node (lockPath root) = d.node (lockPath root) ∨ d'.node (lockPath root) = none)
    (hdir : d'.node T.journal.directory = d.node T.journal.directory ∨
      d'.node T.journal.directory = none) : T.Meta d' where
  top := htop.trans h.top
  gate := hgate.elim (fun hg => by rw [hg]; exact h.gate) .inr
  lock := hlock.elim (fun hl => by rw [hl]; exact h.lock) .inl
  directory := hdir.elim (fun hd => by rw [hd]; exact h.directory) .inr

theorem not_watched_top (hname : name ≠ "change-apply.json") {q : Path} (hq : T.Watched q) :
    q ≠ transactionRoot root ++ [name] := by
  rcases hq with rfl | rfl | rfl | ⟨c, hc, rfl | ⟨-, rfl⟩⟩
  · rw [journalPath, Ne, append_cancel_left_eq]
    exact fun h => hname (List.cons.inj h).1.symm
  · exact (top_ne_artifact (cons_ne_nil _ _)).symm
  · exact (top_ne_artifact (cons_ne_nil _ _)).symm
  · exact ((T.stage_artifact hc).top_ne name).symm
  · exact (ne_target_dropLast (prefix_append _ _) hc).symm

theorem watched_apart (hc : c ∈ T.changes) (hpar : ∀ c ∈ T.changes, c.before ≠ none →
      d.node (c.target root).dropLast = some .dir) (hsafe : c.Safe root d)
    {q : Path} (hq : T.Watched q) : q ≠ c.target root ∧ q ≠ c.entry.backup := by
  rcases hq with rfl | rfl | rfl | ⟨c', hc', rfl | ⟨hb, rfl⟩⟩
  · exact ⟨ne_target (prefix_append _ _) hc, (T.backup_artifact hc).top_ne _⟩
  · exact ⟨ne_target (T.directory_under.trans (prefix_append _ _)) hc,
      (T.backup_artifact hc).directory_ne _⟩
  · exact ⟨ne_target (T.directory_under.trans (prefix_append _ _)) hc,
      (T.backup_artifact hc).directory_ne _⟩
  · exact ⟨ne_target (T.stage_artifact hc').under hc, stage_ne_backup hc' hc⟩
  · refine ⟨fun heq => ?_, (ne_target_dropLast (T.backup_artifact hc).under hc').symm⟩
    -- a directory above a file that existed is no target
    have hdir := hpar c' hc' hb
    rw [heq] at hdir
    exact hsafe.target_ne_dir hdir

/-! ## What recovery leaves alone -/

/-- Nothing new was made durable and, of the files below the transaction root, only the
transaction's own, the gate, the lock and the journal have changed. The directory of the
transaction is left alone until the journal is gone. -/
structure Keeps (T : Txn digest root) (d d' : Disk Data) : Prop where
  log : d'.log = d.log
  node : ∀ q, transactionRoot root <+: q → ¬ T.journal.directory <+: q → q ≠ gatePath root →
    q ≠ lockPath root → q ≠ journalPath root → d'.node q = d.node q
  journal : d'.node (journalPath root) = d.node (journalPath root) ∨
    d'.node (journalPath root) = none
  artifacts : d'.node (journalPath root) ≠ none → ∀ name,
    d'.node (T.journal.directory ++ [name]) = d.node (T.journal.directory ++ [name])
  receipt : d'.node T.receipt = d.node T.receipt ∨ d'.node T.receipt = none

theorem Keeps.refl (T : Txn digest root) (d : Disk Data) : T.Keeps d d :=
  ⟨rfl, fun _ _ _ _ _ _ => rfl, .inl rfl, fun _ _ => rfl, .inl rfl⟩

theorem Keeps.trans {d₁ d₂ : Disk Data} (h₁ : T.Keeps d d₁) (h₂ : T.Keeps d₁ d₂) : T.Keeps d d₂ where
  log := h₂.log.trans h₁.log
  node q hq hdir hgate hlock hjournal :=
    (h₂.node q hq hdir hgate hlock hjournal).trans (h₁.node q hq hdir hgate hlock hjournal)
  journal := by
    rcases h₂.journal with heq | hnone
    · rw [heq]
      exact h₁.journal
    · exact .inr hnone
  artifacts hne name := by
    have heq := h₂.journal.resolve_right hne
    exact (h₂.artifacts hne name).trans (h₁.artifacts (heq ▸ hne) name)
  receipt := by
    rcases h₂.receipt with heq | hnone
    · rw [heq]
      exact h₁.receipt
    · exact .inr hnone

theorem artifact_under (name : String) :
    transactionRoot root <+: T.journal.directory ++ [name] :=
  T.directory_under.trans (prefix_append _ _)

theorem Keeps.of_moved (hc : c ∈ T.changes) (hm : c.Moved root d d') : T.Keeps d d' where
  log := hm.log
  node q hq hdir _ _ _ := hm.node q (ne_target hq hc) fun heq =>
    hdir (heq ▸ (T.backup_artifact hc).below)
  journal := .inl (hm.node _ (ne_target (prefix_append _ _) hc) ((T.backup_artifact hc).top_ne _))
  artifacts _ name := hm.node _ (ne_target (artifact_under name) hc) ((T.backup_artifact hc).directory_ne name)
  receipt := .inl (hm.node _ (receipt_ne_target hc) (T.backup_artifact hc).receipt_ne)

theorem Keeps.of_pruned (hj : d.node (journalPath root) = none)
    (h : Disk.Pruned T.journal.directory d d') : T.Keeps d d' := by
  have hj' : d'.node (journalPath root) = none := (h.below _).elim (fun heq => heq.trans hj) id
  exact ⟨h.log, fun q _ hdir _ _ _ => h.outside q hdir, .inr hj', absurd hj',
    h.below _⟩

theorem Keeps.of_journal (h : Disk.Removed (journalPath root) d d') : T.Keeps d d' where
  log := h.log
  node q _ _ _ _ hjournal := h.node q hjournal
  journal := .inr h.gone
  artifacts hne := absurd h.gone hne
  receipt := .inl (h.node _ (top_ne_receipt _).symm)

theorem top_ne_top {name name' : String} (h : name ≠ name') :
    transactionRoot root ++ [name] ≠ transactionRoot root ++ [name'] := by
  rw [Ne, append_cancel_left_eq]
  exact fun heq => h (List.cons.inj heq).1

theorem root_ne_top (name : String) : transactionRoot root ≠ transactionRoot root ++ [name] := by
  intro h
  have := congrArg List.length h
  rw [length_append, length_singleton] at this
  omega

theorem Keeps.of_top (hjournal : name ≠ "change-apply.json")
    (hown : transactionRoot root ++ [name] = gatePath root ∨
      transactionRoot root ++ [name] = lockPath root) (hlog : d'.log = d.log)
    (hne : ∀ q, q ≠ transactionRoot root ++ [name] → d'.node q = d.node q) : T.Keeps d d' where
  log := hlog
  node q _ _ hgate hlock _ := hne q fun heq => hown.elim (fun h => hgate (heq.trans h))
    fun h => hlock (heq.trans h)
  journal := .inl (hne _ (top_ne_top hjournal.symm))
  artifacts _ _ := hne _ (top_ne_artifact (cons_ne_nil _ _)).symm
  receipt := .inl (hne _ (top_ne_receipt _).symm)

theorem Keeps.of_lock (h : Disk.Removed (lockPath root) d d') : T.Keeps d d' :=
  .of_top (by decide) (.inr rfl) h.log h.node

theorem Keeps.of_gate (hlog : d'.log = d.log)
    (hne : ∀ q, q ≠ gatePath root → d'.node q = d.node q) : T.Keeps d d' :=
  .of_top (by decide) (.inl rfl) hlog hne

/-! ## The rollback loop -/

theorem Meta.moved (h : T.Meta d) (hc : c ∈ T.changes) (hm : c.Moved root d d') : T.Meta d' := by
  have htop : ∀ q, transactionRoot root <+: q → q ≠ c.entry.backup → d'.node q = d.node q :=
    fun q hq hb => hm.node q (ne_target hq hc) hb
  have hdir : T.journal.directory ≠ c.entry.backup := by
    rw [T.directory_eq]
    exact (T.backup_artifact hc).top_ne _
  exact h.mono (htop _ (prefix_refl _) (T.backup_artifact hc).root_ne)
    (.inl (htop _ (prefix_append _ _) ((T.backup_artifact hc).top_ne _)))
    (.inl (htop _ (prefix_append _ _) ((T.backup_artifact hc).top_ne _)))
    (.inl (htop _ T.directory_under hdir))

theorem Open.moved (h : T.Open d) (hc : c ∈ T.changes) (hm : c.Moved root d d')
    (hsafe : c.Safe root d') : T.Open d' where
  toMeta := h.toMeta.moved hc hm
  toPresent := h.toPresent.congr fun q hq => by
    obtain ⟨ht, hb⟩ := watched_apart hc h.parent (h.safe c hc) hq
    exact hm.node q ht hb
  receipt := (hm.node _ (receipt_ne_target hc) (T.backup_artifact hc).receipt_ne).trans h.receipt
  safe c' hc' := by
    by_cases heq : c' = c
    · exact heq ▸ hsafe
    · refine (h.safe c' hc').congr (hm.node _ ?_ ?_) (hm.node _ ?_ ?_)
      · exact fun ht => heq (T.target_injective c' hc' c hc ht)
      · exact (backup_ne_target hc hc').symm
      · exact backup_ne_target hc' hc
      · exact fun hb => heq (backup_injective hc' hc hb)

theorem restored_moved (hc : c ∈ T.changes) (hc' : c' ∈ T.changes) (hm : c.Moved root d d')
    (hself : c.Restored root d → c.Restored root d') (h : c'.Restored root d) :
    c'.Restored root d' := by
  by_cases heq : c' = c
  · subst heq
    exact hself h
  · refine h.congr (hm.node _ ?_ ?_) (hm.node _ ?_ ?_)
    · exact fun ht => heq (T.target_injective c' hc' c hc ht)
    · exact (backup_ne_target hc hc').symm
    · exact backup_ne_target hc' hc
    · exact fun hb => heq (backup_injective hc' hc hb)

theorem wp_rollbackEntries (cs : List Change) (hcs : ∀ c ∈ cs, c ∈ T.changes) (h : T.Open d) :
    wp txMachine
      (fun r d' => (T.Open d' ∧ T.Keeps d d') ∧ (r = .ok () → ∀ c ∈ cs, c.Restored root d') ∧
        ∀ c ∈ T.changes, c.Restored root d → c.Restored root d')
      (fun d' => T.Open d' ∧ T.Keeps d d')
      (rollbackEntries digest root (cs.map Change.entry)) d := by
  induction cs generalizing d with
  | nil => exact ⟨⟨h, .refl T d⟩, ⟨h, .refl T d⟩, fun _ c hc => absurd hc not_mem_nil, fun _ _ hr => hr⟩
  | cons c rest ih =>
    have hc := hcs c mem_cons_self
    refine Prog.wp_bind ((wp_rollbackEntry (T.recorded c hc) (backup_ne_target hc hc)
      (h.parent c hc) (h.safe c hc)).mono (fun r d₁ _ h₁ => ?_) fun d₁ h₁ =>
        ⟨h.moved hc h₁.1 h₁.2, .of_moved hc h₁.1⟩)
    obtain ⟨⟨hm, hsafe⟩, hok, hkeep⟩ := h₁
    have hopen₁ := h.moved hc hm hsafe
    have hk₁ : T.Keeps d d₁ := .of_moved hc hm
    have hkeep₁ : ∀ c' ∈ T.changes, c'.Restored root d → c'.Restored root d₁ :=
      fun c' hc' => restored_moved hc hc' hm hkeep
    cases r with
    | error e => exact ⟨⟨hopen₁, hk₁⟩, nofun, hkeep₁⟩
    | ok _ =>
      refine (ih (fun c' hc' => hcs c' (mem_cons_of_mem _ hc')) hopen₁).mono
        (fun r d₂ _ h₂ => ?_) fun d₂ h₂ => ⟨h₂.1, hk₁.trans h₂.2⟩
      obtain ⟨⟨hopen₂, hk₂⟩, hok₂, hkeep₂⟩ := h₂
      refine ⟨⟨hopen₂, hk₁.trans hk₂⟩, fun hr c' hc' => ?_, fun c' hc' hr =>
        hkeep₂ c' hc' (hkeep₁ c' hc' hr)⟩
      rcases mem_cons.mp hc' with rfl | hmem
      · exact hkeep₂ c' hc (hok rfl)
      · exact hok₂ hr c' hmem

/-! ## Discarding the journal -/

variable {committed : Bool}

theorem settled_of_removed (hmeta : T.Meta d)
    (htargets : ∀ c ∈ T.changes, d.node (c.target root) = fileAt (outcome committed c))
    (h : Disk.Removed (journalPath root) d d') : T.Settled committed d' where
  toMeta := by
    refine hmeta.mono (h.node _ (root_ne_top _)) (.inl (h.node _ (top_ne_top (by decide))))
      (.inl (h.node _ (top_ne_top (by decide)))) ?_
    by_cases heq : T.journal.directory = journalPath root
    · exact .inr (heq ▸ h.gone)
    · exact .inl (h.node _ heq)
  journal := h.gone
  targets c hc := (h.node _ (ne_target (prefix_append _ _) hc).symm).trans (htargets c hc)

theorem Settled.pruned (hs : T.Settled committed d) (h : Disk.Pruned T.journal.directory d d') :
    T.Settled committed d' where
  toMeta := hs.toMeta.mono (h.outside _ directory_not_prefix_root)
    (.inl (h.outside _ directory_not_prefix_gate))
    (.inl (h.outside _ directory_not_prefix_lock)) (h.below _)
  journal := (h.below _).elim (fun heq => heq.trans hs.journal) id
  targets c hc := (h.outside _ (not_prefix_target T.directory_under hc)).trans (hs.targets c hc)

theorem Settled.unlocked (hs : T.Settled committed d) (h : Disk.Removed (lockPath root) d d') :
    T.Settled committed d' where
  toMeta := by
    refine hs.toMeta.mono (h.node _ (root_ne_top _)) (.inl (h.node _ (top_ne_top (by decide))))
      (.inr h.gone) (.inl (h.node _ fun heq => directory_not_prefix_lock (T := T) ?_))
    rw [heq]
  journal := (h.node _ (top_ne_top (by decide))).trans hs.journal
  targets c hc := (h.node _ (ne_target (prefix_append _ _) hc).symm).trans (hs.targets c hc)

theorem wp_clear (hs : T.Settled committed d) :
    wp txMachine (fun r d' => T.Settled committed d' ∧ T.Keeps d d' ∧ r = .ok ())
      (fun d' => T.Settled committed d' ∧ T.Keeps d d')
      (do
        let _ ← call (.removeAll T.journal.directory)
        let _ ← call (.remove (lockPath root))
        pure () : TxProg Unit) d := by
  refine wp_removeAll (fun d₁ h₁ => ⟨hs.pruned h₁, .of_pruned hs.journal h₁⟩) fun _ d₁ h₁ => ?_
  have hs₁ := hs.pruned h₁
  have hk₁ : T.Keeps d d₁ := .of_pruned hs.journal h₁
  refine wp_remove_ignored ⟨hs₁, hk₁⟩ fun _ d₂ h₂ => ?_
  rcases h₂ with rfl | ⟨-, h₂⟩
  · exact ⟨⟨hs₁, hk₁⟩, hs₁, hk₁, rfl⟩
  · have hk₂ := hk₁.trans (.of_lock h₂)
    exact ⟨⟨hs₁.unlocked h₂, hk₂⟩, hs₁.unlocked h₂, hk₂, rfl⟩

theorem wp_discardJournal {I : Disk Data → Prop} (hmeta : T.Meta d)
    (htargets : ∀ c ∈ T.changes, d.node (c.target root) = fileAt (outcome committed c)) (hI : I d)
    (hsettled : ∀ d', T.Settled committed d' → I d') :
    wp txMachine (fun r d' => (I d' ∧ T.Keeps d d') ∧ (r = .ok () → T.Settled committed d'))
      (fun d' => I d' ∧ T.Keeps d d') (discardJournal root T.journal) d := by
  refine wp_remove ⟨hI, .refl T d⟩ (fun d₁ _ h₁ => ?_) fun e => ⟨⟨hI, .refl T d⟩, nofun⟩
  have hs₁ := settled_of_removed hmeta htargets h₁
  have hk₁ : T.Keeps d d₁ := .of_journal h₁
  refine (wp_clear hs₁).mono (fun r d₂ _ h₂ => ?_) fun d₂ h₂ => ?_
  · exact ⟨⟨hsettled d₂ h₂.1, hk₁.trans h₂.2.1⟩, fun _ => h₂.1⟩
  · exact ⟨hsettled d₂ h₂.1, hk₁.trans h₂.2⟩

theorem Open.seal (h : T.Open d) (hnamed : T.journal.receipt = some T.receipt)
    (hinstalled : ∀ c ∈ T.changes, d.node (c.target root) = fileAt c.after) {y : Data}
    (hreceipt : d'.node T.receipt = some (.file y))
    (hsame : ∀ q, q ≠ T.receipt → d'.node q = d.node q) : T.Sealed d' where
  toMeta := by
    refine h.toMeta.mono (hsame _ root_ne_receipt) (.inl (hsame _ (top_ne_receipt _)))
      (.inl (hsame _ (top_ne_receipt _))) (.inl (hsame _ ?_))
    rw [T.directory_eq]
    exact top_ne_receipt _
  toPresent := by
    refine h.toPresent.congr fun q hq => hsame q ?_
    rcases hq with rfl | rfl | rfl | ⟨c, hc, rfl | ⟨-, rfl⟩⟩
    · exact top_ne_receipt _
    · exact receipt_ne_artifact (by decide)
    · exact receipt_ne_artifact (by decide)
    · exact (T.stage_artifact hc).receipt_ne.symm
    · exact fun heq => T.receipt_apart c hc (heq ▸ dropLast_prefix _)
  named := hnamed
  receipt := ⟨y, hreceipt⟩
  installed c hc := (hsame _ (receipt_ne_target hc).symm).trans (hinstalled c hc)
  backup c hc := by
    rw [hsame _ (T.backup_artifact hc).receipt_ne.symm]
    exact (h.safe c hc).backup_eq

/-! ## A recovery run -/

def Live (T : Txn digest root) : Bool → Disk Data → Prop
  | false => T.Open
  | true => T.Sealed

def Within (T : Txn digest root) (committed : Bool) (d : Disk Data) : Prop :=
  T.Live committed d ∨ T.Settled committed d

theorem Live.toMeta (h : T.Live committed d) : T.Meta d := by
  cases committed with
  | false => exact Open.toMeta h
  | true => exact Sealed.toMeta h

theorem Live.toPresent (h : T.Live committed d) : T.Present d := by
  cases committed with
  | false => exact Open.toPresent h
  | true => exact Sealed.toPresent h

theorem Live.backup (h : T.Live committed d) (hc : c ∈ T.changes) :
    d.node c.entry.backup = none ∨ ∃ y, d.node c.entry.backup = some (.file y) := by
  cases committed with
  | false => exact (Open.safe h c hc).backup_eq
  | true => exact Sealed.backup h c hc

theorem Live.receipt (h : T.Live committed d) :
    d.node T.receipt = none ∨ ∃ y, d.node T.receipt = some (.file y) := by
  cases committed with
  | false => exact .inl (Open.receipt h)
  | true => exact .inr (Sealed.receipt h)

theorem Live.runs_receiptExists {committed b : Bool} {d' : Disk Data} (h : T.Live committed d)
    (hb : Prog.Runs txMachine (receiptExists T.journal.receipt) d (.ok b) d') : committed = b := by
  cases committed with
  | true =>
    obtain ⟨y, hy⟩ := Sealed.receipt h
    rw [Sealed.named h] at hb
    rw [(runs_pathExists hb).1, hy]
    rfl
  | false =>
    rcases T.receipt_eq with hnone | hsome
    · rw [hnone] at hb
      exact (Except.ok.inj hb.1).symm
    · rw [hsome] at hb
      rw [(runs_pathExists hb).1, Open.receipt h]
      rfl

def Recovers (T : Txn digest root) (committed : Bool) (program : TxProg Unit) (d : Disk Data) :
    Prop :=
  wp txMachine
    (fun r d' => (T.Within committed d' ∧ T.Keeps d d') ∧ (r = .ok () → T.Settled committed d'))
    (fun d' => T.Within committed d' ∧ T.Keeps d d') program d

theorem wp_settleJournal (h : T.Live committed d) :
    T.Recovers committed (settleJournal digest root T.journal) d := by
  refine wp_look (readOnly_receiptExists _) ⟨.inl h, .refl T d⟩ (fun b hb => ?_)
    fun e => ⟨⟨.inl h, .refl T d⟩, nofun⟩
  obtain rfl := h.runs_receiptExists hb
  cases committed with
  | true =>
    exact wp_discardJournal h.toMeta (Sealed.installed h) (.inl h) fun _ => .inr
  | false =>
    have hopen : T.Open d := h
    rw [if_neg Bool.false_ne_true, T.entries_eq, ← map_reverse]
    refine Prog.wp_bind ((wp_rollbackEntries _ (fun _ => mem_reverse.mp) hopen).mono
      (fun r d₁ _ h₁ => ?_) fun d₁ h₁ => ⟨.inl h₁.1, h₁.2⟩)
    obtain ⟨⟨hopen₁, hk₁⟩, hok, -⟩ := h₁
    cases r with
    | error e => exact ⟨⟨.inl hopen₁, hk₁⟩, nofun⟩
    | ok _ =>
      have hall : ∀ c ∈ T.changes, d₁.node (c.target root) = fileAt (outcome false c) :=
        fun c hc => (hok rfl c (mem_reverse.mpr hc)).2
      refine (wp_discardJournal (I := T.Within false) hopen₁.toMeta hall (.inl hopen₁)
        fun _ => .inr).mono (fun r d₂ _ h₂ => ?_) fun d₂ h₂ => ?_
      · exact ⟨⟨h₂.1.1, hk₁.trans h₂.1.2⟩, h₂.2⟩
      · exact ⟨h₂.1, hk₁.trans h₂.2⟩

section

variable {committed force allowCurrentOwner : Bool} {inspectOwner : Owner → OwnerState}

def Foreign (T : Txn digest root) (force allowCurrentOwner : Bool)
    (inspectOwner : Owner → OwnerState) : Prop :=
  force ∨ ¬ allowCurrentOwner ∨ inspectOwner T.journal.owner ≠ .current

theorem wp_recoverLockOnly (hs : T.Settled committed d) (lock : Option Lock)
    (hlock : ∀ l, lock = some l → l.transactionDir = T.journal.directory) :
    T.Recovers committed (recoverLockOnly root force allowCurrentOwner inspectOwner lock) d := by
  have hI : T.Within committed d ∧ T.Keeps d d := ⟨.inr hs, .refl T d⟩
  cases lock with
  | none => exact ⟨hI, hI, fun _ => hs⟩
  | some l =>
    rw [recoverLockOnly]
    split
    · exact ⟨hI, hI, fun _ => hs⟩
    · refine wp_look (readOnly_validateDirectory _ _) hI (fun _ _ => ?_) fun e => ⟨hI, nofun⟩
      rw [hlock l rfl]
      exact (wp_clear hs).mono (fun r d' _ h => ⟨⟨.inr h.1, h.2.1⟩, fun _ => h.1⟩)
        fun d' h => ⟨.inr h.1, h.2⟩

theorem wp_recoverUnlocked (hforeign : T.Foreign force allowCurrentOwner inspectOwner)
    (h : T.Within committed d) (lock : Option Lock)
    (hlock : ∀ l, lock = some l → d.node (lockPath root) = some (.file (.lock l))) :
    T.Recovers committed
      (recoverUnlocked digest root force allowCurrentOwner inspectOwner lock) d := by
  have hI : T.Within committed d ∧ T.Keeps d d := ⟨h, .refl T d⟩
  refine wp_look (readOnly_readJournal root) hI (fun o ho => ?_) fun e => ⟨hI, nofun⟩
  rcases h with h | hs
  · have hj := h.toPresent.journal
    rcases runs_readJournal ho with ⟨-, hnone⟩ | ⟨j, rfl, hj'⟩
    · rw [hj] at hnone
      cases hnone
    · rw [hj] at hj'
      cases hj'
      have hI : T.Within committed d ∧ T.Keeps d d := ⟨.inl h, .refl T d⟩
      refine wp_look (readOnly_validateMetadata _ _ _) hI (fun _ _ => ?_) fun e => ⟨hI, nofun⟩
      by_cases hf : force
      · rw [if_pos hf]
        exact wp_settleJournal h
      · rw [if_neg hf]
        cases ho : inspectOwner T.journal.owner with
        | unknown | live => exact ⟨hI, hI, nofun⟩
        | recoverable => exact wp_settleJournal h
        | current =>
          have hallow : ¬ allowCurrentOwner :=
            (hforeign.resolve_left hf).resolve_right fun hne => hne ho
          simp only [if_neg hallow]
          exact ⟨hI, hI, nofun⟩
  · rcases runs_readJournal ho with ⟨rfl, -⟩ | ⟨j, -, hj'⟩
    · refine wp_recoverLockOnly hs lock fun l hl => ?_
      have hnode := hlock l hl
      rcases hs.lock with hn | hn <;> rw [hnode] at hn
      · cases hn
      · cases hn
        rfl
    · rw [hs.journal] at hj'
      cases hj'

theorem wp_recoverLocked (hforeign : T.Foreign force allowCurrentOwner inspectOwner)
    (h : T.Within committed d) :
    T.Recovers committed (recoverLocked digest root force allowCurrentOwner inspectOwner) d := by
  have hI : T.Within committed d ∧ T.Keeps d d := ⟨h, .refl T d⟩
  refine wp_look (readOnly_readLock _) hI (fun o ho => ?_) fun e => ⟨hI, nofun⟩
  cases o with
  | none => exact wp_recoverUnlocked hforeign h none nofun
  | some l =>
    simp only
    split
    · exact ⟨hI, hI, nofun⟩
    · refine wp_recoverUnlocked hforeign h (some l) fun l' hl => ?_
      cases hl
      exact runs_readLock ho

theorem Within.of_same (h : T.Within committed d) (hmeta : T.Meta d → T.Meta d')
    (hpresent : T.Present d → T.Present d')
    (hjournal : d'.node (journalPath root) = d.node (journalPath root))
    (hreceipt : d'.node T.receipt = d.node T.receipt)
    (htarget : ∀ c ∈ T.changes, d'.node (c.target root) = d.node (c.target root))
    (hbackup : ∀ c ∈ T.changes, d'.node c.entry.backup = d.node c.entry.backup) :
    T.Within committed d' := by
  rcases h with h | hs
  · left
    cases committed with
    | false =>
      have h : T.Open d := h
      exact ⟨hmeta h.toMeta, hpresent h.toPresent, hreceipt.trans h.receipt, fun c hc =>
        (h.safe c hc).congr (htarget c hc) (hbackup c hc)⟩
    | true =>
      have h : T.Sealed d := h
      refine ⟨hmeta h.toMeta, hpresent h.toPresent, h.named, ?_, fun c hc => (htarget c hc).trans
        (h.installed c hc), fun c hc => ?_⟩
      · rw [hreceipt]
        exact h.receipt
      · rw [hbackup c hc]
        exact h.backup c hc
  · right
    exact ⟨hmeta hs.toMeta, hjournal.trans hs.journal, fun c hc =>
      (htarget c hc).trans (hs.targets c hc)⟩

theorem gate_not_watched {q : Path} (hq : T.Watched q) : q ≠ gatePath root :=
  not_watched_top (by decide) hq

theorem Within.gate (h : T.Within committed d)
    (hne : ∀ q, q ≠ gatePath root → d'.node q = d.node q)
    (hgate : d'.node (gatePath root) = d.node (gatePath root) ∨
      ∃ y, d'.node (gatePath root) = some (.file y)) : T.Within committed d' := by
  refine h.of_same (fun hm => hm.mono (hne _ (root_ne_top _)) hgate
      (.inl (hne _ (top_ne_top (by decide))))
      (.inl (hne _ fun heq => directory_not_prefix_gate (T := T) ?_)))
    (fun hp => hp.congr fun q hq => hne q (gate_not_watched hq)) (hne _ (top_ne_top (by decide)))
    (hne _ (top_ne_receipt _).symm) (fun c hc => hne _ (ne_target (prefix_append _ _) hc).symm)
    fun c hc => hne _ ((T.backup_artifact hc).top_ne _).symm
  rw [heq]

/-- What the phases of a transaction look at: its own files, and the workspace outside the
directory of transactions. -/
def Own (T : Txn digest root) (q : Path) : Prop :=
  ¬ transactionRoot root <+: q ∨ q = transactionRoot root ∨ q = gatePath root ∨
    q = lockPath root ∨ q = journalPath root ∨ T.journal.directory <+: q

theorem own_below {q : Path} (h : T.journal.directory <+: q) : T.Own q :=
  .inr (.inr (.inr (.inr (.inr h))))

theorem own_receipt : T.Own T.receipt := by
  rcases T.receipt_place with heq | hplace
  · exact own_below (heq ▸ prefix_append _ _)
  · exact .inl hplace

theorem Within.congr (h : T.Within committed d) (hsame : ∀ q, T.Own q → d'.node q = d.node q) :
    T.Within committed d' := by
  have hdir : ∀ q, T.journal.directory <+: q → d'.node q = d.node q := fun q hq =>
    hsame q (own_below hq)
  have hout : ∀ q, ¬ transactionRoot root <+: q → d'.node q = d.node q := fun q hq =>
    hsame q (.inl hq)
  have hjournal : d'.node (journalPath root) = d.node (journalPath root) :=
    hsame _ (.inr (.inr (.inr (.inr (.inl rfl)))))
  have hmeta : T.Meta d → T.Meta d' := fun hm => hm.mono (hsame _ (.inr (.inl rfl)))
    (.inl (hsame _ (.inr (.inr (.inl rfl)))))
    (.inl (hsame _ (.inr (.inr (.inr (.inl rfl))))))
    (.inl (hdir _ (prefix_refl _)))
  have hpresent : T.Present d → T.Present d' := by
    refine fun hp => hp.congr fun q hq => ?_
    rcases hq with rfl | rfl | rfl | ⟨c, hc, rfl | ⟨-, rfl⟩⟩
    · exact hjournal
    · exact hdir _ (prefix_append _ _)
    · exact hdir _ (prefix_append _ _)
    · exact hdir _ (T.stage_artifact hc).below
    · exact hout _ fun hpre => not_prefix_target hpre hc ( dropLast_prefix _)
  exact h.of_same hmeta hpresent hjournal (hsame _ own_receipt)
    (fun c hc => hout _ (T.recorded c hc).outside) fun c hc => hdir _ (T.backup_artifact hc).below

theorem wp_recover (hforeign : T.Foreign force allowCurrentOwner inspectOwner)
    (h : T.Within committed d) :
    T.Recovers committed
      (recoverWithOwnerInspector digest root force allowCurrentOwner inspectOwner) d := by
  have hI : T.Within committed d ∧ T.Keeps d d := ⟨h, .refl T d⟩
  have htop : d.node (transactionRoot root) = some .dir := by
    rcases h with h | hs
    · exact h.toMeta.top
    · exact hs.top
  refine wp_lstat hI ?_
  rw [Disk.lstat_of_node htop]
  refine wp_look (readOnly_rejectPathSymlinks _ _) hI (fun _ _ => ?_) fun e => ⟨hI, nofun⟩
  refine wp_lockRecovery hI fun d₁ hlog hne hgate => ?_
  have h₁ : T.Within committed d₁ := h.gate hne hgate
  have hk₁ : T.Keeps d d₁ := .of_gate hlog hne
  refine ⟨⟨h₁, hk₁⟩, fun _ => ?_, fun e => ⟨⟨h₁, hk₁⟩, nofun⟩⟩
  refine (wp_recoverLocked hforeign h₁).mono (fun r d₂ _ h₂ => ?_) fun d₂ h₂ => ?_
  · exact ⟨⟨h₂.1.1, hk₁.trans h₂.1.2⟩, h₂.2⟩
  · exact ⟨h₂.1, hk₁.trans h₂.2⟩

end

end Txn

/-! ## Recovery when nothing is journaled -/

structure Swept (root : Path) (d d' : Disk Data) : Prop where
  log : d'.log = d.log
  outside : ∀ q, ¬ transactionRoot root <+: q → d'.node q = d.node q
  top : d'.node (transactionRoot root) = d.node (transactionRoot root)
  below : ∀ q, q ≠ gatePath root → d'.node q = d.node q ∨ d'.node q = none
  gate : d'.node (gatePath root) = d.node (gatePath root) ∨
    ∃ y, d'.node (gatePath root) = some (.file y)

namespace Swept

variable {root : Path} {d d₁ d₂ : Disk Data}

theorem refl (root : Path) (d : Disk Data) : Swept root d d :=
  ⟨rfl, fun _ _ => rfl, rfl, fun _ _ => .inl rfl, .inl rfl⟩

theorem trans (h₁ : Swept root d d₁) (h₂ : Swept root d₁ d₂) : Swept root d d₂ where
  log := h₂.log.trans h₁.log
  outside q hq := (h₂.outside q hq).trans (h₁.outside q hq)
  top := h₂.top.trans h₁.top
  below q hq := by
    rcases h₂.below q hq with heq | hnone
    · rw [heq]
      exact h₁.below q hq
    · exact .inr hnone
  gate := by
    rcases h₂.gate with heq | hfile
    · rw [heq]
      exact h₁.gate
    · exact .inr hfile

theorem journal (h : Swept root d d₁)
    (hj : ∀ j, d.node (journalPath root) ≠ some (.file (.journal j)))
    (j : Journal) : d₁.node (journalPath root) ≠ some (.file (.journal j)) := by
  rcases h.below (journalPath root) (Txn.top_ne_top (by decide)) with heq | hnone
  · rw [heq]
    exact hj j
  · rw [hnone]
    exact nofun

end Swept

theorem eq_of_prefix_child {p root : Path} (hp : p.dropLast = root) (hne : p ≠ [])
    (hpre : p <+: root ++ [name]) : p = root ++ [name] := by
  refine hpre.eq_of_length ?_
  have hpos := length_pos_of_ne_nil hne
  rw [length_append, length_singleton, ← hp, length_dropLast]
  omega

theorem ne_nil_of_child {p root : Path} (hp : p.dropLast = transactionRoot root) : p ≠ [] := by
  rintro rfl
  simp [transactionRoot] at hp

section

variable {digest : Data → String} {root : Path} {d d' : Disk Data} {force allowCurrentOwner : Bool}
  {inspectOwner : Owner → OwnerState}

theorem swept_of_top (hlog : d'.log = d.log)
    (hne : ∀ q, q ≠ transactionRoot root ++ [name] → d'.node q = d.node q)
    (hself : d'.node (transactionRoot root ++ [name]) = d.node (transactionRoot root ++ [name]) ∨
      d'.node (transactionRoot root ++ [name]) = none ∧ transactionRoot root ++ [name] ≠ gatePath root ∨
      transactionRoot root ++ [name] = gatePath root ∧
        ∃ y, d'.node (transactionRoot root ++ [name]) = some (.file y)) : Swept root d d' where
  log := hlog
  outside q hq := hne q fun heq => hq (heq ▸ prefix_append _ _)
  top := hne _ (Txn.root_ne_top _)
  below q hq := by
    by_cases heq : q = transactionRoot root ++ [name]
    · rw [heq]
      rcases hself with h | ⟨h, -⟩ | ⟨h, -⟩
      · exact .inl h
      · exact .inr h
      · exact absurd (heq.trans h) hq
    · exact .inl (hne q heq)
  gate := by
    by_cases heq : gatePath root = transactionRoot root ++ [name]
    · rw [heq]
      rcases hself with h | ⟨-, h⟩ | ⟨-, h⟩
      · exact .inl h
      · exact absurd heq.symm h
      · exact .inr h
    · exact .inl (hne _ heq)

theorem swept_of_pruned {p : Path} (hp : p.dropLast = transactionRoot root)
    (hname : hasChangePrefix (p.getLastD "") = true) (h : Disk.Pruned p d d') : Swept root d d' := by
  have hne := ne_nil_of_child hp
  have hunder : transactionRoot root <+: p := hp ▸ dropLast_prefix p
  refine ⟨h.log, fun q hq => h.outside q fun hpre => hq (hunder.trans hpre), h.outside _ ?_,
    fun q _ => h.below q, .inl (h.outside _ fun hpre => ?_)⟩
  · intro hpre
    have hlen := hpre.length_le
    have hpos := length_pos_of_ne_nil hne
    rw [← hp, length_dropLast] at hlen
    omega
  · rw [eq_of_prefix_child hp hne hpre, getLastD_concat] at hname
    revert hname
    decide

def Cleared (root : Path) (d : Disk Data) (r : Except TxError Unit) (d' : Disk Data) : Prop :=
  Swept root d d' ∧ (r = .ok () → d.node (transactionRoot root) = none ∨
    ∃ y, d'.node (gatePath root) = some (.file y))

theorem wp_recover_quiet (hj : ∀ j, d.node (journalPath root) ≠ some (.file (.journal j))) :
    wp txMachine (Cleared root d) (Swept root d)
      (recoverWithOwnerInspector digest root force allowCurrentOwner inspectOwner) d := by
  have herr : ∀ {d'}, Swept root d d' → ∀ e, Cleared root d (.error e) d' :=
    fun h e => ⟨h, nofun⟩
  have hrefl := Swept.refl root d
  refine wp_lstat hrefl ?_
  split
  · rename_i hl
    exact ⟨hrefl, hrefl, fun _ => .inl (Disk.lstat_error hl)⟩
  · exact ⟨hrefl, herr hrefl _⟩
  swap
  · exact ⟨hrefl, herr hrefl _⟩
  refine wp_look (readOnly_rejectPathSymlinks _ _) hrefl (fun _ _ => ?_) (herr hrefl)
  refine wp_lockRecovery hrefl fun d₁ hlog hne hgate => ?_
  have h₁ : Swept root d d₁ := swept_of_top hlog hne (hgate.imp_right fun hy => .inr ⟨rfl, hy⟩)
  refine ⟨h₁, fun hopen => ?_, herr h₁⟩
  have hdone : ∀ {d'}, Swept root d d' → (∃ y, d'.node (gatePath root) = some (.file y)) →
      wp txMachine (Cleared root d) (Swept root d) (pure ()) d' :=
    fun h hg => ⟨h, h, fun _ => .inr hg⟩
  -- there is no journal, so at most the lock is cleared away
  have hunlocked : ∀ lock, wp txMachine (Cleared root d) (Swept root d)
      (recoverUnlocked digest root force allowCurrentOwner inspectOwner lock) d₁ := by
    intro lock
    refine wp_look (readOnly_readJournal _) h₁ (fun o ho => ?_) (herr h₁)
    rcases runs_readJournal ho with ⟨rfl, -⟩ | ⟨j, -, hj'⟩
    · cases lock with
      | none => exact hdone h₁ hopen
      | some l =>
        show wp txMachine _ _ (recoverLockOnly _ _ _ _ _) d₁
        rw [recoverLockOnly]
        split
        · exact hdone h₁ hopen
        refine wp_look (readOnly_validateDirectory _ _) h₁ (fun _ hv => ?_) (herr h₁)
        obtain ⟨hparent, hname⟩ := runs_validateDirectory hv
        have hsweep := fun (d₂ : Disk Data) h₂ =>
          h₁.trans (swept_of_pruned hparent hname (h₂ : Disk.Pruned _ _ d₂))
        refine wp_removeAll hsweep fun _ d₂ h₂ => ?_
        have hgate₂ : ∃ y, d₂.node (gatePath root) = some (.file y) := by
          rcases (swept_of_pruned hparent hname h₂).gate with heq | hy
          · rw [heq]
            exact hopen
          · exact hy
        refine wp_remove_ignored (hsweep d₂ h₂) fun _ d₃ h₃ => ?_
        rcases h₃ with rfl | ⟨-, h₃⟩
        · exact hdone (hsweep d₃ h₂) hgate₂
        · refine hdone ((hsweep d₂ h₂).trans (swept_of_top h₃.log h₃.node
            (.inr (.inl ⟨h₃.gone, Txn.top_ne_top (by decide)⟩)))) ?_
          rw [h₃.node (gatePath root) (Txn.top_ne_top (by decide))]
          exact hgate₂
    · exact absurd hj' (h₁.journal hj j)
  refine wp_look (readOnly_readLock _) h₁ (fun o _ => ?_) (herr h₁)
  cases o with
  | none => exact hunlocked none
  | some l =>
    simp only
    split
    · exact ⟨h₁, herr h₁ _⟩
    · exact hunlocked (some l)

end

end Scenery
