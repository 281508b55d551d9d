import Scenery.Staging

/-!
# Moving staged files into place

The second half of a writer: the old contents of an entry are moved into its backup and its staged
contents into place, entry by entry, in journal order.
-/

namespace Scenery

open List

open Prog (call ReadOnly wp run)

namespace Change

structure Apart (root : Path) (c : Change) : Prop where
  proper : c.target root ≠ []
  backup : ¬ c.entry.backup <+: c.target root
  stage : ¬ c.entry.stage <+: c.target root
  stage_backup : c.entry.stage ≠ c.entry.backup

structure Untouched (root : Path) (c : Change) (d : Disk Data) : Prop where
  backup : d.node c.entry.backup = none
  target : d.node (c.target root) = fileAt c.before
  stage : d.node c.entry.stage = fileAt c.after

structure Vacated (root : Path) (c : Change) (d : Disk Data) : Prop where
  backup : d.node c.entry.backup = fileAt c.before
  target : d.node (c.target root) = none
  stage : d.node c.entry.stage = fileAt c.after

def Partway (root : Path) (c : Change) (d : Disk Data) : Prop :=
  c.Safe root d ∧ (d.node c.entry.stage = none ∨ ∃ y, d.node c.entry.stage = some (.file y))

structure Advanced (root : Path) (c : Change) (d d' : Disk Data) : Prop where
  log : d'.log = d.log
  node : ∀ q, q ≠ c.target root → q ≠ c.entry.backup → q ≠ c.entry.stage →
    d'.node q = d.node q ∨ d.node q = none ∧ d'.node q = some .dir ∧ q <+: (c.target root).dropLast

variable {digest : Data → String} {root : Path} {c : Change} {d d₁ d₂ : Disk Data}

theorem fileAt_cases (x : Option Data) : fileAt x = none ∨ ∃ y, fileAt x = some (.file y) := by
  cases x with
  | none => exact .inl rfl
  | some y => exact .inr ⟨y, rfl⟩

theorem Apart.target_dropLast (h : c.Apart root) : ¬ c.target root <+: (c.target root).dropLast := by
  intro hpre
  have hlen := hpre.length_le
  have hpos := length_pos_of_ne_nil h.proper
  rw [length_dropLast] at hlen
  omega

theorem Apart.backup_ne (h : c.Apart root) : c.entry.backup ≠ c.target root :=
  fun heq => h.backup (heq ▸ prefix_refl _)

theorem Apart.stage_ne (h : c.Apart root) : c.entry.stage ≠ c.target root :=
  fun heq => h.stage (heq ▸ prefix_refl _)

theorem Advanced.refl (root : Path) (c : Change) (d : Disk Data) : c.Advanced root d d :=
  ⟨rfl, fun _ _ _ _ => .inl rfl⟩

theorem Advanced.trans (h₁ : c.Advanced root d d₁) (h₂ : c.Advanced root d₁ d₂) :
    c.Advanced root d d₂ := by
  refine ⟨h₂.log.trans h₁.log, fun q ht hb hs => ?_⟩
  rcases h₂.node q ht hb hs with h | ⟨hnone, hdir, hpre⟩
  · rw [h]
    exact h₁.node q ht hb hs
  · rcases h₁.node q ht hb hs with h | ⟨-, h, -⟩
    · exact .inr ⟨h ▸ hnone, hdir, hpre⟩
    · rw [hnone] at h
      cases h

theorem Untouched.partway (h : c.Untouched root d) : c.Partway root d := by
  refine ⟨.inl ⟨h.backup, .inl h.target⟩, ?_⟩
  rw [h.stage]
  exact fileAt_cases _

theorem Untouched.stays (h : c.Untouched root d) : c.Advanced root d d ∧ c.Partway root d :=
  ⟨Advanced.refl root c d, h.partway⟩

theorem Vacated.partway (h : c.Vacated root d) : c.Partway root d := by
  refine ⟨?_, ?_⟩
  · by_cases hb : c.before = none
    · refine .inl ⟨?_, .inl ?_⟩
      · rw [h.backup, hb]
        rfl
      · rw [h.target, hb]
        rfl
    · exact .inr ⟨hb, h.backup, .inl h.target⟩
  · rw [h.stage]
    exact fileAt_cases _

theorem Vacated.grown (h : c.Vacated root d) (ha : c.Apart root)
    (hg : Disk.Grown (c.target root).dropLast d d₁) : c.Vacated root d₁ where
  backup := (hg.of_not_prefix fun hp => ha.backup (hp.trans ( dropLast_prefix _))).trans h.backup
  target := (hg.of_not_prefix ha.target_dropLast).trans h.target
  stage := (hg.of_not_prefix fun hp => ha.stage (hp.trans ( dropLast_prefix _))).trans h.stage

def Advances (root : Path) (c : Change) (Q : Disk Data → Prop) (p : TxProg Unit) (d : Disk Data) :
    Prop :=
  wp txMachine
    (fun r d' => (c.Advanced root d d' ∧ c.Partway root d') ∧ (r = .ok () → Q d'))
    (fun d' => c.Advanced root d d' ∧ c.Partway root d') p d

theorem Advances.bind {Q R : Disk Data → Prop} {p q : TxProg Unit} (hp : c.Advances root Q p d)
    (hq : ∀ d₁, Q d₁ → c.Advances root R q d₁) : c.Advances root R (p.bind fun _ => q) d := by
  refine Prog.wp_bind (hp.mono (fun r d₁ _ h₁ => ?_) fun _ h => h)
  cases r with
  | error e => exact ⟨h₁.1, nofun⟩
  | ok _ =>
    refine (hq d₁ (h₁.2 rfl)).mono (fun r d₂ _ h₂ => ?_) fun d₂ h₂ => ?_
    · exact ⟨⟨h₁.1.1.trans h₂.1.1, h₂.1.2⟩, h₂.2⟩
    · exact ⟨h₁.1.1.trans h₂.1, h₂.2⟩

theorem wp_moveAway (ha : c.Apart root) (h : c.Untouched root d) :
    c.Advances root (c.Vacated root) (sys (.rename (c.target root) c.entry.backup)) d := by
  have hI := h.stays
  refine Prog.wp_bind_ret.mp (wp_rename hI (fun y d₁ hy _ hlog hnode => ?_) fun e =>
    ⟨hI, nofun⟩)
  have hv : c.Vacated root d₁ := by
    refine ⟨?_, ?_, ?_⟩
    · rw [hnode, if_pos rfl, ← hy, h.target]
    · rw [hnode, if_neg ha.backup_ne.symm, if_pos rfl]
    · rw [hnode, if_neg ha.stage_backup, if_neg ha.stage_ne, h.stage]
  have hadv : c.Advanced root d d₁ := by
    refine ⟨hlog, fun q ht hb _ => .inl ?_⟩
    rw [hnode, if_neg hb, if_neg ht]
  exact ⟨⟨hadv, hv.partway⟩, ⟨hadv, hv.partway⟩, fun _ => hv⟩

theorem wp_install (hrec : c.Recorded digest root) (ha : c.Apart root) (h : c.Vacated root d) :
    c.Advances root (fun d' => d'.node (c.target root) = fileAt c.after)
      (install (c.target root) c.entry) d := by
  have hI : c.Advanced root d d ∧ c.Partway root d := ⟨Advanced.refl root c d, h.partway⟩
  unfold install
  cases hafter : c.after with
  | none =>
    rw [if_neg (by rw [hrec.afterExists, hafter]; exact nofun)]
    exact ⟨hI, hI, fun _ => h.target⟩
  | some a =>
    rw [if_pos (by rw [hrec.afterExists, hafter]; rfl)]
    have hgrown : ∀ d₁, Disk.Grown (c.target root).dropLast d d₁ →
        c.Advanced root d d₁ ∧ c.Partway root d₁ := fun d₁ hg =>
      ⟨⟨hg.log, fun q _ _ _ => hg.node q⟩, (h.grown ha hg).partway⟩
    refine wp_mkdirAll hgrown (fun d₁ hg _ => ?_) fun e d₁ hg => ⟨hgrown d₁ hg, nofun⟩
    have hv₁ := h.grown ha hg
    refine Prog.wp_bind_ret.mp (wp_rename (hgrown d₁ hg) (fun y d₂ hy _ hlog hnode => ?_)
      fun e => ⟨hgrown d₁ hg, nofun⟩)
    have ht₂ : d₂.node (c.target root) = fileAt c.after := by
      rw [hnode, if_pos rfl, ← hy, hv₁.stage]
    have hb₂ : d₂.node c.entry.backup = fileAt c.before := by
      rw [hnode, if_neg ha.backup_ne, if_neg ha.stage_backup.symm, hv₁.backup]
    have hs₂ : d₂.node c.entry.stage = none := by
      rw [hnode, if_neg ha.stage_ne, if_pos rfl]
    have hsafe : c.Safe root d₂ := by
      by_cases hb : c.before = none
      · refine .inl ⟨?_, .inr ⟨hb, ht₂⟩⟩
        rw [hb₂, hb]
        rfl
      · exact .inr ⟨hb, hb₂, .inr ht₂⟩
    have hadv : c.Advanced root d d₂ := by
      refine (hgrown d₁ hg).1.trans ⟨hlog, fun q ht _ hs => .inl ?_⟩
      rw [hnode, if_neg ht, if_neg hs]
    rw [← hafter]
    exact ⟨⟨hadv, hsafe, .inl hs₂⟩, ⟨hadv, hsafe, .inl hs₂⟩, fun _ => ht₂⟩

end Change

/-! ## One entry among the others -/

namespace Txn

variable {digest : Data → String} {root : Path} {T : Txn digest root} {c c' : Change}
  {d d' : Disk Data} {pre post : List Change}

theorem apart (hc : c ∈ T.changes) : c.Apart root where
  proper := (T.recorded c hc).proper
  backup := not_prefix_target (T.backup_artifact hc).under hc
  stage := not_prefix_target (T.stage_artifact hc).under hc
  stage_backup := stage_ne_backup hc hc

/-- The changes of `pre` are installed, those of `post` are not begun. -/
structure Progress (T : Txn digest root) (pre post : List Change) (d : Disk Data) : Prop where
  opened : T.Open d
  installed : ∀ c ∈ pre, d.node (c.target root) = fileAt c.after
  untouched : ∀ c ∈ post, c.Untouched root d

theorem Progress.of_shelf {d₀ : Disk Data}
    (hlayout : Layout digest root T.journal.directory d₀ T.changes)
    (h : Shelf T.journal.directory d₀ T.changes d)
    (hgate : d₀.node (gatePath root) = none ∨ ∃ y, d₀.node (gatePath root) = some (.file y))
    (hlock : d₀.node (lockPath root) =
      some (.file (.lock ⟨T.journal.owner, T.journal.directory⟩)))
    (hstaged : d.node (T.journal.directory ++ ["staged"]) = none ∨
      d.node (T.journal.directory ++ ["staged"]) = some .dir)
    (hbackups : d.node (T.journal.directory ++ ["backups"]) = none ∨
      d.node (T.journal.directory ++ ["backups"]) = some .dir)
    (hreceipt : d.node T.receipt = none) (hdir : T.journal.directory ≠ journalPath root)
    (hjournal : d'.node (journalPath root) = some (.file (.journal T.journal)))
    (hsame : ∀ q, T.Own q → q ≠ journalPath root → d'.node q = d.node q) :
    T.Progress [] T.changes d' := by
  have hbelow : ∀ q, T.journal.directory <+: q → q ≠ journalPath root → d'.node q = d.node q :=
    fun q hq => hsame q (own_below hq)
  -- outside its directory the tree is still the one that was looked at
  have hkept : ∀ q, T.Own q → q ≠ journalPath root → ¬ T.journal.directory <+: q →
      d'.node q = d₀.node q := fun q hown hq hpre => (hsame q hown hq).trans (h.outside q hpre)
  have hdirectory : d'.node T.journal.directory = some .dir :=
    (hbelow _ (prefix_refl _) hdir).trans h.here
  have hmeta : T.Meta d' := by
    refine ⟨Disk.node_of_dir hdirectory T.directory_under, ?_, .inr ?_, .inl hdirectory⟩
    · rw [hkept (gatePath root) (.inr (.inr (.inl rfl))) (top_ne_top (by decide))
        directory_not_prefix_gate]
      exact hgate
    · rw [hkept (lockPath root) (.inr (.inr (.inr (.inl rfl)))) (top_ne_top (by decide))
        directory_not_prefix_lock]
      exact hlock
  have hstage : ∀ c ∈ T.changes, d'.node c.entry.stage = fileAt c.after := by
    intro c hc
    obtain ⟨i, hi⟩ := mem_iff_getElem?.mp hc
    rw [hbelow _ ((T.placed i c hi).1 ▸ prefix_append _ _) ((T.stage_artifact hc).top_ne _).symm,
      (T.placed i c hi).1, h.stage, hi]
    rfl
  have hbackup : ∀ c ∈ T.changes, d'.node c.entry.backup = none := by
    intro c hc
    obtain ⟨i, hi⟩ := mem_iff_getElem?.mp hc
    rw [hbelow _ (T.backup_artifact hc).below ((T.backup_artifact hc).top_ne _).symm, (T.placed i c hi).2]
    exact h.backup i
  have htarget : ∀ c ∈ T.changes, d'.node (c.target root) = fileAt c.before := by
    intro c hc
    rw [hkept _ (.inl (T.recorded c hc).outside) (ne_target (prefix_append _ _) hc).symm
      (not_prefix_target T.directory_under hc)]
    exact hlayout.base c hc
  have hparent : ∀ c ∈ T.changes, c.before ≠ none →
      d'.node (c.target root).dropLast = some .dir := by
    intro c hc hb
    refine d'.tree (c.target root) _ ( dropLast_prefix _) ?_ ?_
    · exact fun heq => (apart hc).target_dropLast (heq.symm ▸ prefix_refl (c.target root))
    · rw [htarget c hc, Ne, fileAt_eq_none]
      exact hb
  have hpresent : T.Present d' := by
    refine ⟨hjournal, ?_, ?_, fun c hc => ?_, hparent⟩
    · rw [hbelow _ (prefix_append _ _) (top_ne_artifact (cons_ne_nil _ _)).symm]
      exact hstaged
    · rw [hbelow _ (prefix_append _ _) (top_ne_artifact (cons_ne_nil _ _)).symm]
      exact hbackups
    · rw [hstage c hc]
      exact Change.fileAt_cases _
  refine ⟨⟨hmeta, hpresent, ?_, fun c hc => ?_⟩, fun c hc => absurd hc not_mem_nil,
    fun c hc => ⟨hbackup c hc, htarget c hc, hstage c hc⟩⟩
  · exact (hsame _ own_receipt (top_ne_receipt _).symm).trans hreceipt
  · exact .inl ⟨hbackup c hc, .inl (htarget c hc)⟩

theorem advanced_under (hadv : c.Advanced root d d') (hc : c ∈ T.changes) {q : Path}
    (hq : transactionRoot root <+: q) (hb : q ≠ c.entry.backup) (hs : q ≠ c.entry.stage) :
    d'.node q = d.node q :=
  (hadv.node q (ne_target hq hc) hb hs).resolve_right fun h =>
    not_prefix_target hq hc (h.2.2.trans ( dropLast_prefix _))

theorem Progress.target_eq (h : T.Progress pre (c :: post) d) (hsplit : T.changes = pre ++ c :: post)
    (hadv : c.Advanced root d d') (hc' : c' ∈ T.changes) (hne : c' ≠ c) :
    d'.node (c'.target root) = d.node (c'.target root) := by
  have hc : c ∈ T.changes := by
    rw [hsplit]
    exact mem_append_right _ mem_cons_self
  refine (hadv.node _ (fun heq => hne (T.target_injective c' hc' c hc heq))
    (backup_ne_target hc hc').symm (ne_target (T.stage_artifact hc).under hc').symm).resolve_right ?_
  rintro ⟨hnone, -, hpre⟩
  have hmem := hc'
  rw [hsplit] at hmem
  rcases mem_append.mp hmem with hpre' | hpost
  · -- an installed entry with a missing target is a removal, so its target was a file
    rw [h.installed c' hpre', fileAt_eq_none] at hnone
    exact (T.recorded c' hc').actual (T.above c hc c' hc' hpre) hnone
  · have hord := T.ordered
    rw [hsplit] at hord
    have hlater := (pairwise_cons.mp (pairwise_append.mp hord).2.1).1
    exact hlater c' ((mem_cons.mp hpost).resolve_left hne) hpre

theorem current_not_mem (hsplit : T.changes = pre ++ c :: post) : c ∉ pre ∧ c ∉ post := by
  have hnodup := T.nodup
  rw [hsplit, nodup_middle] at hnodup
  have hc := (nodup_cons.mp hnodup).1
  exact ⟨fun h => hc (mem_append_left _ h), fun h => hc (mem_append_right _ h)⟩

theorem Progress.advance (h : T.Progress pre (c :: post) d) (hsplit : T.changes = pre ++ c :: post)
    (hadv : c.Advanced root d d') (hpart : c.Partway root d') :
    (T.Open d' ∧ T.Keeps d d') ∧ (∀ c' ∈ pre, d'.node (c'.target root) = fileAt c'.after) ∧
      ∀ c' ∈ post, c'.Untouched root d' := by
  have hmem : ∀ c' ∈ pre ++ c :: post, c' ∈ T.changes := fun c' hc' => hsplit ▸ hc'
  have hc : c ∈ T.changes := hmem c (mem_append_right _ mem_cons_self)
  have hopen := h.opened
  have hunder := fun {q} => advanced_under (q := q) hadv hc
  have htarget : ∀ c' ∈ T.changes, c' ≠ c → d'.node (c'.target root) = d.node (c'.target root) :=
    fun _ => h.target_eq hsplit hadv
  have hbackup : ∀ c' ∈ T.changes, c' ≠ c →
      d'.node c'.entry.backup = d.node c'.entry.backup := fun c' hc' hne =>
    hunder (T.backup_artifact hc').under (fun heq => hne (backup_injective hc' hc heq))
      (stage_ne_backup hc hc').symm
  have hstage : ∀ c' ∈ T.changes, c' ≠ c →
      d'.node c'.entry.stage = d.node c'.entry.stage := fun c' hc' hne =>
    hunder (T.stage_artifact hc').under (stage_ne_backup hc' hc)
      fun heq => hne (stage_injective hc' hc heq)
  have hartifact : ∀ name, d'.node (T.journal.directory ++ [name]) =
      d.node (T.journal.directory ++ [name]) := fun name =>
    hunder (T.directory_under.trans (prefix_append _ _)) ((T.backup_artifact hc).directory_ne name)
      ((T.stage_artifact hc).directory_ne name)
  have htop : ∀ name, d'.node (transactionRoot root ++ [name]) =
      d.node (transactionRoot root ++ [name]) := fun name =>
    hunder (prefix_append _ _) ((T.backup_artifact hc).top_ne name) ((T.stage_artifact hc).top_ne name)
  have hmeta : T.Meta d' := by
    refine hopen.toMeta.mono (hunder (prefix_refl _) (T.backup_artifact hc).root_ne (T.stage_artifact hc).root_ne)
      (.inl (htop _)) (.inl (htop _)) (.inl ?_)
    rw [T.directory_eq]
    exact htop _
  have hparent : ∀ c' ∈ T.changes, c'.before ≠ none →
      d'.node (c'.target root).dropLast = some .dir := by
    intro c' hc' hb
    have hdir := hopen.parent c' hc' hb
    have hnt : (c'.target root).dropLast ≠ c.target root := by
      intro heq
      rw [heq] at hdir
      exact (hopen.safe c hc).target_ne_dir hdir
    rw [← hdir]
    refine (hadv.node _ hnt (ne_target_dropLast (T.backup_artifact hc).under hc').symm
      (ne_target_dropLast (T.stage_artifact hc).under hc').symm).resolve_right fun hnew => ?_
    rw [hdir] at hnew
    cases hnew.1
  have hpresent : T.Present d' := by
    refine ⟨(htop _).trans hopen.journal, ?_, ?_, fun c' hc' => ?_, hparent⟩
    · rw [hartifact]
      exact hopen.staged
    · rw [hartifact]
      exact hopen.backups
    by_cases hne : c' = c
    · exact hne ▸ hpart.2
    · rw [hstage c' hc' hne]
      exact hopen.stage c' hc'
  have hreceipt : d'.node T.receipt = none := by
    rw [← hopen.receipt]
    exact (hadv.node _ (receipt_ne_target hc) (T.backup_artifact hc).receipt_ne (T.stage_artifact hc).receipt_ne).resolve_right
      fun hnew => T.receipt_apart c hc (hnew.2.2.trans ( dropLast_prefix _))
  have hkeeps : T.Keeps d d' := by
    refine ⟨hadv.log, fun q hq hdir _ _ _ => ?_, .inl (htop _), fun _ => hartifact, .inr hreceipt⟩
    refine hunder hq (fun heq => hdir (heq ▸ (T.backup_artifact hc).below)) fun heq => hdir ?_
    obtain ⟨i, hi, -⟩ := T.exists_index hc
    exact heq ▸ hi ▸ prefix_append _ _
  refine ⟨⟨⟨hmeta, hpresent, hreceipt, fun c' hc' => ?_⟩, hkeeps⟩, fun c' hc' => ?_,
    fun c' hc' => ?_⟩
  · by_cases hne : c' = c
    · exact hne ▸ hpart.1
    · exact (hopen.safe c' hc').congr (htarget c' hc' hne) (hbackup c' hc' hne)
  · have hne : c' ≠ c := fun heq => (current_not_mem hsplit).1 (heq ▸ hc')
    rw [htarget c' (hmem c' (mem_append_left _ hc')) hne]
    exact h.installed c' hc'
  · have hne : c' ≠ c := fun heq => (current_not_mem hsplit).2 (heq ▸ hc')
    have hin := hmem c' (mem_append_right _ (mem_cons_of_mem _ hc'))
    have hu := h.untouched c' (mem_cons_of_mem _ hc')
    exact ⟨(hbackup c' hin hne).trans hu.backup, (htarget c' hin hne).trans hu.target,
      (hstage c' hin hne).trans hu.stage⟩

theorem Progress.step {p : TxProg Unit} (h : T.Progress pre (c :: post) d)
    (hsplit : T.changes = pre ++ c :: post)
    (hp : c.Advances root (fun d' => d'.node (c.target root) = fileAt c.after) p d) :
    wp txMachine
      (fun r d' => (T.Open d' ∧ T.Keeps d d') ∧ (r = .ok () → T.Progress (pre ++ [c]) post d'))
      (fun d' => T.Open d' ∧ T.Keeps d d') p d := by
  refine hp.mono (fun r d₁ _ h₁ => ?_) fun d₁ h₁ => (h.advance hsplit h₁.1 h₁.2).1
  obtain ⟨hopen, hpre, hpost⟩ := h.advance hsplit h₁.1.1 h₁.1.2
  refine ⟨hopen, fun hr => ⟨hopen.1, fun c' hc' => ?_, hpost⟩⟩
  rcases mem_append.mp hc' with hc' | hc'
  · exact hpre c' hc'
  · rw [mem_singleton.mp hc']
    exact h₁.2 hr

/-! ## The loop of `PublishContext` -/

section

variable {P : Publisher} {T : Txn digest P.root}

theorem wp_backUp (hrec : c.Recorded digest P.root) (ha : c.Apart P.root)
    (h : c.Untouched P.root d) :
    c.Advances P.root (c.Vacated P.root) (backUp digest (c.target P.root) c.entry) d := by
  have hI := h.stays
  unfold backUp
  cases hb : c.before with
  | none =>
    rw [if_neg (by rw [hrec.beforeExists, hb]; exact nofun)]
    have ht : d.node (c.target P.root) = none := by
      rw [h.target, hb]
      rfl
    refine wp_pathExists hI ?_
    rw [ht, if_neg (by exact nofun)]
    refine ⟨hI, hI, fun _ => ⟨?_, ht, h.stage⟩⟩
    rw [h.backup, hb]
    rfl
  | some b =>
    rw [if_pos (by rw [hrec.beforeExists, hb]; rfl)]
    refine wp_look_attempt (readOnly_regularFileBytes _ _) hI fun r _ => ?_
    split
    · exact ⟨hI, hI, nofun⟩
    split
    · exact ⟨hI, hI, nofun⟩
    · exact Change.wp_moveAway ha h

theorem wp_publishEntry (hrec : c.Recorded digest P.root) (ha : c.Apart P.root)
    (h : c.Untouched P.root d) :
    c.Advances P.root (fun d' => d'.node (c.target P.root) = fileAt c.after)
      (publishEntry digest P c.entry) d := by
  have hI := h.stays
  refine wp_look (readOnly_unlessMissing (readOnly_rejectPathSymlinks _ _)) hI (fun _ _ => ?_)
    fun e => ⟨hI, nofun⟩
  exact (wp_backUp hrec ha h).bind fun _ => Change.wp_install hrec ha

theorem wp_each {act : Entry → TxProg Unit} {loop : List Entry → TxProg Unit}
    (hnil : loop [] = .ret ())
    (hcons : ∀ entry rest, loop (entry :: rest) = (act entry).bind fun _ => loop rest)
    (hact : ∀ c ∈ T.changes, ∀ d, d.node [] = some .dir → c.Untouched P.root d →
      c.Advances P.root (fun d' => d'.node (c.target P.root) = fileAt c.after) (act c.entry) d)
    (post : List Change) (pre : List Change) (d : Disk Data) (hsplit : T.changes = pre ++ post)
    (h : T.Progress pre post d) :
    wp txMachine
      (fun r d' => (T.Open d' ∧ T.Keeps d d') ∧ (r = .ok () → T.Progress T.changes [] d'))
      (fun d' => T.Open d' ∧ T.Keeps d d') (loop (post.map Change.entry)) d := by
  induction post generalizing pre d with
  | nil =>
    rw [append_nil] at hsplit
    subst hsplit
    rw [map_nil, hnil]
    exact ⟨⟨h.opened, .refl T d⟩, ⟨h.opened, .refl T d⟩, fun _ => h⟩
  | cons c rest ih =>
    have hc : c ∈ T.changes := by
      rw [hsplit]
      exact mem_append_right _ mem_cons_self
    have hroot : d.node [] = some .dir := Disk.node_of_dir h.opened.top nil_prefix
    have hstep := h.step hsplit (hact c hc d hroot (h.untouched c mem_cons_self))
    rw [map_cons, hcons]
    refine Prog.wp_bind (hstep.mono (fun r d₁ _ h₁ => ?_) fun _ h => h)
    cases r with
    | error e => exact ⟨h₁.1, nofun⟩
    | ok _ =>
      refine (ih (pre ++ [c]) d₁ (by simp [hsplit]) (h₁.2 rfl)).mono
        (fun r d₂ _ h₂ => ?_) fun d₂ h₂ => ?_
      · exact ⟨⟨h₂.1.1, h₁.1.2.trans h₂.1.2⟩, h₂.2⟩
      · exact ⟨h₂.1, h₁.1.2.trans h₂.2⟩

end

end Txn

end Scenery
