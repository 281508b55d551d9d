import Scenery.Staging

/-!
# Taking the workspace lock

`PublishContext` prepares a complete lock record in a fresh directory, recovers what others left
behind, and links the record under its final name.
-/

namespace Scenery

open List

open Prog (call ReadOnly wp run)

namespace Publisher

variable {digest : Data → String} {P : Publisher} {d₀ d d' : Disk Data}

/-- Waiting for the lock: there is no journal, and the transaction directory holds the
prepared lock record at most. `d₀` is the tree the publication started from. -/
structure Waiting (P : Publisher) (d₀ d : Disk Data) : Prop where
  top : d.node (transactionRoot P.root) = some .dir
  outside : ∀ q, ¬ transactionRoot P.root <+: q → d.node q = d₀.node q ∨ d.node q = some .dir
  journal : ∀ j, d.node (journalPath P.root) ≠ some (.file (.journal j))
  fresh : ∀ q, P.directory <+: q → q ≠ P.directory → q ≠ P.preparedLock → d.node q = none
  prepared : d.node P.preparedLock = none ∨ d.node P.preparedLock = some (.file (.lock P.lock))
  unlogged : P.Unlogged d

theorem directory_not_prefix {name : String} (hname : "change-" ++ P.suffix ≠ name) :
    ¬ P.directory <+: transactionRoot P.root ++ [name] := by
  rw [directory, prefix_append_right_inj]
  rintro ⟨rest, h⟩
  exact hname (List.cons.inj h).1

theorem Waiting.swept (h : P.Waiting d₀ d) (hs : Swept P.root d d') : P.Waiting d₀ d' where
  top := hs.top.trans h.top
  outside q hq := by
    rw [hs.outside q hq]
    exact h.outside q hq
  journal := hs.journal h.journal
  fresh q hpre hne hprep := by
    have hgate : q ≠ gatePath P.root := fun heq =>
      directory_not_prefix (change_append_ne (by decide)) (heq ▸ hpre)
    rcases hs.below q hgate with heq | hnone
    · rw [heq]
      exact h.fresh q hpre hne hprep
    · exact hnone
  prepared := by
    have hgate : P.preparedLock ≠ gatePath P.root := fun heq =>
      directory_not_prefix (change_append_ne (by decide))
        (show P.directory <+: gatePath P.root from heq ▸ prefix_append _ _)
    rcases hs.below _ hgate with heq | hnone
    · rw [heq]
      exact h.prepared
    · exact .inl hnone
  unlogged := h.unlogged.congr hs.log

theorem Waiting.wp_recover {force allowCurrentOwner : Bool} {inspectOwner : Owner → OwnerState}
    (h : P.Waiting d₀ d) :
    wp txMachine
      (fun r d' => P.Waiting d₀ d' ∧ (r = .ok () → ∃ y, d'.node (gatePath P.root) = some (.file y)))
      (P.Waiting d₀) (recoverWithOwnerInspector digest P.root force allowCurrentOwner inspectOwner)
      d := by
  refine (wp_recover_quiet h.journal).mono (fun r d' _ h' => ?_) fun _ => h.swept
  refine ⟨h.swept h'.1, fun hr => (h'.2 hr).resolve_left ?_⟩
  rw [h.top]
  exact Option.some_ne_none _

theorem Waiting.owns (h : P.Waiting d₀ d)
    (hgate : d.node (gatePath P.root) = none ∨ ∃ y, d.node (gatePath P.root) = some (.file y))
    {y : Data} (hy : d.node P.preparedLock = some (.file y))
    (hlock : d'.node (lockPath P.root) = some (.file y)) (hlog : d'.log = d.log)
    (hsame : ∀ q, q ≠ lockPath P.root → d'.node q = d.node q) :
    P.Owns d' ∧
      ∀ q, ¬ transactionRoot P.root <+: q → d'.node q = d₀.node q ∨ d'.node q = some .dir := by
  have hdir : ¬ P.directory <+: lockPath P.root :=
    directory_not_prefix (change_append_ne (by decide))
  have hprep : d'.node P.preparedLock = d.node P.preparedLock :=
    hsame _ fun heq => hdir (heq ▸ prefix_append _ _)
  obtain rfl : y = .lock P.lock := by
    rcases h.prepared with hp | hp <;> rw [hy] at hp
    · cases hp
    · cases hp
      rfl
  refine ⟨⟨?_, hlock, ?_, fun q hpre hne hprep => ?_, h.unlogged.congr hlog⟩, fun q hq => ?_⟩
  · rw [hsame (gatePath P.root) (Txn.top_ne_top (by decide))]
    exact hgate
  · refine d'.tree P.preparedLock P.directory (prefix_append _ _) (by simp [preparedLock]) ?_
    rw [hprep, hy]
    exact Option.some_ne_none _
  · rw [hsame q fun heq => hdir (heq ▸ hpre)]
    exact h.fresh q hpre hne hprep
  · rw [hsame q fun heq => hq (heq ▸ prefix_append _ _)]
    exact h.outside q hq

structure Linked (P : Publisher) (d d' : Disk Data) : Prop where
  lock : ∃ y, d.node P.preparedLock = some (.file y) ∧ d'.node (lockPath P.root) = some (.file y)
  log : d'.log = d.log
  node : ∀ q, q ≠ lockPath P.root → d'.node q = d.node q

theorem wp_waitForLock {I G Q : Disk Data → Prop} (attempts : ℕ) (hun : ∀ d, I d → P.Unlogged d)
    (hrec : ∀ d, I d → wp txMachine (fun r d' => I d' ∧ (r = .ok () → G d')) I
      (recoverOrReject digest P.root false P.process) d)
    (hlink : ∀ d d', I d → G d → P.Linked d d' → Q d' ∧ P.Unlogged d') (h : I d) :
    wp txMachine (fun r d' => P.Unlogged d' ∧ (r = .ok () → Q d'))
      P.Unlogged (waitForLock digest P attempts) d := by
  have hgive : ∀ {d}, I d → ∀ e : TxError,
      wp txMachine (fun r d' => P.Unlogged d' ∧ (r = .ok () → Q d')) P.Unlogged (do
        let _ ← call (.removeAll P.directory)
        .fail e : TxProg Unit) d := by
    intro d h e
    refine wp_removeAll (fun d₁ h₁ => (hun d h).congr h₁.log) fun _ d₁ h₁ => ?_
    exact ⟨(hun d h).congr h₁.log, (hun d h).congr h₁.log, nofun⟩
  induction attempts generalizing d with
  | zero => exact hgive h _
  | succ attempts ih =>
    refine wp_call (fun d' hc => ?_) fun x d' hs => ?_
    · obtain rfl : d' = d := hc
      exact hun d' h
    obtain rfl := Disk.step_poll hs
    cases x with
    | error e => exact hgive h _
    | ok _ =>
      refine Prog.wp_bind (Prog.wp_attempt ((hrec d' h).mono (fun r d₁ _ h₁ => ?_) hun))
      obtain ⟨h₁, hready⟩ := h₁
      cases r with
      | error e =>
        -- a transaction of someone else is waited for, any other error ends the loop
        cases e
        case active => exact ih h₁
        all_goals exact hgive h₁ _
      | ok _ =>
        refine wp_call (fun d₂ hc => ?_) fun x d₂ hs => ?_
        · obtain rfl : d₂ = d₁ := hc
          exact hun d₂ h₁
        rcases Disk.step_link hs with ⟨rfl, y, hy, -, hlock, hlog, hsame⟩ | ⟨⟨e, rfl⟩, rfl⟩
        · obtain ⟨hq, hun₂⟩ := hlink d₁ d₂ h₁ (hready rfl) ⟨⟨y, hy, hlock⟩, hlog, hsame⟩
          exact ⟨hun₂, hun₂, fun _ => hq⟩
        · cases e
          case exist => exact ih h₁
          all_goals exact hgive h₁ _

/-! ## Waiting while an interrupted transaction is pending -/

structure Pending (P : Publisher) (T : Txn digest P.root) (committed : Bool) (d : Disk Data) :
    Prop where
  within : T.Within committed d
  apart : T.journal.directory ≠ P.directory
  proper : P.directory ≠ journalPath P.root
  fresh : ∀ q, P.directory <+: q → q ≠ P.directory → q ≠ P.preparedLock → d.node q = none
  prepared : d.node P.preparedLock = none ∨ d.node P.preparedLock = some (.file (.lock P.lock))
  unlogged : P.Unlogged d

section

variable {T : Txn digest P.root} {committed : Bool}

theorem directory_under (P : Publisher) : transactionRoot P.root <+: P.directory :=
  prefix_append _ _

theorem not_prefix_root (P : Publisher) : ¬ P.directory <+: transactionRoot P.root := by
  intro hpre
  have hlen := hpre.length_le
  rw [directory, length_append, length_singleton] at hlen
  omega

theorem not_prefix_of_apart (hapart : T.journal.directory ≠ P.directory) {q : Path}
    (hq : P.directory <+: q) : ¬ T.journal.directory <+: q := by
  intro hpre
  refine hapart ((prefix_of_prefix_length_le hpre hq (le_of_eq ?_)).eq_of_length ?_)
  all_goals rw [T.directory_eq, directory, length_append, length_append]; rfl

theorem not_prefix_journal (h : P.directory ≠ journalPath P.root) :
    ¬ P.directory <+: journalPath P.root := fun hpre =>
  h (eq_of_prefix_child dropLast_concat (ne_nil_of_child dropLast_concat) hpre)

theorem Pending.kept (h : P.Pending T committed d) (hwithin : T.Within committed d')
    (hk : T.Keeps d d') : P.Pending T committed d' := by
  have hsame : ∀ q, P.directory <+: q → d'.node q = d.node q := by
    intro q hq
    refine hk.node q (P.directory_under.trans hq) (not_prefix_of_apart h.apart hq) ?_ ?_ ?_
    · rintro rfl
      exact directory_not_prefix (change_append_ne (by decide)) hq
    · rintro rfl
      exact directory_not_prefix (change_append_ne (by decide)) hq
    · rintro rfl
      exact not_prefix_journal h.proper hq
  refine ⟨hwithin, h.apart, h.proper, fun q hpre hne hprep => ?_, ?_, h.unlogged.congr hk.log⟩
  · exact (hsame q hpre).trans (h.fresh q hpre hne hprep)
  · rw [hsame P.preparedLock (prefix_append _ _)]
    exact h.prepared

theorem Pending.waiting (h : P.Pending T committed d) (hs : T.Settled committed d) :
    P.Waiting d d where
  top := hs.top
  outside _ _ := .inl rfl
  journal j := by
    rw [hs.journal]
    exact nofun
  fresh := h.fresh
  prepared := h.prepared
  unlogged := h.unlogged

theorem Pending.wp_waitForLock (attempts : ℕ) (h : P.Pending T committed d) :
    wp txMachine (fun r d' => P.Unlogged d' ∧ (r = .ok () → P.Owns d'))
      P.Unlogged (waitForLock digest P attempts) d := by
  refine Publisher.wp_waitForLock (I := P.Pending T committed) (G := T.Settled committed) attempts
    (fun d h => h.unlogged) (fun d h => ?_) (fun d d' h hs hl => ?_) h
  · refine (Txn.wp_recover (.inr (.inl (fun h => by cases h))) h.within).mono
      (fun r d' _ h' => ?_) fun d' h' => h.kept h'.1 h'.2
    exact ⟨h.kept h'.1.1 h'.1.2, h'.2⟩
  · obtain ⟨y, hy, hlock⟩ := hl.lock
    obtain ⟨hown, -⟩ := (h.waiting hs).owns hs.gate hy hlock hl.log hl.node
    exact ⟨hown, hown.unlogged⟩

end

/-! ## From the call to the lock -/

theorem journalPath_ne_preparedLock (P : Publisher) : journalPath P.root ≠ P.preparedLock := by
  intro heq
  have := congrArg List.length heq
  simp [preparedLock, journalPath, directory] at this

theorem empty_of_created {p : Path} (hg : Disk.Grown p d d') (hnone : d.node p = none) (q : Path)
    (hpre : p <+: q) (hne : q ≠ p) : d'.node q = none := by
  have hlen := hpre.length_le
  rw [hg.of_not_prefix fun h => hne (h.eq_of_length (le_antisymm h.length_le hlen))]
  by_contra hq
  have hdir := d.tree q p hpre hne.symm hq
  rw [hnone] at hdir
  cases hdir

/-- The lock record has been prepared in a fresh directory; `d₀` is the tree before. -/
structure Prepared (P : Publisher) (d₀ d : Disk Data) : Prop where
  top : d.node (transactionRoot P.root) = some .dir
  new : d₀.node P.directory = none
  node : ∀ q, ¬ P.directory <+: q → d.node q = d₀.node q ∨
    d₀.node q = none ∧ d.node q = some .dir ∧ q <+: transactionRoot P.root
  fresh : ∀ q, P.directory <+: q → q ≠ P.directory → q ≠ P.preparedLock → d.node q = none
  record : d.node P.preparedLock = some (.file (.lock P.lock))
  unlogged : P.Unlogged d

theorem Prepared.directory (h : P.Prepared d₀ d) : d.node P.directory = some .dir := by
  refine d.tree P.preparedLock _ (prefix_append _ _) (by simp [preparedLock]) ?_
  rw [h.record]
  exact Option.some_ne_none _

theorem wp_acquire_of {Q : Disk Data → Prop} (attempts : ℕ) (hun : P.Unlogged d₀)
    (hwait : ∀ d, P.Prepared d₀ d → wp txMachine
      (fun r d' => P.Unlogged d' ∧ (r = .ok () → Q d')) P.Unlogged
      (waitForLock digest P attempts) d) :
    wp txMachine (fun r d' => P.Unlogged d' ∧ (r = .ok () → Q d')) P.Unlogged
      (acquire digest P attempts) d₀ := by
  refine wp_look (readOnly_unlessMissing (readOnly_rejectPathSymlinks _ _)) hun (fun _ _ => ?_)
    fun e => ⟨hun, nofun⟩
  refine wp_mkdirAll (fun d₁ h₁ => hun.congr h₁.log) (fun d₁ h₁ hdir₁ => ?_)
    fun e d₁ h₁ => ⟨hun.congr h₁.log, nofun⟩
  have hun₁ := hun.congr h₁.log
  refine wp_sys (fun d₂ hc => ?_) (fun _ d₂ hs => ?_) fun e d₂ hs => ?_
  · obtain rfl : d₂ = d₁ := hc
    exact hun₁
  · obtain ⟨hg, hok⟩ := Disk.step_mkdir hs
    obtain ⟨hnone, hdir₂⟩ := hok rfl
    have hun₂ := hun₁.congr hg.log
    have hdirectory : d₂.node P.directory = some .dir := hdir₂ _ (prefix_refl _)
    have hempty := empty_of_created hg hnone
    have hpar : d₂.node P.preparedLock.dropLast = some .dir := by
      rw [preparedLock, dropLast_concat]
      exact hdirectory
    refine wp_call (fun d₃ hc => hun₂.congr (Disk.cut_writeFile hc).log) fun x d₃ hs => ?_
    rcases Disk.step_writeFile hs with ⟨rfl, hlog, hnode, -, -, hrest⟩ | ⟨⟨e, rfl⟩, hg₃⟩
    · -- the record is prepared; the rest of the fresh directory is empty
      have hsame : ∀ q, q ≠ P.preparedLock → d₃.node q = d₂.node q := fun q hq =>
        (hrest q hq).resolve_right fun hnew => by
          rw [Disk.node_of_dir hpar hnew.2.2] at hnew
          cases hnew.1
      have hun₃ : P.Unlogged d₃ := by
        intro e he
        rw [hlog] at he
        rcases mem_cons.mp he with rfl | he
        · exact ⟨P.journalPath_ne_preparedLock.symm, by simp [preparedLock, receipt]⟩
        · exact hun₂ e he
      refine hwait d₃ ⟨?_, ?_, fun q hq => ?_, fun q hpre hne hprep => ?_, hnode, hun₃⟩
      · exact Disk.node_of_dir (hsame P.directory (by simp [preparedLock]) ▸ hdirectory)
          P.directory_under
      · rwa [← h₁.of_not_prefix P.not_prefix_root]
      · rw [hsame q fun heq => hq (heq ▸ prefix_append _ _)]
        rcases hg.node q with hq₂ | hq₂
        · rw [hq₂]
          exact h₁.node q
        · -- the only directory on the way that was missing is the fresh one
          refine absurd hq₂.1 ?_
          have hpar₁ : d₁.node (transactionRoot P.root) = some .dir := hdir₁ _ (prefix_refl _)
          have hle : q <+: transactionRoot P.root := by
            have hpre : q <+: P.directory := hq₂.2.2
            rw [directory, prefix_concat_iff] at hpre
            exact hpre.resolve_left fun heq => hq (heq ▸ prefix_refl _)
          rw [Disk.node_of_dir hpar₁ hle]
          exact Option.some_ne_none _
      · rw [hsame q hprep]
        exact hempty q hpre hne
    · have hun₃ := hun₂.congr hg₃.log
      refine wp_removeAll (fun d₄ h₄ => hun₃.congr h₄.log) fun _ d₄ h₄ => ?_
      exact ⟨hun₃.congr h₄.log, hun₃.congr h₄.log, nofun⟩
  · obtain ⟨hg, -⟩ := Disk.step_mkdir hs
    exact ⟨hun₁.congr hg.log, hun₁.congr hg.log, nofun⟩

theorem Prepared.waiting (h : P.Prepared d₀ d)
    (hjournal : ∀ j, d₀.node (journalPath P.root) ≠ some (.file (.journal j))) :
    P.Waiting d₀ d where
  top := h.top
  outside q hq := (h.node q fun hpre => hq (P.directory_under.trans hpre)).imp id fun hq => hq.2.1
  journal j hj := by
    by_cases hdir : P.directory = journalPath P.root
    · rw [← hdir, h.directory] at hj
      cases hj
    rcases h.node (journalPath P.root) (not_prefix_journal hdir) with heq | hnew
    · exact hjournal j (heq ▸ hj)
    · rw [hnew.2.1] at hj
      cases hj
  fresh := h.fresh
  prepared := .inr h.record
  unlogged := h.unlogged

theorem wp_acquire (attempts : ℕ)
    (hjournal : ∀ j, d₀.node (journalPath P.root) ≠ some (.file (.journal j)))
    (hun : P.Unlogged d₀) :
    wp txMachine (fun r d' => P.Unlogged d' ∧ (r = .ok () → P.Owns d' ∧
        ∀ q, ¬ transactionRoot P.root <+: q → d'.node q = d₀.node q ∨ d'.node q = some .dir))
      P.Unlogged (acquire digest P attempts) d₀ := by
  refine wp_acquire_of attempts hun fun d h => ?_
  refine wp_waitForLock (I := P.Waiting d₀) attempts (fun d h => h.unlogged)
    (fun d h => h.wp_recover) (fun d d' h hgate hl => ?_) (h.waiting hjournal)
  obtain ⟨y, hy, hlock⟩ := hl.lock
  obtain ⟨hown, hout⟩ := h.owns (.inr hgate) hy hlock hl.log hl.node
  exact ⟨⟨hown, hout⟩, hown.unlogged⟩

theorem Prepared.pending {T : Txn digest P.root} {committed : Bool} (h : P.Prepared d₀ d)
    (hlive : T.Live committed d₀) (hdirectory : d₀.node T.journal.directory = some .dir) :
    P.Pending T committed d := by
  have hapart : T.journal.directory ≠ P.directory := by
    intro heq
    rw [heq, h.new] at hdirectory
    cases hdirectory
  have hproper : P.directory ≠ journalPath P.root := by
    intro heq
    have hjournal := hlive.toPresent.journal
    rw [← heq, h.new] at hjournal
    cases hjournal
  have hsame : ∀ q, ¬ P.directory <+: q → d.node q = d₀.node q := fun q hq =>
    (h.node q hq).resolve_right fun hnew => by
      rw [Disk.node_of_dir hlive.toMeta.top hnew.2.2] at hnew
      cases hnew.1
  have hwithin : T.Within committed d := by
    refine Txn.Within.congr (.inl hlive) fun q hq => hsame q fun hpre => ?_
    rcases hq with hq | rfl | rfl | rfl | rfl | hq
    · exact hq (P.directory_under.trans hpre)
    · exact P.not_prefix_root hpre
    · exact directory_not_prefix (change_append_ne (by decide)) hpre
    · exact directory_not_prefix (change_append_ne (by decide)) hpre
    · exact not_prefix_journal hproper hpre
    · exact not_prefix_of_apart hapart hpre hq
  exact ⟨hwithin, hapart, hproper, h.fresh, .inr h.record, h.unlogged⟩

/-- No journal is left, or one whose transaction recovery can still finish. -/
def Ready (digest : Data → String) (root : Path) (d : Disk Data) : Prop :=
  (∀ j, d.node (journalPath root) ≠ some (.file (.journal j))) ∨
    ∃ (T : Txn digest root) (committed : Bool), T.Live committed d ∧
      d.node T.journal.directory = some .dir

theorem Ready.wp_acquire (attempts : ℕ) (h : Ready digest P.root d₀) (hun : P.Unlogged d₀) :
    wp txMachine (fun r d' => P.Unlogged d' ∧ (r = .ok () → P.Owns d'))
      P.Unlogged (acquire digest P attempts) d₀ := by
  rcases h with hjournal | ⟨T, committed, hlive, hdirectory⟩
  · refine (Publisher.wp_acquire attempts hjournal hun).mono (fun r d' _ h => ?_) fun _ h => h
    exact ⟨h.1, fun hr => (h.2 hr).1⟩
  · exact wp_acquire_of attempts hun fun d hd => (hd.pending hlive hdirectory).wp_waitForLock attempts

end Publisher

end Scenery
