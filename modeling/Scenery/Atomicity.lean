import Scenery.Acquisition
import Scenery.Installation

/-!
# Publication is atomic over crashes

`PublishContext` from the moment it holds the lock, cut off at any point, followed by any
number of recovery runs that may be cut off themselves: whenever a recovery run returns
without an error, every journaled path holds what it held before, or every one holds its
new contents, and the latter exactly when the committed marker was written.
-/

namespace Scenery

open List

open Prog (call ReadOnly wp run)

namespace Publisher

variable {digest : Data → String} {P : Publisher} {files : List File} {d₀ d d' : Disk Data}
  {changes : List Change}

/-! ## The journal of a publication -/

theorem root_prefix_receipt (P : Publisher) : P.root <+: P.receipt := by
  rw [receipt, directory, transactionRoot, append_assoc, append_assoc]
  exact prefix_append _ _

theorem transactionRoot_prefix_receipt (P : Publisher) : transactionRoot P.root <+: P.receipt := by
  rw [receipt, directory, append_assoc]
  exact prefix_append _ _

def txn (h : Staged digest P files d₀ changes d) : Txn digest P.root :=
  h.layout.txn P.owner P.suffix (some P.receipt) P.receipt (.inr rfl) rfl
    P.root_prefix_receipt
    (fun c hc hpre => (h.layout.recorded c hc).outside (P.transactionRoot_prefix_receipt.trans hpre))
    (.inl rfl)

structure Publishes (digest : Data → String) (P : Publisher) (files : List File) (d₀ : Disk Data)
    (T : Txn digest P.root) : Prop where
  receipt : T.receipt = P.receipt
  named : T.journal.receipt = some T.receipt
  directory : T.journal.directory = P.directory
  owner : T.journal.owner = P.owner
  nonempty : T.changes ≠ []
  base : ∀ c ∈ T.changes, d₀.node (c.target P.root) = fileAt c.before
  source : ∀ c ∈ T.changes, ∃ f ∈ files, f.path = c.entry.path ∧ c.after = f.after
  differ : ∀ c ∈ T.changes, c.before ≠ c.after
  unique : ∀ f ∈ files, ∀ f' ∈ files, f.path = f'.path → f = f'

/-- What the log and the transaction directory tell: at most this journal has been made
durable, the marker has exactly when the transaction is committed, and while the journal is
there, so is the directory of backups and, if anything is written, that of staged files. -/
structure Logged (P : Publisher) (T : Txn digest P.root) (committed : Bool) (d : Disk Data) :
    Prop where
  journal : ∀ x, (journalPath P.root, x) ∈ d.log → x = .journal T.journal
  marker : (∃ x, (P.receipt, x) ∈ d.log) ↔ committed = true
  backups : d.node (journalPath P.root) ≠ none →
    d.node (T.journal.directory ++ ["backups"]) = some .dir
  staged : d.node (journalPath P.root) ≠ none → d.node (T.journal.directory ++ ["staged"]) =
    if T.changes.any (·.after.isSome) then some .dir else none

theorem Logged.keeps {T : Txn digest P.root} {committed : Bool} (h : P.Logged T committed d)
    (hk : T.Keeps d d') : P.Logged T committed d' where
  journal := hk.log ▸ h.journal
  marker := hk.log ▸ h.marker
  backups hne := by
    rw [hk.artifacts hne]
    exact h.backups (hk.journal.resolve_right hne ▸ hne)
  staged hne := by
    rw [hk.artifacts hne]
    exact h.staged (hk.journal.resolve_right hne ▸ hne)

theorem journalPath_ne_receipt (P : Publisher) : journalPath P.root ≠ P.receipt := by
  intro heq
  have := congrArg List.length heq
  simp [journalPath, receipt, directory] at this

theorem Staged.progress (hown : P.Owns d₀) (h : Staged digest P files d₀ changes d)
    (hne : changes ≠ [])
    (hjournal : d'.node (journalPath P.root) = some (.file (.journal (txn h).journal)))
    (hsame : ∀ q, q ≠ journalPath P.root → d'.node q = d.node q) :
    (txn h).Progress [] (txn h).changes d' := by
  have hbackups : d.node (P.directory ++ ["backups"]) = some .dir := by
    rw [h.holds.backups, if_neg hne]
  have hdir : P.directory ≠ journalPath P.root := by
    intro heq
    have hback : d'.node (P.directory ++ ["backups"]) = some .dir :=
      (hsame _ (Txn.top_ne_artifact (T := txn h) (cons_ne_nil _ _)).symm).trans hbackups
    have hnode := Disk.node_of_dir hback (prefix_append P.directory ["backups"])
    rw [heq, hjournal] at hnode
    cases hnode
  have hstaged : d.node (P.directory ++ ["staged"]) = none ∨
      d.node (P.directory ++ ["staged"]) = some .dir := by
    rw [h.holds.staged]
    split
    · exact .inr rfl
    · exact .inl rfl
  exact Txn.Progress.of_shelf h.layout h.holds.toShelf hown.gate hown.lock hstaged
    (.inr hbackups) h.holds.marker hdir hjournal fun q _ => hsame q

/-! ## The runs of `PublishContext` -/

def Sound (digest : Data → String) (P : Publisher) (files : List File) (d₀ d : Disk Data) : Prop :=
  P.Unlogged d ∨ ∃ T : Txn digest P.root, Publishes digest P files d₀ T ∧
    ∃ committed, T.Within committed d ∧ P.Logged T committed d

theorem wp_cleanup_unlogged (h : P.Unlogged d) :
    wp txMachine (fun r d' => P.Unlogged d' ∧ r = .ok ()) P.Unlogged (cleanup P) d := by
  refine wp_removeAll (fun d₁ h₁ => h.congr h₁.log) fun _ d₁ h₁ => ?_
  refine wp_remove_ignored (h.congr h₁.log) fun _ d₂ h₂ => ?_
  have hlog : d₂.log = d.log := by
    rcases h₂ with rfl | ⟨-, h₂⟩
    · exact h₁.log
    · exact h₂.log.trans h₁.log
  exact ⟨h.congr hlog, h.congr hlog, rfl⟩

theorem pairwise_sorted (files : List File) :
    (files.insertionSort File.Before).Pairwise File.Before := by
  exact pairwise_insertionSort File.Before files

theorem Distinct.unique {last : Option String} {todo : List File} (h : Distinct last todo)
    {f f' : File} (hf : f ∈ todo) (hf' : f' ∈ todo) (hpath : f.path = f'.path) : f = f' := by
  by_contra hne
  have : Std.Symm fun f f' : File => f.path ≠ f'.path := ⟨fun _ _ h => h.symm⟩
  have hpaths : todo.Pairwise fun f f' => f.path ≠ f'.path := by
    refine h.2.imp fun {f f'} hlt heq => ?_
    rw [heq] at hlt
    exact lt_irrefl _ hlt
  exact hpaths.forall hf hf' hne hpath

theorem wp_stageJournal (hown : P.Owns d₀)
    (hout : ∀ f ∈ files, ¬ transactionRoot P.root <+: joinRoot P.root f.path) :
    wp txMachine
      (fun r d' => match r with
        | .ok (some journal) => ∃ T : Txn digest P.root, Publishes digest P files d₀ T ∧
            journal = T.journal ∧ T.Progress [] T.changes d' ∧ P.Logged T false d'
        | _ => P.Unlogged d')
      (Sound digest P files d₀) (stageJournal digest P files) d₀ := by
  refine wp_look (readOnly_sys Disk.reads_poll) (.inl hown.unlogged) (fun _ _ => ?_)
    fun e => hown.unlogged
  have hinit : Staged digest P files d₀ [] d₀ :=
    ⟨Layout.nil, hown.holds, fun c hc => absurd hc not_mem_nil,
      fun c hc => absurd hc not_mem_nil⟩
  refine Prog.wp_bind ((wp_stageFiles hout _ none [] d₀ (fun f hf => (mem_insertionSort _).mp hf)
    (pairwise_sorted files) (fun c hc => absurd hc not_mem_nil) nofun
    hinit).mono (fun r d₁ _ h₁ => ?_) fun _ => .inl)
  cases r with
  | error e => exact h₁.1
  | ok es =>
    obtain ⟨hdistinct, cs, rfl, hst⟩ := h₁.2 es rfl
    simp only [map_eq_nil_iff]
    split
    · exact ⟨.inl h₁.1, h₁.1⟩
    rename_i hne
    have htop : d₁.node (journalPath P.root).dropLast = some .dir := by
      rw [journalPath, dropLast_concat]
      exact Disk.node_of_dir hst.holds.here (prefix_append _ _)
    refine wp_writeFile htop (fun d₂ hlog _ => .inl (h₁.1.congr hlog))
      (fun d₂ hlog hnode hsame => ?_) fun e d₂ hlog _ => h₁.1.congr hlog
    have hprog := hst.progress hown hne hnode hsame
    have hpub : Publishes digest P files d₀ (txn hst) :=
      ⟨rfl, rfl, rfl, rfl, hne, hst.layout.base, hst.source, hst.differ, fun f hf f' hf' =>
        hdistinct.unique ((mem_insertionSort _).mpr hf) ((mem_insertionSort _).mpr hf')⟩
    have hlogged : P.Logged (txn hst) false d₂ := by
      refine ⟨fun x hx => ?_, iff_of_false ?_ (fun h => by cases h), fun _ => ?_, fun _ => ?_⟩
      · rw [hlog] at hx
        rcases mem_cons.mp hx with hx | hx
        · exact (Prod.mk.inj hx).2
        · exact absurd rfl (h₁.1 _ hx).1
      · rintro ⟨x, hx⟩
        rw [hlog] at hx
        rcases mem_cons.mp hx with hx | hx
        · exact P.journalPath_ne_receipt (Prod.mk.inj hx).1.symm
        · exact absurd rfl (h₁.1 _ hx).2
      · rw [hsame _ (Txn.top_ne_artifact (T := txn hst) (cons_ne_nil _ _)).symm]
        exact hst.holds.backups.trans (if_neg hne)
      · rw [hsame _ (Txn.top_ne_artifact (T := txn hst) (cons_ne_nil _ _)).symm]
        exact hst.holds.staged
    exact ⟨.inr ⟨_, hpub, false, .inl hprog.opened, hlogged⟩, txn hst, hpub, rfl, hprog, hlogged⟩

section

variable {T : Txn digest P.root}

def Running (P : Publisher) (T : Txn digest P.root) (committed : Bool) (d : Disk Data) : Prop :=
  T.Within committed d ∧ P.Logged T committed d

theorem wp_commit (hpub : Publishes digest P files d₀ T) (h : T.Progress [] T.changes d)
    (hlogged : P.Logged T false d) :
    wp txMachine
      (fun r d' => match r with
        | .ok () => T.Sealed d' ∧ P.Logged T true d'
        | .error _ => T.Open d' ∧ P.Logged T false d')
      (fun d' => ∃ committed, P.Running T committed d')
      (do
        publishEntries digest P T.journal.entries
        sys (.writeFile P.receipt committedMark)) d := by
  rw [T.entries_eq]
  refine Prog.wp_bind ((Txn.wp_each rfl (fun _ _ => rfl) (fun c hc _ _ =>
      Txn.wp_publishEntry (T.recorded c hc) (Txn.apart hc)) T.changes [] d rfl h).mono
    (fun r d₁ _ h₁ => ?_)
    fun d₁ h₁ => ⟨false, .inl h₁.1, hlogged.keeps h₁.2⟩)
  have hlogged₁ := hlogged.keeps h₁.1.2
  have hopen₁ := h₁.1.1
  cases r with
  | error e => exact ⟨hopen₁, hlogged₁⟩
  | ok _ =>
    have hpresent : d₁.node (journalPath P.root) ≠ none := by
      rw [hopen₁.journal]
      exact Option.some_ne_none _
    have hdir : d₁.node P.receipt.dropLast = some .dir := by
      rw [receipt, dropLast_concat, ← hpub.directory]
      exact Disk.node_of_dir (hlogged₁.backups hpresent) (prefix_append _ _)
    have hsame : ∀ d₂ : Disk Data, d₂.log = d₁.log → (∀ q, d₂.node q = d₁.node q) →
        T.Open d₂ ∧ P.Logged T false d₂ := by
      intro d₂ hlog hnode
      refine ⟨⟨hopen₁.toMeta.mono (hnode _) (.inl (hnode _)) (.inl (hnode _))
        (.inl (hnode _)), hopen₁.toPresent.congr fun q _ => hnode q,
        (hnode _).trans hopen₁.receipt, fun c hc =>
          (hopen₁.safe c hc).congr (hnode _) (hnode _)⟩, ?_⟩
      exact hlogged₁.keeps ⟨hlog, fun q _ _ _ _ _ => hnode q, .inl (hnode _), fun _ _ => hnode _,
        .inl (hnode _)⟩
    refine Prog.wp_bind_ret.mp (wp_writeFile hdir (fun d₂ hlog hnode => ?_)
      (fun d₂ hlog hnode hne => ?_) fun _ => hsame)
    · obtain ⟨hopen₂, hlogged₂⟩ := hsame d₂ hlog hnode
      exact ⟨false, .inl hopen₂, hlogged₂⟩
    · rw [← hpub.receipt] at hnode hne
      have hsealed : T.Sealed d₂ := hopen₁.seal hpub.named (h₁.2 rfl).installed hnode hne
      have hlogged₂ : P.Logged T true d₂ := by
        refine ⟨fun x hx => hlogged₁.1 x ?_, iff_of_true ⟨committedMark, ?_⟩ rfl, fun _ => ?_,
          fun _ => ?_⟩
        · rw [hlog] at hx
          exact (mem_cons.mp hx).resolve_left fun heq =>
            P.journalPath_ne_receipt (Prod.mk.inj heq).1
        · rw [hlog]
          exact mem_cons_self
        · rw [hne _ (Txn.receipt_ne_artifact (by decide))]
          exact hlogged₁.backups hpresent
        · rw [hne _ (Txn.receipt_ne_artifact (by decide))]
          exact hlogged₁.staged hpresent
      exact ⟨⟨true, .inl hsealed, hlogged₂⟩, hsealed, hlogged₂⟩

theorem wp_rollback (h : T.Open d) (hlogged : P.Logged T false d) (cause : TxError) :
    wp txMachine (fun r d' => P.Running T false d' ∧ r ≠ .ok ())
      (P.Running T false) (rollback digest P cause) d := by
  have hwithin : T.Within false d := .inl h
  have hforeign : T.Foreign true false (inspectOwnerState P.process) := .inl rfl
  refine Prog.wp_bind (Prog.wp_attempt ((Txn.wp_recover hforeign hwithin).mono
    (fun r d₁ _ h₁ => ?_) fun d₁ h₁ => ⟨h₁.1, hlogged.keeps h₁.2⟩))
  have hrun : P.Running T false d₁ := ⟨h₁.1.1, hlogged.keeps h₁.1.2⟩
  cases r with
  | ok | error => exact ⟨hrun, hrun, nofun⟩

theorem wp_publishJournaled (hpub : Publishes digest P files d₀ T)
    (h : T.Progress [] T.changes d) (hlogged : P.Logged T false d) :
    wp txMachine
      (fun r d' => (∃ committed, P.Running T committed d') ∧
        (r = .ok () → T.Settled true d' ∧ P.Logged T true d'))
      (fun d' => ∃ committed, P.Running T committed d')
      (publishJournaled digest P T.journal) d := by
  refine Prog.wp_bind (Prog.wp_attempt ((wp_commit hpub h hlogged).mono (fun r d₁ _ h₁ => ?_)
    fun _ h => h))
  cases r with
  | ok _ =>
    obtain ⟨hsealed, hlogged₁⟩ := h₁
    have hrun : ∃ committed, P.Running T committed d₁ := ⟨true, .inl hsealed, hlogged₁⟩
    refine Prog.wp_bind_ret.mp (wp_remove hrun (fun d₂ _ h₂ => ?_) fun e => ⟨hrun, nofun⟩)
    have hsettled : T.Settled true d₂ :=
      Txn.settled_of_removed hsealed.toMeta hsealed.installed h₂
    have hlogged₂ := hlogged₁.keeps (.of_journal h₂)
    exact ⟨⟨true, .inr hsettled, hlogged₂⟩, ⟨true, .inr hsettled, hlogged₂⟩,
      fun _ => ⟨hsettled, hlogged₂⟩⟩
  | error e =>
    exact (wp_rollback h₁.1 h₁.2 e).mono (fun r d₂ _ h₂ => ⟨⟨false, h₂.1⟩, fun hr => absurd hr h₂.2⟩)
      fun d₂ h₂ => ⟨false, h₂⟩

end

theorem wp_publishOwned (hown : P.Owns d₀)
    (hout : ∀ f ∈ files, ¬ transactionRoot P.root <+: joinRoot P.root f.path) :
    wp txMachine
      (fun r d' => Sound digest P files d₀ d' ∧ (r = .ok () → P.Unlogged d' ∨
        ∃ T : Txn digest P.root, Publishes digest P files d₀ T ∧ T.Settled true d' ∧
          P.Logged T true d'))
      (Sound digest P files d₀) (publishOwned digest P files) d₀ := by
  refine Prog.wp_bind (Prog.wp_attempt ((wp_stageJournal hown hout).mono (fun r d₁ _ h₁ => ?_)
    fun _ h => h))
  rcases r with e | (_ | journal)
  · refine Prog.wp_bind ((wp_cleanup_unlogged h₁).mono (fun r d₂ _ h₂ => ?_) fun d₂ h₂ =>
      .inl h₂)
    rw [h₂.2]
    exact ⟨.inl h₂.1, .inl h₂.1, nofun⟩
  · exact (wp_cleanup_unlogged h₁).mono (fun r d₂ _ h₂ => ⟨.inl h₂.1, fun _ => .inl h₂.1⟩)
      fun _ => .inl
  · obtain ⟨T, hpub, rfl, hprog, hlogged⟩ := h₁
    have hsound : ∀ d, (∃ committed, P.Running T committed d) → Sound digest P files d₀ d :=
      fun d ⟨committed, hrun⟩ => .inr ⟨T, hpub, committed, hrun⟩
    refine Prog.wp_bind ((wp_publishJournaled hpub hprog hlogged).mono (fun r d₂ _ h₂ => ?_)
      hsound)
    cases r with
    | error e => exact ⟨hsound d₂ h₂.1, nofun⟩
    | ok _ =>
      obtain ⟨hsettled, hlogged₂⟩ := h₂.2 rfl
      have hclear := Txn.wp_clear hsettled
      rw [hpub.directory] at hclear
      refine hclear.mono (fun r d₃ _ h₃ => ?_) fun d₃ h₃ => ?_
      · have hlogged₃ := hlogged₂.keeps h₃.2.1
        exact ⟨hsound d₃ ⟨true, .inr h₃.1, hlogged₃⟩, fun _ => .inr ⟨T, hpub, h₃.1, hlogged₃⟩⟩
      · exact hsound d₃ ⟨true, .inr h₃.1, hlogged₂.keeps h₃.2⟩

/-! ## `PublishContext` and the recoveries after it -/

theorem runs_publishContext {attempts : ℕ}
    (h : Prog.Runs txMachine (publishContext digest P attempts files) d₀ (.ok ()) d) :
    ∃ dₗ, Prog.Runs txMachine (acquire digest P attempts) d₀ (.ok ()) dₗ ∧
      Prog.Runs txMachine (publishOwned digest P files) dₗ (.ok ()) d := by
  obtain ⟨_, d₁, hpoll, hrest⟩ := Prog.runs_bind_ok h
  obtain rfl := (readOnly_sys Disk.reads_poll).runs hpoll
  obtain ⟨_, dₗ, hacquire, howned⟩ := Prog.runs_bind_ok hrest
  exact ⟨dₗ, hacquire, howned⟩

theorem crash_publishContext {attempts : ℕ} (hready : Ready digest P.root d₀)
    (hun : P.Unlogged d₀)
    (h : Prog.Crash txMachine (publishContext digest P attempts files) d₀ d) :
    P.Unlogged d ∨ ∃ dₗ, Prog.Runs txMachine (acquire digest P attempts) d₀ (.ok ()) dₗ ∧
      Prog.Crash txMachine (publishOwned digest P files) dₗ d := by
  rcases Prog.crash_bind h with hpoll | ⟨_, d₁, hpoll, hrest⟩
  · have hwp : wp txMachine (fun _ _ => True) P.Unlogged (sys (.poll : Op Data)) d₀ :=
      (readOnly_sys Disk.reads_poll).wp hun fun _ _ => trivial
    exact .inl (hwp.crash hpoll)
  obtain rfl := (readOnly_sys Disk.reads_poll).runs hpoll
  rcases Prog.crash_bind hrest with hacquire | ⟨_, dₗ, hacquire, howned⟩
  · exact .inl ((hready.wp_acquire attempts hun).crash hacquire)
  · exact .inr ⟨dₗ, hacquire, howned⟩

end Publisher

structure RecoveryCall where
  process : Process
  force : Bool
  currentOwnerRead : Bool

namespace RecoveryCall

def program (digest : Data → String) (root : Path) (call : RecoveryCall) : TxProg Unit :=
  if call.force then forceRecover digest root call.process
  else recoverOrReject digest root call.currentOwnerRead call.process

def Outside (owner : Owner) (call : RecoveryCall) : Prop :=
  call.currentOwnerRead → owner.createdBy ≠ call.process.token

theorem wp_program {digest : Data → String} {root : Path} {T : Txn digest root} {committed : Bool}
    {d : Disk Data} {call : RecoveryCall} (hcall : call.Outside T.journal.owner)
    (h : T.Within committed d) :
    wp txMachine
      (fun r d' => (T.Within committed d' ∧ T.Keeps d d') ∧
        (r = .ok () → T.Settled committed d'))
      (fun d' => T.Within committed d' ∧ T.Keeps d d') (call.program digest root) d := by
  unfold program
  split
  · exact Txn.wp_recover (.inl rfl) h
  · refine Txn.wp_recover (.inr ?_) h
    by_cases hread : call.currentOwnerRead
    · exact .inr (inspectOwnerState_ne_current (hcall hread))
    · exact .inl hread

end RecoveryCall

def Recoveries (digest : Data → String) (root : Path) (owner : Owner) :
    Disk Data → Disk Data → Prop :=
  Relation.ReflTransGen fun d d' => ∃ call : RecoveryCall, call.Outside owner ∧
    Prog.Crash txMachine (call.program digest root) d d'

theorem Recoveries.within {digest : Data → String} {root : Path} {T : Txn digest root}
    {committed : Bool} {d d' : Disk Data}
    (hrec : Recoveries digest root T.journal.owner d d') (h : T.Within committed d) :
    T.Within committed d' ∧ T.Keeps d d' := by
  induction hrec with
  | refl => exact ⟨h, .refl T d⟩
  | tail _ hlast ih =>
    obtain ⟨call, hcall, hcrash⟩ := hlast
    obtain ⟨hwithin, hkeeps⟩ := (RecoveryCall.wp_program hcall ih.1).crash hcrash
    exact ⟨hwithin, ih.2.trans hkeeps⟩

namespace Publisher

variable {digest : Data → String} {P : Publisher} {files : List File} {d₀ d : Disk Data}

/-- Publishing these files has journaled `j`, and it, or a recovery after it was cut off, has
returned without an error. -/
inductive Returned (digest : Data → String) (P : Publisher) (attempts : ℕ) (files : List File)
    (d₀ : Disk Data) (j : Journal) : Disk Data → Prop where
  | published {d : Disk Data} :
      Prog.Runs txMachine (publishContext digest P attempts files) d₀ (.ok ()) d →
      (journalPath P.root, .journal j) ∈ d.log →
      Returned digest P attempts files d₀ j d
  | recovered {d₁ d₂ d : Disk Data} (call : RecoveryCall) :
      Prog.Crash txMachine (publishContext digest P attempts files) d₀ d₁ →
      (journalPath P.root, .journal j) ∈ d₁.log →
      Recoveries digest P.root P.owner d₁ d₂ → call.Outside P.owner →
      Prog.Runs txMachine (call.program digest P.root) d₂ (.ok ()) d →
      Returned digest P attempts files d₀ j d

def AllBefore (P : Publisher) (journal : Journal) (d₀ d : Disk Data) : Prop :=
  ∀ e ∈ journal.entries, d.node (joinRoot P.root e.path) = d₀.node (joinRoot P.root e.path)

def AllAfter (P : Publisher) (journal : Journal) (files : List File) (d : Disk Data) : Prop :=
  ∀ e ∈ journal.entries, ∃ f ∈ files, f.path = e.path ∧
    d.node (joinRoot P.root e.path) = fileAt f.after

def MarkerWritten (P : Publisher) (d : Disk Data) : Prop := ∃ x, (P.receipt, x) ∈ d.log

theorem Unlogged.not_durable (h : P.Unlogged d) (x : Data) : (journalPath P.root, x) ∉ d.log :=
  fun hx => (h _ hx).1 rfl

theorem Returned.settled {attempts : ℕ} {j : Journal}
    (h : Returned digest P attempts files d₀ j d) (hready : Ready digest P.root d₀)
    (hun : P.Unlogged d₀)
    (hout : ∀ f ∈ files, ¬ transactionRoot P.root <+: joinRoot P.root f.path) :
    ∃ dₗ, Prog.Runs txMachine (acquire digest P attempts) d₀ (.ok ()) dₗ ∧
      ∃ T : Txn digest P.root, Publishes digest P files dₗ T ∧ T.journal = j ∧
        ∃ committed, T.Settled committed d ∧ P.Logged T committed d := by
  have howns : ∀ dₗ, Prog.Runs txMachine (acquire digest P attempts) d₀ (.ok ()) dₗ → P.Owns dₗ :=
    fun dₗ hacquire => ((hready.wp_acquire attempts hun).runs hacquire).2 rfl
  cases h with
  | published hrun hdurable =>
    obtain ⟨dₗ, hacquire, howned⟩ := runs_publishContext hrun
    obtain ⟨-, hret⟩ := (wp_publishOwned (howns dₗ hacquire) hout).runs howned
    rcases hret rfl with hun' | ⟨T, hpub, hsettled, hlogged⟩
    · exact absurd hdurable (hun'.not_durable _)
    · exact ⟨dₗ, hacquire, T, hpub, (Data.journal.inj (hlogged.1 _ hdurable)).symm, true, hsettled,
        hlogged⟩
  | recovered call hcrash hdurable hrec hcall hrun =>
    rcases crash_publishContext hready hun hcrash with hun' | ⟨dₗ, hacquire, howned⟩
    · exact absurd hdurable (hun'.not_durable _)
    rcases (wp_publishOwned (howns dₗ hacquire) hout).crash howned with
      hun' | ⟨T, hpub, committed, hwithin, hlogged⟩
    · exact absurd hdurable (hun'.not_durable _)
    · rw [← hpub.owner] at hrec hcall
      obtain ⟨hwithin₂, hkeeps₂⟩ := hrec.within hwithin
      obtain ⟨⟨-, hkeeps⟩, hsettled⟩ := (RecoveryCall.wp_program hcall hwithin₂).runs hrun
      exact ⟨dₗ, hacquire, T, hpub, (Data.journal.inj (hlogged.1 _ hdurable)).symm, committed,
        hsettled rfl, hlogged.keeps (hkeeps₂.trans hkeeps)⟩

section

variable {T : Txn digest P.root}

section

variable (hpub : Publishes digest P files d₀ T)
include hpub

theorem Publishes.allBefore (hs : T.Settled false d) :
    P.AllBefore T.journal d₀ d := by
  intro e he
  rw [T.entries_eq] at he
  obtain ⟨c, hc, rfl⟩ := mem_map.mp he
  exact (hs.targets c hc).trans (hpub.base c hc).symm

theorem Publishes.allAfter (hs : T.Settled true d) :
    P.AllAfter T.journal files d := by
  intro e he
  rw [T.entries_eq] at he
  obtain ⟨c, hc, rfl⟩ := mem_map.mp he
  obtain ⟨f, hf, hpath, hafter⟩ := hpub.source c hc
  exact ⟨f, hf, hpath, (hs.targets c hc).trans (congrArg fileAt hafter)⟩

theorem Publishes.not_allAfter (hs : T.Settled false d) :
    ¬ P.AllAfter T.journal files d := by
  intro hall
  obtain ⟨c, hc⟩ := exists_mem_of_ne_nil _ hpub.nonempty
  obtain ⟨f, hf, hpath, hafter⟩ := hpub.source c hc
  obtain ⟨f', hf', hpath', hnode⟩ := hall c.entry (T.entries_eq ▸ mem_map_of_mem hc)
  obtain rfl := hpub.unique f hf f' hf' (hpath.trans hpath'.symm)
  have hbefore : d.node (joinRoot P.root c.entry.path) = fileAt c.before := hs.targets c hc
  rw [hnode, ← hafter] at hbefore
  exact hpub.differ c hc (Option.map_injective (fun _ _ => Node.file.inj) hbefore).symm

end

theorem Publishes.base_eq {attempts : ℕ} {dₗ : Disk Data} (hpub : Publishes digest P files dₗ T)
    (hjournal : ∀ j, d₀.node (journalPath P.root) ≠ some (.file (.journal j)))
    (hun : P.Unlogged d₀)
    (hacquire : Prog.Runs txMachine (acquire digest P attempts) d₀ (.ok ()) dₗ) :
    P.AllBefore T.journal d₀ dₗ := by
  intro e he
  rw [T.entries_eq] at he
  obtain ⟨c, hc, rfl⟩ := mem_map.mp he
  have hbase : dₗ.node (joinRoot P.root c.entry.path) = fileAt c.before := hpub.base c hc
  obtain ⟨-, hsame⟩ := ((wp_acquire attempts hjournal hun).runs hacquire).2 rfl
  rcases hsame _ (T.recorded c hc).outside with heq | hdir
  · exact heq
  · rw [Change.target, hbase] at hdir
    exact absurd hdir (fileAt_ne_dir _)

end

/-- **Publication is atomic over crashes.** When `PublishContext`, or a recovery after any
crashes of it and of other recoveries, returns without an error, the journaled paths hold
all that they held when the lock was taken or all that was to be published, and the latter
exactly when the committed marker was written. What they held then is what they held when
`PublishContext` was called, unless it had to recover another transaction first. -/
theorem returned_all_or_nothing {attempts : ℕ} {j : Journal} (hready : Ready digest P.root d₀)
    (hlog : d₀.log = [])
    (hout : ∀ f ∈ files, ¬ transactionRoot P.root <+: joinRoot P.root f.path)
    (h : Returned digest P attempts files d₀ j d) :
    ∃ dₗ, Prog.Runs txMachine (acquire digest P attempts) d₀ (.ok ()) dₗ ∧
      ((∀ j, d₀.node (journalPath P.root) ≠ some (.file (.journal j))) → P.AllBefore j d₀ dₗ) ∧
      (P.AllBefore j dₗ d ∨ P.AllAfter j files d) ∧
      (P.AllAfter j files d ↔ P.MarkerWritten d) := by
  have hun : P.Unlogged d₀ := fun e he => absurd (hlog ▸ he) not_mem_nil
  obtain ⟨dₗ, hacquire, T, hpub, rfl, committed, hsettled, hlogged⟩ := h.settled hready hun hout
  refine ⟨dₗ, hacquire, fun hjournal => hpub.base_eq hjournal hun hacquire, ?_⟩
  cases committed with
  | true =>
    have hafter := hpub.allAfter hsettled
    exact ⟨.inr hafter, iff_of_true hafter (hlogged.2.mpr rfl)⟩
  | false =>
    refine ⟨.inl (hpub.allBefore hsettled), iff_of_false (hpub.not_allAfter hsettled) ?_⟩
    exact fun hmark => by cases hlogged.2.mp hmark

instance (P : Publisher) (journal : Journal) (d₀ d : Disk Data) :
    Decidable (P.AllBefore journal d₀ d) :=
  inferInstanceAs (Decidable (∀ e ∈ journal.entries, _ = _))

instance (P : Publisher) (journal : Journal) (files : List File) (d : Disk Data) :
    Decidable (P.AllAfter journal files d) :=
  inferInstanceAs (Decidable (∀ e ∈ journal.entries, ∃ f ∈ files, f.path = e.path ∧ _ = _))

end Publisher

/-! ## A small workspace

One file, a process that publishes and one that finds it dead afterwards. -/

namespace Sample

def digest : Data → String
  | .bytes bytes => String.ofList (bytes.map fun x => Char.ofNat (x.toNat + 65))
  | _ => "record"

def owner : Owner := ⟨7, "09:00", "scenery", "cmdline", "seven"⟩

def publisher : Publisher := ⟨[], "1", owner, ⟨7, "seven", fun _ => (owner, .live)⟩⟩

def successor : Process := ⟨8, "eight", fun _ => (owner, .dead)⟩

def recovery : RecoveryCall := ⟨successor, false, false⟩

def tree : Disk Data := (Disk.blank.openFile ["a"] (.bytes [0])).2

theorem ready_tree : Publisher.Ready digest publisher.root tree := by
  left
  intro j hj
  cases hj

theorem outside_recovery : recovery.Outside publisher.owner := nofun

def overwrite : File := ⟨["a"], [1], false, ""⟩

def overwriteJournal : Journal :=
  publisher.journal [newEntry digest publisher 0 overwrite (some (.bytes [0]))]

def addition : File := ⟨["b"], [2], false, ""⟩

def mixedJournal : Journal :=
  publisher.journal [newEntry digest publisher 0 overwrite (some (.bytes [0])),
    newEntry digest publisher 1 addition none]

/-- The first of two files is in place, the second is not. -/
def mixed : Disk Data :=
  Prog.stop txMachine 37 (publishContext digest publisher 1 [overwrite, addition]) tree

def gateRemoval : File := ⟨[".scenery", "transactions", "recovery.lock"], [], true, ""⟩

def gateJournal : Journal :=
  publisher.journal [newEntry digest publisher 0 gateRemoval (some (.bytes [])),
    newEntry digest publisher 1 overwrite (some (.bytes [0]))]

def gateCommitted : Disk Data :=
  Prog.stop txMachine 44 (publishContext digest publisher 1 [gateRemoval, overwrite]) tree

end Sample

namespace Publisher

open Sample in
theorem returned_all_or_nothing_mixed :
    mixed.node ["a"] = some (.file (.bytes [1])) ∧ mixed.node ["b"] = none ∧
    ∃ d, Prog.Runs txMachine (recovery.program digest []) mixed (.ok ()) d ∧
      ∃ dₗ, Prog.Runs txMachine (acquire digest publisher 1) tree (.ok ()) dₗ ∧
        ((∀ j, tree.node (journalPath publisher.root) ≠ some (.file (.journal j))) →
          publisher.AllBefore mixedJournal tree dₗ) ∧
        (publisher.AllBefore mixedJournal dₗ d ∨
          publisher.AllAfter mixedJournal [overwrite, addition] d) ∧
        (publisher.AllAfter mixedJournal [overwrite, addition] d ↔ publisher.MarkerWritten d) := by
  have hrun := Prog.runs_run (M := txMachine) (recovery.program digest []) mixed
  refine ⟨by decide +kernel, by decide +kernel, _, hrun, ?_⟩
  refine returned_all_or_nothing ready_tree rfl (by decide) (.recovered recovery
    (Prog.crash_stop 37 _ tree) ?_ .refl outside_recovery hrun)
  decide +kernel

open Sample in
/-- Removing the gate file of recovery together with an overwrite is not atomic: recovery
opens the gate, and thereby creates it again, before it looks at the journal. -/
theorem gate_removal_not_atomic :
    ∃ d, Returned digest publisher 1 [gateRemoval, overwrite] tree gateJournal d ∧
      ¬ publisher.AllBefore gateJournal tree d ∧
      ¬ publisher.AllAfter gateJournal [gateRemoval, overwrite] d ∧ publisher.MarkerWritten d := by
  have hrun := Prog.runs_run (M := txMachine) (recovery.program digest []) gateCommitted
  rw [show (run txMachine (recovery.program digest []) gateCommitted).1 = .ok () by
    decide +kernel] at hrun
  refine ⟨_, .recovered recovery (Prog.crash_stop 44 _ tree) ?_ .refl outside_recovery hrun, ?_, ?_,
    committedMark, ?_⟩
  all_goals decide +kernel

end Publisher

end Scenery
