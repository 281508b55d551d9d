import Scenery.Recover

/-!
# Rules for the steps of the transaction code

Recovery looks at the tree before it changes anything: it resolves paths, reads records and
validates them.
-/

namespace Scenery

open Prog (call ReadOnly wp run)

abbrev txMachine : Machine (Op Data) Op.Reply (Disk Data) := Disk.machine

variable {α β : Type} {d d' : Disk Data} {I : Disk Data → Prop}

/-! ## Single operations -/

variable {o : Op Data}

theorem readOnly_sys (h : txMachine.Reads o) : ReadOnly txMachine (sys o) := by
  refine ⟨h, fun x => ?_⟩
  cases x <;> trivial

theorem readOnly_lstat (p : Path) : ReadOnly txMachine (lstat p) :=
  ⟨Disk.reads_lstat p, fun _ => trivial⟩

theorem readOnly_unlessMissing {p : TxProg Unit} (h : ReadOnly txMachine p) :
    ReadOnly txMachine (unlessMissing p) := by
  refine h.attempt.bind fun r => ?_
  split <;> trivial

variable {Q : Except TxError α → Disk Data → Prop}

theorem wp_sys {f : o.Result → TxProg α} (hcut : ∀ d', txMachine.cut o d d' → I d')
    (hok : ∀ x d', txMachine.Step o d (.ok x) d' → wp txMachine Q I (f x) d')
    (herr : ∀ e d', txMachine.Step o d (.error e) d' → I d' ∧ Q (.error (.sys e)) d') :
    wp txMachine Q I ((sys o).bind f) d := by
  refine ⟨hcut, fun x d' hs => ?_⟩
  cases x with
  | ok x => exact hok x d' hs
  | error e => exact herr e d' hs

theorem wp_call {f : o.Reply → TxProg α} (hcut : ∀ d', txMachine.cut o d d' → I d')
    (hstep : ∀ x d', txMachine.Step o d x d' → wp txMachine Q I (f x) d') :
    wp txMachine Q I ((call o).bind f) d := ⟨hcut, hstep⟩

variable {p : Path}

theorem wp_lstat {f : Except Errno Info → TxProg α} (hI : I d)
    (h : wp txMachine Q I (f (d.lstat p)) d) : wp txMachine Q I ((lstat p).bind f) d := by
  refine wp_call (fun d' hc => ?_) fun x d' hs => ?_
  · obtain rfl : d' = d := hc
    exact hI
  · obtain ⟨rfl, rfl⟩ := Disk.step_lstat hs
    exact h

theorem wp_look {Q : Except TxError β → Disk Data → Prop} {p : TxProg α} {f : α → TxProg β}
    (hp : ReadOnly txMachine p) (hI : I d)
    (hok : ∀ a, Prog.Runs txMachine p d (.ok a) d → wp txMachine Q I (f a) d)
    (herr : ∀ e, Q (.error e) d) : wp txMachine Q I (p.bind f) d := by
  refine Prog.wp_bind (hp.wp hI fun r hr => ?_)
  cases r with
  | ok a => exact hok a hr
  | error e => exact herr e

theorem wp_look_attempt {Q : Except TxError β → Disk Data → Prop} {p : TxProg α}
    {f : Except TxError α → TxProg β} (hp : ReadOnly txMachine p) (hI : I d)
    (h : ∀ r, Prog.Runs txMachine p d r d → wp txMachine Q I (f r) d) :
    wp txMachine Q I (p.attempt.bind f) d :=
  Prog.wp_bind (Prog.wp_attempt (hp.wp hI h))

theorem runs_lstat {x : Except Errno Info} (h : Prog.Runs txMachine (lstat p) d (.ok x) d') :
    d' = d ∧ x = d.lstat p := by
  obtain ⟨y, d₁, hs, hx, rfl⟩ := h
  obtain ⟨rfl, rfl⟩ := Disk.step_lstat hs
  exact ⟨rfl, Except.ok.inj hx⟩

variable {y : Data}

theorem runs_readFile (h : Prog.Runs txMachine (sys (.readFile p)) d (.ok y) d') :
    d' = d ∧ d.node p = some (.file y) := by
  obtain ⟨x, d₁, hs, hrest⟩ := h
  obtain ⟨rfl, hx⟩ := Disk.step_readFile hs
  cases x with
  | error e => cases hrest.1
  | ok z =>
    obtain ⟨hz, rfl⟩ := hrest
    cases hz
    exact ⟨rfl, Disk.readFile_ok (hx.resolve_right nofun).symm⟩

variable {f : Unit → TxProg α}

theorem wp_remove (hI : I d)
    (hok : ∀ d', d.node p ≠ some .dir → Disk.Removed p d d' →
      wp txMachine Q I (f ()) d') (herr : ∀ e, Q (.error (.sys e)) d) :
    wp txMachine Q I ((sys (.remove p)).bind f) d := by
  refine wp_sys (fun d' hc => ?_) (fun x d' hs => ?_) fun e d' hs => ?_
  · obtain rfl : d' = d := hc
    exact hI
  · rcases Disk.step_remove hs with ⟨-, hlog, hdir, hnone, hne⟩ | ⟨⟨e, he, -⟩, -⟩
    · exact hok d' hdir ⟨hlog, hnone, hne⟩
    · cases he
  · rcases Disk.step_remove hs with ⟨he, -⟩ | ⟨-, rfl⟩
    · cases he
    · exact ⟨hI, herr e⟩

theorem wp_removeMissing (hI : I d)
    (hok : ∀ d', Disk.Removed p d d' → I d' ∧ wp txMachine Q I (f ()) d')
    (herr : ∀ e, Q (.error e) d) :
    wp txMachine Q I ((unlessMissing (sys (.remove p))).bind f) d := by
  refine Prog.wp_bind (Prog.wp_bind (Prog.wp_attempt ⟨fun d' hc => ?_, fun x d' hs => ?_⟩))
  · obtain rfl : d' = d := hc
    exact hI
  · rcases Disk.step_remove hs with ⟨rfl, hlog, -, hnone, hne⟩ | ⟨⟨e, rfl, he⟩, rfl⟩
    · have hd' := hok d' ⟨hlog, hnone, hne⟩
      exact ⟨hd'.1, hd'⟩
    · refine ⟨hI, ?_⟩
      by_cases hmissing : e = .notExist
      · subst hmissing
        exact hok d' ⟨rfl, he rfl, fun _ _ => rfl⟩
      · cases e
        case notExist => exact absurd rfl hmissing
        all_goals exact ⟨hI, herr _⟩

theorem wp_rename {p q : Path} (hI : I d)
    (hok : ∀ y d', d.node p = some (.file y) → d.Writable q → d'.log = d.log →
      (∀ r, d'.node r = if r = q then some (.file y) else if r = p then none else d.node r) →
      wp txMachine Q I (f ()) d') (herr : ∀ e, Q (.error (.sys e)) d) :
    wp txMachine Q I ((sys (.rename p q)).bind f) d := by
  refine wp_sys (fun d' hc => ?_) (fun x d' hs => ?_) fun e d' hs => ?_
  · obtain rfl : d' = d := hc
    exact hI
  · rcases Disk.step_rename hs with ⟨-, hlog, hw, y, hy, hnode⟩ | ⟨⟨e, he⟩, -⟩
    · exact hok y d' hy hw hlog hnode
    · cases he
  · rcases Disk.step_rename hs with ⟨he, -⟩ | ⟨-, rfl⟩
    · cases he
    · exact ⟨hI, herr e⟩

theorem wp_createFile {x : Data} {f : Op.Reply (.createExcl p x) → TxProg α} (hI : I d)
    (hok : ∀ d', d.node p = none → Disk.Placed p x d d' → wp txMachine Q I (f (.ok ())) d')
    (herr : ∀ e, wp txMachine Q I (f (.error e)) d) :
    wp txMachine Q I ((call (.createExcl p x)).bind f) d := by
  refine wp_call (fun d' hc => ?_) fun y d' hs => ?_
  · obtain rfl : d' = d := hc
    exact hI
  · rcases Disk.step_createExcl hs with ⟨rfl, hnone, hplaced⟩ | ⟨⟨e, rfl⟩, rfl⟩
    · exact hok d' hnone hplaced
    · exact herr e

theorem wp_writeCreated {x : Data} {f : Op.Reply (.write p x) → TxProg α} (hI : I d)
    (hok : ∀ d', Disk.Placed p x d d' → wp txMachine Q I (f (.ok ())) d')
    (herr : ∀ e, wp txMachine Q I (f (.error e)) d) :
    wp txMachine Q I ((call (.write p x)).bind f) d := by
  refine wp_call (fun d' hc => ?_) fun y d' hs => ?_
  · obtain rfl : d' = d := hc
    exact hI
  · rcases Disk.step_write hs with ⟨rfl, -, hplaced⟩ | ⟨⟨e, rfl⟩, rfl⟩
    · exact hok d' hplaced
    · exact herr e

theorem wp_mkdirAll (hI : ∀ d', Disk.Grown p d d' → I d')
    (hok : ∀ d', Disk.Grown p d d' → (∀ q, q <+: p → d'.node q = some .dir) →
      wp txMachine Q I (f ()) d') (herr : ∀ e d', Disk.Grown p d d' → Q (.error (.sys e)) d') :
    wp txMachine Q I ((sys (.mkdirAll p)).bind f) d := by
  refine wp_sys (fun d' hc => hI d' (Disk.cut_mkdirAll hc)) (fun x d' hs => ?_) fun e d' hs => ?_
  · obtain ⟨hg, hdir⟩ := Disk.step_mkdirAll hs
    exact hok d' hg (hdir rfl)
  · obtain ⟨hg, -⟩ := Disk.step_mkdirAll hs
    exact ⟨hI d' hg, herr e d' hg⟩

theorem wp_writeFile (hdir : d.node p.dropLast = some .dir)
    (hI : ∀ d', d'.log = d.log → (∀ q, d'.node q = d.node q) → I d')
    (hok : ∀ d', d'.log = (p, y) :: d.log → d'.node p = some (.file y) →
      (∀ q, q ≠ p → d'.node q = d.node q) → wp txMachine Q I (f ()) d')
    (herr : ∀ e d', d'.log = d.log → (∀ q, d'.node q = d.node q) → Q (.error (.sys e)) d') :
    wp txMachine Q I ((sys (.writeFile p y)).bind f) d := by
  refine wp_sys (fun d' hc => ?_) (fun x d' hs => ?_) fun e d' hs => ?_
  · have hg := Disk.cut_writeFile hc
    exact hI d' hg.log fun q => hg.of_dir hdir
  · rcases Disk.step_writeFile hs with ⟨-, hlog, hnode, -, -, hrest⟩ | ⟨⟨e, he⟩, -⟩
    · refine hok d' hlog hnode fun q hq => ?_
      rcases hrest q hq with heq | ⟨hnone, -, hpre⟩
      · exact heq
      · rw [Disk.node_of_dir hdir hpre] at hnone
        cases hnone
    · cases he
  · rcases Disk.step_writeFile hs with ⟨he, -⟩ | ⟨-, hg⟩
    · cases he
    · exact ⟨hI d' hg.log fun q => hg.of_dir hdir, herr e d' hg.log fun q => hg.of_dir hdir⟩

theorem wp_remove_ignored {f : Op.Reply (δ := Data) (.remove p) → TxProg α} (hI : I d)
    (hok : ∀ x d', d' = d ∨ d.node p ≠ some .dir ∧ Disk.Removed p d d' →
      wp txMachine Q I (f x) d') :
    wp txMachine Q I ((call (.remove p)).bind f) d := by
  refine wp_call (fun d' hc => ?_) fun x d' hs => ?_
  · obtain rfl : d' = d := hc
    exact hI
  · rcases Disk.step_remove hs with ⟨-, hlog, hdir, hnone, hne⟩ | ⟨-, rfl⟩
    · exact hok x d' (.inr ⟨hdir, hlog, hnone, hne⟩)
    · exact hok x d' (.inl rfl)

theorem wp_removeAll {f : Op.Reply (δ := Data) (.removeAll p) → TxProg α}
    (hI : ∀ d', Disk.Pruned p d d' → I d')
    (hok : ∀ x d', Disk.Pruned p d d' → wp txMachine Q I (f x) d') :
    wp txMachine Q I ((call (.removeAll p)).bind f) d :=
  wp_call hI fun x d' hs => hok x d' (Disk.step_removeAll hs)

theorem run_lstat (p : Path) : run txMachine (lstat p) d = (.ok (d.lstat p), d) := rfl

theorem run_sys_ok {x : o.Result} (h : d.exec o = (.ok x, d')) :
    run txMachine (sys o) d = (.ok x, d') := by
  have h : txMachine.exec o d = (.ok x, d') := h
  simp only [sys, Prog.bind_eq, Prog.call_bind, Prog.run_op, h]
  rfl

theorem run_sys_error {e : Errno} (h : d.exec o = (.error e, d')) :
    run txMachine (sys o) d = (.error (.sys e), d') := by
  have h : txMachine.exec o d = (.error e, d') := h
  simp only [sys, Prog.bind_eq, Prog.call_bind, Prog.run_op, h]
  rfl

theorem run_removeMissing (hpar : d.node p.dropLast = some .dir) (hdir : d.node p ≠ some .dir) :
    ∃ d', run txMachine (unlessMissing (sys (.remove p))) d = (.ok (), d') ∧
      Disk.Removed p d d' := by
  unfold unlessMissing
  simp only [Prog.bind_eq, Prog.run_attempt_bind]
  by_cases hn : d.node p = none
  · rw [run_sys_error (o := .remove p) (Disk.remove_none hn), Disk.missing_of_parent hpar hn]
    exact ⟨d, rfl, rfl, hn, fun _ _ => rfl⟩
  · rw [run_sys_ok (o := .remove p) (Disk.remove_ok hn hdir)]
    exact ⟨d.erase p hdir, rfl, rfl, Disk.node_erase_self d p hdir,
      fun _ => Disk.node_erase_ne d hdir⟩

theorem run_remove (h : d.node p = some (.file y)) :
    ∃ d', run txMachine (sys (.remove p)) d = (.ok (), d') ∧ Disk.Removed p d d' := by
  have hdir : d.node p ≠ some .dir := by
    rw [h]
    exact nofun
  refine ⟨d.erase p hdir, run_sys_ok (o := .remove p) (Disk.remove_ok ?_ hdir), rfl,
    Disk.node_erase_self d p hdir, fun _ => Disk.node_erase_ne d hdir⟩
  rw [h]
  exact Option.some_ne_none _

theorem run_mkdirAll (h : d.Clear p) :
    ∃ d', run txMachine (sys (.mkdirAll p)) d = (.ok (), d') ∧ Disk.Grown p d d' :=
  ⟨_, run_sys_ok (o := .mkdirAll p) (Disk.mkdirAll_ok h), Disk.grown_mkdirs h⟩

/-! ## Paths -/

theorem readOnly_rejectParts (relative : Path) :
    ∀ (parts : List String) (current : Path),
      ReadOnly txMachine (rejectParts relative current parts)
  | [], _ => trivial
  | part :: rest, current => by
    refine (readOnly_lstat (current ++ [part])).bind fun x => ?_
    split
    · trivial
    · trivial
    · exact readOnly_rejectParts relative rest _

theorem readOnly_rejectPathSymlinks (root target : Path) :
    ReadOnly txMachine (rejectPathSymlinks root target) := by
  unfold rejectPathSymlinks
  split
  · exact readOnly_rejectParts _ _ _
  · trivial

theorem readOnly_pathExists (p : Path) : ReadOnly txMachine (pathExists p) := by
  refine (readOnly_lstat p).bind fun x => ?_
  cases x <;> trivial

theorem readOnly_regularFileBytes (p : Path) (relative : RelPath) :
    ReadOnly txMachine (regularFileBytes p relative) := by
  refine (readOnly_lstat p).bind fun x => ?_
  split
  · exact readOnly_sys (Disk.reads_readFile p)
  · trivial

theorem wp_pathExists {f : Bool → TxProg α} (hI : I d)
    (h : wp txMachine Q I (f (d.node p).isSome) d) :
    wp txMachine Q I ((pathExists p).bind f) d := by
  refine Prog.wp_bind (wp_lstat hI ?_)
  rcases hn : d.node p with _ | n
  · obtain ⟨e, he⟩ := Disk.lstat_of_none hn
    rw [hn] at h
    rw [he]
    exact ⟨hI, h⟩
  · rw [hn] at h
    rw [Disk.lstat_of_node hn]
    exact ⟨hI, h⟩

theorem runs_pathExists {b : Bool} {d d' : Disk Data}
    (h : Prog.Runs txMachine (pathExists p) d (.ok b) d') : b = (d.node p).isSome ∧ d' = d := by
  obtain ⟨x, d₁, hx, hrest⟩ := Prog.runs_bind_ok h
  obtain ⟨rfl, rfl⟩ := runs_lstat hx
  rw [Disk.lstat] at hrest
  rcases hn : d₁.node p with _ | n <;> rw [hn] at hrest
  · exact ⟨Except.ok.inj hrest.1, hrest.2⟩
  · exact ⟨Except.ok.inj hrest.1, hrest.2⟩

theorem readOnly_receiptExists (receipt : Option Path) :
    ReadOnly txMachine (receiptExists receipt) := by
  cases receipt with
  | none => trivial
  | some p => exact readOnly_pathExists p

theorem run_pathExists (p : Path) :
    run txMachine (pathExists p) d = (.ok (d.node p).isSome, d) := by
  refine (Prog.run_bind_ok (run_lstat p)).trans ?_
  rcases hn : d.node p with _ | n
  · obtain ⟨e, he⟩ := Disk.lstat_of_none hn
    rw [he]
    rfl
  · rw [Disk.lstat_of_node hn]
    rfl

theorem run_regularFileBytes (relative : RelPath) (h : d.node p = some (.file y)) :
    run txMachine (regularFileBytes p relative) d = (.ok y, d) := by
  refine (Prog.run_bind_ok (run_lstat p)).trans ?_
  rw [Disk.lstat_of_node h]
  exact run_sys_ok (Prod.ext (Disk.readFile_of_node h) rfl)

theorem run_rejectParts_ok (relative : Path) {n : Node Data} (hn : n.info ≠ .symlink) :
    ∀ (parts : List String) (current : Path), d.node (current ++ parts) = some n →
      run txMachine (rejectParts relative current parts) d = (.ok (), d)
  | [], _, _ => rfl
  | part :: rest, current, h => by
    refine (Prog.run_bind_ok (run_lstat _)).trans ?_
    have hsplit : current ++ part :: rest = current ++ [part] ++ rest := by simp
    obtain ⟨m, hm, hi⟩ : ∃ m, d.node (current ++ [part]) = some m ∧ m.info ≠ .symlink := by
      by_cases hrest : rest = []
      · subst hrest
        exact ⟨n, h, hn⟩
      · refine ⟨.dir, d.tree _ _ ⟨rest, hsplit.symm⟩ ?_ (by rw [h]; exact Option.some_ne_none n),
          nofun⟩
        exact fun heq => hrest (by simpa using heq)
    have ih := run_rejectParts_ok relative hn rest (current ++ [part]) (hsplit ▸ h)
    rw [Disk.lstat_of_node hm]
    cases hk : m.info with
    | dir | regular => exact ih
    | symlink => exact absurd hk hi

theorem run_rejectParts_missing (relative : Path) :
    ∀ (parts : List String) (current : Path), parts ≠ [] → d.node (current ++ parts) = none →
      ∃ e, run txMachine (rejectParts relative current parts) d = (.error e, d)
  | [], _, hne, _ => absurd rfl hne
  | part :: rest, current, _, h => by
    have hsplit : current ++ part :: rest = current ++ [part] ++ rest := by simp
    unfold rejectParts
    simp only [Prog.bind_eq, Prog.run_bind_ok (run_lstat _)]
    rcases hl : d.lstat (current ++ [part]) with e | i
    · exact ⟨_, rfl⟩
    · have hrest : rest ≠ [] := by
        rintro rfl
        obtain ⟨n, hn, -⟩ := Disk.lstat_ok hl
        rw [hn] at h
        cases h
      have ih := run_rejectParts_missing relative rest (current ++ [part]) hrest (hsplit ▸ h)
      cases i with
      | dir | regular => exact ih
      | symlink => exact ⟨_, rfl⟩

theorem run_rejectPathSymlinks_ok {root target : Path} {n : Node Data} (hpre : root <+: target)
    (h : d.node target = some n) (hn : n.info ≠ .symlink) :
    run txMachine (rejectPathSymlinks root target) d = (.ok (), d) := by
  obtain ⟨rest, rfl⟩ := hpre
  rw [rejectPathSymlinks, if_pos (List.prefix_append root rest), List.drop_left]
  exact run_rejectParts_ok _ hn rest root h

theorem run_rejectPathSymlinks_missing {root target : Path} (hpre : root <+: target)
    (hne : root ≠ target) (h : d.node target = none) :
    ∃ e, run txMachine (rejectPathSymlinks root target) d = (.error e, d) := by
  obtain ⟨rest, rfl⟩ := hpre
  rw [rejectPathSymlinks, if_pos (List.prefix_append root rest), List.drop_left]
  refine run_rejectParts_missing _ rest root ?_ h
  rintro rfl
  exact hne (List.append_nil root).symm

/-! ## Records -/

theorem readOnly_readLock (p : Path) : ReadOnly txMachine (readLock p) := by
  refine (readOnly_lstat p).bind fun x => ?_
  split
  · trivial
  · trivial
  · refine (readOnly_sys (Disk.reads_readFile p)).bind fun y => ?_
    split
    · trivial
    · split <;> trivial
    · trivial
  · trivial

theorem readOnly_decodeJournal (p : Path) (x : Except Errno Data) :
    ReadOnly txMachine (decodeJournal p x) := by
  unfold decodeJournal
  split
  · trivial
  · trivial
  · trivial
  · split <;> trivial
  · trivial

theorem readOnly_readJournal (root : Path) : ReadOnly txMachine (readJournal root) := by
  have hread : ReadOnly txMachine (do
      let read ← readFile (journalPath root)
      decodeJournal (journalPath root) read) :=
    ⟨Disk.reads_readFile _, readOnly_decodeJournal _⟩
  refine (readOnly_lstat _).bind fun x => ?_
  split
  · exact hread
  · exact hread
  · trivial
  · trivial

theorem decodeJournal_ok {x : Except Errno Data} {o : Option Journal}
    (h : Prog.Runs txMachine (decodeJournal p x) d (.ok o) d') :
    o = none ∧ x = .error .notExist ∨ ∃ j, o = some j ∧ x = .ok (.journal j) := by
  unfold decodeJournal at h
  split at h
  · exact .inl ⟨Except.ok.inj h.1, rfl⟩
  · cases h.1
  · exact .inr ⟨_, Except.ok.inj h.1, rfl⟩
  · split at h <;> cases h.1
  · cases h.1

variable {root : Path}

theorem runs_readJournal {o : Option Journal}
    (h : Prog.Runs txMachine (readJournal root) d (.ok o) d') :
    o = none ∧ d.node (journalPath root) = none ∨
      ∃ j, o = some j ∧ d.node (journalPath root) = some (.file (.journal j)) := by
  have hread : Prog.Runs txMachine (do
      let read ← readFile (journalPath root)
      decodeJournal (journalPath root) read) d (.ok o) d' →
      o = none ∧ d.node (journalPath root) = none ∨
      ∃ j, o = some j ∧ d.node (journalPath root) = some (.file (.journal j)) := by
    rintro ⟨x, d₁, hs, hrest⟩
    obtain ⟨rfl, hx⟩ := Disk.step_readFile hs
    rcases decodeJournal_ok hrest with ⟨ho, he⟩ | ⟨j, ho, he⟩
    · refine .inl ⟨ho, ?_⟩
      rcases hx with hx | hx <;> rw [hx] at he
      · unfold Disk.readFile at he
        split at he <;> first | assumption | cases he
      · cases he
    · refine .inr ⟨j, ho, ?_⟩
      rcases hx with hx | hx <;> rw [hx] at he
      · exact Disk.readFile_ok he
      · cases he
  obtain ⟨x, d₁, hs, hrest⟩ := h
  obtain ⟨rfl, rfl⟩ := Disk.step_lstat hs
  simp only [Prog.ret_bind] at hrest
  split at hrest
  · exact hread hrest
  · exact hread hrest
  · cases hrest.1
  · cases hrest.1

theorem run_readJournal_some {j : Journal}
    (h : d.node (journalPath root) = some (.file (.journal j))) :
    run txMachine (readJournal root) d = (.ok (some j), d) := by
  refine (Prog.run_bind_ok (run_lstat _)).trans ?_
  rw [Disk.lstat_of_node h]
  show run txMachine (decodeJournal _ (d.readFile (journalPath root))) d = _
  rw [Disk.readFile_of_node h]
  rfl

theorem run_readJournal_none (hroot : d.node (transactionRoot root) = some .dir)
    (h : d.node (journalPath root) = none) :
    run txMachine (readJournal root) d = (.ok none, d) := by
  have hpar : d.node (journalPath root).dropLast = some .dir := by
    rw [journalPath, List.dropLast_concat]
    exact hroot
  have hm := Disk.missing_of_parent hpar h
  have hl : d.lstat (journalPath root) = .error .notExist := by rw [Disk.lstat, h, hm]
  have hr : d.readFile (journalPath root) = .error .notExist := by rw [Disk.readFile, h, hm]
  refine (Prog.run_bind_ok (run_lstat _)).trans ?_
  rw [hl]
  show run txMachine (decodeJournal _ (d.readFile (journalPath root))) d = _
  rw [hr]
  rfl

theorem runs_readLock {l : Lock} (h : Prog.Runs txMachine (readLock p) d (.ok (some l)) d') :
    d.node p = some (.file (.lock l)) := by
  obtain ⟨x, d₁, hx, hrest⟩ := Prog.runs_bind_ok h
  obtain ⟨rfl, rfl⟩ := runs_lstat hx
  split at hrest
  · cases hrest.1
  · cases hrest.1
  · obtain ⟨y, d₂, hy, hret⟩ := Prog.runs_bind_ok hrest
    obtain ⟨rfl, hy⟩ := runs_readFile hy
    split at hret
    · obtain rfl := Option.some.inj (Except.ok.inj hret.1)
      exact hy
    · split at hret <;> cases hret.1
    · cases hret.1
  · cases hrest.1

theorem run_readLock_some {l : Lock} (h : d.node p = some (.file (.lock l))) :
    run txMachine (readLock p) d = (.ok (some l), d) := by
  refine (Prog.run_bind_ok (run_lstat _)).trans ?_
  rw [Disk.lstat_of_node h]
  refine (Prog.run_bind_ok (run_sys_ok (o := .readFile p)
    (Prod.ext (Disk.readFile_of_node h) rfl))).trans ?_
  rfl

theorem run_readLock_none (hpar : d.node p.dropLast = some .dir) (h : d.node p = none) :
    run txMachine (readLock p) d = (.ok none, d) := by
  refine (Prog.run_bind_ok (run_lstat _)).trans ?_
  rw [Disk.lstat, h, Disk.missing_of_parent hpar h]
  rfl

/-! ## Validation -/

theorem readOnly_validateDirectory (root directory : Path) :
    ReadOnly txMachine (validateDirectory root directory) := by
  unfold validateDirectory
  split
  · trivial
  · refine (readOnly_lstat directory).bind fun x => ?_
    split <;> trivial

theorem readOnly_validateArtifact (root artifact : Path) :
    ReadOnly txMachine (validateArtifact root artifact) := by
  refine (readOnly_rejectPathSymlinks _ _).attempt.bind fun r => ?_
  split
  · trivial
  · refine (readOnly_lstat artifact).bind fun x => ?_
    split <;> trivial

theorem readOnly_validateEntries (root directory : Path) :
    ∀ (entries : List Entry) (index : ℕ),
      ReadOnly txMachine (validateEntries root directory index entries)
  | [], _ => trivial
  | entry :: rest, index => by
    unfold validateEntries
    split
    · trivial
    · refine (readOnly_validateArtifact _ _).bind fun _ =>
        (readOnly_validateArtifact _ _).bind fun _ => ?_
      split
      · trivial
      · exact readOnly_validateEntries root directory rest _

theorem readOnly_validateReceipt (root : Path) (receipt : Option Path) :
    ReadOnly txMachine (validateReceipt root receipt) := by
  unfold validateReceipt
  split
  · trivial
  · split
    · trivial
    · refine (readOnly_pathExists _).bind fun b => ?_
      split
      · refine (readOnly_rejectPathSymlinks _ _).attempt.bind fun r => ?_
        split <;> trivial
      · trivial

theorem readOnly_validateLock (root : Path) (journal : Journal) (lock : Option Lock) :
    ReadOnly txMachine (validateLock root journal lock) := by
  unfold validateLock
  split
  · trivial
  · refine (readOnly_validateDirectory _ _).bind fun _ => ?_
    split <;> trivial

theorem readOnly_validateMetadata (root : Path) (lock : Option Lock) (journal : Journal) :
    ReadOnly txMachine (validateMetadata root lock journal) :=
  (readOnly_validateDirectory _ _).bind fun _ => (readOnly_validateLock _ _ _).bind fun _ =>
    (readOnly_validateReceipt _ _).bind fun _ => readOnly_validateEntries _ _ _ _

theorem runs_validateDirectory {root directory : Path}
    (h : Prog.Runs txMachine (validateDirectory root directory) d (.ok ()) d') :
    directory.dropLast = root ∧ hasChangePrefix (directory.getLastD "") = true := by
  unfold validateDirectory at h
  split at h
  · cases h.1
  · rename_i hc
    exact ⟨not_not.mp fun hne => hc (.inl hne),
      not_not.mp fun hne => hc (.inr (.inl hne))⟩

theorem hasChangePrefix_append (s : String) : hasChangePrefix ("change-" ++ s) = true := by
  simp [hasChangePrefix]

theorem change_append_ne {s name : String} (h : hasChangePrefix name = false) :
    "change-" ++ s ≠ name := by
  rintro rfl
  rw [hasChangePrefix_append] at h
  cases h

theorem run_validateDirectory (suffix : String) (hroot : d.node root = some .dir)
    (h : d.node (root ++ ["change-" ++ suffix]) = some .dir ∨
      d.node (root ++ ["change-" ++ suffix]) = none) :
    run txMachine (validateDirectory root (root ++ ["change-" ++ suffix])) d = (.ok (), d) := by
  unfold validateDirectory
  rw [if_neg]
  · refine (Prog.run_bind_ok (run_lstat _)).trans ?_
    rcases h with h | h
    · rw [Disk.lstat_of_node h]
      rfl
    · rw [Disk.lstat, h, Disk.missing_of_parent (by rw [List.dropLast_concat]; exact hroot) h]
      rfl
  · simp [hasChangePrefix_append]

theorem wp_lockRecovery (hI : I d)
    (h : ∀ d', d'.log = d.log → (∀ q, q ≠ root ++ ["recovery.lock"] → d'.node q = d.node q) →
      (d'.node (root ++ ["recovery.lock"]) = d.node (root ++ ["recovery.lock"]) ∨
        ∃ y, d'.node (root ++ ["recovery.lock"]) = some (.file y)) →
      I d' ∧ ((∃ y, d'.node (root ++ ["recovery.lock"]) = some (.file y)) →
        wp txMachine Q I (f ()) d') ∧ ∀ e, Q (.error e) d') :
    wp txMachine Q I ((lockRecovery root).bind f) d := by
  have herr : ∀ e, Q (.error e) d := (h d rfl (fun _ _ => rfl) (.inl rfl)).2.2
  refine Prog.wp_bind (wp_look (readOnly_unlessMissing (readOnly_rejectPathSymlinks _ _)) hI
    (fun _ _ => ?_) herr)
  refine ⟨fun d' hc => ?_, fun x d' hs => ?_⟩
  · obtain rfl : d' = d := hc
    exact hI
  · obtain ⟨hlog, hgate, hfile, hne⟩ := Disk.step_openFile hs
    obtain ⟨hI', hok, herr'⟩ := h d' hlog hne (hgate.imp_right fun hg => ⟨_, hg.2⟩)
    cases x with
    | ok x => exact ⟨hI', hok (hfile rfl)⟩
    | error e => exact ⟨hI', herr' _⟩

end Scenery
