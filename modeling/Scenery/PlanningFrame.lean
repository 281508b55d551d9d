import Scenery.Planning

/-!
# What planning does to the workspace

Planning should leave every file of the workspace outside `.scenery` alone.
-/

namespace Scenery

open Prog (visit)

def IsSource (n : Name) : Prop := n.1 = .root ∧ n.2.head? ≠ some ".scenery"

instance : DecidablePred IsSource := fun _ => inferInstanceAs (Decidable (_ ∧ _))

abbrev SourceKept (w w' : Files) : Prop := w.Keeps IsSource w'

theorem not_isSource_clone (path : RelPath) : ¬IsSource (.clone, path) := fun h => by cases h.1

theorem inClone_of_isSource {n : Name} (h : IsSource n) : inClone n = false := by
  simp [inClone, h.1]

section

variable (T : Toolchain) (S : Site)

def RestoresNothing (w : Files) : Prop :=
  ∀ r ∈ S.interrupted, IsSource (.root, r.1) → w.read (.root, r.1) = r.2

def FormatsApart (paths : List RelPath) (w : Files) : Prop :=
  ∀ pre path post w', paths = pre ++ path :: post →
    (formatSourcePaths T pre).run S.machine w = (.ok (), w') → path ∉ pre →
    ∀ before after, w'.read (.clone, path) = some before →
      T.canonicalFormat before path = .ok after → before ≠ after →
      w'.Harmless IsSource (.clone, formatTemporary path) after

def EditsApart (edits : List SourceEdit) (w : Files) : Prop :=
  ∀ pre edit post w', edits = pre ++ edit :: post →
    (applyAdditionalEdits T pre).run S.machine w = (.ok (), w') →
    ∀ relative, (checkEdit T pre edit).run S.machine w' = (.ok relative, w') →
      edit.afterExists = true → w'.Harmless IsSource (.clone, relative) edit.after

def ReachesFormat (request : ChangeRequest) (w : Files) (paths : List RelPath) (w' : Files) :
    Prop :=
  ∃ w₀ w₁, (compileBase T S).run S.machine w = (.ok (), w₀) ∧
    (cloneWorkspace S).run S.machine w₀ = (.ok (), w₁) ∧
    (rewriteSources T request).run S.machine w₁ = (.ok paths, w')

/-- Nothing is restored, and no write in place reaches a source through a link. -/
structure Careful (request : ChangeRequest) (w : Files) : Prop where
  settled : RestoresNothing S w
  format : ∀ paths w', ReachesFormat T S request w paths w' → FormatsApart T S paths w'
  edits : ∀ paths w' w'', ReachesFormat T S request w paths w' →
    (formatSourcePaths T paths).run S.machine w' = (.ok (), w'') →
    EditsApart T S request.additionalEdits w''

end

/-! ## The operations of the planner -/

section

variable {T : Toolchain} {S : Site} {α β : Type} {A : Name → Prop}

abbrev Looking (p : PlanProg α) : Prop := p.Only FileOp.Looks

abbrev Replacing (p : PlanProg α) : Prop := p.Only FileOp.Replaces

abbrev Sparing (A : Name → Prop) (p : PlanProg α) : Prop := p.Only (FileOp.Outside A)

variable {p : PlanProg α}

theorem Looking.replacing (h : Looking p) : Replacing p :=
  Prog.Only.mono (fun _ => FileOp.Looks.replaces) h

theorem Looking.sparing (h : Looking p) : Sparing A p :=
  Prog.Only.mono (fun _ => FileOp.Looks.outside) h

theorem Looking.run_snd (h : Looking p) (w : Files) :
    (p.run S.machine w).2 = w := by
  refine Prog.Only.run (I := (· = w)) (fun o ho s hs => ?_) h rfl
  rw [← hs]
  exact FileOp.Looks.exec ho s

theorem Replacing.guarded (h : Replacing p) (w : Files) :
    p.Guarded S.machine (FileOp.Guard A) w := by
  refine Prog.Only.guarded (fun o ho s => ?_) h w
  cases o <;> trivial

theorem looking_verdict (r : Except PlanError α) : Looking (verdict r) := by
  cases r <;> constructor

theorem looking_must (name : Name) (done : Bool) : Looking (must name done) := by
  cases done <;> constructor

theorem looking_lstat (n : Name) : Looking (Plan.lstat n) := .call trivial

theorem looking_readFile (n : Name) : Looking (Plan.readFile n) := .call trivial

theorem Plan.run_readFile (n : Name) (w : Files) :
    (Plan.readFile n).run S.machine w = (.ok (w.read n), w) := rfl

theorem Plan.eq_of_run_link_false {old new : Name} {w w' : Files}
    (h : (Plan.link old new).run S.machine w = (.ok false, w')) : w' = w := by
  have hexec : FileOp.exec (fun n => S.linkable n.2) (.link old new) w = (false, w') := by
    have h1 := congrArg Prod.fst h
    have h2 := congrArg Prod.snd h
    exact Prod.ext (Except.ok.inj h1) h2
  simp only [FileOp.exec] at hexec
  split at hexec
  · cases (Prod.mk.inj hexec).1
  · exact (Prod.mk.inj hexec).2.symm

theorem looking_cloneSources : Looking cloneSources :=
  Prog.Only.bind (.call trivial) fun _ => .ret _

theorem looking_reformatted (path : RelPath) : Looking (reformatted T path) := by
  refine Prog.Only.bind (looking_readFile _) fun before => ?_
  cases before with
  | none => constructor
  | some before => exact Prog.Only.bind (looking_verdict _) fun _ => .ret _

theorem looking_rejectExistingPathSymlinks (tree : Tree) (relative : RelPath) :
    ∀ parts, Looking (rejectExistingPathSymlinks tree relative parts)
  | [] => .ret _
  | part :: rest => by
    refine Prog.Only.bind (looking_lstat _) fun info => ?_
    have ih := looking_rejectExistingPathSymlinks tree relative rest
    rcases info with _ | _ | _ | _
    · exact ih
    · exact ih
    · dsimp only
      split <;> constructor
    · constructor

theorem looking_readEdited (relative : RelPath) : Looking (readEdited relative) := by
  refine Prog.Only.bind (looking_lstat _) fun info => ?_
  rcases info with _ | _ | _ | _
  · constructor
  · constructor
  · exact looking_readFile _
  · constructor

theorem looking_checkEdit (earlier : List SourceEdit) (edit : SourceEdit) :
    Looking (checkEdit T earlier edit) := by
  refine Prog.Only.bind (looking_verdict _) fun relative => ?_
  refine Prog.Only.bind (looking_rejectExistingPathSymlinks _ _ _) fun _ => ?_
  refine Prog.Only.bind (looking_readEdited _) fun before => ?_
  split
  · constructor
  · exact Prog.Only.bind (looking_rejectExistingPathSymlinks _ _ _) fun _ => .ret _

theorem replacing_atomicWrites : ∀ writes, Replacing (atomicWrites writes)
  | [] => .ret _
  | _ :: rest => Prog.Only.bind (.call trivial) fun _ => replacing_atomicWrites rest

theorem sparing_atomicWrites (hA : ∀ path, ¬A (.clone, path)) :
    ∀ writes, Sparing A (atomicWrites writes)
  | [] => .ret _
  | (path, _) :: rest => Prog.Only.bind (.call (hA path)) fun _ => sparing_atomicWrites hA rest

theorem only_applyOperations {C : FileOp Name Bytes → Prop} (hlook : ∀ o, o.Looks → C o)
    (hwrite : ∀ writes, (atomicWrites writes).Only C) :
    ∀ operations, (applyOperations operations).Only C
  | [] => .ret _
  | operation :: rest => by
    refine Prog.Only.bind ?_ fun _ => only_applyOperations hlook hwrite rest
    refine Prog.Only.bind (looking_cloneSources.mono hlook) fun files => ?_
    exact Prog.Only.bind ((looking_verdict _).mono hlook) hwrite

theorem only_rewriteSources {C : FileOp Name Bytes → Prop} (hlook : ∀ o, o.Looks → C o)
    (hwrite : ∀ writes, (atomicWrites writes).Only C) (request : ChangeRequest) :
    (rewriteSources T request).Only C := by
  refine Prog.Only.bind (only_applyOperations hlook hwrite _) fun _ => ?_
  refine Prog.Only.bind (looking_cloneSources.mono hlook) fun _ => ?_
  exact (looking_verdict _).mono hlook

section

variable (hA : ∀ path, ¬A (.clone, path))
include hA

theorem sparing_writeFormatted (path : RelPath)
    (after : Bytes) : Sparing A (writeFormatted path after) := by
  refine Prog.Only.bind (.call (hA _)) fun done => ?_
  refine Prog.Only.bind (looking_must _ done).sparing fun _ => ?_
  exact Prog.Only.bind (.call ⟨hA _, hA _⟩) fun done => (looking_must _ done).sparing

theorem sparing_formatSource (seen : List RelPath)
    (path : RelPath) : Sparing A (formatSource T seen path) := by
  rw [formatSource]
  split
  · constructor
  · refine Prog.Only.bind (looking_reformatted path).sparing fun after => ?_
    cases after with
    | none => constructor
    | some after => exact sparing_writeFormatted hA path after

theorem sparing_writeEdit (edit : SourceEdit)
    (relative : RelPath) : Sparing A (writeEdit edit relative) := by
  rw [writeEdit]
  split
  · exact Prog.Only.bind (.call (hA _)) fun done => (looking_must _ done).sparing
  · exact .call (hA _)

theorem sparing_applyAdditionalEdit
    (earlier : List SourceEdit) (edit : SourceEdit) :
    Sparing A (applyAdditionalEdit T earlier edit) := by
  simp only [applyAdditionalEdit, Prog.bind_eq]
  exact (looking_checkEdit earlier edit).sparing.bind (sparing_writeEdit hA edit)

end

variable {relative : RelPath}

theorem sparing_cloneEntry (earlier : List RelPath)
    (hA : ¬A (.clone, relative)) : Sparing A (cloneEntry earlier relative) := by
  rw [cloneEntry]
  split
  · constructor
  refine Prog.Only.bind (looking_lstat _).sparing fun info => ?_
  rcases info with _ | _ | _ | _
  · constructor
  · constructor
  · refine Prog.Only.bind (.call hA) fun linked => ?_
    cases linked with
    | true => constructor
    | false =>
      refine Prog.Only.bind (looking_readFile _).sparing fun bytes => ?_
      cases bytes with
      | none => constructor
      | some bytes => exact Prog.Only.bind (.call hA) fun done => (looking_must _ done).sparing
  · constructor

theorem sparing_removeClone (outcome : Except PlanError α) :
    Sparing IsSource (removeClone outcome) :=
  Prog.Only.bind (.call fun _ => inClone_of_isSource) fun _ => (looking_verdict _).sparing

theorem sparing_cloneWorkspace : Sparing IsSource (cloneWorkspace S) := by
  refine Prog.Only.bind (.call fun _ => inClone_of_isSource) fun _ => ?_
  have hvisit : Sparing IsSource (visit cloneEntry [] S.walk) :=
    Prog.Only.visit (fun earlier _ _ => sparing_cloneEntry earlier (not_isSource_clone _)) []
  refine Prog.Only.bind hvisit.attempt fun outcome => ?_
  cases outcome with
  | ok _ => constructor
  | error e => exact Prog.Only.bind (.call fun _ => inClone_of_isSource) fun _ => .fail e

theorem sparing_planInClone (request : ChangeRequest) :
    Sparing IsSource (planInClone T request) := by
  have hclone := not_isSource_clone
  refine Prog.Only.bind (only_rewriteSources (fun _ => FileOp.Looks.outside)
    (sparing_atomicWrites hclone) request) fun paths => ?_
  refine Prog.Only.bind
    (Prog.Only.visit (fun seen path _ => sparing_formatSource hclone seen path) []) fun _ => ?_
  refine Prog.Only.bind (Prog.Only.visit
    (fun earlier edit _ => sparing_applyAdditionalEdit hclone earlier edit) []) fun _ => ?_
  exact Prog.Only.bind looking_cloneSources.sparing fun _ => (looking_verdict _).sparing

/-! ## Guards -/

abbrev DoesNoHarm (S : Site) (p : PlanProg α) (w : Files) : Prop :=
  p.Guarded S.machine (FileOp.Guard IsSource) w

variable {w : Files}

theorem guarded_cloneEntry {earlier : List RelPath}
    (h : w.entry (.clone, relative) = none) : DoesNoHarm S (cloneEntry earlier relative) w := by
  rw [cloneEntry]
  split
  · constructor
  refine Prog.guarded_bind.mpr ⟨(looking_lstat _).replacing.guarded w, fun info w' hrun => ?_⟩
  obtain ⟨-, rfl⟩ := Prod.mk.inj hrun
  rcases info with _ | _ | _ | _
  · constructor
  · constructor
  · refine Prog.guarded_bind.mpr ⟨Prog.guarded_call.mpr trivial, fun linked w' hrun => ?_⟩
    cases linked with
    | true => constructor
    | false =>
      obtain rfl := Plan.eq_of_run_link_false hrun
      refine Prog.guarded_bind.mpr
        ⟨(looking_readFile _).replacing.guarded w', fun bytes w'' hrun => ?_⟩
      rw [Plan.run_readFile] at hrun
      obtain ⟨-, rfl⟩ := Prod.mk.inj hrun
      cases bytes with
      | none => constructor
      | some bytes =>
        refine Prog.guarded_bind.mpr ⟨Prog.guarded_call.mpr ?_, fun done w' _ => ?_⟩
        · refine Inodes.harmless_of_none ?_ bytes
          rw [Inodes.inode, h]
          rfl
        · exact (looking_must _ done).replacing.guarded w'
  · constructor

theorem entry_visit_cloneEntry {earlier pre : List RelPath} {w' : Files}
    (hrun : (visit cloneEntry earlier pre).run S.machine w = (.ok (), w'))
    (hfree : w.entry (.clone, relative) = none) (hpre : relative ∉ pre) :
    w'.entry (.clone, relative) = none := by
  have hsparing : Sparing (· = (.clone, relative)) (visit cloneEntry earlier pre) := by
    refine Prog.Only.visit (fun earlier x hx => sparing_cloneEntry earlier ?_) earlier
    rintro ⟨⟩
    exact hpre hx
  have hend := Prog.Only.run (M := S.machine) (I := fun w => w.entry (.clone, relative) = none)
    (fun o ho s hs => by rw [← hs]; exact FileOp.Outside.entry_eq ho s rfl) hsparing hfree
  rwa [hrun] at hend

theorem guarded_cloneWorkspace (w : Files) : DoesNoHarm S (cloneWorkspace S) w := by
  refine Prog.guarded_bind.mpr ⟨Prog.guarded_call.mpr trivial, fun _ w₀ hrun => ?_⟩
  have hempty : ∀ relative, w₀.entry (.clone, relative) = none := by
    intro relative
    obtain ⟨-, rfl⟩ := Prod.mk.inj hrun
    rfl
  refine Prog.guarded_bind.mpr ⟨Prog.guarded_attempt.mpr ?_, fun outcome w₁ _ => ?_⟩
  · rw [Prog.guarded_visit]
    intro pre relative post hwalk w' hpre
    have hnodup := S.nodup
    rw [hwalk, List.nodup_append] at hnodup
    have hfresh : relative ∉ pre := fun hmem =>
      hnodup.2.2 _ hmem _ List.mem_cons_self rfl
    exact guarded_cloneEntry (entry_visit_cloneEntry hpre (hempty relative) hfresh)
  · cases outcome with
    | ok _ => constructor
    | error e => exact Prog.guarded_bind.mpr ⟨Prog.guarded_call.mpr trivial, fun _ _ _ => .fail e _⟩

theorem run_reformatted_some {path : RelPath} {after : Bytes} {w' : Files} :
    (reformatted T path).run S.machine w = (.ok (some after), w') ↔
      w' = w ∧ ∃ before, w.read (.clone, path) = some before ∧
        T.canonicalFormat before path = .ok after ∧ before ≠ after := by
  rw [reformatted, Prog.bind_eq, Prog.run_bind_ok (Plan.run_readFile (S := S) _ _)]
  cases hread : w.read (.clone, path) with
  | none => simp
  | some before =>
    simp only [Prog.bind_eq]
    cases hcanon : T.canonicalFormat before path with
    | error e => simp [verdict, hcanon]
    | ok formatted =>
      have hrun : (verdict (Except.ok formatted)).run S.machine w = (.ok formatted, w) := rfl
      rw [Prog.run_bind_ok hrun, Prog.run_ret]
      constructor
      · intro h
        by_cases heq : before = formatted
        · rw [if_pos heq] at h
          cases h
        · rw [if_neg heq] at h
          cases h
          exact ⟨rfl, before, rfl, hcanon, heq⟩
      · rintro ⟨rfl, b, hb, hf, hne⟩
        cases hb
        obtain rfl := Except.ok.inj (hcanon.symm.trans hf)
        rw [if_neg hne]

theorem guarded_formatSource {seen : List RelPath} {path : RelPath} :
    DoesNoHarm S (formatSource T seen path) w ↔
      (path ∉ seen → ∀ before after, w.read (.clone, path) = some before →
        T.canonicalFormat before path = .ok after → before ≠ after →
        w.Harmless IsSource (.clone, formatTemporary path) after) := by
  rw [formatSource]
  split
  · next hseen => exact iff_of_true (.ret _ _) fun h => absurd hseen h
  next hseen =>
  simp only [Prog.bind_eq, DoesNoHarm, Prog.guarded_bind]
  constructor
  · rintro ⟨-, h⟩ - before after hread hcanon hne
    have hrun := (run_reformatted_some (S := S)).mpr ⟨rfl, before, hread, hcanon, hne⟩
    have hwrite := Prog.guarded_call.mp (Prog.guarded_bind.mp (h (some after) w hrun)).1
    exact hwrite
  · intro h
    refine ⟨(looking_reformatted path).replacing.guarded w, fun after w' hrun => ?_⟩
    cases after with
    | none => constructor
    | some after =>
      obtain ⟨rfl, before, hread, hcanon, hne⟩ := run_reformatted_some.mp hrun
      refine Prog.guarded_bind.mpr
        ⟨Prog.guarded_call.mpr (h hseen before after hread hcanon hne), fun done w₁ _ => ?_⟩
      refine Prog.guarded_bind.mpr
        ⟨(looking_must _ done).replacing.guarded w₁, fun _ w₂ _ => ?_⟩
      exact Prog.guarded_bind.mpr
        ⟨Prog.guarded_call.mpr trivial, fun done w₃ _ => (looking_must _ done).replacing.guarded w₃⟩

theorem guarded_applyAdditionalEdit {earlier : List SourceEdit} {edit : SourceEdit} :
    DoesNoHarm S (applyAdditionalEdit T earlier edit) w ↔
      ∀ relative, (checkEdit T earlier edit).run S.machine w = (.ok relative, w) →
        edit.afterExists = true → w.Harmless IsSource (.clone, relative) edit.after := by
  have hstate := (looking_checkEdit (T := T) earlier edit).run_snd (S := S) w
  simp only [applyAdditionalEdit, Prog.bind_eq, DoesNoHarm, Prog.guarded_bind]
  constructor
  · rintro ⟨-, h⟩ relative hrun hafter
    have hwrite := h relative w hrun
    rw [writeEdit, if_pos hafter] at hwrite
    have hguard := Prog.guarded_call.mp (Prog.guarded_bind.mp hwrite).1
    exact hguard
  · intro h
    refine ⟨(looking_checkEdit earlier edit).replacing.guarded w, fun relative w' hrun => ?_⟩
    obtain rfl : w = w' := by rw [hrun] at hstate; exact hstate.symm
    rw [writeEdit]
    split
    · next hafter =>
      exact Prog.guarded_bind.mpr ⟨Prog.guarded_call.mpr (h relative hrun hafter),
        fun done w₁ _ => (looking_must _ done).replacing.guarded w₁⟩
    · exact Prog.guarded_call.mpr trivial

theorem guarded_planInClone {request : ChangeRequest} : DoesNoHarm S (planInClone T request) w ↔
      ∀ paths w', (rewriteSources T request).run S.machine w = (.ok paths, w') →
        FormatsApart T S paths w' ∧
          ∀ w'', (formatSourcePaths T paths).run S.machine w' = (.ok (), w'') →
            EditsApart T S request.additionalEdits w'' := by
  have hrewrite : DoesNoHarm S (rewriteSources T request) w :=
    Replacing.guarded (only_rewriteSources (fun _ => FileOp.Looks.replaces)
      replacing_atomicWrites request) w
  have hpredict : ∀ w', DoesNoHarm S ((do verdict (T.predict (← cloneSources))) : PlanProg Unit) w' :=
    fun w' => Looking.replacing
      (Prog.Only.bind looking_cloneSources fun _ => looking_verdict _) |>.guarded w'
  simp only [planInClone, Prog.bind_eq, DoesNoHarm, Prog.guarded_bind] at *
  constructor
  · rintro ⟨-, h⟩ paths w' hrun
    obtain ⟨hformat, hrest⟩ := h paths w' hrun
    refine ⟨?_, fun w'' hrun' => ?_⟩
    · intro pre path post w₁ hpaths hpre
      exact guarded_formatSource.mp (Prog.guarded_visit.mp hformat pre path post hpaths w₁ hpre)
    · intro pre edit post w₁ hedits hpre
      exact guarded_applyAdditionalEdit.mp
        (Prog.guarded_visit.mp (hrest () w'' hrun').1 pre edit post hedits w₁ hpre)
  · intro h
    refine ⟨hrewrite, fun paths w' hrun => ?_⟩
    obtain ⟨hformat, hedits⟩ := h paths w' hrun
    refine ⟨?_, fun _ w'' hrun' => ⟨?_, fun _ w₁ _ => hpredict w₁⟩⟩
    · refine Prog.guarded_visit.mpr fun pre path post hpaths w₁ hpre => ?_
      exact guarded_formatSource.mpr (hformat pre path post w₁ hpaths hpre)
    · refine Prog.guarded_visit.mpr fun pre edit post hsplit w₁ hpre => ?_
      exact guarded_applyAdditionalEdit.mpr (hedits w'' hrun' pre edit post w₁ hsplit hpre)

/-! ## The workspace at every moment -/

theorem always_restoreInterrupted {w₀ : Files} (h : SourceKept w₀ w)
    (entries : List (RelPath × Option Bytes)) :
    (restoreInterrupted entries).Always S.machine (SourceKept w₀) w ↔
      ∀ r ∈ entries, IsSource (.root, r.1) → w₀.read (.root, r.1) = r.2 := by
  induction entries generalizing w with
  | nil => simpa [restoreInterrupted] using h
  | cons entry rest ih =>
    obtain ⟨path, contents⟩ := entry
    -- one step restores one file, by a new inode or by taking the name away
    have hstep : ∃ w₁, ((restoreInterrupted ((path, contents) :: rest)).Always S.machine
          (SourceKept w₀) w ↔
          SourceKept w₀ w ∧ (restoreInterrupted rest).Always S.machine (SourceKept w₀) w₁) ∧
        (SourceKept w₀ w₁ ↔
          (IsSource (.root, path) → w₀.read (.root, path) = contents)) := by
      cases contents with
      | none =>
        refine ⟨w.unlink (.root, path), Prog.always_op _ _ _, ?_⟩
        refine h.iff_of.trans (Inodes.keeps_unlink_iff.trans ?_)
        exact forall_congr' fun hs => by rw [h _ hs]
      | some bytes =>
        refine ⟨w.create (.root, path) bytes, Prog.always_op _ _ _, ?_⟩
        refine h.iff_of.trans ((Inodes.keeps_create_iff bytes).trans ?_)
        exact forall_congr' fun hs => by rw [h _ hs]
    obtain ⟨w₁, halways, hkept⟩ := hstep
    rw [halways, List.forall_mem_cons, ← hkept]
    constructor
    · rintro ⟨-, hrest⟩
      exact ⟨hrest.start, (ih hrest.start).mp hrest⟩
    · rintro ⟨hw₁, hrest⟩
      exact ⟨h, (ih hw₁).mpr hrest⟩

theorem always_compileBase (w : Files) :
    (compileBase T S).Always S.machine (SourceKept w) w ↔ RestoresNothing S w := by
  rw [compileBase, Prog.bind_eq, Prog.always_bind,
    always_restoreInterrupted (Inodes.Keeps.refl IsSource w)]
  refine and_iff_left_of_imp fun hnothing _ w' hrun => ?_
  have hkept : SourceKept w w' := by
    have hend := ((always_restoreInterrupted (S := S) (Inodes.Keeps.refl IsSource w)
      S.interrupted).mpr hnothing).run
    rwa [hrun] at hend
  -- the compiler only looks
  have hlook : Looking ((do
      let files ← Plan.snapshot
      verdict (T.compile fun path => files (.root, path))) : PlanProg Unit) :=
    Prog.Only.bind (.call trivial) fun _ => looking_verdict _
  exact (keeps_always_iff hlook.sparing hkept).mpr (hlook.replacing.guarded w')

variable {request : ChangeRequest}

theorem always_planChanges_iff (w : Files) :
    (planChanges T S request).Always S.machine (SourceKept w) w ↔ Careful T S request w := by
  rw [planChanges, Prog.bind_eq, Prog.always_bind, always_compileBase]
  constructor
  · rintro ⟨hsettled, h⟩
    have hclone : ∀ w₀ w₁, (compileBase T S).run S.machine w = (.ok (), w₀) →
        (cloneWorkspace S).run S.machine w₀ = (.ok (), w₁) →
          DoesNoHarm S (planInClone T request) w₁ := by
      intro w₀ w₁ h₀ h₁
      obtain ⟨-, hplan⟩ := Prog.always_bind.mp (h () w₀ h₀)
      have halways := Prog.always_attempt.mp (Prog.always_bind.mp (hplan () w₁ h₁)).1
      exact (keeps_always_iff (sparing_planInClone request) halways.start).mp halways
    refine ⟨hsettled, ?_, ?_⟩
    · rintro paths w' ⟨w₀, w₁, h₀, h₁, hrun⟩
      exact (guarded_planInClone.mp (hclone w₀ w₁ h₀ h₁) paths w' hrun).1
    · rintro paths w' w'' ⟨w₀, w₁, h₀, h₁, hrun⟩ hformat
      exact (guarded_planInClone.mp (hclone w₀ w₁ h₀ h₁) paths w' hrun).2 w'' hformat
  · intro h
    refine ⟨h.settled, fun _ w₀ h₀ => ?_⟩
    have hkept : SourceKept w w₀ := by
      have hend := ((always_compileBase (T := T) w).mpr h.settled).run
      rwa [h₀] at hend
    have hsparing : Sparing IsSource ((do
        cloneWorkspace S
        removeClone (← (planInClone T request).attempt)) : PlanProg Unit) :=
      Prog.Only.bind sparing_cloneWorkspace fun _ =>
        Prog.Only.bind (sparing_planInClone request).attempt sparing_removeClone
    refine (keeps_always_iff hsparing hkept).mpr ?_
    refine Prog.guarded_bind.mpr ⟨guarded_cloneWorkspace w₀, fun _ w₁ h₁ => ?_⟩
    refine Prog.guarded_bind.mpr ⟨Prog.guarded_attempt.mpr ?_, fun outcome w₂ _ => ?_⟩
    · refine guarded_planInClone.mpr fun paths w' hrun => ?_
      exact ⟨h.format paths w' ⟨w₀, w₁, h₀, h₁, hrun⟩,
        fun w'' => h.edits paths w' w'' ⟨w₀, w₁, h₀, h₁, hrun⟩⟩
    · exact Prog.guarded_bind.mpr ⟨Prog.guarded_call.mpr trivial,
        fun _ w₃ _ => (looking_verdict _).replacing.guarded w₃⟩

/-- A condition on the inputs alone. -/
theorem Careful.of_inputs {w : Files} (hsettled : RestoresNothing S w)
    (hformat : ∀ bytes path after, T.canonicalFormat bytes path = .ok after → bytes = after)
    (hedits : ∀ edit ∈ request.additionalEdits, edit.afterExists = false) :
    Careful T S request w where
  settled := hsettled
  format := fun _ _ _ _ path _ _ _ _ _ before after _ hrun hne =>
    absurd (hformat before path after hrun) hne
  edits := by
    rintro _ _ _ _ _ pre edit post _ heq _ _ _ hafter
    rw [hedits edit (by simp [heq])] at hafter
    cases hafter

/-- What is left of the workspace when a careful planning has ended, whatever its outcome. -/
theorem Careful.sourceKept {w : Files} (h : Careful T S request w) :
    SourceKept w ((planChanges T S request).run S.machine w).2 :=
  ((always_planChanges_iff w).mpr h).run

/-- Planning leaves the contents of every workspace file outside `.scenery` unchanged, at
every moment, exactly when nothing is restored and no in-place write of the formatter or of
an additional edit goes through a hard link to a workspace file with other contents. -/
theorem planning_keeps_source_iff (T : Toolchain) (S : Site) (request : ChangeRequest)
    (w : Files) :
    (planChanges T S request).Always S.machine (SourceKept w) w ↔ Careful T S request w :=
  always_planChanges_iff w

end

namespace PlanSample

def toolchain : Toolchain where
  compile _ := .ok ()
  sourceFiles _ := .ok []
  canonicalFormat bytes _ := .ok bytes
  predict _ := .ok ()
  byteDigest bytes := String.ofList (bytes.map fun x => Char.ofNat (x.toNat + 65))

def site : Site := ⟨[["notes.md"]], by decide, [], fun _ => true⟩

def files : Files := Inodes.create ⟨fun _ => none, fun _ => [], 0, by simp⟩ (.root, ["notes.md"]) [1]

def request : ChangeRequest := ⟨[], [⟨["notes.md"], "B", [2], true, true⟩]⟩

end PlanSample

/-- Planning an edit of an existing file succeeds, and has already made the edit in the
workspace. -/
theorem planning_edits_workspace :
    ((planChanges PlanSample.toolchain PlanSample.site PlanSample.request).run
        PlanSample.site.machine PlanSample.files).1 = .ok () ∧
      ¬SourceKept PlanSample.files
        ((planChanges PlanSample.toolchain PlanSample.site PlanSample.request).run
          PlanSample.site.machine PlanSample.files).2 := by
  refine ⟨by decide +kernel, fun h => ?_⟩
  have hread := h (.root, ["notes.md"]) (by decide)
  revert hread
  decide +kernel

end Scenery
