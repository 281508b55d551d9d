import Scenery.Storage.Restore

/-!
# What a restore keeps

The invariant of the disk says that a record past `preparing` stands for a complete generation,
and that the active generation is the old one or complete.
-/

namespace Scenery.Storage

variable {a : Args} {g₀ : ID} {d : Disk} {op : Operation} {s s' : State}

def Operation.target (op : Operation) : ID := op.stagedIncarnation.getD op.incarnation

structure Content.Valid (c : Content) (incarnation id : ID) : Prop where
  refs : c.refs = true
  versions : c.versions = true
  staging : c.staging = true
  record : c.record = some (incarnation, id)

def Disk.Has (d : Disk) (incarnation id : ID) : Prop :=
  d.root = true ∧ ∃ c, d.generations.get id = some c ∧ c.Valid incarnation id

def Disk.Complete (d : Disk) (incarnation id : ID) : Prop :=
  d.root = true ∧
    ∃ c, d.generations.get id = some c ∧ c.Valid incarnation id ∧ c.filled = true

variable {incarnation id : ID}

theorem Disk.Complete.has (h : d.Complete incarnation id) :
    d.Has incarnation id := by
  obtain ⟨hroot, c, hc, hvalid, -⟩ := h
  exact ⟨hroot, c, hc, hvalid⟩

theorem validateGeneration_ok (h : d.Has incarnation id) :
    validateGeneration d incarnation id = .ok () := by
  obtain ⟨-, c, hc, hvalid⟩ := h
  unfold validateGeneration
  rw [hc]
  simp [hvalid.refs, hvalid.versions, hvalid.staging, hvalid.record]

variable {d' : Disk}

theorem Disk.Has.congr (h : d.Has incarnation id) (hroot : d.root = true → d'.root = true)
    (hget : d'.generations.get id = d.generations.get id) : d'.Has incarnation id := by
  obtain ⟨hroot', c, hc, hvalid⟩ := h
  exact ⟨hroot hroot', c, hget.trans hc, hvalid⟩

theorem Disk.Complete.congr (h : d.Complete incarnation id) (hroot : d.root = true → d'.root = true)
    (hget : d'.generations.get id = d.generations.get id) : d'.Complete incarnation id := by
  obtain ⟨hroot', c, hc, hvalid⟩ := h
  exact ⟨hroot hroot', c, hget.trans hc, hvalid⟩

structure Args.Valid (a : Args) : Prop where
  digest : isHexID a.digest 32 = true
  database : a.database = true → a.mode = .overwrite
  conflict : a.mode ≠ .merge → a.conflict = .fail

structure Ours (a : Args) (op : Operation) : Prop where
  operation : op.operation = .restore
  archiveSHA256 : op.archiveSHA256 = a.digest
  database : op.database = a.database
  storage : op.storage = true
  mode : op.mode = a.mode
  onConflict : op.onConflict = a.conflict
  ne : op.generation ≠ op.stagedGeneration
  incarnation : op.stagedIncarnation ≠ some op.incarnation
  overwrite : op.stagedIncarnation.isSome = true → a.managed = true ∧ a.mode = .overwrite
  phase : op.phase ≠ .prepared ∧ op.phase ≠ .retired

theorem Ours.withPhase (h : Ours a op) {phase : Phase}
    (hphase : phase ≠ .prepared ∧ phase ≠ .retired) : Ours a { op with phase := phase } :=
  { h with phase := hphase }

def Unswitched (op : Operation) (owner : Owner) : Prop :=
  owner = ⟨op.incarnation, op.generation, if op.stagedIncarnation.isSome then .retired else .ready⟩

def Switched (op : Operation) (owner : Owner) : Prop :=
  owner = ⟨op.target, op.stagedGeneration, .ready⟩

variable {owner : Owner}

theorem Unswitched.switchedOwner (h : Unswitched op owner) :
    Switched op (switchedOwner op owner) := by
  obtain rfl := h
  unfold Switched Storage.switchedOwner Operation.target
  cases op.stagedIncarnation with
  | none | some => rfl

theorem Unswitched.generation_ne (h : Unswitched op owner) (hours : Ours a op) :
    owner.generation ≠ op.stagedGeneration := by
  obtain rfl := h
  exact hours.ne

theorem Switched.generation_eq (h : Switched op owner) :
    owner.generation = op.stagedGeneration := by
  obtain rfl := h
  rfl

/-- The record and the owner fit, and a record past `preparing` has a complete generation. -/
structure Recorded (a : Args) (d : Disk) (op : Operation) : Prop where
  ours : Ours a op
  owner : (Unswitched op d.owner ∧ op.phase ≠ .switched) ∨
    (Switched op d.owner ∧ op.phase ≠ .preparing ∧ (op.database = true → op.phase ≠ .staged))
  complete : op.phase ≠ .preparing → d.Complete op.target op.stagedGeneration

structure DiskInv (a : Args) (g₀ : ID) (d : Disk) : Prop where
  args : a.Valid
  ready : d.owner.state = .ready → d.Has d.owner.incarnation d.owner.generation
  allocated : d.owner.state ≠ .allocating
  retired : d.owner.state = .retired → a.managed = true ∧ a.mode = .overwrite
  empty : d.owner.state = .retired → d.operation = none → d.generations = []
  active : d.owner.generation = g₀ ∨ d.Complete d.owner.incarnation d.owner.generation
  recorded : ∀ op, d.operation = some op → Recorded a d op

theorem DiskInv.loadOwner (h : DiskInv a g₀ d) : loadOwner d d.owner.incarnation = .ok d.owner := by
  unfold Storage.loadOwner
  rw [if_neg (by simp)]
  cases hstate : d.owner.state with
  | retired => rfl
  | allocating => exact absurd hstate h.allocated
  | ready =>
    have hhas := h.ready hstate
    simp [hhas.1, validateGeneration_ok hhas]

theorem Recorded.restoreError (h : Recorded a d op) (hargs : a.Valid) :
    restoreError op d.owner = false := by
  have hours := h.ours
  have hconflict : ¬ (op.mode ≠ .merge ∧ op.onConflict ≠ .fail) := by
    rw [hours.mode, hours.onConflict]
    exact fun hboth => hboth.2 (hargs.conflict hboth.1)
  have hdatabase : ¬ (op.database = true ∧ op.mode ≠ .overwrite) := by
    rw [hours.mode, hours.database]
    exact fun hboth => hboth.2 (hargs.database hboth.1)
  have hhex : isHexID op.archiveSHA256 32 = true := hours.archiveSHA256 ▸ hargs.digest
  have hmode : op.stagedIncarnation.isSome = true → op.mode = .overwrite := fun hsome =>
    hours.mode.trans (hours.overwrite hsome).2
  unfold Storage.restoreError
  rcases h.owner with ⟨hun, hphase⟩ | ⟨hsw, hphase, hstaged⟩
  · rw [hun]
    simp only [hconflict, hdatabase, hhex, hours.storage, hours.incarnation, hours.ne, hphase,
      hours.phase.1, hours.phase.2]
    cases hinc : op.stagedIncarnation with
    | none => simp
    | some incarnation => simp [hmode (by rw [hinc]; rfl)]
  · rw [hsw]
    simp only [hconflict, hdatabase, hhex, hours.storage, hours.incarnation, hours.ne,
      hours.phase.1, hours.phase.2, hphase]
    cases hinc : op.stagedIncarnation with
    | none => simp +contextual [hstaged]
    | some incarnation =>
      have hne : incarnation ≠ op.incarnation := fun he => hours.incarnation (by rw [hinc, he])
      simp +contextual [hmode (by rw [hinc]; rfl), hstaged, Operation.target, hinc, hne]

theorem DiskInv.readOperation (h : DiskInv a g₀ d) :
    readOperation d.operation d.owner = .ok d.operation := by
  unfold Storage.readOperation
  cases hop : d.operation with
  | none => rfl
  | some op =>
    have hrec := h.recorded op hop
    have howner : ¬ (op.incarnation ≠ d.owner.incarnation ∧ (op.operation ≠ .restore ∨
        op.stagedIncarnation ≠ some d.owner.incarnation ∨
        d.owner.generation ≠ op.stagedGeneration ∨ d.owner.state ≠ .ready)) := by
      rcases hrec.owner with ⟨hun, -⟩ | ⟨hsw, -, -⟩
      · rw [hun]
        simp
      · rw [hsw]
        cases hinc : op.stagedIncarnation with
        | none => simp [Operation.target, hinc]
        | some incarnation => simp [Operation.target, hinc, hrec.ours.operation]
    dsimp only
    rw [if_neg howner, hrec.ours.operation]
    simp [hrec.restoreError h.args]

theorem DiskInv.beginRestore (h : DiskInv a g₀ d) :
    beginRestore a d d.owner.incarnation = .ok ⟨d.operation, d.owner⟩ := by
  have hstate : ¬ (d.owner.state ≠ .ready ∧
      (d.owner.state ≠ .retired ∨ a.managed = false ∨ a.mode ≠ .overwrite)) := by
    cases hs : d.owner.state with
    | ready => simp
    | allocating => exact absurd hs h.allocated
    | retired => simp [h.retired hs]
  have hargs : ¬ (isHexID a.digest 32 = false ∨ (a.database = true ∧ a.mode ≠ .overwrite) ∨
      (a.mode ≠ .merge ∧ a.conflict ≠ .fail)) := by
    simp only [h.args.digest, not_or, not_and, not_not]
    exact ⟨by simp, h.args.database, h.args.conflict⟩
  unfold Storage.beginRestore
  rw [if_neg hargs, h.loadOwner]
  dsimp only
  rw [if_neg hstate, h.readOperation]
  cases hop : d.operation with
  | none => rfl
  | some op =>
    have hrec := h.recorded op hop
    have hours := hrec.ours
    dsimp only
    rw [if_neg (by simp [hours.operation, hours.archiveSHA256, hours.database, hours.mode,
      hours.onConflict])]
    by_cases hphase : op.phase = .preparing
    · rw [if_pos hphase]
    · rw [if_neg hphase]
      have hvalid := validateGeneration_ok (hrec.complete hphase).has
      rw [Operation.target] at hvalid
      rw [hvalid]

theorem beginRestore_handle {handle : ID} {r : Restore} (h : beginRestore a d handle = .ok r) :
    handle = d.owner.incarnation := by
  by_contra hne
  unfold Storage.beginRestore Storage.loadOwner at h
  rw [if_pos (Ne.symm hne)] at h
  split at h
  · cases h
  · cases h

theorem DiskInv.writeOperation (h : DiskInv a g₀ d) (hrec : Recorded a d op) :
    DiskInv a g₀ { d with operation := some op } where
  args := h.args
  ready := h.ready
  allocated := h.allocated
  retired := h.retired
  empty _ hnone := by cases hnone
  active := h.active
  recorded op' hop' := by
    cases hop'
    exact ⟨hrec.ours, hrec.owner, hrec.complete⟩

theorem DiskInv.removeOperation (h : DiskInv a g₀ d) (hready : d.owner.state = .ready) :
    DiskInv a g₀ { d with operation := none } where
  args := h.args
  ready := h.ready
  allocated := h.allocated
  retired := h.retired
  empty hretired _ := absurd (hready.symm.trans hretired) (by decide)
  active := h.active
  recorded _ hop := by cases hop

theorem DiskInv.writeOwner (h : DiskInv a g₀ d) (hsw : Switched op owner)
    (hcomplete : d.Complete op.target op.stagedGeneration)
    (hrec : ∀ op', d.operation = some op' → Recorded a { d with owner := owner } op') :
    DiskInv a g₀ { d with owner := owner } := by
  obtain rfl := hsw
  exact ⟨h.args, fun _ => hcomplete.has, (by simp), (by simp), (by simp), .inr hcomplete, hrec⟩

theorem DiskInv.writeStaged (h : DiskInv a g₀ d) (hop : d.operation = some op)
    (hun : Unswitched op d.owner) (hphase : op.phase = .preparing) (howner : d'.owner = d.owner)
    (hop' : d'.operation = d.operation) (hroot : d.root = true → d'.root = true)
    (hget : ∀ id ≠ op.stagedGeneration, d'.generations.get id = d.generations.get id) :
    DiskInv a g₀ d' := by
  have hours := (h.recorded op hop).ours
  have hne : d.owner.generation ≠ op.stagedGeneration := hun.generation_ne hours
  refine ⟨h.args, ?_, ?_, ?_, ?_, ?_, ?_⟩
  · rw [howner]
    exact fun hready => (h.ready hready).congr hroot (hget _ hne)
  · rw [howner]
    exact h.allocated
  · rw [howner]
    exact h.retired
  · rw [hop', hop]
    exact nofun
  · rw [howner]
    exact h.active.imp id fun hcomplete => hcomplete.congr hroot (hget _ hne)
  · intro op' hrecord
    rw [hop', hop] at hrecord
    cases hrecord
    refine ⟨hours, ?_, absurd hphase⟩
    rw [howner]
    exact .inl ⟨hun, by rw [hphase]; decide⟩

end Scenery.Storage
