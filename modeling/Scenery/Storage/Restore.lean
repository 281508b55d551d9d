import Scenery.Dictionary
import Scenery.Runs

/-!
# Restoring a storage namespace

`BeginRestore`, `Stage` and `Complete` on one namespace, one file-system step at a time.
-/

namespace Scenery.Storage

abbrev ID := ℕ

inductive Mode where
  | overwrite
  | merge
  deriving DecidableEq

inductive Conflict where
  | fail
  | skip
  | overwrite
  deriving DecidableEq

inductive OwnerState where
  | ready
  | allocating
  | retired
  deriving DecidableEq

structure Owner where
  incarnation : ID
  generation : ID
  state : OwnerState
  deriving DecidableEq

inductive OperationKind where
  | purge
  | restore
  deriving DecidableEq

inductive Phase where
  | prepared
  | retired
  | preparing
  | staged
  | database
  | switched
  deriving DecidableEq

structure Operation where
  operation : OperationKind
  incarnation : ID
  generation : ID
  selectionRevision : String
  archiveSHA256 : String
  stagedGeneration : ID
  stagedIncarnation : Option ID
  database : Bool
  storage : Bool
  mode : Mode
  onConflict : Conflict
  phase : Phase
  deriving DecidableEq

structure Content where
  refs : Bool
  versions : Bool
  staging : Bool
  record : Option (ID × ID)
  filled : Bool
  deriving DecidableEq

structure Disk where
  owner : Owner
  operation : Option Operation
  root : Bool
  generations : Dictionary ID Content
  deriving DecidableEq

structure Args where
  digest : String
  database : Bool
  mode : Mode
  conflict : Conflict
  managed : Bool
  deriving DecidableEq

inductive Error where
  | invalid
  | corrupt
  | ownership
  | retired
  | recovery
  deriving DecidableEq

def isHexID (value : String) (bytes : ℕ) : Bool :=
  value.length = bytes * 2 ∧
    value.toList.all fun c => ('0' ≤ c ∧ c ≤ '9') ∨ ('a' ≤ c ∧ c ≤ 'f')

def restoreError (op : Operation) (owner : Owner) : Bool :=
  (op.mode ≠ .merge ∧ op.onConflict ≠ .fail) ∨
  (op.stagedIncarnation.isSome ∧ (op.stagedIncarnation = some op.incarnation ∨
    op.mode ≠ .overwrite ∨ (owner.incarnation = op.incarnation ∧ owner.state ≠ .retired))) ∨
  isHexID op.archiveSHA256 32 = false ∨ op.storage = false ∨
  (op.database = true ∧ op.mode ≠ .overwrite) ∨
  (owner.generation ≠ op.generation ∧ owner.generation ≠ op.stagedGeneration) ∨
  op.generation = op.stagedGeneration ∨
  (owner.generation = op.stagedGeneration ∧ op.database = true ∧ op.phase = .staged) ∨
  (op.phase = .switched ∧ owner.generation ≠ op.stagedGeneration) ∨
  (op.phase = .preparing ∧ (owner.generation ≠ op.generation ∨
    (op.stagedIncarnation = none ∧ owner.state ≠ .ready) ∨
    (op.stagedIncarnation.isSome ∧ owner.state ≠ .retired))) ∨
  op.phase = .prepared ∨ op.phase = .retired

def readOperation (record : Option Operation) (owner : Owner) : Except Error (Option Operation) :=
  match record with
  | none => .ok none
  | some op =>
    if op.incarnation ≠ owner.incarnation ∧ (op.operation ≠ .restore ∨
        op.stagedIncarnation ≠ some owner.incarnation ∨
        owner.generation ≠ op.stagedGeneration ∨ owner.state ≠ .ready) then .error .ownership
    else
      match op.operation with
      | .purge =>
        if op.generation ≠ owner.generation ∨ op.selectionRevision = "" ∨
            (op.phase ≠ .prepared ∧ op.phase ≠ .retired) then .error .corrupt
        else .ok (some op)
      | .restore => if restoreError op owner then .error .corrupt else .ok (some op)

def validateGeneration (d : Disk) (incarnation id : ID) : Except Error Unit :=
  match d.generations.get id with
  | none => .error .corrupt
  | some c =>
    if c.refs = false ∨ c.versions = false ∨ c.staging = false then .error .corrupt
    else
      match c.record with
      | none => .error .corrupt
      | some record => if record ≠ (incarnation, id) then .error .ownership else .ok ()

def loadOwner (d : Disk) (incarnation : ID) : Except Error Owner :=
  if d.owner.incarnation ≠ incarnation then .error .ownership
  else
    match d.owner.state with
    | .retired => .ok d.owner
    | .allocating => .error .corrupt
    | .ready =>
      if d.root = false then .error .corrupt
      else
        match validateGeneration d d.owner.incarnation d.owner.generation with
        | .error e => .error e
        | .ok () => .ok d.owner

structure Restore where
  operation : Option Operation
  owner : Owner
  deriving DecidableEq

def beginRestore (a : Args) (d : Disk) (incarnation : ID) : Except Error Restore :=
  if isHexID a.digest 32 = false ∨ (a.database = true ∧ a.mode ≠ .overwrite) ∨
      (a.mode ≠ .merge ∧ a.conflict ≠ .fail) then .error .invalid
  else
    match loadOwner d incarnation with
    | .error e => .error e
    | .ok owner =>
      if owner.state ≠ .ready ∧
          (owner.state ≠ .retired ∨ a.managed = false ∨ a.mode ≠ .overwrite) then .error .retired
      else
        match readOperation d.operation owner with
        | .error e => .error e
        | .ok none => .ok ⟨none, owner⟩
        | .ok (some op) =>
          if op.operation ≠ .restore ∨ op.archiveSHA256 ≠ a.digest ∨ op.database ≠ a.database ∨
              op.mode ≠ a.mode ∨ op.onConflict ≠ a.conflict then .error .recovery
          else if op.phase = .preparing then .ok ⟨some op, owner⟩
          else
            match validateGeneration d (op.stagedIncarnation.getD op.incarnation)
                op.stagedGeneration with
            | .error e => .error e
            | .ok () => .ok ⟨some op, owner⟩

inductive StageStep where
  | writePreparing (op : Operation)
  | mkdirGenerations
  | syncRoot
  | removeAll
  | syncGenerations
  | mkdirBase
  | syncBase
  | mkdirRefs
  | mkdirVersions
  | mkdirStaging
  | writeGeneration
  | populate
  | syncStaged
  | writeStaged
  deriving DecidableEq

inductive CompleteStep where
  | database
  | writeDatabase
  | writeOwner
  | writeSwitched
  | remove
  | syncRemoved
  deriving DecidableEq

inductive Pc where
  | idle
  | stage (step : StageStep)
  | complete (step : CompleteStep)
  deriving DecidableEq

structure Process where
  restore : Restore
  pc : Pc
  deriving DecidableEq

/-- A call of the database callback: the staged generation of its operation, the generation that
was active on disk, and whether it returned nil. -/
structure Callback where
  staged : ID
  active : ID
  ok : Bool
  deriving DecidableEq

structure State where
  disk : Disk
  handle : ID
  process : Option Process
  callbacks : List Callback
  deriving DecidableEq

inductive Outcome where
  | ok
  | before
  | after (left : Option Content)
  deriving DecidableEq

inductive Event where
  | reopen
  | beginRestore
  | close
  | stage (generation incarnation : ID)
  | complete (callback : Bool)
  | advance (outcome : Outcome)
  | crash
  deriving DecidableEq

def newOperation (a : Args) (owner : Owner) (generation incarnation : ID) : Operation where
  operation := .restore
  incarnation := owner.incarnation
  generation := owner.generation
  selectionRevision := ""
  archiveSHA256 := a.digest
  stagedGeneration := generation
  stagedIncarnation := if owner.state = .retired then some incarnation else none
  database := a.database
  storage := true
  mode := a.mode
  onConflict := a.conflict
  phase := .preparing

def stageCall (a : Args) (d : Disk) (r : Restore) (generation incarnation : ID) : Option StageStep :=
  match r.operation with
  | none =>
    -- `retiredGenerationsEmpty`
    if r.owner.state = .retired ∧ d.generations ≠ [] then none
    else some (.writePreparing (newOperation a r.owner generation incarnation))
  | some op => if op.phase ≠ .preparing then none else some .mkdirGenerations

def switchedOwner (op : Operation) (owner : Owner) : Owner :=
  match op.stagedIncarnation with
  | none => { owner with generation := op.stagedGeneration }
  | some incarnation => ⟨incarnation, op.stagedGeneration, .ready⟩

def completeCall (r : Restore) (callback : Bool) : Option (Restore × CompleteStep) :=
  match r.operation with
  | none => none
  | some op =>
    if op.phase = .preparing then none
    else if r.owner.generation ≠ op.stagedGeneration then
      if op.database then (if callback then some (r, .database) else none)
      else some (r, .writeOwner)
    else some (⟨some { op with phase := .switched }, r.owner⟩, .writeSwitched)

/-- The directory of the staged generation after a step that writes in it, with the incarnation of
the new owner; `none` if what it makes is there already. -/
def StageStep.content (op : Operation) (incarnation : ID) (step : StageStep) (c : Content) :
    Option Content :=
  match step with
  | .mkdirRefs => if c.refs then none else some { c with refs := true }
  | .mkdirVersions => if c.versions then none else some { c with versions := true }
  | .mkdirStaging => if c.staging then none else some { c with staging := true }
  | .writeGeneration => some { c with record := some (incarnation, op.stagedGeneration) }
  | .populate => some { c with filled := true }
  | _ => some c

def StageStep.effect (step : StageStep) (op : Operation) (owner : Owner) (d : Disk) : Option Disk :=
  match step with
  | .writePreparing op' => some { d with operation := some op' }
  | .mkdirGenerations => some { d with root := true }
  | .removeAll => some { d with generations := d.generations.erase op.stagedGeneration }
  | .mkdirBase =>
    if d.root = false ∨ (d.generations.get op.stagedGeneration).isSome then none
    else some { d with
      generations := d.generations.set op.stagedGeneration ⟨false, false, false, none, false⟩ }
  | .mkdirRefs | .mkdirVersions | .mkdirStaging | .writeGeneration | .populate =>
    ((d.generations.get op.stagedGeneration).bind
      (step.content op (op.stagedIncarnation.getD owner.incarnation))).map fun c =>
        { d with generations := d.generations.set op.stagedGeneration c }
  | .writeStaged => some { d with operation := some { op with phase := .staged } }
  | .syncRoot | .syncGenerations | .syncBase | .syncStaged => some d

def StageStep.next : StageStep → Pc
  | .writePreparing _ => .stage .mkdirGenerations
  | .mkdirGenerations => .stage .syncRoot
  | .syncRoot => .stage .removeAll
  | .removeAll => .stage .syncGenerations
  | .syncGenerations => .stage .mkdirBase
  | .mkdirBase => .stage .syncBase
  | .syncBase => .stage .mkdirRefs
  | .mkdirRefs => .stage .mkdirVersions
  | .mkdirVersions => .stage .mkdirStaging
  | .mkdirStaging => .stage .writeGeneration
  | .writeGeneration => .stage .populate
  | .populate => .stage .syncStaged
  | .syncStaged => .stage .writeStaged
  | .writeStaged => .idle

def StageStep.remember (step : StageStep) (r : Restore) : Restore :=
  match step with
  | .writePreparing op => { r with operation := some op }
  | .writeStaged => { r with operation := r.operation.map fun op => { op with phase := .staged } }
  | _ => r

/-- The disk after a step of `Stage` that failed after its effect became visible. A removal leaves
part of the directory, a failed populate callback has not filled it. -/
def StageStep.failed (step : StageStep) (op : Operation) (owner : Owner) (d : Disk)
    (left : Option Content) : Disk :=
  match step with
  | .removeAll =>
    match left with
    | none => { d with generations := d.generations.erase op.stagedGeneration }
    | some c =>
      if (d.generations.get op.stagedGeneration).isSome then { d with
        generations := d.generations.set op.stagedGeneration { c with filled := false } }
      else d
  | .populate => d
  | _ => (step.effect op owner d).getD d

def StageStep.current (step : StageStep) (r : Restore) : Option Operation :=
  match step with
  | .writePreparing op => some op
  | _ => r.operation

def stageAdvance (d : Disk) (r : Restore) (step : StageStep) (outcome : Outcome) :
    Option (Disk × Process) :=
  match step.current r with
  | none => none
  | some op =>
    match outcome with
    | .ok => (step.effect op r.owner d).map fun d' => (d', ⟨step.remember r, step.next⟩)
    | .before => some (d, ⟨r, .idle⟩)
    | .after left => some (step.failed op r.owner d left, ⟨r, .idle⟩)

def CompleteStep.effect (step : CompleteStep) (op : Operation) (r : Restore) (d : Disk) : Disk :=
  match step with
  | .database => d
  | .writeDatabase => { d with operation := some op }
  | .writeOwner => { d with owner := switchedOwner op r.owner }
  | .writeSwitched => { d with operation := some op }
  | .remove => { d with operation := none }
  | .syncRemoved => d

def CompleteStep.next (step : CompleteStep) (op : Operation) (r : Restore) : Process :=
  match step with
  | .database => ⟨{ r with operation := some { op with phase := .database } },
      .complete .writeDatabase⟩
  | .writeDatabase => ⟨r, .complete .writeOwner⟩
  | .writeOwner => ⟨⟨some { op with phase := .switched }, switchedOwner op r.owner⟩,
      .complete .writeSwitched⟩
  | .writeSwitched => ⟨r, .complete .remove⟩
  | .remove => ⟨r, .complete .syncRemoved⟩
  | .syncRemoved => ⟨{ r with operation := none }, .idle⟩

def completeAdvance (d : Disk) (r : Restore) (step : CompleteStep) (outcome : Outcome) :
    Option (Disk × Process) :=
  match r.operation with
  | none => none
  | some op =>
    match outcome with
    | .ok => some (step.effect op r d, step.next op r)
    | .before => some (d, ⟨r, .idle⟩)
    | .after _ => some (step.effect op r d, ⟨r, .idle⟩)

def record (s : State) (r : Restore) (step : CompleteStep) (outcome : Outcome) : List Callback :=
  match step, r.operation with
  | .database, some op =>
    ⟨op.stagedGeneration, s.disk.owner.generation, decide (outcome = .ok)⟩ :: s.callbacks
  | _, _ => s.callbacks

def step (a : Args) (s : State) : Event → Option State
  | .reopen => if s.process.isSome then none else some { s with handle := s.disk.owner.incarnation }
  | .beginRestore =>
    match s.process, beginRestore a s.disk s.handle with
    | none, .ok r => some { s with process := some ⟨r, .idle⟩ }
    | _, _ => none
  | .close =>
    match s.process with
    | some ⟨_, .idle⟩ => some { s with process := none }
    | _ => none
  | .crash => some { s with process := none }
  | .stage generation incarnation =>
    match s.process with
    | some ⟨r, .idle⟩ =>
      if (s.disk.generations.get generation).isSome ∨ generation = s.disk.owner.generation ∨
          incarnation = s.disk.owner.incarnation then none
      else (stageCall a s.disk r generation incarnation).map fun first =>
        { s with process := some ⟨r, .stage first⟩ }
    | _ => none
  | .complete callback =>
    match s.process with
    | some ⟨r, .idle⟩ => (completeCall r callback).map fun (r', first) =>
        { s with process := some ⟨r', .complete first⟩ }
    | _ => none
  | .advance outcome =>
    match s.process with
    | some ⟨r, .stage step⟩ => (stageAdvance s.disk r step outcome).map fun (d, process) =>
        { s with disk := d, process := some process }
    | some ⟨r, .complete step⟩ => (completeAdvance s.disk r step outcome).map fun (d, process) =>
        { s with disk := d, process := some process, callbacks := record s r step outcome }
    | _ => none

end Scenery.Storage
