import Scenery.Publish

/-!
# Commitment of planned source edits

`internal/evolution`: `commitPlannedEdits` is the second writer of workspace journals, and
`applyChangePlanWithOptions` its caller.
-/

namespace Scenery

open Prog (call)

structure SourceEdit where
  path : RelPath
  beforeDigest : String
  after : Bytes
  beforeExists : Bool
  afterExists : Bool
  deriving DecidableEq

abbrev SourceEdit.Before (a b : SourceEdit) : Prop := a.path.text ≤ b.path.text

namespace Evolution

def cleanStep (kept : List String) (part : String) : List String :=
  if part = "" ∨ part = "." then kept
  else if part = ".." ∧ kept ≠ [] ∧ kept.getLastD "" ≠ ".." then kept.dropLast
  else kept ++ [part]

def clean (relative : RelPath) : RelPath :=
  if relative.foldl cleanStep [] = [] then ["."] else relative.foldl cleanStep []

def isAbs (relative : RelPath) : Bool := relative.head? = some "" && 1 < relative.length

def checkParents (relative : RelPath) (current : Path) : List String → TxProg Unit
  | [] => pure ()
  | part :: rest => do
    match ← lstat (current ++ [part]) with
    | .error .notExist => pure ()
    | .error e => .fail (.sys e)
    | .ok .symlink => .fail (.symlinkEscape relative)
    | .ok _ => checkParents relative (current ++ [part]) rest

def confinedPath (root : Path) (relative : RelPath) : TxProg Path :=
  if isAbs relative ∨ (clean relative).head? = some ".." then .fail .pathEscape
  else do
    checkParents relative root (clean relative).dropLast
    pure (joinRoot root (clean relative))

end Evolution

abbrev createFile (path : Path) : TxProg (Except Errno Unit) :=
  call (Op.createExcl path (.bytes []))

abbrev writeCreated (path : Path) (data : Data) : TxProg (Except Errno Unit) :=
  call (Op.write path data)

abbrev rename (old new : Path) : TxProg (Except Errno Unit) := call (Op.rename old new)

abbrev mkdirAll (path : Path) : TxProg (Except Errno Unit) := call (Op.mkdirAll path)

def writeSyncedFile (path : Path) (data : Data) : TxProg Unit := do
  sys (.createExcl path (.bytes []))
  sys (.write path data)

def journalTemporary (root : Path) : Path := transactionRoot root ++ ["change-apply.json.tmp"]

def writeJournal (root : Path) (journal : Journal) : TxProg Unit := do
  let _ ← call (.remove (journalTemporary root))
  writeSyncedFile (journalTemporary root) (.journal journal)
  match ← rename (journalTemporary root) (journalPath root) with
  | .ok () => pure ()
  | .error e =>
    let _ ← call (.remove (journalTemporary root))
    .fail (.sys e)

section

variable (digest : Data → String) (P : Publisher)

/-! ## `commitPlannedEdits` -/

def releaseLock : TxProg Unit := do
  let _ ← call (.remove (lockPath P.root))
  pure ()

/-- `commitPlannedEdits` up to the moment the lock is held. -/
def lockWorkspace : TxProg Unit := do
  recoverOrReject digest P.root false P.process
  sys (.mkdirAll (transactionRoot P.root))
  rejectPathSymlinks P.root (transactionRoot P.root)
  match ← createFile (lockPath P.root) with
  | .error e => .fail (.lockTaken e)
  | .ok () =>
    match ← writeCreated (lockPath P.root) (.lock P.lock) with
    | .error e =>
      releaseLock P
      .fail (.sys e)
    | .ok () => pure ()

def checkReceipt : Option Path → TxProg Unit
  | none => pure ()
  | some receipt => do
    match ← lstat receipt with
    | .ok _ => .fail .receiptExists
    | .error .notExist => pure ()
    | .error e => .fail (.sys e)

def checkPlanned (path : Path) (edit : SourceEdit) : TxProg Unit := do
  match ← lstat path with
  | .error .notExist =>
    if edit.beforeExists then .fail (.revisionConflict (edit.path.text ++ " existence changed"))
    else pure ()
  | .error e => .fail (.sys e)
  | .ok .regular =>
    if edit.beforeExists then do
      let before ← sys (.readFile path)
      if digest before ≠ edit.beforeDigest then
        .fail (.revisionConflict (edit.path.text ++ " changed"))
      else pure ()
    else .fail (.revisionConflict (edit.path.text ++ " existence changed"))
  | .ok _ => .fail (.notRegular edit.path)

def editEntry (index : ℕ) (edit : SourceEdit) : Entry where
  path := edit.path
  stage := stagePath P.directory index
  backup := backupPath P.directory index
  beforeDigest := edit.beforeDigest
  afterDigest := digest (.bytes edit.after)
  beforeExists := edit.beforeExists
  afterExists := edit.afterExists

def stageEdits : List Entry → List SourceEdit → TxProg (List Entry)
  | entries, [] => pure entries
  | entries, edit :: rest => do
    let path ← Evolution.confinedPath P.root edit.path
    checkPlanned digest path edit
    if edit.afterExists then writeSyncedFile (stagePath P.directory entries.length) (.bytes edit.after)
    else pure ()
    stageEdits (entries ++ [editEntry digest P entries.length edit]) rest

def resolvedPath : Except TxError Path → Path
  | .ok path => path
  | .error _ => []

def moveAway (path : Path) (entry : Entry) : TxProg Unit :=
  if entry.beforeExists then sys (.rename path entry.backup) else pure ()

def installEdit (entry : Entry) : TxProg Unit := do
  let resolved ← (Evolution.confinedPath P.root entry.path).attempt
  moveAway (resolvedPath resolved) entry
  install (resolvedPath resolved) entry

def installEdits : List Entry → TxProg Unit
  | [] => pure ()
  | entry :: rest => do
    installEdit P entry
    installEdits rest

def rollbackCommitted : TxProg Unit := do
  let _ ← (forceRecover digest P.root P.process).attempt
  pure ()

def editJournal (receipt : Option Path) (entries : List Entry) : Journal :=
  ⟨P.owner, receipt, P.directory, entries⟩

def stageEditJournal (edits : List SourceEdit) (receipt : Option Path) : TxProg (List Entry) := do
  sys (.mkdirAll (P.directory ++ ["backups"]))
  let entries ← stageEdits digest P [] (edits.insertionSort SourceEdit.Before)
  writeJournal P.root (editJournal P receipt entries)
  pure entries

def commitOwned (edits : List SourceEdit) (receipt : Option Path) : TxProg Unit := do
  match ← (checkReceipt receipt).attempt with
  | .error e =>
    releaseLock P
    .fail e
  | .ok () =>
    match ← mkdirAll (P.directory ++ ["staged"]) with
    | .error e =>
      releaseLock P
      .fail (.sys e)
    | .ok () =>
      match ← (stageEditJournal digest P edits receipt).attempt with
      | .error e =>
        let _ ← call (.removeAll P.directory)
        releaseLock P
        .fail e
      | .ok entries =>
        match ← (installEdits P entries).attempt with
        | .ok () => pure ()
        | .error e =>
          rollbackCommitted digest P
          .fail e

def commitPlannedEdits (edits : List SourceEdit) (receipt : Option Path) : TxProg Unit := do
  lockWorkspace digest P
  commitOwned digest P edits receipt

def finalize : TxProg Unit := do
  let _ ← call (.removeAll P.directory)
  let _ ← call (.remove (journalPath P.root))
  releaseLock P

/-! ## `applyChangePlanWithOptions` -/

def receiptTemporary (receipt : Path) (stamp : String) : Path :=
  receipt.dropLast ++ [receipt.getLastD "" ++ ".tmp-" ++ stamp]

def writeChangeReceiptOnce (root receipt : Path) (stamp : String) (data : Bytes) : TxProg Unit := do
  sys (.mkdirAll receipt.dropLast)
  rejectPathSymlinks root receipt.dropLast
  match ← lstat receipt with
  | .ok _ => .fail .receiptExists
  | .error .notExist =>
    sys (.createExcl (receiptTemporary receipt stamp) (.bytes []))
    match ← writeCreated (receiptTemporary receipt stamp) (.bytes data) with
    | .error e =>
      let _ ← call (.remove (receiptTemporary receipt stamp))
      .fail (.sys e)
    | .ok () =>
      match ← link (receiptTemporary receipt stamp) receipt with
      | .error e =>
        let _ ← call (.remove (receiptTemporary receipt stamp))
        .fail (if e = .exist then .receiptExists else .sys e)
      | .ok () =>
        let _ ← call (.remove (receiptTemporary receipt stamp))
        pure ()
  | .error e => .fail (.sys e)

def appliedPlanPath (root : Path) (name : String) : Path :=
  root ++ [".scenery", "changes", "applied", name]

structure Apply where
  edits : List SourceEdit
  name : String
  data : Bytes
  stamp : String
  valid : Bool

def applyCommitted (a : Apply) : TxProg Unit := do
  if ¬ a.valid then do
    rollbackCommitted digest P
    .fail (.internal "applied revisions differ from plan")
  else do
    match ← (writeChangeReceiptOnce P.root (appliedPlanPath P.root a.name) a.stamp a.data).attempt with
    | .error e =>
      rollbackCommitted digest P
      .fail e
    | .ok () => finalize P

def applyOwned (a : Apply) : TxProg Unit := do
  commitOwned digest P a.edits (some (appliedPlanPath P.root a.name))
  applyCommitted digest P a

/-- The commit loop of `applyChangePlanWithOptions`: an active transaction of someone else
is waited for, a bounded number of times. Finding the receipt of an earlier apply ends the
call without a write and is left out. -/
def applyChangePlanWithOptions (a : Apply) : ℕ → TxProg Unit
  | 0 => .fail (.failedPrecondition "workspace change transaction is active")
  | attempts + 1 => do
    match ← (lockWorkspace digest P).attempt with
    | .error (.active _) => applyChangePlanWithOptions a attempts
    | .error (.lockTaken _) => applyChangePlanWithOptions a attempts
    | .error e => .fail e
    | .ok () => applyOwned digest P a

end

end Scenery
