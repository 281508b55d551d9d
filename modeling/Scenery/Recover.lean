import Scenery.Disk
import Scenery.Ownership

/-!
# Recovery of an interrupted workspace transaction

`internal/workspacetx/recover.go` and `metadata.go`, with `scn.RejectPathSymlinks`.
-/

namespace Scenery

abbrev Bytes : Type := List UInt8

abbrev RelPath : Type := List String

def RelPath.text (relative : RelPath) : String := String.intercalate "/" relative

/-! ## Records -/

structure Lock where
  owner : Owner
  transactionDir : Path
  deriving DecidableEq

structure Entry where
  path : RelPath
  stage : Path
  backup : Path
  beforeDigest : String
  afterDigest : String
  beforeExists : Bool
  afterExists : Bool
  deriving DecidableEq

structure Journal where
  owner : Owner
  receipt : Option Path
  directory : Path
  entries : List Entry
  deriving DecidableEq

inductive Data where
  | bytes : Bytes → Data
  | lock : Lock → Data
  | journal : Journal → Data
  | legacy : (apiVersion : String) → Data
  deriving DecidableEq

inductive TxError where
  | failedPrecondition : String → TxError
  /-- `failed_precondition: workspace transaction artifact path is invalid: %w` -/
  | artifactPath : TxError → TxError
  /-- `failed_precondition: workspace transaction target is invalid: %w` -/
  | targetPath : TxError → TxError
  | pathEscapes : RelPath → TxError
  | escapesWorkspace : TxError
  | containsSymlink : Path → TxError
  | active : ℤ → TxError
  | legacyState : Path → TxError
  | attention : TxError → TxError → TxError
  | lockTaken : Errno → TxError
  | receiptExists : TxError
  | pathEscape : TxError
  | symlinkEscape : RelPath → TxError
  | notRegular : RelPath → TxError
  | revisionConflict : String → TxError
  | internal : String → TxError
  | sys : Errno → TxError
  deriving DecidableEq

abbrev TxProg (α : Type) : Type := Prog (Op Data) Op.Reply TxError α

open Prog (call)

abbrev lstat (path : Path) : TxProg (Except Errno Info) := call (Op.lstat path)

abbrev readFile (path : Path) : TxProg (Except Errno Data) := call (Op.readFile path)

abbrev pollContext : TxProg (Except Errno Unit) := call Op.poll

abbrev link (old new : Path) : TxProg (Except Errno Unit) := call (Op.link old new)

abbrev writeFile (path : Path) (data : Data) : TxProg (Except Errno Unit) :=
  call (Op.writeFile path data)

def sys (o : Op Data) : TxProg o.Result := do
  match ← call o with
  | .ok x => pure x
  | .error e => .fail (.sys e)

def unlessMissing (p : TxProg Unit) : TxProg Unit := do
  match ← p.attempt with
  | .ok () => pure ()
  | .error (.sys .notExist) => pure ()
  | .error e => .fail e

def transactionRoot (root : Path) : Path := root ++ [".scenery", "transactions"]

def lockPath (root : Path) : Path := transactionRoot root ++ ["change.lock"]

def journalPath (root : Path) : Path := transactionRoot root ++ ["change-apply.json"]

def properPart (part : String) : Bool := part ≠ "" && part ≠ "." && part ≠ ".."

def joinRoot (root : Path) (relative : RelPath) : Path :=
  if relative = ["."] then root else root ++ relative

def confinedPath (root : Path) (relative : RelPath) : Except TxError Path :=
  if relative = ["."] ∨ relative ≠ [] ∧ relative.all properPart then .ok (joinRoot root relative)
  else .error (.pathEscapes relative)

def rejectParts (relative current : Path) : List String → TxProg Unit
  | [] => pure ()
  | part :: rest => do
    match ← lstat (current ++ [part]) with
    | .error e => .fail (.sys e)
    | .ok .symlink => .fail (.containsSymlink relative)
    | .ok _ => rejectParts relative (current ++ [part]) rest

def rejectPathSymlinks (root target : Path) : TxProg Unit :=
  if root <+: target then rejectParts (target.drop root.length) root (target.drop root.length)
  else .fail .escapesWorkspace

def pathExists (path : Path) : TxProg Bool := do
  match ← lstat path with
  | .ok _ => pure true
  | .error _ => pure false

def regularFileBytes (path : Path) (relative : RelPath) : TxProg Data := do
  match ← lstat path with
  | .ok .regular => sys (.readFile path)
  | _ => .fail (.failedPrecondition
      ("interrupted transaction target " ++ relative.text ++ " is not a regular file"))

/-- `lockRecovery`: open the gate file. Taking the kernel lock on it has no effect on the
tree; its mutual exclusion is the subject of `Scenery.Exclusion`. -/
def lockRecovery (root : Path) : TxProg Unit := do
  unlessMissing (rejectPathSymlinks root (root ++ ["recovery.lock"]))
  sys (.openFile (root ++ ["recovery.lock"]) (.bytes []))

/-! ## Validation of the metadata -/

def readLock (path : Path) : TxProg (Option Lock) := do
  match ← lstat path with
  | .error .notExist => pure none
  | .error e => .fail (.sys e)
  | .ok .regular =>
    match ← sys (.readFile path) with
    | .lock lock => pure (some lock)
    | .legacy version =>
      if version = "scenery.change-transaction-lock/v1" then .fail (.legacyState path)
      else .fail (.failedPrecondition "invalid workspace change transaction lock")
    | _ => .fail (.failedPrecondition "invalid workspace change transaction lock")
  | .ok _ => .fail (.failedPrecondition "invalid workspace change transaction lock")

def decodeJournal (path : Path) : Except Errno Data → TxProg (Option Journal)
  | .error .notExist => pure none
  | .error e => .fail (.sys e)
  | .ok (.journal journal) => pure (some journal)
  | .ok (.legacy version) =>
    if version = "scenery.change-transaction/v1" then .fail (.legacyState path)
    else .fail (.failedPrecondition "invalid workspace change transaction journal")
  | .ok _ => .fail (.failedPrecondition "invalid workspace change transaction journal")

def readJournal (root : Path) : TxProg (Option Journal) := do
  match ← lstat (journalPath root) with
  | .error .notExist | .ok .regular =>
    let read ← readFile (journalPath root)
    decodeJournal (journalPath root) read
  | .ok _ => .fail (.failedPrecondition "invalid workspace change transaction journal")
  | .error e => .fail (.sys e)

def hasChangePrefix (name : String) : Bool := "change-".toList.isPrefixOf name.toList

def validateDirectory (root directory : Path) : TxProg Unit :=
  if directory.dropLast ≠ root ∨ ¬ hasChangePrefix (directory.getLastD "") ∨ ¬ root <+: directory
  then .fail (.failedPrecondition "workspace transaction directory is invalid")
  else do
    match ← lstat directory with
    | .ok .symlink => .fail (.failedPrecondition "workspace transaction directory is a symlink")
    | .ok _ => pure ()
    | .error .notExist => pure ()
    | .error e => .fail (.sys e)

def validateArtifact (root artifact : Path) : TxProg Unit := do
  match ← (rejectPathSymlinks root artifact.dropLast).attempt with
  | .error e => .fail (.artifactPath e)
  | .ok () =>
    match ← lstat artifact with
    | .ok .regular => pure ()
    | .ok _ => .fail (.failedPrecondition "workspace transaction artifact is invalid")
    | .error .notExist => pure ()
    | .error e => .fail (.sys e)

def stagePath (directory : Path) (index : ℕ) : Path := directory ++ ["staged", pad6 index]

def backupPath (directory : Path) (index : ℕ) : Path := directory ++ ["backups", pad6 index]

def validateEntries (root directory : Path) : ℕ → List Entry → TxProg Unit
  | _, [] => pure ()
  | index, entry :: rest =>
    if entry.stage ≠ stagePath directory index ∨ entry.backup ≠ backupPath directory index ∨
        ¬ directory <+: entry.stage ∨ ¬ directory <+: entry.backup
    then .fail (.failedPrecondition "workspace transaction artifact path is invalid")
    else do
      validateArtifact (transactionRoot root) entry.stage
      validateArtifact (transactionRoot root) entry.backup
      match confinedPath root entry.path with
      | .error e => .fail (.targetPath e)
      | .ok _ => validateEntries root directory (index + 1) rest

def validateReceipt (root : Path) : Option Path → TxProg Unit
  | none => pure ()
  | some receipt =>
    if ¬ root <+: receipt then
      .fail (.failedPrecondition "workspace transaction receipt escapes the app root")
    else do
      if ← pathExists receipt then
        match ← (rejectPathSymlinks root receipt).attempt with
        | .ok () => pure ()
        | .error _ => .fail (.failedPrecondition "workspace transaction receipt is invalid")
      else pure ()

def validateLock (root : Path) (journal : Journal) : Option Lock → TxProg Unit
  | none => pure ()
  | some lock => do
    validateDirectory (transactionRoot root) lock.transactionDir
    if lock.transactionDir ≠ journal.directory then
      .fail (.failedPrecondition "workspace transaction lock and journal disagree")
    else pure ()

def validateMetadata (root : Path) (lock : Option Lock) (journal : Journal) : TxProg Unit := do
  validateDirectory (transactionRoot root) journal.directory
  validateLock root journal lock
  validateReceipt root journal.receipt
  validateEntries root journal.directory 0 journal.entries

/-! ## Rollback -/

section

variable (digest : Data → String)

def verifyTarget (target : Path) (entry : Entry) : TxProg Unit := do
  if ← pathExists target then
    let current ← regularFileBytes target entry.path
    if ¬ entry.afterExists then
      .fail (.failedPrecondition
        ("interrupted transaction target " ++ entry.path.text ++ " was created externally"))
    else if digest current ≠ entry.afterDigest then
      .fail (.failedPrecondition
        ("interrupted transaction target " ++ entry.path.text ++ " was changed externally"))
    else pure ()
  else if entry.afterExists then do
    if ← pathExists entry.stage then pure ()
    else .fail (.failedPrecondition
      ("interrupted transaction target " ++ entry.path.text ++ " disappeared"))
  else pure ()

def restoreBackup (target : Path) (entry : Entry) : TxProg Unit := do
  match ← (regularFileBytes entry.backup entry.path).attempt with
  | .error _ => .fail (.failedPrecondition
      ("interrupted transaction backup " ++ entry.path.text ++ " was changed externally"))
  | .ok backup =>
    if digest backup ≠ entry.beforeDigest then
      .fail (.failedPrecondition
        ("interrupted transaction backup " ++ entry.path.text ++ " was changed externally"))
    else do
      verifyTarget digest target entry
      unlessMissing (sys (.remove target))
      sys (.mkdirAll target.dropLast)
      sys (.rename entry.backup target)

def checkUntouched (target : Path) (entry : Entry) : TxProg Unit := do
  if ← pathExists target then
    match ← (regularFileBytes target entry.path).attempt with
    | .error _ => .fail (.failedPrecondition
        ("interrupted transaction target " ++ entry.path.text ++ " was changed externally"))
    | .ok current =>
      if digest current ≠ entry.beforeDigest then
        .fail (.failedPrecondition
          ("interrupted transaction target " ++ entry.path.text ++ " was changed externally"))
      else pure ()
  else .fail (.failedPrecondition
    ("interrupted transaction lost both target and backup for " ++ entry.path.text))

def removeCreated (target : Path) (entry : Entry) : TxProg Unit := do
  if ← pathExists target then
    let current ← regularFileBytes target entry.path
    if digest current ≠ entry.afterDigest then
      .fail (.failedPrecondition
        ("interrupted transaction target " ++ entry.path.text ++ " was changed externally"))
    else sys (.remove target)
  else pure ()

def rollbackEntry (root : Path) (entry : Entry) : TxProg Unit :=
  match confinedPath root entry.path with
  | .error e => .fail e
  | .ok target => do
    if ← pathExists entry.backup then restoreBackup digest target entry
    else if entry.beforeExists then checkUntouched digest target entry
    else removeCreated digest target entry

def rollbackEntries (root : Path) : List Entry → TxProg Unit
  | [] => pure ()
  | entry :: rest => do
    rollbackEntry digest root entry
    rollbackEntries root rest

/-! ## The recovery run -/

def discardJournal (root : Path) (journal : Journal) : TxProg Unit := do
  sys (.remove (journalPath root))
  let _ ← call (.removeAll journal.directory)
  let _ ← call (.remove (lockPath root))
  pure ()

def receiptExists : Option Path → TxProg Bool
  | none => pure false
  | some receipt => pathExists receipt

def settleJournal (root : Path) (journal : Journal) : TxProg Unit := do
  if ← receiptExists journal.receipt then discardJournal root journal
  else do
    rollbackEntries digest root journal.entries.reverse
    discardJournal root journal

def recoverJournal (root : Path) (force allowCurrentOwner : Bool)
    (inspectOwner : Owner → OwnerState) (lock : Option Lock) (journal : Journal) :
    TxProg Unit := do
  validateMetadata root lock journal
  if force then settleJournal digest root journal
  else match inspectOwner journal.owner with
    | .current => if allowCurrentOwner then pure () else .fail (.active journal.owner.pid)
    | .live => .fail (.active journal.owner.pid)
    | .unknown => .fail (.active journal.owner.pid)
    | .recoverable => settleJournal digest root journal

def recoverLockOnly (root : Path) (force allowCurrentOwner : Bool)
    (inspectOwner : Owner → OwnerState) : Option Lock → TxProg Unit
  | none => pure ()
  | some lock =>
    if ¬ force ∧ inspectOwner lock.owner = .current ∧ allowCurrentOwner then pure ()
    else do
      validateDirectory (transactionRoot root) lock.transactionDir
      let _ ← call (.removeAll lock.transactionDir)
      let _ ← call (.remove (lockPath root))
      pure ()

def recoverUnlocked (root : Path) (force allowCurrentOwner : Bool)
    (inspectOwner : Owner → OwnerState) (lock : Option Lock) : TxProg Unit := do
  match ← readJournal root with
  | none => recoverLockOnly root force allowCurrentOwner inspectOwner lock
  | some journal => recoverJournal digest root force allowCurrentOwner inspectOwner lock journal

def ownerBlocks (force allowCurrentOwner : Bool) (inspectOwner : Owner → OwnerState)
    (lock : Lock) : Bool :=
  !force && match inspectOwner lock.owner with
    | .current => !allowCurrentOwner
    | .live | .unknown => true
    | .recoverable => false

def recoverLocked (root : Path) (force allowCurrentOwner : Bool)
    (inspectOwner : Owner → OwnerState) : TxProg Unit := do
  match ← readLock (lockPath root) with
  | none => recoverUnlocked digest root force allowCurrentOwner inspectOwner none
  | some lock =>
    if ownerBlocks force allowCurrentOwner inspectOwner lock then .fail (.active lock.owner.pid)
    else recoverUnlocked digest root force allowCurrentOwner inspectOwner (some lock)

def recoverWithOwnerInspector (root : Path) (force allowCurrentOwner : Bool)
    (inspectOwner : Owner → OwnerState) : TxProg Unit := do
  match ← lstat (transactionRoot root) with
  | .error .notExist => pure ()
  | .error e => .fail (.sys e)
  | .ok .dir =>
    rejectPathSymlinks root (transactionRoot root)
    lockRecovery (transactionRoot root)
    recoverLocked digest root force allowCurrentOwner inspectOwner
  | .ok _ => .fail (.failedPrecondition "workspace transaction root is invalid")

/-- `RecoverOrReject`; `currentOwnerRead` is the read mode of a transaction's own reads. -/
def recoverOrReject (root : Path) (currentOwnerRead : Bool) (p : Process) : TxProg Unit :=
  recoverWithOwnerInspector digest root false currentOwnerRead (inspectOwnerState p)

def forceRecover (root : Path) (p : Process) : TxProg Unit :=
  recoverWithOwnerInspector digest root true false (inspectOwnerState p)

end

end Scenery
