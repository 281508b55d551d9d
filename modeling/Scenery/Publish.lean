import Mathlib.Data.List.Sort
import Scenery.Recover

/-!
# Publication of generated files

`internal/workspacetx/publish.go`: `PublishContext` takes the workspace lock, stages the files it
will write, journals every change, and only then moves old files into the backup directory and
staged files into place.
-/

namespace Scenery

open Prog (call)

structure File where
  path : RelPath
  bytes : Bytes
  remove : Bool
  /-- the digest the caller verified: empty when unspecified, `absent` for a missing path -/
  expectedBeforeDigest : String
  deriving DecidableEq

def absentDigest : String := "absent"

structure Publisher where
  root : Path
  /-- what makes the name of the directory unique: chosen by `os.MkdirTemp`, or a digest of
  process, time and edits -/
  suffix : String
  owner : Owner
  process : Process

namespace Publisher

def directory (P : Publisher) : Path := transactionRoot P.root ++ ["change-" ++ P.suffix]

def receipt (P : Publisher) : Path := P.directory ++ ["committed"]

def lock (P : Publisher) : Lock := ⟨P.owner, P.directory⟩

def journal (P : Publisher) (entries : List Entry) : Journal :=
  ⟨P.owner, some P.receipt, P.directory, entries⟩

def preparedLock (P : Publisher) : Path := P.directory ++ ["lock"]

end Publisher

abbrev File.Before (a b : File) : Prop := a.path.text ≤ b.path.text

def committedMark : Data := .bytes "committed\n".toUTF8.toList

section

variable (digest : Data → String) (P : Publisher)

/-- The wait loop of `PublishContext`: recover what others left, then link the prepared
lock record. -/
def waitForLock : ℕ → TxProg Unit
  | 0 => do
    let _ ← call (.removeAll P.directory)
    .fail (.failedPrecondition ("timed out waiting for the workspace transaction owner; " ++
      "retry after the active operation completes"))
  | attempts + 1 => do
    match ← pollContext with
    | .error e =>
      let _ ← call (.removeAll P.directory)
      .fail (.sys e)
    | .ok () =>
      match ← (recoverOrReject digest P.root false P.process).attempt with
      | .error (.active _) => waitForLock attempts
      | .error e =>
        let _ ← call (.removeAll P.directory)
        .fail e
      | .ok () =>
        match ← link P.preparedLock (lockPath P.root) with
        | .ok () => pure ()
        | .error .exist => waitForLock attempts
        | .error e =>
          let _ ← call (.removeAll P.directory)
          .fail (.sys e)

def acquire (attempts : ℕ) : TxProg Unit := do
  unlessMissing (rejectPathSymlinks P.root (transactionRoot P.root))
  sys (.mkdirAll (transactionRoot P.root))
  sys (.mkdir P.directory)
  match ← writeFile P.preparedLock (.lock P.lock) with
  | .error e =>
    let _ ← call (.removeAll P.directory)
    .fail (.sys e)
  | .ok () => waitForLock digest P attempts

/-! ## Staging -/

def verifyExpectedBefore (file : File) (before : Option Data) : Except TxError Unit :=
  if file.expectedBeforeDigest = "" then .ok ()
  else if (match before with
      | some data => digest data
      | none => absentDigest) ≠ file.expectedBeforeDigest then
    .error (.failedPrecondition
      ("generated output changed after ownership verification: " ++ file.path.text))
  else .ok ()

def readBefore (path : Path) (relative : RelPath) : TxProg (Option Data) := do
  match ← lstat path with
  | .error .notExist => pure none
  | .error e => .fail (.sys e)
  | .ok .regular =>
    let before ← sys (.readFile path)
    pure (some before)
  | .ok _ => .fail (.failedPrecondition
      ("generated output is not a regular file: " ++ relative.text))

def unchanged (file : File) (before : Option Data) : Bool :=
  match before with
  | none => file.remove
  | some data => !file.remove && data = .bytes file.bytes

def newEntry (index : ℕ) (file : File) (before : Option Data) : Entry where
  path := file.path
  stage := stagePath P.directory index
  backup := backupPath P.directory index
  beforeExists := before.isSome
  beforeDigest := digest (before.getD (.bytes []))
  afterExists := !file.remove
  afterDigest := digest (.bytes file.bytes)

def stageEntry (file : File) (entry : Entry) : TxProg Unit := do
  sys (.mkdirAll entry.backup.dropLast)
  if file.remove then pure ()
  else do
    sys (.mkdirAll entry.stage.dropLast)
    sys (.writeFile entry.stage (.bytes file.bytes))

def inspectFile (file : File) : TxProg (Option Data) := do
  match confinedPath P.root file.path with
  | .error e => .fail e
  | .ok path =>
    unlessMissing (rejectPathSymlinks P.root path)
    let before ← readBefore path file.path
    match verifyExpectedBefore digest file before with
    | .error e => .fail e
    | .ok () => pure before

def stageFiles : Option String → List Entry → List File → TxProg (List Entry)
  | _, entries, [] => pure entries
  | last, entries, file :: rest => do
    sys .poll
    if last = some file.path.text then
      .fail (.failedPrecondition ("duplicate generated output " ++ file.path.text))
    else do
      let before ← inspectFile digest P file
      if unchanged file before then stageFiles (some file.path.text) entries rest
      else do
        let entry := newEntry digest P entries.length file before
        stageEntry file entry
        stageFiles (some file.path.text) (entries ++ [entry]) rest

/-! ## Installation -/

def rollback (cause : TxError) : TxProg Unit := do
  match ← (forceRecover digest P.root P.process).attempt with
  | .ok () => .fail cause
  | .error e => .fail (.attention cause e)

def backUp (path : Path) (entry : Entry) : TxProg Unit :=
  if entry.beforeExists then do
    match ← (regularFileBytes path entry.path).attempt with
    | .error _ => .fail (.failedPrecondition
        ("generated output changed during publication: " ++ entry.path.text))
    | .ok current =>
      if digest current ≠ entry.beforeDigest then
        .fail (.failedPrecondition
          ("generated output changed during publication: " ++ entry.path.text))
      else sys (.rename path entry.backup)
  else do
    if ← pathExists path then
      .fail (.failedPrecondition
        ("generated output appeared during publication: " ++ entry.path.text))
    else pure ()

def install (path : Path) (entry : Entry) : TxProg Unit :=
  if entry.afterExists then do
    sys (.mkdirAll path.dropLast)
    sys (.rename entry.stage path)
  else pure ()

def publishEntry (entry : Entry) : TxProg Unit := do
  unlessMissing (rejectPathSymlinks P.root (joinRoot P.root entry.path))
  backUp digest (joinRoot P.root entry.path) entry
  install (joinRoot P.root entry.path) entry

def publishEntries : List Entry → TxProg Unit
  | [] => pure ()
  | entry :: rest => do
    publishEntry digest P entry
    publishEntries rest

def publishJournaled (journal : Journal) : TxProg Unit := do
  match ← (do
      publishEntries digest P journal.entries
      sys (.writeFile P.receipt committedMark)).attempt with
  | .ok () => sys (.remove (journalPath P.root))
  | .error cause => rollback digest P cause

def cleanup : TxProg Unit := do
  let _ ← call (.removeAll P.directory)
  let _ ← call (.remove (lockPath P.root))
  pure ()

def stageJournal (files : List File) : TxProg (Option Journal) := do
  sys .poll
  let entries ← stageFiles digest P none [] (files.insertionSort File.Before)
  if entries = [] then pure none
  else do
    sys (.writeFile (journalPath P.root) (.journal (P.journal entries)))
    pure (some (P.journal entries))

def publishOwned (files : List File) : TxProg Unit := do
  match ← (stageJournal digest P files).attempt with
  | .error e =>
    cleanup P
    .fail e
  | .ok none => cleanup P
  | .ok (some journal) =>
    publishJournaled digest P journal
    cleanup P

def publishContext (attempts : ℕ) (files : List File) : TxProg Unit := do
  sys .poll
  acquire digest P attempts
  publishOwned digest P files

end

end Scenery
