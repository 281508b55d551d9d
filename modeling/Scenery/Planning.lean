import Scenery.Commit
import Scenery.Inodes

/-!
# Planning of changes in a clone of the workspace

`internal/evolution`: `planChanges` plans a change request in a clone of the workspace.
-/

namespace Scenery

open Prog (call visit)

/-! ## The two trees -/

inductive Tree where
  | root
  | clone
  deriving DecidableEq

abbrev Name : Type := Tree × RelPath

abbrev Files : Type := Inodes Name Bytes

abbrev Sources : Type := RelPath → Option Bytes

inductive PlanError where
  | workspaceSymlink (relative : RelPath)
  | editEscapes (path : RelPath)
  | editManaged (path : RelPath)
  | editDuplicate (relative : RelPath)
  | editSymlink (relative : RelPath)
  | editNotRegular (relative : RelPath)
  | editChanged (relative : RelPath)
  | file (name : Name)
  | refused (message : String)
  deriving DecidableEq

abbrev PlanProg (α : Type) : Type := Prog (FileOp Name Bytes) FileOp.Reply PlanError α

/-- A rewriting of sources by `applySemanticOperation`: the files it writes, in order. -/
abbrev SemanticEdit : Type := Sources → Except PlanError (List (RelPath × Bytes))

structure ChangeRequest where
  operations : List SemanticEdit
  additionalEdits : List SourceEdit

structure Toolchain where
  /-- `compiler.Compile` of the workspace, with the revision checks of the request -/
  compile : Sources → Except PlanError Unit
  /-- the sources `scn.Format` visits: `formattingPaths` and `localModuleFormattingPaths` -/
  sourceFiles : Sources → Except PlanError (List RelPath)
  canonicalFormat : Bytes → RelPath → Except PlanError Bytes
  /-- `compiler.Compile` of the clone, with the checks of the predicted result -/
  predict : Sources → Except PlanError Unit
  byteDigest : Bytes → String

structure Site where
  walk : List RelPath
  nodup : walk.Nodup
  interrupted : List (RelPath × Option Bytes)
  linkable : RelPath → Bool

def Site.machine (S : Site) : Machine (FileOp Name Bytes) FileOp.Reply Files :=
  FileOp.machine fun n => S.linkable n.2

/-! The file operations as programs. -/

namespace Plan

abbrev lstat (n : Name) : PlanProg (Option Info) := call (FileOp.lstat n)

abbrev readFile (n : Name) : PlanProg (Option Bytes) := call (FileOp.readFile n)

abbrev snapshot : PlanProg (Name → Option Bytes) := call FileOp.snapshot

abbrev link (old new : Name) : PlanProg Bool := call (FileOp.link old new)

abbrev replace (n : Name) (bytes : Bytes) : PlanProg Unit := call (FileOp.replace n bytes)

abbrev writeFile (n : Name) (bytes : Bytes) : PlanProg Bool := call (FileOp.writeFile n bytes)

abbrev rename (old new : Name) : PlanProg Bool := call (FileOp.rename old new)

abbrev remove (n : Name) : PlanProg Unit := call (FileOp.remove n)

abbrev removeAll (P : Name → Bool) : PlanProg Unit := call (FileOp.removeAll P)

end Plan

def verdict {α : Type} : Except PlanError α → PlanProg α
  | .ok a => .ret a
  | .error e => .fail e

def must (name : Name) (done : Bool) : PlanProg Unit :=
  if done then .ret () else .fail (.file name)

def isManaged (part : String) : Bool := part ∈ [".git", ".scenery", "node_modules"]

def cloneEntry (_ : List RelPath) (relative : RelPath) : PlanProg Unit :=
  if relative.dropLast.any isManaged then .ret ()
  else do
    match ← Plan.lstat (.root, relative) with
    | some .symlink => .fail (.workspaceSymlink relative)
    | some .regular =>
      if ← Plan.link (.root, relative) (.clone, relative) then .ret ()
      else do
        match ← Plan.readFile (.root, relative) with
        | none => .fail (.file (.root, relative))
        | some bytes => must (.clone, relative) (← Plan.writeFile (.clone, relative) bytes)
    | _ => .ret ()

def inClone (n : Name) : Bool := n.1 = .clone

def cloneWorkspace (S : Site) : PlanProg Unit := do
  Plan.removeAll inClone
  match ← (visit cloneEntry [] S.walk).attempt with
  | .ok () => .ret ()
  | .error e =>
    Plan.removeAll inClone
    .fail e

def atomicWrites : List (RelPath × Bytes) → PlanProg Unit
  | [] => .ret ()
  | (path, bytes) :: rest => do
    Plan.replace (.clone, path) bytes
    atomicWrites rest

def cloneSources : PlanProg Sources := do
  let files ← Plan.snapshot
  .ret fun path => files (.clone, path)

def applySemanticOperation (operation : SemanticEdit) : PlanProg Unit := do
  atomicWrites (← verdict (operation (← cloneSources)))

def applyOperations : List SemanticEdit → PlanProg Unit
  | [] => .ret ()
  | operation :: rest => do
    applySemanticOperation operation
    applyOperations rest

def formatTemporary (path : RelPath) : RelPath :=
  path.dropLast ++ [path.getLastD "" ++ ".scenery-fmt-tmp"]

def writeFormatted (path : RelPath) (after : Bytes) : PlanProg Unit := do
  must (.clone, formatTemporary path)
    (← Plan.writeFile (.clone, formatTemporary path) after)
  must (.clone, path) (← Plan.rename (.clone, formatTemporary path) (.clone, path))

section

variable (T : Toolchain)

def reformatted (path : RelPath) : PlanProg (Option Bytes) := do
  match ← Plan.readFile (.clone, path) with
  | none => .fail (.file (.clone, path))
  | some before =>
    let after ← verdict (T.canonicalFormat before path)
    .ret (if before = after then none else some after)

def formatSource (seen : List RelPath) (path : RelPath) : PlanProg Unit :=
  if path ∈ seen then .ret ()
  else do
    match ← reformatted T path with
    | none => .ret ()
    | some after => writeFormatted path after

def formatSourcePaths (paths : List RelPath) : PlanProg Unit := visit (formatSource T) [] paths

def splitPath (text : String) : RelPath := (text.toList.splitOn '/').map String.ofList

def SourceEdit.relative (edit : SourceEdit) : RelPath :=
  splitPath (clean (trimSpace edit.path.text))

def checkEditPath (earlier : List SourceEdit) (edit : SourceEdit) : Except PlanError RelPath :=
  if edit.relative = [""] ∨ edit.relative = ["."] ∨ edit.relative.head? = some "" ∨
      edit.relative.head? = some ".." then
    .error (.editEscapes edit.path)
  else if (edit.relative.head?).any isManaged then .error (.editManaged edit.path)
  else if edit.relative ∈ earlier.map SourceEdit.relative then
    .error (.editDuplicate edit.relative)
  else .ok edit.relative

def rejectExistingPathSymlinks (tree : Tree) (relative : RelPath) : List RelPath → PlanProg Unit
  | [] => .ret ()
  | part :: rest => do
    match ← Plan.lstat (tree, part) with
    | some .symlink => .fail (.editSymlink relative)
    -- a name below a regular file: ENOTDIR
    | some .regular => if rest = [] then .ret () else .fail (.file (tree, part))
    | _ => rejectExistingPathSymlinks tree relative rest

def readEdited (relative : RelPath) : PlanProg (Option Bytes) := do
  match ← Plan.lstat (.root, relative) with
  | none => .ret none
  | some .regular => Plan.readFile (.root, relative)
  | some _ => .fail (.editNotRegular relative)

def checkEdit (earlier : List SourceEdit) (edit : SourceEdit) : PlanProg RelPath := do
  let relative ← verdict (checkEditPath earlier edit)
  rejectExistingPathSymlinks .root relative relative.inits
  let before ← readEdited relative
  if before.isSome ≠ edit.beforeExists ∨ T.byteDigest (before.getD []) ≠ edit.beforeDigest then
    .fail (.editChanged relative)
  else do
    rejectExistingPathSymlinks .clone relative relative.inits
    .ret relative

def writeEdit (edit : SourceEdit) (relative : RelPath) : PlanProg Unit := do
  if edit.afterExists then
    must (.clone, relative) (← Plan.writeFile (.clone, relative) edit.after)
  else Plan.remove (.clone, relative)

def applyAdditionalEdit (earlier : List SourceEdit) (edit : SourceEdit) : PlanProg Unit := do
  writeEdit edit (← checkEdit T earlier edit)

def applyAdditionalEdits (edits : List SourceEdit) : PlanProg Unit :=
  visit (applyAdditionalEdit T) [] edits

def restoreInterrupted : List (RelPath × Option Bytes) → PlanProg Unit
  | [] => .ret ()
  | (path, some bytes) :: rest => do
    Plan.replace (.root, path) bytes
    restoreInterrupted rest
  | (path, none) :: rest => do
    Plan.remove (.root, path)
    restoreInterrupted rest

def compileBase (S : Site) : PlanProg Unit := do
  restoreInterrupted S.interrupted
  let files ← Plan.snapshot
  verdict (T.compile fun path => files (.root, path))

def rewriteSources (request : ChangeRequest) : PlanProg (List RelPath) := do
  applyOperations request.operations
  verdict (T.sourceFiles (← cloneSources))

def planInClone (request : ChangeRequest) : PlanProg Unit := do
  let paths ← rewriteSources T request
  formatSourcePaths T paths
  applyAdditionalEdits T request.additionalEdits
  verdict (T.predict (← cloneSources))

def removeClone {α : Type} (outcome : Except PlanError α) : PlanProg α := do
  Plan.removeAll inClone
  verdict outcome

def planChanges (S : Site) (request : ChangeRequest) : PlanProg Unit := do
  compileBase T S
  cloneWorkspace S
  removeClone (← (planInClone T request).attempt)

end

end Scenery
