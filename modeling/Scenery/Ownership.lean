import Scenery.Text

/-!
# Transaction owners

`internal/workspacetx/ownership.go`: a lock or journal names the process that wrote it, and a
reader decides from the process table whether that owner is itself, alive, or gone.
-/

namespace Scenery

structure Owner where
  pid : ℤ
  startedAt : String
  exe : String
  cmdlineHash : String
  createdBy : String
  deriving DecidableEq

inductive OwnerProcessLiveness where
  | unknown
  | live
  | dead
  deriving DecidableEq

inductive OwnerState where
  | unknown
  | current
  | live
  | recoverable
  deriving DecidableEq

inductive FingerprintState where
  | partialMatch
  | completeMatch
  | mismatch
  deriving DecidableEq

def sameExe (left right : String) : Bool :=
  let left := clean (trimSpace left)
  let right := clean (trimSpace right)
  left = right || base left = base right

def hasOwnerFingerprint (owner : Owner) : Bool :=
  owner.startedAt ≠ "" || owner.cmdlineHash ≠ "" || owner.exe ≠ ""

def compareOwnerFingerprint (owner live : Owner) : FingerprintState :=
  if owner.startedAt ≠ "" ∧ live.startedAt ≠ "" ∧ owner.startedAt ≠ live.startedAt then .mismatch
  else if owner.cmdlineHash ≠ "" ∧ live.cmdlineHash ≠ "" ∧ owner.cmdlineHash ≠ live.cmdlineHash
    then .mismatch
  else if owner.exe ≠ "" ∧ live.exe ≠ "" ∧ ¬ sameExe owner.exe live.exe then .mismatch
  else if owner.startedAt = "" ∨ live.startedAt = "" ∨ owner.cmdlineHash = "" ∨
      live.cmdlineHash = "" ∨ owner.exe = "" ∨ live.exe = "" then .partialMatch
  else .completeMatch

structure Process where
  pid : ℤ
  token : String
  captureOwner : ℤ → Owner × OwnerProcessLiveness

def ownerStateWithLive (p : Process) (owner live : Owner) (liveness : OwnerProcessLiveness) :
    OwnerState :=
  if owner.pid ≤ 0 ∨ ¬ hasOwnerFingerprint owner then .unknown
  else if owner.pid = p.pid ∧ owner.createdBy = p.token then
    if ¬ hasOwnerFingerprint live then .current
    else if compareOwnerFingerprint owner live = .completeMatch then .current
    else .unknown
  else if liveness = .dead then .recoverable
  else match compareOwnerFingerprint owner live with
    | .mismatch => .recoverable
    | .completeMatch => if liveness = .live then .live else .unknown
    | .partialMatch => .unknown

def inspectOwnerState (p : Process) (owner : Owner) : OwnerState :=
  if owner.pid ≤ 0 then .unknown
  else ownerStateWithLive p owner (p.captureOwner owner.pid).1 (p.captureOwner owner.pid).2

theorem inspectOwnerState_ne_current {p : Process} {owner : Owner}
    (h : owner.createdBy ≠ p.token) : inspectOwnerState p owner ≠ .current := by
  unfold inspectOwnerState ownerStateWithLive
  split
  · exact fun h => by cases h
  · split
    · exact fun h => by cases h
    · rw [if_neg fun hc => h hc.2]
      split
      · exact fun h => by cases h
      · split
        · exact fun h => by cases h
        · split <;> exact fun h => by cases h
        · exact nofun

end Scenery
