import Mathlib.Data.List.Sort
import Mathlib.Data.String.Basic
import Mathlib.Tactic.SplitIfs
import Scenery.Sessions

/-!
# Applying a deployment plan

`ApplyDeploymentPlan` of `internal/deployplan/deployplan.go` with `recoverDeploymentJournals` and
`restoreDeploymentState` of `deployment_state.go`, as programs over the files below
`.scenery/deployments` and the effects of providers.
-/

namespace Scenery.Deploy

structure ProviderStep where
  address : String
  requiresApply : Bool
  deriving DecidableEq

structure Plan where
  id : String
  name : String
  providers : List ProviderStep
  deriving DecidableEq

def Plan.address (plan : Plan) (index : ℕ) : String :=
  (plan.providers[index]?.map ProviderStep.address).getD ""

structure Receipt where
  plan : Plan
  appliedAt : ℤ
  deriving DecidableEq

structure Journal where
  plan : Plan
  applied : List ℕ
  restoreState : Bool
  previousState : Option Receipt
  committed : Bool
  deriving DecidableEq

structure Deployments where
  journals : List Journal
  receipts : Plan → Option Receipt
  states : String → Option Receipt
  effects : Plan → ℕ → Bool
  settled : String → Option Receipt

inductive Check where
  | precheck (plan : Plan)
  | lock
  | recheck (plan : Plan)
  deriving DecidableEq

inductive ApplyOp where
  | check (c : Check)
  | readReceipt (plan : Plan)
  | readJournal (plan : Plan)
  | listJournals
  | writeJournal (journal : Journal)
  | removeJournal (plan : Plan)
  | readState (name : String)
  | writeState (name : String) (state : Receipt)
  | removeState (name : String)
  | writeReceipt (receipt : Receipt)
  | apply (plan : Plan) (index : ℕ)
  /-- the compensator of an applied provider plan, or `Rollback` of its provider -/
  | rollback (plan : Plan) (index : ℕ) (compensator : Bool)
  | now
  deriving DecidableEq

def ApplyReply : ApplyOp → Type
  | .check _ => Except String Unit
  | .readReceipt _ => Except String (Option Receipt)
  | .readJournal _ => Except String (Option Journal)
  | .listJournals => Except String (List Plan)
  | .writeJournal _ => Except String Unit
  | .removeJournal _ => Except String Unit
  | .readState _ => Except String (Option Receipt)
  | .writeState _ _ => Except String Unit
  | .removeState _ => Except String Unit
  | .writeReceipt _ => Except String Unit
  | .apply _ _ => Except String Bool
  | .rollback _ _ _ => Except String Unit
  | .now => ℤ

inductive Outcome where
  | works
  | fails (message : String)
  | failsAfter (message : String)
  | bare
  | time (clock : ℤ)
  deriving DecidableEq

namespace Deployments

def journal (d : Deployments) (plan : Plan) : Option Journal :=
  d.journals.find? fun j => j.plan = plan

def putJournal (d : Deployments) (j : Journal) : Deployments :=
  { d with journals := j :: d.journals.filter fun x => x.plan ≠ j.plan }

def dropJournal (d : Deployments) (plan : Plan) : Deployments :=
  { d with journals := d.journals.filter fun x => x.plan ≠ plan }

def putState (d : Deployments) (name : String) (state : Option Receipt) : Deployments :=
  { d with states := fun n => if n = name then state else d.states n }

def putReceipt (d : Deployments) (r : Receipt) : Deployments :=
  { d with
    receipts := fun p => if p = r.plan then some r else d.receipts p
    settled := fun n => if n = r.plan.name then d.states n else d.settled n }

def putEffect (d : Deployments) (plan : Plan) (index : ℕ) (applied : Bool) : Deployments :=
  { d with effects := fun p i => if p = plan ∧ i = index then applied else d.effects p i }

end Deployments

def reading {α : Type} (outcome : Outcome) (d : Deployments) (value : α) :
    Option (Except String α × Deployments) :=
  match outcome with
  | .works => some (.ok value, d)
  | .fails message => some (.error message, d)
  | _ => none

def changing (outcome : Outcome) (d d' : Deployments) : Option (Except String Unit × Deployments) :=
  match outcome with
  | .works => some (.ok (), d')
  | .fails message => some (.error message, d)
  | .failsAfter message => some (.error message, d')
  | _ => none

/-- The effect and the reply of an operation; `none` if it cannot end that way. -/
def execApply : (o : ApplyOp) → Outcome → Deployments → Option (ApplyReply o × Deployments)
  | .check _, outcome, d => reading outcome d ()
  | .readReceipt plan, outcome, d => reading outcome d (d.receipts plan)
  | .readJournal plan, outcome, d => reading outcome d (d.journal plan)
  | .listJournals, outcome, d =>
    reading outcome d ((d.journals.map Journal.plan).insertionSort fun p q => p.id ≤ q.id)
  | .writeJournal j, outcome, d => changing outcome d (d.putJournal j)
  | .removeJournal plan, outcome, d => changing outcome d (d.dropJournal plan)
  | .readState name, outcome, d => reading outcome d (d.states name)
  | .writeState name state, outcome, d => changing outcome d (d.putState name (some state))
  | .removeState name, outcome, d => changing outcome d (d.putState name none)
  | .writeReceipt r, outcome, d => changing outcome d (d.putReceipt r)
  | .apply plan index, outcome, d =>
    match outcome with
    | .works => some (.ok true, d.putEffect plan index true)
    | .bare => some (.ok false, d.putEffect plan index true)
    | .fails message => some (.error message, d)
    | _ => none
  | .rollback plan index _, outcome, d =>
    match outcome with
    | .works => some (.ok (), d.putEffect plan index false)
    | .fails message => some (.error message, d)
    | _ => none
  | .now, outcome, d =>
    match outcome with
    | .time clock => some (clock, d)
    | _ => none

/-! ## Programs -/

/-- A program; its error is the list of messages that `errors.Join` joins. -/
abbrev ApplyProg (α : Type) : Type := Prog ApplyOp ApplyReply (List String) α

def orFail {α : Type} (text : String) : Except String α → ApplyProg α
  | .ok a => .ret a
  | .error message => .fail [text ++ message]

def readReceipt (plan : Plan) (text : String) : ApplyProg (Option Receipt) :=
  .op (.readReceipt plan) fun x => orFail text x

def readJournal (plan : Plan) (text : String) : ApplyProg (Option Journal) :=
  .op (.readJournal plan) fun x => orFail text x

def removeJournal (plan : Plan) (text : String) : ApplyProg Unit :=
  .op (.removeJournal plan) fun x => orFail text x

def rollbackProvider (plan : Plan) (index : ℕ) : ApplyProg Unit :=
  .op (.rollback plan index false) fun x =>
    orFail ("internal: recover provider " ++ plan.address index ++ ": ") x

def ensure (c : Check) : ApplyProg Unit := .op (.check c) fun x => orFail "" x

def readState (name : String) : ApplyProg (Option Receipt) :=
  .op (.readState name) fun x => orFail "" x

def listJournals : ApplyProg (List Plan) :=
  .op .listJournals fun x => orFail "internal: read deployment recovery journal: " x

def clock : ApplyProg ℤ := .op .now .ret

def restoreDeploymentState (journal : Journal) : ApplyProg (Except String Unit) :=
  match journal.previousState with
  | some state => .op (.writeState journal.plan.name state) fun x => .ret x
  | none => .op (.removeState journal.plan.name) fun x => .ret x

def recoverProviders (plan : Plan) : List ℕ → ApplyProg Unit
  | [] => .ret ()
  | index :: rest =>
    if plan.providers.length ≤ index then
      .fail ["internal: deployment recovery journal has invalid provider index"]
    else do
      rollbackProvider plan index
      recoverProviders plan rest

def recoverState (journal : Journal) : ApplyProg Unit :=
  if journal.restoreState then do
    let x ← restoreDeploymentState journal
    orFail "internal: recover deployment state: " x
  else .ret ()

def recoverJournal (journal : Journal) : ApplyProg Unit := do
  match ← readReceipt journal.plan "internal: validate committed deployment receipt: " with
  | some _ => removeJournal journal.plan "internal: remove committed deployment journal: "
  | none =>
    if journal.committed then
      .fail ["internal: committed deployment journal has no receipt"]
    else do
      recoverState journal
      recoverProviders journal.plan journal.applied.reverse
      removeJournal journal.plan "internal: remove recovered deployment journal: "

def openJournal : Option Journal → ApplyProg Journal
  | some journal => .ret journal
  | none => .fail ["internal: read deployment recovery journal: file does not exist"]

def recoverEach : List Plan → ApplyProg Unit
  | [] => .ret ()
  | plan :: rest => do
    let journal ← openJournal (← readJournal plan "internal: read deployment recovery journal: ")
    recoverJournal journal
    recoverEach rest

def recoverDeploymentJournals : ApplyProg Unit := do
  recoverEach (← listJournals)

/-- The loop of `rollbackProviders`, the last applied provider plan first, with its position:
those with a compensator come first. The errors are collected. -/
def rollbackEach (plan : Plan) (compensators : ℕ) : List (ℕ × ℕ) → ApplyProg (List String)
  | [] => .ret []
  | (index, position) :: rest =>
    .op (.rollback plan index (position < compensators)) fun (x : Except String Unit) => do
      let errors ← rollbackEach plan compensators rest
      match x with
      | .ok _ => return errors
      | .error message =>
        return ("provider rollback " ++ plan.address index ++ ": " ++ message) :: errors

def rollbackState (journal : Journal) : ApplyProg (List String) :=
  if journal.restoreState then do
    match ← restoreDeploymentState journal with
    | .ok _ => return []
    | .error message => return ["restore deployment state: " ++ message]
  else .ret []

def rollbackDone (plan : Plan) (errors : List String) : ApplyProg Unit :=
  if errors = [] then .op (.removeJournal plan) fun _ => .ret () else .ret ()

def rollbackProviders {α : Type} (journal : Journal) (compensators : ℕ) (cause : String) :
    ApplyProg α := do
  let stateErrors ← rollbackState journal
  let errors ← rollbackEach journal.plan compensators journal.applied.zipIdx.reverse
  rollbackDone journal.plan (stateErrors ++ errors)
  .fail (cause :: (stateErrors ++ errors))

def applyProviders (journal : Journal) (compensators : ℕ) (written : Bool) :
    List (ProviderStep × ℕ) → ApplyProg (Journal × ℕ × Bool)
  | [] => .ret (journal, compensators, written)
  | (step, index) :: rest =>
    if step.requiresApply = false then applyProviders journal compensators written rest
    else
      let next := { journal with applied := journal.applied ++ [index] }
      .op (.writeJournal next) fun (x : Except String Unit) =>
        match x with
        | .error message => rollbackProviders next compensators message
        | .ok _ => .op (.apply next.plan index) fun (y : Except String Bool) =>
          match y with
          | .error message =>
            rollbackProviders next compensators ("provider apply " ++ step.address ++ ": " ++ message)
          | .ok false =>
            rollbackProviders next compensators
              ("provider apply " ++ step.address ++ " returned no compensator")
          | .ok true => applyProviders next (compensators + 1) true rest

def orRollback (journal : Journal) (compensators : ℕ) : Except String Unit → ApplyProg Unit
  | .ok _ => .ret ()
  | .error message => rollbackProviders journal compensators message

def ensureJournal (journal : Journal) (compensators : ℕ) (written : Bool) : ApplyProg Unit :=
  if written then .ret ()
  else .op (.writeJournal journal) fun x => orRollback journal compensators x

def publishState (journal : Journal) (compensators : ℕ) (receipt : Receipt) : ApplyProg Unit :=
  .op (.writeState journal.plan.name receipt) fun x => orRollback journal compensators x

def publishReceipt (journal : Journal) (compensators : ℕ) (receipt : Receipt) : ApplyProg Unit :=
  .op (.writeReceipt receipt) fun x => orRollback journal compensators x

def install (plan : Plan) : ApplyProg Receipt := do
  let previous ← readState plan.name
  let (journal, compensators, written) ←
    applyProviders ⟨plan, [], true, previous, false⟩ 0 false plan.providers.zipIdx
  let appliedAt ← clock
  let receipt : Receipt := ⟨plan, appliedAt⟩
  ensureJournal journal compensators written
  publishState journal compensators receipt
  publishReceipt journal compensators receipt
  .op (.removeJournal plan) fun _ => .ret receipt

def applyLocked (plan : Plan) : ApplyProg Receipt := do
  ensure .lock
  recoverDeploymentJournals
  match ← readReceipt plan "" with
  | some r => return r
  | none => do
    ensure (.recheck plan)
    install plan

def applyDeploymentPlan (plan : Plan) : ApplyProg Receipt := do
  ensure (.precheck plan)
  match ← readReceipt plan "" with
  | none => applyLocked plan
  | some r => do
    match ← readJournal plan "" with
    | none => return r
    | some _ => applyLocked plan

def deployments : Service Plan ApplyOp Outcome ApplyReply (List String) Receipt Deployments where
  admits _ _ := true
  body := applyDeploymentPlan
  exec := execApply
  enter _ _ d := d
  leave _ _ _ d := d
  crash d := d

end Scenery.Deploy
