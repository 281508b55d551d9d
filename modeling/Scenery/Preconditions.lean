import Scenery.Planning

/-!
# Preconditions of semantic operations, at planning and at application

`internal/evolution`: `planChanges` checks the precondition of every semantic operation against
the graph that the operations before it have produced, and records the operation with its identity
and its expected value in the form that graph gives them.
-/

namespace Scenery

/-! ## Semantic values -/

inductive Value where
  | null
  | bool (b : Bool)
  | number (text : String)
  | string (text : String)
  | list (items : List Value)
  | map (fields : List (String × Value))

structure Scalars where
  marshalCanonical : Value → Option String
  isContextualPrimitive : String → Bool
  contextualizePrimitive : String → String → Option Value
  exactNumericScalar : String → Value
  nameText : Value → String
  resourceSchemaRevision : String → String

namespace Value

def member (name : String) : List (String × Value) → Option Value
  | [] => none
  | (key, value) :: rest => if key = name then some value else member name rest

def text : Option Value → String
  | some (string text) => text
  | _ => ""

def hasMember (name : String) (fields : List (String × Value)) : Bool :=
  match member name fields with
  | none => false
  | some null => false
  | some _ => true

def isPrimitive (fields : List (String × Value)) : Bool :=
  hasMember "$scalar" fields || hasMember "$ref" fields || hasMember "$expression" fields

def namedItem (name : String) (items : List Value) : Option Value :=
  items.find? fun item =>
    match item with
    | map fields => text (member "name" fields) = name
    | _ => false

def exemplar (value : Value) (index : ℕ) (effective : List Value) : Option Value :=
  match value with
  | map fields =>
    if text (member "name" fields) ≠ "" then namedItem (text (member "name" fields)) effective
    else effective[index]?
  | _ => effective[index]?

mutual

def present (effective : Value) : Value → Value
  | map fields =>
    match effective with
    | map effectiveFields =>
      if isPrimitive effectiveFields then effective
      else map (presentFields effectiveFields fields)
    | _ => effective
  | list items =>
    match effective with
    | list effectiveItems => list (presentItems effectiveItems 0 items)
    | _ => effective
  | _ => effective

def presentFields (effective : List (String × Value)) :
    List (String × Value) → List (String × Value)
  | [] => []
  | (name, value) :: rest =>
    (match member name effective with
      | some normalized => (name, present normalized value)
      | none => (name, value)) :: presentFields effective rest

def presentItems (effective : List Value) (index : ℕ) : List Value → List Value
  | [] => []
  | value :: rest =>
    (match exemplar value index effective with
      | none => value
      | some null => value
      | some normalized => present normalized value) :: presentItems effective (index + 1) rest

end

def comparable (C : Scalars) (value other : Value) : Value :=
  match other with
  | map scalar =>
    let kind := text (member "$scalar" scalar)
    match value with
    | string text =>
      if kind = "int" then C.exactNumericScalar text
      else if C.isContextualPrimitive kind then
        (C.contextualizePrimitive text kind).getD value
      else value
    | number text => if kind = "int" then C.exactNumericScalar text else value
    | _ => value
  | _ => value

def semanticEqual (C : Scalars) (left right : Value) : Bool :=
  match C.marshalCanonical (comparable C left right),
    C.marshalCanonical (comparable C right left) with
  | some a, some b => a = b
  | _, _ => false

end Value

/-! ## Pointers -/

def unescape (code result : Char) : List Char → List Char
  | '~' :: c :: rest =>
    if c = code then result :: unescape code result rest
    else '~' :: unescape code result (c :: rest)
  | c :: rest => c :: unescape code result rest
  | [] => []

def pointerParts (pointer : String) : List String :=
  match pointer.toList with
  | '/' :: rest => (rest.splitOn '/').map fun part =>
      String.ofList (unescape '0' '~' (unescape '1' '/' part))
  | _ => []

def digits (text : List Char) : Option ℕ :=
  if text ≠ [] ∧ text.all Char.isDigit then some (Nat.ofDigitChars 10 text 0) else none

def atoi (part : String) : Option ℕ :=
  match part.toList with
  | '+' :: rest => digits rest
  | '-' :: rest => (digits rest).filter (· = 0)
  | text => digits text

def itemName : Value → Value
  | .map fields => (Value.member "name" fields).getD .null
  | _ => .null

def asObject : Value → Value
  | .map fields => .map fields
  | _ => .map []

def semanticPointerStep (C : Scalars) (current : Value) (part : String) : Option Value :=
  match current with
  | .map fields =>
    match Value.member part fields with
    | some next => some next
    | none =>
      if C.nameText (itemName current) = part then some current else none
  | .list items =>
    match (atoi part).bind fun index => items[index]? with
    | some next => some next
    | none => (items.find? fun item => C.nameText (itemName item) = part).map asObject
  | _ => none

structure Resource where
  address : String
  kind : String
  kind_ne : kind ≠ ""
  spec : Value
  authored : Bool

def resourcePointerValue (C : Scalars) (resource : Resource) (pointer : String) : Option Value :=
  match pointerParts pointer with
  | "spec" :: rest =>
    rest.foldl (fun current part => current.bind fun value => semanticPointerStep C value part)
      (some resource.spec)
  | _ => none

abbrev Graph : Type := List Resource

def resourcesByAddress (graph : Option Graph) (address : String) : Option Resource :=
  (graph.getD []).reverse.find? fun resource => resource.address = address

/-! ## Operations -/

inductive OpKind where
  | resourceCreate
  | resourceDelete
  | resourceRename
  | moduleConfigure
  | valueSet
  | valueUnset
  | other (text : String)
  deriving DecidableEq

structure ChangePrecondition where
  existing : Option Bool
  absent : Bool
  equals : Option Value

structure SemanticOperation where
  op : OpKind
  address : String
  expectedKind : String
  expectedSchemaRevision : String
  view : String
  path : String
  value : Option Value
  precondition : Option ChangePrecondition

inductive OperationError where
  | addressRequired
  | readOnlyView
  | valuePath
  | unsupported (text : String)
  /-- `permission_denied: semantic mutations do not accept secret plaintext …` -/
  | secretMutation
  | expectedKind (expected found : String)
  | expectedRevision (expected found : String)
  | notWritable (address : String)
  | existsMismatch
  | valueExists
  | valueMismatch
  | resourceUnavailable (address : String)
  | refused (message : String)
  deriving DecidableEq

def normalizeSemanticOperationShape (operation : SemanticOperation) :
    Except OperationError SemanticOperation :=
  let operation := { operation with
    address := trimSpace operation.address
    expectedKind := trimSpace operation.expectedKind
    expectedSchemaRevision := trimSpace operation.expectedSchemaRevision
    view := trimSpace operation.view }
  if operation.address = "" then .error .addressRequired
  else if operation.view ≠ "" ∧ operation.view ≠ "source" then .error .readOnlyView
  else
    let operation := { operation with view := "source" }
    match operation.op with
    | .resourceCreate => .ok { operation with path := "" }
    | .resourceDelete => .ok { operation with path := "", value := none }
    | .resourceRename => .ok { operation with path := "" }
    | .moduleConfigure => .ok { operation with path := "/spec/inputs" }
    | .valueSet =>
      if "/spec/".isPrefixOf operation.path ∨ operation.path = "/spec" then .ok operation
      else .error .valuePath
    | .valueUnset =>
      if "/spec/".isPrefixOf operation.path ∨ operation.path = "/spec" then
        .ok { operation with value := none }
      else .error .valuePath
    | .other text => .error (.unsupported text)

def kindForBlock (blockType : String) : String :=
  "scenery." ++ String.ofList (blockType.toList.map fun c => if c = '_' then '-' else c)

def semanticOperationKind (operation : SemanticOperation) (graph : Option Graph) : String :=
  if operation.op = .resourceCreate then
    match (splitPath operation.address).reverse with
    | _ :: blockType :: _ :: _ => kindForBlock blockType
    | _ => ""
  else
    match resourcesByAddress graph operation.address with
    | some resource => resource.kind
    | none => ""

section

variable (C : Scalars)

def validateSemanticOperationExpectation (operation : SemanticOperation) (graph : Graph) :
    Except OperationError Unit :=
  let kind := semanticOperationKind operation (some graph)
  if kind = "" then .ok ()
  else if operation.expectedKind ≠ "" ∧ operation.expectedKind ≠ kind then
    .error (.expectedKind operation.expectedKind kind)
  else if operation.expectedSchemaRevision ≠ "" ∧
      operation.expectedSchemaRevision ≠ C.resourceSchemaRevision kind then
    .error (.expectedRevision operation.expectedSchemaRevision (C.resourceSchemaRevision kind))
  else .ok ()

def normalizeSemanticOperationIdentity (operation : SemanticOperation) (graph : Option Graph) :
    SemanticOperation :=
  if semanticOperationKind operation graph ≠ "" then
    { operation with
      expectedKind := semanticOperationKind operation graph
      expectedSchemaRevision :=
        C.resourceSchemaRevision (semanticOperationKind operation graph) }
  else operation

def currentValue (graph : Option Graph) (operation : SemanticOperation) : Option Value :=
  (resourcesByAddress graph operation.address).bind fun resource =>
    resourcePointerValue C resource operation.path

/-- A null that is found in the graph takes the expectation away, as it is `nil` then. -/
def presentPrecondition (graph : Option Graph) (operation : SemanticOperation)
    (precondition : ChangePrecondition) : ChangePrecondition :=
  match precondition.equals, currentValue C graph operation with
  | some expected, some current => { precondition with equals := match current.present expected with
      | .null => none
      | value => some value }
  | _, _ => precondition

def presentValue (value : Option Value) (effective : Value) : Option Value :=
  some (effective.present (value.getD .null))

def normalizeSemanticOperationValues (operation : SemanticOperation)
    (base predicted : Option Graph) : SemanticOperation :=
  let identityGraph :=
    if operation.op = .resourceCreate ∧ predicted.isSome then predicted else base
  let operation := normalizeSemanticOperationIdentity C operation identityGraph
  let operation := { operation with
    precondition := operation.precondition.map (presentPrecondition C base operation) }
  match operation.op with
  | .resourceCreate =>
    match resourcesByAddress predicted operation.address with
    | some resource => { operation with value := presentValue operation.value resource.spec }
    | none => operation
  | .valueSet | .moduleConfigure =>
    match currentValue C predicted operation with
    | some effective => { operation with value := presentValue operation.value effective }
    | none => operation
  | _ => operation

def checkChangePrecondition (resource : Resource) (operation : SemanticOperation) :
    Except OperationError Unit :=
  match operation.precondition with
  | none => .ok ()
  | some pre =>
    let current := resourcePointerValue C resource operation.path
    if pre.existing.isSome ∧ pre.existing ≠ some current.isSome then .error .existsMismatch
    else if pre.absent ∧ current.isSome then .error .valueExists
    else
      match pre.equals, current with
      | none, _ => .ok ()
      | some _, none => .error .valueMismatch
      | some expected, some value =>
        if value.semanticEqual C expected then .ok () else .error .valueMismatch

/-! ## Planning -/

/-- The code around the loop over the operations. `ω` is the state of the planning clone. -/
structure Sourcing (ω : Type) where
  rejectSecretMutation : SemanticOperation → Except OperationError Unit
  createResource : ω → Graph → SemanticOperation → Except OperationError ω
  rewriteResource : ω → Graph → Resource → SemanticOperation → Except OperationError ω
  /-- `CompileContractGraph` of the clone, where it has a writable graph -/
  refresh : ω → Option Graph
  predict : ω → Except OperationError Graph

variable {ω : Type} (R : Sourcing ω)

def Sourcing.applySemanticOperation (clone : ω) (graph : Graph) (operation : SemanticOperation) :
    Except OperationError ω :=
  if operation.op = .resourceCreate then R.createResource clone graph operation
  else
    match graph.find? fun resource => resource.address = operation.address with
    | none => .error (.notWritable operation.address)
    | some resource =>
      if resource.authored then do
        checkChangePrecondition C resource operation
        R.rewriteResource clone graph resource operation
      else .error (.notWritable operation.address)

/-- An operation of a plan. The plan keeps `recorded`; what it was planned from is kept
beside it. -/
structure PlannedOperation where
  requested : SemanticOperation
  before : Graph
  presented : Bool
  recorded : SemanticOperation

def Sourcing.admit (graph : Graph) (requested : SemanticOperation) :
    Except OperationError (SemanticOperation × SemanticOperation) := do
  let operation ← normalizeSemanticOperationShape requested
  R.rejectSecretMutation operation
  validateSemanticOperationExpectation C operation graph
  .ok (operation, normalizeSemanticOperationIdentity C operation (some graph))

/-- The loop of `planChanges`: each operation on the graph the ones before it left. -/
def Sourcing.planOperations :
    Graph → ω → List SemanticOperation → Except OperationError (List PlannedOperation × ω)
  | _, clone, [] => .ok ([], clone)
  | graph, clone, request :: rest => do
    let (requested, operation) ← R.admit C graph request
    let clone ← R.applySemanticOperation C clone graph operation
    if rest = [] then .ok ([⟨requested, graph, true, operation⟩], clone)
    else
      match R.refresh clone with
      | some next => do
        let (planned, clone) ← Sourcing.planOperations next clone rest
        .ok (⟨requested, graph, true,
          normalizeSemanticOperationValues C operation (some graph) (some next)⟩ :: planned, clone)
      | none => do
        let (planned, clone) ← Sourcing.planOperations graph clone rest
        .ok (⟨requested, graph, false, operation⟩ :: planned, clone)

def normalizeLast (predicted : Graph) : List PlannedOperation → List PlannedOperation
  | [] => []
  | [last] => [{ last with
      recorded := normalizeSemanticOperationValues C last.recorded (some last.before)
        (some predicted) }]
  | first :: rest => first :: normalizeLast predicted rest

def normalizeCreated (predicted : Graph) (planned : PlannedOperation) : PlannedOperation :=
  if planned.recorded.op = .resourceCreate then
    { planned with
      recorded := normalizeSemanticOperationValues C planned.recorded none (some predicted) }
  else planned

def Sourcing.plan (base : Graph) (clone : ω) (operations : List SemanticOperation) :
    Except OperationError (List PlannedOperation) := do
  let (planned, clone) ← R.planOperations C base clone operations
  let predicted ← R.predict clone
  .ok ((normalizeLast C predicted planned).map (normalizeCreated C predicted))

def revalidateChangePreconditions (current : Graph) :
    List SemanticOperation → Except OperationError Unit
  | [] => .ok ()
  | operation :: rest => do
    validateSemanticOperationExpectation C operation current
    if operation.precondition.isNone ∨ operation.op = .resourceCreate then
      revalidateChangePreconditions current rest
    else
      match resourcesByAddress (some current) operation.address with
      | none => .error (.resourceUnavailable operation.address)
      | some resource => do
        checkChangePrecondition C resource operation
        revalidateChangePreconditions current rest

end

end Scenery
