import Scenery.Host.Generations
import Scenery.Runs

/-!
# The supervisor and its process host

The supervisor of a development session starts service instances and publishes generations that
name them to the process host; a replaced generation is retired, and an instance stops when
neither the current services nor a generation the supervisor takes to be retained names it.
-/

namespace Scenery.Dev

open Scenery.Host

structure Process where
  name : String
  identity : Identity
  config : String
  deriving DecidableEq

structure Instance where
  process : Process
  socket : String
  pid : ℤ
  deriving DecidableEq

namespace Instance

def name (x : Instance) : String := x.process.name

def spec (x : Instance) : InstanceSpec := ⟨"unix", x.socket, x.pid, x.process.identity⟩

end Instance

inductive Outcome where
  | accepted
  | refused
  | unknown
  deriving DecidableEq

inductive Phase where
  | waiting
  | confirming (reads : ℕ)
  | settled (outcome : Outcome)
  deriving DecidableEq

def confirmAttempts : ℕ := 3

structure Publication where
  manifest : Manifest
  started : Option (List Instance)
  previous : List Instance
  previousIdentity : Identity
  phase : Phase
  deriving DecidableEq

inductive Retirement where
  | idle
  | waiting
  | finished
  deriving DecidableEq

structure State where
  contract : String
  identity : Identity
  bindings : List (String × String)
  services : List Instance
  generation : ℕ
  published : ℕ
  retained : List (ℕ × List Instance)
  unconfirmed : List ℕ
  publication : Option Publication
  reconcilers : ℕ
  retiring : List (ℕ × Retirement)
  stopped : List Instance
  puts : List Manifest
  deletes : List ℕ
  generations : List Generation
  requests : List ℕ
  known : List Instance
  unknown : List ℕ
  deriving DecidableEq

def current (gens : List Generation) : ℕ := (gens.head?.map Generation.number).getD 0

def replaceServices (previous started : List Instance) : List Instance :=
  (previous.filter fun x => x.name ∉ started.map Instance.name) ++ started

namespace State

def manifest (number : ℕ) (s : State) : Manifest where
  generation := number
  contractRevision := s.contract
  identity := s.identity
  processes := s.services.map fun x => (x.name, x.spec)
  bindings := s.bindings

def propose (started : Option (List Instance)) (previous : List Instance)
    (previousIdentity : Identity) (s : State) : State :=
  let number := max s.published s.generation + 1
  { s with
    published := number
    puts := s.manifest number :: s.puts
    publication := some ⟨s.manifest number, started, previous, previousIdentity, .waiting⟩ }

def succeed (number : ℕ) (s : State) : State :=
  { s with
    generation := number
    retained := (number, s.services) :: s.retained
    retiring := s.retiring ++ s.unconfirmed.map fun k => (k, .idle)
    unconfirmed := [] }

def changed (set : List Process) (s : State) : List Process :=
  set.filter fun p =>
    match s.services.find? fun x => x.name = p.name with
    | none => true
    | some x => x ∈ s.stopped ∨ x.process.identity ≠ p.identity ∨ x.process.config ≠ p.config

def startable (processes : List Process) (started : List Instance) (s : State) : Bool :=
  started.map Instance.process = processes ∧ ((s.known ++ started).map Instance.socket).Nodup

def replace (set : List Process) (identity : Identity) (started : List Instance) (s : State) :
    Option State :=
  if s.publication.isSome || !s.startable (s.changed set) started then none
  else if started = [] ∧ s.identity = identity then some s
  else some ({ s with
    services := replaceServices s.services started
    identity := identity
    known := s.known ++ started }.propose (some started) s.services s.identity)

def startFailed (set : List Process) (started : List Instance) (s : State) : Option State :=
  if s.publication.isSome || !s.startable (s.changed set) started then none
  else some { s with stopped := s.stopped ++ started, known := s.known ++ started }

def reconcile (s : State) : Option State :=
  if s.publication.isSome ∨ s.reconcilers = 0 ∨ s.unconfirmed = [] then none
  else some (s.propose none s.services s.identity)

/-- What follows a publication: the rest of `replaceDevServiceProcesses` with
`settleFailedDevProcessPublication`, or of a round of `reconcileDevProcessPublication`. -/
def settle (p : Publication) (outcome : Outcome) (s : State) : State :=
  let number := p.manifest.generation
  let restored := { s with publication := none, services := p.previous,
                           identity := p.previousIdentity }
  match p.started, outcome with
  | some _, .accepted =>
    let s' := { s with publication := none }.succeed number
    { s' with retiring := s'.retiring ++ [(s.generation, .idle)] }
  | some started, .refused => { restored with stopped := s.stopped ++ started }
  | some started, .unknown =>
    { restored with
      retained := (number, started) :: s.retained
      unconfirmed := s.unconfirmed ++ [number]
      reconcilers := s.reconcilers + 1
      unknown := number :: s.unknown }
  | none, .accepted =>
    { { s with publication := none }.succeed number with reconcilers := s.reconcilers - 1 }
  | none, .refused => { s with publication := none }
  | none, .unknown =>
    { s with publication := none, unconfirmed := s.unconfirmed ++ [number],
             unknown := number :: s.unknown }

def withPhase (phase : Phase) (s : State) : State :=
  { s with publication := s.publication.map fun p => { p with phase := phase } }

def awaits (m : Manifest) (s : State) : Bool :=
  s.publication.any fun p => p.manifest = m ∧ p.phase = .waiting

def answer (answered : Bool) (m : Manifest) (outcome : Outcome) (s : State) : State :=
  if answered && s.awaits m then s.withPhase (.settled outcome) else s

def deliver (cfg : HostConfig) (m : Manifest) (answered : Bool) (s : State) : Option State :=
  if m ∈ s.puts then
    match publish cfg m s.generations with
    | .ok gens =>
      some ({ s with puts := s.puts.erase m, generations := gens }.answer answered m .accepted)
    | .error _ => some ({ s with puts := s.puts.erase m }.answer answered m .refused)
  else none

def status (answered : Bool) (s : State) : Option State :=
  match s.publication with
  | none => none
  | some p =>
    match p.phase with
    | .confirming (reads + 1) =>
      if answered then
        some (s.withPhase (.settled
          (if current s.generations = p.manifest.generation then .accepted else .refused)))
      else some (s.withPhase (if reads = 0 then .settled .unknown else .confirming reads))
    | _ => none

def hear (number : ℕ) (answered : Bool) (retirement : Retirement) (s : State) : State :=
  if answered && decide ((number, .waiting) ∈ s.retiring) then
    { s with retiring := (number, retirement) :: s.retiring.erase (number, .waiting) }
  else s

def deliverDelete (number : ℕ) (answered : Bool) (s : State) : Option State :=
  if number ∈ s.deletes then
    let deletes := s.deletes.erase number
    match removeGeneration number false s.generations with
    | .ok gens =>
      some ({ s with deletes := deletes, generations := gens }.hear number answered .finished)
    | .error .notFound => some ({ s with deletes := deletes }.hear number answered .finished)
    | .error (.conflict _) => some ({ s with deletes := deletes }.hear number answered .idle)
  else none

def unreferenced (instances : List Instance) (s : State) : List Instance :=
  instances.filter fun x => x ∉ s.services ∧ s.retained.all fun e => x ∉ e.2

def retire (number : ℕ) (s : State) : Option State :=
  if s.publication.isNone && decide ((number, .finished) ∈ s.retiring) then
    let named := (s.retained.lookup number).getD []
    let s := { s with retained := s.retained.filter fun e => e.1 ≠ number
                      retiring := s.retiring.erase (number, .finished)
                      unknown := s.unknown.filter (· ≠ number) }
    some { s with stopped := s.stopped ++ s.unreferenced named }
  else none

end State

inductive Event where
  | replace (set : List Process) (identity : Identity) (started : List Instance)
  | startFailed (set : List Process) (started : List Instance)
  | reconcile
  | reconciled
  | deliver (m : Manifest) (answered : Bool)
  | drop (m : Manifest)
  | giveUp
  | status (answered : Bool)
  | abandon
  | settle
  | delete (number : ℕ)
  | deliverDelete (number : ℕ) (answered : Bool)
  | dropDelete (number : ℕ)
  | giveUpDelete (number : ℕ)
  | retire (number : ℕ)
  | acquire (number : ℕ)
  | release (g : ℕ)
  deriving DecidableEq

def step (cfg : HostConfig) (s : State) : Event → Option State
  | .replace set identity started => s.replace set identity started
  | .startFailed set started => s.startFailed set started
  | .reconcile => s.reconcile
  | .reconciled => if s.reconcilers = 0 then none else some { s with reconcilers := s.reconcilers - 1 }
  | .deliver m answered => s.deliver cfg m answered
  | .drop m => if m ∈ s.puts then some { s with puts := s.puts.erase m } else none
  | .giveUp =>
    if s.publication.any fun p => p.phase = .waiting then
      some (s.withPhase (.confirming confirmAttempts))
    else none
  | .status answered => s.status answered
  | .abandon =>
    if s.publication.any fun p => (List.range confirmAttempts).any (p.phase = .confirming ·) then
      some (s.withPhase (.settled .unknown))
    else none
  | .settle =>
    match s.publication with
    | none => none
    | some p =>
      match p.phase with
      | .settled outcome => some (s.settle p outcome)
      | _ => none
  | .delete number =>
    if (number, .idle) ∈ s.retiring then
      some { s with retiring := (number, .waiting) :: s.retiring.erase (number, .idle)
                    deletes := number :: s.deletes }
    else none
  | .deliverDelete number answered => s.deliverDelete number answered
  | .dropDelete number =>
    if number ∈ s.deletes then some { s with deletes := s.deletes.erase number } else none
  | .giveUpDelete number =>
    if (number, .waiting) ∈ s.retiring then
      some { s with retiring := (number, .idle) :: s.retiring.erase (number, .waiting) }
    else none
  | .retire number => s.retire number
  | .acquire number =>
    match target number s.generations with
    | none => some s
    | some g =>
      some { s with generations := addInFlight g.number 1 s.generations
                    requests := g.number :: s.requests }
  | .release g =>
    if g ∈ s.requests then
      some { s with generations := addInFlight g (-1) s.generations, requests := s.requests.erase g }
    else none

/-- When the host answers a status read that confirms a publication, the publication is not still
under way to it; and services are replaced only when every generation of unknown outcome has been
retired. -/
def Orderly (s : State) : Event → Prop
  | .status answered => answered = true → ∀ p ∈ s.publication, p.manifest ∉ s.puts
  | .replace _ _ _ => s.unknown = []
  | _ => True

instance (s : State) (e : Event) : Decidable (Orderly s e) := by
  unfold Orderly
  split <;> infer_instance

structure Serving (s : State) : Prop where
  generations : ∃ g, s.generations = [g] ∧ g.number = s.generation ∧
    g.instances = s.services.map fun x => (x.name, x.spec)
  retained : s.retained = [(s.generation, s.services)]
  published : s.generation ≤ s.published
  unconfirmed : s.unconfirmed = []
  publication : s.publication = none
  retiring : s.retiring = []
  puts : s.puts = []
  unknown : s.unknown = []
  known : (s.known.map Instance.socket).Nodup
  services : ∀ x ∈ s.services, x ∈ s.known
  stopped : ∀ x ∈ s.stopped, x ∈ s.known ∧ x ∉ s.services

def Routes (s : State) (x : Instance) : Prop :=
  ∃ g ∈ s.generations, g.retired = false ∧ ∃ entry ∈ g.instances, entry.2.address = x.socket

instance (s : State) (x : Instance) : Decidable (Routes s x) := by
  unfold Routes
  infer_instance

end Scenery.Dev
