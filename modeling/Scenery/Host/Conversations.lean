import Scenery.Host.Generations
import Scenery.Host.Receipts
import Scenery.Runs
import Scenery.Table

/-!
# Assistant runs and their generations

An assistant run executes its tool calls in one generation: the one the request that starts it
holds.
-/

namespace Scenery.Host

variable {β : Type}

def runLimit : ℕ := 4096

inductive RunState where
  | pending
  | active
  | unknown
  deriving DecidableEq

inductive RunOutcome where
  | accepted
  | rejected
  | unknown
  deriving DecidableEq

def conversationKey (assistantAddress principal conversationDigest : String) : String :=
  trimSpace assistantAddress ++ String.ofList [nul] ++ trimSpace principal ++
    String.ofList [nul] ++ trimSpace conversationDigest

def runKey (conversation runID : String) : String := conversation ++ String.ofList [nul] ++ runID

structure AssistantRun where
  conversation : String
  runID : String
  number : ℕ
  generation : Option ℕ
  state : RunState
  sequence : ℕ
  revoked : Bool
  deriving DecidableEq

def AssistantRun.key (run : AssistantRun) : String := runKey run.conversation run.runID

structure RunRecord where
  conversation : String
  runID : String
  generation : ℕ
  ended : Bool
  revoked : Bool
  deriving DecidableEq

def RunRecord.key (r : RunRecord) : String := runKey r.conversation r.runID

structure RunRef where
  key : String
  sequence : ℕ
  deriving DecidableEq

namespace AssistantRun

def ref (run : AssistantRun) : RunRef := ⟨run.key, run.sequence⟩

def startRecord (run : AssistantRun) : RunRecord :=
  ⟨run.conversation, run.runID, run.number, false, false⟩

def endedRecord (run : AssistantRun) : RunRecord := ⟨run.conversation, run.runID, 0, true, false⟩

def revokedRecord (run : AssistantRun) : RunRecord := ⟨run.conversation, run.runID, 0, false, true⟩

def released (run : AssistantRun) : AssistantRun := { run with generation := none }

theorem key_released (run : AssistantRun) : run.released.key = run.key := rfl

def expired (run : AssistantRun) : AssistantRun := { run.released with revoked := true }

theorem key_expired (run : AssistantRun) : run.expired.key = run.key := rfl

def marked (run : AssistantRun) : AssistantRun := { run with revoked := true }

theorem key_marked (run : AssistantRun) : run.marked.key = run.key := rfl

def enter (state : RunState) (run : AssistantRun) : AssistantRun := { run with state := state }

theorem key_enter (state : RunState) (run : AssistantRun) : (run.enter state).key = run.key := rfl

def records (run : AssistantRun) : List RunRecord :=
  if run.revoked then [run.startRecord, run.revokedRecord] else [run.startRecord]

end AssistantRun

structure Stream where
  id : ℕ
  conversation : String
  number : ℕ
  ended : Bool
  deriving DecidableEq

def dispatchable (gens : List Generation) (run : AssistantRun) : Bool :=
  run.generation.any fun n => (lookup n gens).isSome

structure Scope where
  generations : List Generation
  requests : List ℕ
  runs : Table AssistantRun.key
  sequence : ℕ
  latest : String → Option RunRef
  streams : List Stream
  nextStream : ℕ
  retiring : List ℕ
  answered : List ℕ

namespace Scope

def empty : Scope := ⟨[], [], .empty, 0, fun _ => none, [], 0, [], []⟩

def find (s : Scope) (ref : RunRef) : Option AssistantRun :=
  (s.runs.find ref.key).filter fun run => run.sequence = ref.sequence

def letGo (run : AssistantRun) (gens : List Generation) : List Generation :=
  match run.generation with
  | none => gens
  | some n => addInFlight n (-1) gens

def without (run : AssistantRun) (latest : String → Option RunRef) : String → Option RunRef :=
  fun conversation =>
    if conversation = run.conversation ∧ latest conversation = some run.ref then none
    else latest conversation

def forget (run : AssistantRun) (s : Scope) : Scope :=
  { s with
    runs := s.runs.delete fun r => r.key = run.key
    latest := without run s.latest
    generations := letGo run s.generations }

def revoke (run : AssistantRun) (s : Scope) : Scope :=
  { s with
    runs := s.runs.update (fun r => r.key = run.key) .expired AssistantRun.key_expired
    latest := without run s.latest
    generations := letGo run s.generations }

def setState (run : AssistantRun) (state : RunState) (s : Scope) : Scope :=
  { s with
    runs := s.runs.update (fun r => r.key = run.key) (.enter state) (AssistantRun.key_enter state) }

def accept (run : AssistantRun) (s : Scope) : Scope :=
  if (s.latest run.conversation).any fun latest => run.sequence < latest.sequence then s
  else { s with
    latest := fun conversation =>
      if conversation = run.conversation then some run.ref else s.latest conversation
    streams := s.streams.map fun stream =>
      if stream.conversation = run.conversation ∧ stream.number ≠ run.number then
        { stream with ended := true }
      else stream }

def reserved (conversation runID : String) (g : ℕ) (s : Scope) : AssistantRun :=
  ⟨conversation, runID, g, some g, .pending, s.sequence + 1, false⟩

def install (conversation runID : String) (g : ℕ) (s : Scope)
    (h : runKey conversation runID ∉ s.runs.rows.map AssistantRun.key) : Scope :=
  { s with
    runs := s.runs.insert (s.reserved conversation runID g) h
    sequence := s.sequence + 1
    generations := addInFlight g 1 s.generations }

def attested (conversation : String) (g : ℕ) (s : Scope) : ℕ :=
  match (s.latest conversation).bind s.find with
  | none => g
  | some run => if dispatchable s.generations run then run.generation.getD g else g

/-- `attachAssistantStream`: a stream that attests a retired generation ends at once. -/
def attach (conversation : String) (g : ℕ) (s : Scope) : Scope :=
  { s with
    streams := ⟨s.nextStream, conversation, s.attested conversation g,
      (lookup (s.attested conversation g) s.generations).isNone⟩ :: s.streams
    nextStream := s.nextStream + 1 }

def detach (id : ℕ) (s : Scope) : Scope :=
  { s with streams := s.streams.filter fun stream => stream.id ≠ id }

def hold (g : ℕ) (s : Scope) : Scope :=
  { s with generations := addInFlight g 1 s.generations, requests := g :: s.requests }

def complete (g : ℕ) (s : Scope) : Scope :=
  { s with generations := addInFlight g (-1) s.generations, requests := s.requests.erase g }

def remove (number : ℕ) (gens : List Generation) (s : Scope) : Scope :=
  { s with generations := gens, retiring := number :: s.retiring }

def endStreams (number : ℕ) (s : Scope) : Scope :=
  { s with
    streams := s.streams.map fun stream =>
      if stream.number = number then { stream with ended := true } else stream
    retiring := s.retiring.erase number
    answered := number :: s.answered }

def gone (s : Scope) : Scope :=
  { empty with runs := s.runs.update (fun _ => true) .released AssistantRun.key_released }

def records (s : Scope) : List RunRecord := s.runs.rows.flatMap AssistantRun.records

variable {s : Scope} {run r : AssistantRun}

theorem mem_forget : r ∈ (s.forget run).runs ↔ r ∈ s.runs ∧ r.key ≠ run.key := by
  refine Table.mem_delete.trans ?_
  simp

theorem find_eq_some {ref : RunRef} (h : s.find ref = some run) : run ∈ s.runs ∧ run.ref = ref := by
  obtain ⟨hfind, hsequence⟩ := Option.filter_eq_some_iff.mp h
  obtain ⟨hmem, hkey⟩ := Table.find_eq_some.mp hfind
  refine ⟨hmem, ?_⟩
  have hsequence : run.sequence = ref.sequence := by simpa using hsequence
  rw [AssistantRun.ref, hkey, hsequence]

def keys (s : Scope) : List String := s.runs.rows.map AssistantRun.key

theorem mem_keys_forget {k : String} : k ∈ (s.forget run).keys ↔ k ∈ s.keys ∧ k ≠ run.key := by
  constructor
  · intro h
    obtain ⟨r, hr, rfl⟩ := List.mem_map.mp h
    exact ⟨List.mem_map_of_mem (mem_forget.mp hr).1, (mem_forget.mp hr).2⟩
  · rintro ⟨h, hne⟩
    obtain ⟨r, hr, rfl⟩ := List.mem_map.mp h
    exact List.mem_map_of_mem (mem_forget.mpr ⟨hr, hne⟩)

theorem keys_gone : s.gone.keys = s.keys := s.runs.map_key_update _ _ AssistantRun.key_released

theorem keys_revoke : (s.revoke run).keys = s.keys :=
  s.runs.map_key_update _ _ AssistantRun.key_expired

theorem length_forget_lt (h : run ∈ s.runs) :
    (s.forget run).runs.rows.length < s.runs.rows.length := by
  have hcount := s.runs.countP_delete_key (fun _ => true) h
  simp only [List.countP_true, if_true] at hcount
  exact Nat.lt_of_succ_le (Nat.le_of_eq hcount.symm)

theorem length_forget_le : (s.forget run).runs.rows.length ≤ s.runs.rows.length :=
  List.length_filter_le _ _

theorem length_revoke : (s.revoke run).runs.rows.length = s.runs.rows.length := List.length_map _

theorem mem_revoke (h : r ∈ (s.revoke run).runs) :
    (∃ r₀ ∈ s.runs, r₀.key = run.key ∧ r = r₀.expired) ∨ r ∈ s.runs ∧ r.key ≠ run.key := by
  rcases Table.mem_update_cases AssistantRun.key_expired h with ⟨r₀, hr₀, hk, rfl⟩ | ⟨hr, hk⟩
  · exact .inl ⟨r₀, hr₀, of_decide_eq_true hk, rfl⟩
  · exact .inr ⟨hr, of_decide_eq_false hk⟩

theorem mem_setState {state : RunState} (h : r ∈ (s.setState run state).runs) :
    ∃ r₀ ∈ s.runs, r = r₀ ∨ r = r₀.enter state := by
  rcases Table.mem_update_cases (AssistantRun.key_enter state) h with ⟨r₀, hr₀, -, rfl⟩ | ⟨hr, -⟩
  · exact ⟨r₀, hr₀, .inr rfl⟩
  · exact ⟨r, hr, .inl rfl⟩

theorem mem_gone (h : r ∈ s.gone.runs) : ∃ r₀ ∈ s.runs, r = r₀.released := by
  rcases Table.mem_update_cases AssistantRun.key_released h with ⟨r₀, hr₀, -, rfl⟩ | ⟨-, hfalse⟩
  · exact ⟨r₀, hr₀, rfl⟩
  · cases hfalse

end Scope

inductive Written where
  | result (result : AppendResult)
  | cut (n : ℕ)
  deriving DecidableEq

inductive Fate where
  | committed
  | failed
  | gone
  deriving DecidableEq

def Journal.commit (c : LineCodec RunRecord β) (r : RunRecord) (w : Written) (j : Journal β) :
    Journal β × Fate :=
  match w with
  | .result result =>
    match j.append c r result with
    | (j, true) => (j, .committed)
    | (j, false) => (j, .failed)
  | .cut n => (if j.poisoned then j else j.write ((c.line r).take n), .gone)

def inherited (r : RunRecord) (sequence : ℕ) : AssistantRun :=
  ⟨r.conversation, r.runID, r.generation, none, .pending, sequence, false⟩

def replayRun (t : Table AssistantRun.key × ℕ) (r : RunRecord) :
    Option (Table AssistantRun.key × ℕ) :=
  if r.conversation = "" ∨ r.runID = "" ∨ (!r.ended && !r.revoked && r.generation == 0) then none
  else if r.ended then some (t.1.delete fun run => run.key = r.key, t.2)
  else if r.revoked then
    some (t.1.update (fun run => run.key = r.key) .marked AssistantRun.key_marked, t.2)
  else if h : r.key ∈ t.1.rows.map AssistantRun.key then some t
  else some (t.1.insert (inherited r (t.2 + 1)) h, t.2 + 1)

structure Session (β : Type) where
  scope : Scope
  journal : Journal β
  running : Bool
  used : List String

namespace Session

def initial : Session β := ⟨.empty, ⟨none, false, 0, false⟩, false, []⟩

def crash (s : Session β) : Session β := { s with scope := s.scope.gone, running := false }

def compact (c : LineCodec RunRecord β) (result : Option RewriteResult) (s : Session β) :
    Session β :=
  match result with
  | none => s.crash
  | some result => { s with journal := s.journal.rewrite c s.scope.records result }

def endRun (c : LineCodec RunRecord β) (run : AssistantRun) (w : Written)
    (compaction : Option RewriteResult) (s : Session β) : Session β :=
  match s.journal.commit c run.endedRecord w with
  | (j, .gone) => { s with journal := j }.crash
  | (j, _) =>
    let s := { s with scope := s.scope.forget run, journal := j }
    if 2 * runLimit ≤ j.lines then s.compact c compaction else s

/-- `room`: the oldest run that can no longer execute ends, if the limit is reached. -/
def room (c : LineCodec RunRecord β) (w : Written) (compaction : Option RewriteResult)
    (s : Session β) : Session β × Bool :=
  if s.scope.runs.rows.length < runLimit then (s, true)
  else match s.scope.runs.rows.find? fun run => !dispatchable s.scope.generations run with
    | some run => (s.endRun c run w compaction, true)
    | none => (s, false)

def reserve (c : LineCodec RunRecord β) (conversation runID : String) (g : ℕ)
    (roomWrite : Written) (compaction : Option RewriteResult) (w : Written) (s : Session β) :
    Session β × Except String RunRef :=
  if s.journal.poisoned then (s, .error DurableOwners.unavailable)
  else if runKey conversation runID ∈ s.scope.runs.rows.map AssistantRun.key then
    (s, .error "assistant run is already started")
  else match s.room c roomWrite compaction with
    | (s, false) => (s, .error "the session holds its limit of running assistant runs")
    | (s, true) =>
      if !s.running then (s, .error DurableOwners.unavailable)
      else match s.journal.commit c (s.scope.reserved conversation runID g).startRecord w with
        | (j, .gone) => ({ s with journal := j }.crash, .error DurableOwners.unavailable)
        | (j, .failed) => ({ s with journal := j }, .error DurableOwners.unavailable)
        | (j, .committed) =>
          if h : runKey conversation runID ∈ s.scope.runs.rows.map AssistantRun.key then
            ({ s with journal := j }, .error "assistant run is already started")
          else ({ s with scope := s.scope.install conversation runID g h, journal := j },
            .ok (s.scope.reserved conversation runID g).ref)

def finish (c : LineCodec RunRecord β) (ref : RunRef) (outcome : RunOutcome) (w : Written)
    (compaction : Option RewriteResult) (s : Session β) : Session β :=
  match s.scope.find ref with
  | none => s
  | some run =>
    match outcome with
    | .rejected => s.endRun c run w compaction
    | .unknown => { s with scope := s.scope.setState run .unknown }
    | .accepted => { s with scope := (s.scope.setState run .active).accept run }

def observed (c : LineCodec RunRecord β) (ref : RunRef) (terminal : Bool) (w : Written)
    (compaction : Option RewriteResult) (s : Session β) : Session β :=
  match s.scope.find ref with
  | none => s
  | some run =>
    if run.revoked then s
    else if terminal then s.endRun c run w compaction
    else if run.state = .unknown then
      { s with scope := (s.scope.setState run .active).accept run }
    else s

def expire (c : LineCodec RunRecord β) (ref : RunRef) (w : Written) (s : Session β) : Session β :=
  match s.scope.find ref with
  | none => s
  | some run =>
    if run.state ≠ .unknown ∨ run.revoked then s
    else match s.journal.commit c run.revokedRecord w with
      | (j, .gone) => { s with journal := j }.crash
      | (j, _) => { s with scope := s.scope.revoke run, journal := j }

def start [DecidableEq β] (c : LineCodec RunRecord β) (o : Journal.Replaying)
    (compaction : Option RewriteResult) (s : Session β) : Option (Session β) :=
  match s.journal.replay c.newline (fun t l => (c.decode l).bind (replayRun t)) (.empty, 0) o with
  | none => none
  | some (t, j) =>
    let s := { s with scope := { Scope.empty with runs := t.1, sequence := t.2 }, journal := j,
                      running := true }
    some (if runLimit < j.lines then s.compact c compaction else s)

inductive Event where
  | publish (m : Manifest)
  | acquire (number : ℕ)
  | complete (g : ℕ)
  | remove (number : ℕ) (force : Bool)
  | endStreams (number : ℕ)
  | reserve (conversation runID : String) (g : ℕ) (roomWrite : Written)
    (compaction : Option RewriteResult) (w : Written)
  | finish (ref : RunRef) (outcome : RunOutcome) (w : Written) (compaction : Option RewriteResult)
  | observed (ref : RunRef) (terminal : Bool) (w : Written) (compaction : Option RewriteResult)
  | expire (ref : RunRef) (w : Written)
  | attach (conversation : String) (g : ℕ)
  | detach (id : ℕ)
  | crash
  | start (o : Journal.Replaying) (compaction : Option RewriteResult)

def act (cfg : HostConfig) (c : LineCodec RunRecord β) (s : Session β) : Event → Option (Session β)
  | .publish m =>
    match publish cfg m s.scope.generations with
    | .error _ => some s
    | .ok gens => some { s with scope := { s.scope with generations := gens } }
  | .acquire number =>
    match target number s.scope.generations with
    | none => some s
    | some g => some { s with scope := s.scope.hold g.number }
  | .complete g => if g ∈ s.scope.requests then some { s with scope := s.scope.complete g } else none
  | .remove number force =>
    match removeGeneration number force s.scope.generations with
    | .error _ => some s
    | .ok gens => some { s with scope := s.scope.remove number gens }
  | .endStreams number =>
    if number ∈ s.scope.retiring then some { s with scope := s.scope.endStreams number } else none
  | .reserve conversation runID g roomWrite compaction w =>
    if g ∈ s.scope.requests then
      some { (s.reserve c conversation runID g roomWrite compaction w).1 with
        used := runKey conversation runID :: s.used }
    else none
  | .finish ref outcome w compaction => some (s.finish c ref outcome w compaction)
  | .observed ref terminal w compaction => some (s.observed c ref terminal w compaction)
  | .expire ref w => some (s.expire c ref w)
  | .attach conversation g =>
    if g ∈ s.scope.requests then some { s with scope := s.scope.attach conversation g } else none
  | .detach id => some { s with scope := s.scope.detach id }
  | .crash => some s.crash
  | .start _ _ => none

def step [DecidableEq β] (cfg : HostConfig) (c : LineCodec RunRecord β) (s : Session β)
    (e : Event) : Option (Session β) :=
  if s.running then s.act cfg c e
  else match e with
    | .start o compaction => s.start c o compaction
    | _ => none

def Fresh (s : Session β) : Event → Prop
  | .reserve conversation runID _ _ _ _ => runKey conversation runID ∉ s.used
  | _ => True

instance (s : Session β) (e : Event) : Decidable (s.Fresh e) := by
  unfold Fresh
  split <;> infer_instance

structure Call where
  assistantAddress : String
  principal : String
  conversationDigest : String
  runID : String
  deriving DecidableEq

def Call.key (call : Call) : String :=
  runKey (conversationKey call.assistantAddress call.principal call.conversationDigest)
    (trimSpace call.runID)

/-- `runGeneration`: the generation a call executes in; 0 stands for the current one. -/
def runGeneration (call : Call) (s : Session β) : Except String ℕ :=
  if trimSpace call.conversationDigest = "" ∧ trimSpace call.runID = "" then .ok 0
  else if s.journal.poisoned then .error DurableOwners.unavailable
  else if trimSpace call.runID = "" then .error "the assistant tool call names no run"
  else match s.scope.runs.find call.key with
    | none => .error "the assistant run is not running"
    | some run =>
      if run.revoked then
        .error ("the assistant run was revoked because its start outcome stayed unknown; " ++
          "whether it had effects is unknown")
      else if !dispatchable s.scope.generations run then
        .error ("the assistant run executes in application generation " ++ toString run.number ++
          ", which is no longer dispatchable")
      else .ok run.number

end Session

end Scenery.Host
