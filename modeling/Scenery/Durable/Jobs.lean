import Mathlib.Data.Rat.Floor
import Scenery.Recover
import Scenery.Table

/-!
# The durable job store

`internal/durable/store`: the rows of one service in `durable_jobs`, `durable_tasks` and
`durable_job_events`, and the transactions that change them.
-/

namespace Scenery.Durable

inductive JobState where
  | queued
  | running
  | succeeded
  | failed
  | canceled
  deriving DecidableEq

def JobState.isFinal : JobState → Bool
  | .queued | .running => false
  | .succeeded | .failed | .canceled => true

structure Job where
  id : String
  taskName : String
  taskVersion : ℤ
  state : JobState
  dedupeKey : Option String
  dedupeExpiresAt : Option ℤ
  concurrencyKey : Option String
  priority : ℤ
  runAfter : ℤ
  attempt : ℕ
  maxAttempts : ℤ
  successRetentionMs : ℤ
  failureRetentionMs : ℤ
  timeoutAt : Option ℤ
  leaseId : Option String
  leaseOwner : Option String
  leaseTokenHash : Option String
  leaseUntil : Option ℤ
  inputBlob : Bytes
  resultCodec : Option String
  resultBlob : Option Bytes
  errorCodec : Option String
  errorBlob : Option Bytes
  createdAt : ℤ
  updatedAt : ℤ
  completedAt : Option ℤ
  deriving DecidableEq

structure Task where
  name : String
  version : ℤ
  defaultTimeoutMs : ℤ
  defaultLeaseMs : ℤ
  maxAttempts : ℤ
  maxConcurrency : ℤ
  deduplicationRetentionMs : ℤ
  retryInitialMs : ℤ
  retryMaxMs : ℤ
  retryBackoff : ℚ
  successRetentionMs : ℤ
  failureRetentionMs : ℤ
  enabled : Bool
  deriving DecidableEq

inductive EventType where
  | created
  | leased
  | leaseExpired
  | retryScheduled
  | retryRequested
  | succeeded
  | failed
  | canceled
  deriving DecidableEq

structure JobEvent where
  jobId : String
  attempt : Option ℕ
  type : EventType
  deriving DecidableEq

structure Db where
  jobs : Table Job.id
  tasks : Table Task.name
  events : List JobEvent

inductive NotificationKind where
  | queued
  | done
  | requeued
  deriving DecidableEq

structure Notification where
  kind : NotificationKind
  task : String
  job : String
  deriving DecidableEq

inductive StoreError where
  | jobIdRequired
  | taskNameRequired
  | inputRequired
  | workerIdRequired
  | leaseIdRequired
  | leaseFieldsRequired
  /-- `insert job …`: the id or the deduplication key is taken, or the task is unknown -/
  | insertJob (id : String)
  | loadJob (id : String)
  | loadAttempt (id : String)
  | loadRetryPolicy (id : String)
  | notOwner (lease id : String)
  | cannotCancel (id : String)
  | cannotRetry (id : String)
  deriving DecidableEq

structure Committed (α : Type) where
  reply : α
  db : Db
  notifications : List Notification

/-! ## Changes of a row -/

structure Change where
  update : Job → Job
  update_id : ∀ j, (update j).id = j.id
  event : Job → Option (ℕ × EventType)

attribute [simp] Change.update_id

def milliseconds (ms : ℤ) : ℤ := ms * 1000

def orMinute (ms : ℤ) : ℤ := if 0 < ms then ms else 60000

def retryDelaySeconds (attempt : ℕ) (initialMs maxMs : ℤ) (backoff : ℚ) : ℚ :=
  let initial : ℚ := if initialMs ≤ 0 then 1000 else initialMs
  let limit : ℚ := if maxMs ≤ 0 then 60000 else maxMs
  let factor : ℚ := if backoff ≤ 0 then 2 else backoff
  min (initial * factor ^ (attempt - 1)) limit / 1000

namespace Change

variable (now : ℤ)

def release : Change where
  update j := { j with dedupeKey := none, dedupeExpiresAt := none, updatedAt := now }
  update_id _ := rfl
  event _ := none

def attemptsLeft (j : Job) : Bool := (j.attempt : ℤ) < j.maxAttempts

def recover : Change where
  update j := { j with
    state := if attemptsLeft j then .queued else .failed
    runAfter := if attemptsLeft j then now else j.runAfter
    errorCodec := some "text"
    errorBlob := some "durable lease or timeout expired".toUTF8.toList
    leaseId := none
    leaseOwner := none
    leaseTokenHash := none
    leaseUntil := none
    timeoutAt := none
    completedAt := if attemptsLeft j then none else some now
    updatedAt := now }
  update_id _ := rfl
  event j := some (j.attempt, if attemptsLeft j then .leaseExpired else .failed)

def lease (task : Task) (worker leaseID tokenHash : String) : Change where
  update j := { j with
    state := .running
    attempt := j.attempt + 1
    leaseId := some leaseID
    leaseOwner := some worker
    leaseTokenHash := some tokenHash
    leaseUntil := some (now + milliseconds (orMinute task.defaultLeaseMs))
    timeoutAt := some (now + milliseconds (orMinute task.defaultTimeoutMs))
    updatedAt := now }
  update_id _ := rfl
  event j := some (j.attempt + 1, .leased)

def leastTime (limit : Option ℤ) (time : ℤ) : ℤ := limit.elim time (min time)

def extend (leaseMs : Job → ℤ) : Change where
  update j := { j with
    leaseUntil := some (leastTime j.timeoutAt (now + milliseconds (leaseMs j)))
    updatedAt := now }
  update_id _ := rfl
  event _ := none

def finish (result : Option Bytes) : Change where
  update j := { j with
    state := .succeeded
    resultCodec := some "json"
    resultBlob := result
    errorCodec := none
    errorBlob := none
    leaseId := none
    leaseOwner := none
    leaseTokenHash := none
    leaseUntil := none
    completedAt := some now
    updatedAt := now }
  update_id _ := rfl
  event j := some (j.attempt, .succeeded)

def requeue (task : Task) (error : Option Bytes) : Change where
  update j := { j with
    state := .queued
    runAfter := now + round (retryDelaySeconds j.attempt task.retryInitialMs task.retryMaxMs
      task.retryBackoff * 1000000)
    errorCodec := some "text"
    errorBlob := error
    leaseId := none
    leaseOwner := none
    leaseTokenHash := none
    leaseUntil := none
    updatedAt := now }
  update_id _ := rfl
  event j := some (j.attempt, .retryScheduled)

def fail (error : Option Bytes) : Change where
  update j := { j with
    state := .failed
    errorCodec := some "text"
    errorBlob := error
    leaseId := none
    leaseOwner := none
    leaseTokenHash := none
    leaseUntil := none
    completedAt := some now
    updatedAt := now }
  update_id _ := rfl
  event j := some (j.attempt, .failed)

def cancel : Change where
  update j := { j with
    state := .canceled
    leaseId := none
    leaseOwner := none
    leaseTokenHash := none
    leaseUntil := none
    completedAt := some now
    updatedAt := now }
  update_id _ := rfl
  event j := some (j.attempt, .canceled)

def retry : Change where
  update j := { j with
    state := .queued
    runAfter := now
    maxAttempts := if j.maxAttempts ≤ j.attempt then j.attempt + 1 else j.maxAttempts
    errorCodec := none
    errorBlob := none
    leaseId := none
    leaseOwner := none
    leaseTokenHash := none
    leaseUntil := none
    completedAt := none
    updatedAt := now }
  update_id _ := rfl
  event j := some (j.attempt, .retryRequested)

end Change

namespace Db

def apply (db : Db) (p : Job → Bool) (c : Change) : Db :=
  { db with
    jobs := db.jobs.update p c.update c.update_id
    events := db.events ++ (db.jobs.rows.filter p).filterMap fun j =>
      (c.event j).map fun e => ⟨j.id, some e.1, e.2⟩ }

def applyTo (db : Db) (id : String) (c : Change) : Db := db.apply (fun j => j.id = id) c

/-! ## Start -/

structure StartRequest where
  id : String
  taskName : String
  taskVersion : ℤ
  dedupeKey : String
  concurrencyKey : String
  priority : ℤ
  inputBlob : Bytes
  deriving DecidableEq

def normalizeStart (req : StartRequest) : StartRequest :=
  { req with
    id := trimSpace req.id
    taskName := trimSpace req.taskName
    dedupeKey := trimSpace req.dedupeKey
    concurrencyKey := trimSpace req.concurrencyKey
    taskVersion := if req.taskVersion = 0 then 1 else req.taskVersion }

def nullIf (text : String) : Option String := if text = "" then none else some text

def holdsKey (taskName key : String) (j : Job) : Bool :=
  j.taskName = taskName && j.dedupeKey = some key

def holdsExpiredKey (now : ℤ) (taskName key : String) (j : Job) : Bool :=
  holdsKey taskName key j && j.dedupeExpiresAt.any (· ≤ now)

def jobByDedupeKey (db : Db) (taskName key : String) : Option Job :=
  db.jobs.rows.find? (holdsKey taskName key)

def holder (db : Db) (req : StartRequest) : Option Job :=
  if req.dedupeKey = "" then none else db.jobByDedupeKey req.taskName req.dedupeKey

def newJob (now : ℤ) (req : StartRequest) (task : Task) : Job where
  id := req.id
  taskName := req.taskName
  taskVersion := req.taskVersion
  state := .queued
  dedupeKey := nullIf req.dedupeKey
  dedupeExpiresAt :=
    if req.dedupeKey = "" then none
    else some (now + milliseconds
      (if task.version = req.taskVersion then task.deduplicationRetentionMs else 604800000))
  concurrencyKey := nullIf req.concurrencyKey
  priority := req.priority
  runAfter := now
  attempt := 0
  maxAttempts := task.maxAttempts
  successRetentionMs := task.successRetentionMs
  failureRetentionMs := task.failureRetentionMs
  timeoutAt := none
  leaseId := none
  leaseOwner := none
  leaseTokenHash := none
  leaseUntil := none
  inputBlob := req.inputBlob
  resultCodec := none
  resultBlob := none
  errorCodec := none
  errorBlob := none
  createdAt := now
  updatedAt := now
  completedAt := none

def insertJob (db : Db) (now : ℤ) (req : StartRequest) : Except StoreError Db :=
  match db.tasks.find req.taskName with
  | none => .error (.insertJob req.id)
  | some task =>
    if h : req.id ∉ db.jobs.rows.map Job.id then
      if (db.holder req).isSome then .error (.insertJob req.id)
      else
        .ok { db with
          jobs := db.jobs.insert (newJob now req task) h
          events := db.events ++ [⟨req.id, none, .created⟩] }
    else .error (.insertJob req.id)

def releaseKeys (db : Db) (now : ℤ) (req : StartRequest) : Db :=
  if req.dedupeKey = "" then db
  else db.apply (holdsExpiredKey now req.taskName req.dedupeKey) (.release now)

def start (db : Db) (now : ℤ) (request : StartRequest) : Except StoreError (Committed String) :=
  let req := normalizeStart request
  if req.id = "" then .error .jobIdRequired
  else if req.taskName = "" then .error .taskNameRequired
  else if req.inputBlob = [] then .error .inputRequired
  else
    let released := db.releaseKeys now req
    match released.holder req with
    | some job => .ok ⟨job.id, released, []⟩
    | none =>
      (released.insertJob now req).map fun inserted =>
        ⟨req.id, inserted, [⟨.queued, req.taskName, ""⟩]⟩

/-! ## Leasing -/

def expired (now : ℤ) (taskName : String) (j : Job) : Bool :=
  j.taskName = taskName && j.state = .running &&
    (j.leaseUntil.any (· ≤ now) || j.timeoutAt.any (· ≤ now))

def recoverExpiredJobs (db : Db) (now : ℤ) (taskName : String) : Db :=
  db.apply (expired now taskName) (.recover now)

def runsWith (j r : Job) : Bool :=
  r.taskName = j.taskName && r.state = .running &&
    r.concurrencyKey.getD "" = j.concurrencyKey.getD ""

def hasRoom (db : Db) (task : Task) (j : Job) : Bool :=
  task.maxConcurrency ≤ 0 || (db.jobs.rows.countP (runsWith j) : ℤ) < task.maxConcurrency

def taskOf (db : Db) (j : Job) : Option Task :=
  (db.tasks.find j.taskName).filter fun task => task.version = j.taskVersion

def ready (db : Db) (now : ℤ) (taskName : String) (j : Job) (task : Task) : Bool :=
  j.taskName = taskName && j.state = .queued && j.runAfter ≤ now && task.enabled &&
    db.hasRoom task j

def readyJobs (db : Db) (now : ℤ) (taskName : String) : List (Job × Task) :=
  db.jobs.rows.filterMap fun j =>
    ((db.taskOf j).filter fun task => db.ready now taskName j task).map fun task => (j, task)

def leasedBefore (a b : Job) : Bool :=
  if a.priority ≠ b.priority then b.priority < a.priority
  else if a.createdAt ≠ b.createdAt then a.createdAt < b.createdAt
  else a.id ≤ b.id

def firstOf : List (Job × Task) → Option (Job × Task)
  | [] => none
  | x :: rest =>
    match firstOf rest with
    | none => some x
    | some best => if leasedBefore x.1 best.1 then some x else some best

structure LeasedJob where
  id : String
  taskName : String
  attempt : ℕ
  leaseId : String
  leaseMs : ℤ
  timeoutMs : ℤ
  inputBlob : Bytes
  deriving DecidableEq

inductive LeaseReply where
  | leased (job : LeasedJob)
  | empty (wakeAfter : ℤ)
  deriving DecidableEq

def wakeTime (now : ℤ) (j : Job) : Option ℤ :=
  match j.state with
  | .queued => if now < j.runAfter then some j.runAfter else none
  | .running => [j.leaseUntil, j.timeoutAt].reduceOption.min?
  | _ => none

def nextTaskWakeDelay (db : Db) (now : ℤ) (taskName : String) : ℤ :=
  let times := (db.jobs.rows.filter fun j => j.taskName = taskName).filterMap (wakeTime now)
  let delay := times.min?.elim 10000000 (· - now)
  min (max delay 10000) 10000000

def leaseReadyJobWithToken (db : Db) (now : ℤ) (workerID leaseID taskName tokenHash : String) :
    Except StoreError (Committed LeaseReply) :=
  let worker := trimSpace workerID
  let lease := trimSpace leaseID
  let task := trimSpace taskName
  if worker = "" then .error .workerIdRequired
  else if lease = "" then .error .leaseIdRequired
  else if task = "" then .error .taskNameRequired
  else
    let recovered := db.recoverExpiredJobs now task
    match firstOf (recovered.readyJobs now task) with
    | none => .ok ⟨.empty (recovered.nextTaskWakeDelay now task), recovered, []⟩
    | some (job, declared) =>
      .ok ⟨.leased ⟨job.id, job.taskName, job.attempt + 1, lease,
          orMinute declared.defaultLeaseMs, orMinute declared.defaultTimeoutMs, job.inputBlob⟩,
        recovered.applyTo job.id (.lease now declared worker lease (trimSpace tokenHash)), []⟩

def owns (worker lease : String) (j : Job) : Bool :=
  j.state = .running && j.leaseOwner = some worker && j.leaseId = some lease

/-- The condition of `finishJob` and `failOrRetryJob`: without a worker any running row. -/
def passesFence (worker lease : String) (j : Job) : Bool :=
  j.state = .running &&
    (worker = "" || (j.leaseOwner = some worker && j.leaseId = some lease))

def select (db : Db) (id : String) (p : Job → Bool) : Option Job := (db.jobs.find id).filter p

def heartbeatMs (db : Db) (j : Job) : ℤ :=
  (db.taskOf j).elim 60000 fun task => orMinute task.defaultLeaseMs

def heartbeatJob (db : Db) (now : ℤ) (jobID workerID leaseID : String) :
    Except StoreError (Committed Unit) :=
  let id := trimSpace jobID
  let worker := trimSpace workerID
  let lease := trimSpace leaseID
  if id = "" ∨ worker = "" ∨ lease = "" then .error .leaseFieldsRequired
  else
    match db.select id (owns worker lease) with
    | none => .error (.notOwner lease id)
    | some _ => .ok ⟨(), db.applyTo id (.extend now db.heartbeatMs), []⟩

def finishJob (db : Db) (now : ℤ) (jobID workerID leaseID : String) (result : Option Bytes) :
    Except StoreError (Committed Unit) :=
  let id := trimSpace jobID
  if id = "" then .error .jobIdRequired
  else
    match db.select id (passesFence (trimSpace workerID) (trimSpace leaseID)) with
    | none => .error (.loadAttempt id)
    | some job => .ok ⟨(), db.applyTo id (.finish now result), [⟨.done, job.taskName, id⟩]⟩

def failOrRetryJob (db : Db) (now : ℤ) (jobID workerID leaseID : String)
    (error : Option Bytes) : Except StoreError (Committed Unit) :=
  let id := trimSpace jobID
  if id = "" then .error .jobIdRequired
  else
    match db.select id (passesFence (trimSpace workerID) (trimSpace leaseID)) with
    | none => .error (.loadRetryPolicy id)
    | some job =>
      match db.tasks.find job.taskName with
      | none => .error (.loadRetryPolicy id)
      | some task =>
        if Change.attemptsLeft job then
          .ok ⟨(), db.applyTo id (.requeue now task error), [⟨.requeued, job.taskName, id⟩]⟩
        else .ok ⟨(), db.applyTo id (.fail now error), [⟨.done, job.taskName, id⟩]⟩

def cancelable (j : Job) : Bool :=
  j.state = .queued || j.state = .running || j.state = .failed

def cancelJob (db : Db) (now : ℤ) (jobID : String) : Except StoreError (Committed Unit) :=
  let id := trimSpace jobID
  if id = "" then .error .jobIdRequired
  else
    match db.jobs.find id with
    | none => .error (.loadJob id)
    | some job =>
      if cancelable job then .ok ⟨(), db.applyTo id (.cancel now), [⟨.done, job.taskName, id⟩]⟩
      else .error (.cannotCancel id)

def retryable (j : Job) : Bool := j.state = .failed || j.state = .canceled

def retryJob (db : Db) (now : ℤ) (jobID : String) : Except StoreError (Committed Unit) :=
  let id := trimSpace jobID
  if id = "" then .error .jobIdRequired
  else
    match db.jobs.find id with
    | none => .error (.loadJob id)
    | some job =>
      if retryable job then .ok ⟨(), db.applyTo id (.retry now), [⟨.queued, job.taskName, ""⟩]⟩
      else .error (.cannotRetry id)

def retentionOver (now : ℤ) (j : Job) : Bool :=
  j.completedAt.any fun done =>
    (j.state = .succeeded && 0 < j.successRetentionMs &&
      done ≤ now - milliseconds j.successRetentionMs) ||
    ((j.state = .failed || j.state = .canceled) && 0 < j.failureRetentionMs &&
      done ≤ now - milliseconds j.failureRetentionMs)

def purgeExpiredJobs (db : Db) (now : ℤ) : Db :=
  let jobs := db.jobs.delete (retentionOver now)
  { db with
    jobs := jobs
    events := db.events.filter fun event => event.jobId ∈ jobs.rows.map Job.id }

end Db

inductive Call where
  | start (request : Db.StartRequest)
  | lease (workerID leaseID taskName tokenHash : String)
  | heartbeat (jobID workerID leaseID : String)
  /-- `CompleteLeasedJob`; `CompleteJob` is the call without worker and lease -/
  | complete (jobID workerID leaseID : String) (result : Option Bytes)
  | fail (jobID workerID leaseID : String) (error : Option Bytes)
  | cancel (jobID : String)
  | retry (jobID : String)
  | purge
  deriving DecidableEq

def Committed.drop {α : Type} (c : Committed α) : Committed Unit := ⟨(), c.db, c.notifications⟩

def Call.commit (call : Call) (now : ℤ) (db : Db) : Except StoreError (Committed Unit) :=
  match call with
  | .start request => (db.start now request).map Committed.drop
  | .lease workerID leaseID taskName tokenHash =>
    (db.leaseReadyJobWithToken now workerID leaseID taskName tokenHash).map Committed.drop
  | .heartbeat jobID workerID leaseID => db.heartbeatJob now jobID workerID leaseID
  | .complete jobID workerID leaseID result => db.finishJob now jobID workerID leaseID result
  | .fail jobID workerID leaseID error => db.failOrRetryJob now jobID workerID leaseID error
  | .cancel jobID => db.cancelJob now jobID
  | .retry jobID => db.retryJob now jobID
  | .purge => .ok ⟨(), db.purgeExpiredJobs now, []⟩

/-- The database after a call: a failed one changes nothing. -/
def Call.run (call : Call) (now : ℤ) (db : Db) : Db :=
  match call.commit now db with
  | .ok c => c.db
  | .error _ => db

def Db.Redeclares (db db' : Db) : Prop :=
  db'.jobs = db.jobs ∧ db'.events = db.events ∧
    ∀ task ∈ db.tasks, ∃ task' ∈ db'.tasks, task'.name = task.name

/-- The databases that histories reach with the time of their last transaction, when every
declared task meets the condition. -/
inductive Reachable (declared : Task → Prop) : Db → ℤ → Prop where
  | init {tasks : Table Task.name} {now : ℤ} (h : ∀ task ∈ tasks, declared task) :
    Reachable declared ⟨.empty, tasks, []⟩ now
  | call {db : Db} {last now : ℤ} (c : Call) (h : Reachable declared db last)
    (hnow : last ≤ now) : Reachable declared (c.run now db) now
  | declare {db db' : Db} {last : ℤ} (h : Reachable declared db last)
    (hd : db.Redeclares db') (hdb' : ∀ task ∈ db'.tasks, declared task) :
    Reachable declared db' last

end Scenery.Durable
