import Mathlib.Data.List.Sort
import Mathlib.Data.Fintype.Basic
import Scenery.Durable.Effects
import Scenery.Runs

/-!
# Concurrent leases

`LeaseReadyJobWithToken` as a `READ COMMITTED` transaction, statement by statement.
-/

namespace Scenery.Durable

/-! ## Statements -/

structure LeaseTx where
  workerID : String
  leaseID : String
  taskName : String
  tokenHash : String
  now : ℤ
  deriving DecidableEq

/-- How far a worker is in its transaction. `ids` are the jobs that it has recovered, its
uncommitted changes. -/
inductive Phase where
  | idle
  | begun (tx : LeaseTx)
  | recovered (tx : LeaseTx) (ids : List String)
  | selecting (tx : LeaseTx) (ids : List String) (snapshot : Db) (candidates : List Job)
  | locked (tx : LeaseTx) (ids : List String) (job : Job) (task : Task)
  | written (tx : LeaseTx) (ids : List String) (job : Job) (task : Task)

namespace Phase

def locksJob (id : String) : Phase → Bool
  | .recovered _ ids => id ∈ ids
  | .selecting _ ids _ _ => id ∈ ids
  | .locked _ ids job _ => id ∈ ids || job.id = id
  | .written _ ids job _ => id ∈ ids || job.id = id
  | _ => false

def locksTask (name : String) : Phase → Bool
  | .locked _ _ _ task => task.name = name
  | .written _ _ _ task => task.name = name
  | _ => false

end Phase

structure Store (n : ℕ) where
  db : Db
  phase : Fin n → Phase

def Db.view (db : Db) (ids : List String) (now : ℤ) : Db :=
  db.apply (fun j => j.id ∈ ids) (.recover now)

def Db.candidates (db : Db) (now : ℤ) (taskName : String) : List Job :=
  ((db.readyJobs now taskName).map Prod.fst).insertionSort fun a b => Db.leasedBefore a b = true

def Db.recheck (present snapshot : Db) (tx : LeaseTx) (id : String) : Option (Job × Task) :=
  (present.jobs.find id).bind fun job =>
    ((present.taskOf job).filter fun task => snapshot.ready tx.now tx.taskName job task).map
      fun task => (job, task)

inductive Event (n : ℕ) : Type where
  | begin (i : Fin n) (tx : LeaseTx)
  | recover (i : Fin n) (ids : List String)
  | snapshot (i : Fin n)
  | tryLock (i : Fin n)
  | write (i : Fin n)
  | commit (i : Fin n)
  | abort (i : Fin n)
  | other (c : Call) (now : ℤ)

namespace Call

def isLease : Call → Bool
  | .lease _ _ _ _ => true
  | _ => false

end Call

namespace Store

variable {n : ℕ}

def initial (n : ℕ) (tasks : Table Task.name) : Store n := ⟨⟨.empty, tasks, []⟩, fun _ => .idle⟩

def goto (s : Store n) (i : Fin n) (phase : Phase) : Store n :=
  { s with phase := Function.update s.phase i phase }

def finish (s : Store n) (i : Fin n) (db : Db) : Store n :=
  ⟨db, Function.update s.phase i .idle⟩

def jobLocked (s : Store n) (i : Fin n) (id : String) : Prop :=
  ∃ k, k ≠ i ∧ (s.phase k).locksJob id = true

def taskLocked (s : Store n) (i : Fin n) (name : String) : Prop :=
  ∃ k, k ≠ i ∧ (s.phase k).locksTask name = true

instance (s : Store n) (i : Fin n) (id : String) : Decidable (s.jobLocked i id) :=
  inferInstanceAs (Decidable (∃ k, k ≠ i ∧ (s.phase k).locksJob id = true))

instance (s : Store n) (i : Fin n) (name : String) : Decidable (s.taskLocked i name) :=
  inferInstanceAs (Decidable (∃ k, k ≠ i ∧ (s.phase k).locksTask name = true))

def mayRecover (s : Store n) (i : Fin n) (tx : LeaseTx) (ids : List String) : Prop :=
  ∀ id ∈ ids, ¬ s.jobLocked i id ∧
    ∃ j ∈ s.db.jobs.rows, j.id = id ∧ Db.expired tx.now tx.taskName j = true

instance (s : Store n) (i : Fin n) (tx : LeaseTx) (ids : List String) :
    Decidable (s.mayRecover i tx ids) :=
  inferInstanceAs (Decidable (∀ id ∈ ids, ¬ s.jobLocked i id ∧
    ∃ j ∈ s.db.jobs.rows, j.id = id ∧ Db.expired tx.now tx.taskName j = true))

def mayCall (s : Store n) (c : Call) (now : ℤ) : Prop :=
  c.isLease = false ∧ ∀ j ∈ s.db.jobs.rows, (∃ k, (s.phase k).locksJob j.id = true) →
    j ∈ (c.run now s.db).jobs.rows

instance (s : Store n) (c : Call) (now : ℤ) : Decidable (s.mayCall c now) :=
  inferInstanceAs (Decidable (c.isLease = false ∧
    ∀ j ∈ s.db.jobs.rows, (∃ k, (s.phase k).locksJob j.id = true) →
      j ∈ (c.run now s.db).jobs.rows))

def tryLock (s : Store n) (i : Fin n) (tx : LeaseTx) (ids : List String) (snapshot : Db)
    (job : Job) (rest : List Job) : Store n :=
  if s.taskLocked i tx.taskName ∨ s.jobLocked i job.id then
    s.goto i (.selecting tx ids snapshot rest)
  else
    match (s.db.view ids tx.now).recheck snapshot tx job.id with
    | some (job, task) => s.goto i (.locked tx ids job task)
    | none => s.goto i (.selecting tx ids snapshot rest)

def step (s : Store n) : Event n → Option (Store n)
  | .begin i tx =>
    match s.phase i with
    | .idle =>
      if tx.workerID ≠ "" ∧ tx.leaseID ≠ "" ∧ tx.taskName ≠ "" then
        some (s.goto i (.begun tx))
      else none
    | _ => none
  | .recover i ids =>
    match s.phase i with
    | .begun tx => if s.mayRecover i tx ids then some (s.goto i (.recovered tx ids)) else none
    | _ => none
  | .snapshot i =>
    match s.phase i with
    | .recovered tx ids =>
      let snapshot := s.db.view ids tx.now
      some (s.goto i (.selecting tx ids snapshot (snapshot.candidates tx.now tx.taskName)))
    | _ => none
  | .tryLock i =>
    match s.phase i with
    | .selecting tx ids _ [] => some (s.finish i (s.db.view ids tx.now))
    | .selecting tx ids snapshot (job :: rest) => some (s.tryLock i tx ids snapshot job rest)
    | _ => none
  | .write i =>
    match s.phase i with
    | .locked tx ids job task => some (s.goto i (.written tx ids job task))
    | _ => none
  | .commit i =>
    match s.phase i with
    | .written tx ids job task =>
      some (s.finish i ((s.db.view ids tx.now).applyTo job.id
        (.lease tx.now task tx.workerID tx.leaseID tx.tokenHash)))
    | _ => none
  | .abort i => some (s.goto i .idle)
  | .other c now => if s.mayCall c now then some { s with db := c.run now s.db } else none

end Store

end Scenery.Durable
