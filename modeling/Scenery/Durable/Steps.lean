import Mathlib.Data.Fintype.Basic
import Scenery.Durable.Invariant
import Scenery.Runs

/-!
# Memoized steps of durable jobs

`DurableStep` of `runtime/durable.go` with `GetStep` and `SaveStep` of the store.
-/

namespace Scenery.Durable

/-! ## The store -/

inductive StepState where
  | started
  | succeeded
  | failed
  | skipped
  deriving DecidableEq

structure StepRow where
  jobId : String
  stepKey : String
  state : StepState
  resultCodec : Option String
  resultBlob : Option Bytes
  errorCodec : Option String
  errorBlob : Option Bytes
  deriving DecidableEq

def StepRow.key (r : StepRow) : String × String := (r.jobId, r.stepKey)

structure StepResult where
  state : StepState
  resultCodec : String
  resultBlob : Option Bytes
  errorCodec : String
  errorBlob : Option Bytes
  deriving DecidableEq

inductive StepError where
  | required
  | saveRequired
  | save (key jobID : String)
  deriving DecidableEq

abbrev Steps : Type := Table StepRow.key

/-- `GetStep`. -/
def getStep (steps : Steps) (jobID key : String) : Except StepError (Option StepResult) :=
  let job := trimSpace jobID
  let key := trimSpace key
  if job = "" ∨ key = "" then .error .required
  else .ok ((steps.find (job, key)).map fun row =>
    ⟨row.state, row.resultCodec.getD "", row.resultBlob, row.errorCodec.getD "", row.errorBlob⟩)

def setStep (state : StepState) (result error : Option Bytes) (row : StepRow) : StepRow :=
  { row with
    state := state
    resultCodec := some "json"
    resultBlob := result
    errorCodec := error.map fun _ => "text"
    errorBlob := error }

theorem setStep_key (state : StepState) (result error : Option Bytes) (row : StepRow) :
    (setStep state result error row).key = row.key := rfl

def Steps.save (steps : Steps) (job key : String) (state : StepState)
    (result error : Option Bytes) : Steps :=
  steps.upsert (setStep state result error ⟨job, key, state, none, none, none, none⟩)
    (setStep state result error) (setStep_key state result error)

/-- `SaveStep`: an upsert whose update has no condition. -/
def saveStep (db : Db) (steps : Steps) (jobID key : String) (state : StepState)
    (result error : Option Bytes) : Except StepError Steps :=
  let job := trimSpace jobID
  let key := trimSpace key
  if job = "" ∨ key = "" then .error .saveRequired
  else if (db.jobs.find job).isNone then .error (.save key job)
  else .ok (steps.save job key state result error)

inductive Lookup where
  | direct
  | error (e : StepError)
  | hit (result : Option Bytes)
  | miss
  deriving DecidableEq

def lookupStep (steps : Steps) (jobID key : String) : Lookup :=
  if trimSpace jobID = "" then .direct
  else
    match getStep steps jobID key with
    | .error e => .error e
    | .ok (some step) => if step.state = .succeeded then .hit step.resultBlob else .miss
    | .ok none => .miss

abbrev Outcome : Type := Except Bytes (Option Bytes)

def recordStep (db : Db) (steps : Steps) (jobID key : String) (outcome : Outcome) :
    Except StepError Steps :=
  match outcome with
  | .ok result => saveStep db steps jobID key .succeeded result none
  | .error text => saveStep db steps jobID key .failed none (some text)

/-! ## Attempts -/

namespace Memo

inductive Phase where
  | idle
  | attempt (jobID : String)
  | running (jobID key : String)
  | saving (jobID key : String) (outcome : Outcome)
  deriving DecidableEq

def Phase.saves : Phase → Option (String × String)
  | .saving jobID key _ => some (trimSpace jobID, trimSpace key)
  | _ => none

structure State (n : ℕ) where
  db : Db
  steps : Steps
  phase : Fin n → Phase

inductive Event (n : ℕ) : Type where
  | lease (i : Fin n) (workerID leaseID taskName : String) (now : ℤ)
  | spawn (i j : Fin n)
  | call (i : Fin n) (key : String)
  | finish (i : Fin n) (outcome : Outcome)
  | save (i : Fin n)
  | fail (i : Fin n)
  | exit (i : Fin n)

namespace State

variable {n : ℕ}

def initial (n : ℕ) (db : Db) (steps : Steps) : State n := ⟨db, steps, fun _ => .idle⟩

def goto (s : State n) (i : Fin n) (phase : Phase) : State n :=
  { s with phase := Function.update s.phase i phase }

def step (s : State n) : Event n → Option (State n)
  | .lease i workerID leaseID taskName now =>
    match s.phase i, s.db.leaseReadyJobWithToken now workerID leaseID taskName "" with
    | .idle, .ok ⟨.leased job, db, _⟩ => some ({ s with db := db }.goto i (.attempt job.id))
    | .idle, .ok ⟨.empty _, db, _⟩ => some { s with db := db }
    | _, _ => none
  | .spawn i j =>
    match s.phase i, s.phase j with
    | .attempt jobID, .idle => some (s.goto j (.attempt jobID))
    | _, _ => none
  | .call i key =>
    match s.phase i with
    | .attempt jobID =>
      match lookupStep s.steps jobID key with
      | .miss => some (s.goto i (.running jobID key))
      | _ => some s
    | _ => none
  | .finish i outcome =>
    match s.phase i with
    | .running jobID key => some (s.goto i (.saving jobID key outcome))
    | _ => none
  | .save i =>
    match s.phase i with
    | .saving jobID key outcome =>
      match recordStep s.db s.steps jobID key outcome with
      | .ok steps => some ({ s with steps := steps }.goto i (.attempt jobID))
      | .error _ => some (s.goto i (.attempt jobID))
    | _ => none
  | .fail i =>
    match s.phase i with
    | .saving jobID _ _ => some (s.goto i (.attempt jobID))
    | _ => none
  | .exit i => some (s.goto i .idle)

/-- A call about to save finds no result recorded for its step. -/
def Alone (s : State n) : Event n → Prop
  | .save i => ∀ k ∈ (s.phase i).saves, ∀ row ∈ s.steps.rows, row.key = k → row.state ≠ .succeeded
  | _ => True

instance (s : State n) (e : Event n) : Decidable (s.Alone e) := by
  unfold Alone
  split <;> infer_instance

/-- No other call of the step is saved. -/
def Apart (k : String × String) (s : State n) : Event n → Prop
  | .save i => k ∉ (s.phase i).saves
  | _ => True

end State

end Memo

/-! ## What is recorded -/

def Steps.Holds (steps : Steps) (job key : String) (result : Option Bytes) : Prop :=
  ∃ row ∈ steps, row.key = (job, key) ∧ row.state = .succeeded ∧ row.resultBlob = result

theorem Steps.save_row (steps : Steps) (job key : String) (state : StepState)
    (result error : Option Bytes) :
    ∃ row ∈ steps.save job key state result error,
      row.key = (job, key) ∧ row.state = state ∧ row.resultBlob = result := by
  obtain ⟨row, hrow, hkey, rfl | ⟨row₀, -, -, rfl⟩⟩ := Table.exists_mem_upsert steps
    (setStep state result error ⟨job, key, state, none, none, none, none⟩)
    (setStep_key state result error)
  · exact ⟨_, hrow, hkey, rfl, rfl⟩
  · exact ⟨_, hrow, hkey, rfl, rfl⟩

variable {steps steps' : Steps} {db : Db} {job key jobID : String} {row : StepRow}
  {state : StepState} {outcome : Outcome} {result error : Option Bytes}

theorem Steps.mem_save_of_ne (h : row ∈ steps) (hne : row.key ≠ (job, key)) :
    row ∈ steps.save job key state result error :=
  (Table.mem_upsert (setStep_key state result error)).mpr (.inl ⟨h, hne⟩)

theorem saveStep_eq_ok (h : saveStep db steps jobID key state result error = .ok steps') :
    trimSpace jobID ≠ "" ∧ trimSpace key ≠ "" ∧
      steps' = steps.save (trimSpace jobID) (trimSpace key) state result error := by
  simp only [saveStep] at h
  split_ifs at h with hblank hjob
  cases h
  exact ⟨(not_or.mp hblank).1, (not_or.mp hblank).2, rfl⟩

theorem Steps.Holds.recordStep {key' : String} (h : steps.Holds job key result)
    (hne : (trimSpace jobID, trimSpace key') ≠ (job, key))
    (hrec : Durable.recordStep db steps jobID key' outcome = .ok steps') :
    steps'.Holds job key result := by
  obtain ⟨row, hrow, hkey, hstate, hresult⟩ := h
  have hother : row.key ≠ (trimSpace jobID, trimSpace key') := fun he => hne (he.symm.trans hkey)
  refine ⟨row, ?_, hkey, hstate, hresult⟩
  cases outcome with rw [Durable.recordStep] at hrec
  | ok | error =>
    exact (saveStep_eq_ok hrec).2.2 ▸ mem_save_of_ne hrow hother

theorem Steps.Holds.getStep
    (h : steps.Holds (trimSpace jobID) (trimSpace key) result) (hjob : trimSpace jobID ≠ "")
    (hkey : trimSpace key ≠ "") :
    ∃ found, Durable.getStep steps jobID key = .ok (some found) ∧ found.state = .succeeded ∧
      found.resultBlob = result := by
  obtain ⟨row, hrow, hk, hstate, hresult⟩ := h
  have hfind : steps.find (trimSpace jobID, trimSpace key) = some row :=
    Table.find_eq_some.mpr ⟨hrow, hk⟩
  refine ⟨⟨row.state, row.resultCodec.getD "", row.resultBlob, row.errorCodec.getD "",
    row.errorBlob⟩, ?_, hstate, hresult⟩
  simp only [Durable.getStep, if_neg (not_or.mpr ⟨hjob, hkey⟩), hfind, Option.map_some]

theorem Steps.Holds.lookupStep
    (h : steps.Holds (trimSpace jobID) (trimSpace key) result) (hjob : trimSpace jobID ≠ "")
    (hkey : trimSpace key ≠ "") : Durable.lookupStep steps jobID key = .hit result := by
  obtain ⟨found, hget, hstate, hresult⟩ := h.getStep hjob hkey
  simp only [Durable.lookupStep, if_neg hjob, hget, hstate, hresult, if_true]

theorem mem_of_recordStep (h : recordStep db steps jobID key outcome = .ok steps')
    (hrow : row ∈ steps')
    (hne : row.key ≠ (trimSpace jobID, trimSpace key)) : row ∈ steps := by
  cases outcome with rw [recordStep] at h
  | ok | error =>
    rw [(saveStep_eq_ok h).2.2] at hrow
    rcases (Table.mem_upsert (setStep_key _ _ _)).mp hrow with
      ⟨hold, -⟩ | ⟨-, rfl⟩ | ⟨r, -, hr, rfl⟩
    · exact hold
    · exact absurd rfl hne
    · exact absurd hr hne

theorem not_succeeded_of_miss (h : lookupStep steps jobID key = .miss) (hrow : row ∈ steps)
    (hkey : row.key = (trimSpace jobID, trimSpace key)) :
    row.state ≠ .succeeded := by
  intro hstate
  have hjob : trimSpace jobID ≠ "" := fun h0 => by simp [lookupStep, h0] at h
  have hkey0 : trimSpace key ≠ "" := fun h0 => by simp [lookupStep, getStep, hjob, h0] at h
  have hhit := Steps.Holds.lookupStep ⟨row, hrow, hkey, hstate, rfl⟩ hjob hkey0
  cases h.symm.trans hhit

/-! ## Runs -/

namespace Memo

open State

variable {n : ℕ} {s s' s'' : State n}

theorem State.step_steps {e : Event n} (h : s.step e = some s') :
    s'.steps = s.steps ∨ ∃ i jobID key outcome, e = .save i ∧
      s.phase i = .saving jobID key outcome ∧
      recordStep s.db s.steps jobID key outcome = .ok s'.steps := by
  cases e with simp only [step] at h
  | lease i workerID leaseID taskName now =>
    split at h <;> cases h <;> exact .inl rfl
  | spawn | finish | fail =>
    split at h <;> cases h
    exact .inl rfl
  | call i key =>
    split at h
    · split at h <;> cases h <;> exact .inl rfl
    · cases h
  | save i =>
    split at h
    · rename_i jobID key outcome hphase
      split at h
      · rename_i steps hrec
        cases h
        exact .inr ⟨i, jobID, key, outcome, rfl, hphase, hrec⟩
      · cases h
        exact .inl rfl
    · cases h
  | exit i =>
    cases h
    exact .inl rfl

theorem State.holds_step {e : Event n} {job key : String} (h : s.steps.Holds job key result)
    (halone : s.Alone e) (hs : s.step e = some s') :
    s'.steps.Holds job key result := by
  rcases step_steps hs with hsame | ⟨i, jobID, key', outcome, rfl, hphase, hrec⟩
  · rwa [hsame]
  · refine h.recordStep ?_ hrec
    intro heq
    obtain ⟨row, hrow, hk, hstate, -⟩ := h
    have hsaves : (trimSpace jobID, trimSpace key') ∈ (s.phase i).saves := by
      rw [hphase]
      rfl
    exact halone _ hsaves row hrow (hk.trans heq.symm) hstate

/-- A call whose lookup missed saves alone, if no other call of its step is saved in between. -/
theorem alone_of_apart {i : Fin n} {jobID key : String}
    (hmiss : lookupStep s.steps jobID key = .miss)
    (hrun : Run step (Apart (trimSpace jobID, trimSpace key)) s s')
    (hsaves : ∀ k ∈ (s'.phase i).saves, k = (trimSpace jobID, trimSpace key)) :
    s'.Alone (.save i) := by
  have hrows : ∀ row ∈ s'.steps, row.key = (trimSpace jobID, trimSpace key) →
      row.state ≠ .succeeded := by
    clear hsaves
    induction hrun with
    | refl => exact fun row => not_succeeded_of_miss hmiss
    | snoc _ hapart hs ih =>
      rcases step_steps hs with hsame | ⟨j, jobID', key', outcome, rfl, hphase, hrec⟩
      · rw [hsame]
        exact ih
      · -- only the row of the saved step is new
        refine fun row hrow hkey => ih row (mem_of_recordStep hrec hrow fun heq => hapart ?_) hkey
        rw [hphase, ← hkey, heq]
        rfl
  intro k hk row hrow hkey
  exact hrows row hrow (hkey.trans (hsaves k hk))

/-- Once a result is saved, every later lookup finds it and no later call runs its function, in
every run in which no call saves a step that was recorded as succeeded since its lookup. -/
theorem recorded_result_stable {i : Fin n} {jobID key : String} {result : Option Bytes}
    {steps : Steps} (hphase : s.phase i = .saving jobID key (.ok result))
    (hrec : recordStep s.db s.steps jobID key (.ok result) = .ok steps)
    (hs : s.step (.save i) = some s') (hrun : Run step Alone s' s'') :
    (∃ found, getStep s''.steps jobID key = .ok (some found) ∧ found.state = .succeeded ∧
      found.resultBlob = result) ∧
    lookupStep s''.steps jobID key = .hit result := by
  simp only [step, hphase, hrec] at hs
  rw [recordStep] at hrec
  obtain ⟨hjob, hkey, rfl⟩ := saveStep_eq_ok hrec
  cases hs
  have hholds : s''.steps.Holds (trimSpace jobID) (trimSpace key) result := by
    induction hrun with
    | refl => exact s.steps.save_row _ _ _ _ _
    | snoc _ halone hstep ih => exact holds_step ih halone hstep
  exact ⟨hholds.getStep hjob hkey, hholds.lookupStep hjob hkey⟩

namespace Overlap

def start : State 2 := .initial 2 Sample.started .empty

def first : List (Event 2) :=
  [.lease 0 "a" "a" "email" 1, .call 0 "charge", .finish 0 (.ok (some [1]))]

def race : List (Event 2) :=
  [.lease 0 "a" "a" "email" 1, .call 0 "charge", .lease 1 "b" "b" "email" 60000001,
    .call 1 "charge", .finish 0 (.ok (some [1]))]

def again : List (Event 2) := [.finish 1 (.ok (some [2])), .save 1]

def queue : List (Event 2) := [.lease 1 "b" "b" "email" 60000001, .call 1 "charge"]

end Overlap

theorem recorded_result_stable_queue :
    ∃ s s' s'' : State 2, Run step (fun _ _ => True) Overlap.start s ∧
      s.step (.save 0) = some s' ∧ Run step Alone s' s'' ∧ s''.phase 1 = .attempt "job1" ∧
      lookupStep s''.steps "job1" "charge" = .hit (some [1]) := by
  have hexec : ((runAll step (fun _ _ => True) Overlap.start Overlap.first).any fun s =>
      (s.phase 0 = .saving "job1" "charge" (.ok (some [1])) &&
        (recordStep s.db s.steps "job1" "charge" (.ok (some [1]))).toOption.isSome) &&
      (s.step (.save 0)).any fun s' => (runAll step Alone s' Overlap.queue).any fun s'' =>
        s''.phase 1 = .attempt "job1") = true := by decide +kernel
  obtain ⟨s, hrun, h⟩ := Run.exists_of_runAll _ hexec
  simp only [Bool.and_eq_true, decide_eq_true_iff, Option.any_eq_true] at h
  obtain ⟨⟨hphase, hrec⟩, s', hs', s'', hs'', hattempt⟩ := h
  obtain ⟨steps, hsteps⟩ := Option.isSome_iff_exists.mp hrec
  have hok : recordStep s.db s.steps "job1" "charge" (.ok (some [1])) = .ok steps := by
    cases hr : recordStep s.db s.steps "job1" "charge" (.ok (some [1])) with
    | ok value => simpa [hr, Except.toOption] using hsteps
    | error e => simp [hr, Except.toOption] at hsteps
  have hstable := recorded_result_stable hphase hok hs' (.of_runAll hs'')
  exact ⟨s, s', s'', hrun, hs', .of_runAll hs'', hattempt, hstable.2⟩

/-- The attempt that took over saves after the expired one, and its result replaces the
recorded one. -/
theorem late_save_replaces_result :
    ∃ s s' s'' : State 2, Run step (fun _ _ => True) Overlap.start s ∧
      s.phase 0 = .saving "job1" "charge" (.ok (some [1])) ∧ s.step (.save 0) = some s' ∧
      lookupStep s'.steps "job1" "charge" = .hit (some [1]) ∧
      Run step (fun _ _ => True) s' s'' ∧
      lookupStep s''.steps "job1" "charge" = .hit (some [2]) := by
  have hexec : ((runAll step (fun _ _ => True) Overlap.start Overlap.race).any fun s =>
      s.phase 0 = .saving "job1" "charge" (.ok (some [1])) &&
      (s.step (.save 0)).any fun s' => lookupStep s'.steps "job1" "charge" = .hit (some [1]) &&
        (runAll step (fun _ _ => True) s' Overlap.again).any fun s'' =>
          lookupStep s''.steps "job1" "charge" = .hit (some [2])) = true := by decide +kernel
  obtain ⟨s, hrun, h⟩ := Run.exists_of_runAll _ hexec
  simp only [Bool.and_eq_true, decide_eq_true_iff, Option.any_eq_true] at h
  obtain ⟨hphase, s', hs', hfirst, s'', hs'', hsecond⟩ := h
  exact ⟨s, s', s'', hrun, hphase, hs', hfirst, .of_runAll hs'', hsecond⟩

end Memo

end Scenery.Durable
