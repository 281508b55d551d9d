import Scenery.Durable.Invariant

/-!
# Fencing of remote workers

`runtime/durable_http.go` hands the worker and lease ids of a request to the store as they are.
-/

namespace Scenery.Durable

structure LeaseActionRequest where
  workerID : String
  leaseID : String
  result : Bytes
  error : String
  deriving DecidableEq

inductive LeaseAction where
  | heartbeat
  | complete
  | fail
  deriving DecidableEq

def handleDurableHeartbeat (jobID : String) (body : LeaseActionRequest) : Call :=
  .heartbeat jobID body.workerID body.leaseID

def handleDurableComplete (jobID : String) (body : LeaseActionRequest) : Call :=
  .complete jobID body.workerID body.leaseID
    (some (if body.result = [] then [0x7b, 0x7d] else body.result))

def handleDurableFail (jobID : String) (body : LeaseActionRequest) : Call :=
  let msg := trimSpace body.error
  .fail jobID body.workerID body.leaseID
    (some (if msg = "" then "durable worker failed job" else msg).toUTF8.toList)

def LeaseAction.handle : LeaseAction → String → LeaseActionRequest → Call
  | .heartbeat => handleDurableHeartbeat
  | .complete => handleDurableComplete
  | .fail => handleDurableFail

def Fenced (db : Db) (now : ℤ) (action : LeaseAction) (jobID : String)
    (body : LeaseActionRequest) : Prop :=
  ∀ j ∈ db.jobs, j ∉ ((action.handle jobID body).run now db).jobs →
    j.state = .running ∧ j.leaseOwner = some (trimSpace body.workerID) ∧
      j.leaseId = some (trimSpace body.leaseID)

namespace Db

variable {db : Db} {now : ℤ} {j : Job} {worker : String}

theorem owns_iff {lease : String} : owns worker lease j = true ↔
      j.state = .running ∧ j.leaseOwner = some worker ∧ j.leaseId = some lease := by
  simp [owns, and_assoc]

theorem passesFence_iff {lease : String} : passesFence worker lease j = true ↔
      j.state = .running ∧ (worker = "" ∨ owns worker lease j = true) := by
  simp only [passesFence, owns_iff, Bool.and_eq_true, Bool.or_eq_true, decide_eq_true_eq]
  tauto

theorem select_of_blank (lease : String) (hj : j ∈ db.jobs) (hrun : j.state = .running)
    (hworker : worker = "") : db.select j.id (passesFence worker lease) = some j :=
  select_eq_some.mpr ⟨hj, rfl, passesFence_iff.mpr ⟨hrun, .inl hworker⟩⟩

theorem selected_of_not_mem {id : String} {p : Job → Bool} {job : Job} {c : Change}
    (hjob : db.select id p = some job) (hj : j ∈ db.jobs)
    (hchanged : j ∉ (db.applyTo id c).jobs) : j.id = id ∧ p j = true := by
  constructor
  · by_contra hid
    exact hchanged (mem_applyTo_of_ne hj hid)
  · by_contra hp
    exact hchanged (mem_applyTo_of_select hjob hj (Bool.eq_false_iff.mpr hp))

theorem not_mem_applyTo {c : Change} (hj : j ∈ db.jobs) (hc : (c.update j).state ≠ j.state) :
    j ∉ (db.applyTo j.id c).jobs := by
  intro hmem
  rcases mem_apply_cases hmem with ⟨j₀, hj₀, hp, heq⟩ | ⟨-, hp⟩
  · rw [Table.eq_of_key hj₀ hj (of_decide_eq_true hp)] at heq
    exact hc (congrArg Job.state heq.symm)
  · simp at hp

end Db

theorem owns_of_passesFence {db : Db} {worker lease id : String} {j : Job}
    (hopen : worker ≠ "" ∨ ∀ j ∈ db.jobs, j.id = id → j.state ≠ .running)
    (hj : j ∈ db.jobs) (hid : j.id = id) (hp : Db.passesFence worker lease j = true) :
    j.state = .running ∧ j.leaseOwner = some worker ∧ j.leaseId = some lease := by
  obtain ⟨hrun, hpass⟩ := Db.passesFence_iff.mp hp
  rcases hopen with hworker | hnone
  · exact Db.owns_iff.mp (hpass.resolve_left hworker)
  · exact absurd hrun (hnone j hj hid)

theorem fenced_of {db : Db} {now : ℤ} {action : LeaseAction} {jobID : String}
    {body : LeaseActionRequest}
    (h : action = .heartbeat ∨ trimSpace body.workerID ≠ "" ∨
      ∀ j ∈ db.jobs, j.id = trimSpace jobID → j.state ≠ .running) :
    Fenced db now action jobID body := by
  intro j hj hchanged
  rcases (action.handle jobID body).run_cases now db with heq | ⟨r, hr, heq⟩
  · rw [heq] at hchanged
    exact absurd hj hchanged
  rw [heq] at hchanged
  cases action with
  | heartbeat =>
    cases hr with
    | heartbeat hjob => exact Db.owns_iff.mp (Db.selected_of_not_mem hjob hj hchanged).2
  | complete =>
    have hopen := h.resolve_left nofun
    cases hr with
    | complete hjob =>
      obtain ⟨hid, hp⟩ := Db.selected_of_not_mem hjob hj hchanged
      exact owns_of_passesFence hopen hj hid hp
  | fail =>
    have hopen := h.resolve_left nofun
    cases hr with
    | requeue hjob | fail hjob =>
      obtain ⟨hid, hp⟩ := Db.selected_of_not_mem hjob hj hchanged
      exact owns_of_passesFence hopen hj hid hp

/-- In every reachable database, a request is fenced exactly when it is a heartbeat, names a
worker, or meets no running job. -/
theorem fenced_iff {declared : Task → Prop} {db : Db} {last : ℤ}
    (h : Reachable declared db last) (now : ℤ) (action : LeaseAction) (jobID : String)
    (body : LeaseActionRequest) :
    Fenced db now action jobID body ↔
      action = .heartbeat ∨ trimSpace body.workerID ≠ "" ∨
        ∀ j ∈ db.jobs, j.id = trimSpace jobID → j.state ≠ .running := by
  refine ⟨fun hfenced => ?_, fenced_of⟩
  by_contra hnot
  push Not at hnot
  obtain ⟨haction, hworker, j, hj, hid, hrun⟩ := hnot
  have hcons := h.consistent j hj
  have hsel := Db.select_of_blank (trimSpace body.leaseID) hj hrun hworker
  obtain ⟨task, htask, hname⟩ := h.task j hj
  have hfind : db.tasks.find j.taskName = some task := Table.find_eq_some.mpr ⟨htask, hname⟩
  -- the row is finished, queued again or failed, so it is not left running
  have hcommit : ∃ c : Change, (action.handle jobID body).run now db = db.applyTo j.id c ∧
      (c.update j).state ≠ .running := by
    simp only [LeaseAction.handle, Call.run]
    cases action with
    | heartbeat => exact absurd rfl haction
    | complete =>
      simp only [handleDurableComplete, Call.commit, Db.finishJob, hsel, ← hid, if_neg hcons.id_ne]
      exact ⟨.finish now _, rfl, JobState.noConfusion⟩
    | fail =>
      simp only [handleDurableFail, Call.commit, Db.failOrRetryJob, hsel, hfind, ← hid,
        if_neg hcons.id_ne]
      by_cases hleft : Change.attemptsLeft j = true
      · rw [if_pos hleft]
        exact ⟨.requeue now task _, rfl, JobState.noConfusion⟩
      · rw [if_neg hleft]
        exact ⟨.fail now _, rfl, JobState.noConfusion⟩
  obtain ⟨c, hcommit, hstate⟩ := hcommit
  have hchanged : j ∉ ((action.handle jobID body).run now db).jobs := by
    rw [hcommit]
    exact Db.not_mem_applyTo hj (hrun ▸ hstate)
  -- no running row is owned by a worker without a name
  obtain ⟨-, howner, -⟩ := hfenced j hj hchanged
  rw [hworker] at howner
  exact hcons.owner_ne howner

theorem fenced_iff_holder :
    Fenced Sample.running 2 .complete "job1" ⟨"worker", "lease", [], ""⟩ := by
  have hreach : Reachable (fun _ => True) Sample.running 1 := Sample.reachable_running trivial
  refine (fenced_iff hreach 2 .complete "job1" ⟨"worker", "lease", [], ""⟩).mpr ?_
  exact .inr (.inl (by decide +kernel))

/-- A request with blank ids finishes the job of another worker. -/
theorem blank_worker_completes :
    Reachable (fun _ => True) Sample.running 1 ∧
      ¬ Fenced Sample.running 2 .complete "job1" ⟨" ", "", [], ""⟩ := by
  have hreach : Reachable (fun _ => True) Sample.running 1 := Sample.reachable_running trivial
  refine ⟨hreach, fun hfenced => ?_⟩
  have hopen : ∃ j ∈ Sample.running.jobs.rows,
      j ∉ ((LeaseAction.complete.handle "job1" ⟨" ", "", [], ""⟩).run 2
        Sample.running).jobs.rows ∧ j.leaseOwner ≠ some (trimSpace " ") := by
    decide +kernel
  obtain ⟨j, hj, hchanged, howner⟩ := hopen
  exact howner (hfenced j hj hchanged).2.1

end Scenery.Durable
