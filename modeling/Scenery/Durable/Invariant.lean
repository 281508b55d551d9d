import Scenery.Durable.Effects

/-!
# Invariants of the job rows

In every database that the calls reach, the columns of a job row agree with its state, the
attempts stay within their limit, and the events count the leases.
-/

namespace Scenery.Durable

open List

/-! ## One row -/

structure Job.Consistent (j : Job) : Prop where
  id_ne : j.id ≠ ""
  task_ne : j.taskName ≠ ""
  running_iff : j.state = .running ↔
    j.leaseId.isSome ∧ j.leaseOwner.isSome ∧ j.leaseUntil.isSome
  owner_ne : j.leaseOwner ≠ some ""
  completed_iff : j.completedAt.isSome ↔ j.state.isFinal

structure Job.WithinLimit (j : Job) : Prop where
  le : (j.attempt : ℤ) ≤ j.maxAttempts
  lt : j.state = .queued → (j.attempt : ℤ) < j.maxAttempts

variable {j : Job}

theorem Change.attemptsLeft_iff :
    Change.attemptsLeft j = true ↔ (j.attempt : ℤ) < j.maxAttempts := decide_eq_true_iff

variable {now : ℤ}

variable {c : Change}

theorem Permitted.consistent (h : Permitted now j c) (hj : j.Consistent) :
    (c.update j).Consistent := by
  obtain ⟨hid, htask, hrun, howner, hdone⟩ := hj
  cases h with
  | release _ => exact ⟨hid, htask, hrun, howner, hdone⟩
  | recover _ =>
    refine ⟨hid, htask, ?_, by simp [Change.recover], ?_⟩
    · by_cases hl : Change.attemptsLeft j <;> simp [Change.recover, hl]
    · by_cases hl : Change.attemptsLeft j <;> simp [Change.recover, hl, JobState.isFinal]
  | lease hq hw =>
    refine ⟨hid, htask, by simp [Change.lease], by simpa [Change.lease] using hw, ?_⟩
    simpa [Change.lease, hq, JobState.isFinal] using hdone
  | extend hr =>
    refine ⟨hid, htask, ?_, howner, hdone⟩
    simpa [Change.extend, hr] using ⟨(hrun.mp hr).1, (hrun.mp hr).2.1⟩
  | finish _ => exact ⟨hid, htask, by simp [Change.finish], by simp [Change.finish],
      by simp [Change.finish, JobState.isFinal]⟩
  | requeue hr _ =>
    refine ⟨hid, htask, by simp [Change.requeue], by simp [Change.requeue], ?_⟩
    simpa [Change.requeue, hr, JobState.isFinal] using hdone
  | fail _ => exact ⟨hid, htask, by simp [Change.fail], by simp [Change.fail],
      by simp [Change.fail, JobState.isFinal]⟩
  | cancel _ => exact ⟨hid, htask, by simp [Change.cancel], by simp [Change.cancel],
      by simp [Change.cancel, JobState.isFinal]⟩
  | retry _ => exact ⟨hid, htask, by simp [Change.retry], by simp [Change.retry],
      by simp [Change.retry, JobState.isFinal]⟩

theorem Permitted.withinLimit (h : Permitted now j c) (hj : j.WithinLimit) :
    (c.update j).WithinLimit := by
  obtain ⟨hle, hlt⟩ := hj
  cases h with
  | release | extend => exact ⟨hle, hlt⟩
  | recover _ =>
    refine ⟨hle, fun hq => ?_⟩
    -- recovery queues the row only when an attempt is left
    by_cases hl : Change.attemptsLeft j
    · exact Change.attemptsLeft_iff.mp hl
    · simp [Change.recover, hl] at hq
  | lease hq _ =>
    refine ⟨?_, fun h => by simp [Change.lease] at h⟩
    have := hlt hq
    simp only [Change.lease]
    omega
  | finish _ => exact ⟨hle, fun h => by simp [Change.finish] at h⟩
  | requeue _ hleft => exact ⟨hle, fun _ => Change.attemptsLeft_iff.mp hleft⟩
  | fail _ => exact ⟨hle, fun h => by simp [Change.fail] at h⟩
  | cancel _ => exact ⟨hle, fun h => by simp [Change.cancel] at h⟩
  | retry _ =>
    -- the limit is raised exactly when the attempts have reached it
    have hlimit : (j.attempt : ℤ) < ((Change.retry now).update j).maxAttempts := by
      simp only [Change.retry]
      split_ifs <;> omega
    exact ⟨hlimit.le, fun _ => hlimit⟩

variable {req : Db.StartRequest}

theorem newJob_consistent {task : Task} (hid : req.id ≠ "") (htask : req.taskName ≠ "") :
    (Db.newJob now req task).Consistent :=
  ⟨hid, htask, by simp [Db.newJob], by simp [Db.newJob], by simp [Db.newJob, JobState.isFinal]⟩

theorem newJob_withinLimit {task : Task} (h : 1 ≤ task.maxAttempts) :
    (Db.newJob now req task).WithinLimit :=
  ⟨by simp only [Db.newJob]; omega, fun _ => by simp only [Db.newJob]; omega⟩

/-! ## Events -/

def JobEvent.isLeaseOf (id : String) (e : JobEvent) : Bool := e.jobId = id && e.type = .leased

def Db.leases (db : Db) (id : String) : ℕ := db.events.countP (JobEvent.isLeaseOf id)

def eventsOf (jobs : List Job) (event : Job → Option (ℕ × EventType)) : List JobEvent :=
  jobs.filterMap fun j => (event j).map fun e => ⟨j.id, some e.1, e.2⟩

def leaseCount : Option (ℕ × EventType) → ℕ
  | some (_, .leased) => 1
  | _ => 0

variable {event : Job → Option (ℕ × EventType)} {jobs : List Job}

theorem mem_eventsOf {e : JobEvent} (h : e ∈ eventsOf jobs event) : ∃ j ∈ jobs, e.jobId = j.id := by
  obtain ⟨j, hj, he⟩ := mem_filterMap.mp h
  obtain ⟨x, -, rfl⟩ := Option.map_eq_some_iff.mp he
  exact ⟨j, hj, rfl⟩

theorem countP_eventsOf_of_ne {id : String} (h : ∀ j ∈ jobs, j.id ≠ id) :
    (eventsOf jobs event).countP (JobEvent.isLeaseOf id) = 0 := by
  refine countP_eq_zero.mpr fun e he => ?_
  obtain ⟨j, hj, hid⟩ := mem_eventsOf he
  simp [JobEvent.isLeaseOf, hid, h j hj]

theorem countP_eventsOf (hnodup : (jobs.map Job.id).Nodup) (hj : j ∈ jobs) :
    (eventsOf jobs event).countP (JobEvent.isLeaseOf j.id) = leaseCount (event j) := by
  induction jobs with
  | nil => cases hj
  | cons r rest ih =>
    obtain ⟨hr, hrest⟩ := nodup_cons.mp hnodup
    have hcons : eventsOf (r :: rest) event = eventsOf [r] event ++ eventsOf rest event := by
      rw [eventsOf, eventsOf, eventsOf, ← filterMap_append, singleton_append]
    rw [hcons, countP_append]
    rcases mem_cons.mp hj with rfl | hj
    · have hother : ∀ r ∈ rest, r.id ≠ j.id := fun r hmem heq =>
        hr (heq ▸ mem_map_of_mem hmem)
      rw [countP_eventsOf_of_ne hother, Nat.add_zero]
      rcases h : event j with _ | ⟨n, t⟩
      · simp [eventsOf, h, leaseCount]
      · cases t <;> simp [eventsOf, h, leaseCount, JobEvent.isLeaseOf]
    · have hother : ∀ r' ∈ [r], r'.id ≠ j.id := fun r' hmem heq => by
        rw [mem_singleton.mp hmem] at heq
        exact hr (heq ▸ mem_map_of_mem hj)
      rw [countP_eventsOf_of_ne hother, Nat.zero_add, ih hrest hj]

structure Db.Recorded (db : Db) : Prop where
  leases_eq : ∀ j ∈ db.jobs, db.leases j.id = j.attempt
  known : ∀ e ∈ db.events, ∃ j ∈ db.jobs, j.id = e.jobId

theorem Permitted.attempt (h : Permitted now j c) :
    (c.update j).attempt = j.attempt + leaseCount (c.event j) := by
  cases h with
  | recover _ =>
    by_cases hl : Change.attemptsLeft j <;> simp [Change.recover, leaseCount, hl]
  | _ => rfl

theorem Db.apply_events (db : Db) (p : Job → Bool) (c : Change) :
    (db.apply p c).events = db.events ++ eventsOf (db.jobs.rows.filter p) c.event := rfl

theorem Db.Recorded.apply {db : Db} {p : Job → Bool} (h : db.Recorded)
    (hperm : ∀ j ∈ db.jobs, p j = true → Permitted now j c) : (db.apply p c).Recorded := by
  have hnodup : ((db.jobs.rows.filter p).map Job.id).Nodup :=
    db.jobs.nodup.sublist (filter_sublist.map _)
  constructor
  · intro j hj
    rw [leases, apply_events, countP_append]
    rcases mem_apply_cases hj with ⟨j₀, hj₀, hp, rfl⟩ | ⟨hj, hp⟩
    · have hmem : j₀ ∈ db.jobs.rows.filter p := mem_filter.mpr ⟨hj₀, hp⟩
      rw [c.update_id, countP_eventsOf hnodup hmem, (hperm j₀ hj₀ hp).attempt]
      exact congrArg (· + _) (h.leases_eq j₀ hj₀)
    · have hother : ∀ r ∈ db.jobs.rows.filter p, r.id ≠ j.id := fun r hr hid => by
        obtain ⟨hr, hpr⟩ := mem_filter.mp hr
        rw [Table.eq_of_key hr hj hid, hp] at hpr
        cases hpr
      rw [countP_eventsOf_of_ne hother]
      exact h.leases_eq j hj
  · intro e he
    rw [apply_events, mem_append] at he
    have hrow : ∃ j ∈ db.jobs, j.id = e.jobId := by
      rcases he with he | he
      · exact h.known e he
      · obtain ⟨j, hj, hid⟩ := mem_eventsOf he
        exact ⟨j, (mem_filter.mp hj).1, hid.symm⟩
    obtain ⟨j, hj, hid⟩ := hrow
    by_cases hp : p j = true
    · exact ⟨c.update j, mem_apply_of hj hp, by rw [c.update_id, hid]⟩
    · exact ⟨j, mem_apply_of_not hj (Bool.eq_false_iff.mpr hp), hid⟩

theorem Db.Recorded.insert {db inserted : Db} (h : db.Recorded)
    (hins : db.insertJob now req = .ok inserted) : inserted.Recorded := by
  obtain ⟨task, -, -, hfree, -, rfl⟩ := insertJob_eq_ok hins
  have hcreated : ∀ id, [(⟨req.id, none, .created⟩ : JobEvent)].countP (JobEvent.isLeaseOf id) =
      0 := fun id => by simp [JobEvent.isLeaseOf]
  constructor
  · intro j hj
    rw [leases, countP_append, hcreated, Nat.add_zero]
    rcases (Table.mem_insert hfree).mp hj with hj | rfl
    · exact h.leases_eq j hj
    · refine countP_eq_zero.mpr fun e he hlease => ?_
      obtain ⟨j, hj, hid⟩ := h.known e he
      simp only [JobEvent.isLeaseOf, Bool.and_eq_true, decide_eq_true_eq] at hlease
      exact hfree (mem_map.mpr ⟨j, hj, hid.trans hlease.1⟩)
  · intro e he
    rcases mem_append.mp he with he | he
    · obtain ⟨j, hj, hid⟩ := h.known e he
      exact ⟨j, (Table.mem_insert hfree).mpr (.inl hj), hid⟩
    · rw [mem_singleton] at he
      exact ⟨newJob now req task, (Table.mem_insert hfree).mpr (.inr rfl), by rw [he]; rfl⟩

theorem Db.Recorded.purge {db : Db} (h : db.Recorded) :
    (db.purgeExpiredJobs now).Recorded := by
  constructor
  · intro j hj
    have hmem := (Table.mem_delete.mp hj).1
    rw [← h.leases_eq j hmem, leases, leases, purgeExpiredJobs, countP_filter]
    refine countP_congr fun e _ => ?_
    simp only [JobEvent.isLeaseOf, Bool.and_eq_true, decide_eq_true_eq]
    refine ⟨fun he => he.1, fun he => ⟨he, ?_⟩⟩
    rw [he.1]
    exact mem_map_of_mem hj
  · intro e he
    have hjob := of_decide_eq_true (mem_filter.mp he).2
    obtain ⟨j, hj, hid⟩ := mem_map.mp hjob
    exact ⟨j, hj, hid⟩

theorem Db.Step.recorded {db db' : Db} (hstep : Db.Step now db db') (h : db.Recorded) :
    db'.Recorded := by
  cases hstep with
  | apply hperm => exact h.apply hperm
  | insert _ _ hins => exact h.insert hins
  | purge => exact h.purge

section Reachable

variable {declared : Task → Prop} {db : Db} {last : ℤ}

theorem Reachable.consistent (h : Reachable declared db last) : ∀ j ∈ db.jobs, j.Consistent := by
  refine h.invariant (P := fun db => ∀ j ∈ db.jobs, j.Consistent)
    (fun _ _ j hj => absurd hj (Table.not_mem_empty j)) ?_ ?_
  · intro now db db' hstep hall
    exact hstep.forall_jobs (fun _ _ hp => hp.consistent)
      (fun _ _ hid htask _ _ => newJob_consistent hid htask) hall
  · intro db db' hd _ hall
    rw [hd.1]
    exact hall

theorem Reachable.task (h : Reachable declared db last) :
    ∀ j ∈ db.jobs, ∃ task ∈ db.tasks, task.name = j.taskName := by
  refine h.invariant
    (P := fun db => ∀ j ∈ db.jobs, ∃ task ∈ db.tasks, task.name = j.taskName)
    (fun _ _ j hj => absurd hj (Table.not_mem_empty j)) ?_ ?_
  · intro now db db' hstep hall
    rw [hstep.tasks]
    refine hstep.forall_jobs (fun j c hp hj => ?_)
      (fun req task _ _ htask hname => ⟨task, htask, hname⟩) hall
    cases hp <;> exact hj
  · intro db db' hd _ hall j hj
    rw [hd.1] at hj
    obtain ⟨task, htask, hname⟩ := hall j hj
    obtain ⟨task', htask', hname'⟩ := hd.2.2 task htask
    exact ⟨task', htask', hname'.trans hname⟩

theorem Reachable.recorded (h : Reachable declared db last) : db.Recorded := by
  refine h.invariant (fun tasks _ => ⟨fun j hj => absurd hj (Table.not_mem_empty j),
    fun e he => absurd he not_mem_nil⟩) (fun _ _ _ hstep => hstep.recorded) ?_
  intro db db' hd _ hrec
  obtain ⟨hjobs, hevents, -⟩ := hd
  exact ⟨by rw [hjobs]; simpa [Db.leases, hevents] using hrec.leases_eq,
    by rw [hjobs, hevents]; exact hrec.known⟩

theorem Reachable.withinLimit (h : Reachable (fun task => 1 ≤ task.maxAttempts) db last) :
    ∀ j ∈ db.jobs, j.WithinLimit := by
  have hboth : (∀ task ∈ db.tasks, 1 ≤ task.maxAttempts) ∧ ∀ j ∈ db.jobs, j.WithinLimit := by
    refine h.invariant (P := fun db => (∀ task ∈ db.tasks, 1 ≤ task.maxAttempts) ∧
      ∀ j ∈ db.jobs, j.WithinLimit)
      (fun tasks ht => ⟨ht, fun j hj => absurd hj (Table.not_mem_empty j)⟩) ?_ ?_
    · rintro now db db' hstep ⟨ht, hall⟩
      refine ⟨by rwa [hstep.tasks], ?_⟩
      exact hstep.forall_jobs (fun _ _ hp => hp.withinLimit)
        (fun _ task _ _ htask _ => newJob_withinLimit (ht task htask)) hall
    · rintro db db' hd ht ⟨-, hall⟩
      exact ⟨ht, by rwa [hd.1]⟩
  exact hboth.2

end Reachable

/-! ## Succeeded rows -/

namespace Db

variable {db : Db} {now : ℤ} {j : Job}

theorem mem_applyTo_of_select {id : String} {p : Job → Bool} {job : Job}
    (hjob : db.select id p = some job) (hj : j ∈ db.jobs) (hp : p j = false) :
    j ∈ (db.applyTo id c).jobs := by
  obtain ⟨hmem, hid, hpjob⟩ := select_eq_some.mp hjob
  refine mem_applyTo_of_ne hj fun hjid => ?_
  rw [Table.eq_of_key hj hmem (hjid.trans hid.symm), hpjob] at hp
  cases hp

theorem mem_recover_of_ne {taskName : String} (hj : j ∈ db.jobs) (hs : j.state ≠ .running) :
    j ∈ (db.recoverExpiredJobs now taskName).jobs :=
  mem_apply_of_not hj (by simp [expired, hs])

theorem mem_releaseKeys {req : StartRequest} (hj : j ∈ db.jobs) :
    j ∈ (db.releaseKeys now req).jobs ∨
      holdsExpiredKey now req.taskName req.dedupeKey j = true ∧
        (Change.release now).update j ∈ (db.releaseKeys now req).jobs := by
  unfold releaseKeys
  split_ifs
  · exact .inl hj
  · by_cases hp : holdsExpiredKey now req.taskName req.dedupeKey j = true
    · exact .inr ⟨hp, mem_apply_of hj hp⟩
    · exact .inl (mem_apply_of_not hj (Bool.eq_false_iff.mpr hp))

theorem mem_inserted {req : StartRequest} {inserted : Db}
    (hins : (db.releaseKeys now req).insertJob now req = .ok inserted) (hj : j ∈ db.jobs) :
    j ∈ inserted.jobs ∨ holdsExpiredKey now req.taskName req.dedupeKey j = true ∧
      (Change.release now).update j ∈ inserted.jobs := by
  obtain ⟨task, -, -, hfree, -, rfl⟩ := insertJob_eq_ok hins
  rcases mem_releaseKeys hj with hj | ⟨hkey, hj⟩
  · exact .inl ((Table.mem_insert hfree).mpr (.inl hj))
  · exact .inr ⟨hkey, (Table.mem_insert hfree).mpr (.inl hj)⟩

end Db

inductive SucceededKept (now : ℤ) (j : Job) (after : Db) : Call → Prop where
  | same {c : Call} (h : j ∈ after.jobs) : SucceededKept now j after c
  | released {request : Db.StartRequest}
    (hkey : Db.holdsExpiredKey now (Db.normalizeStart request).taskName
      (Db.normalizeStart request).dedupeKey j = true)
    (h : { j with dedupeKey := none, dedupeExpiresAt := none, updatedAt := now } ∈ after.jobs) :
    SucceededKept now j after (.start request)
  | purged (hover : Db.retentionOver now j = true) (h : ∀ j' ∈ after.jobs, j'.id ≠ j.id) :
    SucceededKept now j after .purge

theorem SucceededKept.of_start {after : Db} {request : Db.StartRequest}
    (h : j ∈ after.jobs ∨ Db.holdsExpiredKey now (Db.normalizeStart request).taskName
      (Db.normalizeStart request).dedupeKey j = true ∧
        (Change.release now).update j ∈ after.jobs) :
    SucceededKept now j after (.start request) := by
  rcases h with h | ⟨hkey, h⟩
  · exact .same h
  · exact .released hkey h

theorem Effect.succeeded {db : Db} {c : Call} {r : Committed Unit} (h : Effect now db c r)
    (hj : j ∈ db.jobs) (hs : j.state = .succeeded) : SucceededKept now j r.db c := by
  cases h with
  | startFound _ =>
    dsimp only
    exact SucceededKept.of_start (Db.mem_releaseKeys hj)
  | startNew _ _ hins =>
    dsimp only
    exact SucceededKept.of_start (Db.mem_inserted hins hj)
  | leaseEmpty _ => exact .same (Db.mem_recover_of_ne hj (by simp [hs]))
  | @leased workerID leaseID taskName tokenHash job task hw hjob =>
    obtain ⟨hmem, -, hready⟩ := Db.mem_readyJobs.mp hjob
    have hrec : j ∈ (db.recoverExpiredJobs now (trimSpace taskName)).jobs :=
      Db.mem_recover_of_ne hj (by simp [hs])
    refine .same (Db.mem_applyTo_of_ne hrec fun hid => ?_)
    have hqueued := (Db.ready_iff.mp hready).2.1
    rw [← Table.eq_of_key hrec hmem hid, hs] at hqueued
    cases hqueued
  | heartbeat hjob => exact .same (Db.mem_applyTo_of_select hjob hj (by simp [Db.owns, hs]))
  | complete hjob | fail hjob | requeue hjob =>
    exact .same (Db.mem_applyTo_of_select hjob hj (by simp [Db.passesFence, hs]))
  | cancel hjob => exact .same (Db.mem_applyTo_of_select hjob hj (by simp [Db.cancelable, hs]))
  | retry hjob => exact .same (Db.mem_applyTo_of_select hjob hj (by simp [Db.retryable, hs]))
  | purge =>
    by_cases hover : Db.retentionOver now j = true
    · refine .purged hover fun j' hj' hid => ?_
      obtain ⟨hmem, hkept⟩ := Table.mem_delete.mp hj'
      rw [Table.eq_of_key hmem hj hid, hover] at hkept
      cases hkept
    · exact .same (Table.mem_delete.mpr ⟨hj, Bool.eq_false_iff.mpr hover⟩)

theorem JobState.isFinal_iff {s : JobState} :
    s.isFinal = true ↔ s = .succeeded ∨ s = .failed ∨ s = .canceled := by
  cases s <;> simp [isFinal]

/-- The state of a job row decides its lease and completion columns, its attempts stay within
the limit and are counted by its `job.leased` events, and a succeeded row is kept. -/
theorem job_invariant {db : Db} {last : ℤ}
    (h : Reachable (fun task => 1 ≤ task.maxAttempts) db last) :
    (∀ j ∈ db.jobs,
      (j.state = .running ↔ j.leaseId.isSome ∧ j.leaseOwner.isSome ∧ j.leaseUntil.isSome) ∧
      (j.completedAt.isSome ↔ j.state = .succeeded ∨ j.state = .failed ∨ j.state = .canceled) ∧
      (j.attempt : ℤ) ≤ j.maxAttempts ∧
      (j.state = .queued → (j.attempt : ℤ) < j.maxAttempts) ∧
      db.leases j.id = j.attempt) ∧
    ∀ j ∈ db.jobs, j.state = .succeeded →
      ∀ (c : Call) (now : ℤ), last ≤ now → SucceededKept now j (c.run now db) c := by
  constructor
  · intro j hj
    have hcons := h.consistent j hj
    have hlimit := h.withinLimit j hj
    refine ⟨hcons.running_iff, ?_, hlimit.le, hlimit.lt, h.recorded.leases_eq j hj⟩
    rw [hcons.completed_iff, JobState.isFinal_iff]
  · intro j hj hs c now _
    rcases c.run_cases now db with heq | ⟨r, hr, heq⟩
    · rw [heq]
      exact .same hj
    · rw [heq]
      exact hr.succeeded hj hs

/-! ## An example -/

namespace Sample

def task : Task where
  name := "email"
  version := 1
  defaultTimeoutMs := 60000
  defaultLeaseMs := 60000
  maxAttempts := 3
  maxConcurrency := 0
  deduplicationRetentionMs := 1000
  retryInitialMs := 1000
  retryMaxMs := 60000
  retryBackoff := 2
  successRetentionMs := 604800000
  failureRetentionMs := 2592000000
  enabled := true

def initial : Db := ⟨.empty, ⟨[task], by decide⟩, []⟩

def request (id : String) : Db.StartRequest := ⟨id, "email", 1, "order-7", "", 0, [123, 125]⟩

def started : Db := (Call.start (request "job1")).run 0 initial

def running : Db := (Call.lease "worker" "lease" "email" "").run 1 started

def finished : Db := (Call.complete "job1" "worker" "lease" none).run 2 running

variable {declared : Task → Prop}

theorem reachable_started (h : declared task) :
    Reachable declared started 0 := by
  have hinit : Reachable declared initial 0 := .init fun t ht => mem_singleton.mp ht ▸ h
  exact .call (.start (request "job1")) hinit le_rfl

theorem reachable_running (h : declared task) :
    Reachable declared running 1 :=
  .call (.lease "worker" "lease" "email" "") (reachable_started h) (by decide)

theorem reachable_finished (h : declared task) :
    Reachable declared finished 2 :=
  .call (.complete "job1" "worker" "lease" none) (reachable_running h) (by decide)

end Sample

theorem job_invariant_finished :
    (∃ j ∈ Sample.finished.jobs, j.state = .succeeded ∧ j.attempt = 1) ∧
      ∀ j ∈ Sample.finished.jobs, Sample.finished.leases j.id = j.attempt := by
  constructor
  · show ∃ j ∈ Sample.finished.jobs.rows, j.state = .succeeded ∧ j.attempt = 1
    decide +kernel
  · intro j hj
    exact ((job_invariant (Sample.reachable_finished (by decide))).1 j hj).2.2.2.2

/-- A second later `Start` changes the succeeded row, whose retention is not over: it releases
the deduplication key. -/
theorem succeeded_row_changes :
    Reachable (fun task => 1 ≤ task.maxAttempts) Sample.finished 2 ∧
    ∃ j ∈ Sample.finished.jobs, j.state = .succeeded ∧ Db.retentionOver 1000000 j = false ∧
      ∃ j' ∈ ((Call.start (Sample.request "job2")).run 1000000 Sample.finished).jobs,
        j'.id = j.id ∧ j' ≠ j := by
  refine ⟨Sample.reachable_finished (by decide), ?_⟩
  show ∃ j ∈ Sample.finished.jobs.rows, j.state = .succeeded ∧
    Db.retentionOver 1000000 j = false ∧
      ∃ j' ∈ ((Call.start (Sample.request "job2")).run 1000000 Sample.finished).jobs.rows,
        j'.id = j.id ∧ j' ≠ j
  decide +kernel

end Scenery.Durable
