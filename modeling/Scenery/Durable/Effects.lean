import Scenery.Durable.Jobs
import Scenery.Outcome

/-!
# What the calls of the durable store can do

`Effect` says once, for every call, what it commits and under which conditions; `Permitted` says
which change meets which row.
-/

namespace Scenery.Durable

/-! ## Changes and rows -/

inductive Permitted (now : ℤ) : Job → Change → Prop where
  | release {j : Job} (h : j.dedupeExpiresAt.any (· ≤ now) = true) :
    Permitted now j (.release now)
  | recover {j : Job} (h : j.state = .running) : Permitted now j (.recover now)
  | lease {j : Job} {task : Task} {worker lease token : String} (h : j.state = .queued)
    (hw : worker ≠ "") : Permitted now j (.lease now task worker lease token)
  | extend {j : Job} {ms : Job → ℤ} (h : j.state = .running) : Permitted now j (.extend now ms)
  | finish {j : Job} {result : Option Bytes} (h : j.state = .running) :
    Permitted now j (.finish now result)
  | requeue {j : Job} {task : Task} {error : Option Bytes} (h : j.state = .running)
    (hleft : Change.attemptsLeft j = true) : Permitted now j (.requeue now task error)
  | fail {j : Job} {error : Option Bytes} (h : j.state = .running) :
    Permitted now j (.fail now error)
  | cancel {j : Job} (h : Db.cancelable j = true) : Permitted now j (.cancel now)
  | retry {j : Job} (h : Db.retryable j = true) : Permitted now j (.retry now)

variable {p : Job → Bool} {j : Job}

variable {c : Change}

namespace Db

variable {db db' : Db} {now : ℤ}

theorem mem_apply_cases (h : j ∈ (db.apply p c).jobs) :
    (∃ j₀ ∈ db.jobs, p j₀ = true ∧ j = c.update j₀) ∨ j ∈ db.jobs ∧ p j = false :=
  Table.mem_update_cases c.update_id h

theorem mem_apply_of (h : j ∈ db.jobs) (hp : p j = true) :
    c.update j ∈ (db.apply p c).jobs :=
  Table.mem_update_of c.update_id h hp

theorem mem_apply_of_not (h : j ∈ db.jobs) (hp : p j = false) :
    j ∈ (db.apply p c).jobs :=
  Table.mem_update_of_not c.update_id h hp

theorem apply_row {j j' : Job} (hj : j ∈ db.jobs) (hj' : j' ∈ (db.apply p c).jobs)
    (hid : j'.id = j.id) :
    p j = true ∧ j' = c.update j ∨ p j = false ∧ j' = j := by
  rcases mem_apply_cases hj' with ⟨j₀, hj₀, hp, rfl⟩ | ⟨hj', hp⟩
  · rw [c.update_id] at hid
    rw [← Table.eq_of_key hj₀ hj hid]
    exact .inl ⟨hp, rfl⟩
  · rw [Table.eq_of_key hj' hj hid] at hp ⊢
    exact .inr ⟨hp, rfl⟩

theorem mem_applyTo_of_ne {id : String} (h : j ∈ db.jobs) (hid : j.id ≠ id) :
    j ∈ (db.applyTo id c).jobs := mem_apply_of_not h (decide_eq_false hid)

theorem select_eq_some {id : String} :
    db.select id p = some j ↔ j ∈ db.jobs ∧ j.id = id ∧ p j = true := by
  rw [select, Option.filter_eq_some_iff, Table.find_eq_some, and_assoc]

theorem firstOf_mem {jobs : List (Job × Task)} {x : Job × Task} (h : firstOf jobs = some x) :
    x ∈ jobs := by
  induction jobs generalizing x with
  | nil => cases h
  | cons y rest ih =>
    simp only [firstOf] at h
    split at h
    · cases h
      exact List.mem_cons_self
    · rename_i best hbest
      split at h <;> cases h
      · exact List.mem_cons_self
      · exact List.mem_cons_of_mem _ (ih hbest)

variable {taskName : String}

theorem mem_readyJobs {task : Task} : (j, task) ∈ db.readyJobs now taskName ↔
      j ∈ db.jobs ∧ db.taskOf j = some task ∧ db.ready now taskName j task = true := by
  simp only [readyJobs, List.mem_filterMap, Option.map_eq_some_iff, Option.filter_eq_some_iff,
    Prod.mk.injEq, Table.mem_def]
  constructor
  · rintro ⟨j', hj', task', ⟨ht, hr⟩, rfl, rfl⟩
    exact ⟨hj', ht, hr⟩
  · rintro ⟨hj, ht, hr⟩
    exact ⟨j, hj, task, ⟨ht, hr⟩, rfl, rfl⟩

theorem ready_iff {task : Task} :
    db.ready now taskName j task = true ↔ j.taskName = taskName ∧ j.state = .queued ∧
      j.runAfter ≤ now ∧ task.enabled = true ∧ db.hasRoom task j = true := by
  simp [ready, and_assoc]

theorem holdsKey_iff {key : String} :
    holdsKey taskName key j = true ↔ j.taskName = taskName ∧ j.dedupeKey = some key := by
  simp [holdsKey]

theorem insertJob_eq_ok {req : StartRequest} (h : db.insertJob now req = .ok db') :
    ∃ task ∈ db.tasks, task.name = req.taskName ∧
      ∃ hid : req.id ∉ db.jobs.rows.map Job.id, db.holder req = none ∧
        db' = { db with
          jobs := db.jobs.insert (newJob now req task) hid
          events := db.events ++ [⟨req.id, none, .created⟩] } := by
  unfold insertJob at h
  cases ht : db.tasks.find req.taskName with rw [ht] at h
  | none =>
    cases h
  | some task =>
    obtain ⟨hmem, hname⟩ := Table.find_eq_some.mp ht
    simp only at h
    split_ifs at h with hid hkey
    cases h
    exact ⟨task, hmem, hname, hid, by simpa using hkey, rfl⟩

end Db

/-! ## Calls -/

inductive Effect (now : ℤ) (db : Db) : Call → Committed Unit → Prop where
  | startFound {request : Db.StartRequest} {job : Job}
    (hjob : (db.releaseKeys now (Db.normalizeStart request)).holder
      (Db.normalizeStart request) = some job) :
    Effect now db (.start request) ⟨(), db.releaseKeys now (Db.normalizeStart request), []⟩
  | startNew {request : Db.StartRequest} {inserted : Db}
    (hid : (Db.normalizeStart request).id ≠ "")
    (htask : (Db.normalizeStart request).taskName ≠ "")
    (hins : (db.releaseKeys now (Db.normalizeStart request)).insertJob now
      (Db.normalizeStart request) = .ok inserted) :
    Effect now db (.start request)
      ⟨(), inserted, [⟨.queued, (Db.normalizeStart request).taskName, ""⟩]⟩
  | leaseEmpty {workerID leaseID taskName tokenHash : String}
    (hnames : trimSpace workerID ≠ "" ∧ trimSpace leaseID ≠ "" ∧ trimSpace taskName ≠ "") :
    Effect now db (.lease workerID leaseID taskName tokenHash)
      ⟨(), db.recoverExpiredJobs now (trimSpace taskName), []⟩
  | leased {workerID leaseID taskName tokenHash : String} {job : Job} {task : Task}
    (hnames : trimSpace workerID ≠ "" ∧ trimSpace leaseID ≠ "" ∧ trimSpace taskName ≠ "")
    (hjob : (job, task) ∈ (db.recoverExpiredJobs now (trimSpace taskName)).readyJobs now
      (trimSpace taskName)) :
    Effect now db (.lease workerID leaseID taskName tokenHash)
      ⟨(), (db.recoverExpiredJobs now (trimSpace taskName)).applyTo job.id
        (.lease now task (trimSpace workerID) (trimSpace leaseID) (trimSpace tokenHash)), []⟩
  | heartbeat {jobID workerID leaseID : String} {job : Job}
    (hjob : db.select (trimSpace jobID)
      (Db.owns (trimSpace workerID) (trimSpace leaseID)) = some job) :
    Effect now db (.heartbeat jobID workerID leaseID)
      ⟨(), db.applyTo (trimSpace jobID) (.extend now db.heartbeatMs), []⟩
  | complete {jobID workerID leaseID : String} {result : Option Bytes} {job : Job}
    (hjob : db.select (trimSpace jobID)
      (Db.passesFence (trimSpace workerID) (trimSpace leaseID)) = some job) :
    Effect now db (.complete jobID workerID leaseID result)
      ⟨(), db.applyTo (trimSpace jobID) (.finish now result),
        [⟨.done, job.taskName, trimSpace jobID⟩]⟩
  | requeue {jobID workerID leaseID : String} {error : Option Bytes} {job : Job} {task : Task}
    (hjob : db.select (trimSpace jobID)
      (Db.passesFence (trimSpace workerID) (trimSpace leaseID)) = some job)
    (hleft : Change.attemptsLeft job = true) :
    Effect now db (.fail jobID workerID leaseID error)
      ⟨(), db.applyTo (trimSpace jobID) (.requeue now task error),
        [⟨.requeued, job.taskName, trimSpace jobID⟩]⟩
  | fail {jobID workerID leaseID : String} {error : Option Bytes} {job : Job}
    (hjob : db.select (trimSpace jobID)
      (Db.passesFence (trimSpace workerID) (trimSpace leaseID)) = some job) :
    Effect now db (.fail jobID workerID leaseID error)
      ⟨(), db.applyTo (trimSpace jobID) (.fail now error),
        [⟨.done, job.taskName, trimSpace jobID⟩]⟩
  | cancel {jobID : String} {job : Job}
    (hjob : db.select (trimSpace jobID) Db.cancelable = some job) :
    Effect now db (.cancel jobID)
      ⟨(), db.applyTo (trimSpace jobID) (.cancel now),
        [⟨.done, job.taskName, trimSpace jobID⟩]⟩
  | retry {jobID : String} {job : Job}
    (hjob : db.select (trimSpace jobID) Db.retryable = some job) :
    Effect now db (.retry jobID)
      ⟨(), db.applyTo (trimSpace jobID) (.retry now), [⟨.queued, job.taskName, ""⟩]⟩
  | purge : Effect now db .purge ⟨(), db.purgeExpiredJobs now, []⟩

variable {r : Committed Unit}

namespace Db

variable {db : Db} {now : ℤ}

theorem start_effect {request : StartRequest} {r : Committed String}
    (h : db.start now request = .ok r) : Effect now db (.start request) r.drop := by
  unfold start at h
  simp only at h
  split_ifs at h with hid htask
  split at h
  · rename_i job hjob
    cases h
    dsimp only [Committed.drop]
    exact .startFound hjob
  · obtain ⟨inserted, hins, rfl⟩ := map_eq_ok.mp h
    exact .startNew hid htask hins

theorem lease_effect {workerID leaseID taskName tokenHash : String} {r : Committed LeaseReply}
    (h : db.leaseReadyJobWithToken now workerID leaseID taskName tokenHash = .ok r) :
    Effect now db (.lease workerID leaseID taskName tokenHash) r.drop := by
  unfold leaseReadyJobWithToken at h
  simp only at h
  split_ifs at h with hw hl ht
  split at h
  · cases h
    exact .leaseEmpty ⟨hw, hl, ht⟩
  · rename_i job task hfirst
    cases h
    exact .leased ⟨hw, hl, ht⟩ (firstOf_mem hfirst)

variable {jobID workerID leaseID : String}

theorem heartbeat_effect (h : db.heartbeatJob now jobID workerID leaseID = .ok r) :
    Effect now db (.heartbeat jobID workerID leaseID) r := by
  unfold heartbeatJob at h
  simp only at h
  split_ifs at h
  split at h
  · cases h
  · rename_i job hjob
    cases h
    exact .heartbeat hjob

theorem finish_effect {result : Option Bytes}
    (h : db.finishJob now jobID workerID leaseID result = .ok r) :
    Effect now db (.complete jobID workerID leaseID result) r := by
  unfold finishJob at h
  simp only at h
  split_ifs at h
  split at h
  · cases h
  · rename_i job hjob
    cases h
    exact .complete hjob

theorem fail_effect {error : Option Bytes}
    (h : db.failOrRetryJob now jobID workerID leaseID error = .ok r) :
    Effect now db (.fail jobID workerID leaseID error) r := by
  unfold failOrRetryJob at h
  simp only at h
  split_ifs at h
  split at h
  · cases h
  · rename_i job hjob
    split at h
    · cases h
    · split_ifs at h with hleft <;> cases h
      · exact .requeue hjob hleft
      · exact .fail hjob

theorem cancel_effect {jobID : String} (h : db.cancelJob now jobID = .ok r) :
    Effect now db (.cancel jobID) r := by
  unfold cancelJob at h
  simp only at h
  split_ifs at h
  split at h
  · cases h
  · rename_i job hjob
    split_ifs at h with hstate
    cases h
    exact .cancel (Option.filter_eq_some_iff.mpr ⟨hjob, hstate⟩)

theorem retry_effect {jobID : String} (h : db.retryJob now jobID = .ok r) :
    Effect now db (.retry jobID) r := by
  unfold retryJob at h
  simp only at h
  split_ifs at h
  split at h
  · cases h
  · rename_i job hjob
    split_ifs at h with hstate
    cases h
    exact .retry (Option.filter_eq_some_iff.mpr ⟨hjob, hstate⟩)

end Db

variable {now : ℤ}

theorem Call.commit_effect {c : Call} {db : Db} (h : c.commit now db = .ok r) :
    Effect now db c r := by
  cases c with
  | start request =>
    obtain ⟨r', hr', rfl⟩ := map_eq_ok.mp h
    exact Db.start_effect hr'
  | lease workerID leaseID taskName tokenHash =>
    obtain ⟨r', hr', rfl⟩ := map_eq_ok.mp h
    exact Db.lease_effect hr'
  | heartbeat jobID workerID leaseID => exact Db.heartbeat_effect h
  | complete jobID workerID leaseID result => exact Db.finish_effect h
  | fail jobID workerID leaseID error => exact Db.fail_effect h
  | cancel jobID => exact Db.cancel_effect h
  | retry jobID => exact Db.retry_effect h
  | purge =>
    cases h
    exact .purge

theorem Call.run_cases (c : Call) (now : ℤ) (db : Db) :
    c.run now db = db ∨ ∃ r, Effect now db c r ∧ c.run now db = r.db := by
  cases h : c.commit now db with
  | error e => exact .inl (by simp [Call.run, h])
  | ok r => exact .inr ⟨r, Call.commit_effect h, by simp [Call.run, h]⟩

/-! ## Steps -/

inductive Db.Step (now : ℤ) (db : Db) : Db → Prop where
  | apply {p : Job → Bool} {c : Change}
    (h : ∀ j ∈ db.jobs, p j = true → Permitted now j c) : Db.Step now db (db.apply p c)
  | insert {req : Db.StartRequest} {inserted : Db} (hid : req.id ≠ "")
    (htask : req.taskName ≠ "") (h : db.insertJob now req = .ok inserted) :
    Db.Step now db inserted
  | purge : Db.Step now db (db.purgeExpiredJobs now)

namespace Db

variable {db : Db} {now : ℤ}

open Relation (ReflTransGen)

theorem releaseKeys_steps (req : StartRequest) :
    ReflTransGen (Step now) db (db.releaseKeys now req) := by
  unfold releaseKeys
  split_ifs
  · exact .refl
  · refine .single (.apply fun j _ hp => .release ?_)
    exact (Bool.and_eq_true_iff.mp hp).2

theorem recover_step (taskName : String) :
    Step now db (db.recoverExpiredJobs now taskName) := by
  refine .apply fun j _ hp => .recover ?_
  simp only [expired, Bool.and_eq_true, decide_eq_true_eq] at hp
  exact hp.1.2

theorem applyTo_step {id : String} {job : Job} (hmem : job ∈ db.jobs) (hid : job.id = id)
    (h : Permitted now job c) : Step now db (db.applyTo id c) := by
  refine .apply fun j hj hp => ?_
  rw [Table.eq_of_key hj hmem (by rw [hid]; exact of_decide_eq_true hp)]
  exact h

theorem applyTo_step_of_select {id : String} {job : Job} (hjob : db.select id p = some job)
    (h : Permitted now job c) :
    Step now db (db.applyTo id c) :=
  applyTo_step (select_eq_some.mp hjob).1 (select_eq_some.mp hjob).2.1 h

theorem running_of_owns {worker lease : String} (h : owns worker lease j = true) :
    j.state = .running := by
  simp only [owns, Bool.and_eq_true, decide_eq_true_eq] at h
  exact h.1.1

theorem running_of_passesFence {worker lease : String} (h : passesFence worker lease j = true) :
    j.state = .running := by
  simp only [passesFence, Bool.and_eq_true, decide_eq_true_eq] at h
  exact h.1

end Db

variable {db : Db}

open Relation (ReflTransGen) in
theorem Effect.steps {c : Call} (h : Effect now db c r) : ReflTransGen (Db.Step now) db r.db := by
  cases h with
  | startFound hjob =>
    dsimp only
    exact Db.releaseKeys_steps _
  | startNew hid htask hins => exact (Db.releaseKeys_steps _).tail (.insert hid htask hins)
  | leaseEmpty _ => exact .single (Db.recover_step _)
  | leased hnames hjob =>
    obtain ⟨hmem, -, hready⟩ := Db.mem_readyJobs.mp hjob
    have hqueued := (Db.ready_iff.mp hready).2.1
    exact (ReflTransGen.single (Db.recover_step _)).tail
      (Db.applyTo_step hmem rfl (.lease hqueued hnames.1))
  | heartbeat hjob =>
    have hrun := Db.running_of_owns (Db.select_eq_some.mp hjob).2.2
    exact .single (Db.applyTo_step_of_select hjob (.extend hrun))
  | complete hjob =>
    have hrun := Db.running_of_passesFence (Db.select_eq_some.mp hjob).2.2
    exact .single (Db.applyTo_step_of_select hjob (.finish hrun))
  | requeue hjob hleft =>
    have hrun := Db.running_of_passesFence (Db.select_eq_some.mp hjob).2.2
    exact .single (Db.applyTo_step_of_select hjob (.requeue hrun hleft))
  | fail hjob =>
    have hrun := Db.running_of_passesFence (Db.select_eq_some.mp hjob).2.2
    exact .single (Db.applyTo_step_of_select hjob (.fail hrun))
  | cancel hjob =>
    exact .single (Db.applyTo_step_of_select hjob (.cancel (Db.select_eq_some.mp hjob).2.2))
  | retry hjob =>
    exact .single (Db.applyTo_step_of_select hjob (.retry (Db.select_eq_some.mp hjob).2.2))
  | purge => exact .single .purge

theorem Db.Step.tasks {db' : Db} (h : Db.Step now db db') : db'.tasks = db.tasks := by
  cases h with
  | apply _ => rfl
  | insert _ _ hins =>
    obtain ⟨_, -, -, -, -, rfl⟩ := Db.insertJob_eq_ok hins
    rfl
  | purge => rfl

theorem Db.Step.forall_jobs {db' : Db} {P : Job → Prop} (h : Db.Step now db db')
    (hchange : ∀ j c, Permitted now j c → P j → P (c.update j))
    (hnew : ∀ req task, req.id ≠ "" → req.taskName ≠ "" → task ∈ db.tasks →
      task.name = req.taskName → P (Db.newJob now req task)) (hall : ∀ j ∈ db.jobs, P j) :
    ∀ j ∈ db'.jobs, P j := by
  intro j hj
  cases h with
  | apply hperm =>
    rcases Db.mem_apply_cases hj with ⟨j₀, hj₀, hp, rfl⟩ | ⟨hj, -⟩
    · exact hchange _ _ (hperm j₀ hj₀ hp) (hall j₀ hj₀)
    · exact hall j hj
  | insert hid hreq hins =>
    obtain ⟨task, htask, hname, hfree, -, rfl⟩ := Db.insertJob_eq_ok hins
    rcases (Table.mem_insert hfree).mp hj with hj | rfl
    · exact hall j hj
    · exact hnew _ task hid hreq htask hname
  | purge => exact hall j (Table.mem_delete.mp hj).1

theorem Call.run_invariant {P : Db → Prop} (hstep : ∀ db db', Db.Step now db db' → P db → P db')
    (c : Call) (h : P db) : P (c.run now db) := by
  rcases c.run_cases now db with heq | ⟨r, hr, heq⟩
  · rwa [heq]
  · rw [heq]
    have hsteps := hr.steps
    generalize r.db = db' at hsteps
    induction hsteps with
    | refl => exact h
    | tail _ hlast ih => exact hstep _ _ hlast ih

theorem Reachable.invariant {declared : Task → Prop} {P : Db → Prop}
    (hinit : ∀ tasks : Table Task.name, (∀ task ∈ tasks, declared task) → P ⟨.empty, tasks, []⟩)
    (hstep : ∀ now db db', Db.Step now db db' → P db → P db')
    (hdecl : ∀ db db', db.Redeclares db' → (∀ task ∈ db'.tasks, declared task) → P db → P db')
    {last : ℤ} (h : Reachable declared db last) : P db := by
  induction h with
  | init htasks => exact hinit _ htasks
  | call c _ _ ih => exact Call.run_invariant (hstep _) c ih
  | declare _ hd hdb' ih => exact hdecl _ _ hd hdb' ih

end Scenery.Durable
