import Scenery.Durable.Invariant
import Scenery.Durable.Leasing

/-!
# The concurrency limit of a task

In every run of concurrent leases in which each statement locks its rows while its count is still
right, no more jobs of a task and concurrency key are running than the task allows.
-/

namespace Scenery.Durable

/-! ## Running jobs -/

def counted (name key : String) (j : Job) : Bool :=
  j.taskName = name && j.state = .running && j.concurrencyKey.getD "" = key

variable {name key : String} {j : Job}

theorem counted_iff : counted name key j = true ↔
      j.taskName = name ∧ j.state = .running ∧ j.concurrencyKey.getD "" = key := by
  simp [counted, and_assoc]

def Db.running (db : Db) (name key : String) : ℕ := db.jobs.rows.countP (counted name key)

def Db.runningOutside (db : Db) (ids : List String) (name key : String) : ℕ :=
  db.jobs.rows.countP fun j => counted name key j && j.id ∉ ids

def NoNew (name key : String) (db db' : Db) : Prop :=
  ∀ j' ∈ db'.jobs, counted name key j' = true →
    ∃ j ∈ db.jobs, counted name key j = true ∧ j.id = j'.id

def SameRow (j j' : Job) : Prop :=
  j'.id = j.id ∧ j'.taskName = j.taskName ∧ j'.concurrencyKey = j.concurrencyKey

variable {db db' : Db}

theorem NoNew.running_le (h : NoNew name key db db') :
    db'.running name key ≤ db.running name key := Table.countP_le h

theorem NoNew.runningOutside_le (h : NoNew name key db db') (ids : List String) :
    db'.runningOutside ids name key ≤ db.runningOutside ids name key := by
  refine Table.countP_le fun j' hj' hp => ?_
  rw [Bool.and_eq_true] at hp
  obtain ⟨j, hj, hc, hid⟩ := h j' hj' hp.1
  exact ⟨j, hj, by simpa [hc, hid] using hp.2, hid⟩

theorem NoNew.refl (name key : String) (db : Db) : NoNew name key db db :=
  fun j hj hc => ⟨j, hj, hc, rfl⟩

theorem NoNew.trans {db'' : Db} (h : NoNew name key db db') (h' : NoNew name key db' db'') :
    NoNew name key db db'' := by
  intro j'' hj'' hc
  obtain ⟨j', hj', hc', hid'⟩ := h' j'' hj'' hc
  obtain ⟨j, hj, hc, hid⟩ := h j' hj' hc'
  exact ⟨j, hj, hc, hid.trans hid'⟩

theorem noNew_apply {p : Job → Bool} {c : Change} (name key : String)
    (h : ∀ j ∈ db.jobs, p j = true → counted name key (c.update j) = true →
      counted name key j = true) : NoNew name key db (db.apply p c) := by
  intro j' hj' hc
  rcases Db.mem_apply_cases hj' with ⟨j, hj, hp, rfl⟩ | ⟨hj, -⟩
  · exact ⟨j, hj, h j hj hp hc, (c.update_id j).symm⟩
  · exact ⟨j', hj, hc, rfl⟩

theorem exists_apply {p : Job → Bool} {c : Change} (hc : ∀ j, SameRow j (c.update j))
    (hj : j ∈ db.jobs) : ∃ j' ∈ (db.apply p c).jobs, SameRow j j' := by
  by_cases hp : p j = true
  · exact ⟨_, Db.mem_apply_of hj hp, hc j⟩
  · exact ⟨j, Db.mem_apply_of_not hj (Bool.eq_false_iff.mpr hp), rfl, rfl, rfl⟩

variable {now : ℤ}

theorem not_counted_recover : counted name key ((Change.recover now).update j) = false := by
  by_cases h : Change.attemptsLeft j = true <;> simp [counted, Change.recover, h]

theorem noNew_view (db : Db) (ids : List String) (now : ℤ) (name key : String) :
    NoNew name key db (db.view ids now) := by
  refine noNew_apply name key fun j _ _ hc => ?_
  rw [not_counted_recover] at hc
  cases hc

variable {ids : List String}

theorem mem_view_of_counted (hj : j ∈ (db.view ids now).jobs) (hc : counted name key j = true) :
    j ∈ db.jobs ∧ j.id ∉ ids := by
  rcases Db.mem_apply_cases hj with ⟨j₀, -, -, rfl⟩ | ⟨hj, hp⟩
  · rw [not_counted_recover] at hc
    cases hc
  · exact ⟨hj, of_decide_eq_false hp⟩

theorem noNew_releaseKeys (db : Db) (now : ℤ) (req : Db.StartRequest) (name key : String) :
    NoNew name key db (db.releaseKeys now req) := by
  unfold Db.releaseKeys
  split_ifs
  · exact .refl name key db
  · exact noNew_apply name key fun j _ _ hc => hc

theorem noNew_insert {inserted : Db} {req : Db.StartRequest}
    (h : db.insertJob now req = .ok inserted) (name key : String) : NoNew name key db inserted := by
  obtain ⟨task, -, -, hfree, -, rfl⟩ := Db.insertJob_eq_ok h
  intro j' hj' hc
  rcases (Table.mem_insert hfree).mp hj' with hj' | rfl
  · exact ⟨j', hj', hc, rfl⟩
  · simp [counted, Db.newJob] at hc

theorem Effect.noNew {c : Call} {r : Committed Unit} (h : Effect now db c r)
    (hlease : c.isLease = false) (name key : String) : NoNew name key db r.db := by
  cases h with
  | startFound _ =>
    dsimp only
    exact noNew_releaseKeys db now _ name key
  | startNew _ _ hins =>
    exact (noNew_releaseKeys db now _ name key).trans (noNew_insert hins name key)
  | leaseEmpty | leased => cases hlease
  | heartbeat _ => exact noNew_apply name key fun j _ _ hc => hc
  | complete _ => exact noNew_apply name key fun j _ _ hc => by simp [counted, Change.finish] at hc
  | requeue _ _ => exact noNew_apply name key fun j _ _ hc => by simp [counted, Change.requeue] at hc
  | fail _ => exact noNew_apply name key fun j _ _ hc => by simp [counted, Change.fail] at hc
  | cancel _ => exact noNew_apply name key fun j _ _ hc => by simp [counted, Change.cancel] at hc
  | retry _ => exact noNew_apply name key fun j _ _ hc => by simp [counted, Change.retry] at hc
  | purge => exact fun j hj hc => ⟨j, (Table.mem_delete.mp hj).1, hc, rfl⟩

theorem Call.noNew_run {c : Call} (hlease : c.isLease = false) (now : ℤ) (db : Db)
    (name key : String) : NoNew name key db (c.run now db) := by
  rcases c.run_cases now db with heq | ⟨r, hr, heq⟩ <;> rw [heq]
  · exact .refl name key db
  · exact hr.noNew hlease name key

theorem Call.run_tasks (c : Call) (now : ℤ) (db : Db) : (c.run now db).tasks = db.tasks :=
  c.run_invariant (P := fun db' => db'.tasks = db.tasks) (fun _ _ hs h => hs.tasks.trans h) rfl

/-! ## The invariant -/

/-- The task leaves room for the job that a transaction has locked: without the jobs it has
recovered, fewer jobs than allowed are running. -/
structure Room (db : Db) (ids : List String) (job : Job) (task : Task) : Prop where
  task_mem : task ∈ db.tasks
  name_eq : task.name = job.taskName
  row : ∃ j ∈ db.jobs, SameRow job j
  room : 0 < task.maxConcurrency →
    (db.runningOutside ids job.taskName (job.concurrencyKey.getD "") : ℤ) < task.maxConcurrency

variable {job : Job}

theorem Room.mono {task : Task} (h : Room db ids job task) (htasks : db'.tasks = db.tasks)
    (hrow : ∀ j ∈ db.jobs, SameRow job j → ∃ j' ∈ db'.jobs, SameRow j j')
    (hnew : NoNew job.taskName (job.concurrencyKey.getD "") db db') : Room db' ids job task where
  task_mem := htasks ▸ h.task_mem
  name_eq := h.name_eq
  row := by
    obtain ⟨j, hj, hid, hname, hkey⟩ := h.row
    obtain ⟨j', hj', hid', hname', hkey'⟩ := hrow j hj ⟨hid, hname, hkey⟩
    exact ⟨j', hj', hid'.trans hid, hname'.trans hname, hkey'.trans hkey⟩
  room hpos := by
    have hle := hnew.runningOutside_le ids
    have hlt := h.room hpos
    omega

inductive Phase.Holds (ids : List String) (job : Job) (task : Task) : Phase → Prop where
  | locked (tx : LeaseTx) : Phase.Holds ids job task (.locked tx ids job task)
  | written (tx : LeaseTx) : Phase.Holds ids job task (.written tx ids job task)

theorem Phase.Holds.locksTask {task : Task} {phase : Phase} (h : phase.Holds ids job task) :
    phase.locksTask task.name = true := by
  cases h <;> simp [Phase.locksTask]

theorem Phase.Holds.locksJob {task : Task} {phase : Phase} (h : phase.Holds ids job task) :
    phase.locksJob job.id = true := by
  cases h <;> simp [Phase.locksJob]

def Db.WithinLimits (db : Db) : Prop :=
  ∀ task ∈ db.tasks, 0 < task.maxConcurrency →
    ∀ key, (db.running task.name key : ℤ) ≤ task.maxConcurrency

namespace Store

variable {n : ℕ}

/-- One lease at a time locks a task, and it has room for its job. -/
structure Inv (s : Store n) : Prop where
  limit : s.db.WithinLimits
  holder : ∀ i ids job task, (s.phase i).Holds ids job task → Room s.db ids job task
  exclusive : ∀ i k name, (s.phase i).locksTask name = true →
    (s.phase k).locksTask name = true → i = k

structure Attempt where
  ids : List String
  now : ℤ
  snapshot : Db
  job : Job
  task : Task

def attempt (s : Store n) (i : Fin n) : Option Attempt :=
  match s.phase i with
  | .selecting tx ids snapshot (job :: _) =>
    ((s.db.view ids tx.now).recheck snapshot tx job.id).map fun row =>
      ⟨ids, tx.now, snapshot, row.1, row.2⟩
  | _ => none

def Attempt.Fresh (db : Db) (a : Attempt) : Prop :=
  0 < a.task.maxConcurrency →
    ∀ r ∈ (db.view a.ids a.now).jobs.rows, Db.runsWith a.job r = true →
      ∃ r' ∈ a.snapshot.jobs.rows, Db.runsWith a.job r' = true ∧ r'.id = r.id

instance (db : Db) (a : Attempt) : Decidable (a.Fresh db) :=
  inferInstanceAs (Decidable (0 < a.task.maxConcurrency →
    ∀ r ∈ (db.view a.ids a.now).jobs.rows, Db.runsWith a.job r = true →
      ∃ r' ∈ a.snapshot.jobs.rows, Db.runsWith a.job r' = true ∧ r'.id = r.id))

def Fresh (s : Store n) : Event n → Prop
  | .tryLock i => ∀ a ∈ s.attempt i, a.Fresh s.db
  | _ => True

instance (s : Store n) : (e : Event n) → Decidable (s.Fresh e)
  | .tryLock i => inferInstanceAs (Decidable (∀ a ∈ s.attempt i, a.Fresh s.db))
  | .begin _ _ => instDecidableTrue
  | .recover _ _ => instDecidableTrue
  | .snapshot _ => instDecidableTrue
  | .write _ => instDecidableTrue
  | .commit _ => instDecidableTrue
  | .abort _ => instDecidableTrue
  | .other _ _ => instDecidableTrue

/-! ### Steps -/

theorem inv_initial (tasks : Table Task.name) : (initial n tasks).Inv where
  limit task _ hpos key := by simpa [initial, Db.running, Table.empty] using hpos.le
  holder i ids job task h := by cases h
  exclusive i k name h := by cases h

variable {s : Store n}

theorem Inv.goto (h : s.Inv) (i : Fin n) {phase : Phase}
    (hroom : ∀ ids job task, phase.Holds ids job task → Room s.db ids job task)
    (hfree : ∀ name, phase.locksTask name = true → ¬ s.taskLocked i name) :
    (s.goto i phase).Inv where
  limit := h.limit
  holder k ids job task hk := by
    by_cases hki : k = i
    · subst hki
      simp only [Store.goto, Function.update_self] at hk
      exact hroom ids job task hk
    · simp only [Store.goto, Function.update_of_ne hki] at hk
      exact h.holder k ids job task hk
  exclusive k l name hk hl := by
    by_cases hki : k = i <;> by_cases hli : l = i
    · rw [hki, hli]
    · subst hki
      simp only [Store.goto, Function.update_self, Function.update_of_ne hli] at hk hl
      exact absurd ⟨l, hli, hl⟩ (hfree name hk)
    · subst hli
      simp only [Store.goto, Function.update_self, Function.update_of_ne hki] at hk hl
      exact absurd ⟨k, hki, hk⟩ (hfree name hl)
    · simp only [Store.goto, Function.update_of_ne hki, Function.update_of_ne hli] at hk hl
      exact h.exclusive k l name hk hl

theorem Inv.gotoFree (h : s.Inv) (i : Fin n) {phase : Phase}
    (hfree : ∀ name, phase.locksTask name = false) : (s.goto i phase).Inv := by
  refine h.goto i (fun ids job task hholds => ?_) fun name hlock => ?_
  · cases (hfree task.name).symm.trans hholds.locksTask
  · cases (hfree name).symm.trans hlock

theorem Inv.change (h : s.Inv) {db' : Db} (htasks : db'.tasks = s.db.tasks)
    (hrow : ∀ j ∈ s.db.jobs, (∃ k, (s.phase k).locksJob j.id = true) →
      ∃ j' ∈ db'.jobs, SameRow j j')
    (hnew : ∀ name key, NoNew name key s.db db') : Inv { s with db := db' } where
  limit task ht hpos key := by
    have hle := (hnew task.name key).running_le
    have := h.limit task (htasks ▸ ht) hpos key
    show (db'.running task.name key : ℤ) ≤ task.maxConcurrency
    omega
  holder k ids job task hk := by
    refine (h.holder k ids job task hk).mono htasks (fun j hj hsame => ?_) (hnew _ _)
    exact hrow j hj ⟨k, hsame.1 ▸ hk.locksJob⟩
  exclusive := h.exclusive

theorem Inv.other (h : s.Inv) {c : Call} {now : ℤ} (hc : s.mayCall c now) :
    Inv { s with db := c.run now s.db } :=
  h.change (c.run_tasks now s.db)
    (fun j hj hlocked => ⟨j, hc.2 j hj hlocked, rfl, rfl, rfl⟩)
    fun name key => c.noNew_run hc.1 now s.db name key

theorem Inv.finish_empty (h : s.Inv) (i : Fin n) (ids : List String) (now : ℤ) :
    (s.finish i (s.db.view ids now)).Inv := by
  have hview : Inv { s with db := s.db.view ids now } :=
    h.change rfl (fun j hj _ => exists_apply (fun _ => ⟨rfl, rfl, rfl⟩) hj)
      fun name key => noNew_view s.db ids now name key
  exact hview.gotoFree i fun _ => rfl

end Store

/-! ### Locks and commits -/

section Commit

variable {db : Db} {job : Job}

def committed (db : Db) (ids : List String) (job : Job) (tx : LeaseTx) (task : Task) : Db :=
  (db.view ids tx.now).applyTo job.id
    (.lease tx.now task tx.workerID tx.leaseID tx.tokenHash)

theorem counted_committed {tx : LeaseTx} {task : Task} {j' : Job}
    (hrow : ∃ j ∈ db.jobs, SameRow job j) (hj' : j' ∈ (committed db ids job tx task).jobs)
    (hc : counted name key j' = true) :
    (j'.id = job.id ∧ name = job.taskName ∧ key = job.concurrencyKey.getD "") ∨
      j' ∈ db.jobs ∧ j'.id ∉ ids := by
  rcases Db.mem_apply_cases hj' with ⟨j₁, hj₁, hid, rfl⟩ | ⟨hj', -⟩
  · -- the leased row still has the task and the key of the locked job
    obtain ⟨j, hj, hjid, hname, hkey⟩ := hrow
    rw [decide_eq_true_iff] at hid
    have hsame : SameRow j j₁ := by
      rcases Db.apply_row hj hj₁ (hid.trans hjid.symm) with ⟨-, rfl⟩ | ⟨-, rfl⟩ <;>
        exact ⟨rfl, rfl, rfl⟩
    obtain ⟨hn, -, hk⟩ := counted_iff.mp hc
    refine .inl ⟨hid, ?_, ?_⟩
    · exact hn.symm.trans (hsame.2.1.trans hname)
    · exact hk.symm.trans (by rw [← hkey, ← hsame.2.2]; rfl)
  · exact .inr (mem_view_of_counted hj' hc)

theorem noNew_committed (ids : List String) (tx : LeaseTx) (task : Task)
    (hrow : ∃ j ∈ db.jobs, SameRow job j)
    (hne : ¬ (name = job.taskName ∧ key = job.concurrencyKey.getD "")) :
    NoNew name key db (committed db ids job tx task) := by
  intro j' hj' hc
  rcases counted_committed hrow hj' hc with ⟨-, h⟩ | ⟨hj, -⟩
  · exact absurd h hne
  · exact ⟨j', hj, hc, rfl⟩

theorem running_committed_le (ids : List String) (tx : LeaseTx) (task : Task)
    (hrow : ∃ j ∈ db.jobs, SameRow job j) :
    (committed db ids job tx task).running job.taskName (job.concurrencyKey.getD "") ≤
      db.runningOutside ids job.taskName (job.concurrencyKey.getD "") + 1 := by
  refine Table.countP_le_succ job.id fun j' hj' hc => ?_
  rcases counted_committed hrow hj' hc with ⟨hid, -⟩ | ⟨hj, hids⟩
  · exact .inl hid
  · exact .inr ⟨j', hj, by simpa [hc] using hids, rfl⟩

end Commit

theorem Db.recheck_eq_some {present snapshot : Db} {tx : LeaseTx} {id : String} {task : Task}
    (h : present.recheck snapshot tx id = some (job, task)) :
    job ∈ present.jobs ∧ job.id = id ∧ task ∈ present.tasks ∧ task.name = job.taskName ∧
      job.taskName = tx.taskName ∧ snapshot.hasRoom task job = true := by
  obtain ⟨job', hjob', hrest⟩ := Option.bind_eq_some_iff.mp h
  obtain ⟨task', htask', heq⟩ := Option.map_eq_some_iff.mp hrest
  cases heq
  obtain ⟨hmem, hid⟩ := Table.find_eq_some.mp hjob'
  obtain ⟨htaskOf, hready⟩ := Option.filter_eq_some_iff.mp htask'
  obtain ⟨htask, hname⟩ := Table.find_eq_some.mp (Option.filter_eq_some_iff.mp htaskOf).1
  obtain ⟨hjname, -, -, -, hroom⟩ := Db.ready_iff.mp hready
  exact ⟨hmem, hid, htask, hname, hjname, hroom⟩

theorem room_of_recheck {db snapshot : Db} {tx : LeaseTx} {id : String} {task : Task}
    (h : (db.view ids tx.now).recheck snapshot tx id = some (job, task))
    (hfresh : 0 < task.maxConcurrency →
      ∀ r ∈ (db.view ids tx.now).jobs.rows, Db.runsWith job r = true →
        ∃ r' ∈ snapshot.jobs.rows, Db.runsWith job r' = true ∧ r'.id = r.id) :
    Room db ids job task := by
  obtain ⟨hmem, -, htask, hname, -, hroom⟩ := Db.recheck_eq_some h
  refine ⟨htask, hname, ?_, fun hpos => ?_⟩
  · rcases Db.mem_apply_cases hmem with ⟨j, hj, -, rfl⟩ | ⟨hj, -⟩
    · exact ⟨j, hj, rfl, rfl, rfl⟩
    · exact ⟨job, hj, rfl, rfl, rfl⟩
  · -- every job counted now was counted in the snapshot
    have hle : db.runningOutside ids job.taskName (job.concurrencyKey.getD "") ≤
        snapshot.jobs.rows.countP (Db.runsWith job) := by
      refine Table.countP_le fun r hr hc => ?_
      rw [Bool.and_eq_true, decide_eq_true_iff] at hc
      exact hfresh hpos r (Db.mem_apply_of_not hr (decide_eq_false hc.2)) hc.1
    simp only [Db.hasRoom, Bool.or_eq_true, decide_eq_true_eq] at hroom
    omega

namespace Store

variable {n : ℕ} {tx : LeaseTx} {s : Store n} {task : Task} {i : Fin n}

theorem Inv.lock (h : s.Inv) (hroom : Room s.db ids job task) (hfree : ¬ s.taskLocked i task.name) :
    (s.goto i (.locked tx ids job task)).Inv := by
  refine h.goto i (fun ids' job' task' hholds => ?_) fun name hlock => ?_
  · cases hholds
    exact hroom
  · exact of_decide_eq_true hlock ▸ hfree

theorem Inv.write (h : s.Inv) (hi : s.phase i = .locked tx ids job task) :
    (s.goto i (.written tx ids job task)).Inv := by
  refine h.goto i (fun ids' job' task' hholds => ?_) fun name hlock => ?_
  · cases hholds
    exact h.holder i ids job task (hi ▸ .locked tx)
  · rintro ⟨k, hki, hk⟩
    exact hki (h.exclusive k i name hk (hi ▸ hlock))

theorem Inv.commit (h : s.Inv) (hi : s.phase i = .written tx ids job task) :
    (s.finish i (committed s.db ids job tx task)).Inv := by
  have hholds : (s.phase i).Holds ids job task := hi ▸ .written tx
  have hroom := h.holder i ids job task hholds
  refine ⟨fun task' ht' hpos key => ?_, fun k ids' job' task' hk => ?_,
    (h.gotoFree i fun _ => rfl).exclusive⟩
  · show ((committed s.db ids job tx task).running task'.name key : ℤ) ≤ task'.maxConcurrency
    by_cases hsame : task'.name = job.taskName ∧ key = job.concurrencyKey.getD ""
    · obtain ⟨hname, rfl⟩ := hsame
      have htask : task' = task :=
        Table.eq_of_key ht' hroom.task_mem (hname.trans hroom.name_eq.symm)
      subst htask
      have hle := running_committed_le ids tx task' hroom.row
      have hlt := hroom.room hpos
      rw [hname]
      omega
    · have hle := (noNew_committed ids tx task hroom.row hsame).running_le
      have := h.limit task' ht' hpos key
      omega
  · have hki : k ≠ i := fun hki => by
      subst hki
      simp only [Store.finish, Function.update_self] at hk
      cases hk
    simp only [Store.finish, Function.update_of_ne hki] at hk
    have hroom' := h.holder k ids' job' task' hk
    -- the tasks differ, because their locks are held by different workers
    have hnames : job'.taskName ≠ job.taskName := fun heq => hki
      (h.exclusive k i task.name
        (by rw [hroom.name_eq, ← heq, ← hroom'.name_eq]; exact hk.locksTask) hholds.locksTask)
    refine hroom'.mono rfl (fun j hj _ => ?_)
      (noNew_committed ids tx task hroom.row fun heq => hnames heq.1)
    obtain ⟨j₁, hj₁, hsame₁⟩ := exists_apply (p := fun j => j.id ∈ ids)
      (c := .recover tx.now) (fun _ => ⟨rfl, rfl, rfl⟩) hj
    obtain ⟨j₂, hj₂, hsame₂⟩ := exists_apply (p := fun j => j.id = job.id)
      (c := .lease tx.now task tx.workerID tx.leaseID tx.tokenHash)
      (fun _ => ⟨rfl, rfl, rfl⟩) hj₁
    exact ⟨j₂, hj₂, hsame₂.1.trans hsame₁.1, hsame₂.2.1.trans hsame₁.2.1,
      hsame₂.2.2.trans hsame₁.2.2⟩

theorem Inv.step {s' : Store n} {e : Event n} (h : s.Inv) (hfresh : s.Fresh e)
    (hs : s.step e = some s') : s'.Inv := by
  cases e with simp only [Store.step] at hs
  | begin i | recover i =>
    split at hs
    · split_ifs at hs
      cases hs
      exact h.gotoFree i fun _ => rfl
    · cases hs
  | snapshot i =>
    split at hs
    · cases hs
      exact h.gotoFree i fun _ => rfl
    · cases hs
  | tryLock i =>
    split at hs
    · cases hs
      exact h.finish_empty i _ _
    · rename_i tx ids snapshot job rest hphase
      cases hs
      unfold Store.tryLock
      split_ifs with hlocked
      · exact h.gotoFree i fun _ => rfl
      · cases hre : (s.db.view ids tx.now).recheck snapshot tx job.id with
        | none => exact h.gotoFree i fun _ => rfl
        | some row =>
          obtain ⟨job', task⟩ := row
          have hattempt : s.attempt i = some ⟨ids, tx.now, snapshot, job', task⟩ := by
            simp [attempt, hphase, hre]
          obtain ⟨-, -, -, hname, htx, -⟩ := Db.recheck_eq_some hre
          refine h.lock (room_of_recheck hre (hfresh _ hattempt)) fun htask =>
            hlocked (.inl ?_)
          rwa [hname, htx] at htask
    · cases hs
  | write i =>
    split at hs
    · rename_i hphase
      cases hs
      exact h.write hphase
    · cases hs
  | commit i =>
    split at hs
    · rename_i hphase
      cases hs
      exact h.commit hphase
    · cases hs
  | abort i =>
    cases hs
    exact h.gotoFree i fun _ => rfl
  | other c now =>
    split_ifs at hs with hc
    cases hs
    exact h.other hc

/-- In every run whose locks are fresh, at every moment no more jobs of a task and concurrency
key are running than the task allows. -/
theorem running_le_limit {tasks : Table Task.name} {s : Store n}
    (h : Run Store.step Fresh (initial n tasks) s) {task : Task} (ht : task ∈ s.db.tasks)
    (hpos : 0 < task.maxConcurrency) (key : String) :
    (s.db.running task.name key : ℤ) ≤ task.maxConcurrency :=
  (h.invariant (inv_initial tasks) fun _ _ _ hinv hok hs => hinv.step hok hs).limit task ht hpos
    key

end Store

/-! ## Two workers -/

namespace Rivals

def task : Task := { Sample.task with maxConcurrency := 1 }

def tasks : Table Task.name := ⟨[task], by decide⟩

def start (id : String) : Event 2 := .other (.start ⟨id, "email", 1, "", "", 0, [123, 125]⟩) 0

def tx (worker : String) : LeaseTx := ⟨worker, worker, "email", "", 1⟩

def select (i : Fin 2) (worker : String) : List (Event 2) :=
  [.begin i (tx worker), .recover i [], .snapshot i]

def lease (i : Fin 2) : List (Event 2) := [.tryLock i, .write i, .commit i]

def race : List (Event 2) :=
  [start "a", start "b"] ++ select 0 "x" ++ select 1 "y" ++ lease 0 ++
    (.tryLock 1 :: lease 1)

def queue : List (Event 2) :=
  [start "a", start "b"] ++ select 0 "x" ++ lease 0 ++ select 1 "y" ++ [.tryLock 1]

end Rivals

theorem running_le_limit_queue :
    ∃ s, Run Store.step Store.Fresh (Store.initial 2 Rivals.tasks) s ∧
      s.db.running "email" "" = 1 ∧ (s.db.running "email" "" : ℤ) ≤ 1 := by
  refine Run.exists_of_decide
    (P := fun s => Rivals.task ∈ s.db.tasks.rows ∧ s.db.running "email" "" = 1) Rivals.queue
    (by decide +kernel) fun s hrun hs => ⟨hs.2, ?_⟩
  exact Store.running_le_limit hrun hs.1 (by decide) ""

/-- The second worker leases its job on a count that the first one's commit has made wrong. -/
theorem stale_count_exceeds_limit :
    ∃ s, Run Store.step (fun _ _ => True) (Store.initial 2 Rivals.tasks) s ∧
      Rivals.task ∈ s.db.tasks ∧ Rivals.task.maxConcurrency = 1 ∧
        s.db.running Rivals.task.name "" = 2 :=
  Run.exists_of_decide
    (P := fun s => Rivals.task ∈ s.db.tasks.rows ∧ s.db.running "email" "" = 2) Rivals.race
    (by decide +kernel) fun _ _ hs => ⟨hs.1, rfl, hs.2⟩

end Scenery.Durable
