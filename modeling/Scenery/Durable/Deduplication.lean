import Mathlib.Algebra.Order.BigOperators.Group.Finset
import Mathlib.Data.Fintype.Basic
import Scenery.Durable.Invariant
import Scenery.Runs

/-!
# Concurrent starts with one deduplication key

`Start` as a `READ COMMITTED` transaction, statement by statement, for any number of concurrent
calls with the same task and key: release of an expired key, lookup, insert and commit.
-/

namespace Scenery.Durable

open List

structure Starts (n : ℕ) where
  request : Fin n → Db.StartRequest
  now : Fin n → ℤ
  taskName : String
  key : String
  key_ne : key ≠ ""
  task_eq : ∀ i, (Db.normalizeStart (request i)).taskName = taskName
  key_eq : ∀ i, (Db.normalizeStart (request i)).dedupeKey = key
  valid : ∀ i, (Db.normalizeStart (request i)).id ≠ "" ∧ taskName ≠ "" ∧
    (request i).inputBlob ≠ []
  distinct : Function.Injective fun i => (Db.normalizeStart (request i)).id

namespace Starts

variable {n : ℕ}

/-- How far a call is. `ids` are the jobs whose expired key it has released, not yet
committed. -/
inductive Phase where
  | idle
  | begun
  | released (ids : List String)
  | missed (ids : List String)
  | found (ids : List String) (id : String)
  | inserted (ids : List String)
  | returned (id : String)
  | failed (error : StoreError)
  | aborted
  deriving DecidableEq

def Phase.done : Phase → Bool
  | .returned _ => true
  | .failed _ => true
  | .aborted => true
  | _ => false

def Phase.locked : Phase → List String
  | .released ids => ids
  | .missed ids => ids
  | .found ids _ => ids
  | .inserted ids => ids
  | _ => []

def Phase.isInserted : Phase → Bool
  | .inserted _ => true
  | _ => false

structure State (n : ℕ) where
  db : Db
  phase : Fin n → Phase

inductive Event (n : ℕ) : Type where
  | begin (i : Fin n)
  | release (i : Fin n)
  | lookup (i : Fin n)
  | insert (i : Fin n)
  | commit (i : Fin n)
  | abort (i : Fin n)

def view (db : Db) (ids : List String) (now : ℤ) : Db :=
  db.apply (fun j => j.id ∈ ids) (.release now)

def req (calls : Starts n) (i : Fin n) : Db.StartRequest := Db.normalizeStart (calls.request i)

namespace State

def initial (n : ℕ) (db : Db) : State n := ⟨db, fun _ => .idle⟩

def goto (s : State n) (i : Fin n) (phase : Phase) : State n :=
  { s with phase := Function.update s.phase i phase }

def expiredIds (calls : Starts n) (s : State n) (i : Fin n) : List String :=
  (s.db.jobs.rows.filter (Db.holdsExpiredKey (calls.now i) calls.taskName calls.key)).map Job.id

def releaseWaits (calls : Starts n) (s : State n) (i : Fin n) : Prop :=
  ∃ k, k ≠ i ∧ ∃ id ∈ s.expiredIds calls i, id ∈ (s.phase k).locked

def insertWaits (s : State n) (i : Fin n) : Prop := ∃ k, k ≠ i ∧ (s.phase k).isInserted = true

instance (calls : Starts n) (s : State n) (i : Fin n) : Decidable (s.releaseWaits calls i) :=
  inferInstanceAs (Decidable (∃ k, k ≠ i ∧ ∃ id ∈ s.expiredIds calls i, id ∈ (s.phase k).locked))

instance (s : State n) (i : Fin n) : Decidable (s.insertWaits i) :=
  inferInstanceAs (Decidable (∃ k, k ≠ i ∧ (s.phase k).isInserted = true))

def step (calls : Starts n) (s : State n) : Event n → Option (State n)
  | .begin i =>
    match s.phase i with
    | .idle => some (s.goto i .begun)
    | _ => none
  | .release i =>
    match s.phase i with
    | .begun =>
      if s.releaseWaits calls i then none
      else some (s.goto i (.released (s.expiredIds calls i)))
    | _ => none
  | .lookup i =>
    match s.phase i with
    | .released ids =>
      match (view s.db ids (calls.now i)).jobByDedupeKey calls.taskName calls.key with
      | some job => some (s.goto i (.found ids job.id))
      | none => some (s.goto i (.missed ids))
    | _ => none
  | .insert i =>
    match s.phase i with
    | .missed ids =>
      if s.insertWaits i then none
      else
        match (view s.db ids (calls.now i)).insertJob (calls.now i) (calls.req i) with
        | .ok _ => some (s.goto i (.inserted ids))
        | .error e => some (s.goto i (.failed e))
    | _ => none
  | .commit i =>
    match s.phase i with
    | .found ids id =>
      some ⟨view s.db ids (calls.now i), Function.update s.phase i (.returned id)⟩
    | .inserted ids =>
      match (view s.db ids (calls.now i)).insertJob (calls.now i) (calls.req i) with
      | .ok db => some ⟨db, Function.update s.phase i (.returned (calls.req i).id)⟩
      | .error e => some (s.goto i (.failed e))
    | _ => none
  | .abort i => if (s.phase i).done then none else some (s.goto i .aborted)

def oldIds (db₀ : Db) : List String := db₀.jobs.rows.map Job.id

/-- The condition on a step. A release takes no key from a job that one of the calls has
created. At an insert the task is declared, the id is free, and no job holds the key but
those from which the call itself has released it: no other call has committed its insert
since the lookup. -/
def Careful (calls : Starts n) (db₀ : Db) (s : State n) : Event n → Prop
  | .release i => ∀ id ∈ s.expiredIds calls i, id ∈ oldIds db₀
  | .insert i =>
    (∃ task ∈ s.db.tasks.rows, task.name = calls.taskName) ∧
      (calls.req i).id ∉ s.db.jobs.rows.map Job.id ∧
      ∀ j ∈ s.db.jobs.rows, Db.holdsKey calls.taskName calls.key j = true →
        j.id ∈ (s.phase i).locked
  | _ => True

instance (calls : Starts n) (db₀ : Db) (s : State n) :
    (e : Event n) → Decidable (s.Careful calls db₀ e)
  | .release i => inferInstanceAs (Decidable (∀ id ∈ s.expiredIds calls i, id ∈ oldIds db₀))
  | .insert i => inferInstanceAs (Decidable ((∃ task ∈ s.db.tasks.rows,
      task.name = calls.taskName) ∧ (calls.req i).id ∉ s.db.jobs.rows.map Job.id ∧
      ∀ j ∈ s.db.jobs.rows, Db.holdsKey calls.taskName calls.key j = true →
        j.id ∈ (s.phase i).locked))
  | .begin _ => instDecidableTrue
  | .lookup _ => instDecidableTrue
  | .commit _ => instDecidableTrue
  | .abort _ => instDecidableTrue

end State

section Rows

variable {db : Db} {ids : List String} {now : ℤ} {taskName key : String}

theorem holder_of_view {j : Job} (hj : j ∈ (view db ids now).jobs)
    (hkey : Db.holdsKey taskName key j = true) : j ∈ db.jobs ∧ j.id ∉ ids := by
  rcases Db.mem_apply_cases hj with ⟨j₀, -, -, rfl⟩ | ⟨hj, hp⟩
  · simp [Db.holdsKey, Change.release] at hkey
  · exact ⟨hj, of_decide_eq_false hp⟩

theorem view_ids (db : Db) (ids : List String) (now : ℤ) :
    (view db ids now).jobs.rows.map Job.id = db.jobs.rows.map Job.id := by
  simp only [view, Db.apply, Table.update, map_map]
  refine map_congr_left fun j _ => ?_
  by_cases hj : j.id ∈ ids <;> simp [hj, Change.release]

theorem jobByDedupeKey_eq_none :
    db.jobByDedupeKey taskName key = none ↔
      ∀ j ∈ db.jobs, Db.holdsKey taskName key j ≠ true :=
  find?_eq_none

theorem jobByDedupeKey_eq_some {job : Job} (h : db.jobByDedupeKey taskName key = some job) :
    job ∈ db.jobs ∧ Db.holdsKey taskName key job = true :=
  ⟨mem_of_find?_eq_some h, find?_some h⟩

theorem insertJob_isOk {req : Db.StartRequest}
    (htask : ∃ task ∈ db.tasks, task.name = req.taskName)
    (hid : req.id ∉ db.jobs.rows.map Job.id) (hkey : db.holder req = none) :
    ∃ db', db.insertJob now req = .ok db' := by
  obtain ⟨task, htask, hname⟩ := htask
  have hfind : db.tasks.find req.taskName = some task := Table.find_eq_some.mpr ⟨htask, hname⟩
  simp [Db.insertJob, hfind, hid, hkey]

end Rows

/-! ## The invariant -/

section Invariant

variable (calls : Starts n) (db₀ : Db)

abbrev Holds (j : Job) : Prop := Db.holdsKey calls.taskName calls.key j = true

/-- The rows: old jobs stay, an old holder of the key is expired for every call, and one job at
most is new, which holds the key. -/
structure RowsOk (db : Db) : Prop where
  persist : ∀ id ∈ State.oldIds db₀, ∃ j ∈ db.jobs, j.id = id
  old : ∀ j ∈ db.jobs, calls.Holds j → j.id ∈ State.oldIds db₀ →
    ∀ i, j.dedupeExpiresAt.any (· ≤ calls.now i) = true
  created : ∀ j ∈ db.jobs, j.id ∉ State.oldIds db₀ → calls.Holds j
  unique : ∀ j ∈ db.jobs, ∀ j' ∈ db.jobs, j.id ∉ State.oldIds db₀ → j'.id ∉ State.oldIds db₀ →
    j = j'

structure Released (db : Db) (ids : List String) : Prop where
  old : ∀ id ∈ ids, id ∈ State.oldIds db₀
  all : ∀ j ∈ db.jobs, calls.Holds j → j.id ∈ State.oldIds db₀ → j.id ∈ ids

def IsNew (db : Db) (id : String) : Prop := id ∉ State.oldIds db₀ ∧ ∃ j ∈ db.jobs, j.id = id

structure Insertable (db : Db) (i : Fin n) : Prop where
  none_new : ∀ j ∈ db.jobs, j.id ∈ State.oldIds db₀
  task : ∃ task ∈ db.tasks, task.name = calls.taskName
  free : (calls.req i).id ∉ db.jobs.rows.map Job.id

def PhaseOk (db : Db) (i : Fin n) : Phase → Prop
  | .idle => True
  | .begun => True
  | .released ids => calls.Released db₀ db ids
  | .missed ids => calls.Released db₀ db ids
  | .found ids id => calls.Released db₀ db ids ∧ IsNew db₀ db id
  | .inserted ids => calls.Released db₀ db ids ∧ calls.Insertable db₀ db i
  | .returned id => IsNew db₀ db id
  | .failed _ => False
  | .aborted => True

structure Inv (s : State n) : Prop where
  rows : calls.RowsOk db₀ s.db
  phases : ∀ i, calls.PhaseOk db₀ s.db i (s.phase i)
  exclusive : ∀ i k, (s.phase i).isInserted = true → (s.phase k).isInserted = true → i = k

end Invariant

variable {calls : Starts n} {db₀ : Db} {s : State n} {phase : Phase}

theorem Inv.goto (h : calls.Inv db₀ s) (i : Fin n) (hphase : calls.PhaseOk db₀ s.db i phase)
    (hins : phase.isInserted = false) : calls.Inv db₀ (s.goto i phase) where
  rows := h.rows
  phases k := by
    by_cases hk : k = i
    · subst hk
      simpa [State.goto] using hphase
    · simpa [State.goto, hk] using h.phases k
  exclusive k l hk hl := by
    have hne : ∀ m, ((s.goto i phase).phase m).isInserted = true → m ≠ i ∧
        (s.phase m).isInserted = true := by
      intro m hm
      by_cases hmi : m = i
      · subst hmi
        simp [State.goto, hins] at hm
      · exact ⟨hmi, by simpa [State.goto, hmi] using hm⟩
    exact h.exclusive k l (hne k hk).2 (hne l hl).2

variable {ids : List String}

theorem Inv.goto_inserted (h : calls.Inv db₀ s) (i : Fin n)
    (hphase : calls.PhaseOk db₀ s.db i (.inserted ids)) (hwait : ¬ s.insertWaits i) :
    calls.Inv db₀ (s.goto i (.inserted ids)) where
  rows := h.rows
  phases k := by
    by_cases hk : k = i
    · subst hk
      simpa [State.goto] using hphase
    · simpa [State.goto, hk] using h.phases k
  exclusive k l hk hl := by
    have hself : ∀ m, ((s.goto i (.inserted ids)).phase m).isInserted = true → m = i := by
      intro m hm
      by_contra hmi
      exact hwait ⟨m, hmi, by simpa [State.goto, hmi] using hm⟩
    rw [hself k hk, hself l hl]

structure Grows (calls : Starts n) (db₀ db db' : Db) : Prop where
  holders : ∀ j' ∈ db'.jobs, calls.Holds j' → j'.id ∈ State.oldIds db₀ →
    ∃ j ∈ db.jobs, calls.Holds j ∧ j.id = j'.id
  ids : ∀ j ∈ db.jobs, ∃ j' ∈ db'.jobs, j'.id = j.id

variable {db' : Db}

theorem Released.mono {db : Db} (h : calls.Released db₀ db ids) (hg : Grows calls db₀ db db') :
    calls.Released db₀ db' ids where
  old := h.old
  all j' hj' hkey hold := by
    obtain ⟨j, hj, hkeyj, hid⟩ := hg.holders j' hj' hkey hold
    exact hid ▸ h.all j hj hkeyj (hid ▸ hold)

theorem IsNew.mono {db : Db} {id : String} (h : IsNew db₀ db id)
    (hg : Grows calls db₀ db db') : IsNew db₀ db' id := by
  obtain ⟨hnew, j, hj, hid⟩ := h
  obtain ⟨j', hj', hid'⟩ := hg.ids j hj
  exact ⟨hnew, j', hj', hid'.trans hid⟩

variable {i : Fin n}

theorem PhaseOk.mono {db : Db} (h : calls.PhaseOk db₀ db i phase) (hg : Grows calls db₀ db db')
    (hins : phase.isInserted = false) : calls.PhaseOk db₀ db' i phase := by
  cases phase with
  | idle | begun | aborted => trivial
  | released | missed => exact Released.mono h hg
  | found ids id => exact ⟨h.1.mono hg, h.2.mono hg⟩
  | inserted ids => cases hins
  | returned id => exact IsNew.mono h hg
  | failed e => exact h

/-! ### Commits -/

theorem grows_view (calls : Starts n) (db₀ db : Db) (ids : List String) (now : ℤ) :
    Grows calls db₀ db (view db ids now) where
  holders j' hj' hkey _ := ⟨j', (holder_of_view hj' hkey).1, hkey, rfl⟩
  ids j hj := by
    by_cases hids : j.id ∈ ids
    · exact ⟨_, Db.mem_apply_of hj (decide_eq_true hids), rfl⟩
    · exact ⟨j, Db.mem_apply_of_not hj (decide_eq_false hids), rfl⟩

theorem RowsOk.view {db : Db} (h : calls.RowsOk db₀ db) (hids : ∀ id ∈ ids, id ∈ State.oldIds db₀)
    (now : ℤ) :
    calls.RowsOk db₀ (Starts.view db ids now) where
  persist id hid := by
    obtain ⟨j, hj, rfl⟩ := h.persist id hid
    exact (grows_view calls db₀ db ids now).ids j hj
  old j hj hkey := h.old j (holder_of_view hj hkey).1 hkey
  created j hj hnew := by
    rcases Db.mem_apply_cases hj with ⟨j₀, -, hp, rfl⟩ | ⟨hj, -⟩
    · exact absurd (hids _ (of_decide_eq_true hp)) hnew
    · exact h.created j hj hnew
  unique j hj j' hj' hnew hnew' := by
    have hkept : ∀ j ∈ (Starts.view db ids now).jobs, j.id ∉ State.oldIds db₀ → j ∈ db.jobs := by
      intro j hj hnew
      rcases Db.mem_apply_cases hj with ⟨j₀, -, hp, rfl⟩ | ⟨hj, -⟩
      · exact absurd (hids _ (of_decide_eq_true hp)) hnew
      · exact hj
    exact h.unique j (hkept j hj hnew) j' (hkept j' hj' hnew') hnew hnew'

theorem req_taskName (calls : Starts n) (i : Fin n) : (calls.req i).taskName = calls.taskName :=
  calls.task_eq i

theorem req_dedupeKey (calls : Starts n) (i : Fin n) : (calls.req i).dedupeKey = calls.key :=
  calls.key_eq i

theorem holds_newJob (calls : Starts n) (i : Fin n) (now : ℤ) (task : Task) :
    calls.Holds (Db.newJob now (calls.req i) task) := by
  refine Db.holdsKey_iff.mpr ⟨req_taskName calls i, ?_⟩
  simp [Db.newJob, Db.nullIf, req_dedupeKey, calls.key_ne]

theorem Grows.trans {db db'' : Db} (h : Grows calls db₀ db db')
    (h' : Grows calls db₀ db' db'') : Grows calls db₀ db db'' where
  holders j'' hj'' hkey hold := by
    obtain ⟨j', hj', hkey', hid'⟩ := h'.holders j'' hj'' hkey hold
    obtain ⟨j, hj, hkeyj, hid⟩ := h.holders j' hj' hkey' (hid' ▸ hold)
    exact ⟨j, hj, hkeyj, hid.trans hid'⟩
  ids j hj := by
    obtain ⟨j', hj', hid'⟩ := h.ids j hj
    obtain ⟨j'', hj'', hid''⟩ := h'.ids j' hj'
    exact ⟨j'', hj'', hid''.trans hid'⟩

variable {now : ℤ}

theorem inserted_spec {db : Db} (h : calls.RowsOk db₀ db)
    (hins : db.insertJob now (calls.req i) = .ok db') :
    ∃ job, calls.Holds job ∧ job.id = (calls.req i).id ∧ job.id ∉ State.oldIds db₀ ∧
      ∀ j, j ∈ db'.jobs ↔ j ∈ db.jobs ∨ j = job := by
  obtain ⟨task, -, -, hfree, -, rfl⟩ := Db.insertJob_eq_ok hins
  refine ⟨Db.newJob now (calls.req i) task, holds_newJob calls i now task, rfl, fun hold => ?_,
    fun j => Table.mem_insert hfree⟩
  obtain ⟨j, hj, hid⟩ := h.persist _ hold
  exact hfree (mem_map.mpr ⟨j, hj, hid⟩)

theorem grows_insert {db : Db} (h : calls.RowsOk db₀ db)
    (hins : db.insertJob now (calls.req i) = .ok db') : Grows calls db₀ db db' := by
  obtain ⟨job, -, -, hnew, hmem⟩ := inserted_spec h hins
  refine ⟨fun j' hj' hkey hold => ?_, fun j hj => ⟨j, (hmem j).mpr (.inl hj), rfl⟩⟩
  rcases (hmem j').mp hj' with hj' | rfl
  · exact ⟨j', hj', hkey, rfl⟩
  · exact absurd hold hnew

theorem RowsOk.insert {db : Db} (h : calls.RowsOk db₀ db)
    (hnone : ∀ j ∈ db.jobs, j.id ∈ State.oldIds db₀)
    (hins : db.insertJob now (calls.req i) = .ok db') :
    calls.RowsOk db₀ db' ∧ IsNew db₀ db' (calls.req i).id := by
  obtain ⟨job, hholds, hid, hnew, hmem⟩ := inserted_spec h hins
  have honly : ∀ j ∈ db'.jobs, j.id ∉ State.oldIds db₀ → j = job := fun j hj hj' =>
    ((hmem j).mp hj).resolve_left fun hj => hj' (hnone j hj)
  refine ⟨⟨fun id hid => ?_, fun j hj hkey hold => ?_, fun j hj hj' => ?_,
    fun j hj j' hj' hn hn' => ?_⟩, hid ▸ hnew, job, (hmem job).mpr (.inr rfl), hid⟩
  · obtain ⟨j, hj, hjid⟩ := h.persist id hid
    exact ⟨j, (hmem j).mpr (.inl hj), hjid⟩
  · rcases (hmem j).mp hj with hj | rfl
    · exact h.old j hj hkey hold
    · exact absurd hold hnew
  · rw [honly j hj hj']
    exact hholds
  · rw [honly j hj hn, honly j' hj' hn']

theorem insert_isOk {db : Db} (htask : ∃ task ∈ db.tasks, task.name = calls.taskName)
    (hfree : (calls.req i).id ∉ db.jobs.rows.map Job.id)
    (hkey : ∀ j ∈ db.jobs, calls.Holds j → j.id ∈ ids) :
    ∃ db', (view db ids (calls.now i)).insertJob (calls.now i) (calls.req i) = .ok db' := by
  refine insertJob_isOk ?_ ?_ ?_
  · rw [req_taskName]
    exact htask
  · rwa [view_ids]
  · rw [Db.holder, req_taskName, req_dedupeKey, if_neg calls.key_ne, jobByDedupeKey_eq_none]
    intro j hj hholds
    obtain ⟨hmem, hids⟩ := holder_of_view hj hholds
    exact hids (hkey j hmem hholds)

theorem Insertable.isOk {db : Db} (h : calls.Insertable db₀ db i)
    (hrel : calls.Released db₀ db ids) :
    ∃ db', (view db ids (calls.now i)).insertJob (calls.now i) (calls.req i) = .ok db' :=
  insert_isOk h.task h.free fun j hj hholds => hrel.all j hj hholds (h.none_new j hj)

theorem Inv.commit_found (h : calls.Inv db₀ s) {id : String} (hi : s.phase i = .found ids id) :
    calls.Inv db₀ ⟨view s.db ids (calls.now i), Function.update s.phase i (.returned id)⟩ := by
  have hphase := h.phases i
  rw [hi] at hphase
  obtain ⟨hrel, hnew⟩ := hphase
  have hg := grows_view calls db₀ s.db ids (calls.now i)
  have hview : calls.Inv db₀ ⟨view s.db ids (calls.now i), s.phase⟩ := by
    refine ⟨h.rows.view hrel.old _, fun k => ?_, h.exclusive⟩
    have hk := h.phases k
    cases hins : (s.phase k).isInserted with
    | false => exact hk.mono hg hins
    | true =>
      -- there is a new job, so no call has an uncommitted insert
      cases hphase : s.phase k <;> rw [hphase] at hins hk <;> cases hins
      obtain ⟨hidnew, j, hj, rfl⟩ := hnew
      exact absurd (hk.2.none_new j hj) hidnew
  exact hview.goto i (hnew.mono hg) rfl

theorem Inv.commit_inserted (h : calls.Inv db₀ s) (hi : s.phase i = .inserted ids)
    (hins : (view s.db ids (calls.now i)).insertJob (calls.now i) (calls.req i) = .ok db') :
    calls.Inv db₀ ⟨db', Function.update s.phase i (.returned (calls.req i).id)⟩ := by
  have hphase := h.phases i
  rw [hi] at hphase
  obtain ⟨hrel, hinsertable⟩ := hphase
  have hview := h.rows.view hrel.old (calls.now i)
  have hnone : ∀ j ∈ (view s.db ids (calls.now i)).jobs, j.id ∈ State.oldIds db₀ := by
    intro j hj
    rcases Db.mem_apply_cases hj with ⟨j₀, hj₀, -, rfl⟩ | ⟨hj, -⟩
    · exact hinsertable.none_new j₀ hj₀
    · exact hinsertable.none_new j hj
  have hg : Grows calls db₀ s.db db' := (grows_view calls db₀ s.db ids _).trans
    (grows_insert hview hins)
  obtain ⟨hrows, hnew⟩ := hview.insert hnone hins
  have hother : ∀ k, k ≠ i → (s.phase k).isInserted = false := fun k hki =>
    Bool.eq_false_iff.mpr fun hk => hki (h.exclusive k i hk (by rw [hi]; rfl))
  refine ⟨hrows, fun k => ?_, fun k l hk hl => ?_⟩
  · by_cases hki : k = i
    · subst hki
      simp only [Function.update_self]
      exact hnew
    · simpa [hki] using (h.phases k).mono hg (hother k hki)
  · have hfree : ∀ m, (Function.update s.phase i (.returned (calls.req i).id) m).isInserted ≠
        true := by
      intro m hm
      by_cases hmi : m = i
      · subst hmi
        simp [Phase.isInserted] at hm
      · simp [hmi, hother m hmi] at hm
    exact absurd hk (hfree k)

/-! ### Steps and runs -/

theorem Inv.step {s' : State n} {e : Event n} (h : calls.Inv db₀ s)
    (hok : s.Careful calls db₀ e) (hs : s.step calls e = some s') : calls.Inv db₀ s' := by
  cases e with simp only [State.step] at hs
  | begin i =>
    split at hs <;> cases hs
    exact h.goto i trivial rfl
  | release i =>
    split at hs
    · split_ifs at hs
      cases hs
      refine h.goto i ⟨hok, fun j hj hkey hold => ?_⟩ rfl
      refine mem_map.mpr ⟨j, mem_filter.mpr ⟨hj, ?_⟩, rfl⟩
      exact Bool.and_eq_true_iff.mpr ⟨hkey, h.rows.old j hj hkey hold i⟩
    · cases hs
  | lookup i =>
    split at hs
    · rename_i ids hphase
      have hrel := h.phases i
      rw [hphase] at hrel
      split at hs
      · rename_i job hjob
        cases hs
        obtain ⟨hmem, hkey⟩ := jobByDedupeKey_eq_some hjob
        obtain ⟨hmem, hids⟩ := holder_of_view hmem hkey
        -- an old holder would have been released
        exact h.goto i ⟨hrel, fun hold => hids (hrel.all job hmem hkey hold), job, hmem, rfl⟩ rfl
      · cases hs
        exact h.goto i hrel rfl
    · cases hs
  | insert i =>
    split at hs
    · rename_i ids hphase
      have hrel := h.phases i
      rw [hphase] at hrel
      obtain ⟨htask, hfree, hlocked⟩ := hok
      rw [hphase] at hlocked
      have hkey : ∀ j ∈ s.db.jobs, calls.Holds j → j.id ∈ ids := hlocked
      split_ifs at hs with hwait
      obtain ⟨db', hins⟩ := insert_isOk htask hfree hkey
      rw [hins] at hs
      cases hs
      refine h.goto_inserted i ⟨hrel, fun j hj => ?_, htask, hfree⟩ hwait
      -- a new job would hold the key
      by_contra hnew
      exact hnew (hrel.old _ (hkey j hj (h.rows.created j hj hnew)))
    · cases hs
  | commit i =>
    split at hs
    · rename_i ids id hphase
      cases hs
      exact h.commit_found hphase
    · rename_i ids hphase
      have hboth := h.phases i
      rw [hphase] at hboth
      obtain ⟨db', hins⟩ := hboth.2.isOk hboth.1
      rw [hins] at hs
      cases hs
      exact h.commit_inserted hphase hins
    · cases hs
  | abort i =>
    split_ifs at hs
    cases hs
    exact h.goto i trivial rfl

theorem inv_initial (hexpired : ∀ j ∈ db₀.jobs, calls.Holds j →
    ∀ i, j.dedupeExpiresAt.any (· ≤ calls.now i) = true) :
    calls.Inv db₀ (State.initial n db₀) where
  rows := by
    have hold : ∀ j ∈ db₀.jobs, j.id ∈ State.oldIds db₀ := fun _ => mem_map_of_mem
    exact ⟨fun _ => mem_map.mp, fun j hj hkey _ => hexpired j hj hkey,
      fun j hj hnew => absurd (hold j hj) hnew, fun j hj _ _ hnew => absurd (hold j hj) hnew⟩
  phases i := trivial
  exclusive i k hi := by cases hi

/-! ## Progress -/

def Phase.rank : Phase → ℕ
  | .idle => 5
  | .begun => 4
  | .released _ => 3
  | .missed _ => 2
  | .found _ _ => 1
  | .inserted _ => 1
  | _ => 0

def State.rank (s : State n) : ℕ := ∑ i, (s.phase i).rank

theorem rank_update_lt {s : State n} (h : phase.rank < (s.phase i).rank) (db : Db) :
    State.rank ⟨db, Function.update s.phase i phase⟩ < s.rank := by
  refine Finset.sum_lt_sum (fun k _ => ?_) ⟨i, Finset.mem_univ i, by simpa using h⟩
  by_cases hk : k = i
  · subst hk
    simpa using h.le
  · simp [hk]

theorem rank_pos_of_not_done (h : phase.done = false) : 0 < phase.rank := by
  cases phase <;> first | exact Nat.succ_pos _ | cases h

theorem step_rank_lt {s s' : State n} {e : Event n} (hs : s.step calls e = some s') :
    s'.rank < s.rank := by
  cases e with simp only [State.step] at hs
  | begin i =>
    split at hs <;> cases hs
    rename_i hphase
    exact rank_update_lt (by simp [hphase, Phase.rank]) s.db
  | release i =>
    split at hs
    · rename_i hphase
      split_ifs at hs
      cases hs
      exact rank_update_lt (by simp [hphase, Phase.rank]) s.db
    · cases hs
  | lookup i =>
    split at hs
    · rename_i ids hphase
      split at hs <;> cases hs <;>
        exact rank_update_lt (by simp [hphase, Phase.rank]) s.db
    · cases hs
  | insert i =>
    split at hs
    · rename_i ids hphase
      split_ifs at hs
      split at hs <;> cases hs <;>
        exact rank_update_lt (by simp [hphase, Phase.rank]) s.db
    · cases hs
  | commit i =>
    split at hs
    · rename_i ids id hphase
      cases hs
      exact rank_update_lt (by simp [hphase, Phase.rank]) _
    · rename_i ids hphase
      split at hs <;> cases hs <;>
        exact rank_update_lt (by simp [hphase, Phase.rank]) _
    · cases hs
  | abort i =>
    split_ifs at hs with hdone
    cases hs
    have hpos : Phase.aborted.rank < (s.phase i).rank :=
      rank_pos_of_not_done (Bool.eq_false_iff.mpr hdone)
    exact rank_update_lt hpos s.db

def Healthy (_ : State n) (e : Event n) : Prop := ∀ i, e ≠ .abort i

instance (s : State n) : (e : Event n) → Decidable (Healthy s e)
  | .abort i => .isFalse fun h => h i rfl
  | .begin _ => .isTrue fun _ h => by cases h
  | .release _ => .isTrue fun _ h => by cases h
  | .lookup _ => .isTrue fun _ h => by cases h
  | .insert _ => .isTrue fun _ h => by cases h
  | .commit _ => .isTrue nofun

theorem moves_of_locked (h : (s.phase i).locked ≠ [] ∨ (s.phase i).isInserted = true ∨
      ∃ ids, s.phase i = .released ids ∨ s.phase i = .missed ids ∨
        ∃ id, s.phase i = .found ids id) :
    ∃ e s', Healthy s e ∧ s.step calls e = some s' := by
  have hcommit : ∀ k, (s.phase k).isInserted = true →
      ∃ e s', Healthy s e ∧ s.step calls e = some s' := by
    intro k hk
    refine ⟨.commit k, ?_⟩
    cases hphase : s.phase k <;> rw [hphase] at hk <;> cases hk
    simp only [State.step, hphase]
    split
    · exact ⟨_, nofun, rfl⟩
    · exact ⟨_, nofun, rfl⟩
  cases hphase : s.phase i with
  | released ids =>
    refine ⟨.lookup i, ?_⟩
    simp only [State.step, hphase]
    split
    · exact ⟨_, nofun, rfl⟩
    · exact ⟨_, nofun, rfl⟩
  | missed ids =>
    by_cases hwait : s.insertWaits i
    · obtain ⟨k, -, hk⟩ := hwait
      exact hcommit k hk
    · refine ⟨.insert i, ?_⟩
      simp only [State.step, hphase, if_neg hwait]
      split
      · exact ⟨_, nofun, rfl⟩
      · exact ⟨_, nofun, rfl⟩
  | found ids id =>
    exact ⟨.commit i, _, nofun, by simp only [State.step, hphase]; rfl⟩
  | inserted ids => exact hcommit i (by rw [hphase]; rfl)
  | _ => simp [hphase, Phase.locked, Phase.isInserted] at h

theorem exists_step (calls : Starts n) (hi : (s.phase i).done = false) :
    ∃ e s', Healthy s e ∧ s.step calls e = some s' := by
  cases hphase : s.phase i with
  | idle => exact ⟨.begin i, _, nofun, by simp only [State.step, hphase]; rfl⟩
  | begun =>
    by_cases hwait : s.releaseWaits calls i
    · obtain ⟨k, -, id, -, hid⟩ := hwait
      exact moves_of_locked (.inl (ne_nil_of_mem hid))
    · exact ⟨.release i, _, nofun,
        by simp only [State.step, hphase, if_neg hwait]; rfl⟩
  | released ids => exact moves_of_locked (.inr (.inr ⟨ids, .inl hphase⟩))
  | missed ids => exact moves_of_locked (.inr (.inr ⟨ids, .inr (.inl hphase)⟩))
  | found ids id =>
    exact moves_of_locked (.inr (.inr ⟨ids, .inr (.inr ⟨id, hphase⟩)⟩))
  | inserted ids => exact moves_of_locked (.inr (.inl (by rw [hphase]; rfl)))
  | returned | failed | aborted => rw [hphase] at hi; cases hi

theorem exists_finish (calls : Starts n) (s : State n) :
    ∃ s', Run (State.step calls) Healthy s s' ∧ ∀ i, (s'.phase i).done = true := by
  induction hr : s.rank using Nat.strong_induction_on generalizing s with
  | _ r ih =>
    by_cases hdone : ∀ i, (s.phase i).done = true
    · exact ⟨s, .refl, hdone⟩
    · push Not at hdone
      obtain ⟨i, hi⟩ := hdone
      obtain ⟨e, s₁, hok, hs₁⟩ := exists_step calls (Bool.eq_false_iff.mpr hi)
      obtain ⟨s', hrun, hend⟩ := ih s₁.rank (hr ▸ step_rank_lt hs₁) s₁ rfl
      exact ⟨s', (Run.refl.snoc hok hs₁).trans hrun, hend⟩

/-- In every careful run, a call that has come to its end has returned the one job that the
calls have created, unless its connection was lost; and from every state all calls can come to
their end. -/
theorem starts_return_one_job (calls : Starts n) (db₀ : Db)
    (hexpired : ∀ j ∈ db₀.jobs, Db.holdsKey calls.taskName calls.key j = true →
      ∀ i, j.dedupeExpiresAt.any (· ≤ calls.now i) = true) {s : State n}
    (h : Run (State.step calls) (State.Careful calls db₀) (State.initial n db₀) s) :
    (∀ i, (s.phase i).done = true → s.phase i = .aborted ∨
      ∃ job ∈ s.db.jobs, s.phase i = .returned job.id ∧ job.id ∉ State.oldIds db₀ ∧
        ∀ j ∈ s.db.jobs, j.id ∉ State.oldIds db₀ → j = job) ∧
    ∃ s', Run (State.step calls) Healthy s s' ∧ ∀ i, (s'.phase i).done = true := by
  refine ⟨fun i hdone => ?_, exists_finish calls s⟩
  have hinv : calls.Inv db₀ s :=
    h.invariant (inv_initial hexpired) fun _ _ _ hinv => hinv.step
  have hphase := hinv.phases i
  cases hcase : s.phase i <;> rw [hcase] at hdone hphase <;> cases hdone
  · obtain ⟨hnew, job, hjob, rfl⟩ := hphase
    exact .inr ⟨job, hjob, rfl, hnew, fun j hj hj' =>
      hinv.rows.unique j hj job hjob hj' hnew⟩
  · exact hphase.elim
  · exact .inl rfl

/-! ## Two calls -/

namespace Twins

def task : Task := { Sample.task with deduplicationRetentionMs := 604800000 }

def db : Db := ⟨.empty, ⟨[task], by decide⟩, []⟩

def id (i : Fin 2) : String := if i = 0 then "a" else "b"

def pair : Starts 2 where
  request i := ⟨id i, "email", 1, "order-7", "", 0, [123, 125]⟩
  now _ := 0
  taskName := "email"
  key := "order-7"
  key_ne := by decide
  task_eq := by decide +kernel
  key_eq := by decide +kernel
  valid := by decide +kernel
  distinct := by decide +kernel

def search (i : Fin 2) : List (Event 2) := [.begin i, .release i, .lookup i]

def queue : List (Event 2) :=
  search 0 ++ [.insert 0, .commit 0] ++ search 1 ++ [.commit 1]

def race : List (Event 2) :=
  search 0 ++ search 1 ++ [.insert 0, .commit 0, .insert 1]

end Twins

theorem starts_return_one_job_queue :
    ∃ s, Run (State.step Twins.pair) (State.Careful Twins.pair Twins.db)
        (State.initial 2 Twins.db) s ∧ s.phase 1 = .returned "a" ∧
      ∃ job ∈ s.db.jobs, s.phase 1 = .returned job.id ∧
        ∀ j ∈ s.db.jobs, j.id ∉ State.oldIds Twins.db → j = job := by
  refine Run.exists_of_decide (P := fun s => s.phase 1 = .returned "a") Twins.queue
    (by decide +kernel) fun s hrun hs => ⟨hs, ?_⟩
  have hexpired : ∀ j ∈ Twins.db.jobs, Db.holdsKey Twins.pair.taskName Twins.pair.key j = true →
      ∀ i, j.dedupeExpiresAt.any (· ≤ Twins.pair.now i) = true :=
    fun j hj => absurd hj (Table.not_mem_empty j)
  have hend := (starts_return_one_job Twins.pair Twins.db hexpired hrun).1 1 (by rw [hs]; rfl)
  rcases hend with habort | ⟨job, hjob, hret, -, honly⟩
  · rw [hs] at habort
    cases habort
  · exact ⟨job, hjob, hret, honly⟩

/-- The second call has looked too early: its insert fails on the unique index. -/
theorem early_lookup_fails :
    ∃ s, Run (State.step Twins.pair) Healthy (State.initial 2 Twins.db) s ∧
      s.phase 0 = .returned "a" ∧ s.phase 1 = .failed (.insertJob "b") :=
  Run.exists_decide Twins.race (by decide +kernel)

end Starts

end Scenery.Durable
