import Mathlib.Data.Fintype.Basic
import Mathlib.Data.List.Sort
import Mathlib.Data.Prod.Lex
import Scenery.Durable.Effects

/-!
# Durable schedules

`UpsertSchedule` and `RunDueSchedules` of `store_schedules_tokens.go`, the latter as the loop of
`startDurableScheduleLoop` runs it in any number of processes.
-/

namespace Scenery.Durable

open List

structure Schedule where
  id : String
  taskName : String
  enabled : Bool
  everyMs : ℕ
  nextFireAt : Option ℤ
  lastFireAt : Option ℤ
  inputBlob : Bytes
  deriving DecidableEq

abbrev Schedules : Type := Table Schedule.id

namespace Schedule

def isDue (now : ℤ) (r : Schedule) : Bool := r.enabled && r.nextFireAt.any (· ≤ now)

def order (r : Schedule) : ℤ ×ₗ String := toLex (r.nextFireAt.getD 0, r.id)

def advance (now : ℤ) (everyMs : ℕ) (r : Schedule) : Schedule :=
  { r with lastFireAt := some now, nextFireAt := some (now + milliseconds everyMs) }

theorem advance_id (now : ℤ) (everyMs : ℕ) (r : Schedule) : (r.advance now everyMs).id = r.id := rfl

def redeclare (taskName : String) (everyMs : ℕ) (input : Bytes) (r : Schedule) : Schedule :=
  { r with taskName := taskName, everyMs := everyMs, inputBlob := input, enabled := true }

theorem redeclare_id (taskName : String) (everyMs : ℕ) (input : Bytes) (r : Schedule) :
    (r.redeclare taskName everyMs input).id = r.id := rfl

end Schedule

structure DueSchedule where
  id : String
  task : String
  everyMs : ℕ
  input : Bytes
  /-- which value of `next_fire_at` the statement has seen; the code does not look at it -/
  turn : ℕ
  deriving DecidableEq

def Schedules.due (schedules : Schedules) (now : ℤ) : List Schedule :=
  ((schedules.rows.filter (Schedule.isDue now)).insertionSort fun a b => a.order ≤ b.order).take 50

theorem Schedules.nodup_due (schedules : Schedules) (now : ℤ) :
    ((schedules.due now).map Schedule.id).Nodup := by
  have hperm := perm_insertionSort (fun a b : Schedule => a.order ≤ b.order)
    (schedules.rows.filter (Schedule.isDue now))
  have hnodup : ((schedules.rows.filter (Schedule.isDue now)).map Schedule.id).Nodup :=
    schedules.nodup_filter_keys _
  exact ((hperm.map Schedule.id).nodup_iff.mpr hnodup).sublist ((take_sublist _ _).map _)

theorem Schedules.due_eq_cons {schedules : Schedules} {now : ℤ} {r : Schedule}
    (hr : r ∈ schedules) (hdue : r.isDue now = true) :
    ∃ first rest, schedules.due now = first :: rest ∧ first ∈ schedules ∧
      first.isDue now = true ∧ first.nextFireAt.getD 0 ≤ r.nextFireAt.getD 0 := by
  let le : Schedule → Schedule → Prop := fun a b => a.order ≤ b.order
  have : Std.Total le := ⟨fun a b => le_total a.order b.order⟩
  have : IsTrans Schedule le := ⟨fun a b c (hab : a.order ≤ b.order) (hbc : b.order ≤ c.order) =>
    hab.trans hbc⟩
  have hmem : ∀ x, x ∈ (schedules.rows.filter (Schedule.isDue now)).insertionSort le ↔
      x ∈ schedules ∧ x.isDue now = true := by
    intro x
    rw [mem_insertionSort, mem_filter, Table.mem_def]
  have hsorted := pairwise_insertionSort le (schedules.rows.filter (Schedule.isDue now))
  have hin := (hmem r).mpr ⟨hr, hdue⟩
  rw [Schedules.due]
  generalize (schedules.rows.filter (Schedule.isDue now)).insertionSort le = sorted at *
  cases sorted with
  | nil => cases hin
  | cons first rest =>
    obtain ⟨hfirst, hfirstDue⟩ := (hmem first).mp mem_cons_self
    refine ⟨first, rest.take 49, rfl, hfirst, hfirstDue, ?_⟩
    rcases mem_cons.mp hin with rfl | hin
    · exact le_rfl
    · have hle : first.order ≤ r.order := (pairwise_cons.mp hsorted).1 r hin
      rcases Prod.Lex.toLex_le_toLex.mp hle with hlt | ⟨heq, -⟩
      · exact hlt.le
      · exact heq.le

def schedJobID (id : String) (clock : ℤ) : String := "sched_" ++ id ++ "_" ++ toString clock

def DueSchedule.request (item : DueSchedule) (clock : ℤ) : Db.StartRequest where
  id := schedJobID item.id clock
  taskName := item.task
  taskVersion := 0
  dedupeKey := ""
  concurrencyKey := ""
  priority := 0
  inputBlob := item.input

namespace Firing

inductive Phase where
  | idle
  | starting (clock : ℤ) (items : List DueSchedule)
  | advancing (clock : ℤ) (item : DueSchedule) (rest : List DueSchedule)
  deriving DecidableEq

def Phase.items : Phase → List DueSchedule
  | .idle => []
  | .starting _ items => items
  | .advancing _ item rest => item :: rest

structure Fired where
  id : String
  turn : ℕ
  jobID : String
  deriving DecidableEq

structure State (n : ℕ) where
  db : Db
  schedules : Schedules
  turns : String → ℕ
  fired : List Fired
  phase : Fin n → Phase

inductive Event (n : ℕ) : Type where
  | upsert (id taskName : String) (every : ℤ) (input : Bytes) (now : ℤ)
  | select (i : Fin n) (clock now : ℤ)
  | start (i : Fin n) (now : ℤ)
  | advance (i : Fin n) (now : ℤ)
  | exit (i : Fin n)

namespace State

variable {n : ℕ}

def initial (n : ℕ) (db : Db) (schedules : Schedules) : State n :=
  ⟨db, schedules, fun _ => 0, [], fun _ => .idle⟩

def goto (s : State n) (i : Fin n) (phase : Phase) : State n :=
  { s with phase := Function.update s.phase i phase }

def upsert (s : State n) (id taskName : String) (every : ℤ) (input : Bytes) (now : ℤ) :
    Option (State n) :=
  let id := trimSpace id
  let taskName := trimSpace taskName
  let input := if input = [] then [123, 125] else input
  let everyMs := (every / 1000000).toNat
  if id = "" ∨ taskName = "" ∨ every ≤ 0 ∨ 2 ^ 31 ≤ everyMs ∨
      (s.db.tasks.find taskName).isNone then none
  else
    some { s with
      schedules := s.schedules.upsert ⟨id, taskName, true, everyMs, some now, none, input⟩
        (Schedule.redeclare taskName everyMs input)
        (Schedule.redeclare_id taskName everyMs input) }

def item (s : State n) (r : Schedule) : DueSchedule :=
  ⟨r.id, r.taskName, r.everyMs, r.inputBlob, s.turns r.id⟩

def select (s : State n) (i : Fin n) (clock now : ℤ) : State n :=
  s.goto i (.starting clock ((s.schedules.due now).map s.item))

def fire (s : State n) (i : Fin n) (clock : ℤ) (item : DueSchedule) (rest : List DueSchedule)
    (started : Committed String) : State n :=
  let fired : List Fired := s.fired ++ [⟨item.id, item.turn, started.reply⟩]
  { s with db := started.db, fired := fired }.goto i (.advancing clock item rest)

def advance (s : State n) (i : Fin n) (clock : ℤ) (item : DueSchedule) (rest : List DueSchedule)
    (now : ℤ) : State n :=
  { s with
    schedules := s.schedules.update (fun r => r.id = item.id) (Schedule.advance now item.everyMs)
      (Schedule.advance_id now item.everyMs)
    turns := Function.update s.turns item.id (s.turns item.id + 1) }.goto i (.starting clock rest)

theorem advance_schedules (s : State n) (i : Fin n) (clock : ℤ) (item : DueSchedule)
    (rest : List DueSchedule) (now : ℤ) : (s.advance i clock item rest now).schedules =
    s.schedules.update (fun r => r.id = item.id) (Schedule.advance now item.everyMs)
      (Schedule.advance_id now item.everyMs) := rfl

def step (s : State n) : Event n → Option (State n)
  | .upsert id taskName every input now => s.upsert id taskName every input now
  | .select i clock now =>
    match s.phase i with
    | .idle => some (s.select i clock now)
    | _ => none
  | .start i now =>
    match s.phase i with
    | .starting clock (item :: rest) =>
      match s.db.start now (item.request clock) with
      | .ok started => some (s.fire i clock item rest started)
      | .error _ => some (s.goto i .idle)
    | _ => none
  | .advance i now =>
    match s.phase i with
    | .advancing clock item rest => some (s.advance i clock item rest now)
    | _ => none
  | .exit i => some (s.goto i .idle)

def jobsFor (s : State n) (id : String) (turn : ℕ) : List String :=
  (s.fired.filter fun f => f.id = id && f.turn = turn).map Fired.jobID

def holds (s : State n) (i : Fin n) (id : String) : Bool :=
  ((s.phase i).items.map DueSchedule.id).contains id

def isAdvancing (s : State n) (i : Fin n) : Bool :=
  match s.phase i with
  | .advancing _ _ _ => true
  | _ => false

def Exclusive (s : State n) : Event n → Prop
  | .select _ _ now => ∀ r ∈ s.schedules.due now, ∀ k, s.holds k r.id = false
  | .exit i => s.isAdvancing i = false
  | _ => True

instance (s : State n) : (e : Event n) → Decidable (s.Exclusive e)
  | .select _ _ now =>
    inferInstanceAs (Decidable (∀ r ∈ s.schedules.due now, ∀ k, s.holds k r.id = false))
  | .exit i => inferInstanceAs (Decidable (s.isAdvancing i = false))
  | .upsert _ _ _ _ _ => instDecidableTrue
  | .start _ _ => instDecidableTrue
  | .advance _ _ => instDecidableTrue

end State

end Firing

end Scenery.Durable
