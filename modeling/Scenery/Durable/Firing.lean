import Mathlib.Data.Set.Finite.Basic
import Scenery.Durable.Invariant
import Scenery.Durable.Schedules
import Scenery.Runs

/-!
# Schedules fire once

Every value of `next_fire_at` leads to exactly one job in the runs in which no process selects a
schedule that another one has selected and not yet left, and none stops between the start of a job
and the advance of its schedule.
-/

namespace Scenery.Durable

open List

namespace Firing

variable {c : Committed String}

theorem start_eq_ok {db : Db} {now : ℤ} {request : Db.StartRequest}
    (hkey : (Db.normalizeStart request).dedupeKey = "") (h : db.start now request = .ok c) :
    db.insertJob now (Db.normalizeStart request) = .ok c.db ∧
      c.reply = (Db.normalizeStart request).id := by
  simp only [Db.start] at h
  generalize Db.normalizeStart request = req at h hkey
  have hreleased : db.releaseKeys now req = db := if_pos hkey
  have hholder : db.holder req = none := if_pos hkey
  rw [hreleased, hholder] at h
  split_ifs at h
  obtain ⟨inserted, hinsert, rfl⟩ := map_eq_ok.mp h
  exact ⟨hinsert, rfl⟩

theorem request_key (item : DueSchedule) (clock : ℤ) :
    (Db.normalizeStart (item.request clock)).dedupeKey = "" := by
  have hblank : trimSpace "" = "" := by decide
  exact hblank

variable {item : DueSchedule}

theorem start_item {db : Db} {now clock : ℤ} (h : db.start now (item.request clock) = .ok c) :
    c.db.tasks = db.tasks ∧ (∃ j ∈ c.db.jobs, j.id = c.reply) ∧ ∀ j ∈ db.jobs, j ∈ c.db.jobs := by
  obtain ⟨hinsert, hreply⟩ := start_eq_ok (request_key item clock) h
  generalize Db.normalizeStart (item.request clock) = req at hinsert hreply
  obtain ⟨task, -, -, hid, -, hdb⟩ := Db.insertJob_eq_ok hinsert
  rw [hdb, hreply]
  refine ⟨rfl, ⟨_, (Table.mem_insert hid).mpr (.inr rfl), rfl⟩, ?_⟩
  intro j hj
  exact (Table.mem_insert hid).mpr (.inl hj)

/-! ## The invariant -/

/-- Every schedule is held by one process at most, which knows the current value of its
`next_fire_at`; the current value has led to a job only while the schedule is being advanced,
and the earlier ones have led to exactly one. -/
structure Inv {n : ℕ} (s : State n) : Prop where
  nodup_items : ∀ i, ((s.phase i).items.map DueSchedule.id).Nodup
  disjoint : ∀ i k, ∀ item ∈ (s.phase i).items, ∀ item' ∈ (s.phase k).items,
    item.id = item'.id → i = k
  current : ∀ i, ∀ item ∈ (s.phase i).items, item.turn = s.turns item.id
  bound : ∀ f ∈ s.fired, f.turn ≤ s.turns f.id
  pending : ∀ f ∈ s.fired, f.turn = s.turns f.id →
    ∃ i clock item rest, s.phase i = .advancing clock item rest ∧ item.id = f.id
  started : ∀ i clock item rest, s.phase i = .advancing clock item rest →
    ∃ f ∈ s.fired, f.id = item.id ∧ f.turn = item.turn
  nodup : (s.fired.map fun f => (f.id, f.turn)).Nodup
  complete : ∀ id turn, turn < s.turns id → ∃ f ∈ s.fired, f.id = id ∧ f.turn = turn
  jobs : ∀ f ∈ s.fired, ∃ j ∈ s.db.jobs, j.id = f.jobID

variable {rest : List DueSchedule}

variable {clock now : ℤ}

namespace Inv

open State

variable {n : ℕ} {s : State n} {i : Fin n}

theorem initial (db : Db) (schedules : Schedules) : Inv (State.initial n db schedules) where
  nodup_items _ := nodup_nil
  disjoint _ _ _ h := by cases h
  current _ _ h := by cases h
  bound _ h := by cases h
  pending _ h := by cases h
  started _ _ _ _ h := by cases h
  nodup := nodup_nil
  complete _ _ h := absurd h (Nat.not_lt_zero _)
  jobs _ h := by cases h

section

variable (h : Inv s)
include h

theorem of_schedules (schedules : Schedules) :
    Inv { s with schedules := schedules } :=
  ⟨h.nodup_items, h.disjoint, h.current, h.bound, h.pending, h.started, h.nodup, h.complete,
    h.jobs⟩

theorem goto {phase : Phase} (hbefore : s.isAdvancing i = false)
    (hafter : ∀ clock item rest, phase ≠ .advancing clock item rest)
    (hnodup : (phase.items.map DueSchedule.id).Nodup)
    (hcurrent : ∀ item ∈ phase.items, item.turn = s.turns item.id)
    (hfree : ∀ item ∈ phase.items, ∀ k, k ≠ i → ∀ item' ∈ (s.phase k).items,
      item.id ≠ item'.id) : Inv (s.goto i phase) := by
  have hself : (s.goto i phase).phase i = phase := Function.update_self ..
  have hother : ∀ k, k ≠ i → (s.goto i phase).phase k = s.phase k :=
    fun k hk => Function.update_of_ne hk ..
  refine ⟨fun k => ?_, fun k l => ?_, fun k => ?_, h.bound, ?_, ?_, h.nodup, h.complete, h.jobs⟩
  · by_cases hk : k = i
    · rwa [hk, hself]
    · rw [hother k hk]
      exact h.nodup_items k
  · by_cases hk : k = i <;> by_cases hl : l = i
    · intros
      rw [hk, hl]
    · subst hk
      rw [hself, hother l hl]
      intro item hitem item' hitem' hid
      exact absurd hid (hfree item hitem l hl item' hitem')
    · subst hl
      rw [hself, hother k hk]
      intro item hitem item' hitem' hid
      exact absurd hid.symm (hfree item' hitem' k hk item hitem)
    · rw [hother k hk, hother l hl]
      exact h.disjoint k l
  · by_cases hk : k = i
    · rwa [hk, hself]
    · rw [hother k hk]
      exact h.current k
  · intro f hf hturn
    obtain ⟨k, clock, item, rest, hphase, hid⟩ := h.pending f hf hturn
    have hk : k ≠ i := by
      rintro rfl
      simp [isAdvancing, hphase] at hbefore
    exact ⟨k, clock, item, rest, (hother k hk).trans hphase, hid⟩
  · intro k clock item rest hphase
    have hk : k ≠ i := by
      rintro rfl
      exact hafter clock item rest (hself.symm.trans hphase)
    rw [hother k hk] at hphase
    exact h.started k clock item rest hphase

theorem exit (hbefore : s.isAdvancing i = false) : Inv (s.goto i .idle) := by
  refine h.goto hbefore nofun nodup_nil ?_ ?_
  · intro item hitem
    cases hitem
  · intro item hitem
    cases hitem

theorem select (hidle : s.phase i = .idle) (hfree : s.Exclusive (.select i clock now)) :
    Inv (s.select i clock now) := by
  refine h.goto (by simp [isAdvancing, hidle]) nofun ?_ ?_ ?_
  · have hids : ((s.schedules.due now).map s.item).map DueSchedule.id =
        (s.schedules.due now).map Schedule.id := by
      rw [map_map]
      rfl
    rw [Phase.items, hids]
    exact s.schedules.nodup_due now
  · intro item hitem
    obtain ⟨r, -, rfl⟩ := mem_map.mp hitem
    rfl
  · intro item hitem k hk item' hitem' hid
    obtain ⟨r, hr, rfl⟩ := mem_map.mp hitem
    have hno := hfree r hr k
    simp only [holds, contains_eq_mem, decide_eq_false_iff_not, mem_map, not_exists,
      not_and] at hno
    exact hno item' hitem' hid.symm

theorem not_fired {clock : ℤ} (hphase : s.phase i = .starting clock (item :: rest))
    {f : Fired} (hf : f ∈ s.fired) (hid : f.id = item.id) : f.turn ≠ item.turn := by
  intro hturn
  have hitem : item ∈ (s.phase i).items := by
    rw [hphase]
    exact mem_cons_self
  rw [h.current i item hitem, ← hid] at hturn
  obtain ⟨k, clock', item', rest', hk, hid'⟩ := h.pending f hf hturn
  have hitem' : item' ∈ (s.phase k).items := by
    rw [hk]
    exact mem_cons_self
  have hik := h.disjoint i k item hitem item' hitem' (hid.symm.trans hid'.symm)
  rw [← hik, hphase] at hk
  cases hk

theorem fire (hphase : s.phase i = .starting clock (item :: rest))
    (hstart : s.db.start now (item.request clock) = .ok c) :
    Inv (s.fire i clock item rest c) := by
  have hself : (s.fire i clock item rest c).phase i = .advancing clock item rest :=
    Function.update_self ..
  have hother : ∀ k, k ≠ i → (s.fire i clock item rest c).phase k = s.phase k :=
    fun k hk => Function.update_of_ne hk ..
  -- the process still holds the same items
  have hitems : ∀ k, ((s.fire i clock item rest c).phase k).items = (s.phase k).items := by
    intro k
    by_cases hk : k = i
    · rw [hk, hself, hphase]
      rfl
    · rw [hother k hk]
  have hitem : item ∈ (s.phase i).items := by
    rw [hphase]
    exact mem_cons_self
  obtain ⟨-, hnew, hjobs⟩ := start_item hstart
  refine ⟨fun k => ?_, fun k l => ?_, fun k => ?_, ?_, ?_, ?_, ?_, ?_, ?_⟩
  · rw [hitems k]
    exact h.nodup_items k
  · rw [hitems k, hitems l]
    exact h.disjoint k l
  · rw [hitems k]
    exact h.current k
  · intro f hf
    rcases mem_append.mp hf with hf | hf
    · exact h.bound f hf
    · rw [mem_singleton.mp hf]
      exact (h.current i item hitem).le
  · intro f hf hturn
    rcases mem_append.mp hf with hf | hf
    · obtain ⟨k, clock', item', rest', hk, hid⟩ := h.pending f hf hturn
      have hne : k ≠ i := by
        rintro rfl
        rw [hphase] at hk
        cases hk
      exact ⟨k, clock', item', rest', (hother k hne).trans hk, hid⟩
    · rw [mem_singleton.mp hf]
      exact ⟨i, clock, item, rest, hself, rfl⟩
  · intro k clock' item' rest' hk
    by_cases hne : k = i
    · rw [hne, hself] at hk
      cases hk
      exact ⟨_, mem_append_right _ (mem_singleton_self _), rfl, rfl⟩
    · rw [hother k hne] at hk
      obtain ⟨f, hf, hid, hturn⟩ := h.started k clock' item' rest' hk
      exact ⟨f, mem_append_left _ hf, hid, hturn⟩
  · have hfired : (s.fire i clock item rest c).fired.map (fun f => (f.id, f.turn)) =
        s.fired.map (fun f => (f.id, f.turn)) ++ [(item.id, item.turn)] := map_append
    rw [hfired, nodup_append]
    refine ⟨h.nodup, nodup_singleton _, fun x hx y hy hxy => ?_⟩
    obtain ⟨f, hf, rfl⟩ := mem_map.mp hx
    rw [mem_singleton.mp hy, Prod.mk.injEq] at hxy
    exact h.not_fired hphase hf hxy.1 hxy.2
  · intro id turn hlt
    obtain ⟨f, hf, hid, hturn⟩ := h.complete id turn hlt
    exact ⟨f, mem_append_left _ hf, hid, hturn⟩
  · intro f hf
    rcases mem_append.mp hf with hf | hf
    · obtain ⟨j, hj, hid⟩ := h.jobs f hf
      exact ⟨j, hjobs j hj, hid⟩
    · rw [mem_singleton.mp hf]
      exact hnew

theorem advance (hphase : s.phase i = .advancing clock item rest) :
    Inv (s.advance i clock item rest now) := by
  have hself : (s.advance i clock item rest now).phase i = .starting clock rest :=
    Function.update_self ..
  have hother : ∀ k, k ≠ i → (s.advance i clock item rest now).phase k = s.phase k :=
    fun k hk => Function.update_of_ne hk ..
  have hitem : item ∈ (s.phase i).items := by
    rw [hphase]
    exact mem_cons_self
  have hnodup := h.nodup_items i
  rw [hphase, Phase.items, map_cons, nodup_cons] at hnodup
  -- the items that are still held are old ones, of other schedules
  have hitems : ∀ k, ∀ item' ∈ ((s.advance i clock item rest now).phase k).items,
      item' ∈ (s.phase k).items ∧ item'.id ≠ item.id := by
    intro k item' hitem'
    by_cases hk : k = i
    · rw [hk, hself] at hitem'
      rw [hk, hphase]
      refine ⟨mem_cons_of_mem _ hitem', fun hid => hnodup.1 ?_⟩
      exact hid ▸ mem_map_of_mem hitem'
    · rw [hother k hk] at hitem'
      exact ⟨hitem', fun hid => hk (h.disjoint k i item' hitem' item hitem hid)⟩
  have hturns : ∀ id, id ≠ item.id → (s.advance i clock item rest now).turns id = s.turns id :=
    fun id hid => Function.update_of_ne hid ..
  have hturn : (s.advance i clock item rest now).turns item.id = s.turns item.id + 1 :=
    Function.update_self ..
  refine ⟨fun k => ?_, fun k l => ?_, fun k => ?_, ?_, ?_, ?_, h.nodup, ?_, h.jobs⟩
  · by_cases hk : k = i
    · rw [hk, hself]
      exact hnodup.2
    · rw [hother k hk]
      exact h.nodup_items k
  · intro a ha b hb hid
    exact h.disjoint k l a (hitems k a ha).1 b (hitems l b hb).1 hid
  · intro item' hitem'
    obtain ⟨hold, hne⟩ := hitems k item' hitem'
    rw [hturns item'.id hne]
    exact h.current k item' hold
  · intro f hf
    have hle := h.bound f hf
    by_cases hid : f.id = item.id
    · rw [hid] at hle ⊢
      omega
    · rwa [hturns f.id hid]
  · intro f hf hcurrent
    have hle := h.bound f hf
    have hid : f.id ≠ item.id := by
      intro hid
      rw [hid] at hle hcurrent
      omega
    rw [hturns f.id hid] at hcurrent
    obtain ⟨k, clock', item', rest', hk, hid'⟩ := h.pending f hf hcurrent
    have hne : k ≠ i := by
      rintro rfl
      rw [hphase] at hk
      cases hk
      exact hid hid'.symm
    exact ⟨k, clock', item', rest', (hother k hne).trans hk, hid'⟩
  · intro k clock' item' rest' hk
    have hne : k ≠ i := by
      rintro rfl
      rw [hself] at hk
      cases hk
    rw [hother k hne] at hk
    exact h.started k clock' item' rest' hk
  · intro id turn hlt
    by_cases hid : id = item.id
    · subst hid
      by_cases hlast : turn = s.turns item.id
      · obtain ⟨f, hf, hfid, hfturn⟩ := h.started i clock item rest hphase
        exact ⟨f, hf, hfid, hfturn.trans ((h.current i item hitem).trans hlast.symm)⟩
      · exact h.complete item.id turn (by omega)
    · rw [hturns id hid] at hlt
      exact h.complete id turn hlt

theorem step {s' : State n} {e : Event n} (hok : s.Exclusive e)
    (hs : s.step e = some s') : Inv s' := by
  cases e with simp only [State.step] at hs
  | upsert id taskName every input now =>
    obtain ⟨-, hs⟩ := Option.ite_none_left_eq_some.mp hs
    cases hs
    exact h.of_schedules _
  | select i clock now =>
    split at hs <;> cases hs
    rename_i hidle
    exact h.select hidle hok
  | start i now =>
    split at hs
    · rename_i clock item rest hphase
      split at hs <;> cases hs
      · rename_i started hstart
        exact h.fire hphase hstart
      · exact h.exit (by simp [isAdvancing, hphase])
    · cases hs
  | advance i now =>
    split at hs <;> cases hs
    rename_i hphase
    exact h.advance hphase
  | exit i =>
    cases hs
    exact h.exit hok

theorem jobsFor_eq {f : Fired} (hf : f ∈ s.fired) :
    ∃ jobID, s.jobsFor f.id f.turn = [jobID] ∧ ∃ j ∈ s.db.jobs, j.id = jobID := by
  have hcount : (s.jobsFor f.id f.turn).length =
      (s.fired.map fun f => (f.id, f.turn)).count (f.id, f.turn) := by
    rw [jobsFor, length_map, ← countP_eq_length_filter, List.count, countP_map]
    refine countP_congr fun g _ => ?_
    simp [Prod.ext_iff]
  have hmem : (f.id, f.turn) ∈ s.fired.map fun f => (f.id, f.turn) := mem_map_of_mem hf
  rw [count_eq_one_of_mem h.nodup hmem] at hcount
  obtain ⟨jobID, hjob⟩ := length_eq_one_iff.mp hcount
  have hin : jobID ∈ s.jobsFor f.id f.turn := hjob ▸ mem_singleton_self _
  obtain ⟨g, hg, rfl⟩ := mem_map.mp hin
  exact ⟨g.jobID, hjob, h.jobs g (mem_filter.mp hg).1⟩

end

end Inv

/-! ## Progress -/

def Declared (db : Db) (r : Schedule) : Prop :=
  trimSpace r.taskName ≠ "" ∧ (∃ task ∈ db.tasks, task.name = trimSpace r.taskName) ∧
    r.inputBlob ≠ []

theorem toList_schedJobID (id : String) (clock : ℕ) : (schedJobID id clock).toList =
    "sched_".toList ++ id.toList ++ "_".toList ++ Nat.toDigits 10 clock := by
  have hdigits : (toString (clock : ℤ)).toList = Nat.toDigits 10 clock := by
    rw [Int.toString_eq_repr, Int.repr_eq_if, if_pos (Int.natCast_nonneg clock), Int.toNat_natCast,
      Nat.toList_repr]
  simp only [schedJobID, String.toList_append, hdigits]

theorem trimSpace_schedJobID (id : String) (clock : ℕ) :
    trimSpace (schedJobID id clock) = schedJobID id clock := by
  refine trimSpace_append_toDigits clock (toList_schedJobID id clock) fun c hc => ?_
  cases hc
  decide

theorem schedJobID_injective (id : String) :
    Function.Injective fun clock : ℕ => schedJobID id clock := by
  intro a b h
  have hlist : (schedJobID id a).toList = (schedJobID id b).toList := congrArg String.toList h
  rw [toList_schedJobID, toList_schedJobID, append_cancel_left_eq] at hlist
  rw [← Nat.ofDigitChars_ten_toDigits (n := a), hlist, Nat.ofDigitChars_ten_toDigits]

theorem exists_clock (id : String) (ids : List String) :
    ∃ clock : ℕ, trimSpace (schedJobID id clock) ∉ ids := by
  obtain ⟨x, ⟨clock, rfl⟩, hx⟩ :=
    (Set.infinite_range_of_injective (schedJobID_injective id)).exists_notMem_finset ids.toFinset
  exact ⟨clock, by rwa [trimSpace_schedJobID, ← mem_toFinset]⟩

theorem start_ok {db : Db} {now : ℤ} {request : Db.StartRequest} {task : Task}
    (hkey : (Db.normalizeStart request).dedupeKey = "") (hid : (Db.normalizeStart request).id ≠ "")
    (hfree : (Db.normalizeStart request).id ∉ db.jobs.rows.map Job.id) (htask : task ∈ db.tasks)
    (hname : task.name = (Db.normalizeStart request).taskName)
    (hblank : (Db.normalizeStart request).taskName ≠ "")
    (hinput : (Db.normalizeStart request).inputBlob ≠ []) :
    ∃ c, db.start now request = .ok c := by
  simp only [Db.start]
  generalize Db.normalizeStart request = req at *
  have hreleased : db.releaseKeys now req = db := if_pos hkey
  have hholder : db.holder req = none := if_pos hkey
  have hfind : db.tasks.find req.taskName = some task := Table.find_eq_some.mpr ⟨htask, hname⟩
  rw [if_neg hid, if_neg hblank, if_neg hinput, hreleased, hholder]
  simp only [Db.insertJob, hfind, dif_pos hfree, hholder]
  exact ⟨_, rfl⟩

theorem start_declared {db : Db} {r : Schedule} (h : Declared db r) (now : ℤ) (turn : ℕ) :
    ∃ clock c, db.start now (DueSchedule.request ⟨r.id, r.taskName, r.everyMs, r.inputBlob, turn⟩
      clock) = .ok c := by
  obtain ⟨hblank, ⟨task, htask, hname⟩, hinput⟩ := h
  obtain ⟨clock, hfree⟩ := exists_clock r.id ("" :: db.jobs.rows.map Job.id)
  rw [mem_cons, not_or] at hfree
  obtain ⟨hid, hfree⟩ := hfree
  exact ⟨clock, start_ok (request_key _ _) hid hfree htask hname hblank hinput⟩

theorem countP_advance {schedules : Schedules} {first : Schedule} {v : ℤ} {everyMs : ℕ}
    (hfirst : first ∈ schedules) (hdue : first.isDue (v + 1) = true)
    (hle : first.nextFireAt.getD 0 ≤ v) :
    (schedules.update (fun r => r.id = first.id) (Schedule.advance (v + 1) everyMs)
      (Schedule.advance_id (v + 1) everyMs)).rows.countP (Schedule.isDue v) <
    schedules.rows.countP (Schedule.isDue v) := by
  refine Table.countP_lt first.id ⟨first, hfirst, ?_, rfl⟩ ?_
  · cases hnext : first.nextFireAt with
    | none => simp [Schedule.isDue, hnext] at hdue
    | some t =>
      simp only [Schedule.isDue, hnext, Option.any_some, Bool.and_eq_true] at hdue ⊢
      rw [hnext] at hle
      exact ⟨hdue.1, decide_eq_true hle⟩
  · intro r hr hrDue
    rcases Table.mem_update_cases (Schedule.advance_id (v + 1) everyMs) hr with
      ⟨r₀, -, -, rfl⟩ | ⟨hr, hne⟩
    · simp only [Schedule.isDue, Schedule.advance, milliseconds, Option.any_some,
        Bool.and_eq_true, decide_eq_true_eq] at hrDue
      omega
    · exact ⟨of_decide_eq_false hne, r, hr, hrDue, rfl⟩

structure Waiting {n : ℕ} (s : State n) (id : String) (turn : ℕ) (v : ℤ) : Prop where
  inv : Inv s
  declared : ∀ r ∈ s.schedules, Declared s.db r
  row : ∃ r ∈ s.schedules, r.id = id ∧ r.enabled = true ∧ r.nextFireAt = some v
  turn_eq : s.turns id = turn
  not_fired : ∀ f ∈ s.fired, f.id = id → f.turn ≠ turn

namespace Waiting

open State

variable {n : ℕ} {s : State n} {i : Fin n} {id : String} {turn : ℕ} {v : ℤ}

section

variable (h : Waiting s id turn v)
include h

theorem goto {phase : Phase} (hinv : Inv (s.goto i phase)) :
    Waiting (s.goto i phase) id turn v :=
  ⟨hinv, h.declared, h.row, h.turn_eq, h.not_fired⟩

theorem advance (hphase : s.phase i = .advancing clock item rest) :
    Waiting (s.advance i clock item rest now) id turn v := by
  have hitem : item ∈ (s.phase i).items := by
    rw [hphase]
    exact mem_cons_self
  -- the job of the item has been started, that of the schedule has not
  have hne : id ≠ item.id := by
    rintro rfl
    obtain ⟨f, hf, hid, hturn⟩ := h.inv.started i clock item rest hphase
    exact h.not_fired f hf hid (hturn.trans ((h.inv.current i item hitem).trans h.turn_eq))
  refine ⟨h.inv.advance hphase, ?_, ?_, ?_, h.not_fired⟩
  · intro r hr
    rcases Table.mem_update_cases (Schedule.advance_id now item.everyMs) hr with
      ⟨r₀, hr₀, -, rfl⟩ | ⟨hr, -⟩
    · exact h.declared r₀ hr₀
    · exact h.declared r hr
  · obtain ⟨r, hr, hid, hrest⟩ := h.row
    refine ⟨r, Table.mem_update_of_not (Schedule.advance_id now item.everyMs) hr ?_, hid, hrest⟩
    exact decide_eq_false (hid ▸ hne)
  · exact (Function.update_of_ne hne ..).trans h.turn_eq

theorem fire (hphase : s.phase i = .starting clock (item :: rest))
    (hstart : s.db.start now (item.request clock) = .ok c) (hne : item.id ≠ id) :
    Waiting (s.fire i clock item rest c) id turn v := by
  have htasks := (start_item hstart).1
  refine ⟨h.inv.fire hphase hstart, ?_, h.row, h.turn_eq, ?_⟩
  · intro r hr
    obtain ⟨hblank, ⟨task, htask, hname⟩, hinput⟩ := h.declared r hr
    exact ⟨hblank, ⟨task, htasks ▸ htask, hname⟩, hinput⟩
  · intro f hf hid
    rcases mem_append.mp hf with hf | hf
    · exact h.not_fired f hf hid
    · rw [mem_singleton.mp hf] at hid
      exact absurd hid hne

theorem exit (hbefore : s.isAdvancing i = false) :
    Run step Exclusive s (s.goto i .idle) ∧ Waiting (s.goto i .idle) id turn v :=
  ⟨Run.refl.snoc (a := .exit i) hbefore rfl, h.goto (h.inv.exit hbefore)⟩

theorem leave (i : Fin n) (now : ℤ) : ∃ s', Run step Exclusive s s' ∧ Waiting s' id turn v ∧
      s'.phase = Function.update s.phase i .idle ∧
      ∀ clock item rest, s.phase i = .advancing clock item rest →
        s'.schedules = (s.advance i clock item rest now).schedules := by
  cases hphase : s.phase i with
  | advancing clock item rest =>
    have hself : (s.advance i clock item rest now).phase i = .starting clock rest :=
      Function.update_self ..
    have hadvance : s.step (.advance i now) = some (s.advance i clock item rest now) := by
      simp only [step, hphase]
    have hfree : s.Exclusive (.advance i now) := trivial
    have hwaiting : Waiting (s.advance i clock item rest now) id turn v := h.advance hphase
    have hexit := hwaiting.exit (i := i) (by simp [isAdvancing, hself])
    refine ⟨_, (Run.refl.snoc hfree hadvance).trans hexit.1, hexit.2, Function.update_idem .., ?_⟩
    intro clock' item' rest' heq
    cases heq
    rfl
  | idle | starting =>
    have hexit := h.exit (i := i) (by simp [isAdvancing, hphase])
    exact ⟨_, hexit.1, hexit.2, rfl, nofun⟩

theorem leave_all :
    ∃ s', Run step Exclusive s s' ∧ Waiting s' id turn v ∧ ∀ k, s'.phase k = .idle := by
  have hlist : ∀ L : List (Fin n), ∃ s', Run step Exclusive s s' ∧ Waiting s' id turn v ∧
      ∀ k ∈ L, s'.phase k = .idle := by
    intro L
    induction L with
    | nil => exact ⟨s, .refl, h, nofun⟩
    | cons i L ih =>
      obtain ⟨s₁, hrun₁, h₁, hidle₁⟩ := ih
      obtain ⟨s₂, hrun₂, h₂, hphase, -⟩ := h₁.leave i 0
      refine ⟨s₂, hrun₁.trans hrun₂, h₂, fun k hk => ?_⟩
      rw [hphase]
      by_cases hki : k = i
      · rw [hki, Function.update_self]
      · rw [Function.update_of_ne hki]
        exact hidle₁ k ((mem_cons.mp hk).resolve_left hki)
  obtain ⟨s', hrun, h', hidle⟩ := hlist (List.finRange n)
  exact ⟨s', hrun, h', fun k => hidle k (mem_finRange k)⟩

theorem round (hidle : ∀ k, s.phase k = .idle) (i : Fin n) :
    ∃ s', Run step Exclusive s s' ∧ ((∃ f ∈ s'.fired, f.id = id ∧ f.turn = turn) ∨
      Waiting s' id turn v ∧ (∀ k, s'.phase k = .idle) ∧
        s'.schedules.rows.countP (Schedule.isDue v) < s.schedules.rows.countP (Schedule.isDue v)) := by
  obtain ⟨r, hr, -, henabled, hv⟩ := h.row
  have hdue : r.isDue (v + 1) = true := by simp [Schedule.isDue, henabled, hv]
  obtain ⟨first, rest, heq, hfirst, hfirstDue, hle⟩ := Schedules.due_eq_cons hr hdue
  obtain ⟨clock, c, hstart⟩ := start_declared (h.declared first hfirst) (v + 1) (s.turns first.id)
  -- the process selects the due schedules and starts the job of the first one
  have hexclusive : s.Exclusive (.select i clock (v + 1)) := by
    intro row _ k
    simp [holds, hidle k, Phase.items]
  have hselect : s.step (.select i clock (v + 1)) = some (s.select i clock (v + 1)) := by
    simp only [step, hidle i]
  have hphase : (s.select i clock (v + 1)).phase i =
      .starting clock (s.item first :: rest.map s.item) := by
    rw [State.select, heq]
    exact Function.update_self ..
  have hwaiting : Waiting (s.select i clock (v + 1)) id turn v :=
    h.goto (h.inv.select (hidle i) hexclusive)
  have hfire : (s.select i clock (v + 1)).step (.start i (v + 1)) =
      some ((s.select i clock (v + 1)).fire i clock (s.item first) (rest.map s.item) c) := by
    have hdb : (s.select i clock (v + 1)).db.start (v + 1) ((s.item first).request clock) =
      .ok c := hstart
    simp only [step, hphase, hdb]
  have hfree : (s.select i clock (v + 1)).Exclusive (.start i (v + 1)) := trivial
  have hrun := (Run.refl.snoc hexclusive hselect).snoc hfree hfire
  by_cases hsame : first.id = id
  · -- it was the schedule in question
    refine ⟨_, hrun, .inl ⟨⟨first.id, s.turns first.id, c.reply⟩, ?_, hsame, ?_⟩⟩
    · exact mem_append_right _ (mem_singleton_self _)
    · rw [hsame]
      exact h.turn_eq
  · -- otherwise it is advanced beyond the value
    have hwaiting₂ := hwaiting.fire hphase hstart hsame
    generalize hs₂ : (s.select i clock (v + 1)).fire i clock (s.item first) (rest.map s.item) c =
      s₂ at hrun hwaiting₂
    have hschedules : s₂.schedules = s.schedules := hs₂ ▸ rfl
    have hphase₂ : s₂.phase i = .advancing clock (s.item first) (rest.map s.item) :=
      hs₂ ▸ Function.update_self ..
    have hother₂ : ∀ k, k ≠ i → s₂.phase k = .idle := by
      intro k hk
      rw [← hs₂]
      exact ((Function.update_of_ne hk ..).trans (Function.update_of_ne hk ..)).trans (hidle k)
    obtain ⟨s₃, hrun₃, hwaiting₃, hphase₃, hschedules₃⟩ := hwaiting₂.leave i (v + 1)
    refine ⟨s₃, hrun.trans hrun₃, .inr ⟨hwaiting₃, fun k => ?_, ?_⟩⟩
    · rw [hphase₃]
      by_cases hk : k = i
      · rw [hk, Function.update_self]
      · rw [Function.update_of_ne hk, hother₂ k hk]
    · rw [hschedules₃ clock _ _ hphase₂, advance_schedules, hschedules]
      exact countP_advance hfirst hfirstDue (by simpa [hv] using hle)

theorem eventually_fired (i : Fin n) :
    ∃ s', Run step Exclusive s s' ∧ ∃ f ∈ s'.fired, f.id = id ∧ f.turn = turn := by
  obtain ⟨s₁, hrun₁, h₁, hidle₁⟩ := h.leave_all
  -- by induction on the number of schedules that are due at the value
  generalize hm : s₁.schedules.rows.countP (Schedule.isDue v) = m
  induction m using Nat.strong_induction_on generalizing s₁ with
  | _ m ih =>
    obtain ⟨s₂, hrun₂, hfired | ⟨h₂, hidle₂, hlt⟩⟩ := h₁.round hidle₁ i
    · exact ⟨s₂, hrun₁.trans hrun₂, hfired⟩
    · exact ih _ (hm ▸ hlt) s₂ (hrun₁.trans hrun₂) h₂ hidle₂ rfl

end

end Waiting

/-! ## Runs -/

open State

variable {n : ℕ} {db : Db} {schedules : Schedules} {s : State n}

theorem Run.inv (h : Run step Exclusive (initial n db schedules) s) : Inv s :=
  h.invariant (.initial db schedules) fun _ _ _ hinv => hinv.step

theorem declared_step {s' : State n} {e : Event n} (h : ∀ r ∈ s.schedules, Declared s.db r)
    (hs : s.step e = some s') : ∀ r ∈ s'.schedules, Declared s'.db r := by
  cases e with simp only [step] at hs
  | upsert id taskName every input now =>
    obtain ⟨hvalid, hs⟩ := Option.ite_none_left_eq_some.mp hs
    cases hs
    simp only [not_or, Option.isNone_iff_eq_none] at hvalid
    obtain ⟨-, hname, -, -, htask⟩ := hvalid
    obtain ⟨task, hfind⟩ := Option.ne_none_iff_exists'.mp htask
    obtain ⟨hmem, htaskName⟩ := Table.find_eq_some.mp hfind
    have hinput : (if input = [] then [123, 125] else input) ≠ [] := by
      split_ifs with hempty
      · exact cons_ne_nil _ _
      · exact hempty
    -- the new row, or the columns of the old one
    have hnew : ∀ r : Schedule, r.taskName = trimSpace taskName →
        r.inputBlob = (if input = [] then [123, 125] else input) → Declared s.db r := by
      intro r hr hblob
      rw [Declared, hr, hblob, trimSpace_trimSpace]
      exact ⟨hname, ⟨task, hmem, htaskName⟩, hinput⟩
    intro r hr
    rcases (Table.mem_upsert (Schedule.redeclare_id _ _ _)).mp hr with
      ⟨hr, -⟩ | ⟨-, rfl⟩ | ⟨r₀, -, -, rfl⟩
    · exact h r hr
    · exact hnew _ rfl rfl
    · exact hnew _ rfl rfl
  | select i clock now =>
    split at hs <;> cases hs
    exact h
  | start i now =>
    split at hs
    · split at hs <;> cases hs
      · rename_i hstart
        have htasks := (start_item hstart).1
        intro r hr
        obtain ⟨hblank, ⟨task, htask, hname⟩, hinput⟩ := h r hr
        exact ⟨hblank, ⟨task, htasks ▸ htask, hname⟩, hinput⟩
      · exact h
    · cases hs
  | advance i now =>
    split at hs <;> cases hs
    rename_i item rest hphase
    intro r hr
    rcases Table.mem_update_cases (Schedule.advance_id now item.everyMs) hr with
      ⟨r₀, hr₀, -, rfl⟩ | ⟨hr, -⟩
    · exact h r₀ hr₀
    · exact h r hr
  | exit i =>
    cases hs
    exact h

/-- In every run whose steps meet the condition, every value that `next_fire_at` has had before
has led to exactly one job, the current one has led to one at most, and as long as it has not,
the run can go on so that it does. -/
theorem fires_once (h : Run step Exclusive (initial n db schedules) s)
    (hdeclared : ∀ r ∈ schedules, Declared db r) (id : String) :
    (∀ turn < s.turns id, ∃ jobID, s.jobsFor id turn = [jobID] ∧ ∃ j ∈ s.db.jobs, j.id = jobID) ∧
    (s.jobsFor id (s.turns id)).length ≤ 1 ∧
    ∀ r ∈ s.schedules, r.id = id → r.enabled = true → r.nextFireAt ≠ none → ∀ _ : Fin n,
      ∃ s', Run step Exclusive s s' ∧
        ∃ jobID, s'.jobsFor id (s.turns id) = [jobID] ∧ ∃ j ∈ s'.db.jobs, j.id = jobID := by
  have hinv : Inv s := Run.inv h
  refine ⟨?_, ?_, ?_⟩
  · intro turn hlt
    obtain ⟨f, hf, rfl, rfl⟩ := hinv.complete id turn hlt
    exact hinv.jobsFor_eq hf
  · cases hjobs : s.jobsFor id (s.turns id) with
    | nil => exact Nat.zero_le _
    | cons jobID rest =>
      have hmem : jobID ∈ s.jobsFor id (s.turns id) := hjobs ▸ mem_cons_self
      obtain ⟨f, hf, -⟩ := mem_map.mp hmem
      obtain ⟨hf, hkey⟩ := mem_filter.mp hf
      simp only [Bool.and_eq_true, decide_eq_true_eq] at hkey
      obtain ⟨jobID', hone, -⟩ := hinv.jobsFor_eq hf
      rw [hkey.1, hkey.2, hjobs] at hone
      exact (congrArg List.length hone).le
  · intro r hr hid henabled hnext i
    obtain ⟨v, hv⟩ := Option.ne_none_iff_exists'.mp hnext
    by_cases hfired : ∃ f ∈ s.fired, f.id = id ∧ f.turn = s.turns id
    · obtain ⟨f, hf, hfid, hturn⟩ := hfired
      have hjobs := hinv.jobsFor_eq hf
      rw [hfid, hturn] at hjobs
      exact ⟨s, .refl, hjobs⟩
    · have hwaiting : Waiting s id (s.turns id) v :=
        ⟨hinv, h.invariant hdeclared fun _ _ _ hd _ => declared_step hd,
          ⟨r, hr, hid, henabled, hv⟩, rfl, fun f hf hfid hturn => hfired ⟨f, hf, hfid, hturn⟩⟩
      obtain ⟨s', hrun, f, hf, hfid, hturn⟩ := hwaiting.eventually_fired i
      have hjobs := (Run.inv (h.trans hrun)).jobsFor_eq hf
      rw [hfid, hturn] at hjobs
      exact ⟨s', hrun, hjobs⟩

namespace Twice

def report : Schedule := ⟨"report", "email", true, 60000, some 0, none, [123, 125]⟩

def start : State 2 := .initial 2 Sample.initial ⟨[report], by decide⟩

def queue : List (Event 2) :=
  [.select 0 5 10, .start 0 10, .advance 0 10, .exit 0, .select 1 6 10, .exit 1]

def race : List (Event 2) := [.select 0 5 10, .select 1 6 10, .start 0 10, .start 1 10]

end Twice

theorem fires_once_queue :
    ∃ s, Run step Exclusive Twice.start s ∧ s.turns "report" = 1 ∧
      ∃ jobID, s.jobsFor "report" 0 = [jobID] ∧ ∃ j ∈ s.db.jobs, j.id = jobID := by
  refine Run.exists_of_decide (P := fun s => s.turns "report" = 1) Twice.queue
    (by decide +kernel) fun s hrun hturns => ⟨hturns, ?_⟩
  have hdeclared : ∀ r ∈ Twice.start.schedules, Declared Sample.initial r := by
    intro r hr
    rw [mem_singleton.mp hr]
    exact ⟨by decide, ⟨Sample.task, mem_singleton_self _, by decide⟩, by decide⟩
  exact (fires_once hrun hdeclared "report").1 0 (by omega)

/-- One value of `next_fire_at` leads to two jobs. -/
theorem one_value_two_jobs :
    ∃ s, Run step (fun _ _ => True) Twice.start s ∧ s.turns "report" = 0 ∧
      s.jobsFor "report" 0 = ["sched_report_5", "sched_report_6"] ∧
      (s.db.jobs.rows.map Job.id) = ["sched_report_5", "sched_report_6"] :=
  Run.exists_decide Twice.race (by decide +kernel)

end Firing

end Scenery.Durable
