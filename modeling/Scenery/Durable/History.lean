import Scenery.Durable.Invariant

/-!
# The history of a job

The events that `JobEvents` reads back are a legal history of the job, and end where its row
stands.
-/

namespace Scenery.Durable

open List

/-- The query of `JobEvents`: the events of a job in the order of their `seq`. -/
def Db.jobEvents (db : Db) (id : String) : List JobEvent := db.events.filter fun e => e.jobId = id

/-- The lifecycle of a job: the events it can have had, with the state and the attempt they
leave it in. -/
inductive History (id : String) : List JobEvent → JobState → ℕ → Prop where
  | created : History id [⟨id, none, .created⟩] .queued 0
  | leased (h : History id es .queued n) :
    History id (es ++ [⟨id, some (n + 1), .leased⟩]) .running (n + 1)
  | ended (h : History id es .running n) (hend : (t, s) ∈ [(.leaseExpired, .queued),
      (.retryScheduled, .queued), (.succeeded, .succeeded), (.failed, .failed)]) :
    History id (es ++ [⟨id, some n, t⟩]) s n
  | canceled (h : History id es s n) (hs : s ∈ [.queued, .running, .failed]) :
    History id (es ++ [⟨id, some n, .canceled⟩]) .canceled n
  | retried (h : History id es s n) (hs : s ∈ [.failed, .canceled]) :
    History id (es ++ [⟨id, some n, .retryRequested⟩]) .queued n

variable {db db' : Db} {j : Job} {c : Change} {now : ℤ}

theorem Permitted.history (hp : Permitted now j c) (h : History j.id es j.state j.attempt) :
    History j.id (es ++ eventsOf [j] c.event) (c.update j).state (c.update j).attempt := by
  cases hp with
  | release | extend => simpa [eventsOf, Change.release, Change.extend] using h
  | recover hr =>
    rw [hr] at h
    refine h.ended ?_
    -- recovery queues the job again or fails it
    by_cases hl : Change.attemptsLeft j <;> simp [Change.recover, hl]
  | lease hq =>
    rw [hq] at h
    exact h.leased
  | finish hr | requeue hr | fail hr =>
    rw [hr] at h
    exact h.ended (by simp [Change.finish, Change.requeue, Change.fail])
  | cancel hc => exact h.canceled (by simpa [Db.cancelable, or_assoc] using hc)
  | retry hr => exact h.retried (by simpa [Db.retryable] using hr)

theorem jobEvents_apply {p : Job → Bool} (hj : j ∈ db.jobs) : (db.apply p c).jobEvents j.id =
    db.jobEvents j.id ++ eventsOf ([j].filter p) c.event := by
  have hrows : db.jobs.rows.filter (fun r => r.id = j.id) = [j] := by
    refine perm_singleton.mp ((perm_ext_iff_of_nodup (db.jobs.nodup.of_map.filter _)
      (nodup_singleton j)).mpr fun r => ?_)
    simp only [mem_filter, decide_eq_true_eq, mem_singleton]
    constructor
    · exact fun hr => Table.eq_of_key hr.1 hj hr.2
    · rintro rfl
      exact ⟨hj, rfl⟩
  have hevents (jobs : List Job) : (eventsOf jobs c.event).filter (fun e => e.jobId = j.id) =
      eventsOf (jobs.filter fun r => r.id = j.id) c.event := by
    rw [eventsOf, filter_filterMap, eventsOf, filterMap_filter]
    refine filterMap_congr fun r _ => ?_
    cases c.event r <;> simp [Option.filter]
  rw [Db.jobEvents, Db.apply_events, filter_append, hevents, filter_comm, hrows]
  rfl

/-- Each job's events are a history that ends in the state and the attempt of its row. -/
def Db.Historic (db : Db) : Prop :=
  ∀ j ∈ db.jobs, History j.id (db.jobEvents j.id) j.state j.attempt

theorem Db.Step.historic (hstep : Db.Step now db db') (hrec : db.Recorded) (h : db.Historic) :
    db'.Historic := by
  intro j hj
  cases hstep with
  | apply hperm =>
    rcases mem_apply_cases hj with ⟨j₀, hj₀, hp, rfl⟩ | ⟨hj, hp⟩
    · rw [Change.update_id, jobEvents_apply hj₀, filter_singleton, hp]
      exact (hperm j₀ hj₀ hp).history (h j₀ hj₀)
    · simpa [jobEvents_apply hj, hp, eventsOf] using h j hj
  | insert _ _ hins =>
    obtain ⟨task, -, -, hfree, -, rfl⟩ := insertJob_eq_ok hins
    rw [jobEvents, filter_append]
    rcases (Table.mem_insert hfree).mp hj with hj | rfl
    · rw [filter_singleton, decide_eq_false fun hid => hfree (mem_map.mpr ⟨j, hj, hid.symm⟩)]
      simpa [jobEvents] using h j hj
    · -- no event is left of an earlier job of this id
      rw [filter_eq_nil_iff.mpr fun e he hid => ?_]
      · simpa [newJob] using History.created
      · obtain ⟨r, hr, hre⟩ := hrec.known e he
        exact hfree (mem_map.mpr ⟨r, hr, hre.trans (of_decide_eq_true hid)⟩)
  | purge =>
    rw [jobEvents, purgeExpiredJobs, filter_filter]
    convert h j (Table.mem_delete.mp hj).1 using 1
    refine filter_congr fun e _ => ?_
    simpa using fun hid => ⟨j, hj, hid.symm⟩

/-- In every database that the calls reach, the events of a job end where its row stands. -/
theorem events_tell_state {declared : Task → Prop} {last : ℤ} (h : Reachable declared db last) :
    db.Historic := by
  induction h with
  | init => exact fun j hj => absurd hj (Table.not_mem_empty j)
  | @call _ _ now c h _ ih =>
    have hrun := Call.run_invariant (P := fun db => db.Recorded ∧ db.Historic)
      (fun _ _ (hstep : Db.Step now _ _) hall =>
        ⟨hstep.recorded hall.1, hstep.historic hall.1 hall.2⟩) c ⟨h.recorded, ih⟩
    exact hrun.2
  | declare _ hd _ ih =>
    intro j hj
    rw [Db.jobEvents, hd.2.1]
    exact ih j (hd.1 ▸ hj)

theorem events_tell_state_finished : Sample.finished.jobs.rows.map Job.state = [.succeeded] ∧
    Sample.finished.Historic :=
  ⟨by decide +kernel, events_tell_state (@Sample.reachable_finished (fun _ => True) trivial)⟩

end Scenery.Durable
