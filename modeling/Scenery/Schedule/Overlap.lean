import Mathlib.Data.List.Basic
import Scenery.Runs
import Scenery.Text

/-!
# Overlap policies of schedules

`runCronJobLoop` of `runtime/cron.go` as a transition system over ticks, completions and
cancellation.
-/

namespace Scenery.Schedule

inductive Overlap where
  | allowAll | cancelOther | bufferAll | bufferOne | skip
  deriving DecidableEq

def overlapOf (policy : String) : Overlap :=
  if policy = "allow_all" then .allowAll
  else if policy = "cancel_other" ∨ policy = "terminate_other" then .cancelOther
  else if policy = "buffer_all" then .bufferAll
  else if policy = "buffer_one" then .bufferOne
  else .skip

def normalPolicy (lower : Char → Char) (policy : String) : String :=
  trimSpace (.ofList (policy.toList.map lower))

def validOverlapPolicy (lower : Char → Char) (policy : String) : Bool :=
  normalPolicy lower policy ∈ ["", "skip", "buffer_one", "buffer_all", "cancel_other",
    "terminate_other", "allow_all"]

structure Invocation where
  id : ℕ
  cancelled : Bool
  deriving DecidableEq

structure Departure where
  tick : ℤ
  readAt : Option ℤ
  started : Bool
  deriving DecidableEq

structure Loop where
  running : List Invocation
  queued : List ℤ
  count : ℕ
  stopped : Bool
  ticks : List ℤ
  left : List Departure
  deriving DecidableEq

inductive Event where
  | tick (scheduledAt : ℤ)
  | completion (id : ℕ) (now : ℕ → ℤ)
  | cancellation

namespace Loop

def initial : Loop := ⟨[], [], 0, false, [], []⟩

/-- `start`; `rand.Read` does not fail, so that an execution id is always allocated. -/
def start (s : Loop) (tick : ℤ) (readAt : Option ℤ) : Loop :=
  { s with running := s.running ++ [⟨s.count, false⟩], count := s.count + 1
           left := s.left ++ [⟨tick, readAt, true⟩] }

def stopRunning (s : Loop) : Loop :=
  { s with running := s.running.map fun i => { i with cancelled := true } }

def expired (window : ℤ) (tick now : ℤ) : Bool := 0 < window && now - tick > window

def drain (window : ℤ) (now : ℕ → ℤ) (s : Loop) : List ℤ → Loop
  | [] => { s with queued := [] }
  | tick :: rest =>
    if expired window tick (now 0) then
      drain window (fun k => now (k + 1)) { s with left := s.left ++ [⟨tick, now 0, false⟩] } rest
    else start { s with queued := rest } tick (now 0)

def onTick (overlap : Overlap) (s : Loop) (tick : ℤ) : Loop :=
  match overlap with
  | .allowAll => s.start tick none
  | .cancelOther => { s.stopRunning with queued := [] }.start tick none
  | .bufferAll =>
    if s.running = [] then s.start tick none else { s with queued := s.queued ++ [tick] }
  | .bufferOne =>
    if s.running = [] then s.start tick none
    else if s.queued = [] then { s with queued := [tick] } else s
  | .skip => if s.running = [] then s.start tick none else s

def onCompletion (window : ℤ) (s : Loop) (id : ℕ) (now : ℕ → ℤ) : Loop :=
  let s := { s with running := s.running.filter (·.id ≠ id) }
  if s.running = [] ∧ s.queued ≠ [] then drain window now s s.queued else s

def step (overlap : Overlap) (window : ℤ) (s : Loop) : Event → Option Loop
  | .tick tick =>
    if s.stopped then none else some { s.onTick overlap tick with ticks := s.ticks ++ [tick] }
  | .completion id now =>
    if s.stopped ∨ ∀ i ∈ s.running, i.id ≠ id then none else some (s.onCompletion window id now)
  | .cancellation => if s.stopped then none else some { s.stopRunning with stopped := true }

end Loop

open Loop

/-- What each overlap policy promises. -/
structure Kept (overlap : Overlap) (window : ℤ) (s : Loop) : Prop where
  single : overlap ≠ .allowAll → overlap ≠ .cancelOther → s.running.length ≤ 1
  waiting : overlap ≠ .allowAll → overlap ≠ .cancelOther → s.queued ≠ [] → s.running ≠ []
  one : overlap = .bufferOne → s.queued.length ≤ 1
  order : overlap = .bufferAll → s.left.map (·.tick) ++ s.queued = s.ticks
  judged : ∀ d ∈ s.left, d.started = !d.readAt.any (expired window d.tick)
  every : overlap = .allowAll ∨ overlap = .cancelOther →
    s.left = s.ticks.map (⟨·, none, true⟩) ∧ s.queued = []
  others : overlap = .cancelOther → ∀ i ∈ s.running, i.id + 1 ≠ s.count → i.cancelled = true

structure Drained (window : ℤ) (s : Loop) (queue : List ℤ) (t : Loop) : Prop where
  single : t.running.length ≤ 1
  waiting : t.queued ≠ [] → t.running ≠ []
  shorter : t.queued.length ≤ queue.length - 1
  order : t.left.map (·.tick) ++ t.queued = s.left.map (·.tick) ++ queue
  ticks : t.ticks = s.ticks
  judged : ∀ d ∈ t.left, d.started = !d.readAt.any (expired window d.tick)

variable {overlap : Overlap} {window : ℤ} {s s' : Loop}

theorem drained_drain (now : ℕ → ℤ) (queue : List ℤ) (hs : s.running = [])
    (hjudged : ∀ d ∈ s.left, d.started = !d.readAt.any (expired window d.tick)) :
    Drained window s queue (drain window now s queue) := by
  induction queue generalizing now s with
  | nil =>
    exact ⟨by simp [drain, hs], by simp [drain], by simp [drain], by simp [drain], rfl, hjudged⟩
  | cons tick rest ih =>
    rw [drain]
    split
    · next hold =>
      have ih := ih (s := { s with left := s.left ++ [⟨tick, now 0, false⟩] })
        (fun k => now (k + 1)) hs (by grind)
      exact ⟨ih.single, ih.waiting, by grind [ih.shorter], by simpa using ih.order, ih.ticks,
        ih.judged⟩
    · next hnew => constructor <;> (simp [start, hs]; try grind)

theorem Kept.onTick (h : Kept overlap window s) (tick : ℤ) :
    Kept overlap window { s.onTick overlap tick with ticks := s.ticks ++ [tick] } := by
  obtain ⟨single, waiting, one, order, judged, every, others⟩ := h
  -- each branch of the switch against each part of the invariant
  cases overlap <;> constructor <;> grind [Loop.onTick, start, stopRunning]

theorem Kept.onCompletion (h : Kept overlap window s) (id : ℕ) (now : ℕ → ℤ) :
    Kept overlap window (s.onCompletion window id now) := by
  have hlength := s.running.length_filter_le (·.id ≠ id)
  rw [Loop.onCompletion]
  split
  · next hidle =>
    -- something waits, so that the policy is not one that starts every tick
    have hover : ¬ (overlap = .allowAll ∨ overlap = .cancelOther) := fun ho =>
      hidle.2 (h.every ho).2
    have hd := drained_drain now s.queued hidle.1 h.judged
    refine ⟨fun _ _ => hd.single, fun _ _ => hd.waiting, fun ho => ?_, fun ho => ?_, hd.judged,
      fun ho => absurd ho hover, fun ho => absurd (.inr ho) hover⟩
    · exact hd.shorter.trans ((Nat.sub_le _ _).trans (h.one ho))
    · rw [hd.order, hd.ticks]
      exact h.order ho
  · next hidle =>
    rw [not_and, not_not] at hidle
    exact ⟨fun ha hc => hlength.trans (h.single ha hc), fun _ _ hq hr => hq (hidle hr), h.one,
      h.order, h.judged, h.every, fun ho i hi => h.others ho i (List.mem_of_mem_filter hi)⟩

theorem Kept.step (h : Kept overlap window s) {e : Event}
    (hs : step overlap window s e = some s') : Kept overlap window s' := by
  cases e with
  | tick tick =>
    obtain ⟨-, ⟨⟩⟩ := Option.ite_none_left_eq_some.mp hs
    exact h.onTick tick
  | completion id now =>
    obtain ⟨-, ⟨⟩⟩ := Option.ite_none_left_eq_some.mp hs
    exact h.onCompletion id now
  | cancellation =>
    obtain ⟨-, ⟨⟩⟩ := Option.ite_none_left_eq_some.mp hs
    refine ⟨?_, ?_, h.one, h.order, h.judged, h.every, ?_⟩
    · simpa [stopRunning] using h.single
    · simpa [stopRunning] using h.waiting
    · simp [stopRunning]

theorem Kept.of_run (h : Run (Loop.step overlap window) (fun _ _ => True) .initial s) :
    Kept overlap window s :=
  h.invariant (by constructor <;> simp [initial]) fun _ _ _ hk _ => hk.step

def Event.isCompletion : Event → Bool
  | .completion _ _ => true
  | _ => false

/-- Under `buffer_all` no tick gets lost, and a completion takes one out of the queue. -/
theorem left_step (h : Kept .bufferAll window s) {e : Event}
    (hs : step .bufferAll window s e = some s') :
    s.left.length + s.queued.length ≤ s'.left.length + s'.queued.length ∧
      s.left.length + (if e.isCompletion ∧ s.queued ≠ [] then 1 else 0) ≤ s'.left.length := by
  cases e with
  | tick tick =>
    obtain ⟨-, ⟨⟩⟩ := Option.ite_none_left_eq_some.mp hs
    by_cases hr : s.running = [] <;> simp [onTick, hr, start, Event.isCompletion]
  | completion id now =>
    obtain ⟨henabled, ⟨⟩⟩ := Option.ite_none_left_eq_some.mp hs
    -- the only invocation completes
    have hidle : s.running.filter (·.id ≠ id) = [] := by
      have := h.single (by decide) (by decide)
      rcases hrun : s.running with _ | ⟨i, _ | _⟩ <;> simp_all
    rw [Loop.onCompletion]
    split
    · next hq =>
      have hd := drained_drain now s.queued hq.1 h.judged
      have horder := congrArg List.length hd.order
      have hshorter := hd.shorter
      have hpos := List.length_pos_iff.mpr hq.2
      grind
    · next hq => simp_all
  | cancellation =>
    obtain ⟨-, ⟨⟩⟩ := Option.ite_none_left_eq_some.mp hs
    simp [stopRunning, Event.isCompletion]

theorem left_runAll (h : Kept .bufferAll window s) {es : List Event}
    (hs : runAll (step .bufferAll window) (fun _ _ => True) s es = some s') :
    s.left.length + min (es.countP Event.isCompletion) s.queued.length ≤ s'.left.length := by
  induction es generalizing s with
  | nil =>
    cases hs
    simp
  | cons e es ih =>
    obtain ⟨t, ht, hrest⟩ := Option.bind_eq_some_iff.mp hs
    have hle := ih (h.step ht) hrest
    obtain ⟨htotal, hleft⟩ := left_step h ht
    by_cases hq : s.queued = []
    · simp only [hq, List.length_nil] at htotal hleft ⊢
      omega
    · split at hleft <;> grind

/-- A policy is kept as it is meant, whatever the order of ticks, completions and cancellation,
if the loop takes its text for what it means; under `buffer_all` every tick that waits is
started or dropped after as many completions as ticks wait. -/
theorem runCronJobLoop_keeps (lower : Char → Char) (policy : String) (window : ℤ) (s : Loop)
    (hpolicy : overlapOf policy = overlapOf (normalPolicy lower policy))
    (hrun : Run (step (overlapOf policy) window) (fun _ _ => True) .initial s) :
    Kept (overlapOf (normalPolicy lower policy)) window s ∧
      (overlapOf (normalPolicy lower policy) = .bufferAll → ∀ es s',
        runAll (step (overlapOf policy) window) (fun _ _ => True) s es = some s' →
        s.queued.length ≤ es.countP Event.isCompletion →
        s.left.length + s.queued.length ≤ s'.left.length) := by
  rw [← hpolicy]
  have hkept := Kept.of_run hrun
  refine ⟨hkept, fun hall es s' hs hcount => ?_⟩
  rw [hall] at hkept hs
  have hle := left_runAll hkept hs
  rwa [min_eq_right hcount] at hle

theorem runCronJobLoop_keeps_bufferAll :
    Kept .bufferAll 0 ⟨[⟨0, false⟩], [60], 1, false, [0, 60], [⟨0, none, true⟩]⟩ :=
  (runCronJobLoop_keeps Char.toLower "buffer_all" 0 _ (by decide +kernel)
    (.of_runAll (by decide +kernel : runAll _ _ _ [.tick 0, .tick 60] = _))).1

/-- The text is accepted and means `buffer_all`, but the second tick is skipped. -/
theorem runCronJobLoop_skips :
    validOverlapPolicy Char.toLower " Buffer_All" = true ∧
      overlapOf (normalPolicy Char.toLower " Buffer_All") = .bufferAll ∧
      ∃ s, Run (step (overlapOf " Buffer_All") 0) (fun _ _ => True) .initial s ∧
        ¬ Kept .bufferAll 0 s := by
  refine ⟨by decide +kernel, by decide +kernel,
    ⟨[⟨0, false⟩], [], 1, false, [0, 60], [⟨0, none, true⟩]⟩,
    .of_runAll (by decide +kernel : runAll _ _ _ [.tick 0, .tick 60] = _), fun h => ?_⟩
  have := h.order rfl
  simp at this

end Scenery.Schedule
