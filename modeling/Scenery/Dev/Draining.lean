import Scenery.Dev.Routing
import Scenery.Host.Scopes

/-!
# Requests keep their generation

Whatever is lost or delayed between the supervisor and the host, a generation is retired only
when no request runs on it, and the newest one never is.
-/

namespace Scenery.Dev

open Scenery.Host List

/-- A host without assistant runs. -/
def scope (gens : List Generation) (requests : List ℕ) : Scope :=
  { Scope.empty with generations := gens, requests := requests }

structure Drained (gens : List Generation) (requests : List ℕ) : Prop where
  counted : Counted (scope gens requests)
  live : ∀ n ∈ current gens :: requests, Live n gens

variable {cfg : HostConfig} {gens gens' : List Generation} {requests : List ℕ} {number : ℕ}
  {m : Manifest}

theorem Drained.publish (h : Drained gens requests)
    (hp : publish cfg m gens = .ok gens') : Drained gens' requests := by
  refine ⟨h.counted.publish hp, forall_mem_cons.mpr ⟨?_, fun n hn => ?_⟩⟩
  · obtain ⟨-, -, rfl⟩ := publish_eq_ok hp
    exact ⟨_, mem_cons_self, rfl, rfl⟩
  · have hlive := h.live n (mem_cons_of_mem _ hn)
    exact (live_publish h.counted.descending hp hlive.mem).mpr hlive

theorem Drained.remove (h : Drained gens requests)
    (hr : removeGeneration number false gens = .ok gens') : Drained gens' requests := by
  have hmove : Move ⟨"", []⟩ (fun _ => True) (scope gens requests) _ := .remove hr
  refine ⟨(h.counted.move hmove).congr rfl rfl rfl, fun n hn => (live_remove hr).mpr ?_⟩
  rw [show current gens' = current gens by simp [current, ← head?_map, numbers_remove hr]] at hn
  refine ⟨?_, h.live n hn⟩
  rintro rfl
  unfold removeGeneration at hr
  split at hr
  · cases hr
  rename_i old hold
  split_ifs at hr with hcurrent hbusy
  have hcount := h.counted.inFlight old (mem_of_find?_eq_some hold)
  have hfound := find?_some hold
  -- the removed generation is not the newest and counts no request
  rcases mem_cons.mp hn with rfl | hn
  · cases gens <;> simp [current, Host.lookup] at hcurrent hold
  · have hpos := count_pos_iff.mpr hn
    simp_all [Scope.holders, scope, Scope.empty, Table.empty]

theorem Drained.adjust {after : List ℕ} {d : ℤ} (h : Drained gens requests)
    (hc : Counted (scope (addInFlight number d gens) after)) (ha : ∀ n ∈ after, Live n gens) :
    Drained (addInFlight number d gens) after := by
  refine ⟨hc, forall_mem_cons.mpr ⟨?_, fun n hn => live_addInFlight.mpr (ha n hn)⟩⟩
  rw [show current (addInFlight number d gens) = current gens by simp [current, ← head?_map]]
  exact live_addInFlight.mpr (h.live _ mem_cons_self)

variable {s s₀ s' : State}

theorem drained_step {e : Event} (h : Drained s.generations s.requests)
    (hs : step cfg s e = some s') : Drained s'.generations s'.requests := by
  cases e with
  | acquire number =>
    simp only [Dev.step] at hs
    split at hs <;> cases hs
    · exact h
    rename_i g hg
    have hmove : Move cfg (fun _ => True) (scope _ s.requests) _ := .hold (mem_of_target hg)
    refine h.adjust (h.counted.move hmove) (forall_mem_cons.mpr
      ⟨?_, (forall_mem_cons.mp h.live).2⟩)
    unfold target at hg
    split_ifs at hg
    · simpa [current, hg] using h.live _ mem_cons_self
    · have hfound := find?_some hg
      exact ⟨g, mem_of_find?_eq_some hg, rfl, by simp_all⟩
  | release g =>
    simp only [Dev.step] at hs
    split_ifs at hs with hg
    cases hs
    have hmove : Move cfg (fun _ => True) (scope s.generations _) _ := .complete hg
    exact h.adjust (h.counted.move hmove) fun n hn =>
      h.live n (mem_cons_of_mem _ (mem_of_mem_erase hn))
  | _ =>
    simp only [Dev.step, State.replace, State.startFailed, State.reconcile, State.status,
      State.settle, State.retire, State.deliver, State.answer, State.deliverDelete,
      State.hear] at hs
    repeat' split at hs
    all_goals cases hs
    -- of the other steps a publication and a removal change what the host has
    all_goals first | exact h | exact h.publish ‹_› | exact h.remove ‹_›

/-- A request is in flight at the instance. -/
def Serves (s : State) (x : Instance) : Prop :=
  ∃ g ∈ s.generations, g.number ∈ s.requests ∧ ∃ entry ∈ g.instances, entry.2.address = x.socket

section Runs

variable (h₀ : s₀.generations = [m.publication]) (hr : s₀.requests = [])
include h₀ hr

theorem drained_run {ok : State → Event → Prop} (hrun : Run (step cfg) ok s₀ s) :
    Drained s.generations s.requests := by
  refine hrun.invariant (P := fun s => Drained s.generations s.requests) ?_
    fun _ _ _ h _ => drained_step h
  rw [h₀, hr]
  refine ⟨⟨pairwise_singleton _ _, ?_, ?_, ?_⟩, ?_⟩ <;> simp [scope, Scope.holders, Scope.empty,
    Table.empty, Table.mem_def, Manifest.publication, current, Live]

/-- In every run a request that was let in runs on a generation the host still has, and the
newest generation is there for the next one. -/
theorem requests_keep_generation (hrun : Run (step cfg) (fun _ _ => True) s₀ s) :
    ∀ n ∈ current s.generations :: s.requests, Live n s.generations :=
  (drained_run h₀ hr hrun).live

/-- In an orderly run no request is in flight at an instance that has been stopped. -/
theorem stopped_serves_no_request (hs : Serving s₀) (hrun : Run (step cfg) Orderly s₀ s)
    (hx : x ∈ s.stopped) : ¬ Serves s x := by
  rintro ⟨g, hg, hn, entry⟩
  have hinv : Inv s := hrun.invariant hs.inv fun _ _ _ h => h.step
  obtain ⟨g', hg', hnumber, hret⟩ := (drained_run h₀ hr hrun).live _ (mem_cons_of_mem _ hn)
  have hnodup := hinv.numbered.descending.imp fun h => ne_of_gt h
  obtain rfl := inj_on_of_nodup_map hnodup hg' hg hnumber
  exact hinv.not_routes hx ⟨g', hg', hret, entry⟩

end Runs

theorem requests_keep_generation_replaced : ∃ s, Run (step Sample.host) (fun _ _ => True)
    Sample.serving s ∧ s.requests = [1] ∧ current s.generations = 2 ∧ Live 1 s.generations :=
  Run.exists_of_decide (P := fun s => s.requests = [1] ∧ current s.generations = 2)
    (.acquire 0 :: Sample.replaced.take 5) (by decide +kernel) fun _ hrun hs => ⟨hs.1, hs.2,
      requests_keep_generation (m := ⟨1, "", Sample.target, _, []⟩) rfl rfl hrun 1 (by simp [hs])⟩

theorem stopped_serves_no_request_replaced : ∃ s, Run (step Sample.host) Orderly Sample.serving s ∧
    s.requests = [2] ∧ ∃ x ∈ s.stopped, ¬ Serves s x :=
  Run.exists_of_decide (P := fun s => s.requests = [2] ∧ Sample.api "v1" "a.sock" ∈ s.stopped)
    (Sample.replaced ++ [.acquire 0]) (by decide +kernel) fun _ hrun hs => ⟨hs.1, _, hs.2,
      stopped_serves_no_request (m := ⟨1, "", Sample.target, _, []⟩) rfl rfl
        Sample.serving_serving hrun hs.2⟩

end Scenery.Dev
