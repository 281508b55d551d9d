import Scenery.Storage.RestoreRuns

/-!
# Completing a restore

From every state that is reached, calls without failures complete the restore and remove its
record: a call in progress is finished, otherwise the `Restore` is closed and begun anew.
-/

namespace Scenery.Storage

variable {a : Args} {g₀ : ID} {s s' s₀ : State}

/-! ## Runs without failures -/

def Event.Clean : Event → Prop
  | .crash => False
  | .advance outcome => outcome = .ok
  | .complete callback => callback = true
  | _ => True

def Unfailing (s : State) (e : Event) : Prop := Settled s e ∧ e.Clean

theorem Inv.run (hinv : Inv a g₀ s) (hrun : Run (Storage.step a) Unfailing s s') : Inv a g₀ s' :=
  hrun.invariant hinv fun _ _ _ h hok => h.step hok.1

theorem run_one {e : Event} (h : step a s e = some s') (hsettled : Settled s e)
    (hclean : e.Clean) : Run (step a) Unfailing s s' :=
  .snoc .refl ⟨hsettled, hclean⟩ h

def Finished (s : State) : Prop :=
  s.disk.operation = none ∧ ∃ owner, s.process = some ⟨⟨none, owner⟩, .idle⟩

def Finishes (a : Args) (s : State) : Prop := ∃ s', Run (step a) Unfailing s s' ∧ Finished s'

theorem Finishes.after (hrun : Run (step a) Unfailing s s') (h : Finishes a s') : Finishes a s := by
  obtain ⟨s'', hrest, hfinished⟩ := h
  exact ⟨s'', hrun.trans hrest, hfinished⟩

def StageStep.rank : StageStep → ℕ
  | .writePreparing _ => 13
  | .mkdirGenerations => 12
  | .syncRoot => 11
  | .removeAll => 10
  | .syncGenerations => 9
  | .mkdirBase => 8
  | .syncBase => 7
  | .mkdirRefs => 6
  | .mkdirVersions => 5
  | .mkdirStaging => 4
  | .writeGeneration => 3
  | .populate => 2
  | .syncStaged => 1
  | .writeStaged => 0

theorem StageStep.rank_next {step next : StageStep} (h : step.next = .stage next) :
    next.rank < step.rank := by
  cases step <;> first | (cases h; simp [rank]) | cases h

def CompleteStep.rank : CompleteStep → ℕ
  | .database => 5
  | .writeDatabase => 4
  | .writeOwner => 3
  | .writeSwitched => 2
  | .remove => 1
  | .syncRemoved => 0

section

variable (hinv : Inv a g₀ s)
include hinv

theorem Inv.complete_finishes {step : CompleteStep} {r : Restore}
    (hprocess : s.process = some ⟨r, .complete step⟩) : Finishes a s := by
  -- by the number of steps that are left
  induction hn : step.rank using Nat.strongRecOn generalizing s step r with
  | ind n ih =>
  subst hn
  cases hinv.held _ hprocess with
  | @completing op owner step hours hphase hcomplete hreached =>
  have hstep : Storage.step a s (.advance .ok) = some { s with
      disk := step.effect op ⟨some op, owner⟩ s.disk
      process := some (step.next op ⟨some op, owner⟩)
      callbacks := record s ⟨some op, owner⟩ step .ok } := by
    simp [Storage.step, hprocess, Storage.completeAdvance]
  have hrun := run_one hstep trivial rfl
  have hinv' := hinv.run hrun
  cases step with
  | syncRemoved => exact ⟨_, hrun, hreached.2.2.2, owner, rfl⟩
  | database | writeDatabase | writeOwner | writeSwitched | remove =>
    exact .after hrun (ih _ (by decide) hinv' rfl rfl)

theorem Inv.complete_called {op : Operation} (hphase : op.phase ≠ .preparing)
    (hprocess : s.process = some ⟨⟨some op, s.disk.owner⟩, .idle⟩) :
    Finishes a s := by
  have hcall : ∃ r' first, completeCall ⟨some op, s.disk.owner⟩ true = some (r', first) := by
    unfold completeCall
    dsimp only
    rw [if_neg hphase]
    split
    · split
      · exact ⟨_, _, rfl⟩
      · exact ⟨_, _, rfl⟩
    · exact ⟨_, _, rfl⟩
  obtain ⟨r', first, hcall⟩ := hcall
  have hstep : Storage.step a s (.complete true) = some { s with
      process := some ⟨r', .complete first⟩ } := by
    simp [Storage.step, hprocess, hcall]
  have hsettled : Settled s (.complete true) := by
    intro process hmem op' _ _
    obtain rfl := Option.some.inj (hprocess.symm.trans hmem)
    rfl
  have hrun := run_one hstep hsettled rfl
  exact .after hrun ((hinv.run hrun).complete_finishes rfl)

theorem Inv.stage_finishes {step : StageStep} {r : Restore}
    (hprocess : s.process = some ⟨r, .stage step⟩) : Finishes a s := by
  induction hn : step.rank using Nat.strongRecOn generalizing s step r with
  | ind n ih =>
  subst hn
  cases hinv.held _ hprocess with
  | @new op hours hun hphase hop =>
    have hstep : Storage.step a s (.advance .ok) = some { s with
        disk := { s.disk with operation := some op }
        process := some ⟨⟨some op, s.disk.owner⟩, .stage .mkdirGenerations⟩ } := by
      simp only [Storage.step, hprocess]
      rfl
    have hrun := run_one hstep trivial rfl
    exact .after hrun (ih _ (StageStep.rank_next rfl) (hinv.run hrun) rfl rfl)
  | @staging op step hours hun hphase hop hreached =>
    by_cases hlast : step = .writeStaged
    · subst hlast
      have hstep : Storage.step a s (.advance .ok) = some { s with
          disk := { s.disk with operation := some { op with phase := .staged } }
          process := some ⟨⟨some { op with phase := .staged }, s.disk.owner⟩, .idle⟩ } := by
        simp only [Storage.step, hprocess]
        rfl
      have hrun := run_one hstep trivial rfl
      exact .after hrun ((hinv.run hrun).complete_called (by simp) rfl)
    · obtain ⟨d', next, heffect, hnext, -⟩ := StageStep.effect_reached hun hreached hlast
      have hcurrent : step.current ⟨some op, s.disk.owner⟩ = some op := by
        cases step with
        | writePreparing op' => exact hreached.elim
        | _ => rfl
      have hstep : Storage.step a s (.advance .ok) = some { s with
          disk := d'
          process := some ⟨step.remember ⟨some op, s.disk.owner⟩, .stage next⟩ } := by
        simp [Storage.step, hprocess, Storage.stageAdvance, hcurrent, heffect, hnext]
      have hrun := run_one hstep trivial rfl
      exact .after hrun (ih _ (StageStep.rank_next hnext) (hinv.run hrun) rfl rfl)

theorem Inv.stage_called
    (hphase : ∀ op, s.disk.operation = some op → op.phase = .preparing)
    (hprocess : s.process = some ⟨⟨s.disk.operation, s.disk.owner⟩, .idle⟩) :
    Finishes a s := by
  obtain ⟨generation, hgen, hfree⟩ :=
    Dictionary.exists_fresh s.disk.generations s.disk.owner.generation
  have hcall : ∃ first, stageCall a s.disk ⟨s.disk.operation, s.disk.owner⟩ generation
      (s.disk.owner.incarnation + 1) = some first := by
    unfold stageCall
    cases hop : s.disk.operation with
    | none =>
      rw [if_neg fun hretired => hretired.2 (hinv.disk.empty hretired.1 hop)]
      exact ⟨_, rfl⟩
    | some op =>
      dsimp only
      rw [if_neg (not_not.mpr (hphase op hop))]
      exact ⟨_, rfl⟩
  obtain ⟨first, hcall⟩ := hcall
  have hfresh : ¬ ((s.disk.generations.get generation).isSome = true ∨
      generation = s.disk.owner.generation ∨
      s.disk.owner.incarnation + 1 = s.disk.owner.incarnation) := by
    simp only [hfree]
    rintro (h | h | h)
    · cases h
    · exact absurd h (Nat.ne_of_gt hgen)
    · exact absurd h (Nat.succ_ne_self _)
  have hstep : Storage.step a s (.stage generation (s.disk.owner.incarnation + 1)) = some { s with
      process := some ⟨⟨s.disk.operation, s.disk.owner⟩, .stage first⟩ } := by
    simp only [Storage.step, hprocess]
    rw [if_neg hfresh, hcall]
    rfl
  have hsettled : Settled s (.stage generation (s.disk.owner.incarnation + 1)) := by
    intro process hmem op hop _
    obtain rfl := Option.some.inj (hprocess.symm.trans hmem)
    exact hop
  have hrun := run_one hstep hsettled trivial
  exact .after hrun ((hinv.run hrun).stage_finishes rfl)

theorem Inv.begin_finishes (hprocess : s.process = none) :
    Finishes a s := by
  have hopen : Storage.step a s .reopen = some { s with handle := s.disk.owner.incarnation } := by
    simp [Storage.step, hprocess]
  have hbegin : Storage.step a { s with handle := s.disk.owner.incarnation } .beginRestore =
      some { s with
        handle := s.disk.owner.incarnation
        process := some ⟨⟨s.disk.operation, s.disk.owner⟩, .idle⟩ } := by
    simp [Storage.step, hprocess, hinv.disk.beginRestore]
  have hrun := (run_one hopen trivial trivial).trans (run_one hbegin trivial trivial)
  have hinv' := hinv.run hrun
  by_cases hphase : ∀ op, s.disk.operation = some op → op.phase = .preparing
  · exact .after hrun (hinv'.stage_called hphase rfl)
  · simp only [not_forall] at hphase
    obtain ⟨op, hop, hnot⟩ := hphase
    exact .after hrun (hinv'.complete_called hnot (by rw [hop]))

theorem Inv.finishes :
    Finishes a s := by
  cases hprocess : s.process with
  | none => exact hinv.begin_finishes hprocess
  | some process =>
    obtain ⟨r, pc⟩ := process
    cases pc with
    | stage step => exact hinv.stage_finishes hprocess
    | complete step => exact hinv.complete_finishes hprocess
    | idle =>
      have hclose : Storage.step a s .close = some { s with process := none } := by
        simp [Storage.step, hprocess]
      have hrun := run_one hclose trivial trivial
      exact .after hrun ((hinv.run hrun).begin_finishes rfl)

end

/-! ## What a restore guarantees -/

structure Initial (a : Args) (s : State) : Prop where
  args : a.Valid
  owner : (s.disk.owner.state = .ready ∧ s.disk.Has s.disk.owner.incarnation s.disk.owner.generation)
    ∨ (s.disk.owner.state = .retired ∧ a.managed = true ∧ a.mode = .overwrite ∧
      s.disk.generations = [])
  operation : s.disk.operation = none
  process : s.process = none
  callbacks : s.callbacks = []

theorem Initial.inv (h : Initial a s) : Inv a s.disk.owner.generation s where
  disk := by
    refine ⟨h.args, ?_, ?_, ?_, ?_, .inl rfl, fun op hop => ?_⟩
    · intro hready
      rcases h.owner with ⟨-, hhas⟩ | ⟨hretired, -⟩
      · exact hhas
      · exact absurd (hready.symm.trans hretired) (by decide)
    · rcases h.owner with ⟨hstate, -⟩ | ⟨hstate, -⟩
      · simp [hstate]
      · simp [hstate]
    · intro hretired
      rcases h.owner with ⟨hready, -⟩ | ⟨-, hmanaged, hmode, -⟩
      · exact absurd (hready.symm.trans hretired) (by decide)
      · exact ⟨hmanaged, hmode⟩
    · intro hretired _
      rcases h.owner with ⟨hready, -⟩ | ⟨-, -, -, hempty⟩
      · exact absurd (hready.symm.trans hretired) (by decide)
      · exact hempty
    · exact absurd (h.operation.symm.trans hop) (by simp)
  held _ hsome := absurd (h.process.symm.trans hsome) (by simp)
  notAfter := by simp [h.callbacks]
  restored _ hne := absurd rfl hne

/-- In every run of settled calls, with any failures and crashes: the active generation is the old
one or complete; the database callback was never run when the generation it belongs to was active,
and has succeeded for an active generation that is not the old one; and the restore can be
completed. -/
theorem restore_activates_complete (hinit : Initial a s₀) (hrun : Run (step a) Settled s₀ s) :
    (s.disk.owner.generation = s₀.disk.owner.generation ∨
      s.disk.Complete s.disk.owner.incarnation s.disk.owner.generation) ∧
    (∀ callback ∈ s.callbacks, callback.active ≠ callback.staged) ∧
    (a.database = true → s.disk.owner.generation ≠ s₀.disk.owner.generation →
      ∃ callback ∈ s.callbacks, callback.staged = s.disk.owner.generation ∧ callback.ok = true) ∧
    ∃ s', Run (step a) Unfailing s s' ∧ Finished s' := by
  have hinv : Inv a s₀.disk.owner.generation s :=
    hrun.invariant hinit.inv fun _ _ _ h => h.step
  exact ⟨hinv.disk.active, hinv.notAfter, hinv.restored, hinv.finishes⟩

namespace Sample

def args (database : Bool) : Args :=
  ⟨String.ofList (List.replicate 64 'a'), database, .overwrite, .fail, true⟩

def namespaceReady : State :=
  ⟨⟨⟨1, 2, .ready⟩, none, true, [(2, ⟨true, true, true, some (1, 2), true⟩)]⟩, 1, none, []⟩

def advances (n : ℕ) : List Event := List.replicate n (.advance .ok)

def resumed : List Event :=
  [.beginRestore, .stage 7 9] ++ advances 13 ++ [.advance (.after none), .close, .beginRestore,
    .complete true] ++ advances 6

def restaged : List Event :=
  [.beginRestore, .stage 7 9] ++ advances 13 ++ [.advance (.after none), .stage 8 9]

def incomplete : List Event :=
  restaged ++ advances 10 ++ [.advance .before, .close, .beginRestore, .complete false] ++ advances 4

def replayed : List Event :=
  [.beginRestore, .stage 7 9] ++ advances 14 ++ [.complete true] ++ advances 2 ++
    [.advance (.after none), .complete true, .advance .ok]

end Sample

theorem restore_activates_complete_resumed :
    ∃ s, Run (step (Sample.args true)) Settled Sample.namespaceReady s ∧
      s.disk.owner.generation = 7 ∧ s.disk.Complete s.disk.owner.incarnation 7 := by
  have hinit : Initial (Sample.args true) Sample.namespaceReady := by
    refine ⟨⟨by decide +kernel, fun _ => rfl, fun _ => rfl⟩, .inl ⟨rfl, rfl, ?_⟩, rfl, rfl, rfl⟩
    exact ⟨_, rfl, rfl, rfl, rfl, rfl⟩
  refine Run.exists_of_decide (P := fun s => s.disk.owner.generation = 7) Sample.resumed
    (by decide +kernel) fun s hrun hactive => ⟨hactive, ?_⟩
  have hsafe := restore_activates_complete hinit hrun
  rw [hactive] at hsafe
  exact hsafe.1.resolve_left (by decide)

/-- Without the condition an incomplete generation is activated, and the database callback is run
when its generation is active. -/
theorem restore_activates_incomplete :
    (∃ s, Run (step (Sample.args false)) (fun _ _ => True) Sample.namespaceReady s ∧
      s.disk.owner.generation = 7 ∧
      (s.disk.generations.get 7).map Content.filled = some false) ∧
    ∃ s, Run (step (Sample.args true)) (fun _ _ => True) Sample.namespaceReady s ∧
      ∃ callback ∈ s.callbacks, callback.active = callback.staged :=
  ⟨Run.exists_decide Sample.incomplete (by decide +kernel),
    Run.exists_decide Sample.replayed (by decide +kernel)⟩

end Scenery.Storage
