import Scenery.Deploy.ApplyLock

/-!
# A dead process and the lock of deployment applies

A call that finds the lock of a dead process and is alone removes it and takes it, if the lock has
a complete record.
-/

namespace Scenery.Deploy.ApplyLock

variable {ι : Type} [DecidableEq ι]

def Phase.proceed : Phase ι → Option Action
  | .idle => none
  | .looking _ => some .lstat
  | .creating _ => some .create
  | .reading _ => some .read
  | .checking _ _ _ => some .verify
  | .removing _ _ _ => some .stat
  | .unlinking _ _ _ => some .unlink
  | .syncingDir _ => some .syncDir
  | .writing _ => some .write
  | .syncing _ => some .sync
  | .holding _ => none
  | .releasing _ => none

def alone (i : ι) : ℕ → State ι → State ι
  | 0, s => s
  | k + 1, s => (((s.phase i).proceed.bind (act s i)).map (alone i k)).getD s

/-- A call of the process gets past `acquireDeploymentApplyLock`, when no other process runs. -/
def State.Passes (s : State ι) (i : ι) : Prop :=
  ∃ k n, (alone i k (s.goto i (.looking 3))).phase i = .holding n

def Phase.unwritten : Phase ι → Bool
  | .writing _ => true
  | _ => false

def Complete (s : State ι) (event : ι × Action) : Prop :=
  event.2 = .exit ∨ event.2 = .fail → (s.phase event.1).unwritten = false

instance (s : State ι) (event : ι × Action) : Decidable (Complete s event) :=
  inferInstanceAs (Decidable (_ → _))

def State.Readable (s : State ι) : Prop :=
  ∀ f, s.file = some f → (∃ o, f.content = .record o) ∨
    ∃ i, s.alive i = true ∧ s.phase i = .writing f.serial

section

variable {s s' : State ι} {i : ι} {a : Action} {k : ℕ}

theorem alone_of_act (ha : (s.phase i).proceed = some a)
    (hs : act s i a = some s') : alone i (k + 1) s = alone i k s' := by
  rw [alone, ha, Option.bind_some, hs, Option.map_some, Option.getD_some]

theorem alone_of_idle (h : s.phase i = .idle) : alone i k s = s := by
  cases k with
  | zero => rfl
  | succ k =>
    rw [alone, h]
    rfl

theorem alone_goto {φ ψ : Phase ι} (hφ : s.phase i = φ) (ha : φ.proceed = some a)
    (hs : act s i a = some (s.goto i ψ)) : alone i (k + 1) s = alone i k (s.goto i ψ) :=
  alone_of_act (hφ ▸ ha) hs

theorem alone_free {tries : ℕ} (h : s.phase i = .looking (tries + 1)) (hfile : s.file = none) :
    (alone i 4 s).phase i = .holding s.next := by
  let created : State ι := { s.goto i (.writing s.next) with
    file := some ⟨s.next, .invalid⟩
    owned := Function.update s.owned i (some s.next)
    next := s.next + 1 }
  let recorded : State ι := { created.goto i (.syncing s.next) with
    file := some ⟨s.next, .record i⟩ }
  have hlstat : alone i 4 s = alone i 3 (s.goto i (.creating tries)) :=
    alone_goto h rfl (by simp [act, h, hfile])
  have hcreate : alone i 3 (s.goto i (.creating tries)) = alone i 2 created :=
    alone_of_act (a := .create) (by rw [State.goto_phase_self]; rfl)
      (by simp [act, State.goto, hfile, created])
  have hwriting : created.phase i = .writing s.next := Function.update_self ..
  have hwrite : alone i 2 created = alone i 1 recorded :=
    alone_of_act (a := .write) (by rw [hwriting]; rfl)
      (by simp [act, written, recorded, created])
  have hsyncing : recorded.phase i = .syncing s.next := Function.update_self ..
  have hsync : alone i 1 recorded = recorded.goto i (.holding s.next) :=
    alone_goto (k := 0) hsyncing rfl (by simp only [act, hsyncing])
  rw [hlstat, hcreate, hwrite, hsync, State.goto_phase_self]

theorem alone_abandoned {tries n : ℕ} {o : ι} (h : s.phase i = .looking (tries + 1))
    (hfile : s.file = some ⟨n, .record o⟩) (hdead : s.alive o = false) :
    ∃ s', (∀ k, alone i (k + 6) s = alone i k s') ∧ s'.phase i = .looking tries ∧
      s'.file = none := by
  let removed : State ι := (s.goto i (.syncingDir tries)).remove i n
  have hremoved : removed.phase i = .syncingDir tries ∧ removed.file = none := by
    simp only [removed, State.remove, State.goto, hfile, Function.update_self, and_self]
  refine ⟨removed.goto i (.looking tries), fun k => ?_, State.goto_phase_self .., hremoved.2⟩
  have hgoto : ∀ φ ψ : Phase ι, (s.goto i φ).goto i ψ = s.goto i ψ := by
    intro φ ψ
    simp only [State.goto, Function.update_idem]
  -- every step before the removal changes nothing but the phase
  have hnext : ∀ {k : ℕ} {φ ψ : Phase ι} {a : Action}, φ.proceed = some a →
      act (s.goto i φ) i a = some ((s.goto i φ).goto i ψ) →
      alone i (k + 1) (s.goto i φ) = alone i k (s.goto i ψ) := by
    intro k φ ψ a ha hs
    rw [alone_goto (State.goto_phase_self s i φ) ha hs, hgoto]
  have hlstat : alone i (k + 6) s = alone i (k + 5) (s.goto i (.reading tries)) :=
    alone_goto h rfl (by simp [act, h, hfile])
  have hread : alone i (k + 5) (s.goto i (.reading tries)) =
      alone i (k + 4) (s.goto i (.checking tries n o)) :=
    hnext rfl (by simp [act, State.goto, hfile, examined])
  have hverify : alone i (k + 4) (s.goto i (.checking tries n o)) =
      alone i (k + 3) (s.goto i (.removing tries n o)) :=
    hnext rfl (by simp [act, State.goto, hdead])
  have hstat : alone i (k + 3) (s.goto i (.removing tries n o)) =
      alone i (k + 2) (s.goto i (.unlinking tries n o)) :=
    hnext rfl (by simp [act, State.goto, hfile])
  have hunlink : alone i (k + 2) (s.goto i (.unlinking tries n o)) = alone i (k + 1) removed := by
    refine alone_of_act (a := .unlink) (by rw [State.goto_phase_self]; rfl) ?_
    simp [act, State.goto, State.remove, hfile, removed]
  have hsync : alone i (k + 1) removed = alone i k (removed.goto i (.looking tries)) :=
    alone_goto hremoved.1 rfl (by simp only [act, hremoved.1])
  rw [hlstat, hread, hverify, hstat, hunlink, hsync]

theorem alone_invalid {tries : ℕ} {f : LockFile ι} (h : s.phase i = .looking (tries + 1))
    (hfile : s.file = some f) (hinvalid : ∀ o, f.content ≠ .record o) :
    ∀ n, (alone i k s).phase i ≠ .holding n := by
  have hlstat : ∀ k, alone i (k + 1) s = alone i k (s.goto i (.reading tries)) :=
    fun k => alone_goto h rfl (by simp [act, h, hfile])
  have hexamined : examined tries s.file = .idle := by
    obtain ⟨n, content⟩ := f
    rw [hfile]
    cases content with
    | invalid => rfl
    | legacy => rfl
    | record o => exact absurd rfl (hinvalid o)
  have hread : ∀ k, alone i (k + 1) (s.goto i (.reading tries)) =
      alone i k ((s.goto i (.reading tries)).goto i .idle) := by
    intro k
    refine alone_goto (State.goto_phase_self ..) rfl ?_
    simp only [act, State.goto_phase_self]
    exact congrArg (fun φ => some ((s.goto i (.reading tries)).goto i φ)) hexamined
  intro n hn
  rcases k with _ | _ | k
  · cases h.symm.trans hn
  · rw [hlstat, alone, State.goto_phase_self] at hn
    cases hn
  · rw [hlstat, hread, alone_of_idle (State.goto_phase_self ..), State.goto_phase_self] at hn
    cases hn

theorem passes_iff (hdead : ∀ n o, s.file = some ⟨n, .record o⟩ → s.alive o = false) :
    s.Passes i ↔ ∀ f, s.file = some f → ∃ o, f.content = .record o := by
  constructor
  · rintro ⟨k, n, hn⟩ f hf
    by_contra hinvalid
    exact alone_invalid (State.goto_phase_self s i _) hf (fun o ho => hinvalid ⟨o, ho⟩) n hn
  · intro hrecord
    cases hfile : s.file with
    | none => exact ⟨4, _, alone_free (State.goto_phase_self s i _) hfile⟩
    | some f =>
      obtain ⟨n, content⟩ := f
      obtain ⟨o, rfl⟩ := hrecord _ hfile
      obtain ⟨s', hs', hphase, hnone⟩ :=
        alone_abandoned (State.goto_phase_self s i _) hfile (hdead n o hfile)
      exact ⟨10, _, (hs' 4 ▸ alone_free hphase hnone :)⟩

theorem State.Readable.goto (h : s.Readable) {φ : Phase ι} (hi : (s.phase i).unwritten = false) :
    (s.goto i φ).Readable := by
  intro f hf
  rcases h f hf with hrecord | ⟨j, hj, hwriting⟩
  · exact .inl hrecord
  · have hji : j ≠ i := by
      rintro rfl
      rw [hwriting] at hi
      cases hi
    exact .inr ⟨j, hj, (State.goto_phase_ne s hji φ).trans hwriting⟩

omit [DecidableEq ι] in
theorem State.Readable.remove (h : s.Readable) {target : ℕ} : (s.remove i target).Readable := by
  cases hfile : s.file with
  | none => simpa only [State.remove, hfile] using h
  | some f =>
    intro f' hf'
    simp only [State.remove, hfile] at hf'
    cases hf'

theorem State.Readable.write (h : s.Readable) {n : ℕ} (hphase : s.phase i = .writing n) :
    State.Readable { s.goto i (.syncing n) with file := written i n s.file } := by
  intro f hf
  obtain ⟨f₀, hf₀, rfl⟩ := Option.map_eq_some_iff.mp hf
  split_ifs with hserial
  · exact .inl ⟨i, rfl⟩
  · rcases h f₀ hf₀ with hrecord | ⟨j, hj, hwriting⟩
    · exact .inl hrecord
    · -- another process is about to write the file at the path
      have hji : j ≠ i := by
        rintro rfl
        cases hphase.symm.trans hwriting
        exact hserial rfl
      exact .inr ⟨j, hj, (State.goto_phase_ne s hji _).trans hwriting⟩

theorem State.Readable.act (h : s.Readable) (hi : s.alive i = true)
    (hok : Complete s (i, a)) (hs : act s i a = some s') : s'.Readable := by
  have hwith : ∀ {φ ψ : Phase ι}, s.phase i = φ → φ.unwritten = false → (s.goto i ψ).Readable :=
    fun hφ hfree => h.goto (hφ ▸ hfree)
  cases a with
  | write =>
    simp only [ApplyLock.act] at hs
    split at hs <;> cases hs
    rename_i hphase
    exact h.write hphase
  | create =>
    simp only [ApplyLock.act] at hs
    split at hs
    · rename_i hphase
      split_ifs at hs
      · cases hs
        intro f hf
        cases hf
        exact .inr ⟨i, hi, Function.update_self ..⟩
      · cases hs
        exact hwith hphase rfl
    · cases hs
  | stat =>
    simp only [ApplyLock.act] at hs
    split at hs <;> cases hs
    · rename_i hphase
      exact hwith hphase rfl
    · rename_i hphase
      split_ifs
      · exact hwith hphase rfl
      · exact hwith hphase rfl
  | unlink =>
    simp only [ApplyLock.act] at hs
    split at hs <;> cases hs
    · rename_i hphase
      exact (hwith hphase rfl).remove
    · rename_i hphase
      have hidle : ((s.goto i .idle).disown i).Readable := hwith hphase rfl
      exact hidle.remove
  | fail =>
    have hfree := hok (.inr rfl)
    simp only [ApplyLock.act] at hs
    split at hs <;> cases hs
    all_goals exact h.goto hfree
  | exit =>
    cases hs
    intro f hf
    rcases h f hf with hrecord | ⟨j, hj, hwriting⟩
    · exact .inl hrecord
    · have hji : j ≠ i := by
        rintro rfl
        have hfree := hok (.inl rfl)
        rw [hwriting] at hfree
        cases hfree
      exact .inr ⟨j, (Function.update_of_ne hji ..).trans hj, hwriting⟩
  | _ =>
    simp only [ApplyLock.act] at hs
    split at hs <;> cases hs
    all_goals
      rename_i hphase
      exact hwith hphase rfl

/-- If no process stops between the creation of its lock and the writing of its record, then in
every state of a run a call gets past the lock when all other processes are dead. -/
theorem apply_lock_not_wedged {s₀ : State ι}
    (hfile : ∀ f, s₀.file = some f → ∃ o, f.content = .record o) (hrun : Run step Complete s₀ s)
    (hidle : s.phase i = .idle) (hdead : ∀ j, j ≠ i → s.alive j = false)
    (howner : ∀ n, s.file ≠ some ⟨n, .record i⟩) : s.Passes i := by
  have hreadable : s.Readable := by
    refine hrun.invariant (fun f hf => .inl (hfile f hf)) fun s event s' h hok hs => ?_
    rw [step] at hs
    split_ifs at hs with halive
    exact h.act halive hok hs
  refine (passes_iff fun n o hf => hdead o ?_).mpr fun f hf => ?_
  · rintro rfl
    exact howner n hf
  · rcases hreadable f hf with hrecord | ⟨j, hj, hwriting⟩
    · exact hrecord
    · -- nobody else lives, and the process itself is idle
      have hji : j = i := by
        by_contra hji
        cases (hdead j hji).symm.trans hj
      rw [hji, hidle] at hwriting
      cases hwriting

end

def fresh : State (Fin 2) where
  alive _ := true
  phase _ := .idle
  owned _ := none
  file := none
  next := 0
  removals := []

theorem apply_lock_not_wedged_holding :
    ∃ s : State (Fin 2), Run step Complete fresh s ∧ s.file = some ⟨0, .record 0⟩ ∧ s.Passes 1 := by
  refine Run.exists_of_decide
    (P := fun s => s.file = some ⟨0, .record 0⟩ ∧ s.phase 1 = .idle ∧ s.alive 0 = false)
    [(0, .call), (0, .lstat), (0, .create), (0, .write), (0, .sync), (0, .exit)]
    (by decide +kernel) fun s hrun ⟨hfile, hidle, hdead⟩ => ⟨hfile, ?_⟩
  refine apply_lock_not_wedged (fun f hf => by cases hf) hrun hidle (fun j hj => ?_) fun n hn => ?_
  · obtain rfl : j = 0 := by omega
    exact hdead
  · rw [hfile] at hn
    exact absurd hn (by simp)

/-- A process dies after it has created the lock: no call of another process gets past it. -/
theorem apply_lock_wedged :
    ∃ s : State (Fin 2), Run step (fun _ _ => True) fresh s ∧ s.phase 1 = .idle ∧
      s.alive 0 = false ∧ s.file = some ⟨0, .invalid⟩ ∧ ¬ s.Passes 1 := by
  refine Run.exists_of_decide
    (P := fun s => s.phase 1 = .idle ∧ s.alive 0 = false ∧ s.file = some ⟨0, .invalid⟩)
    [(0, .call), (0, .lstat), (0, .create), (0, .exit)] (by decide +kernel)
    fun s hrun ⟨hidle, hdead, hfile⟩ => ⟨hidle, hdead, hfile, fun hpasses => ?_⟩
  obtain ⟨o, ho⟩ := (passes_iff fun n o hf => by cases hfile.symm.trans hf).mp hpasses _ hfile
  cases ho

end Scenery.Deploy.ApplyLock
