import Scenery.Storage.RestoreSafety

/-!
# Runs of a restore

What an open `Restore` remembers, at every step of its calls, next to the disk.
-/

namespace Scenery.Storage

variable {a : Args} {g₀ : ID} {d d' : Disk} {op : Operation} {s s' : State}
  {callbacks : List Callback}

/-! ## What is remembered -/

def StageStep.Reached (d : Disk) (op : Operation) : StageStep → Prop
  | .writePreparing _ => False
  | .mkdirGenerations => True
  | .syncRoot | .removeAll => d.root = true
  | .syncGenerations | .mkdirBase =>
    d.root = true ∧ d.generations.get op.stagedGeneration = none
  | .syncBase | .mkdirRefs => d.root = true ∧
    d.generations.get op.stagedGeneration = some ⟨false, false, false, none, false⟩
  | .mkdirVersions => d.root = true ∧
    d.generations.get op.stagedGeneration = some ⟨true, false, false, none, false⟩
  | .mkdirStaging => d.root = true ∧
    d.generations.get op.stagedGeneration = some ⟨true, true, false, none, false⟩
  | .writeGeneration => d.root = true ∧
    d.generations.get op.stagedGeneration = some ⟨true, true, true, none, false⟩
  | .populate => d.root = true ∧ d.generations.get op.stagedGeneration =
    some ⟨true, true, true, some (op.target, op.stagedGeneration), false⟩
  | .syncStaged | .writeStaged => d.root = true ∧ d.generations.get op.stagedGeneration =
    some ⟨true, true, true, some (op.target, op.stagedGeneration), true⟩

def InPhase (d : Disk) (op : Operation) : Prop :=
  ∃ phase, phase ≠ .preparing ∧ d.operation = some { op with phase := phase }

def Restored (callbacks : List Callback) (op : Operation) : Prop :=
  ∃ callback ∈ callbacks, callback.staged = op.stagedGeneration ∧ callback.ok = true

def CompleteStep.Reached (d : Disk) (callbacks : List Callback) (op : Operation) (owner : Owner) :
    CompleteStep → Prop
  | .database => Unswitched op owner ∧ owner = d.owner ∧ InPhase d op ∧ op.database = true
  | .writeDatabase => Unswitched op owner ∧ owner = d.owner ∧ InPhase d op ∧
    op.phase = .database ∧ Restored callbacks op
  | .writeOwner => Unswitched op owner ∧ InPhase d op ∧ (owner = d.owner ∨ Switched op d.owner) ∧
    (op.database = true → owner = d.owner ∧ d.operation = some op ∧ op.phase = .database ∧
      Restored callbacks op)
  | .writeSwitched => Switched op owner ∧ owner = d.owner ∧ op.phase = .switched ∧
    (InPhase d op ∨ d.operation = none)
  | .remove => Switched op owner ∧ owner = d.owner ∧ op.phase = .switched ∧ d.operation = some op
  | .syncRemoved => Switched op owner ∧ owner = d.owner ∧ op.phase = .switched ∧ d.operation = none

inductive Held (a : Args) (d : Disk) (callbacks : List Callback) : Process → Prop where
  | none (hop : ∀ op, d.operation = some op → op.phase = .preparing) :
    Held a d callbacks ⟨⟨none, d.owner⟩, .idle⟩
  | new {op : Operation} (hours : Ours a op) (hun : Unswitched op d.owner)
    (hphase : op.phase = .preparing) (hop : ∀ op, d.operation = some op → op.phase = .preparing) :
    Held a d callbacks ⟨⟨Option.none, d.owner⟩, .stage (.writePreparing op)⟩
  | preparing {op : Operation} (hours : Ours a op) (hun : Unswitched op d.owner)
    (hphase : op.phase = .preparing)
    (hop : d.operation = some op ∨ d.operation = some { op with phase := .staged }) :
    Held a d callbacks ⟨⟨some op, d.owner⟩, .idle⟩
  | staging {op : Operation} {step : StageStep} (hours : Ours a op) (hun : Unswitched op d.owner)
    (hphase : op.phase = .preparing) (hop : d.operation = some op) (hreached : step.Reached d op) :
    Held a d callbacks ⟨⟨some op, d.owner⟩, .stage step⟩
  /-- between calls, past `preparing`; the owner on disk may be switched already -/
  | staged {op : Operation} {owner : Owner} (hours : Ours a op) (hphase : op.phase ≠ .preparing)
    (hcomplete : d.Complete op.target op.stagedGeneration)
    (howner : (Unswitched op owner ∧ InPhase d op ∧ (owner = d.owner ∨ Switched op d.owner)) ∨
      (Switched op owner ∧ owner = d.owner ∧ (InPhase d op ∨ d.operation = Option.none))) :
    Held a d callbacks ⟨⟨some op, owner⟩, .idle⟩
  | completing {op : Operation} {owner : Owner} {step : CompleteStep} (hours : Ours a op)
    (hphase : op.phase ≠ .preparing) (hcomplete : d.Complete op.target op.stagedGeneration)
    (hreached : step.Reached d callbacks op owner) :
    Held a d callbacks ⟨⟨some op, owner⟩, .complete step⟩

/-- The disk, what the process remembers of it, and what the callbacks have done. -/
structure Inv (a : Args) (g₀ : ID) (s : State) : Prop where
  disk : DiskInv a g₀ s.disk
  held : ∀ process, s.process = some process → Held a s.disk s.callbacks process
  notAfter : ∀ callback ∈ s.callbacks, callback.active ≠ callback.staged
  restored : a.database = true → s.disk.owner.generation ≠ g₀ →
    ∃ callback ∈ s.callbacks, callback.staged = s.disk.owner.generation ∧ callback.ok = true

/-- No call is made on a `Restore` that a failed write has outdated: `Stage` in `preparing` finds
its record in `preparing`, and `Complete` with a database finds the owner it remembers. -/
def Settled (s : State) : Event → Prop
  | .stage _ _ => ∀ process ∈ s.process, ∀ op ∈ process.restore.operation,
      op.phase = .preparing → s.disk.operation = some op
  | .complete _ => ∀ process ∈ s.process, ∀ op ∈ process.restore.operation,
      op.database = true → process.restore.owner = s.disk.owner
  | _ => True

instance (s : State) (e : Event) : Decidable (Settled s e) := by
  unfold Settled
  split <;> infer_instance

/-! ## Calls -/

theorem DiskInv.held (h : DiskInv a g₀ d) : Held a d callbacks ⟨⟨d.operation, d.owner⟩, .idle⟩ := by
  cases hop : d.operation with
  | none => exact .none fun _ hsome => absurd (hop.symm.trans hsome) (by simp)
  | some op =>
    have hrec := h.recorded op hop
    by_cases hphase : op.phase = .preparing
    · rcases hrec.owner with ⟨hun, -⟩ | ⟨-, hnot, -⟩
      · exact .preparing hrec.ours hun hphase (.inl hop)
      · exact absurd hphase hnot
    · have hin : InPhase d op := ⟨op.phase, hphase, hop⟩
      refine .staged hrec.ours hphase (hrec.complete hphase) ?_
      rcases hrec.owner with ⟨hun, -⟩ | ⟨hsw, -, -⟩
      · exact .inl ⟨hun, hin, .inl rfl⟩
      · exact .inr ⟨hsw, rfl, .inl hin⟩

variable {owner : Owner}

theorem Owner.eq_of_state {state : OwnerState} (h : owner.state = state) :
    owner = ⟨owner.incarnation, owner.generation, state⟩ := by
  rw [← h]

theorem newOperation_ours (h : DiskInv a g₀ d) {generation incarnation : ID}
    (hgen : generation ≠ d.owner.generation) (hinc : incarnation ≠ d.owner.incarnation) :
    Ours a (newOperation a d.owner generation incarnation) ∧
      Unswitched (newOperation a d.owner generation incarnation) d.owner := by
  unfold newOperation Unswitched
  cases hstate : d.owner.state with
  | allocating => exact absurd hstate h.allocated
  | ready =>
    refine ⟨⟨rfl, rfl, rfl, rfl, rfl, rfl, hgen.symm, by simp, by simp, by simp⟩, ?_⟩
    simpa using Owner.eq_of_state hstate
  | retired =>
    refine ⟨⟨rfl, rfl, rfl, rfl, rfl, rfl, hgen.symm, ?_, fun _ => h.retired hstate, by simp⟩, ?_⟩
    · simpa using hinc
    · simpa using Owner.eq_of_state hstate

variable {r : Restore}

theorem Held.stage (hheld : Held a d callbacks ⟨r, .idle⟩) (h : DiskInv a g₀ d)
    {generation incarnation : ID} (hgen : generation ≠ d.owner.generation)
    (hinc : incarnation ≠ d.owner.incarnation)
    (hsettled : ∀ op ∈ r.operation, op.phase = .preparing → d.operation = some op)
    {first : StageStep} (hcall : stageCall a d r generation incarnation = some first) :
    Held a d callbacks ⟨r, .stage first⟩ := by
  cases hheld with unfold stageCall at hcall
  | none hop =>
    dsimp only at hcall
    split at hcall
    · cases hcall
    · cases hcall
      obtain ⟨hours, hun⟩ := newOperation_ours h hgen hinc
      exact .new hours hun rfl hop
  | preparing hours hun hphase hop =>
    dsimp only at hcall
    rw [if_neg (by simpa using hphase)] at hcall
    cases hcall
    exact .staging hours hun hphase (hsettled _ rfl hphase) trivial
  | staged hours hphase hcomplete howner =>
    dsimp only at hcall
    rw [if_pos hphase] at hcall
    cases hcall

theorem Held.complete {r r' : Restore} (hheld : Held a d callbacks ⟨r, .idle⟩)
    (hsettled : ∀ op ∈ r.operation, op.database = true → r.owner = d.owner) {callback : Bool}
    {first : CompleteStep} (hcall : completeCall r callback = some (r', first)) :
    Held a d callbacks ⟨r', .complete first⟩ := by
  cases hheld with unfold completeCall at hcall
  | none hop => cases hcall
  | preparing hours hun hphase hop =>
    dsimp only at hcall
    rw [if_pos hphase] at hcall
    cases hcall
  | @staged op owner hours hphase hcomplete howner =>
    dsimp only at hcall
    rw [if_neg hphase] at hcall
    rcases howner with ⟨hun, hin, hdisk⟩ | ⟨hsw, hdisk, hrecord⟩
    · rw [if_pos (hun.generation_ne hours)] at hcall
      split at hcall
      · rename_i hdatabase
        split at hcall
        · cases hcall
          exact .completing hours hphase hcomplete ⟨hun, hsettled _ rfl hdatabase, hin, hdatabase⟩
        · cases hcall
      · rename_i hdatabase
        cases hcall
        exact .completing hours hphase hcomplete
          ⟨hun, hin, hdisk, fun hyes => absurd hyes hdatabase⟩
    · rw [if_neg (by simp [hsw.generation_eq])] at hcall
      cases hcall
      exact .completing (hours.withPhase (by decide)) (by simp) hcomplete
        ⟨hsw, hdisk, rfl, hrecord⟩

/-! ## Steps of `Stage` -/

structure Framed (op : Operation) (d d' : Disk) : Prop where
  owner : d'.owner = d.owner
  operation : d'.operation = d.operation
  root : d.root = true → d'.root = true
  get : ∀ id ≠ op.stagedGeneration, d'.generations.get id = d.generations.get id

theorem Framed.refl (op : Operation) (d : Disk) : Framed op d d :=
  ⟨rfl, rfl, id, fun _ _ => rfl⟩

theorem Framed.set (op : Operation) (d : Disk) (c : Content) :
    Framed op d { d with generations := d.generations.set op.stagedGeneration c } :=
  ⟨rfl, rfl, id, fun _ => Dictionary.get_set_ne _ _⟩

theorem Framed.erase (op : Operation) (d : Disk) :
    Framed op d { d with generations := d.generations.erase op.stagedGeneration } :=
  ⟨rfl, rfl, id, fun _ => Dictionary.get_erase_ne _⟩

theorem StageStep.effect_framed {step : StageStep} (hreached : step.Reached d op)
    (hstep : step ≠ .writeStaged) (heffect : step.effect op owner d = some d') :
    Framed op d d' := by
  cases step with
  | writePreparing op' => exact hreached.elim
  | writeStaged => exact absurd rfl hstep
  | mkdirGenerations =>
    cases heffect
    exact ⟨rfl, rfl, fun _ => rfl, fun _ _ => rfl⟩
  | syncRoot | syncGenerations | syncBase | syncStaged =>
    cases heffect
    exact .refl op d
  | removeAll =>
    cases heffect
    exact .erase op d
  | mkdirBase =>
    simp only [effect] at heffect
    split at heffect
    · cases heffect
    · cases heffect
      exact .set op d _
  | mkdirRefs | mkdirVersions | mkdirStaging | writeGeneration | populate =>
    obtain ⟨c, -, rfl⟩ := Option.map_eq_some_iff.mp heffect
    exact .set op d c

theorem StageStep.failed_framed {step : StageStep} (owner : Owner) (left : Option Content)
    (hreached : step.Reached d op) (hstep : step ≠ .writeStaged) :
    Framed op d (step.failed op owner d left) := by
  have hdefault : Framed op d ((step.effect op owner d).getD d) := by
    cases heffect : step.effect op owner d with
    | none => exact .refl op d
    | some d' => exact StageStep.effect_framed hreached hstep heffect
  cases step with
  | removeAll =>
    simp only [failed]
    cases left with
    | none => exact .erase op d
    | some c =>
      dsimp only
      split
      · exact .set op d _
      · exact .refl op d
  | populate => exact .refl op d
  | _ => exact hdefault

theorem StageStep.effect_reached {step : StageStep} (hun : Unswitched op owner)
    (hreached : step.Reached d op) (hstep : step ≠ .writeStaged) :
    ∃ d' next, step.effect op owner d = some d' ∧ step.next = .stage next ∧ next.Reached d' op := by
  have htarget : op.stagedIncarnation.getD owner.incarnation = op.target := by
    rw [hun]
    rfl
  have hwrite : ∀ {step : StageStep} {c c' : Content},
      d.generations.get op.stagedGeneration = some c → step.content op op.target c = some c' →
      ((d.generations.get op.stagedGeneration).bind
        (step.content op (op.stagedIncarnation.getD owner.incarnation))).map (fun c =>
          { d with generations := d.generations.set op.stagedGeneration c }) =
        some { d with generations := d.generations.set op.stagedGeneration c' } := by
    intro step c c' hget hcontent
    rw [hget, htarget, Option.bind_some, hcontent, Option.map_some]
  cases step with
  | writePreparing op' => exact hreached.elim
  | writeStaged => exact absurd rfl hstep
  | mkdirGenerations => exact ⟨_, _, rfl, rfl, rfl⟩
  | syncRoot | syncGenerations | syncBase | syncStaged => exact ⟨_, _, rfl, rfl, hreached⟩
  | removeAll => exact ⟨_, _, rfl, rfl, hreached, Dictionary.get_erase_self _ _⟩
  | mkdirBase =>
    refine ⟨_, _, if_neg ?_, rfl, hreached.1, Dictionary.get_set_self _ _ _⟩
    simp [hreached.1, hreached.2]
  | mkdirRefs | mkdirVersions | mkdirStaging | writeGeneration | populate =>
    exact ⟨_, _, hwrite hreached.2 rfl, rfl, hreached.1, Dictionary.get_set_self _ _ _⟩

theorem complete_of_reached (h : StageStep.writeStaged.Reached d op) :
    d.Complete op.target op.stagedGeneration :=
  ⟨h.1, _, h.2, ⟨rfl, rfl, rfl, rfl⟩, rfl⟩

variable {outcome : Outcome} {process : Process}

theorem Held.stageAdvance {step : StageStep} (hheld : Held a d callbacks ⟨r, .stage step⟩)
    (h : DiskInv a g₀ d) (hadvance : stageAdvance d r step outcome = some (d', process)) :
    DiskInv a g₀ d' ∧ Held a d' callbacks process ∧ d'.owner = d.owner := by
  cases hheld with
  | @new op hours hun hphase hop =>
    have hrec : Recorded a d op := ⟨hours, .inl ⟨hun, by rw [hphase]; decide⟩,
      absurd hphase⟩
    have hpreparing : ∀ op', ({ d with operation := some op } : Disk).operation = some op' →
        op'.phase = .preparing := by
      intro op' hop'
      cases hop'
      exact hphase
    cases outcome with
    | ok =>
      cases hadvance
      exact ⟨h.writeOperation hrec, .staging hours hun hphase rfl trivial, rfl⟩
    | before =>
      cases hadvance
      exact ⟨h, .none hop, rfl⟩
    | after left =>
      cases hadvance
      exact ⟨h.writeOperation hrec, .none hpreparing, rfl⟩
  | @staging op step hours hun hphase hop hreached =>
    have hcurrent : step.current ⟨some op, d.owner⟩ = some op := by
      cases step with
      | writePreparing op' => exact hreached.elim
      | _ => rfl
    have hframed : ∀ {d'}, Framed op d d' → DiskInv a g₀ d' := fun hf =>
      h.writeStaged hop hun hphase hf.owner hf.operation hf.root hf.get
    have hidle : ∀ {d'}, Framed op d d' → Held a d' callbacks ⟨⟨some op, d.owner⟩, .idle⟩ := by
      intro d' hf
      have hheld : Held a d' callbacks ⟨⟨some op, d'.owner⟩, .idle⟩ :=
        .preparing hours (by rw [hf.owner]; exact hun) hphase (.inl (hf.operation.trans hop))
      rwa [hf.owner] at hheld
    unfold Storage.stageAdvance at hadvance
    rw [hcurrent] at hadvance
    by_cases hstep : step = .writeStaged
    · -- the record is written: from now on the generation counts as complete
      subst hstep
      have hcomplete := complete_of_reached hreached
      have hrec : Recorded a d { op with phase := .staged } :=
        ⟨hours.withPhase (by decide), .inl ⟨hun, by simp⟩, fun _ => hcomplete⟩
      cases outcome with
      | ok =>
        cases hadvance
        refine ⟨h.writeOperation hrec, ?_, rfl⟩
        exact .staged (hours.withPhase (by decide)) (by simp) hcomplete
          (.inl ⟨hun, ⟨.staged, by simp, rfl⟩, .inl rfl⟩)
      | before =>
        cases hadvance
        exact ⟨h, hidle (.refl op d), rfl⟩
      | after left =>
        obtain ⟨rfl, rfl⟩ := Prod.mk.inj (Option.some.inj hadvance)
        exact ⟨h.writeOperation hrec, .preparing hours hun hphase (Or.inr rfl), rfl⟩
    · cases outcome with
      | ok =>
        obtain ⟨d₁, next, heffect, hnext, hreached'⟩ :=
          StageStep.effect_reached hun hreached hstep
        have hf := StageStep.effect_framed hreached hstep heffect
        dsimp only at hadvance
        rw [heffect, hnext] at hadvance
        obtain ⟨rfl, rfl⟩ := Prod.mk.inj (Option.some.inj hadvance)
        have hremember : step.remember ⟨some op, d.owner⟩ = ⟨some op, d.owner⟩ := by
          cases step with
          | writePreparing op' => exact hreached.elim
          | writeStaged => exact absurd rfl hstep
          | _ => rfl
        rw [hremember]
        have hheld : Held a d₁ callbacks ⟨⟨some op, d₁.owner⟩, .stage next⟩ :=
          .staging hours (by rw [hf.owner]; exact hun) hphase (hf.operation.trans hop) hreached'
        rw [hf.owner] at hheld
        exact ⟨hframed hf, hheld, hf.owner⟩
      | before =>
        cases hadvance
        exact ⟨h, hidle (.refl op d), rfl⟩
      | after left =>
        cases hadvance
        have hf := StageStep.failed_framed d.owner left hreached hstep
        exact ⟨hframed hf, hidle hf, hf.owner⟩

/-! ## Steps of `Complete` -/

theorem DiskInv.recorded_switched (h : DiskInv a g₀ d) (hin : InPhase d op)
    (hsw : Switched op owner) (hcomplete : d.Complete op.target op.stagedGeneration)
    (hdatabase : op.database = true → d.operation = some op ∧ op.phase = .database) :
    ∀ op', d.operation = some op' → Recorded a { d with owner := owner } op' := by
  intro op' hop'
  obtain ⟨phase, hphase, hop⟩ := hin
  obtain rfl := Option.some.inj (hop.symm.trans hop')
  refine ⟨(h.recorded _ hop).ours, .inr ⟨hsw, hphase, fun hyes hstaged => ?_⟩, fun _ => hcomplete⟩
  obtain ⟨hsame, hdb⟩ := hdatabase hyes
  have hphases := congrArg Operation.phase (Option.some.inj (hop.symm.trans hsame))
  exact absurd (hstaged.symm.trans (hphases.trans hdb)) (by decide)

theorem callbacks_subset_record {step : CompleteStep} :
    s.callbacks ⊆ record s r step outcome := by
  unfold record
  split
  · exact List.subset_cons_self _ _
  · exact List.Subset.refl _

theorem Inv.advance {step : CompleteStep} (hinv : Inv a g₀ s)
    (hop : r.operation = some op)
    (hadvance : completeAdvance s.disk r step outcome = some (d', process))
    (hdisk : DiskInv a g₀ (step.effect op r s.disk))
    (hafter : ∀ callback ∈ record s r step outcome, callback.active ≠ callback.staged)
    (hrestored : a.database = true → (step.effect op r s.disk).owner.generation ≠ g₀ →
      ∃ callback ∈ record s r step outcome,
        callback.staged = (step.effect op r s.disk).owner.generation ∧ callback.ok = true)
    (hbefore : Held a s.disk (record s r step outcome) ⟨r, .idle⟩)
    (hidle : Held a (step.effect op r s.disk) (record s r step outcome) ⟨r, .idle⟩)
    (hnext : outcome = .ok →
      Held a (step.effect op r s.disk) (record s r step outcome) (step.next op r)) :
    Inv a g₀ { s with
      disk := d', process := some process, callbacks := record s r step outcome } := by
  unfold completeAdvance at hadvance
  rw [hop] at hadvance
  cases outcome with
  | ok =>
    cases hadvance
    exact ⟨hdisk, fun _ hsome => Option.some.inj hsome ▸ hnext rfl, hafter, hrestored⟩
  | before =>
    cases hadvance
    refine ⟨hinv.disk, fun _ hsome => Option.some.inj hsome ▸ hbefore, hafter, fun hyes hne => ?_⟩
    obtain ⟨c, hc, hok⟩ := hinv.restored hyes hne
    exact ⟨c, callbacks_subset_record hc, hok⟩
  | after left =>
    cases hadvance
    exact ⟨hdisk, fun _ hsome => Option.some.inj hsome ▸ hidle, hafter, hrestored⟩

theorem Inv.completeAdvance {step : CompleteStep} (hinv : Inv a g₀ s)
    (hprocess : s.process = some ⟨r, .complete step⟩)
    (hadvance : completeAdvance s.disk r step outcome = some (d', process)) : Inv a g₀ { s with
      disk := d', process := some process, callbacks := record s r step outcome } := by
  have hdisk := hinv.disk
  cases hinv.held _ hprocess with
  | @completing op owner step hours hphase hcomplete hreached =>
  have hwritten : InPhase { s.disk with operation := some op } op := ⟨op.phase, hphase, rfl⟩
  cases step with
  | database =>
    obtain ⟨hun, rfl, hin, hdatabase⟩ := hreached
    have hidle : Held a s.disk (record s ⟨some op, s.disk.owner⟩ .database outcome)
        ⟨⟨some op, s.disk.owner⟩, .idle⟩ :=
      .staged hours hphase hcomplete (.inl ⟨hun, hin, .inl rfl⟩)
    refine hinv.advance rfl hadvance hdisk
      (List.forall_mem_cons.mpr ⟨hun.generation_ne hours, hinv.notAfter⟩) ?_ hidle hidle ?_
    · intro hyes hne
      obtain ⟨c, hc, hok⟩ := hinv.restored hyes hne
      exact ⟨c, callbacks_subset_record hc, hok⟩
    · rintro rfl
      exact .completing (hours.withPhase (by decide)) (by simp) hcomplete
        ⟨hun, rfl, hin, rfl, ⟨_, List.mem_cons_self, rfl, rfl⟩⟩
  | writeDatabase =>
    obtain ⟨hun, rfl, hin, hdb, hrestored⟩ := hreached
    exact hinv.advance rfl hadvance
      (hdisk.writeOperation ⟨hours, .inl ⟨hun, by rw [hdb]; decide⟩, fun _ => hcomplete⟩)
      hinv.notAfter hinv.restored
      (.staged hours hphase hcomplete (.inl ⟨hun, hin, .inl rfl⟩))
      (.staged hours hphase hcomplete (.inl ⟨hun, hwritten, .inl rfl⟩))
      fun _ => .completing hours hphase hcomplete
        ⟨hun, hwritten, .inl rfl, fun _ => ⟨rfl, rfl, hdb, hrestored⟩⟩
  | writeOwner =>
    obtain ⟨hun, hin, howner, hdatabase⟩ := hreached
    have hsw := hun.switchedOwner
    have hrecorded := hdisk.recorded_switched hin hsw hcomplete
      fun hyes => ⟨(hdatabase hyes).2.1, (hdatabase hyes).2.2.1⟩
    refine hinv.advance rfl hadvance (hdisk.writeOwner hsw hcomplete hrecorded) hinv.notAfter ?_
      (.staged hours hphase hcomplete (.inl ⟨hun, hin, howner⟩))
      (.staged hours hphase hcomplete (.inl ⟨hun, hin, .inr hsw⟩))
      fun _ => .completing (hours.withPhase (by decide)) (by simp) hcomplete
        ⟨hsw, rfl, rfl, .inl hin⟩
    intro hyes _
    rw [CompleteStep.effect, hsw.generation_eq]
    exact (hdatabase (hours.database.trans hyes)).2.2.2
  | writeSwitched =>
    obtain ⟨hsw, rfl, hswitched, hrecord⟩ := hreached
    have hrec : Recorded a s.disk op :=
      ⟨hours, .inr ⟨hsw, hphase, fun _ => by rw [hswitched]; decide⟩, fun _ => hcomplete⟩
    exact hinv.advance rfl hadvance (hdisk.writeOperation hrec) hinv.notAfter hinv.restored
      (.staged hours hphase hcomplete (.inr ⟨hsw, rfl, hrecord⟩))
      (.staged hours hphase hcomplete (.inr ⟨hsw, rfl, .inl hwritten⟩))
      fun _ => .completing hours hphase hcomplete ⟨hsw, rfl, hswitched, rfl⟩
  | remove =>
    obtain ⟨hsw, rfl, hswitched, hop⟩ := hreached
    exact hinv.advance rfl hadvance (hdisk.removeOperation (by rw [hsw])) hinv.notAfter
      hinv.restored
      (.staged hours hphase hcomplete (.inr ⟨hsw, rfl, .inl ⟨op.phase, hphase, hop⟩⟩))
      (.staged hours hphase hcomplete (.inr ⟨hsw, rfl, .inr rfl⟩))
      fun _ => .completing hours hphase hcomplete ⟨hsw, rfl, hswitched, rfl⟩
  | syncRemoved =>
    obtain ⟨hsw, rfl, hswitched, hop⟩ := hreached
    have hidle : Held a s.disk s.callbacks ⟨⟨some op, s.disk.owner⟩, .idle⟩ :=
      .staged hours hphase hcomplete (.inr ⟨hsw, rfl, .inr hop⟩)
    exact hinv.advance rfl hadvance hdisk hinv.notAfter hinv.restored hidle hidle
      fun _ => .none fun op' hop' => absurd (hop.symm.trans hop') (by simp)

/-! ## Runs -/

theorem Inv.step {e : Event} (hinv : Inv a g₀ s) (hsettled : Settled s e)
    (h : step a s e = some s') : Inv a g₀ s' := by
  cases e with simp only [Storage.step] at h
  | reopen =>
    split at h
    · cases h
    · cases h
      exact ⟨hinv.disk, hinv.held, hinv.notAfter, hinv.restored⟩
  | beginRestore =>
    split at h
    · rename_i r hnone hbegin
      cases h
      rw [beginRestore_handle hbegin, hinv.disk.beginRestore] at hbegin
      cases hbegin
      exact ⟨hinv.disk, fun _ hsome => Option.some.inj hsome ▸ hinv.disk.held, hinv.notAfter,
        hinv.restored⟩
    · cases h
  | close =>
    split at h
    · cases h
      exact ⟨hinv.disk, fun _ hsome => (by cases hsome), hinv.notAfter, hinv.restored⟩
    · cases h
  | crash =>
    cases h
    exact ⟨hinv.disk, fun _ hsome => (by cases hsome), hinv.notAfter, hinv.restored⟩
  | stage generation incarnation =>
    split at h
    · rename_i r hprocess
      split at h
      · cases h
      · rename_i hfresh
        simp only [not_or] at hfresh
        obtain ⟨first, hcall, rfl⟩ := Option.map_eq_some_iff.mp h
        refine ⟨hinv.disk, fun _ hsome => Option.some.inj hsome ▸ ?_, hinv.notAfter, hinv.restored⟩
        exact (hinv.held _ hprocess).stage hinv.disk hfresh.2.1 hfresh.2.2
          (hsettled _ hprocess) hcall
    · cases h
  | complete callback =>
    split at h
    · rename_i r hprocess
      obtain ⟨⟨r', first⟩, hcall, rfl⟩ := Option.map_eq_some_iff.mp h
      refine ⟨hinv.disk, fun _ hsome => Option.some.inj hsome ▸ ?_, hinv.notAfter, hinv.restored⟩
      exact (hinv.held _ hprocess).complete (hsettled _ hprocess) hcall
    · cases h
  | advance outcome =>
    split at h
    · rename_i r step hprocess
      obtain ⟨⟨d', process⟩, hadvance, rfl⟩ := Option.map_eq_some_iff.mp h
      obtain ⟨hdisk, hheld, howner⟩ := (hinv.held _ hprocess).stageAdvance hinv.disk hadvance
      refine ⟨hdisk, fun _ hsome => Option.some.inj hsome ▸ hheld, hinv.notAfter, ?_⟩
      rw [howner]
      exact hinv.restored
    · rename_i r step hprocess
      obtain ⟨⟨d', process⟩, hadvance, rfl⟩ := Option.map_eq_some_iff.mp h
      exact hinv.completeAdvance hprocess hadvance
    · cases h

end Scenery.Storage
