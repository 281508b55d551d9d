import Scenery.Deploy.Receipts

/-!
# Runs of ApplyDeploymentPlan

Every program of `ApplyDeploymentPlan` keeps the files consistent at every point, if the write of
a receipt does not report an error after the receipt was published.
-/

namespace Scenery.Deploy

open List

def ApplySafe {α : Type} (Q : Except (List String) α → Deployments → Prop) (p : ApplyProg α)
    (d : Deployments) : Prop :=
  Prog.Safe (deployments.guard reported).exec Consistent (fun _ _ => True) Q p d

def Lenient {α : Type} (Q : Except (List String) α → Deployments → Prop) : Prop :=
  ∀ e d, Q (.error e) d

variable {outcome : Outcome}

section

variable {α β : Type} {Q : Except (List String) β → Deployments → Prop} {d d' : Deployments}
  {j : Journal} {plan : Plan} {text : String}

theorem apply_fail (hQ : Lenient Q) (h : Consistent d) (e : List String) :
    ApplySafe Q (.fail e) d :=
  ⟨h, hQ e d⟩

/-! ## Operations -/

theorem exec_of_guard {o : ApplyOp} {x : ApplyReply o × Deployments}
    (h : (deployments.guard reported).exec o outcome d = some x) :
    reported o outcome = true ∧ execApply o outcome d = some x := by
  simp only [Service.guard, deployments] at h
  split_ifs at h with hok
  exact ⟨hok, h⟩

theorem reading_eq_some {value : α} {x : Except String α}
    (h : reading outcome d value = some (x, d')) :
    d' = d ∧ (x = .ok value ∨ ∃ message, x = .error message) := by
  cases outcome with
  | works =>
    cases h
    exact ⟨rfl, .inl rfl⟩
  | fails message =>
    cases h
    exact ⟨rfl, .inr ⟨message, rfl⟩⟩
  | _ => cases h

theorem changing_eq_some {d₁ : Deployments} {x : Except String Unit}
    (h : changing outcome d d₁ = some (x, d')) :
    (x = .ok () ∧ d' = d₁) ∨ ∃ message, x = .error message ∧ (d' = d ∨ d' = d₁) := by
  cases outcome with
  | works =>
    cases h
    exact .inl ⟨rfl, rfl⟩
  | fails message =>
    cases h
    exact .inr ⟨message, rfl, .inl rfl⟩
  | failsAfter message =>
    cases h
    exact .inr ⟨message, rfl, .inr rfl⟩
  | _ => cases h

theorem safe_orFail {value : α} {x : Except String α} {f : α → ApplyProg β} (hQ : Lenient Q)
    (h : Consistent d) (hexec : reading outcome d value = some (x, d'))
    (hf : ApplySafe Q (f value) d) : ApplySafe Q (orFail text x >>= f) d' := by
  obtain ⟨rfl, rfl | ⟨message, rfl⟩⟩ := reading_eq_some hexec
  · exact hf
  · exact apply_fail hQ h _

variable {f : Unit → ApplyProg β}

section

variable (hQ : Lenient Q)
include hQ

theorem safe_ensure {c : Check} (h : Consistent d) (hf : ApplySafe Q (f ()) d) :
    ApplySafe Q (ensure c >>= f) d :=
  ⟨h, trivial, fun _ _ _ hexec => safe_orFail hQ h (exec_of_guard hexec).2 hf⟩

theorem safe_readReceipt {f : Option Receipt → ApplyProg β} (h : Consistent d)
    (hf : ApplySafe Q (f (d.receipts plan)) d) :
    ApplySafe Q (readReceipt plan text >>= f) d :=
  ⟨h, trivial, fun _ _ _ hexec => safe_orFail hQ h (exec_of_guard hexec).2 hf⟩

theorem safe_readJournal {f : Option Journal → ApplyProg β} (h : Consistent d)
    (hf : ApplySafe Q (f (d.journal plan)) d) :
    ApplySafe Q (readJournal plan text >>= f) d :=
  ⟨h, trivial, fun _ _ _ hexec => safe_orFail hQ h (exec_of_guard hexec).2 hf⟩

theorem safe_readState {name : String} {f : Option Receipt → ApplyProg β}
    (h : Consistent d) (hf : ApplySafe Q (f (d.states name)) d) :
    ApplySafe Q (readState name >>= f) d :=
  ⟨h, trivial, fun _ _ _ hexec => safe_orFail hQ h (exec_of_guard hexec).2 hf⟩

theorem safe_listJournals {f : List Plan → ApplyProg β} (h : Consistent d)
    (hf : ∀ plans, (∀ j ∈ d.journals, j.plan ∈ plans) → ApplySafe Q (f plans) d) :
    ApplySafe Q (listJournals >>= f) d := by
  refine ⟨h, trivial, fun _ _ _ hexec =>
    safe_orFail hQ h (exec_of_guard hexec).2 (hf _ fun j hj => ?_)⟩
  exact (perm_insertionSort _ _).mem_iff.mpr (mem_map_of_mem hj)

theorem safe_removeJournal (h : Consistent d)
    (hdrop : Consistent (d.dropJournal plan)) (hf : ApplySafe Q (f ()) (d.dropJournal plan)) :
    ApplySafe Q (removeJournal plan text >>= f) d := by
  refine ⟨h, trivial, fun outcome x d' hexec => ?_⟩
  obtain ⟨rfl, rfl⟩ | ⟨message, rfl, rfl | rfl⟩ := changing_eq_some (exec_of_guard hexec).2
  · exact hf
  · exact apply_fail hQ h _
  · exact apply_fail hQ hdrop _

end

theorem safe_clock {f : ℤ → ApplyProg β} (h : Consistent d) (hf : ∀ t, ApplySafe Q (f t) d) :
    ApplySafe Q (clock >>= f) d := by
  refine ⟨h, trivial, fun outcome x d' hexec => ?_⟩
  cases outcome with
  | time t =>
    cases hexec
    exact hf _
  | _ => cases hexec

theorem safe_restore {f : Except String Unit → ApplyProg β} (h : Undoing d j)
    (hok : ApplySafe Q (f (.ok ())) (d.putState j.plan.name j.previousState))
    (herror : ∀ message d', Undoing d' j → d'.effects = d.effects →
      ApplySafe Q (f (.error message)) d') :
    ApplySafe Q (restoreDeploymentState j >>= f) d := by
  unfold restoreDeploymentState
  cases hstate : j.previousState with
  | none | some _ =>
    refine ⟨h.consistent, trivial, fun outcome x d' hexec => ?_⟩
    rw [hstate] at hok
    obtain ⟨rfl, rfl⟩ | ⟨message, rfl, rfl | rfl⟩ := changing_eq_some (exec_of_guard hexec).2
    · exact hok
    · exact herror message _ h rfl
    · exact herror message _ (hstate ▸ h.restored) rfl

variable {index : ℕ}

theorem rollback_eq_some {compensator : Bool} {x : Except String Unit}
    (h : execApply (.rollback plan index compensator) outcome d = some (x, d')) :
    (x = .ok () ∧ d' = d.putEffect plan index false) ∨ ∃ message, x = .error message ∧ d' = d := by
  cases outcome with
  | works =>
    cases h
    exact .inl ⟨rfl, rfl⟩
  | fails message =>
    cases h
    exact .inr ⟨message, rfl, rfl⟩
  | _ => cases h

theorem putEffect_left {left : List ℕ} (h : ∀ i, d.effects plan i = true → i ∈ index :: left) :
    ∀ i, (d.putEffect plan index false).effects plan i = true → i ∈ left := by
  intro i hi
  simp only [Deployments.putEffect] at hi
  split_ifs at hi with he
  rcases mem_cons.mp (h i hi) with rfl | hmem
  · exact absurd ⟨trivial, rfl⟩ he
  · exact hmem

/-! ## Rollback by the call -/

theorem safe_rollbackState {f : List String → ApplyProg β} (h : Undoing d j)
    (hf : ∀ errors d', Undoing d' j → d'.effects = d.effects →
      (errors = [] → d'.states j.plan.name = d'.settled j.plan.name) →
      ApplySafe Q (f errors) d') : ApplySafe Q (rollbackState j >>= f) d := by
  rw [rollbackState, if_pos h.restore, Prog.bind_assoc]
  refine safe_restore h (hf [] _ h.restored rfl fun _ => ?_) fun message d' hd' he => ?_
  · simp only [Deployments.putState, if_true]
    exact h.previous
  · exact hf _ d' hd' he fun h => by cases h

variable {compensators : ℕ}

theorem safe_rollbackEach {l : List (ℕ × ℕ)} {f : List String → ApplyProg β} (h : Undoing d j)
    (hf : ∀ errors d', Undoing d' j → d'.states = d.states → d'.settled = d.settled →
      (errors = [] → (∀ i, d.effects j.plan i = true → i ∈ l.map Prod.fst) →
        ∀ i, d'.effects j.plan i = false) → ApplySafe Q (f errors) d') :
    ApplySafe Q (rollbackEach j.plan compensators l >>= f) d := by
  induction l generalizing d f with
  | nil =>
    refine hf [] d h rfl rfl fun _ hleft i => ?_
    exact Bool.eq_false_iff.mpr fun hi => not_mem_nil (hleft i hi)
  | cons x rest ih =>
    refine ⟨h.consistent, trivial, fun outcome x d' hexec => ?_⟩
    obtain ⟨rfl, rfl⟩ | ⟨message, rfl, rfl⟩ := rollback_eq_some (exec_of_guard hexec).2
    · change ApplySafe Q ((rollbackEach j.plan compensators rest >>= fun errors => _) >>= f) _
      rw [Prog.bind_assoc]
      refine ih (h.putEffect nofun) fun errors d' hd' hstates hsettled hall => ?_
      exact hf errors d' hd' hstates hsettled fun hnil hleft => hall hnil (putEffect_left hleft)
    · change ApplySafe Q ((rollbackEach j.plan compensators rest >>= fun errors => _) >>= f) _
      rw [Prog.bind_assoc]
      refine ih h fun errors d' hd' hstates hsettled _ => ?_
      exact hf _ d' hd' hstates hsettled nofun

theorem safe_rollbackDone {errors : List String} (h : Undoing d j)
    (hdone : errors = [] → (∀ i, d.effects j.plan i = false) ∧
      d.states j.plan.name = d.settled j.plan.name)
    (hf : ∀ d', Consistent d' → ApplySafe Q (f ()) d') :
    ApplySafe Q (rollbackDone j.plan errors >>= f) d := by
  unfold rollbackDone
  split_ifs with hnil
  · have hdrop := h.drop (hdone hnil).1 (hdone hnil).2
    refine ⟨h.consistent, trivial, fun outcome x d' hexec => ?_⟩
    obtain ⟨rfl, rfl⟩ | ⟨message, rfl, rfl | rfl⟩ := changing_eq_some (exec_of_guard hexec).2
    · exact hf _ hdrop
    · exact hf _ h.consistent
    · exact hf _ hdrop
  · exact hf d h.consistent

theorem safe_rollbackProviders {cause : String} (hQ : Lenient Q) (h : Undoing d j)
    (heffects : ∀ i, d.effects j.plan i = true → i ∈ j.applied) :
    ApplySafe Q (rollbackProviders j compensators cause) d := by
  refine safe_rollbackState h fun stateErrors d₁ h₁ he₁ hstate => ?_
  refine safe_rollbackEach h₁ fun errors d₂ h₂ hstates hsettled hall => ?_
  refine safe_rollbackDone h₂ (fun hnil => ?_) fun d₃ h₃ => apply_fail hQ h₃ _
  obtain ⟨hnil₁, hnil₂⟩ := append_eq_nil_iff.mp hnil
  refine ⟨hall hnil₂ fun i hi => ?_, ?_⟩
  · rw [he₁] at hi
    rw [map_reverse, zipIdx_map_fst]
    exact mem_reverse.mpr (heffects i hi)
  · rw [hstates, hsettled]
    exact hstate hnil₁

/-! ## Recovery -/

theorem safe_recoverState (hQ : Lenient Q) (h : Undoing d j)
    (hf : ∀ d', Undoing d' j → d'.effects = d.effects → d'.journals = d.journals →
      d'.states j.plan.name = d'.settled j.plan.name → ApplySafe Q (f ()) d') :
    ApplySafe Q (recoverState j >>= f) d := by
  rw [recoverState, if_pos h.restore, Prog.bind_assoc]
  refine safe_restore h (hf _ h.restored rfl rfl ?_) fun message d' hd' _ => ?_
  · simp only [Deployments.putState, if_true]
    exact h.previous
  · exact apply_fail hQ hd'.consistent _

theorem safe_recoverProviders {l : List ℕ} (hQ : Lenient Q) (h : Undoing d j)
    (hleft : ∀ i, d.effects j.plan i = true → i ∈ l)
    (hf : ∀ d', Undoing d' j → d'.states = d.states → d'.settled = d.settled →
      d'.journals = d.journals → (∀ i, d'.effects j.plan i = false) → ApplySafe Q (f ()) d') :
    ApplySafe Q (recoverProviders j.plan l >>= f) d := by
  induction l generalizing d with
  | nil =>
    refine hf d h rfl rfl rfl fun i => ?_
    exact Bool.eq_false_iff.mpr fun hi => not_mem_nil (hleft i hi)
  | cons index rest ih =>
    rw [recoverProviders]
    split_ifs
    · exact apply_fail hQ h.consistent _
    · refine ⟨h.consistent, trivial, fun outcome x d' hexec => ?_⟩
      obtain ⟨rfl, rfl⟩ | ⟨message, rfl, rfl⟩ := rollback_eq_some (exec_of_guard hexec).2
      · exact ih (h.putEffect nofun) (putEffect_left hleft) hf
      · exact apply_fail hQ h.consistent _

theorem Consistent.undoing (h : Consistent d) (hj : j ∈ d.journals)
    (hfresh : d.receipts j.plan = none) : Undoing d j where
  consistent := h
  fresh := hfresh
  own j' hj' := congrArg Journal.plan (h.single j' hj' j hj)
  restore := (h.previous j hj hfresh).1
  previous := (h.previous j hj hfresh).2

theorem safe_recoverJournal (hQ : Lenient Q) (h : Consistent d) (hj : j ∈ d.journals)
    (hf : ∀ d', Consistent d' → (∀ j' ∈ d'.journals, j' ∈ d.journals ∧ j'.plan ≠ j.plan) →
      ApplySafe Q (f ()) d') : ApplySafe Q (recoverJournal j >>= f) d := by
  rw [recoverJournal, Prog.bind_assoc]
  refine safe_readReceipt hQ h ?_
  split
  · rename_i r hr
    have hsome : d.receipts j.plan ≠ none := by
      rw [hr]
      exact Option.some_ne_none r
    exact safe_removeJournal hQ h (h.drop_committed hsome)
      (hf _ (h.drop_committed hsome) fun _ => mem_dropJournal.mp)
  · rename_i hr
    have hundoing := h.undoing hj hr
    split_ifs
    · exact apply_fail hQ h _
    · rw [Prog.bind_assoc]
      refine safe_recoverState hQ hundoing fun d₁ h₁ he₁ hj₁ hstate => ?_
      rw [Prog.bind_assoc]
      refine safe_recoverProviders hQ h₁ (fun i hi => ?_) fun d₂ h₂ hs₂ hset₂ hj₂ hnone => ?_
      · rw [he₁] at hi
        exact mem_reverse.mpr (h.logged j hj hr i hi)
      · have hdrop := h₂.drop hnone (by rw [hs₂, hset₂]; exact hstate)
        refine safe_removeJournal hQ h₂.consistent hdrop (hf _ hdrop fun j' hj' => ?_)
        rw [mem_dropJournal, hj₂, hj₁] at hj'
        exact hj'

theorem safe_recoverEach {plans : List Plan} (hQ : Lenient Q) (h : Consistent d)
    (hplans : ∀ j ∈ d.journals, j.plan ∈ plans)
    (hf : ∀ d', Consistent d' → d'.journals = [] → ApplySafe Q (f ()) d') :
    ApplySafe Q (recoverEach plans >>= f) d := by
  induction plans generalizing d with
  | nil => exact hf d h (eq_nil_iff_forall_not_mem.mpr fun j hj => not_mem_nil (hplans j hj))
  | cons p rest ih =>
    rw [recoverEach, Prog.bind_assoc]
    refine safe_readJournal hQ h ?_
    rw [Prog.bind_assoc]
    cases hfind : d.journal p with
    | none => exact apply_fail hQ h _
    | some j =>
      have hfound : d.journals.find? (fun j => decide (j.plan = p)) = some j := hfind
      have hp := find?_some hfound
      rw [decide_eq_true_eq] at hp
      refine (Prog.bind_assoc _ _ f).symm ▸ safe_recoverJournal hQ h (mem_of_find?_eq_some hfind)
        fun d' hd' hless => ih hd' fun j' hj' => ?_
      obtain ⟨hmem, hne⟩ := hless j' hj'
      exact (mem_cons.mp (hplans j' hmem)).resolve_left fun he => hne (he.trans hp.symm)

theorem safe_recoverDeploymentJournals (hQ : Lenient Q) (h : Consistent d)
    (hf : ∀ d', Consistent d' → d'.journals = [] → ApplySafe Q (f ()) d') :
    ApplySafe Q (recoverDeploymentJournals >>= f) d := by
  rw [recoverDeploymentJournals, Prog.bind_assoc]
  exact safe_listJournals hQ h fun plans hplans => safe_recoverEach hQ h hplans hf

/-! ## Application -/

structure Applying (d : Deployments) (j : Journal) (written : Bool) : Prop where
  undoing : Undoing d j
  effects : ∀ i, d.effects j.plan i = true → i ∈ j.applied
  written : written = true → j ∈ d.journals

variable {written : Bool}

theorem Applying.safe_rollback {cause : String} {f : α → ApplyProg β} (hQ : Lenient Q)
    (h : Applying d j written) : ApplySafe Q (rollbackProviders j compensators cause >>= f) d := by
  have hsafe : ApplySafe (Prog.Then (fun _ _ => False) Q)
      (rollbackProviders j compensators cause : ApplyProg α) d :=
    safe_rollbackProviders hQ h.undoing h.effects
  exact Prog.Safe.bind hsafe fun _ _ _ hfalse => hfalse.elim

theorem Applying.journaled (h : Applying d j written) : Applying (d.putJournal j) j true :=
  ⟨(h.undoing.journaled h.effects).1, h.effects, fun _ => (h.undoing.journaled h.effects).2⟩

theorem Applying.next (h : Applying d j written) (index : ℕ) :
    Applying d { j with applied := j.applied ++ [index] } false where
  undoing := ⟨h.undoing.consistent, h.undoing.fresh, h.undoing.own, h.undoing.restore,
    h.undoing.previous⟩
  effects i hi := mem_append_left _ (h.effects i hi)
  written hw := by cases hw

theorem Applying.applied (h : Applying d j true) (hi : index ∈ j.applied) :
    Applying (d.putEffect j.plan index true) j true where
  undoing := h.undoing.putEffect fun _ => ⟨h.written rfl, hi⟩
  effects i he := by
    simp only [Deployments.putEffect] at he
    split_ifs at he with hi'
    · exact hi'.2 ▸ hi
    · exact h.effects i he
  written := h.written

theorem safe_applyProviders {l : List (ProviderStep × ℕ)}
    {f : Journal × ℕ × Bool → ApplyProg β} (hQ : Lenient Q) (h : Applying d j written)
    (before : List (ProviderStep × ℕ))
    (hbefore : ∀ x ∈ before, x.1.requiresApply = true → d.effects j.plan x.2 = true)
    (hf : ∀ j' compensators' written' d', j'.plan = j.plan → Applying d' j' written' →
      (∀ x ∈ before ++ l, x.1.requiresApply = true → d'.effects j.plan x.2 = true) →
      ApplySafe Q (f (j', compensators', written')) d') :
    ApplySafe Q (applyProviders j compensators written l >>= f) d := by
  induction l generalizing d j compensators written before with
  | nil => exact hf j compensators written d rfl h (by rwa [append_nil])
  | cons x rest ih =>
    obtain ⟨step, index⟩ := x
    have hsplit : before ++ [(step, index)] ++ rest = before ++ (step, index) :: rest := by simp
    rw [applyProviders]
    split_ifs with hskip
    · -- nothing is to be done for this one
      refine ih h (before ++ [(step, index)]) (fun x hx happly => ?_) (hsplit ▸ hf)
      rcases mem_append.mp hx with hx | hx
      · exact hbefore x hx happly
      · rw [mem_singleton.mp hx] at happly
        cases hskip.symm.trans happly
    · have hnext := h.next index
      have hjournaled := hnext.journaled
      have happlied := hjournaled.applied
        (mem_append_right j.applied (mem_singleton_self index))
      refine ⟨h.undoing.consistent, trivial, fun outcome x d' hexec => ?_⟩
      obtain ⟨rfl, rfl⟩ | ⟨message, rfl, rfl | rfl⟩ := changing_eq_some (exec_of_guard hexec).2
      · refine ⟨hjournaled.undoing.consistent, trivial, fun outcome y d' hexec => ?_⟩
        cases outcome with
        | works =>
          cases hexec
          refine ih happlied (before ++ [(step, index)]) (fun x hx happly => ?_) (hsplit ▸ hf)
          simp only [Deployments.putEffect]
          split_ifs with he
          · rfl
          · rcases mem_append.mp hx with hx | hx
            · exact hbefore x hx happly
            · rw [mem_singleton.mp hx] at he
              exact absurd ⟨trivial, rfl⟩ he
        | bare =>
          cases hexec
          exact happlied.safe_rollback hQ
        | fails message =>
          cases hexec
          exact hjournaled.safe_rollback hQ
        | _ => cases hexec
      · exact hnext.safe_rollback hQ
      · exact hjournaled.safe_rollback hQ

theorem safe_ensureJournal (hQ : Lenient Q) (h : Applying d j written)
    (hf : ∀ d', Applying d' j true → d'.effects = d.effects → ApplySafe Q (f ()) d') :
    ApplySafe Q (ensureJournal j compensators written >>= f) d := by
  unfold ensureJournal
  split_ifs with hw
  · exact hf d ⟨h.undoing, h.effects, fun _ => h.written hw⟩ rfl
  · refine ⟨h.undoing.consistent, trivial, fun outcome x d' hexec => ?_⟩
    obtain ⟨rfl, rfl⟩ | ⟨message, rfl, rfl | rfl⟩ := changing_eq_some (exec_of_guard hexec).2
    · exact hf _ h.journaled rfl
    · exact h.safe_rollback hQ
    · exact h.journaled.safe_rollback hQ

theorem safe_publishState {receipt : Receipt} (hQ : Lenient Q) (h : Applying d j true)
    (hf : ∀ d', Applying d' j true → d'.effects = d.effects → ApplySafe Q (f ()) d') :
    ApplySafe Q (publishState j compensators receipt >>= f) d := by
  have hstated : Applying (d.putState j.plan.name (some receipt)) j true :=
    ⟨h.undoing.stated (h.written rfl), h.effects, h.written⟩
  refine ⟨h.undoing.consistent, trivial, fun outcome x d' hexec => ?_⟩
  obtain ⟨rfl, rfl⟩ | ⟨message, rfl, rfl | rfl⟩ := changing_eq_some (exec_of_guard hexec).2
  · exact hf _ hstated rfl
  · exact h.safe_rollback hQ
  · exact hstated.safe_rollback hQ

theorem safe_publishReceipt {receipt : Receipt} (hQ : Lenient Q) (h : Applying d j true)
    (hf : ApplySafe Q (f ()) (d.putReceipt receipt)) :
    ApplySafe Q (publishReceipt j compensators receipt >>= f) d := by
  refine ⟨h.undoing.consistent, trivial, fun outcome x d' hexec => ?_⟩
  obtain ⟨hreported, hexec⟩ := exec_of_guard hexec
  cases outcome with
  | works =>
    cases hexec
    exact hf
  | fails message =>
    cases hexec
    exact h.safe_rollback hQ
  | failsAfter message => cases hreported
  | _ => cases hexec

end

def ApplyPost (plan : Plan) (r : Except (List String) Receipt) (d : Deployments) : Prop :=
  ∀ receipt, r = .ok receipt → d.receipts plan ≠ none

theorem lenient_applyPost {plan : Plan} : Lenient (ApplyPost plan) :=
  nofun

section

variable {d d' : Deployments} {plan : Plan}

theorem safe_install (h : Consistent d) (hjournals : d.journals = [])
    (hfresh : d.receipts plan = none) : ApplySafe (ApplyPost plan) (install plan) d := by
  have hnone : ∀ j, j ∉ d.journals := by
    intro j hj
    rw [hjournals] at hj
    cases hj
  have happlying : Applying d ⟨plan, [], true, d.states plan.name, false⟩ false := by
    refine ⟨⟨h, hfresh, fun j hj => absurd hj (hnone j), rfl, ?_⟩, fun i hi => ?_, nofun⟩
    · exact h.state plan.name fun j hj => absurd hj (hnone j)
    · have hfalse := h.untouched plan hfresh (fun j hj => absurd hj (hnone j)) i
      cases hfalse.symm.trans hi
  refine safe_readState lenient_applyPost h ?_
  refine safe_applyProviders lenient_applyPost happlying [] nofun ?_
  intro j compensators written d₁ hplan h₁ hall
  refine safe_clock h₁.undoing.consistent fun appliedAt => ?_
  refine safe_ensureJournal lenient_applyPost h₁ fun d₂ h₂ he₂ => ?_
  refine safe_publishState lenient_applyPost h₂ fun d₃ h₃ he₃ => ?_
  -- all effects are there when the receipt is published
  have hcommitted : Consistent (d₃.putReceipt ⟨plan, appliedAt⟩) := by
    refine h₃.undoing.committed hplan.symm fun x hx happly => ?_
    rw [hplan] at hx ⊢
    rw [he₃, he₂]
    exact hall x hx happly
  have hsome : (d₃.putReceipt ⟨plan, appliedAt⟩).receipts plan ≠ none := by
    simp [Deployments.putReceipt]
  refine safe_publishReceipt lenient_applyPost h₃ ⟨hcommitted, trivial, fun outcome x d' hexec => ?_⟩
  have hdrop := hcommitted.drop_committed hsome
  obtain ⟨rfl, rfl⟩ | ⟨message, rfl, rfl | rfl⟩ := changing_eq_some (exec_of_guard hexec).2
  · exact ⟨hdrop, fun _ _ => hsome⟩
  · exact ⟨hcommitted, fun _ _ => hsome⟩
  · exact ⟨hdrop, fun _ _ => hsome⟩

theorem safe_applyLocked (h : Consistent d) : ApplySafe (ApplyPost plan) (applyLocked plan) d := by
  refine safe_ensure lenient_applyPost h ?_
  refine safe_recoverDeploymentJournals lenient_applyPost h fun d₁ h₁ hjournals => ?_
  refine safe_readReceipt lenient_applyPost h₁ ?_
  split
  · rename_i r hr
    refine ⟨h₁, fun _ _ => ?_⟩
    rw [hr]
    exact Option.some_ne_none r
  · rename_i hr
    exact safe_ensure lenient_applyPost h₁ (safe_install h₁ hjournals hr)

theorem safe_applyDeploymentPlan (h : Consistent d) :
    ApplySafe (ApplyPost plan) (applyDeploymentPlan plan) d := by
  refine safe_ensure lenient_applyPost h ?_
  refine safe_readReceipt lenient_applyPost h ?_
  split
  · exact safe_applyLocked h
  · rename_i r hr
    refine safe_readJournal lenient_applyPost h ?_
    split
    · refine ⟨h, fun _ _ => ?_⟩
      rw [hr]
      exact Option.some_ne_none r
    · exact safe_applyLocked h

theorem execApply_receipts {o : ApplyOp} {x : ApplyReply o}
    (h : execApply o outcome d = some (x, d')) (hp : d.receipts plan ≠ none) :
    d'.receipts plan ≠ none := by
  have hreading : ∀ {α : Type} {value : α} {x : Except String α},
      reading outcome d value = some (x, d') → d'.receipts plan ≠ none := by
    intro α value x h
    rw [(reading_eq_some h).1]
    exact hp
  have hchanging : ∀ {d₁ : Deployments} {x : Except String Unit},
      changing outcome d d₁ = some (x, d') → d₁.receipts plan ≠ none →
      d'.receipts plan ≠ none := by
    intro d₁ x h hp₁
    rcases changing_eq_some h with ⟨-, rfl⟩ | ⟨message, -, rfl | rfl⟩
    · exact hp₁
    · exact hp
    · exact hp₁
  cases o with
  | check | readReceipt | readJournal | listJournals | readState => exact hreading h
  | writeJournal | removeJournal | writeState | removeState => exact hchanging h hp
  | writeReceipt r =>
    refine hchanging h ?_
    simp only [Deployments.putReceipt]
    split_ifs
    · exact Option.some_ne_none r
    · exact hp
  | apply p i =>
    cases outcome with
    | works | bare | fails =>
      cases h
      exact hp
    | _ => cases h
  | rollback p i compensator =>
    rcases rollback_eq_some h with ⟨-, rfl⟩ | ⟨message, -, rfl⟩
    · exact hp
    · exact hp
  | now =>
    cases outcome with
    | time t =>
      cases h
      exact hp
    | _ => cases h

end

def applyRule : (deployments.guard reported).Rule where
  I _ d := Consistent d
  Pre _ _ := True
  Out _ plan r d := ApplyPost plan r d
  body _ _ _ h := (safe_applyDeploymentPlan h).mono fun _ _ hd' hpost => ⟨hd', hpost⟩
  crash _ _ h := h
  out_exec _ _ _ _ _ _ _ _ h hexec receipt hr :=
    execApply_receipts (exec_of_guard hexec).2 (h receipt hr)
  out_enter _ _ _ _ _ _ _ h := h
  out_leave _ _ _ _ _ _ _ h := h
  out_crash _ _ _ _ h := h

def Deployments.fresh (states : String → Option Receipt) : Deployments :=
  ⟨[], fun _ => none, states, fun _ _ => false, states⟩

theorem fresh_consistent (states : String → Option Receipt) : Consistent (.fresh states) where
  single _ hj := by cases hj
  receipt _ hp := absurd rfl hp
  untouched _ _ _ _ := rfl
  logged _ hj := by cases hj
  previous _ hj := by cases hj
  state _ _ := rfl

/-- In every sequence of calls in which no write of a receipt fails after the receipt was
published: the effects of a plan are there from the moment at which a call returns its receipt;
and a plan without a journal and without a receipt has no effects, and the state is that from
before, unless another plan of the deployment is being applied. -/
theorem receipts_truthful {ι : Type} [DecidableEq ι] {states : String → Option Receipt}
    {s : Service.State ι Plan ApplyOp ApplyReply (List String) Receipt Deployments}
    (hrun : Run (Service.step deployments) (fun s event => Service.allows reported s event = true)
      (Service.initial (.fresh states)) s) :
    (∀ a ∈ s.returned, ∀ receipt, a.result = .ok receipt → ∀ x ∈ a.call.providers.zipIdx,
      x.1.requiresApply = true → s.shared.effects a.call x.2 = true) ∧
    ∀ plan, s.shared.receipts plan = none → s.shared.journal plan = none →
      (∀ i, s.shared.effects plan i = false) ∧
      ((∀ j ∈ s.shared.journals, j.plan.name = plan.name → s.shared.receipts j.plan ≠ none) →
        s.shared.states plan.name = s.shared.settled plan.name) := by
  have hsound : applyRule.Sound s :=
    Service.Rule.sound applyRule (fresh_consistent states) (Service.run_guard hrun)
  have hconsistent : Consistent s.shared := hsound.shared
  refine ⟨fun a ha receipt hr => ?_, fun plan hfresh hjournal => ⟨?_, hconsistent.state plan.name⟩⟩
  · exact hconsistent.receipt a.call ((hsound.returned a ha).2.1 receipt hr)
  · refine hconsistent.untouched plan hfresh fun j hj hplan => ?_
    exact find?_eq_none.mp hjournal j hj (decide_eq_true hplan)

namespace Deploying

def plan : Plan := ⟨"sha256:1", "production", [⟨"app/provider/postgres", true⟩]⟩

def call (outcomes : List Outcome) : List (Service.Event Unit Plan Outcome) :=
  [.call () plan, .enter ()] ++ outcomes.map (.act ()) ++ [.leave (), .answer ()]

def prepare : List Outcome :=
  [.works, .works, .works, .works, .works, .works, .works, .works, .works, .time 1, .works]

abbrev History : Type :=
  Service.State Unit Plan ApplyOp ApplyReply (List String) Receipt Deployments

end Deploying

theorem receipts_truthful_applied :
    ∃ s : Deploying.History, Run (Service.step deployments)
        (fun s event => Service.allows reported s event = true)
        (Service.initial (.fresh fun _ => none)) s ∧
      ∃ a ∈ s.returned, a.call = Deploying.plan ∧ a.result = .ok ⟨Deploying.plan, 1⟩ ∧
        s.shared.effects Deploying.plan 0 = true := by
  refine Run.exists_of_decide
    (P := fun s => ∃ a ∈ s.returned, a.call = Deploying.plan ∧ a.result = .ok ⟨Deploying.plan, 1⟩)
    (Deploying.call (Deploying.prepare ++ [.works, .works])) (by decide +kernel)
    fun s hrun ⟨a, ha, hcall, hresult⟩ => ⟨a, ha, hcall, hresult, ?_⟩
  have heffects := (receipts_truthful hrun).1 a ha _ hresult
  rw [hcall] at heffects
  exact heffects (⟨"app/provider/postgres", true⟩, 0) mem_cons_self rfl

/-- The directory sync after the rename of the receipt fails: the providers are rolled back and
the journal is removed, and a later call returns the receipt. -/
theorem receipt_after_rollback :
    ∃ s : Deploying.History, Run (Service.step deployments) (fun _ _ => True)
        (Service.initial (.fresh fun _ => none)) s ∧
      ∃ a ∈ s.returned, a.call = Deploying.plan ∧ a.result = .ok ⟨Deploying.plan, 1⟩ ∧
        s.shared.effects Deploying.plan 0 = false :=
  Run.exists_decide
    (Deploying.call (Deploying.prepare ++ [.failsAfter "sync", .works, .works, .works]) ++
      Deploying.call [.works, .works, .works]) (by decide +kernel)

end Scenery.Deploy
