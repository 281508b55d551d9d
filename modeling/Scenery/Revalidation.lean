import Mathlib.Tactic.ByContra
import Mathlib.Tactic.SplitIfs
import Scenery.Outcome
import Scenery.Preconditions

/-!
# Do planning and application agree on preconditions?

A plan records operations that were checked one after the other, each on the graph the operations
before it had produced.
-/

namespace Scenery

open List

variable {operations : List SemanticOperation}

section

variable {C : Scalars} {ω : Type} {R : Sourcing ω}

/-! ## Checks as propositions -/

structure ChangePrecondition.Holds (C : Scalars) (pre : ChangePrecondition) (resource : Resource)
    (path : String) : Prop where
  existing : ∀ b, pre.existing = some b → (resourcePointerValue C resource path).isSome = b
  absent : pre.absent = true → resourcePointerValue C resource path = none
  equals : ∀ expected, pre.equals = some expected →
    ∃ value, resourcePointerValue C resource path = some value ∧
      value.semanticEqual C expected = true

variable {operation : SemanticOperation}

theorem checkChangePrecondition_some {resource : Resource} {pre : ChangePrecondition}
    (hpre : operation.precondition = some pre) :
    checkChangePrecondition C resource operation = .ok () ↔
      pre.Holds C resource operation.path := by
  obtain ⟨existing, absent, equals⟩ := pre
  simp only [checkChangePrecondition, hpre]
  split_ifs with hexists habsent
  · -- presence is demanded otherwise
    refine iff_of_false nofun fun h => ?_
    obtain ⟨b, hb⟩ := Option.isSome_iff_exists.mp hexists.1
    rw [hb, h.existing b hb] at hexists
    exact hexists.2 rfl
  · refine iff_of_false nofun fun h => ?_
    rw [h.absent habsent.1] at habsent
    cases habsent.2
  · have hpresent : ∀ b, existing = some b →
        (resourcePointerValue C resource operation.path).isSome = b := by
      intro b hb
      by_contra hne
      refine hexists ⟨by rw [hb]; rfl, fun h => hne ?_⟩
      rw [hb] at h
      exact (Option.some.inj h).symm
    have hgone : absent = true → resourcePointerValue C resource operation.path = none := by
      intro ha
      by_contra hne
      exact habsent ⟨ha, Option.isSome_iff_ne_none.mpr hne⟩
    cases equals with
    | none => exact iff_of_true rfl ⟨hpresent, hgone, nofun⟩
    | some expected =>
      cases hval : resourcePointerValue C resource operation.path with
      | none =>
        refine iff_of_false nofun fun h => ?_
        obtain ⟨value, hv, -⟩ := h.equals expected rfl
        rw [hval] at hv
        cases hv
      | some value =>
        rw [hval] at hpresent hgone
        by_cases heq : value.semanticEqual C expected = true
        · refine iff_of_true (if_pos heq) ⟨?_, ?_, ?_⟩
          · rw [hval]
            exact hpresent
          · rw [hval]
            exact hgone
          · rintro _ ⟨⟩
            exact ⟨value, hval, heq⟩
        · refine iff_of_false (fun h => ?_) fun h => ?_
          · simp only [if_neg heq] at h
            cases h
          · obtain ⟨v, hv, hsem⟩ := h.equals expected rfl
            rw [hval] at hv
            cases hv
            exact heq hsem

variable {graph : Graph}

theorem validateSemanticOperationExpectation_eq_ok :
    validateSemanticOperationExpectation C operation graph = .ok () ↔
      (semanticOperationKind operation (some graph) ≠ "" →
        (operation.expectedKind = "" ∨
          operation.expectedKind = semanticOperationKind operation (some graph)) ∧
        (operation.expectedSchemaRevision = "" ∨ operation.expectedSchemaRevision =
          C.resourceSchemaRevision (semanticOperationKind operation (some graph)))) := by
  simp only [validateSemanticOperationExpectation]
  split_ifs with hkind hexpected hrevision
  · exact iff_of_true rfl fun h => absurd hkind h
  · refine iff_of_false nofun fun h => ?_
    rcases (h hkind).1 with h | h
    · exact hexpected.1 h
    · exact hexpected.2 h
  · refine iff_of_false nofun fun h => ?_
    rcases (h hkind).2 with h | h
    · exact hrevision.1 h
    · exact hrevision.2 h
  · refine iff_of_true rfl fun _ => ⟨?_, ?_⟩
    · by_contra hne
      rw [not_or] at hne
      exact hexpected hne
    · by_contra hne
      rw [not_or] at hne
      exact hrevision hne

def Revalidates (C : Scalars) (base : Graph) (operation : SemanticOperation) : Prop :=
  validateSemanticOperationExpectation C operation base = .ok () ∧
    (operation.op ≠ .resourceCreate → ∀ pre, operation.precondition = some pre →
      ∃ resource, resourcesByAddress (some base) operation.address = some resource ∧
        pre.Holds C resource operation.path)

theorem revalidateChangePreconditions_eq_ok {base : Graph} :
    revalidateChangePreconditions C base operations = .ok () ↔
      ∀ operation ∈ operations, Revalidates C base operation := by
  induction operations with
  | nil => simp [revalidateChangePreconditions]
  | cons operation rest ih =>
    rw [forall_mem_cons, ← ih, revalidateChangePreconditions, Revalidates]
    cases hexpect : validateSemanticOperationExpectation C operation base with
    | error e => simp [bind, Except.bind]
    | ok u =>
      simp only [bind, Except.bind, true_and]
      split_ifs with hskip
      · refine (and_iff_right ?_).symm
        intro hop pre hpre
        rcases hskip with hnone | hcreate
        · rw [hpre] at hnone
          cases hnone
        · exact absurd hcreate hop
      · rw [not_or, Option.isNone_iff_eq_none] at hskip
        obtain ⟨pre, hpre⟩ := Option.ne_none_iff_exists'.mp hskip.1
        cases hfind : resourcesByAddress (some base) operation.address with
        | none =>
          refine iff_of_false nofun fun h => ?_
          obtain ⟨resource, hr, -⟩ := h.1 hskip.2 pre hpre
          cases hr
        | some resource =>
          dsimp only
          have hcheck : checkChangePrecondition C resource operation = .ok () ↔
              pre.Holds C resource operation.path := checkChangePrecondition_some hpre
          by_cases hholds : pre.Holds C resource operation.path
          · rw [hcheck.mpr hholds]
            refine (and_iff_right ?_).symm
            intro _ pre' hpre'
            obtain rfl := Option.some.inj (hpre.symm.trans hpre')
            exact ⟨resource, rfl, hholds⟩
          · have hne : ∃ e, checkChangePrecondition C resource operation = .error e := by
              cases hres : checkChangePrecondition C resource operation with
              | error e => exact ⟨e, rfl⟩
              | ok u => exact absurd (hcheck.mp hres) hholds
            obtain ⟨e, he⟩ := hne
            rw [he]
            refine iff_of_false nofun fun h => ?_
            obtain ⟨r, hr, hh⟩ := h.1 hskip.2 pre hpre
            cases hr
            exact hholds hh

/-! ## What a plan records -/

def Identified (C : Scalars) (graph : Graph) (operation : SemanticOperation) : Prop :=
  semanticOperationKind operation (some graph) ≠ "" →
    operation.expectedKind = semanticOperationKind operation (some graph) ∧
    operation.expectedSchemaRevision =
      C.resourceSchemaRevision (semanticOperationKind operation (some graph))

theorem semanticOperationKind_congr {a b : SemanticOperation} (hop : a.op = b.op)
    (haddress : a.address = b.address) (graph : Option Graph) :
    semanticOperationKind a graph = semanticOperationKind b graph := by
  rw [semanticOperationKind, semanticOperationKind, hop, haddress]

theorem semanticOperationKind_create (hop : operation.op = .resourceCreate) (g g' : Option Graph) :
    semanticOperationKind operation g = semanticOperationKind operation g' := by
  rw [semanticOperationKind, semanticOperationKind, if_pos hop, if_pos hop]

section

variable (operation : SemanticOperation) (graph base predicted : Option Graph)

@[simp] theorem op_normalizeIdentity :
    (normalizeSemanticOperationIdentity C operation graph).op = operation.op := by
  rw [normalizeSemanticOperationIdentity]
  split <;> rfl

@[simp] theorem address_normalizeIdentity :
    (normalizeSemanticOperationIdentity C operation graph).address = operation.address := by
  rw [normalizeSemanticOperationIdentity]
  split <;> rfl

@[simp] theorem path_normalizeIdentity :
    (normalizeSemanticOperationIdentity C operation graph).path = operation.path := by
  rw [normalizeSemanticOperationIdentity]
  split <;> rfl

@[simp] theorem precondition_normalizeIdentity :
    (normalizeSemanticOperationIdentity C operation graph).precondition =
      operation.precondition := by
  rw [normalizeSemanticOperationIdentity]
  split <;> rfl

theorem normalizeValues_eq :
    ∃ value, normalizeSemanticOperationValues C operation base predicted =
      { normalizeSemanticOperationIdentity C operation
          (if operation.op = .resourceCreate ∧ predicted.isSome then predicted else base) with
        precondition := operation.precondition.map (presentPrecondition C base operation)
        value := value } := by
  have hpresent : presentPrecondition C base (normalizeSemanticOperationIdentity C operation
      (if operation.op = .resourceCreate ∧ predicted.isSome then predicted else base)) =
      presentPrecondition C base operation := by
    funext pre
    simp [presentPrecondition, currentValue]
  simp only [normalizeSemanticOperationValues, hpresent, precondition_normalizeIdentity]
  split
  · split <;> exact ⟨_, rfl⟩
  · split <;> exact ⟨_, rfl⟩
  · split <;> exact ⟨_, rfl⟩
  · exact ⟨_, rfl⟩

end

def PlannedOperation.shown (C : Scalars) (p : PlannedOperation) (pre : ChangePrecondition) :
    ChangePrecondition :=
  if p.presented then presentPrecondition C (some p.before) p.requested pre else pre

/-- The recorded operation addresses what was requested, with the identity of the graph it
was planned on, which has its resource. -/
structure PlannedOperation.Admitted (C : Scalars) (p : PlannedOperation) : Prop where
  op : p.recorded.op = p.requested.op
  address : p.recorded.address = p.requested.address
  path : p.recorded.path = p.requested.path
  identified : Identified C p.before p.recorded
  resource : p.requested.op ≠ .resourceCreate →
    ∃ r, resourcesByAddress (some p.before) p.requested.address = some r

structure PlannedOperation.Raw (C : Scalars) (p : PlannedOperation) : Prop
    extends p.Admitted C where
  precondition : p.recorded.precondition = p.requested.precondition

structure PlannedOperation.Recorded (C : Scalars) (p : PlannedOperation) : Prop
    extends p.Admitted C where
  precondition : p.requested.op ≠ .resourceCreate →
    p.recorded.precondition = p.requested.precondition.map (p.shown C)

theorem identified_normalizeIdentity (operation : SemanticOperation) (graph : Graph) :
    Identified C graph (normalizeSemanticOperationIdentity C operation (some graph)) := by
  intro hkind
  have heq := semanticOperationKind_congr (op_normalizeIdentity (C := C) operation (some graph))
    (address_normalizeIdentity operation (some graph)) (some graph)
  rw [heq] at hkind ⊢
  rw [normalizeSemanticOperationIdentity, if_pos hkind]
  exact ⟨rfl, rfl⟩

variable {p : PlannedOperation}

theorem PlannedOperation.Admitted.normalizeValues (h : p.Admitted C) {base : Option Graph}
    (hbase : p.requested.op ≠ .resourceCreate → base = some p.before) (predicted : Option Graph) :
    PlannedOperation.Admitted C { p with
      recorded := normalizeSemanticOperationValues C p.recorded base predicted } := by
  obtain ⟨value, hvalue⟩ := normalizeValues_eq (C := C) p.recorded base predicted
  rw [hvalue]
  refine ⟨?_, ?_, ?_, ?_, h.resource⟩
  · simpa using h.op
  · simpa using h.address
  · simpa using h.path
  · -- a created resource has the kind of its address in every graph
    have hkind : ∀ g, semanticOperationKind
        { normalizeSemanticOperationIdentity C p.recorded g with
          precondition := p.recorded.precondition.map (presentPrecondition C base p.recorded)
          value := value } (some p.before) = semanticOperationKind p.recorded (some p.before) :=
      fun g => semanticOperationKind_congr (by simp) (by simp) _
    intro hne
    rw [hkind] at hne ⊢
    have hgraph : semanticOperationKind p.recorded
        (if p.recorded.op = .resourceCreate ∧ predicted.isSome then predicted else base) =
        semanticOperationKind p.recorded (some p.before) := by
      by_cases hop : p.recorded.op = .resourceCreate
      · exact semanticOperationKind_create hop _ _
      · rw [if_neg fun hc => hop hc.1, hbase (h.op ▸ hop)]
    rw [normalizeSemanticOperationIdentity, if_pos (hgraph ▸ hne), hgraph]
    exact ⟨rfl, rfl⟩

theorem PlannedOperation.Raw.normalizeValues (h : p.Raw C) (hpresented : p.presented = true)
    (predicted : Option Graph) :
    PlannedOperation.Recorded C { p with
      recorded := normalizeSemanticOperationValues C p.recorded (some p.before) predicted } := by
  refine ⟨h.toAdmitted.normalizeValues (fun _ => rfl) predicted, fun _ => ?_⟩
  have hshown : presentPrecondition C (some p.before) p.recorded =
      presentPrecondition C (some p.before) p.requested := by
    funext pre
    simp [presentPrecondition, currentValue, h.address, h.path]
  obtain ⟨value, hvalue⟩ := normalizeValues_eq (C := C) p.recorded (some p.before) predicted
  simp only [hvalue, h.precondition, hshown]
  cases p.requested.precondition with
  | none => rfl
  | some pre => simp [PlannedOperation.shown, hpresented]

theorem PlannedOperation.Raw.recorded (h : p.Raw C) (hpresented : p.presented = false) :
    p.Recorded C := by
  refine ⟨h.toAdmitted, fun _ => ?_⟩
  rw [h.precondition]
  cases p.requested.precondition <;> simp [PlannedOperation.shown, hpresented]

theorem PlannedOperation.Recorded.normalizeCreated (h : p.Recorded C) (predicted : Graph) :
    (normalizeCreated C predicted p).Recorded C := by
  rw [Scenery.normalizeCreated]
  split_ifs with hop
  · rw [h.op] at hop
    exact ⟨h.toAdmitted.normalizeValues (absurd hop) _, absurd hop⟩
  · exact h

variable {clone clone' : ω}

theorem exists_resource_of_apply (h : R.applySemanticOperation C clone graph operation = .ok clone')
    (hop : operation.op ≠ .resourceCreate) :
    ∃ r, resourcesByAddress (some graph) operation.address = some r := by
  rw [Sourcing.applySemanticOperation, if_neg hop] at h
  cases hfind : graph.find? fun resource => resource.address = operation.address with
  | none =>
    rw [hfind] at h
    cases h
  | some resource =>
    have hmem := mem_of_find?_eq_some hfind
    have haddress := find?_some hfind
    refine Option.isSome_iff_exists.mp ?_
    rw [resourcesByAddress, find?_isSome]
    exact ⟨resource, mem_reverse.mpr hmem, haddress⟩

theorem raw_of_admit {request requested operation : SemanticOperation} {presented : Bool}
    (hadmitted : R.admit C graph request = .ok (requested, operation))
    (happly : R.applySemanticOperation C clone graph operation = .ok clone') :
    PlannedOperation.Raw C ⟨requested, graph, presented, operation⟩ := by
  obtain ⟨shaped, -, hadmitted⟩ := bind_eq_ok.mp hadmitted
  obtain ⟨-, -, hadmitted⟩ := bind_eq_ok.mp hadmitted
  obtain ⟨-, -, hadmitted⟩ := bind_eq_ok.mp hadmitted
  obtain ⟨rfl, rfl⟩ := Prod.mk.inj (Except.ok.inj hadmitted)
  refine ⟨⟨by simp, by simp, by simp, identified_normalizeIdentity shaped graph, ?_⟩, by simp⟩
  intro hop
  have hres := exists_resource_of_apply happly (by simpa using hop)
  simpa using hres

variable {planned : List PlannedOperation}

theorem planOperations_cons {request : SemanticOperation} {rest : List SemanticOperation}
    (h : R.planOperations C graph clone (request :: rest) = .ok (planned, clone')) :
    ∃ requested operation applied, R.admit C graph request = .ok (requested, operation) ∧
      R.applySemanticOperation C clone graph operation = .ok applied ∧
      (rest = [] ∧ planned = [⟨requested, graph, true, operation⟩] ∨
        rest ≠ [] ∧ (∃ next tail, R.planOperations C next applied rest = .ok (tail, clone') ∧
          planned = ⟨requested, graph, true, normalizeSemanticOperationValues C operation
            (some graph) (some next)⟩ :: tail) ∨
        rest ≠ [] ∧ ∃ tail, R.planOperations C graph applied rest = .ok (tail, clone') ∧
          planned = ⟨requested, graph, false, operation⟩ :: tail) := by
  obtain ⟨⟨requested, operation⟩, hadmitted, h⟩ := bind_eq_ok.mp h
  obtain ⟨applied, happly, h⟩ := bind_eq_ok.mp h
  refine ⟨requested, operation, applied, hadmitted, happly, ?_⟩
  by_cases hlast : rest = []
  · rw [if_pos hlast] at h
    cases h
    exact .inl ⟨hlast, rfl⟩
  · rw [if_neg hlast] at h
    cases hrefresh : R.refresh applied with rw [hrefresh] at h
    | some next =>
      obtain ⟨⟨tail, end'⟩, htail, h⟩ := bind_eq_ok.mp h
      cases h
      exact .inr (.inl ⟨hlast, next, tail, htail, rfl⟩)
    | none =>
      obtain ⟨⟨tail, end'⟩, htail, h⟩ := bind_eq_ok.mp h
      cases h
      exact .inr (.inr ⟨hlast, tail, htail, rfl⟩)

theorem planOperations_ne_nil (hne : operations ≠ [])
    (h : R.planOperations C graph clone operations = .ok (planned, clone')) : planned ≠ [] := by
  obtain ⟨request, rest, rfl⟩ := exists_cons_of_ne_nil hne
  obtain ⟨_, _, _, -, -, h⟩ := planOperations_cons h
  rcases h with ⟨-, rfl⟩ | ⟨-, _, _, -, rfl⟩ | ⟨-, _, -, rfl⟩ <;> exact cons_ne_nil _ _

theorem normalizeLast_cons (predicted : Graph) (first : PlannedOperation)
    {tail : List PlannedOperation} (htail : tail ≠ []) :
    normalizeLast C predicted (first :: tail) = first :: normalizeLast C predicted tail := by
  obtain ⟨t, ts, rfl⟩ := exists_cons_of_ne_nil htail
  rfl

theorem recorded_planOperations
    (h : R.planOperations C graph clone operations = .ok (planned, clone')) (predicted : Graph) :
    ∀ p ∈ normalizeLast C predicted planned, p.Recorded C := by
  induction operations generalizing graph clone planned with
  | nil =>
    cases h
    intro p hp
    cases hp
  | cons request rest ih =>
    obtain ⟨requested, operation, applied, hadmitted, happly, h⟩ := planOperations_cons h
    rcases h with ⟨-, rfl⟩ | ⟨hrest, next, tail, htail, rfl⟩ | ⟨hrest, tail, htail, rfl⟩
    · intro p hp
      obtain rfl := mem_singleton.mp hp
      have hraw : PlannedOperation.Raw C ⟨requested, graph, true, operation⟩ :=
        raw_of_admit hadmitted happly
      exact hraw.normalizeValues rfl (some predicted)
    · rw [normalizeLast_cons predicted _ (planOperations_ne_nil hrest htail), forall_mem_cons]
      have hraw : PlannedOperation.Raw C ⟨requested, graph, true, operation⟩ :=
        raw_of_admit hadmitted happly
      exact ⟨hraw.normalizeValues rfl (some next), ih htail⟩
    · rw [normalizeLast_cons predicted _ (planOperations_ne_nil hrest htail), forall_mem_cons]
      have hraw : PlannedOperation.Raw C ⟨requested, graph, false, operation⟩ :=
        raw_of_admit hadmitted happly
      exact ⟨hraw.recorded rfl, ih htail⟩

theorem recorded_plan {base : Graph} {clone : ω} (h : R.plan C base clone operations = .ok planned) :
    ∀ p ∈ planned, p.Recorded C := by
  obtain ⟨⟨steps, clone'⟩, hsteps, h⟩ := bind_eq_ok.mp h
  obtain ⟨predicted, -, h⟩ := bind_eq_ok.mp h
  cases h
  intro p hp
  obtain ⟨q, hq, rfl⟩ := mem_map.mp hp
  exact (recorded_planOperations hsteps predicted q hq).normalizeCreated predicted

/-! ## Agreement -/

/-- The operation also meets the base graph: a resource at its address has the kind it was
planned with, and the resource it has a precondition on is there and satisfies it. -/
structure PlannedOperation.MeetsBase (C : Scalars) (base : Graph) (p : PlannedOperation) : Prop
    where
  kind : p.requested.op ≠ .resourceCreate → ∀ r r',
    resourcesByAddress (some base) p.requested.address = some r →
    resourcesByAddress (some p.before) p.requested.address = some r' → r.kind = r'.kind
  precondition : p.requested.op ≠ .resourceCreate → ∀ pre, p.requested.precondition = some pre →
    ∃ r, resourcesByAddress (some base) p.requested.address = some r ∧
      (p.shown C pre).Holds C r p.requested.path

theorem PlannedOperation.Recorded.revalidates_iff (h : p.Recorded C) (base : Graph) :
    Revalidates C base p.recorded ↔ p.MeetsBase C base := by
  have hexpect : validateSemanticOperationExpectation C p.recorded base = .ok () ↔
      (p.requested.op ≠ .resourceCreate → ∀ r r',
        resourcesByAddress (some base) p.requested.address = some r →
        resourcesByAddress (some p.before) p.requested.address = some r' → r.kind = r'.kind) := by
    rw [validateSemanticOperationExpectation_eq_ok]
    by_cases hop : p.requested.op = .resourceCreate
    · -- the kind of a created resource is the same in both graphs
      refine iff_of_true (fun hkind => ?_) fun hne => absurd hop hne
      have hsame := semanticOperationKind_create (h.op.trans hop) (some base) (some p.before)
      rw [hsame] at hkind ⊢
      obtain ⟨hk, hr⟩ := h.identified hkind
      exact ⟨.inr hk, .inr hr⟩
    · have hkindOf : ∀ g, semanticOperationKind p.recorded (some g) =
          ((resourcesByAddress (some g) p.requested.address).map Resource.kind).getD "" := by
        intro g
        rw [semanticOperationKind, if_neg (h.op ▸ hop), h.address]
        cases resourcesByAddress (some g) p.requested.address <;> rfl
      obtain ⟨r', hr'⟩ := h.resource hop
      have hid := h.identified
      simp only [Identified, hkindOf, hr', Option.map_some, Option.getD_some] at hid
      obtain ⟨hkind, hrevision⟩ := hid r'.kind_ne
      rw [hkindOf base, hkind, hrevision]
      cases hr : resourcesByAddress (some base) p.requested.address with
      | none => simp
      | some r =>
        simp only [Option.map_some, Option.getD_some]
        constructor
        · intro hmeets _ r₁ r₂ h₁ h₂
          cases h₁
          rw [hr'] at h₂
          cases h₂
          exact ((hmeets r.kind_ne).1.resolve_left r'.kind_ne).symm
        · intro hsame _
          rw [hsame hop r r' rfl hr']
          exact ⟨.inr rfl, .inr rfl⟩
  rw [Revalidates, hexpect, h.op, h.address, h.path]
  constructor
  · rintro ⟨hkind, hpre⟩
    refine ⟨hkind, fun hop pre hp => hpre hop (p.shown C pre) ?_⟩
    rw [h.precondition hop, hp, Option.map_some]
  · intro hmeets
    refine ⟨hmeets.kind, fun hop pre hp => ?_⟩
    rw [h.precondition hop] at hp
    obtain ⟨pre', hp', rfl⟩ := Option.map_eq_some_iff.mp hp
    exact hmeets.precondition hop pre' hp'

/-- For every plan, revalidation on the unchanged workspace succeeds exactly when every
operation, planned on the graph of the operations before it, also meets the base graph. -/
theorem revalidation_agrees_iff {base : Graph} {clone : ω} {operations : List SemanticOperation}
    {planned : List PlannedOperation} (h : R.plan C base clone operations = .ok planned) :
    revalidateChangePreconditions C base (planned.map PlannedOperation.recorded) = .ok () ↔
      ∀ p ∈ planned, p.MeetsBase C base := by
  rw [revalidateChangePreconditions_eq_ok, forall_mem_map]
  exact forall₂_congr fun p hp => (recorded_plan h p hp).revalidates_iff base

end

/-! ## An operation that depends on an earlier one -/

namespace RevalidationSample

def scalars : Scalars where
  marshalCanonical value := some (Value.text (some value))
  isContextualPrimitive _ := false
  contextualizePrimitive _ _ := none
  exactNumericScalar text := .string text
  nameText value := Value.text (some value)
  resourceSchemaRevision _ := "1"

def sourcing : Sourcing Graph where
  rejectSecretMutation _ := .ok ()
  createResource clone _ _ := .ok clone
  rewriteResource clone _ resource operation := .ok (clone.map fun other =>
    if other.address = resource.address then
      { other with spec := .map [("title", operation.value.getD .null)] }
    else other)
  refresh clone := some clone
  predict clone := .ok clone

def base : Graph :=
  ["app/service/api", "app/service/web"].map fun address =>
    ⟨address, "scenery.service", by decide, .map [("title", .string "a")], true⟩

def setTitle (name title : String) (expected : Option String) : SemanticOperation :=
  ⟨.valueSet, "app/service/" ++ name, "", "", "", "/spec/title", some (.string title),
    expected.map fun text => ⟨none, false, some (.string text)⟩⟩

def independent : List SemanticOperation :=
  [setTitle "api" "b" (some "a"), setTitle "web" "c" (some "a")]

def dependent : List SemanticOperation := [setTitle "api" "b" none, setTitle "api" "c" (some "b")]

def plan (operations : List SemanticOperation) : Except OperationError (List PlannedOperation) :=
  sourcing.plan scalars base base operations

def revalidated (operations : List SemanticOperation) : Option (Except OperationError Unit) :=
  (plan operations).toOption.map fun planned =>
    revalidateChangePreconditions scalars base (planned.map PlannedOperation.recorded)

theorem exists_plan {r : Except OperationError Unit} (h : revalidated operations = some r) :
    ∃ planned, plan operations = .ok planned ∧
      revalidateChangePreconditions scalars base (planned.map PlannedOperation.recorded) = r := by
  obtain ⟨planned, hplan, hr⟩ := Option.map_eq_some_iff.mp h
  refine ⟨planned, ?_, hr⟩
  cases hp : plan operations with rw [hp] at hplan
  | error e =>
    cases hplan
  | ok planned' =>
    rw [Option.some.inj hplan]

end RevalidationSample

/-- The second of two operations is planned on a graph that is not the base. -/
theorem revalidation_agrees_independent :
    ∃ planned, RevalidationSample.plan RevalidationSample.independent = .ok planned ∧
      ∀ p ∈ planned, p.MeetsBase RevalidationSample.scalars RevalidationSample.base := by
  obtain ⟨planned, hplan, hok⟩ := RevalidationSample.exists_plan
    (show RevalidationSample.revalidated RevalidationSample.independent = some (.ok ()) by
      decide +kernel)
  exact ⟨planned, hplan, (revalidation_agrees_iff hplan).mp hok⟩

/-- A title is set to `b`, and to `c` where it equals `b`: the plan is returned, and rejected
when it is applied to the unchanged workspace. -/
theorem revalidation_rejects_dependent :
    ∃ planned, RevalidationSample.plan RevalidationSample.dependent = .ok planned ∧
      revalidateChangePreconditions RevalidationSample.scalars RevalidationSample.base
        (planned.map PlannedOperation.recorded) = .error .valueMismatch :=
  RevalidationSample.exists_plan (by decide +kernel)

end Scenery
