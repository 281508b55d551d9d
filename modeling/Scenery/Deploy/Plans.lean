import Scenery.Outcome
import Scenery.Preconditions

/-!
# Provider plans

`validateDeploymentProviderPlan` of `internal/deployplan/deployplan.go`, with the check for secret
plaintext.
-/

namespace Scenery.Deploy

open List

structure ArtifactIdentity where
  kind : String
  schemaRevision : String
  specRevision : String
  version : String
  goVersion : String

structure Action where
  kind : String
  address : String
  before : List (String × Value)
  after : List (String × Value)
  destructive : Bool

structure ProviderPlan where
  identity : ArtifactIdentity
  providerAddress : String
  providerSource : String
  providerABI : String
  instances : List String
  actions : List Action
  payload : String
  requiresApply : Bool
  digest : String

structure Tooling where
  toLower : String → String
  quote : String → String
  artifactSchemaRevision : String → String
  currentRevision : String
  revisionHash : String → ProviderPlan → String

variable (T : Tooling)

def validateArtifactIdentity (identity : ArtifactIdentity) (kind schemaDescriptor action : String) :
    Except String Unit :=
  let wantSchema := T.artifactSchemaRevision schemaDescriptor
  if identity.kind ≠ kind then
    .error ("unexpected artifact kind " ++ T.quote identity.kind ++ "; " ++ action ++
      " with the current Scenery CLI")
  else if identity.schemaRevision ≠ wantSchema then
    .error ("unexpected " ++ kind ++ " schema revision " ++ T.quote identity.schemaRevision ++ "; " ++
      action ++ " with the current Scenery CLI")
  else if identity.specRevision ≠ T.currentRevision then
    .error ("unexpected " ++ kind ++ " spec revision " ++ T.quote identity.specRevision ++ "; " ++
      action ++ " with the current Scenery CLI")
  else if trimSpace identity.version = "" ∨ trimSpace identity.goVersion = "" then
    .error ("invalid " ++ kind ++ " producer identity; " ++ action ++
      " with the current Scenery CLI")
  else .ok ()

def isHexDigit (c : Char) : Bool :=
  c.isDigit || ('a' ≤ c && c ≤ 'f') || ('A' ≤ c && c ≤ 'F')

def isCanonicalSHA256Digest (value : String) : Bool :=
  "sha256:".toList <+: value.toList && value.utf8ByteSize = 71 && value = T.toLower value &&
    (value.toList.drop 7).all isHexDigit

def providerDeploymentPlanKind : String := "scenery.provider-deployment-plan"

def providerPlanSchemaDescriptor : String :=
  "\x7b\"kind\":\"scenery.provider-deployment-plan\",\"schema_revision\":\"digest\"," ++
    "\"spec_revision\":\"digest\",\"producer\":\"producer\",\"provider_address\":\"address\"," ++
    "\"provider_source\":\"source\",\"provider_abi\":\"abi\",\"instances\":[\"address\"]," ++
    "\"actions\":[\x7b\"kind\":\"string\",\"address\":\"address\",\"before\":\"optional_object\"," ++
    "\"after\":\"optional_object\",\"destructive\":\"optional_boolean\"\x7d]," ++
    "\"opaque\":\"optional_json\",\"requires_apply\":\"boolean\",\"digest\":\"digest\"\x7d"

def deploymentProviderPlanDigest (plan : ProviderPlan) : String :=
  T.revisionHash "scenery.provider-deployment-plan\x00" { plan with digest := "" }

def refString : Value → String
  | .map fields => Value.text (Value.member "$ref" fields)
  | .string text => text
  | _ => ""

def secretName (key : String) : Bool :=
  "plaintext".toList <:+: (T.toLower key).toList || "_value".toList <:+ (T.toLower key).toList

def refused (key : String) : Value → Bool
  | .null => false
  | item => secretName T key && refString item = ""

mutual

def deploymentValueContainsPlaintextSecret : Value → Bool
  | .map fields => membersContainPlaintextSecret fields
  | _ => false

def membersContainPlaintextSecret : List (String × Value) → Bool
  | [] => false
  | (key, item) :: rest =>
    refused T key item || deploymentValueContainsPlaintextSecret item ||
      membersContainPlaintextSecret rest

end

def validateAction (action : Action) : Except String Unit :=
  if action.kind = "" ∨ action.address = "" then
    .error "provider action requires kind and address"
  else if deploymentValueContainsPlaintextSecret T (.map action.before) ||
      deploymentValueContainsPlaintextSecret T (.map action.after) then
    .error "permission_denied: provider plan contains secret plaintext"
  else .ok ()

def validateDeploymentProviderPlan (plan : ProviderPlan) : Except String Unit :=
  if (validateArtifactIdentity T plan.identity providerDeploymentPlanKind
      providerPlanSchemaDescriptor "re-plan").toBool = false ∨ plan.providerAddress = "" ∨
      plan.providerSource = "" ∨ plan.providerABI = "" ∨ plan.instances = [] then
    .error "invalid provider plan identity"
  else if plan.digest ≠ deploymentProviderPlanDigest T plan ∨
      isCanonicalSHA256Digest T plan.digest = false then
    .error "invalid provider plan digest"
  else plan.actions.forM (validateAction T)

/-! ## Members -/

inductive Member : Bool → Value → String → Value → Prop where
  | here {fields : List (String × Value)} {key : String} {value : Value}
      (h : (key, value) ∈ fields) : Member false (.map fields) key value
  | field {fields : List (String × Value)} {name key : String} {item value : Value} {listed : Bool}
      (h : (name, item) ∈ fields) (hm : Member listed item key value) :
      Member listed (.map fields) key value
  | item {items : List Value} {key : String} {item value : Value} {listed : Bool}
      (h : item ∈ items) (hm : Member listed item key value) : Member true (.list items) key value

def IsReference : Value → Prop
  | .map fields => ∃ text, text ≠ "" ∧ Value.member "$ref" fields = some (.string text)
  | _ => False

def Harmless (value : Value) : Prop := value = .null ∨ IsReference value

def NoPlaintext (root : Value) : Prop :=
  ∀ listed key value, Member listed root key value → secretName T key = true → Harmless value

def Visible (root : Value) : Prop :=
  (∀ key text, Member false root key (.string text) → secretName T key = true → text = "") ∧
    ∀ key value, Member true root key value → secretName T key = true → Harmless value

section

variable {T} {root value : Value} {key : String} {fields : List (String × Value)}

theorem refused_eq_false_of_mem (h : membersContainPlaintextSecret T fields = false)
    (hm : (key, value) ∈ fields) :
    refused T key value = false ∧ deploymentValueContainsPlaintextSecret T value = false := by
  induction fields with
  | nil => cases hm
  | cons first rest ih =>
    simp only [membersContainPlaintextSecret, Bool.or_eq_false_iff] at h
    rcases mem_cons.mp hm with heq | hm
    · cases heq
      exact h.1
    · exact ih h.2 hm

theorem refused_eq_false_of_member {listed : Bool} (hm : Member listed root key value)
    (hlisted : listed = false) (h : deploymentValueContainsPlaintextSecret T root = false) :
    refused T key value = false := by
  induction hm with
  | here hmem =>
    exact (refused_eq_false_of_mem h hmem).1
  | field hmem _ ih =>
    exact ih hlisted (refused_eq_false_of_mem h hmem).2
  | item => cases hlisted

theorem harmless_or_string (h : refused T key value = false) (hkey : secretName T key = true) :
    Harmless value ∨ ∃ text, text ≠ "" ∧ value = .string text := by
  have href : ∀ {item : Value}, refused T key item = (secretName T key && refString item = "") →
      refused T key item = false → refString item ≠ "" := by
    intro item he hfalse
    rw [he, hkey, Bool.true_and, decide_eq_false_iff_not] at hfalse
    exact hfalse
  cases value with
  | null => exact .inl (.inl rfl)
  | bool | number | list => exact absurd rfl (href rfl h)
  | string text => exact .inr ⟨text, href rfl h, rfl⟩
  | map fields =>
    have hne : Value.text (Value.member "$ref" fields) ≠ "" := href rfl h
    refine .inl (.inr ?_)
    cases hmember : Value.member "$ref" fields with rw [hmember] at hne
    | none =>
      exact absurd rfl hne
    | some item =>
      cases item with
      | string text => exact ⟨text, hne, hmember⟩
      | _ => exact absurd rfl hne

theorem noPlaintext_iff_visible (h : deploymentValueContainsPlaintextSecret T root = false) :
    NoPlaintext T root ↔ Visible T root := by
  constructor
  · intro hclean
    refine ⟨fun key text hm hkey => ?_, hclean true⟩
    rcases hclean false key _ hm hkey with hnull | href
    · cases hnull
    · exact href.elim
  · rintro ⟨hstring, hlist⟩ listed key value hm hkey
    cases listed with
    | true => exact hlist key value hm hkey
    | false =>
      rcases harmless_or_string (refused_eq_false_of_member hm rfl h) hkey with hok | ⟨text, hne, rfl⟩
      · exact hok
      · exact absurd (hstring key text hm hkey) hne

theorem forM_eq_ok {α : Type} {check : α → Except String Unit} {items : List α}
    (h : items.forM check = .ok ()) : ∀ a ∈ items, check a = .ok () := by
  induction items with
  | nil => exact fun a ha => by cases ha
  | cons first rest ih =>
    obtain ⟨⟨⟩, hfirst, hrest⟩ := bind_eq_ok.mp h
    intro a ha
    rcases mem_cons.mp ha with rfl | ha
    · exact hfirst
    · exact ih hrest a ha

theorem validateAction_eq_ok {action : Action} (h : validateAction T action = .ok ()) :
    deploymentValueContainsPlaintextSecret T (.map action.before) = false ∧
      deploymentValueContainsPlaintextSecret T (.map action.after) = false := by
  simp only [validateAction] at h
  split_ifs at h with _ hsecret
  rwa [← Bool.or_eq_false_iff, ← Bool.not_eq_true]

theorem validate_actions {plan : ProviderPlan} (h : validateDeploymentProviderPlan T plan = .ok ()) :
    ∀ action ∈ plan.actions, validateAction T action = .ok () := by
  simp only [validateDeploymentProviderPlan] at h
  split_ifs at h
  exact forM_eq_ok h

/-- A plan that is accepted carries no secret plaintext in its actions, if and only if the check
sees everything in them. -/
theorem accepted_plan_noPlaintext_iff {plan : ProviderPlan}
    (h : validateDeploymentProviderPlan T plan = .ok ()) :
    (∀ action ∈ plan.actions, NoPlaintext T (.map action.before) ∧
        NoPlaintext T (.map action.after)) ↔
      ∀ action ∈ plan.actions, Visible T (.map action.before) ∧ Visible T (.map action.after) := by
  refine forall₂_congr fun action haction => ?_
  obtain ⟨hbefore, hafter⟩ := validateAction_eq_ok (validate_actions h action haction)
  exact and_congr (noPlaintext_iff_visible hbefore) (noPlaintext_iff_visible hafter)

end

/-! ## Plans -/

namespace Sample

def digest : String := "sha256:" ++ String.ofList (List.replicate 64 '0')

def tooling : Tooling where
  toLower := String.toLower
  quote text := text
  artifactSchemaRevision _ := "schema"
  currentRevision := "spec"
  revisionHash _ _ := digest

def plan (after : List (String × Value)) : ProviderPlan where
  identity := ⟨providerDeploymentPlanKind, "schema", "spec", "dev", "go"⟩
  providerAddress := "app/provider/postgres"
  providerSource := "registry:postgres"
  providerABI := "scenery.deployment-provider/v1"
  instances := ["app/data_source/main"]
  actions := [⟨"create", "app/data_source/main", [], after, false⟩]
  payload := ""
  requiresApply := true
  digest := digest

def reference : List (String × Value) :=
  [("password_value", .map [("$ref", .string "secret_store.main")])]

theorem validate_plan {after : List (String × Value)}
    (h : deploymentValueContainsPlaintextSecret tooling (.map after) = false) :
    validateDeploymentProviderPlan tooling (plan after) = .ok () := by
  have hidentity : (validateArtifactIdentity tooling (plan []).identity providerDeploymentPlanKind
      providerPlanSchemaDescriptor "re-plan").toBool = true := by decide +kernel
  have hdigest : isCanonicalSHA256Digest tooling digest = true := by decide +kernel
  have haction : validateAction tooling ⟨"create", "app/data_source/main", [], after, false⟩ =
      .ok () := by
    have hnamed : ¬ ("create" = "" ∨ "app/data_source/main" = "") := by decide
    rw [validateAction, if_neg hnamed, h]
    rfl
  unfold validateDeploymentProviderPlan
  rw [if_neg, if_neg]
  · simp only [plan, List.forM, haction]
    rfl
  · rintro (hne | hfalse)
    · exact hne rfl
    · rw [plan, hdigest] at hfalse
      cases hfalse
  · rintro (hfalse | hrest)
    · exact absurd (hidentity.symm.trans hfalse) (by decide)
    · exact absurd hrest (by decide : ¬ ("app/provider/postgres" = "" ∨ "registry:postgres" = "" ∨
        "scenery.deployment-provider/v1" = "" ∨ ["app/data_source/main"] = []))

end Sample

theorem visible_reference : Visible Sample.tooling (.map Sample.reference) := by
  -- the members are the password and what is inside of it
  have hmembers : ∀ {listed : Bool} {key : String} {value : Value},
      Member listed (.map Sample.reference) key value →
      (key = "password_value" ∧ value = .map [("$ref", .string "secret_store.main")]) ∨
        key = "$ref" := by
    intro listed key value hm
    cases hm with rw [Sample.reference, mem_singleton, Prod.mk.injEq] at h
    | here h =>
      exact .inl h
    | field h hm =>
      obtain ⟨-, rfl⟩ := h
      cases hm with rw [mem_singleton, Prod.mk.injEq] at h
      | here h =>
        exact .inr h.1
      | field h hm =>
        obtain ⟨-, rfl⟩ := h
        cases hm
  have hname : secretName Sample.tooling "$ref" = false := by decide +kernel
  refine ⟨fun key text hm hkey => ?_, fun key value hm hkey => ?_⟩
  · rcases hmembers hm with ⟨-, h⟩ | rfl
    · cases h
    · rw [hname] at hkey
      cases hkey
  · rcases hmembers hm with ⟨-, rfl⟩ | rfl
    · exact .inr ⟨_, by decide, rfl⟩
    · rw [hname] at hkey
      cases hkey

theorem accepted_plan_reference :
    validateDeploymentProviderPlan Sample.tooling (Sample.plan Sample.reference) = .ok () ∧
      NoPlaintext Sample.tooling (.map Sample.reference) := by
  have hok : validateDeploymentProviderPlan Sample.tooling (Sample.plan Sample.reference) = .ok () :=
    Sample.validate_plan (by decide +kernel)
  have hempty : Visible Sample.tooling (.map []) := by
    refine ⟨fun key text hm => ?_, fun key value hm => ?_⟩ <;>
    · rcases hm with h | ⟨h, -⟩
      all_goals cases h
  have hplain := (accepted_plan_noPlaintext_iff hok).mpr fun action haction => by
    rw [Sample.plan, mem_singleton] at haction
    subst haction
    exact ⟨hempty, visible_reference⟩
  exact ⟨hok, (hplain _ mem_cons_self).2⟩

/-- A plan with a password is accepted, as a string and in a list. -/
theorem accepted_plan_password :
    validateDeploymentProviderPlan Sample.tooling
        (Sample.plan [("password_value", .string "hunter2")]) = .ok () ∧
      validateDeploymentProviderPlan Sample.tooling
        (Sample.plan [("users", .list [.map [("plaintext", .number "1234")]])]) = .ok () ∧
      ¬ NoPlaintext Sample.tooling (.map [("password_value", .string "hunter2")]) ∧
      ¬ NoPlaintext Sample.tooling
        (.map [("users", .list [.map [("plaintext", .number "1234")]])]) := by
  refine ⟨Sample.validate_plan (by decide +kernel), Sample.validate_plan (by decide +kernel), fun h => ?_,
    fun h => ?_⟩
  · rcases h false "password_value" _ (.here mem_cons_self) (by decide +kernel) with he | he
    · cases he
    · exact he
  · rcases h true "plaintext" _ (.field mem_cons_self
      (.item mem_cons_self (.here mem_cons_self))) (by decide +kernel) with he | he
    · cases he
    · exact he

end Scenery.Deploy
