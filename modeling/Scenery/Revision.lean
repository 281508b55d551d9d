import Mathlib.Data.Prod.Lex
import Scenery.Differences
import Scenery.Stable

/-!
# Contract revisions

`internal/graph/revision.go`: a revision is the digest of a canonical document, of the contract
fields of the resources by their addresses and of the compile dependencies by kind and source.
-/

namespace Scenery.Revision

open Value

structure Resource where
  address : String
  kind : String
  name : String
  module : String
  spec : List (String × Value)

structure DynamicRevisionDomain where
  schemaField : String
  nameField : String
  domainField : String

structure SliceSort where
  sort {α : Type} (less : α → α → Bool) : List α → List α
  perm {α : Type} (less : α → α → Bool) (l : List α) : (sort less l).Perm l
  sorted {α β : Type} [LinearOrder β] (key : α → β) (l : List α) :
    (sort (fun a b => key a < key b) l).Pairwise (key · ≤ key ·)

structure Env where
  schemaDomain : String → Option String
  resourceFieldRevisionDomain : String → String → Option String
  dynamicResourceRevisionDomain : String → String → Option DynamicRevisionDomain
  slices : SliceSort
  canonicalJSONNumber : List Char → Option (List Char)
  currentRevision : String
  sha256 : List Char → String

def namedChildren (parent : List (String × Value)) (name : String) : List (List (String × Value)) :=
  match member name parent with
  | some (map fields) => [fields]
  | some (list items) => items.filterMap fun | map fields => some fields | _ => none
  | _ => []

def dynamicContractFieldProjection (resource : Resource) (field : String) (value : Value)
    (rule : DynamicRevisionDomain) : Option Value :=
  let domains := (namedChildren resource.spec rule.schemaField).map fun descriptor =>
    (text (member rule.nameField descriptor), text (member rule.domainField descriptor))
  if field = rule.schemaField then
    match value with
    | list items =>
      let projected := items.filter fun
        | map descriptor => text (member rule.domainField descriptor) = "contract"
        | _ => false
      if projected.isEmpty then none else some (list projected)
    | _ => none
  else match value with
    | map values =>
      -- of descriptors with one name the last decides
      let projected := values.filter fun item =>
        (domains.reverse.find? (·.1 = item.1)).any (·.2 = "contract")
      if projected.isEmpty then none else some (map projected)
    | _ => none

section

variable (env : Env)

def contractResourceProjection (resource : Resource) : Option Resource :=
  match env.schemaDomain resource.kind with
  | none => none
  | some domain =>
    let spec := resource.spec.filterMap fun (key, value) =>
      match env.dynamicResourceRevisionDomain resource.kind key with
      | some rule => (dynamicContractFieldProjection resource key value rule).map ((key, ·))
      | none =>
        if env.resourceFieldRevisionDomain resource.kind key = some "contract" then
          some (key, value)
        else none
    if domain ≠ "contract" ∧ spec = [] then none else some { resource with spec }

def identity (resource : Resource) : Option (List (String × Value)) :=
  if resource.kind ∉ ["scenery.provider", "scenery.module"] ∨
      !hasMember "compile_descriptor_digest" resource.spec then none
  else
    let field name := (member name resource.spec).getD null
    some [("kind", string (if resource.kind = "scenery.provider" then "provider" else "module")),
      ("source", field "source"), ("integrity", field "locked_integrity"),
      ("compile_descriptor_digest", field "compile_descriptor_digest")]

def identityKey (entry : List (String × Value)) : String ×ₗ String :=
  toLex (text (member "kind" entry), text (member "source" entry))

def dependencyContractIdentities (resources : List Resource) : List (List (String × Value)) :=
  env.slices.sort (fun a b => identityKey a < identityKey b) (resources.filterMap identity)

def projected (resources : List Resource) : List Resource :=
  env.slices.sort (fun a b => a.address < b.address)
    (resources.filterMap (contractResourceProjection env))

def Resource.value (resource : Resource) : Value :=
  map [("address", string resource.address), ("kind", string resource.kind),
    ("name", string resource.name), ("module", string resource.module),
    ("spec", map resource.spec), ("origin", map [("kind", string "")])]

def document (header : List (String × Value)) (resources selected : List Resource) : Value :=
  let identities := dependencyContractIdentities env resources
  map (header ++ [("compile_dependencies",
      if identities.isEmpty then null else list (identities.map map)),
    ("resources", list ((projected env selected).map Resource.value))])

def marshal (value : Value) : Option (List Char) :=
  Spec.marshalCanonical env.canonicalJSONNumber value.toJson

def prefixedSHA256 (pre : String) (content : List Char) : String :=
  "sha256:" ++ env.sha256 (pre.toList ++ content)

def revisionHash (pre : String) (value : Value) : String :=
  prefixedSHA256 env pre ((marshal env value).getD [])

def contractRevision (resources : List Resource) (appName : String) : Option String :=
  (marshal env (document env [("spec_revision", string env.currentRevision),
    ("application", string appName)] resources resources)).map
      (prefixedSHA256 env "scenery.contract-revision\x00")

def moduleInstance (module : Resource) : String :=
  if module.module = "app" ∨ module.module = "" then module.name
  else module.module ++ "/" ++ module.name

def serviceResources (resources : List Resource) (service : Resource) (covered : List String) :
    List Resource :=
  resources.filter fun resource => resource.module = service.module ∨
    resource.kind = "scenery.module" ∧ moduleInstance resource = service.module ∨
      resource.address ∈ covered

def serviceContractRevision (resources : List Resource) (appName : String) (service : Resource)
    (covered : List String) : String :=
  revisionHash env "scenery.service-contract-revision\x00"
    (document env [("spec_revision", string env.currentRevision), ("application", string appName),
      ("service", string service.address)] resources (serviceResources resources service covered))

def contractProjectionHash (resources : List Resource) (appName : String) : String :=
  revisionHash env "scenery.contract-projection\x00"
    (document env [("application", string appName)] resources resources)

end

theorem SliceSort.sort_eq {α β : Type} [LinearOrder β] (slices : SliceSort) (key : α → β)
    {l l' : List α} (hperm : l'.Perm l) (hkey : ∀ x ∈ l, ∀ y ∈ l, key x = key y → x = y) :
    slices.sort (fun a b => key a < key b) l' = slices.sort (fun a b => key a < key b) l := by
  refine List.Perm.eq_of_pairwise (fun x y hx hy hxy hyx => ?_) (slices.sorted key l')
    (slices.sorted key l) (((slices.perm _ l').trans hperm).trans (slices.perm _ l).symm)
  have hx := hperm.subset ((slices.perm _ l').subset hx)
  exact hkey x hx y ((slices.perm _ l).subset hy) (le_antisymm hxy hyx)

variable {env : Env} {resources resources' : List Resource}

theorem address_projection {resource projection : Resource}
    (h : contractResourceProjection env resource = some projection) :
    projection.address = resource.address := by
  rw [contractResourceProjection] at h
  split at h
  · cases h
  · dsimp only at h
    split at h
    · cases h
    · cases h
      rfl

theorem document_eq {header : List (String × Value)} {selected selected' : List Resource}
    (hdistinct : (selected.map Resource.address).Nodup)
    (hties : ∀ x ∈ resources.filterMap identity, ∀ y ∈ resources.filterMap identity,
      identityKey x = identityKey y → x = y) (hperm : resources'.Perm resources)
    (hselected : selected'.Perm selected) :
    document env header resources' selected' = document env header resources selected := by
  have hidentities := env.slices.sort_eq identityKey (hperm.filterMap identity) hties
  have hprojected := env.slices.sort_eq Resource.address
    (hselected.filterMap (contractResourceProjection env)) ?_
  · rw [document, document, dependencyContractIdentities, dependencyContractIdentities, projected,
      projected, hidentities, hprojected]
  · intro x hx y hy heq
    obtain ⟨r, hr, hx⟩ := List.mem_filterMap.mp hx
    obtain ⟨r', hr', hy⟩ := List.mem_filterMap.mp hy
    rw [address_projection hx, address_projection hy] at heq
    obtain rfl := List.inj_on_of_nodup_map hdistinct hr hr' heq
    exact Option.some.inj (hx.symm.trans hy)

/-- Revisions do not depend on the order of the resources if compile dependencies of one kind and
source are the same. -/
theorem revisions_perm (hdistinct : (resources.map Resource.address).Nodup)
    (hties : ∀ x ∈ resources.filterMap identity, ∀ y ∈ resources.filterMap identity,
      identityKey x = identityKey y → x = y) (hperm : resources'.Perm resources)
    (appName : String) (service : Resource) (covered : List String) :
    contractRevision env resources' appName = contractRevision env resources appName ∧
    serviceContractRevision env resources' appName service covered =
      serviceContractRevision env resources appName service covered ∧
    contractProjectionHash env resources' appName =
      contractProjectionHash env resources appName := by
  have hselected : (serviceResources resources' service covered).Perm
      (serviceResources resources service covered) := hperm.filter _
  have hservice : ((serviceResources resources service covered).map Resource.address).Nodup :=
    hdistinct.sublist (List.filter_sublist.map _)
  rw [contractRevision, serviceContractRevision, contractProjectionHash,
    document_eq hdistinct hties hperm hperm, document_eq hservice hties hperm hselected,
    document_eq hdistinct hties hperm hperm]
  exact ⟨rfl, rfl, rfl⟩

def insertionSort : SliceSort where
  sort less := stableSort fun a b => !less b a
  perm _ _ := stableSort_perm
  sorted key l := by
    refine (pairwise_stableSort (fun x y => ?_) fun x y z hxy hyz => ?_).imp ?_
    · simpa using le_total (key x) (key y)
    · simp only [Bool.not_eq_true', decide_eq_false_iff_not, not_lt] at *
      exact hxy.trans hyz
    · simp

def sampleEnv : Env where
  schemaDomain _ := some "contract"
  resourceFieldRevisionDomain _ _ := some "contract"
  dynamicResourceRevisionDomain _ _ := none
  slices := insertionSort
  canonicalJSONNumber := some
  currentRevision := "1"
  sha256 := String.ofList

def provider (name digest : String) : Resource :=
  ⟨"app/provider/" ++ name, "scenery.provider", name, "app",
    [("source", string "postgres"), ("compile_descriptor_digest", string digest)]⟩

theorem prefixedSHA256_injective (pre : String) :
    Function.Injective (prefixedSHA256 sampleEnv pre) := by
  intro a b h
  have htext := congrArg String.toList h
  simpa [prefixedSHA256, sampleEnv] using htext

/-- Two providers of one source with different descriptors have a revision for each order. -/
theorem revision_depends_on_order :
    ([provider "a" "x", provider "b" "y"].map Resource.address).Nodup ∧
      contractRevision sampleEnv [provider "a" "x", provider "b" "y"] "app" ≠
        contractRevision sampleEnv [provider "b" "y", provider "a" "x"] "app" := by
  refine ⟨by decide, fun h => ?_⟩
  exact absurd (Option.map_injective (prefixedSHA256_injective _) h) (by decide +kernel)

theorem revisions_perm_providers :
    contractRevision sampleEnv [provider "b" "x", provider "a" "x"] "app" =
      contractRevision sampleEnv [provider "a" "x", provider "b" "x"] "app" := by
  refine And.left (revisions_perm (by decide) (fun x hx y hy _ => ?_) (.swap _ _ []) "app"
    (provider "a" "x") [])
  have hentry : ∀ z ∈ [provider "a" "x", provider "b" "x"].filterMap identity,
      identity (provider "a" "x") = some z := by
    intro z hz
    obtain ⟨r, hr, hz⟩ := List.mem_filterMap.mp hz
    rw [← hz]
    simp only [List.mem_cons, List.not_mem_nil, or_false] at hr
    rcases hr with rfl | rfl <;> rfl
  exact Option.some.inj ((hentry x hx).symm.trans (hentry y hy))

end Scenery.Revision
