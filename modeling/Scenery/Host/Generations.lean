import Mathlib.Data.List.Count
import Mathlib.Data.List.Nodup
import Mathlib.Data.Int.Notation
import Mathlib.Tactic.SplitIfs
import Scenery.Text

/-!
# The generations of a process host

The supervisor publishes numbered generations, each of which names one instance of every service
process.
-/

namespace Scenery.Host

open List

structure Identity where
  contractRevision : String
  implementationRevision : String
  buildInputDigest : String
  goTarget : String
  deriving DecidableEq

structure InstanceSpec where
  network : String
  address : String
  pid : ℤ
  identity : Identity
  deriving DecidableEq

structure Manifest where
  generation : ℕ
  contractRevision : String
  identity : Identity
  processes : List (String × InstanceSpec)
  bindings : List (String × String)
  deriving DecidableEq

structure Generation where
  number : ℕ
  instances : List (String × InstanceSpec)
  inFlight : ℤ
  retired : Bool
  deriving DecidableEq

structure HostConfig where
  contract : String
  required : List String
  deriving DecidableEq

def Identity.complete (i : Identity) : Bool :=
  i.implementationRevision ≠ "" ∧ i.buildInputDigest ≠ "" ∧ i.goTarget ≠ ""

def InstanceSpec.validTarget (spec : InstanceSpec) : Bool :=
  (spec.network = "unix" ∨ spec.network = "tcp") ∧ trimSpace spec.address ≠ ""

def InstanceSpec.valid (spec : InstanceSpec) : Bool :=
  spec.validTarget && decide (0 < spec.pid) && decide (spec.identity.contractRevision ≠ "") &&
    spec.identity.complete

def Manifest.check (cfg : HostConfig) (m : Manifest) : Except String Unit := do
  if m.contractRevision ≠ cfg.contract then
    throw ("generation " ++ toString m.generation ++ " contract revision \"" ++
      m.contractRevision ++ "\" differs from the host's \"" ++ cfg.contract ++ "\"")
  if m.identity.contractRevision ≠ m.contractRevision ∨ m.identity.complete = false then
    throw ("generation " ++ toString m.generation ++ " has an incomplete build identity")
  cfg.required.forM fun process =>
    if process ∈ m.processes.map Prod.fst then pure ()
    else throw ("generation " ++ toString m.generation ++ " has no instance of service process " ++
      process)
  m.bindings.forM fun binding =>
    if binding.2 ∈ m.processes.map Prod.fst then pure ()
    else throw ("generation " ++ toString m.generation ++ " binding " ++ binding.1 ++
      " names unknown process " ++ binding.2)

def Manifest.publication (m : Manifest) : Generation := ⟨m.generation, m.processes, 0, false⟩

/-- `publish`, over the generations the host has had, newest first; the newest is the current
one. -/
def publish (cfg : HostConfig) (m : Manifest) (gens : List Generation) :
    Except String (List Generation) := do
  m.check cfg
  if gens.head?.any (fun current => m.generation ≤ current.number) || m.generation = 0 then
    throw ("generation " ++ toString m.generation ++ " does not follow the published generation")
  m.processes.forM fun process =>
    if process.2.valid then pure ()
    else throw ("generation " ++ toString m.generation ++ " instance of " ++ process.1 ++
      " is invalid")
  return m.publication :: gens

/-- `h.generations[number]`: a retired generation is not in the map. -/
def lookup (number : ℕ) (gens : List Generation) : Option Generation :=
  gens.find? fun g => g.number = number && !g.retired

def target (number : ℕ) (gens : List Generation) : Option Generation :=
  if number = 0 then gens.head? else lookup number gens

def addInFlight (number : ℕ) (n : ℤ) (gens : List Generation) : List Generation :=
  gens.map fun g => if g.number = number then { g with inFlight := g.inFlight + n } else g

inductive RemoveError where
  | notFound
  | conflict (message : String)
  deriving DecidableEq

def removeGeneration (number : ℕ) (force : Bool) (gens : List Generation) :
    Except RemoveError (List Generation) :=
  match lookup number gens with
  | none => .error .notFound
  | some g =>
    if gens.head?.any (fun current => current.number = number) then
      .error (.conflict "the current generation cannot be retired")
    else if !force && decide (0 < g.inFlight) then
      .error (.conflict ("generation has " ++ toString g.inFlight ++ " requests in flight"))
    else .ok (gens.map fun g => if g.number = number then { g with retired := true } else g)

def Descending (gens : List Generation) : Prop := (gens.map Generation.number).Pairwise (· > ·)

variable {gens gens' : List Generation} {n number : ℕ} {cfg : HostConfig} {m : Manifest}

theorem publish_eq_ok (h : publish cfg m gens = .ok gens') :
    m.generation ≠ 0 ∧ (∀ current ∈ gens.head?, current.number < m.generation) ∧
      gens' = m.publication :: gens := by
  unfold publish at h
  cases hcheck : m.check cfg with
  | error e => simp [hcheck, bind, Except.bind] at h
  | ok u =>
    simp only [hcheck, bind, Except.bind] at h
    split_ifs at h with hold
    split at h
    · cases h
    · cases h
      simp only [Bool.or_eq_true, decide_eq_true_eq, not_or, Option.any_eq_true] at hold
      refine ⟨hold.2, fun current hc => ?_, rfl⟩
      exact Nat.lt_of_not_le fun hle => hold.1 ⟨current, hc, by simpa using hle⟩

theorem Descending.publish (hd : Descending gens)
    (h : publish cfg m gens = .ok gens') : Descending gens' := by
  obtain ⟨-, hnew, rfl⟩ := publish_eq_ok h
  refine pairwise_cons.mpr ⟨fun n hn => ?_, hd⟩
  cases gens with
  | nil => exact absurd hn not_mem_nil
  | cons current rest =>
    have hcur : current.number < m.generation := hnew current rfl
    rcases mem_cons.mp hn with rfl | hn
    · exact hcur
    · exact Nat.lt_trans ((pairwise_cons.mp hd).1 n hn) hcur

theorem mem_of_target {g : Generation} (h : target number gens = some g) : g ∈ gens := by
  unfold target at h
  split_ifs at h
  · exact mem_of_mem_head? h
  · exact mem_of_find?_eq_some h

@[simp] theorem numbers_addInFlight (number : ℕ) (n : ℤ) (gens : List Generation) :
    (addInFlight number n gens).map Generation.number = gens.map Generation.number := by
  rw [addInFlight, map_map]
  refine map_congr_left fun g _ => ?_
  by_cases hg : g.number = number <;> simp [hg]

theorem removeGeneration_eq_ok {force : Bool} (h : removeGeneration number force gens = .ok gens') :
    gens' = gens.map fun g => if g.number = number then { g with retired := true } else g := by
  unfold removeGeneration at h
  split at h
  · cases h
  · split_ifs at h
    exact (Except.ok.inj h).symm

def Live (n : ℕ) (gens : List Generation) : Prop := ∃ g ∈ gens, g.number = n ∧ g.retired = false

theorem lookup_isSome : (lookup n gens).isSome = true ↔ Live n gens := by
  simp [lookup, Live]

theorem lookup_isNone : (lookup n gens).isNone = true ↔ ¬ Live n gens := by
  rw [← lookup_isSome]
  simp

theorem Live.mem (h : Live n gens) : n ∈ gens.map Generation.number := by
  obtain ⟨g, hg, rfl, -⟩ := h
  exact mem_map_of_mem hg

theorem live_addInFlight {d : ℤ} : Live n (addInFlight number d gens) ↔ Live n gens := by
  rw [Live, Live, addInFlight]
  simp only [mem_map, exists_exists_and_eq_and]
  refine exists_congr fun g => and_congr_right fun _ => ?_
  by_cases hg : g.number = number <;> simp [hg]

theorem live_publish (hd : Descending gens) (h : publish cfg m gens = .ok gens')
    (hn : n ∈ gens.map Generation.number) : Live n gens' ↔ Live n gens := by
  have hdesc := hd.publish h
  obtain ⟨-, -, rfl⟩ := publish_eq_ok h
  have hlt : n < m.generation := (pairwise_cons.mp hdesc).1 n hn
  constructor
  · rintro ⟨g, hg, rfl, hr⟩
    rcases mem_cons.mp hg with rfl | hg
    · exact absurd hlt (Nat.lt_irrefl _)
    · exact ⟨g, hg, rfl, hr⟩
  · rintro ⟨g, hg, hgn⟩
    exact ⟨g, mem_cons_of_mem _ hg, hgn⟩

section

variable (h : removeGeneration number force gens = .ok gens')
include h

theorem live_remove :
    Live n gens' ↔ n ≠ number ∧ Live n gens := by
  rw [removeGeneration_eq_ok h, Live, Live]
  simp only [mem_map, exists_exists_and_eq_and]
  constructor
  · rintro ⟨g, hg, hn, hr⟩
    by_cases hnum : g.number = number
    · simp [hnum] at hr
    · simp only [hnum, if_false] at hn hr
      exact ⟨fun hne => hnum (hn.trans hne), g, hg, hn, hr⟩
  · rintro ⟨hne, g, hg, rfl, hr⟩
    exact ⟨g, hg, by simp [hne], by simp [hne, hr]⟩

theorem numbers_remove :
    gens'.map Generation.number = gens.map Generation.number := by
  rw [removeGeneration_eq_ok h, map_map]
  refine map_congr_left fun g _ => ?_
  by_cases hn : g.number = number <;> simp [hn]

theorem live_of_remove :
    Live number gens := by
  unfold removeGeneration at h
  split at h
  · cases h
  · rename_i g hg
    exact lookup_isSome.mp (by rw [hg]; rfl)

end

end Scenery.Host
