import Mathlib.Data.List.Induction
import Mathlib.Data.List.Nodup
import Mathlib.Data.List.TakeWhile
import Mathlib.Data.String.Basic
import Mathlib.Tactic.SplitIfs
import Scenery.Host.Journal

/-!
# Durable receipts

A process host authorizes the status and the cancellation of a durable execution to the principal
whose call started it.
-/

namespace Scenery.Host

open List

structure DurableOwner where
  process : String
  service : String
  taskName : String
  ambiguous : Bool
  deriving DecidableEq, Inhabited

structure DurableRecord where
  principal : String
  executionID : String
  process : String
  service : String
  taskName : String
  ambiguous : Bool
  deriving DecidableEq

def nul : Char := Char.ofNat 0

def receiptKey (principal executionID : String) : String :=
  principal ++ String.ofList [nul] ++ executionID

def cutKey (key : String) : String × String :=
  (String.ofList (key.toList.takeWhile (· ≠ nul)),
    String.ofList ((key.toList.dropWhile (· ≠ nul)).drop 1))

theorem nul_mem_receiptKey (principal executionID : String) :
    nul ∈ (receiptKey principal executionID).toList := by
  simp [receiptKey]

theorem receiptKey_cutKey {key : String} (h : nul ∈ key.toList) :
    receiptKey (cutKey key).1 (cutKey key).2 = key := by
  have hdrop : key.toList.dropWhile (· ≠ nul) =
      nul :: (key.toList.dropWhile (· ≠ nul)).drop 1 := by
    cases hl : key.toList.dropWhile (· ≠ nul) with
    | nil =>
      have hall := dropWhile_eq_nil_iff.mp hl nul h
      simp at hall
    | cons a rest =>
      have hhead := head?_dropWhile_not (fun a => decide (a ≠ nul)) key.toList
      rw [hl] at hhead
      have ha : a = nul := by simpa using hhead
      rw [ha]
      rfl
  refine String.toList_injective ?_
  calc (receiptKey (cutKey key).1 (cutKey key).2).toList
      = key.toList.takeWhile (· ≠ nul) ++ (nul :: (key.toList.dropWhile (· ≠ nul)).drop 1) := by
        simp [receiptKey, cutKey]
    _ = key.toList.takeWhile (· ≠ nul) ++ key.toList.dropWhile (· ≠ nul) := by rw [← hdrop]
    _ = key.toList := takeWhile_append_dropWhile

namespace DurableRecord

def key (r : DurableRecord) : String := receiptKey r.principal r.executionID

def owner (r : DurableRecord) : DurableOwner := ⟨r.process, r.service, r.taskName, r.ambiguous⟩

end DurableRecord

def durableOwnerLimit : ℕ := 4096

theorem durableOwnerLimit_pos : 0 < durableOwnerLimit := by decide

structure Receipt where
  key : String
  owner : DurableOwner
  deriving DecidableEq

namespace Receipt

def sameOwner (x : Receipt) (r : DurableRecord) : Bool :=
  x.owner.process = r.process ∧ x.owner.service = r.service ∧ x.owner.taskName = r.taskName

def meet (r : DurableRecord) (x : Receipt) : Receipt :=
  if x.key = r.key ∧ (r.ambiguous || !x.sameOwner r) then
    { x with owner := { x.owner with ambiguous := true } }
  else x

@[simp] theorem key_meet (r : DurableRecord) (x : Receipt) : (x.meet r).key = x.key := by
  rw [meet]
  split_ifs <;> rfl

def record (x : Receipt) : DurableRecord where
  principal := (cutKey x.key).1
  executionID := (cutKey x.key).2
  process := x.owner.process
  service := x.owner.service
  taskName := x.owner.taskName
  ambiguous := x.owner.ambiguous

end Receipt

def applyReceipts (receipts : List Receipt) (r : DurableRecord) : List Receipt :=
  if r.key ∈ receipts.map Receipt.key then receipts.map (Receipt.meet r)
  else (if durableOwnerLimit ≤ receipts.length then receipts.drop 1 else receipts) ++
    [⟨r.key, r.owner⟩]

/-- `processHostDurableOwners`: the map `values` and the list `order` as one list of receipts,
oldest first. -/
structure DurableOwners where
  receipts : List Receipt
  distinct : (receipts.map Receipt.key).Nodup
  bounded : receipts.length ≤ durableOwnerLimit
  keyed : ∀ x ∈ receipts, nul ∈ x.key.toList

namespace DurableOwners

variable {t t' : DurableOwners}

theorem ext_receipts (h : t.receipts = t'.receipts) : t = t' := by
  cases t
  cases t'
  simpa using h

instance : DecidableEq DurableOwners := fun t t' =>
  decidable_of_iff (t.receipts = t'.receipts) ⟨ext_receipts, fun h => h ▸ rfl⟩

def empty : DurableOwners := ⟨[], nodup_nil, Nat.zero_le _, fun _ h => absurd h not_mem_nil⟩

def apply (t : DurableOwners) (r : DurableRecord) : DurableOwners where
  receipts := applyReceipts t.receipts r
  distinct := by
    rw [applyReceipts]
    split_ifs with hmem hfull
    · have hkeys : (t.receipts.map (Receipt.meet r)).map Receipt.key = t.receipts.map Receipt.key := by
        rw [map_map]
        exact map_congr_left fun x _ => Receipt.key_meet r x
      rw [hkeys]
      exact t.distinct
    · rw [map_append, map_drop, map_singleton, ← concat_eq_append]
      exact List.Nodup.concat (fun h => hmem (mem_of_mem_drop h))
        (t.distinct.sublist (drop_sublist 1 _))
    · rw [map_append, map_singleton, ← concat_eq_append]
      exact List.Nodup.concat hmem t.distinct
  bounded := by
    have hpos := durableOwnerLimit_pos
    have hbound := t.bounded
    rw [applyReceipts]
    split_ifs with hmem hfull
    · rwa [length_map]
    · rw [length_append, length_drop, length_singleton]
      omega
    · rw [length_append, length_singleton]
      omega
  keyed := by
    intro x hx
    rw [applyReceipts] at hx
    split_ifs at hx with hmem hfull
    · obtain ⟨x₀, hx₀, rfl⟩ := mem_map.mp hx
      rw [Receipt.key_meet]
      exact t.keyed x₀ hx₀
    · rcases mem_append.mp hx with hx | hx
      · exact t.keyed x (mem_of_mem_drop hx)
      · rw [mem_singleton.mp hx]
        exact nul_mem_receiptKey _ _
    · rcases mem_append.mp hx with hx | hx
      · exact t.keyed x hx
      · rw [mem_singleton.mp hx]
        exact nul_mem_receiptKey _ _

def find (t : DurableOwners) (key : String) : Option Receipt := t.receipts.find? (·.key = key)

def next (t : DurableOwners) (r : DurableRecord) : Option DurableRecord :=
  match t.find r.key with
  | none => some r
  | some x =>
    if x.owner.ambiguous || x.sameOwner r then none
    else some { r with process := x.owner.process, service := x.owner.service,
                       taskName := x.owner.taskName, ambiguous := true }

def records (t : DurableOwners) : List DurableRecord := t.receipts.map Receipt.record

def unavailable : String := "process host state is unavailable"

def load {β : Type} (t : DurableOwners) (j : Journal β) (principal executionID : String) :
    Except String (DurableOwner × Bool) :=
  if j.poisoned then .error unavailable
  else match t.find (receiptKey principal executionID) with
    | none => .ok (default, false)
    | some x => .ok (x.owner, !x.owner.ambiguous)

def replayRecord (t : DurableOwners) (r : DurableRecord) : Option DurableOwners :=
  if r.principal = "" ∨ r.executionID = "" then none else some (t.apply r)

def after (rs : List DurableRecord) : DurableOwners := rs.foldl apply empty

@[simp] theorem after_concat (rs : List DurableRecord) (r : DurableRecord) :
    after (rs ++ [r]) = (after rs).apply r := by
  simp [after]

theorem foldlM_replayRecord {rs : List DurableRecord}
    (h : rs.foldlM replayRecord t = some t') : rs.foldl apply t = t' := by
  induction rs generalizing t with
  | nil => exact Option.some.inj h
  | cons r rs ih =>
    obtain ⟨t₁, hr, hrest⟩ := Option.bind_eq_some_iff.mp h
    rw [replayRecord] at hr
    split_ifs at hr
    cases hr
    exact ih hrest

variable {x : Receipt}

theorem key_apply {r : DurableRecord}
    (h : x ∈ (t.apply r).receipts) : (∃ x₀ ∈ t.receipts, x₀.key = x.key) ∨ x.key = r.key := by
  change x ∈ applyReceipts t.receipts r at h
  rw [applyReceipts] at h
  split_ifs at h with hmem hfull
  · obtain ⟨x₀, hx₀, rfl⟩ := mem_map.mp h
    exact .inl ⟨x₀, hx₀, (Receipt.key_meet r x₀).symm⟩
  · rcases mem_append.mp h with h | h
    · exact .inl ⟨x, mem_of_mem_drop h, rfl⟩
    · exact .inr (by rw [mem_singleton.mp h])
  · rcases mem_append.mp h with h | h
    · exact .inl ⟨x, h, rfl⟩
    · exact .inr (by rw [mem_singleton.mp h])

theorem key_after {rs : List DurableRecord} (h : x ∈ (after rs).receipts) :
    ∃ r ∈ rs, r.key = x.key := by
  induction rs using List.reverseRecOn generalizing x with
  | nil => exact absurd h not_mem_nil
  | append_singleton rs r ih =>
    rw [after_concat] at h
    rcases key_apply h with ⟨x₀, hx₀, hkey⟩ | hkey
    · obtain ⟨r₀, hr₀, hr₀key⟩ := ih hx₀
      exact ⟨r₀, mem_append_left _ hr₀, hr₀key.trans hkey⟩
    · exact ⟨r, mem_append_right _ mem_cons_self, hkey.symm⟩

theorem key_record (h : x ∈ t.receipts) : x.record.key = x.key := receiptKey_cutKey (t.keyed x h)

theorem foldl_record {xs : List Receipt}
    (h : t'.receipts = t.receipts ++ xs) : (xs.map Receipt.record).foldl apply t = t' := by
  induction xs generalizing t with
  | nil => exact ext_receipts (by rw [h, append_nil]; rfl)
  | cons x xs ih =>
    have hx : x ∈ t'.receipts := h ▸ mem_append_right _ mem_cons_self
    have hkey : x.record.key = x.key := key_record hx
    have hnew : x.record.key ∉ t.receipts.map Receipt.key := by
      have hnodup := t'.distinct
      rw [h, map_append, map_cons] at hnodup
      rw [hkey]
      exact fun hmem => (nodup_append.mp hnodup).2.2 _ hmem _ mem_cons_self rfl
    have hroom : ¬ durableOwnerLimit ≤ t.receipts.length := by
      have hbound := t'.bounded
      rw [h, length_append, length_cons] at hbound
      omega
    have happly : (t.apply x.record).receipts = t.receipts ++ [x] := by
      change applyReceipts t.receipts x.record = _
      rw [applyReceipts, if_neg hnew, if_neg hroom, hkey]
      rfl
    refine ih ?_
    rw [happly, h, append_assoc]
    rfl

theorem after_records (t : DurableOwners) : after t.records = t := foldl_record rfl

end DurableOwners

end Scenery.Host
