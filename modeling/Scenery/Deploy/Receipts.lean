import Scenery.Deploy.Apply

/-!
# Receipts are truthful

A receipt is published after all effects of its plan, and nothing rolls them back afterwards,
unless the write of the receipt itself reports an error after the receipt has become visible: then
the providers are rolled back and the journal is removed, and the receipt stays.
-/

namespace Scenery.Deploy

def reported : ApplyOp → Outcome → Bool
  | .writeReceipt _, .failsAfter _ => false
  | _, _ => true

structure Consistent (d : Deployments) : Prop where
  single : ∀ j ∈ d.journals, ∀ j' ∈ d.journals, j = j'
  receipt : ∀ p, d.receipts p ≠ none → ∀ x ∈ p.providers.zipIdx, x.1.requiresApply = true →
    d.effects p x.2 = true
  untouched : ∀ p, d.receipts p = none → (∀ j ∈ d.journals, j.plan ≠ p) → ∀ i,
    d.effects p i = false
  logged : ∀ j ∈ d.journals, d.receipts j.plan = none → ∀ i, d.effects j.plan i = true →
    i ∈ j.applied
  previous : ∀ j ∈ d.journals, d.receipts j.plan = none →
    j.restoreState = true ∧ j.previousState = d.settled j.plan.name
  state : ∀ n, (∀ j ∈ d.journals, j.plan.name = n → d.receipts j.plan ≠ none) →
    d.states n = d.settled n

structure Undoing (d : Deployments) (j : Journal) : Prop where
  consistent : Consistent d
  fresh : d.receipts j.plan = none
  own : ∀ j' ∈ d.journals, j'.plan = j.plan
  restore : j.restoreState = true
  previous : j.previousState = d.settled j.plan.name

section

variable {d d' : Deployments} {j : Journal} {p : Plan} {i : ℕ} {r : Receipt}

/-! ## Changes -/

theorem mem_dropJournal {j' : Journal} :
    j' ∈ (d.dropJournal p).journals ↔ j' ∈ d.journals ∧ j'.plan ≠ p := by
  simp [Deployments.dropJournal, List.mem_filter]

theorem Consistent.drop_committed (h : Consistent d) (hp : d.receipts p ≠ none) :
    Consistent (d.dropJournal p) where
  single j hj j' hj' := h.single j (mem_dropJournal.mp hj).1 j' (mem_dropJournal.mp hj').1
  receipt := h.receipt
  untouched q hq hnone := by
    refine h.untouched q hq fun j hj hjq => hnone j (mem_dropJournal.mpr ⟨hj, ?_⟩) hjq
    rintro rfl
    exact hp (hjq ▸ hq)
  logged j hj := h.logged j (mem_dropJournal.mp hj).1
  previous j hj := h.previous j (mem_dropJournal.mp hj).1
  state n hn := by
    refine h.state n fun j hj hname => ?_
    by_cases hjp : j.plan = p
    · exact hjp ▸ hp
    · exact hn j (mem_dropJournal.mpr ⟨hj, hjp⟩) hname

section

variable (h : Undoing d j)
include h

theorem Undoing.drop (heffects : ∀ i, d.effects j.plan i = false)
    (hstate : d.states j.plan.name = d.settled j.plan.name) :
    Consistent (d.dropJournal j.plan) := by
  have hnone : ∀ j', j' ∉ (d.dropJournal j.plan).journals := by
    intro j' hj'
    obtain ⟨hmem, hne⟩ := mem_dropJournal.mp hj'
    exact hne (h.own j' hmem)
  refine ⟨fun j hj => absurd hj (hnone j), h.consistent.receipt, fun q hq _ => ?_,
    fun j hj => absurd hj (hnone j), fun j hj => absurd hj (hnone j), fun n _ => ?_⟩
  · by_cases hqj : q = j.plan
    · exact hqj ▸ heffects
    · refine h.consistent.untouched q hq fun j' hj' hjq => hqj ?_
      exact hjq.symm.trans (h.own j' hj')
  · by_cases hn : n = j.plan.name
    · exact hn ▸ hstate
    · refine h.consistent.state n fun j' hj' hname => absurd hname.symm ?_
      rw [h.own j' hj']
      exact hn

theorem Undoing.restored :
    Undoing (d.putState j.plan.name j.previousState) j :=
  { h with consistent := { h.consistent with
    state := fun n hn => by
      simp only [Deployments.putState]
      split_ifs with he
      · rw [he]
        exact h.previous
      · exact h.consistent.state n hn } }

theorem Undoing.putEffect {value : Bool}
    (hset : value = true → j ∈ d.journals ∧ i ∈ j.applied) :
    Undoing (d.putEffect j.plan i value) j :=
  { h with consistent := { h.consistent with
    receipt := fun q hq x hx happly => by
      have hqj : q ≠ j.plan := fun he => hq (he ▸ h.fresh)
      simp only [Deployments.putEffect, hqj, false_and, if_false]
      exact h.consistent.receipt q hq x hx happly
    untouched := fun q hq hnone i' => by
      simp only [Deployments.putEffect]
      split_ifs with he
      · exact Bool.eq_false_iff.mpr fun hvalue => hnone j (hset hvalue).1 he.1.symm
      · exact h.consistent.untouched q hq hnone i'
    logged := fun j' hj' hfresh i' hi' => by
      simp only [Deployments.putEffect] at hi'
      split_ifs at hi' with he
      · obtain rfl := h.consistent.single j' hj' j (hset hi').1
        exact he.2 ▸ (hset hi').2
      · exact h.consistent.logged j' hj' hfresh i' hi' } }

theorem Undoing.journaled
    (heffects : ∀ i, d.effects j.plan i = true → i ∈ j.applied) :
    Undoing (d.putJournal j) j ∧ j ∈ (d.putJournal j).journals := by
  have honly : ∀ j', j' ∈ (d.putJournal j).journals → j' = j := by
    intro j' hj'
    rcases List.mem_cons.mp hj' with rfl | hj'
    · rfl
    · obtain ⟨hmem, hne⟩ := List.mem_filter.mp hj'
      exact absurd (h.own j' hmem) (of_decide_eq_true hne)
  have hmem : j ∈ (d.putJournal j).journals := List.mem_cons_self
  refine ⟨⟨⟨fun j₁ h₁ j₂ h₂ => (honly j₁ h₁).trans (honly j₂ h₂).symm, h.consistent.receipt,
    fun q hq hnone => ?_, fun j' hj' => ?_, fun j' hj' _ => ?_, fun n hn => ?_⟩, h.fresh,
    fun j' hj' => by rw [honly j' hj'], h.restore, h.previous⟩, hmem⟩
  · refine h.consistent.untouched q hq fun j' hj' hjq => hnone j hmem ?_
    exact (h.own j' hj').symm.trans hjq
  · obtain rfl := honly j' hj'
    exact fun _ => heffects
  · obtain rfl := honly j' hj'
    exact ⟨h.restore, h.previous⟩
  · by_cases hname : j.plan.name = n
    · exact absurd h.fresh (hn j hmem hname)
    · refine h.consistent.state n fun j' hj' hname' => absurd ?_ hname
      rw [← h.own j' hj']
      exact hname'

theorem Undoing.stated (hj : j ∈ d.journals) :
    Undoing (d.putState j.plan.name (some r)) j :=
  { h with consistent := { h.consistent with
    state := fun n hn => by
      have hne : n ≠ j.plan.name := fun he => hn j hj he.symm h.fresh
      simp only [Deployments.putState, hne, if_false]
      exact h.consistent.state n hn } }

theorem Undoing.committed (hr : r.plan = j.plan)
    (hall : ∀ x ∈ j.plan.providers.zipIdx, x.1.requiresApply = true →
      d.effects j.plan x.2 = true) : Consistent (d.putReceipt r) := by
  have hsome : ∀ j' ∈ d.journals, (d.putReceipt r).receipts j'.plan ≠ none := by
    intro j' hj'
    simp [Deployments.putReceipt, h.own j' hj', hr]
  refine ⟨h.consistent.single, fun q hq => ?_, fun q hq hnone => ?_,
    fun j' hj' hfresh => absurd hfresh (hsome j' hj'),
    fun j' hj' hfresh => absurd hfresh (hsome j' hj'), fun n _ => ?_⟩
  · by_cases hqj : q = j.plan
    · exact hqj ▸ hall
    · simp only [Deployments.putReceipt, hr, hqj, if_false] at hq
      exact h.consistent.receipt q hq
  · simp only [Deployments.putReceipt] at hq
    split_ifs at hq
    exact h.consistent.untouched q hq hnone
  · simp only [Deployments.putReceipt, hr]
    split_ifs with hn
    · rfl
    · refine h.consistent.state n fun j' hj' hname => absurd ?_ hn
      rw [← hname, h.own j' hj']

end

end

end Scenery.Deploy
