import Mathlib.Data.List.Count
import Mathlib.Data.List.Nodup
import Mathlib.Data.List.Perm.Subperm
import Mathlib.Tactic.SplitIfs

/-!
# Tables with a primary key

A table is a list of rows of which no two have the same key.
-/

namespace Scenery

open List

structure Table {ρ κ : Type} (key : ρ → κ) where
  rows : List ρ
  nodup : (rows.map key).Nodup

namespace Table

variable {ρ κ : Type} {key : ρ → κ}

instance : Membership ρ (Table key) where
  mem t r := r ∈ t.rows

variable {t : Table key} {r : ρ}

theorem mem_def : r ∈ t ↔ r ∈ t.rows := Iff.rfl

theorem eq_of_key {r r' : ρ} (h : r ∈ t) (h' : r' ∈ t) (hk : key r = key r') :
    r = r' := inj_on_of_nodup_map t.nodup h h' hk

def empty : Table key := ⟨[], nodup_nil⟩

theorem not_mem_empty (r : ρ) : r ∉ (empty : Table key) := not_mem_nil

def update (t : Table key) (p : ρ → Bool) (f : ρ → ρ) (hf : ∀ r, key (f r) = key r) :
    Table key where
  rows := t.rows.map fun r => if p r then f r else r
  nodup := by
    have hkeys : (t.rows.map fun r => if p r then f r else r).map key = t.rows.map key := by
      rw [map_map]
      refine map_congr_left fun r _ => ?_
      by_cases h : p r <;> simp [h, hf]
    rw [hkeys]
    exact t.nodup

variable {p : ρ → Bool} {f : ρ → ρ}

theorem mem_update {hf : ∀ r, key (f r) = key r} :
    r ∈ t.update p f hf ↔ ∃ r₀ ∈ t, (if p r₀ then f r₀ else r₀) = r := by
  simp [mem_def, update]

theorem map_key_update (t : Table key) (p : ρ → Bool) (f : ρ → ρ) (hf : ∀ r, key (f r) = key r) :
    (t.update p f hf).rows.map key = t.rows.map key := by
  unfold update
  rw [map_map]
  refine map_congr_left fun r _ => ?_
  by_cases h : p r <;> simp [h, hf]

theorem mem_update_cases (hf : ∀ r, key (f r) = key r) (h : r ∈ t.update p f hf) :
    (∃ r₀ ∈ t, p r₀ = true ∧ r = f r₀) ∨ r ∈ t ∧ p r = false := by
  obtain ⟨r₀, hr₀, rfl⟩ := mem_update.mp h
  by_cases hp : p r₀ = true
  · exact .inl ⟨r₀, hr₀, hp, if_pos hp⟩
  · rw [if_neg hp]
    exact .inr ⟨hr₀, Bool.eq_false_iff.mpr hp⟩

theorem mem_update_of_not (hf : ∀ r, key (f r) = key r) (h : r ∈ t) (hp : p r = false) :
    r ∈ t.update p f hf := mem_update.mpr ⟨r, h, by simp [hp]⟩

theorem mem_update_of (hf : ∀ r, key (f r) = key r) (h : r ∈ t) (hp : p r = true) :
    f r ∈ t.update p f hf := mem_update.mpr ⟨r, h, if_pos hp⟩

def delete (t : Table key) (p : ρ → Bool) : Table key where
  rows := t.rows.filter fun r => !p r
  nodup := t.nodup.sublist (filter_sublist.map key)

theorem mem_delete :
    r ∈ t.delete p ↔ r ∈ t ∧ p r = false := by
  simp [mem_def, delete]

def insert (t : Table key) (r : ρ) (h : key r ∉ t.rows.map key) : Table key where
  rows := t.rows ++ [r]
  nodup := by
    rw [map_append, nodup_append]
    refine ⟨t.nodup, nodup_singleton _, fun k hk k' hk' he => ?_⟩
    rw [map_singleton, mem_singleton] at hk'
    rw [← hk', ← he] at h
    exact h hk

theorem mem_insert (h : key r ∉ t.rows.map key) {r' : ρ} :
    r' ∈ t.insert r h ↔ r' ∈ t ∨ r' = r := by
  simp [mem_def, insert]

theorem length_filter_keys (t : Table key) (p : ρ → Bool) :
    ((t.rows.filter p).map key).length = t.rows.countP p := by
  rw [length_map, countP_eq_length_filter]

theorem nodup_filter_keys (t : Table key) (p : ρ → Bool) :
    ((t.rows.filter p).map key).Nodup := t.nodup.sublist (filter_sublist.map key)

theorem mem_filter_keys {k : κ} :
    k ∈ (t.rows.filter p).map key ↔ ∃ r ∈ t, p r = true ∧ key r = k := by
  simp [mem_def, and_assoc]

theorem countP_le {t t' : Table key} {p p' : ρ → Bool}
    (h : ∀ r' ∈ t', p' r' = true → ∃ r ∈ t, p r = true ∧ key r = key r') :
    t'.rows.countP p' ≤ t.rows.countP p := by
  have hsub : (t'.rows.filter p').map key ⊆ (t.rows.filter p).map key := by
    intro key' hkey
    obtain ⟨r', hr', hp, rfl⟩ := mem_filter_keys.mp hkey
    exact mem_filter_keys.mpr (h r' hr' hp)
  have hlen := (subperm_of_subset (t'.nodup_filter_keys p') hsub).length_le
  rwa [length_filter_keys, length_filter_keys] at hlen

theorem exists_ne_of_one_lt_countP (h : 1 < t.rows.countP p) (r : ρ) :
    ∃ r' ∈ t, p r' = true ∧ r' ≠ r := by
  rw [countP_eq_length_filter] at h
  have hnodup : (t.rows.filter p).Nodup := (List.Nodup.of_map key t.nodup).filter p
  have hmem : ∀ x ∈ t.rows.filter p, x ∈ t ∧ p x = true := fun _ => mem_filter.mp
  generalize t.rows.filter p = l at h hnodup hmem
  rcases l with _ | ⟨a, _ | ⟨b, rest⟩⟩
  · simp at h
  · simp at h
  · have hab : a ≠ b := fun hab => (nodup_cons.mp hnodup).1 (hab ▸ mem_cons_self)
    obtain ⟨ha, hpa⟩ := hmem a mem_cons_self
    obtain ⟨hb, hpb⟩ := hmem b (mem_cons_of_mem _ mem_cons_self)
    by_cases har : a = r
    · exact ⟨b, hb, hpb, fun hbr => hab (har.trans hbr.symm)⟩
    · exact ⟨a, ha, hpa, har⟩

theorem countP_insert (t : Table key) (p : ρ → Bool) (r : ρ) (h : key r ∉ t.rows.map key) :
    (t.insert r h).rows.countP p = t.rows.countP p + if p r then 1 else 0 := by
  rw [insert, countP_append, countP_singleton]

theorem perm_cons_filter_key [DecidableEq κ] {l : List ρ} (hl : (l.map key).Nodup) (hr : r ∈ l) :
    l.Perm (r :: l.filter fun r' => !decide (key r' = key r)) := by
  induction l with
  | nil => exact absurd hr not_mem_nil
  | cons a l ih =>
    obtain ⟨ha, hl⟩ := nodup_cons.mp hl
    rcases mem_cons.mp hr with rfl | hr
    · -- no later row has the key
      rw [filter_cons_of_neg (by simp), filter_eq_self.mpr]
      intro r' hr'
      have hne : key r' ≠ key r := fun he => ha (he ▸ mem_map_of_mem hr')
      simp [hne]
    · have hne : key a ≠ key r := fun he => ha (he ▸ mem_map_of_mem hr)
      rw [filter_cons_of_pos (by simp [hne])]
      exact ((ih hl hr).cons a).trans (.swap r a _)

theorem countP_delete_key [DecidableEq κ] (t : Table key) (p : ρ → Bool) (h : r ∈ t) :
    t.rows.countP p = (t.delete fun r' => key r' = key r).rows.countP p + if p r then 1 else 0 := by
  rw [(perm_cons_filter_key t.nodup h).countP_eq, countP_cons]
  rfl

theorem countP_update_key [DecidableEq κ] (t : Table key) (p : ρ → Bool) (h : r ∈ t) (f : ρ → ρ)
    (hf : ∀ r, key (f r) = key r) :
    (t.update (fun r' => key r' = key r) f hf).rows.countP p + (if p r then 1 else 0) =
      t.rows.countP p + if p (f r) then 1 else 0 := by
  have hperm := perm_cons_filter_key t.nodup h
  have hrest : (t.rows.filter fun r' => !decide (key r' = key r)).map
      (fun r' => if decide (key r' = key r) then f r' else r') =
        t.rows.filter fun r' => !decide (key r' = key r) := by
    refine (map_congr_left fun r' hr' => ?_).trans (map_id _)
    rw [if_neg (by simpa using (mem_filter.mp hr').2)]
    rfl
  rw [update, (hperm.map _).countP_eq, hperm.countP_eq, map_cons, hrest, countP_cons, countP_cons]
  simp only [decide_true, if_true]
  omega

theorem countP_lt [DecidableEq κ] {t t' : Table key} {p p' : ρ → Bool} (k : κ)
    (hk : ∃ r ∈ t, p r = true ∧ key r = k)
    (h : ∀ r' ∈ t', p' r' = true → key r' ≠ k ∧ ∃ r ∈ t, p r = true ∧ key r = key r') :
    t'.rows.countP p' < t.rows.countP p := by
  obtain ⟨r, hr, hp, rfl⟩ := hk
  rw [countP_delete_key t p hr, if_pos hp]
  refine Nat.lt_succ_of_le (countP_le fun r' hr' hp' => ?_)
  obtain ⟨hne, r₀, hr₀, hp₀, hkey⟩ := h r' hr' hp'
  exact ⟨r₀, mem_delete.mpr ⟨hr₀, by simpa [hkey] using hne⟩, hp₀, hkey⟩

theorem countP_le_succ [DecidableEq κ] {t t' : Table key} {p p' : ρ → Bool} (k : κ)
    (h : ∀ r' ∈ t', p' r' = true → key r' = k ∨ ∃ r ∈ t, p r = true ∧ key r = key r') :
    t'.rows.countP p' ≤ t.rows.countP p + 1 := by
  by_cases hk : ∃ r ∈ t', key r = k
  · obtain ⟨r, hr, rfl⟩ := hk
    have hle : (t'.delete fun r' => key r' = key r).rows.countP p' ≤ t.rows.countP p := by
      refine countP_le fun r' hr' hp => ?_
      obtain ⟨hmem, hne⟩ := mem_delete.mp hr'
      exact (h r' hmem hp).resolve_left (of_decide_eq_false hne)
    rw [countP_delete_key t' p' hr]
    split_ifs <;> omega
  · refine Nat.le_succ_of_le (countP_le fun r' hr' hp => ?_)
    exact (h r' hr' hp).resolve_left fun he => hk ⟨r', hr', he⟩

variable [DecidableEq κ]

def find (t : Table key) (k : κ) : Option ρ := t.rows.find? fun r => key r = k

theorem find_eq_some {k : κ} :
    t.find k = some r ↔ r ∈ t ∧ key r = k := by
  constructor
  · intro h
    exact ⟨mem_of_find?_eq_some h, by simpa using find?_some h⟩
  · rintro ⟨hr, rfl⟩
    cases h : t.find (key r) with
    | none =>
      have hno := find?_eq_none.mp h r hr
      simp at hno
    | some r' =>
      have hmem : r' ∈ t := mem_of_find?_eq_some h
      have hkey : key r' = key r := by simpa using find?_some h
      rw [eq_of_key hmem hr hkey]

def upsert (t : Table key) (r : ρ) (f : ρ → ρ) (hf : ∀ r, key (f r) = key r) : Table key :=
  if h : key r ∈ t.rows.map key then t.update (fun r₀ => key r₀ = key r) f hf else t.insert r h

theorem mem_upsert {r r' : ρ} (hf : ∀ r, key (f r) = key r) :
    r' ∈ t.upsert r f hf ↔ (r' ∈ t ∧ key r' ≠ key r) ∨
      ((∀ r₀ ∈ t, key r₀ ≠ key r) ∧ r' = r) ∨ ∃ r₀ ∈ t, key r₀ = key r ∧ r' = f r₀ := by
  simp only [upsert]
  split_ifs with htaken
  · obtain ⟨r₁, hr₁, hk₁⟩ := mem_map.mp htaken
    constructor
    · intro h
      rcases mem_update_cases hf h with ⟨r₀, hr₀, hp, rfl⟩ | ⟨hr', hp⟩
      · exact .inr (.inr ⟨r₀, hr₀, of_decide_eq_true hp, rfl⟩)
      · exact .inl ⟨hr', of_decide_eq_false hp⟩
    · rintro (⟨hr', hne⟩ | ⟨hfree, -⟩ | ⟨r₀, hr₀, hk, rfl⟩)
      · exact mem_update.mpr ⟨r', hr', if_neg (by simpa using hne)⟩
      · exact absurd hk₁ (hfree r₁ hr₁)
      · exact mem_update.mpr ⟨r₀, hr₀, if_pos (decide_eq_true hk)⟩
  · have hfree : ∀ r₀ ∈ t, key r₀ ≠ key r := fun r₀ hr₀ hk =>
      htaken (mem_map.mpr ⟨r₀, hr₀, hk⟩)
    rw [mem_insert htaken]
    constructor
    · rintro (hr' | rfl)
      · exact .inl ⟨hr', hfree r' hr'⟩
      · exact .inr (.inl ⟨hfree, rfl⟩)
    · rintro (⟨hr', -⟩ | ⟨-, rfl⟩ | ⟨r₀, hr₀, hk, -⟩)
      · exact .inl hr'
      · exact .inr rfl
      · exact absurd hk (hfree r₀ hr₀)

theorem exists_mem_upsert (t : Table key) (r : ρ) (hf : ∀ r, key (f r) = key r) :
    ∃ r' ∈ t.upsert r f hf, key r' = key r ∧ (r' = r ∨ ∃ r₀ ∈ t, key r₀ = key r ∧ r' = f r₀) := by
  by_cases h : ∃ r₀ ∈ t, key r₀ = key r
  · obtain ⟨r₀, hr₀, hk⟩ := h
    exact ⟨f r₀, (mem_upsert hf).mpr (.inr (.inr ⟨r₀, hr₀, hk, rfl⟩)), (hf r₀).trans hk,
      .inr ⟨r₀, hr₀, hk, rfl⟩⟩
  · have hfree : ∀ r₀ ∈ t, key r₀ ≠ key r := fun r₀ hr₀ hk => h ⟨r₀, hr₀, hk⟩
    exact ⟨r, (mem_upsert hf).mpr (.inr (.inl ⟨hfree, rfl⟩)), rfl, .inl rfl⟩

end Table

end Scenery
