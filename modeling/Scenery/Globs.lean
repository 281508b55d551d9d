import Mathlib.Data.List.Forall2
import Mathlib.Data.List.Infix

/-!
# Patterns with a wildcard for any run

A pattern is matched from left to right; some of its items stand for any run, each other one for
one item that it is related to.
-/

namespace Scenery.Globs

open List

variable {α β : Type} (any : α → Bool) (one : α → β → Bool)

inductive Matches : List α → List β → Prop where
  | nil : Matches [] []
  | any {a p r l} (ha : any a = true) (h : Matches p l) : Matches (a :: p) (r ++ l)
  | one {a b p l} (ha : any a = false) (hb : one a b = true) (h : Matches p l) :
      Matches (a :: p) (b :: l)

def matchParts : List α → List β → Bool
  | [], l => l.isEmpty
  | a :: p, l =>
    if any a then l.tails.any (matchParts p)
    else l.head?.any (one a) && matchParts p l.tail

variable {any one} {p q : List α} {l : List β}

theorem matchParts_iff : matchParts any one p l = true ↔ Matches any one p l := by
  induction p generalizing l with
  | nil =>
    rw [matchParts, List.isEmpty_iff]
    constructor
    · rintro rfl
      exact .nil
    · rintro ⟨⟩
      rfl
  | cons a p ih =>
    rw [matchParts]
    constructor
    · intro hmatch
      split at hmatch
      · next ha =>
        obtain ⟨t, ht, h⟩ := any_eq_true.mp hmatch
        obtain ⟨run, rfl⟩ := (mem_tails _ _).mp ht
        exact .any ha (ih.mp h)
      · next ha =>
        obtain ⟨hhead, h⟩ := Bool.and_eq_true_iff.mp hmatch
        cases l with
        | nil => cases hhead
        | cons b l => exact .one (Bool.eq_false_iff.mpr ha) hhead (ih.mp h)
    · rintro (_ | ⟨ha, h⟩ | ⟨ha, hb, h⟩)
      · rw [if_pos ha, any_eq_true]
        exact ⟨_, (mem_tails _ _).mpr (suffix_append _ _), ih.mpr h⟩
      · rw [if_neg (Bool.eq_false_iff.mp ha)]
        exact Bool.and_eq_true_iff.mpr ⟨hb, ih.mpr h⟩

theorem matchParts_congr {one' : α → β → Bool} (h : ∀ a ∈ p, one a = one' a) :
    matchParts any one p l = matchParts any one' p l := by
  induction p generalizing l with
  | nil => rfl
  | cons a p ih =>
    have ih := funext fun l => @ih l fun b hb => h b (mem_cons_of_mem a hb)
    rw [matchParts, matchParts, ih, h a mem_cons_self]

theorem Matches.of_forall₂ (h : List.Forall₂ (fun a b => any a = true ∨ one a b = true) p l) :
    Matches any one p l := by
  induction h with
  | nil => exact .nil
  | @cons a b p l hab _ ih =>
    cases ha : any a with
    | true => exact @Matches.any _ _ any one a p [b] l ha ih
    | false => exact .one ha (hab.resolve_left (by simp [ha])) ih

theorem Matches.append {p' : List α} {l' : List β} (h : Matches any one p l)
    (h' : Matches any one p' l') : Matches any one (p ++ p') (l ++ l') := by
  induction h with
  | nil => exact h'
  | any ha _ ih => exact (append_assoc .. : _ = _ ++ (_ ++ l')) ▸ .any ha ih
  | one ha hb _ ih => exact .one ha hb ih

theorem Matches.exists_one {a : α} (h : Matches any one p l) (hmem : a ∈ p) (ha : any a = false) :
    ∃ b ∈ l, one a b = true := by
  induction h with
  | nil => cases hmem
  | any ha' _ ih =>
    rcases mem_cons.mp hmem with rfl | hmem
    · cases ha.symm.trans ha'
    · obtain ⟨b, hb, hone⟩ := ih hmem
      exact ⟨b, mem_append_right _ hb, hone⟩
  | one _ hb _ ih =>
    rcases mem_cons.mp hmem with rfl | hmem
    · exact ⟨_, mem_cons_self, hb⟩
    · obtain ⟨b, hb, hone⟩ := ih hmem
      exact ⟨b, mem_cons_of_mem _ hb, hone⟩

/-- The items that stand for one item match that many. -/
theorem Matches.length_le (h : Matches any one p l) : (p.filter (!any ·)).length ≤ l.length := by
  induction h with
  | nil => exact le_rfl
  | any ha _ ih => simpa [ha] using Nat.le_add_left_of_le ih
  | one ha _ _ ih => simpa [ha] using ih

theorem matches_filter {one : α → α → Bool} (hone : ∀ a, one a a = true) (p : List α) :
    Matches any one p (p.filter (!any ·)) := by
  induction p with
  | nil => exact .nil
  | cons a p ih =>
    cases ha : any a with
    | true => simpa [ha] using Matches.any (r := []) ha ih
    | false => simpa [ha] using Matches.one ha (hone a) ih

/-- An item that stands for one item matches the first one. -/
theorem Matches.uncons {a : α} (h : Matches any one (a :: p) l) (ha : any a = false) :
    ∃ b l', l = b :: l' ∧ one a b = true ∧ Matches any one p l' := by
  rcases h with _ | ⟨ha', _⟩ | ⟨_, hb, h⟩
  · cases ha.symm.trans ha'
  · exact ⟨_, _, rfl, hb, h⟩

theorem Matches.unconcat {a : α} (h : Matches any one (p ++ [a]) l) (ha : any a = false) :
    ∃ l' b, l = l' ++ [b] ∧ one a b = true := by
  induction p generalizing l with
  | nil =>
    obtain ⟨b, l', rfl, hb, ⟨⟩⟩ := h.uncons ha
    exact ⟨[], b, rfl, hb⟩
  | cons c p ih =>
    rcases h with _ | ⟨_, h⟩ | ⟨_, _, h⟩
    · obtain ⟨l', b, rfl, hb⟩ := ih h
      exact ⟨_ ++ l', b, (append_assoc ..).symm, hb⟩
    · obtain ⟨l', b, rfl, hb⟩ := ih h
      exact ⟨_ :: l', b, rfl, hb⟩

/-- A pattern that begins with items that stand for themselves. -/
theorem matches_append {one : α → α → Bool} {l : List α}
    (hp : ∀ b ∈ p, any b = false ∧ ∀ c, one b c = true ↔ b = c) :
    Matches any one (p ++ q) l ↔ ∃ r, p ++ r = l ∧ Matches any one q r := by
  induction p generalizing l with
  | nil => simp
  | cons b p ih =>
    obtain ⟨hb, hone⟩ := hp b mem_cons_self
    have hrest := fun c hc => hp c (mem_cons_of_mem b hc)
    constructor
    · intro h
      obtain ⟨c, l', rfl, hbc, h⟩ := h.uncons hb
      obtain ⟨r, rfl, hr⟩ := (ih hrest).mp h
      exact ⟨r, by rw [(hone _).mp hbc, cons_append], hr⟩
    · rintro ⟨r, rfl, hr⟩
      exact .one hb ((hone b).mpr rfl) ((ih hrest).mpr ⟨r, rfl, hr⟩)

/-- One segment, with `*` for any run of characters and `?` for one. -/
def wild : List Char → List Char → Bool := matchParts (· = '*') fun a b => a = '?' || a = b

variable {s t : List Char}

theorem wild_self (s : List Char) : wild s s = true :=
  matchParts_iff.mpr (.of_forall₂ (forall₂_same.mpr fun a _ => by simp))

theorem wild_iff (hs : '*' ∉ s ∧ '?' ∉ s) : wild s t = true ↔ s = t := by
  have hmatch := @matches_append _ (decide <| · = '*') s [] (fun a b => a = '?' || a = b) t
    fun a ha => by
      have hstar : a ≠ '*' := fun h => hs.1 (h ▸ ha)
      have hmark : a ≠ '?' := fun h => hs.2 (h ▸ ha)
      simp [hstar, hmark]
  rw [append_nil] at hmatch
  rw [wild, matchParts_iff, hmatch]
  constructor
  · rintro ⟨_, rfl, ⟨⟩⟩
    exact (append_nil s).symm
  · rintro rfl
    exact ⟨[], append_nil s, .nil⟩

end Scenery.Globs
