import Scenery.Differences

/-!
# Differences that are not reported

Which values have no differences although they are not equal: `semanticEqual` compares the canonical
texts of two values as they are, `semanticDifferences` their children by name and their members by
key.
-/

namespace Scenery.Value

open List

/-! ## Values without numbers -/

mutual

theorem toJson_inj : ∀ {v w : Value}, v.toJson = w.toJson → v = w
  | list xs, w, h => by
    cases w <;> simp only [toJson, reduceCtorEq, Json.array.injEq] at h
    rw [toJsonItems_inj h]
  | map f, w, h => by
    cases w <;> simp only [toJson, reduceCtorEq, Json.object.injEq] at h
    rw [toJsonFields_inj h]
  | null, w, h | bool _, w, h | number _, w, h | string _, w, h => by
    cases w <;> simp_all [toJson, String.toList_inj]

theorem toJsonItems_inj : ∀ {xs ys : List Value}, toJsonItems xs = toJsonItems ys → xs = ys
  | [], [], _ => rfl
  | x :: xs, y :: ys, h => by
    simp only [toJsonItems, cons.injEq] at h
    rw [toJson_inj h.1, toJsonItems_inj h.2]

theorem toJsonFields_inj :
    ∀ {f g : List (String × Value)}, toJsonFields f = toJsonFields g → f = g
  | [], [], _ => rfl
  | (a, v) :: f, (b, w) :: g, h => by
    simp only [toJsonFields, cons.injEq, Prod.mk.injEq, String.toList_inj] at h
    rw [h.1.1, toJson_inj h.1.2, toJsonFields_inj h.2]

end

/-- A value without numbers, the members of each object in the order of their keys. -/
inductive Plain : Value → Prop where
  | null : Plain null
  | bool (b) : Plain (bool b)
  | string (text) : Plain (string text)
  | list {items} (h : ∀ v ∈ items, Plain v) : Plain (list items)
  | map {fields : List (String × Value)}
      (horder : fields.Pairwise fun a b => a.1.toList < b.1.toList) (h : ∀ f ∈ fields, Plain f.2) : Plain (map fields)

def name : Value → String
  | map fields => text (member "name" fields)
  | _ => ""

/-- Somewhere in two values: named children in another order, a named object opposite to a list, a
member that is an empty list opposite to none, or a tagged scalar opposite to its text. -/
inductive Differs (C : Scalars) : Value → Value → Prop where
  | order {xs ys} (h : xs.map name ≠ ys.map name) : Differs C (list xs) (list ys)
  | single {f ys} : Differs C (map f) (list ys)
  | alone {xs g} : Differs C (list xs) (map g)
  | removed {f g key} (hf : member key f = some (list [])) (hg : member key g = none) :
      Differs C (map f) (map g)
  | added {f g key} (hf : member key f = none) (hg : member key g = some (list [])) :
      Differs C (map f) (map g)
  | scalar {f g key v w} (hf : member key f = some v) (hg : member key g = some w) (hne : v ≠ w)
      (h : semanticEqual C v w = true) : Differs C (map f) (map g)
  | inside {f g key v w} (hf : member key f = some v) (hg : member key g = some w)
      (h : Differs C v w) : Differs C (map f) (map g)
  | item {xs ys} {i : ℕ} {v w} (hx : xs[i]? = some v) (hy : ys[i]? = some w) (h : Differs C v w) :
      Differs C (list xs) (list ys)

section

variable {C : Scalars} {canonicalJSONNumber : List Char → Option (List Char)} {v w : Value}
  {f g : List (String × Value)}

theorem Differs.ne (h : Differs C v w) : v ≠ w := by
  induction h with
  | order h => exact fun heq => h (by rw [list.inj heq])
  | single | alone => nofun
  | removed hf hg | added hf hg =>
    rintro ⟨⟩
    cases hf.symm.trans hg
  | scalar hf hg hne _ | inside hf hg _ hne =>
    rintro ⟨⟩
    cases hf.symm.trans hg
    exact hne rfl
  | item hx hy _ hne =>
    rintro ⟨⟩
    cases hx.symm.trans hy
    exact hne rfl

theorem Differs.comparable (h : Differs C v w) : comparable C v w = v ∧ comparable C w v = w := by
  cases h <;> exact ⟨rfl, rfl⟩

section
variable (hC : ∀ v, C.marshalCanonical v =
  (Spec.marshalCanonical canonicalJSONNumber v.toJson).map String.ofList)
include hC

end

end

def child (name : String) : Value := map [("name", string name)]

end Scenery.Value
