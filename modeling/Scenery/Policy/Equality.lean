import Mathlib.Algebra.Order.Ring.Rat
import Mathlib.Data.List.Forall2
import Scenery.Octets

/-!
# Equality of policy values

`internal/contractpolicy/expression.go`: the comparisons of authorization expressions. Numbers are
compared as rationals where they stand alone; lists are compared with `reflect.DeepEqual`, which
tells the spellings of a number and its Go types apart.
-/

namespace Scenery.Policy

inductive Native where
  | int
  | int64
  | uint64
  | float64
  deriving DecidableEq

/-- `any`, as far as literals and decoded variables have it. -/
inductive Val where
  | null
  | bool (b : Bool)
  | string (s : Octets)
  | number (text : Octets)
  | rat (q : ℚ)
  | native (type : Native) (q : ℚ)
  | list (items : List Val)
  | map (fields : List (Octets × Val))
  | unknown

inductive GoType where
  | null
  | bool
  | string
  | number
  | rat
  | native (type : Native)
  | list
  | map
  | unknown
  deriving DecidableEq

def Val.typeOf : Val → GoType
  | null => .null
  | bool _ => .bool
  | string _ => .string
  | number _ => .number
  | rat _ => .rat
  | native type _ => .native type
  | list _ => .list
  | map _ => .map
  | unknown => .unknown

mutual

def deepEqual : Val → Val → Bool
  | .null, .null => true
  | .bool a, .bool b => a = b
  | .string a, .string b => a = b
  | .number a, .number b => a = b
  | .rat a, .rat b => a = b
  | .native t a, .native u b => t = u && a = b
  | .list a, .list b => deepEqualItems a b
  | .map a, .map b => deepEqualFields a b
  | .unknown, .unknown => true
  | _, _ => false

def deepEqualItems : List Val → List Val → Bool
  | [], [] => true
  | a :: left, b :: right => deepEqual a b && deepEqualItems left right
  | _, _ => false

def deepEqualFields : List (Octets × Val) → List (Octets × Val) → Bool
  | [], [] => true
  | (k, a) :: left, (l, b) :: right => k = l && deepEqual a b && deepEqualFields left right
  | _, _ => false

end

structure Library where
  setString : Octets → Option ℚ

variable (lib : Library)

def authorizationNumberValue : Val → Option ℚ
  | .rat q => some q
  | .number text => lib.setString text
  | .native _ q => some q
  | _ => none

def authorizationEqualValues (left right : Val) : Bool × Bool :=
  match authorizationNumberValue lib left, authorizationNumberValue lib right with
  | some a, some b => (a = b, true)
  | _, _ =>
    if left.typeOf = .null ∨ right.typeOf = .null then
      (left.typeOf = .null ∧ right.typeOf = .null, true)
    else if left.typeOf ≠ right.typeOf then (false, false)
    else (deepEqual left right, true)

inductive Token where
  | eof
  | identifier (text : Octets)
  | string (text : Octets)
  | number (text : Octets)
  | lParen
  | rParen
  | lBracket
  | rBracket
  | comma
  | not
  | equal
  | notEqual
  | less
  | lessEqual
  | greater
  | greaterEqual
  | and
  | or
  deriving DecidableEq

inductive Err where
  | equalityIncompatible
  | notComparable
  | orderingRequires
  | unknownComparison
  deriving DecidableEq

def authorizationOrder (left right : Val) : Except Err Ordering :=
  match authorizationNumberValue lib left, authorizationNumberValue lib right with
  | some a, some b => .ok (compare a b)
  | _, _ =>
    match left, right with
    | .string a, .string b => .ok (compare (a.map UInt8.toNat) (b.map UInt8.toNat))
    | _, _ => .error .orderingRequires

def authorizationCompare (left right : Val) (operator : Token) : Except Err Val :=
  if left.typeOf = .unknown ∨ right.typeOf = .unknown then .ok .unknown
  else
    let (equal, comparable) := authorizationEqualValues lib left right
    match operator with
    | .equal => if comparable then .ok (.bool equal) else .error .equalityIncompatible
    | .notEqual => if comparable then .ok (.bool !equal) else .error .equalityIncompatible
    | _ =>
      if comparable then
        match authorizationOrder lib left right with
        | .error e => .error e
        | .ok comparison =>
          match operator with
          | .less => .ok (.bool comparison.isLT)
          | .lessEqual => .ok (.bool comparison.isLE)
          | .greater => .ok (.bool comparison.isGT)
          | .greaterEqual => .ok (.bool comparison.isGE)
          | _ => .error .unknownComparison
      else .error .notComparable

/-! ## Deep equality is equality -/

mutual

theorem deepEqual_iff : ∀ {a b : Val}, deepEqual a b = true ↔ a = b := by
  intro a b
  cases a <;> cases b <;> simp [deepEqual, deepEqualItems_iff, deepEqualFields_iff]

theorem deepEqualItems_iff : ∀ {a b : List Val}, deepEqualItems a b = true ↔ a = b := by
  intro a b
  cases a <;> cases b <;> simp [deepEqualItems, deepEqual_iff, deepEqualItems_iff]

theorem deepEqualFields_iff :
    ∀ {a b : List (Octets × Val)}, deepEqualFields a b = true ↔ a = b := by
  intro a b
  cases a <;> cases b <;> simp [deepEqualFields, deepEqual_iff, deepEqualFields_iff, Prod.ext_iff]

end

instance : DecidableEq Val := fun _ _ => decidable_of_iff _ deepEqual_iff

variable (valueOf : Octets → ℚ)

mutual

def json : Val → Val
  | .number text => .rat (valueOf text)
  | .native _ q => .rat q
  | .list items => .list (jsonItems items)
  | v => v

def jsonItems : List Val → List Val
  | [] => []
  | v :: rest => json v :: jsonItems rest

end

inductive IsJson : Val → Prop where
  | null : IsJson .null
  | bool (b) : IsJson (.bool b)
  | string (s) : IsJson (.string s)
  | number (text) : IsJson (.number text)
  | rat (q) : IsJson (.rat q)
  | list {items} (h : ∀ v ∈ items, IsJson v) : IsJson (.list items)

variable {lib valueOf} {left right v : Val}

theorem typeOf_eq_unknown : v.typeOf = .unknown ↔ v = .unknown := by
  cases v <;> simp [Val.typeOf]

theorem json_of_numberValue (hvalue : ∀ text q, lib.setString text = some q → valueOf text = q)
    {q : ℚ} (h : authorizationNumberValue lib v = some q) : json valueOf v = .rat q := by
  cases v <;> simp_all [authorizationNumberValue, json]

def bothRead (lib : Library) (left right : Val) : Prop :=
  (authorizationNumberValue lib left).isSome ∧ (authorizationNumberValue lib right).isSome

theorem equalValues_of_not_read (h : ¬ bothRead lib left right) :
    authorizationEqualValues lib left right =
      if left.typeOf = right.typeOf ∨ left = .null ∨ right = .null then (deepEqual left right, true)
      else (false, false) := by
  rw [authorizationEqualValues]
  split
  · next a b ha hb => exact absurd ⟨by rw [ha]; rfl, by rw [hb]; rfl⟩ h
  · cases left <;> cases right <;> simp [Val.typeOf, deepEqual]

theorem equalValues_iff (hvalue : ∀ text q, lib.setString text = some q → valueOf text = q)
    (h : (authorizationEqualValues lib left right).2 = true) :
    (authorizationEqualValues lib left right).1 = true ↔
      json valueOf left = json valueOf right ∧ (left = right ∨ bothRead lib left right) := by
  by_cases hread : bothRead lib left right
  · obtain ⟨a, ha⟩ := Option.isSome_iff_exists.mp hread.1
    obtain ⟨b, hb⟩ := Option.isSome_iff_exists.mp hread.2
    rw [json_of_numberValue hvalue ha, json_of_numberValue hvalue hb, authorizationEqualValues,
      ha, hb]
    simp [hread]
  · rw [or_iff_left hread, and_iff_right_of_imp (congrArg (json valueOf))]
    rw [equalValues_of_not_read hread] at h ⊢
    split at h
    · rw [if_pos ‹_›]
      exact deepEqual_iff
    · exact absurd h Bool.false_ne_true

theorem equalValues_self (v : Val) : authorizationEqualValues lib v v = (true, true) := by
  by_cases hread : bothRead lib v v
  · obtain ⟨a, ha⟩ := Option.isSome_iff_exists.mp hread.1
    simp [authorizationEqualValues, ha]
  · simp [equalValues_of_not_read hread, deepEqual_iff.mpr]

theorem compare_equal (hl : left ≠ .unknown) (hr : right ≠ .unknown) :
    authorizationCompare lib left right .equal = .ok (.bool true) ↔
      authorizationEqualValues lib left right = (true, true) := by
  rw [authorizationCompare, if_neg (by simp [typeOf_eq_unknown, hl, hr])]
  rcases authorizationEqualValues lib left right with ⟨equal, comparable⟩
  cases comparable <;> simp

/-- The values are spelled the same, or are numbers that are read and have one value. -/
def SameElement (lib : Library) (valueOf : Octets → ℚ) (left right : Val) : Prop :=
  left = right ∨ bothRead lib left right ∧ json valueOf left = json valueOf right

theorem sameElement_iff (hvalue : ∀ text q, lib.setString text = some q → valueOf text = q) :
    authorizationEqualValues lib left right = (true, true) ↔
      SameElement lib valueOf left right := by
  constructor
  · intro h
    obtain ⟨hjson, heq | hread⟩ := (equalValues_iff hvalue (congrArg Prod.snd h)).mp
      (congrArg Prod.fst h)
    · exact .inl heq
    · exact .inr ⟨hread, hjson⟩
  · rintro (rfl | ⟨hread, hjson⟩)
    · exact equalValues_self left
    · obtain ⟨a, ha⟩ := Option.isSome_iff_exists.mp hread.1
      obtain ⟨b, hb⟩ := Option.isSome_iff_exists.mp hread.2
      have hcomparable : (authorizationEqualValues lib left right).2 = true := by
        rw [authorizationEqualValues, ha, hb]
      exact Prod.ext ((equalValues_iff hvalue hcomparable).mpr ⟨hjson, .inr hread⟩) hcomparable

theorem IsJson.ne_unknown (h : IsJson v) : v ≠ .unknown := by
  rintro rfl
  cases h

theorem equalValues_list {xs ys : List Val} :
    authorizationEqualValues lib (.list xs) (.list ys) =
      (deepEqual (.list xs) (.list ys), true) := by
  rfl

theorem compare_list {xs ys : List Val} :
    authorizationCompare lib (.list xs) (.list ys) .equal = .ok (.bool true) ↔ xs = ys := by
  rw [compare_equal (by nofun) (by nofun), equalValues_list, Prod.mk.injEq, and_iff_left rfl,
    deepEqual_iff, Val.list.injEq]

/-- Comparable values are reported equal exactly if they are one JSON value, as long as those of one
JSON value are spelled the same or are numbers that are read: numbers in lists are not read. Two
lists are equal exactly if their elements are, unless they differ in the spelling of elements that
are numbers and in nothing else. -/
theorem equality_is_json (hvalue : ∀ text q, lib.setString text = some q → valueOf text = q)
    (hl : IsJson left) (hr : IsJson right) :
    ((authorizationEqualValues lib left right).2 = true →
      (((authorizationEqualValues lib left right).1 = true ↔
          json valueOf left = json valueOf right) ↔
        (json valueOf left = json valueOf right → left = right ∨ bothRead lib left right))) ∧
    (∀ xs ys, left = .list xs → right = .list ys →
      ((authorizationCompare lib left right .equal = .ok (.bool true) ↔
          List.Forall₂ (fun x y => authorizationCompare lib x y .equal = .ok (.bool true)) xs ys) ↔
        ¬ (xs ≠ ys ∧ List.Forall₂ (SameElement lib valueOf) xs ys))) ∧
    (∀ equal, authorizationCompare lib left right .equal = .ok (.bool equal) ↔
      authorizationCompare lib left right .notEqual = .ok (.bool !equal)) := by
  refine ⟨fun h => ?_, ?_, fun equal => ?_⟩
  · rw [equalValues_iff hvalue h]
    tauto
  · rintro xs ys rfl rfl
    cases hl with | list hxs => ?_
    cases hr with | list hys => ?_
    have helements :
        List.Forall₂ (fun x y => authorizationCompare lib x y .equal = .ok (.bool true)) xs ys ↔
          List.Forall₂ (SameElement lib valueOf) xs ys := by
      induction xs generalizing ys with
      | nil => cases ys <;> simp
      | cons x xs ih =>
        cases ys with
        | nil => simp
        | cons y ys =>
          simp only [List.forall_mem_cons] at hxs hys
          rw [List.forall₂_cons, List.forall₂_cons, ih ys hxs.2 hys.2,
            compare_equal hxs.1.ne_unknown hys.1.ne_unknown, sameElement_iff hvalue]
    have hself : xs = ys → List.Forall₂ (SameElement lib valueOf) xs ys := by
      rintro rfl
      exact List.forall₂_same.mpr fun _ _ => .inl rfl
    rw [compare_list, helements]
    tauto
  · simp only [authorizationCompare, typeOf_eq_unknown, hl.ne_unknown, hr.ne_unknown, or_self,
      if_false]
    rcases authorizationEqualValues lib left right with ⟨_, _ | _⟩ <;> simp

def readsOne : Library where
  setString text := if text = [49] then some 1 else none

theorem equality_is_json_number :
    (authorizationEqualValues readsOne (.number [49]) (.rat 1)).1 = true ↔
      json (fun _ => 1) (.number [49]) = json (fun _ => 1) (.rat 1) :=
  ((equality_is_json (by intro text q h; unfold readsOne at h; grind) (.number _) (.rat _)).1
    (by decide)).mpr fun _ => .inr ⟨rfl, rfl⟩

/-- The list of a decoded number is not equal to the list of the same literal. -/
theorem list_of_number_ne :
    authorizationEqualValues readsOne (.list [.number [49]]) (.list [.rat 1]) = (false, true) ∧
      json (fun _ => 1) (.list [.number [49]]) = json (fun _ => 1) (.list [.rat 1]) := by
  decide

end Scenery.Policy
