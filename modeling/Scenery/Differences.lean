import Mathlib.Data.List.Dedup
import Scenery.Preconditions
import Scenery.Spec.Canonical

/-!
# Semantic differences

`internal/evolution/compatibility.go`: `semanticDifferences` walks over two values side by side
and reports what was added, removed or replaced.
-/

namespace Scenery

open List

namespace Value

def refString : Value → String
  | map fields => text (member "$ref" fields)
  | _ => ""

variable {name : String}

section

variable (C : Scalars) (sprint : Value → String)

variable {C} {sprint}

end

mutual

def toJson : Value → Json
  | null => .null
  | bool b => .bool b
  | number text => .number text.toList
  | string text => .string text.toList
  | list items => .array (toJsonItems items)
  | map fields => .object (toJsonFields fields)

def toJsonItems : List Value → List Json
  | [] => []
  | value :: rest => value.toJson :: toJsonItems rest

def toJsonFields : List (String × Value) → List Json.Member
  | [] => []
  | (key, value) :: rest => (key.toList, value.toJson) :: toJsonFields rest

end

end Value

end Scenery
