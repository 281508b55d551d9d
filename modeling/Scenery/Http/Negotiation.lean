import Mathlib.Data.Set.Finite.Lemmas
import Mathlib.Data.List.Forall2
import Mathlib.Data.Prod.Lex
import Mathlib.Data.Rat.Defs
import Mathlib.Algebra.Order.Ring.Rat
import Scenery.Text

/-!
# Negotiation of the response media type

`runtime/contract_http_negotiation.go`: `negotiateContractMedia` goes through the media ranges of
an Accept header and the produced media types and keeps one best pair of the two.
-/

namespace Scenery.Http

open List

abbrev MediaParams : Type := List (String × String)

structure Mime where
  parse : String → Option (String × MediaParams)
  /-- `strconv.ParseFloat`, which also accepts `NaN` and infinities; these have no value here -/
  float : String → Option ℚ
  lower : String → String

variable (M : Mime)

def normalizedContractMediaParameters (parameters : MediaParams) : MediaParams :=
  parameters.map fun (name, value) =>
    let name := M.lower (trimSpace name)
    let value := trimSpace value
    (name, if name = "charset" then M.lower value else value)

def deleteImplicitUTF8 (parameters : MediaParams) : MediaParams :=
  let charset := (parameters.lookup "charset").getD ""
  if charset = "" ∨ charset = "utf-8" then parameters.filter (·.1 ≠ "charset") else parameters

def contractAcceptedMediaParametersMatch (accepted produced : MediaParams) : Bool :=
  if accepted = [] then true
  else
    let accepted := deleteImplicitUTF8 (normalizedContractMediaParameters M accepted)
    let produced := deleteImplicitUTF8 (normalizedContractMediaParameters M produced)
    accepted.all fun (name, value) => (produced.lookup name).getD "" = value

/-! ## Ranges and candidates -/

/-- A media range: its text before the parameters, the parameters without `q`, and the quality. -/
structure MediaRange where
  media : String
  params : MediaParams
  quality : ℚ
  nonneg : 0 ≤ quality

def mediaSides (media : String) : Option (List Char × List Char) :=
  match media.toList.splitOn '/' with
  | [major, minor] => some (major, minor)
  | _ => none

def covers (major minor : List Char) (params : MediaParams) (parsed : String × MediaParams) :
    Bool :=
  match mediaSides parsed.1 with
  | none => false
  | some (producedMajor, producedMinor) =>
    (major = ['*'] || major = producedMajor) && (minor = ['*'] || minor = producedMinor) &&
      contractAcceptedMediaParametersMatch M params parsed.2

structure Candidate where
  media : String
  quality : ℚ
  specificity : ℕ
  order : ℕ

def specificity (major minor : List Char) : ℕ :=
  if major = ['*'] then 0 else if minor = ['*'] then 1 else 2

def MediaRange.Matches (r : MediaRange) (media : String) : Prop :=
  ∃ sides ∈ mediaSides r.media, ∃ parsed ∈ M.parse media,
    covers M sides.1 sides.2 r.params parsed = true

def MediaRange.specificity (r : MediaRange) : ℕ :=
  (mediaSides r.media).elim 0 fun sides => Http.specificity sides.1 sides.2

/-- What the loop compares: quality, specificity, and the place among the produced types. -/
abbrev Key : Type := (ℚ ×ₗ ℕ) ×ₗ ℕᵒᵈ

def MediaRange.rank (r : MediaRange) : ℚ ×ₗ ℕ := toLex (r.quality, r.specificity)

def Candidate.key (c : Candidate) : Key :=
  toLex (toLex (c.quality, c.specificity), OrderDual.toDual c.order)

def IsBest (offered : String → Key → Prop) : Option Candidate → Prop
  | none => ∀ media key, ¬ offered media key
  | some best => offered best.media best.key ∧ ∀ media key, offered media key → key ≤ best.key

variable {M} {offered : String → Key → Prop} {best : Option Candidate} {ranges : List MediaRange}
  {produced : List String} {accept m m' : String}

theorem IsBest.congr {offered' : String → Key → Prop} (h : IsBest offered best)
    (heq : ∀ m k, offered m k ↔ offered' m k) : IsBest offered' best := by
  obtain rfl : offered = offered' := funext₂ fun m k => propext (heq m k)
  exact h

/-- The range offers this produced type, at its place, with this key. -/
def MediaRange.Offers (M : Mime) (r : MediaRange) (produced : List (String × ℕ)) (m : String)
    (k : Key) : Prop :=
  ∃ i, (m, i) ∈ produced ∧ r.Matches M m ∧ k = toLex (r.rank, OrderDual.toDual i)

end Scenery.Http
