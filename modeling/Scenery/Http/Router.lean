import Mathlib.Data.List.Lex
import Mathlib.Data.List.Pairwise
import Scenery.Stable

/-!
# The route table

`runtime/router.go`: a route is a pattern of literals, parameters and at most one wildcard at its
end.
-/

namespace Scenery.Router

open List

inductive SegmentKind where
  | literal
  | param
  | wildcard
  deriving DecidableEq

def SegmentKind.rank : SegmentKind → ℕ
  | literal => 0
  | param => 1
  | wildcard => 2

structure Segment where
  kind : SegmentKind
  value : List Char
  deriving DecidableEq

def parseSegment : List Char → Segment
  | ':' :: value => ⟨.param, value⟩
  | '*' :: value => ⟨.wildcard, value⟩
  | value => ⟨.literal, value⟩

def splitRoutePath (path : List Char) : List (List Char) :=
  if path = [] ∨ path = ['/'] then []
  else (if path.head? = some '/' then path.tail else path).splitOn '/'

structure Pattern where
  raw : List Char
  segments : List Segment
  literals : ℕ
  hasParam : Bool
  hasWildcard : Bool
  pathTail : Bool

def kinds (segments : List Segment) : List SegmentKind := segments.map (·.kind)

def parseRoutePattern (path : List Char) (pathTail : Bool) : Pattern :=
  let segments := (splitRoutePath path).map parseSegment
  { raw := path, segments, pathTail
    literals := (kinds segments).count .literal
    hasParam := .param ∈ kinds segments
    hasWildcard := .wildcard ∈ kinds segments }

abbrev Params : Type := List (List Char × List Char)

def matchLoop : List Segment → List (List Char) → Option Params
  | [], [] => some []
  | ⟨.literal, value⟩ :: pattern, part :: request =>
    if part = value then matchLoop pattern request else none
  | ⟨.param, value⟩ :: pattern, part :: request =>
    if part = [] then none else (matchLoop pattern request).map ((value, part) :: ·)
  | ⟨.wildcard, value⟩ :: _, request => some [(value, ['/'].intercalate request)]
  | _, _ => none

def Pattern.matchSegments (p : Pattern) (request : List (List Char)) : Option Params :=
  if p.pathTail && request.any List.isEmpty then none else matchLoop p.segments request

def compareKinds : List SegmentKind → List SegmentKind → Ordering
  | a :: left, b :: right => (compare a.rank b.rank).then (compareKinds left right)
  | _, _ => .eq

def comparePatterns (a b : Pattern) : Ordering :=
  (compareKinds (kinds a.segments) (kinds b.segments)).then <|
    (compare b.literals a.literals).then <|
      (compare a.hasWildcard.toNat b.hasWildcard.toNat).then <|
        compare b.segments.length a.segments.length

/-- `strings.ToUpper` on the methods of HTTP, which are ASCII tokens. -/
def toUpper (method : String) : String := .ofList (method.toList.map Char.toUpper)

def expandMethods (methods : List String) : List String :=
  methods.flatMap fun method =>
    if method = "*" then ["GET", "POST", "PUT", "PATCH", "DELETE", "HEAD", "OPTIONS"]
    else [toUpper method]

def routeAllowsMethod (methods : List String) (method : String) : Bool :=
  method ∈ methods || method = "HEAD" && "GET" ∈ methods

def WildcardLast : List SegmentKind → Prop
  | [] => True
  | kind :: rest => (kind = .wildcard → rest = []) ∧ WildcardLast rest

instance decidableWildcardLast : DecidablePred WildcardLast
  | [] => .isTrue trivial
  | _ :: rest =>
    have := decidableWildcardLast rest
    inferInstanceAs (Decidable (_ ∧ _))

structure Registration (η : Type) where
  methods : List String
  path : List Char
  pathTail : Bool
  handler : η
  absolute : ∃ rest, path = '/' :: rest
  last : WildcardLast (kinds (parseRoutePattern path pathTail).segments)
  tail : pathTail = true → (parseRoutePattern path pathTail).hasWildcard = true

variable {η : Type}

namespace Registration

def allowed (x : Registration η) : List String := expandMethods x.methods

def pattern (x : Registration η) : Pattern := parseRoutePattern x.path x.pathTail

def matchPath (x : Registration η) (path : List Char) : Option Params :=
  x.pattern.matchSegments (splitRoutePath path)

def allows (x : Registration η) (method : String) : Bool := routeAllowsMethod x.allowed method

end Registration

def compareRoutes (a b : Registration η) : Ordering := comparePatterns a.pattern b.pattern

structure RouteTable (η : Type) where
  routes : List (Registration η) := []
  exact : List Char → List (Registration η) := fun _ => []

namespace RouteTable

def handle (t : RouteTable η) (x : Registration η) : RouteTable η where
  routes := stableSort (fun a b => compareRoutes a b ≠ .gt) (t.routes ++ [x])
  exact := if x.pattern.hasParam ∨ x.pattern.hasWildcard then t.exact
    else Function.update t.exact x.pattern.raw (t.exact x.pattern.raw ++ [x])

inductive Served (η : Type) where
  | run (route : Registration η) (params : Params)
  | notFound
  | options
  | methodNotAllowed

def matchingRoutes (t : RouteTable η) (path : List Char) : List (Registration η × Params) :=
  t.routes.filterMap fun x => (x.matchPath path).map fun params => (x, params)

def serveHTTP (t : RouteTable η) (globalOptions : Bool) (path : List Char) (method : String) :
    Served η :=
  match (if method = "OPTIONS" then [] else t.exact path).find?
      (·.allows method) with
  | some x => .run x []
  | none =>
    match t.matchingRoutes path with
    | [] => .notFound
    | found =>
      if method = "OPTIONS" ∧ globalOptions then .options
      else match found.find? (·.1.allows method) with
        | some m => .run m.1 m.2
        | none => .methodNotAllowed

def ownerRoute (t : RouteTable η) (path : List Char) (method : String) : Option (Registration η) :=
  match (t.exact path).find? (·.allows method) with
  | some x => some x
  | none =>
    match (t.matchingRoutes path).find? (·.1.allows method) with
    | some m => some m.1
    | none => (t.matchingRoutes path).head?.map (·.1)

def build (xs : List (Registration η)) : RouteTable η := xs.foldl handle {}

end RouteTable

/-! ## The order of routes -/

def openEnded (l : List SegmentKind) : Bool := .literal ∉ l ∧ .wildcard ∈ l

/-- A list whose lexicographic order is that of `compareRoutes`. -/
def key : List SegmentKind → List ℕ
  | [] => [2]
  | .literal :: l => 0 :: key l
  | .param :: l => (if openEnded l then 3 else 1) :: key l
  | .wildcard :: _ => [4]

def precedence : List SegmentKind → List ℕ
  | [] => [2]
  | kind :: l => (if kind = .wildcard then 3 else kind.rank) :: precedence l

def order (a b : List SegmentKind) : Ordering :=
  (compareKinds a b).then <| (compare (b.count .literal) (a.count .literal)).then <|
    (compare (decide (.wildcard ∈ a)).toNat (decide (.wildcard ∈ b)).toNat).then <|
      compare b.length a.length

theorem compare_succ (m n : ℕ) : compare (m + 1) (n + 1) = compare m n := by
  simp [Nat.compare_eq_ite_lt]

theorem order_cons {a b : SegmentKind} {l r : List SegmentKind} (ha : WildcardLast (a :: l))
    (hb : WildcardLast (b :: r)) :
    order (a :: l) (b :: r) = (compare a.rank b.rank).then (order l r) := by
  by_cases hab : a = b
  · subst hab
    cases a <;> simp_all [order, compareKinds, compare_succ, WildcardLast]
  · cases a <;> cases b <;> first | contradiction | rfl

theorem then_eq_gt {m n : ℕ} {o : Ordering} :
    (compare m n).then o = .gt ↔ n < m ∨ n = m ∧ o = .gt := by
  rcases lt_trichotomy m n with h | rfl | h
  · simp [Nat.compare_eq_lt.mpr h, h.not_gt, h.ne']
  · simp
  · simp [Nat.compare_eq_gt.mpr h, h]

theorem key_eq_cons {l : List SegmentKind} (h : WildcardLast l) :
    ∃ k rest, key l = k :: rest ∧ (k = 2 ↔ l = []) ∧ (2 < k ↔ openEnded l = true) := by
  cases l with
  | nil => exact ⟨2, [], rfl, by simp [openEnded]⟩
  | cons a l =>
    cases a
    · exact ⟨_, _, rfl, by simp [openEnded]⟩
    · refine ⟨_, _, rfl, ?_⟩
      rw [show openEnded (.param :: l) = openEnded l by simp [openEnded]]
      split <;> simp_all
    · exact ⟨_, _, rfl, by simp [openEnded, h.1 rfl]⟩

theorem order_eq_gt {a b : List SegmentKind} (ha : WildcardLast a) (hb : WildcardLast b) :
    order a b = .gt ↔ key b < key a := by
  induction a generalizing b with
  | nil =>
    obtain ⟨n, t, hn, hnil, hopen⟩ := key_eq_cons hb
    rw [hn, key, cons_lt_cons_iff]
    simp only [order, compareKinds, Ordering.eq_then, then_eq_gt, Nat.compare_eq_gt, openEnded] at *
    cases b <;> grind [not_lt_nil]
  | cons k l ih =>
    cases b with
    | nil =>
      obtain ⟨m, s, hm, hnil, hopen⟩ := key_eq_cons ha
      rw [hm, key, cons_lt_cons_iff]
      simp only [order, compareKinds, Ordering.eq_then, then_eq_gt, Nat.compare_eq_gt, openEnded] at *
      grind
    | cons k' r =>
      rw [order_cons ha hb, then_eq_gt, ih ha.2 hb.2]
      obtain ⟨m, s, hm, hl⟩ := key_eq_cons ha.2
      obtain ⟨n, t, hn, hr⟩ := key_eq_cons hb.2
      cases k <;> cases k' <;>
        simp only [key, SegmentKind.rank, cons_lt_cons_iff, hm, hn]
      all_goals grind [WildcardLast]

variable {x y : Registration η}

theorem compareRoutes_eq_order (x y : Registration η) :
    compareRoutes x y = order (kinds x.pattern.segments) (kinds y.pattern.segments) := by
  simp [compareRoutes, comparePatterns, order, Registration.pattern, parseRoutePattern, kinds]

theorem compareRoutes_ne_gt : compareRoutes x y ≠ .gt ↔
    key (kinds x.pattern.segments) ≤ key (kinds y.pattern.segments) := by
  rw [compareRoutes_eq_order]
  exact (not_congr (order_eq_gt x.last y.last)).trans not_lt

/-! ## Routes that match one path -/

def Segment.shape (s : Segment) : SegmentKind × List Char :=
  (s.kind, if s.kind = .literal then s.value else [])

@[simp] theorem kinds_cons (s : Segment) (l : List Segment) :
    kinds (s :: l) = s.kind :: kinds l := rfl

inductive Meets : List Segment → List Segment → Prop where
  | nil : Meets [] []
  | nil_tail {w : List Char} : Meets [] [⟨.wildcard, w⟩]
  | tail_nil {v : List Char} : Meets [⟨.wildcard, v⟩] []
  | cons {s t : Segment} {a b : List Segment} (hshape : s.shape = t.shape) (hrest : Meets a b) :
    Meets (s :: a) (t :: b)
  | differ {s t : Segment} {a b : List Segment} (hkind : s.kind ≠ t.kind) : Meets (s :: a) (t :: b)

theorem eq_tail {a : List Segment} (ha : matchLoop a [] ≠ none) (hla : WildcardLast (kinds a)) :
    a = [] ∨ ∃ v, a = [⟨.wildcard, v⟩] := by
  match a with
  | [] => exact .inl rfl
  | ⟨.wildcard, v⟩ :: a => exact .inr ⟨v, by simpa [kinds] using hla.1 rfl⟩
  | ⟨.literal, _⟩ :: _ => exact absurd rfl ha
  | ⟨.param, _⟩ :: _ => exact absurd rfl ha

theorem meets {a b : List Segment} {request : List (List Char)}
    (ha : matchLoop a request ≠ none) (hb : matchLoop b request ≠ none)
    (hla : WildcardLast (kinds a)) (hlb : WildcardLast (kinds b)) : Meets a b := by
  induction request generalizing a b with
  | nil =>
    rcases eq_tail ha hla with rfl | ⟨v, rfl⟩ <;> rcases eq_tail hb hlb with rfl | ⟨w, rfl⟩
    · exact .nil
    · exact .nil_tail
    · exact .tail_nil
    · exact .cons rfl .nil
  | cons part request ih =>
    match a, b with
    | [], _ => exact absurd rfl ha
    | _, [] => exact absurd rfl hb
    | s :: a, t :: b =>
      by_cases hkind : s.kind = t.kind
      · obtain ⟨kind, v⟩ := s
        obtain ⟨_, w⟩ := t
        cases hkind
        cases kind with simp only [matchLoop] at ha hb
        | literal =>
          split at ha <;> split at hb <;> try contradiction
          refine .cons ?_ (ih ha hb hla.2 hlb.2)
          simp_all
        | param =>
          split at ha <;> split at hb <;> try contradiction
          refine .cons rfl (ih ?_ ?_ hla.2 hlb.2) <;> simp_all
        | wildcard =>
          rw [show a = [] by simpa [kinds] using hla.1 rfl,
            show b = [] by simpa [kinds] using hlb.1 rfl]
          exact .cons rfl .nil
      · exact .differ hkind

namespace Meets

variable {a b : List Segment} (h : Meets a b)
include h

theorem order_eq_gt (hla : WildcardLast (kinds a)) (hlb : WildcardLast (kinds b)) :
    order (kinds a) (kinds b) = .gt ↔ precedence (kinds b) < precedence (kinds a) := by
  induction h with
  | nil => decide
  | nil_tail => exact (by decide : order [] [.wildcard] = .gt ↔ [3, 2] < [2])
  | tail_nil => exact (by decide : order [.wildcard] [] = .gt ↔ [2] < [3, 2])
  | @cons s t a b hshape hrest ih =>
    have hkind : s.kind = t.kind := congrArg Prod.fst hshape
    rw [kinds_cons] at hla hlb
    rw [kinds_cons, kinds_cons, order_cons hla hlb, then_eq_gt, ih hla.2 hlb.2]
    simp [precedence, hkind]
  | @differ s t a b hkind =>
    rw [kinds_cons] at hla hlb
    rw [kinds_cons, kinds_cons, order_cons hla hlb, then_eq_gt, precedence, precedence,
      cons_lt_cons_iff]
    cases hs : s.kind <;> cases ht : t.kind <;> simp_all [SegmentKind.rank]

theorem shape_eq (heq : precedence (kinds a) = precedence (kinds b)) :
    a.map Segment.shape = b.map Segment.shape := by
  induction h with
  | nil => rfl
  | nil_tail | tail_nil => cases heq
  | cons hshape hrest ih => rw [map_cons, map_cons, hshape, ih (List.cons.inj heq).2]
  | @differ s t a b hkind =>
    have hhead := (List.cons.inj heq).1
    cases hs : s.kind <;> cases ht : t.kind <;> simp_all [SegmentKind.rank]

theorem not_precedence_lt (hliteral : ∀ s ∈ a, s.kind = .literal) :
    ¬ precedence (kinds b) < precedence (kinds a) := by
  induction h with
  | nil => exact lt_irrefl _
  | nil_tail => exact (by decide : ¬ [3, 2] < [2])
  | tail_nil => simp at hliteral
  | @cons s t a b hshape hrest ih =>
    have hkind : s.kind = t.kind := congrArg Prod.fst hshape
    have ih := ih fun s hs => hliteral s (by simp [hs])
    simpa [precedence, hkind, cons_lt_cons_iff] using ih
  | @differ s t a b hkind =>
    rw [kinds_cons, kinds_cons, precedence, precedence, cons_lt_cons_iff]
    cases ht : t.kind <;> simp_all [SegmentKind.rank]

end Meets

/-! ## Paths of literals -/

theorem parseSegment_literal {part : List Char} (h : (parseSegment part).kind = .literal) :
    (parseSegment part).value = part := by
  revert h
  rw [parseSegment.eq_def]
  split <;> simp

theorem splitRoutePath_eq (h : ∀ k ∈ kinds x.pattern.segments, k = .literal) :
    splitRoutePath x.path = (x.pattern.segments.map Segment.shape).map Prod.snd := by
  have hself : ∀ part ∈ splitRoutePath x.path, (parseSegment part).shape.2 = part := by
    intro part hpart
    have hkind := h _ (mem_map_of_mem (mem_map_of_mem hpart))
    rw [Segment.shape, if_pos hkind, parseSegment_literal hkind]
  rw [Registration.pattern, parseRoutePattern, map_map, map_map]
  exact (map_id _).symm.trans (map_congr_left fun part hpart => (hself part hpart).symm)

theorem splitRoutePath_injective (h : splitRoutePath x.path = splitRoutePath y.path) :
    x.path = y.path := by
  obtain ⟨a, ha⟩ := x.absolute
  obtain ⟨b, hb⟩ := y.absolute
  have hsplit : ∀ a : List Char,
      splitRoutePath ('/' :: a) = if a = [] then [] else a.splitOn '/' := by
    simp [splitRoutePath]
  rw [ha, hb, hsplit, hsplit] at h
  rw [ha, hb]
  split_ifs at h with h₁ h₂ h₂
  · rw [h₁, h₂]
  · exact absurd h.symm (splitOn_ne_nil _ _)
  · exact absurd h (splitOn_ne_nil _ _)
  · have hjoin : ['/'].intercalate (a.splitOn '/') = a := intercalate_splitOn _
    rw [← hjoin, h, intercalate_splitOn]

def Registration.exactly (x : Registration η) (path : List Char) : Bool :=
  ¬ x.pattern.hasParam ∧ ¬ x.pattern.hasWildcard ∧ x.path = path

def Registration.serves (x : Registration η) (path : List Char) (method : String) : Bool :=
  (x.matchPath path).isSome && x.allows method

variable {path : List Char}

theorem exactly_iff :
    x.exactly path = true ↔ (∀ k ∈ kinds x.pattern.segments, k = .literal) ∧ x.path = path := by
  have hall : (∀ k ∈ kinds x.pattern.segments, k = .literal) ↔
      .param ∉ kinds x.pattern.segments ∧ .wildcard ∉ kinds x.pattern.segments := by
    refine ⟨fun h => ⟨fun hk => ?_, fun hk => ?_⟩, fun h k hk => ?_⟩
    · cases h _ hk
    · cases h _ hk
    · cases k
      · rfl
      · exact absurd hk h.1
      · exact absurd hk h.2
  rw [hall, and_assoc]
  simp [Registration.exactly, Registration.pattern, parseRoutePattern]

theorem matchLoop_self {parts : List (List Char)}
    (h : ∀ k ∈ kinds (parts.map parseSegment), k = .literal) :
    matchLoop (parts.map parseSegment) parts = some [] := by
  induction parts with
  | nil => rfl
  | cons part parts ih =>
    have hkind : (parseSegment part).kind = .literal := h _ (by simp)
    have hvalue := parseSegment_literal hkind
    rw [map_cons]
    generalize parseSegment part = s at *
    obtain ⟨_, v⟩ := s
    cases hkind
    cases hvalue
    rw [matchLoop, if_pos rfl, ih fun k hk => h k (by simp [hk])]

theorem matchPath_of_exactly (h : x.exactly path = true) : x.matchPath path = some [] := by
  obtain ⟨hliteral, rfl⟩ := exactly_iff.mp h
  have htail : x.pathTail = false := by
    by_contra htail
    have hwild := x.tail (by simpa using htail)
    cases hliteral .wildcard (by simpa [Registration.pattern, parseRoutePattern] using hwild)
  rw [Registration.matchPath, Pattern.matchSegments,
    if_neg (by simp [Registration.pattern, parseRoutePattern, htail])]
  exact matchLoop_self hliteral

theorem meets_of_serves {method : String} (hx : x.serves path method = true)
    (hy : y.serves path method = true) : Meets x.pattern.segments y.pattern.segments := by
  have hmatch : ∀ {z : Registration η}, z.serves path method = true →
      matchLoop z.pattern.segments (splitRoutePath path) ≠ none := by
    intro z hz hnone
    simp [Registration.serves, Registration.matchPath, Pattern.matchSegments, hnone] at hz
  exact meets (hmatch hx) (hmatch hy) x.last y.last

/-! ## Dispatch -/

def routeLe (x y : Registration η) : Bool := compareRoutes x y ≠ .gt

theorem routeLe_iff : routeLe x y = true ↔
    key (kinds x.pattern.segments) ≤ key (kinds y.pattern.segments) := by
  rw [routeLe, decide_eq_true_iff, compareRoutes_ne_gt]

theorem routeLe_total (x y : Registration η) : routeLe x y ∨ routeLe y x := by
  rw [routeLe_iff, routeLe_iff]
  exact le_total _ _

theorem routeLe_trans (x y z : Registration η) (hxy : routeLe x y) (hyz : routeLe y z) :
    routeLe x z :=
  routeLe_iff.mpr ((routeLe_iff.mp hxy).trans (routeLe_iff.mp hyz))

theorem routeLe_of_serves {method : String} (hx : x.serves path method = true)
    (hy : y.serves path method = true) : routeLe x y = true ↔
      ¬ precedence (kinds y.pattern.segments) < precedence (kinds x.pattern.segments) := by
  rw [routeLe, decide_eq_true_iff, compareRoutes_eq_order]
  exact not_congr ((meets_of_serves hx hy).order_eq_gt x.last y.last)

namespace RouteTable

variable {xs : List (Registration η)} {path : List Char} {method : String}

theorem build_append (xs : List (Registration η)) (x : Registration η) :
    build (xs ++ [x]) = (build xs).handle x := by
  simp [build, foldl_append]

theorem routes_build (xs : List (Registration η)) : (build xs).routes = stableSort routeLe xs := by
  induction xs using List.reverseRecOn with
  | nil => rfl
  | append_singleton xs x ih =>
    rw [build_append, handle, ih]
    exact stableSort_stableSort_append routeLe_total routeLe_trans x

theorem exact_build (xs : List (Registration η)) (path : List Char) :
    (build xs).exact path = xs.filter (·.exactly path) := by
  induction xs using List.reverseRecOn with
  | nil => rfl
  | append_singleton xs x ih =>
    rw [build_append, handle, filter_append, ← ih]
    by_cases h : x.pattern.hasParam ∨ x.pattern.hasWildcard
    · rcases h with h | h <;> simp [Registration.exactly, h]
    · obtain ⟨hparam, hwild⟩ := not_or.mp h
      rw [if_neg h, show x.pattern.raw = x.path from rfl]
      by_cases hpath : x.path = path
      · subst hpath
        simp [Registration.exactly, hparam, hwild]
      · simp [Registration.exactly, hpath, Function.update_of_ne (Ne.symm hpath)]

theorem exactly_of_le (hx : x.exactly path = true) (hxs : x.serves path method = true)
    (hys : y.serves path method = true) (hle : routeLe y x = true) : y.exactly path = true := by
  obtain ⟨hliteral, hpath⟩ := exactly_iff.mp hx
  have hmeets := meets_of_serves hxs hys
  have heq : precedence (kinds x.pattern.segments) = precedence (kinds y.pattern.segments) :=
    le_antisymm
      (not_lt.mp (hmeets.not_precedence_lt fun s hs => hliteral _ (mem_map_of_mem hs)))
      (not_lt.mp ((routeLe_of_serves hys hxs).mp hle))
  have hshape := hmeets.shape_eq heq
  have hkinds : kinds x.pattern.segments = kinds y.pattern.segments := by
    simpa [kinds, Segment.shape, Function.comp_def] using congrArg (List.map Prod.fst) hshape
  have hliteral' : ∀ k ∈ kinds y.pattern.segments, k = .literal := hkinds ▸ hliteral
  refine exactly_iff.mpr ⟨hliteral', ?_⟩
  rw [← hpath]
  refine splitRoutePath_injective ?_
  rw [splitRoutePath_eq hliteral', splitRoutePath_eq hliteral, hshape]

theorem find?_of_exact (h : ((build xs).exact path).find? (·.allows method) = some x) :
    (build xs).routes.find? (·.serves path method) = some x := by
  rw [exact_build, find?_filter] at h
  have hserves : ∀ y : Registration η, y.exactly path = true →
      y.serves path method = y.allows method := by
    intro y hy
    simp [Registration.serves, matchPath_of_exactly hy]
  have hfound := find?_some h
  simp only [decide_eq_true_eq] at hfound
  obtain ⟨hexact, hallows⟩ := hfound
  have hxs := (hserves x hexact).trans hallows
  rw [routes_build, ← head?_filter, filter_stableSort routeLe_total routeLe_trans]
  set l := xs.filter (·.serves path method) with hl
  have hmem : x ∈ stableSort routeLe l :=
    stableSort_perm.mem_iff.mpr (mem_filter.mpr ⟨mem_of_find?_eq_some h, hxs⟩)
  have hfilter : (stableSort routeLe l).filter (·.exactly path) = l.filter (·.exactly path) := by
    rw [filter_stableSort routeLe_total routeLe_trans]
    refine stableSort_eq_self (pairwise_of_forall_mem_list fun y hy z hz => ?_)
    have hyp := (exactly_iff.mp (mem_filter.mp hy).2).2
    have hzp := (exactly_iff.mp (mem_filter.mp hz).2).2
    refine routeLe_iff.mpr (le_of_eq ?_)
    simp [Registration.pattern, parseRoutePattern, hyp, hzp]
  cases hsort : stableSort routeLe l with
  | nil => cases hsort ▸ hmem
  | cons y rest =>
    have hyl : y ∈ l := stableSort_perm.subset (hsort ▸ mem_cons_self)
    have hys := (mem_filter.mp hyl).2
    have hle : routeLe y x = true := by
      have hsorted := pairwise_stableSort (l := l) routeLe_total routeLe_trans
      rw [hsort] at hsorted hmem
      rcases mem_cons.mp hmem with rfl | hmem
      · exact (routeLe_total x x).elim id id
      · exact (pairwise_cons.mp hsorted).1 x hmem
    have hy := exactly_of_le hexact hxs hys hle
    rw [hsort, filter_cons, if_pos hy, hl, filter_filter] at hfilter
    have hfirst := congrArg List.head? hfilter
    rw [head?_cons, head?_filter] at hfirst
    rw [head?_cons, hfirst, ← h]
    refine congrArg (List.find? · xs) (funext fun z => ?_)
    by_cases hz : z.exactly path = true
    · simp [hz, hserves z hz]
    · simp [hz]

theorem exists_first (h : ∃ x ∈ xs, x.serves path method) : ∃ x ∈ xs, x.serves path method ∧
    (build xs).routes.find? (·.serves path method) = some x ∧
      ∀ y ∈ xs, y.serves path method → routeLe x y := by
  obtain ⟨z, hz, hzs⟩ := h
  have hsome : ((build xs).routes.find? (·.serves path method)).isSome := by
    rw [routes_build, find?_isSome]
    exact ⟨z, stableSort_perm.mem_iff.mpr hz, hzs⟩
  obtain ⟨x, hx⟩ := Option.isSome_iff_exists.mp hsome
  obtain ⟨hxs, before, after, hsplit, hbefore⟩ := find?_eq_some_iff_append.mp hx
  have hmem : ∀ {y}, y ∈ xs ↔ y ∈ before ++ x :: after := by
    rw [← hsplit, routes_build]
    exact stableSort_perm.mem_iff.symm
  refine ⟨x, hmem.mpr (by simp), hxs, hx, fun y hy hys => ?_⟩
  have hsorted := pairwise_stableSort (l := xs) routeLe_total routeLe_trans
  rw [← routes_build, hsplit] at hsorted
  rcases mem_append.mp (hmem.mp hy) with hy | hy
  · exact absurd hys (by simpa using hbefore y hy)
  · rcases mem_cons.mp hy with rfl | hy
    · exact (routeLe_total y y).elim id id
    · exact (pairwise_cons.mp (pairwise_append.mp hsorted).2.1).1 y hy

theorem find?_matchingRoutes (t : RouteTable η) :
    (t.matchingRoutes path).find? (·.1.allows method) =
      (t.routes.find? (·.serves path method)).bind fun x =>
        (x.matchPath path).map fun params => (x, params) := by
  rw [matchingRoutes, find?_filterMap]
  congr 2
  funext x
  cases h : x.matchPath path <;> simp [Registration.serves, h]

theorem dispatch_of_find? (h : (build xs).routes.find? (·.serves path method) = some x)
    (hmethod : method ≠ "OPTIONS") (globalOptions : Bool) :
    (∃ params, x.matchPath path = some params ∧
      (build xs).serveHTTP globalOptions path method = .run x params) ∧
    (build xs).ownerRoute path method = some x := by
  have hx := find?_some h
  obtain ⟨params, hparams⟩ := Option.isSome_iff_exists.mp (Bool.and_eq_true_iff.mp hx).1
  have hfind : ((build xs).matchingRoutes path).find? (·.1.allows method) = some (x, params) := by
    rw [find?_matchingRoutes, h, Option.bind_some, hparams, Option.map_some]
  rw [serveHTTP, ownerRoute, if_neg hmethod]
  cases hexact : ((build xs).exact path).find? (·.allows method) with
  | some y =>
    obtain rfl := Option.some.inj ((find?_of_exact hexact).symm.trans h)
    rw [exact_build, find?_filter] at hexact
    have hy := find?_some hexact
    simp only [decide_eq_true_eq] at hy
    exact ⟨⟨[], matchPath_of_exactly hy.1, rfl⟩, rfl⟩
  | none =>
    refine ⟨⟨params, hparams, ?_⟩, by simp only [hfind]⟩
    cases hfound : (build xs).matchingRoutes path with
    | nil => simp [hfound] at hfind
    | cons m rest => simp [hmethod, ← hfound, hfind]

theorem serveHTTP_ne_run (h : ∀ x ∈ xs, x.serves path method = false) (hmethod : method ≠ "OPTIONS")
    (globalOptions : Bool) (params : Params) :
    (build xs).serveHTTP globalOptions path method ≠ .run x params := by
  have hnone : (build xs).routes.find? (·.serves path method) = none := by
    rw [routes_build, find?_eq_none]
    intro y hy
    simp [h y (stableSort_perm.subset hy)]
  rw [serveHTTP, if_neg hmethod]
  cases hexact : ((build xs).exact path).find? (·.allows method) with
  | some y => cases (find?_of_exact hexact).symm.trans hnone
  | none =>
    have hfind : ((build xs).matchingRoutes path).find? (·.1.allows method) = none := by
      rw [find?_matchingRoutes, hnone, Option.bind_none]
    cases hfound : (build xs).matchingRoutes path with
    | nil => simp
    | cons m rest => simp [hmethod, ← hfound, hfind]

end RouteTable

def SameShape (x y : Registration η) : Prop :=
  x.pattern.segments.map Segment.shape = y.pattern.segments.map Segment.shape

def Overlapping (x y : Registration η) : Prop := ∃ method, x.allows method ∧ y.allows method

open RouteTable

/-- Whatever the order of registration, a request is dispatched to the least of the routes that
match it and allow its method. -/
theorem dispatch_least (xs : List (Registration η))
    (hdistinct : xs.Pairwise fun x y => ¬ (SameShape x y ∧ Overlapping x y)) (path : List Char)
    (method : String) (hmethod : method ≠ "OPTIONS") (globalOptions : Bool) :
    (∀ x y : Registration η, compareRoutes x y ≠ .gt ∨ compareRoutes y x ≠ .gt) ∧
    (∀ x y z : Registration η, compareRoutes x y ≠ .gt → compareRoutes y z ≠ .gt →
      compareRoutes x z ≠ .gt) ∧
    ((∃ x ∈ xs, x.serves path method) → ∃ x ∈ xs, x.serves path method ∧
      (∀ y ∈ xs, y.serves path method → y = x ∨
        precedence (kinds x.pattern.segments) < precedence (kinds y.pattern.segments)) ∧
      ∀ ys, ys.Perm xs →
        (∃ params, x.matchPath path = some params ∧
          (build ys).serveHTTP globalOptions path method = .run x params) ∧
        (build ys).ownerRoute path method = some x) ∧
    ((¬ ∃ x ∈ xs, x.serves path method) → ∀ ys, ys.Perm xs → ∀ x params,
      (build ys).serveHTTP globalOptions path method ≠ .run x params) := by
  have hdecide : ∀ x y : Registration η, routeLe x y ↔ compareRoutes x y ≠ .gt := fun x y =>
    decide_eq_true_iff
  refine ⟨fun x y => ?_, fun x y z => ?_, fun hserved => ?_, fun hnone ys hperm x params => ?_⟩
  · rw [← hdecide, ← hdecide]
    exact routeLe_total x y
  · rw [← hdecide, ← hdecide, ← hdecide]
    exact routeLe_trans x y z
  · obtain ⟨x, hx, hxs, -, hleast⟩ := exists_first hserved
    have hunique : ∀ y ∈ xs, y.serves path method →
        precedence (kinds x.pattern.segments) = precedence (kinds y.pattern.segments) → y = x := by
      intro y hy hys heq
      by_contra hne
      have : Std.Symm fun x y : Registration η => ¬ (SameShape x y ∧ Overlapping x y) :=
        ⟨fun x y h hyx => h ⟨hyx.1.symm, hyx.2.imp fun _ => And.symm⟩⟩
      refine hdistinct.forall hx hy (Ne.symm hne)
        ⟨(meets_of_serves hxs hys).shape_eq heq, method, ?_⟩
      exact ⟨(Bool.and_eq_true_iff.mp hxs).2, (Bool.and_eq_true_iff.mp hys).2⟩
    refine ⟨x, hx, hxs, fun y hy hys => ?_, fun ys hperm => ?_⟩
    · rcases lt_or_eq_of_le (not_lt.mp ((routeLe_of_serves hxs hys).mp (hleast y hy hys))) with h | h
      · exact .inr h
      · exact .inl (hunique y hy hys h)
    · obtain ⟨z, hz, hzs, hfind, hzleast⟩ := exists_first (⟨x, hperm.symm.subset hx, hxs⟩ :
        ∃ y ∈ ys, y.serves path method)
      have hxz := not_lt.mp ((routeLe_of_serves hxs hzs).mp (hleast z (hperm.subset hz) hzs))
      have hzx := not_lt.mp ((routeLe_of_serves hzs hxs).mp (hzleast x (hperm.symm.subset hx) hxs))
      obtain rfl := hunique z (hperm.subset hz) hzs (le_antisymm hxz hzx)
      exact dispatch_of_find? hfind hmethod globalOptions
  · refine serveHTTP_ne_run (fun y hy => ?_) hmethod globalOptions params
    exact Bool.eq_false_iff.mpr fun h => hnone ⟨y, hperm.subset hy, h⟩

def fileList (handler : η) : Registration η where
  methods := ["GET"]
  path := "/files/list".toList
  pathTail := false
  handler
  absolute := ⟨_, rfl⟩
  last := by decide
  tail := nofun

def fileById (handler : η) : Registration η where
  methods := ["GET"]
  path := "/files/:id".toList
  pathTail := false
  handler
  absolute := ⟨_, rfl⟩
  last := by decide
  tail := nofun

theorem dispatch_least_files :
    (build [fileById 1, fileList 2]).ownerRoute "/files/list".toList "GET" = some (fileList 2) := by
  obtain ⟨x, hx, -, hleast, hall⟩ := (dispatch_least [fileById 1, fileList 2] (by
    simp only [pairwise_cons, mem_singleton, forall_eq, not_mem_nil, false_imp_iff,
      implies_true, List.Pairwise.nil, and_true]
    exact fun h => absurd h.1 (by unfold SameShape; decide)) "/files/list".toList "GET" (by decide) true).2.2.1
    ⟨fileById 1, by simp, by decide⟩
  rw [(hall _ (.refl _)).2]
  have hlist : fileList 2 = x := (hleast (fileList 2) (by simp) (by decide)).resolve_right (by
    rcases mem_cons.mp hx with rfl | hx
    · decide
    · rw [mem_singleton.mp hx]
      decide)
  rw [hlist]

end Scenery.Router
