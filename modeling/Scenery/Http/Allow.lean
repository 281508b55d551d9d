import Scenery.Http.Router

/-!
# The Allow header

`ServeHTTP` sets the header before it answers, on the exact-path shortcut from the exact routes only.
-/

namespace Scenery.Router

open List

def appendAllowedMethod (methods : List String) (method : String) : List String :=
  if method ∈ methods then methods
  else if method = "GET" ∧ "HEAD" ∉ methods then methods ++ [method, "HEAD"]
  else methods ++ [method]

variable {η : Type}

def appendAllowedMethods (routes : List (Registration η)) : List String :=
  (routes.flatMap (·.allowed)).foldl appendAllowedMethod []

def sorted (methods : List String) : List String := stableSort (fun a b => decide (a ≤ b)) methods

def expandedAllowedMethods (routes : List (Registration η)) : List String :=
  sorted (appendAllowedMethods routes)

def allowedMethods (routes : List (Registration η)) (includeOptions : Bool) : List String :=
  sorted (appendAllowedMethods routes ++
    if includeOptions ∧ "OPTIONS" ∉ appendAllowedMethods routes then ["OPTIONS"] else [])

namespace RouteTable

/-- The header that `serveHTTP` sets; none when no route is found. -/
def allow (t : RouteTable η) (globalOptions : Bool) (path : List Char) (method : String) :
    List String :=
  if ((if method = "OPTIONS" then [] else t.exact path).find? (·.allows method)).isSome then
    expandedAllowedMethods (t.exact path)
  else match t.matchingRoutes path with
    | [] => []
    | found => allowedMethods (found.map (·.1)) globalOptions

/-- A handler of a route or `GlobalOPTIONS` answers. -/
def dispatches (t : RouteTable η) (globalOptions : Bool) (path : List Char) (method : String) :
    Bool :=
  match t.serveHTTP globalOptions path method with
  | .run _ _ => true
  | .options => true
  | _ => false

end RouteTable

open RouteTable

variable {xs routes : List (Registration η)} {path : List Char} {method m : String}
  {globalOptions : Bool}

theorem mem_foldl_append {methods : List String} :
    m ∈ methods.foldl appendAllowedMethod [] ↔ routeAllowsMethod methods m = true := by
  induction methods using List.reverseRecOn generalizing m with
  | nil => simp [routeAllowsMethod]
  | append_singleton methods method ih =>
    simp only [routeAllowsMethod, Bool.or_eq_true, Bool.and_eq_true, decide_eq_true_eq] at ih ⊢
    rw [foldl_append, foldl_cons, foldl_nil, appendAllowedMethod]
    split_ifs <;> grind

theorem mem_appendAllowedMethods :
    m ∈ appendAllowedMethods routes ↔ ∃ x ∈ routes, x.allows m = true := by
  rw [appendAllowedMethods, mem_foldl_append]
  simp only [routeAllowsMethod, Registration.allows, Bool.or_eq_true, Bool.and_eq_true,
    decide_eq_true_eq, mem_flatMap]
  grind

theorem mem_sorted {methods : List String} : m ∈ sorted methods ↔ m ∈ methods :=
  stableSort_perm.mem_iff

theorem mem_allowedMethods : m ∈ allowedMethods routes globalOptions ↔
    (∃ x ∈ routes, x.allows m = true) ∨ m = "OPTIONS" ∧ globalOptions = true := by
  rw [allowedMethods, mem_sorted, mem_append, mem_appendAllowedMethods]
  split_ifs with h
  · rw [mem_singleton, and_iff_left h.1]
  · rw [mem_appendAllowedMethods] at h
    grind

theorem mem_matchingRoutes {x : Registration η} {params : Params} :
    (x, params) ∈ (build xs).matchingRoutes path ↔ x ∈ xs ∧ x.matchPath path = some params := by
  rw [matchingRoutes, routes_build, mem_filterMap]
  simp only [Option.map_eq_some_iff, Prod.mk.injEq, stableSort_perm.mem_iff]
  grind

theorem matchingRoutes_allow : (∃ x ∈ ((build xs).matchingRoutes path).map (·.1), x.allows m = true) ↔
    ∃ x ∈ xs, x.serves path m = true := by
  simp only [mem_map, Prod.exists, mem_matchingRoutes, Registration.serves, Bool.and_eq_true,
    Option.isSome_iff_exists]
  grind

theorem shortcut_iff (t : RouteTable η) :
    ((if m = "OPTIONS" then [] else t.exact path).find? (·.allows m)).isSome = true ↔
      m ≠ "OPTIONS" ∧ ∃ x ∈ t.exact path, x.allows m = true := by
  split_ifs with hm <;> simp [hm]

theorem serves_of_exact (h : ∃ x ∈ (build xs).exact path, x.allows m = true) :
    ∃ x ∈ xs, x.serves path m = true := by
  obtain ⟨x, hx, hallows⟩ := h
  rw [exact_build, mem_filter] at hx
  exact ⟨x, hx.1, by rw [Registration.serves, matchPath_of_exactly hx.2, hallows]; rfl⟩

theorem dispatches_iff (hmatch : (build xs).matchingRoutes path ≠ []) :
    (build xs).dispatches globalOptions path m = true ↔
      (∃ x ∈ xs, x.serves path m = true) ∨ m = "OPTIONS" ∧ globalOptions = true := by
  unfold dispatches serveHTTP
  cases hexact : (if m = "OPTIONS" then [] else (build xs).exact path).find? (·.allows m) with
  | some x =>
    have hshortcut := (shortcut_iff (build xs)).mp (by rw [hexact]; rfl)
    exact iff_of_true rfl (.inl (serves_of_exact hshortcut.2))
  | none =>
    obtain ⟨r, rest, hfound⟩ := exists_cons_of_ne_nil hmatch
    rw [← matchingRoutes_allow, hfound]
    dsimp only
    split_ifs with hoptions
    · exact iff_of_true rfl (.inr hoptions)
    · rw [or_iff_left hoptions]
      cases hfind : (r :: rest).find? (·.1.allows m) with
      | some s =>
        have hallows := find?_some hfind
        exact iff_of_true rfl ⟨s.1, mem_map_of_mem (mem_of_find?_eq_some hfind), hallows⟩
      | none =>
        have hnone := find?_eq_none.mp hfind
        refine iff_of_false Bool.false_ne_true ?_
        rintro ⟨_, hx, hallows⟩
        obtain ⟨s, hs, rfl⟩ := mem_map.mp hx
        exact hnone s hs hallows

/-- **The header is exact** unless the exact-path shortcut answers and another route that matches, or
`GlobalOPTIONS`, would answer a method that no exact route allows. -/
theorem allow_exact_iff (hmatch : (build xs).matchingRoutes path ≠ []) :
    (∀ m, m ∈ (build xs).allow globalOptions path method ↔
      (build xs).dispatches globalOptions path m = true) ↔
    (method ≠ "OPTIONS" → (∃ x ∈ (build xs).exact path, x.allows method = true) →
      ∀ m, (∃ x ∈ xs, x.serves path m = true) ∨ m = "OPTIONS" ∧ globalOptions = true →
        ∃ x ∈ (build xs).exact path, x.allows m = true) := by
  simp only [dispatches_iff hmatch]
  by_cases hshortcut : method ≠ "OPTIONS" ∧ ∃ x ∈ (build xs).exact path, x.allows method = true
  · simp only [allow, (shortcut_iff _).mpr hshortcut, if_true, expandedAllowedMethods, mem_sorted,
      mem_appendAllowedMethods]
    exact ⟨fun h _ _ m => (h m).mpr, fun h m =>
      ⟨fun hm => .inl (serves_of_exact hm), h hshortcut.1 hshortcut.2 m⟩⟩
  · refine iff_of_true (fun m => ?_) fun hm hx => absurd ⟨hm, hx⟩ hshortcut
    obtain ⟨r, rest, hfound⟩ := exists_cons_of_ne_nil hmatch
    rw [allow, if_neg (mt (shortcut_iff _).mp hshortcut), ← matchingRoutes_allow, hfound]
    exact mem_allowedMethods

theorem allow_exact_iff_list : let t := build [fileList 0]
    "HEAD" ∈ t.allow false "/files/list".toList "GET" ∧
    ∀ m, m ∈ t.allow false "/files/list".toList "GET" ↔
      t.dispatches false "/files/list".toList m = true := by
  refine ⟨by decide +kernel, (allow_exact_iff (by decide +kernel)).mpr fun _ _ m hm => ?_⟩
  obtain ⟨x, hx, hserves⟩ := hm.resolve_right fun h => Bool.false_ne_true h.2
  cases mem_singleton.mp hx
  rw [exact_build]
  exact ⟨_, mem_filter.mpr ⟨hx, by decide +kernel⟩, (Bool.and_eq_true_iff.mp hserves).2⟩

/-- With `GlobalOPTIONS`, the header of the only route lacks `OPTIONS`. -/
theorem allow_lacks_options : let t := build [fileList 0]
    "OPTIONS" ∉ t.allow true "/files/list".toList "GET" ∧
      t.dispatches true "/files/list".toList "OPTIONS" = true ∧
      "OPTIONS" ∈ t.allow true "/files/list".toList "POST" := by
  decide +kernel

end Scenery.Router
