import Mathlib
import Scenery.Http.Router

/-!
# Preflight requests

`runtime/server.go`: contract endpoints with a policy are noted in `contractCORS` beside the route
table, and a preflight request is answered with the policy of the first of them.
-/


namespace Scenery.Router

open List

structure Endpoint (π : Type) where
  isPrivate : Bool
  raw : Bool
  contractPolicy : Option π

structure Server (π : Type) where
  publicRoutes : RouteTable (Endpoint π) := {}
  privateRoutes : RouteTable (Endpoint π) := {}
  contractCORS : List (Registration (Endpoint π)) := []

variable {π : Type}

def Endpoint.cors (e : Endpoint π) : Bool :=
  !e.raw && !e.isPrivate && e.contractPolicy.isSome

namespace Server

def register (s : Server π) (x : Registration (Endpoint π)) : Server π :=
  let s := if x.handler.cors then { s with contractCORS := s.contractCORS ++ [x] } else s
  if x.handler.isPrivate then { s with privateRoutes := s.privateRoutes.handle x }
  else { s with publicRoutes := s.publicRoutes.handle x }

def newServer (xs : List (Registration (Endpoint π))) : Server π := xs.foldl register {}

def contractCORSRoute (s : Server π) (path : List Char) (method : String) :
    Option (Registration (Endpoint π)) :=
  let found := s.contractCORS.filter fun x =>
    (method = "" || routeAllowsMethod x.allowed (toUpper method)) && (x.matchPath path).isSome
  (stableSort routeLe found).head?

def contractCORSPolicy (s : Server π) (path : List Char) (method : String) : Option π :=
  (s.contractCORSRoute path method).bind (·.handler.contractPolicy)

variable {xs : List (Registration (Endpoint π))} {path : List Char} {method : String}
  {x : Registration (Endpoint π)}

theorem newServer_eq (xs : List (Registration (Endpoint π))) :
    (newServer xs).publicRoutes = .build (xs.filter (!·.handler.isPrivate)) ∧
      (newServer xs).contractCORS = xs.filter (·.handler.cors) := by
  induction xs using List.reverseRecOn with
  | nil => exact ⟨rfl, rfl⟩
  | append_singleton xs x ih =>
    rw [newServer, foldl_append, foldl_cons, foldl_nil, filter_append,
      filter_append, ← ih.2]
    change (register (newServer xs) x).publicRoutes = _ ∧ (register (newServer xs) x).contractCORS = _
    rw [register]
    cases hcors : x.handler.cors <;> cases hprivate : x.handler.isPrivate <;>
      simp [hcors, hprivate, ih.1, RouteTable.build_append]

theorem toUpper_of_allows (h : x.allows method = true) : toUpper method = method := by
  have hself : ∀ m ∈ x.allowed, toUpper m = m := by
    intro m hm
    obtain ⟨name, -, hm⟩ := mem_flatMap.mp hm
    split at hm
    · simp only [mem_cons, not_mem_nil, or_false] at hm
      rcases hm with rfl | rfl | rfl | rfl | rfl | rfl | rfl <;> decide
    · cases mem_singleton.mp hm
      simp [toUpper, Function.comp_def]
  rcases Bool.or_eq_true_iff.mp h with h | h
  · exact hself method (of_decide_eq_true h)
  · rw [of_decide_eq_true (Bool.and_eq_true_iff.mp h).1]
    decide

theorem find?_of_run {params : Params}
    (hrun : (newServer xs).publicRoutes.serveHTTP true path method = .run x params) :
    (newServer xs).publicRoutes.routes.find? (·.serves path method) = some x := by
  rw [(newServer_eq xs).1] at hrun ⊢
  have hmethod : method ≠ "OPTIONS" := by
    rintro rfl
    simp only [RouteTable.serveHTTP, if_true, find?_nil] at hrun
    split at hrun <;> cases hrun
  by_cases h : ∃ y ∈ xs.filter (!·.handler.isPrivate), y.serves path method
  · obtain ⟨y, -, -, hfind, -⟩ := RouteTable.exists_first h
    obtain ⟨⟨_, -, hrun'⟩, -⟩ := RouteTable.dispatch_of_find? hfind hmethod true
    cases hrun.symm.trans hrun'
    exact hfind
  · refine absurd hrun (RouteTable.serveHTTP_ne_run (fun y hy => ?_) hmethod true params)
    exact Bool.eq_false_iff.mpr fun hys => h ⟨y, hy, hys⟩

theorem contractCORSRoute_eq {params : Params}
    (hrun : (newServer xs).publicRoutes.serveHTTP true path method = .run x params)
    (hmethod : method ≠ "") :
    ∃ rest, stableSort routeLe ((xs.filter (!·.handler.isPrivate)).filter (·.serves path method)) =
        x :: rest ∧
      (newServer xs).contractCORSRoute path method = ((x :: rest).filter (·.handler.cors)).head? := by
  have hfind := find?_of_run hrun
  have hserves := find?_some hfind
  have hupper := toUpper_of_allows (Bool.and_eq_true_iff.mp hserves).2
  have hfound : ((newServer xs).contractCORS.filter fun y =>
      (method = "" || routeAllowsMethod y.allowed (toUpper method)) && (y.matchPath path).isSome) =
      ((xs.filter (!·.handler.isPrivate)).filter (·.serves path method)).filter (·.handler.cors) := by
    rw [(newServer_eq xs).2, hupper, filter_filter, filter_filter, filter_filter]
    refine filter_congr fun y _ => ?_
    simp only [Registration.serves, Registration.allows, Endpoint.cors, decide_eq_false hmethod]
    grind
  rw [(newServer_eq xs).1, RouteTable.routes_build, ← head?_filter,
    filter_stableSort routeLe_total routeLe_trans, head?_eq_some_iff] at hfind
  obtain ⟨rest, hsort⟩ := hfind
  refine ⟨rest, hsort, ?_⟩
  rw [contractCORSRoute, hfound, ← filter_stableSort routeLe_total routeLe_trans, hsort]

/-- The preflight of a request selects the endpoint it is dispatched to, or none if that has no
policy, exactly if the endpoint is noted, or has no policy and no noted endpoint serves the
request. -/
theorem preflight_iff {params : Params}
    (hrun : (newServer xs).publicRoutes.serveHTTP true path method = .run x params)
    (hmethod : method ≠ "") :
    ((newServer xs).contractCORSRoute path method =
        (if x.handler.contractPolicy.isSome then some x else none) ∧
      (newServer xs).contractCORSPolicy path method = x.handler.contractPolicy) ↔
    x.handler.cors ∨ x.handler.contractPolicy = none ∧
      ∀ y ∈ xs, y.handler.cors → ¬ y.serves path method := by
  obtain ⟨rest, hsort, hroute⟩ := contractCORSRoute_eq hrun hmethod
  constructor
  · rintro ⟨hselected, -⟩
    cases hpolicy : x.handler.contractPolicy with
    | some policy =>
      rw [hroute, hpolicy, Option.isSome_some, if_pos rfl, head?_filter] at hselected
      have hcors := find?_some hselected
      exact .inl hcors
    | none =>
      refine .inr ⟨rfl, fun y hy hcors hys => ?_⟩
      rw [hroute, hpolicy, Option.isSome_none, if_neg Bool.false_ne_true, head?_eq_none_iff,
        filter_eq_nil_iff, ← hsort] at hselected
      refine hselected y (stableSort_perm.symm.subset ?_) hcors
      simp only [mem_filter, hy, hys, and_true, true_and]
      exact (Bool.and_eq_true_iff.mp (Bool.and_eq_true_iff.mp hcors).1).2
  · rintro (hcors | ⟨hnone, hothers⟩)
    · have hsome := (Bool.and_eq_true_iff.mp hcors).2
      rw [contractCORSPolicy, hroute, filter_cons, if_pos hcors, if_pos hsome]
      exact ⟨rfl, rfl⟩
    · have hnil : (x :: rest).filter (·.handler.cors) = [] := by
        rw [filter_eq_nil_iff, ← hsort]
        intro y hy hcors
        obtain ⟨hy, hys⟩ := mem_filter.mp (stableSort_perm.subset hy)
        exact hothers y (mem_of_mem_filter hy) hcors hys
      rw [contractCORSPolicy, hroute, hnil, hnone]
      exact ⟨rfl, rfl⟩

def contractEndpoint : Endpoint ℕ := ⟨false, false, some 7⟩

def rawEndpoint : Endpoint ℕ := ⟨false, true, none⟩

theorem preflight_iff_contract :
    (newServer [fileById contractEndpoint]).contractCORSPolicy "/files/1".toList "GET" = some 7 :=
  ((preflight_iff (by rfl : (newServer
      [fileById contractEndpoint]).publicRoutes.serveHTTP true "/files/1".toList "GET" =
        .run (fileById contractEndpoint) [("id".toList, "1".toList)]) (by decide)).mpr
    (.inl rfl)).2

/-- The request goes to a raw endpoint without a policy, its preflight uses the policy of another
endpoint. -/
theorem preflight_other_policy :
    let s := newServer [fileById contractEndpoint, fileList rawEndpoint]
    s.publicRoutes.serveHTTP true "/files/list".toList "GET" = .run (fileList rawEndpoint) [] ∧
      s.contractCORSPolicy "/files/list".toList "GET" = some 7 := by
  exact ⟨rfl, by decide +kernel⟩

end Server

end Scenery.Router
