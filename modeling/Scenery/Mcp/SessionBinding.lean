import Mathlib.Data.Nat.Notation
import Mathlib.Data.List.Basic
import Mathlib.Tactic.SplitIfs
import Scenery.Runs

/-!
# Sessions of the MCP gateway

The gateway puts an authorization boundary around the sessions of the SDK: it binds a session id
to the context of the request that created the session, and refuses a request that names the
session in another context.
-/

namespace Scenery.Mcp

open List

structure Binding where
  principal : String
  assistantAddress : String
  conversationDigest : String
  capabilityRevision : String
  deriving DecidableEq

inductive Method where
  | post
  | get
  | delete
  deriving DecidableEq

structure Request where
  method : Method
  sessionID : String
  binding : Binding
  deriving DecidableEq

inductive Phase where
  | verified
  | accepted
  | served (answer : String)
  | bound
  deriving DecidableEq

structure State where
  sessions : List (String × Binding)
  held : List (String × Binding)
  requests : List (Request × Phase)
  seen : List String
  uses : List (Binding × Binding)
  deriving DecidableEq

def State.initial : State := ⟨[], [], [], [], []⟩

namespace State

def acceptSessionBinding (sessionID : String) (binding : Binding) (s : State) : Bool :=
  match s.sessions.lookup sessionID with
  | none => true
  | some bound => bound = binding

def bindSession (sessionID : String) (binding : Binding) (s : State) : State :=
  match s.sessions.lookup sessionID with
  | none => { s with sessions := (sessionID, binding) :: s.sessions }
  | some _ => s

def removeSession (sessionID : String) (s : State) : State :=
  { s with sessions := s.sessions.filter fun e => e.1 ≠ sessionID }

def goOn (r : Request) (old new : Phase) (s : State) : State :=
  { s with requests := (r, new) :: s.requests.erase (r, old) }

def leave (r : Request) (old : Phase) (s : State) : State :=
  { s with requests := s.requests.erase (r, old) }

def accept (capabilityRevision : String) (r : Request) (s : State) : State :=
  if capabilityRevision ≠ "" ∧ r.binding.capabilityRevision ≠ capabilityRevision then
    s.leave r .verified
  else if r.sessionID ≠ "" ∧ s.acceptSessionBinding r.sessionID r.binding = false then
    s.leave r .verified
  else s.goOn r .verified .accepted

def serveSession (r : Request) (answer : String) (s : State) : Option State :=
  match s.held.lookup r.sessionID with
  | none => if answer = "" then some (s.goOn r .accepted (.served "")) else none
  | some creator =>
    if answer = "" ∨ answer = r.sessionID then
      let s := { s with uses := (creator, r.binding) :: s.uses }
      let s := if r.method = .delete then
        { s with held := s.held.filter fun e => e.1 ≠ r.sessionID } else s
      some (s.goOn r .accepted (.served answer))
    else none

def serveNew (r : Request) (answer : String) (s : State) : Option State :=
  if answer = "" then some (s.goOn r .accepted (.served ""))
  else if r.method = .post ∧ answer ∉ s.seen then
    some ({ s with held := (answer, r.binding) :: s.held, seen := answer :: s.seen }.goOn r .accepted
      (.served answer))
  else none

def serve (r : Request) (answer : String) (s : State) : Option State :=
  if r.sessionID = "" then s.serveNew r answer else s.serveSession r answer

def bind (r : Request) (answer : String) (s : State) : State :=
  (if answer = "" then s else s.bindSession answer r.binding).goOn r (.served answer) .bound

def finish (r : Request) (s : State) : State :=
  (if r.method = .delete ∧ r.sessionID ≠ "" then s.removeSession r.sessionID else s).leave r .bound

end State

inductive Event where
  | arrive (r : Request)
  | accept (r : Request)
  | serve (r : Request) (answer : String)
  | bind (r : Request) (answer : String)
  | finish (r : Request)
  | expire (sessionID : String)
  deriving DecidableEq

def step (capabilityRevision : String) (s : State) : Event → Option State
  | .arrive r => some { s with requests := (r, .verified) :: s.requests, seen := r.sessionID :: s.seen }
  | .accept r => if (r, .verified) ∈ s.requests then some (s.accept capabilityRevision r) else none
  | .serve r answer => if (r, .accepted) ∈ s.requests then s.serve r answer else none
  | .bind r answer => if (r, .served answer) ∈ s.requests then some (s.bind r answer) else none
  | .finish r => if (r, .bound) ∈ s.requests then some (s.finish r) else none
  | .expire sessionID => some { s with held := s.held.filter fun e => e.1 ≠ sessionID }

def Settled (s : State) : Event → Prop
  | .accept r =>
    r.sessionID ≠ "" → ∀ e ∈ s.requests, e.1.sessionID = "" → e.2 ≠ .served r.sessionID
  | _ => True

instance (s : State) (e : Event) : Decidable (Settled s e) := by
  unfold Settled
  split <;> infer_instance

structure Fits (s : State) (e : Request × Phase) : Prop where
  named : e.1.sessionID ∈ s.seen
  answer_seen : ∀ answer, e.2 = .served answer → answer ≠ "" → answer ∈ s.seen
  echo : ∀ answer, e.2 = .served answer → e.1.sessionID ≠ "" → answer = "" ∨ answer = e.1.sessionID
  creator : ∀ answer, e.2 = .served answer → e.1.sessionID = "" → ∀ c, (answer, c) ∈ s.held →
    e.1.binding = c
  accepted : e.2 ≠ .verified → e.1.sessionID ≠ "" → ∀ c, (e.1.sessionID, c) ∈ s.held →
    e.1.binding = c
  deleted : e.2 = .bound ∨ (∃ answer, e.2 = .served answer) → e.1.method = .delete →
    e.1.sessionID ≠ "" → ∀ c, (e.1.sessionID, c) ∉ s.held

/-- A bound session is bound to its creator; an unbound one has a creator that will bind it. -/
structure Inv (s : State) : Prop where
  held_ne : ∀ e ∈ s.held, e.1 ≠ ""
  held_seen : ∀ e ∈ s.held, e.1 ∈ s.seen
  sessions_seen : ∀ e ∈ s.sessions, e.1 ∈ s.seen
  requests : ∀ e ∈ s.requests, Fits s e
  bound : ∀ id c, (id, c) ∈ s.held → ∀ b, (id, b) ∈ s.sessions → b = c
  binding : ∀ id c, (id, c) ∈ s.held → (id, c) ∈ s.sessions ∨
    ∃ e ∈ s.requests, e.1.sessionID = "" ∧ e.2 = .served id
  uses : ∀ use ∈ s.uses, use.1 = use.2

variable {s s' : State} {r : Request}

theorem Fits.mono {e : Request × Phase} (h : Fits s e) (hheld : ∀ x ∈ s'.held, x ∈ s.held)
    (hseen : ∀ id ∈ s.seen, id ∈ s'.seen) : Fits s' e where
  named := hseen _ h.named
  answer_seen answer he hne := hseen _ (h.answer_seen answer he hne)
  echo := h.echo
  creator answer he hid c hc := h.creator answer he hid c (hheld _ hc)
  accepted hne hid c hc := h.accepted hne hid c (hheld _ hc)
  deleted he hm hid c hc := h.deleted he hm hid c (hheld _ hc)

theorem Fits.unanswered {phase : Phase} (hphase : phase = .verified ∨ phase = .accepted)
    (hnamed : r.sessionID ∈ s.seen)
    (haccepted : phase ≠ .verified → r.sessionID ≠ "" → ∀ c, (r.sessionID, c) ∈ s.held →
      r.binding = c) : Fits s (r, phase) := by
  have hserved : ∀ answer, phase ≠ .served answer := by
    rintro answer rfl
    rcases hphase with hno | hno <;> cases hno
  refine ⟨hnamed, fun answer he => absurd he (hserved answer), fun answer he => absurd he (hserved answer),
    fun answer he => absurd he (hserved answer), haccepted, ?_⟩
  rintro (hbound | ⟨answer, he⟩)
  · rcases hphase with rfl | rfl <;> cases hbound
  · exact absurd he (hserved answer)

theorem mem_of_lookup {l : List (String × Binding)} {id : String} {b : Binding}
    (h : l.lookup id = some b) : (id, b) ∈ l := by
  obtain ⟨before, after, rfl, -⟩ := lookup_eq_some_iff.mp h
  exact mem_append_right _ mem_cons_self

theorem not_mem_of_lookup {l : List (String × Binding)} {id : String}
    (h : l.lookup id = none) (b : Binding) : (id, b) ∉ l := by
  intro hmem
  have hne := lookup_eq_none_iff.mp h (id, b) hmem
  simp at hne

theorem Inv.withRequests (h : Inv s) {l : List (Request × Phase)}
    (hl : ∀ e ∈ l, e ∈ s.requests ∨ Fits s e)
    (hkeep : ∀ id c, (id, c) ∈ s.held → (id, c) ∉ s.sessions →
      ∀ e ∈ s.requests, e.1.sessionID = "" → e.2 = .served id → e ∈ l) :
    Inv { s with requests := l } where
  held_ne := h.held_ne
  held_seen := h.held_seen
  sessions_seen := h.sessions_seen
  requests e he := by
    have hfits : Fits s e := (hl e he).elim (h.requests e) id
    exact hfits.mono (fun _ hx => hx) (fun _ hid => hid)
  bound := h.bound
  binding id c hc := by
    by_cases hmem : (id, c) ∈ s.sessions
    · exact .inl hmem
    · obtain hbound | ⟨e, he, hid, hserved⟩ := h.binding id c hc
      · exact .inl hbound
      · exact .inr ⟨e, hkeep id c hc hmem e he hid hserved, hid, hserved⟩
  uses := h.uses

theorem Inv.goOn {old new : Phase} (h : Inv s) (hnew : Fits s (r, new))
    (hold : r.sessionID = "" → ∀ id c, old = .served id → (id, c) ∈ s.held → (id, c) ∈ s.sessions) :
    Inv (s.goOn r old new) := by
  refine h.withRequests (fun e he => ?_) (fun id c hc hmem e he hid hserved => ?_)
  · rcases mem_cons.mp he with rfl | he
    · exact .inr hnew
    · exact .inl (mem_of_mem_erase he)
  · refine mem_cons_of_mem _ ((mem_erase_of_ne fun heq => ?_).mpr he)
    subst heq
    exact hmem (hold hid id c hserved hc)

theorem Inv.leave {old : Phase} (h : Inv s)
    (hold : ∀ id, old ≠ .served id) : Inv (s.leave r old) := by
  refine h.withRequests (fun e he => .inl (mem_of_mem_erase he))
    (fun id c hc hmem e he hid hserved => ?_)
  refine (mem_erase_of_ne fun heq => ?_).mpr he
  subst heq
  exact hold id hserved

/-! ## The steps -/

section

variable (h : Inv s)
include h

theorem Inv.arrive :
    Inv { s with requests := (r, .verified) :: s.requests, seen := r.sessionID :: s.seen } where
  held_ne := h.held_ne
  held_seen e he := mem_cons_of_mem _ (h.held_seen e he)
  sessions_seen e he := mem_cons_of_mem _ (h.sessions_seen e he)
  requests e he := by
    rcases mem_cons.mp he with rfl | he
    · exact .unanswered (.inl rfl) mem_cons_self fun hno => absurd rfl hno
    · exact (h.requests e he).mono (fun _ hx => hx) (fun _ => mem_cons_of_mem _)
  bound := h.bound
  binding id c hc := by
    obtain hbound | ⟨e, he, hid, hserved⟩ := h.binding id c hc
    · exact .inl hbound
    · exact .inr ⟨e, mem_cons_of_mem _ he, hid, hserved⟩
  uses := h.uses

theorem Inv.accept {capabilityRevision : String} (hmem : (r, .verified) ∈ s.requests)
    (hsettled : r.sessionID ≠ "" →
      ∀ e ∈ s.requests, e.1.sessionID = "" → e.2 ≠ .served r.sessionID) :
    Inv (s.accept capabilityRevision r) := by
  have hfits := h.requests _ hmem
  unfold State.accept
  split_ifs with hrevision hbinding
  · exact h.leave fun _ hno => by cases hno
  · exact h.leave fun _ hno => by cases hno
  · refine h.goOn (.unanswered (.inr rfl) hfits.named fun _ hid c hc => ?_)
      nofun
    rcases h.binding _ c hc with hbound | ⟨e, he, hsession, hserved⟩
    · -- the session is bound, and the binding is the context of the request
      have haccept : s.acceptSessionBinding r.sessionID r.binding = true := by
        by_contra hno
        exact hbinding ⟨hid, Bool.not_eq_true _ ▸ hno⟩
      unfold State.acceptSessionBinding at haccept
      split at haccept
      · rename_i hnone
        exact absurd hbound (not_mem_of_lookup hnone c)
      · rename_i b hsome
        rw [← of_decide_eq_true haccept]
        exact h.bound _ c hc b (mem_of_lookup hsome)
    · exact absurd hserved (hsettled hid e he hsession)

theorem Inv.close (p : String × Binding → Bool) :
    Inv { s with held := s.held.filter p } where
  held_ne e he := h.held_ne e (mem_of_mem_filter he)
  held_seen e he := h.held_seen e (mem_of_mem_filter he)
  sessions_seen := h.sessions_seen
  requests e he := (h.requests e he).mono (fun _ => mem_of_mem_filter) (fun _ hid => hid)
  bound id c hc := h.bound id c (mem_of_mem_filter hc)
  binding id c hc := h.binding id c (mem_of_mem_filter hc)
  uses := h.uses

theorem Inv.use {creator : Binding} (hcreator : creator = r.binding) :
    Inv { s with uses := (creator, r.binding) :: s.uses } where
  held_ne := h.held_ne
  held_seen := h.held_seen
  sessions_seen := h.sessions_seen
  requests e he := (h.requests e he).mono (fun _ hx => hx) (fun _ hid => hid)
  bound := h.bound
  binding := h.binding
  uses use huse := by
    rcases mem_cons.mp huse with rfl | huse
    · exact hcreator
    · exact h.uses use huse

theorem Inv.create {id : String} (hne : id ≠ "") (hfresh : id ∉ s.seen)
    (hmem : (r, .accepted) ∈ s.requests) (hid : r.sessionID = "") :
    Inv ({ s with held := (id, r.binding) :: s.held, seen := id :: s.seen }.goOn r .accepted
      (.served id)) := by
  have hfits : ∀ e ∈ s.requests,
      Fits { s with held := (id, r.binding) :: s.held, seen := id :: s.seen } e := by
    intro e he
    -- no request has named or got the new id
    have hf := h.requests e he
    refine ⟨mem_cons_of_mem _ hf.named,
      fun answer ha hn => mem_cons_of_mem _ (hf.answer_seen answer ha hn), hf.echo,
      fun answer ha hsession c hc => ?_, fun hphase hsession c hc => ?_,
      fun hphase hmethod hsession c hc => ?_⟩
    · rcases mem_cons.mp hc with heq | hc
      · obtain ⟨rfl, -⟩ := Prod.mk.inj heq
        exact absurd (hf.answer_seen _ ha hne) hfresh
      · exact hf.creator answer ha hsession c hc
    · rcases mem_cons.mp hc with heq | hc
      · exact absurd ((Prod.mk.inj heq).1 ▸ hf.named) hfresh
      · exact hf.accepted hphase hsession c hc
    · rcases mem_cons.mp hc with heq | hc
      · exact absurd ((Prod.mk.inj heq).1 ▸ hf.named) hfresh
      · exact hf.deleted hphase hmethod hsession c hc
  constructor
  · intro e he
    rcases mem_cons.mp he with rfl | he
    · exact hne
    · exact h.held_ne e he
  · intro e he
    rcases mem_cons.mp he with rfl | he
    · exact mem_cons_self
    · exact mem_cons_of_mem _ (h.held_seen e he)
  · exact fun e he => mem_cons_of_mem _ (h.sessions_seen e he)
  · intro e he
    rcases mem_cons.mp he with rfl | he
    · refine ⟨(hfits _ hmem).named, fun answer ha _ => ?_, fun _ _ => absurd hid,
        fun answer ha _ c hc => ?_, fun _ => absurd hid,
        fun _ _ => absurd hid⟩
      · obtain rfl := Phase.served.inj ha
        exact mem_cons_self
      · obtain rfl := Phase.served.inj ha
        rcases mem_cons.mp hc with heq | hc
        · exact (Prod.mk.inj heq).2.symm
        · exact absurd (h.held_seen _ hc) hfresh
    · exact (hfits e (mem_of_mem_erase he)).mono (fun _ hx => hx) (fun _ hx => hx)
  · intro id' c hc b hb
    rcases mem_cons.mp hc with heq | hc
    · obtain ⟨rfl, -⟩ := Prod.mk.inj heq
      exact absurd (h.sessions_seen _ hb) hfresh
    · exact h.bound id' c hc b hb
  · intro id' c hc
    rcases mem_cons.mp hc with heq | hc
    · obtain ⟨rfl, -⟩ := Prod.mk.inj heq
      exact .inr ⟨_, mem_cons_self, hid, rfl⟩
    · obtain hbound | ⟨e, he, hsession, hserved⟩ := h.binding id' c hc
      · exact .inl hbound
      · refine .inr ⟨e, mem_cons_of_mem _ ((mem_erase_of_ne fun heq => ?_).mpr he),
          hsession, hserved⟩
        subst heq
        cases hserved
  · exact h.uses

section

variable (hmem : (r, .accepted) ∈ s.requests)
include hmem

theorem Inv.serveNew {answer : String}
    (hid : r.sessionID = "") (hs : s.serveNew r answer = some s') : Inv s' := by
  have hfits := h.requests _ hmem
  unfold State.serveNew at hs
  split_ifs at hs with hanswer hnew
  · cases hs
    refine h.goOn ⟨hfits.named, fun answer he hne => ?_, fun _ _ => absurd hid,
      fun answer he _ c hc => ?_, fun _ => absurd hid, fun _ _ => absurd hid⟩
      nofun
    · exact absurd (Phase.served.inj he).symm hne
    · obtain rfl := Phase.served.inj he
      exact absurd rfl (h.held_ne _ hc)
  · cases hs
    exact h.create hanswer hnew.2 hmem hid

theorem Inv.answer {answer : String}
    (hid : r.sessionID ≠ "") (hanswer : answer = "" ∨ answer = r.sessionID)
    (hdeleted : r.method = .delete → ∀ c, (r.sessionID, c) ∉ s.held) :
    Inv (s.goOn r .accepted (.served answer)) := by
  have hfits := h.requests _ hmem
  refine h.goOn ⟨hfits.named, fun a ha hne => ?_, fun a ha _ => ?_, fun _ _ hno => absurd hno hid,
    fun _ => hfits.accepted nofun, fun _ hm _ => hdeleted hm⟩
    (fun hno => absurd hno hid)
  · obtain rfl := Phase.served.inj ha
    rw [hanswer.resolve_left hne]
    exact hfits.named
  · obtain rfl := Phase.served.inj ha
    exact hanswer

theorem Inv.serveSession {answer : String}
    (hid : r.sessionID ≠ "") (hs : s.serveSession r answer = some s') : Inv s' := by
  unfold State.serveSession at hs
  split at hs
  · rename_i hnone
    split_ifs at hs with hanswer
    cases hs
    exact h.answer hmem hid (.inl rfl) fun _ => not_mem_of_lookup hnone
  · rename_i creator hsome
    have hcreator : creator = r.binding :=
      ((h.requests _ hmem).accepted nofun hid creator (mem_of_lookup hsome)).symm
    have huse := h.use hcreator
    split_ifs at hs with hanswer hdelete
    · cases hs
      refine (huse.close _).answer hmem hid hanswer fun _ c hc => ?_
      have hne := (mem_filter.mp hc).2
      simp at hne
    · cases hs
      exact huse.answer hmem hid hanswer fun hno => absurd hno hdelete

end

theorem Inv.bindSession {id : String} {b : Binding} (hseen : id ∈ s.seen)
    (hb : ∀ c, (id, c) ∈ s.held → b = c) :
    Inv (s.bindSession id b) ∧ ∀ c, (id, c) ∈ s.held → (id, c) ∈ (s.bindSession id b).sessions := by
  unfold State.bindSession
  split
  · refine ⟨⟨h.held_ne, h.held_seen, fun e he => ?_, fun e he => ?_, fun id' c hc b' hb' => ?_,
      fun id' c hc => ?_, h.uses⟩, fun c hc => ?_⟩
    · rcases mem_cons.mp he with rfl | he
      · exact hseen
      · exact h.sessions_seen e he
    · exact (h.requests e he).mono (fun _ hx => hx) (fun _ hx => hx)
    · rcases mem_cons.mp hb' with heq | hb'
      · cases heq
        exact hb c hc
      · exact h.bound id' c hc b' hb'
    · exact (h.binding id' c hc).imp_left (mem_cons_of_mem _)
    · rw [← hb c hc]
      exact mem_cons_self
  · rename_i bound hsome
    refine ⟨h, fun c hc => ?_⟩
    obtain rfl := h.bound id c hc bound (mem_of_lookup hsome)
    exact mem_of_lookup hsome

theorem Inv.bind {answer : String} (hmem : (r, .served answer) ∈ s.requests) :
    Inv (s.bind r answer) := by
  have hfits := h.requests _ hmem
  have hbound : Fits s (r, .bound) :=
    ⟨hfits.named, nofun, nofun,
      nofun, fun _ => hfits.accepted nofun,
      fun _ => hfits.deleted (.inr ⟨answer, rfl⟩)⟩
  unfold State.bind
  split_ifs with hanswer
  · refine h.goOn hbound fun _ id c hid hc => ?_
    obtain rfl := Phase.served.inj hid
    exact absurd hanswer (h.held_ne _ hc)
  · have hbinding : ∀ c, (answer, c) ∈ s.held → r.binding = c := by
      intro c hc
      by_cases hid : r.sessionID = ""
      · exact hfits.creator answer rfl hid c hc
      · have heq := (hfits.echo answer rfl hid).resolve_left hanswer
        exact hfits.accepted nofun hid c (heq ▸ hc)
    obtain ⟨hinv, hsessions⟩ := h.bindSession (hfits.answer_seen answer rfl hanswer) hbinding
    have hheld : (s.bindSession answer r.binding).held = s.held := by
      unfold State.bindSession
      split <;> rfl
    have hseen : (s.bindSession answer r.binding).seen = s.seen := by
      unfold State.bindSession
      split <;> rfl
    refine hinv.goOn (hbound.mono (fun _ hx => hheld ▸ hx) (fun _ hx => hseen.symm ▸ hx))
      fun _ id c hid hc => ?_
    obtain rfl := Phase.served.inj hid
    exact hsessions c (hheld ▸ hc)

theorem Inv.finish (hmem : (r, .bound) ∈ s.requests) : Inv (s.finish r) := by
  have hfits := h.requests _ hmem
  unfold State.finish
  split_ifs with hdelete
  · -- the session that is unbound is not held
    have hnot := hfits.deleted (.inl rfl) hdelete.1 hdelete.2
    have hinv : Inv (s.removeSession r.sessionID) := by
      refine ⟨h.held_ne, h.held_seen, fun e he => h.sessions_seen e (mem_of_mem_filter he),
        fun e he => (h.requests e he).mono (fun _ hx => hx) (fun _ hx => hx),
        fun id c hc b hb => h.bound id c hc b (mem_of_mem_filter hb), fun id c hc => ?_, h.uses⟩
      refine (h.binding id c hc).imp_left fun hbound => mem_filter.mpr ⟨hbound, ?_⟩
      have hne : id ≠ r.sessionID := by
        rintro rfl
        exact hnot c hc
      simpa using hne
    exact hinv.leave fun _ hno => by cases hno
  · exact h.leave nofun

theorem Inv.step {capabilityRevision : String} {e : Event} (hsettled : Settled s e)
    (hs : step capabilityRevision s e = some s') : Inv s' := by
  cases e with simp only [Mcp.step] at hs
  | arrive r =>
    cases hs
    exact h.arrive
  | accept r =>
    split_ifs at hs with hmem
    cases hs
    exact h.accept hmem hsettled
  | serve r answer =>
    split_ifs at hs with hmem
    unfold State.serve at hs
    split_ifs at hs with hid
    · exact h.serveNew hmem hid hs
    · exact h.serveSession hmem hid hs
  | bind r answer =>
    split_ifs at hs with hmem
    cases hs
    exact h.bind hmem
  | finish r =>
    split_ifs at hs with hmem
    cases hs
    exact h.finish hmem
  | expire sessionID =>
    cases hs
    exact h.close _

end

theorem Inv.initial : Inv .initial where
  held_ne _ he := absurd he not_mem_nil
  held_seen _ he := absurd he not_mem_nil
  sessions_seen _ he := absurd he not_mem_nil
  requests _ he := absurd he not_mem_nil
  bound _ _ he := absurd he not_mem_nil
  binding _ _ he := absurd he not_mem_nil
  uses _ he := absurd he not_mem_nil

/-- If no request's session is checked while its creator has yet to bind it, every request that
reaches the SDK with a session it holds has the context that created the session. -/
theorem sessions_used_by_creator {capabilityRevision : String}
    (hrun : Run (step capabilityRevision) Settled .initial s) {use : Binding × Binding}
    (huse : use ∈ s.uses) : use.1 = use.2 := by
  have hinv : Inv s := hrun.invariant .initial fun _ _ _ h => h.step
  exact hinv.uses use huse

namespace Sample

def alice : Binding := ⟨"alice", "assistant", "digest", "revision"⟩

def mallory : Binding := ⟨"mallory", "assistant", "other", "revision"⟩

def opening : Request := ⟨.post, "", alice⟩

def call (binding : Binding) : Request := ⟨.post, "S", binding⟩

def bound : List Event :=
  [.arrive opening, .accept opening, .serve opening "S", .bind opening "S",
    .finish opening, .arrive (call alice), .accept (call alice), .serve (call alice) ""]

def overtaking : List Event :=
  [.arrive opening, .accept opening, .serve opening "S", .arrive (call mallory),
    .accept (call mallory), .serve (call mallory) ""]

end Sample

theorem sessions_used_by_creator_bound :
    ∃ s, Run (step "revision") Settled .initial s ∧ ∃ use ∈ s.uses, use.1 = use.2 := by
  refine Run.exists_of_decide (P := fun s => s.uses ≠ []) Sample.bound (by decide +kernel)
    fun s hrun hne => ?_
  obtain ⟨use, huse⟩ := exists_mem_of_ne_nil _ hne
  exact ⟨use, huse, sessions_used_by_creator hrun huse⟩

/-- A request in another context that names the session before it is bound reaches the SDK. -/
theorem session_used_unbound :
    ∃ s, Run (step "revision") (fun _ _ => True) .initial s ∧
      (Sample.alice, Sample.mallory) ∈ s.uses :=
  Run.exists_decide Sample.overtaking (by decide +kernel)

end Scenery.Mcp
