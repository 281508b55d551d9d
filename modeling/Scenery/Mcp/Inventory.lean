import Mathlib.Data.Nat.Notation
import Mathlib.Data.List.Sort
import Mathlib.Tactic.SplitIfs
import Scenery.Outcome
import Scenery.Runs

/-!
# The tool inventory of the MCP gateway

The gateway builds a server when the SDK opens a session: the tools are those of its manifest and
those of the external connections at that time, or an error if a required connection is not ready
or a name collides.
-/

namespace Scenery.Mcp

open List

structure Capability where
  name : String
  title : String
  description : String
  inputSchema : String
  outputSchema : String
  origin : String
  readOnly : Bool
  destructive : Bool
  idempotent : Bool
  openWorld : Bool
  durable : Bool
  deriving DecidableEq

structure Annotations where
  readOnlyHint : Bool
  destructiveHint : Bool
  idempotentHint : Bool
  openWorldHint : Bool
  deriving DecidableEq

structure Tool where
  name : String
  title : String
  description : String
  inputSchema : String
  outputSchema : String
  annotations : Option Annotations
  deriving DecidableEq

def frameworkToolNames : List String :=
  ["scenery_execution_status", "scenery_execution_cancel", "scenery_execution_wait"]

structure Config where
  capabilities : List Capability
  visible : String → Capability → Bool
  durable : Bool
  federated : Bool
  schemaValue : String → String
  frameworkTools : List Tool
  nodup : (capabilities.map Capability.name).Nodup
  named : ∀ c ∈ capabilities, c.name ≠ ""
  unreserved : ∀ c ∈ capabilities, c.name ∉ frameworkToolNames
  framework : frameworkTools.map Tool.name = frameworkToolNames

structure Federation where
  ready : Bool
  capabilities : List Capability
  deriving DecidableEq

inductive FederationError where
  | unavailable
  | collision
  deriving DecidableEq

def validToolName (name : String) : Bool :=
  match name.toList with
  | [] => false
  | c :: rest => ('a' ≤ c ∧ c ≤ 'z') ∧ rest.length ≤ 127 ∧
      rest.all fun c => ('a' ≤ c ∧ c ≤ 'z') ∨ ('0' ≤ c ∧ c ≤ '9') ∨ c = '_'

namespace Config

variable (cfg : Config) (principal : String)

def localNames : List String := cfg.capabilities.map Capability.name ++ frameworkToolNames

def collect : List Capability → List String → Except FederationError (List Capability)
  | [], _ => .ok []
  | c :: rest, seen =>
    if validToolName c.name = false ∨ c.origin ≠ "federated" then .error .collision
    else if c.name ∈ cfg.localNames then .error .collision
    else if c.name ∈ seen then .error .collision
    else (collect rest (c.name :: seen)).map fun visible =>
      if cfg.visible principal c then c :: visible else visible

def federatedCapabilities (f : Federation) : Except FederationError (List Capability) :=
  if cfg.federated = false then .ok []
  else if f.ready = false then .error .unavailable
  else cfg.collect principal (f.capabilities.insertionSort fun c d => c.name ≤ d.name) []

def tool (c : Capability) : Tool :=
  ⟨c.name, c.title, c.description, cfg.schemaValue c.inputSchema, cfg.schemaValue c.outputSchema,
    some ⟨c.readOnly, c.destructive, c.idempotent, c.openWorld⟩⟩

def hasDurableCapability : Bool :=
  cfg.capabilities.any fun c => c.durable && cfg.visible principal c

end Config

structure Server where
  tools : List Tool
  federationErr : Option FederationError
  deriving DecidableEq

def addTool (tools : List Tool) (tool : Tool) : List Tool :=
  (tools.filter fun t => t.name ≠ tool.name) ++ [tool]

def serverFor (cfg : Config) (principal : String) (f : Federation) : Server :=
  let manifestTools := (cfg.capabilities.filter fun c => c.name ≠ "" ∧ cfg.visible principal c).map cfg.tool
  let frameworkTools :=
    if cfg.durable && cfg.hasDurableCapability principal then cfg.frameworkTools else []
  match cfg.federatedCapabilities principal f with
  | .ok remote => ⟨(manifestTools ++ remote.map cfg.tool ++ frameworkTools).foldl addTool [], none⟩
  | .error e => ⟨(manifestTools ++ frameworkTools).foldl addTool [], some e⟩

inductive ListResult where
  | tools (tools : List Tool)
  | refused (e : FederationError)
  deriving DecidableEq

inductive CallResult where
  | handled
  | unknownTool
  | refused (e : FederationError)
  deriving DecidableEq

def Server.list (server : Server) : ListResult :=
  match server.federationErr with
  | some e => .refused e
  | none => .tools server.tools

def Server.call (server : Server) (name : String) : CallResult :=
  match server.federationErr with
  | some e => .refused e
  | none => if name ∈ server.tools.map Tool.name then .handled else .unknownTool

structure Session where
  principal : String
  server : Server
  opened : Federation
  deriving DecidableEq

inductive Answer where
  | list (principal : String) (f : Federation) (result : ListResult)
  | call (principal : String) (f : Federation) (result : CallResult)
  deriving DecidableEq

structure Inventory where
  federation : Federation
  sessions : List Session
  answers : List Answer
  deriving DecidableEq

namespace Inventory

def start (f : Federation) : Inventory := ⟨f, [], []⟩

inductive Event where
  | change (f : Federation)
  | opening (principal : String)
  | list (i : ℕ)
  | call (i : ℕ) (name : String)
  deriving DecidableEq

def step (cfg : Config) (s : Inventory) : Event → Option Inventory
  | .change f => some { s with federation := f }
  | .opening principal =>
    some { s with sessions := s.sessions ++
      [⟨principal, serverFor cfg principal s.federation, s.federation⟩] }
  | .list i => s.sessions[i]?.map fun session =>
    { s with answers := .list session.principal s.federation session.server.list :: s.answers }
  | .call i name => s.sessions[i]?.map fun session =>
    { s with answers := .call session.principal s.federation (session.server.call name) :: s.answers }

def Unchanged (s : Inventory) : Event → Prop
  | .list i => ∀ session ∈ s.sessions[i]?, session.opened = s.federation
  | .call i _ => ∀ session ∈ s.sessions[i]?, session.opened = s.federation
  | _ => True

instance (s : Inventory) (e : Event) : Decidable (Unchanged s e) := by
  unfold Unchanged
  split <;> infer_instance

end Inventory

namespace Config

variable (cfg : Config) (principal : String)

def localTools : List Tool :=
  (cfg.capabilities.filter fun c => cfg.visible principal c).map cfg.tool ++
    if cfg.durable && cfg.hasDurableCapability principal then cfg.frameworkTools else []

def federatedTools (f : Federation) : List Tool :=
  if cfg.federated then (f.capabilities.filter fun c => cfg.visible principal c).map cfg.tool else []

end Config

def Answer.Current (cfg : Config) : Answer → Prop
  | .list principal f result =>
    (∀ tools, result = .tools tools →
      ∀ t, t ∈ tools ↔ t ∈ cfg.localTools principal ∨ t ∈ cfg.federatedTools principal f) ∧
    (cfg.federated = true → f.ready = false → result = .refused .unavailable) ∧
    (f.ready = true → result ≠ .refused .unavailable)
  | .call _ f result =>
    (cfg.federated = true → f.ready = false → result = .refused .unavailable) ∧
    (f.ready = true → result ≠ .refused .unavailable)

/-! ## The server of a federation -/

variable {cfg : Config} {principal : String} {f : Federation}

theorem collect_eq_ok {capabilities visible : List Capability} {seen : List String}
    (h : cfg.collect principal capabilities seen = .ok visible) :
    (capabilities.map Capability.name).Nodup ∧
      (∀ c ∈ capabilities, c.name ∉ cfg.localNames ∧ c.name ∉ seen) ∧
      visible = capabilities.filter fun c => cfg.visible principal c := by
  induction capabilities generalizing seen visible with
  | nil =>
    cases h
    exact ⟨nodup_nil, fun _ hc => absurd hc not_mem_nil, rfl⟩
  | cons c rest ih =>
    unfold Config.collect at h
    split at h
    · cases h
    split at h
    · cases h
    split at h
    · cases h
    rename_i hlocal hseen
    obtain ⟨rest', hrest, rfl⟩ := map_eq_ok.mp h
    obtain ⟨hnodup, hnames, rfl⟩ := ih hrest
    refine ⟨nodup_cons.mpr ⟨fun hmem => ?_, hnodup⟩, fun d hd => ?_, ?_⟩
    · obtain ⟨d, hd, hname⟩ := mem_map.mp hmem
      exact (hnames d hd).2 (hname ▸ mem_cons_self)
    · rcases mem_cons.mp hd with rfl | hd
      · exact ⟨hlocal, hseen⟩
      · exact ⟨(hnames d hd).1, fun hmem => (hnames d hd).2 (mem_cons_of_mem _ hmem)⟩
    · rw [filter_cons]

theorem foldl_addTool (tools added : List Tool) (h : ((tools ++ added).map Tool.name).Nodup) :
    added.foldl addTool tools = tools ++ added := by
  induction added generalizing tools with
  | nil => rw [append_nil, foldl_nil]
  | cons tool added ih =>
    have hother : (tools.filter fun t => t.name ≠ tool.name) = tools := by
      rw [filter_eq_self]
      intro t ht
      rw [map_append, nodup_append] at h
      simpa using h.2.2 t.name (mem_map_of_mem ht) tool.name mem_cons_self
    rw [foldl_cons, addTool, hother, ih, append_assoc, singleton_append]
    rwa [append_assoc, singleton_append]

@[simp] theorem name_tool (c : Capability) : (cfg.tool c).name = c.name := rfl

theorem nodup_manifestTools (p : Capability → Bool) :
    (((cfg.capabilities.filter p).map cfg.tool).map Tool.name).Nodup := by
  rw [map_map]
  exact cfg.nodup.sublist (filter_sublist.map _)

theorem federatedCapabilities_eq_ok {remote : List Capability}
    (h : cfg.federatedCapabilities principal f = .ok remote) :
    (remote.map Capability.name).Nodup ∧ (∀ c ∈ remote, c.name ∉ cfg.localNames) ∧
      ∀ t, t ∈ remote.map cfg.tool ↔ t ∈ cfg.federatedTools principal f := by
  unfold Config.federatedCapabilities at h
  split_ifs at h with hfederated hready
  · cases h
    exact ⟨nodup_nil, fun _ hc => absurd hc not_mem_nil, by simp [Config.federatedTools, hfederated]⟩
  · obtain ⟨hnodup, hnames, rfl⟩ := collect_eq_ok h
    refine ⟨hnodup.sublist (filter_sublist.map _),
      fun c hc => (hnames c (mem_of_mem_filter hc)).1, fun t => ?_⟩
    simp [Config.federatedTools, hfederated]

theorem mem_tools_serverFor {remote : List Capability}
    (h : cfg.federatedCapabilities principal f = .ok remote) (t : Tool) :
    t ∈ (serverFor cfg principal f).tools ↔
      t ∈ cfg.localTools principal ∨ t ∈ cfg.federatedTools principal f := by
  obtain ⟨hnodup, hlocal, htools⟩ := federatedCapabilities_eq_ok h
  have hmanifest : (cfg.capabilities.filter fun c => c.name ≠ "" ∧ cfg.visible principal c) =
      cfg.capabilities.filter fun c => cfg.visible principal c :=
    filter_congr fun c hc => by simp [cfg.named c hc]
  have hdistinct : (((cfg.capabilities.filter fun c => cfg.visible principal c).map cfg.tool ++
      remote.map cfg.tool ++
      if cfg.durable && cfg.hasDurableCapability principal then cfg.frameworkTools else []).map
        Tool.name).Nodup := by
    -- the names of the manifest, of the connections and of the framework are apart
    have hframework : ((if cfg.durable && cfg.hasDurableCapability principal then
        cfg.frameworkTools else []).map Tool.name).Sublist frameworkToolNames := by
      split
      · rw [cfg.framework]
      · exact nil_sublist _
    rw [map_append, map_append, nodup_append, nodup_append]
    refine ⟨⟨nodup_manifestTools _, ?_, ?_⟩, List.Nodup.sublist hframework (by decide), ?_⟩
    · rw [map_map]
      exact hnodup
    · rintro _ ha _ hb rfl
      simp only [map_map, mem_map, Function.comp_apply, name_tool] at ha hb
      obtain ⟨c, hc, rfl⟩ := ha
      obtain ⟨d, hd, hname⟩ := hb
      refine hlocal d hd (mem_append_left _ ?_)
      rw [hname]
      exact mem_map_of_mem (mem_of_mem_filter hc)
    · rintro _ ha _ hb rfl
      have hb := hframework.subset hb
      simp only [map_map, mem_append, mem_map, Function.comp_apply, name_tool] at ha
      rcases ha with ⟨c, hc, rfl⟩ | ⟨c, hc, rfl⟩
      · exact cfg.unreserved c (mem_of_mem_filter hc) hb
      · exact hlocal c hc (mem_append_right _ hb)
  rw [serverFor, h, hmanifest]
  dsimp only
  rw [foldl_addTool _ _ (by rwa [nil_append]), nil_append, mem_append, mem_append, htools,
    Config.localTools, mem_append]
  tauto

theorem federationErr_serverFor (cfg : Config) (principal : String) (f : Federation) :
    (serverFor cfg principal f).federationErr =
      match cfg.federatedCapabilities principal f with
      | .ok _ => none
      | .error e => some e := by
  unfold serverFor
  cases cfg.federatedCapabilities principal f <;> rfl

theorem collect_ne_unavailable {capabilities : List Capability} {seen : List String} :
    cfg.collect principal capabilities seen ≠ .error .unavailable := by
  induction capabilities generalizing seen with
  | nil => exact fun h => by cases h
  | cons c rest ih =>
    intro h
    unfold Config.collect at h
    split at h
    · cases h
    split at h
    · cases h
    split at h
    · cases h
    cases hrest : cfg.collect principal rest (c.name :: seen) with rw [hrest] at h
    | error e =>
      obtain rfl := Except.error.inj h
      exact ih hrest
    | ok rest' =>
      cases h

theorem federationErr_eq_unavailable (cfg : Config) (principal : String) (f : Federation) :
    (serverFor cfg principal f).federationErr = some .unavailable ↔
      cfg.federated = true ∧ f.ready = false := by
  rw [federationErr_serverFor]
  unfold Config.federatedCapabilities
  split_ifs with hfederated hready
  · simp [hfederated]
  · simp [hfederated, hready]
  · refine iff_of_false (fun h => ?_) (fun h => hready h.2)
    split at h
    · cases h
    · rename_i e he
      cases h
      exact collect_ne_unavailable he

/-! ## Runs -/

theorem current_list : Answer.Current cfg (.list principal f (serverFor cfg principal f).list) := by
  have hunavailable := federationErr_eq_unavailable cfg principal f
  have herr := federationErr_serverFor cfg principal f
  unfold Server.list
  cases h : cfg.federatedCapabilities principal f with rw [h] at herr
  | ok remote =>
    rw [herr] at hunavailable ⊢
    refine ⟨fun tools htools => ?_, fun hfederated hready => ?_, nofun⟩
    · obtain rfl := ListResult.tools.inj htools
      exact mem_tools_serverFor h
    · exact absurd (hunavailable.mpr ⟨hfederated, hready⟩) (by simp)
  | error e =>
    rw [herr, Option.some_inj] at hunavailable
    rw [herr]
    refine ⟨nofun, fun hfederated hready => ?_, fun hready hrefused => ?_⟩
    · rw [hunavailable.mpr ⟨hfederated, hready⟩]
    · have hnot := (hunavailable.mp (ListResult.refused.inj hrefused)).2
      rw [hready] at hnot
      cases hnot

theorem current_call (name : String) :
    Answer.Current cfg (.call principal f ((serverFor cfg principal f).call name)) := by
  have hunavailable := federationErr_eq_unavailable cfg principal f
  unfold Server.call
  cases herr : (serverFor cfg principal f).federationErr with
  | none =>
    rw [herr] at hunavailable
    refine ⟨fun hfederated hready => ?_, fun _ hno => ?_⟩
    · exact absurd (hunavailable.mpr ⟨hfederated, hready⟩) (by simp)
    · dsimp only at hno
      split at hno <;> cases hno
  | some e =>
    rw [herr, Option.some_inj] at hunavailable
    refine ⟨fun hfederated hready => ?_, fun hready hrefused => ?_⟩
    · rw [hunavailable.mpr ⟨hfederated, hready⟩]
    · have hnot := (hunavailable.mp (CallResult.refused.inj hrefused)).2
      rw [hready] at hnot
      cases hnot

namespace Inventory

variable {s s' : Inventory}

/-- Every session has the server that its principal had when it was opened. -/
structure Inv (cfg : Config) (s : Inventory) : Prop where
  sessions : ∀ session ∈ s.sessions,
    session.server = serverFor cfg session.principal session.opened
  answers : ∀ answer ∈ s.answers, answer.Current cfg

theorem Inv.answer (h : Inv cfg s) {answer : Answer} (hanswer : answer.Current cfg) :
    Inv cfg { s with answers := answer :: s.answers } where
  sessions := h.sessions
  answers a ha := by
    rcases mem_cons.mp ha with rfl | ha
    · exact hanswer
    · exact h.answers a ha

theorem Inv.step {e : Event} (h : Inv cfg s) (hunchanged : Unchanged s e)
    (hs : step cfg s e = some s') : Inv cfg s' := by
  cases e with
  | change f =>
    cases hs
    exact ⟨h.sessions, h.answers⟩
  | opening principal =>
    cases hs
    refine ⟨fun session hsession => ?_, h.answers⟩
    rcases mem_append.mp hsession with hsession | hsession
    · exact h.sessions session hsession
    · obtain rfl := mem_singleton.mp hsession
      rfl
  | list i =>
    obtain ⟨session, hsession, rfl⟩ := Option.map_eq_some_iff.mp hs
    refine h.answer ?_
    rw [h.sessions session (mem_of_getElem? hsession), ← hunchanged session hsession]
    exact current_list
  | call i name =>
    obtain ⟨session, hsession, rfl⟩ := Option.map_eq_some_iff.mp hs
    refine h.answer ?_
    rw [h.sessions session (mem_of_getElem? hsession), ← hunchanged session hsession]
    exact current_call name

end Inventory

/-- If the federation is at every request as it was when the session was opened, every answer is
current. -/
theorem inventory_current {s : Inventory}
    (hrun : Run (Inventory.step cfg) Inventory.Unchanged (.start f) s) {answer : Answer}
    (hanswer : answer ∈ s.answers) : answer.Current cfg := by
  have hstart : Inventory.Inv cfg (.start f) :=
    ⟨fun _ h => absurd h not_mem_nil, fun _ h => absurd h not_mem_nil⟩
  have hinv : Inventory.Inv cfg s :=
    hrun.invariant hstart fun _ _ _ h => h.step
  exact hinv.answers answer hanswer

namespace Sample

def gateway : Config where
  capabilities := [⟨"local_tool", "", "", "", "", "operation", true, false, true, false, false⟩]
  visible _ _ := true
  durable := false
  federated := true
  schemaValue := id
  frameworkTools := frameworkToolNames.map fun name => ⟨name, "", "", "", "", none⟩
  nodup := by decide
  named := by decide
  unreserved := by decide
  framework := by decide

def remote : Capability :=
  ⟨"remote_tool", "", "", "", "", "federated", true, false, true, false, false⟩

def ready : Federation := ⟨true, [remote]⟩

def lost : Federation := ⟨false, []⟩

end Sample

theorem inventory_current_ready :
    ∃ s, Run (Inventory.step Sample.gateway) Inventory.Unchanged (.start Sample.ready) s ∧
      ∃ answer ∈ s.answers, answer.Current Sample.gateway := by
  refine Run.exists_of_decide (P := fun s => s.answers ≠ [])
    [.opening "alice", .list 0, .call 0 "remote_tool"] (by decide +kernel) fun s hrun hne => ?_
  obtain ⟨answer, hanswer⟩ := exists_mem_of_ne_nil _ hne
  exact ⟨answer, hanswer, inventory_current hrun hanswer⟩

/-- After the connection is lost, the session still lists its tool. -/
theorem inventory_stale :
    ∃ s, Run (Inventory.step Sample.gateway) (fun _ _ => True) (.start Sample.ready) s ∧
      ∃ answer ∈ s.answers, ¬ answer.Current Sample.gateway := by
  refine Run.exists_of_decide (P := fun s => .list "alice" Sample.lost
    (.tools (Sample.gateway.localTools "alice" ++ [Sample.gateway.tool Sample.remote])) ∈ s.answers)
    [.opening "alice", .change Sample.lost, .list 0] (by decide +kernel)
    fun s _ hs => ⟨_, hs, fun hcurrent => ?_⟩
  have hrefused := hcurrent.2.1 rfl rfl
  cases hrefused

end Scenery.Mcp
