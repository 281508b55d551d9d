import Scenery.Mcp.Inventory

/-!
# Remote tools

`internal/mcpfederation/federation.go`: a remote tool is published under the namespace of its
connection, and one name that occurs twice suppresses the whole snapshot.
-/

namespace Scenery.Mcp.Remote

open List

structure Connection where
  address : String
  nameSpace : String
  required : Bool
  allow : List String
  block : List String

structure RawTool where
  name : String
  schemas : Bool

structure Tool where
  name : String
  remoteName : String
  connectionAddress : String

inductive Err where
  | invalidConfig
  | toolCollision
  | requiredUnavailable
  | remoteUnavailable
  deriving DecidableEq

def allowed (name : String) (allow block : List String) : Bool :=
  if allow ≠ [] then name ∈ allow else name ∉ block

namespace Connection

variable (c : Connection)

def published (name : String) : String := c.nameSpace ++ "__" ++ name

def tool (name : String) : Tool := ⟨c.published name, name, c.address⟩

def project (seen : List String) : List (Option RawTool) → Except Err (List Tool)
  | [] => .ok []
  | none :: _ => .error .invalidConfig
  | some raw :: rest =>
    if validToolName raw.name = false then .error .invalidConfig
    else if allowed raw.name c.allow c.block = false then project seen rest
    else if validToolName (c.published raw.name) = false then .error .toolCollision
    else if c.published raw.name ∈ seen then .error .toolCollision
    else if raw.schemas = false then .error .invalidConfig
    else (project (c.published raw.name :: seen) rest).map (c.tool raw.name :: ·)

def projectTools (remote : List (Option RawTool)) : Except Err (List Tool) :=
  (c.project [] remote).map (List.insertionSort fun a b => a.name ≤ b.name)

def refresh (listing : Except Err (List (Option RawTool))) : Except Err (List Tool) :=
  listing >>= c.projectTools

end Connection

structure Config where
  localToolNames : List String
  connections : List Connection

structure Snapshot where
  tools : List Tool
  ready : Bool
  requiredUnavailable : List String

def collides (bound : List String) : List Tool → Bool
  | [] => false
  | tool :: rest => tool.name ∈ bound || collides (tool.name :: bound) rest

namespace Config

variable (cfg : Config) (listing : Connection → Except Err (List (Option RawTool)))

def all : List Tool :=
  (cfg.connections.flatMap fun c => (c.refresh (listing c)).toOption.getD []).insertionSort
    fun a b => a.name ≤ b.name

/-- `Refresh` of an open federation that is not cancelled: the snapshot it publishes and its
error. -/
def refresh : Option Snapshot × Option Err :=
  let unavailable := ((cfg.connections.filter fun c =>
    c.required && !(c.refresh (listing c)).isOk).map Connection.address).insertionSort (· ≤ ·)
  if collides cfg.localToolNames (cfg.all listing) then (none, some .toolCollision)
  else (some ⟨cfg.all listing, unavailable = [], unavailable⟩,
    if unavailable = [] then none else some .requiredUnavailable)

end Config

variable {cfg : Config} {c d : Connection} {name name' : String} {remote : List (Option RawTool)}
  {tools : List Tool} {listing : Connection → Except Err (List (Option RawTool))}

/-- The connection publishes a tool of this name if its server has one. -/
def Connection.Offers (c : Connection) (name : String) : Prop :=
  validToolName name = true ∧ allowed name c.allow c.block = true ∧
    validToolName (c.published name) = true

/-- Where a namespace is another one, the separator and more, no name that its connection offers is
also offered by the other one, with what is more and the separator before it. -/
def Config.Separated (cfg : Config) : Prop :=
  ∀ c ∈ cfg.connections, ∀ d ∈ cfg.connections, ∀ rest name, d.nameSpace = c.published rest →
    d.Offers name → ¬ c.Offers (rest ++ "__" ++ name)

theorem toList_published (c : Connection) (name : String) :
    (c.published name).toList = c.nameSpace.toList ++ '_' :: '_' :: name.toList := by
  simp [Connection.published]

theorem not_underscore {rest : List Char} (h : validToolName name = true) :
    name.toList ≠ '_' :: rest := by
  intro heq
  rw [validToolName, heq] at h
  exact absurd (of_decide_eq_true h).1 (by decide)

/-- If two namespaces give one name, the longer one starts with the shorter and the separator. -/
theorem nameSpace_of_append {part : List Char} (hname : validToolName name = true)
    (hpart : d.nameSpace.toList = c.nameSpace.toList ++ part)
    (h : '_' :: '_' :: name.toList = part ++ '_' :: '_' :: name'.toList) :
    c.nameSpace = d.nameSpace ∨
      ∃ rest, d.nameSpace = c.published rest ∧ name = rest ++ "__" ++ name' := by
  match part with
  | [] =>
    rw [append_nil, String.toList_inj] at hpart
    exact .inl hpart.symm
  | [x] => exact absurd (List.cons.inj (List.cons.inj h).2).2 (not_underscore hname)
  | x :: y :: part =>
    simp only [cons_append, List.cons.injEq] at h
    obtain ⟨rfl, rfl, h⟩ := h
    refine .inr ⟨String.ofList part, ?_, ?_⟩
    · rw [← String.toList_inj, toList_published, hpart, String.toList_ofList]
    · rw [← String.toList_inj, h]
      simp

theorem published_inj (hsep : cfg.Separated) (hc : c ∈ cfg.connections) (hd : d ∈ cfg.connections)
    (hname : c.Offers name) (hname' : d.Offers name')
    (h : c.published name = d.published name') : c.nameSpace = d.nameSpace := by
  have hlist := congrArg String.toList h
  rw [toList_published, toList_published] at hlist
  rcases append_eq_append_iff.mp hlist with ⟨part, hpart, hrest⟩ | ⟨part, hpart, hrest⟩
  · refine (nameSpace_of_append hname.1 hpart hrest).resolve_right ?_
    rintro ⟨rest, heq, rfl⟩
    exact hsep c hc d hd rest _ heq hname' hname
  · refine ((nameSpace_of_append hname'.1 hpart hrest).resolve_right ?_).symm
    rintro ⟨rest, heq, rfl⟩
    exact hsep d hd c hc rest _ heq hname hname'

/-! ## The tools of a refresh -/

structure Named (c : Connection) (seen : List String) (tools : List Tool) : Prop where
  tool : ∀ t ∈ tools, t.name ∉ seen ∧ ∃ name, c.Offers name ∧ t = c.tool name
  distinct : (tools.map Tool.name).Nodup

theorem project_eq_ok {seen : List String} (h : c.project seen remote = .ok tools) :
    Named c seen tools ∧ ∀ raw, some raw ∈ remote → allowed raw.name c.allow c.block = true →
      c.tool raw.name ∈ tools := by
  induction remote generalizing seen tools with
  | nil =>
    cases h
    exact ⟨⟨nofun, .nil⟩, nofun⟩
  | cons raw rest ih =>
    cases raw with
    | none => cases h
    | some raw =>
      simp only [Connection.project] at h
      split_ifs at h with hvalid hallowed hpublished hseen _
      · obtain ⟨hnamed, hall⟩ := ih h
        refine ⟨hnamed, fun raw' hraw' hok => ?_⟩
        rcases mem_cons.mp hraw' with heq | hmem
        · cases heq
          rw [hallowed] at hok
          cases hok
        · exact hall raw' hmem hok
      · obtain ⟨tools, hrest, rfl⟩ := map_eq_ok.mp h
        obtain ⟨hnamed, hall⟩ := ih hrest
        refine ⟨⟨fun t ht => ?_, nodup_cons.mpr ⟨fun hmem => ?_, hnamed.distinct⟩⟩, ?_⟩
        · rcases mem_cons.mp ht with rfl | ht
          · exact ⟨hseen, raw.name, by simp_all [Connection.Offers], rfl⟩
          · exact (hnamed.tool t ht).imp_left fun h hmem => h (mem_cons_of_mem _ hmem)
        · obtain ⟨t, ht, heq⟩ := mem_map.mp hmem
          exact (hnamed.tool t ht).1 (heq ▸ mem_cons_self)
        · intro raw' hraw' hok
          rcases mem_cons.mp hraw' with heq | hmem
          · cases heq
            exact mem_cons_self
          · exact mem_cons_of_mem _ (hall raw' hmem hok)

theorem projectTools_eq_ok (h : c.projectTools remote = .ok tools) :
    Named c [] tools ∧ ∀ raw, some raw ∈ remote → allowed raw.name c.allow c.block = true →
      c.tool raw.name ∈ tools := by
  obtain ⟨unsorted, hproject, rfl⟩ := map_eq_ok.mp h
  obtain ⟨hnamed, hall⟩ := project_eq_ok hproject
  simp only [mem_insertionSort]
  refine ⟨⟨fun t ht => hnamed.tool t ((mem_insertionSort _).mp ht), ?_⟩, hall⟩
  exact ((perm_insertionSort _ _).map _).nodup_iff.mpr hnamed.distinct

theorem named_refresh (c : Connection) :
    Named c [] ((c.refresh (listing c)).toOption.getD []) := by
  cases h : c.refresh (listing c) with
  | error e => exact ⟨nofun, .nil⟩
  | ok tools =>
    obtain ⟨remote, -, hproject⟩ := bind_eq_ok.mp h
    exact (projectTools_eq_ok hproject).1

theorem collides_eq_false {bound : List String} (hne : (tools.map Tool.name).Nodup)
    (hbound : ∀ t ∈ tools, t.name ∉ bound) : collides bound tools = false := by
  induction tools generalizing bound with
  | nil => rfl
  | cons t rest ih =>
    obtain ⟨ht, hrest⟩ := nodup_cons.mp hne
    obtain ⟨hfree, hothers⟩ := forall_mem_cons.mp hbound
    rw [collides, decide_eq_false hfree, Bool.false_or]
    refine ih hrest fun u hu hmem => ?_
    rcases mem_cons.mp hmem with heq | hmem
    · exact ht (heq ▸ mem_map_of_mem hu)
    · exact hothers u hu hmem

theorem mem_all {t : Tool} : t ∈ cfg.all listing ↔
    ∃ c ∈ cfg.connections, t ∈ (c.refresh (listing c)).toOption.getD [] := by
  simp [Config.all, mem_insertionSort]

theorem nodup_all (hdistinct : cfg.connections.Pairwise fun c d => c.nameSpace ≠ d.nameSpace)
    (hsep : cfg.Separated) (listing : Connection → Except Err (List (Option RawTool))) :
    ((cfg.all listing).map Tool.name).Nodup := by
  rw [Config.all, ((perm_insertionSort _ _).map _).nodup_iff, map_flatMap, nodup_flatMap]
  refine ⟨fun c _ => (named_refresh c).distinct, hdistinct.imp_of_mem ?_⟩
  intro c d hc hd hns published hpublished hpublished'
  obtain ⟨t, ht, rfl⟩ := mem_map.mp hpublished
  obtain ⟨u, hu, heq⟩ := mem_map.mp hpublished'
  obtain ⟨-, name, hname, rfl⟩ := (named_refresh c).tool t ht
  obtain ⟨-, name', hname', rfl⟩ := (named_refresh d).tool u hu
  exact hns (published_inj hsep hc hd hname hname' heq.symm)

theorem projectTools_one (h : c.Offers name) :
    c.projectTools [some ⟨name, true⟩] = .ok [c.tool name] := by
  simp [Connection.projectTools, Connection.project, h.1, h.2.1, h.2.2, Except.map]

/-- The refresh publishes all allowed tools of the connections that could be refreshed, and the name
of a published tool determines the tool. -/
def Config.Publishes (cfg : Config) (listing : Connection → Except Err (List (Option RawTool))) :
    Prop :=
  (cfg.refresh listing).2 ≠ some .toolCollision ∧
    ∃ snapshot, (cfg.refresh listing).1 = some snapshot ∧
      (∀ t ∈ snapshot.tools, ∀ u ∈ snapshot.tools, t.name = u.name → t = u) ∧
      ∀ c ∈ cfg.connections, ∀ remote tools, listing c = .ok remote →
        c.projectTools remote = .ok tools →
        ∀ raw, some raw ∈ remote → allowed raw.name c.allow c.block = true →
          c.tool raw.name ∈ snapshot.tools

/-- Two servers with one tool each, whose names are published as one. -/
theorem separated_of_publishes (h : ∀ listing, cfg.Publishes listing) : cfg.Separated := by
  intro c hc d hd rest name hns hoffer hoffer'
  have hlong : c.nameSpace ≠ d.nameSpace := by
    intro heq
    have hlength := congrArg String.length (heq.trans hns)
    have hsep : "__".length = 2 := rfl
    simp only [Connection.published, String.length_append] at hlength
    omega
  obtain ⟨-, snapshot, -, hname, hall⟩ := h fun e =>
    .ok [some ⟨if e.nameSpace = c.nameSpace then rest ++ "__" ++ name else name, true⟩]
  have hmem := hall c hc _ _ (by simp) (projectTools_one hoffer') _
    mem_cons_self hoffer'.2.1
  have hmem' := hall d hd _ _ (by simp [hlong.symm]) (projectTools_one hoffer) _
    mem_cons_self hoffer.2.1
  have hsame := hname _ hmem _ hmem' (by simp [Connection.tool, Connection.published, hns,
    String.append_assoc])
  have hlength : (rest ++ "__" ++ name).length = name.length :=
    congrArg (String.length ∘ Tool.remoteName) hsame
  have hsep : "__".length = 2 := rfl
  simp only [String.length_append] at hlength
  omega

/-- **When no server takes down the others**, whatever tools the servers have. -/
theorem refresh_publishes_iff
    (hdistinct : cfg.connections.Pairwise fun c d => c.nameSpace ≠ d.nameSpace)
    (hlocal : ∀ name ∈ cfg.localToolNames, ∀ c ∈ cfg.connections, ∀ w, name ≠ c.published w) :
    (∀ listing, cfg.Publishes listing) ↔ cfg.Separated := by
  refine ⟨separated_of_publishes, fun hsep listing => ?_⟩
  have hne := nodup_all hdistinct hsep listing
  have hfree : collides cfg.localToolNames (cfg.all listing) = false := by
    refine collides_eq_false hne fun t ht hmem => ?_
    obtain ⟨c, hc, ht⟩ := mem_all.mp ht
    obtain ⟨-, name, -, rfl⟩ := (named_refresh c).tool t ht
    exact hlocal _ hmem c hc name rfl
  simp only [Config.Publishes, Config.refresh, hfree, Bool.false_eq_true, if_false]
  refine ⟨by split <;> simp, _, rfl, fun t ht u hu => inj_on_of_nodup_map hne ht hu, ?_⟩
  intro c hc remote tools hlist hproject raw hraw hok
  refine mem_all.mpr ⟨c, hc, ?_⟩
  rw [show c.refresh (listing c) = .ok tools from bind_eq_ok.mpr ⟨remote, hlist, hproject⟩]
  exact (projectTools_eq_ok hproject).2 raw hraw hok

/-- Two servers, the namespace of one of which no tool of the other can continue. -/
theorem refresh_publishes_docs : let cfg : Config := ⟨[], [⟨"mcp/a", "docs", true, [], []⟩,
      ⟨"mcp/b", "docs__2", false, [], []⟩]⟩
    cfg.Separated ∧ ∀ listing, cfg.Publishes listing := by
  intro cfg
  have hsep : cfg.Separated := by
    intro c hc d hd rest name hns hoffer hoffer'
    have hvalid := hoffer'.1
    simp only [cfg, mem_cons, not_mem_nil, or_false] at hc hd
    rcases hc with rfl | rfl <;> rcases hd with rfl | rfl <;>
      simp [← String.toList_inj, toList_published] at hns
    simp [validToolName, ← hns] at hvalid
  exact ⟨hsep, (refresh_publishes_iff (by decide) fun _ h => by cases h).mpr hsep⟩

/-- The tool `c` of the optional server `a__b` has the name of the tool `b__c` of `a`. -/
theorem optional_server_collides :
    (Config.refresh ⟨[], [⟨"mcp/a", "a", true, [], []⟩, ⟨"mcp/b", "a__b", false, [], []⟩]⟩
      fun c => .ok [some ⟨if c.required then "b__c" else "c", true⟩]).2 = some .toolCollision := by
  decide +kernel

end Scenery.Mcp.Remote
