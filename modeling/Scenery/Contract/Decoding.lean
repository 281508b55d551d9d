import Scenery.Json

/-!
# Absence, null and value on decode

`UnmarshalContractValue` decodes a JSON value as a type expression directs, into a target of the
Go type that is generated for the expression.
-/

namespace Scenery.Contract

/-! ## Types and targets -/

inductive TextScalar where
  | int64 | uint64 | int | decimal | uuid | date | datetime | duration | size | url
  | relativePath | hostPath

inductive Scalar where
  | string | bool | int32 | uint32 | float32 | float64 | bytes
  | text (s : TextScalar)

mutual

inductive WireType where
  | unit
  | optional (t : WireType)
  | nullable (t : WireType)
  | slice (set : Bool) (t : WireType)
  | map (t : WireType)
  | tuple (items : ItemTypes)
  | json
  | scalar (s : Scalar)
  | named (name : String)

inductive ItemTypes where
  | last (t : WireType)
  | cons (t : WireType) (items : ItemTypes)

end

def ItemTypes.length : ItemTypes → ℕ
  | .last _ => 1
  | .cons _ items => items.length + 1

def Scalar.Value : Scalar → Type
  | .bool => Bool
  | .bytes => Option (List UInt8)
  | _ => List Char

def Scalar.zero : (s : Scalar) → s.Value
  | .bool => false
  | .bytes => none
  | .string | .int32 | .uint32 | .float32 | .float64 | .text _ => []

section

variable (Named : String → Type)

mutual

def Target : WireType → Type
  | .unit => Unit
  | .optional t => Bool × Target t
  | .nullable t => Bool × Target t
  | .slice _ t => Option (List (Target t))
  | .map t => Option (List (List Char × Target t))
  | .tuple items => Targets items
  | .json => Option Json
  | .scalar s => s.Value
  | .named name => Named name

def Targets : ItemTypes → Type
  | .last t => Target t
  | .cons t items => Target t × Targets items

end

inductive DecodeError where
  | refused (message : String)
  | unit
  | decode (constructor : String) (cause : DecodeError)
  | item (index : ℕ) (cause : DecodeError)
  | member (key : List Char) (cause : DecodeError)
  | duplicate
  | arity (required received : ℕ)
  | text (s : Scalar) (cause : DecodeError)
  | invalid (s : Scalar)
  | base64

structure Codec where
  canonicalize : Json → Option String
  canonicalize_null : canonicalize .null = none
  mismatch : Json → String
  read : Scalar → List Char → Option (List Char)
  read_nil : ∀ s, read s [] = none
  /-- a byte slice, as `encoding/json` reads it from a string or an array -/
  bytes : Json → Option (List UInt8)
  base64 : List Char → Bool
  base64_nil : base64 [] = true
  marshal : (t : WireType) → Target Named t → Except DecodeError (List Char)
  zeroNamed : (name : String) → Named name
  unmarshalNamed : (name : String) → Json → Named name → Option DecodeError × Named name

end

def WireType.present : WireType → WireType
  | .optional t => t.present
  | t => t

def WireType.plain : WireType → Bool
  | .optional t => t.plain
  | .nullable _ | .json | .named _ => false
  | _ => true

def Scalar.refusesNull : Scalar → Bool
  | .float32 | .float64 | .text _ => true
  | _ => false

def WireType.refusesNull : WireType → Bool
  | .unit | .tuple _ => true
  | .scalar s => s.refusesNull
  | _ => false

/-! ## The decoder -/

namespace Codec

variable {Named : String → Type} (L : Codec Named)

mutual

def zero : (t : WireType) → Target Named t
  | .unit => ()
  | .optional t => (false, zero t)
  | .nullable t => (false, zero t)
  | .slice _ _ => none
  | .map _ => none
  | .tuple items => zeros items
  | .json => none
  | .scalar s => s.zero
  | .named name => L.zeroNamed name

def zeros : (items : ItemTypes) → Targets Named items
  | .last t => zero t
  | .cons t items => (zero t, zeros items)

end

/-- `decodeStrictContractJSON` into a variable with this value, which `null` leaves as it is. -/
def decodeStrict {α : Type} (read : Json → Option α) (value : α) (doc : Json) :
    Except DecodeError α :=
  match L.canonicalize doc, doc, read doc with
  | some message, _, _ => .error (.refused message)
  | none, .null, _ => .ok value
  | none, _, some a => .ok a
  | none, _, none => .error (.refused (L.mismatch doc))

def unmarshal {α : Type} (read : Json → Option α) (doc : Json) (target : α) :
    Option DecodeError × α :=
  match L.decodeStrict read target doc with
  | .error e => (some e, target)
  | .ok value => (none, value)

def readText : Json → Option (List Char)
  | .string s => some s
  | _ => none

def readBool : Json → Option Bool
  | .bool b => some b
  | _ => none

def readNumber (s : Scalar) : Json → Option (List Char)
  | .number text => L.read s text
  | _ => none

def readItems : Json → Option (List Json)
  | .array items => some items
  | _ => none

def readMembers : Json → Option (List Json.Member)
  | .object members => some members
  | _ => none

def unmarshalText (s : Scalar) (doc : Json) (target : List Char) :
    Option DecodeError × List Char :=
  match L.decodeStrict readText [] doc with
  | .error e => (some (.text s e), target)
  | .ok text =>
    match L.read s text with
    | none => (some (.invalid s), target)
    | some value => (none, value)

def unmarshalFloat (s : Scalar) (doc : Json) (target : List Char) :
    Option DecodeError × List Char :=
  match L.readNumber s doc with
  | none => (some (.invalid s), target)
  | some value => (none, value)

def unmarshalBytes (doc : Json) (target : Option (List UInt8)) :
    Option DecodeError × Option (List UInt8) :=
  match L.decodeStrict (fun doc => (L.bytes doc).map some) none doc with
  | .error e => (some e, target)
  | .ok value =>
    match L.decodeStrict readText [] doc with
    | .error e => (some e, value)
    | .ok text => (if L.base64 text then none else some .base64, value)

def unmarshalScalar : (s : Scalar) → Json → s.Value → Option DecodeError × s.Value
  | .string => L.unmarshal readText
  | .bool => L.unmarshal readBool
  | .int32 => L.unmarshal (L.readNumber .int32)
  | .uint32 => L.unmarshal (L.readNumber .uint32)
  | .float32 => L.unmarshalFloat .float32
  | .float64 => L.unmarshalFloat .float64
  | .bytes => L.unmarshalBytes
  | .text s => L.unmarshalText (.text s)

def unmarshalUnit (doc : Json) : Option DecodeError :=
  match L.canonicalize doc, doc with
  | none, .object [] => none
  | _, _ => some .unit

section Containers

variable {α γ : Type}

def element (label : DecodeError → DecodeError) : Option DecodeError × α → Except DecodeError α
  | (some e, _) => .error (label e)
  | (none, value) => .ok value

def decodeAll (decode : ℕ → γ → Except DecodeError α)
    (key : Option (α → Except DecodeError (List Char))) :
    List γ → ℕ → List (List Char) → Except DecodeError (List α)
  | [], _, _ => .ok []
  | doc :: docs, index, seen => do
    let value ← decode index doc
    let seen ← match key with
      | none => pure seen
      | some key => do
        let k ← key value
        if k ∈ seen then .error .duplicate else pure (k :: seen)
    return value :: (← decodeAll decode key docs (index + 1) seen)

def replace (constructor : String) (read : Json → Option (List γ))
    (decode : List γ → Except DecodeError α) (doc : Json) (target : Option α) :
    Option DecodeError × Option α :=
  match L.decodeStrict read [] doc with
  | .error e => (some (.decode constructor e), target)
  | .ok docs =>
    match decode docs with
    | .error e => (some e, target)
    | .ok value => (none, some value)

def unmarshalTuple (required : ℕ) (decode : List Json → α → Option DecodeError × α) (doc : Json)
    (target : α) : Option DecodeError × α :=
  match L.decodeStrict readItems [] doc with
  | .error e => (some (.decode "tuple" e), target)
  | .ok docs =>
    if docs.length = required then decode docs target
    else (some (.arity required docs.length), target)

end Containers

mutual

/-- `unmarshalContractReflect`: the error, if there is one, and the target after the call. -/
def unmarshalContract : (t : WireType) → Json → Target Named t → Option DecodeError × Target Named t
  | .unit, doc, _ => (L.unmarshalUnit doc, ())
  | .optional t, doc, target =>
    let (e, value) := unmarshalContract t doc target.2
    (e, (true, value))
  | .nullable t, doc, target =>
    match doc with
    | .null => (none, (true, L.zero t))
    | doc =>
      let (e, value) := unmarshalContract t doc target.2
      (e, (false, value))
  | .slice set t, doc, target =>
    L.replace (if set then "set" else "list") readItems
      (fun docs => decodeAll
        (fun index doc => element (.item index) (unmarshalContract t doc (L.zero t)))
        (if set then some (L.marshal t) else none) docs 0 []) doc target
  | .map t, doc, target =>
    L.replace "map" readMembers
      (fun members => decodeAll
        (fun _ m => (element (.member m.1) (unmarshalContract t m.2 (L.zero t))).map (m.1, ·))
        none members 0 []) doc target
  | .tuple items, doc, target =>
    L.unmarshalTuple items.length (fun docs target => unmarshalItems items docs 0 target) doc target
  | .json, doc, target =>
    match L.canonicalize doc with
    | some message => (some (.refused message), target)
    | none => (none, some doc)
  | .scalar s, doc, target => L.unmarshalScalar s doc target
  | .named name, doc, target =>
    match L.canonicalize doc with
    | some message => (some (.refused message), target)
    | none => L.unmarshalNamed name doc target

def unmarshalItems : (items : ItemTypes) → List Json → ℕ → Targets Named items →
    Option DecodeError × Targets Named items
  | .last t, docs, index, target =>
    match docs with
    | doc :: _ =>
      let (e, value) := unmarshalContract t doc target
      (e.map (.item index), value)
    -- not reached: there are as many documents as types
    | [] => (none, target)
  | .cons t items, docs, index, target =>
    match docs with
    | doc :: docs =>
      match unmarshalContract t doc target.1 with
      | (some e, value) => (some (.item index e), (value, target.2))
      | (none, value) =>
        let (e, values) := unmarshalItems items docs (index + 1) target.2
        (e, (value, values))
    | [] => (none, target)

end

/-! ## Null -/

variable {α : Type}

theorem decodeStrict_null (read : Json → Option α) (value : α) :
    L.decodeStrict read value .null = .ok value := by
  simp [decodeStrict, L.canonicalize_null]

theorem decodeStrict_cases {read : Json → Option α} {a : α} {doc : Json}
    (hnull : read .null = none) (h : read doc = some a) (value : α) :
    L.decodeStrict read value doc = .ok a ∨ ∃ e, L.decodeStrict read value doc = .error e := by
  unfold decodeStrict
  rw [h]
  cases L.canonicalize doc with
  | some message => exact .inr ⟨_, rfl⟩
  | none =>
    cases doc with
    | null => cases hnull.symm.trans h
    | _ => exact .inl rfl

theorem unmarshal_null (read : Json → Option α) (target : α) :
    L.unmarshal read .null target = (none, target) := by
  simp [unmarshal, decodeStrict_null]

theorem unmarshalText_null (s : Scalar) (target : List Char) :
    L.unmarshalText s .null target = (some (.invalid s), target) := by
  simp [unmarshalText, decodeStrict_null, L.read_nil]

theorem unmarshalBytes_null (target : Option (List UInt8)) :
    L.unmarshalBytes .null target = (none, none) := by
  simp [unmarshalBytes, decodeStrict_null, L.base64_nil]

theorem unmarshalScalar_null (s : Scalar) (target : s.Value) :
    (L.unmarshalScalar s .null target).1.isSome = s.refusesNull ∧
      (s.refusesNull = true → (L.unmarshalScalar s .null target).2 = target) := by
  cases s with
  | string | bool | int32 | uint32 =>
    exact ⟨congrArg (fun r => r.1.isSome) (L.unmarshal_null _ target), fun h => by cases h⟩
  | float32 | float64 => exact ⟨rfl, fun _ => rfl⟩
  | bytes =>
    exact ⟨congrArg (fun r => r.1.isSome) (L.unmarshalBytes_null target), fun h => by cases h⟩
  | text s =>
    have hnull := L.unmarshalText_null (.text s) target
    exact ⟨congrArg (fun r => r.1.isSome) hnull, fun _ => congrArg Prod.snd hnull⟩

section Containers

variable {α γ : Type} {doc : Json}

theorem decodeAll_error {decode : ℕ → γ → Except DecodeError α} {x : γ}
    (h : ∀ index, ∃ e, decode index x = .error e)
    (key : Option (α → Except DecodeError (List Char))) {xs : List γ} (hmem : x ∈ xs) :
    ∀ index seen, ∃ e, decodeAll decode key xs index seen = .error e := by
  induction xs with
  | nil => cases hmem
  | cons y xs ih =>
    intro index seen
    rw [decodeAll]
    cases hy : decode index y with
    | error e => exact ⟨e, rfl⟩
    | ok value =>
      have hmem : x ∈ xs := by
        refine (List.mem_cons.mp hmem).resolve_left fun heq => ?_
        obtain ⟨e, he⟩ := h index
        rw [heq, hy] at he
        cases he
      cases key with
      | none =>
        obtain ⟨e, he⟩ := ih hmem (index + 1) seen
        exact ⟨e, by simp [he, bind, Except.bind, pure, Except.pure]⟩
      | some key =>
        cases hk : key value with
        | error e => exact ⟨e, by simp [hk, bind, Except.bind]⟩
        | ok k =>
          by_cases hseen : k ∈ seen
          · exact ⟨_, by simp [hk, hseen, bind, Except.bind]; rfl⟩
          · obtain ⟨e, he⟩ := ih hmem (index + 1) (k :: seen)
            exact ⟨e, by simp [hk, hseen, he, bind, Except.bind, pure, Except.pure]⟩

theorem element_error {r : Option DecodeError × α} (h : r.1.isSome = true)
    (label : DecodeError → DecodeError) : ∃ e, element label r = .error e := by
  obtain ⟨_ | e, value⟩ := r
  · cases h
  · exact ⟨_, rfl⟩

theorem replace_error {constructor : String} {read : Json → Option (List γ)}
    {decode : List γ → Except DecodeError α} {docs : List γ} {target : Option α}
    (hnull : read .null = none) (hread : read doc = some docs) (h : ∃ e, decode docs = .error e)
    (Q : Prop) :
    (L.replace constructor read decode doc target).1.isSome = true ∧
      (Q → target = (L.replace constructor read decode doc target).2) := by
  obtain ⟨e, he⟩ := h
  unfold replace
  rcases L.decodeStrict_cases hnull hread [] with hok | ⟨e', herror⟩
  · simp [hok, he]
  · simp [herror]

theorem unmarshalTuple_array {required : ℕ} {decode : List Json → α → Option DecodeError × α}
    {docs : List Json} {target : α} {P : Option DecodeError × α → Prop}
    (herror : ∀ e, P (some e, target)) (hok : P (decode docs target)) :
    P (L.unmarshalTuple required decode (.array docs) target) := by
  have hread : readItems (.array docs) = some docs := rfl
  unfold unmarshalTuple
  rcases L.decodeStrict_cases rfl hread [] with hdocs | ⟨e, hdocs⟩
  · rw [hdocs]
    dsimp only
    split_ifs
    · exact hok
    · exact herror _
  · rw [hdocs]
    exact herror _

theorem unmarshalTuple_null {required : ℕ} (h : 0 ≠ required)
    (decode : List Json → α → Option DecodeError × α) (target : α) :
    L.unmarshalTuple required decode .null target = (some (.arity required 0), target) := by
  simp [unmarshalTuple, decodeStrict_null, h]

end Containers

theorem unmarshalContract_null : ∀ (t : WireType) (target : Target Named t), t.plain = true →
    (L.unmarshalContract t .null target).1.isSome = t.present.refusesNull ∧
      (t.refusesNull = true → (L.unmarshalContract t .null target).2 = target)
  | .unit, _, _ => ⟨by simp [unmarshalContract, unmarshalUnit, WireType.present,
      WireType.refusesNull], fun _ => rfl⟩
  | .optional t, target, h => ⟨(unmarshalContract_null t target.2 h).1, nofun⟩
  | .slice set t, target, _ => by
    simp [unmarshalContract, replace, decodeStrict_null, decodeAll, WireType.present,
      WireType.refusesNull]
  | .map t, target, _ => by
    simp [unmarshalContract, replace, decodeStrict_null, decodeAll, WireType.present,
      WireType.refusesNull]
  | .tuple items, target, _ => by
    have hlen : 0 ≠ items.length := by
      cases items <;> simp [ItemTypes.length]
    have hnull := L.unmarshalTuple_null hlen (fun docs => L.unmarshalItems items docs 0)
      target
    exact ⟨congrArg (fun r => r.1.isSome) hnull, fun _ => congrArg Prod.snd hnull⟩
  | .scalar s, target, _ => L.unmarshalScalar_null s target

end Codec

section Positions

variable {Named : String → Type}

mutual

/-- In this document of type `u` a value of type `t` is `null`, as the whole document or as an
item of a list, a set or a tuple or a member of a map, at any depth and below any `optional` and
`nullable`. The relation says of a target before and after that the value there is as it was:
lists, sets and maps are replaced as a whole, the items of a tuple one by one. -/
inductive NullAt (t : WireType) : (u : WireType) → Json →
    (Target Named u → Target Named u → Prop) → Prop where
  | here : NullAt t t .null Eq
  | optional {u doc kept} (h : NullAt t u doc kept) :
    NullAt t (.optional u) doc fun a b => kept a.2 b.2
  | nullable {u doc kept} (hdoc : doc ≠ .null) (h : NullAt t u doc kept) :
    NullAt t (.nullable u) doc fun a b => kept a.2 b.2
  | item {set u doc kept docs} (h : NullAt t u doc kept) (hmem : doc ∈ docs) :
    NullAt t (.slice set u) (.array docs) Eq
  | member {u doc kept key members} (h : NullAt t u doc kept) (hmem : (key, doc) ∈ members) :
    NullAt t (.map u) (.object members) Eq
  | tuple {items docs kept} (h : NullIn t items docs kept) :
    NullAt t (.tuple items) (.array docs) kept

inductive NullIn (t : WireType) : (items : ItemTypes) → List Json →
    (Targets Named items → Targets Named items → Prop) → Prop where
  | last {u doc kept docs} (h : NullAt t u doc kept) : NullIn t (.last u) (doc :: docs) kept
  | head {u items doc kept docs} (h : NullAt t u doc kept) :
    NullIn t (.cons u items) (doc :: docs) fun a b => kept a.1 b.1
  | tail {u items doc docs kept} (h : NullIn t items docs kept) :
    NullIn t (.cons u items) (doc :: docs) fun a b => kept a.2 b.2

end

variable {L : Codec Named} {t : WireType}

mutual

theorem NullAt.error (hnull : ∀ target, (L.unmarshalContract t .null target).1.isSome = true) :
    ∀ {u : WireType} {doc : Json} {kept : Target Named u → Target Named u → Prop},
    NullAt t u doc kept → (∀ a, kept a a) ∧ ∀ target,
      (L.unmarshalContract u doc target).1.isSome = true ∧
        ((∀ target, (L.unmarshalContract t .null target).2 = target) →
          kept target (L.unmarshalContract u doc target).2)
  | _, _, _, .here => ⟨fun _ => rfl, fun target => ⟨hnull target, fun h => (h target).symm⟩⟩
  | _, _, _, .optional h => by
    obtain ⟨hrefl, hvalue⟩ := h.error hnull
    exact ⟨fun a => hrefl a.2, fun target => hvalue target.2⟩
  | _, doc, _, .nullable hdoc h => by
    obtain ⟨hrefl, hvalue⟩ := h.error hnull
    refine ⟨fun a => hrefl a.2, fun target => ?_⟩
    cases doc with
    | null => exact absurd rfl hdoc
    | _ => exact hvalue target.2
  | _, _, _, .item h hmem => by
    refine ⟨fun _ => rfl, fun target => L.replace_error rfl rfl ?_ _⟩
    refine Codec.decodeAll_error (fun index => ?_) _ hmem 0 []
    exact Codec.element_error ((h.error hnull).2 _).1 (.item index)
  | _, _, _, .member h hmem => by
    refine ⟨fun _ => rfl, fun target => L.replace_error rfl rfl ?_ _⟩
    refine Codec.decodeAll_error (fun _ => ?_) none hmem 0 []
    obtain ⟨e, he⟩ := Codec.element_error ((h.error hnull).2 _).1 (.member _)
    exact ⟨e, congrArg _ he⟩
  | _, _, kept, .tuple h => by
    obtain ⟨hrefl, hitems⟩ := h.error hnull
    refine ⟨hrefl, fun target => ?_⟩
    exact L.unmarshalTuple_array (P := fun r => r.1.isSome = true ∧ (_ → kept target r.2))
      (fun e => ⟨rfl, fun _ => hrefl target⟩) (hitems 0 target)

theorem NullIn.error (hnull : ∀ target, (L.unmarshalContract t .null target).1.isSome = true) :
    ∀ {items : ItemTypes} {docs : List Json}
    {kept : Targets Named items → Targets Named items → Prop},
    NullIn t items docs kept → (∀ a, kept a a) ∧ ∀ index target,
      (L.unmarshalItems items docs index target).1.isSome = true ∧
        ((∀ target, (L.unmarshalContract t .null target).2 = target) →
          kept target (L.unmarshalItems items docs index target).2)
  | _, _, _, .last h => by
    obtain ⟨hrefl, hvalue⟩ := h.error hnull
    refine ⟨hrefl, fun index target => ?_⟩
    exact ⟨(Option.isSome_map ..).trans (hvalue target).1, (hvalue target).2⟩
  | _, _, _, .head h => by
    obtain ⟨hrefl, hvalue⟩ := h.error hnull
    refine ⟨fun a => hrefl a.1, fun index target => ?_⟩
    obtain ⟨hsome, hkept⟩ := hvalue target.1
    rw [Codec.unmarshalItems]
    split
    · rename_i heq
      rw [heq] at hkept
      exact ⟨rfl, hkept⟩
    · rename_i heq
      rw [heq] at hsome
      cases hsome
  | _, _, _, .tail h => by
    obtain ⟨hrefl, hitems⟩ := h.error hnull
    refine ⟨fun a => hrefl a.2, fun index target => ?_⟩
    rw [Codec.unmarshalItems]
    split
    · exact ⟨rfl, fun _ => hrefl target.2⟩
    · exact hitems (index + 1) target.2

end

/-- At a type that is neither nullable, nor `json`, nor named, `null` is an error at every position
exactly if the type is the unit type, a tuple, a float or a scalar with a text form of its own,
or `optional` around one of these. It is an error that leaves the value at the position as it was
exactly if there is no `optional` around it. -/
theorem null_refused_iff (L : Codec Named) (t : WireType) (ht : t.plain = true) :
    ((∀ u doc (kept : Target Named u → Target Named u → Prop) target, NullAt t u doc kept →
        (L.unmarshalContract u doc target).1.isSome = true) ↔ t.present.refusesNull = true) ∧
    ((∀ u doc (kept : Target Named u → Target Named u → Prop) target, NullAt t u doc kept →
        (L.unmarshalContract u doc target).1.isSome = true ∧
          kept target (L.unmarshalContract u doc target).2) ↔ t.refusesNull = true) := by
  have hnull target := L.unmarshalContract_null t target ht
  refine ⟨⟨fun h => ?_, fun h u doc kept target hat => ?_⟩,
    ⟨fun h => ?_, fun h u doc kept target hat => ?_⟩⟩
  · exact (hnull (L.zero t)).1.symm.trans (h t .null Eq (L.zero t) .here)
  · exact ((hat.error fun target => (hnull target).1.trans h).2 target).1
  · have hsome := (hnull (L.zero t)).1.symm.trans (h t .null Eq (L.zero t) .here).1
    cases t with
    | optional t =>
      -- an error does not take back that the value is set
      have hsame := (h (.optional t) .null Eq (L.zero (.optional t)) .here).2
      have hset : false = true := congrArg Prod.fst hsame
      cases hset
    | _ => exact hsome
  · have hpresent : t.present.refusesNull = true := by
      cases t with
      | optional t => cases h
      | _ => exact h
    obtain ⟨hsome, hkept⟩ := (hat.error fun target => (hnull target).1.trans hpresent).2 target
    exact ⟨hsome, hkept fun target => (hnull target).2 h⟩

end Positions

def lenient : Codec fun _ => Unit where
  canonicalize _ := none
  canonicalize_null := rfl
  mismatch _ := "cannot unmarshal"
  read _ text := if text = [] then none else some text
  read_nil _ := rfl
  bytes _ := none
  base64 text := text = []
  base64_nil := rfl
  marshal _ _ := .ok []
  zeroNamed _ := ()
  unmarshalNamed _ _ _ := (none, ())

theorem null_refused_list :
    (lenient.unmarshalContract (.optional (.slice false (.scalar (.text .int64)))) (.array [.null])
      (false, some [])).1.isSome = true :=
  ((null_refused_iff lenient (.scalar (.text .int64)) rfl).2.mpr rfl _ _ _ _
    (.optional (.item .here List.mem_cons_self))).1

/-- A string that is `null` is accepted, and the target keeps what it held. -/
theorem null_accepted_stale :
    (WireType.scalar .string).plain = true ∧
      lenient.unmarshalContract (.scalar .string) .null ['o', 'l', 'd'] =
        (none, ['o', 'l', 'd']) ∧
      ¬ ∀ t u doc (kept : Target (fun _ => Unit) u → Target (fun _ => Unit) u → Prop) target,
        t.plain = true → NullAt t u doc kept →
          (lenient.unmarshalContract u doc target).1.isSome = true := by
  refine ⟨rfl, rfl, fun h => ?_⟩
  have hsome := h (.scalar .string) (.scalar .string) .null Eq ['o', 'l', 'd'] rfl .here
  cases hsome

end Scenery.Contract
