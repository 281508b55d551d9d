import Mathlib.Data.Char
import Mathlib.Data.List.Lex
import Mathlib.Data.List.Sort
import Mathlib.Data.Nat.Notation

/-!
# JSON texts

Values, their texts without white space, and a parser.
-/

namespace Scenery

open List

inductive Json where
  | null
  | bool (b : Bool)
  | number (text : List Char)
  | string (s : List Char)
  | array (items : List Json)
  | object (members : List (List Char × Json))

namespace Json

abbrev Member : Type := List Char × Json

def quote (esc : Char → List Char) (s : List Char) : List Char := '"' :: (s.flatMap esc ++ ['"'])

section

variable (write : List Char → List Char)

mutual

def print : Json → List Char
  | .null => ['n', 'u', 'l', 'l']
  | .bool true => ['t', 'r', 'u', 'e']
  | .bool false => ['f', 'a', 'l', 's', 'e']
  | .number text => text
  | .string s => write s
  | .array items => '[' :: printItems items
  | .object members => '{' :: printMembers members

def printItems : List Json → List Char
  | [] => [']']
  | [v] => print v ++ [']']
  | v :: w :: rest => print v ++ ',' :: printItems (w :: rest)

def printMembers : List Member → List Char
  | [] => ['}']
  | [(key, v)] => write key ++ ':' :: (print v ++ ['}'])
  | (key, v) :: m :: rest => write key ++ ':' :: (print v ++ ',' :: printMembers (m :: rest))

end

end

/-! ## Parsing -/

def isSpace (c : Char) : Bool := c = ' ' || c = '\t' || c = '\n' || c = '\r'

def skipSpace (s : List Char) : List Char := s.dropWhile isSpace

def hexValue (c : Char) : Option ℕ :=
  if '0' ≤ c ∧ c ≤ '9' then some (c.toNat - 48)
  else if 'a' ≤ c ∧ c ≤ 'f' then some (c.toNat - 87)
  else if 'A' ≤ c ∧ c ≤ 'F' then some (c.toNat - 55)
  else none

def hexUnit (a b c d : Char) : Option ℕ := do
  return (((← hexValue a) * 16 + (← hexValue b)) * 16 + (← hexValue c)) * 16 + (← hexValue d)

def shortEscape : Char → Option Char
  | '"' => some '"'
  | '\\' => some '\\'
  | '/' => some '/'
  | 'b' => some '\x08'
  | 'f' => some '\x0c'
  | 'n' => some '\n'
  | 'r' => some '\r'
  | 't' => some '\t'
  | _ => none

def joinSurrogates (high low : ℕ) : Option Char :=
  if 0xd800 ≤ high ∧ high < 0xdc00 ∧ 0xdc00 ≤ low ∧ low < 0xe000 then
    some (Char.ofNat (0x10000 + (high - 0xd800) * 0x400 + (low - 0xdc00)))
  else none

def consChar (c : Char) (r : Option (List Char × List Char)) : Option (List Char × List Char) :=
  r.map fun r => (c :: r.1, r.2)

def surrogatePair (unit : ℕ) : List Char → Option Char
  | '\\' :: 'u' :: a :: b :: c :: d :: _ => (hexUnit a b c d).bind (joinSurrogates unit)
  | _ => none

def parseString : ℕ → List Char → Option (List Char × List Char)
  | skip + 1, _ :: rest => parseString skip rest
  | 0, '"' :: rest => some ([], rest)
  | 0, '\\' :: 'u' :: a :: b :: c :: d :: rest =>
    match hexUnit a b c d with
    | none => none
    | some unit =>
      if 0xd800 ≤ unit ∧ unit < 0xe000 then
        match surrogatePair unit rest with
        | some c => consChar c (parseString 6 rest)
        | none => consChar '\ufffd' (parseString 0 rest)
      else consChar (Char.ofNat unit) (parseString 0 rest)
  | 0, '\\' :: e :: rest =>
    match shortEscape e with
    | none => none
    | some c => consChar c (parseString 0 rest)
  | 0, c :: rest => if c.toNat < 0x20 ∨ c = '\\' then none else consChar c (parseString 0 rest)
  | _, [] => none

def parseDigits (s : List Char) : Option (List Char × List Char) :=
  if s.takeWhile Char.isDigit = [] then none
  else some (s.takeWhile Char.isDigit, s.dropWhile Char.isDigit)

def parseExponent : List Char → Option (List Char × List Char)
  | e :: s =>
    if e = 'e' ∨ e = 'E' then
      match s with
      | '+' :: rest => (parseDigits rest).map fun r => (e :: '+' :: r.1, r.2)
      | '-' :: rest => (parseDigits rest).map fun r => (e :: '-' :: r.1, r.2)
      | _ => consChar e (parseDigits s)
    else some ([], e :: s)
  | [] => some ([], [])

def parseNumber (s : List Char) : Option (List Char × List Char) := do
  let (whole, s) ← parseDigits s
  if 1 < whole.length ∧ whole.head? = some '0' then none
  let (fraction, s) ← match s with
    | '.' :: rest => consChar '.' (parseDigits rest)
    | _ => some ([], s)
  let (exponent, s) ← parseExponent s
  return (whole ++ fraction ++ exponent, s)

mutual

def parseValue : ℕ → ℕ → List Char → Option (Json × List Char)
  | 0, _, _ => none
  | fuel + 1, depth, s =>
    match skipSpace s with
    | 'n' :: 'u' :: 'l' :: 'l' :: rest => some (.null, rest)
    | 't' :: 'r' :: 'u' :: 'e' :: rest => some (.bool true, rest)
    | 'f' :: 'a' :: 'l' :: 's' :: 'e' :: rest => some (.bool false, rest)
    | '"' :: rest => (parseString 0 rest).map fun r => (.string r.1, r.2)
    | '[' :: rest =>
      match depth, skipSpace rest with
      | 0, _ => none
      | _ + 1, ']' :: rest => some (.array [], rest)
      | depth + 1, rest => (parseItems fuel depth rest).map fun r => (.array r.1, r.2)
    | '{' :: rest =>
      match depth, skipSpace rest with
      | 0, _ => none
      | _ + 1, '}' :: rest => some (.object [], rest)
      | depth + 1, rest => (parseMembers fuel depth rest).map fun r => (.object r.1, r.2)
    | '-' :: rest => (parseNumber rest).map fun r => (.number ('-' :: r.1), r.2)
    | rest => (parseNumber rest).map fun r => (.number r.1, r.2)

def parseItems : ℕ → ℕ → List Char → Option (List Json × List Char)
  | 0, _, _ => none
  | fuel + 1, depth, s =>
    match parseValue fuel depth s with
    | none => none
    | some (v, rest) =>
      match skipSpace rest with
      | ',' :: rest => (parseItems fuel depth rest).map fun r => (v :: r.1, r.2)
      | ']' :: rest => some ([v], rest)
      | _ => none

def parseMembers : ℕ → ℕ → List Char → Option (List Member × List Char)
  | 0, _, _ => none
  | fuel + 1, depth, s =>
    match skipSpace s with
    | '"' :: rest =>
      match parseString 0 rest with
      | none => none
      | some (key, rest) =>
        match skipSpace rest with
        | ':' :: rest =>
          match parseValue fuel depth rest with
          | none => none
          | some (v, rest) =>
            match skipSpace rest with
            | ',' :: rest => (parseMembers fuel depth rest).map fun r => ((key, v) :: r.1, r.2)
            | '}' :: rest => some ([(key, v)], rest)
            | _ => none
        | _ => none
    | _ => none

end

def parse (depth : ℕ) (s : List Char) : Option Json :=
  match parseValue (s.length + 1) depth s with
  | some (v, rest) => if skipSpace rest = [] then some v else none
  | none => none

mutual

def mapObjects (f : List Member → List Member) : Json → Json
  | .array items => .array (mapItems f items)
  | .object members => .object (f (mapMembers f members))
  | v => v

def mapItems (f : List Member → List Member) : List Json → List Json
  | [] => []
  | v :: rest => mapObjects f v :: mapItems f rest

def mapMembers (f : List Member → List Member) :
    List Member → List Member
  | [] => []
  | (key, v) :: rest => (key, mapObjects f v) :: mapMembers f rest

end

def collect (members : List Member) : List Member :=
  members.foldr (fun m l => if l.any (fun m' => m'.1 = m.1) then l
    else l.orderedInsert (fun a b => a.1 ≤ b.1) m) []

def decode (depth : ℕ) (s : List Char) : Option Json := (parse depth s).map (mapObjects collect)

def sortMembers (less : List Char → List Char → Bool) (members : List Member) :
    List Member :=
  members.insertionSort fun a b => less a.1 b.1 || a.1 = b.1

inductive Built (S : List Char → Prop) (order : List Char → List Char → Prop) : Json → Prop where
  | null : Built S order .null
  | bool (b : Bool) : Built S order (.bool b)
  | string {s : List Char} (h : S s) : Built S order (.string s)
  | array {items : List Json} (h : ∀ v ∈ items, Built S order v) : Built S order (.array items)
  | object {members : List Member} (hkeys : ∀ m ∈ members, S m.1)
    (horder : members.Pairwise fun a b => order a.1 b.1)
    (h : ∀ m ∈ members, Built S order m.2) : Built S order (.object members)

mutual

def depth : Json → ℕ
  | .array items => itemsDepth items + 1
  | .object members => membersDepth members + 1
  | _ => 0

def itemsDepth : List Json → ℕ
  | [] => 0
  | v :: rest => max (depth v) (itemsDepth rest)

def membersDepth : List Member → ℕ
  | [] => 0
  | (_, v) :: rest => max (depth v) (membersDepth rest)

end

/-! ## What is printed is read back -/

def Reads (esc : Char → List Char) : Prop :=
  ∀ c rest, parseString 0 (esc c ++ rest) = consChar c (parseString 0 rest)

section

variable {S : List Char → Prop} {order : List Char → List Char → Prop} {esc : Char → List Char}

theorem skipSpace_cons {c : Char} (h : isSpace c = false) (s : List Char) :
    skipSpace (c :: s) = c :: s := by
  simp [skipSpace, h]

theorem parseString_quote (hesc : Reads esc) (s rest : List Char) :
    parseString 0 (s.flatMap esc ++ '"' :: rest) = some (s, rest) := by
  induction s with
  | nil => rfl
  | cons c s ih => rw [flatMap_cons, append_assoc, hesc, ih]; rfl

theorem parseValue_quote (hesc : Reads esc) (fuel d : ℕ) (s rest : List Char) :
    parseValue (fuel + 1) d (quote esc s ++ rest) = some (.string s, rest) := by
  have h := parseString_quote hesc s rest
  calc parseValue (fuel + 1) d (quote esc s ++ rest)
      = (parseString 0 (s.flatMap esc ++ '"' :: rest)).map fun r => (.string r.1, r.2) := by
        simp [quote, parseValue, skipSpace, isSpace]
    _ = some (.string s, rest) := by rw [h]; rfl

variable {v : Json}

theorem Built.print_head (esc : Char → List Char) (h : Built S order v) :
    ∃ c text, print (quote esc) v = c :: text ∧ isSpace c = false ∧ c ≠ ']' := by
  cases h with
  | null | string | array | object => exact ⟨_, _, rfl, rfl, by decide⟩
  | bool b => cases b <;> exact ⟨_, _, rfl, rfl, by decide⟩

variable (esc) in
def Parses (v : Json) : Prop :=
  ∀ fuel d rest, (print (quote esc) v).length ≤ fuel →
    parseValue (fuel + 1) d (print (quote esc) v ++ rest) =
      if v.depth ≤ d then some (v, rest) else none

@[simp]
theorem itemsDepth_cons_le (v : Json) (items : List Json) (d : ℕ) :
    itemsDepth (v :: items) ≤ d ↔ v.depth ≤ d ∧ itemsDepth items ≤ d := by
  rw [itemsDepth, Nat.max_le]

@[simp]
theorem membersDepth_cons_le (m : Member) (members : List Member) (d : ℕ) :
    membersDepth (m :: members) ≤ d ↔ m.2.depth ≤ d ∧ membersDepth members ≤ d := by
  rw [membersDepth, Nat.max_le]

theorem parseItems_print (items : List Json) (v : Json) (h : ∀ w ∈ v :: items, Parses esc w)
    (fuel d : ℕ) (rest : List Char) (hfuel : (printItems (quote esc) (v :: items)).length ≤ fuel) :
    parseItems (fuel + 1) d (printItems (quote esc) (v :: items) ++ rest) =
      if itemsDepth (v :: items) ≤ d then some (v :: items, rest) else none := by
  induction items generalizing v fuel with
  | nil =>
    obtain _ | fuel := fuel
    · simp [printItems] at hfuel
    have hv := h v (by simp) fuel d (']' :: rest) (by simp [printItems] at hfuel; omega)
    simp only [printItems, List.append_assoc, List.cons_append, List.nil_append, parseItems, hv]
    by_cases hd : v.depth ≤ d <;> simp [hd, itemsDepth, skipSpace, isSpace]
  | cons w items ih =>
    obtain _ | fuel := fuel
    · simp [printItems] at hfuel
    have hlen : (print (quote esc) v).length ≤ fuel ∧
        (printItems (quote esc) (w :: items)).length ≤ fuel := by
      simp [printItems] at hfuel; omega
    have hv := h v (by simp) fuel d (',' :: (printItems (quote esc) (w :: items) ++ rest)) hlen.1
    simp only [printItems, List.append_assoc, List.cons_append]
    rw [parseItems, hv]
    by_cases hd : v.depth ≤ d
    · rw [if_pos hd]
      change (parseItems (fuel + 1) d (printItems (quote esc) (w :: items) ++ rest)).map _ = _
      by_cases hi : itemsDepth (w :: items) ≤ d <;> simp_all
    · simp [hd]

theorem parseMembers_print (hesc : Reads esc) (members : List Member)
    (m : Member) (h : ∀ n ∈ m :: members, Parses esc n.2) (fuel d : ℕ)
    (rest : List Char) (hfuel : (printMembers (quote esc) (m :: members)).length ≤ fuel) :
    parseMembers (fuel + 1) d (printMembers (quote esc) (m :: members) ++ rest) =
      if membersDepth (m :: members) ≤ d then some (m :: members, rest) else none := by
  induction members generalizing m fuel with
  | nil =>
    obtain _ | fuel := fuel
    · simp [printMembers] at hfuel
    have hv := h m (by simp) fuel d ('}' :: rest) (by simp [printMembers] at hfuel; omega)
    have hkey := parseString_quote hesc m.1 (':' :: (print (quote esc) m.2 ++ '}' :: rest))
    simp only [printMembers, quote, List.append_assoc, List.cons_append, List.nil_append]
    rw [parseMembers, skipSpace_cons rfl]
    simp only [hkey, skipSpace_cons (c := ':') rfl, hv]
    by_cases hd : m.2.depth ≤ d <;> simp [hd, membersDepth, skipSpace, isSpace]
  | cons n members ih =>
    obtain _ | fuel := fuel
    · simp [printMembers] at hfuel
    have hlen : (print (quote esc) m.2).length ≤ fuel ∧
        (printMembers (quote esc) (n :: members)).length ≤ fuel := by
      simp [printMembers] at hfuel; omega
    have hv := h m (by simp) fuel d (',' :: (printMembers (quote esc) (n :: members) ++ rest))
      hlen.1
    have hkey := parseString_quote hesc m.1
      (':' :: (print (quote esc) m.2 ++ ',' :: (printMembers (quote esc) (n :: members) ++ rest)))
    simp only [printMembers, quote, List.append_assoc, List.cons_append, List.nil_append]
    rw [parseMembers, skipSpace_cons rfl]
    simp only [hkey, skipSpace_cons (c := ':') rfl, hv]
    by_cases hd : m.2.depth ≤ d
    · rw [if_pos hd]
      change (parseMembers (fuel + 1) d (printMembers (quote esc) (n :: members) ++ rest)).map _ = _
      by_cases hi : membersDepth (n :: members) ≤ d <;> simp_all
    · simp [hd]

theorem parseValue_open {fuel d : ℕ} {c : Char} {text : List Char} (hspace : isSpace c = false)
    (hclose : c ≠ ']') :
    parseValue (fuel + 1) (d + 1) ('[' :: c :: text) =
      (parseItems fuel d (c :: text)).map fun r => (.array r.1, r.2) := by
  rw [parseValue, skipSpace_cons rfl]
  simp only [skipSpace_cons hspace]
  split
  · next h => cases h
  · next h => exact absurd (List.cons.inj h).1 hclose
  · next heq _ => rw [Nat.succ.inj heq]

theorem Built.parses (hesc : Reads esc) (h : Built S order v) : Parses esc v := by
  induction h with
  | null => intro fuel d rest _; simp [print, parseValue, skipSpace, isSpace, depth]
  | bool b => intro fuel d rest _; cases b <;> simp [print, parseValue, skipSpace, isSpace, depth]
  | string _ => intro fuel d rest _; simp [print, parseValue_quote hesc, depth]
  | @array items h ih =>
    intro fuel d rest hfuel
    obtain _ | d := d
    · simp [print, parseValue, skipSpace, isSpace, depth]
    obtain _ | ⟨v, items⟩ := items
    · simp [print, printItems, parseValue, skipSpace, isSpace, depth, itemsDepth]
    obtain _ | fuel := fuel
    · simp [print] at hfuel
    obtain ⟨c, text, htext, hspace, hclose⟩ := (h v (by simp)).print_head esc
    obtain ⟨text', htext'⟩ : ∃ text', printItems (quote esc) (v :: items) ++ rest = c :: text' := by
      cases items <;> exact ⟨_, by simp [printItems, htext]; rfl⟩
    have hitems := parseItems_print items v ih fuel d rest (by simp [print] at hfuel; omega)
    rw [print, List.cons_append, htext', parseValue_open hspace hclose, ← htext', hitems]
    by_cases hd : itemsDepth (v :: items) ≤ d <;> simp_all [depth]
  | @object members hkeys horder h ih =>
    intro fuel d rest hfuel
    obtain _ | d := d
    · simp [print, parseValue, skipSpace, isSpace, depth]
    obtain _ | ⟨m, members⟩ := members
    · simp [print, printMembers, parseValue, skipSpace, isSpace, depth, membersDepth]
    obtain _ | fuel := fuel
    · simp [print] at hfuel
    obtain ⟨text, htext⟩ : ∃ text,
        printMembers (quote esc) (m :: members) ++ rest = '"' :: text := by
      cases members <;> exact ⟨_, by simp [printMembers, quote]; rfl⟩
    have hmembers := parseMembers_print hesc members m ih fuel d rest
      (by simp [print] at hfuel; omega)
    have hopen : parseValue (fuel + 2) (d + 1) ('{' :: '"' :: text) =
        (parseMembers (fuel + 1) d ('"' :: text)).map fun r => (.object r.1, r.2) := rfl
    rw [print, cons_append, htext, hopen, ← htext, hmembers]
    by_cases hd : membersDepth (m :: members) ≤ d <;> simp_all [depth]

theorem Built.parse_print (hesc : Reads esc) (h : Built S order v) (d : ℕ) :
    parse d (print (quote esc) v) = if v.depth ≤ d then some v else none := by
  have hv := h.parses hesc _ d [] (le_refl _)
  rw [append_nil] at hv
  rw [parse, hv]
  by_cases hd : v.depth ≤ d <;> simp [hd, skipSpace]

end

/-! ## Members as a map -/

section

variable {S : List Char → Prop} {order : List Char → List Char → Prop} {v : Json}
  {f : List Member → List Member}

@[simp]
theorem mapItems_eq (f : List Member → List Member) (items : List Json) :
    mapItems f items = items.map (mapObjects f) := by
  induction items with
  | nil => rfl
  | cons v rest ih => rw [mapItems, ih]; rfl

@[simp]
theorem mapMembers_eq (f : List Member → List Member)
    (members : List Member) :
    mapMembers f members = members.map fun m => (m.1, mapObjects f m.2) := by
  induction members with
  | nil => rfl
  | cons m rest ih => rw [mapMembers, ih]; rfl

def KeyLe (a b : Member) : Prop := a.1 ≤ b.1

instance decidableKeyLe : DecidableRel KeyLe := fun a b => inferInstanceAs (Decidable (a.1 ≤ b.1))

instance totalKeyLe : Std.Total KeyLe := ⟨fun a b => le_total a.1 b.1⟩

instance transKeyLe : IsTrans _ KeyLe := ⟨fun _ _ _ => le_trans⟩

theorem collect_spec (members : List Member)
    (h : members.Pairwise fun a b => a.1 ≠ b.1) :
    (collect members).Perm members ∧ (collect members).Pairwise KeyLe := by
  induction members with
  | nil => exact ⟨.refl _, .nil⟩
  | cons m rest ih =>
    obtain ⟨hm, hrest⟩ := pairwise_cons.1 h
    obtain ⟨hperm, hsorted⟩ := ih hrest
    have hnew : (collect rest).any (fun m' => m'.1 = m.1) = false := by
      simpa using fun a b hab => fun he => hm _ (hperm.mem_iff.1 hab) he.symm
    have hcollect : collect (m :: rest) = (collect rest).orderedInsert KeyLe m := by
      simp only [collect, foldr_cons] at hnew ⊢
      rw [hnew]; rfl
    rw [hcollect]
    exact ⟨(perm_orderedInsert _ _ _).trans (hperm.cons m), hsorted.orderedInsert _ _⟩

theorem collect_perm {members map : List Member} (hperm : members.Perm map)
    (hmap : map.Pairwise fun a b => a.1 < b.1) : collect members = map := by
  have hne : map.Pairwise fun a b => a.1 ≠ b.1 := by
    refine hmap.imp ?_
    intro a b h he
    rw [he] at h
    exact lt_irrefl b.1 h
  obtain ⟨hcollect, hsorted⟩ := collect_spec members ((hperm.pairwise_iff Ne.symm).2 hne)
  have hcollect := hcollect.trans hperm
  have hstrict : (collect members).Pairwise fun a b => a.1 < b.1 := by
    refine (hsorted.and ((hcollect.pairwise_iff Ne.symm).2 hne)).imp fun {a b} h => ?_
    exact lt_of_le_of_ne h.1 h.2
  exact hcollect.eq_of_pairwise (fun a b _ _ hab hba => absurd hba (lt_asymm hab)) hstrict hmap

theorem Built.collect_mapObjects (h : Built S (· < ·) v) (hf : ∀ l, (f l).Perm l) :
    mapObjects collect (mapObjects f v) = v := by
  induction h with
  | null | bool | string => rfl
  | @array items h ih =>
    simp only [mapObjects, mapItems_eq, map_map]
    have hback : items.map (mapObjects collect ∘ mapObjects f) = items.map id :=
      map_congr_left ih
    rw [hback, map_id]
  | @object members hkeys horder h ih =>
    simp only [mapObjects, mapMembers_eq]
    congr 1
    have hback : members.map ((fun m => (m.1, mapObjects collect m.2)) ∘
        fun m => (m.1, mapObjects f m.2)) = members.map id :=
      map_congr_left fun m hm => congrArg (m.1, ·) (ih m hm)
    refine collect_perm (((hf _).map _).trans ?_) horder
    rw [map_map, hback, map_id]

theorem itemsDepth_le {items : List Json} {d : ℕ} :
    itemsDepth items ≤ d ↔ ∀ v ∈ items, v.depth ≤ d := by
  induction items with
  | nil => simp [itemsDepth]
  | cons v rest ih => simp [ih]

theorem membersDepth_le {members : List Member} {d : ℕ} :
    membersDepth members ≤ d ↔ ∀ m ∈ members, m.2.depth ≤ d := by
  induction members with
  | nil => simp [membersDepth]
  | cons m rest ih => simp [ih]

theorem Built.depth_mapObjects (h : Built S order v) (hf : ∀ l, (f l).Perm l) :
    (v.mapObjects f).depth ≤ v.depth := by
  induction h with
  | null | bool | string => exact le_refl _
  | array h ih =>
    rw [mapObjects, mapItems_eq]
    refine Nat.succ_le_succ (itemsDepth_le.2 fun v hv => ?_)
    obtain ⟨w, hw, rfl⟩ := mem_map.1 hv
    exact le_trans (ih w hw) (itemsDepth_le.1 (le_refl _) w hw)
  | object hkeys horder h ih =>
    rw [mapObjects, mapMembers_eq]
    refine Nat.succ_le_succ (membersDepth_le.2 fun m hm => ?_)
    obtain ⟨n, hn, rfl⟩ := mem_map.1 ((hf _).mem_iff.1 hm)
    exact le_trans (ih n hn) (membersDepth_le.1 (le_refl _) n hn)

theorem Built.mapObjects (h : Built S order v) (hf : ∀ l, f l ⊆ l) :
    Built S (fun _ _ => True) (v.mapObjects f) := by
  induction h with
  | null => exact .null
  | bool b => exact .bool b
  | string h => exact .string h
  | array h ih =>
    rw [Json.mapObjects, mapItems_eq]
    exact .array fun v hv => by
      obtain ⟨w, hw, rfl⟩ := mem_map.1 hv
      exact ih w hw
  | object hkeys horder h ih =>
    rw [Json.mapObjects, mapMembers_eq]
    refine .object ?_ (pairwise_of_forall fun _ _ => trivial) ?_
    all_goals
      intro m hm
      obtain ⟨n, hn, rfl⟩ := mem_map.1 (hf _ hm)
    · exact hkeys n hn
    · exact ih n hn

theorem Built.mapObjects_id (h : Built S order v) : v.mapObjects id = v := by
  induction h with
  | null | bool | string => rfl
  | @array items h ih =>
    have hitems : items.map (Json.mapObjects id) = items.map id := map_congr_left ih
    rw [Json.mapObjects, mapItems_eq, hitems, map_id]
  | @object members hkeys horder h ih =>
    have hmembers : members.map (fun m => (m.1, m.2.mapObjects id)) = members.map id :=
      map_congr_left fun m hm => congrArg (m.1, ·) (ih m hm)
    rw [Json.mapObjects, mapMembers_eq, hmembers, map_id, id]

theorem sortMembers_perm (less : List Char → List Char → Bool)
    (members : List Member) : (sortMembers less members).Perm members :=
  perm_insertionSort _ _

end

end Json

end Scenery
