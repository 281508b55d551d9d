import Mathlib.Tactic.IntervalCases
import Scenery.Json

/-!
# Canonical encoding of specifications

`MarshalCanonical` encodes a value with `encoding/json`, decodes the text with its numbers as they
are written and writes the result: members in the order of their UTF-16 code units, numbers in
their shortest form, strings as `encoding/json` quotes them except for two separators.
-/

namespace Scenery.Spec

open Json List

/-! ## Strings -/

def hexDigit (n : ℕ) : Char := Char.ofNat (if n < 10 then 48 + n else 87 + n)

def escapeByte (c : Char) : List Char :=
  ['\\', 'u', '0', '0', hexDigit (c.toNat / 16), hexDigit (c.toNat % 16)]

def isHTML (c : Char) : Bool := c = '<' || c = '>' || c = '&'

def rfcChar (c : Char) : List Char :=
  if c = '"' ∨ c = '\\' then ['\\', c]
  else if c = '\x08' then ['\\', 'b']
  else if c = '\x0c' then ['\\', 'f']
  else if c = '\n' then ['\\', 'n']
  else if c = '\r' then ['\\', 'r']
  else if c = '\t' then ['\\', 't']
  else if c.toNat < 0x20 then escapeByte c
  else [c]

def marshalChar (c : Char) : List Char :=
  if isHTML c then escapeByte c
  else if c = '\u2028' then ['\\', 'u', '2', '0', '2', '8']
  else if c = '\u2029' then ['\\', 'u', '2', '0', '2', '9']
  else rfcChar c

def canonicalStringNeedsNoEscapes (value : List Char) : Bool :=
  value.all fun c => !(c.toNat < 0x20 || c = '"' || c = '\\' || isHTML c)

/-- The loop of `writeCanonicalJSON` over a quoted string: escapes are consumed as pairs, those of
the two separators are undone. -/
def unescapeSeparators : List Char → List Char
  | '\\' :: 'u' :: '2' :: '0' :: '2' :: '8' :: rest => '\u2028' :: unescapeSeparators rest
  | '\\' :: 'u' :: '2' :: '0' :: '2' :: '9' :: rest => '\u2029' :: unescapeSeparators rest
  | '\\' :: c :: rest => '\\' :: c :: unescapeSeparators rest
  | c :: rest => c :: unescapeSeparators rest
  | [] => []

def canonicalString (value : List Char) : List Char :=
  if canonicalStringNeedsNoEscapes value then '"' :: (value ++ ['"'])
  else unescapeSeparators (quote marshalChar value)

/-- A character as RFC 8785 has it, but for the three characters of HTML, which are escaped. -/
def canonicalChar (c : Char) : List Char := if isHTML c then escapeByte c else rfcChar c

def escaped : List Char := ['"', '\\', '<', '>', '&', '\u2028', '\u2029']

variable {c : Char}

theorem unescapeSeparators_of_ne (h : c ≠ '\\') (rest : List Char) :
    unescapeSeparators (c :: rest) = c :: unescapeSeparators rest := by
  rw [unescapeSeparators.eq_def]
  split <;> simp_all

theorem char_cases {P : Char → Prop} (hcontrol : ∀ n < 0x20, P (Char.ofNat n))
    (hescaped : ∀ c ∈ escaped, P c)
    (hplain : ∀ c : Char, ¬ c.toNat < 0x20 → c ∉ escaped →
      P c) (c : Char) : P c := by
  by_cases hc : c.toNat < 0x20
  · simpa using hcontrol c.toNat hc
  · by_cases he : c ∈ escaped
    · exact hescaped c he
    · exact hplain c hc he

theorem rfcChar_plain (hc : ¬ c.toNat < 0x20) (hq : c ≠ '"') (hr : c ≠ '\\') : rfcChar c = [c] := by
  have hne : ∀ d : Char, d.toNat < 0x20 → c ≠ d := fun d hd h => hc (h ▸ hd)
  simp_all [rfcChar]

theorem marshalChar_plain (hc : ¬ c.toNat < 0x20) (he : c ∉ escaped) : marshalChar c = [c] := by
  have hrfc := rfcChar_plain (c := c) hc
  simp_all [marshalChar, isHTML, escaped]

theorem canonicalChar_plain (hc : ¬ c.toNat < 0x20) (he : c ∉ escaped) : canonicalChar c = [c] := by
  have hrfc := rfcChar_plain (c := c) hc
  simp_all [canonicalChar, isHTML, escaped]

theorem parseString_plain (hc : ¬ c.toNat < 0x20) (hq : c ≠ '"') (hr : c ≠ '\\')
    (rest : List Char) : parseString 0 (c :: rest) = consChar c (parseString 0 rest) := by
  rw [parseString.eq_def]
  split <;> simp_all

theorem reads_of_plain {esc : Char → List Char}
    (hcontrol : ∀ n < 0x20, ∀ rest,
      parseString 0 (esc (Char.ofNat n) ++ rest) = consChar (Char.ofNat n) (parseString 0 rest))
    (hescaped : ∀ c ∈ escaped, ∀ rest,
      parseString 0 (esc c ++ rest) = consChar c (parseString 0 rest))
    (hplain : ∀ {c : Char}, ¬ c.toNat < 0x20 → c ∉ escaped → esc c = [c]) : Reads esc := by
  refine char_cases hcontrol hescaped fun c hc he rest => ?_
  rw [hplain hc he]
  exact parseString_plain hc (by simp_all [escaped]) (by simp_all [escaped]) rest

theorem forall_escaped {P : Char → Prop} : (∀ c ∈ escaped, P c) ↔
    P '"' ∧ P '\\' ∧ P '<' ∧ P '>' ∧ P '&' ∧ P '\u2028' ∧ P '\u2029' := by
  simp [escaped]

theorem reads_marshalChar : Reads marshalChar := by
  refine reads_of_plain ?_ (forall_escaped.2 ?_) marshalChar_plain
  · intro n hn rest
    interval_cases n <;> rfl
  · refine ⟨?_, ?_, ?_, ?_, ?_, ?_, ?_⟩ <;> exact fun _ => rfl

theorem reads_canonicalChar : Reads canonicalChar := by
  refine reads_of_plain ?_ (forall_escaped.2 ?_) canonicalChar_plain
  · intro n hn rest
    interval_cases n <;> rfl
  · refine ⟨?_, ?_, ?_, ?_, ?_, ?_, ?_⟩ <;> exact fun _ => rfl

theorem unescapeSeparators_marshalChar : ∀ c rest,
    unescapeSeparators (marshalChar c ++ rest) = canonicalChar c ++ unescapeSeparators rest := by
  refine char_cases ?_ (forall_escaped.2 ?_) ?_
  · intro n hn rest
    interval_cases n <;> rfl
  · refine ⟨?_, ?_, ?_, ?_, ?_, ?_, ?_⟩ <;> exact fun _ => rfl
  · intro c hc he rest
    rw [marshalChar_plain hc he, canonicalChar_plain hc he]
    exact unescapeSeparators_of_ne (by simp_all [escaped]) rest

theorem canonicalString_eq (value : List Char) :
    canonicalString value = quote canonicalChar value := by
  rw [canonicalString, quote, quote]
  split
  · next h =>
    have hself : value.flatMap canonicalChar = value.flatMap fun c => [c] := by
      refine flatMap_congr fun c hc => ?_
      have hc := all_eq_true.1 h c hc
      simp only [Bool.not_eq_true', Bool.or_eq_false_iff, decide_eq_false_iff_not] at hc
      rw [canonicalChar, hc.2, rfcChar_plain hc.1.1.1 hc.1.1.2 hc.1.2]
      rfl
    rw [hself, flatMap_singleton' value]
  · clear * -
    rw [unescapeSeparators_of_ne (by decide)]
    congr 1
    induction value with
    | nil => rfl
    | cons c rest ih =>
      rw [flatMap_cons, append_assoc, unescapeSeparators_marshalChar, ih,
        flatMap_cons, append_assoc]

/-! ## The order of keys -/

def units (c : Char) : List ℕ :=
  if c.toNat ≤ 0xffff then [c.toNat]
  else [0xd800 + (c.toNat - 0x10000) / 0x400, 0xdc00 + (c.toNat - 0x10000) % 0x400]

def leadingSurrogate (c : Char) : ℕ := 0xd800 + (c.toNat - 0x10000) / 0x400

def lessNonASCIIUTF16 : List Char → List Char → Bool
  | a :: left, b :: right =>
    if a = b then lessNonASCIIUTF16 left right
    else if a.toNat ≤ 0xffff ∧ ¬ b.toNat ≤ 0xffff then a.toNat < leadingSurrogate b
    else if ¬ a.toNat ≤ 0xffff ∧ b.toNat ≤ 0xffff then leadingSurrogate a < b.toNat
    else a.toNat < b.toNat
  | left, right => left.length < right.length

def lessUTF16 : List Char → List Char → Bool
  | a :: left, b :: right =>
    if 0x80 ≤ a.toNat ∨ 0x80 ≤ b.toNat then lessNonASCIIUTF16 (a :: left) (b :: right)
    else if a = b then lessUTF16 left right
    else a.toNat < b.toNat
  | left, right => left.length < right.length

def unitsLess (left right : List Char) : Bool := left.flatMap units < right.flatMap units

theorem scalar_range (c : Char) : c.toNat < 0xd800 ∨ 0xe000 ≤ c.toNat ∧ c.toNat < 0x110000 := by
  have h := c.valid
  have : c.toNat = c.val.toNat := rfl
  omega

theorem units_lt {a b : Char} (h : a ≠ b) (left right : List ℕ) :
    units a ++ left < units b ++ right ↔
      if a.toNat ≤ 0xffff ∧ ¬ b.toNat ≤ 0xffff then a.toNat < leadingSurrogate b
      else if ¬ a.toNat ≤ 0xffff ∧ b.toNat ≤ 0xffff then leadingSurrogate a < b.toNat
      else a.toNat < b.toNat := by
  have hne : a.toNat ≠ b.toNat := fun he => h (Char.toNat_inj.1 he)
  have ha := scalar_range a
  have hb := scalar_range b
  by_cases hal : a.toNat ≤ 0xffff <;> by_cases hbl : b.toNat ≤ 0xffff <;>
    simp only [units, hal, hbl, leadingSurrogate, if_true, if_false, not_true, not_false_iff,
      and_true, and_false, cons_append, nil_append, cons_lt_cons_iff] <;>
    omega

theorem unitsLess_cons (a b : Char) (left right : List Char) :
    unitsLess (a :: left) (b :: right) =
      if a = b then unitsLess left right
      else if a.toNat ≤ 0xffff ∧ ¬ b.toNat ≤ 0xffff then a.toNat < leadingSurrogate b
      else if ¬ a.toNat ≤ 0xffff ∧ b.toNat ≤ 0xffff then leadingSurrogate a < b.toNat
      else a.toNat < b.toNat := by
  by_cases h : a = b
  · subst h
    have happend : units a ++ left.flatMap units < units a ++ right.flatMap units ↔
        left.flatMap units < right.flatMap units := by
      rw [units]
      split <;> simp
    simp [unitsLess, happend]
  · simp only [unitsLess, flatMap_cons, units_lt h, h, if_false]
    split_ifs <;> rfl

theorem unitsLess_nil {left right : List Char} (h : left = [] ∨ right = []) :
    (left.length < right.length : Bool) = unitsLess left right := by
  have hne : ∀ c, units c ≠ [] := fun c => by rw [units]; split <;> simp
  rcases h with rfl | rfl
  · cases right with
    | nil => rfl
    | cons c right =>
      obtain ⟨n, rest, hn⟩ := exists_cons_of_ne_nil (hne c)
      simp [unitsLess, hn]
  · simp [unitsLess]

theorem lessNonASCIIUTF16_eq (left right : List Char) :
    lessNonASCIIUTF16 left right = unitsLess left right := by
  induction left generalizing right with
  | nil => exact unitsLess_nil (.inl rfl)
  | cons a left ih =>
    cases right with
    | nil => exact unitsLess_nil (.inr rfl)
    | cons b right => rw [lessNonASCIIUTF16, unitsLess_cons, ih]

theorem lessUTF16_eq (left right : List Char) : lessUTF16 left right = unitsLess left right := by
  induction left generalizing right with
  | nil => exact unitsLess_nil (.inl rfl)
  | cons a left ih =>
    cases right with
    | nil => exact unitsLess_nil (.inr rfl)
    | cons b right =>
      rw [lessUTF16, lessNonASCIIUTF16_eq, ih, unitsLess_cons]
      split_ifs <;> first | rfl | omega

def contractASCIIOnly (value : List Char) : Bool := value.all (·.toNat < 0x80)

/-- The loop of `contractUTF16Less`. -/
def lessScalars : List Char → List Char → Bool
  | a :: left, b :: right =>
    if a = b then lessScalars left right
    else if ¬ (0x10000 ≤ a.toNat ↔ 0x10000 ≤ b.toNat) then
      if 0x10000 ≤ a.toNat then leadingSurrogate a < b.toNat else a.toNat < leadingSurrogate b
    else a.toNat < b.toNat
  | left, right => left.length < right.length

/-- The bytes of an ASCII string are its scalars. -/
def contractUTF16Less (left right : List Char) : Bool :=
  if contractASCIIOnly left && contractASCIIOnly right then
    left.map Char.toNat < right.map Char.toNat
  else lessScalars left right

theorem lessScalars_eq (left right : List Char) : lessScalars left right = unitsLess left right := by
  induction left generalizing right with
  | nil => exact unitsLess_nil (.inl rfl)
  | cons a left ih =>
    cases right with
    | nil => exact unitsLess_nil (.inr rfl)
    | cons b right =>
      rw [lessScalars, unitsLess_cons, ih]
      split_ifs <;> first | rfl | omega

theorem flatMap_units {value : List Char} (h : contractASCIIOnly value = true) :
    value.flatMap units = value.map Char.toNat := by
  rw [map_eq_flatMap]
  refine flatMap_congr fun c hc => ?_
  have hlt := of_decide_eq_true (all_eq_true.mp h c hc)
  exact if_pos (by omega)

theorem contractUTF16Less_eq (left right : List Char) :
    contractUTF16Less left right = unitsLess left right := by
  unfold contractUTF16Less
  split
  · rename_i hascii
    obtain ⟨hleft, hright⟩ := Bool.and_eq_true_iff.mp hascii
    rw [unitsLess, flatMap_units hleft, flatMap_units hright]
  · exact lessScalars_eq left right

theorem unitsLess_or {left right : List Char} (h : left ≠ right) :
    unitsLess left right = true ∨ unitsLess right left = true := by
  induction left generalizing right with
  | nil =>
    rw [← unitsLess_nil (.inl rfl)]
    exact .inl (decide_eq_true (length_pos_iff.mpr h.symm))
  | cons a left ih =>
    cases right with
    | nil =>
      rw [← unitsLess_nil (.inl rfl)]
      exact .inr (decide_eq_true (Nat.succ_pos _))
    | cons b right =>
      rw [unitsLess_cons, unitsLess_cons]
      by_cases hab : a = b
      · subst hab
        simpa using ih fun hrest => h (congrArg _ hrest)
      · have ha := scalar_range a
        have hb := scalar_range b
        have hne : a.toNat ≠ b.toNat := fun he => hab (Char.toNat_inj.1 he)
        rw [if_neg hab, if_neg (Ne.symm hab)]
        have hlead : ∀ c, leadingSurrogate c = 0xd800 + (c.toNat - 0x10000) / 0x400 := fun _ => rfl
        have hla := hlead a
        have hlb := hlead b
        split_ifs <;> simp only [decide_eq_true_eq] <;> omega

/-- Both comparators compare the code units, which orders the strings strictly and totally. -/
theorem contractUTF16Less_eq_lessUTF16 :
    contractUTF16Less = lessUTF16 ∧
      (∀ left right, lessUTF16 left right = true ↔ left.flatMap units < right.flatMap units) ∧
      IsStrictTotalOrder (List Char) (lessUTF16 · · = true) := by
  have hless : ∀ left right,
      lessUTF16 left right = true ↔ left.flatMap units < right.flatMap units := fun left right => by
    rw [lessUTF16_eq, unitsLess, decide_eq_true_eq]
  refine ⟨funext fun left => funext fun right => ?_, hless, ?_⟩
  · rw [contractUTF16Less_eq, lessUTF16_eq]
  · refine { trichotomous := fun left right hl hr => ?_, irrefl := ?_, trans := ?_ }
    · by_contra hne
      rw [lessUTF16_eq] at hl hr
      exact (unitsLess_or hne).elim hl hr
    · exact fun s hs => lt_irrefl _ ((hless s s).mp hs)
    · exact fun a b c hab hbc => (hless a c).mpr (lt_trans ((hless a b).mp hab) ((hless b c).mp hbc))

section

variable (canonicalJSONNumber : List Char → Option (List Char))

mutual

def canonicalNumbers : Json → Option Json
  | .number text => (canonicalJSONNumber text).map .number
  | .array items => (canonicalItems items).map .array
  | .object members => (canonicalMembers members).map .object
  | v => some v

def canonicalItems : List Json → Option (List Json)
  | [] => some []
  | v :: rest => do return (← canonicalNumbers v) :: (← canonicalItems rest)

def canonicalMembers : List Member → Option (List Member)
  | [] => some []
  | (key, v) :: rest => do return (key, ← canonicalNumbers v) :: (← canonicalMembers rest)

end

def writeCanonicalJSON (value : Json) : Option (List Char) :=
  (canonicalNumbers canonicalJSONNumber value).map fun v =>
    print canonicalString (v.mapObjects (sortMembers lessUTF16))

def maxNestingDepth : ℕ := 10000

def marshalCanonical (value : Json) : Option (List Char) :=
  (decode maxNestingDepth (print (quote marshalChar) value)).bind
    (writeCanonicalJSON canonicalJSONNumber)

/-- RFC 8785: members in the order of their UTF-16 code units, every character written by
`escape`, which in the standard is `rfcChar`. -/
def rfc8785 (escape : Char → List Char) (value : Json) : Option (List Char) :=
  (canonicalNumbers canonicalJSONNumber value).map fun v =>
    print (quote escape) (v.mapObjects (sortMembers unitsLess))

/-! ## What is encoded -/

def Plain : Type := { v : Json // v.Built (fun _ => True) (· < ·) }

variable {canonicalJSONNumber} {v : Json}

theorem canonicalNumbers_plain {S : List Char → Prop} {order : List Char → List Char → Prop}
    (h : v.Built S order) : canonicalNumbers canonicalJSONNumber v = some v := by
  induction h with
  | null | bool | string => rfl
  | @array items h ih =>
    have hitems : canonicalItems canonicalJSONNumber items = some items := by
      clear h
      induction items with
      | nil => rfl
      | cons v rest ihl =>
        rw [canonicalItems, ih v (by simp), ihl fun w hw => ih w (by simp [hw])]; rfl
    rw [canonicalNumbers, hitems]; rfl
  | @object members hkeys horder h ih =>
    have hmembers : canonicalMembers canonicalJSONNumber members = some members := by
      clear h hkeys horder
      induction members with
      | nil => rfl
      | cons m rest ihl =>
        rw [canonicalMembers, ih m (by simp), ihl fun n hn => ih n (by simp [hn])]; rfl
    rw [canonicalNumbers, hmembers]; rfl

def canonicalText (v : Json) : List Char :=
  print (quote canonicalChar) (v.mapObjects (sortMembers unitsLess))

theorem marshalCanonical_plain (h : v.Built (fun _ => True) (· < ·)) :
    marshalCanonical canonicalJSONNumber v =
      if v.depth ≤ maxNestingDepth then some (canonicalText v) else none := by
  have hself : v.mapObjects collect = v := by
    have := h.collect_mapObjects (f := id) .refl
    rwa [h.mapObjects_id] at this
  rw [marshalCanonical, decode, h.parse_print reads_marshalChar]
  by_cases hd : v.depth ≤ maxNestingDepth
  · rw [if_pos hd, if_pos hd, Option.map_some, hself, Option.bind_some, writeCanonicalJSON,
      canonicalNumbers_plain h, canonicalText]
    rw [funext canonicalString_eq, funext fun l => funext (lessUTF16_eq l)]
    rfl
  · rw [if_neg hd, if_neg hd]; rfl

theorem decode_canonicalText (h : v.Built (fun _ => True) (· < ·))
    (hd : v.depth ≤ maxNestingDepth) : decode maxNestingDepth (canonicalText v) = some v := by
  have hperm := sortMembers_perm unitsLess
  have hbuilt := h.mapObjects fun l => (hperm l).subset
  rw [decode, canonicalText, hbuilt.parse_print reads_canonicalChar,
    if_pos (le_trans (h.depth_mapObjects hperm) hd), Option.map_some, h.collect_mapObjects hperm]

/-- A value that is not nested too deep is encoded unambiguously, and as RFC 8785 prescribes but
for the characters of HTML. -/
theorem marshalCanonical_exact (v : Plain) (hd : v.1.depth ≤ maxNestingDepth) :
    (∀ w : Plain, marshalCanonical canonicalJSONNumber v.1 =
        marshalCanonical canonicalJSONNumber w.1 ↔ v = w) ∧
      ∃ text, marshalCanonical canonicalJSONNumber v.1 = some text ∧
        decode maxNestingDepth text = some v.1 ∧
        rfc8785 canonicalJSONNumber canonicalChar v.1 = some text := by
  obtain ⟨v, h⟩ := v
  have htext : marshalCanonical canonicalJSONNumber v = some (canonicalText v) := by
    rw [marshalCanonical_plain h, if_pos hd]
  refine ⟨?_, _, htext, decode_canonicalText h hd, by rw [rfc8785, canonicalNumbers_plain h]; rfl⟩
  rintro ⟨w, hw⟩
  refine ⟨fun heq => Subtype.ext ?_, fun heq => congrArg (marshalCanonical _ ·.1) heq⟩
  rw [htext, marshalCanonical_plain hw] at heq
  split at heq
  · next hdw =>
    have hdecode := decode_canonicalText hw hdw
    rw [← Option.some.inj heq, decode_canonicalText h hd] at hdecode
    exact Option.some.inj hdecode
  · cases heq

end

theorem marshalCanonical_exact_html :
    ∃ text, marshalCanonical some (.string ['<']) = some text ∧
      decode maxNestingDepth text = some (.string ['<']) ∧
      rfc8785 some canonicalChar (.string ['<']) = some text :=
  (marshalCanonical_exact ⟨.string ['<'], .string trivial⟩ (by decide)).2

/-- A less-than sign is escaped where RFC 8785 has it written directly. -/
theorem marshalCanonical_html :
    marshalCanonical some (.string ['<']) = some ['"', '\\', 'u', '0', '0', '3', 'c', '"'] ∧
      rfc8785 some rfcChar (.string ['<']) = some ['"', '<', '"'] := by
  decide

end Scenery.Spec
