import Scenery.Assistant.Sealing

/-!
# Cookies of initiators

The payload of a cookie is read back with its times truncated to seconds.
-/

namespace Scenery.Token

open Octets List

variable {p : Platform}

/-! ## The payload is read back -/

section Payload

variable (i : Identity) (keyID : Octets)

theorem length_identityPayload :
    (identityPayload i keyID).length = 3 + keyID.length + 18 + i.id.length := by
  simp only [identityPayload, length_cons, length_append, length_ofNumber]
  omega

theorem drop_identityPayload_keyID : (identityPayload i keyID).drop 3 = keyID ++
    (ofNumber 8 (unsigned (unix i.issuedAt)) ++ (ofNumber 8 (unsigned (unix i.expiresAt)) ++
      (ofNumber 2 i.id.length ++ i.id))) := by
  rw [identityPayload, drop_succ_cons, drop_left' (length_ofNumber 2 _)]

theorem drop_identityPayload_issued : (identityPayload i keyID).drop (3 + keyID.length) =
    ofNumber 8 (unsigned (unix i.issuedAt)) ++ (ofNumber 8 (unsigned (unix i.expiresAt)) ++
      (ofNumber 2 i.id.length ++ i.id)) := by
  rw [← drop_drop, drop_identityPayload_keyID, drop_left]

theorem drop_identityPayload_expires : (identityPayload i keyID).drop (3 + keyID.length + 8) =
    ofNumber 8 (unsigned (unix i.expiresAt)) ++ (ofNumber 2 i.id.length ++ i.id) := by
  rw [← drop_drop, drop_identityPayload_issued, drop_left' (length_ofNumber 8 _)]

theorem drop_identityPayload_idLength : (identityPayload i keyID).drop (3 + keyID.length + 16) =
    ofNumber 2 i.id.length ++ i.id := by
  rw [show 3 + keyID.length + 16 = 3 + keyID.length + 8 + 8 from rfl, ← drop_drop,
    drop_identityPayload_expires, drop_left' (length_ofNumber 8 _)]

theorem drop_identityPayload_id : (identityPayload i keyID).drop (3 + keyID.length + 18) = i.id := by
  rw [show 3 + keyID.length + 18 = 3 + keyID.length + 16 + 2 from rfl, ← drop_drop,
    drop_identityPayload_idLength, drop_left' (length_ofNumber 2 _)]

theorem keyLength_identityPayload (h : keyID.length ≤ 128) :
    number (((identityPayload i keyID).drop 1).take 2) = keyID.length := by
  rw [identityPayload, drop_one, tail_cons, take_left' (length_ofNumber 2 _)]
  exact number_ofNumber (by omega)

end Payload

theorem isLowerHex32_length {id : Octets} (h : isLowerHex32 id = true) : id.length = 32 := by
  exact (of_decide_eq_true h).1

variable {i : Identity}

theorem decodeIdentityPayload_hexEncode {keyID : Octets}
    (hkey : validKeyID p keyID = true) (hid : isLowerHex32 i.id = true) :
    decodeIdentityPayload p (hexEncode (identityPayload i keyID)) =
      some (identityPayload i keyID, keyID) := by
  obtain ⟨hpos, hle⟩ := validKeyID_length hkey
  have hlength := length_identityPayload i keyID
  have hidLength := isLowerHex32_length hid
  unfold decodeIdentityPayload
  rw [if_neg (by rw [← length_eq_zero_iff, length_hexEncode]; omega), hexDecode_hexEncode]
  dsimp only
  rw [keyLength_identityPayload i keyID hle, if_neg (by omega), drop_identityPayload_keyID,
    take_left, if_pos hkey]

def truncate (t : Time) : Time := t / second * second

theorem ofUnix_unix (t : Time) : ofUnix (unix t) = truncate t := by
  unfold ofUnix unix truncate
  rw [Int.sub_add_cancel]

theorem truncate_le (t : Time) : truncate t ≤ t := Int.ediv_mul_le t (by decide)

def Identity.carried (i : Identity) : Identity :=
  { i with issuedAt := truncate i.issuedAt, expiresAt := truncate i.expiresAt }

theorem decodeIdentity_identityPayload {keyID : Octets} (hkey : validKeyID p keyID = true)
    (hversion : i.version = tokenVersion) (hid : isLowerHex32 i.id = true)
    (hissued : Int64 (unix i.issuedAt)) (hexpires : Int64 (unix i.expiresAt)) :
    decodeIdentity (identityPayload i keyID) = some i.carried := by
  have hle := (validKeyID_length hkey).2
  have hlength := length_identityPayload i keyID
  have hidLength := isLowerHex32_length hid
  have hnumber : number (ofNumber 2 i.id.length) = 32 := by
    rw [number_ofNumber (by omega), hidLength]
  have hhead : (((identityPayload i keyID).headD 0).toNat : ℤ) = i.version := by
    rw [hversion, identityPayload, hversion]
    rfl
  unfold decodeIdentity
  dsimp only
  rw [keyLength_identityPayload i keyID hle, drop_identityPayload_issued,
    drop_identityPayload_expires, drop_identityPayload_idLength, drop_identityPayload_id,
    take_left' (length_ofNumber 8 _), take_left' (length_ofNumber 8 _),
    take_left' (length_ofNumber 2 _), hnumber, number_ofNumber (unsigned_lt _),
    number_ofNumber (unsigned_lt _), signed_unsigned hissued, signed_unsigned hexpires,
    ofUnix_unix, ofUnix_unix, hhead, hid, if_neg (by simp; omega)]
  rfl

theorem splitPoint_append {payload signature : Octets} (hpayload : 46 ∉ payload)
    (hsignature : 46 ∉ signature) :
    splitPoint (payload ++ 46 :: signature) = some (payload, signature) := by
  have hall : ∀ c ∈ payload, decide (c ≠ 46) = true := fun c hc =>
    decide_eq_true fun h => hpayload (h ▸ hc)
  unfold splitPoint
  rw [dropWhile_append_of_pos hall, takeWhile_append_of_pos hall]
  simp [hsignature]

theorem eq_of_splitPoint {text payload signature : Octets}
    (h : splitPoint text = some (payload, signature)) : text = payload ++ 46 :: signature := by
  unfold splitPoint at h
  split at h
  · cases h
  rename_i c rest hdrop
  split at h
  · cases h
  obtain ⟨rfl, rfl⟩ := h
  have hc : c = 46 := by
    have hhead := head?_dropWhile_not (fun c => decide (c ≠ 46)) text
    rw [hdrop] at hhead
    simpa using hhead
  conv_lhs => rw [← takeWhile_append_dropWhile (p := fun c => decide (c ≠ 46)) (l := text)]
  rw [hdrop, hc]

theorem point_notMem_hexEncode (o : Octets) : 46 ∉ hexEncode o := by
  intro h
  have hdigit := mem_hexEncode h
  have hpoint : (46 : UInt8).toNat = 46 := rfl
  omega

/-! ## Signing and verifying -/

def cookie (p : Platform) (key payload : Octets) : Octets :=
  ascii "anon1_" ++ (payload ++ 46 :: hexEncode (p.hmac key (macMessage payload)))

structure Made (p : Platform) (r : Signed) : Prop where
  version : r.identity.version = tokenVersion
  id : isLowerHex32 r.identity.id = true
  active : r.signer.activeHMACKey p = some (r.keyID, r.key)
  payload : r.payload = hexEncode (identityPayload r.identity r.keyID)
  value : r.value = cookie p r.key r.payload

variable {s : Signer}

theorem Signer.sign_ok {now : Time} {r : Signed}
    (h : s.sign p now i = .ok r) : Made p r ∧ r.signer = s ∧ r.now = now ∧
      r.identity = { i with version := if i.version = 0 then tokenVersion else i.version } := by
  unfold Signer.sign at h
  dsimp only at h
  generalize (if i.version = 0 then tokenVersion else i.version) = version at h ⊢
  split at h
  · cases h
  rename_i hidentity
  split at h
  · cases h
  split at h
  · cases h
  rename_i keyID key hactive
  cases h
  simp only [not_or, not_not, Bool.not_eq_false] at hidentity
  exact ⟨⟨hidentity.1, hidentity.2, hactive, rfl, rfl⟩, rfl, rfl, rfl⟩

theorem Signer.activeHMACKey_valid {id key : Octets}
    (h : s.activeHMACKey p = some (id, key)) : validKeyID p id = true := by
  unfold Signer.activeHMACKey at h
  split at h
  · have hcheck := (Option.filter_eq_some_iff.mp h).2
    rw [Bool.and_eq_true] at hcheck
    exact hcheck.1
  · dsimp only at h
    generalize (if s.keyID₀ = [] then ascii "default" else s.keyID₀) = id₀ at h
    split at h
    · rename_i hcheck
      cases h
      exact hcheck.2
    · cases h

theorem Signer.verifyValue_cookie {r : Signed} (hr : Made p r)
    (hissued : Int64 (unix r.identity.issuedAt)) (hexpires : Int64 (unix r.identity.expiresAt))
    {log : List (Octets × Octets)} (hlog : (r.key, r.payload) ∈ log)
    (hkey : s.hmacKey p r.keyID = some r.key) (t : Time) : s.verifyValue p log t r.value =
      if r.identity.carried.accepted t s.ttl then some (r.identity.carried, r.keyID) else none := by
  have hvalid := Signer.activeHMACKey_valid hr.active
  have hpayload := hr.payload
  have hdecode : decodeIdentityPayload p r.payload =
      some (identityPayload r.identity r.keyID, r.keyID) := by
    rw [hpayload]
    exact decodeIdentityPayload_hexEncode hvalid hr.id
  have hpoint : 46 ∉ r.payload := by
    rw [hpayload]
    exact point_notMem_hexEncode _
  have hstart : (ascii "anon1_").isPrefixOf r.value = true := by
    rw [hr.value, cookie]
    exact isPrefixOf_iff_prefix.mpr (prefix_append _ _)
  have hdrop : r.value.drop 6 =
      r.payload ++ 46 :: hexEncode (p.hmac r.key (macMessage r.payload)) := by
    rw [hr.value, cookie]
    exact drop_left' rfl
  have htext : ¬ (r.payload = [] ∨ hexEncode (p.hmac r.key (macMessage r.payload)) = [] ∨
      r.payload.any isCapital = true ∨
      (hexEncode (p.hmac r.key (macMessage r.payload))).any isCapital = true) := by
    simp only [not_or, Bool.not_eq_true, any_eq_false]
    refine ⟨?_, ?_, ?_, fun _ => isCapital_of_mem_hexEncode⟩
    · rw [hpayload, ← length_eq_zero_iff, length_hexEncode, length_identityPayload]
      omega
    · rw [← length_eq_zero_iff, length_hexEncode, p.length_hmac]
      omega
    · rw [hpayload]
      exact fun _ => isCapital_of_mem_hexEncode
  unfold Signer.verifyValue
  rw [hstart, if_neg (by decide), hdrop, splitPoint_append hpoint (point_notMem_hexEncode _)]
  dsimp only
  rw [if_neg htext, hexDecode_hexEncode, hdecode]
  dsimp only
  rw [hkey]
  dsimp only
  rw [if_pos ⟨rfl, hlog⟩,
    decodeIdentity_identityPayload hvalid hr.version hr.id hissued hexpires, Option.filter_some]
  by_cases haccepted : r.identity.carried.accepted t s.ttl
  · rw [if_pos (decide_eq_true haccepted), if_pos haccepted]
    rfl
  · rw [if_neg (by simpa using haccepted), if_neg haccepted]
    rfl

theorem Signer.verifyValue_some {log : List (Octets × Octets)} {t : Time}
    {value : Octets} {result : Identity × Octets} (h : s.verifyValue p log t value = some result) :
    ∃ key payload, (key, payload) ∈ log ∧ value = cookie p key payload := by
  unfold Signer.verifyValue at h
  split at h
  · cases h
  rename_i hstart
  rw [Bool.not_eq_false, isPrefixOf_iff_prefix] at hstart
  obtain ⟨text, rfl⟩ := hstart
  have hsix : (ascii "anon1_" ++ text).drop 6 = text := drop_left' rfl
  rw [hsix] at h
  split at h
  · cases h
  rename_i payload signature hsplit
  split at h
  · cases h
  rename_i htext
  simp only [not_or, Bool.not_eq_true, any_eq_false] at htext
  split at h
  · rename_i tag raw keyID htag hraw
    split at h
    · cases h
    rename_i key hkey
    split at h
    · rename_i hmac
      refine ⟨key, payload, hmac.2, ?_⟩
      rw [cookie, hmac.1, ← hexEncode_of_hexDecode htext.2.2.2 htag, ← eq_of_splitPoint hsplit]
    · cases h
  · cases h

def Fits (now : Time) (ttl : ℤ) : Prop :=
  truncate (now + ttl) ≤ now ∨
    (truncate (now + ttl) ≠ 0 ∧ truncate (now + ttl) ≤ truncate now + ttl)

instance (now : Time) (ttl : ℤ) : Decidable (Fits now ttl) := inferInstanceAs (Decidable (_ ∨ _))

theorem accepted_iff_fits {now : Time} {ttl : ℤ} (hversion : i.version = tokenVersion)
    (hissued : i.issuedAt = now) (hexpires : i.expiresAt = now + ttl) :
    (∀ t, now ≤ t → t < truncate (now + ttl) → i.carried.accepted t ttl) ↔ Fits now ttl := by
  have hpos : 0 ≤ skew := by decide
  have hcarried : i.carried.issuedAt = truncate now ∧ i.carried.expiresAt = truncate (now + ttl) :=
    ⟨congrArg truncate hissued, congrArg truncate hexpires⟩
  unfold Identity.accepted expired
  rw [hcarried.1, hcarried.2]
  constructor
  · intro hall
    by_cases hmoment : truncate (now + ttl) ≤ now
    · exact .inl hmoment
    · obtain ⟨-, hexpired, -, hwithin⟩ := hall now (Int.le_refl _) (Int.not_le.mp hmoment)
      rw [decide_eq_false_iff_not, not_or] at hexpired
      exact .inr ⟨hexpired.1, Int.not_lt.mp hwithin⟩
  · intro hfits t hnow hexpiry
    rcases hfits with hmoment | ⟨hzero, hwithin⟩
    · exact absurd (Int.lt_of_lt_of_le hexpiry hmoment) (Int.not_lt.mpr hnow)
    · refine ⟨hversion, ?_, ?_, Int.not_lt.mpr hwithin⟩
      · rw [decide_eq_false_iff_not, not_or]
        exact ⟨hzero, Int.not_le.mpr hexpiry⟩
      · exact Int.not_lt.mpr (Int.le_trans (truncate_le now)
          (Int.le_trans hnow (Int.le_add_of_nonneg_right hpos)))

example : ¬ Fits (9 * 10 ^ 8) (15 * 10 ^ 8) := by decide

end Scenery.Token
