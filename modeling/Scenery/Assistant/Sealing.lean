import Scenery.Assistant.Tokens

/-!
# Sealing and opening

What a successful sealing has checked, that the envelope is read back, and from both what opening
a sealed token yields: the claims as they are unmarshalled, if they pass the checks of the opening
side.
-/

namespace Scenery.Token

open Octets List

variable {p : Platform} {C : Type} {K : Kind p C}

/-! ## Checks -/

def ValidString (p : Platform) (value : Octets) : Prop :=
  value ≠ [] ∧ value.length ≤ 1024 ∧ p.validUTF8 value = true ∧ 0 ∉ value

instance (value : Octets) : Decidable (ValidString p value) := inferInstanceAs (Decidable (_ ∧ _))

theorem validateTokenString_ok (name : String) {value : Octets} :
    validateTokenString p name value true = .ok () ↔ ValidString p value := by
  unfold validateTokenString ValidString
  by_cases hempty : value = []
  · simp [hempty]
  · by_cases hbad : 1024 < value.length ∨ p.validUTF8 value = false ∨ 0 ∈ value
    · rw [if_neg hempty, if_pos hbad]
      refine ⟨nofun, ?_⟩
      rintro ⟨-, hlength, hvalid, hzero⟩
      rcases hbad with h | h | h
      · omega
      · rw [hvalid] at h
        cases h
      · exact absurd h hzero
    · rw [if_neg hempty, if_neg hbad]
      simp only [not_or, Bool.not_eq_false] at hbad
      exact ⟨fun _ => ⟨hempty, by omega, hbad.2.1, hbad.2.2⟩, fun _ => rfl⟩

theorem validateFields_ok {fields : List (String × Octets)} :
    validateFields p fields = .ok () ↔ ∀ field ∈ fields, ValidString p field.2 := by
  induction fields with
  | nil => simp [validateFields]
  | cons field rest ih =>
    obtain ⟨name, value⟩ := field
    rw [forall_mem_cons, ← validateTokenString_ok name, ← ih, validateFields]
    cases validateTokenString p name value true with
    | error | ok => simp

structure Timed (issued expires issuedAt expiresAt now : Time) (ttl : ℤ) : Prop where
  issuedAt_eq : issuedAt = if issued = 0 then now else issued
  expiresAt_eq : expiresAt = if expires = 0 then issuedAt + ttl else expires
  expiresAt_ne : expiresAt ≠ 0
  issued_lt : issuedAt < expiresAt
  now_lt : now < expiresAt
  within : expiresAt ≤ issuedAt + ttl
  issued_le : issuedAt ≤ now + skew

theorem normalizeClaimsTimes_ok {version version' : ℤ} {issued expires now i e : Time} {ttl : ℤ}
    (h : normalizeClaimsTimes version issued expires now ttl = .ok (version', i, e)) :
    version' = tokenVersion ∧ (version = 0 ∨ version = tokenVersion) ∧
      Timed issued expires i e now ttl := by
  unfold normalizeClaimsTimes at h
  dsimp only at h
  generalize hv : (if version = 0 then tokenVersion else version) = v at h
  generalize hi : (if issued = 0 then now else issued) = i₀ at h
  generalize he : (if expires = 0 then i₀ + ttl else expires) = e₀ at h
  split at h
  · cases h
  rename_i hversion
  split at h
  · cases h
  rename_i horder
  split at h
  · cases h
  rename_i hwithin
  split at h
  · cases h
  rename_i hskew
  obtain ⟨rfl, rfl, rfl⟩ := h
  rw [not_not] at hversion
  simp only [not_or] at horder
  refine ⟨hversion, ?_, hi.symm, he.symm, horder.1, Int.not_le.mp horder.2.1,
    Int.not_le.mp horder.2.2, Int.not_lt.mp hwithin, Int.not_lt.mp hskew⟩
  by_cases hzero : version = 0
  · exact .inl hzero
  · rw [if_neg hzero] at hv
    exact .inr (hv.trans hversion)

theorem isLowerHex32_hexEncode {o : Octets} (h : o.length = 16) :
    isLowerHex32 (hexEncode o) = true := by
  have hlower : (hexEncode o).any (fun c => 65 ≤ c.toNat ∧ c.toNat ≤ 70) = false := by
    rw [any_eq_false]
    intro c hc
    have hdigit := mem_hexEncode hc
    simp only [decide_eq_true_eq]
    omega
  have hdigits : (hexEncode o).any (fun c =>
      (c.toNat < 48 ∨ 57 < c.toNat) ∧ (c.toNat < 97 ∨ 102 < c.toNat)) = false := by
    rw [any_eq_false]
    intro c hc
    have hdigit := mem_hexEncode hc
    simp only [decide_eq_true_eq]
    omega
  have hdecode : decodeLowerHex (hexEncode o) = some o := by
    unfold decodeLowerHex
    rw [if_neg (by rw [length_hexEncode]; omega), if_neg (by rw [hdigits]; decide),
      hexDecode_hexEncode]
  unfold isLowerHex32 lowerHex
  rw [if_neg (by rw [hlower]; decide), hdecode, length_hexEncode, h]
  simp

theorem validUTF8_hexEncode (p : Platform) (o : Octets) : p.validUTF8 (hexEncode o) = true := by
  refine p.valid_ascii _ fun c hc => ?_
  have hdigit := mem_hexEncode hc
  omega

structure Kind.Lawful (K : Kind p C) (decode : C → C) : Prop where
  marshal : ∀ c b, K.marshal c = .ok b → 0 < p.size b ∧ K.unmarshal b = some (decode c)
  version : ∀ c v i e n, K.version (K.complete c v i e n) = v
  issuedAt : ∀ c v i e n, K.issuedAt (K.complete c v i e n) = i
  expiresAt : ∀ c v i e n, K.expiresAt (K.complete c v i e n) = e
  nonce : ∀ c v i e n, K.nonce (K.complete c v i e n) = n
  sealed : ∀ c v i e n, K.sealed (K.complete c v i e n) = K.sealed c

theorem conversation_lawful (p : Platform) :
    (conversationKind p).Lawful (ConversationClaims.mapStrings p.toValidUTF8) :=
  ⟨p.conversation, fun _ _ _ _ _ => rfl, fun _ _ _ _ _ => rfl, fun _ _ _ _ _ => rfl,
    fun _ _ _ _ _ => rfl, fun _ _ _ _ _ => rfl⟩

theorem approval_lawful (p : Platform) :
    (approvalKind p).Lawful (ApprovalClaims.mapStrings p.toValidUTF8) :=
  ⟨p.approval, fun _ _ _ _ _ => rfl, fun _ _ _ _ _ => rfl, fun _ _ _ _ _ => rfl,
    fun _ _ _ _ _ => rfl, fun _ _ _ _ _ => rfl⟩

/-! ## What a sealing has checked -/

structure Kind.Sealed (K : Kind p C) (r : Issued p C) : Prop where
  completed : ∃ random, r.claims = K.complete r.input tokenVersion (K.issuedAt r.claims)
    (K.expiresAt r.claims) (if K.nonce r.input = [] then hexEncode random else K.nonce r.input)
  input_version : K.version r.input = 0 ∨ K.version r.input = tokenVersion
  version : K.version r.claims = tokenVersion
  timed : Timed (K.issuedAt r.input) (K.expiresAt r.input) (K.issuedAt r.claims)
    (K.expiresAt r.claims) r.now r.manager.ttl
  fields : ∀ field ∈ K.sealed r.claims, ValidString p field.2
  nonce : ∃ o : Octets, o.length = 16 ∧ K.nonce r.claims = hexEncode o
  marshalled : K.marshal r.claims = .ok r.entry.payload
  size : p.size r.entry.payload ≤ 4096
  active : r.manager.keys.active = some (r.keyID, r.entry.key)
  keyID : validKeyID p r.keyID = true
  key : validAESKey r.entry.key = true
  gcm : r.entry.nonce.length = 12
  aad : r.entry.aad = K.makeAAD r.keyID
  short : (envelope r.keyID r.entry.nonce r.entry.ciphertext).length * 2 ≤ 8192
  token : r.token = K.tokenPrefix ++ hexEncode (envelope r.keyID r.entry.nonce r.entry.ciphertext)

variable {decode : C → C}

theorem Kind.validate_ok (law : K.Lawful decode) {input claims : C} {now : Time}
    {ttl : ℤ} {random : Octets} (h : K.validate input now ttl random = .ok claims) :
    (claims = K.complete input tokenVersion (K.issuedAt claims) (K.expiresAt claims)
      (if K.nonce input = [] then hexEncode random else K.nonce input)) ∧
    (K.version input = 0 ∨ K.version input = tokenVersion) ∧ K.version claims = tokenVersion ∧
    Timed (K.issuedAt input) (K.expiresAt input) (K.issuedAt claims) (K.expiresAt claims) now ttl ∧
    (∀ field ∈ K.sealed claims, ValidString p field.2) ∧
    ∃ o : Octets, o.length = 16 ∧ K.nonce claims = hexEncode o := by
  unfold Kind.validate at h
  split at h
  · cases h
  rename_i version i e htimes
  split at h
  · cases h
  rename_i hfields
  dsimp only at h
  generalize hnonce : (if K.nonce input = [] then hexEncode random else K.nonce input) = nonce at h
  split at h
  · cases h
  rename_i hhex
  cases h
  obtain ⟨rfl, hversion, htimed⟩ := normalizeClaimsTimes_ok htimes
  simp only [not_or, not_not, Bool.not_eq_true, any_eq_false] at hhex
  obtain ⟨hlength, hcapital, hdecode⟩ := hhex
  obtain ⟨o, ho⟩ := Option.ne_none_iff_exists'.mp hdecode
  have htext := hexEncode_of_hexDecode hcapital ho
  simp only [law.version, law.issuedAt, law.expiresAt, law.nonce, law.sealed]
  refine ⟨trivial, hversion, trivial, htimed, validateFields_ok.mp hfields, o, ?_, htext⟩
  rw [htext, length_hexEncode] at hlength
  omega

variable {r : Issued p C} {m : Manager}

theorem Kind.seal_ok (law : K.Lawful decode) {now : Time} {input : C} {random nonce : Octets}
    (hgcm : nonce.length = 12) (h : K.seal m now input random nonce = .ok r) :
    K.Sealed r ∧ r.manager = m ∧ r.now = now ∧ r.input = input := by
  unfold Kind.seal at h
  split at h
  · cases h
  rename_i claims hvalidate
  split at h
  · cases h
  rename_i payload hmarshal
  split at h
  · cases h
  rename_i keyID entry token hseal
  cases h
  obtain ⟨hcompleted, hinput, hversion, htimed, hfields, hnonce⟩ := Kind.validate_ok law hvalidate
  -- the payload
  unfold Kind.marshalClaims at hmarshal
  split at hmarshal
  · cases hmarshal
  rename_i payload' hpayload
  split at hmarshal
  · cases hmarshal
  rename_i hsize
  cases hmarshal
  -- the envelope
  unfold Kind.sealEnvelope at hseal
  split at hseal
  · cases hseal
  rename_i id key hactive
  dsimp only at hseal
  split at hseal
  · cases hseal
  rename_i hshort
  obtain ⟨rfl, rfl, rfl⟩ := hseal
  unfold activeKey at hactive
  split at hactive
  · cases hactive
  rename_i id' key' hring
  split at hactive
  · rename_i hkey
    obtain ⟨rfl, rfl⟩ := hactive
    rw [Bool.and_eq_true] at hkey
    exact ⟨⟨⟨random, hcompleted⟩, hinput, hversion, htimed, hfields, hnonce, hpayload,
      Nat.le_of_not_lt hsize, hring, hkey.1, hkey.2, hgcm, rfl, Nat.le_of_not_lt hshort, rfl⟩,
      rfl, rfl, rfl⟩
  · cases hactive

/-! ## The envelope is read back -/

theorem validKeyID_length {id : Octets} (h : validKeyID p id = true) :
    0 < id.length ∧ id.length ≤ 128 := by
  unfold validKeyID at h
  simp only [decide_eq_true_eq] at h
  exact ⟨length_pos_iff.mpr h.1, h.2.1⟩

theorem length_envelope (keyID nonce ciphertext : Octets) :
    (envelope keyID nonce ciphertext).length =
      2 + (keyID.length + (nonce.length + ciphertext.length)) := by
  simp [envelope]

theorem parseEnvelope_envelope {tokenPrefix keyID nonce ciphertext : Octets}
    (hid : 0 < keyID.length ∧ keyID.length ≤ 128) (hnonce : nonce.length = 12)
    (hcipher : 16 ≤ ciphertext.length)
    (hshort : (envelope keyID nonce ciphertext).length * 2 ≤ 8192) :
    parseEnvelope tokenPrefix (tokenPrefix ++ hexEncode (envelope keyID nonce ciphertext)) =
      some (keyID, nonce, ciphertext) := by
  have hlength := length_envelope keyID nonce ciphertext
  have hstart : tokenPrefix.isPrefixOf
      (tokenPrefix ++ hexEncode (envelope keyID nonce ciphertext)) = true :=
    isPrefixOf_iff_prefix.mpr (prefix_append _ _)
  have htext : ¬ (hexEncode (envelope keyID nonce ciphertext) = [] ∨
      (hexEncode (envelope keyID nonce ciphertext)).length % 2 ≠ 0 ∨
      8192 < (hexEncode (envelope keyID nonce ciphertext)).length ∨
      (hexEncode (envelope keyID nonce ciphertext)).any isCapital = true) := by
    simp only [not_or, Bool.not_eq_true, any_eq_false, ← length_eq_zero_iff,
      length_hexEncode]
    exact ⟨by omega, by omega, by omega, fun _ => isCapital_of_mem_hexEncode⟩
  have hnumber : number ((envelope keyID nonce ciphertext).take 2) = keyID.length := by
    rw [envelope, take_left' (length_ofNumber 2 _)]
    exact number_ofNumber (by omega)
  have hdrop : (envelope keyID nonce ciphertext).drop 2 = keyID ++ (nonce ++ ciphertext) := by
    rw [envelope, drop_left' (length_ofNumber 2 _)]
  unfold parseEnvelope
  rw [hstart, if_neg (by decide)]
  rw [drop_left, if_neg htext, hexDecode_hexEncode]
  dsimp only
  rw [hnumber, if_neg (by omega)]
  simp only [← drop_drop]
  rw [hdrop, take_left, drop_left, take_left' hnonce, drop_left' hnonce]

variable {token : Octets}

theorem eq_of_parseEnvelope {tokenPrefix keyID nonce ciphertext : Octets}
    (h : parseEnvelope tokenPrefix token = some (keyID, nonce, ciphertext)) :
    token = tokenPrefix ++ hexEncode (envelope keyID nonce ciphertext) := by
  unfold parseEnvelope at h
  split at h
  · cases h
  rename_i hstart
  rw [Bool.not_eq_false, isPrefixOf_iff_prefix] at hstart
  obtain ⟨encoded, rfl⟩ := hstart
  dsimp only at h
  rw [drop_left] at h
  split at h
  · cases h
  rename_i htext
  simp only [not_or, Bool.not_eq_true, any_eq_false] at htext
  split at h
  · cases h
  rename_i raw hraw
  split at h
  · cases h
  obtain ⟨rfl, rfl, rfl⟩ := h
  rw [hexEncode_of_hexDecode htext.2.2.2 hraw]
  congr 2
  -- the two octets of the length, and then the three parts in order
  have hid : ((raw.drop 2).take (number (raw.take 2))).length = number (raw.take 2) := by
    rw [length_take, length_drop]
    omega
  have htwo : ofNumber 2 (number (raw.take 2)) = raw.take 2 :=
    ofNumber_number (by rw [length_take]; omega)
  rw [envelope, hid, htwo]
  simp only [← drop_drop, take_append_drop]

/-! ## Opening -/

variable {entries : List (Entry p)}

theorem decrypt_entry {e : Entry p} (h : e ∈ entries) :
    decrypt entries e.key e.nonce e.aad e.ciphertext = some e.payload := by
  unfold decrypt
  cases hfind : entries.find? fun e' => e'.key = e.key ∧ e'.nonce = e.nonce ∧ e'.aad = e.aad ∧
      e'.ciphertext = e.ciphertext with
  | none =>
    have hno := find?_eq_none.mp hfind e h
    simp at hno
  | some e' =>
    have hsame := find?_some hfind
    rw [decide_eq_true_eq] at hsame
    obtain ⟨hkey, hnonce, haad, hcipher⟩ := hsame
    unfold Entry.ciphertext at hcipher
    rw [hkey, hnonce, haad] at hcipher
    exact congrArg some (p.encrypt_inj _ _ _ _ _ hcipher)

theorem decrypt_some {key nonce aad ciphertext : Octets} {b : p.Payload}
    (h : decrypt entries key nonce aad ciphertext = some b) :
    ∃ e ∈ entries, e.nonce = nonce ∧ e.aad = aad ∧ e.ciphertext = ciphertext ∧ e.payload = b := by
  obtain ⟨e, hfind, hpayload⟩ := Option.map_eq_some_iff.mp h
  have hsame := find?_some hfind
  rw [decide_eq_true_eq] at hsame
  exact ⟨e, mem_of_find?_eq_some hfind, hsame.2.1, hsame.2.2.1, hsame.2.2.2, hpayload⟩

theorem Kind.openEnvelope_token (hr : K.Sealed r) (hmem : r.entry ∈ entries) {keys : Keyring}
    (hkeys : keys.key r.keyID = some r.entry.key) :
    K.openEnvelope entries keys r.token = some r.entry.payload := by
  have hcipher : 16 ≤ r.entry.ciphertext.length := by
    rw [Entry.ciphertext, p.length_encrypt]
    omega
  have hkey : keyFor p keys r.keyID = some r.entry.key := by
    rw [keyFor, if_pos hr.keyID, hkeys, Option.filter_some, if_pos hr.key]
  unfold Kind.openEnvelope
  rw [hr.token, parseEnvelope_envelope (validKeyID_length hr.keyID) hr.gcm hcipher hr.short]
  dsimp only
  rw [hkey, ← hr.aad]
  exact decrypt_entry hmem

theorem Kind.openEnvelope_some {keys : Keyring} {b : p.Payload}
    (h : K.openEnvelope entries keys token = some b) :
    ∃ e ∈ entries, ∃ keyID, e.aad = K.makeAAD keyID ∧ e.payload = b ∧
      token = K.tokenPrefix ++ hexEncode (envelope keyID e.nonce e.ciphertext) := by
  unfold Kind.openEnvelope at h
  split at h
  · cases h
  rename_i keyID nonce ciphertext hparse
  split at h
  · cases h
  obtain ⟨e, he, rfl, haad, rfl, hpayload⟩ := decrypt_some h
  exact ⟨e, he, keyID, haad, hpayload, eq_of_parseEnvelope hparse⟩

theorem Kind.unseal_token (law : K.Lawful decode) (hr : K.Sealed r) (hmem : r.entry ∈ entries)
    (hkeys : m.keys.key r.keyID = some r.entry.key) (t : Time) :
    K.unseal entries m t r.token = (some (decode r.claims)).filter fun claims =>
      decide (K.current claims t ∧ K.validDecoded claims m.ttl) := by
  obtain ⟨hpos, hdecode⟩ := law.marshal _ _ hr.marshalled
  have hsize := hr.size
  unfold Kind.unseal
  rw [Kind.openEnvelope_token hr hmem hkeys]
  dsimp only
  rw [if_neg (by omega), hdecode]

theorem Kind.unseal_some {t : Time} {claims : C} (h : K.unseal entries m t token = some claims) :
    ∃ e ∈ entries, ∃ keyID, e.aad = K.makeAAD keyID ∧ K.unmarshal e.payload = some claims ∧
      token = K.tokenPrefix ++ hexEncode (envelope keyID e.nonce e.ciphertext) := by
  unfold Kind.unseal at h
  split at h
  · cases h
  rename_i b hopen
  split at h
  · cases h
  obtain ⟨e, he, keyID, haad, rfl, htoken⟩ := Kind.openEnvelope_some hopen
  exact ⟨e, he, keyID, haad, (Option.filter_eq_some_iff.mp h).1, htoken⟩

theorem Kind.Sealed.current (hr : K.Sealed r) {t : Time}
    (hissue : r.now ≤ t ∨ K.issuedAt r.claims ≤ t) (hexpiry : t < K.expiresAt r.claims) :
    K.current r.claims t := by
  refine ⟨hr.version, ?_, ?_⟩
  · rw [expired, decide_eq_false_iff_not, not_or]
    exact ⟨hr.timed.expiresAt_ne, Int.not_le.mpr hexpiry⟩
  · have hskew := hr.timed.issued_le
    have hpos : 0 ≤ skew := by decide
    rw [Int.not_lt]
    rcases hissue with h | h
    · exact Int.le_trans hskew (Int.add_le_add_right h skew)
    · exact Int.le_trans h (Int.le_add_of_nonneg_right hpos)

theorem Kind.Sealed.validDecoded_iff (hr : K.Sealed r) :
    K.validDecoded r.claims r.manager.ttl ↔
      K.issuedAt r.claims ≠ 0 ∧ ∀ field ∈ K.opened r.claims, ValidString p field.2 := by
  obtain ⟨o, ho, hnonce⟩ := hr.nonce
  have hhex : isLowerHex32 (K.nonce r.claims) = true := by
    rw [hnonce]
    exact isLowerHex32_hexEncode ho
  rw [← validateFields_ok]
  constructor
  · rintro ⟨-, hissued, -, -, -, hfields, -⟩
    exact ⟨hissued, hfields⟩
  · rintro ⟨hissued, hfields⟩
    exact ⟨hr.version, hissued, hr.timed.expiresAt_ne, hr.timed.issued_lt, hr.timed.within, hfields,
      hhex⟩

theorem Kind.opens_iff (law : K.Lawful decode) (hr : K.Sealed r) (hmem : r.entry ∈ entries)
    (hkeys : m.keys.key r.keyID = some r.entry.key) (httl : m.ttl = r.manager.ttl) :
    (∀ t, (r.now ≤ t ∨ K.issuedAt r.claims ≤ t) → t < K.expiresAt r.claims →
      K.unseal entries m t r.token = some r.claims) ↔
    decode r.claims = r.claims ∧ K.issuedAt r.claims ≠ 0 ∧
      ∀ field ∈ K.opened r.claims, ValidString p field.2 := by
  rw [← hr.validDecoded_iff, ← httl]
  constructor
  · intro hopens
    -- the time of the sealing is before the expiry
    have hnow := hopens r.now (.inl (Int.le_refl _)) hr.timed.now_lt
    rw [Kind.unseal_token law hr hmem hkeys, Option.filter_eq_some_iff] at hnow
    obtain ⟨hsame, hcheck⟩ := hnow
    exact ⟨Option.some.inj hsame, (of_decide_eq_true hcheck).2⟩
  · rintro ⟨hsame, hvalid⟩ t hissue hexpiry
    rw [Kind.unseal_token law hr hmem hkeys, hsame, Option.filter_eq_some_iff]
    exact ⟨rfl, decide_eq_true ⟨hr.current hissue hexpiry, hvalid⟩⟩

end Scenery.Token
