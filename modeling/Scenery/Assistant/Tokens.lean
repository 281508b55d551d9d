import Scenery.Octets
import Scenery.Runs

/-!
# Assistant tokens

Conversation handles and approval tokens are sealed claims: the claims are checked and completed,
marshalled, encrypted under the active key with the kind of token and the key id as associated
data, and written in hexadecimal behind a prefix.
-/

namespace Scenery.Token

open Octets

abbrev Time := ℤ

def second : ℤ := 10 ^ 9

def skew : ℤ := 5 * 60 * second

def defaultTokenTTL : ℤ := 24 * 60 * 60 * second

def maxCookieTTL : ℤ := 30 * 24 * 60 * 60 * second

def tokenVersion : ℤ := 1

def errKeyUnavailable : String := "assistant token key unavailable"

structure ConversationClaims where
  version : ℤ
  assistantAddress : Octets
  nonce : Octets
  ownerDigest : Octets
  conversationDigest : Octets
  privateSessionID : Octets
  continuationToken : Octets
  issuedAt : Time
  expiresAt : Time
  deriving DecidableEq

structure ApprovalClaims where
  version : ℤ
  assistantAddress : Octets
  conversationDigest : Octets
  runID : Octets
  approvalID : Octets
  ownerDigest : Octets
  decisionContext : Octets
  nonce : Octets
  issuedAt : Time
  expiresAt : Time
  deriving DecidableEq

def ConversationClaims.mapStrings (f : Octets → Octets) (c : ConversationClaims) :
    ConversationClaims :=
  { c with
    assistantAddress := f c.assistantAddress
    nonce := f c.nonce
    ownerDigest := f c.ownerDigest
    conversationDigest := f c.conversationDigest
    privateSessionID := f c.privateSessionID
    continuationToken := f c.continuationToken }

def ApprovalClaims.mapStrings (f : Octets → Octets) (c : ApprovalClaims) : ApprovalClaims :=
  { c with
    assistantAddress := f c.assistantAddress
    conversationDigest := f c.conversationDigest
    runID := f c.runID
    approvalID := f c.approvalID
    ownerDigest := f c.ownerDigest
    decisionContext := f c.decisionContext
    nonce := f c.nonce }

structure Platform where
  validUTF8 : Octets → Bool
  toValidUTF8 : Octets → Octets
  Payload : Type
  [decEq : DecidableEq Payload]
  size : Payload → ℕ
  marshalConversation : ConversationClaims → Except String Payload
  unmarshalConversation : Payload → Option ConversationClaims
  marshalApproval : ApprovalClaims → Except String Payload
  unmarshalApproval : Payload → Option ApprovalClaims
  encrypt : Octets → Octets → Octets → Payload → Octets
  hmac : Octets → Octets → Octets
  conversationDigest : Octets → Octets
  valid_ascii : ∀ o : Octets, (∀ c ∈ o, c.toNat < 128) → validUTF8 o = true
  toValid_of_valid : ∀ o, validUTF8 o = true → toValidUTF8 o = o
  valid_toValid : ∀ o, validUTF8 (toValidUTF8 o) = true
  conversation : ∀ c b, marshalConversation c = .ok b →
    0 < size b ∧ unmarshalConversation b = some (c.mapStrings toValidUTF8)
  approval : ∀ c b, marshalApproval c = .ok b →
    0 < size b ∧ unmarshalApproval b = some (c.mapStrings toValidUTF8)
  length_encrypt : ∀ key nonce aad b, (encrypt key nonce aad b).length = size b + 16
  encrypt_inj : ∀ key nonce aad b b', encrypt key nonce aad b = encrypt key nonce aad b' → b = b'
  length_hmac : ∀ key message, (hmac key message).length = 32

instance (p : Platform) : DecidableEq p.Payload := p.decEq

structure Keyring where
  active : Option (Octets × Octets)
  key : Octets → Option Octets

structure StaticKeyring where
  currentID : Octets
  currentKey : Octets
  previous : List (Octets × Octets)

def StaticKeyring.toKeyring (ring : StaticKeyring) : Keyring where
  active := if ring.currentID = [] ∨ ring.currentKey = [] then none
    else some (ring.currentID, ring.currentKey)
  key id := if id = ring.currentID ∧ ring.currentKey ≠ [] then some ring.currentKey
    else (ring.previous.lookup id).filter fun key => key ≠ []

structure Manager where
  keys : Keyring
  ttl₀ : ℤ

def Manager.ttl (m : Manager) : ℤ := if 0 < m.ttl₀ then m.ttl₀ else defaultTokenTTL

variable (p : Platform)

def validKeyID (id : Octets) : Bool :=
  id ≠ [] ∧ id.length ≤ 128 ∧ p.validUTF8 id = true ∧
    id.all fun c => ¬ (c.toNat ≤ 32 ∨ c = 58 ∨ c = 47 ∨ c = 92)

def validAESKey (key : Octets) : Bool := key.length = 16 ∨ key.length = 24 ∨ key.length = 32

def activeKey (keys : Keyring) : Except String (Octets × Octets) :=
  match keys.active with
  | none => .error errKeyUnavailable
  | some (id, key) =>
    if validKeyID p id && validAESKey key then .ok (id, key) else .error errKeyUnavailable

def keyFor (keys : Keyring) (id : Octets) : Option Octets :=
  if validKeyID p id then (keys.key id).filter validAESKey else none

def normalizeClaimsTimes (version : ℤ) (issuedAt expiresAt now : Time) (ttl : ℤ) :
    Except String (ℤ × Time × Time) :=
  let version := if version = 0 then tokenVersion else version
  if version ≠ tokenVersion then .error "unsupported assistant token version"
  else
    let issuedAt := if issuedAt = 0 then now else issuedAt
    let expiresAt := if expiresAt = 0 then issuedAt + ttl else expiresAt
    if expiresAt = 0 ∨ expiresAt ≤ issuedAt ∨ expiresAt ≤ now then
      .error "assistant token expiry must be after issue time and now"
    else if issuedAt + ttl < expiresAt then .error "assistant token expiry exceeds manager TTL"
    else if now + skew < issuedAt then
      .error "assistant token issue time is too far in the future"
    else .ok (version, issuedAt, expiresAt)

def validateTokenString (name : String) (value : Octets) (required : Bool) : Except String Unit :=
  if value = [] then
    if required then .error (name ++ " is required") else .ok ()
  else if 1024 < value.length ∨ p.validUTF8 value = false ∨ 0 ∈ value then
    .error (name ++ " is invalid")
  else .ok ()

def validateFields : List (String × Octets) → Except String Unit
  | [] => .ok ()
  | (name, value) :: rest =>
    match validateTokenString p name value true with
    | .error e => .error e
    | .ok () => validateFields rest

def lowerHex (value : Octets) : Octets :=
  if value.any fun c => 65 ≤ c.toNat ∧ c.toNat ≤ 70 then [] else value

def decodeLowerHex (value : Octets) : Option Octets :=
  if value.length % 2 ≠ 0 then none
  else if value.any fun c => (c.toNat < 48 ∨ 57 < c.toNat) ∧ (c.toNat < 97 ∨ 102 < c.toNat) then none
  else hexDecode value

def isLowerHex32 (value : Octets) : Bool :=
  value.length = 32 ∧ value = lowerHex value ∧ (decodeLowerHex value).isSome

/-! ## Kinds of sealed claims -/

structure Kind (C : Type) where
  word : String
  tokenPrefix : Octets
  aad : Octets
  marshal : C → Except String p.Payload
  unmarshal : p.Payload → Option C
  version : C → ℤ
  issuedAt : C → Time
  expiresAt : C → Time
  nonce : C → Octets
  complete : C → ℤ → Time → Time → Octets → C
  sealed : C → List (String × Octets)
  opened : C → List (String × Octets)

def conversationKind : Kind p ConversationClaims where
  word := "conversation"
  tokenPrefix := ascii "conv1_"
  aad := ascii "scenery.assistant-token/conversation/v1"
  marshal := p.marshalConversation
  unmarshal := p.unmarshalConversation
  version := ConversationClaims.version
  issuedAt := ConversationClaims.issuedAt
  expiresAt := ConversationClaims.expiresAt
  nonce := ConversationClaims.nonce
  complete c v i e n := { c with version := v, issuedAt := i, expiresAt := e, nonce := n }
  sealed c := [("assistant_address", c.assistantAddress), ("owner_digest", c.ownerDigest),
    ("private_session_id", c.privateSessionID), ("continuation_token", c.continuationToken)]
  opened c := [("assistant_address", c.assistantAddress), ("owner_digest", c.ownerDigest),
    ("conversation_digest", c.conversationDigest), ("private_session_id", c.privateSessionID),
    ("continuation_token", c.continuationToken)]

def approvalKind : Kind p ApprovalClaims where
  word := "approval"
  tokenPrefix := ascii "appr1_"
  aad := ascii "scenery.assistant-token/approval/v1"
  marshal := p.marshalApproval
  unmarshal := p.unmarshalApproval
  version := ApprovalClaims.version
  issuedAt := ApprovalClaims.issuedAt
  expiresAt := ApprovalClaims.expiresAt
  nonce := ApprovalClaims.nonce
  complete c v i e n := { c with version := v, issuedAt := i, expiresAt := e, nonce := n }
  sealed c := [("assistant_address", c.assistantAddress),
    ("conversation_digest", c.conversationDigest), ("run_id", c.runID),
    ("approval_id", c.approvalID), ("owner_digest", c.ownerDigest),
    ("decision_context", c.decisionContext)]
  opened c := [("assistant_address", c.assistantAddress),
    ("conversation_digest", c.conversationDigest), ("run_id", c.runID),
    ("approval_id", c.approvalID), ("owner_digest", c.ownerDigest),
    ("decision_context", c.decisionContext)]

structure Entry where
  key : Octets
  nonce : Octets
  aad : Octets
  payload : p.Payload

variable {p} {C : Type} (K : Kind p C)

def Entry.ciphertext (e : Entry p) : Octets := p.encrypt e.key e.nonce e.aad e.payload

def Kind.validate (claims : C) (now : Time) (ttl : ℤ) (random : Octets) : Except String C :=
  match normalizeClaimsTimes (K.version claims) (K.issuedAt claims) (K.expiresAt claims) now ttl with
  | .error e => .error e
  | .ok (version, issuedAt, expiresAt) =>
    match validateFields p (K.sealed claims) with
    | .error e => .error e
    | .ok () =>
      let nonce := if K.nonce claims = [] then hexEncode random else K.nonce claims
      if nonce.length ≠ 32 ∨ nonce.any isCapital ∨ hexDecode nonce = none then
        .error (K.word ++ " nonce must be lowercase hex")
      else .ok (K.complete claims version issuedAt expiresAt nonce)

def Kind.marshalClaims (claims : C) : Except String p.Payload :=
  match K.marshal claims with
  | .error e => .error e
  | .ok payload =>
    if 4096 < p.size payload then .error "assistant token claims exceed size limit" else .ok payload

def Kind.makeAAD (keyID : Octets) : Octets := K.aad ++ 0 :: keyID

def envelope (keyID nonce ciphertext : Octets) : Octets :=
  ofNumber 2 keyID.length ++ (keyID ++ (nonce ++ ciphertext))

def Kind.sealEnvelope (keys : Keyring) (payload : p.Payload) (nonce : Octets) :
    Except String (Octets × Entry p × Octets) :=
  match activeKey p keys with
  | .error e => .error e
  | .ok (keyID, key) =>
    let entry : Entry p := ⟨key, nonce, K.makeAAD keyID, payload⟩
    if 8192 < (envelope keyID nonce entry.ciphertext).length * 2 then
      .error "assistant token envelope exceeds size limit"
    else .ok (keyID, entry, K.tokenPrefix ++ hexEncode (envelope keyID nonce entry.ciphertext))

structure Issued (p : Platform) (C : Type) where
  manager : Manager
  now : Time
  input : C
  claims : C
  keyID : Octets
  entry : Entry p
  token : Octets

def Kind.seal (m : Manager) (now : Time) (input : C) (random nonce : Octets) :
    Except String (Issued p C) :=
  match K.validate input now m.ttl random with
  | .error e => .error e
  | .ok claims =>
    match K.marshalClaims claims with
    | .error e => .error e
    | .ok payload =>
      match K.sealEnvelope m.keys payload nonce with
      | .error e => .error e
      | .ok (keyID, entry, token) => .ok ⟨m, now, input, claims, keyID, entry, token⟩

/-- The part of `openEnvelope` that does not use the keys: the key id, the nonce and the
ciphertext. -/
def parseEnvelope (tokenPrefix token : Octets) : Option (Octets × Octets × Octets) :=
  if tokenPrefix.isPrefixOf token = false then none
  else
    let encoded := token.drop tokenPrefix.length
    if encoded = [] ∨ encoded.length % 2 ≠ 0 ∨ 8192 < encoded.length ∨ encoded.any isCapital then
      none
    else
      match hexDecode encoded with
      | none => none
      | some raw =>
        let idLength := number (raw.take 2)
        if raw.length < 2 ∨ idLength = 0 ∨ 128 < idLength ∨ raw.length ≤ 2 + idLength ∨
            raw.length < 2 + idLength + 12 + 16 then none
        else
          some ((raw.drop 2).take idLength, (raw.drop (2 + idLength)).take 12,
            raw.drop (2 + idLength + 12))

/-- `gcm.Open`: what was encrypted under these. -/
def decrypt (entries : List (Entry p)) (key nonce aad ciphertext : Octets) : Option p.Payload :=
  (entries.find? fun e =>
    e.key = key ∧ e.nonce = nonce ∧ e.aad = aad ∧ e.ciphertext = ciphertext).map Entry.payload

def Kind.openEnvelope (entries : List (Entry p)) (keys : Keyring) (token : Octets) :
    Option p.Payload :=
  match parseEnvelope K.tokenPrefix token with
  | none => none
  | some (keyID, nonce, ciphertext) =>
    match keyFor p keys keyID with
    | none => none
    | some key => decrypt entries key nonce (K.makeAAD keyID) ciphertext

def expired (expiresAt now : Time) : Bool := expiresAt = 0 ∨ expiresAt ≤ now

def Kind.validDecoded (claims : C) (ttl : ℤ) : Prop :=
  K.version claims = tokenVersion ∧ K.issuedAt claims ≠ 0 ∧ K.expiresAt claims ≠ 0 ∧
    K.issuedAt claims < K.expiresAt claims ∧ K.expiresAt claims ≤ K.issuedAt claims + ttl ∧
    validateFields p (K.opened claims) = .ok () ∧ isLowerHex32 (K.nonce claims) = true

def Kind.current (claims : C) (now : Time) : Prop :=
  K.version claims = tokenVersion ∧ expired (K.expiresAt claims) now = false ∧
    ¬ now + skew < K.issuedAt claims

instance decidableEqOutcome : DecidableEq (Except String Unit)
  | .ok (), .ok () => isTrue rfl
  | .error e, .error e' => decidable_of_iff (e = e') (by simp)
  | .ok (), .error _ => isFalse (by simp)
  | .error _, .ok () => isFalse (by simp)

instance (claims : C) (ttl : ℤ) : Decidable (K.validDecoded claims ttl) :=
  inferInstanceAs (Decidable (_ ∧ _))

instance (claims : C) (now : Time) : Decidable (K.current claims now) :=
  inferInstanceAs (Decidable (_ ∧ _))

/-- `UnsealConversation` and `UnsealApproval`, up to the comparison with the expectation. -/
def Kind.unseal (entries : List (Entry p)) (m : Manager) (now : Time) (token : Octets) : Option C :=
  match K.openEnvelope entries m.keys token with
  | none => none
  | some payload =>
    if p.size payload = 0 ∨ 4096 < p.size payload then none
    else (K.unmarshal payload).filter fun claims =>
      decide (K.current claims now ∧ K.validDecoded claims m.ttl)

def unsealConversation (entries : List (Entry p)) (m : Manager) (now : Time)
    (token assistantAddress ownerDigest : Octets) : Option ConversationClaims :=
  if assistantAddress = [] ∨ ownerDigest = [] then none
  else ((conversationKind p).unseal entries m now token).filter fun claims =>
    assistantAddress = claims.assistantAddress ∧ ownerDigest = claims.ownerDigest

def unsealApproval (entries : List (Entry p)) (m : Manager) (now : Time)
    (token assistantAddress ownerDigest conversationID : Octets) : Option ApprovalClaims :=
  if assistantAddress = [] ∨ ownerDigest = [] ∨ conversationID = [] then none
  else ((approvalKind p).unseal entries m now token).filter fun claims =>
    assistantAddress = claims.assistantAddress ∧ ownerDigest = claims.ownerDigest ∧
      p.conversationDigest conversationID = claims.conversationDigest

/-! ## The cookie of an initiator -/

structure Identity where
  version : ℤ
  id : Octets
  issuedAt : Time
  expiresAt : Time
  deriving DecidableEq

structure Signer where
  keys : Option Keyring
  key₀ : Octets
  keyID₀ : Octets
  ttl₀ : ℤ

def Signer.ttl (s : Signer) : ℤ :=
  if 0 < s.ttl₀ then (if maxCookieTTL < s.ttl₀ then maxCookieTTL else s.ttl₀) else defaultTokenTTL

variable (p)

def Signer.activeHMACKey (s : Signer) : Option (Octets × Octets) :=
  match s.keys with
  | some keys => keys.active.filter fun active => validKeyID p active.1 && decide (active.2 ≠ [])
  | none =>
    let id := if s.keyID₀ = [] then ascii "default" else s.keyID₀
    if s.key₀ ≠ [] ∧ validKeyID p id = true then some (id, s.key₀) else none

def Signer.hmacKey (s : Signer) (id : Octets) : Option Octets :=
  match s.keys with
  | some keys => (keys.key id).filter fun key => key ≠ []
  | none => ((s.activeHMACKey p).filter fun active => active.1 = id).map Prod.snd

def unixOffset : ℤ := 62135596800

def unix (t : Time) : ℤ := t / second - unixOffset

def ofUnix (seconds : ℤ) : Time := (seconds + unixOffset) * second

def identityPayload (i : Identity) (keyID : Octets) : Octets :=
  UInt8.ofNat i.version.toNat :: (ofNumber 2 keyID.length ++ (keyID ++
    (ofNumber 8 (unsigned (unix i.issuedAt)) ++ (ofNumber 8 (unsigned (unix i.expiresAt)) ++
      (ofNumber 2 i.id.length ++ i.id)))))

def macMessage (payload : Octets) : Octets := ascii "scenery.assistant-initiator" ++ 0 :: payload

structure Signed where
  signer : Signer
  now : Time
  identity : Identity
  keyID : Octets
  key : Octets
  payload : Octets
  value : Octets

def Signer.sign (s : Signer) (now : Time) (identity : Identity) : Except String Signed :=
  let i := { identity with
    version := if identity.version = 0 then tokenVersion else identity.version }
  if i.version ≠ tokenVersion ∨ isLowerHex32 i.id = false then .error "invalid anonymous identity"
  else if i.issuedAt = 0 ∨ i.expiresAt = 0 ∨ i.expiresAt ≤ i.issuedAt then
    .error "invalid anonymous identity expiry"
  else
    match s.activeHMACKey p with
    | none => .error errKeyUnavailable
    | some (keyID, key) =>
      let payload := hexEncode (identityPayload i keyID)
      .ok ⟨s, now, i, keyID, key, payload,
        ascii "anon1_" ++ (payload ++ 46 :: hexEncode (p.hmac key (macMessage payload)))⟩

def Signer.issueIdentity (s : Signer) (now : Time) (random : Octets) : Except String Signed :=
  s.sign p now ⟨tokenVersion, hexEncode random, now, now + s.ttl⟩

def splitPoint (text : Octets) : Option (Octets × Octets) :=
  match text.dropWhile (· ≠ 46) with
  | [] => none
  | _ :: signature => if 46 ∈ signature then none else some (text.takeWhile (· ≠ 46), signature)

def decodeIdentityPayload (value : Octets) : Option (Octets × Octets) :=
  if value = [] ∨ value.length % 2 ≠ 0 ∨ 1024 < value.length then none
  else
    match hexDecode value with
    | none => none
    | some raw =>
      let keyLength := number ((raw.drop 1).take 2)
      if raw.length < 21 ∨ keyLength = 0 ∨ 128 < keyLength ∨ raw.length < 3 + keyLength + 18 then
        none
      else
        let keyID := (raw.drop 3).take keyLength
        if validKeyID p keyID then some (raw, keyID) else none

def decodeIdentity (raw : Octets) : Option Identity :=
  let keyLength := number ((raw.drop 1).take 2)
  let issued := signed (number ((raw.drop (3 + keyLength)).take 8))
  let expires := signed (number ((raw.drop (3 + keyLength + 8)).take 8))
  let idLength := number ((raw.drop (3 + keyLength + 16)).take 2)
  let id := raw.drop (3 + keyLength + 18)
  if idLength ≠ 32 ∨ raw.length ≠ 3 + keyLength + 18 + idLength ∨ isLowerHex32 id = false then none
  else some ⟨((raw.headD 0).toNat : ℤ), id, ofUnix issued, ofUnix expires⟩

def Identity.accepted (i : Identity) (now : Time) (ttl : ℤ) : Prop :=
  i.version = tokenVersion ∧ expired i.expiresAt now = false ∧ ¬ now + skew < i.issuedAt ∧
    ¬ i.issuedAt + ttl < i.expiresAt

instance (i : Identity) (now : Time) (ttl : ℤ) : Decidable (i.accepted now ttl) :=
  inferInstanceAs (Decidable (_ ∧ _))

/-- `verifyValue`: the identity and the id of the key. A signature that matches was made by a
signing of the log, of a key and a payload. -/
def Signer.verifyValue (log : List (Octets × Octets)) (s : Signer) (now : Time) (value : Octets) :
    Option (Identity × Octets) :=
  if (ascii "anon1_").isPrefixOf value = false then none
  else
    match splitPoint (value.drop 6) with
    | none => none
    | some (payload, text) =>
      if payload = [] ∨ text = [] ∨ payload.any isCapital ∨ text.any isCapital then none
      else
        match hexDecode text, decodeIdentityPayload p payload with
        | some signature, some (raw, keyID) =>
          match s.hmacKey p keyID with
          | none => none
          | some key =>
            if p.hmac key (macMessage payload) = signature ∧ (key, payload) ∈ log then
              ((decodeIdentity raw).filter fun i => decide (i.accepted now s.ttl)).map fun i =>
                (i, keyID)
            else none
        | _, _ => none

structure World where
  entries : List (Entry p)
  log : List (Octets × Octets)
  conversations : List (Issued p ConversationClaims)
  approvals : List (Issued p ApprovalClaims)
  cookies : List Signed
  rotated : List Signed

def World.empty : World p := ⟨[], [], [], [], [], []⟩

inductive Event where
  | sealConversation (m : Manager) (now : Time) (input : ConversationClaims) (random nonce : Octets)
  | sealApproval (m : Manager) (now : Time) (input : ApprovalClaims) (random nonce : Octets)
  | issueIdentity (s : Signer) (now : Time) (random : Octets)
  | verifyOrRotate (s : Signer) (now : Time) (value : Octets)

def Event.possible : Event → Prop
  | .sealConversation _ _ _ random nonce => random.length = 16 ∧ nonce.length = 12
  | .sealApproval _ _ _ random nonce => random.length = 16 ∧ nonce.length = 12
  | .issueIdentity s now random =>
    random.length = 16 ∧ Int64 (unix now) ∧ Int64 (unix (now + s.ttl))
  | .verifyOrRotate _ _ _ => True

instance (e : Event) : Decidable e.possible := by
  unfold Event.possible
  split <;> infer_instance

def step (w : World p) (e : Event) : Option (World p) :=
  if ¬ e.possible then none
  else
    match e with
    | .sealConversation m now input random nonce =>
      match (conversationKind p).seal m now input random nonce with
      | .error _ => none
      | .ok r => some { w with entries := r.entry :: w.entries, conversations := r :: w.conversations }
    | .sealApproval m now input random nonce =>
      match (approvalKind p).seal m now input random nonce with
      | .error _ => none
      | .ok r => some { w with entries := r.entry :: w.entries, approvals := r :: w.approvals }
    | .issueIdentity s now random =>
      match s.issueIdentity p now random with
      | .error _ => none
      | .ok r => some { w with log := (r.key, r.payload) :: w.log, cookies := r :: w.cookies }
    | .verifyOrRotate s now value =>
      match s.verifyValue p w.log now value, s.activeHMACKey p with
      | some (i, keyID), some (activeID, _) =>
        if keyID = activeID then none
        else
          match s.sign p now i with
          | .error _ => none
          | .ok r => some { w with log := (r.key, r.payload) :: w.log, rotated := r :: w.rotated }
      | _, _ => none

end Scenery.Token
