import Scenery.Assistant.Cookies

/-!
# Issued tokens open where they belong

In every world that sealing and signing lead to: which issued tokens open from their issue until
before their expiry, with any manager that has their key and TTL, so also after a rotation of the
keys; and that whatever opens was issued, by the same kind of operation and for the same
assistant, owner and conversation.
-/

namespace Scenery.Token

open Octets List

variable {p : Platform} {w w' : World p}

theorem ValidString.toValid {value : Octets} (h : ValidString p value) :
    p.toValidUTF8 value = value := p.toValid_of_valid _ h.2.2.1

theorem toValid_hexEncode (p : Platform) (o : Octets) :
    p.toValidUTF8 (hexEncode o) = hexEncode o := p.toValid_of_valid _ (validUTF8_hexEncode p o)

theorem Kind.Sealed.toValid_nonce {C : Type} {K : Kind p C} {r : Issued p C} (hr : K.Sealed r) :
    p.toValidUTF8 (K.nonce r.claims) = K.nonce r.claims := by
  obtain ⟨o, -, hnonce⟩ := hr.nonce
  rw [hnonce, toValid_hexEncode]

theorem conversation_sealed {c : ConversationClaims} :
    (∀ field ∈ (conversationKind p).sealed c, ValidString p field.2) ↔
      ValidString p c.assistantAddress ∧ ValidString p c.ownerDigest ∧
        ValidString p c.privateSessionID ∧ ValidString p c.continuationToken := by
  simp [conversationKind]

theorem conversation_opened {c : ConversationClaims} :
    (∀ field ∈ (conversationKind p).opened c, ValidString p field.2) ↔
      ValidString p c.assistantAddress ∧ ValidString p c.ownerDigest ∧
        ValidString p c.conversationDigest ∧ ValidString p c.privateSessionID ∧
        ValidString p c.continuationToken := by
  simp [conversationKind]

theorem approval_sealed {c : ApprovalClaims} :
    (∀ field ∈ (approvalKind p).sealed c, ValidString p field.2) ↔
      ValidString p c.assistantAddress ∧ ValidString p c.conversationDigest ∧
        ValidString p c.runID ∧ ValidString p c.approvalID ∧ ValidString p c.ownerDigest ∧
        ValidString p c.decisionContext := by
  simp [approvalKind]

theorem conversation_decode {r : Issued p ConversationClaims} (hr : (conversationKind p).Sealed r)
    (hdigest : ValidString p r.claims.conversationDigest) :
    r.claims.mapStrings p.toValidUTF8 = r.claims := by
  obtain ⟨haddress, howner, hsession, htoken⟩ := conversation_sealed.mp hr.fields
  have hnonce : p.toValidUTF8 r.claims.nonce = r.claims.nonce := hr.toValid_nonce
  unfold ConversationClaims.mapStrings
  rw [haddress.toValid, howner.toValid, hsession.toValid, htoken.toValid, hdigest.toValid, hnonce]

theorem approval_decode {r : Issued p ApprovalClaims} (hr : (approvalKind p).Sealed r) :
    r.claims.mapStrings p.toValidUTF8 = r.claims := by
  obtain ⟨haddress, hdigest, hrun, happroval, howner, hcontext⟩ := approval_sealed.mp hr.fields
  have hnonce : p.toValidUTF8 r.claims.nonce = r.claims.nonce := hr.toValid_nonce
  unfold ApprovalClaims.mapStrings
  rw [haddress.toValid, howner.toValid, hdigest.toValid, hrun.toValid, happroval.toValid,
    hcontext.toValid, hnonce]

theorem Timed.issuedAt_ne {issued expires i e now : Time} {ttl : ℤ}
    (h : Timed issued expires i e now ttl) : i ≠ 0 ↔ ¬ (issued = 0 ∧ now = 0) := by
  rw [h.issuedAt_eq]
  by_cases hzero : issued = 0
  · rw [if_pos hzero]
    exact ⟨fun hnow hboth => hnow hboth.2, fun hboth hnow => hboth ⟨hzero, hnow⟩⟩
  · rw [if_neg hzero]
    exact ⟨fun _ hboth => hzero hboth.1, fun _ => hzero⟩

/-! ## What holds in every world -/

structure IssuedCookie (p : Platform) (r : Signed) : Prop where
  made : Made p r
  issuedAt : r.identity.issuedAt = r.now
  expiresAt : r.identity.expiresAt = r.now + r.signer.ttl
  issued64 : Int64 (unix r.identity.issuedAt)
  expires64 : Int64 (unix r.identity.expiresAt)

/-- What is sealed or signed was issued by the code, and is recorded. -/
structure Inv (w : World p) : Prop where
  conversations : ∀ r ∈ w.conversations, (conversationKind p).Sealed r ∧ r.entry ∈ w.entries
  approvals : ∀ r ∈ w.approvals, (approvalKind p).Sealed r ∧ r.entry ∈ w.entries
  entries : ∀ e ∈ w.entries, (∃ r ∈ w.conversations, r.entry = e) ∨ ∃ r ∈ w.approvals, r.entry = e
  cookies : ∀ r ∈ w.cookies, IssuedCookie p r ∧ (r.key, r.payload) ∈ w.log
  rotated : ∀ r ∈ w.rotated, Made p r
  log : ∀ signing ∈ w.log, ∃ r, (r ∈ w.cookies ∨ r ∈ w.rotated) ∧ (r.key, r.payload) = signing

theorem Inv.empty (p : Platform) : Inv (World.empty p) where
  conversations _ h := absurd h not_mem_nil
  approvals _ h := absurd h not_mem_nil
  entries _ h := absurd h not_mem_nil
  cookies _ h := absurd h not_mem_nil
  rotated _ h := absurd h not_mem_nil
  log _ h := absurd h not_mem_nil

theorem step_cases {e : Event} (h : step p w e = some w') :
    (∃ r, (conversationKind p).Sealed r ∧ w' = { w with
      entries := r.entry :: w.entries, conversations := r :: w.conversations }) ∨
    (∃ r, (approvalKind p).Sealed r ∧ w' = { w with
      entries := r.entry :: w.entries, approvals := r :: w.approvals }) ∨
    (∃ r, IssuedCookie p r ∧ w' = { w with
      log := (r.key, r.payload) :: w.log, cookies := r :: w.cookies }) ∨
    (∃ r, Made p r ∧ w' = { w with
      log := (r.key, r.payload) :: w.log, rotated := r :: w.rotated }) := by
  unfold step at h
  split at h
  · cases h
  rename_i hpossible
  rw [not_not] at hpossible
  cases e with dsimp only at h
  | sealConversation m now input random nonce =>
    split at h
    · cases h
    · rename_i r hseal
      exact .inl ⟨r, (Kind.seal_ok (conversation_lawful p) hpossible.2 hseal).1,
        (Option.some.inj h).symm⟩
  | sealApproval m now input random nonce =>
    split at h
    · cases h
    · rename_i r hseal
      exact .inr (.inl ⟨r, (Kind.seal_ok (approval_lawful p) hpossible.2 hseal).1,
        (Option.some.inj h).symm⟩)
  | issueIdentity s now random =>
    split at h
    · cases h
    · rename_i r hsign
      obtain ⟨hmade, rfl, rfl, hidentity⟩ := Signer.sign_ok hsign
      have hissued : r.identity.issuedAt = r.now := by rw [hidentity]
      have hexpires : r.identity.expiresAt = r.now + r.signer.ttl := by rw [hidentity]
      refine .inr (.inr (.inl ⟨r, ⟨hmade, hissued, hexpires, ?_, ?_⟩, (Option.some.inj h).symm⟩))
      · rw [hissued]
        exact hpossible.2.1
      · rw [hexpires]
        exact hpossible.2.2
  | verifyOrRotate s now value =>
    split at h
    · split at h
      · cases h
      · split at h
        · cases h
        · rename_i r hsign
          exact .inr (.inr (.inr ⟨r, (Signer.sign_ok hsign).1, (Option.some.inj h).symm⟩))
    · cases h

section Logged

variable {α β : Type} {P : α → Prop} {note : α → β} {rs : List α} {log : List β}

theorem logged_mono (h : ∀ r ∈ rs, P r ∧ note r ∈ log) (y : β) :
    ∀ r ∈ rs, P r ∧ note r ∈ y :: log :=
  fun r hr => ⟨(h r hr).1, mem_cons_of_mem _ (h r hr).2⟩

theorem logged_cons {r : α} (hr : P r) (h : ∀ r ∈ rs, P r ∧ note r ∈ log) :
    ∀ r' ∈ r :: rs, P r' ∧ note r' ∈ note r :: log :=
  forall_mem_cons.mpr ⟨⟨hr, mem_cons_self⟩, logged_mono h _⟩

end Logged

theorem Inv.step {e : Event} (hinv : Inv w) (h : step p w e = some w') : Inv w' := by
  obtain ⟨r, hr, rfl⟩ | ⟨r, hr, rfl⟩ | ⟨r, hr, rfl⟩ | ⟨r, hr, rfl⟩ := step_cases h
  · refine { hinv with conversations := logged_cons hr hinv.conversations,
                       approvals := logged_mono hinv.approvals _, entries := ?_ }
    refine forall_mem_cons.mpr ⟨.inl ⟨r, mem_cons_self, rfl⟩, fun e' he' => ?_⟩
    exact (hinv.entries e' he').imp_left fun ⟨r', hr', heq⟩ =>
      ⟨r', mem_cons_of_mem _ hr', heq⟩
  · refine { hinv with conversations := logged_mono hinv.conversations _,
                       approvals := logged_cons hr hinv.approvals, entries := ?_ }
    refine forall_mem_cons.mpr ⟨.inr ⟨r, mem_cons_self, rfl⟩, fun e' he' => ?_⟩
    exact (hinv.entries e' he').imp_right fun ⟨r', hr', heq⟩ =>
      ⟨r', mem_cons_of_mem _ hr', heq⟩
  · refine { hinv with cookies := logged_cons hr hinv.cookies, log := ?_ }
    refine forall_mem_cons.mpr ⟨⟨r, .inl mem_cons_self, rfl⟩, fun signing hs => ?_⟩
    obtain ⟨r', hr', heq⟩ := hinv.log signing hs
    exact ⟨r', hr'.imp_left (mem_cons_of_mem _), heq⟩
  · refine { hinv with cookies := logged_mono hinv.cookies _,
                       rotated := forall_mem_cons.mpr ⟨hr, hinv.rotated⟩, log := ?_ }
    refine forall_mem_cons.mpr ⟨⟨r, .inr mem_cons_self, rfl⟩, fun signing hs => ?_⟩
    obtain ⟨r', hr', heq⟩ := hinv.log signing hs
    exact ⟨r', hr'.imp_right (mem_cons_of_mem _), heq⟩

/-! ## Every issued token opens -/

def Kind.FromInput {C : Type} (K : Kind p C) (r : Issued p C) : Prop :=
  ∃ random, r.claims = K.complete r.input tokenVersion
    (if K.issuedAt r.input = 0 then r.now else K.issuedAt r.input)
    (if K.expiresAt r.input = 0 then K.issuedAt r.claims + r.manager.ttl else K.expiresAt r.input)
    (if K.nonce r.input = [] then hexEncode random else K.nonce r.input)

variable {C : Type}

theorem Kind.Sealed.fromInput {K : Kind p C} {r : Issued p C} (hr : K.Sealed r) :
    K.FromInput r := by
  obtain ⟨random, hcompleted⟩ := hr.completed
  refine ⟨random, ?_⟩
  rw [← hr.timed.expiresAt_eq, ← hr.timed.issuedAt_eq]
  exact hcompleted

structure Complete (w : World p) : Prop where
  conversations : ∀ r ∈ w.conversations, (conversationKind p).FromInput r ∧
    ∀ m : Manager, m.keys.key r.keyID = some r.entry.key → m.ttl = r.manager.ttl →
      ((∀ t, (r.now ≤ t ∨ r.claims.issuedAt ≤ t) → t < r.claims.expiresAt →
        unsealConversation w.entries m t r.token r.claims.assistantAddress r.claims.ownerDigest =
          some r.claims) ↔
        ValidString p r.input.conversationDigest ∧ ¬ (r.input.issuedAt = 0 ∧ r.now = 0))
  approvals : ∀ r ∈ w.approvals, (approvalKind p).FromInput r ∧
    ∀ m : Manager, m.keys.key r.keyID = some r.entry.key → m.ttl = r.manager.ttl →
      ∀ conversationID ≠ [], p.conversationDigest conversationID = r.claims.conversationDigest →
        ((∀ t, (r.now ≤ t ∨ r.claims.issuedAt ≤ t) → t < r.claims.expiresAt →
          unsealApproval w.entries m t r.token r.claims.assistantAddress r.claims.ownerDigest
            conversationID = some r.claims) ↔
          ¬ (r.input.issuedAt = 0 ∧ r.now = 0))
  cookies : ∀ r ∈ w.cookies, r.identity.issuedAt = r.now ∧
    r.identity.expiresAt = r.now + r.signer.ttl ∧
    ∀ s : Signer, s.hmacKey p r.keyID = some r.key → s.ttl = r.signer.ttl →
      ((∀ t, r.now ≤ t → t < truncate r.identity.expiresAt →
        s.verifyValue p w.log t r.value = some (r.identity.carried, r.keyID)) ↔
        Fits r.now r.signer.ttl)

theorem Inv.complete (hinv : Inv w) : Complete w where
  conversations r hr := by
    obtain ⟨hsealed, hmem⟩ := hinv.conversations r hr
    refine ⟨hsealed.fromInput, fun m hkeys httl => ?_⟩
    have hfields := conversation_sealed.mp hsealed.fields
    have hdigest : r.claims.conversationDigest = r.input.conversationDigest := by
      obtain ⟨random, hcompleted⟩ := hsealed.completed
      rw [hcompleted]
      rfl
    have hexpected : ¬ (r.claims.assistantAddress = [] ∨ r.claims.ownerDigest = []) :=
      not_or.mpr ⟨hfields.1.1, hfields.2.1.1⟩
    -- the expectation matches, so the comparison changes nothing
    have hunseal : ∀ t, unsealConversation w.entries m t r.token r.claims.assistantAddress
        r.claims.ownerDigest = some r.claims ↔
        (conversationKind p).unseal w.entries m t r.token = some r.claims := by
      intro t
      rw [unsealConversation, if_neg hexpected, Option.filter_eq_some_iff]
      simp
    simp only [hunseal]
    refine (Kind.opens_iff (conversation_lawful p) hsealed hmem hkeys httl).trans ?_
    have hzero : r.claims.issuedAt ≠ 0 ↔ ¬ (r.input.issuedAt = 0 ∧ r.now = 0) :=
      hsealed.timed.issuedAt_ne
    rw [← hdigest, ← hzero, conversation_opened]
    constructor
    · rintro ⟨-, hissued, -, -, hvalid, -, -⟩
      exact ⟨hvalid, hissued⟩
    · rintro ⟨hvalid, hissued⟩
      exact ⟨conversation_decode hsealed hvalid, hissued, hfields.1, hfields.2.1, hvalid,
        hfields.2.2.1, hfields.2.2.2⟩
  approvals r hr := by
    obtain ⟨hsealed, hmem⟩ := hinv.approvals r hr
    refine ⟨hsealed.fromInput, fun m hkeys httl conversationID hid hdigest => ?_⟩
    have hfields := approval_sealed.mp hsealed.fields
    have hexpected : ¬ (r.claims.assistantAddress = [] ∨ r.claims.ownerDigest = [] ∨
        conversationID = []) :=
      not_or.mpr ⟨hfields.1.1, not_or.mpr ⟨hfields.2.2.2.2.1.1, hid⟩⟩
    have hunseal : ∀ t, unsealApproval w.entries m t r.token r.claims.assistantAddress
        r.claims.ownerDigest conversationID = some r.claims ↔
        (approvalKind p).unseal w.entries m t r.token = some r.claims := by
      intro t
      rw [unsealApproval, if_neg hexpected, Option.filter_eq_some_iff]
      simp [hdigest]
    simp only [hunseal]
    refine (Kind.opens_iff (approval_lawful p) hsealed hmem hkeys httl).trans ?_
    have hzero : r.claims.issuedAt ≠ 0 ↔ ¬ (r.input.issuedAt = 0 ∧ r.now = 0) :=
      hsealed.timed.issuedAt_ne
    rw [← hzero]
    exact ⟨fun h => h.2.1, fun h => ⟨approval_decode hsealed, h, hsealed.fields⟩⟩
  cookies r hr := by
    obtain ⟨hissued, hlog⟩ := hinv.cookies r hr
    refine ⟨hissued.issuedAt, hissued.expiresAt, fun s hkey httl => ?_⟩
    rw [← accepted_iff_fits hissued.made.version hissued.issuedAt hissued.expiresAt,
      hissued.expiresAt]
    have hverify : ∀ t, s.verifyValue p w.log t r.value = some (r.identity.carried, r.keyID) ↔
        r.identity.carried.accepted t r.signer.ttl := by
      intro t
      rw [Signer.verifyValue_cookie hissued.made hissued.issued64 hissued.expires64 hlog hkey, httl]
      simp
    simp only [hverify]

/-! ## Only issued tokens open -/

/-- What is accepted was issued, for the same assistant and owner. -/
structure Sound (w : World p) : Prop where
  conversations : ∀ m t token assistantAddress ownerDigest claims,
    unsealConversation w.entries m t token assistantAddress ownerDigest = some claims →
    ∃ r ∈ w.conversations, r.token = token ∧ r.claims.assistantAddress = assistantAddress ∧
      r.claims.ownerDigest = ownerDigest
  approvals : ∀ m t token assistantAddress ownerDigest conversationID claims,
    unsealApproval w.entries m t token assistantAddress ownerDigest conversationID = some claims →
    ∃ r ∈ w.approvals, r.token = token ∧ r.claims.assistantAddress = assistantAddress ∧
      r.claims.ownerDigest = ownerDigest ∧
      r.claims.conversationDigest = p.conversationDigest conversationID
  cookies : ∀ (s : Signer) t value result, s.verifyValue p w.log t value = some result →
    ∃ r, (r ∈ w.cookies ∨ r ∈ w.rotated) ∧ r.value = value

theorem makeAAD_ne (keyID keyID' : Octets) :
    (conversationKind p).makeAAD keyID ≠ (approvalKind p).makeAAD keyID' := by
  intro h
  have haad : ascii "scenery.assistant-token/conversation/v1" ++ 0 :: keyID =
      ascii "scenery.assistant-token/approval/v1" ++ 0 :: keyID' := h
  -- they differ after the last common slash
  have htake := congrArg (List.take 25) haad
  rw [take_append_of_le_length (by decide), take_append_of_le_length (by decide)] at htake
  exact absurd htake (by decide)

theorem Kind.makeAAD_inj {K : Kind p C} {keyID keyID' : Octets}
    (h : K.makeAAD keyID = K.makeAAD keyID') : keyID = keyID' :=
  (List.cons.inj (append_cancel_left h)).2

theorem Kind.Sealed.token_eq {K : Kind p C} {decode : C → C} (law : K.Lawful decode)
    {r : Issued p C} (hr : K.Sealed r) {keyID token : Octets} {claims : C}
    (haad : r.entry.aad = K.makeAAD keyID) (hclaims : K.unmarshal r.entry.payload = some claims)
    (htoken : token = K.tokenPrefix ++ hexEncode (envelope keyID r.entry.nonce r.entry.ciphertext)) :
    r.token = token ∧ claims = decode r.claims := by
  obtain rfl := Kind.makeAAD_inj (hr.aad.symm.trans haad)
  refine ⟨hr.token.trans htoken.symm, ?_⟩
  exact Option.some.inj (hclaims.symm.trans (law.marshal _ _ hr.marshalled).2)

theorem Inv.sound (hinv : Inv w) : Sound w where
  conversations m t token assistantAddress ownerDigest claims h := by
    unfold unsealConversation at h
    split at h
    · cases h
    obtain ⟨hunseal, hexpected⟩ := Option.filter_eq_some_iff.mp h
    obtain ⟨rfl, rfl⟩ := of_decide_eq_true hexpected
    obtain ⟨e, he, keyID, haad, hclaims, htoken⟩ := Kind.unseal_some hunseal
    obtain ⟨r, hr, rfl⟩ | ⟨r, hr, rfl⟩ := hinv.entries e he
    · have hsealed := (hinv.conversations r hr).1
      have hfields := conversation_sealed.mp hsealed.fields
      obtain ⟨hsame, rfl⟩ := hsealed.token_eq (conversation_lawful p) haad hclaims htoken
      exact ⟨r, hr, hsame, hfields.1.toValid.symm, hfields.2.1.toValid.symm⟩
    · exact absurd (haad.symm.trans (hinv.approvals r hr).1.aad) (makeAAD_ne _ _)
  approvals m t token assistantAddress ownerDigest conversationID claims h := by
    unfold unsealApproval at h
    split at h
    · cases h
    obtain ⟨hunseal, hexpected⟩ := Option.filter_eq_some_iff.mp h
    obtain ⟨rfl, rfl, hdigest⟩ := of_decide_eq_true hexpected
    obtain ⟨e, he, keyID, haad, hclaims, htoken⟩ := Kind.unseal_some hunseal
    obtain ⟨r, hr, rfl⟩ | ⟨r, hr, rfl⟩ := hinv.entries e he
    · exact absurd ((hinv.conversations r hr).1.aad.symm.trans haad) (makeAAD_ne _ _)
    · have hsealed := (hinv.approvals r hr).1
      obtain ⟨hsame, rfl⟩ := hsealed.token_eq (approval_lawful p) haad hclaims htoken
      rw [approval_decode hsealed] at hdigest ⊢
      exact ⟨r, hr, hsame, rfl, rfl, hdigest.symm⟩
  cookies s t value result h := by
    obtain ⟨key, payload, hlog, rfl⟩ := Signer.verifyValue_some h
    obtain ⟨r, hr, heq⟩ := hinv.log _ hlog
    cases heq
    refine ⟨r, hr, ?_⟩
    rcases hr with hr | hr
    · exact (hinv.cookies r hr).1.made.value
    · exact (hinv.rotated r hr).value

/-! ## Runs -/

/-- In every world that is reached, the issued tokens that open are those whose inputs the opening
side also accepts, and only issued tokens open. -/
theorem issued_tokens_open (hrun : Run (step p) (fun _ _ => True) (World.empty p) w) :
    Complete w ∧ Sound w := by
  have hinv : Inv w := hrun.invariant (Inv.empty p) fun _ _ _ h _ => h.step
  exact ⟨hinv.complete, hinv.sound⟩

namespace Sample

def claims (digest : Octets) : ConversationClaims :=
  ⟨1, ascii "a", hexEncode (List.replicate 16 0), ascii "o", digest, ascii "s", ascii "c",
    second, 2 * second⟩

def platform : Platform where
  validUTF8 o := o.all fun c => c.toNat < 128
  toValidUTF8 o := o.map fun c => if c.toNat < 128 then c else 63
  Payload := Bool
  size _ := 2
  marshalConversation c := if c = claims (ascii "d") then .ok true
    else if c = claims [] then .ok false else .error ""
  unmarshalConversation b := some (claims (if b then ascii "d" else []))
  marshalApproval _ := .error ""
  unmarshalApproval _ := none
  encrypt _ _ _ b := List.replicate 17 0 ++ [if b then 1 else 0]
  hmac _ _ := List.replicate 32 0
  conversationDigest o := o
  valid_ascii o h := by simpa using h
  toValid_of_valid o h := by
    rw [all_eq_true] at h
    calc
      o.map (fun c => if c.toNat < 128 then c else 63) = o.map id :=
        map_congr_left fun c hc => if_pos (of_decide_eq_true (h c hc))
      _ = o := map_id o
  valid_toValid o := by
    rw [all_map, all_eq_true]
    intro c _
    by_cases h : c.toNat < 128
    · simp [h]
    · simp [h]
  conversation c b h := by
    split at h
    · rename_i hc
      cases h
      rw [hc]
      decide
    · split at h
      · rename_i hc
        cases h
        rw [hc]
        decide
      · cases h
  approval _ _ h := by cases h
  length_encrypt _ _ _ _ := rfl
  encrypt_inj _ _ _ b b' h := by
    revert h
    cases b <;> cases b' <;> decide
  length_hmac _ _ := rfl

def ring : StaticKeyring := ⟨ascii "k", List.replicate 16 7, []⟩

def manager : Manager := ⟨ring.toKeyring, second⟩

def sealing (digest : Octets) : List Event :=
  [.sealConversation manager second (claims digest) (List.replicate 16 0) (List.replicate 12 0)]

end Sample

theorem issued_tokens_open_conversation :
    ∃ w, Run (step Sample.platform) (fun _ _ => True) (World.empty Sample.platform) w ∧
      (∃ r ∈ w.conversations, unsealConversation w.entries r.manager r.now r.token
        r.claims.assistantAddress r.claims.ownerDigest = some r.claims) ∧
      Complete w ∧ Sound w :=
  Run.exists_of_decide
    (P := fun w => ∃ r ∈ w.conversations, unsealConversation w.entries r.manager r.now r.token
      r.claims.assistantAddress r.claims.ownerDigest = some r.claims)
    (Sample.sealing (ascii "d")) (by decide +kernel) fun _ hrun hopen =>
      ⟨hopen, issued_tokens_open hrun⟩

/-- A conversation without a digest is sealed without an error, and its token does not open with
the manager that sealed it, at the time of the sealing and before the expiry. -/
theorem conversation_sealed_unopenable :
    ∃ w, Run (step Sample.platform) (fun _ _ => True) (World.empty Sample.platform) w ∧
      ∃ r ∈ w.conversations, r.now < r.claims.expiresAt ∧
        r.manager.keys.key r.keyID = some r.entry.key ∧
        unsealConversation w.entries r.manager r.now r.token r.claims.assistantAddress
          r.claims.ownerDigest = none :=
  Run.exists_decide (Sample.sealing []) (by decide +kernel)

end Scenery.Token
