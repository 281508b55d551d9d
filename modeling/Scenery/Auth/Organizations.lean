import Scenery.Auth.Service
import Scenery.Runs

/-!
# Organizations keep an owner

The requests of `auth/standard_organizations.go` that change memberships.
-/

namespace Scenery.Auth

structure AuthData where
  userId : String
  tenantId : String
  sessionId : String
  actorUserId : String
  impersonationId : String
  deriving DecidableEq

def tokenPurposeInviteAcceptance : String := "invite_acceptance"

def defaultInviteTTL : ℤ := 7 * 24 * 3600 * 1000000

def Role.text : Role → String
  | .owner => "owner"
  | .member => "member"

def parseRole (text : String) : Option Role :=
  if text = "owner" then some .owner else if text = "member" then some .member else none

variable (lib : Library)

def nullableUUID (value : String) : Option UUID :=
  if trimSpace value = "" then none else parseUUID lib value

def sessionForAuthData (db : Db) (random : Random) (auth : AuthData) (tenantId : UUID) :
    Except AuthError (RefreshSession × Db) :=
  if trimSpace auth.sessionId = "" then
    .ok ({ id := random.sessionId, userId := 0, tokenHash := "", previousTokenHash := "",
           previousTokenExpiresAt := none, activeTenantId := some tenantId, expiresAt := 0,
           rotatedAt := none, revokedAt := none, revokedReason := "",
           actorUserId := nullableUUID lib auth.actorUserId,
           impersonationId := nullableUUID lib auth.impersonationId }, db)
  else
    match parseUUID lib auth.sessionId with
    | none => .error (unauthenticated "invalid session id")
    | some sessionId => db.setSessionTenant sessionId tenantId

def requireOwner (db : Db) (userId tenantId : UUID) : Except AuthError Unit := do
  let membership ← orError (permissionDenied "workspace access is disabled")
    (db.memberships.getActive userId tenantId)
  require (permissionDenied "workspace owner role is required") (membership.role = .owner)

def ensureCanRemoveOwner (db : Db) (tenantId : UUID) : Except AuthError Unit :=
  require (failedPrecondition "workspace must retain at least one owner")
    (1 < db.memberships.countActiveOwners tenantId)

/-! ## The requests -/

def createOrganization (db : Db) (clock : ℤ) (random : Random) (auth : AuthData) (name : String) :
    Except AuthError (Bootstrap × Db) := do
  require (invalidArgument "name is required") (trimSpace name ≠ "")
  let userId ← orError (unauthenticated "invalid user id") (parseUUID lib auth.userId)
  let user ← orError noRows (db.users.find userId)
  require (failedPrecondition "email verification is required") (user.emailVerifiedAt ≠ none)
  let db ← db.createTenant random.tenantId (trimSpace name)
  let db ← db.createMembership ⟨random.membershipId, random.tenantId, user.id, .owner, none, none,
    none⟩
  let (session, db) ← sessionForAuthData lib db random auth random.tenantId
  let bootstrap ← buildBootstrap lib db clock user random.tenantId session
  return (bootstrap, db)

def inviteOrganizationMember (db : Db) (clock : ℤ) (random : Random) (auth : AuthData)
    (tenantID email role : String) : Except AuthError (String × Db) := do
  let normalizedEmail ← (lib.normalizeEmail email).mapError invalidArgument
  let role ← orError (invalidArgument "role must be owner or member")
    (if trimSpace role = "" then some .member else parseRole (trimSpace role))
  let userId ← orError (unauthenticated "invalid user id") (parseUUID lib auth.userId)
  let tenantId ← orError (invalidArgument "tenant_id is invalid") (parseUUID lib tenantID)
  requireOwner db userId tenantId
  let db ← db.createToken
    { purpose := tokenPurposeInviteAcceptance
      tokenHash := tokenHash lib random.secret
      userId := some userId
      tenantId := some tenantId
      normalizedEmail := trimSpace normalizedEmail
      metadata := [("role", role.text)]
      expiresAt := clock + defaultInviteTTL
      consumedAt := none }
  return (random.secret, db)

def OneTimeToken.inviteRole (token : OneTimeToken) : Role :=
  if token.metadata.lookup "role" = some Role.owner.text then .owner else .member

def acceptInvite (db : Db) (now clock : ℤ) (random : Random) (auth : AuthData) (token : String) :
    Except AuthError (Bootstrap × Db) := do
  require (invalidArgument "token is required") (trimSpace token ≠ "")
  let userId ← orError (unauthenticated "invalid user id") (parseUUID lib auth.userId)
  let user ← orError noRows (db.users.find userId)
  require (failedPrecondition "email verification is required") (user.emailVerifiedAt ≠ none)
  let (oneTime, db) ← orError (invalidArgument "invite token is invalid or expired")
    (db.consumeToken now (tokenHash lib token) tokenPurposeInviteAcceptance)
  let tenantId ← orError (invalidArgument "invite token is invalid") oneTime.tenantId
  require (permissionDenied "invite email does not match signed-in user")
    (lib.equalFold (trimSpace user.normalizedPrimaryEmail) (trimSpace oneTime.normalizedEmail))
  let db ← db.createMembership ⟨random.membershipId, tenantId, user.id, oneTime.inviteRole, none,
    oneTime.userId, some clock⟩
  let (session, db) ← sessionForAuthData lib db random auth tenantId
  let bootstrap ← buildBootstrap lib db clock user tenantId session
  return (bootstrap, db)

def memberMutationIDs (auth : AuthData) (tenantID targetUserID : String) :
    Except AuthError (UUID × UUID × UUID) := do
  let tenantId ← orError (invalidArgument "tenant_id is invalid") (parseUUID lib tenantID)
  let targetId ← orError (invalidArgument "user_id is invalid") (parseUUID lib targetUserID)
  let actorId ← orError (unauthenticated "invalid user id") (parseUUID lib auth.userId)
  return (tenantId, targetId, actorId)

def updateOrganizationMemberRole (db : Db) (auth : AuthData) (tenantID userID role : String) :
    Except AuthError Db := do
  let role ← orError (invalidArgument "role must be owner or member") (parseRole role)
  let (tenantId, targetId, actorId) ← memberMutationIDs lib auth tenantID userID
  requireOwner db actorId tenantId
  let current ← orError noRows (db.memberships.getActive targetId tenantId)
  if current.role = .owner ∧ role = .member then ensureCanRemoveOwner db tenantId
  return { db with memberships := db.memberships.updateRole tenantId targetId role }

def disableOrganizationMember (db : Db) (now : ℤ) (auth : AuthData) (tenantID userID : String) :
    Except AuthError Db := do
  require (invalidArgument "user_id is required") (trimSpace userID ≠ "")
  let (tenantId, targetId, actorId) ← memberMutationIDs lib auth tenantID userID
  requireOwner db actorId tenantId
  let current ← orError noRows (db.memberships.getActive targetId tenantId)
  if current.role = .owner then ensureCanRemoveOwner db tenantId
  return { db with memberships := db.memberships.disable now tenantId targetId }

inductive OrganizationCall where
  | create (clock : ℤ) (random : Random) (auth : AuthData) (name : String)
  | invite (clock : ℤ) (random : Random) (auth : AuthData) (tenantID email role : String)
  | accept (now clock : ℤ) (random : Random) (auth : AuthData) (token : String)
  | updateRole (auth : AuthData) (tenantID userID role : String)
  | disable (now : ℤ) (auth : AuthData) (tenantID userID : String)

def OrganizationCall.commit (db : Db) : OrganizationCall → Except AuthError Db
  | .create clock random auth name => (createOrganization lib db clock random auth name).map (·.2)
  | .invite clock random auth tenantID email role =>
    (inviteOrganizationMember lib db clock random auth tenantID email role).map (·.2)
  | .accept now clock random auth token =>
    (acceptInvite lib db now clock random auth token).map (·.2)
  | .updateRole auth tenantID userID role =>
    updateOrganizationMemberRole lib db auth tenantID userID role
  | .disable now auth tenantID userID => disableOrganizationMember lib db now auth tenantID userID

def OrganizationCall.run (db : Db) (call : OrganizationCall) : Option Db :=
  match call.commit lib db with
  | .ok after => some after
  | .error _ => some db

def Memberships.HasOwner (ms : Memberships) (tenantId : UUID) : Prop :=
  ∃ m ∈ ms.table, m.tenantId = tenantId ∧ m.role = .owner ∧ m.disabledAt = none

def SparesOwner (db : Db) : OrganizationCall → Prop
  | .accept _ _ _ auth token =>
    ∀ row ∈ db.tokens.rows, row.tokenHash = tokenHash lib token → row.inviteRole = .member →
      ∀ tenantId ∈ row.tenantId, ∀ userId ∈ parseUUID lib auth.userId,
        ∀ m ∈ db.memberships.getActive userId tenantId, m.role = .owner →
          1 < db.memberships.countActiveOwners tenantId
  | _ => True

instance (db : Db) : (call : OrganizationCall) → Decidable (SparesOwner lib db call)
  | .accept _ _ _ auth token => inferInstanceAs (Decidable (∀ row ∈ db.tokens.rows,
      row.tokenHash = tokenHash lib token → row.inviteRole = .member →
        ∀ tenantId ∈ row.tenantId, ∀ userId ∈ parseUUID lib auth.userId,
          ∀ m ∈ db.memberships.getActive userId tenantId, m.role = .owner →
            1 < db.memberships.countActiveOwners tenantId))
  | .create _ _ _ _ => instDecidableTrue
  | .invite _ _ _ _ _ _ => instDecidableTrue
  | .updateRole _ _ _ _ => instDecidableTrue
  | .disable _ _ _ _ => instDecidableTrue

/-! ## Owners stay -/

variable {m : Membership}

section

variable {ms ms' : Memberships} {tenantId userId : UUID} {t : UUID}

theorem links_iff : m.links userId tenantId = true ↔
    m.userId = userId ∧ m.tenantId = tenantId ∧ m.disabledAt = none := by
  simp [Membership.links, and_assoc]

theorem getActive_eq_some :
    ms.getActive userId tenantId = some m ↔ m ∈ ms.table ∧ m.links userId tenantId = true := by
  constructor
  · intro h
    exact ⟨List.mem_of_find?_eq_some h, List.find?_some h⟩
  · rintro ⟨hm, hlinks⟩
    cases hfind : ms.getActive userId tenantId with
    | none =>
      have hno := List.find?_eq_none.mp hfind m hm
      exact absurd hlinks hno
    | some r =>
      have hr : r ∈ ms.table := List.mem_of_find?_eq_some hfind
      rw [ms.unique userId tenantId r hr m hm (List.find?_some hfind) hlinks]

theorem exists_other_owner {current : Membership}
    (hcurrent : ms.getActive userId tenantId = some current)
    (h : 1 < ms.countActiveOwners tenantId) :
    ∃ m ∈ ms.table, m.tenantId = tenantId ∧ m.role = .owner ∧ m.disabledAt = none ∧
      m.userId ≠ userId := by
  obtain ⟨hmem, hlinks⟩ := getActive_eq_some.mp hcurrent
  obtain ⟨m, hm, howner, hne⟩ := Table.exists_ne_of_one_lt_countP h current
  simp only [Bool.and_eq_true, decide_eq_true_eq] at howner
  obtain ⟨⟨htenant, hrole⟩, hactive⟩ := howner
  refine ⟨m, hm, htenant, hrole, hactive, fun huser => hne ?_⟩
  exact ms.unique userId tenantId m hm current hmem (links_iff.mpr ⟨huser, htenant, hactive⟩) hlinks

def Memberships.CanRemove (ms : Memberships) (tenantId userId : UUID) : Prop :=
  ∀ m ∈ ms.getActive userId tenantId, m.role = .owner → 1 < ms.countActiveOwners tenantId

theorem HasOwner.other (h : ms.HasOwner t) (hremove : ms.CanRemove tenantId userId) :
    ∃ m ∈ ms.table, m.tenantId = t ∧ m.role = .owner ∧ m.disabledAt = none ∧
      ¬ (m.tenantId = tenantId ∧ m.userId = userId) := by
  obtain ⟨m, hm, htenant, hrole, hactive⟩ := h
  by_cases hsame : m.tenantId = tenantId ∧ m.userId = userId
  · have hget := getActive_eq_some.mpr ⟨hm, links_iff.mpr ⟨hsame.2, hsame.1, hactive⟩⟩
    obtain ⟨m', hm', htenant', hrole', hactive', huser'⟩ :=
      exists_other_owner hget (hremove m hget hrole)
    exact ⟨m', hm', htenant'.trans (hsame.1.symm.trans htenant), hrole', hactive',
      fun h => huser' h.2⟩
  · exact ⟨m, hm, htenant, hrole, hactive, hsame⟩

theorem HasOwner.updateRole (h : ms.HasOwner t) {role : Role}
    (hkeep : role = .owner ∨ ms.CanRemove tenantId userId) :
    (ms.updateRole tenantId userId role).HasOwner t := by
  rcases hkeep with rfl | hremove
  · obtain ⟨m, hm, htenant, hrole, hactive⟩ := h
    refine ⟨_, Memberships.mem_updateRole.mpr ⟨m, hm, rfl⟩, ?_⟩
    split_ifs
    · exact ⟨htenant, rfl, hactive⟩
    · exact ⟨htenant, hrole, hactive⟩
  · obtain ⟨m, hm, htenant, hrole, hactive, hother⟩ := HasOwner.other h hremove
    refine ⟨m, Memberships.mem_updateRole.mpr ⟨m, hm, if_neg fun hlinks => hother ?_⟩, htenant,
      hrole, hactive⟩
    exact ⟨(links_iff.mp hlinks).2.1, (links_iff.mp hlinks).1⟩

theorem HasOwner.disable (h : ms.HasOwner t) {now : ℤ} (hremove : ms.CanRemove tenantId userId) :
    (ms.disable now tenantId userId).HasOwner t := by
  obtain ⟨m, hm, htenant, hrole, hactive, hother⟩ := HasOwner.other h hremove
  refine ⟨m, Memberships.mem_disable.mpr ⟨m, hm, if_neg fun hsame => hother ?_⟩, htenant, hrole,
    hactive⟩
  simpa using hsame

theorem HasOwner.create (h : ms.HasOwner t)
    (hkeep : m.role = .owner ∨ ms.CanRemove m.tenantId m.userId) (hcreate : ms.create m = .ok ms') :
    ms'.HasOwner t := by
  simp only [Memberships.create] at hcreate
  split_ifs at hcreate with hfree hid
  · cases hcreate
    obtain ⟨r, hr, hrest⟩ := h
    exact ⟨r, (Table.mem_insert hid).mpr (.inl hr), hrest⟩
  · cases hcreate
    exact HasOwner.updateRole h hkeep

theorem HasOwner.of_create (hactive : m.disabledAt = none) (hrole : m.role = .owner)
    (hcreate : ms.create m = .ok ms') : ms'.HasOwner m.tenantId := by
  simp only [Memberships.create] at hcreate
  split_ifs at hcreate with hfree hid
  · cases hcreate
    exact ⟨m, (Table.mem_insert hid).mpr (.inr rfl), rfl, hrole, hactive⟩
  · cases hcreate
    obtain ⟨r, hr, hlinks⟩ := by simpa using hfree
    obtain ⟨-, htenant, hdisabled⟩ := links_iff.mp hlinks
    exact ⟨Memberships.setRole m.role r, Memberships.mem_updateRole.mpr ⟨r, hr, if_pos hlinks⟩,
      htenant, hrole, hdisabled⟩

end

/-! ## Requests -/

/-- Every organization has an active owner. -/
def Db.Owned (db : Db) : Prop := ∀ t ∈ db.tenants, db.memberships.HasOwner t.id

section

variable {lib} {db db' : Db}

theorem createMembership_eq_ok (h : db.createMembership m = .ok db') :
    ∃ ms, db.memberships.create m = .ok ms ∧ db' = { db with memberships := ms } := by
  cases hcreate : db.memberships.create m with rw [Db.createMembership, hcreate] at h
  | error e =>
    cases h
  | ok ms =>
    cases h
    exact ⟨ms, rfl, rfl⟩

variable {random : Random} {auth : AuthData} {tenantId : UUID}

theorem Db.Owned.sessionForAuthData {session : RefreshSession} (h : db.Owned)
    (hs : Auth.sessionForAuthData lib db random auth tenantId = .ok (session, db')) : db'.Owned := by
  simp only [Auth.sessionForAuthData] at hs
  split_ifs at hs
  · cases hs
    exact h
  · split at hs
    · cases hs
    · simp only [Db.setSessionTenant] at hs
      split at hs <;> cases hs
      exact h

theorem createTenant_eq_ok {id : UUID} {name : String} (h : db.createTenant id name = .ok db') :
    db'.memberships = db.memberships ∧ ∀ t ∈ db'.tenants, t ∈ db.tenants ∨ t.id = id := by
  simp only [Db.createTenant] at h
  split_ifs at h with hid
  cases h
  refine ⟨rfl, fun t ht => ?_⟩
  rcases (Table.mem_insert hid).mp ht with ht | rfl
  · exact .inl ht
  · exact .inr rfl

theorem Db.Owned.createOrganization {clock : ℤ} {name : String} {reply : Bootstrap} (h : db.Owned)
    (hs : Auth.createOrganization lib db clock random auth name = .ok (reply, db')) : db'.Owned := by
  simp only [Auth.createOrganization, bind_eq_ok] at hs
  obtain ⟨_, -, userId, -, user, -, _, -, db₁, htenant, db₂, hmembership, ⟨session, db₃⟩, hsession,
    bootstrap, -, ⟨⟩⟩ := hs
  refine Db.Owned.sessionForAuthData ?_ hsession
  obtain ⟨hms, htenants⟩ := createTenant_eq_ok htenant
  obtain ⟨ms, hcreate, rfl⟩ := createMembership_eq_ok hmembership
  rw [hms] at hcreate
  intro t ht
  rcases htenants t ht with hold | hnew
  · exact HasOwner.create (h t hold) (.inl rfl) hcreate
  · rw [hnew]
    exact HasOwner.of_create rfl rfl hcreate

theorem Db.Owned.inviteOrganizationMember {clock : ℤ} {tenantID email role reply : String}
    (h : db.Owned)
    (hs : Auth.inviteOrganizationMember lib db clock random auth tenantID email role =
      .ok (reply, db')) : db'.Owned := by
  simp only [Auth.inviteOrganizationMember, bind_eq_ok] at hs
  obtain ⟨_, -, _, -, _, -, _, -, _, -, db₁, htoken, ⟨⟩⟩ := hs
  simp only [Db.createToken] at htoken
  split_ifs at htoken
  cases htoken
  exact h

theorem consumeToken_eq_some {now : ℤ} {hash purpose : String} {token : OneTimeToken}
    (h : db.consumeToken now hash purpose = some (token, db')) :
    db'.tenants = db.tenants ∧ db'.memberships = db.memberships ∧
      ∃ row ∈ db.tokens, row.tokenHash = hash ∧ row.tenantId = token.tenantId ∧
        row.inviteRole = token.inviteRole := by
  obtain ⟨row, hrow, he⟩ := Option.map_eq_some_iff.mp h
  cases he
  obtain ⟨hmem, hhash⟩ := Table.find_eq_some.mp (Option.filter_eq_some_iff.mp hrow).1
  exact ⟨rfl, rfl, row, hmem, hhash, rfl, rfl⟩

theorem Db.Owned.acceptInvite {now clock : ℤ} {token : String} {reply : Bootstrap} (h : db.Owned)
    (hspares : SparesOwner lib db (.accept now clock random auth token))
    (hs : Auth.acceptInvite lib db now clock random auth token = .ok (reply, db')) : db'.Owned := by
  simp only [Auth.acceptInvite, bind_eq_ok] at hs
  obtain ⟨_, -, userId, huserId, user, huser, _, -, ⟨oneTime, db₁⟩, htoken, tenantId, htenantId, _,
    -, db₂, hmembership, ⟨session, db₃⟩, hsession, bootstrap, -, ⟨⟩⟩ := hs
  refine Db.Owned.sessionForAuthData ?_ hsession
  obtain ⟨htenants, hms, row, hrow, hhash, hrowTenant, hrole⟩ :=
    consumeToken_eq_some (orError_eq_ok.mp htoken)
  obtain ⟨ms, hcreate, rfl⟩ := createMembership_eq_ok hmembership
  rw [hms] at hcreate
  have hid : user.id = userId := (Table.find_eq_some.mp (orError_eq_ok.mp huser)).2
  have hkeep : oneTime.inviteRole = .owner ∨ db.memberships.CanRemove tenantId user.id := by
    cases hcase : oneTime.inviteRole with
    | owner => exact .inl rfl
    | member =>
      refine .inr ?_
      rw [hid]
      exact hspares row hrow hhash (hrole.trans hcase) tenantId
        (hrowTenant.trans (orError_eq_ok.mp htenantId)) userId (orError_eq_ok.mp huserId)
  intro t ht
  exact HasOwner.create (h t (htenants ▸ ht)) hkeep hcreate

theorem canRemove_of_ensure {userId : UUID} {u : Unit}
    (h : ensureCanRemoveOwner db tenantId = .ok u) : db.memberships.CanRemove tenantId userId :=
  fun _ _ _ => require_eq_ok.mp h

theorem canRemove_of_not_owner {userId : UUID} {current : Membership}
    (hget : db.memberships.getActive userId tenantId = some current) (h : current.role ≠ .owner) :
    db.memberships.CanRemove tenantId userId := by
  intro m hm hrole
  rw [hget] at hm
  cases hm
  exact absurd hrole h

theorem Db.Owned.updateOrganizationMemberRole {tenantID userID role : String} (h : db.Owned)
    (hs : Auth.updateOrganizationMemberRole lib db auth tenantID userID role = .ok db') :
    db'.Owned := by
  simp only [Auth.updateOrganizationMemberRole, bind_eq_ok] at hs
  obtain ⟨role', -, ⟨tenantId, targetId, actorId⟩, -, _, -, current, hcurrent, hs⟩ := hs
  have hget := orError_eq_ok.mp hcurrent
  split_ifs at hs with hcase
  · obtain ⟨_, hcan, hs⟩ := bind_eq_ok.mp hs
    cases hs
    exact fun t ht => HasOwner.updateRole (h t ht) (.inr (canRemove_of_ensure hcan))
  · cases hs
    refine fun t ht => HasOwner.updateRole (h t ht) ?_
    cases hrole : role' with
    | owner => exact .inl rfl
    | member =>
      refine .inr (canRemove_of_not_owner hget ?_)
      exact fun howner => hcase ⟨howner, hrole⟩

theorem Db.Owned.disableOrganizationMember {now : ℤ} {tenantID userID : String} (h : db.Owned)
    (hs : Auth.disableOrganizationMember lib db now auth tenantID userID = .ok db') : db'.Owned := by
  simp only [Auth.disableOrganizationMember, bind_eq_ok] at hs
  obtain ⟨_, -, ⟨tenantId, targetId, actorId⟩, -, _, -, current, hcurrent, hs⟩ := hs
  have hget := orError_eq_ok.mp hcurrent
  split_ifs at hs with hcase
  · obtain ⟨_, hcan, hs⟩ := bind_eq_ok.mp hs
    cases hs
    exact fun t ht => HasOwner.disable (h t ht) (canRemove_of_ensure hcan)
  · cases hs
    exact fun t ht => HasOwner.disable (h t ht) (canRemove_of_not_owner hget hcase)

theorem Db.Owned.run {call : OrganizationCall} (h : db.Owned) (hspares : SparesOwner lib db call)
    (hs : call.run lib db = some db') : db'.Owned := by
  simp only [OrganizationCall.run] at hs
  split at hs <;> cases hs
  · rename_i hcommit
    cases call with
    | create clock random auth name =>
      obtain ⟨⟨reply, _⟩, hreply, rfl⟩ := map_eq_ok.mp hcommit
      exact h.createOrganization hreply
    | invite clock random auth tenantID email role =>
      obtain ⟨⟨reply, _⟩, hreply, rfl⟩ := map_eq_ok.mp hcommit
      exact h.inviteOrganizationMember hreply
    | accept now clock random auth token =>
      obtain ⟨⟨reply, _⟩, hreply, rfl⟩ := map_eq_ok.mp hcommit
      exact h.acceptInvite hspares hreply
    | updateRole auth tenantID userID role => exact h.updateOrganizationMemberRole hcommit
    | disable now auth tenantID userID => exact h.disableOrganizationMember hcommit
  · exact h

/-- In every history in which the only owner of a tenant accepts no invite as a member, every
tenant has an owner. -/
theorem organizations_keep_owner {db₀ : Db} (h₀ : db₀.Owned)
    (h : Run (fun db (call : OrganizationCall) => call.run lib db) (SparesOwner lib) db₀ db) :
    ∀ t ∈ db.tenants, ∃ m ∈ db.memberships.table, m.tenantId = t.id ∧ m.role = .owner ∧
      m.disabledAt = none :=
  h.invariant h₀ fun _ _ _ howned => howned.run

end

namespace Acme

def db : Db where
  users := ⟨[⟨1, "Ada", "ada@example.com", some 0, none⟩, ⟨2, "Bob", "bob@example.com", some 0, none⟩],
    by decide⟩
  identities := .empty
  tenants := .empty
  memberships := .empty
  sessions := .empty
  tokens := .empty
  attempts := .empty

def auth (user : String) : AuthData := ⟨user, "", "", "", ""⟩

def hire (user email : String) : List OrganizationCall :=
  [.create 0 ⟨10, 11, 12, "first"⟩ (auth "1") "Acme",
    .invite 0 ⟨0, 0, 0, "second"⟩ (auth "1") "10" email "member",
    .accept 1 1 ⟨0, 13, 14, "third"⟩ (auth user) "second"]

end Acme

theorem organizations_keep_owner_hire :
    ∃ db, Run (fun db (call : OrganizationCall) => call.run plainLibrary db)
        (SparesOwner plainLibrary) Acme.db db ∧
      ∃ t ∈ db.tenants, ∃ m ∈ db.memberships.table, m.tenantId = t.id ∧ m.role = .owner ∧
        m.disabledAt = none := by
  refine Run.exists_of_decide (P := fun db => db.tenants.rows ≠ [])
    (Acme.hire "2" "bob@example.com") (by decide +kernel) fun db hrun hne => ?_
  obtain ⟨t, ht⟩ := List.exists_mem_of_ne_nil _ hne
  exact ⟨t, ht, organizations_keep_owner (fun t ht => by cases ht) hrun t ht⟩

/-- The owner accepts an invite as a member of the own organization. -/
theorem owner_accepts_invite :
    ∃ db, Run (fun db (call : OrganizationCall) => call.run plainLibrary db) (fun _ _ => True)
        Acme.db db ∧
      ∃ t ∈ db.tenants, ¬ ∃ m ∈ db.memberships.table, m.tenantId = t.id ∧ m.role = .owner ∧
        m.disabledAt = none :=
  Run.exists_of_decide (P := fun db => ∃ t ∈ db.tenants.rows, ¬ ∃ m ∈ db.memberships.table.rows,
    m.tenantId = t.id ∧ m.role = .owner ∧ m.disabledAt = none)
    (Acme.hire "1" "ada@example.com") (by decide +kernel) fun _ _ h => h

end Scenery.Auth
