import Scenery.Auth.Tables

/-!
# The auth service

The helpers of `auth/standard_service.go` that the requests share.
-/

namespace Scenery.Auth

structure AccessClaims where
  subject : String
  tenantId : String
  sessionId : String
  actorSubject : String
  impersonationId : String
  expiresAt : ℤ
  deriving DecidableEq

structure Library where
  normalizeEmail : String → Except String String
  equalFold : String → String → Bool
  /-- `verifyPassword`: whether the password is right and whether its hash is outdated -/
  verifyPassword : String → String → Option (Bool × Bool)
  hashPassword : String → Option String
  sum256 : String → String
  parseUUID : String → Option UUID
  uuidString : UUID → String
  sign : AccessClaims → Except AuthError String
  parseToken : String → ℤ → Option AccessClaims

structure Random where
  tenantId : UUID
  membershipId : UUID
  sessionId : UUID
  secret : String
  deriving DecidableEq

structure OrganizationSession where
  tenantId : UUID
  tenantName : String
  role : Role
  deriving DecidableEq

structure Bootstrap where
  token : String
  user : User
  currentTenantId : UUID
  organizations : List OrganizationSession
  actorUserId : Option UUID
  deriving DecidableEq

structure AuthSession where
  bootstrap : Bootstrap
  refreshToken : String
  deriving DecidableEq

def defaultAccessTokenTTL : ℤ := 15 * 60 * 1000000

def defaultRefreshSessionTTL : ℤ := 30 * 24 * 3600 * 1000000

variable (lib : Library)

def tokenHash (token : String) : String := lib.sum256 (trimSpace token)

def newRefreshToken (sessionId : UUID) (secret : String) : String :=
  lib.uuidString sessionId ++ "." ++ secret

def parseUUID (value : String) : Option UUID := lib.parseUUID (trimSpace value)

def uuidText (id : Option UUID) : String := (id.map lib.uuidString).getD ""

def generateAccessToken (claims : AccessClaims) : Except AuthError String := do
  require ⟨.internal, "user id is required"⟩ (trimSpace claims.subject ≠ "")
  require ⟨.internal, "tenant id is required"⟩ (trimSpace claims.tenantId ≠ "")
  lib.sign claims

def buildBootstrap (db : Db) (clock : ℤ) (user : User) (tenantId : UUID)
    (session : RefreshSession) : Except AuthError Bootstrap := do
  let memberships := db.memberships.listUser db.tenants user.id
  require (permissionDenied "workspace access is disabled")
    (∃ m ∈ memberships, m.1.tenantId = tenantId)
  let token ← generateAccessToken lib
    { subject := lib.uuidString user.id
      tenantId := lib.uuidString tenantId
      sessionId := lib.uuidString session.id
      actorSubject := uuidText lib session.actorUserId
      impersonationId := uuidText lib session.impersonationId
      expiresAt := clock + defaultAccessTokenTTL }
  return ⟨token, user, tenantId, memberships.map fun m => ⟨m.1.tenantId, trimSpace m.2.name, m.1.role⟩,
    session.actorUserId⟩

def defaultWorkspaceName (displayName : String) : String :=
  let name := if trimSpace displayName = "" then "My" else trimSpace displayName
  if name.toLower = "my" then "My Workspace" else name ++ " Workspace"

def chooseTenant (memberships : List (Membership × Tenant)) (preferred : Option UUID) :
    Option UUID :=
  match memberships.find? fun m => some m.1.tenantId = preferred with
  | some m => some m.1.tenantId
  | none => memberships.head?.map fun m => m.1.tenantId

def createWorkspace (db : Db) (random : Random) (user : User) : Except AuthError (UUID × Db) := do
  let db ← db.createTenant random.tenantId (defaultWorkspaceName user.displayName)
  let db ← db.createMembership ⟨random.membershipId, random.tenantId, user.id, .owner, none, none,
    none⟩
  return (random.tenantId, db)

def ensureActiveTenant (db : Db) (random : Random) (user : User) (preferred : Option UUID) :
    Except AuthError (UUID × Db) := do
  require (failedPrecondition "email verification is required") (user.emailVerifiedAt ≠ none)
  require (permissionDenied "user is disabled") (user.disabledAt = none)
  match chooseTenant (db.memberships.listUser db.tenants user.id) preferred with
  | some tenantId => return (tenantId, db)
  | none => createWorkspace db random user

def newSession (clock : ℤ) (random : Random) (userId tenantId : UUID) (ttl : ℤ)
    (actorUserId impersonationId : Option UUID) : RefreshSession where
  id := random.sessionId
  userId := userId
  tokenHash := tokenHash lib (newRefreshToken lib random.sessionId random.secret)
  previousTokenHash := ""
  previousTokenExpiresAt := none
  activeTenantId := some tenantId
  expiresAt := clock + ttl
  rotatedAt := none
  revokedAt := none
  revokedReason := ""
  actorUserId := actorUserId
  impersonationId := impersonationId

def createAuthSessionResponse (db : Db) (clock : ℤ) (random : Random) (user : User)
    (tenantId : UUID) (ttl : ℤ) (actorUserId impersonationId : Option UUID) :
    Except AuthError (AuthSession × Db) := do
  let session := newSession lib clock random user.id tenantId ttl actorUserId impersonationId
  let db ← db.createSession session
  let bootstrap ← buildBootstrap lib db clock user tenantId session
  return (⟨bootstrap, newRefreshToken lib random.sessionId random.secret⟩, db)

/-! ## What the helpers do -/

section

variable {lib} {db db' : Db} {clock : ℤ} {random : Random} {user : User} {tenantId : UUID}

variable {ms : Memberships}

theorem mem_listUser {tenants : Table Tenant.id} {userId : UUID} {x : Membership × Tenant} :
    x ∈ ms.listUser tenants userId ↔ x.1 ∈ ms.table ∧ (x.1.userId = userId ∧
      x.1.disabledAt = none) ∧ tenants.find x.1.tenantId = some x.2 ∧ x.2.deletedAt = none := by
  obtain ⟨m, t⟩ := x
  rw [Memberships.listUser, List.mem_insertionSort, List.mem_filterMap]
  constructor
  · rintro ⟨m', hm', h⟩
    split_ifs at h with hactive
    obtain ⟨t', ht', he⟩ := Option.map_eq_some_iff.mp h
    cases he
    obtain ⟨hfind, hlive⟩ := Option.filter_eq_some_iff.mp ht'
    exact ⟨hm', hactive, hfind, of_decide_eq_true hlive⟩
  · rintro ⟨hm, hactive, hfind, hlive⟩
    refine ⟨m, hm, ?_⟩
    dsimp only at hactive hfind hlive
    rw [if_pos hactive, hfind]
    simp [Option.filter, hlive]

def hasOrganization (db : Db) (userId tenantId : UUID) : Prop :=
  ∃ m ∈ db.memberships.listUser db.tenants userId, m.1.tenantId = tenantId

structure Library.Configured (lib : Library) : Prop where
  signs : ∀ claims, ∃ token, lib.sign claims = .ok token
  uuid : ∀ id, trimSpace (lib.uuidString id) ≠ ""

theorem buildBootstrap_ok {session : RefreshSession} (hlib : lib.Configured)
    (h : hasOrganization db user.id tenantId) :
    ∃ bootstrap, buildBootstrap lib db clock user tenantId session = .ok bootstrap := by
  exact ⟨_, bind_eq_ok.mpr ⟨(), require_eq_ok.mpr h, bind_eq_ok.mpr ⟨_,
    bind_eq_ok.mpr ⟨(), require_eq_ok.mpr (hlib.uuid _),
      bind_eq_ok.mpr ⟨(), require_eq_ok.mpr (hlib.uuid _), (hlib.signs _).choose_spec⟩⟩, rfl⟩⟩⟩

variable {m : Membership}

theorem hasOrganization_of_links {t : Tenant} (hm : m ∈ db.memberships.table)
    (hlinks : m.links user.id t.id = true) (ht : t ∈ db.tenants) (hlive : t.deletedAt = none) :
    hasOrganization db user.id t.id := by
  simp only [Membership.links, Bool.and_eq_true, decide_eq_true_eq] at hlinks
  obtain ⟨⟨huser, htenant⟩, hactive⟩ := hlinks
  refine ⟨(m, t), mem_listUser.mpr ⟨hm, ⟨huser, hactive⟩, ?_, hlive⟩, htenant⟩
  exact Table.find_eq_some.mpr ⟨ht, htenant.symm⟩

variable {preferred : Option UUID}

theorem chooseTenant_mem {memberships : List (Membership × Tenant)}
    (h : chooseTenant memberships preferred = some tenantId) :
    ∃ m ∈ memberships, m.1.tenantId = tenantId := by
  simp only [chooseTenant] at h
  split at h
  · rename_i m hfind
    cases h
    exact ⟨m, List.mem_of_find?_eq_some hfind, rfl⟩
  · obtain ⟨m, hhead, rfl⟩ := Option.map_eq_some_iff.mp h
    exact ⟨m, List.mem_of_head? hhead, rfl⟩

theorem chooseTenant_none {memberships : List (Membership × Tenant)}
    (h : chooseTenant memberships preferred = none) : memberships = [] := by
  simp only [chooseTenant] at h
  split at h
  · cases h
  · exact List.head?_eq_none_iff.mp (Option.map_eq_none_iff.mp h)

theorem create_links {ms' : Memberships} (hactive : m.disabledAt = none)
    (h : ms.create m = .ok ms') : ∃ r ∈ ms'.table, r.links m.userId m.tenantId = true := by
  simp only [Memberships.create] at h
  split_ifs at h with hfree hid
  · cases h
    exact ⟨m, (Table.mem_insert hid).mpr (.inr rfl), by simp [Membership.links, hactive]⟩
  · cases h
    obtain ⟨r, hr, hlinks⟩ := by simpa using hfree
    refine ⟨Memberships.setRole m.role r, ?_, hlinks⟩
    exact Memberships.mem_updateRole.mpr ⟨r, hr, if_pos hlinks⟩

theorem createMembership_ok (h : db.memberships.create m = .ok ms) :
    db.createMembership m = .ok { db with memberships := ms } := by
  rw [Db.createMembership, h]
  rfl

def canCreate (db : Db) (random : Random) : Prop :=
  random.tenantId ∉ db.tenants.rows.map Tenant.id ∧
    random.membershipId ∉ db.memberships.table.rows.map Membership.id

theorem createWorkspace_ok (h : canCreate db random) :
    ∃ db', createWorkspace db random user = .ok (random.tenantId, db') ∧
      hasOrganization db' user.id random.tenantId ∧ db'.sessions = db.sessions ∧
      db'.attempts = db.attempts := by
  obtain ⟨htenant, hmembership⟩ := h
  let m : Membership := ⟨random.membershipId, random.tenantId, user.id, .owner, none, none, none⟩
  have hcreate : ∃ ms, db.memberships.create m = .ok ms := by
    simp only [Memberships.create]
    split_ifs
    · exact ⟨_, rfl⟩
    · exact ⟨_, rfl⟩
  obtain ⟨ms, hms⟩ := hcreate
  obtain ⟨r, hr, hlinks⟩ := create_links rfl hms
  let t : Tenant := ⟨random.tenantId, defaultWorkspaceName user.displayName, none⟩
  refine ⟨{ db with tenants := db.tenants.insert t htenant, memberships := ms }, ?_, ?_, rfl, rfl⟩
  · exact bind_eq_ok.mpr ⟨_, dif_neg htenant, bind_eq_ok.mpr ⟨_, createMembership_ok hms, rfl⟩⟩
  · exact hasOrganization_of_links (t := t) hr hlinks
      ((Table.mem_insert htenant).mpr (.inr rfl)) rfl

theorem ensureActiveTenant_ok (hverified : user.emailVerifiedAt ≠ none)
    (henabled : user.disabledAt = none)
    (h : (∃ t, hasOrganization db user.id t) ∨ canCreate db random) :
    ∃ tenantId db', ensureActiveTenant db random user preferred = .ok (tenantId, db') ∧
      hasOrganization db' user.id tenantId ∧ db'.sessions = db.sessions ∧
      db'.attempts = db.attempts := by
  -- the part after the two checks
  have hchecked : ∀ {x : Except AuthError (UUID × Db)} {r : UUID × Db},
      x = .ok r → (do
        require (failedPrecondition "email verification is required") (user.emailVerifiedAt ≠ none)
        require (permissionDenied "user is disabled") (user.disabledAt = none)
        x) = .ok r := by
    intro x r hx
    exact bind_eq_ok.mpr ⟨(), require_eq_ok.mpr hverified,
      bind_eq_ok.mpr ⟨(), require_eq_ok.mpr henabled, hx⟩⟩
  simp only [ensureActiveTenant]
  cases hchoose : chooseTenant (db.memberships.listUser db.tenants user.id) preferred with
  | some tenantId => exact ⟨tenantId, db, hchecked rfl, chooseTenant_mem hchoose, rfl, rfl⟩
  | none =>
    rcases h with ⟨t, m, hm, -⟩ | hcan
    · rw [chooseTenant_none hchoose] at hm
      cases hm
    · obtain ⟨db', hdb', hrest⟩ := createWorkspace_ok hcan
      exact ⟨random.tenantId, db', hchecked hdb', hrest⟩

theorem createAuthSessionResponse_ok {ttl : ℤ} {actorUserId impersonationId : Option UUID}
    (hlib : lib.Configured) (h : hasOrganization db user.id tenantId)
    (hid : random.sessionId ∉ db.sessions.rows.map RefreshSession.id) :
    ∃ session db', createAuthSessionResponse lib db clock random user tenantId ttl actorUserId
      impersonationId = .ok (session, db') ∧ db'.attempts = db.attempts := by
  let session := newSession lib clock random user.id tenantId ttl actorUserId impersonationId
  let db₁ : Db := { db with sessions := db.sessions.insert session hid }
  obtain ⟨bootstrap, hbootstrap⟩ : ∃ bootstrap, buildBootstrap lib db₁ clock user tenantId session =
    .ok bootstrap := buildBootstrap_ok hlib h
  refine ⟨_, db₁, bind_eq_ok.mpr ⟨db₁, dif_neg hid, bind_eq_ok.mpr ⟨bootstrap, ?_, rfl⟩⟩, rfl⟩
  exact hbootstrap

end

def plainLibrary : Library where
  normalizeEmail s := .ok s
  equalFold s t := s.toLower = t.toLower
  verifyPassword password hash := some (password = hash, false)
  hashPassword password := some password
  sum256 s := s
  parseUUID s := some ⟨BitVec.ofNat 128 (Nat.ofDigitChars 10 s.toList 0)⟩
  uuidString id := String.ofList (Nat.toDigits 10 id.bytes.toNat)
  sign claims := .ok claims.subject
  parseToken _ _ := none

theorem plainLibrary_configured : plainLibrary.Configured where
  signs claims := ⟨claims.subject, rfl⟩
  uuid id := by
    have hlist : (plainLibrary.uuidString id).toList = [] ++ Nat.toDigits 10 id.bytes.toNat :=
      String.toList_ofList
    rw [trimSpace_append_toDigits _ hlist fun c hc => by cases hc]
    intro hempty
    rw [hempty] at hlist
    exact Nat.toDigits_ne_nil hlist.symm

end Scenery.Auth
