import Mathlib.Data.List.Sort
import Mathlib.Data.Prod.Lex
import Scenery.Outcome
import Scenery.Table
import Scenery.Text

/-!
# The tables of the auth service

The rows of `auth/db/gen/schema.sql` that login, organizations and refresh sessions read or write,
and the statements of `auth/db/queries.sql` on them.
-/

namespace Scenery.Auth

structure UUID where
  bytes : BitVec 128
  deriving DecidableEq

instance (n : ℕ) : OfNat UUID n := ⟨⟨BitVec.ofNat 128 n⟩⟩

inductive Code where
  | invalidArgument
  | unauthenticated
  | notFound
  | permissionDenied
  | failedPrecondition
  | resourceExhausted
  | internal
  deriving DecidableEq

structure AuthError where
  code : Code
  msg : String
  deriving DecidableEq

def invalidArgument (msg : String) : AuthError := ⟨.invalidArgument, msg⟩

def unauthenticated (msg : String) : AuthError := ⟨.unauthenticated, msg⟩

def permissionDenied (msg : String) : AuthError := ⟨.permissionDenied, msg⟩

def failedPrecondition (msg : String) : AuthError := ⟨.failedPrecondition, msg⟩

def noRows : AuthError := ⟨.internal, "sql: no rows in result set"⟩

def databaseError : AuthError := ⟨.internal, "database error"⟩

def orError {α : Type} (e : AuthError) : Option α → Except AuthError α
  | some a => .ok a
  | none => .error e

theorem orError_eq_ok {α : Type} {e : AuthError} {x : Option α} {a : α} :
    orError e x = .ok a ↔ x = some a := by
  cases x with
  | none | some => simp [orError]

def require (e : AuthError) (c : Prop) [Decidable c] : Except AuthError Unit :=
  if c then .ok () else .error e

theorem require_eq_ok {e : AuthError} {c : Prop} [Decidable c] {u : Unit} :
    require e c = .ok u ↔ c := by
  by_cases h : c <;> simp [require, h]

/-! ## Rows -/

structure User where
  id : UUID
  displayName : String
  normalizedPrimaryEmail : String
  emailVerifiedAt : Option ℤ
  disabledAt : Option ℤ
  deriving DecidableEq

inductive Provider where
  | email
  | google
  deriving DecidableEq

structure Identity where
  id : UUID
  userId : UUID
  provider : Provider
  providerSubject : String
  passwordHash : String
  deriving DecidableEq

def Identity.key (r : Identity) : Provider × String := (r.provider, r.providerSubject)

structure Tenant where
  id : UUID
  name : String
  deletedAt : Option ℤ
  deriving DecidableEq

inductive Role where
  | owner
  | member
  deriving DecidableEq

structure Membership where
  id : UUID
  tenantId : UUID
  userId : UUID
  role : Role
  disabledAt : Option ℤ
  invitedByUserId : Option UUID
  invitedAt : Option ℤ
  deriving DecidableEq

structure RefreshSession where
  id : UUID
  userId : UUID
  tokenHash : String
  previousTokenHash : String
  previousTokenExpiresAt : Option ℤ
  activeTenantId : Option UUID
  expiresAt : ℤ
  rotatedAt : Option ℤ
  revokedAt : Option ℤ
  revokedReason : String
  actorUserId : Option UUID
  impersonationId : Option UUID
  deriving DecidableEq

structure OneTimeToken where
  purpose : String
  tokenHash : String
  userId : Option UUID
  tenantId : Option UUID
  normalizedEmail : String
  metadata : List (String × String)
  expiresAt : ℤ
  consumedAt : Option ℤ
  deriving DecidableEq

structure Attempt where
  purpose : String
  normalizedEmail : String
  ipHash : String
  windowStartedAt : ℤ
  attemptCount : ℕ
  lastAttemptAt : ℤ
  deriving DecidableEq

def Attempt.key (r : Attempt) : String × String × String :=
  (r.purpose, r.normalizedEmail, r.ipHash)

/-! ## Memberships -/

def Membership.links (userId tenantId : UUID) (m : Membership) : Bool :=
  m.userId = userId && m.tenantId = tenantId && m.disabledAt = none

/-- The memberships; `organization_memberships_active_user_tenant_key` allows one active
membership of a user in a tenant. -/
structure Memberships where
  table : Table Membership.id
  unique : ∀ userId tenantId, ∀ m ∈ table, ∀ m' ∈ table,
    m.links userId tenantId = true → m'.links userId tenantId = true → m = m'

namespace Memberships

def empty : Memberships := ⟨.empty, fun _ _ m h => absurd h (Table.not_mem_empty m)⟩

def update (ms : Memberships) (p : Membership → Bool) (f : Membership → Membership)
    (hid : ∀ m, (f m).id = m.id)
    (hlinks : ∀ m u t, (f m).links u t = true → m.links u t = true) : Memberships where
  table := ms.table.update p f hid
  unique userId tenantId m h m' h' hm hm' := by
    obtain ⟨a, ha, rfl⟩ := Table.mem_update.mp h
    obtain ⟨b, hb, rfl⟩ := Table.mem_update.mp h'
    have hold : ∀ x, (if p x then f x else x).links userId tenantId = true →
        x.links userId tenantId = true := by
      intro x hx
      split_ifs at hx
      · exact hlinks x _ _ hx
      · exact hx
    rw [ms.unique userId tenantId a ha b hb (hold a hm) (hold b hm')]

def getActive (ms : Memberships) (userId tenantId : UUID) : Option Membership :=
  ms.table.rows.find? (Membership.links userId tenantId)

def setRole (role : Role) (m : Membership) : Membership := { m with role := role }

def updateRole (ms : Memberships) (tenantId userId : UUID) (role : Role) : Memberships :=
  ms.update (Membership.links userId tenantId) (setRole role) (fun _ => rfl) fun _ _ _ h => h

def setDisabled (now : ℤ) (m : Membership) : Membership :=
  { m with disabledAt := some (m.disabledAt.getD now) }

def disable (ms : Memberships) (now : ℤ) (tenantId userId : UUID) : Memberships :=
  ms.update (fun m => m.tenantId = tenantId && m.userId = userId) (setDisabled now)
    (fun _ => rfl) fun m u t h => by simp [Membership.links, setDisabled] at h

theorem mem_updateRole {ms : Memberships} {tenantId userId : UUID} {role : Role} {m : Membership} :
    m ∈ (ms.updateRole tenantId userId role).table ↔
      ∃ r ∈ ms.table, (if r.links userId tenantId then setRole role r else r) = m :=
  @Table.mem_update _ _ _ ms.table m _ (setRole role) (fun _ => rfl)

theorem mem_disable {ms : Memberships} {now : ℤ} {tenantId userId : UUID} {m : Membership} :
    m ∈ (ms.disable now tenantId userId).table ↔ ∃ r ∈ ms.table,
      (if r.tenantId = tenantId && r.userId = userId then setDisabled now r else r) = m :=
  @Table.mem_update _ _ _ ms.table m _ (setDisabled now) (fun _ => rfl)

def insert (ms : Memberships) (m : Membership) (hid : m.id ∉ ms.table.rows.map Membership.id)
    (hfree : ∀ r ∈ ms.table.rows, r.links m.userId m.tenantId = false) : Memberships where
  table := ms.table.insert m hid
  unique userId tenantId a ha b hb hla hlb := by
    -- the new row is the only one that links its user and tenant
    have hnew : m.links userId tenantId = true → ∀ r ∈ ms.table.rows,
        r.links userId tenantId = false := by
      intro hm
      simp only [Membership.links, Bool.and_eq_true, decide_eq_true_eq] at hm
      obtain ⟨⟨rfl, rfl⟩, -⟩ := hm
      exact hfree
    rcases (Table.mem_insert hid).mp ha with hina | rfl <;>
      rcases (Table.mem_insert hid).mp hb with hinb | hbm
    · exact ms.unique userId tenantId a hina b hinb hla hlb
    · rw [hnew (hbm ▸ hlb) a hina] at hla
      cases hla
    · rw [hnew hla b hinb] at hlb
      cases hlb
    · exact hbm.symm

def create (ms : Memberships) (m : Membership) : Except AuthError Memberships :=
  if hfree : ∀ r ∈ ms.table.rows, r.links m.userId m.tenantId = false then
    if hid : m.id ∈ ms.table.rows.map Membership.id then .error databaseError
    else .ok (ms.insert m hid hfree)
  else .ok (ms.updateRole m.tenantId m.userId m.role)

def countActiveOwners (ms : Memberships) (tenantId : UUID) : ℕ :=
  ms.table.rows.countP fun m => m.tenantId = tenantId && m.role = .owner && m.disabledAt = none

def listUser (ms : Memberships) (tenants : Table Tenant.id) (userId : UUID) :
    List (Membership × Tenant) :=
  let rows := ms.table.rows.filterMap fun m =>
    if m.userId = userId ∧ m.disabledAt = none then
      ((tenants.find m.tenantId).filter fun t => t.deletedAt = none).map fun t => (m, t)
    else none
  rows.insertionSort fun a b =>
    toLex (a.2.name.toLower, toLex (a.2.name, a.1.tenantId.bytes.toNat)) ≤
      toLex (b.2.name.toLower, toLex (b.2.name, b.1.tenantId.bytes.toNat))

end Memberships

/-! ## The database -/

structure Db where
  users : Table User.id
  identities : Table Identity.key
  tenants : Table Tenant.id
  memberships : Memberships
  sessions : Table RefreshSession.id
  tokens : Table OneTimeToken.tokenHash
  attempts : Table Attempt.key

namespace Db

def createTenant (db : Db) (id : UUID) (name : String) : Except AuthError Db :=
  if h : id ∈ db.tenants.rows.map Tenant.id then .error databaseError
  else .ok { db with tenants := db.tenants.insert ⟨id, name, none⟩ h }

def createMembership (db : Db) (m : Membership) : Except AuthError Db :=
  (db.memberships.create m).map fun ms => { db with memberships := ms }

def createSession (db : Db) (session : RefreshSession) : Except AuthError Db :=
  if h : session.id ∈ db.sessions.rows.map RefreshSession.id then .error databaseError
  else .ok { db with sessions := db.sessions.insert session h }

def rotated (now : ℤ) (tokenHash : String) (graceMs : ℤ) (r : RefreshSession) : RefreshSession :=
  { r with
    previousTokenHash := r.tokenHash
    previousTokenExpiresAt := some (now + graceMs * 1000)
    tokenHash := tokenHash
    rotatedAt := some now }

def rotateSession (db : Db) (now : ℤ) (id : UUID) (tokenHash : String) (graceMs : ℤ) : Db :=
  { db with
    sessions := db.sessions.update (fun r => r.id = id) (rotated now tokenHash graceMs)
      fun _ => rfl }

def withTenant (tenantId : UUID) (r : RefreshSession) : RefreshSession :=
  { r with activeTenantId := some tenantId }

def setSessionTenant (db : Db) (id tenantId : UUID) : Except AuthError (RefreshSession × Db) :=
  match (db.sessions.find id).filter fun r => r.revokedAt = none with
  | none => .error noRows
  | some r =>
    .ok (withTenant tenantId r, { db with
      sessions := db.sessions.update (fun r => r.id = id && r.revokedAt = none)
        (withTenant tenantId) fun _ => rfl })

def revoked (now : ℤ) (reason : String) (r : RefreshSession) : RefreshSession :=
  { r with revokedAt := some (r.revokedAt.getD now), revokedReason := reason }

def revokeSession (db : Db) (now : ℤ) (id : UUID) (reason : String) : Db :=
  { db with sessions := db.sessions.update (fun r => r.id = id) (revoked now reason) fun _ => rfl }

def revokeUserSessions (db : Db) (now : ℤ) (userId : UUID) (reason : String) : Db :=
  { db with
    sessions := db.sessions.update
      (fun r => (r.userId = userId || r.actorUserId = some userId) && r.revokedAt = none)
      (revoked now reason) fun _ => rfl }

def createToken (db : Db) (token : OneTimeToken) : Except AuthError Db :=
  if h : token.tokenHash ∈ db.tokens.rows.map OneTimeToken.tokenHash then .error databaseError
  else .ok { db with tokens := db.tokens.insert token h }

def consumeToken (db : Db) (now : ℤ) (tokenHash purpose : String) : Option (OneTimeToken × Db) :=
  ((db.tokens.find tokenHash).filter fun r =>
    r.purpose = purpose && r.consumedAt = none && now < r.expiresAt).map fun r =>
    ({ r with consumedAt := some now }, { db with
      tokens := db.tokens.update (fun r => r.tokenHash = tokenHash)
        (fun r => { r with consumedAt := some now }) fun _ => rfl })

def emailIdentity (db : Db) (email : String) : Option Identity :=
  db.identities.find (.email, email)

def updatePasswordHash (db : Db) (id : UUID) (hash : String) : Db :=
  { db with
    identities := db.identities.update (fun r => r.id = id)
      (fun r => { r with passwordHash := hash }) fun _ => rfl }

end Db

end Scenery.Auth
