import Scenery.Auth.Organizations

/-!
# Refresh tokens

`Refresh` and `Logout` of `auth/standard_sessions.go`, the revocations of
`auth/user_lifecycle.go`, and `AuthHandler` of `auth/standard_jwt.go`.
-/

namespace Scenery.Auth

def refreshTokenReplayGrace : ℤ := 30 * 1000

def resolveRefreshToken (param cookie : Option String) : String :=
  if trimSpace (param.getD "") ≠ "" then trimSpace (param.getD "") else trimSpace (cookie.getD "")

inductive Commit where
  | done
  | refused
  | unanswered
  deriving DecidableEq

def Commit.after {α : Type} (commit : Commit) (before after : α) : α :=
  if commit = .refused then before else after

def Commit.answer {α : Type} (commit : Commit) (answer : Except AuthError α) : Except AuthError α :=
  if commit = .done then answer else .error databaseError

structure RefreshRequest where
  now : ℤ
  clock : ℤ
  random : Random
  param : Option String
  cookie : Option String
  commit : Commit
  deriving DecidableEq

def RefreshRequest.token (request : RefreshRequest) : String :=
  resolveRefreshToken request.param request.cookie

inductive RotateError where
  | failed (e : AuthError)
  | replay (db : Db)

def RotateError.isReplay : RotateError → Bool
  | .failed _ => false
  | .replay _ => true

variable (lib : Library)

def parseRefreshToken (token : String) : Option UUID :=
  let text := (trimSpace token).toList
  let sessionId := String.ofList (text.takeWhile fun c => c ≠ '.')
  if '.' ∉ text ∨ trimSpace sessionId = "" then none else parseUUID lib sessionId

def RefreshSession.matchesCurrent (session : RefreshSession) (hash : String) : Prop :=
  hash = session.tokenHash

def RefreshSession.matchesPrevious (session : RefreshSession) (hash : String) (now : ℤ) : Prop :=
  session.previousTokenHash ≠ "" ∧ hash = session.previousTokenHash ∧
    ∃ expiresAt ∈ session.previousTokenExpiresAt, now < expiresAt

instance (session : RefreshSession) (hash : String) : Decidable (session.matchesCurrent hash) :=
  inferInstanceAs (Decidable (hash = session.tokenHash))

instance (session : RefreshSession) (hash : String) (now : ℤ) :
    Decidable (session.matchesPrevious hash now) :=
  inferInstanceAs (Decidable (session.previousTokenHash ≠ "" ∧ hash = session.previousTokenHash ∧
    ∃ expiresAt ∈ session.previousTokenExpiresAt, now < expiresAt))

def rotateRefreshSession (db : Db) (now clock : ℤ) (secret rawRefreshToken : String) :
    Except RotateError (RefreshSession × String × Db) :=
  match (parseRefreshToken lib rawRefreshToken).bind db.sessions.find with
  | none => .error (.failed (unauthenticated "refresh session is invalid"))
  | some session =>
    let hash := tokenHash lib rawRefreshToken
    if session.revokedAt ≠ none ∨ session.expiresAt ≤ clock then
      .error (.failed (unauthenticated "refresh session is expired"))
    else if session.matchesCurrent hash ∨ session.matchesPrevious hash clock then
      let nextRawToken := newRefreshToken lib session.id secret
      let nextHash := tokenHash lib nextRawToken
      .ok (Db.rotated now nextHash refreshTokenReplayGrace session, nextRawToken,
        db.rotateSession now session.id nextHash refreshTokenReplayGrace)
    else .error (.replay (db.revokeSession now session.id "refresh_replay"))

def moveSession (db : Db) (session : RefreshSession) (tenantId : UUID) :
    Except AuthError (RefreshSession × Db) :=
  if lib.uuidString tenantId ≠ uuidText lib session.activeTenantId then
    db.setSessionTenant session.id tenantId
  else .ok (session, db)

def refreshResponse (db : Db) (clock : ℤ) (random : Random) (session : RefreshSession)
    (rawToken : String) : Except AuthError (AuthSession × Db) := do
  let user ← orError noRows (db.users.find session.userId)
  let (tenantId, db) ← ensureActiveTenant db random user session.activeTenantId
  let (session, db) ← moveSession lib db session tenantId
  let bootstrap ← buildBootstrap lib db clock user tenantId session
  return (⟨bootstrap, rawToken⟩, db)

def refreshTx (db : Db) (request : RefreshRequest) : Except RotateError (AuthSession × Db) := do
  let (session, rawToken, db) ← rotateRefreshSession lib db request.now request.clock
    request.random.secret request.token
  (refreshResponse lib db request.clock request.random session rawToken).mapError .failed

/-- `Refresh`: its answer and the database after it. A replay commits its revocation. -/
def refresh (db : Db) (request : RefreshRequest) : Except AuthError AuthSession × Db :=
  if request.token = "" then (.error (unauthenticated "refresh session is missing"), db)
  else match refreshTx lib db request with
    | .ok (response, after) => (request.commit.answer (.ok response), request.commit.after db after)
    | .error (.replay after) =>
      (request.commit.answer (.error (unauthenticated "refresh session is invalid")),
        request.commit.after db after)
    | .error (.failed e) => (.error e, db)

def logout (db : Db) (now : ℤ) (param cookie : Option String) (commit : Commit) : Db :=
  match parseRefreshToken lib (resolveRefreshToken param cookie) with
  | none => db
  | some sessionId => commit.after db (db.revokeSession now sessionId "logout")

def lifecycleReason (reason : String) : Except AuthError String := do
  let reason := trimSpace reason
  require (invalidArgument "reason must be between 1 and 200 characters")
    (reason ≠ "" ∧ reason.utf8ByteSize ≤ 200 ∧
      reason.toList.all fun c => c ≠ '\r' ∧ c ≠ '\n' ∧ c ≠ '\x00')
  return reason

def lifecycleUserID (userID : String) : Except AuthError UUID :=
  orError (invalidArgument "valid auth user id is required") (parseUUID lib userID)

def userNotFound : AuthError := ⟨.notFound, "auth user not found"⟩

def revokeUserSessions (db : Db) (now : ℤ) (userID reason : String) : Except AuthError Db := do
  let id ← lifecycleUserID lib userID
  let reason ← lifecycleReason reason
  let _ ← orError userNotFound (db.users.find id)
  return db.revokeUserSessions now id reason

def User.disabled (now : ℤ) (user : User) : User :=
  { user with disabledAt := some (user.disabledAt.getD now) }

def disableUser (db : Db) (now : ℤ) (userID reason : String) : Except AuthError Db := do
  let id ← lifecycleUserID lib userID
  let reason ← lifecycleReason reason
  let _ ← orError userNotFound (db.users.find id)
  let users := db.users.update (fun user => user.id = id) (User.disabled now) fun _ => rfl
  return { db with users := users }.revokeUserSessions now id reason

def AuthData.impersonating (data : AuthData) : Prop := trimSpace data.actorUserId ≠ ""

instance (data : AuthData) : Decidable data.impersonating :=
  inferInstanceAs (Decidable (trimSpace data.actorUserId ≠ ""))

def validateToken (jwtSecret : String) (clock : ℤ) (token : String) :
    Except AuthError AuthData := do
  require ⟨.internal, "JWTSecret is not configured"⟩ (trimSpace jwtSecret ≠ "")
  let claims ← orError (unauthenticated "invalid token") (lib.parseToken (trimSpace token) clock)
  require (unauthenticated "token missing subject claim") (trimSpace claims.subject ≠ "")
  require (unauthenticated "token missing tenant_id claim") (trimSpace claims.tenantId ≠ "")
  return { userId := trimSpace claims.subject
           tenantId := trimSpace claims.tenantId
           sessionId := trimSpace claims.sessionId
           actorUserId := trimSpace claims.actorSubject
           impersonationId := trimSpace claims.impersonationId }

def requireEnabledAuthUser (db : Db) (userID : String) : Except AuthError Unit := do
  let id ← orError (unauthenticated "invalid user id") (parseUUID lib userID)
  let user ← orError (unauthenticated "authenticated user is unavailable") (db.users.find id)
  require (permissionDenied "user is disabled") (user.disabledAt = none)

def requireActiveAuthSession (db : Db) (clock : ℤ) (data : AuthData) : Except AuthError Unit := do
  let sessionId ← orError (unauthenticated "auth session is invalid")
    (parseUUID lib data.sessionId)
  let session ← orError (unauthenticated "auth session is invalid") (db.sessions.find sessionId)
  require (unauthenticated "auth session is expired")
    (session.revokedAt = none ∧ clock < session.expiresAt)
  require (unauthenticated "auth session does not match token")
    (lib.uuidString session.userId = trimSpace data.userId ∧
      uuidText lib session.activeTenantId = trimSpace data.tenantId ∧
      uuidText lib session.actorUserId = trimSpace data.actorUserId ∧
      uuidText lib session.impersonationId = trimSpace data.impersonationId)

def requireEnabledActor (db : Db) (data : AuthData) : Except AuthError Unit :=
  if data.impersonating then requireEnabledAuthUser lib db data.actorUserId else .ok ()

def requireAuthSession (service : Except AuthError Db) (clock : ℤ) (data : AuthData) :
    Except AuthError Unit := do
  let db ← service
  requireEnabledAuthUser lib db data.userId
  requireEnabledActor lib db data
  requireActiveAuthSession lib db clock data

def authHandler (jwtSecret : String) (service : Except AuthError Db) (clock : ℤ)
    (token : String) : Except AuthError (String × AuthData) := do
  let data ← validateToken lib jwtSecret clock token
  if trimSpace data.sessionId = "" then
    return (data.userId, data)
  else
    requireAuthSession lib service clock data
    return (data.userId, data)

/-! ## What the helpers do -/

section

variable {lib} {db db' : Db} {clock now : ℤ}

theorem rotateRefreshSession_eq_ok {secret token rawToken : String} {session : RefreshSession}
    (h : rotateRefreshSession lib db now clock secret token = .ok (session, rawToken, db')) :
    ∃ r ∈ db.sessions, parseRefreshToken lib token = some r.id ∧ r.revokedAt = none ∧
      (r.matchesCurrent (tokenHash lib token) ∨ r.matchesPrevious (tokenHash lib token) clock) ∧
      db' = db.rotateSession now r.id (tokenHash lib (newRefreshToken lib r.id secret))
        refreshTokenReplayGrace := by
  simp only [rotateRefreshSession] at h
  split at h
  · cases h
  · rename_i r hfind
    obtain ⟨id, hparse, hfind⟩ := Option.bind_eq_some_iff.mp hfind
    obtain ⟨hr, rfl⟩ := Table.find_eq_some.mp hfind
    split_ifs at h with hexpired hmatches
    cases h
    rw [not_or, not_not] at hexpired
    exact ⟨r, hr, hparse, hexpired.1, hmatches, rfl⟩

theorem rotateRefreshSession_eq_replay {secret token : String}
    (h : rotateRefreshSession lib db now clock secret token = .error (.replay db')) :
    ∃ r ∈ db.sessions, parseRefreshToken lib token = some r.id ∧
      db' = db.revokeSession now r.id "refresh_replay" := by
  simp only [rotateRefreshSession] at h
  split at h
  · cases h
  · rename_i r hfind
    obtain ⟨id, hparse, hfind⟩ := Option.bind_eq_some_iff.mp hfind
    obtain ⟨hr, rfl⟩ := Table.find_eq_some.mp hfind
    split_ifs at h
    · cases h
    · cases h
      exact ⟨r, hr, hparse, rfl⟩

variable {r : RefreshSession}

theorem mem_rotateSession {graceMs : ℤ} {sessionId : UUID} {hash : String} :
    r ∈ (db.rotateSession now sessionId hash graceMs).sessions ↔ ∃ x ∈ db.sessions,
      (if x.id = sessionId then Db.rotated now hash graceMs x else x) = r := by
  have hmem := @Table.mem_update _ _ _ db.sessions r (fun x => x.id = sessionId)
    (Db.rotated now hash graceMs) (fun _ => rfl)
  simp only [decide_eq_true_eq] at hmem
  exact hmem

theorem mem_revokeSession {sessionId : UUID} {reason : String} :
    r ∈ (db.revokeSession now sessionId reason).sessions ↔ ∃ x ∈ db.sessions,
      (if x.id = sessionId then Db.revoked now reason x else x) = r := by
  have hmem := @Table.mem_update _ _ _ db.sessions r (fun x => x.id = sessionId)
    (Db.revoked now reason) (fun _ => rfl)
  simp only [decide_eq_true_eq] at hmem
  exact hmem

theorem ensureActiveTenant_sessions {random : Random} {user : User} {preferred : Option UUID}
    {tenantId : UUID} (h : ensureActiveTenant db random user preferred = .ok (tenantId, db')) :
    db'.sessions = db.sessions := by
  simp only [ensureActiveTenant, bind_eq_ok] at h
  obtain ⟨_, -, _, -, h⟩ := h
  split at h
  · cases h
    rfl
  · obtain ⟨db₁, htenant, h⟩ := bind_eq_ok.mp h
    obtain ⟨db₂, hmembership, ⟨⟩⟩ := bind_eq_ok.mp h
    obtain ⟨ms, -, rfl⟩ := createMembership_eq_ok hmembership
    simp only [Db.createTenant] at htenant
    split_ifs at htenant
    cases htenant
    rfl

theorem revokeUserSessions_sessions {userID reason : String}
    (h : revokeUserSessions lib db now userID reason = .ok db') :
    ∃ userId text, db'.sessions = (db.revokeUserSessions now userId text).sessions := by
  simp only [revokeUserSessions, bind_eq_ok] at h
  obtain ⟨userId, -, text, -, user, -, ⟨⟩⟩ := h
  exact ⟨userId, text, rfl⟩

theorem disableUser_sessions {userID reason : String}
    (h : disableUser lib db now userID reason = .ok db') :
    ∃ userId text, db'.sessions = (db.revokeUserSessions now userId text).sessions := by
  simp only [disableUser, bind_eq_ok] at h
  obtain ⟨userId, -, text, -, user, -, ⟨⟩⟩ := h
  exact ⟨userId, text, rfl⟩

theorem validateToken_eq_ok {jwtSecret token : String} {data : AuthData}
    (h : validateToken lib jwtSecret clock token = .ok data) :
    ∃ claims, lib.parseToken (trimSpace token) clock = some claims ∧
      data.sessionId = trimSpace claims.sessionId := by
  simp only [validateToken, bind_eq_ok] at h
  obtain ⟨_, -, claims, hclaims, _, -, _, -, ⟨⟩⟩ := h
  exact ⟨claims, orError_eq_ok.mp hclaims, rfl⟩

theorem requireActiveAuthSession_eq_ok {data : AuthData} {u : Unit}
    (h : requireActiveAuthSession lib db clock data = .ok u) :
    ∃ r ∈ db.sessions, parseUUID lib data.sessionId = some r.id ∧ r.revokedAt = none := by
  simp only [requireActiveAuthSession, bind_eq_ok] at h
  obtain ⟨sessionId, hparse, r, hfind, _, hlive, -⟩ := h
  obtain ⟨hr, rfl⟩ := Table.find_eq_some.mp (orError_eq_ok.mp hfind)
  exact ⟨r, hr, orError_eq_ok.mp hparse, (require_eq_ok.mp hlive).1⟩

theorem authHandler_eq_ok {jwtSecret token : String} {accepted : String × AuthData}
    (h : authHandler lib jwtSecret (.ok db) clock token = .ok accepted) :
    ∃ data, validateToken lib jwtSecret clock token = .ok data ∧
      (trimSpace data.sessionId = "" ∨ requireActiveAuthSession lib db clock data = .ok ()) := by
  unfold authHandler at h
  rw [bind_eq_ok] at h
  obtain ⟨data, hdata, h⟩ := h
  refine ⟨data, hdata, ?_⟩
  by_cases hblank : trimSpace data.sessionId = ""
  · exact .inl hblank
  · rw [if_neg hblank, bind_eq_ok] at h
    obtain ⟨_, hsession, -⟩ := h
    simp only [requireAuthSession, bind_eq_ok] at hsession
    obtain ⟨_, ⟨⟩, _, -, _, -, hsession⟩ := hsession
    exact .inr hsession

structure RefreshSession.Keeps (r r' : RefreshSession) : Prop where
  id : r'.id = r.id
  tokenHash : r'.tokenHash = r.tokenHash
  previousTokenHash : r'.previousTokenHash = r.previousTokenHash
  previousTokenExpiresAt : r'.previousTokenExpiresAt = r.previousTokenExpiresAt
  revoked : r.revokedAt ≠ none → r'.revokedAt ≠ none

theorem RefreshSession.Keeps.refl (r : RefreshSession) : r.Keeps r := ⟨rfl, rfl, rfl, rfl, fun h => h⟩

theorem keeps_revoked (now : ℤ) (reason : String) (r : RefreshSession) :
    r.Keeps (Db.revoked now reason r) :=
  ⟨rfl, rfl, rfl, rfl, fun _ => Option.some_ne_none _⟩

theorem keeps_withTenant (tenantId : UUID) (r : RefreshSession) :
    r.Keeps (Db.withTenant tenantId r) :=
  ⟨rfl, rfl, rfl, rfl, fun h => h⟩

theorem exists_keeps_update {t : Table RefreshSession.id} {p : RefreshSession → Bool}
    {f : RefreshSession → RefreshSession} (hkeeps : ∀ r : RefreshSession, r.Keeps (f r))
    (hr : r ∈ t) : ∃ r' ∈ t.update p f fun r => (hkeeps r).id, r.Keeps r' := by
  refine ⟨if p r then f r else r, Table.mem_update.mpr ⟨r, hr, rfl⟩, ?_⟩
  split_ifs
  · exact hkeeps r
  · exact .refl r

theorem exists_keeps_refreshResponse {random : Random} {session : RefreshSession}
    {rawToken : String} {response : AuthSession}
    (h : refreshResponse lib db clock random session rawToken = .ok (response, db'))
    (hr : r ∈ db.sessions) : ∃ r' ∈ db'.sessions, r.Keeps r' := by
  simp only [refreshResponse, bind_eq_ok] at h
  obtain ⟨user, -, ⟨tenantId, db₁⟩, htenant, ⟨session', db₂⟩, hset, bootstrap, -, ⟨⟩⟩ := h
  rw [← ensureActiveTenant_sessions htenant] at hr
  simp only [moveSession] at hset
  split_ifs at hset with hchanged
  · simp only [Db.setSessionTenant] at hset
    split at hset
    · cases hset
    · cases hset
      exact exists_keeps_update (keeps_withTenant tenantId) hr
  · cases hset
    exact ⟨r, hr, .refl r⟩

end

end Scenery.Auth
