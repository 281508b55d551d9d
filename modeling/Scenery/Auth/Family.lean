import Scenery.Auth.Refresh

/-!
# The tokens of a session

The histories of one session: requests and revocations in any order, with any tokens, at any
times.
-/

namespace Scenery.Auth.Family

structure State where
  db : Db
  issued : List (String × ℤ)
  replayed : Bool

inductive Event where
  | refresh (request : RefreshRequest)
  | logout (now : ℤ) (param cookie : Option String) (commit : Commit)
  | revokeUserSessions (now : ℤ) (userID reason : String) (commit : Commit)
  | disableUser (now : ℤ) (userID reason : String) (commit : Commit)
  | stopImpersonation (now : ℤ) (sessionId : UUID) (commit : Commit)
  | resetPassword (now : ℤ) (userId : UUID) (commit : Commit)
  | other (db : Db)

variable (lib : Library) (id : UUID)

def rotates (db : Db) (request : RefreshRequest) : Bool :=
  parseRefreshToken lib request.token = some id && request.commit ≠ .refused &&
    (refreshTx lib db request).isOk

def replays (db : Db) (request : RefreshRequest) : Bool :=
  parseRefreshToken lib request.token = some id && request.commit = .done &&
    match refreshTx lib db request with
    | .ok _ => false
    | .error e => e.isReplay

def commitTx (db : Db) (tx : Except AuthError Db) (commit : Commit) : Db :=
  match tx with
  | .ok after => commit.after db after
  | .error _ => db

def step (s : State) : Event → Option State
  | .refresh request => some
      { db := (refresh lib s.db request).2
        issued :=
          if rotates lib id s.db request then
            (newRefreshToken lib id request.random.secret, request.now) :: s.issued
          else s.issued
        replayed := s.replayed || replays lib id s.db request }
  | .logout now param cookie commit => some { s with db := logout lib s.db now param cookie commit }
  | .revokeUserSessions now userID reason commit => some { s with
      db := commitTx s.db (revokeUserSessions lib s.db now userID reason) commit }
  | .disableUser now userID reason commit => some { s with
      db := commitTx s.db (disableUser lib s.db now userID reason) commit }
  | .stopImpersonation now sessionId commit => some { s with
      db := commit.after s.db (s.db.revokeSession now sessionId "impersonation_stopped") }
  | .resetPassword now userId commit => some { s with
      db := commit.after s.db (s.db.revokeUserSessions now userId "password_reset") }
  | .other db =>
    if db.sessions.find id = s.db.sessions.find id then some { s with db := db } else none

def opened (clock : ℤ) (response : AuthSession) (db : Db) : State :=
  ⟨db, [(response.refreshToken, clock)], false⟩

def State.accepts (s : State) (clock : ℤ) (token : String) : Prop :=
  ∃ current earlier, s.issued = current :: earlier ∧
    (trimSpace token = trimSpace current.1 ∨ ∃ previous ∈ earlier.head?,
      trimSpace token = trimSpace previous.1 ∧ clock < current.2 + refreshTokenReplayGrace * 1000)

def carries (claims : AccessClaims) : Prop :=
  trimSpace claims.sessionId ≠ "" ∧ parseUUID lib claims.sessionId = some id

/-! ## The row of the session -/

def Tracks (issued : List (String × ℤ)) (r : RefreshSession) : Prop :=
  ∃ current earlier, issued = current :: earlier ∧ r.tokenHash = tokenHash lib current.1 ∧
    (r.previousTokenHash ≠ "" → ∃ previous ∈ earlier.head?,
      r.previousTokenHash = tokenHash lib previous.1 ∧
      r.previousTokenExpiresAt = some (current.2 + refreshTokenReplayGrace * 1000))

def Tracked (s : State) : Prop :=
  ∃ r ∈ s.db.sessions, r.id = id ∧ Tracks lib s.issued r ∧
    (s.replayed = true → r.revokedAt ≠ none)

section

variable {lib id} {s : State} {db db' : Db} {r r' : RefreshSession}

theorem Tracks.keeps {issued : List (String × ℤ)} (h : Tracks lib issued r) (hr : r.Keeps r') :
    Tracks lib issued r' := by
  obtain ⟨current, earlier, hissued, hhash, hprevious⟩ := h
  refine ⟨current, earlier, hissued, hr.tokenHash.trans hhash, fun hne => ?_⟩
  rw [hr.previousTokenHash] at hne ⊢
  rw [hr.previousTokenExpiresAt]
  exact hprevious hne

theorem Tracks.rotated {issued : List (String × ℤ)} (h : Tracks lib issued r) (now : ℤ)
    (token : String) :
    Tracks lib ((token, now) :: issued)
      (Db.rotated now (tokenHash lib token) refreshTokenReplayGrace r) := by
  obtain ⟨current, earlier, rfl, hhash, -⟩ := h
  exact ⟨(token, now), current :: earlier, rfl, rfl, fun _ => ⟨current, rfl, hhash, rfl⟩⟩

theorem Tracked.of_keeps (h : Tracked lib id s)
    (hkeeps : ∀ r ∈ s.db.sessions, ∃ r' ∈ db'.sessions, r.Keeps r') :
    Tracked lib id { s with db := db' } := by
  obtain ⟨r, hr, hid, htracks, hreplayed⟩ := h
  obtain ⟨r', hr', hk⟩ := hkeeps r hr
  exact ⟨r', hr', hk.id.trans hid, htracks.keeps hk, fun h => hk.revoked (hreplayed h)⟩

theorem exists_keeps_after (commit : Commit)
    (hkeeps : ∀ r ∈ db.sessions, ∃ r' ∈ db'.sessions, r.Keeps r') :
    ∀ r ∈ db.sessions, ∃ r' ∈ (commit.after db db').sessions, r.Keeps r' := by
  intro r hr
  simp only [Commit.after]
  split_ifs
  · exact ⟨r, hr, .refl r⟩
  · exact hkeeps r hr

theorem exists_keeps_revokeSession (now : ℤ) (sessionId : UUID) (reason : String) :
    ∀ r ∈ db.sessions, ∃ r' ∈ (db.revokeSession now sessionId reason).sessions, r.Keeps r' :=
  fun _ hr => exists_keeps_update (keeps_revoked now reason) hr

theorem exists_keeps_revokeUserSessions (now : ℤ) (userId : UUID) (reason : String) :
    ∀ r ∈ db.sessions, ∃ r' ∈ (db.revokeUserSessions now userId reason).sessions, r.Keeps r' :=
  fun _ hr => exists_keeps_update (keeps_revoked now reason) hr

theorem exists_keeps_commitTx {tx : Except AuthError Db} (commit : Commit)
    (hkeeps : ∀ after, tx = .ok after → ∀ r ∈ db.sessions, ∃ r' ∈ after.sessions, r.Keeps r') :
    ∀ r ∈ db.sessions, ∃ r' ∈ (commitTx db tx commit).sessions, r.Keeps r' := by
  cases tx with
  | error e => exact fun r hr => ⟨r, hr, .refl r⟩
  | ok after => exact exists_keeps_after commit (hkeeps after rfl)

theorem exists_keeps_logout {now : ℤ} {param cookie : Option String} (commit : Commit) :
    ∀ r ∈ db.sessions, ∃ r' ∈ (logout lib db now param cookie commit).sessions, r.Keeps r' := by
  unfold logout
  generalize parseRefreshToken lib (resolveRefreshToken param cookie) = parsed
  cases parsed with
  | none => exact fun r hr => ⟨r, hr, .refl r⟩
  | some sessionId =>
    exact exists_keeps_after commit (exists_keeps_revokeSession now sessionId "logout")

/-! ## A refresh -/

variable {request : RefreshRequest} {response : AuthSession}

theorem refreshTx_eq_ok (h : refreshTx lib db request = .ok (response, db')) :
    ∃ r ∈ db.sessions, parseRefreshToken lib request.token = some r.id ∧ r.revokedAt = none ∧
      (r.matchesCurrent (tokenHash lib request.token) ∨
        r.matchesPrevious (tokenHash lib request.token) request.clock) ∧
      ∀ x ∈ db.sessions, ∃ x' ∈ db'.sessions,
        (if x.id = r.id then
          Db.rotated request.now
            (tokenHash lib (newRefreshToken lib r.id request.random.secret))
            refreshTokenReplayGrace x
        else x).Keeps x' := by
  obtain ⟨⟨session, rawToken, db₁⟩, hrotate, h⟩ := bind_eq_ok.mp h
  obtain ⟨r, hr, hparse, hlive, hmatches, rfl⟩ := rotateRefreshSession_eq_ok hrotate
  refine ⟨r, hr, hparse, hlive, hmatches, fun x hx => ?_⟩
  exact exists_keeps_refreshResponse (mapError_eq_ok.mp h) (mem_rotateSession.mpr ⟨x, hx, rfl⟩)

theorem refreshTx_eq_replay (h : refreshTx lib db request = .error (.replay db')) :
    ∃ sessionId, parseRefreshToken lib request.token = some sessionId ∧
      db' = db.revokeSession request.now sessionId "refresh_replay" := by
  cases hrotate : rotateRefreshSession lib db request.now request.clock request.random.secret
    request.token with
  | error e =>
    simp only [refreshTx, hrotate] at h
    cases h
    obtain ⟨r, -, hparse, rfl⟩ := rotateRefreshSession_eq_replay hrotate
    exact ⟨r.id, hparse, rfl⟩
  | ok rotated =>
    obtain ⟨session, rawToken, db₁⟩ := rotated
    simp only [refreshTx, hrotate] at h
    cases hresponse : refreshResponse lib db₁ request.clock request.random session rawToken with
    | error | ok => simp [hresponse, Except.mapError, bind, Except.bind] at h

theorem parseRefreshToken_empty : parseRefreshToken lib "" = none := by
  have hempty : trimSpace "" = "" := by decide
  simp [parseRefreshToken, hempty]

theorem refresh_snd {sessionId : UUID}
    (hparse : parseRefreshToken lib request.token = some sessionId)
    (htx : (∃ response, refreshTx lib db request = .ok (response, db')) ∨
      refreshTx lib db request = .error (.replay db')) :
    (refresh lib db request).2 = request.commit.after db db' := by
  have htoken : request.token ≠ "" := by
    intro hempty
    rw [hempty, parseRefreshToken_empty] at hparse
    cases hparse
  rcases htx with ⟨response, htx⟩ | htx
  · simp only [refresh, htx, if_neg htoken]
  · simp only [refresh, htx, if_neg htoken]

theorem Tracked.replay (h : Tracked lib id s)
    (htx : refreshTx lib s.db request = .error (.replay db')) :
    Tracked lib id { s with
      db := (refresh lib s.db request).2
      replayed := s.replayed || replays lib id s.db request } := by
  obtain ⟨sessionId, hparse, rfl⟩ := refreshTx_eq_replay htx
  rw [refresh_snd hparse (.inr htx)]
  obtain ⟨r, hr, rfl, htracks, hreplayed⟩ := h
  simp only [replays, htx, hparse, RotateError.isReplay, Commit.after]
  split_ifs with hcommit
  · refine ⟨r, hr, rfl, htracks, ?_⟩
    simpa [hcommit] using hreplayed
  · refine ⟨_, mem_revokeSession.mpr ⟨r, hr, rfl⟩, ?_⟩
    by_cases hsame : r.id = sessionId
    · rw [if_pos hsame]
      exact ⟨rfl, htracks.keeps (keeps_revoked _ _ r), fun _ => Option.some_ne_none _⟩
    · rw [if_neg hsame]
      refine ⟨rfl, htracks, ?_⟩
      simpa [Ne.symm hsame] using hreplayed

theorem Tracked.rotate (h : Tracked lib id s)
    (htx : refreshTx lib s.db request = .ok (response, db')) :
    Tracked lib id { s with
      db := (refresh lib s.db request).2
      issued :=
        if rotates lib id s.db request then
          (newRefreshToken lib id request.random.secret, request.now) :: s.issued
        else s.issued } := by
  obtain ⟨x, hx, hparse, hlive, -, hrest⟩ := refreshTx_eq_ok htx
  rw [refresh_snd hparse (.inl ⟨response, htx⟩)]
  obtain ⟨r, hr, rfl, htracks, hreplayed⟩ := h
  simp only [rotates, htx, hparse, Commit.after, Except.isOk, Except.toBool]
  by_cases hcommit : request.commit = .refused
  · simpa [hcommit] using ⟨r, hr, rfl, htracks, hreplayed⟩
  · obtain ⟨r', hr', hkeeps⟩ := hrest r hr
    by_cases hsame : r.id = x.id
    · rw [if_pos hsame] at hkeeps
      refine ⟨r', by simpa [hcommit] using hr', hkeeps.id, ?_, fun hre => ?_⟩
      · simpa [hcommit, hsame] using
          (htracks.rotated request.now (newRefreshToken lib x.id request.random.secret)).keeps hkeeps
      · -- a revoked session is not rotated
        have hrx : r = x := Table.eq_of_key hr hx hsame
        exact absurd (hrx ▸ hlive) (hreplayed hre)
    · rw [if_neg hsame] at hkeeps
      refine ⟨r', by simpa [hcommit] using hr', hkeeps.id, ?_, fun hre => hkeeps.revoked (hreplayed hre)⟩
      simpa [Ne.symm hsame] using htracks.keeps hkeeps

theorem Tracked.refresh {s' : State} (h : Tracked lib id s)
    (hs : step lib id s (.refresh request) = some s') : Tracked lib id s' := by
  simp only [step, Option.some.injEq] at hs
  cases htx : refreshTx lib s.db request with
  | ok result =>
    have hreplays : replays lib id s.db request = false := by simp [replays, htx]
    rw [hreplays, Bool.or_false] at hs
    exact hs ▸ h.rotate htx
  | error e =>
    have hrotates : rotates lib id s.db request = false := by
      simp [rotates, htx, Except.isOk, Except.toBool]
    rw [hrotates] at hs
    cases e with
    | replay after => exact hs ▸ h.replay htx
    | failed e =>
      have hreplays : replays lib id s.db request = false := by
        simp [replays, htx, RotateError.isReplay]
      have hdb : (Auth.refresh lib s.db request).2 = s.db := by
        simp only [Auth.refresh, htx]
        split_ifs <;> rfl
      rw [hreplays, hdb, Bool.or_false] at hs
      exact hs ▸ h

/-! ## Histories -/

theorem Tracked.step {e : Event} {s' : State} (h : Tracked lib id s)
    (hs : step lib id s e = some s') : Tracked lib id s' := by
  cases e with
  | refresh request => exact h.refresh hs
  | logout now param cookie commit =>
    simp only [Family.step, Option.some.injEq] at hs
    subst hs
    exact h.of_keeps (exists_keeps_logout commit)
  | revokeUserSessions now userID reason commit =>
    simp only [Family.step, Option.some.injEq] at hs
    subst hs
    refine h.of_keeps (exists_keeps_commitTx commit fun after htx => ?_)
    obtain ⟨userId, text, hsessions⟩ := revokeUserSessions_sessions htx
    rw [hsessions]
    exact exists_keeps_revokeUserSessions now userId text
  | disableUser now userID reason commit =>
    simp only [Family.step, Option.some.injEq] at hs
    subst hs
    refine h.of_keeps (exists_keeps_commitTx commit fun after htx => ?_)
    obtain ⟨userId, text, hsessions⟩ := disableUser_sessions htx
    rw [hsessions]
    exact exists_keeps_revokeUserSessions now userId text
  | stopImpersonation now sessionId commit =>
    simp only [Family.step, Option.some.injEq] at hs
    subst hs
    exact h.of_keeps (exists_keeps_after commit (exists_keeps_revokeSession now sessionId _))
  | resetPassword now userId commit =>
    simp only [Family.step, Option.some.injEq] at hs
    subst hs
    exact h.of_keeps (exists_keeps_after commit (exists_keeps_revokeUserSessions now userId _))
  | other db =>
    simp only [Family.step] at hs
    split_ifs at hs with hsame
    cases hs
    obtain ⟨r, hr, hid, hrest⟩ := h
    have hfind := Table.find_eq_some.mpr ⟨hr, hid⟩
    rw [← hsame] at hfind
    exact ⟨r, (Table.find_eq_some.mp hfind).1, hid, hrest⟩

theorem Tracked.opened {clock ttl : ℤ} {random : Random} {user : User} {tenantId : UUID}
    {actorUserId impersonationId : Option UUID}
    (h : createAuthSessionResponse lib db clock random user tenantId ttl actorUserId
      impersonationId = .ok (response, db')) :
    Tracked lib random.sessionId (opened clock response db') := by
  obtain ⟨db₁, hcreate, h⟩ := bind_eq_ok.mp h
  obtain ⟨bootstrap, -, h⟩ := bind_eq_ok.mp h
  cases h
  simp only [Db.createSession] at hcreate
  split_ifs at hcreate with hid
  cases hcreate
  refine ⟨_, (Table.mem_insert hid).mpr (.inr rfl), rfl, ?_, fun h => by cases h⟩
  exact ⟨_, [], rfl, rfl, absurd rfl⟩

theorem exists_refreshTx (hok : (Auth.refresh lib db request).1 = .ok response) :
    ∃ answer after, refreshTx lib db request = .ok (answer, after) := by
  simp only [Auth.refresh] at hok
  split_ifs at hok
  cases htx : refreshTx lib db request with
  | error e =>
    rw [htx] at hok
    cases e with
    | failed e => cases hok
    | replay after =>
      simp only [Commit.answer] at hok
      split_ifs at hok
  | ok result => exact ⟨result.1, result.2, rfl⟩

theorem Tracked.accepts (hinj : Function.Injective lib.sum256) (h : Tracked lib id s)
    (hparse : parseRefreshToken lib request.token = some id)
    (hok : (Auth.refresh lib s.db request).1 = .ok response) :
    s.accepts request.clock request.token := by
  obtain ⟨r, hr, rfl, ⟨current, earlier, hissued, hhash, hprevious⟩, -⟩ := h
  obtain ⟨answer, after, htx⟩ := exists_refreshTx hok
  obtain ⟨x, hx, hparse', -, hmatches, -⟩ := refreshTx_eq_ok htx
  have hxr : x = r := Table.eq_of_key hx hr (Option.some.inj (hparse'.symm.trans hparse))
  rw [hxr] at hmatches
  refine ⟨current, earlier, hissued, ?_⟩
  rcases hmatches with hcurrent | ⟨hne, hsame, expiresAt, hexpires, hbefore⟩
  · exact .inl (hinj (hcurrent.trans hhash))
  · obtain ⟨previous, hhead, hphash, hgrace⟩ := hprevious hne
    refine .inr ⟨previous, hhead, hinj (hsame.trans hphash), ?_⟩
    rw [hgrace, Option.mem_some] at hexpires
    exact hexpires ▸ hbefore

theorem refresh_ne_ok (hr : r ∈ db.sessions) (hrevoked : r.revokedAt ≠ none)
    (hparse : parseRefreshToken lib request.token = some r.id) :
    (Auth.refresh lib db request).1 ≠ .ok response := by
  intro hok
  obtain ⟨answer, after, htx⟩ := exists_refreshTx hok
  obtain ⟨x, hx, hparse', hlive, -⟩ := refreshTx_eq_ok htx
  have hxr : x = r := Table.eq_of_key hx hr (Option.some.inj (hparse'.symm.trans hparse))
  exact hrevoked (hxr ▸ hlive)

theorem authHandler_ne_ok {jwtSecret token : String} {clock : ℤ} {claims : AccessClaims}
    {accepted : String × AuthData} (hr : r ∈ db.sessions) (hrevoked : r.revokedAt ≠ none)
    (hclaims : lib.parseToken (trimSpace token) clock = some claims)
    (hcarries : carries lib r.id claims) :
    authHandler lib jwtSecret (.ok db) clock token ≠ .ok accepted := by
  intro hok
  obtain ⟨data, hdata, hsession⟩ := authHandler_eq_ok hok
  obtain ⟨claims', hclaims', hid⟩ := validateToken_eq_ok hdata
  obtain rfl : claims' = claims := Option.some.inj (hclaims'.symm.trans hclaims)
  rw [hid, trimSpace_trimSpace] at hsession
  rcases hsession with hblank | hsession
  · exact hcarries.1 hblank
  · obtain ⟨x, hx, hparse, hlive⟩ := requireActiveAuthSession_eq_ok hsession
    rw [hid, parseUUID, trimSpace_trimSpace] at hparse
    have hxr : x = r := Table.eq_of_key hx hr (Option.some.inj (hparse.symm.trans hcarries.2))
    exact hrevoked (hxr ▸ hlive)

/-- In every history of a session that was created by `createAuthSessionResponse`: an accepted
token is the current one, or the preceding one in its grace period; and once a token was
rejected as a replay, the session is revoked, `Refresh` accepts no token of the session, and
`AuthHandler` no access token that carries its id. -/
theorem session_family_safe (hinj : Function.Injective lib.sum256) {clock ttl : ℤ}
    {random : Random} {user : User} {tenantId : UUID} {actorUserId impersonationId : Option UUID}
    {response : AuthSession}
    (hopen : createAuthSessionResponse lib db clock random user tenantId ttl actorUserId
      impersonationId = .ok (response, db'))
    (hrun : Run (step lib random.sessionId) (fun _ _ => True) (opened clock response db') s) :
    (∀ request answer, parseRefreshToken lib request.token = some random.sessionId →
      (refresh lib s.db request).1 = .ok answer → s.accepts request.clock request.token) ∧
    (s.replayed = true →
      (∃ r ∈ s.db.sessions, r.id = random.sessionId ∧ r.revokedAt ≠ none) ∧
      (∀ request answer, parseRefreshToken lib request.token = some random.sessionId →
        (refresh lib s.db request).1 ≠ .ok answer) ∧
      ∀ jwtSecret clock token claims accepted,
        lib.parseToken (trimSpace token) clock = some claims → carries lib random.sessionId claims →
          authHandler lib jwtSecret (.ok s.db) clock token ≠ .ok accepted) := by
  have htracked : Tracked lib random.sessionId s :=
    hrun.invariant (.opened hopen) fun _ _ _ h _ => h.step
  refine ⟨fun _ _ => htracked.accepts hinj, fun hreplayed => ?_⟩
  obtain ⟨r, hr, hid, -, hrevoked⟩ := htracked
  have hrevoked := hrevoked hreplayed
  refine ⟨⟨r, hr, hid, hrevoked⟩, fun request answer hparse => ?_, ?_⟩
  · exact refresh_ne_ok hr hrevoked (hparse.trans (congrArg some hid.symm))
  · intro jwtSecret clock token claims accepted hclaims hcarries
    exact authHandler_ne_ok hr hrevoked hclaims (hid ▸ hcarries)

end

namespace Stolen

def user : User := ⟨1, "Ada", "ada@example.com", some 0, none⟩

def db : Db where
  users := ⟨[user], by decide⟩
  identities := .empty
  tenants := ⟨[⟨2, "Acme", none⟩], by decide⟩
  memberships := Memberships.empty.insert ⟨3, 2, 1, .owner, none, none, none⟩
    List.not_mem_nil nofun
  sessions := .empty
  tokens := .empty
  attempts := .empty

def library : Library :=
  { plainLibrary with parseToken := fun token clock => some ⟨"1", "2", token, "", "", clock + 1⟩ }

def login : Except AuthError (AuthSession × Db) :=
  createAuthSessionResponse library db 0 ⟨0, 0, 7, "first"⟩ user 2 defaultRefreshSessionTTL none none

def refresh (clock : ℤ) (cookie secret : String) : Event :=
  .refresh ⟨clock, clock, ⟨0, 0, 0, secret⟩, none, some cookie, .done⟩

def theft : List Event :=
  [refresh 10 "7.first" "second", refresh 20 "7.first" "third", refresh 30 "7.first" "fourth"]

end Stolen

theorem session_family_safe_theft :
    ∃ response db s, Stolen.login = .ok (response, db) ∧
      Run (step Stolen.library 7) (fun _ _ => True) (opened 0 response db) s ∧
      s.replayed = true ∧ ∃ r ∈ s.db.sessions, r.id = 7 ∧ r.revokedAt ≠ none := by
  have hexec : (Stolen.login.toOption.any fun x =>
      (runAll (step Stolen.library 7) (fun _ _ => True) (opened 0 x.1 x.2) Stolen.theft).any
        State.replayed) = true := by decide +kernel
  cases hlogin : Stolen.login with
  | error e =>
    rw [hlogin] at hexec
    cases hexec
  | ok login =>
    obtain ⟨response, db⟩ := login
    rw [hlogin, Except.toOption, Option.any_some] at hexec
    obtain ⟨s, hrun, hreplayed⟩ := Run.exists_of_runAll Stolen.theft hexec
    have hinj : Function.Injective Stolen.library.sum256 := fun _ _ h => h
    exact ⟨response, db, s, rfl, hrun, hreplayed,
      ((session_family_safe hinj hlogin hrun).2 hreplayed).1⟩

end Scenery.Auth.Family
