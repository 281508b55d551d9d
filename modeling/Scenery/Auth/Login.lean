import Scenery.Auth.Service
import Scenery.Runs

/-!
# Login throttling

`LoginEmail` of `auth/standard_sessions.go` and the rate limit it checks.
-/

namespace Scenery.Auth

def attemptWindow : ℤ := 15 * 60 * 1000000

def Attempt.again (now : ℤ) (r : Attempt) : Attempt :=
  { r with
    attemptCount := if r.windowStartedAt < now - attemptWindow then 1 else r.attemptCount + 1
    windowStartedAt := if r.windowStartedAt < now - attemptWindow then now else r.windowStartedAt
    lastAttemptAt := now }

theorem Attempt.again_key (now : ℤ) (r : Attempt) : (r.again now).key = r.key := rfl

def Db.upsertAttempt (db : Db) (now : ℤ) (purpose email ipHash : String) : Db :=
  { db with
    attempts := db.attempts.upsert ⟨purpose, email, ipHash, now, 1, now⟩ (Attempt.again now)
      (Attempt.again_key now) }

def checkRateLimit (db : Db) (now : ℤ) (purpose email ipHash : String) : Except AuthError Db := do
  let db := db.upsertAttempt now purpose email ipHash
  let attempt ← orError databaseError (db.attempts.find (purpose, email, ipHash))
  require ⟨.resourceExhausted, "too many auth attempts; try again later"⟩
    (attempt.attemptCount ≤ 20)
  return db

/-! ## `LoginEmail` -/

inductive Fault where
  | none
  | early
  | late
  deriving DecidableEq

structure LoginCall where
  email : String
  password : String
  ipHash : String
  now : ℤ
  clock : ℤ
  random : Random
  fault : Fault
  deriving DecidableEq

structure LoginResult where
  reply : Except AuthError AuthSession
  db : Db
  verified : Bool

variable (lib : Library)

def upgradePassword (db : Db) (password : String) (identity : Identity) (needsUpgrade : Bool) : Db :=
  match needsUpgrade, lib.hashPassword password with
  | true, some hash => db.updatePasswordHash identity.id hash
  | _, _ => db

def completeLogin (db : Db) (call : LoginCall) (identity : Identity) (needsUpgrade : Bool) :
    Except AuthError (AuthSession × Db) := do
  let db := upgradePassword lib db call.password identity needsUpgrade
  let user ← orError noRows (db.users.find identity.userId)
  require (failedPrecondition "email verification is required") (user.emailVerifiedAt ≠ none)
  let (tenantId, db) ← ensureActiveTenant db call.random user none
  createAuthSessionResponse lib db call.clock call.random user tenantId defaultRefreshSessionTTL
    none none

/-- `LoginEmail` from the call of `verifyPassword` on; `before` is the database before the
transaction. -/
def verifyLogin (before db : Db) (call : LoginCall) (identity : Identity) : LoginResult :=
  match lib.verifyPassword call.password identity.passwordHash with
  | some (true, needsUpgrade) =>
    match completeLogin lib db call identity needsUpgrade with
    | .ok (session, after) =>
      if call.fault = .late then ⟨.error databaseError, before, true⟩
      else ⟨.ok session, after, true⟩
    | .error e => ⟨.error e, before, true⟩
  | _ => ⟨.error (unauthenticated "email or password is invalid"), before, true⟩

def loginEmail (db : Db) (call : LoginCall) : LoginResult :=
  match lib.normalizeEmail call.email with
  | .error msg => ⟨.error (invalidArgument msg), db, false⟩
  | .ok email =>
    if call.fault = .early then ⟨.error databaseError, db, false⟩
    else
      match checkRateLimit db call.now "login_email" email call.ipHash with
      | .error e => ⟨.error e, db, false⟩
      | .ok counted =>
        match counted.emailIdentity email with
        | none => ⟨.error (unauthenticated "email or password is invalid"), db, false⟩
        | some identity => verifyLogin lib db counted call identity

namespace Throttle

structure State where
  db : Db
  verified : ℕ

def step (email ipHash : String) (s : State) (call : LoginCall) : Option State :=
  if lib.normalizeEmail call.email = .ok email ∧ call.ipHash = ipHash then
    let result := loginEmail lib s.db call
    some ⟨result.db, s.verified + result.verified.toNat⟩
  else none

def InWindow (start : ℤ) (call : LoginCall) : Prop :=
  start ≤ call.now ∧ call.now ≤ start + attemptWindow

instance (start : ℤ) (call : LoginCall) : Decidable (InWindow start call) :=
  inferInstanceAs (Decidable (start ≤ call.now ∧ call.now ≤ start + attemptWindow))

/-- The condition on a call: if the email has an identity, the password is right, its user is
verified and enabled and can have an organization, the random ids are free and no statement
after the check of the password fails. -/
def Legitimate (email : String) (db : Db) (call : LoginCall) : Prop :=
  ∀ identity, db.emailIdentity email = some identity →
    (∃ outdated, lib.verifyPassword call.password identity.passwordHash = some (true, outdated)) ∧
    (∃ user, db.users.find identity.userId = some user ∧ user.emailVerifiedAt ≠ none ∧
      user.disabledAt = none ∧
      ((∃ t, hasOrganization db user.id t) ∨ canCreate db call.random)) ∧
    call.random.sessionId ∉ db.sessions.rows.map RefreshSession.id ∧ call.fault ≠ .late

/-! ## What one call does -/

section

variable {lib} {db db' : Db} {email ipHash purpose : String} {call : LoginCall} {now : ℤ}

theorem checkRateLimit_eq_ok (h : checkRateLimit db now purpose email ipHash = .ok db') :
    db' = db.upsertAttempt now purpose email ipHash ∧
      ∃ r ∈ db'.attempts, r.key = (purpose, email, ipHash) ∧ r.attemptCount ≤ 20 := by
  obtain ⟨r, hfind, h⟩ := bind_eq_ok.mp h
  obtain ⟨_, hcount, h⟩ := bind_eq_ok.mp h
  cases h
  obtain ⟨hr, hkey⟩ := Table.find_eq_some.mp (orError_eq_ok.mp hfind)
  exact ⟨rfl, r, hr, hkey, require_eq_ok.mp hcount⟩

theorem upgradePassword_eq (lib : Library) (db : Db) (password : String) (identity : Identity)
    (needsUpgrade : Bool) : ∃ identities,
      upgradePassword lib db password identity needsUpgrade = { db with identities := identities } := by
  simp only [upgradePassword]
  split
  · exact ⟨_, rfl⟩
  · exact ⟨db.identities, rfl⟩

theorem completeLogin_ok (hlib : lib.Configured) (h : Legitimate lib email db call)
    {identity : Identity} (hidentity : db.emailIdentity email = some identity)
    (needsUpgrade : Bool) :
    ∃ session after, completeLogin lib db call identity needsUpgrade = .ok (session, after) ∧
      after.attempts = db.attempts := by
  obtain ⟨-, ⟨user, huser, hverified, henabled, horg⟩, hid, -⟩ := h identity hidentity
  obtain ⟨identities, hupgrade⟩ := upgradePassword_eq lib db call.password identity needsUpgrade
  let db₀ : Db := { db with identities := identities }
  obtain ⟨tenantId, db₁, htenant, horg₁, hsessions, hattempts⟩ : ∃ tenantId db₁,
      ensureActiveTenant db₀ call.random user none = .ok (tenantId, db₁) ∧
        hasOrganization db₁ user.id tenantId ∧ db₁.sessions = db₀.sessions ∧
        db₁.attempts = db₀.attempts := ensureActiveTenant_ok hverified henabled horg
  have hfree : call.random.sessionId ∉ db₁.sessions.rows.map RefreshSession.id := by
    rw [hsessions]
    exact hid
  obtain ⟨session, after, hresponse, hafter⟩ : ∃ session after,
      createAuthSessionResponse lib db₁ call.clock call.random user tenantId
        defaultRefreshSessionTTL none none = .ok (session, after) ∧
        after.attempts = db₁.attempts := createAuthSessionResponse_ok hlib horg₁ hfree
  refine ⟨session, after, ?_, hafter.trans hattempts⟩
  rw [completeLogin, hupgrade]
  refine bind_eq_ok.mpr ⟨user, orError_eq_ok.mpr huser, ?_⟩
  refine bind_eq_ok.mpr ⟨(), require_eq_ok.mpr hverified, ?_⟩
  exact bind_eq_ok.mpr ⟨(tenantId, db₁), htenant, hresponse⟩

theorem loginEmail_cases (hlib : lib.Configured) (hemail : lib.normalizeEmail call.email = .ok email)
    (h : Legitimate lib email db call) :
    ((loginEmail lib db call).verified = false ∧ (loginEmail lib db call).db = db) ∨
    ((loginEmail lib db call).verified = true ∧
      ∃ counted, checkRateLimit db call.now "login_email" email call.ipHash = .ok counted ∧
        (loginEmail lib db call).db.attempts = counted.attempts) := by
  simp only [loginEmail, hemail]
  split_ifs with hearly
  · exact .inl ⟨rfl, rfl⟩
  cases hlimit : checkRateLimit db call.now "login_email" email call.ipHash with
  | error e => exact .inl ⟨rfl, rfl⟩
  | ok counted =>
    obtain ⟨hcounted, -⟩ := checkRateLimit_eq_ok hlimit
    dsimp only
    cases hidentity : counted.emailIdentity email with
    | none => exact .inl ⟨rfl, rfl⟩
    | some identity =>
      -- the counted database differs in its attempts only
      have hlegit : Legitimate lib email counted call := by
        rw [hcounted]
        exact h
      obtain ⟨⟨outdated, hpassword⟩, -, -, hlate⟩ := hlegit identity hidentity
      obtain ⟨session, after, hlogin, hafter⟩ := completeLogin_ok hlib hlegit hidentity outdated
      refine .inr ?_
      simp only [verifyLogin, hpassword, hlogin, if_neg hlate]
      exact ⟨trivial, counted, rfl, hafter⟩

end

/-! ## Runs -/

/-- The attempt row of the window counts the calls that reached `verifyPassword`. -/
structure Inv (email ipHash : String) (start : ℤ) (s : State) : Prop where
  verified_le : s.verified ≤ 20
  rows : ∀ r ∈ s.db.attempts, r.key = ("login_email", email, ipHash) →
    (s.verified = 0 ∧ r.windowStartedAt + attemptWindow < start) ∨
      (start ≤ r.windowStartedAt ∧ s.verified ≤ r.attemptCount)
  no_row : (∀ r ∈ s.db.attempts, r.key ≠ ("login_email", email, ipHash)) → s.verified = 0

section

variable {lib} {email ipHash : String} {start : ℤ} {s s' : State} {call : LoginCall}

theorem Inv.counted (h : Inv email ipHash start s) {now : ℤ} (hfrom : start ≤ now)
    (hto : now ≤ start + attemptWindow) {r : Attempt}
    (hr : r ∈ (s.db.upsertAttempt now "login_email" email ipHash).attempts)
    (hkey : r.key = ("login_email", email, ipHash)) :
    start ≤ r.windowStartedAt ∧ s.verified + 1 ≤ r.attemptCount := by
  rcases (Table.mem_upsert (Attempt.again_key now)).mp hr with
    ⟨-, hne⟩ | ⟨hfree, rfl⟩ | ⟨r₀, hr₀, hkey₀, rfl⟩
  · exact absurd hkey hne
  · -- the first attempt
    rw [h.no_row hfree]
    exact ⟨hfrom, le_rfl⟩
  · simp only [Attempt.again]
    rcases h.rows r₀ hr₀ hkey₀ with ⟨hzero, hover⟩ | ⟨hstart, hcount⟩
    · -- the window of the row is over
      have hexpired : r₀.windowStartedAt < now - attemptWindow := by omega
      rw [if_pos hexpired, if_pos hexpired, hzero]
      exact ⟨hfrom, le_rfl⟩
    · have hlive : ¬ r₀.windowStartedAt < now - attemptWindow := by omega
      rw [if_neg hlive, if_neg hlive]
      exact ⟨hstart, by omega⟩

theorem Inv.step (h : Inv email ipHash start s) (hlib : lib.Configured)
    (hwindow : InWindow start call)
    (hlegit : Legitimate lib email s.db call) (hs : step lib email ipHash s call = some s') :
    Inv email ipHash start s' := by
  obtain ⟨⟨hemail, rfl⟩, hresult⟩ := Option.ite_none_right_eq_some.mp hs
  cases hresult
  rcases loginEmail_cases hlib hemail hlegit with ⟨hverified, hdb⟩ | ⟨hverified, counted, hlimit, hdb⟩
  · rw [hverified, hdb]
    exact h
  · rw [hverified]
    obtain ⟨rfl, r, hr, hkey, hle⟩ := checkRateLimit_eq_ok hlimit
    have hcounted := fun r hr hkey => h.counted hwindow.1 hwindow.2 (r := r) hr hkey
    refine ⟨(hcounted r hr hkey).2.trans hle, ?_, ?_⟩
    · intro r' hr' hkey'
      exact .inr (hcounted r' (hdb ▸ hr') hkey')
    · intro hnone
      exact absurd hkey (hnone r (hdb ▸ hr))

/-- At most 20 calls of a window reach `verifyPassword`, if all of them are legitimate. -/
theorem verified_le_limit {db : Db} (hlib : lib.Configured)
    (hrows : ∀ r ∈ db.attempts, r.key = ("login_email", email, ipHash) →
      r.windowStartedAt = start ∨ r.windowStartedAt + attemptWindow < start)
    (h : Run (step lib email ipHash)
      (fun s call => InWindow start call ∧ Legitimate lib email s.db call) ⟨db, 0⟩ s) :
    s.verified ≤ 20 := by
  have hinit : Inv email ipHash start ⟨db, 0⟩ := by
    refine ⟨Nat.zero_le _, ?_, fun _ => rfl⟩
    intro r hr hkey
    rcases hrows r hr hkey with hstart | hover
    · exact .inr ⟨hstart.ge, Nat.zero_le _⟩
    · exact .inl ⟨rfl, hover⟩
  exact (h.invariant hinit fun _ _ _ hinv hok => hinv.step hlib hok.1 hok.2).verified_le

end

namespace Guess

def db : Db where
  users := ⟨[⟨1, "Ada", "ada@example.com", some 0, none⟩], by decide⟩
  identities := ⟨[⟨1, 1, .email, "ada@example.com", "correct horse"⟩], by decide⟩
  tenants := .empty
  memberships := .empty
  sessions := .empty
  tokens := .empty
  attempts := .empty

def call (password : String) : LoginCall :=
  ⟨"ada@example.com", password, "address", 0, 0, ⟨2, 3, 4, "secret"⟩, .none⟩

def again : LoginCall := { call "correct horse" with random := ⟨5, 6, 7, "secret"⟩ }

def once : Db := (loginEmail plainLibrary db (call "correct horse")).db

theorem legitimate {db : Db} {c : LoginCall} (hpassword : c.password = "correct horse")
    (hidentity : db.emailIdentity "ada@example.com" =
      some ⟨1, 1, .email, "ada@example.com", "correct horse"⟩)
    (huser : db.users.find 1 = some ⟨1, "Ada", "ada@example.com", some 0, none⟩)
    (hcreate : canCreate db c.random)
    (hfree : c.random.sessionId ∉ db.sessions.rows.map RefreshSession.id)
    (hlate : c.fault ≠ .late) :
    Legitimate plainLibrary "ada@example.com" db c := by
  intro identity hsome
  cases hidentity.symm.trans hsome
  rw [hpassword]
  exact ⟨⟨false, by decide⟩, ⟨_, huser, by decide, rfl, .inr hcreate⟩, hfree, hlate⟩

end Guess

open Guess

theorem verified_le_limit_login :
    ∃ s, Run (step plainLibrary "ada@example.com" "address")
      (fun s call => InWindow 0 call ∧ Legitimate plainLibrary "ada@example.com" s.db call)
      ⟨db, 0⟩ s ∧ s.verified = 2 ∧ s.verified ≤ 20 := by
  have hfirst : Legitimate plainLibrary "ada@example.com" db (call "correct horse") :=
    legitimate rfl (by decide +kernel) (by decide +kernel)
      ⟨List.not_mem_nil, List.not_mem_nil⟩ List.not_mem_nil (by decide)
  have hsecond : Legitimate plainLibrary "ada@example.com" once again :=
    legitimate rfl (by decide +kernel) (by decide +kernel)
      (by unfold canCreate; decide +kernel) (by decide +kernel) (by decide)
  have hrun : Run (step plainLibrary "ada@example.com" "address")
      (fun s call => InWindow 0 call ∧ Legitimate plainLibrary "ada@example.com" s.db call)
      ⟨db, 0⟩ ⟨(loginEmail plainLibrary once again).db, 2⟩ :=
    .snoc (s := ⟨once, 1⟩) (a := again) (Run.refl.snoc ⟨by decide, hfirst⟩ rfl)
      ⟨by decide, hsecond⟩ rfl
  exact ⟨_, hrun, rfl, verified_le_limit plainLibrary_configured (fun r hr => by cases hr) hrun⟩

/-- No limit is reached with wrong passwords. -/
theorem wrong_passwords_not_limited :
    ∃ s, Run (step plainLibrary "ada@example.com" "address") (fun _ call => InWindow 0 call)
      ⟨Guess.db, 0⟩ s ∧ s.verified = 21 :=
  Run.exists_decide (List.replicate 21 (Guess.call "guess")) (by decide +kernel)

end Throttle

end Scenery.Auth
