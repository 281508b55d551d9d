import Scenery.Sessions
import Scenery.Vault.Store

/-!
# The calls of the vault

`Token` of `internal/connectionvault/vault.go`, `Connect` and `Disconnect` of `lifecycle.go`, and
`CreateState` and `LockState` of `sqlstore/store.go`, as programs under the lease.
-/

namespace Scenery.Vault

abbrev VaultProg (α : Type) : Type := Prog Op Reply VaultError α

def orStorage {α : Type} : Except StoreError α → VaultProg α
  | .ok a => .ret a
  | .error e => .fail (storageFailure e)

def beginTx : VaultProg Unit := .op .beginTx fun x => orStorage x

def load : VaultProg (Option Connection) := .op .load fun x => orStorage x

def save (row : Connection) : VaultProg Unit := .op (.save row) fun x => orStorage x

def commit : VaultProg Unit := .op .commit fun x => orStorage x

def now : VaultProg ℤ := .op .now .ret

def check (c : Bool) (code : Code) (message : String) : VaultProg Unit :=
  if c then .ret () else .fail (.failure code message)

def found {α : Type} (x : Option α) (e : VaultError) : VaultProg α :=
  match x with
  | some a => .ret a
  | none => .fail e

def checkpoint (row : Connection) : VaultProg Unit := do
  save row
  commit
  beginTx
  let _ ← found (← load) (storageFailure .other)
  return ()

def cipher (message : String) : VaultProg Unit :=
  .op .cipher fun works => check works .connectionConfiguration message

def cipherIf (c : Bool) (message : String) : VaultProg Unit := if c then cipher message else .ret ()

def openText (data : Option Secret) : VaultProg Secret := do
  cipherIf data.isSome "connection credential could not be decrypted"
  return opened data

def sealGrant (row : Connection) (g : Grant) : VaultProg Connection := do
  cipher "connection credential could not be encrypted"
  cipherIf (g.refreshToken ≠ "") "connection credential could not be encrypted"
  return applyGrant row g

/-! ## Token -/

def consumeStored (row : Connection) : VaultProg Unit :=
  if row.accessExpiresAt = none then save { row with accessCiphertext := none } else .ret ()

def issueStored (row : Connection) (token : Secret) : VaultProg Secret := do
  consumeStored row
  commit
  return token

def missingRefresh (row : Connection) : VaultProg Secret := do
  let clock ← now
  save { row with
    status := .reauthRequired
    lastRefreshError := "refresh_credential_missing"
    updatedAt := some clock }
  commit
  .fail (.failure .connectionReauthRequired "connection has no refresh credential")

def refreshFailure (row : Connection) (f : ProviderFailure) : VaultProg Secret := do
  let clock ← now
  save { row with
    status := f.kind.status
    lastRefreshError := f.kind.text
    updatedAt := some clock }
  commit
  .fail (if f = .context then .context
    else .failure f.kind.code ("connection token refresh failed: " ++ f.kind.text))

def issuable (row : Connection) (required : List String) : Bool :=
  isBearer row.tokenType && containsScopes row.scopes required

def installRefreshed (row : Connection) (g : Grant) (required : List String) :
    VaultProg Secret := do
  let applied ← sealGrant row g
  let refreshedAt ← now
  let updatedAt ← now
  save { applied with
    status := .active
    lastRefreshError := ""
    lastRefreshAt := some refreshedAt
    updatedAt := some updatedAt
    accessCiphertext :=
      -- this call returns the token, so that it must not be returned again
      if applied.accessExpiresAt = none ∧ issuable applied required then none
      else applied.accessCiphertext }
  commit
  check (isBearer applied.tokenType) .connectionConfiguration
    "refreshed connection token type is unsupported"
  check (containsScopes applied.scopes required) .connectionScopeMissing
    "refreshed connection is missing required scopes"
  return g.access

def refreshAnswered (row : Connection) (required : List String) :
    Except ProviderFailure Grant → VaultProg Secret
  | .error f => refreshFailure row f
  | .ok g =>
    if validGrant g && sameIdentity row g then installRefreshed row g required
    else refreshFailure row (.provider .unknownOutcome)

/-- `Token` with a refresh: the intent is committed before the provider is called. -/
def refreshStored (row : Connection) (required : List String) : VaultProg Secret := do
  let token ← openText row.refreshCiphertext
  if token.text = "" then missingRefresh row
  else
    let clock ← now
    let pending := { row with
      status := .refreshPending
      lastRefreshError := FailureKind.unknownOutcome.text
      updatedAt := some clock }
    checkpoint pending
    .op (.send token) fun _ => .op .receive fun answer => refreshAnswered pending required answer

def checkRow (user : String) (r : Registration) (required : List String) (row : Connection) :
    VaultProg Unit := do
  check (bound row user r) .connectionConfiguration
    "connection configuration changed; reconnect"
  check (row.status = .active) .connectionReauthRequired "connection requires reauthorization"
  check (isBearer row.tokenType) .connectionConfiguration "connection token type is unsupported"
  check (containsScopes row.scopes required) .connectionScopeMissing
    "connection is missing required scopes"

def tokenOf (row : Connection) (required : List String) : VaultProg Secret := do
  let clock ← now
  if usable row clock then
    let token ← openText row.accessCiphertext
    if token.text ≠ "" then issueStored row token else refreshStored row required
  else refreshStored row required

def token (user : String) (r : Registration) (required : List String) : VaultProg Secret := do
  beginTx
  let row ← found (← load)
    (.failure .connectionNotConnected "connection is not connected")
  checkRow user r required row
  tokenOf row required

/-! ## Connect -/

def connecting (row : Connection) (user provider : String) (r : Registration) (g : Grant) :
    Connection :=
  { row with
    refreshCiphertext := if row.status ≠ .active then none else row.refreshCiphertext
    userId := user
    providerId := provider
    issuer := g.issuer
    subject := g.subject
    resource := r.resource
    email := g.email }

def connectable (row : Option Connection) (user : String) (r : Registration) (g : Grant) : Bool :=
  row.all fun row => row.status = .disconnected || (bound row user r && row.subject = g.subject)

def install (user provider : String) (r : Registration) (required : List String) (g : Grant) :
    VaultProg Unit := do
  let row ← load
  check (connectable row user r g) .failedPrecondition
    "disconnect the existing account before connecting another account or resource"
  let applied ← sealGrant (connecting (row.getD .zero) user provider r g) g
  let connectedAt ← now
  let updatedAt ← now
  let createdAt ← now
  save { applied with
    status := .active
    lastRefreshError := ""
    revocationStatus := ""
    connectedAt := some connectedAt
    updatedAt := some updatedAt
    disconnectedAt := none
    lastRefreshAt := none
    createdAt := some (applied.createdAt.getD createdAt) }
  commit
  check (isBearer applied.tokenType) .connectionConfiguration
    "connection token type is unsupported"
  check (containsScopes applied.scopes required) .connectionScopeMissing
    "connection grant is missing required scopes"

def connect (user provider : String) (registered : Option Registration)
    (requested : List String) (g : Grant) : VaultProg Unit :=
  match registration registered requested with
  | .error e => .fail e
  | .ok (r, required) => do
    check (g.issuer = r.issuer && g.subject ≠ "" && (g.resource = "" || g.resource = r.resource))
      .connectionConfiguration "connection account identity is invalid"
    check (validGrant g) .connectionConfiguration "connection grant is invalid"
    install user provider r required
      (if g.scopesPresent then g else { g with scopes := required, scopesPresent := true })

/-- `LockState` after the lease is taken: the consumption is committed before the exchange. -/
def lockState (key : StateKey) : VaultProg Handshake := do
  beginTx
  let state ← .op (.consumeState key) fun x => orStorage x
  let handshake ← found state .callback
  commit
  beginTx
  return handshake

def callback (user provider : String) (registered : Option Registration) (key : StateKey)
    (denied : Bool) : VaultProg Unit := do
  let handshake ← lockState key
  if denied then .fail .callback
  else
    let requested ← found (normalizeScopes handshake.requestedScopes) .callback
    let grant ← .op .exchange fun x => found x .callback
    connect user provider registered requested grant

def createState (key : StateKey) (requestedScopes : List String) : VaultProg Unit := do
  beginTx
  .op (.createState key requestedScopes) fun x => orStorage x
  commit

/-! ## Disconnect -/

def revocable (row : Connection) (user : String) (r : Registration) :
    VaultProg (Secret × String) :=
  if bound row user r then
    let data := row.refreshCiphertext.orElse fun _ => row.accessCiphertext
    if data.isSome then
      .op .cipher fun (works : Bool) =>
        .ret (if works then (opened data, "unsupported") else (opened none, "credential_unavailable"))
    else .ret (opened none, "unsupported")
  else .ret (opened none, "configuration_changed")

def revokeToken (token : Secret) (status : String) : VaultProg String :=
  if token.text = "" then .ret status
  else .op (.revoke token) fun x => .ret (match x with
    | .succeeded => "succeeded"
    | .unsupported => "unsupported"
    | .failed => "failed")

def disconnectedRow (row : Connection) (disconnectedAt updatedAt : ℤ) : Connection :=
  { row with
    status := .disconnected
    revocationStatus := "pending"
    accessCiphertext := none
    refreshCiphertext := none
    accessExpiresAt := none
    lastRefreshError := ""
    disconnectedAt := some disconnectedAt
    updatedAt := some updatedAt }

/-- `Disconnect` of a connected row: issuance is stopped by a commit before the revocation. -/
def disconnectRow (user : String) (r : Registration) (row : Connection) : VaultProg Metadata := do
  let (token, status) ← revocable row user r
  let disconnectedAt ← now
  let updatedAt ← now
  let disconnected := disconnectedRow row disconnectedAt updatedAt
  checkpoint disconnected
  let status ← revokeToken token status
  let revoked := { disconnected with revocationStatus := status }
  save revoked
  commit
  return metadata revoked

def disconnect (user provider : String) (r : Registration) : VaultProg Metadata := do
  beginTx
  .op .expireStates fun x => orStorage x
  match ← load with
  | none => do
    commit
    return noConnection provider
  | some row => do
    check (row.userId = user && row.providerId = provider) .permissionDenied
      "connection owner does not match"
    if row.status = .disconnected then
      commit
      return metadata row
    else disconnectRow user r row

inductive Call where
  | token (registered : Option Registration) (scopes : List String)
  | callback (registered : Option Registration) (key : StateKey) (denied : Bool)
  | createState (key : StateKey) (requestedScopes : List String)
  | disconnect (registered : Option Registration)
  deriving DecidableEq

inductive Answer where
  | token (t : Secret)
  | done
  | status (m : Metadata)
  deriving DecidableEq

def tokenResult : Except VaultError Answer → Option Secret
  | .ok (.token t) => some t
  | .ok .done => none
  | .ok (.status _) => none
  | .error _ => none

variable (user provider : String)

def body : Call → VaultProg Answer
  | .token registered scopes =>
    match registration registered scopes with
    | .error e => .fail e
    | .ok (r, required) => do return .token (← token user r required)
  | .callback registered key denied => do
    callback user provider registered key denied
    return .done
  | .createState key requestedScopes => do
    createState key requestedScopes
    return .done
  | .disconnect registered =>
    match registration registered [] with
    | .error e => .fail e
    | .ok (r, _) => do return .status (← disconnect user provider r)

/-- What is checked before the lease: `Registration`, and in `LockState` the handshake, which
may have expired. -/
def admits : Call → Shared → Bool
  | .token registered scopes, _ => (registration registered scopes).isOk
  | .callback _ key _, s =>
    s.durable.states.any fun h => h.key.stateHash = key.stateHash && !h.consumed
  | .createState _ _, _ => true
  | .disconnect registered, _ => (registration registered []).isOk

def vault : Service Call Op Choice Reply VaultError Answer Shared where
  admits := admits
  body := body user provider
  exec := exec user provider
  enter session _ s := s.enter session
  leave session _ result s := s.leave session (tokenResult result)
  crash := Shared.crash

end Scenery.Vault
