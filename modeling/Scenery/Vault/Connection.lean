import Mathlib.Data.List.Destutter
import Mathlib.Data.List.Sort
import Mathlib.Data.String.Basic

/-!
# Connections of the vault

The types of `internal/connectionvault/types.go`, scopes, and the parts of `vault.go` that compute
on a row or a grant.
-/

namespace Scenery.Vault

inductive Status where
  | unset
  | active
  | reauthRequired
  | disconnected
  | refreshPending
  deriving DecidableEq

structure Secret where
  text : String
  grant : ℕ
  deriving DecidableEq

structure Connection where
  userId : String
  providerId : String
  issuer : String
  subject : String
  resource : String
  email : String
  tokenType : String
  scopes : List String
  refreshCiphertext : Option Secret
  accessCiphertext : Option Secret
  accessExpiresAt : Option ℤ
  connectedAt : Option ℤ
  createdAt : Option ℤ
  updatedAt : Option ℤ
  lastRefreshAt : Option ℤ
  disconnectedAt : Option ℤ
  status : Status
  lastRefreshError : String
  revocationStatus : String
  deriving DecidableEq

def Connection.zero : Connection :=
  ⟨"", "", "", "", "", "", "", [], none, none, none, none, none, none, none, none, .unset, "", ""⟩

structure Grant where
  serial : ℕ
  accessToken : String
  refreshToken : String
  tokenType : String
  expiresAt : Option ℤ
  scopes : List String
  scopesPresent : Bool
  issuer : String
  subject : String
  email : String
  resource : String
  deriving DecidableEq

def Grant.access (g : Grant) : Secret := ⟨g.accessToken, g.serial⟩

def Grant.refresh (g : Grant) : Secret := ⟨g.refreshToken, g.serial⟩

structure Registration where
  id : String
  issuer : String
  resource : String
  allowedScopes : List String
  deriving DecidableEq

inductive FailureKind where
  | revoked
  | misconfigured
  | temporary
  | unknownOutcome
  deriving DecidableEq

def FailureKind.text : FailureKind → String
  | .revoked => "credential_revoked"
  | .misconfigured => "provider_configuration"
  | .temporary => "provider_unavailable"
  | .unknownOutcome => "refresh_outcome_unknown"

inductive ProviderFailure where
  | provider (kind : FailureKind)
  | context
  | other
  deriving DecidableEq

def ProviderFailure.kind : ProviderFailure → FailureKind
  | .provider kind => kind
  | .context => .unknownOutcome
  | .other => .unknownOutcome

inductive Code where
  | connectionConfiguration
  | connectionNotConfigured
  | connectionNotConnected
  | connectionReauthRequired
  | connectionScopeMissing
  | connectionUnavailable
  | invalidArgument
  | permissionDenied
  | failedPrecondition
  deriving DecidableEq

inductive VaultError where
  | failure (code : Code) (message : String)
  | context
  | callback
  deriving DecidableEq

inductive StoreError where
  | configuration (message : String)
  | ownerUnavailable
  | context
  | other
  deriving DecidableEq

def storageFailure : StoreError → VaultError
  | .configuration message => .failure .connectionConfiguration message
  | .ownerUnavailable => .failure .permissionDenied "connection owner is unavailable"
  | .context => .context
  | .other => .failure .connectionUnavailable "connection storage is unavailable"

def scopeChar (c : Char) : Bool := 0x21 ≤ c.toNat && c.toNat ≤ 0x7e && c ≠ '"' && c ≠ '\\'

def normalizeScopes (scopes : List String) : Option (List String) :=
  if scopes.all fun scope => scope ≠ "" && scope.toList.all scopeChar then
    some ((scopes.insertionSort (· ≤ ·)).destutter (· ≠ ·))
  else none

def containsScopes (granted required : List String) : Bool := required.all granted.contains

/-! ## Rows and grants -/

def isBearer (tokenType : String) : Bool := tokenType.toLower = "bearer"

def registration (provider : Option Registration) (scopes : List String) :
    Except VaultError (Registration × List String) :=
  match provider with
  | none => .error (.failure .connectionNotConfigured "connection provider is not configured")
  | some r =>
    if r.issuer = "" then
      .error (.failure .connectionConfiguration "connection provider configuration is invalid")
    else
      match normalizeScopes scopes with
      | none => .error (.failure .invalidArgument "invalid required connection scopes")
      | some required =>
        if containsScopes r.allowedScopes required then .ok (r, required)
        else .error (.failure .permissionDenied "requested connection scope is not allowed")

def bound (row : Connection) (user : String) (r : Registration) : Bool :=
  row.userId = user && row.providerId = r.id && row.issuer = r.issuer && row.resource = r.resource

def validGrant (g : Grant) : Bool :=
  g.accessToken ≠ "" && g.accessToken.toList.all (fun c => c ≠ '\r' && c ≠ '\n') &&
    g.tokenType ≠ "" && (!g.scopesPresent || (normalizeScopes g.scopes).isSome)

def sameIdentity (row : Connection) (g : Grant) : Bool :=
  (g.issuer = "" || g.issuer = row.issuer) && (g.subject = "" || g.subject = row.subject) &&
    (g.resource = "" || g.resource = row.resource)

def sealed (secret : Secret) : Option Secret := if secret.text = "" then none else some secret

def opened (data : Option Secret) : Secret := data.getD ⟨"", 0⟩

def applyGrant (row : Connection) (g : Grant) : Connection :=
  { row with
    accessCiphertext := sealed g.access
    refreshCiphertext := if g.refreshToken ≠ "" then sealed g.refresh else row.refreshCiphertext
    tokenType := g.tokenType
    accessExpiresAt := g.expiresAt
    scopes := if g.scopesPresent then (normalizeScopes g.scopes).getD [] else row.scopes }

def usable (row : Connection) (clock : ℤ) : Bool :=
  let refreshAhead : ℤ := if row.refreshCiphertext = none then 0 else 60 * 1000000
  row.accessCiphertext.isSome && row.accessExpiresAt.all fun expiresAt =>
    clock + refreshAhead < expiresAt

def FailureKind.status : FailureKind → Status
  | .revoked => .reauthRequired
  | .misconfigured => .active
  | .temporary => .active
  | .unknownOutcome => .reauthRequired

def FailureKind.code : FailureKind → Code
  | .revoked => .connectionReauthRequired
  | .misconfigured => .connectionConfiguration
  | .temporary => .connectionUnavailable
  | .unknownOutcome => .connectionUnavailable

structure Metadata where
  provider : String
  status : Status
  issuer : String
  subject : String
  resource : String
  email : String
  scopes : List String
  revocationStatus : String
  reauthReason : String
  connectedAt : Option ℤ
  lastRefreshAt : Option ℤ
  deriving DecidableEq

def metadata (row : Connection) : Metadata where
  provider := row.providerId
  status := if row.status = .refreshPending then .reauthRequired else row.status
  issuer := if row.status = .disconnected then "" else row.issuer
  subject := if row.status = .disconnected then "" else row.subject
  resource := if row.status = .disconnected then "" else row.resource
  email := if row.status = .disconnected then "" else row.email
  scopes := if row.status = .disconnected then [] else row.scopes
  revocationStatus := row.revocationStatus
  reauthReason :=
    if row.status = .refreshPending then FailureKind.unknownOutcome.text
    else if row.status = .reauthRequired then row.lastRefreshError else ""
  connectedAt := row.connectedAt
  lastRefreshAt := row.lastRefreshAt

def noConnection (provider : String) : Metadata :=
  ⟨provider, .disconnected, "", "", "", "", [], "", "", none, none⟩

end Scenery.Vault
