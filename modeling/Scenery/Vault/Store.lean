import Scenery.Crash
import Scenery.Vault.Connection

/-!
# The store of the vault

What `internal/connectionvault/sqlstore/store.go` keeps for one user and one provider: the row of
the connection and the handshakes.
-/

namespace Scenery.Vault

structure StateKey where
  stateHash : String
  browserHash : String
  issuer : String
  resource : String
  clientId : String
  callbackUri : String
  deriving DecidableEq

structure Handshake where
  key : StateKey
  requestedScopes : List String
  consumed : Bool
  createdBy : ℕ
  deriving DecidableEq

structure Store where
  row : Option Connection
  states : List Handshake
  deriving DecidableEq

structure Tx where
  store : Store
  saved : Option Connection
  consumed : Option Handshake
  deriving DecidableEq

structure Refreshing where
  token : Secret
  answer : Option (Except ProviderFailure Grant)
  saved : Option Connection
  deriving DecidableEq

inductive Note where
  | commit (session : ℕ) (handshake : Option Handshake) (saved : Option Connection)
      (consumed : Option Handshake)
  | refresh (session : ℕ) (token : Secret)
  | issue (session : ℕ) (token : Secret)
  deriving DecidableEq

def Note.session : Note → ℕ
  | .commit e _ _ _ => e
  | .refresh e _ => e
  | .issue e _ => e

structure Shared where
  durable : Store
  tx : Option Tx
  session : ℕ
  handshake : Option Handshake
  calling : Bool
  calls : List Refreshing
  grants : List Grant
  log : List Note

/-! ## Operations -/

inductive Revocation where
  | succeeded
  | unsupported
  | failed
  deriving DecidableEq

inductive Op where
  | beginTx
  | load
  | save (row : Connection)
  | expireStates
  | createState (key : StateKey) (requestedScopes : List String)
  | consumeState (key : StateKey)
  | commit
  | cipher
  | exchange
  | send (token : Secret)
  | receive
  | revoke (token : Secret)
  | now
  deriving DecidableEq

/-- What an operation returns: no row is `none`, and the cipher works or not. -/
def Reply : Op → Type
  | .beginTx => Except StoreError Unit
  | .load => Except StoreError (Option Connection)
  | .save _ => Except StoreError Unit
  | .expireStates => Except StoreError Unit
  | .createState _ _ => Except StoreError Unit
  | .consumeState _ => Except StoreError (Option Handshake)
  | .commit => Except StoreError Unit
  | .cipher => Bool
  | .exchange => Option Grant
  | .send _ => Unit
  | .receive => Except ProviderFailure Grant
  | .revoke _ => Revocation
  | .now => ℤ

inductive Choice where
  | works
  | fails (e : StoreError)
  | unanswered (e : StoreError)
  | missing
  | broken
  | grant (g : Grant)
  | refuse (f : ProviderFailure)
  | revoked (r : Revocation)
  | time (t : ℤ)
  deriving DecidableEq

def consumeWhere (p : Handshake → Bool) (states : List Handshake) : List Handshake :=
  states.map fun h => if p h then { h with consumed := true } else h

def answered (x : Except ProviderFailure Grant) : List Refreshing → List Refreshing
  | [] => []
  | c :: rest => { c with answer := some x } :: rest

def savedAfter (row : Option Connection) : List Refreshing → List Refreshing
  | [] => []
  | c :: rest => { c with saved := row } :: rest

namespace Shared

def commit (s : Shared) (tx : Tx) : Shared :=
  { s with
    durable := tx.store
    tx := none
    handshake := tx.consumed.orElse fun _ => s.handshake
    calling := s.calling && tx.saved.isNone
    calls := if s.calling && tx.saved.isSome then savedAfter tx.saved s.calls else s.calls
    log := .commit s.session s.handshake tx.saved tx.consumed :: s.log }

def enter (s : Shared) (session : ℕ) : Shared :=
  { s with tx := none, session := session, handshake := none, calling := false }

def leave (s : Shared) (session : ℕ) (token : Option Secret) : Shared :=
  { s with
    tx := none
    log := match token with
      | none => s.log
      | some t => .issue session t :: s.log }

def crash (s : Shared) : Shared := { s with tx := none }

def empty : Shared := ⟨⟨none, []⟩, none, 0, none, false, [], [], []⟩

end Shared

namespace Tx

def save (t : Tx) (row : Connection) : Tx :=
  { t with store := { t.store with row := some row }, saved := some row }

def expireStates (t : Tx) : Tx :=
  { t with store := { t.store with states := consumeWhere (fun _ => true) t.store.states } }

def createState (t : Tx) (h : Handshake) : Tx :=
  { t with store := { t.store with states := h :: t.store.states } }

def consumeState (t : Tx) (h : Handshake) : Tx :=
  { t with
    store := { t.store with states := consumeWhere (fun x => x.key = h.key) t.store.states }
    consumed := some h }

end Tx

def statement {α : Type} (choice : Choice) (s : Shared)
    (effect : Tx → Except StoreError α × Tx) : Option (Except StoreError α × Shared) :=
  match choice with
  | .works => s.tx.map fun t => ((effect t).1, { s with tx := some (effect t).2 })
  | .fails e => some (.error e, s)
  | _ => none

/-- `ConsumeConnectionState`: a handshake that has expired, or whose session has ended, is
missing. -/
def consumption (key : StateKey) (choice : Choice) (s : Shared) :
    Option (Except StoreError (Option Handshake) × Shared) :=
  if choice = .missing then some (.ok none, s)
  else statement choice s fun t =>
    match t.store.states.find? fun h => h.key = key ∧ h.consumed = false with
    | none => (.ok none, t)
    | some h => (.ok (some h), t.consumeState h)

def granted {α : Type} (g : Grant) (s : Shared) (x : α × Shared) : Option (α × Shared) :=
  if g.serial ∈ s.grants.map Grant.serial then none
  else some (x.1, { x.2 with grants := g :: s.grants })

variable (user provider : String)

/-- The effect and the reply of an operation; `none` if it cannot end that way. -/
def exec : (o : Op) → Choice → Shared → Option (Reply o × Shared)
  | .beginTx, choice, s =>
    match choice with
    | .works => some (.ok (), { s with tx := some ⟨s.durable, none, none⟩ })
    | .fails e => some (.error e, s)
    | _ => none
  | .load, choice, s => statement choice s fun t => (.ok t.store.row, t)
  | .save row, choice, s => statement choice s fun t =>
      if row.userId = user ∧ row.providerId = provider then (.ok (), t.save row)
      else (.error .ownerUnavailable, t)
  | .expireStates, choice, s => statement choice s fun t => (.ok (), t.expireStates)
  | .createState key scopes, choice, s => statement choice s fun t =>
      if key.stateHash ∈ t.store.states.map (fun h => h.key.stateHash) then (.error .other, t)
      else (.ok (), t.createState ⟨key, scopes, false, s.session⟩)
  | .consumeState key, choice, s => consumption key choice s
  | .commit, choice, s =>
    match choice with
    | .works => s.tx.map fun t => (.ok (), s.commit t)
    | .unanswered e => s.tx.map fun t => (.error e, s.commit t)
    | .fails e => some (.error e, { s with tx := none })
    | _ => none
  | .cipher, choice, s =>
    match choice with
    | .works => some (true, s)
    | .broken => some (false, s)
    | _ => none
  | .exchange, choice, s =>
    match choice with
    | .grant g => granted g s (some g, s)
    | .refuse _ => some (none, s)
    | _ => none
  | .send token, choice, s =>
    match choice with
    | .works => some ((), { s with
        calling := true
        calls := ⟨token, none, none⟩ :: s.calls
        log := .refresh s.session token :: s.log })
    | _ => none
  | .receive, choice, s =>
    match choice with
    | .grant g => granted g s (.ok g, { s with calls := answered (.ok g) s.calls })
    | .refuse f => some (.error f, { s with calls := answered (.error f) s.calls })
    | _ => none
  | .revoke _, choice, s =>
    match choice with
    | .revoked r => some (r, s)
    | _ => none
  | .now, choice, s =>
    match choice with
    | .time t => some (t, s)
    | _ => none

end Scenery.Vault
