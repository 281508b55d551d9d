import Scenery.Vault.Invariant

/-!
# Rules for programs of the vault

One rule for each operation and each small program: what has to hold so that the program and the
rest after it are safe.
-/

namespace Scenery.Vault

def MayCall : Op → Shared → Prop
  | .send t, s => (∀ c ∈ s.calls, c.token = t → c.resolved = true) ∧
    ∀ d, Disconnected s.log d → ∃ c h, Connected s.log c h ∧ d < h.createdBy
  | _, _ => True

def VaultSafe {α : Type} (user provider : String) (n : ℕ) (Q : Except VaultError α → Shared → Prop)
    (p : VaultProg α) (s : Shared) : Prop :=
  Prog.Safe (exec user provider) (Inv n) MayCall Q p s

def Tolerant {α : Type} (n : ℕ) (Q : Except VaultError α → Shared → Prop) : Prop :=
  ∀ e s, Inv n s → Q (.error e) s

section

variable {user provider : String} {n : ℕ} {α β : Type} {Q : Except VaultError β → Shared → Prop}
  {s : Shared}

theorem VaultSafe.inv {p : VaultProg β} (h : VaultSafe user provider n Q p s) : Inv n s :=
  Prog.Safe.inv h

theorem safe_fail (hQ : Tolerant n Q) (hI : Inv n s) (e : VaultError) :
    VaultSafe user provider n Q (.fail e) s :=
  ⟨hI, hQ e s hI⟩

theorem safe_ret {b : β} (hI : Inv n s) (h : Q (.ok b) s) :
    VaultSafe user provider n Q (.ret b) s :=
  ⟨hI, h⟩

theorem statement_eq_some {choice : Choice} {effect : Tx → Except StoreError α × Tx}
    {x : Except StoreError α} {s' : Shared} (h : statement choice s effect = some (x, s')) :
    (∃ e, x = .error e ∧ s' = s) ∨
      ∃ t, s.tx = some t ∧ x = (effect t).1 ∧ s' = { s with tx := some (effect t).2 } := by
  cases choice with
  | works =>
    obtain ⟨t, ht, he⟩ := Option.map_eq_some_iff.mp h
    cases he
    exact .inr ⟨t, ht, rfl, rfl⟩
  | fails e =>
    cases h
    exact .inl ⟨e, rfl, rfl⟩
  | _ => cases h

variable {t : Tx}

theorem with_tx (h : s.tx = some t) : { s with tx := some t } = s := by
  cases s
  cases h
  rfl

theorem safe_statement {choice : Choice} {effect : Tx → Except StoreError α × Tx}
    {x : Except StoreError α} {s' : Shared} {f : α → VaultProg β} (hQ : Tolerant n Q)
    (hI : Inv n s) (ht : s.tx = some t) (hexec : statement choice s effect = some (x, s'))
    (hf : VaultSafe user provider n Q (orStorage (effect t).1 >>= f)
      { s with tx := some (effect t).2 }) :
    VaultSafe user provider n Q (orStorage x >>= f) s' := by
  rcases statement_eq_some hexec with ⟨e, rfl, rfl⟩ | ⟨t', ht', rfl, rfl⟩
  · exact safe_fail hQ hI _
  · obtain rfl : t = t' := Option.some.inj (ht.symm.trans ht')
    exact hf

variable {f : Unit → VaultProg β}

theorem safe_beginTx (hQ : Tolerant n Q) (hI : Inv n s)
    (hf : VaultSafe user provider n Q (f ()) { s with tx := some ⟨s.durable, none, none⟩ }) :
    VaultSafe user provider n Q (beginTx >>= f) s := by
  refine ⟨hI, trivial, fun choice x s' hexec => ?_⟩
  cases choice with
  | works =>
    cases hexec
    exact hf
  | fails e =>
    cases hexec
    exact safe_fail hQ hI _
  | _ => cases hexec

theorem safe_load {f : Option Connection → VaultProg β} (hQ : Tolerant n Q) (hI : Inv n s)
    (ht : s.tx = some t) (hf : VaultSafe user provider n Q (f t.store.row) s) :
    VaultSafe user provider n Q (load >>= f) s := by
  refine ⟨hI, trivial, fun choice x s' hexec => safe_statement hQ hI ht hexec ?_⟩
  rw [with_tx ht]
  exact hf

variable {row : Connection}

section

variable (hQ : Tolerant n Q)
include hQ

theorem safe_save (hI : Inv n s) (ht : s.tx = some t)
    (hf : VaultSafe user provider n Q (f ()) { s with tx := some (t.save row) }) :
    VaultSafe user provider n Q (save row >>= f) s := by
  refine ⟨hI, trivial, fun choice x s' hexec => safe_statement hQ hI ht hexec ?_⟩
  by_cases howner : row.userId = user ∧ row.providerId = provider
  · simp only [if_pos howner]
    exact hf
  · simp only [if_neg howner]
    exact ⟨hI, hQ _ _ hI⟩

theorem safe_expireStates (hI : Inv n s) (ht : s.tx = some t)
    (hf : VaultSafe user provider n Q (f ()) { s with tx := some t.expireStates }) :
    VaultSafe user provider n Q (((.op .expireStates orStorage) : VaultProg Unit) >>= f)
      s :=
  ⟨hI, trivial, fun _ _ _ hexec => safe_statement hQ hI ht hexec hf⟩

theorem safe_createState {key : StateKey} {scopes : List String} (hI : Inv n s)
    (ht : s.tx = some t)
    (hf : VaultSafe user provider n Q (f ())
      { s with tx := some (t.createState ⟨key, scopes, false, s.session⟩) }) :
    VaultSafe user provider n Q
      (((.op (.createState key scopes) orStorage) : VaultProg Unit) >>= f) s := by
  refine ⟨hI, trivial, fun choice x s' hexec => safe_statement hQ hI ht hexec ?_⟩
  split_ifs
  · exact ⟨hI, hQ _ _ hI⟩
  · exact hf

theorem safe_consumeState {key : StateKey} {f : Option Handshake → VaultProg β}
    (hI : Inv n s) (ht : s.tx = some t) (hnone : VaultSafe user provider n Q (f none) s)
    (hsome : ∀ h ∈ t.store.states, h.consumed = false →
      VaultSafe user provider n Q (f (some h)) { s with tx := some (t.consumeState h) }) :
    VaultSafe user provider n Q
      (((.op (.consumeState key) orStorage) : VaultProg (Option Handshake)) >>= f) s := by
  refine ⟨hI, trivial, fun choice x s' hexec => ?_⟩
  by_cases hmissing : choice = .missing
  · subst hmissing
    cases hexec
    exact hnone
  · have hconsume : consumption key choice s = some (x, s') := hexec
    rw [consumption, if_neg hmissing] at hconsume
    refine safe_statement hQ hI ht hconsume ?_
    cases hfind : t.store.states.find? fun h => h.key = key ∧ h.consumed = false with
    | none =>
      simp only [with_tx ht]
      exact hnone
    | some h =>
      have hh := List.find?_some hfind
      simp only [decide_eq_true_eq] at hh
      exact hsome h (List.mem_of_find?_eq_some hfind) hh.2

theorem safe_commit (hI : Inv n s) (ht : s.tx = some t)
    (hf : VaultSafe user provider n Q (f ()) (s.commit t)) :
    VaultSafe user provider n Q (commit >>= f) s := by
  refine ⟨hI, trivial, fun choice x s' hexec => ?_⟩
  cases choice with simp only [exec, ht, Option.map_some, Option.some.injEq] at hexec
  | works =>
    cases hexec
    exact hf
  | unanswered e =>
    cases hexec
    exact safe_fail hQ hf.inv _
  | fails e =>
    cases hexec
    exact ⟨hI, hQ _ _ hI⟩
  | _ => cases hexec

end

theorem safe_now {f : ℤ → VaultProg β} (hI : Inv n s)
    (hf : ∀ clock, VaultSafe user provider n Q (f clock) s) :
    VaultSafe user provider n Q (now >>= f) s := by
  refine ⟨hI, trivial, fun choice x s' hexec => ?_⟩
  cases choice with
  | time clock =>
    cases hexec
    exact hf _
  | _ => cases hexec

section

variable (hQ : Tolerant n Q)
include hQ

variable {message : String}

theorem safe_check {c : Bool} {code : Code} (hI : Inv n s)
    (hf : c = true → VaultSafe user provider n Q (f ()) s) :
    VaultSafe user provider n Q (check c code message >>= f) s := by
  cases c with
  | false => exact safe_fail hQ hI _
  | true => exact hf rfl

theorem safe_found {x : Option α} {e : VaultError} {f : α → VaultProg β}
    (hI : Inv n s) (hf : ∀ a, x = some a → VaultSafe user provider n Q (f a) s) :
    VaultSafe user provider n Q (found x e >>= f) s := by
  cases x with
  | none => exact safe_fail hQ hI _
  | some a => exact hf a rfl

theorem safe_cipher (hI : Inv n s) (hf : VaultSafe user provider n Q (f ()) s) :
    VaultSafe user provider n Q (cipher message >>= f) s := by
  refine ⟨hI, trivial, fun choice x s' hexec => ?_⟩
  cases choice with
  | works =>
    cases hexec
    exact hf
  | broken =>
    cases hexec
    exact safe_fail hQ hI _
  | _ => cases hexec

theorem safe_cipherIf {c : Bool} (hI : Inv n s) (hf : VaultSafe user provider n Q (f ()) s) :
    VaultSafe user provider n Q (cipherIf c message >>= f) s := by
  cases c with
  | false => exact hf
  | true => exact safe_cipher hQ hI hf

theorem safe_openText {data : Option Secret} {f : Secret → VaultProg β}
    (hI : Inv n s) (hf : VaultSafe user provider n Q (f (opened data)) s) :
    VaultSafe user provider n Q (openText data >>= f) s := by
  rw [openText, Prog.bind_assoc]
  exact safe_cipherIf hQ hI hf

theorem safe_sealGrant {g : Grant} {f : Connection → VaultProg β} (hI : Inv n s)
    (hf : VaultSafe user provider n Q (f (applyGrant row g)) s) :
    VaultSafe user provider n Q (sealGrant row g >>= f) s := by
  rw [sealGrant, Prog.bind_assoc]
  refine safe_cipher hQ hI ?_
  rw [Prog.bind_assoc]
  exact safe_cipherIf hQ hI hf

end

def saved (s : Shared) (t : Tx) (row : Connection) : Shared :=
  { s with tx := some (t.save row) }.commit (t.save row)

theorem safe_checkpoint (hQ : Tolerant n Q) (hI : Inv n s) (ht : s.tx = some t)
    (hf : VaultSafe user provider n Q (f ())
      { saved s t row with tx := some ⟨(t.save row).store, none, none⟩ }) :
    VaultSafe user provider n Q (checkpoint row >>= f) s := by
  have hsaved : Inv n (saved s t row) := hf.inv
  rw [checkpoint, Prog.bind_assoc]
  refine safe_save hQ hI ht ?_
  rw [Prog.bind_assoc]
  refine safe_commit hQ hI rfl ?_
  rw [Prog.bind_assoc]
  refine safe_beginTx hQ hsaved ?_
  rw [Prog.bind_assoc]
  refine safe_load hQ hsaved rfl ?_
  rw [Prog.bind_assoc]
  exact safe_found hQ hsaved fun _ _ => hf

theorem safe_save_commit (hQ : Tolerant n Q) (hI : Inv n s) (ht : s.tx = some t)
    (hf : VaultSafe user provider n Q (f ()) (saved s t row)) :
    VaultSafe user provider n Q (save row >>= fun _ => commit >>= f) s :=
  safe_save hQ hI ht (safe_commit hQ hI rfl hf)

end

end Scenery.Vault
