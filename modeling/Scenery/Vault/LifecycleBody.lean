import Scenery.Vault.TokenBody

/-!
# Connect, CreateState and Disconnect under the lease

The other calls keep the invariant as well.
-/

namespace Scenery.Vault

def AnyPost {α : Type} : Except VaultError α → Shared → Prop := fun _ _ => True

theorem tolerant_anyPost {α : Type} {n : ℕ} : Tolerant n (AnyPost (α := α)) := fun _ _ _ => trivial

section

variable {user provider : String} {s : Shared} {row row' : Connection} {required : List String}
  {k : Handshake} {g g' : Grant} {r : Registration}

variable {states : List Handshake}

theorem mem_of_mem_consumeWhere {p : Handshake → Bool} (hk : k ∈ consumeWhere p states)
    (hconsumed : k.consumed = false) : k ∈ states := by
  obtain ⟨k', hk', he⟩ := List.mem_map.mp hk
  split_ifs at he
  · rw [← he] at hconsumed
    cases hconsumed
  · exact he ▸ hk'

theorem consumed_of_mem_consumeWhere_true (hk : k ∈ consumeWhere (fun _ => true) states) :
    k.consumed = true := by
  obtain ⟨k', -, rfl⟩ := List.mem_map.mp hk
  rfl

theorem Inv.commit_states {consumed : Option Handshake} (h : Inv (s.session + 1) s)
    (hstates : ∀ d, Disconnected s.log d → ∀ k ∈ states, k.consumed = false → d < k.createdBy)
    (hconsumed : ∀ k, consumed = some k → ∀ d, Disconnected s.log d → d < k.createdBy) :
    Inv (s.session + 1) (s.commit ⟨{ s.durable with states := states }, none, consumed⟩) := by
  refine h.commit (fun row hr => ?_) (fun d hd => ?_) hconsumed
  · have hcalls : (s.commit ⟨{ s.durable with states := states }, none, consumed⟩).calls = s.calls := by
      simp [Shared.commit]
    rw [hcalls]
    have hquiet : (Note.commit s.session s.handshake none consumed).quiet := trivial
    exact (h.row row hr).cons hquiet fun _ _ _ => rfl
  · exact hstates d (hd.of_quiet trivial)

variable {n : ℕ}

theorem safe_last_commit {t : Tx} (h : Inv n s) (ht : s.tx = some t)
    (hcommit : Inv n (s.commit t)) : VaultSafe user provider n AnyPost commit s := by
  rw [← Prog.bind_ret commit]
  exact safe_commit tolerant_anyPost h ht ⟨hcommit, trivial⟩

theorem safe_last_check {c : Bool} {code : Code} {message : String} (h : Inv n s) :
    VaultSafe user provider n AnyPost (check c code message) s := by
  rw [← Prog.bind_ret (check c code message)]
  exact safe_check tolerant_anyPost h fun _ => ⟨h, trivial⟩

variable {key : StateKey}

theorem safe_createState_body {scopes : List String} (h : Inv s.session s) :
    VaultSafe user provider (s.session + 1) AnyPost (createState key scopes) s := by
  have h' : Inv (s.session + 1) s := h.mono (Nat.le_succ _)
  refine safe_beginTx tolerant_anyPost h' ?_
  refine safe_createState tolerant_anyPost h' rfl ?_
  refine safe_last_commit h' rfl ?_
  refine Inv.commit_states h' (fun d hd k hk hfree => ?_) nofun
  rcases List.mem_cons.mp hk with rfl | hk
  · obtain ⟨handshake, row, consumed, hmem, -⟩ := hd
    exact h.sessions _ hmem
  · exact h'.states d hd k hk hfree

/-! ## Connect -/

structure Consented (s : Shared) (k : Handshake) : Prop where
  tx : s.tx = some ⟨s.durable, none, none⟩
  handshake : s.handshake = some k
  calling : s.calling = false
  created : ∀ d, Disconnected s.log d → d < k.createdBy

structure New (s : Shared) (g : Grant) : Prop where
  known : ∃ g₀ ∈ s.grants, g₀.access = g.access ∧ g₀.expiresAt = g.expiresAt
  calls : ∀ c ∈ s.calls, c.token.grant ≠ g.serial
  issued : ∀ e, Note.issue e g.access ∉ s.log

theorem Consented.rowOk (hc : Consented s k) (hn : New s g) (h : Inv (s.session + 1) s)
    (hrefresh : ∀ t, row'.refreshCiphertext = some t → g.refresh = t ∨
      ∃ row, s.durable.row = some row ∧ row.status = .active ∧ row.refreshCiphertext = some t)
    (haccess : ∀ t, row'.accessCiphertext = some t → g.access = t)
    (hexpires : row'.accessExpiresAt = g.expiresAt) (hactive : row'.status = .active) :
    RowOk s.calls s.grants (savingNote s row' :: s.log) row' := by
  obtain ⟨g₀, hg₀, hsame, hexpires₀⟩ := hn.known
  have hquiet : (savingNote s row').quiet := by
    intro hdisconnected
    rw [hactive] at hdisconnected
    cases hdisconnected
  refine ⟨fun t ht => ?_, fun t ht => ?_, fun _ t ht c hcall htoken => ?_,
    fun _ t ht e hmem => ?_, fun _ d hd => ?_⟩
  · rcases hrefresh t ht with rfl | ⟨row, hrow, -, ht⟩
    · have hserial : g₀.serial = g.serial := congrArg Secret.grant hsame
      exact List.mem_map.mpr ⟨g₀, hg₀, hserial⟩
    · exact (h.row row hrow).refresh t ht
  · exact ⟨g₀, hg₀, hsame.trans (haccess t ht), hexpires₀.trans hexpires.symm⟩
  · rcases hrefresh t ht with rfl | ⟨row, hrow, hold, ht⟩
    · exact absurd (congrArg Secret.grant htoken) (hn.calls c hcall)
    · exact (h.row row hrow).clean hold t ht c hcall htoken
  · obtain rfl := haccess t ht
    rcases List.mem_cons.mp hmem with hx | hmem
    · cases hx
    · exact hn.issued e hmem
  · refine ⟨s.session, k, ⟨row', none, ?_, hactive⟩, hc.created d (hd.of_quiet hquiet)⟩
    rw [savingNote, hc.handshake]
    exact List.mem_cons_self

theorem connecting_refresh {t : Secret} {stored : Option Connection}
    (h : (applyGrant (connecting (stored.getD .zero) user provider r g) g).refreshCiphertext =
      some t) :
    g.refresh = t ∨ ∃ row, stored = some row ∧ row.status = .active ∧
      row.refreshCiphertext = some t := by
  simp only [applyGrant, connecting] at h
  split_ifs at h with hnew hstatus
  · exact .inl (sealed_eq_some h)
  · cases stored with
    | none => exact absurd hstatus (by decide)
    | some row => exact .inr ⟨row, rfl, not_not.mp hstatus, h⟩

def connectedRow (row : Connection) (connectedAt updatedAt createdAt : ℤ) : Connection :=
  { row with
    status := .active
    lastRefreshError := ""
    revocationStatus := ""
    connectedAt := some connectedAt
    updatedAt := some updatedAt
    disconnectedAt := none
    lastRefreshAt := none
    createdAt := some (row.createdAt.getD createdAt) }

theorem safe_install (hc : Consented s k) (hn : New s g) (h : Inv (s.session + 1) s) :
    VaultSafe user provider (s.session + 1) AnyPost (install user provider r required g) s := by
  refine safe_load tolerant_anyPost h hc.tx ?_
  refine safe_check tolerant_anyPost h fun _ => ?_
  refine safe_sealGrant tolerant_anyPost h ?_
  refine safe_now h fun connectedAt => safe_now h fun updatedAt => safe_now h fun createdAt => ?_
  have hsaved : ∀ row', (∀ t, row'.refreshCiphertext = some t → g.refresh = t ∨
      ∃ row, s.durable.row = some row ∧ row.status = .active ∧ row.refreshCiphertext = some t) →
      (∀ t, row'.accessCiphertext = some t → g.access = t) →
      row'.accessExpiresAt = g.expiresAt → row'.status = .active →
      Inv (s.session + 1) (saved s ⟨s.durable, none, none⟩ row') := by
    intro row' hrefresh haccess hexpires hactive
    refine h.saved ?_ ?_
    · rw [hactive]
      decide
    · rw [hc.calling]
      exact hc.rowOk hn h hrefresh haccess hexpires hactive
  refine safe_save_commit tolerant_anyPost h hc.tx ?_
  have hinv : Inv (s.session + 1) (saved s ⟨s.durable, none, none⟩ (connectedRow (applyGrant
      (connecting (s.durable.row.getD .zero) user provider r g) g) connectedAt updatedAt createdAt)) :=
    hsaved _ (fun _ => connecting_refresh) (fun _ => sealed_eq_some) rfl rfl
  exact safe_check tolerant_anyPost hinv fun _ => safe_last_check hinv

theorem safe_connect {registered : Option Registration} {requested : List String}
    (hc : Consented s k) (hn : New s g) (h : Inv (s.session + 1) s) :
    VaultSafe user provider (s.session + 1) AnyPost (connect user provider registered requested g)
      s := by
  unfold connect
  split
  · exact safe_fail tolerant_anyPost h _
  · refine safe_check tolerant_anyPost h fun _ => safe_check tolerant_anyPost h fun _ => ?_
    split_ifs
    · exact safe_install hc hn h
    · exact safe_install hc ⟨hn.known, hn.calls, hn.issued⟩ h

theorem safe_lockState {f : Handshake → VaultProg Unit} (h : Inv s.session s)
    (hcalling : s.calling = false)
    (hf : ∀ k s', s'.session = s.session → Inv (s.session + 1) s' → Consented s' k →
      VaultSafe user provider (s.session + 1) AnyPost (f k) s') :
    VaultSafe user provider (s.session + 1) AnyPost (lockState key >>= f) s := by
  have h' : Inv (s.session + 1) s := h.mono (Nat.le_succ _)
  rw [lockState, Prog.bind_assoc]
  refine safe_beginTx tolerant_anyPost h' ?_
  rw [Prog.bind_assoc]
  refine safe_consumeState tolerant_anyPost h' rfl ?_ fun k hk hfree => ?_
  · rw [Prog.bind_assoc]
    exact safe_found tolerant_anyPost h' fun k hk => by cases hk
  · have hcreated : ∀ d, Disconnected s.log d → d < k.createdBy :=
      fun d hd => h'.states d hd k hk hfree
    -- the handshakes that are left were there before
    have hcommit : Inv (s.session + 1) (s.commit
        ⟨{ s.durable with states := consumeWhere (fun x => x.key = k.key) s.durable.states }, none,
          some k⟩) := by
      refine h'.commit_states (fun d hd k' hk' hfree' => ?_) fun k' hk' => ?_
      · exact h'.states d hd k' (mem_of_mem_consumeWhere hk' hfree') hfree'
      · cases hk'
        exact hcreated
    rw [Prog.bind_assoc]
    refine safe_found tolerant_anyPost h' fun k' hk' => ?_
    cases hk'
    rw [Prog.bind_assoc]
    refine safe_commit tolerant_anyPost h' rfl ?_
    rw [Prog.bind_assoc]
    refine safe_beginTx tolerant_anyPost hcommit ?_
    refine hf k _ rfl hcommit ⟨rfl, rfl, ?_, fun d hd => ?_⟩
    · simp [Shared.commit, hcalling]
    · exact hcreated d (hd.of_quiet trivial)

theorem safe_exchange {f : Grant → VaultProg Unit} (hc : Consented s k)
    (h : Inv (s.session + 1) s)
    (hf : ∀ g s', s'.session = s.session → Inv (s.session + 1) s' → Consented s' k → New s' g →
      VaultSafe user provider (s.session + 1) AnyPost (f g) s') :
    VaultSafe user provider (s.session + 1) AnyPost
      (((.op .exchange fun x => found x .callback) : VaultProg Grant) >>= f) s := by
  refine ⟨h, trivial, fun choice x s' hexec => ?_⟩
  cases choice with
  | grant g =>
    simp only [exec, granted] at hexec
    split_ifs at hexec with hserial
    cases hexec
    refine hf g _ rfl (h.grant hserial) ⟨hc.tx, hc.handshake, hc.calling, hc.created⟩
      ⟨⟨g, List.mem_cons_self, rfl, rfl⟩, fun c hcall hgrant => hserial ?_, fun e hmem => hserial ?_⟩
    · exact hgrant ▸ h.calls c hcall
    · exact h.issued e g.access hmem
  | refuse f =>
    cases hexec
    exact safe_fail tolerant_anyPost h _
  | _ => cases hexec

theorem safe_callback {registered : Option Registration} {denied : Bool}
    (h : Inv s.session s) (hcalling : s.calling = false) :
    VaultSafe user provider (s.session + 1) AnyPost (callback user provider registered key denied)
      s := by
  refine safe_lockState h hcalling fun k s₁ hsession h₁ hc => ?_
  split_ifs
  · exact safe_fail tolerant_anyPost h₁ _
  · refine safe_found tolerant_anyPost h₁ fun requested _ => ?_
    rw [← hsession] at h₁ ⊢
    refine safe_exchange hc h₁ fun g s₂ hsession₂ h₂ hc₂ hn => ?_
    rw [← hsession₂] at h₂ ⊢
    exact safe_connect hc₂ hn h₂

/-! ## Disconnect -/

theorem Inv.disconnect (h : Inv (s.session + 1) s) (hstatus : row'.status = .disconnected)
    (hrefresh : row'.refreshCiphertext = none) (haccess : row'.accessCiphertext = none)
    (hstates : ∀ k ∈ states, k.consumed = true) :
    Inv (s.session + 1) (Vault.saved s ⟨{ s.durable with states := states }, none, none⟩ row') := by
  refine Inv.commit h (fun row hr => ?_) (fun d hd k hk hfree => ?_) fun k hk => by cases hk
  · obtain rfl : row' = row := Option.some.inj hr
    refine ⟨fun t ht => ?_, fun t ht => ?_, fun hactive => ?_, fun _ t ht => ?_, fun hne => ?_⟩
    · rw [hrefresh] at ht
      cases ht
    · rw [haccess] at ht
      cases ht
    · rw [hstatus] at hactive
      cases hactive
    · rw [haccess] at ht
      cases ht
    · exact absurd hstatus hne
  · rw [hstates k hk] at hfree
    cases hfree

theorem safe_revokeToken {token : Secret} {status : String} {f : String → VaultProg Metadata}
    (h : Inv n s) (hf : ∀ status, VaultSafe user provider n AnyPost (f status) s) :
    VaultSafe user provider n AnyPost (revokeToken token status >>= f) s := by
  unfold revokeToken
  split_ifs
  · exact hf status
  · refine ⟨h, trivial, fun choice x s' hexec => ?_⟩
    cases choice with
    | revoked r =>
      cases hexec
      exact hf _
    | _ => cases hexec

theorem safe_revocable {f : Secret × String → VaultProg Metadata} (h : Inv n s)
    (hf : ∀ x, VaultSafe user provider n AnyPost (f x) s) :
    VaultSafe user provider n AnyPost (revocable row user r >>= f) s := by
  unfold revocable
  dsimp only
  split_ifs
  · refine ⟨h, trivial, fun choice x s' hexec => ?_⟩
    cases choice with
    | works | broken =>
      cases hexec
      exact hf _
    | _ => cases hexec
  · exact hf _
  · exact hf _

theorem safe_disconnectRow (h : Inv (s.session + 1) s)
    (htx : s.tx = some ⟨{ s.durable with states := states }, none, none⟩)
    (hstates : ∀ k ∈ states, k.consumed = true) :
    VaultSafe user provider (s.session + 1) AnyPost (disconnectRow user r row) s := by
  refine safe_revocable h fun x => ?_
  refine safe_now h fun disconnectedAt => safe_now h fun updatedAt => ?_
  have hsaved : Inv (s.session + 1) (saved s ⟨{ s.durable with states := states }, none, none⟩
      (disconnectedRow row disconnectedAt updatedAt)) := h.disconnect rfl rfl rfl hstates
  refine safe_checkpoint tolerant_anyPost h htx ?_
  refine safe_revokeToken hsaved fun status => ?_
  -- the row is saved once more, with the outcome of the revocation
  let next : Shared := saved s ⟨{ s.durable with states := states }, none, none⟩
    (disconnectedRow row disconnectedAt updatedAt)
  let revoked : Connection :=
    { disconnectedRow row disconnectedAt updatedAt with revocationStatus := status }
  have hrevoked : Inv (next.session + 1) (saved next ⟨next.durable, none, none⟩ revoked) :=
    Inv.disconnect hsaved rfl rfl rfl hstates
  exact safe_save_commit tolerant_anyPost hsaved rfl ⟨hrevoked, trivial⟩

theorem safe_disconnect (h : Inv s.session s) :
    VaultSafe user provider (s.session + 1) AnyPost (disconnect user provider r) s := by
  have h' : Inv (s.session + 1) s := h.mono (Nat.le_succ _)
  have hconsumed : ∀ k ∈ consumeWhere (fun _ => true) s.durable.states, k.consumed = true :=
    fun _ => consumed_of_mem_consumeWhere_true
  have hcommit : Inv (s.session + 1) (s.commit
      ⟨{ s.durable with states := consumeWhere (fun _ => true) s.durable.states }, none, none⟩) := by
    refine h'.commit_states (fun d _ k hk hfree => ?_) nofun
    rw [hconsumed k hk] at hfree
    cases hfree
  refine safe_beginTx tolerant_anyPost h' ?_
  refine safe_expireStates tolerant_anyPost h' rfl ?_
  refine safe_load tolerant_anyPost h' rfl ?_
  split
  · exact safe_commit tolerant_anyPost h' rfl ⟨hcommit, trivial⟩
  · refine safe_check tolerant_anyPost h' fun _ => ?_
    split_ifs
    · exact safe_commit tolerant_anyPost h' rfl ⟨hcommit, trivial⟩
    · let expired : Shared := { s with
        tx := some (Tx.expireStates ⟨s.durable, none, none⟩) }
      have hexpired : Inv (expired.session + 1) expired := h'
      exact safe_disconnectRow hexpired rfl hconsumed

end

end Scenery.Vault
