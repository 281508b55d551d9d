import Scenery.Vault.Rules

/-!
# Token under the lease

`Token` keeps the invariant at every point of its run, whatever fails.
-/

namespace Scenery.Vault

open List

def TokenPost : Except VaultError Secret → Shared → Prop
  | .ok t, s => Issuable s t ∧ Renewed s.log s.session
  | .error _, _ => True

theorem tolerant_tokenPost {n : ℕ} : Tolerant n TokenPost := fun _ _ _ => trivial

section

variable {user provider : String} {s : Shared} {row row' : Connection} {required : List String}

structure Loaded (s : Shared) (row : Connection) : Prop where
  tx : s.tx = some ⟨s.durable, none, none⟩
  stored : s.durable.row = some row
  active : row.status = .active
  calling : s.calling = false
  renewed : Renewed s.log s.session

def savingNote (s : Shared) (row : Connection) : Note :=
  .commit s.session s.handshake (some row) none

theorem Inv.saved (h : Inv (s.session + 1) s) (hstatus : row'.status ≠ .disconnected)
    (hrow : RowOk (if s.calling then savedAfter (some row') s.calls else s.calls) s.grants
      (savingNote s row' :: s.log) row') :
    Inv (s.session + 1) (Vault.saved s ⟨s.durable, none, none⟩ row') := by
  refine Inv.commit h (fun row hr => ?_) (fun d hd => ?_) fun k hk => by cases hk
  · obtain rfl : row' = row := Option.some.inj hr
    simpa [Shared.commit, Tx.save, savingNote] using hrow
  · exact h.states d (hd.of_quiet hstatus)

theorem RowOk.update {calls : List Refreshing} {grants : List Grant} {log : List Note} {x : Note}
    (h : RowOk calls grants log row) (hx : x.quiet) (hissue : ∀ t, x.issues t = false)
    (hrefresh : row'.refreshCiphertext = row.refreshCiphertext)
    (haccess : row'.accessCiphertext = none ∨ row'.accessCiphertext = row.accessCiphertext)
    (hexpires : row'.accessExpiresAt = row.accessExpiresAt)
    (hactive : row.status = .active) : RowOk calls grants (x :: log) row' := by
  have hcons : RowOk calls grants (x :: log) row := h.cons hx fun t _ _ => hissue t
  have hsame : ∀ t, row'.accessCiphertext = some t → row.accessCiphertext = some t := by
    intro t ht
    rcases haccess with hnone | hsame
    · rw [hnone] at ht
      cases ht
    · exact hsame ▸ ht
  refine ⟨fun r hr => ?_, fun t ht => ?_, fun _ r hr => ?_, fun hnone t ht => ?_, fun _ => ?_⟩
  · exact hcons.refresh r (hrefresh ▸ hr)
  · rw [hexpires]
    exact hcons.access t (hsame t ht)
  · exact hcons.clean hactive r (hrefresh ▸ hr)
  · exact hcons.unissued (hexpires ▸ hnone) t (hsame t ht)
  · refine hcons.renewed ?_
    rw [hactive]
    decide

theorem Loaded.saved (hl : Loaded s row) (h : Inv (s.session + 1) s)
    (hstatus : row'.status ≠ .disconnected)
    (hrefresh : row'.refreshCiphertext = row.refreshCiphertext)
    (haccess : row'.accessCiphertext = none ∨ row'.accessCiphertext = row.accessCiphertext)
    (hexpires : row'.accessExpiresAt = row.accessExpiresAt) :
    Inv (s.session + 1) (Vault.saved s ⟨s.durable, none, none⟩ row') := by
  refine h.saved hstatus ?_
  rw [hl.calling]
  exact (h.row row hl.stored).update hstatus (fun _ => rfl) hrefresh haccess hexpires hl.active

theorem safe_issueStored {t : Secret} (hl : Loaded s row) (h : Inv (s.session + 1) s)
    (ht : row.accessCiphertext = some t) :
    VaultSafe user provider (s.session + 1) TokenPost (issueStored row t) s := by
  obtain ⟨g, hg, rfl, hexpires⟩ := (h.row row hl.stored).access t ht
  have hknown : g.access.grant ∈ serials s.grants := mem_map_of_mem hg
  by_cases hnone : row.accessExpiresAt = none
  · -- the token leaves the committed row
    simp only [issueStored, consumeStored, if_pos hnone]
    have hsaved : Inv (s.session + 1)
        (saved s ⟨s.durable, none, none⟩ { row with accessCiphertext := none }) := by
      refine hl.saved h ?_ rfl (.inl rfl) rfl
      rw [hl.active]
      decide
    refine safe_save_commit tolerant_tokenPost h hl.tx ⟨hsaved, ⟨hknown, ?_⟩, ?_⟩
    · intro g' _ _ _
      refine ⟨fun e hmem => ?_, fun row' hr => ?_⟩
      · rcases mem_cons.mp hmem with hx | hmem
        · cases hx
        · exact (h.row row hl.stored).unissued hnone _ ht e hmem
      · cases hr
        exact fun h => by cases h
    · exact hl.renewed.cons (Nat.le_refl _)
  · simp only [issueStored, consumeStored, if_neg hnone]
    refine safe_commit tolerant_tokenPost h hl.tx ⟨h.commit_unchanged, ⟨hknown, ?_⟩, ?_⟩
    · intro g' hg' he hexpires'
      obtain rfl := h.access_injective hg' hg he
      exact absurd (hexpires.symm.trans hexpires') hnone
    · exact hl.renewed.cons (Nat.le_refl _)

/-! ## The refresh -/

structure Answered (s : Shared) (row : Connection) (token : Secret)
    (x : Except ProviderFailure Grant) : Prop where
  tx : s.tx = some ⟨s.durable, none, none⟩
  stored : s.durable.row = some row
  pending : row.status = .refreshPending
  refresh : row.refreshCiphertext = some token
  calling : s.calling = true
  calls : ∃ older, s.calls = ⟨token, some x, none⟩ :: older ∧
    ∀ c ∈ older, c.token = token → c.resolved = true
  renewed : Renewed s.log s.session
  grant : ∀ g, x = .ok g → g ∈ s.grants ∧ (∀ c ∈ s.calls, c.token.grant ≠ g.serial) ∧
    ∀ e, Note.issue e g.access ∉ s.log

variable {token : Secret} {x : Except ProviderFailure Grant}

section

variable (ha : Answered s row token x)
include ha

theorem Answered.consents (h : Inv (s.session + 1) s) {y : Note}
    (hy : y.quiet) : ∀ d, Disconnected (y :: s.log) d →
      ∃ c k, Connected (y :: s.log) c k ∧ d < k.createdBy := by
  intro d hd
  have hstatus : row.status ≠ .disconnected := by
    rw [ha.pending]
    decide
  obtain ⟨c, k, hc, hdk⟩ := (h.row row ha.stored).renewed hstatus d (hd.of_quiet hy)
  exact ⟨c, k, hc.cons, hdk⟩

theorem Answered.clean
    (hresolved : (⟨token, some x, some row'⟩ : Refreshing).resolved = true) :
    ∀ c ∈ savedAfter (some row') s.calls, c.token = token → c.resolved = true := by
  obtain ⟨older, hcalls, holder⟩ := ha.calls
  rw [hcalls]
  intro c hc htoken
  rcases mem_cons.mp hc with rfl | hc
  · exact hresolved
  · exact holder c hc htoken

theorem Answered.resolve (h : Inv (s.session + 1) s)
    (hrefresh : row'.refreshCiphertext = row.refreshCiphertext)
    (haccess : row'.accessCiphertext = row.accessCiphertext)
    (hexpires : row'.accessExpiresAt = row.accessExpiresAt)
    (hstatus : row'.status ≠ .disconnected)
    (hresolved : row'.status = .active →
      (⟨token, some x, some row'⟩ : Refreshing).resolved = true) :
    Inv (s.session + 1) (saved s ⟨s.durable, none, none⟩ row') := by
  refine h.saved hstatus ?_
  rw [ha.calling, if_pos rfl]
  have hquiet : (savingNote s row').quiet := hstatus
  have hcons : RowOk s.calls s.grants (savingNote s row' :: s.log) row :=
    (h.row row ha.stored).cons hquiet fun _ _ _ => rfl
  refine ⟨fun r hr => hcons.refresh r (hrefresh ▸ hr), fun t ht => ?_, fun hactive r hr => ?_,
    fun hnone t ht => hcons.unissued (hexpires ▸ hnone) t (haccess ▸ ht),
    fun _ => ha.consents h hquiet⟩
  · rw [hexpires]
    exact hcons.access t (haccess ▸ ht)
  · rw [hrefresh, ha.refresh] at hr
    cases hr
    exact ha.clean (hresolved hactive)

theorem safe_refreshFailure {f : ProviderFailure}
    (h : Inv (s.session + 1) s) (hf : f.kind.status = .active → x = .error f) :
    VaultSafe user provider (s.session + 1) TokenPost (refreshFailure row f) s := by
  refine safe_now h fun clock => ?_
  refine safe_save_commit tolerant_tokenPost h ha.tx ⟨ha.resolve h rfl rfl rfl ?_ ?_, trivial⟩
  · dsimp only
    cases f.kind <;> decide
  · intro hactive
    rw [hf hactive]
    cases f with
    | provider kind =>
      cases kind with
      | revoked | unknownOutcome => cases hactive
      | misconfigured => rfl
      | temporary => rfl
    | context | other => cases hactive

end

def refreshedRow (row : Connection) (g : Grant) (required : List String)
    (refreshedAt updatedAt : ℤ) : Connection :=
  { applyGrant row g with
    status := .active
    lastRefreshError := ""
    lastRefreshAt := some refreshedAt
    updatedAt := some updatedAt
    accessCiphertext :=
      if (applyGrant row g).accessExpiresAt = none ∧ issuable (applyGrant row g) required then none
      else (applyGrant row g).accessCiphertext }

theorem sealed_eq_some {secret t : Secret} (h : sealed secret = some t) : secret = t := by
  simp only [sealed] at h
  split_ifs at h
  exact Option.some.inj h

variable {g : Grant}

theorem refreshedRow_access {refreshedAt updatedAt : ℤ} {t : Secret}
    (h : (refreshedRow row g required refreshedAt updatedAt).accessCiphertext = some t) :
    g.access = t := by
  simp only [refreshedRow] at h
  split_ifs at h
  exact sealed_eq_some h

theorem Answered.rowOk {refreshedAt updatedAt : ℤ} (ha : Answered s row token (.ok g))
    (h : Inv (s.session + 1) s) (hvalid : validGrant g = true) (hsame : sameIdentity row g = true) :
    RowOk (savedAfter (some (refreshedRow row g required refreshedAt updatedAt)) s.calls) s.grants
      (savingNote s (refreshedRow row g required refreshedAt updatedAt) :: s.log)
      (refreshedRow row g required refreshedAt updatedAt) := by
  obtain ⟨hg, hcalls, hissue⟩ := ha.grant g rfl
  -- the refresh token is the one of the grant, or the old one
  have hrefresh : ∀ r, (refreshedRow row g required refreshedAt updatedAt).refreshCiphertext =
      some r → g.refresh = r ∨ g.refreshToken = "" ∧ token = r := by
    intro r hr
    simp only [refreshedRow, applyGrant] at hr
    split_ifs at hr with hnew
    · exact .inl (sealed_eq_some hr)
    · exact .inr ⟨not_not.mp hnew, Option.some.inj (ha.refresh.symm.trans hr)⟩
  refine ⟨fun r hr => ?_, fun t ht => ?_, fun _ r hr => ?_, fun _ t ht e hmem => ?_, fun _ => ?_⟩
  · rcases hrefresh r hr with rfl | ⟨-, rfl⟩
    · exact mem_map_of_mem hg
    · exact (h.row row ha.stored).refresh token ha.refresh
  · exact ⟨g, hg, refreshedRow_access ht, rfl⟩
  · rcases hrefresh r hr with rfl | ⟨hempty, rfl⟩
    · -- no call was made with a token of the new grant
      intro c hc htoken
      obtain ⟨c', hc', htoken'⟩ := token_savedAfter hc
      exact absurd (congrArg Secret.grant (htoken'.trans htoken)) (hcalls c' hc')
    · refine ha.clean ?_
      simp only [Refreshing.resolved, hvalid, hempty, decide_true, Bool.and_true, Bool.true_and]
      exact hsame
  · obtain rfl := refreshedRow_access ht
    rcases mem_cons.mp hmem with hx | hmem
    · cases hx
    · exact hissue e hmem
  · exact ha.consents h nofun

theorem safe_installRefreshed (ha : Answered s row token (.ok g))
    (h : Inv (s.session + 1) s) (hvalid : validGrant g = true) (hsame : sameIdentity row g = true) :
    VaultSafe user provider (s.session + 1) TokenPost (installRefreshed row g required) s := by
  obtain ⟨hg, -, hissue⟩ := ha.grant g rfl
  refine safe_sealGrant tolerant_tokenPost h ?_
  refine safe_now h fun refreshedAt => safe_now h fun updatedAt => ?_
  have hsaved : Inv (s.session + 1)
      (saved s ⟨s.durable, none, none⟩ (refreshedRow row g required refreshedAt updatedAt)) := by
    refine h.saved nofun ?_
    rw [ha.calling, if_pos rfl]
    exact ha.rowOk h hvalid hsame
  refine safe_save_commit tolerant_tokenPost h ha.tx ?_
  refine safe_check tolerant_tokenPost hsaved fun hbearer => ?_
  refine safe_check tolerant_tokenPost hsaved fun hscopes => ⟨hsaved, ⟨?_, ?_⟩, ?_⟩
  · exact mem_map_of_mem hg
  · intro g' hg' he hexpires
    obtain rfl := h.access_injective hg' hg he
    refine ⟨fun e hmem => ?_, fun row' hr => ?_⟩
    · rcases mem_cons.mp hmem with hx | hmem
      · cases hx
      · exact hissue e hmem
    · -- the token was not stored, as this call returns it
      cases hr
      have hnone : (applyGrant row g').accessExpiresAt = none ∧
          issuable (applyGrant row g') required = true := by
        refine ⟨hexpires, ?_⟩
        rw [issuable, hbearer, hscopes]
        rfl
      intro haccess
      simp only [if_pos hnone] at haccess
      cases haccess
  · exact ha.renewed.cons (Nat.le_refl _)

theorem safe_refreshAnswered (ha : Answered s row token x) (h : Inv (s.session + 1) s) :
    VaultSafe user provider (s.session + 1) TokenPost (refreshAnswered row required x) s := by
  cases x with
  | error f => exact safe_refreshFailure ha h fun _ => rfl
  | ok g =>
    simp only [refreshAnswered]
    split_ifs with hgood
    · rw [Bool.and_eq_true] at hgood
      exact safe_installRefreshed ha h hgood.1 hgood.2
    · exact safe_refreshFailure ha h nofun

theorem safe_missingRefresh (hl : Loaded s row) (h : Inv (s.session + 1) s) :
    VaultSafe user provider (s.session + 1) TokenPost (missingRefresh row) s := by
  refine safe_now h fun clock => ?_
  refine safe_save_commit tolerant_tokenPost h hl.tx ⟨hl.saved h ?_ rfl (.inr rfl) rfl, trivial⟩
  exact nofun

theorem opened_eq {data : Option Secret} (h : (opened data).text ≠ "") :
    data = some (opened data) := by
  cases data with
  | none => exact absurd rfl h
  | some t => rfl

theorem safe_send {f : Except ProviderFailure Grant → VaultProg Secret}
    (htx : s.tx = some ⟨s.durable, none, none⟩) (h : Inv (s.session + 1) s)
    (hstored : s.durable.row = some row) (hpending : row.status = .refreshPending)
    (hrefresh : row.refreshCiphertext = some token)
    (hclean : ∀ c ∈ s.calls, c.token = token → c.resolved = true)
    (hrenewed : Renewed s.log s.session)
    (hf : ∀ x s', s'.session = s.session → Inv (s.session + 1) s' → Answered s' row token x →
      VaultSafe user provider (s.session + 1) TokenPost (f x) s') :
    VaultSafe user provider (s.session + 1) TokenPost
      (.op (.send token) fun _ => .op .receive f) s := by
  have hinactive : ∀ r, s.durable.row = some r → r.status ≠ .active := by
    intro r hr
    obtain rfl : row = r := Option.some.inj (hstored.symm.trans hr)
    rw [hpending]
    decide
  have hknown := (h.row row hstored).refresh token hrefresh
  have hsent := h.send hrenewed hinactive hknown
  have hconsents : ∀ d, Disconnected s.log d → ∃ c k, Connected s.log c k ∧ d < k.createdBy := by
    refine (h.row row hstored).renewed ?_
    rw [hpending]
    decide
  refine ⟨h, ⟨hclean, hconsents⟩, fun choice u s₁ hexec => ?_⟩
  cases choice with
  | works =>
    cases hexec
    refine ⟨hsent, trivial, fun choice x s₂ hexec => ?_⟩
    cases choice with
    | grant g =>
      simp only [exec, granted] at hexec
      split_ifs at hexec with hserial
      cases hexec
      refine hf _ _ rfl ((hsent.receive (.ok g) hinactive).grant hserial)
        ⟨htx, hstored, hpending, hrefresh, rfl, ⟨s.calls, rfl, hclean⟩,
          hrenewed.cons (Nat.le_refl _), fun g' hg' => ?_⟩
      cases hg'
      refine ⟨mem_cons_self, fun c hc hgrant => hserial ?_, fun e hmem => hserial ?_⟩
      · rcases mem_cons.mp hc with rfl | hc
        · exact hgrant ▸ hknown
        · exact hgrant ▸ h.calls c hc
      · rcases mem_cons.mp hmem with hx | hmem
        · cases hx
        · exact h.issued e g.access hmem
    | refuse f =>
      cases hexec
      refine hf _ _ rfl (hsent.receive (.error f) hinactive) ⟨htx, hstored, hpending, hrefresh, rfl,
        ⟨s.calls, rfl, hclean⟩, hrenewed.cons (Nat.le_refl _), fun g hg => by cases hg⟩
    | _ => cases hexec
  | _ => cases hexec

theorem safe_refreshStored (hl : Loaded s row) (h : Inv (s.session + 1) s) :
    VaultSafe user provider (s.session + 1) TokenPost (refreshStored row required) s := by
  refine safe_openText tolerant_tokenPost h ?_
  split_ifs with hempty
  · exact safe_missingRefresh hl h
  · refine safe_now h fun clock => safe_checkpoint tolerant_tokenPost h hl.tx ?_
    have htoken := opened_eq hempty
    let pending : Connection := { row with
      status := .refreshPending
      lastRefreshError := FailureKind.unknownOutcome.text
      updatedAt := some clock }
    -- the row is pending, and the call has not been made yet
    let next : Shared := { saved s ⟨s.durable, none, none⟩ pending with
      tx := some ⟨{ s.durable with row := some pending }, none, none⟩ }
    have hstored : next.durable.row = some pending := rfl
    refine safe_send rfl ?_ hstored rfl htoken ?_ ?_ ?_
    · exact hl.saved h nofun rfl (.inr rfl) rfl
    · have hcalls : next.calls = s.calls := by simp [next, saved, Shared.commit, hl.calling]
      rw [hcalls]
      exact (h.row row hl.stored).clean hl.active _ htoken
    · exact hl.renewed.cons (Nat.le_refl _)
    · intro x s' hsession h' ha
      have hn : s'.session + 1 = s.session + 1 := congrArg (· + 1) hsession
      exact hn ▸ safe_refreshAnswered ha (hn ▸ h')

theorem safe_tokenOf (hl : Loaded s row) (h : Inv (s.session + 1) s) :
    VaultSafe user provider (s.session + 1) TokenPost (tokenOf row required) s := by
  refine safe_now h fun clock => ?_
  split_ifs
  · refine safe_openText tolerant_tokenPost h ?_
    split_ifs with hempty
    · exact safe_issueStored hl h (opened_eq hempty)
    · exact safe_refreshStored hl h
  · exact safe_refreshStored hl h

theorem safe_checkRow {r : Registration} {f : Unit → VaultProg Secret} {n : ℕ} (h : Inv n s)
    (hf : row.status = .active → VaultSafe user provider n TokenPost (f ()) s) :
    VaultSafe user provider n TokenPost (checkRow user r required row >>= f) s := by
  rw [checkRow, Prog.bind_assoc]
  refine safe_check tolerant_tokenPost h fun _ => ?_
  rw [Prog.bind_assoc]
  refine safe_check tolerant_tokenPost h fun hactive => ?_
  rw [Prog.bind_assoc]
  refine safe_check tolerant_tokenPost h fun _ => ?_
  refine safe_check tolerant_tokenPost h fun _ => ?_
  exact hf (of_decide_eq_true hactive)

theorem safe_token {r : Registration} (h : Inv s.session s) (hcalling : s.calling = false) :
    VaultSafe user provider (s.session + 1) TokenPost (Vault.token user r required) s := by
  have h' : Inv (s.session + 1) s := h.mono (Nat.le_succ _)
  refine safe_beginTx tolerant_tokenPost h' ?_
  refine safe_load tolerant_tokenPost h' rfl ?_
  refine safe_found tolerant_tokenPost h' fun row hrow => ?_
  refine safe_checkRow h' fun hactive => ?_
  have hl : Loaded { s with tx := some ⟨s.durable, none, none⟩ } row := by
    refine ⟨rfl, hrow, hactive, hcalling, fun d hd _ => ?_⟩
    have hstatus : row.status ≠ .disconnected := by
      rw [hactive]
      decide
    obtain ⟨c, k, hc, hdk⟩ := (h.row row hrow).renewed hstatus d hd
    refine ⟨c, k, hc, ?_, hdk⟩
    obtain ⟨row', consumed, hmem, -⟩ := hc
    exact h.sessions _ hmem
  exact safe_tokenOf hl h'

end

end Scenery.Vault
