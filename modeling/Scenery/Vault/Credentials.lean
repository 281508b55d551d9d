import Scenery.Vault.LifecycleBody

/-!
# Credentials of the vault

What follows for every run of any number of processes that connect, use and disconnect one
account of a user: a refresh token that may be consumed is not sent again, a disconnect is final
until there is a new consent, and a token with an unknown end is returned once.
-/

namespace Scenery.Vault

open List

section

variable {user provider : String} {s s' : Shared}

theorem exec_log {o : Op} {choice : Choice} {x : Reply o}
    (h : exec user provider o choice s = some (x, s')) : s'.session = s.session ∧
      (s'.log = s.log ∨ ∃ y : Note, y.session = s.session ∧ s'.log = y :: s.log) := by
  -- statements change the transaction only
  have hstatement : ∀ {α : Type} {effect : Tx → Except StoreError α × Tx} {x : Except StoreError α},
      statement choice s effect = some (x, s') → s'.session = s.session ∧ s'.log = s.log := by
    intro α effect x h
    rcases statement_eq_some h with ⟨e, rfl, rfl⟩ | ⟨t, -, rfl, rfl⟩
    · exact ⟨rfl, rfl⟩
    · exact ⟨rfl, rfl⟩
  have hgranted : ∀ {α : Type} {g : Grant} {y : α × Shared} {x : α},
      granted g s y = some (x, s') → s'.session = y.2.session ∧ s'.log = y.2.log := by
    intro α g y x h
    simp only [granted] at h
    split_ifs at h
    cases h
    exact ⟨rfl, rfl⟩
  cases o with
  | load | save | expireStates | createState => exact (hstatement h).imp id .inl
  | consumeState key =>
    by_cases hmissing : choice = .missing
    · subst hmissing
      cases h
      exact ⟨rfl, .inl rfl⟩
    · have h : consumption key choice s = some (x, s') := h
      rw [consumption, if_neg hmissing] at h
      exact (hstatement h).imp id .inl
  | commit =>
    cases choice with
    | works | unanswered =>
      obtain ⟨t, -, he⟩ := Option.map_eq_some_iff.mp h
      cases he
      exact ⟨rfl, .inr ⟨_, rfl, rfl⟩⟩
    | fails e =>
      cases h
      exact ⟨rfl, .inl rfl⟩
    | _ => cases h
  | exchange | receive =>
    cases choice with
    | grant g => exact (hgranted h).imp id .inl
    | refuse f =>
      cases h
      exact ⟨rfl, .inl rfl⟩
    | _ => cases h
  | send token =>
    cases choice with
    | works =>
      cases h
      exact ⟨rfl, .inr ⟨_, rfl, rfl⟩⟩
    | _ => cases h
  | _ => cases choice <;> first | (cases h; exact ⟨rfl, .inl rfl⟩) | cases h

def BodyPost (r : Except VaultError Answer) (s : Shared) : Prop :=
  ∀ t, tokenResult r = some t → Issuable s t ∧ Renewed s.log s.session

theorem tolerant_bodyPost {n : ℕ} : Tolerant n BodyPost := fun _ _ _ _ h => by cases h

theorem safe_answer {α : Type} {p : VaultProg α} {f : α → VaultProg Answer} {n : ℕ}
    (h : VaultSafe user provider n AnyPost p s)
    (hf : ∀ a s, Inv n s → VaultSafe user provider n BodyPost (f a) s) :
    VaultSafe user provider n BodyPost (p >>= f) s := by
  refine Prog.Safe.bind (R := fun _ _ => True) (Prog.Safe.mono h fun r s' hinv _ => ?_)
    fun a s' hinv _ => hf a s' hinv
  cases r with
  | ok a => trivial
  | error e => exact tolerant_bodyPost e s' hinv

theorem safe_body {c : Call} (h : Inv s.session s) (hcalling : s.calling = false) :
    VaultSafe user provider (s.session + 1) BodyPost (body user provider c) s := by
  have h' : Inv (s.session + 1) s := h.mono (Nat.le_succ _)
  cases c with simp only [body]
  | token registered scopes =>
    split
    · exact safe_fail tolerant_bodyPost h' _
    · refine Prog.Safe.bind (R := fun t s => Issuable s t ∧ Renewed s.log s.session)
        (Prog.Safe.mono (safe_token h hcalling) fun r s' hinv hr => ?_) fun t s' hinv ht => ?_
      · cases r with
        | ok t => exact hr
        | error e => exact tolerant_bodyPost e s' hinv
      · refine safe_ret hinv fun t' ht' => ?_
        cases ht'
        exact ht
  | callback registered key denied =>
    exact safe_answer (safe_callback h hcalling) fun _ _ hinv => ⟨hinv, nofun⟩
  | createState key scopes =>
    exact safe_answer (safe_createState_body h) fun _ _ hinv => ⟨hinv, nofun⟩
  | disconnect registered =>
    split
    · exact safe_fail tolerant_bodyPost h' _
    · exact safe_answer (safe_disconnect h) fun _ _ hinv => ⟨hinv, nofun⟩

def Leased (n : ℕ) (s : Shared) : Prop := s.session = n - 1

def Issued (e : ℕ) (r : Except VaultError Answer) (s : Shared) : Prop :=
  ∀ t, tokenResult r = some t → Note.issue e t ∈ s.log ∧ e ≤ s.session ∧ Renewed s.log e

variable {r : Except VaultError Answer} {e : ℕ}

theorem Issued.cons {y : Note} (h : Issued e r s) (hsession : s'.session = s.session)
    (hy : y.session = s.session) (hlog : s'.log = y :: s.log) : Issued e r s' := by
  intro t ht
  obtain ⟨hmem, hle, hrenewed⟩ := h t ht
  rw [hlog, hsession]
  exact ⟨mem_cons_of_mem _ hmem, hle, hrenewed.cons (hy ▸ hle)⟩

theorem Issued.leave {e' : ℕ} {token : Option Secret}
    (h : Issued e r s) : Issued e r (s.leave e' token) := by
  cases token with
  | none => exact h
  | some t' =>
    intro t ht
    obtain ⟨hmem, hle, hrenewed⟩ := h t ht
    refine ⟨mem_cons_of_mem _ hmem, hle, fun d hd hde => ?_⟩
    obtain ⟨c, k, hc, hrest⟩ := hrenewed d (hd.of_quiet trivial) hde
    exact ⟨c, k, hc.cons, hrest⟩

theorem leave_post (h : Inv (e + 1) s) (hleased : Leased (e + 1) s) (hpost : BodyPost r s) :
    (Inv (e + 1) (s.leave e (tokenResult r)) ∧ Leased (e + 1) (s.leave e (tokenResult r))) ∧
      Issued e r (s.leave e (tokenResult r)) := by
  cases hr : tokenResult r with
  | none =>
    refine ⟨⟨h, hleased⟩, fun t ht => ?_⟩
    rw [hr] at ht
    cases ht
  | some t =>
    obtain ⟨hissuable, hrenewed⟩ := hpost t hr
    have he : s.session = e := hleased
    rw [he] at hrenewed
    refine ⟨⟨h.issue hissuable (Nat.lt_succ_self e), hleased⟩, fun t' ht' => ?_⟩
    obtain rfl : t = t' := Option.some.inj (hr.symm.trans ht')
    exact ⟨mem_cons_self, he.ge, hrenewed.cons (Nat.le_refl e)⟩

end

def rule (user provider : String) : (vault user provider).Rule where
  I n s := Inv n s ∧ Leased n s
  Pre := MayCall
  Out e _ r s := Issued e r s
  body e c s h := by
    let entered : Shared := s.enter e
    have hinv : Inv entered.session entered := h.1
    refine Prog.Safe.mono ((safe_body hinv rfl).and_stable (J := Leased (e + 1)) rfl ?_) ?_
    · intro o choice x s₁ s₂ hexec hleased
      exact (exec_log hexec).1.trans hleased
    · intro r s' hinv' hpost
      exact leave_post hinv'.1 hinv'.2 hpost.1
  crash n s h := h
  out_exec e c r o choice x s s' h hexec := by
    obtain ⟨hsession, hlog | ⟨y, hy, hlog⟩⟩ := exec_log hexec
    · intro t ht
      rw [hlog, hsession]
      exact h t ht
    · exact h.cons hsession hy hlog
  out_enter e c r e' c' s he h t ht := by
    obtain ⟨hmem, -, hrenewed⟩ := h t ht
    exact ⟨hmem, he.le, hrenewed⟩
  out_leave e c r e' c' r' s h := h.leave
  out_crash e c r s h := h

/-! ## Runs -/

abbrev System (ι : Type) : Type := Service.State ι Call Op Reply VaultError Answer Shared

def sending : Service.Phase Call Op Reply VaultError Answer → Option Secret
  | .inside _ _ (.op (.send r) _) => some r
  | _ => none

section

variable {user provider : String} {ι : Type} [DecidableEq ι] {s : System ι}

theorem empty_sound : (rule user provider).I 0 Shared.empty := by
  refine ⟨⟨?_, ?_, ?_, ?_, ?_, ?_, ?_, ?_, ?_⟩, rfl⟩
  · intro row h
    cases h
  · intro d h
    obtain ⟨_, _, _, h, -⟩ := h
    cases h
  · intro x h
    cases h
  · intro c h
    cases h
  · intro e t h
    cases h
  · exact nodup_nil
  · intro g h
    cases h
  · intro e r h
    cases h
  · intro e x saved h hmem
    cases hmem

theorem sound_of_run
    (hrun : Run (Service.step (vault user provider)) (fun _ _ => True) (Service.initial .empty) s) :
    (rule user provider).Sound s :=
  Service.Rule.sound _ empty_sound hrun

omit [DecidableEq ι] in
theorem mayCall_of_sending (h : (rule user provider).Sound s) {i : ι} {r : Secret}
    (hi : sending (s.phases i) = some r) : MayCall (.send r) s.shared := by
  cases hphase : s.phases i with rw [hphase] at hi
  | inside e c p =>
    cases p with
    | op o k =>
      cases o with
      | send r' =>
        cases hi
        exact (h.inside i e c _ hphase).2.1
      | _ => cases hi
    | _ => cases hi
  | _ =>
    cases hi

/-- A refresh token, as issued by a grant, is sent only if every earlier refresh with it has left
it valid, and that was saved. -/
theorem refresh_not_replayed
    (hrun : Run (Service.step (vault user provider)) (fun _ _ => True) (Service.initial .empty) s)
    {i : ι} {r : Secret} (hi : sending (s.phases i) = some r) :
    ∀ call ∈ s.shared.calls, call.token = r → call.resolved = true :=
  (mayCall_of_sending (sound_of_run hrun) hi).1

/-- After the checkpoint of a disconnect: a refresh is sent only after a `Connect` whose handshake
is younger than the lease of the disconnect; a `Token` call that takes its lease after the
disconnect returns a token only after such a `Connect`; and older handshakes are consumed, and
were consumed under an earlier lease. -/
theorem disconnect_final
    (hrun : Run (Service.step (vault user provider)) (fun _ _ => True) (Service.initial .empty) s)
    {d : ℕ} (hd : Disconnected s.shared.log d) :
    (∀ i r, sending (s.phases i) = some r →
      ∃ c h, Connected s.shared.log c h ∧ d < h.createdBy) ∧
    (∀ a ∈ s.returned, ∀ t, tokenResult a.result = some t → d < a.session →
      ∃ c h, Connected s.shared.log c h ∧ c < a.session ∧ d < h.createdBy) ∧
    (∀ h ∈ s.shared.durable.states, h.consumed = false → d < h.createdBy) ∧
    ∀ e x saved h, Note.commit e x saved (some h) ∈ s.shared.log → d < e → d < h.createdBy := by
  have hsound := sound_of_run hrun
  obtain ⟨hinv, -⟩ := hsound.shared
  refine ⟨fun i r hi => ?_, fun a ha t ht hda => ?_, hinv.states d hd, ?_⟩
  · exact (mayCall_of_sending hsound hi).2 d hd
  · obtain ⟨-, hissued, -⟩ := hsound.returned a ha
    exact (hissued t ht).2.2 d hd hda
  · exact fun e x saved h hmem => hinv.consumed e x saved h hmem d hd

/-- The access token of a grant with an unknown end is returned by at most one call. -/
theorem unknown_expiry_issued_once
    (hrun : Run (Service.step (vault user provider)) (fun _ _ => True) (Service.initial .empty) s)
    {g : Grant} (hg : g ∈ s.shared.grants) (hexpires : g.expiresAt = none) :
    (s.returned.countP fun a => tokenResult a.result = some g.access) ≤ 1 := by
  have hsound := sound_of_run hrun
  obtain ⟨hinv, -⟩ := hsound.shared
  let issuing := s.returned.filter fun a => tokenResult a.result = some g.access
  -- every such call has its own entry in the log
  have hnodup : (issuing.map fun a => Note.issue a.session g.access).Nodup := by
    have hsessions : (issuing.map Service.Answer.session).Nodup :=
      hsound.nodup.sublist (filter_sublist.map _)
    have hmap : (issuing.map fun a => Note.issue a.session g.access) =
        (issuing.map Service.Answer.session).map fun e => Note.issue e g.access := by
      rw [map_map]
      rfl
    rw [hmap]
    exact hsessions.map fun e e' he => by
      cases he
      rfl
  have hsubset : (issuing.map fun a => Note.issue a.session g.access) ⊆
      s.shared.log.filter (Note.issues g.access) := by
    intro x hx
    obtain ⟨a, ha, rfl⟩ := mem_map.mp hx
    obtain ⟨ha, ht⟩ := mem_filter.mp ha
    obtain ⟨-, hissued, -⟩ := hsound.returned a ha
    exact mem_filter.mpr ⟨(hissued _ (of_decide_eq_true ht)).1, decide_eq_true rfl⟩
  calc (s.returned.countP fun a => tokenResult a.result = some g.access)
      = (issuing.map fun a => Note.issue a.session g.access).length := by
        rw [length_map, countP_eq_length_filter]
    _ ≤ (s.shared.log.filter (Note.issues g.access)).length :=
        (subperm_of_subset hnodup hsubset).length_le
    _ = s.shared.log.countP (Note.issues g.access) := countP_eq_length_filter.symm
    _ ≤ 1 := hinv.once g hg hexpires

end

/-! ## Histories of an account -/

namespace History

def registration : Registration := ⟨"mail", "https://issuer", "box", ["read"]⟩

def key (name : String) : StateKey :=
  ⟨name, "browser", "https://issuer", "box", "client", "https://app/callback"⟩

def grant (serial : ℕ) (expiresAt : Option ℤ) : Grant :=
  ⟨serial, "access", "refresh", "Bearer", expiresAt, ["read"], true, "https://issuer", "ada",
    "ada@example.com", "box"⟩

def start (i : ℕ) (c : Call) (choices : List Choice) : List (Service.Event ℕ Call Choice) :=
  .call i c :: .enter i :: choices.map (.act i)

def whole (c : Call) (choices : List Choice) : List (Service.Event ℕ Call Choice) :=
  start 0 c choices ++ [.leave 0, .answer 0]

def tokenCall : Call := .token (some registration) ["read"]

def connect (name : String) (g : Grant) : List (Service.Event ℕ Call Choice) :=
  whole (.createState (key name) ["read"]) [.works, .works, .works] ++
    whole (.callback (some registration) (key name) false)
      [.works, .works, .works, .works, .grant g, .works, .works, .works, .time 0, .time 0, .time 0,
        .works, .works]

def intent : List Choice :=
  [.works, .works, .time 0, .works, .time 0, .works, .works, .works, .works]

def refused (f : ProviderFailure) : List (Service.Event ℕ Call Choice) :=
  whole tokenCall (intent ++ [.works, .refuse f, .time 0, .works, .works])

def stored : List Choice := [.works, .works, .time 0, .works, .works, .works]

def stop : List Choice :=
  [.works, .works, .works, .works, .time 0, .time 0, .works, .works]

def revoke : List Choice := [.works, .works, .revoked .succeeded, .works, .works]

def disconnectCall : Call := .disconnect (some registration)

end History

theorem refresh_not_replayed_temporary :
    ∃ s : System ℕ, Run (Service.step (vault "ada" "mail")) (fun _ _ => True)
        (Service.initial .empty) s ∧
      ∃ r, sending (s.phases 0) = some r ∧ ∃ call ∈ s.shared.calls, call.token = r ∧
        call.resolved = true :=
  Run.exists_of_decide (P := fun s => sending (s.phases 0) = some ⟨"refresh", 0⟩ ∧
    ∃ call ∈ s.shared.calls, call.token = ⟨"refresh", 0⟩)
    (History.connect "first" (History.grant 0 (some 0)) ++
      History.refused (.provider .temporary) ++
      History.start 0 History.tokenCall History.intent) (by decide +kernel)
    fun _ hrun ⟨hsending, call, hcall, htoken⟩ => ⟨_, hsending, call, hcall, htoken,
      refresh_not_replayed hrun hsending call hcall htoken⟩

/-- By its text alone a token can be sent again: the outcome of a refresh was not known, and then
the provider has granted a refresh token with the same text. -/
theorem refresh_text_replayed :
    ∃ s : System ℕ, Run (Service.step (vault "ada" "mail")) (fun _ _ => True)
        (Service.initial .empty) s ∧
      ∃ r, sending (s.phases 0) = some r ∧ ∃ call ∈ s.shared.calls, call.token.text = r.text ∧
        call.resolved = false :=
  Run.exists_of_decide (P := fun s => sending (s.phases 0) = some ⟨"refresh", 1⟩ ∧
    ∃ call ∈ s.shared.calls, call.token.text = "refresh" ∧ call.resolved = false)
    (History.connect "first" (History.grant 0 (some 0)) ++ History.refused .other ++
      History.connect "second" (History.grant 1 (some 0)) ++
      History.start 0 History.tokenCall History.intent) (by decide +kernel)
    fun _ _ hs => ⟨_, hs⟩

def Note.disconnects (d : ℕ) : Note → Bool
  | .commit e _ (some row) _ => e = d && row.status = .disconnected
  | _ => false

theorem disconnected_of_any {log : List Note} {d : ℕ} (h : log.any (Note.disconnects d) = true) :
    Disconnected log d := by
  obtain ⟨x, hx, hd⟩ := any_eq_true.mp h
  cases x with
  | commit e handshake saved consumed =>
    cases saved with
    | none => cases hd
    | some row =>
      simp only [Note.disconnects, Bool.and_eq_true, decide_eq_true_eq] at hd
      exact ⟨handshake, row, consumed, hd.1 ▸ hx, hd.2⟩
  | _ => cases hd

def Note.consents (d : ℕ) : Note → Bool
  | .commit _ (some h) (some row) _ => row.status = .active && d < h.createdBy
  | _ => false

theorem not_connected_of_any {log : List Note} {d : ℕ} (h : log.any (Note.consents d) = false) :
    ∀ c k, Connected log c k → ¬ d < k.createdBy := by
  rintro c k ⟨row, consumed, hmem, hstatus⟩ hdk
  rw [any_eq_false] at h
  exact h _ hmem (by simp [Note.consents, hstatus, hdk])

theorem disconnect_final_reconnect :
    ∃ s : System ℕ, Run (Service.step (vault "ada" "mail")) (fun _ _ => True)
        (Service.initial .empty) s ∧ Disconnected s.shared.log 2 ∧
      ∃ a ∈ s.returned, tokenResult a.result ≠ none ∧
        ∃ c h, Connected s.shared.log c h ∧ c < a.session ∧ 2 < h.createdBy := by
  refine Run.exists_of_decide (P := fun s => s.shared.log.any (Note.disconnects 2) = true ∧
    ∃ a ∈ s.returned, tokenResult a.result = some ⟨"access", 1⟩ ∧ 2 < a.session)
    (History.connect "first" (History.grant 0 none) ++
      History.whole History.disconnectCall (History.stop ++ History.revoke) ++
      History.connect "second" (History.grant 1 none) ++
      History.whole History.tokenCall History.stored) (by decide +kernel)
    fun s hrun ⟨hlog, a, ha, htoken, hlater⟩ => ?_
  have hd := disconnected_of_any hlog
  refine ⟨hd, a, ha, fun hnone => ?_, (disconnect_final hrun hd).2.1 a ha _ htoken hlater⟩
  rw [hnone] at htoken
  cases htoken

/-- A call that has given its lease back before the disconnect can return its token after the
checkpoint. -/
theorem token_returned_after_disconnect :
    ∃ s : System ℕ, Run (Service.step (vault "ada" "mail")) (fun _ _ => True)
        (Service.initial .empty) s ∧
      ∃ a ∈ s.returned, tokenResult a.result ≠ none ∧ Disconnected a.moment.log 3 ∧
        ∀ c h, Connected a.moment.log c h → ¬ 3 < h.createdBy := by
  refine Run.exists_of_decide (P := fun s => ∃ a ∈ s.returned,
    tokenResult a.result = some ⟨"access", 0⟩ ∧ a.moment.log.any (Note.disconnects 3) = true ∧
      a.moment.log.any (Note.consents 3) = false)
    (History.connect "first" (History.grant 0 none) ++
      History.start 0 History.tokenCall History.stored ++ [.leave 0] ++
      History.start 1 History.disconnectCall History.stop ++ [.answer 0]) (by decide +kernel)
    fun s _ ⟨a, ha, htoken, hlog, hquiet⟩ => ?_
  refine ⟨a, ha, fun hnone => ?_, disconnected_of_any hlog, not_connected_of_any hquiet⟩
  rw [hnone] at htoken
  cases htoken

theorem unknown_expiry_issued_once_stored :
    ∃ s : System ℕ, Run (Service.step (vault "ada" "mail")) (fun _ _ => True)
        (Service.initial .empty) s ∧
      ∃ g ∈ s.shared.grants, g.expiresAt = none ∧
        (s.returned.countP fun a => tokenResult a.result = some g.access) = 1 :=
  Run.exists_of_decide (P := fun s => History.grant 0 none ∈ s.shared.grants ∧
    0 < s.returned.countP fun a => tokenResult a.result = some (History.grant 0 none).access)
    (History.connect "first" (History.grant 0 none) ++
      History.whole History.tokenCall History.stored) (by decide +kernel)
    fun _ hrun hs =>
      ⟨_, hs.1, rfl, Nat.le_antisymm (unknown_expiry_issued_once hrun hs.1 rfl) hs.2⟩

end Scenery.Vault
