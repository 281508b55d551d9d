import Scenery.Vault.Calls

/-!
# What the vault keeps

The invariant of the store between any two operations, and how a commit, a call of the provider
and an issued token keep it.
-/

namespace Scenery.Vault

open List

def Refreshing.resolved (c : Refreshing) : Bool :=
  match c.answer, c.saved with
  | some (.ok g), some row => validGrant g && sameIdentity row g && g.refreshToken = ""
  | some (.error f), some _ => f = .provider .temporary || f = .provider .misconfigured
  | _, _ => false

def Disconnected (log : List Note) (d : ℕ) : Prop :=
  ∃ handshake row consumed, Note.commit d handshake (some row) consumed ∈ log ∧
    row.status = .disconnected

def Connected (log : List Note) (c : ℕ) (h : Handshake) : Prop :=
  ∃ row consumed, Note.commit c (some h) (some row) consumed ∈ log ∧ row.status = .active

/-- Every disconnect before the lease was followed by a consent: a `Connect` has committed whose
handshake was created after the disconnect took its lease. -/
def Renewed (log : List Note) (e : ℕ) : Prop :=
  ∀ d, Disconnected log d → d < e → ∃ c h, Connected log c h ∧ c < e ∧ d < h.createdBy

def serials (grants : List Grant) : List ℕ := grants.map Grant.serial

structure RowOk (calls : List Refreshing) (grants : List Grant) (log : List Note)
    (row : Connection) : Prop where
  refresh : ∀ r, row.refreshCiphertext = some r → r.grant ∈ serials grants
  access : ∀ t, row.accessCiphertext = some t →
    ∃ g ∈ grants, g.access = t ∧ g.expiresAt = row.accessExpiresAt
  clean : row.status = .active → ∀ r, row.refreshCiphertext = some r →
    ∀ c ∈ calls, c.token = r → c.resolved = true
  unissued : row.accessExpiresAt = none → ∀ t, row.accessCiphertext = some t →
    ∀ e, Note.issue e t ∉ log
  renewed : row.status ≠ .disconnected → ∀ d, Disconnected log d →
    ∃ c h, Connected log c h ∧ d < h.createdBy

def Note.issues (t : Secret) : Note → Bool
  | .issue _ t' => t' = t
  | _ => false

/-- The stored row, the handshake states and the log tell one history. -/
structure Sound (n : ℕ) (durable : Store) (calls : List Refreshing) (grants : List Grant)
    (log : List Note) : Prop where
  row : ∀ row, durable.row = some row → RowOk calls grants log row
  states : ∀ d, Disconnected log d → ∀ h ∈ durable.states, h.consumed = false → d < h.createdBy
  sessions : ∀ x ∈ log, x.session < n
  calls : ∀ c ∈ calls, c.token.grant ∈ serials grants
  issued : ∀ e t, Note.issue e t ∈ log → t.grant ∈ serials grants
  serials : (serials grants).Nodup
  once : ∀ g ∈ grants, g.expiresAt = none → log.countP (Note.issues g.access) ≤ 1
  refreshed : ∀ e r, Note.refresh e r ∈ log → Renewed log e
  consumed : ∀ e x saved h, Note.commit e x saved (some h) ∈ log →
    ∀ d, Disconnected log d → d < e → d < h.createdBy

def Inv (n : ℕ) (s : Shared) : Prop := Sound n s.durable s.calls s.grants s.log

/-! ## The log grows -/

section

variable {log : List Note} {x : Note} {d e n : ℕ} {calls : List Refreshing} {grants : List Grant}
  {row : Connection} {h : Handshake} {s : Shared} {t : Secret}

theorem Connected.cons (hc : Connected log e h) : Connected (x :: log) e h := by
  obtain ⟨row, consumed, hmem, hstatus⟩ := hc
  exact ⟨row, consumed, mem_cons_of_mem x hmem, hstatus⟩

theorem Disconnected.of_cons (hd : Disconnected (x :: log) d) (hx : x.session ≠ d) :
    Disconnected log d := by
  obtain ⟨handshake, row, consumed, hmem, hstatus⟩ := hd
  rcases mem_cons.mp hmem with rfl | hmem
  · exact absurd rfl hx
  · exact ⟨handshake, row, consumed, hmem, hstatus⟩

theorem Renewed.cons (h : Renewed log e) (hx : e ≤ x.session) : Renewed (x :: log) e := by
  intro d hd hde
  obtain ⟨c, k, hc, hce, hdk⟩ := h d (hd.of_cons (Nat.ne_of_gt (hde.trans_le hx))) hde
  exact ⟨c, k, hc.cons, hce, hdk⟩

def Note.quiet : Note → Prop
  | .commit _ _ (some row) _ => row.status ≠ .disconnected
  | _ => True

theorem Disconnected.of_quiet (hd : Disconnected (x :: log) d) (hx : x.quiet) :
    Disconnected log d := by
  obtain ⟨handshake, row, consumed, hmem, hstatus⟩ := hd
  rcases mem_cons.mp hmem with rfl | hmem
  · exact absurd hstatus hx
  · exact ⟨handshake, row, consumed, hmem, hstatus⟩

theorem RowOk.cons (hrow : RowOk calls grants log row) (hx : x.quiet)
    (hissue : ∀ t, row.accessExpiresAt = none → row.accessCiphertext = some t →
      x.issues t = false) : RowOk calls grants (x :: log) row where
  refresh := hrow.refresh
  access := hrow.access
  clean := hrow.clean
  unissued hexpires t ht e hmem := by
    rcases mem_cons.mp hmem with rfl | hmem
    · have hfalse := hissue t hexpires ht
      simp [Note.issues] at hfalse
    · exact hrow.unissued hexpires t ht e hmem
  renewed hstatus d hd := by
    obtain ⟨c, k, hc, hdk⟩ := hrow.renewed hstatus d (hd.of_quiet hx)
    exact ⟨c, k, hc.cons, hdk⟩

theorem RowOk.grant (hrow : RowOk calls grants log row) (g : Grant) :
    RowOk calls (g :: grants) log row where
  refresh r hr := mem_cons_of_mem _ (hrow.refresh r hr)
  access t ht := by
    obtain ⟨g', hg', hrest⟩ := hrow.access t ht
    exact ⟨g', mem_cons_of_mem _ hg', hrest⟩
  clean := hrow.clean
  unissued := hrow.unissued
  renewed := hrow.renewed

theorem RowOk.inactive {calls' : List Refreshing} (hrow : RowOk calls grants log row)
    (hstatus : row.status ≠ .active) : RowOk calls' grants log row :=
  ⟨hrow.refresh, hrow.access, fun hactive => absurd hactive hstatus, hrow.unissued, hrow.renewed⟩

theorem Inv.mono (h : Inv n s) (hn : n ≤ e) : Inv e s :=
  { h with sessions := fun x hx => (h.sessions x hx).trans_le hn }

theorem Inv.access_injective (h : Inv n s) {g g' : Grant} (hg : g ∈ s.grants) (hg' : g' ∈ s.grants)
    (he : g.access = g'.access) : g = g' :=
  inj_on_of_nodup_map h.serials hg hg' (congrArg Secret.grant he)

/-! ## Operations -/

variable {c : Refreshing}

theorem token_of_map {calls' : List Refreshing}
    (h : calls'.map Refreshing.token = calls.map Refreshing.token) (hc : c ∈ calls') :
    ∃ c' ∈ calls, c'.token = c.token :=
  mem_map.mp (h ▸ mem_map_of_mem hc)

theorem token_savedAfter {saved : Option Connection}
    (hc : c ∈ savedAfter saved calls) : ∃ c' ∈ calls, c'.token = c.token :=
  token_of_map (by cases calls <;> rfl) hc

theorem Inv.commit {tx : Tx} (h : Inv (s.session + 1) s)
    (hrow : ∀ row, tx.store.row = some row →
      RowOk (s.commit tx).calls s.grants (s.commit tx).log row)
    (hstates : ∀ d, Disconnected (s.commit tx).log d → ∀ k ∈ tx.store.states,
      k.consumed = false → d < k.createdBy)
    (hconsumed : ∀ k, tx.consumed = some k → ∀ d, Disconnected s.log d → d < k.createdBy) :
    Inv (s.session + 1) (s.commit tx) where
  row := hrow
  states := hstates
  sessions := forall_mem_cons.mpr ⟨Nat.lt_succ_self _, h.sessions⟩
  calls c hc := by
    simp only [Shared.commit] at hc
    split_ifs at hc
    · obtain ⟨c', hc', htoken⟩ := token_savedAfter hc
      exact htoken ▸ h.calls c' hc'
    · exact h.calls c hc
  issued e t hmem := h.issued e t ((mem_cons.mp hmem).resolve_left nofun)
  serials := h.serials
  once g hg hexpires := by
    simpa [Shared.commit, Note.issues] using h.once g hg hexpires
  refreshed e r hmem := by
    rcases mem_cons.mp hmem with hx | hmem
    · cases hx
    · exact (h.refreshed e r hmem).cons (Nat.le_of_lt_succ (h.sessions _ hmem))
  consumed e x saved k hmem d hd hde := by
    rcases mem_cons.mp hmem with hx | hmem
    · simp only [Note.commit.injEq] at hx
      obtain ⟨rfl, -, -, hk⟩ := hx
      exact hconsumed k hk.symm d (hd.of_cons (Nat.ne_of_gt hde))
    · have he : e ≤ s.session := Nat.le_of_lt_succ (h.sessions _ hmem)
      exact h.consumed e x saved k hmem d (hd.of_cons (Nat.ne_of_gt (hde.trans_le he))) hde

theorem Inv.commit_unchanged (h : Inv (s.session + 1) s) :
    Inv (s.session + 1) (s.commit ⟨s.durable, none, none⟩) := by
  refine h.commit (fun row hr => ?_) (fun d hd => ?_) fun k hk => by cases hk
  · have hcalls : (s.commit ⟨s.durable, none, none⟩).calls = s.calls := by simp [Shared.commit]
    rw [hcalls]
    have hquiet : (Note.commit s.session s.handshake none none).quiet := trivial
    exact (h.row row hr).cons hquiet fun _ _ _ => rfl
  · exact h.states d (hd.of_quiet trivial)

theorem Inv.send (h : Inv (s.session + 1) s) (hrenewed : Renewed s.log s.session)
    (hrow : ∀ row, s.durable.row = some row → row.status ≠ .active)
    (ht : t.grant ∈ serials s.grants) :
    Inv (s.session + 1) { s with
      calling := true
      calls := ⟨t, none, none⟩ :: s.calls
      log := .refresh s.session t :: s.log } where
  row row hr := ((h.row row hr).inactive (hrow row hr)).cons trivial fun _ _ _ => rfl
  states d hd := h.states d (hd.of_quiet trivial)
  sessions := forall_mem_cons.mpr ⟨Nat.lt_succ_self _, h.sessions⟩
  calls := forall_mem_cons.mpr ⟨ht, h.calls⟩
  issued e t hmem := h.issued e t ((mem_cons.mp hmem).resolve_left nofun)
  serials := h.serials
  once g hg hexpires := by simpa [Note.issues] using h.once g hg hexpires
  refreshed e r hmem := by
    rcases mem_cons.mp hmem with hx | hmem
    · cases hx
      exact hrenewed.cons (Nat.le_refl _)
    · exact (h.refreshed e r hmem).cons (Nat.le_of_lt_succ (h.sessions _ hmem))
  consumed e x saved k hmem d hd :=
    h.consumed e x saved k ((mem_cons.mp hmem).resolve_left nofun) d (hd.of_quiet trivial)

theorem token_answered {x : Except ProviderFailure Grant}
    (hc : c ∈ answered x calls) : ∃ c' ∈ calls, c'.token = c.token :=
  token_of_map (by cases calls <;> rfl) hc

theorem Inv.receive (h : Inv n s) (x : Except ProviderFailure Grant)
    (hrow : ∀ row, s.durable.row = some row → row.status ≠ .active) :
    Inv n { s with calls := answered x s.calls } :=
  { h with
    row := fun row hr => (h.row row hr).inactive (hrow row hr)
    calls := fun c hc => by
      obtain ⟨c', hc', htoken⟩ := token_answered hc
      exact htoken ▸ h.calls c' hc' }

theorem countP_issues_eq_zero (h : ∀ e, Note.issue e t ∉ log) : log.countP (Note.issues t) = 0 := by
  refine countP_eq_zero.mpr fun x hx hissues => ?_
  cases x with
  | commit | refresh => cases hissues
  | issue e t' =>
    simp only [Note.issues, decide_eq_true_eq] at hissues
    exact h e (hissues ▸ hx)

theorem Inv.grant (h : Inv n s) {g : Grant} (hg : g.serial ∉ serials s.grants) :
    Inv n { s with grants := g :: s.grants } where
  row row hr := (h.row row hr).grant g
  states := h.states
  sessions := h.sessions
  calls c hc := mem_cons_of_mem _ (h.calls c hc)
  issued e t hmem := mem_cons_of_mem _ (h.issued e t hmem)
  serials := nodup_cons.mpr ⟨hg, h.serials⟩
  once g' hg' hexpires := by
    rcases mem_cons.mp hg' with rfl | hg'
    · -- a token of a new grant was never issued
      have hzero := countP_issues_eq_zero fun e hmem => hg (h.issued e g'.access hmem)
      exact hzero.trans_le (Nat.zero_le 1)
    · exact h.once g' hg' hexpires
  refreshed := h.refreshed
  consumed := h.consumed

/-- The token can be issued: it is of a grant, and if its end is not known, it was not issued
and is not in the committed row any more. -/
structure Issuable (s : Shared) (t : Secret) : Prop where
  known : t.grant ∈ serials s.grants
  fresh : ∀ g ∈ s.grants, g.access = t → g.expiresAt = none → (∀ e, Note.issue e t ∉ s.log) ∧
    ∀ row, s.durable.row = some row → row.accessCiphertext ≠ some t

theorem Inv.issue (h : Inv n s) (ht : Issuable s t) (he : e < n) : Inv n (s.leave e (some t)) where
  row row hr := by
    refine (h.row row hr).cons trivial fun t' hexpires ht' => ?_
    obtain ⟨g, hg, hgt, hgexpires⟩ := (h.row row hr).access t' ht'
    simp only [Note.issues, decide_eq_false_iff_not]
    rintro rfl
    exact (ht.fresh g hg hgt (hgexpires.trans hexpires)).2 row hr ht'
  states d hd := h.states d (hd.of_quiet trivial)
  sessions := forall_mem_cons.mpr ⟨he, h.sessions⟩
  calls := h.calls
  issued e' t' hmem := by
    rcases mem_cons.mp hmem with hx | hmem
    · cases hx
      exact ht.known
    · exact h.issued e' t' hmem
  serials := h.serials
  once g hg hexpires := by
    by_cases hgt : g.access = t
    · have hzero := countP_issues_eq_zero (ht.fresh g hg hgt hexpires).1
      simp [Shared.leave, Note.issues, hgt, hzero]
    · simpa [Shared.leave, Note.issues, Ne.symm hgt] using h.once g hg hexpires
  refreshed e' r hmem := by
    rcases mem_cons.mp hmem with hx | hmem
    · cases hx
    · intro d hd hde
      obtain ⟨c, k, hc, hrest⟩ := h.refreshed e' r hmem d (hd.of_quiet trivial) hde
      exact ⟨c, k, hc.cons, hrest⟩
  consumed e' x saved k hmem d hd :=
    h.consumed e' x saved k ((mem_cons.mp hmem).resolve_left nofun) d (hd.of_quiet trivial)

end

end Scenery.Vault
