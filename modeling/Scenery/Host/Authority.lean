import Scenery.Host.Receipts
import Scenery.Runs

/-!
# Receipt authority across host incarnations

The hosts of a session run one after the other over the same directory.
-/

namespace Scenery.Host.Authority

open List

variable {β : Type}

structure State (β : Type) where
  journal : Journal β
  owners : DurableOwners
  running : Bool
  failed : Option DurableRecord
  deriving DecidableEq

def initial : State β := ⟨⟨none, false, 0, false⟩, .empty, false, none⟩

def State.Authorizes (s : State β) (principal executionID : String) : Prop :=
  ∃ owner, s.owners.load s.journal principal executionID = .ok (owner, true)

def receipt (principal executionID : String) (owner : DurableOwner) : DurableRecord :=
  ⟨principal, executionID, owner.process, owner.service, owner.taskName, false⟩

/-- `compact`, which `none` interrupts before the journal is replaced: the host is gone. -/
def compact (c : LineCodec DurableRecord β) (result : Option RewriteResult) (s : State β) :
    State β :=
  match result with
  | none => { s with running := false }
  | some result => { s with journal := s.journal.rewrite c s.owners.records result }

def start [DecidableEq β] (c : LineCodec DurableRecord β) (o : Journal.Replaying)
    (compaction : Option RewriteResult) (s : State β) : Option (State β) :=
  match s.journal.replay c.newline (fun t l => (c.decode l).bind t.replayRecord) .empty o with
  | none => none
  | some (t, j) =>
    let s := ⟨j, t, true, none⟩
    some (if durableOwnerLimit < j.lines then compact c compaction s else s)

def store (c : LineCodec DurableRecord β) (r : DurableRecord) (result : AppendResult)
    (compaction : Option RewriteResult) (s : State β) : State β × Option String :=
  match s.owners.next r with
  | none => (s, none)
  | some r =>
    match s.journal.append c r result with
    | (j, false) =>
      ({ s with journal := j, failed := if s.journal.poisoned then s.failed else some r },
        some DurableOwners.unavailable)
    | (j, true) =>
      let s := { s with journal := j, owners := s.owners.apply r }
      (if 2 * durableOwnerLimit ≤ j.lines then compact c compaction s else s, none)

/-- A host that is gone after some characters of a record. A line that was written whole is
committed. -/
def cut (c : LineCodec DurableRecord β) (r : DurableRecord) (n : ℕ) (s : State β) :
    Option (State β) :=
  if s.journal.poisoned then none
  else (s.owners.next r).map fun r =>
    { s with journal := s.journal.write ((c.line r).take n),
             owners := if (c.line r).length ≤ n then s.owners.apply r else s.owners,
             running := false }

inductive Event where
  | start (o : Journal.Replaying) (compaction : Option RewriteResult)
  | store (principal executionID : String) (owner : DurableOwner) (result : AppendResult)
    (compaction : Option RewriteResult)
  | cut (principal executionID : String) (owner : DurableOwner) (n : ℕ)
  | stop
  deriving DecidableEq

def step [DecidableEq β] (c : LineCodec DurableRecord β) (s : State β) : Event → Option (State β)
  | .start o compaction => if s.running then none else start c o compaction s
  | .store principal executionID owner result compaction =>
    if s.running then some (store c (receipt principal executionID owner) result compaction s).1
    else none
  | .cut principal executionID owner n =>
    if s.running then cut c (receipt principal executionID owner) n s else none
  | .stop => if s.running then some { s with running := false } else none

def recorded (c : LineCodec DurableRecord β) (s : State β) : Event → Option DurableRecord
  | .store principal executionID owner result _ =>
    if s.journal.poisoned then none
    else match result with
      | .committed => s.owners.next (receipt principal executionID owner)
      | .failed none _ => none
      | .failed (some n) _ =>
        (s.owners.next (receipt principal executionID owner)).filter
          fun r => (c.line r).length ≤ n
  | .cut principal executionID owner n =>
    (s.owners.next (receipt principal executionID owner)).filter fun r => (c.line r).length ≤ n
  | _ => none

/-! ## The invariant -/

def Unproved (s : State β) (rs : List DurableRecord) : Prop :=
  Journal.maxBytes < s.journal.data.length ∨
    rs.foldlM DurableOwners.replayRecord .empty = none ∨
    DurableOwners.after rs = s.owners ∨
    ∃ r, s.failed = some r ∧ DurableOwners.after rs = s.owners.apply r

/-- A journal that is not poisoned proves the table; a poisoned one is unusable or unproved. -/
structure Inv (c : LineCodec DurableRecord β) (s : State β) : Prop where
  proved : s.journal.poisoned = false → ∃ rs, s.journal.Holds c rs ∧
    DurableOwners.after rs = s.owners ∧ (s.running = true → s.journal.Exact c rs)
  spoiled : s.journal.poisoned = true → s.journal.marker = true ∨ s.journal.file = none ∨
    ∃ rs, s.journal.Holds c rs ∧ Unproved s rs

variable {c : LineCodec DurableRecord β} {s s' : State β}

theorem inv_initial : Inv c (initial : State β) where
  proved _ := ⟨[], (Journal.exact_nil rfl rfl).holds, rfl, fun _ => Journal.exact_nil rfl rfl⟩
  spoiled h := by cases h

variable {rs : List DurableRecord}

theorem inv_of_exact (hp : s.journal.poisoned = false) (h : s.journal.Exact c rs)
    (ht : DurableOwners.after rs = s.owners) : Inv c s where
  proved _ := ⟨rs, h.holds, ht, fun _ => h⟩
  spoiled hp' := by
    rw [hp] at hp'
    cases hp'

theorem inv_of_spoiled (h : s.journal.Spoiled c rs) (hrs : Unproved s rs) : Inv c s where
  proved hp := by
    rw [h.1] at hp
    cases hp
  spoiled _ := h.2.imp_right (Or.imp_right fun hholds => ⟨rs, hholds, hrs⟩)

theorem inv_of_marker (hm : s.journal.marker = true) (hp : s.journal.poisoned = true) : Inv c s where
  proved hp' := by
    rw [hp] at hp'
    cases hp'
  spoiled _ := .inl hm

theorem Inv.holds (h : Inv c s) : s.journal.marker = true ∨ ∃ rs, s.journal.Holds c rs := by
  cases hp : s.journal.poisoned with
  | false =>
    obtain ⟨rs, hrs, -⟩ := h.proved hp
    exact .inr ⟨rs, hrs⟩
  | true =>
    rcases h.spoiled hp with hm | hf | ⟨rs, hholds, -⟩
    · exact .inl hm
    · cases hm : s.journal.marker with
      | true => exact .inl rfl
      | false => exact .inr ⟨[], (Journal.exact_nil hm hf).holds⟩
    · exact .inr ⟨rs, hholds⟩

theorem inv_of_stopped (hp : s.journal.poisoned = false) (hrun : s.running = false)
    (h : s.journal.Holds c rs) (ht : DurableOwners.after rs = s.owners) : Inv c s where
  proved _ := ⟨rs, h, ht, fun hr => by rw [hrun] at hr; cases hr⟩
  spoiled hp' := by
    rw [hp] at hp'
    cases hp'

theorem Inv.stop (h : Inv c s) : Inv c { s with running := false } where
  proved hp := by
    obtain ⟨rs, hholds, ht, -⟩ := h.proved hp
    exact ⟨rs, hholds, ht, nofun⟩
  spoiled hp := h.spoiled hp

def Settled (c : LineCodec DurableRecord β) (s : State β) (rs : List DurableRecord) : Prop :=
  DurableOwners.after rs = s.owners ∧
    (s.journal.poisoned = false ∧
        (s.journal.Exact c rs ∨ s.journal.Exact c s.owners.records) ∨
      s.journal.Spoiled c rs)

variable {rs : List DurableRecord}

theorem Settled.inv (h : Settled c s rs) : Inv c s := by
  obtain ⟨ht, ⟨hp, hexact | hexact⟩ | hspoiled⟩ := h
  · exact inv_of_exact hp hexact ht
  · exact inv_of_exact hp hexact s.owners.after_records
  · exact inv_of_spoiled hspoiled (.inr (.inr (.inl ht)))

theorem settled_compact {long : Prop} [Decidable long] (hp : s.journal.poisoned = false)
    (h : s.journal.Exact c rs) (ht : DurableOwners.after rs = s.owners)
    (result : Option RewriteResult) : Settled c (if long then compact c result s else s) rs := by
  split
  · cases result with
    | none => exact ⟨ht, .inl ⟨hp, .inl h⟩⟩
    | some result =>
      refine ⟨ht, ?_⟩
      rcases h.rewrite hp s.owners.records result with ⟨hp', hexact⟩ | hspoiled
      · exact .inl ⟨hp', .inr hexact⟩
      · exact .inr hspoiled
  · exact ⟨ht, .inl ⟨hp, .inl h⟩⟩

theorem owners_compact (long : Prop) [Decidable long] (result : Option RewriteResult) :
    (if long then compact c result s else s).owners = s.owners := by
  split
  · cases result <;> rfl
  · rfl

theorem journal_compact (long : Prop) [Decidable long] (hp : s.journal.poisoned = true)
    (result : Option RewriteResult) :
    (if long then compact c result s else s).journal = s.journal := by
  split
  · cases result with
    | none => rfl
    | some result =>
      change s.journal.rewrite c s.owners.records result = s.journal
      unfold Journal.rewrite
      rw [if_pos hp]
  · rfl

theorem inv_of_poison {j : Journal β} {faults : PoisonFaults} (hj : j.Holds c rs)
    (hs : s.journal = j.poison faults)
    (hrs : Journal.maxBytes < j.data.length ∨
      rs.foldlM DurableOwners.replayRecord .empty = none ∨
      rs.foldlM DurableOwners.replayRecord .empty = some s.owners) : Inv c s where
  proved hp := by
    rw [hs] at hp
    cases hp
  spoiled _ := by
    rw [hs]
    refine (j.poison_cases faults).imp_right (Or.imp_right ?_)
    rintro ⟨hm, hf⟩
    refine ⟨rs, by rw [Journal.Holds, Journal.data, hm, hf]; exact hj, ?_⟩
    rcases hrs with hlong | hnone | hsome
    · refine .inl ?_
      rw [hs, Journal.data, hf]
      exact hlong
    · exact .inr (.inl hnone)
    · exact .inr (.inr (.inl (DurableOwners.foldlM_replayRecord hsome)))

/-! ## What a step does -/

variable {r : DurableRecord} {compaction : Option RewriteResult}

variable {result : AppendResult}

theorem store_cases {err : Option String} (hinv : Inv c s) (hrun : s.running = true)
    (h : store c r result compaction s = (s', err)) :
    s' = s ∧ (err = none ∨ s.journal.poisoned = true) ∨
      s.journal.poisoned = false ∧ ∃ rs r', s.journal.Exact c rs ∧ s.owners.next r = some r' ∧
        DurableOwners.after rs = s.owners ∧
        (result = .committed ∧ err = none ∧ Settled c s' (rs ++ [r']) ∨
          s'.owners = s.owners ∧ s'.failed = some r' ∧
            ((∃ n faults, result = .failed (some n) faults ∧ (c.line r').length ≤ n) ∧
                s'.journal.Spoiled c (rs ++ [r']) ∨
              s'.journal.Spoiled c rs)) := by
  unfold store at h
  split at h
  · cases h
    exact .inl ⟨rfl, .inl rfl⟩
  rename_i r' hnext
  cases hp : s.journal.poisoned with
  | true =>
    have happend : s.journal.append c r' result = (s.journal, false) := by
      unfold Journal.append
      rw [if_pos hp]
    rw [happend, hp] at h
    obtain ⟨rfl, -⟩ := Prod.mk.inj h
    exact .inl ⟨rfl, .inr rfl⟩
  | false =>
    obtain ⟨rs, -, ht, hexact⟩ := hinv.proved hp
    refine .inr ⟨rfl, rs, r', hexact hrun, hnext, ht, ?_⟩
    have hresult := (hexact hrun).append hp r' result
    rcases happend : s.journal.append c r' result with ⟨j, _ | _⟩
    · rw [happend] at h hresult
      rcases hresult with ⟨-, hok, -⟩ | ⟨-, hfiles⟩
      · cases hok
      · obtain ⟨rfl, -⟩ := Prod.mk.inj h
        exact .inr ⟨rfl, by rw [hp]; rfl, hfiles⟩
    · rw [happend] at h hresult
      rcases hresult with ⟨hres, -, hp', hexact'⟩ | ⟨hno, -⟩
      · cases h
        refine .inl ⟨hres, rfl, settled_compact hp' hexact' ?_ compaction⟩
        rw [DurableOwners.after_concat, ht]
      · cases hno

theorem cut_cases {n : ℕ} (hinv : Inv c s) (hrun : s.running = true) (h : cut c r n s = some s') :
    s'.journal.poisoned = false ∧ s'.running = false ∧
      ∃ rs r', s.journal.Exact c rs ∧ s.owners.next r = some r' ∧
        ((c.line r').length ≤ n ∧ s'.journal.Holds c (rs ++ [r']) ∧
            DurableOwners.after (rs ++ [r']) = s'.owners ∨
          s'.journal.Holds c rs ∧ DurableOwners.after rs = s'.owners) := by
  unfold cut at h
  split at h
  · cases h
  · rename_i hp
    obtain ⟨rs, -, ht, hexact⟩ := hinv.proved (Bool.eq_false_iff.mpr hp)
    obtain ⟨r', hnext, rfl⟩ := Option.map_eq_some_iff.mp h
    refine ⟨Bool.eq_false_iff.mpr hp, rfl, rs, r', hexact hrun, hnext, ?_⟩
    rcases (hexact hrun).write_take r' n with ⟨hn, hwhole⟩ | ⟨hn, hpart⟩
    · refine .inl ⟨hn, hwhole.holds, ?_⟩
      rw [DurableOwners.after_concat, ht]
      exact (if_pos hn).symm
    · exact .inr ⟨hpart, ht.trans (if_neg (Nat.not_le.mpr hn)).symm⟩

theorem inv_store {err : Option String} (hinv : Inv c s) (hrun : s.running = true)
    (h : store c r result compaction s = (s', err)) : Inv c s' := by
  rcases store_cases hinv hrun h with ⟨rfl, -⟩ | ⟨-, rs, r', -, -, ht, hcase⟩
  · exact hinv
  · rcases hcase with ⟨-, -, hsettled⟩ | ⟨howners, hfailed, ⟨-, hspoiled⟩ | hspoiled⟩
    · exact hsettled.inv
    · refine inv_of_spoiled hspoiled (.inr (.inr (.inr ⟨r', hfailed, ?_⟩)))
      rw [DurableOwners.after_concat, ht, howners]
    · exact inv_of_spoiled hspoiled (.inr (.inr (.inl (ht.trans howners.symm))))

theorem poisoned_of_store_error {err : String} (hinv : Inv c s) (hrun : s.running = true)
    (h : store c r result compaction s = (s', some err)) : s'.journal.poisoned = true := by
  rcases store_cases hinv hrun h with ⟨rfl, hnone | hp⟩ | ⟨-, rs, r', -, -, -, hcase⟩
  · cases hnone
  · exact hp
  · rcases hcase with ⟨-, hnone, -⟩ | ⟨-, -, ⟨-, hspoiled⟩ | hspoiled⟩
    · cases hnone
    · exact hspoiled.1
    · exact hspoiled.1

def Clear (c : LineCodec DurableRecord β) (key : String) (s : State β) : Prop :=
  ∀ rs, s.journal.Holds c rs → ∀ r ∈ rs, r.key ≠ key

theorem Clear.not_authorizes {principal executionID : String} (hinv : Inv c s)
    (h : Clear c (receiptKey principal executionID) s) : ¬ s.Authorizes principal executionID := by
  rintro ⟨owner, hload⟩
  unfold DurableOwners.load at hload
  split at hload
  · cases hload
  · rename_i hp
    split at hload
    · cases hload
    · rename_i x hx
      obtain ⟨rs, hrs, ht, -⟩ := hinv.proved (Bool.eq_false_iff.mpr hp)
      have hmem : x ∈ (DurableOwners.after rs).receipts := ht ▸ mem_of_find?_eq_some hx
      have hkey : x.key = receiptKey principal executionID := by
        simpa using find?_some hx
      obtain ⟨r, hr, hrkey⟩ := DurableOwners.key_after hmem
      exact h rs hrs r hr (hrkey.trans hkey)

theorem not_authorizes_of_poisoned (hp : s.journal.poisoned = true)
    (principal executionID : String) : ¬ s.Authorizes principal executionID := by
  rintro ⟨owner, hload⟩
  unfold DurableOwners.load at hload
  rw [if_pos hp] at hload
  cases hload

variable {key : String}

theorem Clear.append (h : Clear c key s) (hrs : s.journal.Holds c rs) (hr : r.key ≠ key) :
    ∀ r' ∈ rs ++ [r], r'.key ≠ key := by
  intro r' hr'
  rcases mem_append.mp hr' with hr' | hr'
  · exact h rs hrs r' hr'
  · rw [mem_singleton.mp hr']
    exact hr

/-! ## Every step -/

variable [DecidableEq β]

theorem start_cases {o : Journal.Replaying} (hinv : Inv c s)
    (h : start c o compaction s = some s') :
    s'.journal.marker = true ∧ s'.journal.poisoned = true ∨
      ∃ rs, s.journal.Holds c rs ∧
        (s'.journal.Spoiled c rs ∧ Inv c s' ∨
          s.journal.data.length ≤ Journal.maxBytes ∧
            rs.foldlM DurableOwners.replayRecord .empty = some s'.owners ∧ Settled c s' rs) := by
  unfold start at h
  split at h
  · cases h
  rename_i t j hreplay
  cases h
  rcases hinv.holds with hm | ⟨rs, hrs⟩
  · obtain ⟨-, hm', hp⟩ := Journal.replay_of_marker hm hreplay
    exact .inl (by rw [journal_compact _ hp]; exact ⟨hm', hp⟩)
  · refine .inr ⟨rs, hrs, ?_⟩
    rw [owners_compact]
    rcases Journal.replay_cases hrs hreplay with ⟨n, rfl, hwhy, -⟩ | ⟨hp, hlen, hfold, hexact⟩
    · have hholds : ({ s.journal with lines := n } : Journal β).Holds c rs := hrs
      refine .inl ⟨?_, inv_of_poison hholds (journal_compact _ rfl _) ?_⟩
      · rw [journal_compact _ rfl]
        exact hholds.poison o.faults
      · rw [owners_compact]
        exact hwhy
    · exact .inr ⟨hlen, hfold,
        settled_compact hp hexact (DurableOwners.foldlM_replayRecord hfold) compaction⟩

theorem Settled.keys (h : Settled c s rs) {rs' : List DurableRecord} (h' : s.journal.Holds c rs') :
    ∀ r' ∈ rs', ∃ r ∈ rs, r.key = r'.key := by
  intro r' hr'
  obtain ⟨ht, ⟨-, hexact | hexact⟩ | hspoiled⟩ := h
  · obtain rfl := h'.unique hexact.holds
    exact ⟨r', hr', rfl⟩
  · obtain rfl := h'.unique hexact.holds
    obtain ⟨x, hx, rfl⟩ := mem_map.mp hr'
    obtain ⟨r, hr, hkey⟩ := DurableOwners.key_after (ht ▸ hx)
    exact ⟨r, hr, hkey.trans (DurableOwners.key_record hx).symm⟩
  · rcases hspoiled.holds h' with rfl | rfl
    · exact absurd hr' not_mem_nil
    · exact ⟨r', hr', rfl⟩

variable {e : Event}

theorem inv_step (hinv : Inv c s) (h : step c s e = some s') : Inv c s' := by
  cases e with simp only [step] at h
  | start o compaction =>
    split at h
    · cases h
    · rcases start_cases hinv h with ⟨hm, hp⟩ | ⟨rs, -, ⟨-, hinv'⟩ | ⟨-, -, hsettled⟩⟩
      · exact inv_of_marker hm hp
      · exact hinv'
      · exact hsettled.inv
  | store principal executionID owner result compaction =>
    split at h
    · rename_i hrun
      cases h
      exact inv_store hinv hrun rfl
    · cases h
  | cut principal executionID owner n =>
    split at h
    · rename_i hrun
      obtain ⟨hp, hstop, rs, r', -, -, ⟨-, hholds, ht⟩ | ⟨hholds, ht⟩⟩ := cut_cases hinv hrun h
      · exact inv_of_stopped hp hstop hholds ht
      · exact inv_of_stopped hp hstop hholds ht
    · cases h
  | stop =>
    split at h
    · cases h
      exact hinv.stop
    · cases h

theorem inv_of_run {ok : State β → Event → Prop} (h : Run (step c) ok initial s) : Inv c s :=
  h.invariant inv_initial fun _ _ _ hinv _ => inv_step hinv

theorem Settled.clear (h : Settled c s rs) (hkey : ∀ r ∈ rs, r.key ≠ key) :
    Clear c key s := by
  intro rs' hrs' r' hr'
  obtain ⟨r, hr, hrkey⟩ := h.keys hrs' r' hr'
  exact hrkey ▸ hkey r hr

theorem clear_of_spoiled (h : s.journal.Spoiled c rs) (hkey : ∀ r ∈ rs, r.key ≠ key) :
    Clear c key s := by
  intro rs' hrs' r' hr'
  rcases h.holds hrs' with rfl | rfl
  · exact absurd hr' not_mem_nil
  · exact hkey r' hr'

theorem clear_of_holds (h : s.journal.Holds c rs) (hkey : ∀ r ∈ rs, r.key ≠ key) :
    Clear c key s := by
  intro rs' hrs'
  obtain rfl := hrs'.unique h
  exact hkey

theorem clear_of_files (h : s.journal.marker = true ∨ s.journal.file = none) :
    Clear c key s := by
  intro rs hrs
  rcases h with hm | hf
  · rw [hrs.1] at hm
    cases hm
  · obtain rfl := hrs.unique (Journal.exact_nil hrs.1 hf).holds
    exact fun r hr => absurd hr not_mem_nil

theorem clear_step (hinv : Inv c s) (hclear : Clear c key s)
    (hok : ∀ r, recorded c s e = some r → r.key ≠ key) (h : step c s e = some s') :
    Clear c key s' := by
  cases e with simp only [step] at h
  | start o compaction =>
    split at h
    · cases h
    · rcases start_cases hinv h with ⟨hm, -⟩ | ⟨rs, hrs, ⟨hspoiled, -⟩ | ⟨-, -, hsettled⟩⟩
      · exact clear_of_files (.inl hm)
      · exact clear_of_spoiled hspoiled (hclear rs hrs)
      · exact hsettled.clear (hclear rs hrs)
  | store principal executionID owner result compaction =>
    split at h
    · rename_i hrun
      rcases hstore : store c (receipt principal executionID owner) result compaction s
        with ⟨s₁, err⟩
      rw [hstore] at h
      cases h
      rcases store_cases hinv hrun hstore with ⟨rfl, -⟩ | ⟨hp, rs, r', hexact, hnext, -, hcase⟩
      · exact hclear
      · rcases hcase with ⟨rfl, -, hsettled⟩ | ⟨-, -, ⟨⟨n, faults, rfl, hn⟩, hspoiled⟩ | hspoiled⟩
        · refine hsettled.clear (hclear.append hexact.holds (hok r' ?_))
          simp [recorded, hp, hnext]
        · refine clear_of_spoiled hspoiled (hclear.append hexact.holds (hok r' ?_))
          simp [recorded, hp, hnext, hn]
        · exact clear_of_spoiled hspoiled (hclear rs hexact.holds)
    · cases h
  | cut principal executionID owner n =>
    split at h
    · rename_i hrun
      obtain ⟨-, -, rs, r', hexact, hnext, ⟨hn, hholds, -⟩ | ⟨hholds, -⟩⟩ := cut_cases hinv hrun h
      · refine clear_of_holds hholds (hclear.append hexact.holds (hok r' ?_))
        simp [recorded, hnext, hn]
      · exact clear_of_holds hholds (hclear rs hexact.holds)
    · cases h
  | stop =>
    split at h
    · cases h
      exact hclear
    · cases h

theorem poisoned_step (hp : s.journal.poisoned = true)
    (hok : ∀ o compaction, e ≠ .start o compaction) (h : step c s e = some s') :
    s'.journal.poisoned = true := by
  cases e with
  | start o compaction => exact absurd rfl (hok o compaction)
  | store principal executionID owner result compaction =>
    simp only [step] at h
    split at h
    · cases h
      unfold store
      split
      · exact hp
      · simp [Journal.append, hp]
    · cases h
  | cut principal executionID owner n =>
    simp only [step, cut] at h
    split at h
    · cases h
    · cases h
  | stop =>
    simp only [step] at h
    split at h
    · cases h
      exact hp
    · cases h

/-! ## The session -/

theorem start_owners {o : Journal.Replaying} (hinv : Inv c s)
    (h : start c o compaction s = some s') :
    s'.journal.poisoned = true ∨ s'.owners = s.owners ∨
      s.journal.poisoned = true ∧ s.journal.marker = false ∧
        (s.journal.file = none ∧ s'.owners = .empty ∨
          ∃ r, s.failed = some r ∧ s'.owners = s.owners.apply r) := by
  rcases start_cases hinv h with ⟨-, hp⟩ | ⟨rs, hrs, ⟨hspoiled, -⟩ | ⟨hlen, hfold, hsettled⟩⟩
  · exact .inl hp
  · exact .inl hspoiled.1
  refine .inr ?_
  cases hp : s.journal.poisoned with
  | false =>
    obtain ⟨rs', hrs', ht, -⟩ := hinv.proved hp
    obtain rfl := hrs'.unique hrs
    exact .inl (hsettled.1.symm.trans ht)
  | true =>
    rcases hinv.spoiled hp with hm | hf | ⟨rs', hrs', hwhy⟩
    · rw [hrs.1] at hm
      cases hm
    · -- the journal is gone: nothing is replayed
      obtain rfl := hrs.unique (Journal.exact_nil hrs.1 hf).holds
      exact .inr ⟨rfl, hrs.1, .inl ⟨hf, hsettled.1.symm⟩⟩
    · obtain rfl := hrs'.unique hrs
      rcases hwhy with hlong | hnone | ht | ⟨r, hfailed, ht⟩
      · exact absurd hlong (Nat.not_lt.mpr hlen)
      · rw [hnone] at hfold
        cases hfold
      · exact .inl (hsettled.1.symm.trans ht)
      · exact .inr ⟨rfl, hrs.1, .inr ⟨r, hfailed, hsettled.1.symm.trans ht⟩⟩

/-- Receipt authority fails closed, for every history of a session. A host that starts has the
table the last one had after its last committed record, or its journal is poisoned; only if the
last host had poisoned the journal without leaving a marker, the journal may be gone and the table
empty, or the record whose append failed may be in it. A `store` that failed authorizes nothing
while its host runs, and if it left a marker or no journal it authorizes nothing ever after. -/
theorem receipts_fail_closed (c : LineCodec DurableRecord β)
    (h : Run (step c) (fun _ _ => True) initial s) :
    (∀ o compaction s', step c s (.start o compaction) = some s' →
      s'.journal.poisoned = true ∧ (∀ principal executionID, ¬ s'.Authorizes principal executionID) ∨
        s'.owners = s.owners ∨
        s.journal.poisoned = true ∧ s.journal.marker = false ∧
          (s.journal.file = none ∧ s'.owners = .empty ∨
            ∃ r, s.failed = some r ∧ s'.owners = s.owners.apply r)) ∧
    ∀ principal executionID owner result compaction s' err, s.running = true →
      store c (receipt principal executionID owner) result compaction s = (s', some err) →
      (∀ t, Run (step c) (fun _ e => ∀ o compaction, e ≠ .start o compaction) s' t →
        ¬ t.Authorizes principal executionID) ∧
      (s'.journal.marker = true ∨ s'.journal.file = none →
        ∀ t, Run (step c)
            (fun s e => ∀ r, recorded c s e = some r → r.key ≠ receiptKey principal executionID)
            s' t →
          ¬ t.Authorizes principal executionID) := by
  have hinv := inv_of_run h
  refine ⟨fun o compaction s' hs => ?_, fun principal executionID owner result compaction s' err
    hrun hstore => ⟨fun t ht => ?_, fun hfiles t ht => ?_⟩⟩
  · simp only [step] at hs
    split at hs
    · cases hs
    · rcases start_owners hinv hs with hp | hrest
      · exact .inl ⟨hp, not_authorizes_of_poisoned hp⟩
      · exact .inr hrest
  · have hp := poisoned_of_store_error hinv hrun hstore
    exact not_authorizes_of_poisoned
      (ht.invariant hp fun _ _ _ => poisoned_step) _ _
  · obtain ⟨hinv', hclear⟩ := ht.invariant
      (P := fun t => Inv c t ∧ Clear c (receiptKey principal executionID) t)
      ⟨inv_store hinv hrun hstore, clear_of_files hfiles⟩
      fun _ _ _ h hok hs => ⟨inv_step h.1 hs, clear_step h.1 h.2 hok hs⟩
    exact hclear.not_authorizes hinv'

/-! ## A session whose journal is removed -/

namespace Sample

def codec : LineCodec DurableRecord (Option DurableRecord) := .symbols

def owner : DurableOwner := ⟨"house_house", "house", "process_scene", false⟩

def replaying : Journal.Replaying := ⟨true, true, ⟨false, false⟩⟩

def events : List Event :=
  [.start replaying (some .replaced),
    .store "principal-1" "execution-1" owner .committed (some .replaced),
    .store "principal-1" "execution-2" owner (.failed (some 1) ⟨true, false⟩) (some .replaced),
    .stop]

end Sample

open Sample

theorem receipts_fail_closed_removed :
    ∃ s, Run (step codec) (fun _ _ => True) initial s ∧ s.owners ≠ .empty ∧
      ∃ s', step codec s (.start replaying (some .replaced)) = some s' ∧
        (s'.journal.poisoned = true ∧
            (∀ principal executionID, ¬ s'.Authorizes principal executionID) ∨
          s'.owners = s.owners ∨
          s.journal.poisoned = true ∧ s.journal.marker = false ∧
            (s.journal.file = none ∧ s'.owners = .empty ∨
              ∃ r, s.failed = some r ∧ s'.owners = s.owners.apply r)) := by
  refine Run.exists_of_decide (P := fun s => s.owners ≠ .empty ∧
    (step codec s (.start replaying (some .replaced))).isSome) events (by decide +kernel)
    fun s hrun hs => ⟨hs.1, ?_⟩
  obtain ⟨s', hs'⟩ := Option.isSome_iff_exists.mp hs.2
  exact ⟨s', hs', (receipts_fail_closed codec hrun).1 _ _ s' hs'⟩

/-- The next host of that session has an empty table that is not poisoned, though the last had a
receipt. -/
theorem receipts_forgotten_unpoisoned :
    ∃ s s', Run (step codec) (fun _ _ => True) initial s ∧
      step codec s (.start replaying (some .replaced)) = some s' ∧
      s'.journal.poisoned = false ∧ s'.owners ≠ s.owners := by
  have hexec : (runAll (step codec) (fun _ _ => True) initial events).any
      (fun s => (step codec s (.start replaying (some .replaced))).any
        fun s' => !s'.journal.poisoned && decide (s'.owners ≠ s.owners)) = true := by
    decide +kernel
  obtain ⟨s, hrun, hs⟩ := Run.exists_of_runAll events hexec
  cases hstart : step codec s (.start replaying (some .replaced)) with
  | none => simp [hstart] at hs
  | some s' =>
    simp only [hstart, Option.any_some, Bool.and_eq_true, Bool.not_eq_true',
      decide_eq_true_eq] at hs
    exact ⟨s, s', hrun, hstart, hs⟩

end Scenery.Host.Authority
