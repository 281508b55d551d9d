import Scenery.Host.Authority
import Scenery.Host.RunScopes

/-!
# The report of a quiescing host

A host that is being replaced is asked to stop recording authority and to report its final state.
-/

namespace Scenery.Host

variable {β γ : Type}

/-! ## Results of writes that do not fail -/

def Written.sound : Written → Bool
  | .result (.failed _ _) => false
  | _ => true

def soundCompaction : Option RewriteResult → Bool
  | some (.failed _) => false
  | _ => true

def Session.Event.sound : Session.Event → Bool
  | .finish _ _ w compaction => w.sound && soundCompaction compaction
  | .observed _ _ w compaction => w.sound && soundCompaction compaction
  | .expire _ w => w.sound
  | _ => true

namespace Quiesce

structure Starting where
  conversation : String
  runID : String
  generation : ℕ
  deriving DecidableEq

structure Accepted where
  principal : String
  executionID : String
  owner : DurableOwner
  deriving DecidableEq

inductive Appended where
  | receipt (call : Accepted)
  | run (start : Starting)
  deriving DecidableEq

inductive Request where
  | flagged
  | read (receipts : Bool)
  deriving DecidableEq

def Request.isRead : Request → Bool
  | .flagged => false
  | .read _ => true

structure Report (β : Type) where
  available : Bool
  receipts : Journal β
  owners : DurableOwners
  runs : Table AssistantRun.key
  appended : List Appended

structure State (β γ : Type) where
  quiescing : Bool
  receipts : Authority.State β
  runs : Session γ
  starts : List Starting
  calls : List Accepted
  requests : List Request
  appended : List Appended
  reports : List (Report β)

def State.available (s : State β γ) : Bool :=
  !s.receipts.journal.poisoned && !s.runs.journal.poisoned

inductive Event where
  | start (a : Starting)
  | reserve (a : Starting) (roomWrite : Written) (compaction : Option RewriteResult) (w : Written)
  | call (a : Accepted)
  | store (a : Accepted) (result : AppendResult) (compaction : Option RewriteResult)
  | cut (a : Accepted) (n : ℕ)
  | quiesce
  | readReceipts
  | report (receipts : Bool)
  | runs (e : Session.Event)

def act (cfg : HostConfig) (cr : LineCodec DurableRecord β) (cs : LineCodec RunRecord γ)
    (s : State β γ) : Event → Option (State β γ)
  | .start a => if s.quiescing then some s else some { s with starts := a :: s.starts }
  | .reserve a roomWrite compaction w =>
    if a ∈ s.starts then
      (s.runs.act cfg cs
        (.reserve a.conversation a.runID a.generation roomWrite compaction w)).map fun runs =>
          { s with runs := runs, starts := s.starts.erase a, appended := .run a :: s.appended }
    else none
  | .call a =>
    if a.executionID = "" then none
    else if s.quiescing then some s
    else some { s with calls := a :: s.calls }
  | .store a result compaction =>
    if a ∈ s.calls then
      some { s with
        receipts := (Authority.store cr (Authority.receipt a.principal a.executionID a.owner) result
          compaction s.receipts).1
        calls := s.calls.erase a
        appended := .receipt a :: s.appended }
    else none
  | .cut a n =>
    if a ∈ s.calls then
      (Authority.cut cr (Authority.receipt a.principal a.executionID a.owner) n s.receipts).map
        fun receipts => { s with receipts := receipts, calls := s.calls.erase a,
                                 appended := .receipt a :: s.appended }
    else none
  | .quiesce => some { s with quiescing := true, requests := .flagged :: s.requests }
  | .readReceipts =>
    if .flagged ∈ s.requests then
      some { s with requests := .read (!s.receipts.journal.poisoned) :: s.requests.erase .flagged }
    else none
  | .report receipts =>
    if .read receipts ∈ s.requests then
      some { s with
        requests := s.requests.erase (.read receipts)
        reports := ⟨receipts && !s.runs.journal.poisoned, s.receipts.journal, s.receipts.owners,
          s.runs.scope.runs, s.appended⟩ :: s.reports }
    else none
  | .runs e =>
    match e with
    | .reserve _ _ _ _ _ _ => none
    | e => (s.runs.act cfg cs e).map fun runs => { s with runs := runs }

def step (cfg : HostConfig) (cr : LineCodec DurableRecord β) (cs : LineCodec RunRecord γ)
    (s : State β γ) (e : Event) : Option (State β γ) :=
  if s.receipts.running && s.runs.running then act cfg cr cs s e else none

/-- When an answer is computed, no call is between its read of the flag and its append; no append
of a receipt fails between the two reads of a request; and none of an end or an expiry of a run
fails after an answer. -/
def Undisturbed (s : State β γ) : Event → Prop
  | .report _ => s.calls = [] ∧ s.starts = []
  | .store _ result compaction =>
    s.requests.any Request.isRead = true → result = .committed ∧ soundCompaction compaction = true
  | .runs e => s.reports.isEmpty = false → e.sound = true
  | _ => True

instance (s : State β γ) (e : Event) : Decidable (Undisturbed s e) := by
  unfold Undisturbed
  split <;> infer_instance

structure Opened [DecidableEq β] [DecidableEq γ] (cfg : HostConfig)
    (cr : LineCodec DurableRecord β) (cs : LineCodec RunRecord γ) (s : State β γ) : Prop where
  receipts : Run (Authority.step cr) (fun _ _ => True) Authority.initial s.receipts
  runs : Run (Session.step cfg cs) (fun _ _ => True) Session.initial s.runs
  quiescing : s.quiescing = false
  starts : s.starts = []
  calls : s.calls = []
  requests : s.requests = []
  reports : s.reports = []

def Within (ks₀ ks : List KeptRun) : Prop :=
  ∀ k ∈ ks, ∃ k₀ ∈ ks₀, k₀.key = k.key ∧ k₀.number = k.number ∧ (k₀.revoked = true → k.revoked = true)

namespace Within

variable {ks₀ ks₁ ks₂ : List KeptRun}

theorem refl (ks : List KeptRun) : Within ks ks := fun k hk => ⟨k, hk, rfl, rfl, id⟩

theorem trans (h : Within ks₀ ks₁) (h' : Within ks₁ ks₂) : Within ks₀ ks₂ := by
  intro k hk
  obtain ⟨k₁, hk₁, hkey, hnumber, hrevoked⟩ := h' k hk
  obtain ⟨k₀, hk₀, hkey₀, hnumber₀, hrevoked₀⟩ := h k₁ hk₁
  exact ⟨k₀, hk₀, hkey₀.trans hkey, hnumber₀.trans hnumber, fun hr => hrevoked (hrevoked₀ hr)⟩

theorem keep (ks : List KeptRun) {r : RunRecord} (h : r.ended = true ∨ r.revoked = true) :
    Within ks (keep ks r) := by
  intro k hk
  unfold Host.keep at hk
  split_ifs at hk with hended hrevoked
  · exact ⟨k, List.mem_of_mem_filter hk, rfl, rfl, id⟩
  · obtain ⟨k₀, hk₀, rfl⟩ := List.mem_map.mp hk
    refine ⟨k₀, hk₀, ?_⟩
    by_cases hkey : k₀.key = r.key
    · rw [if_pos hkey]
      exact ⟨rfl, rfl, fun _ => rfl⟩
    · rw [if_neg hkey]
      exact ⟨rfl, rfl, id⟩
  · exact ⟨k, hk, rfl, rfl, id⟩
  · exact absurd h (by simp [hended, hrevoked])

end Within

theorem keptRuns_gone (s : Scope) : keptRuns s.gone.runs = keptRuns s.runs := by
  unfold keptRuns Scope.gone Table.update
  rw [List.map_map]
  exact List.map_congr_left fun run _ => rfl

/-! ## What the other calls do to the runs -/

section Runs

variable {cfg : HostConfig} {cs : LineCodec RunRecord γ} {s s' : Session γ}

theorem within_forget (scope : Scope) (run : AssistantRun) :
    Within (keptRuns scope.runs) (keptRuns (scope.forget run).runs) := by
  rw [keptRuns_forget]
  exact .keep _ (.inl rfl)

variable {compaction : Option RewriteResult} {e : Session.Event}

theorem within_act
    (he : ∀ conversation runID g roomWrite compaction w,
      e ≠ .reserve conversation runID g roomWrite compaction w)
    (h : s.act cfg cs e = some s') : Within (keptRuns s.scope.runs) (keptRuns s'.scope.runs) := by
  cases called_of_act h with
  | noted hkept => exact hkept.symm ▸ .refl _
  | crash | cut => exact (keptRuns_gone s.scope).symm ▸ .refl _
  | ended =>
    obtain ⟨-, ⟨hscope, -⟩ | ⟨hscope | hscope, -⟩⟩ := endRun_cases rfl
    · rw [hscope]
      exact within_forget _ _
    · rw [hscope, keptRuns_gone]
      exact .refl _
    · rw [hscope, keptRuns_gone]
      exact within_forget _ _
  | @revoked _ run =>
    rw [keptRuns_revoke]
    exact .keep _ (.inr rfl)
  | reserved hreserve => exact absurd hreserve (he _ _ _ _ _ _)

def Proves (cs : LineCodec RunRecord γ) (ks : List KeptRun) (j : Journal γ) : Prop :=
  j.poisoned = false ∧ ∃ rs, j.Holds cs rs ∧ Within ks (keptAfter rs)

theorem proves_commit (h : Recorded cs s) (hrun : s.running = true)
    (hp : s.journal.poisoned = false) {r : RunRecord} (hr : r.ended = true ∨ r.revoked = true)
    {w : Written} (hw : w.sound = true) {j : Journal γ} {fate : Fate}
    (hc : s.journal.commit cs r w = (j, fate)) :
    fate ≠ .failed ∧ Proves cs (keptRuns s.scope.runs) j ∧
      (fate = .committed → ∃ rs, j.Exact cs rs) := by
  obtain ⟨rs, hexact, -, hkept⟩ := h.live hrun hp
  have hnext : Within (keptRuns s.scope.runs) (keptAfter (rs ++ [r])) := by
    rw [keptAfter_concat, hkept]
    exact .keep _ hr
  have hsame : Within (keptRuns s.scope.runs) (keptAfter rs) := hkept ▸ .refl _
  cases w with
  | result result =>
    cases result with
    | failed written faults => cases hw
    | committed =>
      simp only [Journal.commit, Journal.append, hp, Bool.false_eq_true, if_false] at hc
      cases hc
      have hexact' := hexact.write_line r
      exact ⟨by decide, ⟨hp, _, hexact'.holds, hnext⟩, fun _ => ⟨_, hexact'⟩⟩
  | cut n =>
    simp only [Journal.commit, hp, Bool.false_eq_true, if_false] at hc
    cases hc
    refine ⟨by decide, ?_, by simp⟩
    rcases hexact.write_take r n with ⟨-, hexact'⟩ | ⟨-, hholds⟩
    · exact ⟨hp, _, hexact'.holds, hnext⟩
    · exact ⟨hp, _, hholds, hsame⟩

theorem proves_act (h : Recorded cs s) (hrun : s.running = true)
    (hp : s.journal.poisoned = false) (hsound : e.sound = true)
    (he : ∀ conversation runID g roomWrite compaction w,
      e ≠ .reserve conversation runID g roomWrite compaction w)
    (hact : s.act cfg cs e = some s') : Proves cs (keptRuns s.scope.runs) s'.journal := by
  have hsame : Proves cs (keptRuns s.scope.runs) s.journal := by
    obtain ⟨rs, hexact, -, hkept⟩ := h.live hrun hp
    exact ⟨hp, rs, hexact.holds, hkept ▸ .refl _⟩
  cases called_of_act hact with
  | noted | crash => exact hsame
  | @ended run w compaction _ hend =>
    have hw : w.sound = true ∧ soundCompaction compaction = true := by
      rcases hend with rfl | rfl <;> exact Bool.and_eq_true_iff.mp hsound
    unfold Session.endRun
    rcases hc : s.journal.commit cs run.endedRecord w with ⟨j, fate⟩
    obtain ⟨hfate, hproves, hexact⟩ := proves_commit h hrun hp (.inl rfl) hw.1 hc
    cases fate with
    | failed => exact absurd rfl hfate
    | gone => exact hproves
    | committed =>
      obtain ⟨rs, hexact⟩ := hexact rfl
      dsimp only
      split_ifs
      · rcases compaction with _ | _ | faults
        · exact hproves
        · -- the journal is replaced by the runs that are left
          have hj : (j.rewrite cs (s.scope.forget run).records .replaced).poisoned = false ∧
              (j.rewrite cs (s.scope.forget run).records .replaced).Exact cs
                (s.scope.forget run).records := by
            rcases hexact.rewrite hproves.1 (s.scope.forget run).records .replaced with
              hnew | hspoiled
            · exact hnew
            · have hnot := hspoiled.1
              simp [Journal.rewrite, hproves.1] at hnot
          refine ⟨hj.1, _, hj.2.holds, ?_⟩
          rw [keptAfter_records]
          exact within_forget _ _
        · cases hw.2
      · exact hproves
  | revoked hexpire _ hc | cut hexpire hc =>
    subst hexpire
    exact (proves_commit h hrun hp (.inr rfl) hsound hc).2.1
  | reserved hreserve => exact absurd hreserve (he _ _ _ _ _ _)

theorem poisoned_endRun (hp : s.journal.poisoned = true) (run : AssistantRun) (w : Written)
    (compaction : Option RewriteResult) :
    (s.endRun cs run w compaction).journal.poisoned = true := by
  have hj := (Journal.commit_of_poisoned (c := cs) hp run.endedRecord w).1
  unfold Session.endRun
  rcases hc : s.journal.commit cs run.endedRecord w with ⟨j, _ | _ | _⟩ <;> rw [hc] at hj <;>
    obtain rfl : j = s.journal := hj
  · dsimp only
    split_ifs
    · cases compaction <;> simp [Session.compact, Session.crash, Journal.rewrite, hp]
    · exact hp
  · dsimp only
    split_ifs
    · cases compaction <;> simp [Session.compact, Session.crash, Journal.rewrite, hp]
    · exact hp
  · exact hp

theorem poisoned_act (hp : s.journal.poisoned = true)
    (he : ∀ conversation runID g roomWrite compaction w,
      e ≠ .reserve conversation runID g roomWrite compaction w)
    (h : s.act cfg cs e = some s') : s'.journal.poisoned = true := by
  have hcommit {run : AssistantRun} {w : Written} {j : Journal γ} {fate : Fate}
      (hc : s.journal.commit cs run.revokedRecord w = (j, fate)) : j.poisoned = true := by
    have hj := (Journal.commit_of_poisoned (c := cs) hp run.revokedRecord w).1
    rw [hc] at hj
    obtain rfl : j = s.journal := hj
    exact hp
  cases called_of_act h with
  | noted => exact hp
  | crash => exact hp
  | @ended run w compaction => exact poisoned_endRun hp run w compaction
  | revoked _ _ hc | cut _ hc => exact hcommit hc
  | reserved hreserve => exact absurd hreserve (he _ _ _ _ _ _)

theorem within_start [DecidableEq γ] {ks : List KeptRun} {o : Journal.Replaying}
    (h : Proves cs ks s.journal)
    (hstart : s.start cs o compaction = some s') :
    s'.journal.poisoned = true ∨ Within ks (keptRuns s'.scope.runs) := by
  obtain ⟨-, rs, hholds, hwithin⟩ := h
  unfold Session.start at hstart
  split at hstart
  · cases hstart
  rename_i t j hreplay
  cases hstart
  rcases Journal.replay_cases hholds hreplay with ⟨n, rfl, -, -⟩ | ⟨-, -, hfold, -⟩
  · refine .inl ?_
    split_ifs
    · cases compaction <;> simp [Session.compact, Session.crash, Journal.rewrite, Journal.poison]
    · rfl
  · refine .inr ?_
    have hkept : keptRuns t.1 = keptAfter rs := (foldlM_replayRun hfold).1
    obtain ⟨-, ⟨hscope, -⟩ | ⟨hscope, -⟩⟩ := compact_cases (c := cs)
      { s with scope := { Scope.empty with runs := t.1, sequence := t.2 }, journal := j,
               running := true } (runLimit < j.lines) compaction
    · rw [hscope, hkept]
      exact hwithin
    · rw [hscope, keptRuns_gone, hkept]
      exact hwithin

end Runs

end Quiesce

end Scenery.Host
