import Scenery.Host.Quiesce

/-!
# The report is final

What holds in every state of a host whose answers are not disturbed: once an answer has been
computed no call is left that could append authority, the receipt journal stays as it is, and the
run journal only loses runs.
-/

namespace Scenery.Host.Quiesce

open List

variable {β γ : Type} {cfg : HostConfig} {cr : LineCodec DurableRecord β}
  {cs : LineCodec RunRecord γ} {s s' : State β γ}

variable {r : DurableRecord}

theorem poisoned_store {compaction : Option RewriteResult}
    (hc : soundCompaction compaction = true) (t : Authority.State β) :
    (Authority.store cr r .committed compaction t).1.journal.poisoned = t.journal.poisoned := by
  unfold Authority.store
  split
  · rfl
  · cases hp : t.journal.poisoned with
    | true => simp [Journal.append, hp]
    | false =>
      simp only [Journal.append, hp, Bool.false_eq_true, if_false]
      split_ifs
      · rcases compaction with _ | _ | faults
        · exact hp
        · simp [Authority.compact, Journal.rewrite, Journal.write, hp]
        · cases hc
      · exact hp

theorem poisoned_cut {n : ℕ} {t t' : Authority.State β}
    (h : Authority.cut cr r n t = some t') : t'.journal.poisoned = t.journal.poisoned := by
  unfold Authority.cut at h
  split at h
  · cases h
  · obtain ⟨r', -, rfl⟩ := Option.map_eq_some_iff.mp h
    rfl

theorem inv_cut {n : ℕ} {t t' : Authority.State β} (hinv : Authority.Inv cr t)
    (hrun : t.running = true) (h : Authority.cut cr r n t = some t') : Authority.Inv cr t' := by
  obtain ⟨hp, hstop, rs, r', -, -, ⟨-, hholds, ht⟩ | ⟨hholds, ht⟩⟩ :=
    Authority.cut_cases hinv hrun h
  · exact Authority.inv_of_stopped hp hstop hholds ht
  · exact Authority.inv_of_stopped hp hstop hholds ht

structure Final (cs : LineCodec RunRecord γ) (s : State β γ) (report : Report β) : Prop where
  appended : s.appended = report.appended
  available : s.available = report.available
  receipts : s.receipts.journal = report.receipts
  owners : s.receipts.owners = report.owners
  runs : Within (keptRuns report.runs) (keptRuns s.runs.scope.runs)
  proved : report.available = true → Proves cs (keptRuns report.runs) s.runs.journal

theorem Final.congr {report : Report β} (h : Final cs s report) (ha : s'.appended = s.appended)
    (hr : s'.receipts = s.receipts) (hs : s'.runs = s.runs) : Final cs s' report where
  appended := ha.trans h.appended
  available := by
    rw [State.available, hr, hs]
    exact h.available
  receipts := hr ▸ h.receipts
  owners := hr ▸ h.owners
  runs := hs ▸ h.runs
  proved := hs ▸ h.proved

/-- After the flag no call begins, and what was reported is final. -/
structure Inv (cr : LineCodec DurableRecord β) (cs : LineCodec RunRecord γ) (s : State β γ) :
    Prop where
  receipts : Authority.Inv cr s.receipts
  runs : Recorded cs s.runs
  flagged : s.requests ≠ [] ∨ s.reports ≠ [] → s.quiescing = true
  idle : s.reports ≠ [] → s.calls = [] ∧ s.starts = []
  read : ∀ b, .read b ∈ s.requests → b = !s.receipts.journal.poisoned
  final : ∀ report ∈ s.reports, Final cs s report

namespace Inv

section

variable (h : Inv cr cs s)
include h

theorem calls (hq : s.quiescing = false) (starts : List Starting)
    (calls : List Accepted) : Inv cr cs { s with starts := starts, calls := calls } := by
  have hreports : s.reports = [] := by
    by_contra hne
    rw [h.flagged (.inr hne)] at hq
    cases hq
  refine ⟨h.receipts, h.runs, h.flagged, absurd hreports, h.read,
    fun report hmem => ?_⟩
  rw [hreports] at hmem
  exact absurd hmem not_mem_nil

theorem append (hreports : s.reports = []) {receipts : Authority.State β}
    {runs : Session γ} (hr : Authority.Inv cr receipts) (hs : Recorded cs runs)
    (hread : ∀ b, .read b ∈ s.requests → receipts.journal.poisoned = s.receipts.journal.poisoned)
    (starts : List Starting) (calls : List Accepted) (appended : List Appended) :
    Inv cr cs { s with receipts := receipts, runs := runs, starts := starts, calls := calls,
                       appended := appended } := by
  refine ⟨hr, hs, h.flagged, absurd hreports, fun b hb => ?_, fun report hmem => ?_⟩
  · rw [h.read b hb, hread b hb]
  · rw [hreports] at hmem
    exact absurd hmem not_mem_nil

theorem otherRuns {e : Session.Event} {runs : Session γ}
    (hrun : s.runs.running = true) (hok : s.reports.isEmpty = false → e.sound = true)
    (he : ∀ conversation runID g roomWrite compaction w,
      e ≠ .reserve conversation runID g roomWrite compaction w)
    (hact : s.runs.act cfg cs e = some runs) : Inv cr cs { s with runs := runs } := by
  refine ⟨h.receipts, h.runs.act hrun hact, h.flagged, h.idle, h.read, fun report hmem => ?_⟩
  have hfinal := h.final report hmem
  have hsound : e.sound = true := hok (isEmpty_eq_false_iff.mpr (ne_nil_of_mem hmem))
  have hpoisoned : runs.journal.poisoned = s.runs.journal.poisoned := by
    cases hp : s.runs.journal.poisoned with
    | true => exact poisoned_act hp he hact
    | false => exact (proves_act h.runs hrun hp hsound he hact).1
  refine ⟨hfinal.appended, ?_, hfinal.receipts, hfinal.owners,
    hfinal.runs.trans (within_act he hact), fun havailable => ?_⟩
  · rw [← hfinal.available]
    simp only [State.available, hpoisoned]
  · have hp : s.runs.journal.poisoned = false := (hfinal.proved havailable).1
    obtain ⟨hp', rs, hholds, hwithin⟩ := proves_act h.runs hrun hp hsound he hact
    exact ⟨hp', rs, hholds, hfinal.runs.trans hwithin⟩

theorem report (hrun : s.runs.running = true) {receipts : Bool}
    (hmem : .read receipts ∈ s.requests) (hcalls : s.calls = []) (hstarts : s.starts = []) :
    Inv cr cs { s with
      requests := s.requests.erase (.read receipts)
      reports := ⟨receipts && !s.runs.journal.poisoned, s.receipts.journal, s.receipts.owners,
        s.runs.scope.runs, s.appended⟩ :: s.reports } := by
  have hflag : s.quiescing = true := h.flagged (.inl (ne_nil_of_mem hmem))
  refine ⟨h.receipts, h.runs, fun _ => hflag, fun _ => ⟨hcalls, hstarts⟩,
    fun b hb => h.read b (mem_of_mem_erase hb), fun report hreport => ?_⟩
  rcases mem_cons.mp hreport with rfl | hreport
  · refine ⟨rfl, ?_, rfl, rfl, .refl _, fun havailable => ?_⟩
    · simp only [State.available, h.read receipts hmem]
    · have hp : s.runs.journal.poisoned = false := by
        simpa using (Bool.and_eq_true_iff.mp havailable).2
      obtain ⟨rs, hexact, -, hkept⟩ := h.runs.live hrun hp
      exact ⟨hp, rs, hexact.holds, hkept ▸ .refl _⟩
  · exact (h.final report hreport).congr rfl rfl rfl

theorem no_reports (hne : s.calls ≠ [] ∨ s.starts ≠ []) : s.reports = [] := by
  by_contra hreports
  obtain ⟨hcalls, hstarts⟩ := h.idle hreports
  exact hne.elim (· hcalls) (· hstarts)

theorem act {e : Event} (hr : s.receipts.running = true) (hs : s.runs.running = true)
    (hok : Undisturbed s e) (hact : act cfg cr cs s e = some s') : Inv cr cs s' := by
  cases e with simp only [Quiesce.act] at hact
  | start a =>
    split_ifs at hact with hq
    · cases hact
      exact h
    · cases hact
      exact h.calls (Bool.eq_false_iff.mpr hq) _ s.calls
  | call a =>
    split_ifs at hact with _ hq
    · cases hact
      exact h
    · cases hact
      exact h.calls (Bool.eq_false_iff.mpr hq) s.starts _
  | reserve a roomWrite compaction w =>
    split_ifs at hact with hmem
    obtain ⟨runs, hruns, rfl⟩ := Option.map_eq_some_iff.mp hact
    exact h.append (h.no_reports (.inr (ne_nil_of_mem hmem))) h.receipts
      (h.runs.act hs hruns) (fun _ _ => rfl) _ _ _
  | store a result compaction =>
    split_ifs at hact with hmem
    cases hact
    refine h.append (h.no_reports (.inl (ne_nil_of_mem hmem)))
      (Authority.inv_store h.receipts hr rfl) h.runs (fun b hb => ?_) _ _ _
    obtain ⟨rfl, hc⟩ := hok (any_eq_true.mpr ⟨_, hb, rfl⟩)
    exact poisoned_store hc s.receipts
  | cut a n =>
    split_ifs at hact with hmem
    obtain ⟨receipts, hcut, rfl⟩ := Option.map_eq_some_iff.mp hact
    exact h.append (h.no_reports (.inl (ne_nil_of_mem hmem)))
      (inv_cut h.receipts hr hcut) h.runs (fun _ _ => poisoned_cut hcut) _ _ _
  | quiesce =>
    cases hact
    refine ⟨h.receipts, h.runs, fun _ => rfl, h.idle, fun b hb => ?_,
      fun report hmem => (h.final report hmem).congr rfl rfl rfl⟩
    rcases mem_cons.mp hb with hb | hb
    · cases hb
    · exact h.read b hb
  | readReceipts =>
    split_ifs at hact with hmem
    cases hact
    refine ⟨h.receipts, h.runs, fun _ => h.flagged (.inl (ne_nil_of_mem hmem)), h.idle,
      fun b hb => ?_, fun report hmem => (h.final report hmem).congr rfl rfl rfl⟩
    rcases mem_cons.mp hb with hb | hb
    · exact Request.read.inj hb
    · exact h.read b (mem_of_mem_erase hb)
  | report receipts =>
    split_ifs at hact with hmem
    cases hact
    exact h.report hs hmem hok.1 hok.2
  | runs e =>
    split at hact
    · cases hact
    rename_i he
    obtain ⟨runs, hruns, rfl⟩ := Option.map_eq_some_iff.mp hact
    exact h.otherRuns hs hok he hruns

end

theorem of_opened [DecidableEq β] [DecidableEq γ] (h : Opened cfg cr cs s) : Inv cr cs s := by
  refine ⟨Authority.inv_of_run h.receipts, (invariant_of_run h.runs).1, ?_, fun hne => ?_, ?_, ?_⟩
  · rintro (hne | hne)
    · exact absurd h.requests hne
    · exact absurd h.reports hne
  · exact absurd h.reports hne
  · rw [h.requests]
    exact fun b hb => absurd hb not_mem_nil
  · rw [h.reports]
    exact fun report hmem => absurd hmem not_mem_nil

theorem of_run {s₀ : State β γ} (h₀ : Inv cr cs s₀)
    (h : Run (step cfg cr cs) Undisturbed s₀ s) : Inv cr cs s := by
  refine h.invariant (P := Inv cr cs) h₀ fun s e s' hinv hok hs => ?_
  unfold step at hs
  split at hs
  · rename_i hrun
    obtain ⟨hr, hruns⟩ := Bool.and_eq_true_iff.mp hrun
    exact hinv.act hr hruns hok hs
  · cases hs

end Inv

/-- A quiesced host's report is final, in every run whose answers are undisturbed: after an answer
the host begins to append no receipt and no start of a run, the availability it reported stays, the
receipt journal and its table stay as they were, every run it retains was there (a run that ends
after the answer is forgotten, so this is an inclusion and no equality); and if it reported its
state as available, a host that starts over the files has the receipts that were reported, and
retains only runs that were there, unless it finds a journal it must poison. -/
theorem quiesced_report_final [DecidableEq β] [DecidableEq γ] (cfg : HostConfig)
    (cr : LineCodec DurableRecord β) (cs : LineCodec RunRecord γ) {s₀ : State β γ}
    (h₀ : Opened cfg cr cs s₀) (h : Run (step cfg cr cs) Undisturbed s₀ s) :
    ∀ report ∈ s.reports,
      s.appended = report.appended ∧ s.available = report.available ∧
      s.receipts.journal = report.receipts ∧ s.receipts.owners = report.owners ∧
      Within (keptRuns report.runs) (keptRuns s.runs.scope.runs) ∧
      (report.available = true →
        (∀ o compaction next, Authority.start cr o compaction s.receipts = some next →
          next.journal.poisoned = true ∨ next.owners = report.owners) ∧
        ∀ o compaction next, s.runs.start cs o compaction = some next →
          next.journal.poisoned = true ∨
            Within (keptRuns report.runs) (keptRuns next.scope.runs)) := by
  have hinv : Inv cr cs s := (Inv.of_opened h₀).of_run h
  intro report hmem
  have hfinal := hinv.final report hmem
  refine ⟨hfinal.appended, hfinal.available, hfinal.receipts, hfinal.owners, hfinal.runs,
    fun havailable => ⟨fun o compaction next hstart => ?_, fun o compaction next hstart =>
      within_start (hfinal.proved havailable) hstart⟩⟩
  have hp : s.receipts.journal.poisoned = false := by
    have hboth := hfinal.available.trans havailable
    simpa using (Bool.and_eq_true_iff.mp hboth).1
  rcases Authority.start_owners hinv.receipts hstart with hpoisoned | howners | ⟨hno, -⟩
  · exact .inl hpoisoned
  · exact .inr (howners.trans hfinal.owners)
  · rw [hp] at hno
    cases hno

namespace Sample

def opened : State (Option DurableRecord) (Option RunRecord) where
  quiescing := false
  receipts := ⟨⟨none, false, 0, false⟩, .empty, true, none⟩
  runs := { Session.initial with running := true }
  starts := []
  calls := []
  requests := []
  appended := []
  reports := []

theorem opened_opened : Opened RunSample.config Authority.Sample.codec RunSample.codec opened where
  receipts := .snoc .refl (a := .start ⟨true, true, ⟨false, false⟩⟩ (some .replaced)) trivial rfl
  runs := .snoc .refl (a := .start ⟨true, true, ⟨false, false⟩⟩ (some .replaced)) trivial rfl
  quiescing := rfl
  starts := rfl
  calls := rfl
  requests := rfl
  reports := rfl

def call : Accepted := ⟨"principal-1", "execution-1", Authority.Sample.owner⟩

def stored : List Event :=
  [.call call, .quiesce, .store call .committed (some .replaced), .readReceipts, .report true,
    .call call]

def late : List Event :=
  [.call call, .quiesce, .readReceipts, .report true, .store call .committed (some .replaced)]

end Sample

open Sample

theorem quiesced_report_final_stored :
    ∃ s, Run (step RunSample.config Authority.Sample.codec RunSample.codec) Undisturbed opened s ∧
      ∃ report ∈ s.reports, report.available = true ∧ report.owners ≠ .empty ∧
        s.receipts.owners = report.owners ∧ s.available = report.available := by
  refine Run.exists_of_decide
    (P := fun s => ∃ report ∈ s.reports, report.available = true ∧ report.owners ≠ .empty) stored
    (by decide +kernel) fun s hrun hs => ?_
  obtain ⟨report, hmem, havailable, hne⟩ := hs
  have hfinal := quiesced_report_final RunSample.config Authority.Sample.codec RunSample.codec
    opened_opened hrun report hmem
  exact ⟨report, hmem, havailable, hne, hfinal.2.2.2.1, hfinal.2.1⟩

/-- A receipt is committed after the host reported its state as available. -/
theorem receipt_after_report :
    ∃ s, Run (step RunSample.config Authority.Sample.codec RunSample.codec) (fun _ _ => True)
        opened s ∧
      ∃ report ∈ s.reports, report.available = true ∧ s.appended ≠ report.appended ∧
        s.receipts.owners ≠ report.owners :=
  Run.exists_decide late (by decide +kernel)

end Scenery.Host.Quiesce
