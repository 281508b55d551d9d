import Scenery.Host.Scopes

/-!
# The run journal

What a journal of run records says: the runs that have started and not ended, oldest first.
-/

namespace Scenery.Host

open List

variable {β : Type} {cfg : HostConfig}

structure KeptRun where
  conversation : String
  runID : String
  number : ℕ
  revoked : Bool
  deriving DecidableEq

def KeptRun.key (k : KeptRun) : String := runKey k.conversation k.runID

def AssistantRun.kept (run : AssistantRun) : KeptRun :=
  ⟨run.conversation, run.runID, run.number, run.revoked⟩

@[simp] theorem AssistantRun.key_kept (run : AssistantRun) : run.kept.key = run.key := rfl

def keep (ks : List KeptRun) (r : RunRecord) : List KeptRun :=
  if r.ended then ks.filter fun k => !decide (k.key = r.key)
  else if r.revoked then ks.map fun k => if k.key = r.key then { k with revoked := true } else k
  else if r.key ∈ ks.map KeptRun.key then ks
  else ks ++ [⟨r.conversation, r.runID, r.generation, false⟩]

def keptAfter (rs : List RunRecord) : List KeptRun := rs.foldl keep []

@[simp] theorem keptAfter_concat (rs : List RunRecord) (r : RunRecord) :
    keptAfter (rs ++ [r]) = keep (keptAfter rs) r := by
  simp [keptAfter]

def keptRuns (t : Table AssistantRun.key) : List KeptRun := t.rows.map AssistantRun.kept

theorem length_keptRuns (t : Table AssistantRun.key) : (keptRuns t).length = t.rows.length :=
  length_map _

theorem keys_keptRuns (t : Table AssistantRun.key) :
    (keptRuns t).map KeptRun.key = t.rows.map AssistantRun.key := by
  rw [keptRuns, map_map]
  rfl

section Records

variable {t : Table AssistantRun.key} {r : RunRecord}

theorem keep_ended (h : r.ended = true) :
    keep (keptRuns t) r = keptRuns (t.delete fun run => run.key = r.key) := by
  unfold keep keptRuns
  rw [if_pos h, filter_map]
  rfl

theorem keep_revoked {f : AssistantRun → AssistantRun} (hf : ∀ run, (f run).key = run.key)
    (hkept : ∀ run, (f run).kept = { run.kept with revoked := true }) (h : r.ended = false)
    (hr : r.revoked = true) :
    keep (keptRuns t) r = keptRuns (t.update (fun run => run.key = r.key) f hf) := by
  unfold keep keptRuns Table.update
  rw [h, if_neg Bool.false_ne_true, if_pos hr, map_map, map_map]
  refine map_congr_left fun run _ => ?_
  by_cases hk : run.key = r.key
  · simp [hk, hkept]
  · simp [hk]

theorem keep_start {run : AssistantRun} (hnew : run.key ∉ t.rows.map AssistantRun.key)
    (hkept : run.kept = ⟨r.conversation, r.runID, r.generation, false⟩) (h : r.ended = false)
    (hr : r.revoked = false) : keep (keptRuns t) r = keptRuns (t.insert run hnew) := by
  have hkey : r.key ∉ (keptRuns t).map KeptRun.key := by
    have hsame : r.key = run.key := (congrArg KeptRun.key hkept).symm
    rw [keys_keptRuns, hsame]
    exact hnew
  unfold keep
  rw [h, hr, if_neg Bool.false_ne_true, if_neg Bool.false_ne_true, if_neg hkey]
  unfold keptRuns Table.insert
  rw [map_append, map_singleton, hkept]

end Records

theorem keptRuns_forget (s : Scope) (run : AssistantRun) :
    keptRuns (s.forget run).runs = keep (keptRuns s.runs) run.endedRecord := by
  rw [keep_ended (r := run.endedRecord) rfl]
  rfl

theorem keptRuns_revoke (s : Scope) (run : AssistantRun) :
    keptRuns (s.revoke run).runs = keep (keptRuns s.runs) run.revokedRecord := by
  rw [keep_revoked (r := run.revokedRecord) AssistantRun.key_expired (fun _ => rfl) rfl rfl]
  rfl

theorem keptRuns_install (s : Scope) {conversation runID : String} {g : ℕ}
    (h : runKey conversation runID ∉ s.runs.rows.map AssistantRun.key) :
    keptRuns (s.install conversation runID g h).runs =
      keep (keptRuns s.runs) (s.reserved conversation runID g).startRecord := by
  have hnew : (s.reserved conversation runID g).key ∉ s.runs.rows.map AssistantRun.key := h
  rw [keep_start (r := (s.reserved conversation runID g).startRecord) hnew rfl rfl rfl]
  rfl

theorem keptRuns_setState (s : Scope) (run : AssistantRun) (state : RunState) :
    keptRuns (s.setState run state).runs = keptRuns s.runs := by
  unfold keptRuns Scope.setState Table.update
  rw [map_map]
  refine map_congr_left fun r _ => ?_
  by_cases hk : r.key = run.key <;> simp [hk, AssistantRun.enter, AssistantRun.kept]

theorem replayRun_keeps {t t' : Table AssistantRun.key × ℕ} {r : RunRecord}
    (h : replayRun t r = some t') (hgen : ∀ run ∈ t.1, run.generation = none) :
    keptRuns t'.1 = keep (keptRuns t.1) r ∧ ∀ run ∈ t'.1, run.generation = none := by
  unfold replayRun at h
  split_ifs at h with _ hended hrevoked hmem
  · cases h
    exact ⟨(keep_ended hended).symm, fun run hrun => hgen run (Table.mem_delete.mp hrun).1⟩
  · cases h
    refine ⟨(keep_revoked AssistantRun.key_marked (fun _ => rfl) (Bool.eq_false_iff.mpr hended)
      hrevoked).symm, fun run hrun => ?_⟩
    rcases Table.mem_update_cases AssistantRun.key_marked hrun with ⟨r₀, hr₀, -, rfl⟩ | ⟨hr, -⟩
    · exact hgen r₀ hr₀
    · exact hgen run hr
  · cases h
    refine ⟨?_, hgen⟩
    unfold keep
    rw [if_neg hended, if_neg hrevoked, keys_keptRuns, if_pos hmem]
  · cases h
    refine ⟨(keep_start hmem rfl (Bool.eq_false_iff.mpr hended)
      (Bool.eq_false_iff.mpr hrevoked)).symm, fun run hrun => ?_⟩
    rcases (Table.mem_insert hmem).mp hrun with hrun | rfl
    · exact hgen run hrun
    · rfl

theorem foldlM_replayRun {rs : List RunRecord} {t : Table AssistantRun.key × ℕ}
    (h : rs.foldlM replayRun (.empty, 0) = some t) :
    keptRuns t.1 = keptAfter rs ∧ ∀ run ∈ t.1, run.generation = none := by
  induction rs using List.reverseRecOn generalizing t with
  | nil =>
    cases h
    exact ⟨rfl, fun run hrun => absurd hrun (Table.not_mem_empty run)⟩
  | append_singleton rs r ih =>
    rw [foldlM_append] at h
    obtain ⟨t₁, ht₁, hr⟩ := Option.bind_eq_some_iff.mp h
    have hr : replayRun t₁ r = some t := by simpa using hr
    obtain ⟨hkept, hgen⟩ := ih ht₁
    obtain ⟨hkept', hgen'⟩ := replayRun_keeps hr hgen
    exact ⟨by rw [hkept', hkept, keptAfter_concat], hgen'⟩

theorem length_keep_le (ks : List KeptRun) (r : RunRecord) :
    (keep ks r).length ≤ ks.length + if r.ended || r.revoked then 0 else 1 := by
  cases hended : r.ended with
  | true => simpa [keep, hended] using length_filter_le _ ks
  | false =>
    cases hrevoked : r.revoked with
    | true => simp [keep, hended, hrevoked]
    | false =>
      by_cases hmem : r.key ∈ ks.map KeptRun.key <;>
        simp only [keep, hended, hrevoked, hmem, Bool.or_self, Bool.false_eq_true, if_false,
          if_true, length_append, length_singleton, Nat.le_refl, Nat.le_add_right]

theorem length_foldl_keep_le (rs : List RunRecord) (ks : List KeptRun) :
    (rs.foldl keep ks).length ≤ ks.length + rs.countP fun r => !(r.ended || r.revoked) := by
  induction rs generalizing ks with
  | nil => exact Nat.le_refl _
  | cons r rs ih =>
    have hfirst := length_keep_le ks r
    have hrest := ih (keep ks r)
    rw [foldl_cons, countP_cons]
    by_cases hr : r.ended || r.revoked
    · simp only [hr, if_true, Bool.not_true, Bool.false_eq_true, if_false] at hfirst ⊢
      omega
    · simp only [hr, if_false, Bool.not_false, if_true, Bool.false_eq_true] at hfirst ⊢
      omega

theorem foldl_records_one {ks : List KeptRun} {run : AssistantRun}
    (h : run.startRecord.key ∉ ks.map KeptRun.key) :
    run.records.foldl keep ks = ks ++ [run.kept] := by
  have hstart : keep ks run.startRecord =
      ks ++ [⟨run.conversation, run.runID, run.number, false⟩] := by
    unfold keep
    rw [if_neg (show ¬ run.startRecord.ended = true from Bool.false_ne_true),
      if_neg (show ¬ run.startRecord.revoked = true from Bool.false_ne_true), if_neg h]
    rfl
  unfold AssistantRun.records
  cases hrevoked : run.revoked with
  | false =>
    rw [if_neg Bool.false_ne_true, foldl_cons, foldl_nil, hstart, AssistantRun.kept,
      hrevoked]
  | true =>
    -- the revocation finds the run it was just added for, and no other
    have hothers : ∀ k ∈ ks, k.key ≠ run.revokedRecord.key := fun k hk he =>
      h (mem_map.mpr ⟨k, hk, he⟩)
    rw [if_pos rfl, foldl_cons, foldl_cons, foldl_nil, hstart]
    unfold keep
    rw [if_neg (show ¬ run.revokedRecord.ended = true from Bool.false_ne_true),
      if_pos (show run.revokedRecord.revoked = true from rfl), map_append, map_singleton,
      if_pos (show KeptRun.key ⟨run.conversation, run.runID, run.number, false⟩ =
        run.revokedRecord.key from rfl), AssistantRun.kept, hrevoked]
    congr 1
    exact (map_congr_left fun k hk => if_neg (hothers k hk)).trans (map_id ks)

theorem foldl_records {runs : List AssistantRun} {ks : List KeptRun}
    (h : (ks.map KeptRun.key ++ runs.map AssistantRun.key).Nodup) :
    (runs.flatMap AssistantRun.records).foldl keep ks = ks ++ runs.map AssistantRun.kept := by
  induction runs generalizing ks with
  | nil => simp
  | cons run runs ih =>
    have hnew : run.startRecord.key ∉ ks.map KeptRun.key := by
      intro hmem
      exact (nodup_append.mp h).2.2 _ hmem _ mem_cons_self rfl
    rw [flatMap_cons, foldl_append, foldl_records_one hnew, ih]
    · simp
    · simpa using h

theorem keptAfter_records (s : Scope) : keptAfter s.records = keptRuns s.runs := by
  have hfold : (s.runs.rows.flatMap AssistantRun.records).foldl keep [] =
      [] ++ s.runs.rows.map AssistantRun.kept := foldl_records s.runs.nodup
  exact hfold

def Bounded (rs : List RunRecord) : Prop :=
  ∀ rs₀, rs₀ <+: rs → (keptAfter rs₀).length ≤ runLimit

theorem bounded_nil : Bounded [] := by
  intro rs₀ h
  obtain rfl := prefix_nil.mp h
  exact Nat.zero_le _

theorem Bounded.concat {rs : List RunRecord} (h : Bounded rs) {r : RunRecord}
    (hr : (keptAfter (rs ++ [r])).length ≤ runLimit) : Bounded (rs ++ [r]) := by
  intro rs₀ hpre
  rcases prefix_concat_iff.mp hpre with rfl | hpre
  · exact hr
  · exact h rs₀ hpre

theorem bounded_records {s : Scope} (h : s.runs.rows.length ≤ runLimit) : Bounded s.records := by
  intro rs₀ hpre
  have hstarts : s.records.countP (fun r => !(r.ended || r.revoked)) = s.runs.rows.length := by
    unfold Scope.records
    induction s.runs.rows with
    | nil => rfl
    | cons run rest ih =>
      rw [flatMap_cons, countP_append, ih, length_cons]
      have hone : run.records.countP (fun r => !(r.ended || r.revoked)) = 1 := by
        unfold AssistantRun.records
        split <;> rfl
      omega
  have hlen := length_foldl_keep_le rs₀ []
  have hsub := hpre.sublist.countP_le (p := fun r : RunRecord => !(r.ended || r.revoked))
  have hempty : ([] : List KeptRun).length = 0 := rfl
  unfold keptAfter
  omega

section Commit

variable {c : LineCodec RunRecord β} {j : Journal β} {rs : List RunRecord}

theorem Journal.commit_of_poisoned (hp : j.poisoned = true) (r : RunRecord) (w : Written) :
    (j.commit c r w).1 = j ∧ (j.commit c r w).2 ≠ .committed := by
  cases w with
  | result result =>
    have happend : j.append c r result = (j, false) := by
      unfold Journal.append
      rw [if_pos hp]
    simp only [Journal.commit, happend]
    exact ⟨trivial, by decide⟩
  | cut n => exact ⟨if_pos hp, by simp [Journal.commit]⟩

theorem Journal.Exact.commit (h : j.Exact c rs) (hp : j.poisoned = false) (r : RunRecord)
    (w : Written) :
    (j.commit c r w).2 = .committed ∧ (j.commit c r w).1.poisoned = false ∧
        (j.commit c r w).1.Exact c (rs ++ [r]) ∨
      (j.commit c r w).2 = .failed ∧
        ((j.commit c r w).1.Spoiled c (rs ++ [r]) ∨ (j.commit c r w).1.Spoiled c rs) ∨
      (j.commit c r w).2 = .gone ∧
        ((j.commit c r w).1.Holds c (rs ++ [r]) ∨ (j.commit c r w).1.Holds c rs) := by
  cases w with
  | result result =>
    rcases h.append hp r result with ⟨-, hok, hp', hexact⟩ | ⟨hno, hfiles⟩
    · rcases happend : j.append c r result with ⟨j', _ | _⟩
      · rw [happend] at hok
        cases hok
      · rw [happend] at hp' hexact
        simp only [Journal.commit, happend]
        exact .inl ⟨trivial, hp', hexact⟩
    · rcases happend : j.append c r result with ⟨j', _ | _⟩
      · rw [happend] at hfiles
        simp only [Journal.commit, happend]
        exact .inr (.inl ⟨trivial, hfiles.imp_left And.right⟩)
      · rw [happend] at hno
        cases hno
  | cut n =>
    refine .inr (.inr ⟨rfl, ?_⟩)
    simp only [Journal.commit, hp, Bool.false_eq_true, if_false]
    rcases h.write_take r n with ⟨-, hexact⟩ | ⟨-, hholds⟩
    · exact .inl hexact.holds
    · exact .inr hholds

end Commit

end Scenery.Host
