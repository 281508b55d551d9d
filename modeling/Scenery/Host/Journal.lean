import Mathlib.Algebra.Group.Nat.Defs
import Scenery.Lines

/-!
# The journals of a process host

A process host keeps the authority that must outlive it in journals of lines.
-/

namespace Scenery.Host

open List

variable {β ρ τ : Type}

structure PoisonFaults where
  marker : Bool
  removal : Bool
  deriving DecidableEq

inductive AppendResult where
  | committed
  /-- an error was reported after some characters of the line; `none` if the file did not open -/
  | failed (written : Option ℕ) (faults : PoisonFaults)
  deriving DecidableEq

inductive RewriteResult where
  | replaced
  | failed (faults : PoisonFaults)
  deriving DecidableEq

/-- `processHostJournal`, with the files at its path: the journal and the marker outlive the
host, the other two fields are its memory. -/
structure Journal (β : Type) where
  file : Option (List β)
  marker : Bool
  lines : ℕ
  poisoned : Bool
  deriving DecidableEq

namespace Journal

def data (j : Journal β) : List β := j.file.getD []

def poison (j : Journal β) (faults : PoisonFaults) : Journal β where
  file := if faults.removal then j.file else none
  marker := j.marker || !faults.marker
  lines := j.lines
  poisoned := true

def write (j : Journal β) (text : List β) : Journal β := { j with file := some (j.data ++ text) }

def append (c : LineCodec ρ β) (r : ρ) (result : AppendResult) (j : Journal β) : Journal β × Bool :=
  if j.poisoned then (j, false)
  else match result with
    | .committed => ({ j.write (c.line r) with lines := j.lines + 1 }, true)
    | .failed none faults => (j.poison faults, false)
    | .failed (some n) faults => ((j.write ((c.line r).take n)).poison faults, false)

def rewrite (c : LineCodec ρ β) (rs : List ρ) (result : RewriteResult) (j : Journal β) :
    Journal β :=
  if j.poisoned then j
  else match result with
    | .replaced => { j with file := some (c.file rs), lines := rs.length }
    | .failed faults => j.poison faults

def replayLines (apply : τ → List β → Option τ) : τ → ℕ → List (List β) → τ × ℕ × Bool
  | t, n, [] => (t, n, true)
  | t, n, l :: ls =>
    match apply t l with
    | none => (t, n, false)
    | some t' => replayLines apply t' (n + 1) ls

structure Replaying where
  readable : Bool
  trimmed : Bool
  faults : PoisonFaults
  deriving DecidableEq

def maxBytes : ℕ := 64 * 2 ^ 20

def replayData [DecidableEq β] (newline : β) (apply : τ → List β → Option τ) (t₀ : τ)
    (o : Replaying) (j : Journal β) (data : List β) : τ × Journal β :=
  if maxBytes < data.length then (t₀, { j with lines := 0 }.poison o.faults)
  else match splitLines newline data with
    | (ls, tail) =>
      match replayLines apply t₀ 0 ls with
      | (t, n, false) => (t, { j with lines := n }.poison o.faults)
      | (t, n, true) =>
        if tail = [] then (t, { j with lines := n, poisoned := false })
        -- a later append must not extend the part of a line
        else if o.trimmed then
          (t, { j with file := some (joinLines newline ls), lines := n, poisoned := false })
        else (t, { j with lines := n }.poison o.faults)

def replay [DecidableEq β] (newline : β) (apply : τ → List β → Option τ) (t₀ : τ) (o : Replaying)
    (j : Journal β) : Option (τ × Journal β) :=
  if !o.readable then none
  else if j.marker then some (t₀, { j with lines := 0, poisoned := true })
  else match j.file with
    | none => some (t₀, { j with lines := 0, poisoned := false })
    | some data => some (replayData newline apply t₀ o j data)

/-- The records, and perhaps an incomplete last line. -/
def Holds (c : LineCodec ρ β) (j : Journal β) (rs : List ρ) : Prop :=
  j.marker = false ∧ ∃ tail, c.newline ∉ tail ∧ j.data = c.file rs ++ tail

def Exact (c : LineCodec ρ β) (j : Journal β) (rs : List ρ) : Prop :=
  j.marker = false ∧ j.data = c.file rs

variable {c : LineCodec ρ β} {j : Journal β} {rs rs' : List ρ}

theorem Exact.holds (h : j.Exact c rs) : j.Holds c rs :=
  ⟨h.1, [], not_mem_nil, by rw [h.2, append_nil]⟩

theorem Holds.unique [DecidableEq β] (h : j.Holds c rs) (h' : j.Holds c rs') : rs = rs' := by
  obtain ⟨-, tail, htail, hdata⟩ := h
  obtain ⟨-, tail', htail', hdata'⟩ := h'
  exact c.file_append_inj htail htail' (hdata.symm.trans hdata')

theorem exact_nil (hm : j.marker = false) (hf : j.file = none) : j.Exact c [] :=
  ⟨hm, by rw [data, hf]; rfl⟩

def Spoiled (c : LineCodec ρ β) (j : Journal β) (rs : List ρ) : Prop :=
  j.poisoned = true ∧ (j.marker = true ∨ j.file = none ∨ j.Holds c rs)

theorem poison_cases (j : Journal β) (faults : PoisonFaults) :
    (j.poison faults).marker = true ∨ (j.poison faults).file = none ∨
      (j.poison faults).marker = j.marker ∧ (j.poison faults).file = j.file := by
  obtain ⟨marker, removal⟩ := faults
  cases marker with
  | false => exact .inl (by simp [poison])
  | true =>
    cases removal with
    | false => exact .inr (.inl rfl)
    | true => exact .inr (.inr ⟨by simp [poison], rfl⟩)

theorem Holds.poison (h : j.Holds c rs) (faults : PoisonFaults) :
    (j.poison faults).Spoiled c rs := by
  refine ⟨rfl, ?_⟩
  rcases j.poison_cases faults with hm | hf | ⟨hm, hf⟩
  · exact .inl hm
  · exact .inr (.inl hf)
  · refine .inr (.inr ?_)
    rw [Holds, data, hm, hf]
    exact h

theorem Spoiled.holds [DecidableEq β] (h : j.Spoiled c rs) (h' : j.Holds c rs') :
    rs' = [] ∨ rs' = rs := by
  rcases h.2 with hm | hf | hholds
  · rw [h'.1] at hm
    cases hm
  · exact .inl (h'.unique (exact_nil h'.1 hf).holds)
  · exact .inr (h'.unique hholds)

theorem Exact.write_take (h : j.Exact c rs) (r : ρ) (n : ℕ) :
    (c.line r).length ≤ n ∧ (j.write ((c.line r).take n)).Exact c (rs ++ [r]) ∨
      n < (c.line r).length ∧ (j.write ((c.line r).take n)).Holds c rs := by
  rcases c.take_line r n with ⟨hn, htake⟩ | ⟨hn, hnot⟩
  · refine .inl ⟨hn, h.1, ?_⟩
    rw [htake, c.file_concat, ← h.2]
    rfl
  · refine .inr ⟨hn, h.1, _, hnot, ?_⟩
    rw [← h.2]
    rfl

theorem Exact.write_line (h : j.Exact c rs) (r : ρ) :
    (j.write (c.line r)).Exact c (rs ++ [r]) := by
  refine ⟨h.1, ?_⟩
  rw [c.file_concat, ← h.2]
  rfl

theorem Exact.append (h : j.Exact c rs) (hp : j.poisoned = false) (r : ρ) (result : AppendResult) :
    result = .committed ∧ (j.append c r result).2 = true ∧
        (j.append c r result).1.poisoned = false ∧ (j.append c r result).1.Exact c (rs ++ [r]) ∨
      (j.append c r result).2 = false ∧
        ((∃ n faults, result = .failed (some n) faults ∧ (c.line r).length ≤ n) ∧
            (j.append c r result).1.Spoiled c (rs ++ [r]) ∨
          (j.append c r result).1.Spoiled c rs) := by
  unfold Journal.append
  rw [hp]
  rcases result with _ | ⟨_ | n, faults⟩
  · exact .inl ⟨rfl, rfl, hp, h.write_line r⟩
  · exact .inr ⟨rfl, .inr (h.holds.poison faults)⟩
  · refine .inr ⟨rfl, ?_⟩
    rcases h.write_take r n with ⟨hn, hexact⟩ | ⟨-, hholds⟩
    · exact .inl ⟨⟨n, faults, rfl, hn⟩, hexact.holds.poison faults⟩
    · exact .inr (hholds.poison faults)

theorem Exact.rewrite (h : j.Exact c rs) (hp : j.poisoned = false) (rs' : List ρ)
    (result : RewriteResult) :
    (j.rewrite c rs' result).poisoned = false ∧ (j.rewrite c rs' result).Exact c rs' ∨
      (j.rewrite c rs' result).Spoiled c rs := by
  unfold Journal.rewrite
  rw [hp]
  rcases result with _ | faults
  · exact .inl ⟨rfl, h.1, rfl⟩
  · exact .inr (h.holds.poison faults)

variable {step : τ → ρ → Option τ}

theorem replayLines_encode {t t' : τ} {n n' : ℕ} {ok : Bool}
    (h : replayLines (fun t l => (c.decode l).bind (step t)) t n (rs.map c.encode) = (t', n', ok)) :
    ok = true ∧ rs.foldlM step t = some t' ∨ ok = false ∧ rs.foldlM step t = none ∧
      ∃ rs₀, rs₀ <+: rs ∧ rs₀.foldlM step t = some t' := by
  induction rs generalizing t n with
  | nil =>
    cases h
    exact .inl ⟨rfl, rfl⟩
  | cons r rs ih =>
    rw [map_cons, replayLines, c.decode_encode r, Option.bind_some] at h
    rw [foldlM_cons]
    cases hr : step t r with rw [hr] at h
    | none =>
      cases h
      exact .inr ⟨rfl, rfl, [], nil_prefix, rfl⟩
    | some t₁ =>
      refine (ih h).imp_right fun ⟨hok, hnone, rs₀, hpre, hfold⟩ => ?_
      refine ⟨hok, hnone, r :: rs₀, prefix_cons_inj r |>.mpr hpre, ?_⟩
      rw [foldlM_cons, hr]
      exact hfold

def Replayed (c : LineCodec ρ β) (step : τ → ρ → Option τ) (rs : List ρ) (j : Journal β) (t₀ : τ)
    (o : Replaying) (t : τ) (j' : Journal β) : Prop :=
  (∃ n, j' = { j with lines := n }.poison o.faults ∧
      (maxBytes < j.data.length ∨ rs.foldlM step t₀ = none ∨ rs.foldlM step t₀ = some t) ∧
      ∃ rs₀, rs₀ <+: rs ∧ rs₀.foldlM step t₀ = some t) ∨
    j'.poisoned = false ∧ j.data.length ≤ maxBytes ∧ rs.foldlM step t₀ = some t ∧ j'.Exact c rs

variable {o : Replaying} {j' : Journal β}

theorem replayData_cases [DecidableEq β] {t₀ : τ} {data : List β}
    (hf : j.file = some data) (hj : j.Holds c rs) {t : τ}
    (h : replayData c.newline (fun t l => (c.decode l).bind (step t)) t₀ o j data = (t, j')) :
    Replayed c step rs j t₀ o t j' := by
  obtain ⟨hm, tail, htail, hdata⟩ := hj
  have heq : j.data = data := by rw [Journal.data, hf]; rfl
  rw [replayData, ← heq] at h
  split at h
  · rename_i hlong
    cases h
    exact .inl ⟨0, rfl, .inl hlong, [], nil_prefix, rfl⟩
  · rename_i hlong
    have hle : j.data.length ≤ maxBytes := Nat.le_of_not_lt hlong
    rw [hdata, c.splitLines_file htail] at h
    simp only at h
    split at h
    · rename_i t₁ n hloop
      cases h
      obtain ⟨⟨⟩, -⟩ | ⟨-, hnone, hsome⟩ := replayLines_encode hloop
      exact .inl ⟨n, rfl, .inr (.inl hnone), hsome⟩
    · rename_i t₁ n hloop
      obtain ⟨-, hfold⟩ | ⟨⟨⟩, -⟩ := replayLines_encode hloop
      split at h
      · rename_i hnil
        cases h
        refine .inr ⟨rfl, hle, hfold, hm, ?_⟩
        rw [hnil, append_nil] at hdata
        exact hdata
      · split at h
        · cases h
          exact .inr ⟨rfl, hle, hfold, hm, rfl⟩
        · cases h
          exact .inl ⟨n, rfl, .inr (.inr hfold), rs, prefix_rfl, hfold⟩

theorem replay_of_marker [DecidableEq β] {newline : β} {apply : τ → List β → Option τ} {t₀ t : τ}
    (hm : j.marker = true)
    (h : replay newline apply t₀ o j = some (t, j')) :
    t = t₀ ∧ j'.marker = true ∧ j'.poisoned = true := by
  rw [replay] at h
  split at h
  · cases h
  cases h
  exact ⟨rfl, hm, rfl⟩

theorem replay_cases [DecidableEq β] {t₀ t : τ} (hj : j.Holds c rs)
    (h : replay c.newline (fun t l => (c.decode l).bind (step t)) t₀ o j = some (t, j')) :
    Replayed c step rs j t₀ o t j' := by
  rw [replay] at h
  split at h
  · cases h
  rw [if_neg (by rw [hj.1]; exact Bool.false_ne_true)] at h
  split at h
  · rename_i hf
    -- a missing journal holds nothing
    cases h
    have hexact : j.Exact c [] := exact_nil hj.1 hf
    obtain rfl := hexact.holds.unique hj
    have hlen : j.data.length ≤ maxBytes := by
      rw [hexact.2]
      exact Nat.zero_le _
    exact .inr ⟨rfl, hlen, rfl, hexact⟩
  · rename_i data hf
    exact replayData_cases hf hj (Option.some.inj h)

end Journal

end Scenery.Host
