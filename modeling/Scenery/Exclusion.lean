import Mathlib.Data.Nat.Notation
import Mathlib.Logic.Relation
import Mathlib.Tactic.SplitIfs
import Scenery.Runs

/-!
# Exclusion of concurrent transactions

Any number of processes publish, commit and read at the same time.
-/

namespace Scenery.Exclusion

open Option

structure Record where
  owner : ℕ
  directory : ℕ
  deriving DecidableEq

structure LockFile where
  record : Record
  written : Bool
  deriving DecidableEq

inductive Caller where
  | reader
  | publisher
  | committer
  | ownRead (journaled : Bool)
  | rollback
  deriving DecidableEq

inductive Stage where
  | atGate
  | gated
  | sawLock (lock : Option Record)
  | passed (lock : Option Record)
  | sawJournal (lock : Option Record) (journal : Record)
  | clearing (record : Record)
  | unlocking (record : Record)
  | leaving (success : Bool)
  deriving DecidableEq

inductive Phase where
  | idle
  | recovering (caller : Caller) (stage : Stage)
  | recovered (caller : Caller)
  | created
  | holding (journaled : Bool)
  deriving DecidableEq

structure Config where
  alive : ℕ → Bool
  phase : ℕ → Phase
  owned : ℕ → Option Record
  gate : Option ℕ
  lock : Option LockFile
  journal : Option Record
  fresh : ℕ

def Caller.resume : Caller → Bool → Phase
  | .reader, _ => .idle
  | .publisher, success => if success then .recovered .publisher else .idle
  | .committer, success => if success then .recovered .committer else .idle
  | .ownRead journaled, _ => .holding journaled
  | .rollback, _ => .idle

namespace Config

def goto (c : Config) (p : ℕ) (phase : Phase) : Config :=
  { c with phase := Function.update c.phase p phase }

/-- The owner of a record, as the recovery of `p` sees it, lets it go on. `unknown` is a
liveness check that gives no answer. -/
def pass (c : Config) (p : ℕ) (caller : Caller) (unknown : Bool) (r : Record) : Bool :=
  caller = .rollback || r.owner ≠ p && !c.alive r.owner && !unknown

def readLock (c : Config) : Stage :=
  match c.lock with
  | none => .sawLock none
  | some ⟨r, true⟩ => .sawLock (some r)
  | some ⟨_, false⟩ => .leaving false

def inspectLock (c : Config) (p : ℕ) (caller : Caller) (unknown : Bool) (r : Record) : Stage :=
  if c.pass p caller unknown r then .passed (some r)
  else if r.owner = p ∧ caller ∈ [.ownRead false, .ownRead true] then .passed (some r)
  else .leaving false

def readJournal (c : Config) (p : ℕ) (caller : Caller) (lock : Option Record) : Stage :=
  match c.journal, lock with
  | none, none => .leaving true
  | none, some r => if r.owner = p ∧ caller ≠ .rollback then .leaving true else .unlocking r
  | some j, none => .sawJournal none j
  | some j, some r => if j = r then .sawJournal (some r) j else .leaving false

def inspectJournal (c : Config) (p : ℕ) (caller : Caller) (unknown : Bool) (j : Record) : Stage :=
  if c.pass p caller unknown j then .clearing j
  else .leaving (j.owner = p ∧ caller ∈ [.ownRead false, .ownRead true])

def look (c : Config) (p : ℕ) (caller : Caller) (unknown : Bool) : Stage → Stage
  | .gated => c.readLock
  | .sawLock none => .passed none
  | .sawLock (some r) => c.inspectLock p caller unknown r
  | .passed lock => c.readJournal p caller lock
  | .sawJournal _ j => c.inspectJournal p caller unknown j
  | stage => stage

end Config

inductive Action where
  | call | acquireGate | giveUp | look (unknown : Bool) | fail | removeJournal | unlinkLock
  | releaseGate | link | create | taken | fill | writeJournal | dropJournal | removeLock | leave
  | exit
  deriving DecidableEq

inductive Step (p : ℕ) : Action → Config → Config → Prop where
  | call {c : Config} {caller : Caller} : c.alive p = true → c.phase p = .idle →
      caller ∈ [.reader, .publisher, .committer] →
      Step p .call c (c.goto p (.recovering caller .atGate))
  | readOwn {c : Config} {journaled : Bool} : c.alive p = true → c.phase p = .holding journaled →
      Step p .call c (c.goto p (.recovering (.ownRead journaled) .atGate))
  | rollBack {c : Config} : c.alive p = true → c.phase p = .holding true →
      Step p .call c (c.goto p (.recovering .rollback .atGate))
  | acquireGate {c : Config} {caller : Caller} : c.alive p = true →
      c.phase p = .recovering caller .atGate → c.gate = none →
      Step p .acquireGate c { c.goto p (.recovering caller .gated) with gate := some p }
  | giveUp {c : Config} {caller : Caller} : c.alive p = true →
      c.phase p = .recovering caller .atGate → Step p .giveUp c (c.goto p (caller.resume false))
  | look {c : Config} {caller : Caller} {stage : Stage} (unknown : Bool) : c.alive p = true →
      c.phase p = .recovering caller stage →
      Step p (.look unknown) c (c.goto p (.recovering caller (c.look p caller unknown stage)))
  | fail {c : Config} {caller : Caller} {stage : Stage} : c.alive p = true →
      c.phase p = .recovering caller stage → stage ≠ .atGate →
      Step p .fail c (c.goto p (.recovering caller (.leaving false)))
  | removeJournal {c : Config} {caller : Caller} {r : Record} : c.alive p = true →
      c.phase p = .recovering caller (.clearing r) → c.journal ≠ none →
      Step p .removeJournal c
        { c.goto p (.recovering caller (.unlocking r)) with journal := none }
  | unlinkLock {c : Config} {caller : Caller} {r : Record} : c.alive p = true →
      c.phase p = .recovering caller (.unlocking r) →
      Step p .unlinkLock c
        { c.goto p (.recovering caller (.leaving true)) with
          lock := none
          owned := if caller = .rollback then Function.update c.owned p none else c.owned }
  | releaseGate {c : Config} {caller : Caller} {success : Bool} : c.alive p = true →
      c.phase p = .recovering caller (.leaving success) →
      Step p .releaseGate c { c.goto p (caller.resume success) with gate := none }
  | link {c : Config} : c.alive p = true → c.phase p = .recovered .publisher → c.lock = none →
      Step p .link c
        { c.goto p (.holding false) with
          lock := some ⟨⟨p, c.fresh⟩, true⟩
          owned := Function.update c.owned p (some ⟨p, c.fresh⟩)
          fresh := c.fresh + 1 }
  | create {c : Config} : c.alive p = true → c.phase p = .recovered .committer → c.lock = none →
      Step p .create c
        { c.goto p .created with
          lock := some ⟨⟨p, c.fresh⟩, false⟩
          owned := Function.update c.owned p (some ⟨p, c.fresh⟩)
          fresh := c.fresh + 1 }
  | taken {c : Config} {caller : Caller} : c.alive p = true → c.phase p = .recovered caller →
      c.lock ≠ none → Step p .taken c (c.goto p .idle)
  | fill {c : Config} {r : Record} : c.alive p = true → c.phase p = .created →
      c.owned p = some r →
      Step p .fill c
        { c.goto p (.holding false) with
          lock := if c.lock = some ⟨r, false⟩ then some ⟨r, true⟩ else c.lock }
  | writeJournal {c : Config} {r : Record} : c.alive p = true → c.phase p = .holding false →
      c.owned p = some r →
      Step p .writeJournal c { c.goto p (.holding true) with journal := some r }
  | dropJournal {c : Config} : c.alive p = true → c.phase p = .holding true →
      Step p .dropJournal c { c.goto p (.holding false) with journal := none }
  | removeLock {c : Config} : c.alive p = true → c.phase p = .holding false →
      Step p .removeLock c
        { c.goto p .idle with lock := none, owned := Function.update c.owned p none }
  | leave {c : Config} {journaled : Bool} : c.alive p = true → c.phase p = .holding journaled →
      Step p .leave c (c.goto p .idle)
  | exit {c : Config} : c.alive p = true →
      Step p .exit c
        { c with
          alive := Function.update c.alive p false
          gate := if c.gate = some p then none else c.gate }

def Stage.pending : Stage → Option Record
  | .sawLock lock => lock
  | .sawJournal _ j => some j
  | _ => none

namespace Config

def Exclusive (c : Config) : Prop :=
  ∀ p q, c.alive p = true → c.alive q = true → c.owned p ≠ none → c.owned q ≠ none → p = q

def Aimed (c : Config) : Prop :=
  ∀ p caller r f, c.alive p = true → c.phase p = .recovering caller (.unlocking r) →
    c.lock = some f → if caller = .rollback then c.owned p = some f.record else f.record = r

structure Resting (c : Config) : Prop where
  idle : ∀ p, c.phase p = .idle
  owned : ∀ p, c.owned p = none
  gate : c.gate = none

/-- The operation does not find the owner of a record dead that is no longer in
`change.lock`: an owner that has exited left its lock behind. -/
def Prompt (c : Config) (p : ℕ) (a : Action) : Prop :=
  ∀ caller stage r, a = .look false → c.phase p = .recovering caller stage →
    caller ≠ .rollback → stage.pending = some r → c.alive r.owner = false →
    c.lock = some ⟨r, true⟩

end Config

/-- Any interleaving of the operations of any number of processes. -/
def Run : Config → Config → Prop :=
  Relation.ReflTransGen fun c c' => ∃ p a, Step p a c c'

def PromptRun : Config → Config → Prop :=
  Relation.ReflTransGen fun c c' => ∃ p a, Step p a c c' ∧ c.Prompt p a

theorem Run.here {c₀ c : Config} (_ : Run c₀ c) : Run c c := .refl

/-! ## The invariant -/

def Phase.inside : Phase → Bool
  | .created => true
  | .holding _ => true
  | .recovering (.ownRead _) _ => true
  | .recovering .rollback (.leaving _) => false
  | .recovering .rollback _ => true
  | _ => false

namespace Config

def Condemned (c : Config) (r : Record) : Prop :=
  c.lock = some ⟨r, true⟩ ∧ c.alive r.owner = false

def Knows (c : Config) (p : ℕ) : Stage → Prop
  | .passed (some r) => r.owner = p ∨ c.Condemned r
  | .clearing r => c.Condemned r
  | .unlocking r => c.Condemned r
  | _ => True

/-- Only the holder of the gate is past it, a process that has created a lock and not removed
it finds it in place, and a recovery that has found an owner dead finds its lock in place. -/
structure Inv (c : Config) : Prop where
  gate : ∀ p caller stage, c.alive p = true → c.phase p = .recovering caller stage →
    stage ≠ .atGate → c.gate = some p
  owned : ∀ p r, c.alive p = true → c.owned p = some r →
    r.owner = p ∧ ∃ written, c.lock = some ⟨r, written⟩
  inside : ∀ p, c.alive p = true → (c.phase p).inside = true → c.owned p ≠ none
  knows : ∀ p caller stage, c.alive p = true → c.phase p = .recovering caller stage →
    caller ≠ .rollback → c.Knows p stage

variable {c c' : Config} {p q : ℕ} {a : Action} {phase : Phase}

@[simp] theorem goto_phase_self (c : Config) (p : ℕ) (phase : Phase) :
    (c.goto p phase).phase p = phase := Function.update_self ..

theorem Resting.inv (h : c.Resting) : c.Inv where
  gate p caller stage _ hphase := by
    rw [h.idle p] at hphase
    cases hphase
  owned p r _ hr := by
    rw [h.owned p] at hr
    cases hr
  inside p _ hin := by
    rw [h.idle p] at hin
    cases hin
  knows p caller stage _ hphase := by
    rw [h.idle p] at hphase
    cases hphase

theorem Inv.exclusive (h : c.Inv) : c.Exclusive := by
  intro p q hp hq hop hoq
  obtain ⟨r, hr⟩ := ne_none_iff_exists'.mp hop
  obtain ⟨r', hr'⟩ := ne_none_iff_exists'.mp hoq
  obtain ⟨howner, _, hlock⟩ := h.owned p r hp hr
  obtain ⟨howner', _, hlock'⟩ := h.owned q r' hq hr'
  rw [hlock] at hlock'
  rw [← howner, ← howner']
  exact congrArg (fun f : LockFile => f.record.owner) (Option.some.inj hlock')

theorem Inv.aimed (h : c.Inv) : c.Aimed := by
  intro p caller r f hp hphase hf
  split
  · -- a rollback: the process is inside its transaction, so the lock is its own
    rename_i hcaller
    obtain ⟨r', hr'⟩ := ne_none_iff_exists'.mp
      (h.inside p hp (by rw [hphase, hcaller]; rfl))
    obtain ⟨-, _, hlock⟩ := h.owned p r' hp hr'
    rw [hf] at hlock
    rw [hr', Option.some.inj hlock]
  · rename_i hcaller
    obtain ⟨hlock, -⟩ : c.Condemned r := h.knows p caller _ hp hphase hcaller
    rw [hf] at hlock
    rw [Option.some.inj hlock]

/-! ## Preservation -/

theorem Inv.not_condemned (h : c.Inv) {r r' : Record} (hp : c.alive p = true)
    (hr : c.owned p = some r) : ¬ c.Condemned r' := by
  rintro ⟨hlock', hdead⟩
  obtain ⟨howner, _, hlock⟩ := h.owned p r hp hr
  rw [hlock] at hlock'
  have heq : r = r' := congrArg LockFile.record (Option.some.inj hlock')
  rw [← heq, howner, hp] at hdead
  cases hdead

theorem Inv.goto (h : c.Inv)
    (hgate : ∀ caller stage, phase = .recovering caller stage → stage ≠ .atGate → c.gate = some p)
    (hin : phase.inside = true → c.owned p ≠ none)
    (hknows : ∀ caller stage, phase = .recovering caller stage → caller ≠ .rollback →
      c.Knows p stage) : (c.goto p phase).Inv where
  gate q caller stage hq hphase hstage := by
    rcases update_cases hphase with ⟨rfl, hself⟩ | ⟨hqp, hphase⟩
    · exact hgate caller stage hself hstage
    · exact h.gate q caller stage hq hphase hstage
  owned q r hq hr := h.owned q r hq hr
  inside q hq hin' := by
    rcases seen_update_cases Phase.inside hin' with ⟨rfl, hself⟩ | ⟨hqp, hin'⟩
    · exact hin hself
    · exact h.inside q hq hin'
  knows q caller stage hq hphase hcaller := by
    have hsame : ∀ stage, c.Knows q stage → (c.goto p phase).Knows q stage := fun _ hk => hk
    refine hsame stage ?_
    rcases update_cases hphase with ⟨rfl, hself⟩ | ⟨hqp, hphase⟩
    · exact hknows caller stage hself hcaller
    · exact h.knows q caller stage hq hphase hcaller

variable {caller : Caller} {unknown : Bool}

theorem pass_dead {r : Record} (hcaller : caller ≠ .rollback)
    (h : c.pass p caller unknown r = true) : c.alive r.owner = false ∧ unknown = false := by
  simp only [pass, hcaller, decide_false, Bool.false_or, Bool.and_eq_true, Bool.not_eq_true'] at h
  exact ⟨h.1.2, h.2⟩

variable {stage : Stage}

theorem Inv.knows_look (h : c.Inv) (hp : c.alive p = true)
    (hphase : c.phase p = .recovering caller stage) (hcaller : caller ≠ .rollback)
    (hprompt : c.Prompt p (.look unknown)) : c.Knows p (c.look p caller unknown stage) := by
  have hcondemned : ∀ r, stage.pending = some r → c.pass p caller unknown r = true →
      c.Condemned r := by
    intro r hr hpass
    obtain ⟨hdead, rfl⟩ := pass_dead hcaller hpass
    exact ⟨hprompt caller stage r rfl hphase hcaller hr hdead, hdead⟩
  have hold := h.knows p caller stage hp hphase hcaller
  cases stage with
  | gated =>
    show c.Knows p c.readLock
    unfold readLock
    split <;> trivial
  | sawLock lock =>
    cases lock with
    | none => trivial
    | some r =>
      show c.Knows p (c.inspectLock p caller unknown r)
      unfold inspectLock
      split_ifs with hpass hown
      · exact .inr (hcondemned r rfl hpass)
      · exact .inl hown.1
      · trivial
  | passed lock =>
    show c.Knows p (c.readJournal p caller lock)
    unfold readJournal
    split
    · trivial
    · split_ifs with hown
      · trivial
      · exact hold.resolve_left fun heq => hown ⟨heq, hcaller⟩
    · trivial
    · split_ifs <;> trivial
  | sawJournal lock j =>
    show c.Knows p (c.inspectJournal p caller unknown j)
    unfold inspectJournal
    split_ifs with hpass
    · exact hcondemned j rfl hpass
    · trivial
  | atGate | leaving => trivial
  | clearing | unlocking => exact hold

theorem look_atGate (h : c.look p caller unknown stage ≠ .atGate) : stage ≠ .atGate := by
  rintro rfl
  exact h rfl

theorem inside_recovering {stage stage' : Stage}
    (h : (Phase.recovering caller stage').inside = true) (hstage : ∀ success, stage ≠ .leaving success) :
    (Phase.recovering caller stage).inside = true := by
  cases caller with
  | rollback =>
    cases stage with
    | leaving success => exact absurd rfl (hstage success)
    | _ => rfl
  | ownRead journaled => rfl
  | _ => cases h

variable {success : Bool}

theorem inside_leaving (h : (Phase.recovering caller (.leaving success)).inside = true) :
    (Phase.recovering caller stage).inside = true := by
  cases caller with
  | ownRead journaled => rfl
  | _ => cases h

theorem inside_look (h : (Phase.recovering caller (c.look p caller unknown stage)).inside = true) :
    (Phase.recovering caller stage).inside = true := by
  by_cases hleave : ∃ success, stage = .leaving success
  · obtain ⟨success, rfl⟩ := hleave
    exact h
  · exact inside_recovering h fun success heq => hleave ⟨success, heq⟩

theorem inside_resume (h : (caller.resume success).inside = true) :
    (Phase.recovering caller stage).inside = true := by
  cases caller with
  | ownRead journaled => rfl
  | reader => cases h
  | rollback => cases h
  | publisher | committer => cases success <;> cases h

theorem idle_ne : Phase.idle ≠ .recovering caller stage :=
  nofun

theorem holding_ne {journaled : Bool} :
    Phase.holding journaled ≠ .recovering caller stage := nofun

theorem resume_ne {caller caller' : Caller} :
    caller.resume success ≠ .recovering caller' stage := by
  cases caller <;> cases success <;> exact nofun

theorem Inv.journal (h : c.Inv) (j : Option Record) : ({ c with journal := j } : Config).Inv :=
  ⟨h.gate, h.owned, h.inside, h.knows⟩

theorem Inv.takeGate (h : c.Inv) (hgate : c.gate = none) (p : ℕ) :
    ({ c with gate := some p } : Config).Inv where
  gate q caller stage hq hphase hstage := by
    have := h.gate q caller stage hq hphase hstage
    rw [hgate] at this
    cases this
  owned := h.owned
  inside := h.inside
  knows := h.knows

theorem Inv.dropGate (h : c.Inv) (hno : ∀ q caller stage, c.alive q = true →
    c.phase q = .recovering caller stage → stage = .atGate) :
    ({ c with gate := none } : Config).Inv where
  gate q caller stage hq hphase hstage := absurd (hno q caller stage hq hphase) hstage
  owned := h.owned
  inside := h.inside
  knows := h.knows

theorem Inv.lock_none (h : c.Inv) (hlock : c.lock = none) :
    (∀ q, c.alive q = true → c.owned q = none) ∧ ∀ r, ¬ c.Condemned r := by
  refine ⟨fun q hq => ?_, fun r hr => ?_⟩
  · by_contra hne
    obtain ⟨r, hr⟩ := ne_none_iff_exists'.mp hne
    obtain ⟨-, _, hl⟩ := h.owned q r hq hr
    rw [hlock] at hl
    cases hl
  · rw [Condemned, hlock] at hr
    cases hr.1

theorem Knows.of_not_condemned (h : c.Knows q stage) (hno : ∀ r, ¬ c.Condemned r) :
    c'.Knows q stage := by
  cases stage with
  | passed lock =>
    cases lock with
    | none => trivial
    | some r => exact .inl (h.resolve_right (hno r))
  | clearing r | unlocking r => exact absurd h (hno r)
  | _ => trivial

section

variable (h : c.Inv)
include h

theorem Inv.makeLock (hlock : c.lock = none) (p : ℕ) (written : Bool) :
    ({ c with
      lock := some ⟨⟨p, c.fresh⟩, written⟩
      owned := Function.update c.owned p (some ⟨p, c.fresh⟩)
      fresh := c.fresh + 1 } : Config).Inv where
  gate := h.gate
  owned q r' hq hr' := by
    dsimp only at hr' ⊢
    by_cases hqp : q = p
    · subst hqp
      rw [Function.update_self] at hr'
      rw [← Option.some.inj hr']
      exact ⟨rfl, written, rfl⟩
    · rw [Function.update_of_ne hqp, (h.lock_none hlock).1 q hq] at hr'
      cases hr'
  inside q hq hin := by
    dsimp only
    by_cases hqp : q = p
    · subst hqp
      rw [Function.update_self]
      exact some_ne_none _
    · rw [Function.update_of_ne hqp]
      exact h.inside q hq hin
  knows q caller stage hq hphase hcaller :=
    (h.knows q caller stage hq hphase hcaller).of_not_condemned (h.lock_none hlock).2

theorem Inv.dropLock {owned : ℕ → Option Record}
    (hown : ∀ q, c.alive q = true → owned q = none)
    (hother : ∀ q, c.alive q = true → q ≠ p → c.owned q = none)
    (hin : phase.inside = false)
    (hrec : ∀ caller stage, phase = .recovering caller stage →
      c.gate = some p ∧ ∃ success, stage = .leaving success)
    (hknows : c.gate = some p ∨ ∀ r, ¬ c.Condemned r) :
    ({ c.goto p phase with lock := none, owned := owned } : Config).Inv where
  gate q caller stage hq hphase hstage := by
    rcases update_cases hphase with ⟨rfl, hself⟩ | ⟨hqp, hphase⟩
    · exact (hrec caller stage hself).1
    · exact h.gate q caller stage hq hphase hstage
  owned q r hq hr := by
    have hr : owned q = some r := hr
    rw [hown q hq] at hr
    cases hr
  inside q hq hin' := by
    exfalso
    rcases seen_update_cases Phase.inside hin' with ⟨rfl, hself⟩ | ⟨hqp, hin'⟩
    · cases hin.symm.trans hself
    · exact h.inside q hq hin' (hother q hq hqp)
  knows q caller stage hq hphase hcaller := by
    rcases update_cases hphase with ⟨rfl, hself⟩ | ⟨hqp, hphase⟩
    · obtain ⟨success, rfl⟩ := (hrec caller stage hself).2
      trivial
    · rcases hknows with hgate | hno
      · have hstage : stage = .atGate := by
          by_contra hne
          have hgate' := h.gate q caller stage hq hphase hne
          rw [hgate] at hgate'
          exact hqp (Option.some.inj hgate').symm
        rw [hstage]
        trivial
      · exact (h.knows q caller stage hq hphase hcaller).of_not_condemned hno

theorem Inv.owned_none (hp : c.alive p = true) (hown : c.owned p ≠ none)
    (hq : c.alive q = true) (hqp : q ≠ p) : c.owned q = none := by
  by_contra hne
  exact hqp (h.exclusive q p hq hp hne hown)

theorem Inv.fillLock (r : Record) : ({ c with
      lock := if c.lock = some ⟨r, false⟩ then some ⟨r, true⟩ else c.lock } : Config).Inv := by
  by_cases hlock : c.lock = some ⟨r, false⟩
  · have hno : ∀ r', ¬ c.Condemned r' := by
      rintro r' ⟨hl, -⟩
      rw [hlock] at hl
      cases hl
    simp only [if_pos hlock]
    refine ⟨h.gate, fun q r' hq hr' => ?_, h.inside, fun q caller stage hq hphase hcaller =>
      (h.knows q caller stage hq hphase hcaller).of_not_condemned hno⟩
    obtain ⟨howner, _, hl⟩ := h.owned q r' hq hr'
    rw [hlock] at hl
    have heq : r = r' := congrArg LockFile.record (Option.some.inj hl)
    exact ⟨howner, true, by rw [heq]⟩
  · simp only [if_neg hlock]
    exact h

theorem Inv.exit (p : ℕ) : ({ c with
      alive := Function.update c.alive p false
      gate := if c.gate = some p then none else c.gate } : Config).Inv := by
  have halive : ∀ q, Function.update c.alive p false q = true → q ≠ p ∧ c.alive q = true := by
    intro q hq
    rcases update_cases hq with ⟨rfl, hself⟩ | ⟨hqp, hq⟩
    · cases hself
    · exact ⟨hqp, hq⟩
  refine ⟨fun q caller stage hq hphase hstage => ?_, fun q r hq hr => h.owned q r (halive q hq).2 hr,
    fun q hq hin => h.inside q (halive q hq).2 hin, fun q caller stage hq hphase hcaller => ?_⟩
  · have hgate := h.gate q caller stage (halive q hq).2 hphase hstage
    rw [hgate, if_neg fun heq => (halive q hq).1 (Option.some.inj heq)]
  · have hcondemned : ∀ r, c.Condemned r → Function.update c.alive p false r.owner = false := by
      intro r hr
      by_cases hrp : r.owner = p
      · rw [hrp, Function.update_self]
      · rw [Function.update_of_ne hrp]
        exact hr.2
    have hk := h.knows q caller stage (halive q hq).2 hphase hcaller
    cases stage with
    | passed lock =>
      cases lock with
      | none => trivial
      | some r => exact hk.imp_right fun hr => ⟨hr.1, hcondemned r hr⟩
    | clearing r | unlocking r => exact ⟨hk.1, hcondemned r hk⟩
    | _ => trivial

theorem Inv.gotoPlain (hrec : ∀ caller stage, phase ≠ .recovering caller stage)
    (hin : phase.inside = true → c.owned p ≠ none) : (c.goto p phase).Inv :=
  h.goto (fun caller stage heq _ => absurd heq (hrec caller stage)) hin
    fun caller stage heq _ => absurd heq (hrec caller stage)

theorem Inv.gotoGate
    (hin : (Phase.recovering caller .atGate).inside = true → c.owned p ≠ none) :
    (c.goto p (.recovering caller .atGate)).Inv := by
  refine h.goto (fun caller' stage heq hstage => ?_) hin fun caller' stage heq _ => ?_
  · cases heq
    exact absurd rfl hstage
  · cases heq
    trivial

theorem Inv.step (hs : Step p a c c') (hprompt : c.Prompt p a) : c'.Inv := by
  cases hs with
  | call hp hphase hcaller =>
    refine h.gotoGate fun hin => ?_
    simp only [List.mem_cons, List.not_mem_nil, or_false] at hcaller
    rcases hcaller with rfl | rfl | rfl <;> cases hin
  | readOwn hp hphase | rollBack hp hphase =>
    exact h.gotoGate fun _ => h.inside p hp (by rw [hphase]; rfl)
  | acquireGate hp hphase hgate =>
    refine (h.takeGate hgate p).goto (fun _ _ _ _ => rfl) (fun hin => h.inside p hp ?_)
      fun caller stage heq _ => ?_
    · rw [hphase]
      exact inside_recovering hin fun _ heq => by cases heq
    · cases heq
      trivial
  | giveUp hp hphase =>
    refine h.gotoPlain (fun _ _ => resume_ne) fun hin => h.inside p hp ?_
    rw [hphase]
    exact inside_resume hin
  | look unknown hp hphase =>
    refine h.goto (fun caller' stage' heq hstage => ?_) (fun hin => ?_)
      fun caller' stage' heq hcaller => ?_
    · cases heq
      exact h.gate p _ _ hp hphase (look_atGate hstage)
    · refine h.inside p hp ?_
      rw [hphase]
      exact inside_look hin
    · cases heq
      exact h.knows_look hp hphase hcaller hprompt
  | fail hp hphase hstage =>
    refine h.goto (fun caller' stage' heq _ => h.gate p _ _ hp hphase hstage)
      (fun hin => h.inside p hp ?_) fun caller' stage' heq _ => ?_
    · rw [hphase]
      exact inside_leaving hin
    · cases heq
      trivial
  | removeJournal hp hphase hj =>
    have hgate := h.gate p _ _ hp hphase nofun
    refine (h.journal none).goto (fun _ _ _ _ => hgate)
      (fun hin => h.inside p hp ?_) fun caller stage heq hcaller => ?_
    · rw [hphase]
      exact inside_recovering hin fun _ heq => by cases heq
    · cases heq
      exact h.knows p _ _ hp hphase hcaller
  | unlinkLock hp hphase =>
    rename_i caller r
    have hgate := h.gate p _ _ hp hphase nofun
    -- either the process owns the lock it removes, or it has found the owner dead
    have hown : (caller = .rollback ∧ c.owned p ≠ none) ∨
        caller ≠ .rollback ∧ ∀ q, c.alive q = true → c.owned q = none := by
      by_cases hcaller : caller = .rollback
      · refine .inl ⟨hcaller, h.inside p hp ?_⟩
        rw [hphase, hcaller]
        rfl
      · refine .inr ⟨hcaller, fun q hq => ?_⟩
        by_contra hne
        obtain ⟨r', hr'⟩ := ne_none_iff_exists'.mp hne
        exact h.not_condemned hq hr' (h.knows p _ _ hp hphase hcaller)
    refine h.dropLock (fun q hq => ?_) (fun q hq hqp => ?_) ?_ (fun caller' stage heq => ?_)
      (.inl hgate)
    · rcases hown with ⟨hcaller, hne⟩ | ⟨hcaller, hnone⟩
      · rw [if_pos hcaller]
        by_cases hqp : q = p
        · rw [hqp, Function.update_self]
        · rw [Function.update_of_ne hqp]
          exact h.owned_none hp hne hq hqp
      · rw [if_neg hcaller]
        exact hnone q hq
    · rcases hown with ⟨-, hne⟩ | ⟨-, hnone⟩
      · exact h.owned_none hp hne hq hqp
      · exact hnone q hq
    · -- a read inside the own transaction does not come here: it would own no lock
      rw [Bool.eq_false_iff]
      intro hin
      rcases hown with ⟨rfl, -⟩ | ⟨-, hnone⟩
      · cases hin
      · refine h.inside p hp ?_ (hnone p hp)
        rw [hphase]
        exact inside_leaving hin
    · cases heq
      exact ⟨hgate, true, rfl⟩
  | releaseGate hp hphase =>
    rename_i caller success
    have hgate := h.gate p _ _ hp hphase nofun
    have hmoved : (c.goto p (caller.resume success)).Inv := h.gotoPlain (fun _ _ => resume_ne) fun hin => by
      refine h.inside p hp ?_
      rw [hphase]
      exact inside_resume hin
    refine hmoved.dropGate fun q caller' stage hq hphase' => ?_
    by_contra hne
    have hgate' := hmoved.gate q caller' stage hq hphase' hne
    have hqp : q = p := by
      have hgate' : c.gate = some q := hgate'
      rw [hgate] at hgate'
      exact (Option.some.inj hgate').symm
    subst hqp
    rw [goto_phase_self] at hphase'
    exact resume_ne hphase'
  | link hp hphase hlock =>
    refine (h.makeLock hlock p true).gotoPlain (fun _ _ => holding_ne) fun _ => ?_
    dsimp only
    rw [Function.update_self]
    exact some_ne_none _
  | create hp hphase hlock =>
    refine (h.makeLock hlock p false).gotoPlain nofun fun _ => ?_
    dsimp only
    rw [Function.update_self]
    exact some_ne_none _
  | taken | leave =>
    exact h.gotoPlain (fun _ _ => idle_ne) fun hin => by cases hin
  | fill hp hphase hr =>
    refine (h.fillLock _).gotoPlain (fun _ _ => holding_ne) fun _ => ?_
    exact h.inside p hp (by rw [hphase]; rfl)
  | writeJournal hp hphase hr =>
    rename_i r
    refine (h.journal (some r)).gotoPlain (fun _ _ => holding_ne) fun _ => ?_
    exact h.inside p hp (by rw [hphase]; rfl)
  | dropJournal hp hphase =>
    refine (h.journal none).gotoPlain (fun _ _ => holding_ne) fun _ => ?_
    exact h.inside p hp (by rw [hphase]; rfl)
  | removeLock hp hphase =>
    have hne := h.inside p hp (by rw [hphase]; rfl)
    obtain ⟨r, hr⟩ := ne_none_iff_exists'.mp hne
    refine h.dropLock (fun q hq => ?_) (fun _ => h.owned_none hp hne) rfl
      (fun _ _ heq => absurd heq idle_ne)
      (.inr fun r' => h.not_condemned hp hr)
    by_cases hqp : q = p
    · rw [hqp, Function.update_self]
    · rw [Function.update_of_ne hqp]
      exact h.owned_none hp hne hq hqp
  | exit hp => exact h.exit p

end

end Config

theorem PromptRun.inv {c₀ c : Config} (h : PromptRun c₀ c) (h₀ : c₀.Resting) : c.Inv := by
  induction h with
  | refl => exact h₀.inv
  | tail _ hlast ih =>
    obtain ⟨p, a, hstep, hprompt⟩ := hlast
    exact ih.step hstep hprompt

/-- **Exclusion.** In every interleaving in which no liveness check comes too late, there is
at every moment at most one live process between the creation of its lock and its own
removal of it, and recovery removes no lock but the one whose owner it has looked for. -/
theorem exclusive_of_prompt {c₀ c : Config} (h₀ : c₀.Resting) (h : PromptRun c₀ c) :
    c.Exclusive ∧ c.Aimed :=
  ⟨(h.inv h₀).exclusive, (h.inv h₀).aimed⟩

namespace Sample

def abandoned : Config :=
  ⟨fun p => p ≠ 1, fun _ => .idle, fun _ => none, none, some ⟨⟨1, 0⟩, true⟩, none, 1⟩

theorem resting_abandoned : abandoned.Resting := ⟨fun _ => rfl, fun _ => rfl, rfl⟩

end Sample

open Sample in
theorem exclusive_of_prompt_abandoned :
    ∃ c, PromptRun abandoned c ∧ c.phase 2 = .recovering .reader (.unlocking ⟨1, 0⟩) ∧
      c.Exclusive ∧ c.Aimed := by
  have hreader : Caller.reader ∈ [Caller.reader, .publisher, .committer] := by decide
  have h₁ : PromptRun abandoned _ :=
    .single ⟨2, _, .call rfl rfl hreader, nofun⟩
  have h₂ := h₁.tail ⟨2, _, .acquireGate rfl rfl rfl, nofun⟩
  have h₃ := h₂.tail ⟨2, _, .look false rfl rfl, fun _ _ _ _ hphase _ hpending => by
    cases hphase
    cases hpending⟩
  -- the lock is still there when its owner is looked for
  have h₄ := h₃.tail ⟨2, _, .look false rfl rfl, fun _ _ _ _ hphase _ hpending _ => by
    cases hphase
    cases hpending
    rfl⟩
  have h₅ := h₄.tail ⟨2, _, .look false rfl rfl, fun _ _ _ _ hphase _ hpending => by
    cases hphase
    cases hpending⟩
  exact ⟨_, h₅, rfl, exclusive_of_prompt resting_abandoned h₅⟩

/-! ## A late liveness check -/

namespace Sample

def rest : Config := ⟨fun _ => true, fun _ => .idle, fun _ => none, none, none, none, 0⟩

end Sample

theorem run_recovered {c : Config} {p : ℕ} (hp : c.alive p = true) (hphase : c.phase p = .idle)
    (hgate : c.gate = none) (hlock : c.lock = none) (hjournal : c.journal = none) :
    Run c (c.goto p (.recovered .publisher)) := by
  have hself : ∀ c : Config, ∀ phase, (c.goto p phase).phase p = phase := fun c phase =>
    c.goto_phase_self p phase
  have hcaller : Caller.publisher ∈ [Caller.reader, .publisher, .committer] := by decide
  have h₁ : Run c _ := .single ⟨p, _, .call hp hphase hcaller⟩
  have h₂ := h₁.tail ⟨p, _, .acquireGate hp (hself _ _) hgate⟩
  have h₃ := h₂.tail ⟨p, _, .look false hp (hself _ _)⟩
  have h₄ := h₃.tail ⟨p, _, .look false hp (hself _ _)⟩
  have h₅ := h₄.tail ⟨p, _, .look false hp (hself _ _)⟩
  simp only [Config.look, Config.readLock, Config.readJournal, Config.goto, hlock, hjournal,
    Function.update_idem] at h₅
  have h₆ := h₅.tail ⟨p, _, .releaseGate hp (Function.update_self ..)⟩
  simpa only [Run, Config.goto, Function.update_idem, Caller.resume, hgate, hlock, hjournal,
    if_true] using h₆

namespace Sample

def overtaken : Config :=
  { (rest.goto 0 (.recovered .publisher)).goto 1 (.holding false) with
    lock := some ⟨⟨1, 0⟩, true⟩
    owned := Function.update rest.owned 1 (some ⟨1, 0⟩)
    fresh := 1 }

theorem run_overtaken : Run rest overtaken := by
  have h₁ : Run rest _ := run_recovered (p := 0) rfl rfl rfl rfl rfl
  have h₂ := h₁.trans (run_recovered (p := 1) rfl rfl rfl rfl rfl)
  have h₃ := h₂.tail ⟨1, _, .link rfl rfl rfl⟩
  simp only [Config.goto, Function.update_idem] at h₃
  exact h₃

end Sample

open Sample in
/-- Process 2 reads the lock of process 1, process 1 finishes and exits, process 0 links its
lock, and only then process 2 looks for process 1. It removes the lock of process 0, and
process 3 takes the next one while process 0 is still inside its transaction. -/
theorem late_check_breaks_exclusion :
    rest.Resting ∧ ∃ c c', Run rest c ∧ ¬ c.Aimed ∧ Run c c' ∧ ¬ c'.Exclusive := by
  have hreader : Caller.reader ∈ [Caller.reader, .publisher, .committer] := by decide
  have h₁ := run_overtaken.tail ⟨2, _, .call rfl rfl hreader⟩
  have h₂ := h₁.tail ⟨2, _, .acquireGate rfl rfl rfl⟩
  have h₃ := h₂.tail ⟨2, _, .look false rfl rfl⟩
  have h₄ := h₃.tail ⟨1, _, .removeLock rfl rfl⟩
  have h₅ := h₄.tail ⟨1, _, .exit rfl⟩
  have h₆ := h₅.tail ⟨0, _, .link rfl rfl rfl⟩
  have h₇ := h₆.tail ⟨2, _, .look false rfl rfl⟩
  have h₈ := h₇.tail ⟨2, _, .look false rfl rfl⟩
  have g₀ := Run.here h₈
  have g₁ := g₀.tail ⟨2, _, .unlinkLock rfl rfl⟩
  have g₂ := g₁.tail ⟨2, _, .releaseGate rfl rfl⟩
  have g₃ := g₂.trans (run_recovered (p := 3) rfl rfl rfl rfl rfl)
  have g₄ := g₃.tail ⟨3, _, .link rfl rfl rfl⟩
  refine ⟨⟨fun _ => rfl, fun _ => rfl, rfl⟩, _, _, h₈, fun haimed => ?_, g₄, fun hexclusive => ?_⟩
  · have hrecord := haimed 2 .reader ⟨1, 0⟩ ⟨⟨0, 1⟩, true⟩ rfl rfl rfl
    exact absurd hrecord (by decide)
  · have heq := hexclusive 0 3 rfl rfl (by decide) (by decide)
    cases heq

end Scenery.Exclusion
