import Mathlib.Logic.Relation

/-!
# Programs over atomic operations, and what a crash leaves behind

A program is a tree of operations: `ret` and `fail` are its leaves, `op o k` performs the
operation `o` and continues with `k` on the reply.
-/

namespace Scenery

/-- Program syntax over the operations `Op`, with replies `Reply` and errors `ε`. -/
inductive Prog (Op : Type) (Reply : Op → Type) (ε α : Type) : Type where
  | ret : α → Prog Op Reply ε α
  | fail : ε → Prog Op Reply ε α
  | op : (o : Op) → (Reply o → Prog Op Reply ε α) → Prog Op Reply ε α

structure Machine (Op : Type) (Reply : Op → Type) (S : Type) where
  exec : (o : Op) → S → Reply o × S
  cut : Op → S → S → Prop
  fault : (o : Op) → Reply o → Prop
  cut_refl : ∀ o s, cut o s s

namespace Machine

variable {Op : Type} {Reply : Op → Type} {S : Type}

def Step (M : Machine Op Reply S) (o : Op) (s : S) (x : Reply o) (s' : S) : Prop :=
  M.exec o s = (x, s') ∨ M.fault o x ∧ M.cut o s s'

def Reads (M : Machine Op Reply S) (o : Op) : Prop :=
  ∀ s, (M.exec o s).2 = s ∧ ∀ s', M.cut o s s' → s' = s

end Machine

namespace Prog

variable {Op : Type} {Reply : Op → Type} {S ε α β : Type}

protected def bind : Prog Op Reply ε α → (α → Prog Op Reply ε β) → Prog Op Reply ε β
  | ret a, f => f a
  | fail e, _ => fail e
  | op o k, f => op o fun x => (k x).bind f

instance : Monad (Prog Op Reply ε) where
  pure := ret
  bind := Prog.bind

def attempt : Prog Op Reply ε α → Prog Op Reply ε (Except ε α)
  | ret a => ret (.ok a)
  | fail e => ret (.error e)
  | op o k => op o fun x => (k x).attempt

def call (o : Op) : Prog Op Reply ε (Reply o) := op o ret

@[simp] theorem pure_eq (a : α) : (pure a : Prog Op Reply ε α) = ret a := rfl

@[simp] theorem bind_eq (p : Prog Op Reply ε α) (f : α → Prog Op Reply ε β) :
    p >>= f = p.bind f := rfl

@[simp] theorem ret_bind (a : α) (f : α → Prog Op Reply ε β) :
    (ret a : Prog Op Reply ε α).bind f = f a := rfl

@[simp] theorem fail_bind (e : ε) (f : α → Prog Op Reply ε β) :
    (fail e : Prog Op Reply ε α).bind f = fail e := rfl

@[simp] theorem call_bind (o : Op) (f : Reply o → Prog Op Reply ε β) :
    (call o : Prog Op Reply ε (Reply o)).bind f = op o f := rfl

def run (M : Machine Op Reply S) : Prog Op Reply ε α → S → Except ε α × S
  | ret a, s => (.ok a, s)
  | fail e, s => (.error e, s)
  | op o k, s => run M (k (M.exec o s).1) (M.exec o s).2

variable {M : Machine Op Reply S}

@[simp] theorem run_ret (a : α) (s : S) :
    run M (ret a : Prog Op Reply ε α) s = (.ok a, s) := rfl

@[simp] theorem run_fail (e : ε) (s : S) :
    run M (fail e : Prog Op Reply ε α) s = (.error e, s) := rfl

@[simp] theorem run_op (o : Op) (k : Reply o → Prog Op Reply ε α) (s : S) :
    run M (op o k) s = run M (k (M.exec o s).1) (M.exec o s).2 := rfl

variable {p : Prog Op Reply ε α} {f : α → Prog Op Reply ε β} {s s' : S}

theorem run_bind_ok {a : α} (h : run M p s = (.ok a, s')) :
    run M (p.bind f) s = run M (f a) s' := by
  induction p generalizing s with
  | ret b =>
    obtain ⟨hb, rfl⟩ := Prod.mk.inj h
    cases hb
    rfl
  | fail e =>
    obtain ⟨he, -⟩ := Prod.mk.inj h
    cases he
  | op o k ih => exact ih _ h

theorem run_bind_error {e : ε} (h : run M p s = (.error e, s')) :
    run M (p.bind f) s = (.error e, s') := by
  induction p generalizing s with
  | ret b =>
    obtain ⟨hb, -⟩ := Prod.mk.inj h
    cases hb
  | fail e' =>
    obtain ⟨he, rfl⟩ := Prod.mk.inj h
    obtain rfl := Except.error.inj he
    rfl
  | op o k ih => exact ih _ h

/-- `attempt` turns the outcome of a run into its value. -/
@[simp] theorem run_attempt (p : Prog Op Reply ε α) (s : S) :
    run M p.attempt s = (.ok (run M p s).1, (run M p s).2) := by
  induction p generalizing s with
  | ret a => rfl
  | fail e => rfl
  | op o k ih => exact ih _ _

theorem run_attempt_bind {f : Except ε α → Prog Op Reply ε β} :
    run M (p.attempt.bind f) s = run M (f (run M p s).1) (run M p s).2 :=
  run_bind_ok (run_attempt p s)

def Runs (M : Machine Op Reply S) : Prog Op Reply ε α → S → Except ε α → S → Prop
  | ret a, s, r, s' => r = .ok a ∧ s' = s
  | fail e, s, r, s' => r = .error e ∧ s' = s
  | op o k, s, r, s' => ∃ x s₁, M.Step o s x s₁ ∧ Runs M (k x) s₁ r s'

def Crash (M : Machine Op Reply S) : Prog Op Reply ε α → S → S → Prop
  | ret _, s, s' => s' = s
  | fail _, s, s' => s' = s
  | op o k, s, s' => M.cut o s s' ∨ ∃ x s₁, M.Step o s x s₁ ∧ Crash M (k x) s₁ s'

def stop (M : Machine Op Reply S) : Nat → Prog Op Reply ε α → S → S
  | n + 1, op o k, s => stop M n (k (M.exec o s).1) (M.exec o s).2
  | _, _, s => s

theorem crash_stop (n : Nat) (p : Prog Op Reply ε α) (s : S) : Crash M p s (stop M n p s) := by
  induction p generalizing n s with
  | ret | fail => cases n <;> exact rfl
  | op o k ih =>
    cases n with
    | zero => exact .inl (M.cut_refl o s)
    | succ n => exact .inr ⟨_, _, .inl rfl, ih _ n _⟩

theorem runs_run (p : Prog Op Reply ε α) (s : S) : Runs M p s (run M p s).1 (run M p s).2 := by
  induction p generalizing s with
  | ret | fail => exact ⟨rfl, rfl⟩
  | op o k ih => exact ⟨_, _, .inl rfl, ih _ _⟩

theorem runs_bind_ok {b : β} (h : Runs M (p.bind f) s (.ok b) s') :
    ∃ a s₁, Runs M p s (.ok a) s₁ ∧ Runs M (f a) s₁ (.ok b) s' := by
  induction p generalizing s with
  | ret a => exact ⟨a, s, ⟨rfl, rfl⟩, h⟩
  | fail e => cases h.1
  | op o k ih =>
    obtain ⟨x, s₁, hstep, hrest⟩ := h
    obtain ⟨a, s₂, hk, hf⟩ := ih x hrest
    exact ⟨a, s₂, ⟨x, s₁, hstep, hk⟩, hf⟩

theorem crash_bind (h : Crash M (p.bind f) s s') :
    Crash M p s s' ∨ ∃ a s₁, Runs M p s (.ok a) s₁ ∧ Crash M (f a) s₁ s' := by
  induction p generalizing s with
  | ret a => exact .inr ⟨a, s, ⟨rfl, rfl⟩, h⟩
  | fail e => exact .inl h
  | op o k ih =>
    rcases h with hcut | ⟨x, s₁, hstep, hrest⟩
    · exact .inl (.inl hcut)
    · rcases ih x hrest with hk | ⟨a, s₂, hk, hf⟩
      · exact .inl (.inr ⟨x, s₁, hstep, hk⟩)
      · exact .inr ⟨a, s₂, ⟨x, s₁, hstep, hk⟩, hf⟩

/-! ## Crash preconditions -/

/-- The states from which every run of the program ends in `Q` and every crash point
satisfies `I`. -/
def wp (M : Machine Op Reply S) (Q : Except ε α → S → Prop) (I : S → Prop) :
    Prog Op Reply ε α → S → Prop
  | ret a, s => I s ∧ Q (.ok a) s
  | fail e, s => I s ∧ Q (.error e) s
  | op o k, s =>
    (∀ s', M.cut o s s' → I s') ∧ ∀ x s', M.Step o s x s' → wp M Q I (k x) s'

variable {Q : Except ε α → S → Prop} {I : S → Prop}

@[simp] theorem wp_ret (a : α) (s : S) :
    wp M Q I (ret a : Prog Op Reply ε α) s ↔ I s ∧ Q (.ok a) s := Iff.rfl

@[simp] theorem wp_fail (e : ε) (s : S) :
    wp M Q I (fail e : Prog Op Reply ε α) s ↔ I s ∧ Q (.error e) s := Iff.rfl

theorem wp.runs {r : Except ε α} (h : wp M Q I p s) (hr : Runs M p s r s') : Q r s' := by
  induction p generalizing s with
  | ret | fail =>
    obtain ⟨rfl, rfl⟩ := hr
    exact h.2
  | op o k ih =>
    obtain ⟨x, s₁, hstep, hrest⟩ := hr
    exact ih _ (h.2 _ _ hstep) hrest

theorem wp.crash (h : wp M Q I p s) (hc : Crash M p s s') : I s' := by
  induction p generalizing s with
  | ret | fail =>
    obtain rfl : s' = s := hc
    exact h.1
  | op o k ih =>
    rcases hc with hcut | ⟨x, s₁, hstep, hrest⟩
    · exact h.1 _ hcut
    · exact ih _ (h.2 _ _ hstep) hrest

theorem wp.run (h : wp M Q I p s) : Q (Prog.run M p s).1 (Prog.run M p s).2 :=
  h.runs (runs_run p s)

theorem wp.mono {Q Q' : Except ε α → S → Prop} {I I' : S → Prop} (h : wp M Q I p s)
    (hQ : ∀ r s, I s → Q r s → Q' r s) (hI : ∀ s, I s → I' s) : wp M Q' I' p s := by
  induction p generalizing s with
  | ret | fail => exact ⟨hI _ h.1, hQ _ _ h.1 h.2⟩
  | op o k ih =>
    exact ⟨fun s' hc => hI _ (h.1 s' hc), fun x s' hs => ih x (h.2 x s' hs)⟩

theorem wp_bind {Q : Except ε β → S → Prop}
    (h : wp M (fun r s' => match r with
      | .ok a => wp M Q I (f a) s'
      | .error e => Q (.error e) s') I p s) : wp M Q I (p.bind f) s := by
  induction p generalizing s with
  | ret a => exact h.2
  | fail e => exact h
  | op o k ih => exact ⟨h.1, fun x s' hs => ih x (h.2 x s' hs)⟩

theorem wp_bind_ret : wp M Q I (p.bind ret) s ↔ wp M Q I p s := by
  induction p generalizing s with
  | ret | fail => exact Iff.rfl
  | op o k ih => exact and_congr_right fun _ => forall₃_congr fun x s' _ => ih x

theorem wp_attempt {Q : Except ε (Except ε α) → S → Prop}
    (h : wp M (fun r s' => Q (.ok r) s') I p s) : wp M Q I p.attempt s := by
  induction p generalizing s with
  | ret | fail => exact h
  | op o k ih => exact ⟨h.1, fun x s' hs => ih x (h.2 x s' hs)⟩

def ReadOnly (M : Machine Op Reply S) : Prog Op Reply ε α → Prop
  | ret _ => True
  | fail _ => True
  | op o k => M.Reads o ∧ ∀ x, ReadOnly M (k x)

section

variable (hp : ReadOnly M p)
include hp

theorem ReadOnly.bind (hf : ∀ a, ReadOnly M (f a)) : ReadOnly M (p.bind f) := by
  induction p with
  | ret a => exact hf a
  | fail e => trivial
  | op o k ih => exact ⟨hp.1, fun x => ih x (hp.2 x)⟩

theorem ReadOnly.attempt : ReadOnly M p.attempt := by
  induction p with
  | ret | fail => trivial
  | op o k ih => exact ⟨hp.1, fun x => ih x (hp.2 x)⟩

theorem ReadOnly.wp {s : S} (hI : I s) (hQ : ∀ r, Runs M p s r s → Q r s) : Prog.wp M Q I p s := by
  induction p with
  | ret | fail => exact ⟨hI, hQ _ ⟨rfl, rfl⟩⟩
  | op o k ih =>
    refine ⟨fun s' hc => ?_, fun x s' hs => ?_⟩
    · rw [(hp.1 s).2 s' hc]
      exact hI
    · obtain rfl : s' = s := by
        rcases hs with hs | ⟨-, hc⟩
        · rw [← (hp.1 s).1, hs]
        · exact (hp.1 s).2 s' hc
      exact ih x (hp.2 x) fun r hr => hQ r ⟨x, s', hs, hr⟩

theorem ReadOnly.runs {s s' : S} {r : Except ε α} (h : Runs M p s r s') :
    s' = s :=
  (hp.wp (I := (· = s)) (Q := fun _ s' => s' = s) rfl fun _ _ => rfl).runs h

theorem ReadOnly.run_snd (s : S) :
    (Prog.run M p s).2 = s := hp.runs (runs_run p s)

end

end Prog

end Scenery
