import Mathlib.Data.Nat.Notation
import Scenery.Crash
import Scenery.Runs

/-!
# Calls under an exclusive lease

A service answers calls of any number of processes.
-/

namespace Scenery

/-! ## Bodies -/

namespace Prog

variable {Op Choice : Type} {Reply : Op → Type} {ε α β S : Type}

theorem bind_assoc {γ : Type} (p : Prog Op Reply ε α) (f : α → Prog Op Reply ε β)
    (g : β → Prog Op Reply ε γ) : (p >>= f) >>= g = p >>= fun a => f a >>= g := by
  induction p with
  | ret a => rfl
  | fail e => rfl
  | op o k ih => exact congrArg (Prog.op o) (funext ih)

theorem bind_ret (p : Prog Op Reply ε α) : p >>= .ret = p := by
  induction p with
  | ret a => rfl
  | fail e => rfl
  | op o k ih => exact congrArg (Prog.op o) (funext ih)

def outcome : Prog Op Reply ε α → Option (Except ε α)
  | .ret a => some (.ok a)
  | .fail e => some (.error e)
  | .op _ _ => none

/-- Along every run of the program the invariant holds, every operation is called where it may
be called, and the result meets `Q`. -/
def Safe (exec : (o : Op) → Choice → S → Option (Reply o × S)) (I : S → Prop)
    (Pre : Op → S → Prop) (Q : Except ε α → S → Prop) : Prog Op Reply ε α → S → Prop
  | .ret a, s => I s ∧ Q (.ok a) s
  | .fail e, s => I s ∧ Q (.error e) s
  | .op o k, s => I s ∧ Pre o s ∧
    ∀ choice x s', exec o choice s = some (x, s') → Safe exec I Pre Q (k x) s'

variable {exec : (o : Op) → Choice → S → Option (Reply o × S)} {I : S → Prop}
  {Pre : Op → S → Prop}

variable {p : Prog Op Reply ε α} {Q : Except ε α → S → Prop} {s : S}

theorem Safe.inv (h : Safe exec I Pre Q p s) : I s := by
  cases p with
  | ret | fail | op => exact h.1

theorem Safe.outcome
    {r : Except ε α} (h : Safe exec I Pre Q p s) (hr : p.outcome = some r) : Q r s := by
  cases p with
  | ret | fail =>
    cases hr
    exact h.2
  | op o k => cases hr

theorem Safe.mono {Q' : Except ε α → S → Prop} (h : Safe exec I Pre Q p s)
    (hQ : ∀ r s, I s → Q r s → Q' r s) : Safe exec I Pre Q' p s := by
  induction p generalizing s with
  | ret | fail => exact ⟨h.1, hQ _ _ h.1 h.2⟩
  | op o k ih => exact ⟨h.1, h.2.1, fun choice x s' hs => ih x (h.2.2 choice x s' hs)⟩

theorem Safe.and_stable {J : S → Prop} (h : Safe exec I Pre Q p s) (hs : J s)
    (hJ : ∀ o choice x s s', exec o choice s = some (x, s') → J s → J s') :
    Safe exec (fun s => I s ∧ J s) Pre (fun r s => Q r s ∧ J s) p s := by
  induction p generalizing s with
  | ret | fail => exact ⟨⟨h.1, hs⟩, h.2, hs⟩
  | op o k ih =>
    exact ⟨⟨h.1, hs⟩, h.2.1, fun choice x s' hx => ih x (h.2.2 choice x s' hx) (hJ _ _ _ _ _ hx hs)⟩

def Then (R : α → S → Prop) (Q : Except ε β → S → Prop) : Except ε α → S → Prop
  | .ok a, s => R a s
  | .error e, s => Q (.error e) s

theorem Safe.bind {Q : Except ε β → S → Prop} {f : α → Prog Op Reply ε β} {R : α → S → Prop}
    (h : Safe exec I Pre (Then R Q) p s) (hf : ∀ a s, I s → R a s → Safe exec I Pre Q (f a) s) :
    Safe exec I Pre Q (p.bind f) s := by
  induction p generalizing s with
  | ret a => exact hf a s h.1 h.2
  | fail e => exact h
  | op o k ih => exact ⟨h.1, h.2.1, fun choice x s' hs => ih x (h.2.2 choice x s' hs)⟩

end Prog

/-! ## Services -/

structure Service (Call Op Choice : Type) (Reply : Op → Type) (ε α S : Type) where
  admits : Call → S → Bool
  body : Call → Prog Op Reply ε α
  exec : (o : Op) → Choice → S → Option (Reply o × S)
  enter : ℕ → Call → S → S
  leave : ℕ → Call → Except ε α → S → S
  crash : S → S

namespace Service

variable {ι Call Op Choice : Type} {Reply : Op → Type} {ε α S : Type}

inductive Phase (Call Op : Type) (Reply : Op → Type) (ε α : Type) : Type where
  | idle
  | waiting (c : Call)
  | inside (session : ℕ) (c : Call) (rest : Prog Op Reply ε α)
  | leaving (session : ℕ) (c : Call) (result : Except ε α)

def Phase.session : Phase Call Op Reply ε α → Option ℕ
  | .idle => none
  | .waiting _ => none
  | .inside e _ _ => some e
  | .leaving e _ _ => some e

structure Answer (Call ε α S : Type) where
  session : ℕ
  call : Call
  result : Except ε α
  moment : S

structure State (ι Call Op : Type) (Reply : Op → Type) (ε α S : Type) where
  shared : S
  sessions : ℕ
  holder : Option ι
  phases : ι → Phase Call Op Reply ε α
  returned : List (Answer Call ε α S)

inductive Event (ι Call Choice : Type) : Type where
  | call (i : ι) (c : Call)
  | refuse (i : ι)
  | enter (i : ι)
  | act (i : ι) (choice : Choice)
  | leave (i : ι)
  | answer (i : ι)
  | crash (i : ι)

variable [DecidableEq ι] (V : Service Call Op Choice Reply ε α S)

def step (s : State ι Call Op Reply ε α S) :
    Event ι Call Choice → Option (State ι Call Op Reply ε α S)
  | .call i c =>
    match s.phases i with
    | .idle =>
      if V.admits c s.shared then
        some { s with phases := Function.update s.phases i (.waiting c) }
      else none
    | _ => none
  | .refuse i =>
    match s.phases i with
    | .waiting _ => some { s with phases := Function.update s.phases i .idle }
    | _ => none
  | .enter i =>
    match s.phases i, s.holder with
    | .waiting c, none => some { s with
        shared := V.enter s.sessions c s.shared
        sessions := s.sessions + 1
        holder := some i
        phases := Function.update s.phases i (.inside s.sessions c (V.body c)) }
    | _, _ => none
  | .act i choice =>
    match s.phases i with
    | .inside e c (.op o k) => (V.exec o choice s.shared).map fun x => { s with
        shared := x.2
        phases := Function.update s.phases i (.inside e c (k x.1)) }
    | _ => none
  | .leave i =>
    match s.phases i with
    | .inside e c p => p.outcome.map fun r => { s with
        shared := V.leave e c r s.shared
        holder := none
        phases := Function.update s.phases i (.leaving e c r) }
    | _ => none
  | .answer i =>
    match s.phases i with
    | .leaving e c r => some { s with
        phases := Function.update s.phases i .idle
        returned := ⟨e, c, r, s.shared⟩ :: s.returned }
    | _ => none
  | .crash i =>
    match s.phases i with
    | .inside _ _ _ => some { s with
        shared := V.crash s.shared
        holder := none
        phases := Function.update s.phases i .idle }
    | _ => some { s with phases := Function.update s.phases i .idle }

def initial (shared : S) : State ι Call Op Reply ε α S :=
  ⟨shared, 0, none, fun _ => .idle, []⟩

/-! ## The rule -/

/-- An invariant of the shared state, for the number of leases taken, with what holds at every
operation and a fact about every result that no later step destroys. -/
structure Rule where
  I : ℕ → S → Prop
  Pre : Op → S → Prop
  Out : ℕ → Call → Except ε α → S → Prop
  body : ∀ e c s, I e s → Prog.Safe V.exec (I (e + 1)) Pre
    (fun r s => I (e + 1) (V.leave e c r s) ∧ Out e c r (V.leave e c r s)) (V.body c)
    (V.enter e c s)
  crash : ∀ n s, I n s → I n (V.crash s)
  out_exec : ∀ e c r o choice x s s', Out e c r s → V.exec o choice s = some (x, s') →
    Out e c r s'
  out_enter : ∀ e c r e' c' s, e < e' → Out e c r s → Out e c r (V.enter e' c' s)
  out_leave : ∀ e c r e' c' r' s, Out e c r s → Out e c r (V.leave e' c' r' s)
  out_crash : ∀ e c r s, Out e c r s → Out e c r (V.crash s)

variable {V} (R : V.Rule)

/-- One session at a time is inside, and what it has left to do is safe. -/
structure Rule.Sound (s : State ι Call Op Reply ε α S) : Prop where
  shared : R.I s.sessions s.shared
  holder : ∀ i e c p, s.phases i = .inside e c p → s.holder = some i
  inside : ∀ i e c p, s.phases i = .inside e c p → Prog.Safe V.exec (R.I s.sessions) R.Pre
    (fun r s' => R.I s.sessions (V.leave e c r s') ∧ R.Out e c r (V.leave e c r s')) p s.shared
  leaving : ∀ i e c r, s.phases i = .leaving e c r → R.Out e c r s.shared
  session : ∀ i e, (s.phases i).session = some e → e < s.sessions
  distinct : ∀ i j e, (s.phases i).session = some e → (s.phases j).session = some e → i = j
  returned : ∀ a ∈ s.returned, R.Out a.session a.call a.result a.moment ∧
    R.Out a.session a.call a.result s.shared ∧ a.session < s.sessions ∧
    ∀ i, (s.phases i).session ≠ some a.session
  nodup : (s.returned.map Answer.session).Nodup

variable {R} {s s' : State ι Call Op Reply ε α S} {shared : S}

omit [DecidableEq ι] in
theorem Rule.Sound.initial (h : R.I 0 shared) :
    R.Sound (Service.initial shared : State ι Call Op Reply ε α S) where
  shared := h
  holder i e c p hp := by cases hp
  inside i e c p hp := by cases hp
  leaving i e c r hp := by cases hp
  session i e hp := by cases hp
  distinct i j e hp := by cases hp
  returned a ha := by cases ha
  nodup := List.nodup_nil

variable {i : ι}

theorem Rule.Sound.quiet (h : R.Sound s) {φ : Phase Call Op Reply ε α}
    (hφ : φ.session = none) : R.Sound { s with phases := Function.update s.phases i φ } := by
  -- the other processes are as before, and this one has no lease
  have hold : ∀ j e, ((Function.update s.phases i φ) j).session = some e →
      (Function.update s.phases i φ) j = s.phases j := by
    intro j e hj
    by_cases hji : j = i
    · rw [hji, Function.update_self, hφ] at hj
      cases hj
    · exact Function.update_of_ne hji _ _
  refine ⟨h.shared, fun j e c p hp => ?_, fun j e c p hp => ?_, fun j e c r hp => ?_,
    fun j e hj => ?_, fun j k e hj hk => ?_, fun a ha => ?_, h.nodup⟩
  · have hj := hold j e (congrArg Phase.session hp)
    exact h.holder j e c p (hj ▸ hp)
  · have hj := hold j e (congrArg Phase.session hp)
    exact h.inside j e c p (hj ▸ hp)
  · have hj := hold j e (congrArg Phase.session hp)
    exact h.leaving j e c r (hj ▸ hp)
  · exact h.session j e (hold j e hj ▸ hj)
  · exact h.distinct j k e (hold j e hj ▸ hj) (hold k e hk ▸ hk)
  · obtain ⟨hout, hnow, hlt, hfree⟩ := h.returned a ha
    exact ⟨hout, hnow, hlt, fun j hj => hfree j (hold j _ hj ▸ hj)⟩

theorem Rule.Sound.change (h : R.Sound s) {φ : Phase Call Op Reply ε α}
    {n : ℕ} {holder : Option ι} (hn : s.sessions ≤ n) (hI : R.I n shared)
    (hout : ∀ e c r, e < s.sessions → R.Out e c r s.shared → R.Out e c r shared)
    (halone : ∀ j e c p, s.phases j = .inside e c p → j = i)
    (hinside : ∀ e c p, φ = .inside e c p → holder = some i ∧ Prog.Safe V.exec (R.I n) R.Pre
      (fun r s' => R.I n (V.leave e c r s') ∧ R.Out e c r (V.leave e c r s')) p shared)
    (hleaving : ∀ e c r, φ = .leaving e c r → R.Out e c r shared)
    (hsession : ∀ e, φ.session = some e →
      e < n ∧ ((s.phases i).session = some e ∨ s.sessions ≤ e)) :
    R.Sound ⟨shared, n, holder, Function.update s.phases i φ, s.returned⟩ := by
  refine ⟨hI, fun j e c p hp => ?_, fun j e c p hp => ?_, fun j e c r hp => ?_,
    fun j e hj => ?_, fun j k e hj hk => ?_, fun a ha => ?_, h.nodup⟩
  · rcases update_cases hp with ⟨rfl, hself⟩ | ⟨hji, hp⟩
    · exact (hinside e c p hself).1
    · exact absurd (halone j e c p hp) hji
  · rcases update_cases hp with ⟨rfl, hself⟩ | ⟨hji, hp⟩
    · exact (hinside e c p hself).2
    · exact absurd (halone j e c p hp) hji
  · rcases update_cases hp with ⟨rfl, hself⟩ | ⟨hji, hp⟩
    · exact hleaving e c r hself
    · have hlt := h.session j e (congrArg Phase.session hp)
      exact hout e c r hlt (h.leaving j e c r hp)
  · rcases seen_update_cases Phase.session hj with ⟨rfl, hself⟩ | ⟨hji, hj⟩
    · exact (hsession e hself).1
    · exact Nat.lt_of_lt_of_le (h.session j e hj) hn
  · -- a lease of this process is its own or a new one
    have hnew : ∀ k, k ≠ i → φ.session = some e → (s.phases k).session ≠ some e := by
      intro k hki hφ hk
      rcases (hsession e hφ).2 with hsame | hle
      · exact hki (h.distinct k i e hk hsame)
      · exact absurd (h.session k e hk) (Nat.not_lt.mpr hle)
    rcases seen_update_cases Phase.session hj with ⟨hji, hj⟩ | ⟨hji, hj⟩ <;>
      rcases seen_update_cases Phase.session hk with ⟨hki, hk⟩ | ⟨hki, hk⟩
    · exact hji.trans hki.symm
    · exact absurd hk (hnew k hki hj)
    · exact absurd hj (hnew j hji hk)
    · exact h.distinct j k e hj hk
  · obtain ⟨houta, hnow, hlt, hfree⟩ := h.returned a ha
    refine ⟨houta, hout _ _ _ hlt hnow, Nat.lt_of_lt_of_le hlt hn, fun j hj => ?_⟩
    rcases seen_update_cases Phase.session hj with ⟨rfl, hself⟩ | ⟨hji, hj⟩
    · rcases (hsession _ hself).2 with hsame | hle
      · exact hfree j hsame
      · exact absurd hlt (Nat.not_lt.mpr hle)
    · exact hfree j hj

omit [DecidableEq ι] in
theorem Rule.Sound.alone (h : R.Sound s) {e : ℕ} {c : Call} {p : Prog Op Reply ε α}
    (hi : s.phases i = .inside e c p) : ∀ j e' c' p', s.phases j = .inside e' c' p' → j = i := by
  intro j e' c' p' hj
  have hholder := h.holder j e' c' p' hj
  rw [h.holder i e c p hi] at hholder
  exact (Option.some.inj hholder).symm

theorem Rule.Sound.enter (h : R.Sound s) (hs : step V s (.enter i) = some s') : R.Sound s' := by
  simp only [step] at hs
  split at hs
  · rename_i c hi hfree
    cases hs
    have hbody := R.body s.sessions c s.shared h.shared
    refine h.change (Nat.le_succ _) hbody.inv (fun e c' r => R.out_enter e c' r _ _ _)
      (fun j e c' p hj => ?_) (fun e c' p hφ => ?_) (fun e c' r hφ => by cases hφ)
      fun e hφ => ?_
    · have hholder := h.holder j e c' p hj
      rw [hfree] at hholder
      cases hholder
    · cases hφ
      exact ⟨rfl, hbody⟩
    · cases hφ
      exact ⟨Nat.lt_succ_self _, .inr (Nat.le_refl _)⟩
  · cases hs

theorem Rule.Sound.act (h : R.Sound s) {choice : Choice}
    (hs : step V s (.act i choice) = some s') : R.Sound s' := by
  simp only [step] at hs
  split at hs
  · rename_i e c o k hi
    obtain ⟨⟨x, shared⟩, hexec, he⟩ := Option.map_eq_some_iff.mp hs
    cases he
    have hsafe := (h.inside i e c _ hi).2.2 choice x shared hexec
    refine h.change (Nat.le_refl _) hsafe.inv
      (fun e c' r _ ho => R.out_exec e c' r o choice x _ _ ho hexec) (h.alone hi)
      (fun e' c' p hφ => ?_) (fun e c' r hφ => by cases hφ) fun e' hφ => ?_
    · cases hφ
      exact ⟨h.holder i e c _ hi, hsafe⟩
    · cases hφ
      have hsession : (s.phases i).session = some e := by rw [hi, Phase.session]
      exact ⟨h.session i e hsession, .inl hsession⟩
  · cases hs

theorem Rule.Sound.leave (h : R.Sound s) (hs : step V s (.leave i) = some s') : R.Sound s' := by
  simp only [step] at hs
  split at hs
  · rename_i e c p hi
    obtain ⟨r, hr, he⟩ := Option.map_eq_some_iff.mp hs
    cases he
    have hout := (h.inside i e c p hi).outcome hr
    refine h.change (Nat.le_refl _) hout.1 (fun e' c' r' _ => R.out_leave e' c' r' _ _ _ _)
      (h.alone hi) (fun e' c' p hφ => by cases hφ) (fun e' c' r' hφ => ?_) fun e' hφ => ?_
    · cases hφ
      exact hout.2
    · cases hφ
      have hsession : (s.phases i).session = some e := by rw [hi, Phase.session]
      exact ⟨h.session i e hsession, .inl hsession⟩
  · cases hs

theorem Rule.Sound.answer (h : R.Sound s) (hs : step V s (.answer i) = some s') : R.Sound s' := by
  simp only [step] at hs
  split at hs
  · rename_i e c r hi
    cases hs
    have hsession : (s.phases i).session = some e := by rw [hi, Phase.session]
    have hquiet : R.Sound { s with phases := Function.update s.phases i .idle } := h.quiet rfl
    refine ⟨hquiet.shared, hquiet.holder, hquiet.inside, hquiet.leaving, hquiet.session,
      hquiet.distinct, fun a ha => ?_, ?_⟩
    · rcases List.mem_cons.mp ha with rfl | ha
      · refine ⟨h.leaving i e c r hi, h.leaving i e c r hi, h.session i e hsession, fun j hj => ?_⟩
        rcases seen_update_cases Phase.session hj with ⟨rfl, hself⟩ | ⟨hji, hj⟩
        · cases hself
        · exact hji (h.distinct j i e hj hsession)
      · exact hquiet.returned a ha
    · refine List.nodup_cons.mpr ⟨fun hmem => ?_, h.nodup⟩
      obtain ⟨a, ha, hae⟩ := List.mem_map.mp hmem
      exact (h.returned a ha).2.2.2 i (hae ▸ hsession)
  · cases hs

theorem Rule.Sound.crash (h : R.Sound s) (hs : step V s (.crash i) = some s') : R.Sound s' := by
  simp only [step] at hs
  split at hs
  · rename_i e c p hi
    cases hs
    exact h.change (Nat.le_refl _) (R.crash _ _ h.shared) (fun e c r _ => R.out_crash e c r _)
      (h.alone hi) (fun e c p hφ => by cases hφ) (fun e c r hφ => by cases hφ)
      fun e hφ => by cases hφ
  · cases hs
    exact h.quiet rfl

theorem Rule.Sound.step {event : Event ι Call Choice} (h : R.Sound s)
    (hs : step V s event = some s') : R.Sound s' := by
  cases event with
  | call i c =>
    simp only [Service.step] at hs
    split at hs
    · split at hs
      · cases hs
        exact h.quiet rfl
      · cases hs
    · cases hs
  | refuse i =>
    simp only [Service.step] at hs
    split at hs
    · cases hs
      exact h.quiet rfl
    · cases hs
  | enter i => exact h.enter hs
  | act i choice => exact h.act hs
  | leave i => exact h.leave hs
  | answer i => exact h.answer hs
  | crash i => exact h.crash hs

theorem Rule.sound (R : V.Rule) {ok : State ι Call Op Reply ε α S → Event ι Call Choice → Prop}
    (h : R.I 0 shared) (hrun : Run (Service.step V) ok (Service.initial shared) s) :
    R.Sound s :=
  hrun.invariant (.initial h) fun _ _ _ hsound _ => hsound.step

def guard (V : Service Call Op Choice Reply ε α S) (allowed : Op → Choice → Bool) :
    Service Call Op Choice Reply ε α S :=
  { V with exec := fun o choice s => if allowed o choice then V.exec o choice s else none }

def allows (allowed : Op → Choice → Bool) (s : State ι Call Op Reply ε α S) :
    Event ι Call Choice → Bool
  | .act i choice =>
    match s.phases i with
    | .inside _ _ (.op o _) => allowed o choice
    | _ => true
  | _ => true

theorem step_guard {allowed : Op → Choice → Bool} {event : Event ι Call Choice}
    (hok : allows allowed s event = true) (hs : step V s event = some s') :
    step (V.guard allowed) s event = some s' := by
  cases event with
  | act i choice =>
    simp only [step] at hs ⊢
    split at hs
    · rename_i e c o k hi
      simp only [allows, hi] at hok
      simpa only [hi, guard, hok, if_true] using hs
    · cases hs
  | _ => exact hs

theorem run_guard {allowed : Op → Choice → Bool} {s₀ : State ι Call Op Reply ε α S}
    (hrun : Run (step V) (fun s event => allows allowed s event = true) s₀ s) :
    Run (step (V.guard allowed)) (fun _ _ => True) s₀ s := by
  induction hrun with
  | refl => exact .refl
  | snoc _ hok hs ih => exact ih.snoc trivial (step_guard hok hs)

end Service

end Scenery
