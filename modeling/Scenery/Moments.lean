import Scenery.Crash

/-!
# What holds at every moment of a fault-free run

`Prog.Always I p s` says that `I` holds before, between and after the operations of the fault-free
run of `p` from `s`.
-/

namespace Scenery

namespace Prog

variable {Op : Type} {Reply : Op → Type} {S ε α β γ : Type} {M : Machine Op Reply S}

/-! ## Invariants of the fault-free run -/

def Always (M : Machine Op Reply S) (I : S → Prop) (p : Prog Op Reply ε α) (s : S) : Prop :=
  ∀ n, I (stop M n p s)

variable {I : S → Prop}

@[simp] theorem always_ret (a : α) (s : S) :
    Always M I (ret a : Prog Op Reply ε α) s ↔ I s := by
  refine ⟨fun h => h 0, fun h n => ?_⟩
  cases n <;> exact h

@[simp] theorem always_fail (e : ε) (s : S) :
    Always M I (fail e : Prog Op Reply ε α) s ↔ I s := by
  refine ⟨fun h => h 0, fun h n => ?_⟩
  cases n <;> exact h

@[simp] theorem always_op (o : Op) (k : Reply o → Prog Op Reply ε α) (s : S) :
    Always M I (op o k) s ↔ I s ∧ Always M I (k (M.exec o s).1) (M.exec o s).2 := by
  constructor
  · intro h
    exact ⟨h 0, fun n => h (n + 1)⟩
  · rintro ⟨h0, h⟩ n
    cases n with
    | zero => exact h0
    | succ n => exact h n

variable {p : Prog Op Reply ε α} {s : S}

theorem Always.start (h : Always M I p s) :
    I s := by
  have h0 := h 0
  cases p <;> exact h0

theorem Always.run (h : Always M I p s) : I (Prog.run M p s).2 := by
  induction p generalizing s with
  | ret | fail => exact h 0
  | op o k ih =>
    obtain ⟨-, hk⟩ := (always_op o k s).mp h
    exact ih _ hk

variable {f : α → Prog Op Reply ε β}

theorem always_bind : Always M I (p.bind f) s ↔
      Always M I p s ∧ ∀ a s', Prog.run M p s = (.ok a, s') → Always M I (f a) s' := by
  induction p generalizing s with
  | ret b =>
    constructor
    · intro h
      refine ⟨(always_ret b s).mpr h.start, fun a s' hr => ?_⟩
      obtain ⟨rfl, rfl⟩ := hr
      exact h
    · rintro ⟨-, h⟩
      exact h b s rfl
  | fail e => simp
  | op o k ih => simp only [Prog.bind, always_op, ih, run_op, and_assoc]

@[simp] theorem always_attempt : Always M I p.attempt s ↔ Always M I p s := by
  induction p generalizing s with
  | ret | fail => simp [attempt]
  | op o k ih => simp only [attempt, always_op, ih]

inductive Guarded (M : Machine Op Reply S) (G : Op → S → Prop) : Prog Op Reply ε α → S → Prop where
  | ret (a : α) (s : S) : Guarded M G (ret a) s
  | fail (e : ε) (s : S) : Guarded M G (fail e) s
  | op {o : Op} {k : Reply o → Prog Op Reply ε α} {s : S} (ho : G o s)
    (hk : Guarded M G (k (M.exec o s).1) (M.exec o s).2) : Guarded M G (op o k) s

variable {G : Op → S → Prop} {o : Op}

@[simp] theorem guarded_ret (a : α) (s : S) :
    Guarded M G (Prog.ret a : Prog Op Reply ε α) s ↔ True := iff_true_intro (.ret a s)

@[simp] theorem guarded_fail (e : ε) (s : S) :
    Guarded M G (Prog.fail e : Prog Op Reply ε α) s ↔ True := iff_true_intro (.fail e s)

@[simp] theorem guarded_op {k : Reply o → Prog Op Reply ε α} :
    Guarded M G (Prog.op o k) s ↔ G o s ∧ Guarded M G (k (M.exec o s).1) (M.exec o s).2 := by
  constructor
  · rintro ⟨⟩
    constructor <;> assumption
  · rintro ⟨ho, hk⟩
    exact .op ho hk

@[simp] theorem guarded_call : Guarded M G (Prog.call o : Prog Op Reply ε (Reply o)) s ↔ G o s := by
  simp [Prog.call]

theorem guarded_bind : Guarded M G (p.bind f) s ↔
      Guarded M G p s ∧ ∀ a s', Prog.run M p s = (.ok a, s') → Guarded M G (f a) s' := by
  induction p generalizing s with
  | ret b =>
    constructor
    · intro h
      refine ⟨.ret b s, fun a s' hr => ?_⟩
      obtain ⟨rfl, rfl⟩ := hr
      exact h
    · rintro ⟨-, h⟩
      exact h b s rfl
  | fail e => simp
  | op o k ih => simp only [Prog.bind, guarded_op, ih, run_op, and_assoc]

@[simp] theorem guarded_attempt : Guarded M G p.attempt s ↔ Guarded M G p s := by
  induction p generalizing s with
  | ret | fail => simp [attempt]
  | op o k ih => simp only [attempt, guarded_op, ih]

/-! ## The operations a program can perform -/

inductive Only (C : Op → Prop) : Prog Op Reply ε α → Prop where
  | ret (a : α) : Only C (ret a)
  | fail (e : ε) : Only C (fail e)
  | op {o : Op} {k : Reply o → Prog Op Reply ε α} (ho : C o) (hk : ∀ x, Only C (k x)) :
    Only C (op o k)

variable {C : Op → Prop}

theorem Only.call (h : C o) : Only C (Prog.call o : Prog Op Reply ε (Reply o)) := .op h .ret

theorem Only.mono {C D : Op → Prop} (hCD : ∀ o, C o → D o) (hp : Only C p) : Only D p := by
  induction hp with
  | ret a => exact .ret a
  | fail e => exact .fail e
  | op ho _ ih => exact .op (hCD _ ho) ih

theorem Only.bind (hp : Only C p) (hf : ∀ a, Only C (f a)) : Only C (p.bind f) := by
  induction hp with
  | ret a => exact hf a
  | fail e => exact .fail e
  | op ho _ ih => exact .op ho ih

theorem Only.attempt (hp : Only C p) : Only C p.attempt := by
  induction hp with
  | ret | fail => exact .ret _
  | op ho _ ih => exact .op ho ih

theorem Only.guarded (hG : ∀ o, C o → ∀ s, G o s) (hp : Only C p) (s : S) : Guarded M G p s := by
  induction hp generalizing s with
  | ret a => exact .ret a s
  | fail e => exact .fail e s
  | op ho _ ih => exact .op (hG _ ho s) (ih _ _)

theorem Only.run (hI : ∀ o, C o → ∀ s, I s → I (M.exec o s).2) (hp : Only C p) (hs : I s) :
    I (Prog.run M p s).2 := by
  induction hp generalizing s with
  | ret | fail => exact hs
  | op ho _ ih => exact ih _ (hI _ ho s hs)

theorem always_iff_guarded (hG : ∀ o, C o → ∀ s, I s → (I (M.exec o s).2 ↔ G o s)) (hp : Only C p)
    (hs : I s) : Always M I p s ↔ Guarded M G p s := by
  induction hp generalizing s with
  | ret | fail => simpa using hs
  | op ho _ ih =>
    rw [always_op, guarded_op, ← hG _ ho s hs]
    constructor
    · rintro ⟨-, h⟩
      exact ⟨h.start, (ih _ h.start).mp h⟩
    · rintro ⟨h, hk⟩
      exact ⟨hs, (ih _ h).mpr hk⟩

def visit (body : List γ → γ → Prog Op Reply ε Unit) : List γ → List γ → Prog Op Reply ε Unit
  | _, [] => ret ()
  | done, x :: rest => (body done x).bind fun _ => visit body (done ++ [x]) rest

theorem Only.visit {body : List γ → γ → Prog Op Reply ε Unit} {xs : List γ}
    (h : ∀ done, ∀ x ∈ xs, Only C (body done x)) (done : List γ) :
    Only C (Prog.visit body done xs) := by
  induction xs generalizing done with
  | nil => exact .ret ()
  | cons x rest ih =>
    refine (h done x List.mem_cons_self).bind fun _ => ?_
    exact ih (fun done y hy => h done y (List.mem_cons_of_mem x hy)) (done ++ [x])

theorem guarded_visit {body : List γ → γ → Prog Op Reply ε Unit} {done xs : List γ} :
    Guarded M G (visit body done xs) s ↔
      ∀ pre x post, xs = pre ++ x :: post → ∀ s',
        Prog.run M (visit body done pre) s = (.ok (), s') →
          Guarded M G (body (done ++ pre) x) s' := by
  induction xs generalizing done s with
  | nil => simp [visit]
  | cons y rest ih =>
    simp only [visit, guarded_bind, ih]
    constructor
    · rintro ⟨hy, hrest⟩ pre x post hxs s' hr
      cases pre with
      | nil =>
        obtain ⟨rfl, -⟩ := List.cons.inj hxs
        obtain ⟨-, rfl⟩ := Prod.mk.inj hr
        simpa using hy
      | cons z pre =>
        obtain ⟨rfl, htail⟩ := List.cons.inj hxs
        -- the first round of the loop has returned, or there would be no later round
        cases hb : Prog.run M (body done y) s with
        | mk r s₁ =>
          cases r with
          | error e =>
            rw [visit, run_bind_error hb] at hr
            cases (Prod.mk.inj hr).1
          | ok a =>
            rw [visit, run_bind_ok hb] at hr
            have h := hrest a s₁ hb pre x post htail s' hr
            rwa [List.append_assoc, List.singleton_append] at h
    · intro h
      refine ⟨by simpa using h [] y rest rfl s rfl, fun a s₁ hb pre x post hxs s' hr => ?_⟩
      have hvisit : Prog.run M (visit body done (y :: pre)) s = (.ok (), s') := by
        rw [visit, run_bind_ok hb]
        exact hr
      have h' := h (y :: pre) x post (by rw [hxs, List.cons_append]) s' hvisit
      rwa [List.append_assoc, List.singleton_append]

end Prog

end Scenery
