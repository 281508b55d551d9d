import Scenery.Disk
import Scenery.Moments

/-!
# Names, inodes and hard links

A file system in which several names can share one file: a name leads to a directory, a symbolic
link or an inode, and the contents belong to the inode.
-/

namespace Scenery

inductive Dirent where
  | dir
  | symlink
  | file : ℕ → Dirent
  deriving DecidableEq

def Dirent.info : Dirent → Info
  | .dir => .dir
  | .symlink => .symlink
  | .file _ => .regular

def Dirent.inode : Dirent → Option ℕ
  | .file i => some i
  | _ => none

@[simp] theorem Dirent.inode_eq_some {e : Dirent} {i : ℕ} :
    e.inode = some i ↔ e = .file i := by
  cases e <;> simp [Dirent.inode]

structure Inodes (ν β : Type) where
  entry : ν → Option Dirent
  data : ℕ → β
  next : ℕ
  used : ∀ n i, entry n = some (.file i) → i < next

namespace Inodes

variable {ν β : Type}

def inode (s : Inodes ν β) (n : ν) : Option ℕ := (s.entry n).bind Dirent.inode

def read (s : Inodes ν β) (n : ν) : Option β := (s.inode n).map s.data

variable {s : Inodes ν β} {n : ν} {i : ℕ}

theorem inode_eq_some : s.inode n = some i ↔ s.entry n = some (.file i) := by
  simp [inode, Option.bind_eq_some_iff]

theorem inode_lt (h : s.inode n = some i) : i < s.next :=
  s.used n i (inode_eq_some.mp h)

def write (s : Inodes ν β) (i : ℕ) (x : β) : Inodes ν β :=
  { s with data := Function.update s.data i x }

@[simp] theorem inode_write (s : Inodes ν β) (i : ℕ) (x : β) (n : ν) :
    (s.write i x).inode n = s.inode n := rfl

def clear (s : Inodes ν β) (P : ν → Bool) : Inodes ν β :=
  { s with
    entry := fun n => if P n then none else s.entry n
    used := by
      intro n i h
      by_cases hn : P n
      · rw [if_pos hn] at h
        cases h
      · rw [if_neg hn] at h
        exact s.used _ _ h }

@[simp] theorem data_clear (s : Inodes ν β) (P : ν → Bool) : (s.clear P).data = s.data := rfl

@[simp] theorem inode_clear (s : Inodes ν β) (P : ν → Bool) (n : ν) :
    (s.clear P).inode n = if P n then none else s.inode n := by
  by_cases h : P n <;> simp [inode, clear, h]

variable {A : ν → Prop} {s s' t : Inodes ν β}

def Keeps (A : ν → Prop) (s s' : Inodes ν β) : Prop := ∀ n, A n → s'.read n = s.read n

theorem Keeps.refl (A : ν → Prop) (s : Inodes ν β) : Keeps A s s := fun _ _ => rfl

theorem Keeps.iff_of (h : Keeps A s s') : Keeps A s t ↔ Keeps A s' t :=
  forall₂_congr fun n hn => by rw [h n hn]

theorem keeps_of_eq (hi : ∀ n, A n → s'.inode n = s.inode n)
    (hd : ∀ n i, A n → s.inode n = some i → s'.data i = s.data i) : Keeps A s s' := by
  intro n hn
  rw [read, read, hi n hn]
  cases h : s.inode n with
  | none => rfl
  | some i => exact congrArg some (hd n i hn h)

theorem keeps_clear {P : ν → Bool} (h : ∀ n, A n → P n = false) : Keeps A s (s.clear P) := by
  refine keeps_of_eq (fun n hn => ?_) fun _ _ _ _ => rfl
  rw [inode_clear, h n hn, if_neg Bool.false_ne_true]

def Harmless (A : ν → Prop) (s : Inodes ν β) (n : ν) (x : β) : Prop :=
  ∀ m i, A m → s.inode m = some i → s.inode n = some i → s.data i = x

theorem harmless_of_none (h : s.inode n = none) (x : β) : Harmless A s n x := by
  intro m i _ _ hn
  rw [h] at hn
  cases hn

theorem harmless_of_entry
    (h : s.entry n = some .dir ∨ s.entry n = some .symlink) (x : β) : Harmless A s n x := by
  refine harmless_of_none ?_ x
  rcases h with h | h <;> simp [inode, h, Dirent.inode]

/-! ## Changes of names -/

variable [DecidableEq ν]

def link (s : Inodes ν β) (old new : ν) : Inodes ν β :=
  { s with
    entry := Function.update s.entry new (s.entry old)
    used := by
      intro n i h
      by_cases hn : n = new
      · subst hn
        rw [Function.update_self] at h
        exact s.used _ _ h
      · rw [Function.update_of_ne hn] at h
        exact s.used _ _ h }

def create (s : Inodes ν β) (n : ν) (x : β) : Inodes ν β where
  entry := Function.update s.entry n (some (.file s.next))
  data := Function.update s.data s.next x
  next := s.next + 1
  used := by
    intro m i h
    by_cases hm : m = n
    · subst hm
      rw [Function.update_self] at h
      cases h
      exact Nat.lt_succ_self _
    · rw [Function.update_of_ne hm] at h
      exact Nat.lt_succ_of_lt (s.used _ _ h)

def unlink (s : Inodes ν β) (n : ν) : Inodes ν β := s.clear (· = n)

def overwrite (s : Inodes ν β) (n : ν) (x : β) : Inodes ν β :=
  match s.inode n with
  | some i => s.write i x
  | none => s.create n x

theorem overwrite_some (h : s.inode n = some i) (x : β) : s.overwrite n x = s.write i x := by
  rw [overwrite, h]

theorem overwrite_none (h : s.inode n = none) (x : β) : s.overwrite n x = s.create n x := by
  rw [overwrite, h]

@[simp] theorem inode_link_of_ne (s : Inodes ν β) {old new : ν} (h : n ≠ new) :
    (s.link old new).inode n = s.inode n := by
  simp [inode, link, Function.update_of_ne h]

@[simp] theorem inode_create_of_ne (s : Inodes ν β) {m : ν} (h : m ≠ n) (x : β) :
    (s.create n x).inode m = s.inode m := by
  simp [inode, create, Function.update_of_ne h]

theorem keeps_link {old new : ν} (h : ¬A new) : Keeps A s (s.link old new) := by
  refine keeps_of_eq (fun n hn => inode_link_of_ne s ?_) fun _ _ _ _ => rfl
  rintro rfl
  exact h hn

@[simp] theorem read_create_self (s : Inodes ν β) (n : ν) (x : β) :
    (s.create n x).read n = some x := by
  simp [read, inode, create, Dirent.inode]

theorem read_create_of_ne (s : Inodes ν β) {m : ν} (h : m ≠ n) (x : β) :
    (s.create n x).read m = s.read m := by
  rw [read, read, inode_create_of_ne s h]
  cases hm : s.inode m with
  | none => rfl
  | some i => exact congrArg some (Function.update_of_ne (Nat.ne_of_lt (inode_lt hm)) _ _)

theorem keeps_create_iff (x : β) : Keeps A s (s.create n x) ↔ (A n → s.read n = some x) := by
  constructor
  · intro h hn
    rw [← h n hn, read_create_self]
  · intro h m hm
    by_cases hmn : m = n
    · subst hmn
      rw [h hm, read_create_self]
    · exact read_create_of_ne s hmn x

theorem keeps_create (h : ¬A n) (x : β) : Keeps A s (s.create n x) :=
  (keeps_create_iff x).mpr fun hn => absurd hn h

theorem keeps_unlink_iff : Keeps A s (s.unlink n) ↔ (A n → s.read n = none) := by
  constructor
  · intro h hn
    rw [← h n hn]
    simp [read, unlink]
  · intro h m hm
    by_cases hmn : m = n
    · subst hmn
      rw [h hm]
      simp [read, unlink]
    · simp [read, unlink, hmn]

theorem keeps_unlink (h : ¬A n) : Keeps A s (s.unlink n) :=
  keeps_unlink_iff.mpr fun hn => absurd hn h

theorem keeps_overwrite_iff (hn : ¬A n) (x : β) :
    Keeps A s (s.overwrite n x) ↔ Harmless A s n x := by
  cases h : s.inode n with
  | none =>
    rw [overwrite_none h]
    exact iff_of_true (keeps_create hn x) (harmless_of_none h x)
  | some i =>
    rw [overwrite_some h]
    constructor
    · intro hk m j hm hj hnj
      obtain rfl : i = j := Option.some.inj (h.symm.trans hnj)
      have hread := hk m hm
      rw [read, read, inode_write, hj] at hread
      simpa [write] using (Option.some.inj hread).symm
    · intro hh
      refine keeps_of_eq (fun _ _ => rfl) fun m j hm hj => ?_
      by_cases hij : j = i
      · subst hij
        simp [write, hh m j hm hj h]
      · simp [write, Function.update_of_ne hij]

/-! ## The machine -/

end Inodes

inductive FileOp (ν β : Type) : Type where
  | lstat (n : ν)
  | readFile (n : ν)
  | snapshot
  | link (old new : ν)
  | replace (n : ν) (x : β)
  | writeFile (n : ν) (x : β)
  | rename (old new : ν)
  | remove (n : ν)
  | removeAll (P : ν → Bool)

namespace FileOp

variable {ν β : Type}

def Reply : FileOp ν β → Type
  | lstat _ => Option Info
  | readFile _ => Option β
  | snapshot => ν → Option β
  | link _ _ => Bool
  | replace _ _ => Unit
  | writeFile _ _ => Bool
  | rename _ _ => Bool
  | remove _ => Unit
  | removeAll _ => Unit

def Outside (A : ν → Prop) : FileOp ν β → Prop
  | link _ new => ¬A new
  | replace n _ => ¬A n
  | writeFile n _ => ¬A n
  | rename old new => ¬A old ∧ ¬A new
  | remove n => ¬A n
  | removeAll P => ∀ n, A n → P n = false
  | _ => True

def Replaces : FileOp ν β → Prop
  | writeFile _ _ => False
  | _ => True

def Looks : FileOp ν β → Prop
  | lstat _ => True
  | readFile _ => True
  | snapshot => True
  | _ => False

def Guard (A : ν → Prop) : FileOp ν β → Inodes ν β → Prop
  | writeFile n x, s => s.Harmless A n x
  | _, _ => True

variable {A : ν → Prop}

variable {o : FileOp ν β}

theorem Looks.replaces (h : Looks o) : Replaces o := by
  cases o <;> trivial

theorem Looks.outside (h : Looks o) : Outside A o := by
  cases o <;> trivial

variable [DecidableEq ν]

def exec (canLink : ν → Bool) : (o : FileOp ν β) → Inodes ν β → Reply o × Inodes ν β
  | lstat n, s => ((s.entry n).map Dirent.info, s)
  | readFile n, s => (s.read n, s)
  | snapshot, s => (s.read, s)
  | link old new, s =>
    if canLink old ∧ (s.inode old).isSome ∧ s.entry new = none then (true, s.link old new)
    else (false, s)
  | replace n x, s => ((), s.create n x)
  | writeFile n x, s =>
    if s.entry n = some .dir ∨ s.entry n = some .symlink then (false, s)
    else (true, s.overwrite n x)
  | rename old new, s =>
    if s.entry old = none then (false, s) else (true, (s.link old new).unlink old)
  | remove n, s => ((), s.unlink n)
  | removeAll P, s => ((), s.clear P)

def machine (canLink : ν → Bool) : Machine (FileOp ν β) Reply (Inodes ν β) where
  exec := exec canLink
  cut _ s s' := s' = s
  fault _ _ := False
  cut_refl _ _ := rfl

variable {canLink : ν → Bool}

theorem Looks.exec (h : Looks o) (s : Inodes ν β) :
    (exec canLink o s).2 = s := by
  cases o <;> first | rfl | exact absurd h id

theorem Outside.entry_eq (ho : Outside A o) (s : Inodes ν β) {n : ν} (hn : A n) :
    (exec canLink o s).2.entry n = s.entry n := by
  have hne : ∀ m, ¬A m → n ≠ m := by
    rintro m hm rfl
    exact hm hn
  cases o with
  | lstat | readFile | snapshot => rfl
  | link old new =>
    simp only [exec]
    split
    · exact Function.update_of_ne (hne _ ho) _ _
    · rfl
  | replace m x => exact Function.update_of_ne (hne _ ho) _ _
  | writeFile m x =>
    simp only [exec]
    split
    · rfl
    · cases h : s.inode m with
      | none =>
        rw [Inodes.overwrite_none h]
        exact Function.update_of_ne (hne _ ho) _ _
      | some i => rw [Inodes.overwrite_some h, Inodes.write]
  | rename old new =>
    simp only [exec]
    split
    · rfl
    · simp [Inodes.unlink, Inodes.clear, Inodes.link, hne _ ho.1, hne _ ho.2]
  | remove m => simp [exec, Inodes.unlink, Inodes.clear, hne _ ho]
  | removeAll P => simp [exec, Inodes.clear, ho n hn]

theorem keeps_exec_iff (ho : Outside A o) (s : Inodes ν β) :
    Inodes.Keeps A s (exec canLink o s).2 ↔ Guard A o s := by
  cases o with
  | lstat | readFile | snapshot => exact iff_of_true (.refl A s) trivial
  | link old new =>
    refine iff_of_true ?_ trivial
    simp only [exec]
    split
    · exact Inodes.keeps_link ho
    · exact .refl A s
  | replace n x => exact iff_of_true (Inodes.keeps_create ho x) trivial
  | writeFile n x =>
    simp only [exec]
    split
    · next h => exact iff_of_true (.refl A s) (Inodes.harmless_of_entry h x)
    · exact Inodes.keeps_overwrite_iff ho x
  | rename old new =>
    refine iff_of_true ?_ trivial
    simp only [exec]
    split
    · exact .refl A s
    · exact (Inodes.keeps_link (s := s) ho.2).iff_of.mpr (Inodes.keeps_unlink ho.1)
  | remove n => exact iff_of_true (Inodes.keeps_unlink ho) trivial
  | removeAll P => exact iff_of_true (Inodes.keeps_clear ho) trivial

end FileOp

theorem keeps_always_iff {ν β ε α : Type} [DecidableEq ν] {A : ν → Prop} {canLink : ν → Bool}
    {p : Prog (FileOp ν β) FileOp.Reply ε α} (hp : p.Only (FileOp.Outside A))
    {s₀ s : Inodes ν β} (h : Inodes.Keeps A s₀ s) :
    p.Always (FileOp.machine canLink) (Inodes.Keeps A s₀) s ↔
      p.Guarded (FileOp.machine canLink) (FileOp.Guard A) s := by
  refine Prog.always_iff_guarded (fun o ho s hs => ?_) hp h
  rw [hs.iff_of]
  exact FileOp.keeps_exec_iff ho s

end Scenery
