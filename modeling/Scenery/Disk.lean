import Mathlib.Data.List.Infix
import Scenery.Crash

/-!
# A directory tree as a machine of atomic operations

`Disk δ` is a tree of directories, regular files with contents in `δ`, and symbolic links.
-/

namespace Scenery

open List

abbrev Path : Type := List String

inductive Errno where
  | notExist
  | notDir
  | exist
  | isDir
  | io
  deriving DecidableEq

inductive Info where
  | dir
  | regular
  | symlink
  deriving DecidableEq

inductive Node (δ : Type) : Type where
  | dir : Node δ
  | file : δ → Node δ
  | symlink : Node δ
  deriving DecidableEq

def Node.info {δ : Type} : Node δ → Info
  | .dir => .dir
  | .file _ => .regular
  | .symlink => .symlink

/-- A directory tree, with the log of the synced writes that produced it. No operation
reads the log: it records what was ever made durable. -/
structure Disk (δ : Type) where
  node : Path → Option (Node δ)
  log : List (Path × δ)
  tree : ∀ p q, q <+: p → q ≠ p → node p ≠ none → node q = some .dir

namespace Disk

variable {δ : Type}

def blank : Disk δ where
  node p := if p = [] then some .dir else none
  log := []
  tree p q hqp hne hp := by
    by_cases h : p = []
    · subst h
      exact absurd (prefix_nil.mp hqp) hne
    · rw [if_neg h] at hp
      exact absurd rfl hp

def missing (d : Disk δ) (p : Path) : Errno :=
  if p.inits.any fun q => (d.node q).any fun n => n.info != .dir then .notDir else .notExist

def put (d : Disk δ) (p : Path) (x : δ) (hne : p ≠ []) (hpar : d.node p.dropLast = some .dir)
    (hdir : d.node p ≠ some .dir) : Disk δ where
  node := Function.update d.node p (some (.file x))
  log := d.log
  tree r q hqr hqne hr := by
    by_cases hrp : r = p
    · subst hrp
      rw [Function.update_of_ne hqne]
      have hq : q <+: r.dropLast := by
        obtain ⟨t, rfl⟩ := hqr
        have ht : t ≠ [] := by
          rintro rfl
          exact hqne (append_nil q).symm
        rw [dropLast_append_of_ne_nil ht]
        exact prefix_append q _
      by_cases hqd : q = r.dropLast
      · rw [hqd]
        exact hpar
      · exact d.tree _ q hq hqd (by rw [hpar]; exact Option.some_ne_none _)
    · rw [Function.update_of_ne hrp] at hr
      have hq := d.tree r q hqr hqne hr
      have hqp : q ≠ p := by
        rintro rfl
        exact hdir hq
      rw [Function.update_of_ne hqp]
      exact hq

def erase (d : Disk δ) (p : Path) (hdir : d.node p ≠ some .dir) : Disk δ where
  node := Function.update d.node p none
  log := d.log
  tree r q hqr hqne hr := by
    have hrp : r ≠ p := by
      rintro rfl
      rw [Function.update_self] at hr
      exact hr rfl
    rw [Function.update_of_ne hrp] at hr
    have hq := d.tree r q hqr hqne hr
    have hqp : q ≠ p := by
      rintro rfl
      exact hdir hq
    rw [Function.update_of_ne hqp]
    exact hq

def eraseAll (d : Disk δ) (p : Path) : Disk δ where
  node r := if p <+: r then none else d.node r
  log := d.log
  tree r q hqr hqne hr := by
    by_cases hpr : p <+: r
    · rw [if_pos hpr] at hr
      exact absurd rfl hr
    · rw [if_neg hpr] at hr
      rw [if_neg fun hpq => hpr (hpq.trans hqr)]
      exact d.tree r q hqr hqne hr

/-- Nothing on the way to `p`, and not `p` itself, is a file or link. -/
def Clear (d : Disk δ) (p : Path) : Prop :=
  ∀ q ∈ p.inits, ∀ n, d.node q = some n → n.info = .dir

instance (d : Disk δ) (p : Path) : Decidable (d.Clear p) :=
  decidable_of_iff (∀ q ∈ p.inits, ∀ n ∈ d.node q, n.info = .dir) <| by
    simp only [Clear, Option.mem_def]

variable {p q : Path}

theorem Clear.node_eq {d : Disk δ} (h : d.Clear p) (hq : q <+: p) :
    d.node q = none ∨ d.node q = some .dir := by
  rcases hn : d.node q with _ | n
  · exact .inl rfl
  · have := h q ((mem_inits q p).mpr hq) n hn
    cases n <;> first | exact .inr rfl | cases this

def mkdirs (d : Disk δ) (p : Path) (hclear : d.Clear p) : Disk δ where
  node q := if q <+: p ∧ d.node q = none then some .dir else d.node q
  log := d.log
  tree r q hqr hqne hr := by
    by_cases hrp : r <+: p
    · rcases hclear.node_eq (hqr.trans hrp) with hq | hq
      · rw [if_pos ⟨hqr.trans hrp, hq⟩]
      · rw [if_neg fun h => absurd h.2 (by rw [hq]; exact Option.some_ne_none _)]
        exact hq
    · rw [if_neg fun h => hrp h.1] at hr
      have hq := d.tree r q hqr hqne hr
      rw [if_neg fun h => absurd h.2 (by rw [hq]; exact Option.some_ne_none _)]
      exact hq

def logged (d : Disk δ) (p : Path) (x : δ) : Disk δ := { d with log := (p, x) :: d.log }

/-! ## How the mutators change a lookup -/

section

variable (d : Disk δ)

@[simp] theorem node_put_self (p : Path) (x : δ) (h₁ h₂ h₃) :
    (d.put p x h₁ h₂ h₃).node p = some (.file x) := Function.update_self ..

theorem node_put_ne (x : δ) (h₁ h₂ h₃) (h : q ≠ p) :
    (d.put p x h₁ h₂ h₃).node q = d.node q := Function.update_of_ne h ..

@[simp] theorem node_erase_self (p : Path) (h) : (d.erase p h).node p = none :=
  Function.update_self ..

theorem node_erase_ne (hd) (h : q ≠ p) :
    (d.erase p hd).node q = d.node q := Function.update_of_ne h ..

theorem node_eraseAll_ne (h : ¬ p <+: q) :
    (d.eraseAll p).node q = d.node q := if_neg h

theorem node_eraseAll_below (h : p <+: q) :
    (d.eraseAll p).node q = none := if_pos h

theorem node_mkdirs_of_ne_none (hc) (h : d.node q ≠ none) :
    (d.mkdirs p hc).node q = d.node q := if_neg fun h' => h h'.2

theorem node_mkdirs_ne (hc) (h : ¬ q <+: p) :
    (d.mkdirs p hc).node q = d.node q := if_neg fun h' => h h'.1

theorem node_mkdirs_dir (hc) (h : q <+: p) :
    (d.mkdirs p hc).node q = some .dir := by
  rcases Clear.node_eq hc h with hq | hq
  · exact if_pos ⟨h, hq⟩
  · rw [node_mkdirs_of_ne_none d hc (by rw [hq]; exact Option.some_ne_none _)]
    exact hq

@[simp] theorem node_logged (p q : Path) (x : δ) :
    (d.logged p x).node q = d.node q := rfl

theorem clear_dropLast {p : Path} (hne : p ≠ []) (h : d.node p ≠ none) :
    d.Clear p.dropLast := by
  intro q hq n hn
  have hqp : q <+: p.dropLast := (mem_inits q _).mp hq
  have hlt : q ≠ p := by
    rintro rfl
    have := hqp.length_le
    have := length_pos_of_ne_nil hne
    rw [length_dropLast] at *
    omega
  have := d.tree p q (hqp.trans ( dropLast_prefix p)) hlt h
  rw [hn] at this
  cases this
  rfl

end

variable {d : Disk δ}

theorem Clear.mono (h : d.Clear p) (hq : q <+: p) : d.Clear q :=
  fun r hr => h r ((mem_inits r p).mpr (((mem_inits r q).mp hr).trans hq))

theorem node_of_dir (hp : d.node p = some .dir) (hq : q <+: p) : d.node q = some .dir := by
  by_cases heq : q = p
  · rw [heq, hp]
  · exact d.tree p q hq heq (by rw [hp]; exact Option.some_ne_none _)

theorem clear_of_dir {p : Path} (h : d.node p = some .dir) : d.Clear p := by
  intro q hq n hn
  rw [node_of_dir h ((mem_inits q p).mp hq)] at hn
  cases hn
  rfl

end Disk

/-! ## The operations -/

inductive Op (δ : Type) : Type where
  | poll
  | lstat (p : Path)
  | readFile (p : Path)
  | mkdir (p : Path)
  | mkdirAll (p : Path)
  | writeFile (p : Path) (x : δ)
  | createExcl (p : Path) (x : δ)
  | write (p : Path) (x : δ)
  | openFile (p : Path) (x : δ)
  | link (p q : Path)
  | rename (p q : Path)
  | remove (p : Path)
  | removeAll (p : Path)

abbrev Op.Result {δ : Type} : Op δ → Type
  | .lstat _ => Info
  | .readFile _ => δ
  | _ => Unit

abbrev Op.Reply {δ : Type} (o : Op δ) : Type := Except Errno o.Result

namespace Disk

variable {δ : Type}

theorem node_mkdirs_dropLast (d : Disk δ) {p : Path} (hne : p ≠ []) (hc) :
    (d.mkdirs p.dropLast hc).node p = d.node p := by
  refine node_mkdirs_ne d hc fun h => ?_
  have := h.length_le
  have := length_pos_of_ne_nil hne
  rw [length_dropLast] at *
  omega

def lstat (d : Disk δ) (p : Path) : Except Errno Info :=
  match d.node p with
  | some n => .ok n.info
  | none => .error (d.missing p)

def readFile (d : Disk δ) (p : Path) : Except Errno δ :=
  match d.node p with
  | some (.file x) => .ok x
  | some .dir => .error .isDir
  | some .symlink => .error .io
  | none => .error (d.missing p)

def Writable (d : Disk δ) (p : Path) : Prop :=
  p ≠ [] ∧ d.node p.dropLast = some .dir ∧ d.node p ≠ some .dir

instance [DecidableEq δ] (d : Disk δ) (p : Path) : Decidable (d.Writable p) :=
  inferInstanceAs (Decidable (_ ∧ _ ∧ _))

def refusal (d : Disk δ) (p : Path) : Errno :=
  match d.node p with
  | some .dir => .isDir
  | _ => d.missing p

variable [DecidableEq δ]

def mkdir (d : Disk δ) (p : Path) : Except Errno Unit × Disk δ :=
  if d.node p ≠ none then (.error .exist, d)
  else if h : d.node p.dropLast = some .dir ∧ d.Clear p then (.ok (), d.mkdirs p h.2)
  else (.error (d.missing p), d)

def mkdirAll (d : Disk δ) (p : Path) : Except Errno Unit × Disk δ :=
  if h : d.Clear p then (.ok (), d.mkdirs p h) else (.error .notDir, d)

def writeFile (d : Disk δ) (p : Path) (x : δ) : Except Errno Unit × Disk δ :=
  if hc : d.Clear p.dropLast then
    if h : p ≠ [] ∧ d.node p ≠ some .dir then
      (.ok (), ((d.mkdirs p.dropLast hc).put p x h.1 (node_mkdirs_dir d hc (prefix_refl _))
        (by rw [node_mkdirs_dropLast d h.1]; exact h.2)).logged p x)
    else (.error .isDir, d.mkdirs p.dropLast hc)
  else (.error .notDir, d)

def createExcl (d : Disk δ) (p : Path) (x : δ) : Except Errno Unit × Disk δ :=
  if d.node p ≠ none then (.error .exist, d)
  else if h : d.Writable p then (.ok (), d.put p x h.1 h.2.1 h.2.2)
  else (.error (d.refusal p), d)

def write (d : Disk δ) (p : Path) (x : δ) : Except Errno Unit × Disk δ :=
  match d.node p with
  | some (.file _) =>
    if h : d.Writable p then (.ok (), d.put p x h.1 h.2.1 h.2.2) else (.error .io, d)
  | some _ => (.error .isDir, d)
  | none => (.error (d.missing p), d)

def openFile (d : Disk δ) (p : Path) (x : δ) : Except Errno Unit × Disk δ :=
  match d.node p with
  | some (.file _) => (.ok (), d)
  | some _ => (.error .isDir, d)
  | none =>
    if h : d.Writable p then (.ok (), d.put p x h.1 h.2.1 h.2.2) else (.error (d.refusal p), d)

def link (d : Disk δ) (p q : Path) : Except Errno Unit × Disk δ :=
  match d.readFile p with
  | .error e => (.error e, d)
  | .ok x => d.createExcl q x

def rename (d : Disk δ) (p q : Path) : Except Errno Unit × Disk δ :=
  match hp : d.node p with
  | some (.file x) =>
    if h : d.Writable q then
      if hpq : p = q then (.ok (), d)
      else (.ok (), (d.put q x h.1 h.2.1 h.2.2).erase p (by
        rw [node_put_ne d x _ _ _ hpq, hp]
        exact nofun))
    else (.error (d.refusal q), d)
  | some _ => (.error .isDir, d)
  | none => (.error (d.missing p), d)

def remove (d : Disk δ) (p : Path) : Except Errno Unit × Disk δ :=
  if h : d.node p = some .dir then (.error .isDir, d)
  else if d.node p = none then (.error (d.missing p), d)
  else (.ok (), d.erase p h)

def exec (o : Op δ) (d : Disk δ) : o.Reply × Disk δ :=
  match o with
  | .poll => (.ok (), d)
  | .lstat p => (d.lstat p, d)
  | .readFile p => (d.readFile p, d)
  | .mkdir p => d.mkdir p
  | .mkdirAll p => d.mkdirAll p
  | .writeFile p x => d.writeFile p x
  | .createExcl p x => d.createExcl p x
  | .write p x => d.write p x
  | .openFile p x => d.openFile p x
  | .link p q => d.link p q
  | .rename p q => d.rename p q
  | .remove p => d.remove p
  | .removeAll p => (.ok (), d.eraseAll p)

/-- `d'` is `d` with some nodes at or below `p` removed. -/
structure Pruned (p : Path) (d d' : Disk δ) : Prop where
  outside : ∀ q, ¬ p <+: q → d'.node q = d.node q
  below : ∀ q, d'.node q = d.node q ∨ d'.node q = none
  log : d'.log = d.log

structure Removed (p : Path) (d d' : Disk δ) : Prop where
  log : d'.log = d.log
  gone : d'.node p = none
  node : ∀ q, q ≠ p → d'.node q = d.node q

structure Placed (p : Path) (x : δ) (d d' : Disk δ) : Prop where
  log : d'.log = d.log
  file : d'.node p = some (.file x)
  node : ∀ q, q ≠ p → d'.node q = d.node q

/-- The states a crash inside an operation can leave. -/
def Cut (o : Op δ) (d d' : Disk δ) : Prop :=
  match o with
  | .mkdirAll p => d' = d ∨ ∃ q, q <+: p ∧ d' = (d.mkdirAll q).2
  | .writeFile p _ => d' = d ∨ ∃ q, q <+: p.dropLast ∧ d' = (d.mkdirAll q).2
  | .removeAll p => Pruned p d d'
  | _ => d' = d

/-- The replies of operations that fail without an effect. Left out is `writeFile` with the file in
its place and an error of the sync of the directory after that. -/
def Fault : (o : Op δ) → o.Reply → Prop
  | .lstat _, _ => False
  | .poll, x => x = .error .io
  | .readFile _, x => x = .error .io
  | .mkdir _, x => x = .error .io
  | .mkdirAll _, x => x = .error .io
  | .writeFile _ _, x => x = .error .io
  | .createExcl _ _, x => x = .error .io
  | .write _ _, x => x = .error .io
  | .openFile _ _, x => x = .error .io
  | .link _ _, x => x = .error .io
  | .rename _ _, x => x = .error .io
  | .remove _, x => x = .error .io
  | .removeAll _, x => x = .error .io

def machine : Machine (Op δ) Op.Reply (Disk δ) where
  exec := exec
  cut := Cut
  fault := Fault
  cut_refl o d := by
    cases o <;> first
      | exact .inl rfl
      | exact ⟨fun _ _ => rfl, fun _ => .inl rfl, rfl⟩
      | rfl

end Disk

/-! ## Lookups -/

namespace Disk

variable {δ : Type} {d : Disk δ} {p : Path}

theorem lstat_of_node {n : Node δ} (h : d.node p = some n) : d.lstat p = .ok n.info := by
  rw [lstat, h]

theorem lstat_of_none (h : d.node p = none) : ∃ e, d.lstat p = .error e := by
  rw [lstat, h]
  exact ⟨_, rfl⟩

theorem lstat_ok {i : Info} (h : d.lstat p = .ok i) : ∃ n, d.node p = some n ∧ n.info = i := by
  rcases hn : d.node p with _ | n
  · rw [lstat, hn] at h
    cases h
  · rw [lstat, hn] at h
    exact ⟨n, rfl, Except.ok.inj h⟩

theorem lstat_error {e : Errno} (h : d.lstat p = .error e) : d.node p = none := by
  rcases hn : d.node p with _ | n
  · rfl
  · rw [lstat, hn] at h
    cases h

theorem clear_of_missing (h : d.lstat p = .error .notExist) : d.Clear p := by
  have hn := lstat_error h
  rw [lstat, hn] at h
  intro q hq n hqn
  by_contra hne
  have hany : p.inits.any (fun q => (d.node q).any fun n => n.info != .dir) = true := by
    refine any_eq_true.mpr ⟨q, hq, ?_⟩
    rw [hqn]
    exact bne_iff_ne.mpr hne
  rw [missing, if_pos hany] at h
  cases h

theorem readFile_of_node {y : δ} (h : d.node p = some (.file y)) : d.readFile p = .ok y := by
  rw [readFile, h]

theorem readFile_ok {y : δ} (h : d.readFile p = .ok y) : d.node p = some (.file y) := by
  unfold readFile at h
  split at h <;> cases h
  assumption

theorem missing_of_parent (hpar : d.node p.dropLast = some .dir)
    (hp : d.node p = none) : d.missing p = .notExist := by
  unfold missing
  rw [if_neg]
  intro h
  obtain ⟨q, hq, hany⟩ := any_eq_true.mp h
  have hqp : q <+: p := (mem_inits q p).mp hq
  have hnode : d.node q = none ∨ d.node q = some .dir := by
    by_cases heq : q = p
    · exact .inl (heq ▸ hp)
    · right
      obtain ⟨t, ht⟩ := hqp
      have htne : t ≠ [] := by
        rintro rfl
        exact heq (by rw [← ht, append_nil])
      have hq' : q <+: p.dropLast := by
        rw [← ht, dropLast_append_of_ne_nil htne]
        exact prefix_append q _
      by_cases hqd : q = p.dropLast
      · rw [hqd]
        exact hpar
      · exact d.tree _ q hq' hqd (by rw [hpar]; exact Option.some_ne_none _)
  rcases hnode with hn | hn
  · rw [hn] at hany
    cases hany
  · rw [hn] at hany
    cases hany

end Disk

/-! ## What a completed operation can have done

One inversion lemma for each operation, faults included: proofs about programs never look
at `exec` again. -/

namespace Disk

variable {δ : Type} {d d' : Disk δ} {p q : Path}

/-- `d'` is `d` with directories added on the way to `p`. -/
structure Grown (p : Path) (d d' : Disk δ) : Prop where
  node : ∀ q, d'.node q = d.node q ∨ d.node q = none ∧ d'.node q = some .dir ∧ q <+: p
  log : d'.log = d.log

theorem Grown.refl (p : Path) (d : Disk δ) : Grown p d d := ⟨fun _ => .inl rfl, rfl⟩

theorem Grown.mono (h : Grown q d d') (hqp : q <+: p) : Grown p d d' :=
  ⟨fun r => (h.node r).imp_right fun ⟨h₁, h₂, h₃⟩ => ⟨h₁, h₂, h₃.trans hqp⟩, h.log⟩

theorem Grown.of_ne_none (h : Grown p d d') (hq : d.node q ≠ none) : d'.node q = d.node q :=
  (h.node q).resolve_right fun h' => hq h'.1

theorem Grown.of_not_prefix (h : Grown p d d') (hq : ¬ q <+: p) : d'.node q = d.node q :=
  (h.node q).resolve_right fun h' => hq h'.2.2

theorem Grown.of_dir (h : Grown p d d') (hp : d.node p = some .dir) : d'.node q = d.node q := by
  rcases h.node q with heq | ⟨hnone, -, hpre⟩
  · exact heq
  · rw [node_of_dir hp hpre] at hnone
    cases hnone

theorem Grown.child {name : String} (h : Grown (p ++ [name]) d d') (hp : d.node p = some .dir)
    (hq : q ≠ p ++ [name]) : d'.node q = d.node q := by
  rcases h.node q with heq | ⟨hnone, -, hpre⟩
  · exact heq
  · exfalso
    rcases prefix_concat_iff.mp hpre with heq | hqp
    · exact hq heq
    · rw [node_of_dir hp hqp] at hnone
      cases hnone

theorem grown_mkdirs (hc : d.Clear p) : Grown p d (d.mkdirs p hc) := by
  refine ⟨fun q => ?_, rfl⟩
  by_cases hq : q <+: p ∧ d.node q = none
  · exact .inr ⟨hq.2, if_pos hq, hq.1⟩
  · exact .inl (if_neg hq)

variable {y : δ}

theorem Placed.trans {x : δ} {d₂ : Disk δ} (h₁ : Placed p x d d') (h₂ : Placed p y d' d₂) :
    Placed p y d d₂ :=
  ⟨h₂.log.trans h₁.log, h₂.file, fun q hq => (h₂.node q hq).trans (h₁.node q hq)⟩

theorem pruned_eraseAll (d : Disk δ) (p : Path) : Pruned p d (d.eraseAll p) := by
  refine ⟨fun _ => node_eraseAll_ne d, fun q => ?_, rfl⟩
  by_cases hq : p <+: q
  · exact .inr (node_eraseAll_below d hq)
  · exact .inl (node_eraseAll_ne d hq)

theorem grown_mkdirAll (d : Disk δ) (p : Path) : Grown p d (d.mkdirAll p).2 := by
  unfold mkdirAll
  split
  · exact grown_mkdirs ‹_›
  · exact Grown.refl p d

theorem mkdirAll_ok (h : d.Clear p) : d.mkdirAll p = (.ok (), d.mkdirs p h) := dif_pos h

variable [DecidableEq δ]

theorem reads_poll : (machine (δ := δ)).Reads .poll := fun _ => ⟨rfl, fun _ h => h⟩

theorem reads_lstat (p : Path) : (machine (δ := δ)).Reads (.lstat p) :=
  fun _ => ⟨rfl, fun _ h => h⟩

theorem reads_readFile (p : Path) : (machine (δ := δ)).Reads (.readFile p) :=
  fun _ => ⟨rfl, fun _ h => h⟩

theorem step_poll {x} (h : (machine (δ := δ)).Step .poll d x d') :
    d' = d := by
  rcases h with h | ⟨-, h⟩
  · exact (Prod.mk.inj h).2.symm
  · exact h

theorem step_lstat {x} (h : (machine (δ := δ)).Step (.lstat p) d x d') :
    d' = d ∧ x = d.lstat p := by
  rcases h with h | ⟨hx, -⟩
  · exact ⟨(Prod.mk.inj h).2.symm, (Prod.mk.inj h).1.symm⟩
  · exact hx.elim

theorem step_readFile {x} (h : (machine (δ := δ)).Step (.readFile p) d x d') :
    d' = d ∧ (x = d.readFile p ∨ x = .error .io) := by
  rcases h with h | ⟨hx, h⟩
  · exact ⟨(Prod.mk.inj h).2.symm, .inl (Prod.mk.inj h).1.symm⟩
  · exact ⟨h, .inr hx⟩

theorem cut_mkdirAll (h : (machine (δ := δ)).cut (.mkdirAll p) d d') : Grown p d d' := by
  rcases h with rfl | ⟨q, hq, rfl⟩
  · exact Grown.refl p _
  · exact (grown_mkdirAll d q).mono hq

theorem step_mkdirAll {x} (h : (machine (δ := δ)).Step (.mkdirAll p) d x d') :
    Grown p d d' ∧ (x = .ok () → ∀ q, q <+: p → d'.node q = some .dir) := by
  rcases h with h | ⟨hx, h⟩
  · have h : d.mkdirAll p = (x, d') := h
    unfold mkdirAll at h
    split at h
    · rename_i hc
      obtain ⟨-, rfl⟩ := Prod.mk.inj h
      exact ⟨grown_mkdirs hc, fun _ _ => node_mkdirs_dir d hc⟩
    · cases h
      exact ⟨Grown.refl p _, nofun⟩
  · refine ⟨cut_mkdirAll h, fun hok => ?_⟩
    rw [hok] at hx
    cases hx

theorem step_mkdir {x} (h : (machine (δ := δ)).Step (.mkdir p) d x d') :
    Grown p d d' ∧ (x = .ok () → d.node p = none ∧ ∀ q, q <+: p → d'.node q = some .dir) := by
  rcases h with h | ⟨hx, h⟩
  · have h : d.mkdir p = (x, d') := h
    unfold mkdir at h
    split at h
    · cases h
      exact ⟨Grown.refl p _, nofun⟩
    · rename_i hnone
      split at h
      · rename_i hc
        obtain ⟨-, rfl⟩ := Prod.mk.inj h
        exact ⟨grown_mkdirs hc.2, fun _ => ⟨not_not.mp hnone, fun _ => node_mkdirs_dir d hc.2⟩⟩
      · cases h
        exact ⟨Grown.refl p _, nofun⟩
  · obtain rfl : d' = d := h
    refine ⟨Grown.refl p _, fun hok => ?_⟩
    rw [hok] at hx
    cases hx

theorem cut_writeFile (h : (machine (δ := δ)).cut (.writeFile p y) d d') :
    Grown p.dropLast d d' := by
  rcases h with rfl | ⟨q, hq, rfl⟩
  · exact Grown.refl _ _
  · exact (grown_mkdirAll d q).mono hq

theorem step_writeFile {x} (h : (machine (δ := δ)).Step (.writeFile p y) d x d') :
    (x = .ok () ∧ d'.log = (p, y) :: d.log ∧ d'.node p = some (.file y) ∧
      d'.node p.dropLast = some .dir ∧ p ≠ [] ∧
      ∀ q, q ≠ p → d'.node q = d.node q ∨
        d.node q = none ∧ d'.node q = some .dir ∧ q <+: p.dropLast) ∨
    (∃ e, x = .error e) ∧ Grown p.dropLast d d' := by
  rcases h with h | ⟨hx, h⟩
  · have h : d.writeFile p y = (x, d') := h
    unfold writeFile at h
    split at h
    · rename_i hc
      split at h
      · rename_i hp
        cases h
        have hlt : p.dropLast ≠ p := by
          intro hh
          have := congrArg List.length hh
          have := length_pos_of_ne_nil hp.1
          rw [length_dropLast] at *
          omega
        refine .inl ⟨rfl, rfl, ?_, ?_, hp.1, fun q hq => ?_⟩
        · rw [node_logged, node_put_self]
        · rw [node_logged, node_put_ne _ _ _ _ _ hlt]
          exact node_mkdirs_dir d hc (prefix_refl _)
        · rw [node_logged, node_put_ne _ _ _ _ _ hq]
          exact (grown_mkdirs hc).node q
      · cases h
        exact .inr ⟨⟨_, rfl⟩, grown_mkdirs hc⟩
    · cases h
      exact .inr ⟨⟨_, rfl⟩, Grown.refl _ _⟩
  · exact .inr ⟨⟨_, hx⟩, cut_writeFile h⟩

theorem createExcl_cases {x : Except Errno Unit} (h : d.createExcl p y = (x, d')) :
    (x = .ok () ∧ d.node p = none ∧ Placed p y d d') ∨ (∃ e, x = .error e) ∧ d' = d := by
  unfold createExcl at h
  split at h
  · cases h
    exact .inr ⟨⟨_, rfl⟩, rfl⟩
  · rename_i hnone
    split at h
    · cases h
      exact .inl ⟨rfl, not_not.mp hnone, rfl, node_put_self ..,
        fun _ => node_put_ne _ _ _ _ _⟩
    · cases h
      exact .inr ⟨⟨_, rfl⟩, rfl⟩

theorem step_createExcl {x} (h : (machine (δ := δ)).Step (.createExcl p y) d x d') :
    (x = .ok () ∧ d.node p = none ∧ Placed p y d d') ∨ (∃ e, x = .error e) ∧ d' = d := by
  rcases h with h | ⟨hx, h⟩
  · exact createExcl_cases h
  · exact .inr ⟨⟨_, hx⟩, h⟩

theorem step_write {x} (h : (machine (δ := δ)).Step (.write p y) d x d') :
    (x = .ok () ∧ (∃ z, d.node p = some (.file z)) ∧ Placed p y d d') ∨
      (∃ e, x = .error e) ∧ d' = d := by
  rcases h with h | ⟨hx, h⟩
  · have h : d.write p y = (x, d') := h
    unfold write at h
    split at h
    · rename_i z hz
      split at h
      · cases h
        exact .inl ⟨rfl, ⟨z, hz⟩, rfl, node_put_self .., fun _ => node_put_ne _ _ _ _ _⟩
      · cases h
        exact .inr ⟨⟨_, rfl⟩, rfl⟩
    · cases h
      exact .inr ⟨⟨_, rfl⟩, rfl⟩
    · cases h
      exact .inr ⟨⟨_, rfl⟩, rfl⟩
  · exact .inr ⟨⟨_, hx⟩, h⟩

theorem step_link {x} (h : (machine (δ := δ)).Step (.link p q) d x d') :
    (x = .ok () ∧ ∃ y, d.node p = some (.file y) ∧ d.node q = none ∧
      d'.node q = some (.file y) ∧ d'.log = d.log ∧ ∀ r, r ≠ q → d'.node r = d.node r) ∨
    (∃ e, x = .error e) ∧ d' = d := by
  rcases h with h | ⟨hx, h⟩
  · have h : d.link p q = (x, d') := h
    unfold link at h
    split at h
    · cases h
      exact .inr ⟨⟨_, rfl⟩, rfl⟩
    · rename_i y hy
      have hp : d.node p = some (.file y) := by
        unfold readFile at hy
        split at hy <;> cases hy
        assumption
      rcases createExcl_cases h with ⟨hx, hq, hplaced⟩ | h
      · exact .inl ⟨hx, y, hp, hq, hplaced.file, hplaced.log, hplaced.node⟩
      · exact .inr h
  · exact .inr ⟨⟨_, hx⟩, h⟩

theorem step_openFile {x} (h : (machine (δ := δ)).Step (.openFile p y) d x d') :
    d'.log = d.log ∧ (d'.node p = d.node p ∨ d.node p = none ∧ d'.node p = some (.file y)) ∧
      (x = .ok () → ∃ z, d'.node p = some (.file z)) ∧ ∀ q, q ≠ p → d'.node q = d.node q := by
  rcases h with h | ⟨hx, h⟩
  · have h : d.openFile p y = (x, d') := h
    unfold openFile at h
    split at h
    · rename_i z hz
      obtain ⟨-, rfl⟩ := Prod.mk.inj h
      exact ⟨rfl, .inl rfl, fun _ => ⟨z, hz⟩, fun _ _ => rfl⟩
    · cases h
      exact ⟨rfl, .inl rfl, nofun, fun _ _ => rfl⟩
    · rename_i hnone
      split at h
      · obtain ⟨-, rfl⟩ := Prod.mk.inj h
        exact ⟨rfl, .inr ⟨hnone, node_put_self ..⟩, fun _ => ⟨y, node_put_self ..⟩,
          fun _ => node_put_ne _ _ _ _ _⟩
      · cases h
        exact ⟨rfl, .inl rfl, nofun, fun _ _ => rfl⟩
  · obtain rfl : d' = d := h
    refine ⟨rfl, .inl rfl, fun hok => ?_, fun _ _ => rfl⟩
    rw [hok] at hx
    cases hx

theorem step_rename {x} (h : (machine (δ := δ)).Step (.rename p q) d x d') :
    (x = .ok () ∧ d'.log = d.log ∧ d.Writable q ∧ ∃ y, d.node p = some (.file y) ∧
      ∀ r, d'.node r = if r = q then some (.file y) else if r = p then none else d.node r) ∨
    (∃ e, x = .error e) ∧ d' = d := by
  rcases h with h | ⟨hx, h⟩
  · have h : d.rename p q = (x, d') := h
    unfold rename at h
    split at h
    · rename_i y hp
      split at h
      · rename_i hw
        split at h
        · rename_i hpq
          subst hpq
          cases h
          refine .inl ⟨rfl, rfl, hw, y, hp, fun r => ?_⟩
          by_cases hr : r = p
          · rw [if_pos hr, hr, hp]
          · rw [if_neg hr, if_neg hr]
        · rename_i hpq
          cases h
          refine .inl ⟨rfl, rfl, hw, y, hp, fun r => ?_⟩
          by_cases hr : r = p
          · rw [hr, if_neg hpq, if_pos rfl]
            exact node_erase_self ..
          · rw [node_erase_ne _ _ hr, if_neg hr]
            by_cases hrq : r = q
            · rw [if_pos hrq, hrq]
              exact node_put_self ..
            · rw [if_neg hrq]
              exact node_put_ne _ _ _ _ _ hrq
      · cases h
        exact .inr ⟨⟨_, rfl⟩, rfl⟩
    · cases h
      exact .inr ⟨⟨_, rfl⟩, rfl⟩
    · cases h
      exact .inr ⟨⟨_, rfl⟩, rfl⟩
  · exact .inr ⟨⟨_, hx⟩, h⟩

theorem step_remove {x} (h : (machine (δ := δ)).Step (.remove p) d x d') :
    (x = .ok () ∧ d'.log = d.log ∧ d.node p ≠ some .dir ∧ d'.node p = none ∧
      ∀ q, q ≠ p → d'.node q = d.node q) ∨
    (∃ e, x = .error e ∧ (e = .notExist → d.node p = none)) ∧ d' = d := by
  rcases h with h | ⟨hx, h⟩
  · have h : d.remove p = (x, d') := h
    unfold remove at h
    split at h
    · cases h
      exact .inr ⟨⟨_, rfl, nofun⟩, rfl⟩
    · rename_i hdir
      split at h
      · rename_i hnone
        cases h
        exact .inr ⟨⟨_, rfl, fun _ => hnone⟩, rfl⟩
      · cases h
        exact .inl ⟨rfl, rfl, hdir, node_erase_self .., fun _ => node_erase_ne _ _⟩
  · exact .inr ⟨⟨_, hx, nofun⟩, h⟩

theorem step_removeAll {x} (h : (machine (δ := δ)).Step (.removeAll p) d x d') : Pruned p d d' := by
  rcases h with h | ⟨-, h⟩
  · obtain ⟨-, rfl⟩ := Prod.mk.inj h
    exact pruned_eraseAll d p
  · exact h

theorem remove_ok (h : d.node p ≠ none) (hdir : d.node p ≠ some .dir) :
    d.remove p = (.ok (), d.erase p hdir) := by
  rw [remove, dif_neg hdir, if_neg h]

theorem remove_none (h : d.node p = none) : d.remove p = (.error (d.missing p), d) := by
  rw [remove, dif_neg (by rw [h]; exact nofun), if_pos h]

theorem openFile_none {x : δ} (h : d.node p = none) (hw : d.Writable p) :
    d.openFile p x = (.ok (), d.put p x hw.1 hw.2.1 hw.2.2) := by
  unfold openFile
  split
  · rename_i hn
    rw [h] at hn
    cases hn
  · rename_i hn
    rw [h] at hn
    cases hn
  · exact dif_pos hw

theorem rename_ok (hp : d.node p = some (.file y)) (hq : d.Writable q) :
    ∃ d', d.rename p q = (.ok (), d') ∧ d'.log = d.log ∧
      ∀ r, d'.node r = if r = q then some (.file y) else if r = p then none else d.node r := by
  have hstep : (machine (δ := δ)).Step (.rename p q) d (d.rename p q).1 (d.rename p q).2 := .inl rfl
  rcases step_rename hstep with ⟨hx, hlog, -, y', hp', hnode⟩ | ⟨⟨e, he⟩, -⟩
  · rw [hp] at hp'
    obtain rfl : y = y' := by
      cases hp'
      rfl
    exact ⟨_, Prod.ext hx rfl, hlog, hnode⟩
  · exfalso
    unfold rename at he
    split at he
    · rw [dif_pos hq] at he
      split at he <;> cases he
    · rename_i n hn hne
      rw [hp] at hne
      exact hn y (Option.some.inj hne).symm
    · rename_i hne
      rw [hp] at hne
      cases hne

end Disk

end Scenery
