import Mathlib.Data.Int.Notation
import Scenery.Dictionary
import Scenery.Runs

/-!
# Reused directory listings

`internal/dirlisting`: a listing is reused while its directory has the stamp it was read under.
Directories change at any time, also between the steps of a call.
-/

namespace Scenery.Dirlisting

structure Stamp where
  device : ℕ
  inode : ℕ
  size : ℤ
  modified : ℤ
  change : ℤ
  deriving DecidableEq

structure Member where
  name : String
  typ : ℕ
  deriving DecidableEq

structure Directory where
  stamp : Stamp
  members : List Member

structure Read where
  path : String
  listing : Directory
  readAt : ℤ

/-- Where a call of `ReadDir` is: after its first `Lstat`, after `os.ReadDir`, after the second
`Lstat`, and after its first look at the clock. -/
inductive Phase where
  | idle
  | begun (path : String) (current : Option Stamp)
  | read (r : Read)
  | confirmed (r : Read)
  | aged (r : Read)

def Phase.last : Phase → Option Read
  | read r | confirmed r | aged r => some r
  | _ => none

structure State where
  now : ℤ
  dirs : String → Option Directory
  listings : Dictionary String Directory
  fresh : Bool
  phase : Phase

inductive Action where
  | change (path : String) (entry : Option Directory)
  | begin (fresh : Bool)
  | evict (kept : String → Bool)
  | lstat (path : String)
  | readDir (fails : Bool)
  | lstatAfter
  | clock

def stableAge : ℤ := 2000000000

namespace State

variable (s : State)

def put (path : String) (entry : Option Directory) : State :=
  { s with dirs := fun p => if p = path then entry else s.dirs p }

def reuse (path : String) : Option Directory :=
  if s.fresh then none
  else (s.dirs path).bind fun d => (s.listings.get path).filter fun l => l.stamp = d.stamp

def forget (path : String) : State :=
  { s with listings := s.listings.erase path, phase := .idle }

def store (limit : ℕ) (r : Read) : State :=
  let listings : Dictionary String Directory :=
    if s.listings.length ≥ limit then [] else s.listings
  { s with listings := listings.set r.path r.listing, phase := .idle }

def check (r : Read) (holds : Bool) (next : State) : Option State :=
  some (if holds then next else s.forget r.path)

end State

def act (granularity : ℤ) (limit : ℕ) (s : State) : Action → Option State
  | .change path entry =>
    let time := s.now - s.now % granularity
    some (s.put path (entry.map fun d =>
      { d with stamp := { d.stamp with modified := time, change := time } }))
  | .begin fresh => some { s with fresh := fresh }
  | .evict kept => some { s with listings := s.listings.filter fun e => kept e.1 }
  | .lstat path =>
    match s.phase, s.reuse path with
    | .idle, some _ => some s
    | .idle, none => some { s with phase := .begun path ((s.dirs path).map Directory.stamp) }
    | _, _ => none
  | .readDir fails =>
    match s.phase with
    | .begun path current =>
      match current, s.dirs path, fails with
      | some stamp, some d, false =>
        some { s with phase := .read ⟨path, ⟨stamp, d.members⟩, s.now⟩ }
      | _, _, _ => some (s.forget path)
    | _ => none
  | .lstatAfter =>
    match s.phase with
    | .read r => s.check r ((s.dirs r.path).any fun d => d.stamp = r.listing.stamp)
      { s with phase := .confirmed r }
    | _ => none
  | .clock =>
    match s.phase with
    | .confirmed r => s.check r (s.now - r.listing.stamp.modified > stableAge)
      { s with phase := .aged r }
    | .aged r => s.check r (s.now - r.listing.stamp.change > stableAge) (s.store limit r)
    | _ => none

def step (granularity : ℤ) (limit : ℕ) (s : State) (e : ℤ × Action) : Option State :=
  if e.1 < s.now then none else act granularity limit { s with now := e.1 } e.2

def start (dirs : String → Option Directory) : State := ⟨0, dirs, [], false, .idle⟩

/-- A listing that is kept was read after the tick of the times recorded with it. -/
def readLate (granularity : ℤ) (s : State) (e : ℤ × Action) : Bool :=
  match e.2, s.phase with
  | .clock, .aged r => e.1 - r.listing.stamp.change ≤ stableAge ||
      r.listing.stamp.change + granularity ≤ r.readAt
  | _, _ => true

/-- While the directory has the stamp of the listing, it has its members. -/
def Current (s : State) (path : String) (l : Directory) : Prop :=
  ∀ d, s.dirs path = some d → d.stamp = l.stamp → d.members = l.members

/-- A kept listing older than the granularity is current. -/
structure Inv (granularity : ℤ) (s : State) : Prop where
  listings : ∀ e ∈ s.listings, e.2.stamp.change + granularity ≤ s.now ∧ Current s e.1 e.2
  phase : ∀ r, s.phase.last = some r → r.readAt ≤ s.now ∧
    (r.listing.stamp.change + granularity ≤ r.readAt → Current s r.path r.listing)

variable {g : ℤ} {limit : ℕ} {s s' : State} {path : String} {r : Read}

theorem reuse_eq_some {l : Directory} (h : s.reuse path = some l) :
    (path, l) ∈ s.listings ∧ ∃ d, s.dirs path = some d ∧ l.stamp = d.stamp := by
  unfold State.reuse at h
  split at h
  · cases h
  obtain ⟨d, hd, hl⟩ := Option.bind_eq_some_iff.mp h
  obtain ⟨hget, hstamp⟩ := Option.filter_eq_some_iff.mp hl
  obtain ⟨e, he, rfl⟩ := Option.map_eq_some_iff.mp hget
  have hpath := List.find?_some he
  simp only [decide_eq_true_eq] at hpath
  exact ⟨hpath ▸ List.mem_of_find?_eq_some he, d, hd, of_decide_eq_true hstamp⟩

/-- A directory changes when the tick of the listing is over. -/
theorem Current.change {path' : String} {l : Directory} (h : Current s path l) (hg : 0 < g)
    (hold : l.stamp.change + g ≤ s.now) {entry : Option Directory}
    (hs : act g limit s (.change path' entry) = some s') : Current s' path l := by
  cases hs
  intro d hd hstamp
  simp only [State.put] at hd
  split at hd
  · obtain ⟨d, -, rfl⟩ := Option.map_eq_some_iff.mp hd
    have hlt := Int.emod_lt_of_pos s.now hg
    simp only [← hstamp] at hold
    omega
  · exact h d hd hstamp

/-- Listings are dropped, and the call goes on. -/
theorem Inv.keep (h : Inv g s) {listings : Dictionary String Directory}
    (hlistings : ∀ e ∈ listings, e ∈ s.listings) {phase : Phase} {fresh : Bool}
    (hphase : ∀ r, phase.last = some r → s.phase.last = some r) :
    Inv g { s with listings := listings, phase := phase, fresh := fresh } :=
  ⟨fun e he => h.listings e (hlistings e he), fun r hr => h.phase r (hphase r hr)⟩

theorem Inv.forget (h : Inv g s) (path : String) : Inv g (s.forget path) :=
  h.keep (fun _ => List.mem_of_mem_filter) nofun

theorem Inv.check (h : Inv g s) {holds : Bool} {next : State} (hnext : holds = true → Inv g next)
    (hs : s.check r holds next = some s') : Inv g s' := by
  cases hs
  split
  · exact hnext ‹_›
  · exact h.forget r.path

theorem Inv.store (h : Inv g s) (hr : s.phase.last = some r)
    (hlate : r.listing.stamp.change + g ≤ r.readAt) : Inv g (s.store limit r) := by
  obtain ⟨hat, hcurrent⟩ := h.phase r hr
  refine ⟨fun e he => ?_, nofun⟩
  rcases List.mem_cons.mp he with rfl | he
  · exact ⟨Int.le_trans hlate hat, hcurrent hlate⟩
  · have hmem := List.mem_of_mem_filter he
    split at hmem
    · cases hmem
    · exact h.listings e hmem

theorem Inv.act (h : Inv g s) (hg : 0 < g) {a : Action} (hlate : readLate g s (s.now, a) = true)
    (hs : act g limit s a = some s') : Inv g s' := by
  have hsame : ∀ e ∈ s.listings, e ∈ s.listings := fun _ he => he
  cases a with
  | change path entry =>
    have hchange {p l} (hc : Current s p l) hold := hc.change hg hold hs
    cases hs
    exact ⟨fun e he => ⟨(h.listings e he).1, hchange (h.listings e he).2 (h.listings e he).1⟩,
      fun r hr => ⟨(h.phase r hr).1, fun hlate =>
        hchange ((h.phase r hr).2 hlate) (Int.le_trans hlate (h.phase r hr).1)⟩⟩
  | begin fresh =>
    cases hs
    exact h.keep hsame fun _ hr => hr
  | evict kept =>
    cases hs
    exact h.keep (fun _ => List.mem_of_mem_filter) fun _ hr => hr
  | lstat path =>
    simp only [Dirlisting.act] at hs
    split at hs <;> cases hs
    · exact h
    · exact h.keep hsame nofun
  | readDir fails =>
    simp only [Dirlisting.act] at hs
    split at hs
    · split at hs <;> cases hs
      · rename_i hd _
        refine ⟨h.listings, fun r hr => ?_⟩
        cases hr
        refine ⟨Int.le_refl _, fun _ d' hd' _ => ?_⟩
        cases hd.symm.trans hd'
        rfl
      · exact h.forget _
    · cases hs
  | lstatAfter =>
    simp only [Dirlisting.act] at hs
    split at hs
    · rename_i hphase
      refine h.check (fun _ => h.keep hsame fun _ hr => ?_) hs
      rw [hphase]
      exact hr
    · cases hs
  | clock =>
    simp only [Dirlisting.act] at hs
    split at hs
    · rename_i hphase
      refine h.check (fun _ => h.keep hsame fun _ hr => ?_) hs
      rw [hphase]
      exact hr
    · rename_i r hphase
      refine h.check (fun hage => h.store (hphase ▸ rfl) ?_) hs
      simp only [readLate, hphase, Bool.or_eq_true, decide_eq_true_eq] at hlate
      exact hlate.resolve_left (Int.not_le.mpr (of_decide_eq_true hage))
    · cases hs

theorem inv_of_run (hg : 0 < g) {dirs : String → Option Directory}
    (h : Run (step g limit) (fun s e => readLate g s e = true) (start dirs) s) : Inv g s := by
  refine h.invariant ⟨nofun, nofun⟩ fun s e s' hinv hlate hs => ?_
  simp only [step] at hs
  split at hs
  · cases hs
  · rename_i htime
    have htime := Int.not_lt.mp htime
    refine Inv.act ⟨fun l hl => ?_, fun r hr => ?_⟩ hg hlate hs
    · exact ⟨Int.le_trans (hinv.listings l hl).1 htime, (hinv.listings l hl).2⟩
    · exact ⟨Int.le_trans (hinv.phase r hr).1 htime, (hinv.phase r hr).2⟩

/-- **When reused listings are current.** In every run in which a listing that is kept was read
after the tick of the times recorded with it, a reused listing has the names and types of the
directory at the `Lstat` of the call. -/
theorem reused_listing_current (hg : 0 < g) {dirs : String → Option Directory}
    (h : Run (step g limit) (fun s e => readLate g s e = true) (start dirs) s) {l : Directory}
    (hl : s.reuse path = some l) : ∃ d, s.dirs path = some d ∧ l.members = d.members := by
  obtain ⟨hmem, d, hd, hstamp⟩ := reuse_eq_some hl
  exact ⟨d, hd, (((inv_of_run hg h).listings _ hmem).2 d hd hstamp.symm).symm⟩

def call (time : ℤ) (between : List (ℤ × Action)) : List (ℤ × Action) :=
  [(1, .lstat "a"), (time, .readDir false)] ++ between ++
    [(time, .lstatAfter), (3000000001, .clock), (3000000001, .clock)]

def empty : Directory := ⟨⟨1, 2, 64, 0, 0⟩, []⟩

abbrev Sample (ok : State → ℤ × Action → Prop) : State → Prop :=
  Run (step 1000000000 8) ok (start fun _ => some empty)

/-- A listing that is read after a second is kept and reused. -/
theorem reused_listing_current_later :
    ∃ s, Sample (fun s e => readLate 1000000000 s e = true) s ∧ ∃ l, s.reuse "a" = some l ∧
      ∃ d, s.dirs "a" = some d ∧ l.members = d.members := by
  obtain ⟨s, hrun, hsome⟩ : ∃ s, Sample (fun s e => readLate 1000000000 s e = true) s ∧
      (s.reuse "a").isSome = true := Run.exists_of_runAll (call 1000000000 []) (by decide)
  obtain ⟨l, hl⟩ := Option.isSome_iff_exists.mp hsome
  exact ⟨s, hrun, l, hl, reused_listing_current (by decide) hrun hl⟩

/-- The directory changes within its tick after it was read, and the clock is read much later. -/
theorem reused_listing_stale : ∃ s, Sample (fun _ _ => True) s ∧
    (s.reuse "a").any (fun l => (s.dirs "a").any fun d => l.members ≠ d.members) = true :=
  Run.exists_of_runAll (call 2 [(2, .change "a" (some { empty with members := [⟨"x", 0⟩] }))])
    (by decide)

end Scenery.Dirlisting
