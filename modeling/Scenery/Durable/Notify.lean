import Mathlib.Logic.Function.Basic
import Scenery.Durable.Invariant

/-!
# Notifications of the durable store

`internal/durable/store/notify.go`: the notifications of a transaction, and the watcher that wakes
the task loops and the callers waiting for a job.
-/

namespace Scenery.Durable

open List

def taskWakeKey (task : String) : String := "task:" ++ task

def jobWakeKey (job : String) : String := "job:" ++ job

/-! ## The watcher -/

structure Subscription where
  wake : ℕ
  refs : ℕ
  deriving DecidableEq

structure Watcher where
  wakes : String → Option Subscription
  closed : Bool
  shut : List ℕ
  next : ℕ

namespace Watcher

variable (w : Watcher)

def new : Watcher := ⟨fun _ => none, false, [], 0⟩

def subscribe (key : String) : ℕ × Watcher :=
  if w.closed then (w.next, { w with shut := w.next :: w.shut, next := w.next + 1 })
  else
    match w.wakes key with
    | none =>
      (w.next, { w with
        wakes := Function.update w.wakes key (some ⟨w.next, 1⟩)
        next := w.next + 1 })
    | some entry =>
      (entry.wake, { w with
        wakes := Function.update w.wakes key (some { entry with refs := entry.refs + 1 }) })

def release (key : String) (wake : ℕ) : Watcher :=
  match w.wakes key with
  | none => w
  | some entry =>
    if entry.wake ≠ wake then w
    else if entry.refs - 1 = 0 then { w with wakes := Function.update w.wakes key none }
    else { w with wakes := Function.update w.wakes key (some ⟨wake, entry.refs - 1⟩) }

def signal (key : String) : Watcher :=
  match w.wakes key with
  | none => w
  | some entry =>
    { w with wakes := Function.update w.wakes key none, shut := entry.wake :: w.shut }

def dispatch (n : Notification) : Watcher :=
  let w := if n.task = "" then w else w.signal (taskWakeKey n.task)
  if n.job = "" then w else w.signal (jobWakeKey n.job)

def signalAll (keys : List String) : Watcher := keys.foldl signal w

end Watcher

def Notification.keys (n : Notification) : List String :=
  (if n.task = "" then [] else [taskWakeKey n.task]) ++
    if n.job = "" then [] else [jobWakeKey n.job]

/-! ## Subscribers -/

/-- The subscribers of one key: each waits on the current channel of the key, or on a closed
one. `waiting` lists the channels of those that have not released theirs. -/
structure Tracks (current : Option Subscription) (shut : List ℕ) (next : ℕ)
    (waiting : List ℕ) : Prop where
  current_or_shut : ∀ wake ∈ waiting, wake ∈ shut ∨ ∃ refs, current = some ⟨wake, refs⟩
  refs_eq : ∀ entry, current = some entry →
    entry.refs = waiting.count entry.wake ∧ 0 < entry.refs ∧ entry.wake < next
  lt_next : ∀ wake ∈ waiting, wake < next

namespace Tracks

variable {current : Option Subscription} {shut : List ℕ} {next : ℕ} {waiting : List ℕ}

theorem mono (h : Tracks current shut next waiting) {shut' : List ℕ} {next' : ℕ}
    (hshut : shut ⊆ shut') (hnext : next ≤ next') : Tracks current shut' next' waiting where
  current_or_shut wake hw := (h.current_or_shut wake hw).imp_left fun hs => hshut hs
  refs_eq entry he :=
    ⟨(h.refs_eq entry he).1, (h.refs_eq entry he).2.1, (h.refs_eq entry he).2.2.trans_le hnext⟩
  lt_next wake hw := (h.lt_next wake hw).trans_le hnext

theorem add_shut (h : Tracks current shut next waiting) :
    Tracks current (next :: shut) (next + 1) (next :: waiting) where
  current_or_shut wake hw := by
    rcases mem_cons.mp hw with rfl | hw
    · exact .inl mem_cons_self
    · exact (h.current_or_shut wake hw).imp_left (mem_cons_of_mem _)
  refs_eq entry he := by
    obtain ⟨hrefs, hpos, hlt⟩ := h.refs_eq entry he
    rw [count_cons_of_ne hlt.ne']
    exact ⟨hrefs, hpos, hlt.trans (Nat.lt_succ_self _)⟩
  lt_next wake hw := by
    rcases mem_cons.mp hw with rfl | hw
    · exact Nat.lt_succ_self _
    · exact (h.lt_next wake hw).trans (Nat.lt_succ_self _)

theorem add_new (h : Tracks none shut next waiting) :
    Tracks (some ⟨next, 1⟩) shut (next + 1) (next :: waiting) where
  current_or_shut wake hw := by
    rcases mem_cons.mp hw with rfl | hw
    · exact .inr ⟨1, rfl⟩
    · rcases h.current_or_shut wake hw with hs | ⟨refs, hcur⟩
      · exact .inl hs
      · cases hcur
  refs_eq entry he := by
    cases he
    have hzero : waiting.count next = 0 :=
      count_eq_zero.mpr fun hmem => absurd (h.lt_next _ hmem) (Nat.lt_irrefl _)
    exact ⟨by rw [count_cons_self, hzero], Nat.one_pos, Nat.lt_succ_self _⟩
  lt_next wake hw := by
    rcases mem_cons.mp hw with rfl | hw
    · exact Nat.lt_succ_self _
    · exact (h.lt_next wake hw).trans (Nat.lt_succ_self _)

theorem add_shared {wake refs : ℕ} (h : Tracks (some ⟨wake, refs⟩) shut next waiting) :
    Tracks (some ⟨wake, refs + 1⟩) shut next (wake :: waiting) where
  current_or_shut wake' hw := by
    rcases mem_cons.mp hw with rfl | hw
    · exact .inr ⟨_, rfl⟩
    · rcases h.current_or_shut wake' hw with hs | ⟨refs', hcur⟩
      · exact .inl hs
      · cases hcur
        exact .inr ⟨_, rfl⟩
  refs_eq entry he := by
    cases he
    obtain ⟨hrefs, -, hlt⟩ := h.refs_eq _ rfl
    exact ⟨by rw [count_cons_self, ← hrefs], Nat.succ_pos _, hlt⟩
  lt_next wake' hw := by
    rcases mem_cons.mp hw with rfl | hw
    · exact (h.refs_eq _ rfl).2.2
    · exact h.lt_next wake' hw

theorem signal {entry : Subscription} (h : Tracks (some entry) shut next waiting) :
    Tracks none (entry.wake :: shut) next waiting where
  current_or_shut wake hw := by
    rcases h.current_or_shut wake hw with hs | ⟨refs, hcur⟩
    · exact .inl (mem_cons_of_mem _ hs)
    · rw [Option.some.inj hcur]
      exact .inl mem_cons_self
  refs_eq entry he := by cases he
  lt_next := h.lt_next

theorem leave_other (h : Tracks current shut next waiting) {wake : ℕ}
    (hne : ∀ entry, current = some entry → entry.wake ≠ wake) :
    Tracks current shut next (waiting.erase wake) where
  current_or_shut wake' hw := h.current_or_shut wake' (mem_of_mem_erase hw)
  refs_eq entry he := by
    rw [count_erase_of_ne (hne entry he)]
    exact h.refs_eq entry he
  lt_next wake' hw := h.lt_next wake' (mem_of_mem_erase hw)

theorem leave_shared {wake refs : ℕ} (h : Tracks (some ⟨wake, refs⟩) shut next waiting)
    (hrefs : refs - 1 ≠ 0) : Tracks (some ⟨wake, refs - 1⟩) shut next (waiting.erase wake) where
  current_or_shut wake' hw := by
    rcases h.current_or_shut wake' (mem_of_mem_erase hw) with hs | ⟨refs', hcur⟩
    · exact .inl hs
    · cases hcur
      exact .inr ⟨_, rfl⟩
  refs_eq entry he := by
    cases he
    obtain ⟨hcount, -, hlt⟩ := h.refs_eq _ rfl
    exact ⟨by rw [count_erase_self, ← hcount], Nat.pos_of_ne_zero hrefs, hlt⟩
  lt_next wake' hw := h.lt_next wake' (mem_of_mem_erase hw)

theorem leave_last {wake refs : ℕ} (h : Tracks (some ⟨wake, refs⟩) shut next waiting)
    (hrefs : refs - 1 = 0) : Tracks none shut next (waiting.erase wake) where
  current_or_shut wake' hw := by
    rcases h.current_or_shut wake' (mem_of_mem_erase hw) with hs | ⟨refs', hcur⟩
    · exact .inl hs
    · -- the erased entry was the only one of its channel
      cases hcur
      have hcount : (waiting.erase wake).count wake = 0 := by
        rw [count_erase_self, ← (h.refs_eq _ rfl).1]
        exact hrefs
      exact absurd hw (count_eq_zero.mp hcount)
  refs_eq entry he := by cases he
  lt_next wake' hw := h.lt_next wake' (mem_of_mem_erase hw)

end Tracks

def Watcher.TracksAll (w : Watcher) (waiting : String → List ℕ) : Prop :=
  ∀ key, Tracks (w.wakes key) w.shut w.next (waiting key)

namespace Watcher

variable {w : Watcher} {waiting : String → List ℕ}

theorem TracksAll.update (h : w.TracksAll waiting) (key : String) {current : Option Subscription}
    {shut : List ℕ} {next : ℕ} {channels : List ℕ} (hshut : w.shut ⊆ shut)
    (hnext : w.next ≤ next) (hkey : Tracks current shut next channels) :
    TracksAll ⟨Function.update w.wakes key current, w.closed, shut, next⟩
      (Function.update waiting key channels) := by
  intro k
  by_cases hk : k = key
  · subst hk
    simpa using hkey
  · simpa [hk] using (h k).mono hshut hnext

theorem signal_cases (w : Watcher) (key : String) :
    w.signal key = w ∧ w.wakes key = none ∨
      ∃ entry, w.wakes key = some entry ∧ w.signal key =
        ⟨Function.update w.wakes key none, w.closed, entry.wake :: w.shut, w.next⟩ := by
  unfold signal
  cases h : w.wakes key with
  | none => exact .inl ⟨rfl, rfl⟩
  | some entry => exact .inr ⟨entry, rfl, rfl⟩

theorem shut_subset_signal (w : Watcher) (key : String) : w.shut ⊆ (w.signal key).shut := by
  rcases w.signal_cases key with ⟨heq, -⟩ | ⟨entry, -, heq⟩ <;> rw [heq]
  · exact List.Subset.refl _
  · exact subset_cons_self _ _

section

variable (h : w.TracksAll waiting)
include h

theorem TracksAll.signal (key : String) :
    (w.signal key).TracksAll waiting := by
  rcases w.signal_cases key with ⟨heq, -⟩ | ⟨entry, hentry, heq⟩ <;> rw [heq]
  · exact h
  have hkey := h key
  rw [hentry] at hkey
  have hall := h.update key (subset_cons_self _ _) le_rfl hkey.signal
  rwa [Function.update_eq_self] at hall

theorem TracksAll.shut_signal {key : String} {wake : ℕ}
    (hmem : wake ∈ waiting key) : wake ∈ (w.signal key).shut := by
  have hkey := h key
  rcases w.signal_cases key with ⟨heq, hnone⟩ | ⟨entry, hentry, heq⟩ <;> rw [heq]
  · rw [hnone] at hkey
    rcases hkey.current_or_shut wake hmem with hs | ⟨refs, hcur⟩
    · exact hs
    · cases hcur
  · rw [hentry] at hkey
    rcases hkey.signal.current_or_shut wake hmem with hs | ⟨refs, hcur⟩
    · exact hs
    · cases hcur

theorem TracksAll.subscribe (key : String) : (w.subscribe key).2.TracksAll
      (Function.update waiting key ((w.subscribe key).1 :: waiting key)) := by
  have hkey := h key
  unfold Watcher.subscribe
  split_ifs
  · have hall := h.update key (subset_cons_self w.next w.shut)
      (Nat.le_succ w.next) hkey.add_shut
    rwa [Function.update_eq_self] at hall
  · cases hcur : w.wakes key with rw [hcur] at hkey
    | none =>
      exact h.update key (List.Subset.refl _) (Nat.le_succ w.next) hkey.add_new
    | some entry =>
      exact h.update key (List.Subset.refl _) le_rfl hkey.add_shared

theorem TracksAll.release (key : String) (wake : ℕ) :
    (w.release key wake).TracksAll (Function.update waiting key ((waiting key).erase wake)) := by
  have hkey := h key
  -- without an entry to change, the subscriber of an older channel leaves
  have hother : (∀ entry, w.wakes key = some entry → entry.wake ≠ wake) →
      w.TracksAll (Function.update waiting key ((waiting key).erase wake)) := by
    intro hne
    have hall := h.update key (List.Subset.refl _) le_rfl (hkey.leave_other hne)
    rwa [Function.update_eq_self] at hall
  unfold Watcher.release
  cases hcur : w.wakes key with
  | none => exact hother fun entry he => by rw [hcur] at he; cases he
  | some entry =>
    rw [hcur] at hkey
    simp only
    split_ifs with hwake hrefs
    · exact hother fun entry' he => by rw [hcur] at he; cases he; exact hwake
    · rw [not_not] at hwake
      subst hwake
      exact h.update key (List.Subset.refl _) le_rfl (hkey.leave_last hrefs)
    · rw [not_not] at hwake
      subst hwake
      exact h.update key (List.Subset.refl _) le_rfl (hkey.leave_shared hrefs)

end

theorem shut_subset_signalAll (w : Watcher) (keys : List String) :
    w.shut ⊆ (w.signalAll keys).shut := by
  induction keys generalizing w with
  | nil => exact List.Subset.refl _
  | cons key rest ih => exact List.Subset.trans (w.shut_subset_signal key) (ih _)

theorem TracksAll.signalAll (h : w.TracksAll waiting) (keys : List String) :
    (w.signalAll keys).TracksAll waiting := by
  induction keys generalizing w with
  | nil => exact h
  | cons key rest ih => exact ih (h.signal key)

theorem TracksAll.shut_signalAll (h : w.TracksAll waiting) {keys : List String}
    {key : String} {wake : ℕ} (hmem : wake ∈ waiting key) (hkey : key ∈ keys) :
    wake ∈ (w.signalAll keys).shut := by
  induction keys generalizing w with
  | nil => cases hkey
  | cons k rest ih =>
    rcases mem_cons.mp hkey with rfl | hkey
    · exact shut_subset_signalAll _ rest (h.shut_signal hmem)
    · exact ih (h.signal k) hkey

theorem dispatch_eq (w : Watcher) (n : Notification) : w.dispatch n = w.signalAll n.keys := by
  unfold dispatch Notification.keys
  split_ifs <;> rfl

theorem subscribe_shut (w : Watcher) (key : String) : w.shut ⊆ (w.subscribe key).2.shut := by
  unfold subscribe
  split_ifs
  · exact subset_cons_self _ _
  · cases w.wakes key <;> exact List.Subset.refl _

theorem release_shut (w : Watcher) (key : String) (wake : ℕ) :
    (w.release key wake).shut = w.shut := by
  unfold release
  cases w.wakes key with
  | none => rfl
  | some entry =>
    simp only
    split_ifs <;> rfl

end Watcher

/-! ## Transitions and their announcement -/

def Announced (before after : Db) (notifications : List Notification) : Prop :=
  ∀ j ∈ before.jobs, ∀ j' ∈ after.jobs, j'.id = j.id → j'.state ≠ j.state →
    j'.state = .queued ∨ j'.state.isFinal = true →
      (∃ n ∈ notifications, taskWakeKey j.taskName ∈ n.keys) ∧
        (j'.state.isFinal = true → ∃ n ∈ notifications, jobWakeKey j.id ∈ n.keys)

def Call.midway (c : Call) (now : ℤ) (db : Db) : Db :=
  match c with
  | .start request => db.releaseKeys now (Db.normalizeStart request)
  | .lease _ _ taskName _ => db.recoverExpiredJobs now (trimSpace taskName)
  | _ => db

/-- Both statements of the call announce the transitions they make. -/
def Call.Announces (c : Call) (now : ℤ) (db : Db) : Prop :=
  ∀ r, c.commit now db = .ok r →
    Announced db (c.midway now db) r.notifications ∧
      Announced (c.midway now db) r.db r.notifications

/-- A lease finds no expired job of its task. -/
def Call.Quiet (c : Call) (now : ℤ) (db : Db) : Prop :=
  ∀ workerID leaseID taskName tokenHash, c = .lease workerID leaseID taskName tokenHash →
    trimSpace workerID ≠ "" → trimSpace leaseID ≠ "" → trimSpace taskName ≠ "" →
      ∀ j ∈ db.jobs, Db.expired now (trimSpace taskName) j = false

variable {n : Notification}

theorem mem_keys_task (h : n.task ≠ "") : taskWakeKey n.task ∈ n.keys := by
  simp [Notification.keys, h]

theorem mem_keys_job (h : n.job ≠ "") : jobWakeKey n.job ∈ n.keys := by
  simp [Notification.keys, h]

variable {notifications : List Notification}

theorem announced_of_quiet {before after : Db}
    (h : ∀ j ∈ before.jobs, ∀ j' ∈ after.jobs, j'.id = j.id →
      j'.state = j.state ∨ j'.state = .running) : Announced before after notifications := by
  intro j hj j' hj' hid hne hstate
  rcases h j hj j' hj' hid with heq | hrun
  · exact absurd heq hne
  · rw [hrun] at hstate
    rcases hstate with h | h <;> cases h

variable {db : Db}

theorem announced_apply {p : Job → Bool} {c : Change}
    (h : ∀ j ∈ db.jobs, p j = true →
      (c.update j).state = j.state ∨ (c.update j).state = .running) :
    Announced db (db.apply p c) notifications := by
  refine announced_of_quiet fun j hj j' hj' hid => ?_
  rcases Db.apply_row hj hj' hid with ⟨hp, rfl⟩ | ⟨-, rfl⟩
  · exact h j hj hp
  · exact .inl rfl

theorem announced_applyTo {id : String} {p : Job → Bool} {job : Job} {c : Change}
    (hjob : db.select id p = some job) (hcons : job.Consistent) (htask : n.task = job.taskName)
    (hfinal : (c.update job).state.isFinal = true → n.job = id) :
    Announced db (db.applyTo id c) [n] := by
  obtain ⟨hmem, hid, -⟩ := Db.select_eq_some.mp hjob
  intro j hj j' hj' hjid hne _
  rcases Db.apply_row hj hj' hjid with ⟨hp, rfl⟩ | ⟨-, rfl⟩
  · have hjj : j = job := Table.eq_of_key hj hmem (by rw [hid]; exact of_decide_eq_true hp)
    subst hjj
    refine ⟨⟨n, mem_singleton_self n, ?_⟩, fun hf => ⟨n, mem_singleton_self n, ?_⟩⟩
    · rw [← htask]
      exact mem_keys_task (by rw [htask]; exact hcons.task_ne)
    · rw [hid, ← hfinal hf]
      exact mem_keys_job (by rw [hfinal hf, ← hid]; exact hcons.id_ne)
  · exact absurd rfl hne

theorem announced_refl (db : Db) (notifications : List Notification) :
    Announced db db notifications :=
  announced_of_quiet fun _ hj _ hj' hid => .inl (by rw [Table.eq_of_key hj' hj hid])

theorem announced_releaseKeys (db : Db) (now : ℤ) (req : Db.StartRequest)
    (notifications : List Notification) :
    Announced db (db.releaseKeys now req) notifications := by
  unfold Db.releaseKeys
  split_ifs
  · exact announced_refl db _
  · exact announced_apply fun j _ _ => .inl rfl

variable {now : ℤ}

theorem announced_insert {db inserted : Db} {req : Db.StartRequest}
    (h : db.insertJob now req = .ok inserted) :
    Announced db inserted notifications := by
  obtain ⟨task, -, -, hfree, -, rfl⟩ := Db.insertJob_eq_ok h
  refine announced_of_quiet fun j hj j' hj' hid => ?_
  rcases (Table.mem_insert hfree).mp hj' with hj' | rfl
  · exact .inl (by rw [Table.eq_of_key hj' hj hid])
  · exact absurd (mem_map.mpr ⟨j, hj, hid.symm⟩) hfree

theorem announced_recover {taskName : String}
    (h : ∀ j ∈ db.jobs, Db.expired now taskName j = false) :
    Announced db (db.recoverExpiredJobs now taskName) notifications :=
  announced_apply fun j hj hp => by rw [h j hj] at hp; cases hp

theorem Effect.announced {c : Call} {r : Committed Unit} (h : Effect now db c r)
    (hcons : ∀ j ∈ db.jobs, j.Consistent) (hquiet : c.Quiet now db) :
    Announced db (c.midway now db) r.notifications ∧
      Announced (c.midway now db) r.db r.notifications := by
  have hselected : ∀ {id : String} {p : Job → Bool} {job : Job}, db.select id p = some job →
      job.Consistent := fun hjob => hcons _ (Db.select_eq_some.mp hjob).1
  cases h with
  | startFound _ =>
    dsimp only
    exact ⟨announced_releaseKeys _ _ _ _, announced_refl _ _⟩
  | startNew _ _ hins => exact ⟨announced_releaseKeys _ _ _ _, announced_insert hins⟩
  | leaseEmpty hnames =>
    obtain ⟨hw, hl, ht⟩ := hnames
    exact ⟨announced_recover (hquiet _ _ _ _ rfl hw hl ht), announced_refl _ _⟩
  | leased hnames _ =>
    obtain ⟨hw, hl, ht⟩ := hnames
    exact ⟨announced_recover (hquiet _ _ _ _ rfl hw hl ht),
      announced_apply fun _ _ _ => .inr rfl⟩
  | heartbeat _ => exact ⟨announced_refl _ _, announced_apply fun _ _ _ => .inl rfl⟩
  | complete hjob | requeue hjob _ | fail hjob | cancel hjob =>
    exact ⟨announced_refl _ _, announced_applyTo hjob (hselected hjob) rfl fun _ => rfl⟩
  | retry hjob =>
    -- a manual retry queues the job and names only its task
    exact ⟨announced_refl _ _, announced_applyTo hjob (hselected hjob) rfl nofun⟩
  | purge =>
    refine ⟨announced_refl _ _, announced_of_quiet fun j hj j' hj' hid => ?_⟩
    exact .inl (by rw [Table.eq_of_key (Table.mem_delete.mp hj').1 hj hid])

theorem lease_silent {workerID leaseID taskName : String} (tokenHash : String)
    (hw : trimSpace workerID ≠ "") (hl : trimSpace leaseID ≠ "") (ht : trimSpace taskName ≠ "") :
    ∃ r, (Call.lease workerID leaseID taskName tokenHash).commit now db = .ok r ∧
      r.notifications = [] := by
  simp only [Call.commit, Db.leaseReadyJobWithToken, if_neg hw, if_neg hl, if_neg ht]
  split
  · exact ⟨_, rfl, rfl⟩
  · exact ⟨_, rfl, rfl⟩

theorem recover_state {j : Job} :
    ((Change.recover now).update j).state = .queued ∨
      ((Change.recover now).update j).state.isFinal = true := by
  by_cases h : Change.attemptsLeft j = true
  · exact .inl (by simp [Change.recover, h])
  · exact .inr (by simp [Change.recover, h, JobState.isFinal])

theorem announces_iff {declared : Task → Prop} {last : ℤ} (h : Reachable declared db last)
    (c : Call) (now : ℤ) :
    c.Announces now db ↔ c.Quiet now db := by
  constructor
  · rintro hann workerID leaseID taskName tokenHash rfl hw hl ht j hj
    by_contra hexp
    rw [Bool.not_eq_false] at hexp
    obtain ⟨r, hr, hsilent⟩ := lease_silent tokenHash hw hl ht
    have hrun : j.state = .running := by
      simp only [Db.expired, Bool.and_eq_true, decide_eq_true_eq] at hexp
      exact hexp.1.2
    have hne : ((Change.recover now).update j).state ≠ j.state := by
      rw [hrun]
      intro heq
      rcases recover_state with hs | hs <;> rw [heq] at hs <;> cases hs
    obtain ⟨⟨n, hn, -⟩, -⟩ :=
      (hann r hr).1 j hj _ (Db.mem_apply_of hj hexp) rfl hne recover_state
    rw [hsilent] at hn
    cases hn
  · intro hquiet r hr
    exact (Call.commit_effect hr).announced h.consistent hquiet

end Scenery.Durable
