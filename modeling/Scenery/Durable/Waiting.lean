import Scenery.Durable.Notify

/-!
# Waiting for a job

The store together with one listening process: committed transactions send their notifications,
which arrive later and in order, and subscribers come and go at any time.
-/

namespace Scenery.Durable

open List

structure System where
  db : Db
  last : ℤ
  sent : List Notification
  delivered : ℕ
  watcher : Watcher
  waiting : String → List ℕ

namespace System

def call (s : System) (c : Call) (now : ℤ) : System :=
  match c.commit now s.db with
  | .ok r => { s with db := r.db, last := now, sent := s.sent ++ r.notifications }
  | .error _ => { s with last := now }

def subscribe (s : System) (key : String) : System :=
  { s with
    watcher := (s.watcher.subscribe key).2
    waiting := Function.update s.waiting key ((s.watcher.subscribe key).1 :: s.waiting key) }

def release (s : System) (key : String) (wake : ℕ) : System :=
  { s with
    watcher := s.watcher.release key wake
    waiting := Function.update s.waiting key ((s.waiting key).erase wake) }

inductive Step (declared : Task → Prop) (s : System) : System → Prop where
  | call (c : Call) {now : ℤ} (hnow : s.last ≤ now) : Step declared s (s.call c now)
  | declare {db' : Db} (hd : s.db.Redeclares db') (hdb' : ∀ task ∈ db'.tasks, declared task) :
    Step declared s { s with db := db' }
  | deliver {n : Notification} (hn : s.sent[s.delivered]? = some n) :
    Step declared s
      { s with watcher := s.watcher.dispatch n, delivered := s.delivered + 1 }
  | ready (keys : List String) : Step declared s { s with watcher := s.watcher.signalAll keys }
  | subscribe (key : String) : Step declared s (s.subscribe key)
  | release {key : String} {wake : ℕ} (h : wake ∈ s.waiting key) :
    Step declared s (s.release key wake)

inductive Reachable (declared : Task → Prop) : System → Prop where
  | init {tasks : Table Task.name} {now : ℤ} (h : ∀ task ∈ tasks, declared task) :
    Reachable declared ⟨⟨.empty, tasks, []⟩, now, [], 0, .new, fun _ => []⟩
  | step {s s' : System} (h : Reachable declared s) (hs : Step declared s s') :
    Reachable declared s'

/-- The watcher tracks every caller that waits. -/
structure Sound (declared : Task → Prop) (s : System) : Prop where
  db : Durable.Reachable declared s.db s.last
  delivered_le : s.delivered ≤ s.sent.length
  tracks : s.watcher.TracksAll s.waiting

variable {declared : Task → Prop} {s s' : System}

theorem call_cases (s : System) (c : Call) (now : ℤ) :
    s.call c now = { s with last := now } ∧ c.run now s.db = s.db ∨
      ∃ r, c.commit now s.db = .ok r ∧ c.run now s.db = r.db ∧
        s.call c now = { s with db := r.db, last := now, sent := s.sent ++ r.notifications } := by
  cases h : c.commit now s.db with
  | error e => exact .inl ⟨by simp [call, h], by simp [Call.run, h]⟩
  | ok r => exact .inr ⟨r, rfl, by simp [Call.run, h], by simp [call, h]⟩

theorem Sound.step (h : s.Sound declared) (hs : Step declared s s') : s'.Sound declared := by
  cases hs with
  | call c hnow =>
    have hdb := h.db.call c hnow
    rcases s.call_cases c _ with ⟨heq, hrun⟩ | ⟨r, -, hrun, heq⟩ <;> rw [heq] <;> rw [hrun] at hdb
    · exact ⟨hdb, h.delivered_le, h.tracks⟩
    · refine ⟨hdb, ?_, h.tracks⟩
      rw [length_append]
      exact h.delivered_le.trans (Nat.le_add_right _ _)
  | declare hd hdb' => exact ⟨h.db.declare hd hdb', h.delivered_le, h.tracks⟩
  | deliver hn =>
    refine ⟨h.db, (List.getElem?_eq_some_iff.mp hn).1, ?_⟩
    rw [Watcher.dispatch_eq]
    exact h.tracks.signalAll _
  | ready keys => exact ⟨h.db, h.delivered_le, h.tracks.signalAll keys⟩
  | subscribe key => exact ⟨h.db, h.delivered_le, h.tracks.subscribe key⟩
  | release _ => exact ⟨h.db, h.delivered_le, h.tracks.release _ _⟩

theorem Reachable.sound (h : Reachable declared s) : s.Sound declared := by
  induction h with
  | init htasks =>
    refine ⟨.init htasks, le_rfl, fun key => ⟨fun _ hw => absurd hw not_mem_nil, ?_,
      fun _ hw => absurd hw not_mem_nil⟩⟩
    intro entry he
    cases he
  | step _ hs ih => exact ih.step hs

structure Awaits (key : String) (wake i : ℕ) (n : Notification) (s : System) : Prop where
  lt_next : wake < s.watcher.next
  sent : s.sent[i]? = some n
  woken : wake ∈ s.watcher.shut ∨ wake ∉ s.waiting key ∨ s.delivered ≤ i

end System

namespace Watcher

theorem signal_next (w : Watcher) (key : String) : (w.signal key).next = w.next := by
  rcases w.signal_cases key with ⟨heq, -⟩ | ⟨entry, -, heq⟩ <;> rw [heq]

theorem signalAll_next (w : Watcher) (keys : List String) :
    (w.signalAll keys).next = w.next := by
  induction keys generalizing w with
  | nil => rfl
  | cons key rest ih => exact (ih _).trans (w.signal_next key)

theorem release_next (w : Watcher) (key : String) (wake : ℕ) :
    (w.release key wake).next = w.next := by
  unfold release
  cases w.wakes key with
  | none => rfl
  | some entry =>
    simp only
    split_ifs <;> rfl

theorem next_le_subscribe (w : Watcher) (key : String) : w.next ≤ (w.subscribe key).2.next := by
  unfold subscribe
  split_ifs
  · exact Nat.le_succ _
  · cases w.wakes key with
    | none => exact Nat.le_succ _
    | some entry => exact le_rfl

theorem TracksAll.subscribe_channel {w : Watcher} {waiting : String → List ℕ}
    (h : w.TracksAll waiting) (key : String) :
    (w.subscribe key).1 = w.next ∨ (w.subscribe key).1 ∈ waiting key := by
  have hkey := h key
  unfold Watcher.subscribe
  split_ifs
  · exact .inl rfl
  · cases hcur : w.wakes key with
    | none => exact .inl rfl
    | some entry =>
      rw [hcur] at hkey
      obtain ⟨hrefs, hpos, -⟩ := hkey.refs_eq entry rfl
      exact .inr (count_pos_iff.mp (hrefs ▸ hpos))

end Watcher

namespace System

variable {declared : Task → Prop} {s s' : System} {key : String} {wake i : ℕ} {n : Notification}

theorem Awaits.step (h : Awaits key wake i n s) (hsound : s.Sound declared)
    (hkey : key ∈ n.keys) (hs : Step declared s s') : Awaits key wake i n s' := by
  obtain ⟨hlt, hsent, hwoken⟩ := h
  cases hs with
  | call c hnow =>
    rcases s.call_cases c _ with ⟨heq, -⟩ | ⟨r, -, -, heq⟩ <;> rw [heq]
    · exact ⟨hlt, hsent, hwoken⟩
    · refine ⟨hlt, ?_, hwoken⟩
      exact getElem?_append_left (List.getElem?_eq_some_iff.mp hsent).1 ▸ hsent
  | declare _ _ => exact ⟨hlt, hsent, hwoken⟩
  | @deliver n' hn =>
    refine ⟨by rw [Watcher.dispatch_eq, Watcher.signalAll_next]; exact hlt, hsent, ?_⟩
    rw [Watcher.dispatch_eq]
    rcases hwoken with hshut | hleft | hlate
    · exact .inl (Watcher.shut_subset_signalAll _ _ hshut)
    · exact .inr (.inl hleft)
    · rcases hlate.lt_or_eq with hlate | rfl
      · exact .inr (.inr hlate)
      · -- the notification of the subscriber arrives
        rw [hsent] at hn
        cases hn
        by_cases hmem : wake ∈ s.waiting key
        · exact .inl (hsound.tracks.shut_signalAll hmem hkey)
        · exact .inr (.inl hmem)
  | ready keys =>
    refine ⟨by rw [Watcher.signalAll_next]; exact hlt, hsent, ?_⟩
    exact hwoken.imp_left fun hshut => Watcher.shut_subset_signalAll _ _ hshut
  | subscribe k =>
    refine ⟨hlt.trans_le (Watcher.next_le_subscribe _ _), hsent, ?_⟩
    rcases hwoken with hshut | hleft | hlate
    · exact .inl (Watcher.subscribe_shut _ _ hshut)
    · refine .inr (.inl fun hmem => ?_)
      by_cases hk : key = k
      · subst hk
        simp only [subscribe, Function.update_self, mem_cons] at hmem
        rcases hmem with hnew | hmem
        · -- the channel of a subscriber that has left is not handed out again
          rcases hsound.tracks.subscribe_channel key with hc | hc <;> rw [← hnew] at hc
          · exact absurd hc hlt.ne
          · exact hleft hc
        · exact hleft hmem
      · simp only [subscribe, Function.update_of_ne hk] at hmem
        exact hleft hmem
    · exact .inr (.inr hlate)
  | @release k wake' _ =>
    refine ⟨by rw [release, Watcher.release_next]; exact hlt, hsent, ?_⟩
    rcases hwoken with hshut | hleft | hlate
    · exact .inl (by rw [release, Watcher.release_shut]; exact hshut)
    · refine .inr (.inl fun hmem => hleft ?_)
      by_cases hk : key = k
      · subst hk
        simp only [release, Function.update_self] at hmem
        exact mem_of_mem_erase hmem
      · simpa only [release, Function.update_of_ne hk] using hmem
    · exact .inr (.inr hlate)

theorem Awaits.run (h : Awaits key wake i n s) (hsound : s.Sound declared) (hkey : key ∈ n.keys)
    (hrun : Relation.ReflTransGen (Step declared) s s') : Awaits key wake i n s' := by
  have hboth : Awaits key wake i n s' ∧ s'.Sound declared := by
    induction hrun with
    | refl => exact ⟨h, hsound⟩
    | tail _ hs ih => exact ⟨ih.1.step ih.2 hkey hs, ih.2.step hs⟩
  exact hboth.1

end System

theorem Call.exists_midway (c : Call) (now : ℤ) {db : Db} {j : Job} (hj : j ∈ db.jobs) :
    ∃ j₁ ∈ (c.midway now db).jobs, j₁.id = j.id ∧ j₁.taskName = j.taskName := by
  have happly : ∀ (p : Job → Bool) (ch : Change), (ch.update j).taskName = j.taskName →
      ∃ j₁ ∈ (db.apply p ch).jobs, j₁.id = j.id ∧ j₁.taskName = j.taskName := by
    intro p ch htask
    by_cases hp : p j = true
    · exact ⟨_, Db.mem_apply_of hj hp, ch.update_id j, htask⟩
    · exact ⟨j, Db.mem_apply_of_not hj (Bool.eq_false_iff.mpr hp), rfl, rfl⟩
  cases c with
  | start request =>
    simp only [midway, Db.releaseKeys]
    split_ifs
    · exact ⟨j, hj, rfl, rfl⟩
    · exact happly _ _ rfl
  | lease workerID leaseID taskName tokenHash => exact happly _ _ rfl
  | _ => exact ⟨j, hj, rfl, rfl⟩

/-- The committed change as a whole is announced, not only that of each statement. -/
theorem Call.Announces.net {c : Call} {now : ℤ} {db : Db} {r : Committed Unit}
    (h : c.Announces now db) (hr : c.commit now db = .ok r) :
    Announced db r.db r.notifications := by
  intro j hj j' hj' hid hne hstate
  obtain ⟨hfirst, hsecond⟩ := h r hr
  obtain ⟨j₁, hj₁, hid₁, htask₁⟩ := c.exists_midway now hj
  by_cases hmid : j'.state = j₁.state
  · rw [hmid] at hne hstate ⊢
    exact hfirst j hj j₁ hj₁ hid₁ hne hstate
  · rw [← hid₁, ← htask₁]
    exact hsecond j₁ hj₁ j' hj' (hid.trans hid₁.symm) hmid hstate

/-- In every reachable database a call announces its transitions exactly when it is quiet; and
a caller that waits for a job that a quiet call completes has been woken, or has left, once the
notifications sent up to this call have arrived. -/
theorem transitions_announced (declared : Task → Prop) :
    (∀ db last, Reachable declared db last → ∀ (c : Call) (now : ℤ),
      c.Announces now db ↔ c.Quiet now db) ∧
    ∀ s, System.Reachable declared s → ∀ (c : Call) (now : ℤ), s.last ≤ now →
      c.Quiet now s.db → ∀ j ∈ s.db.jobs, j.state.isFinal = false →
      ∀ j' ∈ (s.call c now).db.jobs, j'.id = j.id → j'.state.isFinal = true →
      ∀ wake ∈ s.waiting (jobWakeKey j.id), ∀ s',
        Relation.ReflTransGen (System.Step declared) (s.call c now) s' →
        (s.call c now).sent.length ≤ s'.delivered →
          wake ∈ s'.watcher.shut ∨ wake ∉ s'.waiting (jobWakeKey j.id) := by
  refine ⟨fun _ _ => announces_iff, ?_⟩
  intro s hs c now hnow hquiet j hj hopen j' hj' hid hfinal wake hwake s' hrun hdelivered
  have hsound := hs.sound
  have hsound' : (s.call c now).Sound declared := hsound.step (.call c hnow)
  rcases s.call_cases c now with ⟨heq, -⟩ | ⟨r, hr, -, heq⟩
  · rw [heq] at hj'
    rw [Table.eq_of_key hj' hj hid, hopen] at hfinal
    cases hfinal
  rw [heq] at hj'
  have hne : j'.state ≠ j.state := fun heq => by rw [heq, hopen] at hfinal; cases hfinal
  obtain ⟨n, hn, hkey⟩ :=
    (((announces_iff hsound.db c now).mpr hquiet).net hr j hj j' hj' hid hne (.inr hfinal)).2 hfinal
  obtain ⟨k, hk, hnk⟩ := mem_iff_getElem.mp hn
  have hsent : (s.call c now).sent[s.sent.length + k]? = some n := by
    rw [heq, getElem?_append_right (Nat.le_add_right _ _), Nat.add_sub_cancel_left,
      getElem?_eq_getElem hk, hnk]
  have hlate : (s.call c now).delivered ≤ s.sent.length + k := by
    rw [heq]
    exact hsound.delivered_le.trans (Nat.le_add_right _ _)
  have hlt : wake < (s.call c now).watcher.next := by
    rw [heq]
    exact (hsound.tracks _).lt_next wake hwake
  have hend := System.Awaits.run ⟨hlt, hsent, .inr (.inr hlate)⟩ hsound' hkey hrun
  have hlength : s.sent.length + k < (s.call c now).sent.length :=
    (List.getElem?_eq_some_iff.mp hsent).1
  rcases hend.woken with hshut | hleft | hpending
  · exact .inl hshut
  · exact .inr hleft
  · omega

theorem transitions_announced_complete :
    (Call.complete "job1" "worker" "lease" none).Announces 2 Sample.running := by
  have hreach : Reachable (fun _ => True) Sample.running 1 := Sample.reachable_running trivial
  refine ((transitions_announced fun _ => True).1 _ _ hreach _ 2).mpr ?_
  intro workerID leaseID taskName tokenHash h
  cases h

namespace Expiry

def task : Task := { Sample.task with maxAttempts := 1 }

def running : Db :=
  (Call.lease "worker" "lease" "email" "").run 1
    ((Call.start (Sample.request "job1")).run 0 ⟨.empty, ⟨[task], by decide⟩, []⟩)

def next : Call := .lease "other" "lease2" "email" ""

theorem reachable_running : Reachable (fun task => 1 ≤ task.maxAttempts) running 1 := by
  have hinit : Reachable (fun task => 1 ≤ task.maxAttempts)
      ⟨.empty, ⟨[task], by decide⟩, []⟩ 0 :=
    .init fun t ht => mem_singleton.mp ht ▸ by decide
  have hstarted := hinit.call (.start (Sample.request "job1")) le_rfl
  exact hstarted.call (.lease "worker" "lease" "email" "") (by decide)

end Expiry

/-- The lease that finds the job expired commits its failure and notifies nobody. -/
theorem expiry_not_announced :
    Reachable (fun task => 1 ≤ task.maxAttempts) Expiry.running 1 ∧
    (∃ j ∈ Expiry.running.jobs, j.id = "job1" ∧ j.state = .running) ∧
    (∃ j ∈ (Expiry.next.run 60000001 Expiry.running).jobs, j.id = "job1" ∧ j.state = .failed) ∧
    (Expiry.next.commit 60000001 Expiry.running).toOption.map Committed.notifications =
      some [] ∧
    ¬ Expiry.next.Announces 60000001 Expiry.running := by
  have hexpired : ∃ j ∈ Expiry.running.jobs.rows,
      Db.expired 60000001 (trimSpace "email") j = true := by decide +kernel
  refine ⟨Expiry.reachable_running, ?_, ?_, by decide +kernel, fun hann => ?_⟩
  · show ∃ j ∈ Expiry.running.jobs.rows, j.id = "job1" ∧ j.state = .running
    decide +kernel
  · show ∃ j ∈ (Expiry.next.run 60000001 Expiry.running).jobs.rows,
      j.id = "job1" ∧ j.state = .failed
    decide +kernel
  · obtain ⟨j, hj, hexp⟩ := hexpired
    have hquiet := (announces_iff Expiry.reachable_running _ _).mp hann
    rw [hquiet _ _ _ _ rfl (by decide +kernel) (by decide +kernel) (by decide +kernel) j hj]
      at hexp
    cases hexp

end Scenery.Durable
