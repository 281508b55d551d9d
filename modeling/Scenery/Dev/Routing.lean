import Scenery.Dev.Supervisor

/-!
# Stopped instances are not routed to

In every state of an orderly run the supervisor owns its instances, the numbers order the
publications, and the supervisor accounts for every instance the host can route to.
-/

namespace Scenery.Dev

open Scenery.Host List Option

def State.base (s : State) : List Instance :=
  match s.publication with
  | some p => p.previous
  | none => s.services

def Held (s : State) (number : ℕ) (x : Instance) : Prop :=
  (∃ e ∈ s.retained, e.1 = number ∧ x ∈ e.2) ∨ (number ∈ s.unknown ∧ x ∈ s.base) ∨
    ∃ p ∈ s.publication, p.manifest.generation = number ∧ x ∈ s.services

def Accounted (s : State) (number : ℕ) (entries : List (String × InstanceSpec)) : Prop :=
  ∀ entry ∈ entries, ∃ x ∈ s.known, x.socket = entry.2.address ∧ Held s number x

/-- No stopped instance is in service, in the base or retained. -/
structure Owned (s : State) : Prop where
  distinct : (s.known.map Instance.socket).Nodup
  services : ∀ x ∈ s.services, x ∈ s.known
  base : ∀ x ∈ s.base, x ∈ s.known
  retained : ∀ e ∈ s.retained, ∀ x ∈ e.2, x ∈ s.known
  stopped : ∀ x ∈ s.stopped, x ∈ s.known ∧ x ∉ s.services ∧ x ∉ s.base ∧
    ∀ e ∈ s.retained, x ∉ e.2
  started : ∀ p ∈ s.publication, ∀ l, p.started = some l →
    s.services = replaceServices p.previous l ∧
      ∀ x ∈ l, x ∈ s.known ∧ x ∉ s.stopped ∧ x ∉ p.previous ∧ ∀ e ∈ s.retained, x ∉ e.2
  reconciled : ∀ p ∈ s.publication, p.started = none → s.services = p.previous

structure Numbered (s : State) : Prop where
  descending : Descending s.generations
  generations : ∀ n ∈ s.generations.map Generation.number, n ≤ s.published
  puts : ∀ m ∈ s.puts, m.generation ≤ s.published ∧
    m.generation ∉ s.generations.map Generation.number
  distinct : (s.puts.map Manifest.generation).Nodup
  generation : s.generation ≤ s.published
  unconfirmed : ∀ k ∈ s.unconfirmed, k ≤ s.published
  publication : ∀ p ∈ s.publication, p.manifest.generation = s.published ∧
    s.generation < s.published ∧ (∀ k ∈ s.unconfirmed, k < s.published) ∧
      ∀ m ∈ s.puts, m.generation = s.published → m = p.manifest
  accepted : ∀ p ∈ s.publication, p.phase = .settled .accepted →
    p.manifest.generation ∈ s.generations.map Generation.number
  refused : ∀ p ∈ s.publication, p.phase = .settled .refused →
    p.manifest.generation ∉ s.generations.map Generation.number ∧
      p.manifest.generation ∉ s.puts.map Manifest.generation
  retiring : ∀ e ∈ s.retiring, ∃ n ∈ s.generations.map Generation.number, e.1 < n
  finished : ∀ k, (k, .finished) ∈ s.retiring → ¬ Live k s.generations

structure Routed (s : State) : Prop where
  generations : ∀ g ∈ s.generations, g.retired = false → Accounted s g.number g.instances
  puts : ∀ m ∈ s.puts, (∃ n ∈ s.generations.map Generation.number, m.generation < n) ∨
    Accounted s m.generation m.processes
  unknown : ∀ p ∈ s.publication, p.started ≠ none → s.unknown = []

/-- The invariant of orderly runs. -/
structure Inv (s : State) : Prop where
  owned : Owned s
  numbered : Numbered s
  routed : Routed s

variable {cfg : HostConfig} {s s' : State}

theorem base_of_none (h : s.publication = none) : s.base = s.services := by
  rw [State.base, h]

variable {p : Publication}

theorem base_of_some (h : s.publication = some p) : s.base = p.previous := by
  rw [State.base, h]

theorem not_publication {q : Prop} (h : s.publication = none) (hp : p ∈ s.publication) : q := by
  rw [h] at hp
  cases hp

variable {number : ℕ}

theorem Accounted.mono {entries : List (String × InstanceSpec)} (h : Accounted s number entries)
    (hknown : ∀ x ∈ s.known, x ∈ s'.known) (hheld : ∀ x, Held s number x → Held s' number x) :
    Accounted s' number entries := by
  intro entry hentry
  obtain ⟨x, hx, hsocket, hx'⟩ := h entry hentry
  exact ⟨x, hknown x hx, hsocket, hheld x hx'⟩

theorem Owned.of_none (hnone : s.publication = none)
    (hdistinct : (s.known.map Instance.socket).Nodup) (hservices : ∀ x ∈ s.services, x ∈ s.known)
    (hretained : ∀ e ∈ s.retained, ∀ x ∈ e.2, x ∈ s.known)
    (hstopped : ∀ x ∈ s.stopped, x ∈ s.known ∧ x ∉ s.services ∧ ∀ e ∈ s.retained, x ∉ e.2) :
    Owned s := by
  refine ⟨hdistinct, hservices, ?_, hretained, fun x hx => ?_, fun _ => not_publication hnone,
    fun _ => not_publication hnone⟩
  · rw [base_of_none hnone]
    exact hservices
  · rw [base_of_none hnone]
    obtain ⟨hxk, hxs, hxr⟩ := hstopped x hx
    exact ⟨hxk, hxs, hxs, hxr⟩

variable {x : Instance}

theorem Inv.not_routes (h : Inv s) (hx : x ∈ s.stopped) : ¬ Routes s x := by
  rintro ⟨g, hg, hr, entry, hentry, haddress⟩
  obtain ⟨hknown, hservices, hbase, hretained⟩ := h.owned.stopped x hx
  obtain ⟨y, hy, hsocket, hheld⟩ := h.routed.generations g hg hr entry hentry
  obtain rfl : y = x :=
    inj_on_of_nodup_map h.owned.distinct hy hknown (hsocket.trans haddress)
  rcases hheld with ⟨e, he, -, hxe⟩ | ⟨-, hxb⟩ | ⟨p, -, -, hxs⟩
  · exact hretained e he hxe
  · exact hbase hxb
  · exact hservices hxs

/-! ## Changes that leave the supervisor's instances as they are -/

def Publication.core (p : Publication) : Manifest × Option (List Instance) × List Instance :=
  (p.manifest, p.started, p.previous)

structure Same (s s' : State) : Prop where
  services : s'.services = s.services
  retained : s'.retained = s.retained
  stopped : s'.stopped = s.stopped
  known : s'.known = s.known
  unknown : s'.unknown = s.unknown
  publication : s'.publication.map Publication.core = s.publication.map Publication.core

namespace Same

section

variable (h : Same s s')
include h

theorem symm : Same s' s :=
  ⟨h.services.symm, h.retained.symm, h.stopped.symm, h.known.symm, h.unknown.symm,
    h.publication.symm⟩

theorem exists_core {p' : Publication} (hp : p' ∈ s'.publication) :
    ∃ p ∈ s.publication, p.core = p'.core := by
  have hmem : p'.core ∈ s.publication.map Publication.core :=
    h.publication ▸ mem_map_of_mem _ hp
  obtain ⟨p, hp, hcore⟩ := map_eq_some_iff.mp hmem
  exact ⟨p, hp, hcore⟩

theorem base : s'.base = s.base := by
  have hpub := h.publication
  unfold State.base
  cases hp' : s'.publication with
  | none =>
    rw [hp'] at hpub
    rw [map_eq_none_iff.mp hpub.symm]
    exact h.services
  | some p' =>
    obtain ⟨p, hp, hcore⟩ := h.exists_core hp'
    rw [hp]
    exact (congrArg (·.2.2) hcore).symm

theorem held (hx : Held s number x) :
    Held s' number x := by
  rcases hx with hx | hx | ⟨p, hp, hn, hx⟩
  · exact .inl (h.retained.symm ▸ hx)
  · exact .inr (.inl (by rwa [h.unknown, h.base]))
  · obtain ⟨p', hp', hcore⟩ := h.symm.exists_core hp
    refine .inr (.inr ⟨p', hp', ?_, h.services.symm ▸ hx⟩)
    rw [show p'.manifest = p.manifest from congrArg Prod.fst hcore]
    exact hn

theorem accounted {entries : List (String × InstanceSpec)}
    (ha : Accounted s number entries) : Accounted s' number entries :=
  ha.mono (fun _ hx => h.known.symm ▸ hx) fun _ => h.held

theorem owned (ho : Owned s) : Owned s' where
  distinct := h.known.symm ▸ ho.distinct
  services := by
    rw [h.services, h.known]
    exact ho.services
  base := by
    rw [h.base, h.known]
    exact ho.base
  retained := by
    rw [h.retained, h.known]
    exact ho.retained
  stopped := by
    rw [h.stopped, h.known, h.services, h.base, h.retained]
    exact ho.stopped
  started := by
    intro p' hp' l hl
    obtain ⟨p, hp, hcore⟩ := h.exists_core hp'
    simp only [Publication.core, Prod.mk.injEq] at hcore
    obtain ⟨-, hstarted, hprevious⟩ := hcore
    rw [h.services, h.known, h.stopped, h.retained, ← hprevious]
    exact ho.started p hp l (hstarted.trans hl)
  reconciled := by
    intro p' hp' hl
    obtain ⟨p, hp, hcore⟩ := h.exists_core hp'
    simp only [Publication.core, Prod.mk.injEq] at hcore
    obtain ⟨-, hstarted, hprevious⟩ := hcore
    rw [h.services, ← hprevious]
    exact ho.reconciled p hp (hstarted.trans hl)

theorem routed (hr : Routed s)
    (hg : ∀ g' ∈ s'.generations, g'.retired = false → ∃ g ∈ s.generations, g.retired = false ∧
      g.number = g'.number ∧ g.instances = g'.instances)
    (hputs : ∀ m ∈ s'.puts, m ∈ s.puts)
    (hnumbers : ∀ n ∈ s.generations.map Generation.number,
      n ∈ s'.generations.map Generation.number) : Routed s' where
  generations g' hmem hret := by
    obtain ⟨g, hgmem, hgret, hnumber, hinstances⟩ := hg g' hmem hret
    rw [← hnumber, ← hinstances]
    exact h.accounted (hr.generations g hgmem hgret)
  puts m hm := by
    rcases hr.puts m (hputs m hm) with ⟨n, hn, hlt⟩ | haccounted
    · exact .inl ⟨n, hnumbers n hn, hlt⟩
    · exact .inr (h.accounted haccounted)
  unknown p' hp' hne := by
    obtain ⟨p, hp, hcore⟩ := h.exists_core hp'
    rw [h.unknown]
    refine hr.unknown p hp ?_
    rw [show p.started = p'.started from congrArg (·.2.1) hcore]
    exact hne

end

end Same

theorem same_withPhase (s : State) (phase : Phase) : Same s (s.withPhase phase) := by
  refine ⟨rfl, rfl, rfl, rfl, rfl, ?_⟩
  unfold State.withPhase
  cases s.publication <;> rfl

/-! ## Phases of a publication -/

variable {phase : Phase}

theorem mem_withPhase {p' : Publication} (h : p' ∈ (s.withPhase phase).publication) :
    p'.phase = phase ∧ ∃ p ∈ s.publication, p' = { p with phase := phase } := by
  obtain ⟨p, hp, rfl⟩ := map_eq_some_iff.mp h
  exact ⟨rfl, p, hp, rfl⟩

theorem Inv.withPhase (h : Inv s)
    (hacc : ∀ p ∈ s.publication, phase = .settled .accepted →
      p.manifest.generation ∈ s.generations.map Generation.number)
    (href : ∀ p ∈ s.publication, phase = .settled .refused →
      p.manifest.generation ∉ s.generations.map Generation.number ∧
        p.manifest.generation ∉ s.puts.map Manifest.generation) : Inv (s.withPhase phase) where
  owned := (same_withPhase s phase).owned h.owned
  numbered :=
    { h.numbered with
      publication := fun p' hp' => by
        obtain ⟨-, p, hp, rfl⟩ := mem_withPhase hp'
        exact h.numbered.publication p hp
      accepted := fun p' hp' hphase => by
        obtain ⟨hp, p, hmem, rfl⟩ := mem_withPhase hp'
        exact hacc p hmem hphase
      refused := fun p' hp' hphase => by
        obtain ⟨hp, p, hmem, rfl⟩ := mem_withPhase hp'
        exact href p hmem hphase }
  routed := (same_withPhase s phase).routed h.routed
    (fun g hg hr => ⟨g, hg, hr, rfl, rfl⟩) (fun _ hm => hm) (fun _ hn => hn)

theorem Inv.withPhase_open (h : Inv s) (hacc : phase ≠ .settled .accepted)
    (href : phase ≠ .settled .refused) : Inv (s.withPhase phase) :=
  h.withPhase (fun _ _ hp => absurd hp hacc) (fun _ _ hp => absurd hp href)

variable {answered : Bool} {m : Manifest}

theorem Inv.answer (h : Inv s) {outcome : Outcome}
    (hacc : outcome = .accepted → m.generation ∈ s.generations.map Generation.number)
    (href : outcome = .refused → m.generation ∉ s.generations.map Generation.number ∧
      m.generation ∉ s.puts.map Manifest.generation) : Inv (s.answer answered m outcome) := by
  unfold State.answer
  split
  · rename_i hawaits
    have hm : ∀ p ∈ s.publication, p.manifest = m := by
      intro p hp
      have hany := (Bool.and_eq_true_iff.mp hawaits).2
      rw [State.awaits, mem_def.mp hp, any_some] at hany
      exact (of_decide_eq_true hany).1
    refine h.withPhase (fun p hp hphase => ?_) (fun p hp hphase => ?_)
    · rw [hm p hp]
      exact hacc (Phase.settled.inj hphase)
    · rw [hm p hp]
      exact href (Phase.settled.inj hphase)
  · exact h

/-! ## The host -/

theorem mem_of_erase_ne {m m' : Manifest} {puts : List Manifest}
    (hd : (puts.map Manifest.generation).Nodup) (hm : m ∈ puts) (h : m' ∈ puts.erase m) :
    m' ∈ puts ∧ m'.generation ≠ m.generation := by
  have hmem := mem_of_mem_erase h
  refine ⟨hmem, fun hn => ?_⟩
  obtain rfl := inj_on_of_nodup_map hd hmem hm hn
  exact (hd.of_map _).not_mem_erase h

theorem Inv.erasePut (h : Inv s) (m : Manifest) : Inv { s with puts := s.puts.erase m } where
  owned := { h.owned with }
  numbered :=
    { h.numbered with
      puts := fun m' hm' => h.numbered.puts m' (mem_of_mem_erase hm')
      distinct := h.numbered.distinct.sublist (erase_sublist.map _)
      publication := fun p hp => by
        obtain ⟨hnumber, hlt, hk, honly⟩ := h.numbered.publication p hp
        exact ⟨hnumber, hlt, hk, fun m' hm' => honly m' (mem_of_mem_erase hm')⟩
      refused := fun p hp hphase => by
        obtain ⟨hgens, hputs⟩ := h.numbered.refused p hp hphase
        exact ⟨hgens, fun hmem => hputs ((erase_sublist.map _).subset hmem)⟩ }
  routed := Same.routed (s := s) ⟨rfl, rfl, rfl, rfl, rfl, rfl⟩ h.routed
    (fun g hg hr => ⟨g, hg, hr, rfl, rfl⟩) (fun _ => mem_of_mem_erase) (fun _ hn => hn)

theorem lt_of_publish {gens gens' : List Generation} (hd : Descending gens)
    (h : publish cfg m gens = .ok gens') : ∀ n ∈ gens.map Generation.number, n < m.generation := by
  have hdesc := hd.publish h
  obtain ⟨-, -, rfl⟩ := publish_eq_ok h
  exact (pairwise_cons.mp hdesc).1

variable {gens : List Generation}

theorem Inv.publish (h : Inv s) (hm : m ∈ s.puts) (hp : publish cfg m s.generations = .ok gens) :
    Inv { s with puts := s.puts.erase m, generations := gens } := by
  have hlt := lt_of_publish h.numbered.descending hp
  have hdesc := h.numbered.descending.publish hp
  obtain ⟨-, -, rfl⟩ := publish_eq_ok hp
  have hsame : Same s { s with puts := s.puts.erase m, generations := m.publication :: s.generations } :=
    ⟨rfl, rfl, rfl, rfl, rfl, rfl⟩
  have hnew : Accounted s m.generation m.processes := by
    rcases h.routed.puts m hm with ⟨n, hn, hmn⟩ | haccounted
    · exact absurd (hlt n hn) (Nat.lt_asymm hmn)
    · exact haccounted
  have herased := (h.erasePut m).numbered
  refine ⟨hsame.owned h.owned, { herased with
    descending := hdesc
    generations := fun n hn => ?_
    puts := fun m' hm' => ?_
    accepted := fun p hp hphase => mem_cons_of_mem _ (h.numbered.accepted p hp hphase)
    refused := fun p hp hphase => ?_
    retiring := fun e he => ?_
    finished := fun k hk hlive => ?_ }, ?_⟩
  · rcases mem_cons.mp hn with rfl | hn
    · exact (h.numbered.puts m hm).1
    · exact h.numbered.generations n hn
  · obtain ⟨hmem, hne⟩ := mem_of_erase_ne h.numbered.distinct hm hm'
    refine ⟨(h.numbered.puts m' hmem).1, fun hin => ?_⟩
    rcases mem_cons.mp hin with heq | hin
    · exact hne heq
    · exact (h.numbered.puts m' hmem).2 hin
  · refine ⟨fun hin => ?_, (herased.refused p hp hphase).2⟩
    rcases mem_cons.mp hin with heq | hin
    · exact (h.numbered.refused p hp hphase).2 (heq ▸ mem_map_of_mem hm)
    · exact (h.numbered.refused p hp hphase).1 hin
  · obtain ⟨n, hn, hlt'⟩ := h.numbered.retiring e he
    exact ⟨n, mem_cons_of_mem _ hn, hlt'⟩
  · -- a generation that retires is older than the host's current one
    obtain ⟨g, hg, hgk, hgr⟩ := hlive
    rcases mem_cons.mp hg with rfl | hg
    · obtain ⟨n, hn, hkn⟩ := h.numbered.retiring (k, .finished) hk
      have hnm := hlt n hn
      have hmk : m.generation = k := hgk
      omega
    · exact h.numbered.finished k hk ⟨g, hg, hgk, hgr⟩
  · refine ⟨fun g hg hr => ?_, fun m' hm' => ?_, h.routed.unknown⟩
    · rcases mem_cons.mp hg with rfl | hg
      · exact hsame.accounted hnew
      · exact hsame.accounted (h.routed.generations g hg hr)
    · rcases h.routed.puts m' (mem_of_mem_erase hm') with ⟨n, hn, hlt'⟩ | haccounted
      · exact .inl ⟨n, mem_cons_of_mem _ hn, hlt'⟩
      · exact .inr (hsame.accounted haccounted)

theorem Inv.host (h : Inv s)
    (hnumbers : gens.map Generation.number = s.generations.map Generation.number)
    (hg : ∀ g' ∈ gens, g'.retired = false → ∃ g ∈ s.generations, g.retired = false ∧
      g.number = g'.number ∧ g.instances = g'.instances) (requests : List ℕ) (deletes : List ℕ) :
    Inv { s with generations := gens, requests := requests, deletes := deletes } := by
  have hlive : ∀ k, Live k gens → Live k s.generations := by
    rintro k ⟨g', hg', hk, hr⟩
    obtain ⟨g, hgmem, hgr, hnumber, -⟩ := hg g' hg' hr
    exact ⟨g, hgmem, hnumber.trans hk, hgr⟩
  refine ⟨{ h.owned with }, ?_, ?_⟩
  · obtain ⟨hdesc, hgens, hputs, hdistinct, hgen, hunc, hpub, hacc, href, hret, hfin⟩ := h.numbered
    refine ⟨?_, ?_, ?_, hdistinct, hgen, hunc, hpub, ?_, ?_, ?_,
      fun k hk hl => hfin k hk (hlive k hl)⟩
    · rw [Descending, hnumbers]
      exact hdesc
    all_goals
      simp only [hnumbers]
      assumption
  · exact Same.routed (s := s) ⟨rfl, rfl, rfl, rfl, rfl, rfl⟩ h.routed hg (fun _ hm => hm)
      (fun n hn => hnumbers.symm ▸ hn)

theorem mem_addInFlight_routes {d : ℤ} {g' : Generation} (h : g' ∈ addInFlight number d gens)
    (hr : g'.retired = false) :
    ∃ g ∈ gens, g.retired = false ∧ g.number = g'.number ∧ g.instances = g'.instances := by
  obtain ⟨g, hg, rfl⟩ := mem_map.mp h
  refine ⟨g, hg, ?_⟩
  by_cases hn : g.number = number
  · rw [if_pos hn] at hr ⊢
    exact ⟨hr, rfl, rfl⟩
  · rw [if_neg hn] at hr ⊢
    exact ⟨hr, rfl, rfl⟩

theorem mem_remove_routes {gens gens' : List Generation} {force : Bool}
    (hremove : removeGeneration number force gens = .ok gens') {g' : Generation} (h : g' ∈ gens')
    (hr : g'.retired = false) :
    ∃ g ∈ gens, g.retired = false ∧ g.number = g'.number ∧ g.instances = g'.instances := by
  rw [removeGeneration_eq_ok hremove] at h
  obtain ⟨g, hg, rfl⟩ := mem_map.mp h
  by_cases hn : g.number = number
  · rw [if_pos hn] at hr
    cases hr
  · rw [if_neg hn] at hr ⊢
    exact ⟨g, hg, hr, rfl, rfl⟩

/-! ## Retirements -/

theorem Inv.retirement (h : Inv s) {old new : Retirement} (deletes : List ℕ)
    (hmem : (number, old) ∈ s.retiring) (hnew : new = .finished → ¬ Live number s.generations) :
    Inv { s with retiring := (number, new) :: s.retiring.erase (number, old), deletes := deletes } := by
  refine ⟨{ h.owned with }, { h.numbered with retiring := fun e he => ?_, finished := fun k hk => ?_ },
    { h.routed with }⟩
  · rcases mem_cons.mp he with rfl | he
    · exact h.numbered.retiring (number, old) hmem
    · exact h.numbered.retiring e (mem_of_mem_erase he)
  · rcases mem_cons.mp hk with heq | hk
    · cases heq
      exact hnew rfl
    · exact h.numbered.finished k (mem_of_mem_erase hk)

theorem Inv.hear (h : Inv s) {retirement : Retirement}
    (hlive : retirement = .finished → ¬ Live number s.generations) :
    Inv (s.hear number answered retirement) := by
  unfold State.hear
  split
  · rename_i hheard
    exact h.retirement s.deletes (of_decide_eq_true (Bool.and_eq_true_iff.mp hheard).2) hlive
  · exact h

theorem not_live_of_notFound (h : removeGeneration number false gens = .error .notFound) :
    ¬ Live number gens := by
  intro hlive
  have hsome := lookup_isSome.mpr hlive
  unfold removeGeneration at h
  split at h
  · rename_i hnone
    rw [hnone] at hsome
    cases hsome
  · split_ifs at h <;> cases h

theorem Inv.deliverDelete (h : Inv s) (hs : s.deliverDelete number answered = some s') :
    Inv s' := by
  unfold State.deliverDelete at hs
  split at hs
  swap
  · cases hs
  have hsame : Inv { s with deletes := s.deletes.erase number } :=
    h.host rfl (fun g hg hr => ⟨g, hg, hr, rfl, rfl⟩) s.requests _
  split at hs
  · rename_i gens hremove
    cases hs
    have hremoved : Inv { s with deletes := s.deletes.erase number, generations := gens } :=
      h.host (numbers_remove hremove) (fun _ => mem_remove_routes hremove) s.requests _
    exact hremoved.hear fun _ hlive => ((live_remove hremove).mp hlive).1 rfl
  · rename_i hremove
    cases hs
    exact hsame.hear fun _ => not_live_of_notFound hremove
  · cases hs
    exact hsame.hear nofun

/-! ## The supervisor -/

theorem mem_replaceServices {previous started : List Instance}
    (h : x ∈ replaceServices previous started) : x ∈ previous ∨ x ∈ started :=
  (mem_append.mp h).imp_left mem_of_mem_filter

variable {started : List Instance}

theorem not_mem_of_startable {processes : List Process} (h : s.startable processes started = true)
    (hx : x ∈ started) : x ∉ s.known := by
  intro hknown
  have hnodup : ((s.known ++ started).map Instance.socket).Nodup := (of_decide_eq_true h).2
  rw [map_append] at hnodup
  exact (nodup_append.mp hnodup).2.2 _ (mem_map_of_mem hknown) _
    (mem_map_of_mem hx) rfl

theorem Inv.propose (h : Inv s) (hnone : s.publication = none) {services known : List Instance}
    {identity : Identity} {started : Option (List Instance)} (hknown : ∀ x ∈ s.known, x ∈ known)
    (hservices : ∀ x ∈ services, x ∈ known)
    (howned : Owned ({ s with services := services, identity := identity, known := known }.propose
      started s.services s.identity))
    (hempty : started ≠ none → s.unknown = []) :
    Inv ({ s with services := services, identity := identity, known := known }.propose
      started s.services s.identity) := by
  obtain ⟨hdesc, hgens, hputs, hdistinct, hgen, hunc, -, -, -, hret, hfin⟩ := h.numbered
  have hmax : max s.published s.generation + 1 = s.published + 1 := by
    rw [Nat.max_eq_left hgen]
  have haccounted : ∀ number entries, Accounted s number entries →
      Accounted ({ s with services := services, identity := identity, known := known }.propose
        started s.services s.identity) number entries := by
    refine fun number entries ha => ha.mono hknown ?_
    rintro x (hx | ⟨hn, hx⟩ | ⟨p, hp, -⟩)
    · exact .inl hx
    · exact .inr (.inl ⟨hn, base_of_none hnone ▸ hx⟩)
    · exact not_publication hnone hp
  refine ⟨howned, ?_, ?_⟩
  · have hnew : s.published + 1 ∉ s.puts.map Manifest.generation := by
      intro hmem
      obtain ⟨m, hm, hmn⟩ := mem_map.mp hmem
      have hle := (hputs m hm).1
      omega
    simp only [State.propose, State.manifest, hmax]
    refine ⟨hdesc, fun n hn => Nat.le_succ_of_le (hgens n hn), fun m hm => ?_,
      nodup_cons.mpr ⟨hnew, hdistinct⟩, Nat.le_succ_of_le hgen,
      fun k hk => Nat.le_succ_of_le (hunc k hk), fun p hp => ?_, fun p hp hphase => ?_,
      fun p hp hphase => ?_, hret, hfin⟩
    · rcases mem_cons.mp hm with rfl | hm
      · refine ⟨Nat.le_refl _, fun hin => ?_⟩
        exact absurd (hgens _ hin) (Nat.not_succ_le_self _)
      · exact ⟨Nat.le_succ_of_le (hputs m hm).1, (hputs m hm).2⟩
    · cases hp
      refine ⟨rfl, Nat.lt_succ_of_le hgen, fun k hk => Nat.lt_succ_of_le (hunc k hk),
        fun m hm hmn => ?_⟩
      rcases mem_cons.mp hm with rfl | hm
      · rfl
      · exact absurd (mem_map.mpr ⟨m, hm, hmn⟩) hnew
    · cases hp
      cases hphase
    · cases hp
      cases hphase
  · refine ⟨fun g hg hr => haccounted _ _ (h.routed.generations g hg hr), fun m hm => ?_,
      fun p hp hne => ?_⟩
    · rcases mem_cons.mp hm with rfl | hm
      · -- the new manifest names the services of the publication
        refine .inr fun entry hentry => ?_
        obtain ⟨x, hx, rfl⟩ := mem_map.mp hentry
        exact ⟨x, hservices x hx, rfl, .inr (.inr ⟨_, rfl, rfl, hx⟩)⟩
      · exact (h.routed.puts m hm).imp_right (haccounted _ _)
    · cases hp
      exact hempty hne

theorem Inv.reconcile (h : Inv s) (hs : s.reconcile = some s') : Inv s' := by
  unfold State.reconcile at hs
  split at hs
  · cases hs
  rename_i hbusy
  have hnone : s.publication = none := by
    by_contra hne
    exact hbusy (.inl (isSome_iff_ne_none.mpr hne))
  cases hs
  have hstopped := h.owned.stopped
  rw [base_of_none hnone] at hstopped
  refine h.propose hnone (fun _ hx => hx) h.owned.services ?_ (absurd rfl)
  refine { h.owned with
    base := h.owned.services, stopped := hstopped, started := ?_, reconciled := ?_ }
  · rintro p ⟨⟩ l hl
    cases hl
  · rintro p ⟨⟩ -
    rfl

theorem idle_of_not_busy {startable : Bool}
    (h : ¬ (s.publication.isSome || !startable) = true) :
    s.publication = none ∧ startable = true := by
  cases startable with
  | false => simp at h
  | true => simpa using h

theorem Inv.replace {set : List Process} {identity : Identity} (h : Inv s)
    (hunknown : s.unknown = []) (hs : s.replace set identity started = some s') :
    Inv s' := by
  unfold State.replace at hs
  split at hs
  · cases hs
  rename_i hbusy
  obtain ⟨hnone, hstartable⟩ := idle_of_not_busy hbusy
  split at hs
  · cases hs
    exact h
  cases hs
  have hnew : ∀ x ∈ started, x ∉ s.known := fun _ => not_mem_of_startable hstartable
  have hnodup : ((s.known ++ started).map Instance.socket).Nodup := (of_decide_eq_true hstartable).2
  have hold : ∀ x ∈ s.known, x ∈ s.known ++ started := fun _ => mem_append_left _
  have hservices : ∀ x ∈ replaceServices s.services started, x ∈ s.known ++ started := by
    intro x hx
    rcases mem_replaceServices hx with hx | hx
    · exact hold x (h.owned.services x hx)
    · exact mem_append_right _ hx
  refine h.propose hnone hold hservices ?_ (fun _ => hunknown)
  refine ⟨hnodup, hservices, fun x hx => hold x (h.owned.services x hx),
    fun e he x hx => hold x (h.owned.retained e he x hx), fun x hx => ?_, fun p hp l hl => ?_,
    fun p hp hno => ?_⟩
  · obtain ⟨hxk, hxs, -, hxr⟩ := h.owned.stopped x hx
    refine ⟨hold x hxk, fun hmem => ?_, hxs, hxr⟩
    rcases mem_replaceServices hmem with hmem | hmem
    · exact hxs hmem
    · exact hnew x hmem hxk
  · cases hp
    cases hl
    refine ⟨rfl, fun x hx => ⟨mem_append_right _ hx, fun hst => ?_, fun hprev => ?_,
      fun e he hxe => ?_⟩⟩
    · exact hnew x hx (h.owned.stopped x hst).1
    · exact hnew x hx (h.owned.services x hprev)
    · exact hnew x hx (h.owned.retained e he x hxe)
  · cases hp
    cases hno

theorem Inv.startFailed {set : List Process} (h : Inv s)
    (hs : s.startFailed set started = some s') : Inv s' := by
  unfold State.startFailed at hs
  split at hs
  · cases hs
  rename_i hbusy
  obtain ⟨hnone, hstartable⟩ := idle_of_not_busy hbusy
  cases hs
  have hnew : ∀ x ∈ started, x ∉ s.known := fun _ => not_mem_of_startable hstartable
  have hold : ∀ x ∈ s.known, x ∈ s.known ++ started := fun _ => mem_append_left _
  refine ⟨.of_none hnone (of_decide_eq_true hstartable).2 (fun x hx => hold x (h.owned.services x hx))
    (fun e he x hx => hold x (h.owned.retained e he x hx)) (fun x hx => ?_), { h.numbered with },
    fun g hg hr => (h.routed.generations g hg hr).mono hold fun _ => id,
    fun m hm => (h.routed.puts m hm).imp_right fun ha => ha.mono hold fun _ => id,
    h.routed.unknown⟩
  rcases mem_append.mp hx with hx | hx
  · obtain ⟨hxk, hxs, -, hxr⟩ := h.owned.stopped x hx
    exact ⟨hold x hxk, hxs, hxr⟩
  · exact ⟨mem_append_right _ hx, fun hmem => hnew x hx (h.owned.services x hmem),
      fun e he hmem => hnew x hx (h.owned.retained e he x hmem)⟩

/-! ## The end of a publication -/

theorem Inv.finish (h : Inv s) {t : State} (hnone : t.publication = none) (howned : Owned t)
    (hknown : t.known = s.known) (hpublished : t.published = s.published)
    (hputs : t.puts = s.puts) (hgens : t.generations = s.generations)
    (hgeneration : t.generation ≤ t.published) (hunconfirmed : ∀ k ∈ t.unconfirmed, k ≤ t.published)
    (hretiring : ∀ e ∈ t.retiring, e ∈ s.retiring ∨
      e.2 = .idle ∧ ∃ n ∈ s.generations.map Generation.number, e.1 < n)
    (hheld : ∀ number x, (number ∈ s.generations.map Generation.number ∨
        number ∈ s.puts.map Manifest.generation) → Held s number x → Held t number x) : Inv t := by
  have haccounted : ∀ number entries, (number ∈ s.generations.map Generation.number ∨
      number ∈ s.puts.map Manifest.generation) → Accounted s number entries →
      Accounted t number entries := fun number entries hn ha =>
    ha.mono (fun x hx => hknown.symm ▸ hx) fun x => hheld number x hn
  refine ⟨howned, ?_, ?_⟩
  · obtain ⟨hdesc, hgens', hputs', hdistinct, -, -, -, -, -, hret, hfin⟩ := h.numbered
    refine ⟨hgens.symm ▸ hdesc, ?_, ?_, hputs.symm ▸ hdistinct, hgeneration, hunconfirmed,
      fun _ => not_publication hnone, fun _ => not_publication hnone,
      fun _ => not_publication hnone, fun e he => ?_, fun k hk => ?_⟩
    · rw [hgens, hpublished]
      exact hgens'
    · rw [hputs, hgens, hpublished]
      exact hputs'
    · rw [hgens]
      rcases hretiring e he with he | ⟨-, hlt⟩
      · exact hret e he
      · exact hlt
    · rw [hgens]
      rcases hretiring _ hk with hk | ⟨hidle, -⟩
      · exact hfin k hk
      · cases hidle
  · refine ⟨fun g hg hr => ?_, fun m hm => ?_, fun _ => not_publication hnone⟩
    · rw [hgens] at hg
      exact haccounted _ _ (.inl (mem_map_of_mem hg)) (h.routed.generations g hg hr)
    · rw [hputs] at hm
      rw [hgens]
      exact (h.routed.puts m hm).imp_right
        (haccounted _ _ (.inr (mem_map_of_mem hm)))

theorem Inv.succeed (h : Inv s) (hp : s.publication = some p)
    (hphase : p.phase = .settled .accepted) (retired : List ℕ) (reconcilers : ℕ)
    (hretired : ∀ k ∈ retired, k < s.published) :
    Inv { { s with publication := none }.succeed p.manifest.generation with
      reconcilers := reconcilers
      retiring := ({ s with publication := none }.succeed p.manifest.generation).retiring ++
        retired.map fun k => (k, .idle) } := by
  have hmem : p ∈ s.publication := hp
  obtain ⟨hnumber, -, hk, -⟩ := h.numbered.publication p hmem
  have haccepted := h.numbered.accepted p hmem hphase
  have hbase : s.base = p.previous := base_of_some hp
  refine h.finish rfl ?_ rfl rfl rfl rfl ?_ (fun k hk => absurd hk not_mem_nil)
    (fun e he => ?_) (fun number x hn hx => ?_)
  · refine .of_none rfl h.owned.distinct h.owned.services
      (forall_mem_cons.mpr ⟨h.owned.services, h.owned.retained⟩) fun x hx => ?_
    obtain ⟨hxk, hxs, -, hxr⟩ := h.owned.stopped x hx
    exact ⟨hxk, hxs, forall_mem_cons.mpr ⟨hxs, hxr⟩⟩
  · change p.manifest.generation ≤ s.published
    omega
  · -- the generations that retire are older than the accepted one
    rcases mem_append.mp he with he | he
    · rcases mem_append.mp he with he | he
      · exact .inl he
      · obtain ⟨k, hk', rfl⟩ := mem_map.mp he
        refine .inr ⟨rfl, _, haccepted, ?_⟩
        have hlt := hk k hk'
        omega
    · obtain ⟨k, hk', rfl⟩ := mem_map.mp he
      refine .inr ⟨rfl, _, haccepted, ?_⟩
      have hlt := hretired k hk'
      omega
  · rcases hx with ⟨e, he, hx⟩ | ⟨hunk, hx⟩ | ⟨q, hq, hqn, hx⟩
    · exact .inl ⟨e, mem_cons_of_mem _ he, hx⟩
    · -- only a reconciliation meets generations of unknown outcome, and keeps the services
      cases hstarted : p.started with
      | some l =>
        rw [h.routed.unknown p hmem (by rw [hstarted]; exact some_ne_none l)] at hunk
        exact absurd hunk not_mem_nil
      | none =>
        rw [hbase, ← h.owned.reconciled p hmem hstarted] at hx
        exact .inr (.inl ⟨hunk, hx⟩)
    · obtain rfl := Option.some.inj (hp.symm.trans hq)
      exact .inl ⟨_, mem_cons_self, hqn, hx⟩

theorem Inv.refuse {l : List Instance} (h : Inv s) (hp : s.publication = some p)
    (hl : p.started = some l) (hphase : p.phase = .settled .refused) :
    Inv { s with publication := none, services := p.previous, identity := p.previousIdentity,
                 stopped := s.stopped ++ l } := by
  have hmem : p ∈ s.publication := hp
  have hbase : s.base = p.previous := base_of_some hp
  obtain ⟨hnogen, hnoput⟩ := h.numbered.refused p hmem hphase
  obtain ⟨-, hnew⟩ := h.owned.started p hmem l hl
  refine h.finish rfl ?_ rfl rfl rfl rfl h.numbered.generation h.numbered.unconfirmed
    (fun _ => .inl) (fun number x hn hx => ?_)
  · refine .of_none rfl h.owned.distinct (fun x hx => h.owned.base x (hbase ▸ hx))
      h.owned.retained fun x hx => ?_
    rcases mem_append.mp hx with hx | hx
    · obtain ⟨hxk, -, hxb, hxr⟩ := h.owned.stopped x hx
      exact ⟨hxk, hbase ▸ hxb, hxr⟩
    · obtain ⟨hxk, -, hxp, hxr⟩ := hnew x hx
      exact ⟨hxk, hxp, hxr⟩
  · rcases hx with hx | ⟨hunk, hx⟩ | ⟨q, hq, hqn, -⟩
    · exact .inl hx
    · exact .inr (.inl ⟨hunk, hbase ▸ hx⟩)
    · obtain rfl := Option.some.inj (hp.symm.trans hq)
      subst hqn
      exact absurd hn (not_or.mpr ⟨hnogen, hnoput⟩)

theorem Inv.unknownReplace {l : List Instance} (h : Inv s) (hp : s.publication = some p)
    (hl : p.started = some l) :
    Inv { s with publication := none, services := p.previous, identity := p.previousIdentity,
                 retained := (p.manifest.generation, l) :: s.retained,
                 unconfirmed := s.unconfirmed ++ [p.manifest.generation],
                 reconcilers := s.reconcilers + 1,
                 unknown := p.manifest.generation :: s.unknown } := by
  have hmem : p ∈ s.publication := hp
  have hbase : s.base = p.previous := base_of_some hp
  obtain ⟨hnumber, -⟩ := h.numbered.publication p hmem
  obtain ⟨hservices, hnew⟩ := h.owned.started p hmem l hl
  refine h.finish rfl ?_ rfl rfl rfl rfl h.numbered.generation (fun k hk => ?_)
    (fun _ => .inl) (fun number x _ hx => ?_)
  · refine .of_none rfl h.owned.distinct (fun x hx => h.owned.base x (hbase ▸ hx))
      (forall_mem_cons.mpr ⟨fun x hx => (hnew x hx).1, h.owned.retained⟩) fun x hx => ?_
    obtain ⟨hxk, -, hxb, hxr⟩ := h.owned.stopped x hx
    exact ⟨hxk, hbase ▸ hxb, forall_mem_cons.mpr ⟨fun hxl => (hnew x hxl).2.1 hx, hxr⟩⟩
  · rcases mem_append.mp hk with hk | hk
    · exact h.numbered.unconfirmed k hk
    · rw [mem_singleton.mp hk]
      exact Nat.le_of_eq hnumber
  · rcases hx with ⟨e, he, hx⟩ | ⟨hunk, hx⟩ | ⟨q, hq, hqn, hx⟩
    · exact .inl ⟨e, mem_cons_of_mem _ he, hx⟩
    · exact .inr (.inl ⟨mem_cons_of_mem _ hunk, hbase ▸ hx⟩)
    · obtain rfl := Option.some.inj (hp.symm.trans hq)
      rw [hservices] at hx
      rcases mem_replaceServices hx with hx | hx
      · exact .inr (.inl ⟨hqn ▸ mem_cons_self, hx⟩)
      · exact .inl ⟨_, mem_cons_self, hqn, hx⟩

theorem Inv.failReconcile (h : Inv s) (hp : s.publication = some p) (hl : p.started = none)
    (unconfirmed unknown : List ℕ) (hunconfirmed : ∀ k ∈ unconfirmed, k ≤ s.published)
    (hunknown : ∀ k ∈ s.unknown, k ∈ unknown)
    (hown : p.manifest.generation ∈ unknown ∨
      p.manifest.generation ∉ s.generations.map Generation.number ∧
        p.manifest.generation ∉ s.puts.map Manifest.generation) :
    Inv { s with publication := none, unconfirmed := unconfirmed, unknown := unknown } := by
  have hmem : p ∈ s.publication := hp
  have hbase : s.base = s.services := by
    rw [base_of_some hp]
    exact (h.owned.reconciled p hmem hl).symm
  refine h.finish rfl ?_ rfl rfl rfl rfl h.numbered.generation hunconfirmed
    (fun _ => .inl) (fun number x hn hx => ?_)
  · refine .of_none rfl h.owned.distinct h.owned.services h.owned.retained fun x hx => ?_
    obtain ⟨hxk, hxs, -, hxr⟩ := h.owned.stopped x hx
    exact ⟨hxk, hxs, hxr⟩
  · rcases hx with hx | ⟨hunk, hx⟩ | ⟨q, hq, hqn, hx⟩
    · exact .inl hx
    · exact .inr (.inl ⟨hunknown _ hunk, hbase ▸ hx⟩)
    · obtain rfl := Option.some.inj (hp.symm.trans hq)
      subst hqn
      rcases hown with hown | hown
      · exact .inr (.inl ⟨hown, hx⟩)
      · exact absurd hn (not_or.mpr hown)

theorem Inv.settle {outcome : Outcome} (h : Inv s) (hp : s.publication = some p)
    (hphase : p.phase = .settled outcome) : Inv (s.settle p outcome) := by
  have hmem : p ∈ s.publication := hp
  obtain ⟨hnumber, hlt, -⟩ := h.numbered.publication p hmem
  unfold State.settle
  cases hl : p.started with
  | some l =>
    cases outcome with
    | accepted =>
      exact h.succeed hp hphase [s.generation] s.reconcilers
        fun k hk => mem_singleton.mp hk ▸ hlt
    | refused => exact h.refuse hp hl hphase
    | unknown => exact h.unknownReplace hp hl
  | none =>
    cases outcome with
    | accepted =>
      have hsucceed := h.succeed hp hphase [] (s.reconcilers - 1)
        fun k hk => absurd hk not_mem_nil
      rw [map_nil, append_nil] at hsucceed
      exact hsucceed
    | refused =>
      exact h.failReconcile hp hl s.unconfirmed s.unknown h.numbered.unconfirmed (fun _ hk => hk)
        (.inr (h.numbered.refused p hmem hphase))
    | unknown =>
      refine h.failReconcile hp hl _ _ (fun k hk => ?_) (fun _ => mem_cons_of_mem _)
        (.inl mem_cons_self)
      rcases mem_append.mp hk with hk | hk
      · exact h.numbered.unconfirmed k hk
      · rw [mem_singleton.mp hk]
        exact Nat.le_of_eq hnumber

/-! ## The other steps -/

theorem Inv.deliver (h : Inv s) (hs : s.deliver cfg m answered = some s') : Inv s' := by
  unfold State.deliver at hs
  split at hs
  swap
  · cases hs
  rename_i hm
  split at hs
  · rename_i gens hpublish
    cases hs
    refine (h.publish hm hpublish).answer (fun _ => ?_) nofun
    obtain ⟨-, -, rfl⟩ := publish_eq_ok hpublish
    exact mem_cons_self
  · cases hs
    refine (h.erasePut m).answer nofun (fun _ => ⟨(h.numbered.puts m hm).2, ?_⟩)
    intro hmem
    obtain ⟨m', hm', hn⟩ := mem_map.mp hmem
    exact (mem_of_erase_ne h.numbered.distinct hm hm').2 hn

theorem current_of_mem (h : Numbered s) (hmem : s.published ∈ s.generations.map Generation.number) :
    current s.generations = s.published := by
  have hdesc := h.descending
  have hle := h.generations
  cases hgens : s.generations with
  | nil =>
    rw [hgens] at hmem
    cases hmem
  | cons g rest =>
    rw [hgens] at hmem hdesc hle
    rcases mem_cons.mp hmem with heq | hrest
    · exact heq.symm
    · have hlt := (pairwise_cons.mp hdesc).1 _ hrest
      have hg := hle g.number mem_cons_self
      exact absurd hlt (Nat.not_lt.mpr hg)

theorem mem_of_current {n : ℕ} (h : current gens = n) (hn : 0 < n) :
    n ∈ gens.map Generation.number := by
  subst h
  cases gens with
  | nil => exact absurd hn (Nat.lt_irrefl _)
  | cons g rest => exact mem_cons_self

theorem Inv.status (h : Inv s)
    (horderly : answered = true → ∀ p ∈ s.publication, p.manifest ∉ s.puts)
    (hs : s.status answered = some s') : Inv s' := by
  unfold State.status at hs
  split at hs
  · cases hs
  rename_i p hp
  have hmem : p ∈ s.publication := hp
  obtain ⟨hnumber, hlt, -, honly⟩ := h.numbered.publication p hmem
  split at hs
  swap
  · cases hs
  split at hs
  · rename_i hanswered
    cases hs
    have huniq : ∀ q ∈ s.publication, q = p := fun q hq => Option.some.inj (hq.symm.trans hp)
    refine h.withPhase (fun q hq hphase => ?_) (fun q hq hphase => ?_)
    · obtain rfl := huniq q hq
      split at hphase
      · rename_i hcurrent
        exact mem_of_current hcurrent (by omega)
      · cases hphase
    · obtain rfl := huniq q hq
      split at hphase
      · cases hphase
      rename_i hcurrent
      refine ⟨fun hin => hcurrent ?_, fun hput => ?_⟩
      · rw [hnumber] at hin ⊢
        exact current_of_mem h.numbered hin
      · obtain ⟨m, hm, hmn⟩ := mem_map.mp hput
        obtain rfl := honly m hm (hmn.trans hnumber)
        exact horderly hanswered q hq hm
  · cases hs
    refine h.withPhase_open ?_ ?_ <;> split <;> exact nofun

theorem Inv.retire (h : Inv s) (hs : s.retire number = some s') : Inv s' := by
  unfold State.retire at hs
  split at hs
  swap
  · cases hs
  rename_i hready
  obtain ⟨hnone, hfinished⟩ := Bool.and_eq_true_iff.mp hready
  have hnone : s.publication = none := isNone_iff_eq_none.mp hnone
  have hfinished := of_decide_eq_true hfinished
  have hdead := h.numbered.finished number hfinished
  obtain ⟨later, hlater, hlt⟩ := h.numbered.retiring _ hfinished
  cases hs
  have haccounted : ∀ n entries, n ≠ number → Accounted s n entries →
      Accounted
        { s with retained := s.retained.filter fun e => e.1 ≠ number
                 retiring := s.retiring.erase (number, .finished)
                 unknown := s.unknown.filter (· ≠ number)
                 stopped := s.stopped ++ State.unreferenced ((s.retained.lookup number).getD [])
                   { s with retained := s.retained.filter fun e => e.1 ≠ number
                            retiring := s.retiring.erase (number, .finished)
                            unknown := s.unknown.filter (· ≠ number) } } n entries := by
    refine fun n entries hn ha => ha.mono (fun _ => id) ?_
    rintro x (⟨e, he, hen, hxe⟩ | ⟨hunk, hxb⟩ | ⟨p, hp, -⟩)
    · exact .inl ⟨e, mem_filter.mpr ⟨he, by simpa [hen] using hn⟩, hen, hxe⟩
    · exact .inr (.inl ⟨mem_filter.mpr ⟨hunk, by simpa using hn⟩, hxb⟩)
    · exact not_publication hnone hp
  refine ⟨.of_none hnone h.owned.distinct h.owned.services
    (fun e he => h.owned.retained e (mem_of_mem_filter he)) (fun x hx => ?_),
    { h.numbered with
      retiring := fun e he => h.numbered.retiring e (mem_of_mem_erase he)
      finished := fun k hk => h.numbered.finished k (mem_of_mem_erase hk) }, ?_⟩
  · rcases mem_append.mp hx with hx | hx
    · obtain ⟨hxk, hxs, -, hxr⟩ := h.owned.stopped x hx
      exact ⟨hxk, hxs, fun e he => hxr e (mem_of_mem_filter he)⟩
    · -- an instance that stops is named by neither the services nor what is still retained
      obtain ⟨hnamed, hunreferenced⟩ := mem_filter.mp hx
      obtain ⟨hxs, hxr⟩ := of_decide_eq_true hunreferenced
      refine ⟨?_, hxs, fun e he => ?_⟩
      · cases hlookup : s.retained.lookup number with rw [hlookup] at hnamed
        | none =>
          cases hnamed
        | some l =>
          obtain ⟨before, after, hsplit, -⟩ := lookup_eq_some_iff.mp hlookup
          refine h.owned.retained (number, l) ?_ x hnamed
          rw [hsplit]
          exact mem_append_right _ mem_cons_self
      · exact of_decide_eq_true (all_eq_true.mp hxr e he)
  · refine ⟨fun g hg hr => ?_, fun m hm => ?_, fun _ => not_publication hnone⟩
    · exact haccounted _ _ (fun hn => hdead ⟨g, hg, hn, hr⟩) (h.routed.generations g hg hr)
    · by_cases hn : m.generation = number
      · exact .inl ⟨later, hlater, hn ▸ hlt⟩
      · exact (h.routed.puts m hm).imp_right (haccounted _ _ hn)

theorem Inv.counted (h : Inv s) (number : ℕ) (d : ℤ) (requests : List ℕ) :
    Inv { s with generations := addInFlight number d s.generations, requests := requests } :=
  h.host (numbers_addInFlight _ _ _) (fun _ => mem_addInFlight_routes) requests s.deletes

theorem Inv.step {e : Event} (h : Inv s) (horderly : Orderly s e)
    (hs : step cfg s e = some s') : Inv s' := by
  cases e with
  | replace set identity started => exact h.replace horderly hs
  | startFailed set started => exact h.startFailed hs
  | reconcile => exact h.reconcile hs
  | reconciled =>
    simp only [Dev.step] at hs
    split_ifs at hs
    cases hs
    exact ⟨{ h.owned with }, { h.numbered with }, { h.routed with }⟩
  | deliver m answered => exact h.deliver hs
  | drop m =>
    simp only [Dev.step] at hs
    split_ifs at hs
    cases hs
    exact h.erasePut m
  | giveUp | abandon =>
    simp only [Dev.step] at hs
    split_ifs at hs
    cases hs
    exact h.withPhase_open nofun nofun
  | status answered => exact h.status horderly hs
  | settle =>
    simp only [Dev.step] at hs
    split at hs
    · cases hs
    rename_i p hp
    split at hs
    · rename_i outcome hphase
      cases hs
      exact h.settle hp hphase
    · cases hs
  | delete number =>
    simp only [Dev.step] at hs
    split_ifs at hs with hmem
    cases hs
    exact h.retirement _ hmem fun hno => by cases hno
  | deliverDelete number answered => exact h.deliverDelete hs
  | dropDelete number =>
    simp only [Dev.step] at hs
    split_ifs at hs
    cases hs
    exact h.host rfl (fun g hg hr => ⟨g, hg, hr, rfl, rfl⟩) s.requests _
  | giveUpDelete number =>
    simp only [Dev.step] at hs
    split_ifs at hs with hmem
    cases hs
    exact h.retirement s.deletes hmem fun hno => by cases hno
  | retire number => exact h.retire hs
  | acquire number =>
    simp only [Dev.step] at hs
    split at hs
    · cases hs
      exact h
    · cases hs
      exact h.counted _ _ _
  | release g =>
    simp only [Dev.step] at hs
    split_ifs at hs
    cases hs
    exact h.counted _ _ _

theorem Serving.inv (h : Serving s) : Inv s := by
  obtain ⟨g, hgens, hnumber, hinstances⟩ := h.generations
  refine ⟨.of_none h.publication h.known h.services ?_ fun x hx => ?_, ?_, ?_⟩
  · rw [h.retained]
    exact forall_mem_singleton.mpr h.services
  · rw [h.retained]
    obtain ⟨hxk, hxs⟩ := h.stopped x hx
    exact ⟨hxk, hxs, forall_mem_singleton.mpr hxs⟩
  · refine ⟨?_, fun n hn => ?_, ?_, ?_, h.published, ?_, fun _ => not_publication h.publication,
      fun _ => not_publication h.publication, fun _ => not_publication h.publication,
      ?_, ?_⟩
    · rw [Descending, hgens]
      exact pairwise_singleton _ _
    · rw [hgens, map_singleton, mem_singleton] at hn
      rw [hn, hnumber]
      exact h.published
    · simp [h.puts]
    · simp [h.puts]
    · simp [h.unconfirmed]
    · simp [h.retiring]
    · simp [h.retiring]
  · refine ⟨fun g' hg' _ => ?_, by simp [h.puts], fun _ => not_publication h.publication⟩
    · rw [hgens, mem_singleton] at hg'
      subst hg'
      intro entry hentry
      rw [hinstances] at hentry
      obtain ⟨x, hx, rfl⟩ := mem_map.mp hentry
      refine ⟨x, h.services x hx, rfl, .inl ⟨(s.generation, s.services), ?_, hnumber.symm, hx⟩⟩
      rw [h.retained]
      exact mem_singleton_self _

/-! ## Runs -/

theorem stopped_step {e : Event} (hs : step cfg s e = some s') : s.stopped <+: s'.stopped := by
  cases e <;> simp only [step, State.replace, State.startFailed, State.reconcile, State.deliver,
    State.answer, State.status, State.settle, State.deliverDelete, State.hear,
    State.retire] at hs <;>
    (repeat' split at hs) <;> cases hs <;> first | exact prefix_rfl | exact prefix_append _ _

/-- In every run, an instance once stopped stays stopped. -/
theorem stopped_grows {ok : State → Event → Prop} (hrun : Run (step cfg) ok s s') :
    s.stopped <+: s'.stopped :=
  hrun.invariant (P := fun t => s.stopped <+: t.stopped) prefix_rfl fun _ _ _ h _ hs =>
    h.trans (stopped_step hs)

/-- In an orderly run the host never has a generation that names a stopped instance, and so it
accepts no publication that names one. -/
theorem stopped_never_routed {s₀ : State} (h₀ : Serving s₀) (hrun : Run (step cfg) Orderly s₀ s)
    {x : Instance} (hx : x ∈ s.stopped) : ¬ Routes s x := by
  have hinv : Inv s := hrun.invariant h₀.inv fun _ _ _ h => h.step
  exact hinv.not_routes hx

namespace Sample

def target : Identity := ⟨"contract", "implementation", "inputs", "linux/amd64"⟩

def host : HostConfig := ⟨"contract", ["api"]⟩

def api (config socket : String) : Instance := ⟨⟨"api", target, config⟩, socket, 1⟩

def serving : State where
  contract := "contract"
  identity := target
  bindings := []
  services := [api "v1" "a.sock"]
  generation := 1
  published := 1
  retained := [(1, [api "v1" "a.sock"])]
  unconfirmed := []
  publication := none
  reconcilers := 0
  retiring := []
  stopped := []
  puts := []
  deletes := []
  generations := [⟨1, [("api", (api "v1" "a.sock").spec)], 0, false⟩]
  requests := []
  known := [api "v1" "a.sock"]
  unknown := []

theorem serving_serving : Serving serving := by
  constructor
  · exact ⟨_, rfl, rfl, rfl⟩
  all_goals decide

def second : Manifest := ⟨2, "contract", target, [("api", (api "v2" "b.sock").spec)], []⟩

def replaced : List Event :=
  [.replace [(api "v2" "b.sock").process] target [api "v2" "b.sock"], .deliver second true, .settle,
    .delete 1, .deliverDelete 1 true, .retire 1]

def overtaken : List Event :=
  [.replace [(api "v2" "b.sock").process] target [api "v2" "b.sock"], .giveUp, .status true, .settle,
    .deliver second true]

def worker (config socket : String) : Instance := ⟨⟨"worker", target, config⟩, socket, 2⟩

def servingBoth : State :=
  { serving with
    services := [api "v1" "a.sock", worker "v1" "w.sock"]
    retained := [(1, [api "v1" "a.sock", worker "v1" "w.sock"])]
    generations := [⟨1, [("api", (api "v1" "a.sock").spec), ("worker", (worker "v1" "w.sock").spec)],
      0, false⟩]
    known := [api "v1" "a.sock", worker "v1" "w.sock"] }

def unknownOutcome : List Event :=
  [.replace [(api "v2" "b.sock").process, (worker "v1" "w.sock").process] target
      [api "v2" "b.sock"],
    .deliver ⟨2, "contract", target,
      [("worker", (worker "v1" "w.sock").spec), ("api", (api "v2" "b.sock").spec)], []⟩ false,
    .giveUp, .status false, .status false, .status false, .settle, .acquire 0,
    .replace [(api "v1" "a.sock").process, (worker "v2" "x.sock").process] target
      [worker "v2" "x.sock"],
    .deliver ⟨3, "contract", target,
      [("api", (api "v1" "a.sock").spec), ("worker", (worker "v2" "x.sock").spec)], []⟩ true,
    .settle, .delete 1, .deliverDelete 1 true, .retire 1]

end Sample

theorem stopped_never_routed_replaced :
    ∃ s, Run (step Sample.host) Orderly Sample.serving s ∧ Sample.api "v1" "a.sock" ∈ s.stopped ∧
      ¬ Routes s (Sample.api "v1" "a.sock") :=
  Run.exists_of_decide (P := fun s => Sample.api "v1" "a.sock" ∈ s.stopped) Sample.replaced
    (by decide +kernel) fun _ hrun hstopped =>
      ⟨hstopped, stopped_never_routed Sample.serving_serving hrun hstopped⟩

/-- A candidate stops because the host did not have its generation when it was asked, and the
host accepts the delayed publication afterwards. -/
theorem stopped_candidate_routed :
    ∃ s, Run (step Sample.host) (fun _ _ => True) Sample.serving s ∧
      Sample.api "v2" "b.sock" ∈ s.stopped ∧ Routes s (Sample.api "v2" "b.sock") :=
  Run.exists_decide Sample.overtaken (by decide +kernel)

theorem shared_instance_routed :
    ∃ s, Run (step Sample.host) (fun _ _ => True) Sample.servingBoth s ∧
      Sample.worker "v1" "w.sock" ∈ s.stopped ∧ Routes s (Sample.worker "v1" "w.sock") :=
  Run.exists_decide Sample.unknownOutcome (by decide +kernel)

end Scenery.Dev
