import Xdd.Library.Transition

/-!
# `xint_barrier_wait`

A thread that enters the barrier counts itself. The thread that makes the counter reach `count`
sets it back and wakes the others up; all others wait on the condition variable, and return as
soon as they are woken up. A condition variable may also wake a thread up without a signal.

What a thread does under the mutex is one step. Any number of threads use the barrier, each of
them over and over again. A round is over when its last thread has entered.
-/

namespace Xdd.Barrier.Wait

structure Config where
  count : Nat
  count_pos : 0 < count
  threads : Nat

inductive Phase where
  | outside
  /-- in `pthread_cond_wait`, without a signal -/
  | waiting
  /-- about to leave -/
  | released
deriving DecidableEq, Repr

/-- How often a thread has entered and left; `round` is the one of its latest call. -/
structure Thread where
  phase : Phase
  entered : Nat
  returned : Nat
  round : Nat
deriving DecidableEq, Repr

/-- `xint_barrier_t`, and which threads have entered each round as a record. -/
structure State (cfg : Config) where
  waiters : Nat
  round : Nat
  thread : Fin cfg.threads → Thread
  members : Nat → Finset (Fin cfg.threads)

/-- `xint_barrier_init` -/
def init (cfg : Config) : State cfg where
  waiters := 0
  round := 0
  thread := fun _ => { phase := .outside, entered := 0, returned := 0, round := 0 }
  members := fun _ => ∅

inductive Action (cfg : Config) where
  | enter (t : Fin cfg.threads)
  /-- the condition variable wakes a thread up without a signal -/
  | wake (t : Fin cfg.threads)
  | leave (t : Fin cfg.threads)
deriving DecidableEq

variable {cfg : Config}

/-- `pthread_cond_broadcast` -/
def Thread.broadcast (thread : Thread) : Thread :=
  if thread.phase = .waiting then { thread with phase := .released } else thread

/-- A call of `xint_barrier_wait`, in this phase. -/
def Thread.enter (thread : Thread) (round : Nat) (phase : Phase) : Thread :=
  { thread with phase := phase, entered := thread.entered + 1, round := round }

/-- A step of a thread; the assertion at the start of `xint_barrier_wait` ends the program. -/
def step (s : State cfg) : Action cfg → Option (State cfg)
  | .enter t =>
    if (s.thread t).phase = .outside ∧ s.waiters < cfg.count then
      let members := Function.update s.members s.round (insert t (s.members s.round))
      if s.waiters + 1 = cfg.count then
        some {
          waiters := 0
          round := s.round + 1
          thread := Function.update (fun u => (s.thread u).broadcast) t
            ((s.thread t).enter s.round .released)
          members := members }
      else
        some { s with
          waiters := s.waiters + 1
          thread := Function.update s.thread t ((s.thread t).enter s.round .waiting)
          members := members }
    else none
  | .wake t =>
    if (s.thread t).phase = .waiting then
      some { s with thread := Function.update s.thread t { s.thread t with phase := .released } }
    else none
  | .leave t =>
    if (s.thread t).phase = .released then
      some { s with thread := Function.update s.thread t { s.thread t with
        phase := .outside
        returned := (s.thread t).returned + 1 } }
    else none

/-- The steps, each with what it needs. -/
inductive Step (s : State cfg) : Action cfg → State cfg → Prop where
  | last (t : Fin cfg.threads) (hphase : (s.thread t).phase = .outside)
      (hlast : s.waiters + 1 = cfg.count) :
      Step s (.enter t) {
        waiters := 0
        round := s.round + 1
        thread := Function.update (fun u => (s.thread u).broadcast) t
          ((s.thread t).enter s.round .released)
        members := Function.update s.members s.round (insert t (s.members s.round)) }
  | wait (t : Fin cfg.threads) (hphase : (s.thread t).phase = .outside)
      (hlt : s.waiters + 1 < cfg.count) :
      Step s (.enter t) { s with
        waiters := s.waiters + 1
        thread := Function.update s.thread t ((s.thread t).enter s.round .waiting)
        members := Function.update s.members s.round (insert t (s.members s.round)) }
  | wake (t : Fin cfg.threads) (hphase : (s.thread t).phase = .waiting) :
      Step s (.wake t)
        { s with thread := Function.update s.thread t { s.thread t with phase := .released } }
  | leave (t : Fin cfg.threads) (hphase : (s.thread t).phase = .released) :
      Step s (.leave t) { s with thread := Function.update s.thread t { s.thread t with
        phase := .outside
        returned := (s.thread t).returned + 1 } }

theorem Step.of_eq_some {s s' : State cfg} {a : Action cfg} (h : step s a = some s') :
    Step s a s' := by
  cases a with
  | enter t =>
    rw [step] at h
    split at h
    · next hphase =>
      split at h
      · next hlast =>
        cases h
        exact .last t hphase.1 hlast
      · next hlast =>
        cases h
        exact .wait t hphase.1 (by omega)
    · cases h
  | wake t =>
    rw [step] at h
    split at h
    · next hphase =>
      cases h
      exact .wake t hphase
    · cases h
  | leave t =>
    rw [step] at h
    split at h
    · next hphase =>
      cases h
      exact .leave t hphase
    · cases h

/-- A thread that waits is not woken up without a signal. -/
def Signalled (_ : State cfg) : Action cfg → Prop
  | .wake _ => False
  | .enter _ | .leave _ => True

instance (s : State cfg) : (a : Action cfg) → Decidable (Signalled s a)
  | .wake _ => inferInstanceAs (Decidable False)
  | .enter _ | .leave _ => inferInstanceAs (Decidable True)

/-- What the barrier is for. With more than `count` threads the calls of one round need not have
the same number, so that a call is taken by its round there. -/
structure Safe (s : State cfg) : Prop where
  /-- a thread that has returned was in a round of `count` threads -/
  round : ∀ t, (s.thread t).phase = .outside → 0 < (s.thread t).entered →
    (s.members (s.thread t).round).card = cfg.count
  /-- no thread returns from its call number `r` before `count` threads have entered theirs -/
  call : cfg.threads ≤ cfg.count → ∀ t r, 0 < r → r ≤ (s.thread t).returned →
    cfg.count ≤ (Finset.univ.filter fun u => r ≤ (s.thread u).entered).card
  waiters : s.waiters = (s.members s.round).card
  incomplete : s.waiters < cfg.count
  /-- a thread that waits without a signal is in the round that is not complete -/
  waiting : ∀ t, (s.thread t).phase = .waiting → (s.thread t).round = s.round ∧
    t ∈ s.members s.round

/-! ## The invariant -/

/-- Between two steps, if nobody is woken up without a signal. -/
structure Inv (s : State cfg) : Prop where
  current : ∀ t, t ∈ s.members s.round ↔ (s.thread t).phase = .waiting
  waiters : s.waiters = (s.members s.round).card
  incomplete : s.waiters < cfg.count
  full : ∀ r, r < s.round → (s.members r).card = cfg.count
  empty : ∀ r, s.round < r → s.members r = ∅
  waiting : ∀ t, (s.thread t).phase = .waiting → (s.thread t).round = s.round
  past : ∀ t, (s.thread t).phase ≠ .waiting → 0 < (s.thread t).entered →
    (s.thread t).round < s.round
  returned : ∀ t, (s.thread t).returned + (if (s.thread t).phase = .outside then 0 else 1) =
    (s.thread t).entered
  entered : cfg.threads ≤ cfg.count → ∀ t, (s.thread t).entered =
    s.round + (if (s.thread t).phase = .waiting then 1 else 0)

namespace Inv

variable {s s' : State cfg}

theorem init (cfg : Config) : Inv (init cfg) where
  current := by simp [Wait.init]
  waiters := rfl
  incomplete := cfg.count_pos
  full := by simp [Wait.init]
  empty := by simp [Wait.init]
  waiting := by simp [Wait.init]
  past := by simp [Wait.init]
  returned := by simp [Wait.init]
  entered := by simp [Wait.init]

/-- A thread that enters is not yet in the round. -/
theorem card_insert (h : Inv s) {t : Fin cfg.threads} (hphase : (s.thread t).phase = .outside) :
    (insert t (s.members s.round)).card = s.waiters + 1 := by
  have hnot : t ∉ s.members s.round := by
    rw [h.current, hphase]
    simp
  rw [Finset.card_insert_of_notMem hnot, h.waiters]

/-- With as many threads as the barrier takes, the last one finds all others waiting. -/
theorem all_waiting (h : Inv s) (hthreads : cfg.threads ≤ cfg.count) {t : Fin cfg.threads}
    (hphase : (s.thread t).phase = .outside) (hlast : s.waiters + 1 = cfg.count)
    {u : Fin cfg.threads} (hne : u ≠ t) : (s.thread u).phase = .waiting := by
  have hcard : (insert t (s.members s.round)).card = Fintype.card (Fin cfg.threads) := by
    apply le_antisymm (Finset.card_le_univ _)
    rw [h.card_insert hphase, Fintype.card_fin]
    omega
  have hmem : u ∈ insert t (s.members s.round) := by
    rw [Finset.eq_univ_of_card _ hcard]
    exact Finset.mem_univ u
  exact (h.current u).mp ((Finset.mem_insert.mp hmem).resolve_left hne)

theorem wait (h : Inv s) {t : Fin cfg.threads} (hphase : (s.thread t).phase = .outside)
    (hlt : s.waiters + 1 < cfg.count) :
    Inv { s with
      waiters := s.waiters + 1
      thread := Function.update s.thread t ((s.thread t).enter s.round .waiting)
      members := Function.update s.members s.round (insert t (s.members s.round)) } where
  current := by
    intro u
    by_cases hu : u = t
    · subst hu
      simp [Thread.enter]
    · simp [hu, h.current]
  waiters := by simp [h.card_insert hphase]
  incomplete := hlt
  full := by
    intro r hr
    simpa [hr.ne] using h.full r hr
  empty := by
    intro r hr
    simpa [hr.ne'] using h.empty r hr
  waiting := by
    intro u hu
    by_cases hut : u = t
    · subst hut
      simp [Thread.enter]
    · simpa [hut] using h.waiting u (by simpa [hut] using hu)
  past := by
    intro u hu
    by_cases hut : u = t
    · subst hut
      simp [Thread.enter] at hu
    · simpa [hut] using h.past u (by simpa [hut] using hu)
  returned := by
    intro u
    have hold := h.returned u
    by_cases hut : u = t
    · subst hut
      simpa [Thread.enter, hphase] using hold
    · simpa [hut] using hold
  entered := by
    intro hthreads u
    have hold := h.entered hthreads u
    by_cases hut : u = t
    · subst hut
      simpa [Thread.enter, hphase] using hold
    · simpa [hut] using hold

theorem last (h : Inv s) {t : Fin cfg.threads} (hphase : (s.thread t).phase = .outside)
    (hlast : s.waiters + 1 = cfg.count) :
    Inv {
      waiters := 0
      round := s.round + 1
      thread := Function.update (fun u => (s.thread u).broadcast) t
        ((s.thread t).enter s.round .released)
      members := Function.update s.members s.round (insert t (s.members s.round)) } where
  current := by
    intro u
    have hnone : s.members (s.round + 1) = ∅ := h.empty _ (Nat.lt_succ_self _)
    by_cases hu : u = t
    · subst hu
      simp [Thread.enter, hnone]
    · by_cases hw : (s.thread u).phase = .waiting <;> simp [hu, hnone, Thread.broadcast, hw]
  waiters := by simp [h.empty _ (Nat.lt_succ_self s.round)]
  incomplete := cfg.count_pos
  full := by
    intro r hr
    obtain hr | rfl := Nat.lt_succ_iff_lt_or_eq.mp hr
    · simpa [hr.ne] using h.full r hr
    · simpa [h.card_insert hphase] using hlast
  empty := by
    intro r hr
    have hlt : s.round < r := Nat.lt_of_succ_lt hr
    simpa [hlt.ne'] using h.empty r hlt
  waiting := by
    intro u hu
    by_cases hut : u = t
    · subst hut
      simp [Thread.enter] at hu
    · by_cases hw : (s.thread u).phase = .waiting <;> simp [hut, Thread.broadcast, hw] at hu
  past := by
    intro u _ hpos
    by_cases hut : u = t
    · subst hut
      simp [Thread.enter]
    · by_cases hw : (s.thread u).phase = .waiting
      · simpa [hut, Thread.broadcast, hw] using (h.waiting u hw).le
      · have hold := h.past u hw (by simpa [hut, Thread.broadcast, hw] using hpos)
        simpa [hut, Thread.broadcast, hw] using Nat.lt_succ_of_lt hold
  returned := by
    intro u
    have hold := h.returned u
    by_cases hut : u = t
    · subst hut
      simpa [Thread.enter, hphase] using hold
    · by_cases hw : (s.thread u).phase = .waiting
      · simpa [hut, Thread.broadcast, hw] using hold
      · simpa [hut, Thread.broadcast, hw] using hold
  entered := by
    intro hthreads u
    have hold := h.entered hthreads u
    by_cases hut : u = t
    · subst hut
      simpa [Thread.enter, hphase] using hold
    · have hw := h.all_waiting hthreads hphase hlast hut
      simpa [hut, Thread.broadcast, hw] using hold

theorem leave (h : Inv s) {t : Fin cfg.threads} (hphase : (s.thread t).phase = .released) :
    Inv { s with thread := Function.update s.thread t { s.thread t with
      phase := .outside
      returned := (s.thread t).returned + 1 } } where
  current := by
    intro u
    have hold := h.current u
    by_cases hut : u = t
    · subst hut
      simpa [hphase] using hold
    · simpa [hut] using hold
  waiters := h.waiters
  incomplete := h.incomplete
  full := h.full
  empty := h.empty
  waiting := by
    intro u hu
    by_cases hut : u = t
    · subst hut
      simp at hu
    · simpa [hut] using h.waiting u (by simpa [hut] using hu)
  past := by
    intro u hu hpos
    by_cases hut : u = t
    · subst hut
      simpa using h.past u (by simp [hphase]) (by simpa using hpos)
    · simpa [hut] using h.past u (by simpa [hut] using hu) (by simpa [hut] using hpos)
  returned := by
    intro u
    have hold := h.returned u
    by_cases hut : u = t
    · subst hut
      simpa [hphase] using hold
    · simpa [hut] using hold
  entered := by
    intro hthreads u
    have hold := h.entered hthreads u
    by_cases hut : u = t
    · subst hut
      simpa [hphase] using hold
    · simpa [hut] using hold

theorem step (h : Inv s) {a : Action cfg} (hok : Signalled s a) (hs : Step s a s') : Inv s' := by
  cases hs with
  | last t hphase hlast => exact h.last hphase hlast
  | wait t hphase hlt => exact h.wait hphase hlt
  | wake t hphase => exact hok.elim
  | leave t hphase => exact h.leave hphase

theorem of_reach (h : Transition.Reach Wait.step Signalled (Wait.init cfg) s) : Inv s :=
  h.invariant (init cfg) fun _ _ _ hinv hok hs => hinv.step hok (.of_eq_some hs)

/-- A call that has returned is over, and so has every thread entered it. -/
theorem call (h : Inv s) (hthreads : cfg.threads ≤ cfg.count) {t : Fin cfg.threads} {r : Nat}
    (hpos : 0 < r) (hr : r ≤ (s.thread t).returned) :
    cfg.count ≤ (Finset.univ.filter fun u => r ≤ (s.thread u).entered).card := by
  have hround : r ≤ s.round := by
    have hreturned := h.returned t
    have hentered := h.entered hthreads t
    split at hentered
    · next hw =>
      rw [hw] at hreturned
      simp only [reduceCtorEq, if_false] at hreturned
      omega
    · omega
  have hall : (Finset.univ.filter fun u => r ≤ (s.thread u).entered) = Finset.univ := by
    apply Finset.filter_true_of_mem
    intro u _
    have hentered := h.entered hthreads u
    omega
  have hfirst := h.full 0 (by omega)
  rw [hall, ← hfirst]
  exact Finset.card_le_univ _

end Inv

/-- In a run in which nobody is woken up without a signal, the barrier is safe. -/
theorem safe_of_signalled {s : State cfg}
    (h : Transition.Reach step Signalled (init cfg) s) : Safe s := by
  have hinv := Inv.of_reach h
  refine ⟨?_, ?_, hinv.waiters, hinv.incomplete, ?_⟩
  · intro t hphase hpos
    exact hinv.full _ (hinv.past t (by simp [hphase]) hpos)
  · intro hthreads t r hpos hr
    exact hinv.call hthreads hpos hr
  · intro t hphase
    exact ⟨hinv.waiting t hphase, (hinv.current t).mpr hphase⟩

/-- Two threads and a barrier for both. -/
abbrev twoThreads : Config := ⟨2, Nat.two_pos, 2⟩

/-- Both have returned from their first call. -/
theorem safe_of_signalled_twoThreads : ∃ s : State twoThreads,
    (s.thread 0).returned = 1 ∧ (s.thread 1).returned = 1 ∧ Safe s := by
  have hrun : ∃ s : State twoThreads, Transition.Reach step Signalled (init twoThreads) s ∧
      (s.thread 0).returned = 1 ∧ (s.thread 1).returned = 1 :=
    Transition.exists_reach_of_run [.enter 0, .enter 1, .leave 0, .leave 1] (by decide)
  obtain ⟨s, hreach, hfirst, hsecond⟩ := hrun
  exact ⟨s, hfirst, hsecond, safe_of_signalled hreach⟩

/-- A thread that is woken up without a signal returns although the other one has not come. -/
theorem returned_alone : ∃ s : State twoThreads,
    Transition.Reach step Transition.anyStep (init twoThreads) s ∧
      (s.thread 0).returned = 1 ∧ (s.thread 1).entered = 0 ∧ ¬ Safe s := by
  have hrun : ∃ s : State twoThreads, Transition.Reach step Transition.anyStep (init twoThreads) s ∧
      ((s.thread 0).returned = 1 ∧ (s.thread 1).entered = 0) ∧
        (Finset.univ.filter fun u => 1 ≤ (s.thread u).entered).card = 1 :=
    Transition.exists_reach_of_run [.enter 0, .wake 0, .leave 0] (by decide)
  obtain ⟨s, hreach, hreturned, hcard⟩ := hrun
  refine ⟨s, hreach, hreturned.1, hreturned.2, ?_⟩
  intro hsafe
  have htwo := hsafe.call le_rfl 0 1 Nat.one_pos hreturned.1.ge
  rw [hcard] at htwo
  exact absurd htwo (by decide)

end Xdd.Barrier.Wait
