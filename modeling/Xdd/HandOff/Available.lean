import Xdd.Library.Account
import Xdd.HandOff.Exclusive

/-!
# The count of available workers

`td_any_worker_thread_available` and the `WTSYNC_BUSY` flags are kept under different
mutexes. A worker clears its flag first and adds itself to the count afterwards; the
target takes one from the count first and marks a worker afterwards, and it takes a
specific worker without touching the count. What is accounted for here is that the count
and the workers about to add themselves to it cover the workers that are idle.
-/

namespace Xdd.HandOff

variable {cfg : Config} {Q : Nat}

/-- Workers that have cleared their flag and have not added themselves to the count. -/
def State.signalling (s : State cfg) : Finset (Fin cfg.queueDepth) :=
  Finset.univ.filter fun w => (s.worker w).pc = .signalling

/-- Workers that are neither busy nor at an end of file. -/
def State.idle (s : State cfg) : Finset (Fin cfg.queueDepth) :=
  Finset.univ.filter fun w => (s.worker w).busy = false ∧ (s.worker w).eofReceived = false

/-- The target waits in `xdd_get_any_available_worker_thread` for the count. -/
def State.BlockedOnAny (s : State cfg) : Prop :=
  s.pc = .awaitAny ∧ s.available = 0

instance (s : State cfg) : Decidable s.BlockedOnAny :=
  inferInstanceAs (Decidable (_ ∧ _))

/-- A test that fails before an I/O does not give the worker back: only the loop of an
end-to-end source keeps the flag set, at a limit. The other exits clear the flag and
leave the count as it is. -/
def KeepsLocated (cfg : Config) (_ : State cfg) : Action cfg → Prop
  | .tests .limit => cfg.variant = .endToEndSource
  | .tests .abort => False
  | _ => True

instance (cfg : Config) (s : State cfg) : (a : Action cfg) → Decidable (KeepsLocated cfg s a)
  | .tests .limit => inferInstanceAs (Decidable (cfg.variant = .endToEndSource))
  | .tests .abort => isFalse id
  | .tests .good => isTrue trivial
  | .worker _ | .receiveEof _ | .target | .ring _ | .beginPass _ | .beginCleanup | .cancel =>
    isTrue trivial

namespace TargetPc

/-- The target has taken the worker by `xdd_get_specific_worker_thread`, and the count
still covers it. -/
def Borrows : TargetPc Q → Fin Q → Bool
  | .eofSetUp v, w | .eofRelease v, w | .clear _ v, w => v = w
  | _, _ => false

/-- What the target has taken from the count and has not spent on a worker. -/
def taken : TargetPc Q → Nat
  | .scan _ _ => 1
  | _ => 0

theorem ne_scan_of_taken {pc : TargetPc Q} (h : pc.taken = 0) (i eof : Nat) :
    pc ≠ .scan i eof := by
  intro hpc
  rw [hpc] at h
  exact Nat.one_ne_zero h

end TargetPc

/-- What a worker contributes to the account: one if it is about to add itself to the
count, less one if the count has to cover it. -/
def worth (pc : TargetPc Q) (w : Fin Q) (worker : Worker) : Int :=
  (if worker.pc = .signalling then 1 else 0) -
    if worker.eofReceived = false ∧ (worker.busy = false ∨ pc.Borrows w = true) then 1 else 0

/-- How much more the count and the signalling workers make than they have to cover. -/
def balance (s : State cfg) : Int :=
  s.available + s.pc.taken + ∑ w, worth s.pc w (s.worker w)

structure CountInv (s : State cfg) : Prop where
  covered : 0 ≤ balance s
  eofReceived : ∀ w, (s.worker w).eofReceived = true → cfg.variant = .endToEndDestination
  /-- workers that were idle when they were passed in a scan have received an end of file,
  and the others that are idle now have finished a task since -/
  scanned : ∀ i eof, s.pc = .scan i eof → eof ≤ i ∧
    (eof = i → ∀ w : Fin cfg.queueDepth, w.val < i → (s.worker w).eofReceived = true) ∧
    ∀ w : Fin cfg.queueDepth, w.val < i → 0 ≤ worth s.pc w (s.worker w)

theorem worth_nonneg_of_eofReceived (pc : TargetPc Q) (w : Fin Q) {worker : Worker}
    (h : worker.eofReceived = true) : 0 ≤ worth pc w worker := by
  unfold worth
  split <;> simp [h]

/-- Only the workers that the target has borrowed make a difference for its position. -/
theorem worth_mono {pc pc' : TargetPc Q} {w : Fin Q} (worker : Worker)
    (h : pc'.Borrows w = true → pc.Borrows w = true) : worth pc w worker ≤ worth pc' w worker := by
  unfold worth
  gcongr
  split
  · split
    · exact le_rfl
    · rename_i hnew hold
      exact absurd ⟨hnew.1, hnew.2.imp_right h⟩ hold
  · split <;> simp

variable {s s' : State cfg} {w : Fin cfg.queueDepth}

theorem balance_mono
    (hworth : ∀ u, worth s.pc u (s.worker u) ≤ worth s'.pc u (s'.worker u))
    (hcount : s.available + s.pc.taken ≤ s'.available + s'.pc.taken) :
    balance s ≤ balance s' := by
  have hsum := Finset.sum_le_sum fun u (_ : u ∈ Finset.univ) => hworth u
  have hcount' : (s.available : Int) + s.pc.taken ≤ s'.available + s'.pc.taken := mod_cast hcount
  unfold balance
  omega

/-- The account when only worker `w` and the count change. -/
theorem balance_mono_except (w : Fin cfg.queueDepth)
    (hworth : ∀ u, u ≠ w → worth s.pc u (s.worker u) ≤ worth s'.pc u (s'.worker u))
    (hcount : s.available + s.pc.taken + worth s.pc w (s.worker w) ≤
      s'.available + s'.pc.taken + worth s'.pc w (s'.worker w)) :
    balance s ≤ balance s' := by
  have hsum := Account.sum_add_le_sum_add w hworth
  unfold balance
  omega

/-- A worker that the target has borrowed is not idle. -/
theorem sum_worth_le (s : State cfg) :
    ∑ w, worth s.pc w (s.worker w) ≤ (s.signalling.card : Int) - s.idle.card := by
  calc ∑ w, worth s.pc w (s.worker w)
      ≤ ∑ w, worth .betweenPasses w (s.worker w) :=
        Finset.sum_le_sum fun w _ => worth_mono _ (by simp [TargetPc.Borrows])
    _ = (s.signalling.card : Int) - s.idle.card := by
        simp only [worth, TargetPc.Borrows, Finset.sum_sub_distrib, Bool.false_eq_true, or_false]
        simp [State.signalling, State.idle, and_comm]

namespace CountInv

theorem init (cfg : Config) : CountInv (init cfg) where
  covered := by simp [balance, HandOff.init, worth, TargetPc.taken]
  eofReceived := by simp [HandOff.init]
  scanned := by simp [HandOff.init]

/-- One worker moves on and contributes no less. -/
theorem setWorker (h : CountInv s) {worker : Worker}
    (hworth : worth s.pc w (s.worker w) ≤ worth s.pc w worker)
    (hkept : (s.worker w).eofReceived = true → worker.eofReceived = true)
    (hnew : worker.eofReceived = true → cfg.variant = .endToEndDestination) :
    CountInv (s.setWorker w worker) := by
  refine ⟨le_trans h.covered (balance_mono_except w ?_ ?_), ?_, ?_⟩
  · intro u hu
    simp [State.setWorker, hu]
  · simpa [State.setWorker] using hworth
  · exact State.forall_setWorker (fun _ worker => worker.eofReceived = true → _) hnew
      fun u _ => h.eofReceived u
  · intro i eof hpc
    obtain ⟨hle, hall, hpassed⟩ := h.scanned i eof hpc
    refine ⟨hle, fun heq => ?_, ?_⟩
    · exact State.forall_setWorker (fun u worker => u.val < i → worker.eofReceived = true)
        (fun hi => hkept (hall heq w hi)) fun u _ => hall heq u
    · exact State.forall_setWorker (fun u worker => u.val < i → 0 ≤ worth s.pc u worker)
        (fun hi => le_trans (hpassed w hi) hworth) fun u _ => hpassed u

/-- The target moves and leaves the workers alone. -/
theorem goto (h : CountInv s) (hworker : s'.worker = s.worker)
    (hborrows : ∀ w, s'.pc.Borrows w = true → s.pc.Borrows w = true)
    (hcount : s.available + s.pc.taken ≤ s'.available + s'.pc.taken)
    (hscan : ∀ i eof, s'.pc = .scan i eof → i = 0 ∧ eof = 0) : CountInv s' := by
  refine ⟨le_trans h.covered (balance_mono ?_ hcount), ?_, ?_⟩
  · intro u
    rw [hworker]
    exact worth_mono _ (hborrows u)
  · rw [hworker]
    exact h.eofReceived
  · intro i eof hpc
    obtain ⟨rfl, rfl⟩ := hscan i eof hpc
    exact ⟨le_rfl, fun _ u hu => absurd hu (Nat.not_lt_zero _),
      fun u hu => absurd hu (Nat.not_lt_zero _)⟩

/-- The target moves on with nothing taken, before and after. -/
theorem move (h : CountInv s) (hworker : s'.worker = s.worker)
    (havailable : s.available ≤ s'.available) (htaken : s.pc.taken = 0)
    (hborrows : ∀ w, s'.pc.Borrows w = false) (htaken' : s'.pc.taken = 0) : CountInv s' := by
  refine h.goto hworker ?_ ?_ ?_
  · intro w hb
    simp [hborrows w] at hb
  · rwa [htaken, htaken', Nat.add_zero, Nat.add_zero]
  · intro i eof hpc
    exact absurd hpc (TargetPc.ne_scan_of_taken htaken' i eof)

/-- The target changes the flag or the position of worker `w` and moves. -/
theorem setWorker_goto (h : CountInv s) (worker : Worker) {pc : TargetPc cfg.queueDepth}
    (hworth : worth s.pc w (s.worker w) + s.pc.taken ≤ worth pc w worker)
    (heof : worker.eofReceived = (s.worker w).eofReceived)
    (hborrows : ∀ u, u ≠ w → pc.Borrows u = true → s.pc.Borrows u = true)
    (htaken : pc.taken = 0) :
    CountInv { s.setWorker w worker with pc := pc } := by
  refine ⟨le_trans h.covered (balance_mono_except w ?_ ?_), ?_, ?_⟩
  · intro u hu
    simpa [State.setWorker, hu] using worth_mono (s.worker u) (hborrows u hu)
  · have hnew : (0 : Int) ≤ pc.taken := Int.natCast_nonneg _
    simp only [State.setWorker, Function.update_self]
    omega
  · apply State.forall_setWorker
      fun _ worker => worker.eofReceived = true → cfg.variant = .endToEndDestination
    · rw [heof]
      exact h.eofReceived w
    · intro u _
      exact h.eofReceived u
  · intro i eof hpc
    exact absurd hpc (TargetPc.ne_scan_of_taken htaken i eof)

/-- A worker adds itself to the count. -/
theorem signal (h : CountInv s) (hpc : (s.worker w).pc = .signalling)
    (hscan : ∀ i eof, s.pc ≠ .scan i eof) :
    CountInv { s.setWorker w { s.worker w with pc := .arriving } with
      available := s.available + 1 } := by
  refine ⟨le_trans h.covered (balance_mono_except w ?_ ?_), ?_, ?_⟩
  · intro u hu
    simp [State.setWorker, hu]
  · simp only [State.setWorker, Function.update_self, worth, hpc, reduceCtorEq, if_true, if_false]
    push_cast
    omega
  · exact State.forall_setWorker (fun _ worker => worker.eofReceived = true → _) (h.eofReceived w)
      fun u _ => h.eofReceived u
  · intro i eof hp
    exact absurd hp (hscan i eof)

theorem afterLoop (h : CountInv s) (htaken : s.pc.taken = 0) : CountInv (afterLoop s) := by
  unfold HandOff.afterLoop
  split
  · exact h.move rfl le_rfl htaken (fun _ => rfl) rfl
  · split
    · exact h.move rfl le_rfl htaken (fun _ => rfl) rfl
    · exact h.move rfl le_rfl htaken (fun _ => rfl) rfl

/-- The target leaves a scan for a place where no worker is taken, with nothing to cover. -/
theorem leaveScan (h : CountInv s) {pc : TargetPc cfg.queueDepth}
    (hworker : s'.worker = s.worker) (hpc : s'.pc = pc) (htaken : pc.taken = 0)
    (hworth : ∀ w, 0 ≤ worth pc w (s.worker w)) : CountInv s' := by
  refine ⟨?_, ?_, ?_⟩
  · unfold balance
    rw [hworker, hpc]
    have hsum := Finset.sum_nonneg fun w (_ : w ∈ Finset.univ) => hworth w
    omega
  · rw [hworker]
    exact h.eofReceived
  · intro i eof hp
    exact absurd (hpc.symm.trans hp) (TargetPc.ne_scan_of_taken htaken i eof)

/-- The scan passes worker `w`. -/
theorem passWorker (h : CountInv s) {eof eof' : Nat} (hpc : s.pc = .scan w.val eof)
    (hle : eof' ≤ w.val + 1)
    (hall : eof' = w.val + 1 → eof = w.val ∧ (s.worker w).eofReceived = true)
    (hworth : 0 ≤ worth s.pc w (s.worker w)) :
    CountInv { s with pc := .scan (w.val + 1) eof' } := by
  obtain ⟨-, hprev, hpassed⟩ := h.scanned _ _ hpc
  have hsame : ∀ u, worth (.scan (w.val + 1) eof') u (s.worker u) =
      worth s.pc u (s.worker u) := by
    intro u
    rw [hpc]
    rfl
  have hlt : ∀ {u : Fin cfg.queueDepth}, u.val < w.val + 1 → u = w ∨ u.val < w.val := by
    intro u hu
    rcases Nat.lt_succ_iff_lt_or_eq.mp hu with hu | hu
    · exact .inr hu
    · exact .inl (Fin.ext hu)
  refine ⟨?_, h.eofReceived, ?_⟩
  · refine le_trans h.covered (balance_mono (fun u => (hsame u).ge) ?_)
    simp [hpc, TargetPc.taken]
  · intro i e hp
    cases hp
    refine ⟨hle, ?_, ?_⟩
    · intro heq u hu
      obtain ⟨heof, hw⟩ := hall heq
      rcases hlt hu with rfl | hu
      · exact hw
      · exact hprev heof u hu
    · intro u hu
      refine le_of_le_of_eq ?_ (hsame u).symm
      rcases hlt hu with rfl | hu
      · exact hworth
      · exact hpassed u hu

theorem scanBusy (h : CountInv s) {eof : Nat} (hpc : s.pc = .scan w.val eof)
    (hbusy : (s.worker w).busy = true) : CountInv { s with pc := .scan (w.val + 1) eof } := by
  have hle := (h.scanned _ _ hpc).1
  refine h.passWorker hpc (by omega) (by omega) ?_
  unfold worth
  split <;> simp [hbusy, hpc, TargetPc.Borrows]

theorem scanEof (h : CountInv s) {eof : Nat} (hpc : s.pc = .scan w.val eof)
    (heof : (s.worker w).eofReceived = true) :
    CountInv { s with pc := .scan (w.val + 1) (eof + 1) } := by
  have hle := (h.scanned _ _ hpc).1
  exact h.passWorker hpc (by omega) (fun heq => ⟨by omega, heof⟩)
    (worth_nonneg_of_eofReceived _ _ heof)

/-- Every worker has received its end of file. -/
theorem scanAllEof (h : CountInv s) {eof : Nat} (hpc : s.pc = .scan w.val eof)
    (heof : (s.worker w).eofReceived = true) (hlast : eof + 1 = cfg.queueDepth) :
    CountInv (HandOff.afterLoop s) := by
  obtain ⟨hle, hprev, -⟩ := h.scanned _ _ hpc
  have hall : ∀ u, (s.worker u).eofReceived = true := by
    intro u
    by_cases hu : u = w
    · exact hu ▸ heof
    · apply hprev (by omega)
      have hne : u.val ≠ w.val := fun hval => hu (Fin.ext hval)
      omega
  have hworth : ∀ pc u, 0 ≤ worth pc u (s.worker u) := by
    intro pc u
    exact worth_nonneg_of_eofReceived pc u (hall u)
  unfold HandOff.afterLoop
  split
  · exact h.leaveScan rfl rfl rfl (hworth _)
  · split
    · exact h.leaveScan rfl rfl rfl (hworth _)
    · exact h.leaveScan rfl rfl rfl (hworth _)

/-- An idle worker is found: what was taken from the count is spent on it. -/
theorem locate (h : CountInv s) {eof : Nat} (hpc : s.pc = .scan w.val eof)
    (hbusy : (s.worker w).busy = false)
    (heof : ¬ (cfg.variant = .endToEndDestination ∧ (s.worker w).eofReceived = true)) :
    CountInv { s.setBusy w true with pc := .located w } := by
  have hopen : (s.worker w).eofReceived = false := by
    by_contra hreceived
    have hreceived := Bool.eq_true_of_not_eq_false hreceived
    exact heof ⟨h.eofReceived w hreceived, hreceived⟩
  refine h.setWorker_goto { s.worker w with busy := true } ?_ rfl ?_ rfl
  · simp [worth, hpc, hopen, hbusy, TargetPc.taken, TargetPc.Borrows]
  · intro u _ hb
    cases hb

/-- The scan has passed every worker, so each idle one is signalling. -/
theorem scanEnd (h : CountInv s) {i eof : Nat} (hpc : s.pc = .scan i eof)
    (hall : cfg.queueDepth ≤ i) : CountInv { s with pc := .awaitAny } := by
  refine h.leaveScan rfl rfl rfl ?_
  intro w
  have hpassed := (h.scanned i eof hpc).2.2 w (lt_of_lt_of_le w.isLt hall)
  rw [hpc] at hpassed
  exact hpassed

/-- The target takes a specific worker: it is not idle any more, but the count still
covers it. -/
theorem take (h : CountInv s) {pc : TargetPc cfg.queueDepth} (hbusy : (s.worker w).busy = false)
    (htaken : s.pc.taken = 0) (hborrows : ∀ u, u ≠ w → pc.Borrows u = false)
    (htaken' : pc.taken = 0) : CountInv { s.setBusy w true with pc := pc } := by
  refine h.setWorker_goto { s.worker w with busy := true } ?_ rfl ?_ htaken'
  · unfold worth
    simp only [hbusy, htaken, true_or, and_true, Nat.cast_zero, add_zero]
    gcongr
    split <;> split <;> simp_all
  · intro u hu hb
    simp [hborrows u hu] at hb

/-- The target opens the barrier of a worker that it holds. -/
theorem release (h : CountInv s) {pc : TargetPc cfg.queueDepth}
    (hin : (s.worker w).pc = .inBarrier) (htaken : s.pc.taken = 0)
    (hborrows : ∀ u, pc.Borrows u = false) (htaken' : pc.taken = 0) :
    CountInv { s.release w with pc := pc } := by
  refine h.setWorker_goto { s.worker w with
    pc := .starting
    released := (s.worker w).released ++ [(s.worker w).task.id] } ?_ rfl ?_ htaken'
  · have hmono : worth s.pc w (s.worker w) ≤ worth pc w (s.worker w) :=
      worth_mono (s.worker w) (by simp [hborrows])
    simpa [worth, hin, htaken] using hmono
  · intro u _ hb
    simp [hborrows u] at hb

/-- The target writes the task of worker `w`. -/
theorem writeTask (h : CountInv s) {pc : TargetPc cfg.queueDepth} {request : Request}
    (htaken : s.pc.taken = 0) (hborrows : ∀ u, pc.Borrows u = true → s.pc.Borrows u = true)
    (htaken' : pc.taken = 0) :
    CountInv { writeTask s w request with pc := pc } := by
  have hworth : worth s.pc w (s.worker w) + s.pc.taken ≤
      worth pc w { s.worker w with task := ⟨s.setups.length, request⟩ } := by
    rw [htaken, Nat.cast_zero, add_zero]
    exact worth_mono (s.worker w) (hborrows w)
  have hset := h.setWorker_goto _ hworth rfl (fun u _ => hborrows u) htaken'
  exact ⟨hset.covered, hset.eofReceived, hset.scanned⟩

/-- The target gives a collected worker back: the count has covered it all the time. -/
theorem clear (h : CountInv s) {c : Collection} (hpc : s.pc = .clear c w)
    {pc : TargetPc cfg.queueDepth} (hborrows : ∀ u, pc.Borrows u = false) (htaken : pc.taken = 0) :
    CountInv { s.setBusy w false with pc := pc } := by
  refine h.setWorker_goto { s.worker w with busy := false } ?_ rfl ?_ htaken
  · simp [worth, hpc, TargetPc.Borrows, TargetPc.taken]
  · intro u _ hb
    simp [hborrows u] at hb

theorem step (h : CountInv s) {a : Action cfg} (hok : KeepsLocated cfg s a)
    (hs : Step cfg s a s') : CountInv s' := by
  cases hs with
  | @arrive w hpc => exact h.setWorker (by simp [worth, hpc]) id (h.eofReceived w)
  | @start w hpc _ => exact h.setWorker (by simp [worth, hpc]) id (h.eofReceived w)
  | @stop w hpc _ => exact h.setWorker (by simp [worth, hpc]) id (h.eofReceived w)
  | @finish w id hpc =>
      refine h.setWorker ?_ (fun he => he) (h.eofReceived w)
      unfold worth
      simp only [hpc, reduceCtorEq, if_false, if_true]
      split <;> split <;> simp
  | signal hpc hscan => exact h.signal hpc hscan
  | receiveEof hvariant _ =>
      refine h.setWorker ?_ (fun _ => rfl) fun _ => hvariant
      unfold worth
      split <;> split <;> simp
  | leaveLoop hpc => exact h.afterLoop (by rcases hpc with hpc | hpc <;> rw [hpc] <;> rfl)
  | interval hpc => exact h.move rfl le_rfl (by rw [hpc]; rfl) (fun _ => rfl) rfl
  | await hpc => exact h.move rfl le_rfl (by rw [hpc]; rfl) (fun _ => rfl) rfl
  | endInterval hpc => exact h.move rfl le_rfl (by rw [hpc]; rfl) (fun _ => rfl) rfl
  | takeAny hpc hpos =>
      refine h.goto rfl (fun _ hb => by cases hb) ?_ ?_
      · simp only [hpc, TargetPc.taken]
        omega
      · intro i eof hp
        cases hp
        exact ⟨rfl, rfl⟩
  | scanBusy hpc hbusy => exact h.scanBusy hpc hbusy
  | scanEof hpc _ heof _ => exact h.scanEof hpc heof
  | scanAllEof hpc _ heof hlast => exact h.scanAllEof hpc heof hlast
  | locate hpc hbusy heof => exact h.locate hpc hbusy heof
  | scanEnd hpc hall => exact h.scanEnd hpc hall
  | @setUp w hpc =>
      have hwritten : CountInv { HandOff.writeTask s w .io with pc := .release w } :=
        h.writeTask (by rw [hpc]; rfl) (fun _ hb => by cases hb) rfl
      exact ⟨hwritten.covered, hwritten.eofReceived, hwritten.scanned⟩
  | release hpc hin => exact h.release hin (by rw [hpc]; rfl) (fun _ => rfl) rfl
  | eofTake hpc hbusy =>
      refine h.take hbusy (by rw [hpc]; rfl) ?_ rfl
      intro u hu
      simpa [TargetPc.Borrows] using Ne.symm hu
  | eofEnd hpc _ => exact h.move rfl le_rfl (by rw [hpc]; rfl) (fun _ => rfl) rfl
  | eofSetUp hpc =>
      refine h.writeTask (by rw [hpc]; rfl) ?_ rfl
      intro u hu
      rw [hpc]
      exact hu
  | eofRelease hpc hin => exact h.release hin (by rw [hpc]; rfl) (fun _ => rfl) rfl
  | collect hpc hbusy =>
      refine h.take hbusy (by rw [hpc]; rfl) ?_ rfl
      intro u hu
      simpa [TargetPc.Borrows] using Ne.symm hu
  | @collected c q hpc _ =>
      cases c with
      | interval => exact h.move rfl le_rfl (by rw [hpc]; rfl) (fun _ => rfl) rfl
      | pass => exact h.move rfl le_rfl (by rw [hpc]; rfl) (fun _ => rfl) rfl
  | clear hpc => exact h.clear hpc (fun _ => rfl) rfl
  | @clearCount w hpc =>
      have hcleared : CountInv { s.setBusy w false with pc := .collect .pass (w.val + 1) } :=
        h.clear hpc (fun _ => rfl) rfl
      exact hcleared.move rfl (Nat.le_succ _) rfl (fun _ => rfl) rfl
  | clearCanceled hpc _ => exact h.clear hpc (fun _ => rfl) rfl
  | cleanup hpc => exact h.writeTask (by rw [hpc]; rfl) (fun _ hb => by cases hb) rfl
  | cleaned hpc _ => exact h.move rfl le_rfl (by rw [hpc]; rfl) (fun _ => rfl) rfl
  | cleanupRelease hpc hin => exact h.release hin (by rw [hpc]; rfl) (fun _ => rfl) rfl
  | good hpc => exact h.move rfl le_rfl (by rw [hpc]; rfl) (fun _ => rfl) rfl
  | @giveBack w tests hpc hbad hsource =>
      cases tests with
      | good => exact absurd rfl hbad
      | limit => exact absurd hok (hsource rfl)
      | abort => exact hok.elim
  | @giveBackTurn w tests hpc hbad hvariant =>
      cases tests with
      | good => exact absurd rfl hbad
      | limit =>
          have hsource : cfg.variant = .endToEndSource := hok
          rw [hvariant] at hsource
          cases hsource
      | abort => exact hok.elim
  | keepBusy hpc _ => exact h.afterLoop (by rw [hpc]; rfl)
  | ring hpc => exact h.move rfl le_rfl (by rw [hpc]; rfl) (fun _ => rfl) rfl
  | beginPass hpc hnew =>
      rcases hnew with rfl | rfl
      · exact h.move rfl le_rfl (by rw [hpc]; rfl) (fun _ => rfl) rfl
      · exact h.move rfl le_rfl (by rw [hpc]; rfl) (fun _ => rfl) rfl
  | beginCleanup hpc => exact h.move rfl le_rfl (by rw [hpc]; rfl) (fun _ => rfl) rfl
  | cancel => exact ⟨h.covered, h.eofReceived, h.scanned⟩

theorem of_reach
    (hreach : Transition.Reach (HandOff.step cfg) (KeepsLocated cfg) (HandOff.init cfg) s) :
    CountInv s :=
  hreach.invariant (CountInv.init cfg) fun _ _ _ h hok hstep => h.step hok (.of_eq_some hstep)

theorem idle_card_le (h : CountInv s) :
    s.idle.card ≤ s.available + s.pc.taken + s.signalling.card := by
  have hcovered := h.covered
  have hsum := sum_worth_le s
  unfold balance at hcovered
  omega

end CountInv

/-- No idle worker is overlooked when no failed test gives a worker back. The count and
the workers about to add themselves to it are at least as many as the idle workers, where
in the mutex section of the locator the one it has taken from the count is still to be
spent; and the target is blocked with an idle worker there only if a worker is about to
signal. -/
theorem idle_worker_counted
    (hreach : Transition.Reach (step cfg) (KeepsLocated cfg) (init cfg) s) :
    ((∀ i eof, s.pc ≠ .scan i eof) → s.idle.card ≤ s.available + s.signalling.card) ∧
    (∀ i eof, s.pc = .scan i eof → s.idle.card ≤ s.available + 1 + s.signalling.card) ∧
    (s.BlockedOnAny → s.idle.Nonempty → s.signalling.Nonempty) := by
  have hcard := (CountInv.of_reach hreach).idle_card_le
  refine ⟨?_, ?_, ?_⟩
  · intro hscan
    have htaken : s.pc.taken = 0 := by
      cases hpc : s.pc <;> first | rfl | exact absurd hpc (hscan _ _)
    simpa [htaken] using hcard
  · intro i eof hpc
    simpa [hpc, TargetPc.taken] using hcard
  · intro hblocked hidle
    obtain ⟨hpc, havailable⟩ := hblocked
    rw [hpc, havailable] at hcard
    rw [← Finset.card_pos] at hidle ⊢
    simp only [TargetPc.taken] at hcard
    omega

/-- A target with one worker. -/
def oneWorker (variant : Variant) : Config where
  variant := variant
  queueDepth := 1
  queueDepth_pos := Nat.one_pos
  interval := 1

/-- The only worker has finished its task and is about to signal when the target waits
for the next one. -/
theorem idle_worker_counted_oneWorker : ∃ s : State (oneWorker .normal),
    s.BlockedOnAny ∧ s.signalling.Nonempty := by
  obtain ⟨s, hreach, hblocked, hidle⟩ :
      ∃ s, Transition.Reach (step (oneWorker .normal)) (KeepsLocated (oneWorker .normal))
        (init (oneWorker .normal)) s ∧ s.BlockedOnAny ∧ s.idle.Nonempty :=
    Transition.exists_reach_of_run
      [.beginPass 2, .target, .target, .target, .tests .good, .target, .worker 0, .target,
        .target, .worker 0, .worker 0] (by decide +kernel)
  exact ⟨s, hblocked, (idle_worker_counted hreach).2.2 hblocked hidle⟩

/-- A time limit in a lockstep. The limit is met before the first operation of the
interval; the worker is given back without the count, and when the turn comes back the
target waits for ever: its worker is idle in its barrier and nothing can move. -/
theorem lockstep_limit_overlooks_idle_worker : ∃ s : State (oneWorker .lockstep),
    Transition.Reach (step (oneWorker .lockstep)) Transition.anyStep
        (init (oneWorker .lockstep)) s ∧
      s.available + s.signalling.card < s.idle.card ∧ s.BlockedOnAny ∧ s.idle.Nonempty ∧
      ¬ s.signalling.Nonempty ∧ (targetStep s).isNone = true ∧
      ∀ w, (workerStep s w).isNone = true :=
  Transition.exists_reach_of_run
    [.beginPass 2, .target, .target, .target, .target, .tests .limit, .target, .target, .target,
      .worker 0, .ring false, .target, .target] (by decide +kernel)

end Xdd.HandOff
