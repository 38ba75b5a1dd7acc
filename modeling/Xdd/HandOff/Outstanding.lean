import Xdd.HandOff.Available

/-!
# A busy worker has work outstanding

A worker is marked busy when it is located, before the tests that may abandon the
operation. The target waits for a specific worker only if the flag is set, and it waits
for the worker to clear it, so a flag that is set must belong to a task the worker was
released with. Cleanup is left out: it does not wait for flags.
-/

namespace Xdd.HandOff

variable {cfg : Config} {Q : Nat}

/-- The target is in `xdd_get_specific_worker_thread` for the worker. -/
def TargetPc.WaitsFor : TargetPc Q → Fin Q → Prop
  | .eofGet q, w | .collect _ q, w => q = w.val
  | _, _ => False

/-- No time or run limit takes effect at a test of the loop of an end-to-end source. -/
def NoSourceLimit (cfg : Config) (_ : State cfg) : Action cfg → Prop
  | .tests .limit => cfg.variant ≠ .endToEndSource
  | _ => True

instance (cfg : Config) (s : State cfg) : (a : Action cfg) → Decidable (NoSourceLimit cfg s a)
  | .tests .limit => inferInstanceAs (Decidable (cfg.variant ≠ .endToEndSource))
  | .tests .abort | .tests .good => isTrue trivial
  | .worker _ | .receiveEof _ | .target | .ring _ | .beginPass _ | .beginCleanup | .cancel =>
    isTrue trivial

/-- A busy worker executes a task or is in the hands of the target, except during cleanup;
and only cleanup tells a worker to stop. -/
structure BusyOk (pc : TargetPc Q) (w : Fin Q) (worker : Worker) : Prop where
  busy : worker.busy = true → worker.executing = true ∨ pc.Holds w ∨ pc.cleaning = true
  stop : worker.task.request = .stop → pc.cleaning = true

def BusyInv (s : State cfg) : Prop :=
  ∀ w, BusyOk s.pc w (s.worker w)

variable {s s' : State cfg} {w : Fin cfg.queueDepth}

/-- The target lets no worker go and does not come back from cleanup. -/
theorem BusyOk.goto {pc pc' : TargetPc Q} {w : Fin Q} {worker : Worker}
    (h : BusyOk pc w worker) (hholds : pc.Holds w → pc'.Holds w)
    (hclean : pc.cleaning = true → pc'.cleaning = true) : BusyOk pc' w worker :=
  ⟨fun hb => (h.busy hb).imp_right (Or.imp hholds hclean), fun hs => hclean (h.stop hs)⟩

namespace BusyInv

theorem init (cfg : Config) : BusyInv (init cfg) := by
  intro w
  constructor <;> intro h <;> cases h

theorem setWorker (h : BusyInv s) {worker : Worker} (hw : BusyOk s.pc w worker) :
    BusyInv (s.setWorker w worker) :=
  State.forall_setWorker (BusyOk s.pc) hw fun u _ => h u

/-- The target moves and leaves the workers alone. -/
theorem goto (h : BusyInv s) (hworker : s'.worker = s.worker)
    (hholds : ∀ w, s.pc.Holds w → s'.pc.Holds w)
    (hclean : s.pc.cleaning = true → s'.pc.cleaning = true) : BusyInv s' := by
  intro w
  rw [hworker]
  exact (h w).goto (hholds w) hclean

/-- The target changes worker `w` and moves. -/
theorem setWorker_goto (h : BusyInv s) {worker : Worker} {pc : TargetPc cfg.queueDepth}
    (hw : BusyOk pc w worker) (hholds : ∀ u, u ≠ w → s.pc.Holds u → pc.Holds u)
    (hclean : s.pc.cleaning = true → pc.cleaning = true) :
    BusyInv { s.setWorker w worker with pc := pc } :=
  State.forall_setWorker (BusyOk pc) hw fun u hu => (h u).goto (hholds u hu) hclean

/-- A target that holds no worker and is not in its cleanup may go anywhere. -/
theorem move (h : BusyInv s) (hworker : s'.worker = s.worker) (hold : s.pc.free = true) :
    BusyInv s' :=
  h.goto hworker (fun w hw => absurd hw (TargetPc.not_holds_of_free hold w))
    (by simp [TargetPc.cleaning_of_free hold])

theorem afterLoop (h : BusyInv s) (hold : s.pc.free = true) : BusyInv (afterLoop s) := by
  unfold HandOff.afterLoop
  split
  · exact h.move rfl hold
  · split
    · exact h.move rfl hold
    · exact h.move rfl hold

/-- The target takes worker `w`. -/
theorem take (h : BusyInv s) {pc : TargetPc cfg.queueDepth} (hold : s.pc.free = true)
    (hholds : pc.Holds w) : BusyInv { s.setBusy w true with pc := pc } := by
  have hclean := TargetPc.cleaning_of_free hold
  refine h.setWorker_goto ⟨fun _ => .inr (.inl hholds), ?_⟩ ?_ (by simp [hclean])
  · intro hs
    simpa [hclean] using (h w).stop hs
  · exact fun u _ hh => absurd hh (TargetPc.not_holds_of_free hold u)

/-- The target gives worker `w` back. -/
theorem drop (h : BusyInv s) (pc : TargetPc cfg.queueDepth)
    (hholds : ∀ u, s.pc.Holds u ↔ u = w) : BusyInv { s.setBusy w false with pc := pc } := by
  have hclean := TargetPc.cleaning_of_holds ((hholds w).mpr rfl)
  refine h.setWorker_goto ⟨?_, ?_⟩ (fun u hu hh => absurd ((hholds u).mp hh) hu) (by simp [hclean])
  · intro hb
    cases hb
  · intro hs
    simpa [hclean] using (h w).stop hs

/-- The target gives the worker back that it has located, and leaves its loop. -/
theorem afterLoop_drop (h : BusyInv s) (hpc : s.pc = .located w) :
    BusyInv (HandOff.afterLoop (s.setBusy w false)) := by
  have hdropped : BusyInv { s.setBusy w false with pc := .loopTop } :=
    h.drop _ (by simp [hpc, TargetPc.Holds, eq_comm])
  have hafter := hdropped.afterLoop rfl
  unfold HandOff.afterLoop at hafter ⊢
  exact hafter

theorem writeTask (h : BusyInv s) {pc : TargetPc cfg.queueDepth} {request : Request}
    (hholds : ∀ u, s.pc.Holds u → pc.Holds u)
    (hclean : s.pc.cleaning = true → pc.cleaning = true)
    (hstop : request = .stop → pc.cleaning = true) :
    BusyInv { writeTask s w request with pc := pc } :=
  h.setWorker_goto ⟨((h w).goto (hholds w) hclean).busy, hstop⟩ (fun u _ => hholds u) hclean

theorem release (h : BusyInv s) {pc : TargetPc cfg.queueDepth}
    (honly : ∀ u, s.pc.Holds u → u = w) (hclean : s.pc.cleaning = true → pc.cleaning = true) :
    BusyInv { s.release w with pc := pc } :=
  h.setWorker_goto ⟨fun _ => .inl rfl, fun hs => hclean ((h w).stop hs)⟩
    (fun u hu hh => absurd (honly u hh) hu) hclean

theorem step (h : BusyInv s) {a : Action cfg} (hok : NoSourceLimit cfg s a)
    (hs : Step cfg s a s') : BusyInv s' := by
  cases hs with
  | @arrive w hpc =>
      refine h.setWorker ⟨?_, (h w).stop⟩
      intro hb
      simpa [Worker.executing, hpc] using (h w).busy hb
  | @start w _ _ => exact h.setWorker ⟨fun _ => .inl rfl, (h w).stop⟩
  | @stop w _ hrequest =>
      -- told to stop, so the target is in its cleanup
      exact h.setWorker ⟨fun _ => .inr (.inr ((h w).stop hrequest)), (h w).stop⟩
  | @finish w _ _ =>
      refine h.setWorker ⟨?_, (h w).stop⟩
      intro hb
      cases hb
  | @signal w hpc _ =>
      refine h.setWorker ⟨?_, (h w).stop⟩
      intro hb
      simpa [Worker.executing, hpc] using (h w).busy hb
  | @receiveEof w _ _ _ => exact h.setWorker ⟨(h w).busy, (h w).stop⟩
  | leaveLoop hpc => exact h.afterLoop (by rcases hpc with hpc | hpc <;> rw [hpc] <;> rfl)
  | interval hpc => exact h.move rfl (by rw [hpc]; rfl)
  | await hpc => exact h.move rfl (by rw [hpc]; rfl)
  | endInterval hpc => exact h.move rfl (by rw [hpc]; rfl)
  | takeAny hpc _ => exact h.move rfl (by rw [hpc]; rfl)
  | scanBusy hpc _ => exact h.move rfl (by rw [hpc]; rfl)
  | scanEof hpc _ _ _ => exact h.move rfl (by rw [hpc]; rfl)
  | scanAllEof hpc _ _ _ => exact h.afterLoop (by rw [hpc]; rfl)
  | locate hpc _ _ => exact h.take (by rw [hpc]; rfl) rfl
  | scanEnd hpc _ => exact h.move rfl (by rw [hpc]; rfl)
  | @setUp w hpc =>
      have hwritten : BusyInv { HandOff.writeTask s w .io with pc := .release w } :=
        h.writeTask (by simp [hpc, TargetPc.Holds]) (by simp [hpc, TargetPc.cleaning]) (by simp)
      exact hwritten
  | release hpc _ =>
      exact h.release (by simp [hpc, TargetPc.Holds, eq_comm]) (by simp [hpc, TargetPc.cleaning])
  | eofTake hpc _ => exact h.take (by rw [hpc]; rfl) rfl
  | eofEnd hpc _ => exact h.move rfl (by rw [hpc]; rfl)
  | eofSetUp hpc =>
      exact h.writeTask (by simp [hpc, TargetPc.Holds]) (by simp [hpc, TargetPc.cleaning]) (by simp)
  | eofRelease hpc _ =>
      exact h.release (by simp [hpc, TargetPc.Holds, eq_comm]) (by simp [hpc, TargetPc.cleaning])
  | collect hpc _ => exact h.take (by rw [hpc]; rfl) rfl
  | @collected c q hpc _ =>
      cases c with
      | interval => exact h.move rfl (by rw [hpc]; rfl)
      | pass => exact h.move rfl (by rw [hpc]; rfl)
  | clear hpc => exact h.drop _ (by simp [hpc, TargetPc.Holds, eq_comm])
  | @clearCount w hpc =>
      have hcleared : BusyInv { s.setBusy w false with pc := .collect .pass (w.val + 1) } :=
        h.drop _ (by simp [hpc, TargetPc.Holds, eq_comm])
      exact hcleared
  | clearCanceled hpc _ => exact h.drop _ (by simp [hpc, TargetPc.Holds, eq_comm])
  | cleanup hpc => exact h.writeTask (by simp [hpc, TargetPc.Holds]) (fun _ => rfl) fun _ => rfl
  | cleaned hpc _ => exact h.goto rfl (by simp [hpc, TargetPc.Holds]) fun _ => rfl
  | cleanupRelease hpc _ => exact h.release (by simp [hpc, TargetPc.Holds]) fun _ => rfl
  | good hpc =>
      exact h.goto rfl (by simp [hpc, TargetPc.Holds]) (by simp [hpc, TargetPc.cleaning])
  | giveBack hpc _ _ => exact h.afterLoop_drop hpc
  | giveBackTurn hpc _ _ => exact h.drop _ (by simp [hpc, TargetPc.Holds, eq_comm])
  | keepBusy _ hvariant => exact absurd hvariant hok
  | ring hpc => exact h.move rfl (by rw [hpc]; rfl)
  | beginPass hpc _ => exact h.move rfl (by rw [hpc]; rfl)
  | beginCleanup hpc => exact h.move rfl (by rw [hpc]; rfl)
  | cancel => exact h

theorem of_reach
    (hreach : Transition.Reach (HandOff.step cfg) (NoSourceLimit cfg) (HandOff.init cfg) s) :
    BusyInv s :=
  hreach.invariant (BusyInv.init cfg) fun _ _ _ h hok hstep => h.step hok (.of_eq_some hstep)

end BusyInv

/-- The target never waits for a worker that has nothing to do: when no limit takes effect
in the loop of an end-to-end source, a worker it waits for is not busy or was released
with a task that it has not finished. -/
theorem awaited_worker_outstanding
    (hreach : Transition.Reach (step cfg) (NoSourceLimit cfg) (init cfg) s)
    (hwaits : s.pc.WaitsFor w) :
    (s.worker w).busy = false ∨ (s.worker w).executing = true := by
  have hbusy := (BusyInv.of_reach hreach w).busy
  by_cases hb : (s.worker w).busy = true
  · right
    cases hpc : s.pc <;> simp only [hpc, TargetPc.WaitsFor] at hwaits <;>
      simpa [hpc, TargetPc.Holds, TargetPc.cleaning] using hbusy hb
  · left
    exact Bool.eq_false_of_not_eq_true hb

/-- The end of a pass of one operation: the worker was just released. -/
theorem awaited_worker_outstanding_oneWorker : ∃ s : State (oneWorker .normal),
    s.pc.WaitsFor 0 ∧ (s.worker 0).executing = true := by
  obtain ⟨s, hreach, hpc, hbusy⟩ :
      ∃ s, Transition.Reach (step (oneWorker .normal)) (NoSourceLimit (oneWorker .normal))
        (init (oneWorker .normal)) s ∧ s.pc = .collect .pass 0 ∧ (s.worker 0).busy = true :=
    Transition.exists_reach_of_run
      [.beginPass 1, .target, .target, .target, .tests .good, .target, .worker 0, .target,
        .target] (by decide +kernel)
  have hwaits : s.pc.WaitsFor 0 := by
    rw [hpc]
    rfl
  refine ⟨s, hwaits, ?_⟩
  rcases awaited_worker_outstanding hreach hwaits with hb | he
  · simp [hbusy] at hb
  · exact he

/-- A limit in the loop of an end-to-end source leaves the located worker busy. The target
waits to give it its end-of-file task, but it was never given any task and stays in its
barrier. -/
theorem source_limit_awaits_unreleased_worker : ∃ s : State (oneWorker .endToEndSource),
    Transition.Reach (step (oneWorker .endToEndSource)) Transition.anyStep
        (init (oneWorker .endToEndSource)) s ∧
      s.pc = .eofGet 0 ∧ (s.worker 0).busy = true ∧ (s.worker 0).executing = false ∧
      (s.worker 0).released = [] ∧ (targetStep s).isNone = true ∧
      (workerStep s 0).isNone = true :=
  Transition.exists_reach_of_run
    [.beginPass 1, .target, .target, .target, .tests .limit, .worker 0] (by decide +kernel)

end Xdd.HandOff
