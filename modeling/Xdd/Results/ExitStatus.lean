import Xdd.Results.Run

/-!
# The exit status of a run

An I/O error reaches `main` only through `td_abort`: the error count of a target is a
statistic that nothing reads, and `tc_current_io_status` is set by end-of-file tasks
alone. With `-stoponerror` a failed I/O raises `td_abort`, which makes its target leave
the loop before the next pass resets it, and `xdd_process_run_results` turns it into an
abort of the run.
-/

namespace Xdd.Results

variable {cfg : Config}

/-- An I/O fails only in a run with `-stoponerror`. -/
def FailuresStop (cfg : Config) (s : State cfg) : Action cfg → Prop
  | .worker t a => (s.target t).ioFails a = true → cfg.stopOnError = true
  | _ => True

instance (cfg : Config) (s : State cfg) : (a : Action cfg) → Decidable (FailuresStop cfg s a)
  | .worker .. => inferInstanceAs (Decidable (_ → _))
  | .target _ | .release _ | .manager | .main | .raiseAbort | .cancel | .runTimeExpires =>
    isTrue trivial

/-- Every I/O of the target that has returned transferred what it was asked for. -/
def Target.AllWhole {Q : Nat} (target : Target Q) : Prop :=
  ∀ io ∈ target.ios, io.2 = io.1

/-- A target that stays here after its pass starts no other one. -/
def TargetPc.stopping : TargetPc → Bool
  | .pass | .endpass | .display | .testAbort | .lastStartpass | .lastEndpass | .lastDisplay
  | .waitforcleanup | .returned => true
  | _ => false

/-- A target cannot be anywhere else when the run results have been processed. -/
def TargetPc.afterRun : TargetPc → Bool
  | .display | .lastDisplay | .testAbort | .testRunTime | .testPasses | .startpass
  | .lastStartpass | .waitforcleanup | .returned => true
  | _ => false

/-- The manager has processed the run results and will release `main`. -/
def ManagerPc.afterRun : ManagerPc → Bool
  | .runDisplay | .waitforcleanup | .final => true
  | _ => false

/-- The manager has been through the endpass barrier and has not left the display barrier. -/
def ManagerPc.displaying : ManagerPc → Bool
  | .checkAbort | .checkComplete | .display | .runDisplay | .abortDisplay => true
  | _ => false

/-- What holds of a target, given the manager and the flags of the run. -/
structure TargetOk (manager : ManagerPc) (canceled abort : Bool) {Q : Nat} (target : Target Q) :
    Prop where
  busy : ∀ w, target.worker w ≠ .idle → target.pc = .pass ∨ canceled = true
  displaying : manager.displaying = true → target.pc = .display ∨ target.pc = .lastDisplay
  afterRun : manager.afterRun = true → target.pc.afterRun = true
  failed : ¬ target.AllWhole →
    canceled = true ∨ abort = true ∨ target.abort = true ∧ target.pc.stopping = true
  reported : manager.afterRun = true → ¬ target.AllWhole → canceled = true ∨ abort = true

structure StatusInv (s : State cfg) : Prop where
  targets : ∀ t, TargetOk s.manager s.canceled s.abort (s.target t)
  verdict : s.outcome = some .success →
    s.manager = .final ∧ s.canceled = false ∧ s.abort = false

namespace TargetOk

variable {manager : ManagerPc} {canceled abort : Bool} {Q : Nat} {target target' : Target Q}

/-- A whole I/O leaves a record of whole I/Os whole. -/
theorem allWhole_append {xferSize : Nat} {status : Int} (h : target.AllWhole)
    (hios : target'.ios = target.ios ++ [(xferSize, status)]) (hstatus : status = xferSize) :
    target'.AllWhole := by
  intro io hio
  rw [hios] at hio
  rcases List.mem_append.mp hio with hold | hnew
  · exact h io hold
  · obtain rfl := List.mem_singleton.mp hnew
    exact hstatus

/-- A worker turns to its next task or becomes idle. -/
theorem setWorker (h : TargetOk manager canceled abort target) {w : Fin Q} {state : Worker}
    (hw : state = .idle ∨ target.pc = .pass ∨ canceled = true) :
    ∀ v, Function.update target.worker w state v ≠ .idle →
      target.pc = .pass ∨ canceled = true := by
  intro v hv
  by_cases hvw : v = w
  · subst hvw
    rw [Function.update_self] at hv
    exact hw.resolve_left hv
  · rw [Function.update_of_ne hvw] at hv
    exact h.busy v hv

theorem work (h : TargetOk manager canceled abort target) {stopOnError stop : Bool}
    {a : WorkerAction Q} (hfails : target.ioFails a = true → stopOnError = true)
    (hs : target.work stopOnError stop a = some target') :
    TargetOk manager canceled abort target' := by
  cases a with
  | assign w task =>
      simp only [Target.work] at hs
      split at hs <;> cases hs
      rename_i hassign
      exact ⟨h.setWorker (.inr (.inl hassign.1)), h.displaying, h.afterRun, h.failed, h.reported⟩
  | startIo w =>
      simp only [Target.work] at hs
      split at hs
      · rename_i hw
        have hin := h.busy w (by simp [hw])
        split at hs <;> cases hs
        · exact ⟨h.setWorker (.inl rfl), h.displaying, h.afterRun, h.failed, h.reported⟩
        · exact ⟨h.setWorker (.inr hin), h.displaying, h.afterRun, h.failed, h.reported⟩
      · cases hs
  | finishIo w status =>
      simp only [Target.work] at hs
      split at hs
      · rename_i xferSize hw
        split at hs <;> cases hs
        · rename_i hstatus
          refine ⟨h.setWorker (.inl rfl), h.displaying, h.afterRun, fun hno => h.failed ?_,
            fun hm hno => h.reported hm ?_⟩
          · exact fun hall => hno (allWhole_append hall rfl hstatus)
          · exact fun hall => hno (allWhole_append hall rfl hstatus)
        · -- a failed I/O of a target in its pass raises its abort; any other is canceled
          rename_i hstatus
          have hstop : stopOnError = true := hfails (by simpa [Target.ioFails, hw] using hstatus)
          have hin := h.busy w (by simp [hw])
          refine ⟨h.setWorker (.inl rfl), h.displaying, h.afterRun, ?_, ?_⟩
          · intro _
            rcases hin with hpc | hcanceled
            · exact .inr (.inr ⟨by simp [hstop], by simp [hpc, TargetPc.stopping]⟩)
            · exact .inl hcanceled
          · intro hm _
            rcases hin with hpc | hcanceled
            · have hafter := h.afterRun hm
              simp [hpc, TargetPc.afterRun] at hafter
            · exact .inl hcanceled
      · cases hs
  | finishEof w status =>
      simp only [Target.work] at hs
      split at hs <;> cases hs
      exact ⟨h.setWorker (.inl rfl), h.displaying, h.afterRun, h.failed, h.reported⟩

/-- The target thread moves on. -/
theorem move (h : TargetOk manager canceled abort target) {pc : TargetPc}
    (passNumber completed : Nat)
    (hin : target.pc.barrier = none)
    (hbusy : target.pc = .pass → (∀ w, target.worker w = .idle) ∨ canceled = true)
    (hafter : target.pc.afterRun = true → pc.afterRun = true)
    (hstop : target.abort = true → target.pc.stopping = true → pc.stopping = true) :
    TargetOk manager canceled abort
      { target with pc := pc, passNumber := passNumber, completed := completed } := by
  refine ⟨?_, ?_, fun hm => hafter (h.afterRun hm), ?_, h.reported⟩
  · intro w hw
    rcases h.busy w hw with hpc | hcanceled
    · exact .inr ((hbusy hpc).resolve_left fun hidle => hw (hidle w))
    · exact .inr hcanceled
  · intro hm
    rcases h.displaying hm with hpc | hpc <;> simp [hpc, TargetPc.barrier] at hin
  · intro hno
    rcases h.failed hno with hcanceled | habort | ⟨htarget, hpc⟩
    · exact .inl hcanceled
    · exact .inr (.inl habort)
    · exact .inr (.inr ⟨htarget, hstop htarget hpc⟩)

/-- A target that starts a pass has not failed before, or the run is stopped anyway. -/
theorem beforePass (h : TargetOk manager canceled abort target) (hpc : target.pc = .checkComplete) :
    TargetOk manager canceled abort target.beforePass := by
  refine ⟨fun _ _ => .inl rfl, ?_, ?_, ?_, h.reported⟩
  · intro hm
    have hdisplay := h.displaying hm
    simp [hpc] at hdisplay
  · intro hm
    have hafter := h.afterRun hm
    simp [hpc, TargetPc.afterRun] at hafter
  · intro hno
    rcases h.failed hno with hcanceled | habort | ⟨-, hstopping⟩
    · exact .inl hcanceled
    · exact .inr (.inl habort)
    · simp [hpc, TargetPc.stopping] at hstopping

/-- Flags of the run are only ever raised. -/
theorem raise (h : TargetOk manager canceled abort target) {canceled' abort' : Bool}
    (hcanceled : canceled = true → canceled' = true) (habort : abort = true → abort' = true) :
    TargetOk manager canceled' abort' target := by
  refine ⟨fun w hw => (h.busy w hw).imp_right hcanceled, h.displaying, h.afterRun, ?_,
    fun hm hno => (h.reported hm hno).imp hcanceled habort⟩
  intro hno
  exact (h.failed hno).imp hcanceled (Or.imp_left habort)

end TargetOk

variable {s s' : State cfg} {t : Fin cfg.targets}

namespace StatusInv

theorem init (cfg : Config) : StatusInv (init cfg) where
  targets _ := ⟨fun _ hw => absurd rfl hw, nofun, nofun, fun hno => absurd nofun hno, nofun⟩
  verdict := nofun

/-- One target changes. -/
theorem setTarget (h : StatusInv s) {target : Target (cfg.queueDepth t)}
    (ht : TargetOk s.manager s.canceled s.abort target) : StatusInv (s.setTarget t target) :=
  ⟨State.forall_setTarget (fun _ => TargetOk s.manager s.canceled s.abort) ht
    fun u _ => h.targets u, h.verdict⟩

theorem leave (h : StatusInv s) (hleaves : Leaves s t) : StatusInv (leaveLoop s t) := by
  unfold leaveLoop
  split
  · exact ⟨h.targets, nofun⟩
  · have hpc : (s.target t).pc = .testAbort ∨ (s.target t).pc = .testRunTime ∨
        (s.target t).pc = .testPasses := by
      cases hp : (s.target t).pc <;> simp [Leaves, hp] at hleaves ⊢
    have hmoved : TargetOk s.manager s.canceled s.abort
        { s.target t with pc := .lastStartpass } := by
      refine (h.targets t).move _ _ ?_ ?_ (fun _ => rfl) fun _ _ => rfl
      · rcases hpc with hp | hp | hp <;> simp [hp, TargetPc.barrier]
      · rcases hpc with hp | hp | hp <;> simp [hp]
    exact ⟨(h.setTarget hmoved).targets, h.verdict⟩

theorem target (h : StatusInv s) (hs : TargetStep s t s') : StatusInv s' := by
  have ht := h.targets t
  cases hs with
  | abortSeen hpc | abortClear hpc | completeSeen hpc =>
      exact h.setTarget (ht.move _ _ (by simp [hpc, TargetPc.barrier]) (by simp [hpc])
        (by simp [hpc, TargetPc.afterRun]) (by simp [hpc, TargetPc.stopping]))
  | begin hpc => exact h.setTarget (ht.beforePass hpc)
  | quit hpc _ hcanceled =>
      exact h.setTarget (ht.move _ _ (by simp [hpc, TargetPc.barrier]) (fun _ => .inr hcanceled)
        (fun _ => rfl) fun _ _ => rfl)
  | cutShort hpc hcanceled =>
      exact h.setTarget (ht.move _ _ (by simp [hpc, TargetPc.barrier]) (fun _ => .inr hcanceled)
        (by simp [hpc, TargetPc.afterRun]) fun _ _ => rfl)
  | finish errno hpc hidle =>
      have hmoved : TargetOk s.manager s.canceled s.abort { s.target t with
          pc := .endpass, completed := (s.target t).completed + 1 } :=
        ht.move _ _ (by simp [hpc, TargetPc.barrier]) (fun _ => .inl hidle)
          (by simp [hpc, TargetPc.afterRun]) fun _ _ => rfl
      exact ⟨(h.setTarget hmoved).targets, h.verdict⟩
  | leave hleaves => exact h.leave hleaves
  | noAbort hpc _ _ hno =>
      exact h.setTarget (ht.move _ _ (by simp [hpc, TargetPc.barrier]) (by simp [hpc])
        (fun _ => rfl) (by simp [hno]))
  | runTime passes hpc =>
      have hmoved : TargetOk s.manager s.canceled s.abort { s.target t with pc := .testPasses } :=
        ht.move _ _ (by simp [hpc, TargetPc.barrier]) (by simp [hpc]) (fun _ => rfl)
          (by simp [hpc, TargetPc.stopping])
      exact ⟨(h.setTarget hmoved).targets, h.verdict⟩
  | goOn hgoes =>
      exact h.setTarget (ht.move _ _ (by simp [hgoes.1, TargetPc.barrier]) (by simp [hgoes.1])
        (fun _ => rfl) (by simp [hgoes.1, TargetPc.stopping]))

/-- All threads leave a barrier together. -/
theorem release (h : StatusInv s) (hrunning : s.outcome = none) {b : Barrier}
    (hfull : entered s b = cfg.targets + 1) : StatusInv (Results.release s b) := by
  obtain ⟨htargets, hmanager⟩ := (entered_eq_iff s b).mp hfull
  have hnew : (Results.release s b).manager = s.manager.released := if_pos hmanager
  refine ⟨?_, fun hout => by simp [Results.release, hrunning] at hout⟩
  intro t
  have ht := h.targets t
  have hin := htargets t
  have htarget : (Results.release s b).target t =
      { s.target t with pc := (s.target t).pc.released } := if_pos hin
  rw [hnew, htarget]
  refine ⟨?_, ?_, ?_, ?_, ?_⟩
  · intro w hw
    refine .inr ((ht.busy w hw).resolve_left fun hpc => ?_)
    simp [hpc, TargetPc.barrier] at hin
  · intro hd
    -- the endpass barrier is the one before the display
    have hb : b = .endpass := by
      cases hm : s.manager <;>
        simp_all [ManagerPc.released, ManagerPc.displaying, ManagerPc.barrier]
    subst hb
    cases hpc : (s.target t).pc <;> simp_all [TargetPc.barrier, TargetPc.released]
  · intro hd
    cases hm : s.manager <;> simp [hm, ManagerPc.released, ManagerPc.afterRun,
      ManagerPc.barrier] at hd hmanager
    · have hwas := ht.displaying (by simp [hm, ManagerPc.displaying])
      rcases hwas with hpc | hpc <;> simp [hpc, TargetPc.released, TargetPc.afterRun]
    · subst hmanager
      cases hpc : (s.target t).pc <;>
        simp_all [TargetPc.barrier, TargetPc.released, TargetPc.afterRun]
  · intro hno
    rcases ht.failed hno with hcanceled | habort | ⟨habort, hstopping⟩
    · exact .inl hcanceled
    · exact .inr (.inl habort)
    · refine .inr (.inr ⟨habort, ?_⟩)
      cases hpc : (s.target t).pc <;> simp_all [TargetPc.stopping, TargetPc.released]
  · intro hd hno
    refine ht.reported ?_ hno
    cases hm : s.manager <;>
      simp_all [ManagerPc.released, ManagerPc.afterRun, ManagerPc.barrier]

/-- The manager turns the aborts of the targets into one of the run. -/
theorem processRun (h : StatusInv s) (hrunning : s.outcome = none) {manager : ManagerPc}
    (hm : s.manager = .checkAbort ∨ s.manager = .checkComplete) :
    StatusInv { processRunResults s with manager := manager } := by
  refine ⟨?_, fun hout => by simp [processRunResults, hrunning] at hout⟩
  intro t
  have ht := h.targets t
  have hdisplay := ht.displaying (by rcases hm with hm | hm <;> simp [hm, ManagerPc.displaying])
  have hreported : ¬ (s.target t).AllWhole →
      s.canceled = true ∨ (processRunResults s).abort = true := by
    intro hno
    rcases ht.failed hno with hcanceled | habort | ⟨habort, -⟩
    · exact .inl hcanceled
    · exact .inr (by simp [processRunResults, habort])
    · exact .inr (by simpa [processRunResults] using .inr ⟨t, habort⟩)
  refine ⟨ht.busy, fun _ => hdisplay, ?_, ?_, fun _ => hreported⟩
  · intro _
    rcases hdisplay with hpc | hpc <;> simp [processRunResults, hpc, TargetPc.afterRun]
  · intro hno
    exact (hreported hno).imp_right .inl

theorem step (h : StatusInv s) (hrunning : s.outcome = none) {a : Action cfg}
    (hok : FailuresStop cfg s a) (hs : Step cfg s a s') : StatusInv s' := by
  cases hs with
  | worker hwork => exact h.setTarget ((h.targets _).work hok hwork)
  | target hstep => exact h.target hstep
  | release hfull => exact h.release hrunning hfull
  | abortDisplay hm => exact h.processRun hrunning (.inl hm)
  | abortClear hm =>
      refine ⟨?_, fun hout => by simp [hrunning] at hout⟩
      intro t
      have ht := h.targets t
      exact ⟨ht.busy, fun _ => ht.displaying (by simp [hm, ManagerPc.displaying]), nofun, ht.failed,
        nofun⟩
  | runDisplay hm => exact h.processRun hrunning (.inr hm)
  | display hm =>
      refine ⟨?_, fun hout => by simp [processPassResults, hrunning] at hout⟩
      intro t
      have ht := h.targets t
      exact ⟨ht.busy, fun _ => ht.displaying (by simp [hm, ManagerPc.displaying]), nofun, ht.failed,
        nofun⟩
  | main hm =>
      refine ⟨h.targets, fun hout => ⟨hm, ?_⟩⟩
      have hvalue : mainValue s = .success := Option.some.inj hout
      unfold mainValue at hvalue
      cases hcanceled : s.canceled <;> cases habort : s.abort <;> simp_all
  | raiseAbort =>
      exact ⟨fun t => (h.targets t).raise id fun _ => rfl, fun hout => by simp [hrunning] at hout⟩
  | cancel =>
      exact ⟨fun t => (h.targets t).raise (fun _ => rfl) id, fun hout => by simp [hrunning] at hout⟩
  | runTimeExpires => exact ⟨h.targets, h.verdict⟩

theorem of_reach
    (hreach : Transition.Reach (Results.step cfg) (FailuresStop cfg) (Results.init cfg) s) :
    StatusInv s :=
  hreach.invariant (StatusInv.init cfg) fun _ _ _ h hok hstep =>
    h.step (Step.of_eq_some hstep).1 hok (Step.of_eq_some hstep).2

end StatusInv

/-- If I/Os fail only in runs with `-stoponerror`, `main` returns success only when every
I/O of every target has returned its transfer size and none is still in progress. -/
theorem success_only_if_whole
    (hreach : Transition.Reach (step cfg) (FailuresStop cfg) (init cfg) s)
    (hsuccess : s.outcome = some .success) (t : Fin cfg.targets) :
    (s.target t).AllWhole ∧ ∀ w, (s.target t).worker w = .idle := by
  have h := StatusInv.of_reach hreach
  have ht := h.targets t
  obtain ⟨hm, hcanceled, habort⟩ := h.verdict hsuccess
  have hfinal : s.manager.afterRun = true := by simp [hm, ManagerPc.afterRun]
  constructor
  · by_contra hno
    have := ht.reported hfinal hno
    simp [hcanceled, habort] at this
  · intro w
    by_contra hw
    have hafter := ht.afterRun hfinal
    rcases ht.busy w hw with hpc | hstop
    · simp [hpc, TargetPc.afterRun] at hafter
    · simp [hcanceled] at hstop

/-- One target with one worker and one pass. -/
abbrev singleTarget (stopOnError : Bool) : Config where
  targets := 1
  queueDepth := fun _ => 1
  passes := 1
  runTime := false
  endToEnd := fun _ => false
  stopOnError := stopOnError

/-- A run with one I/O of four bytes that returns this status. -/
def singleIo (stopOnError : Bool) (status : Int) : List (Action (singleTarget stopOnError)) :=
  [.release .startpass, .target 0, .target 0, .worker 0 (.assign 0 (.io 4)),
    .worker 0 (.startIo 0), .worker 0 (.finishIo 0 status), .target 0, .release .endpass,
    .manager, .manager, .release .display, .target 0, .target 0, .target 0,
    .release .startpass, .release .endpass, .manager, .manager, .release .display,
    .release .waitforcleanup, .main]

theorem success_only_if_whole_singleIo : ∃ s : State (singleTarget true),
    s.outcome = some .success ∧ (s.target 0).ios = [(4, 4)] ∧ (s.target 0).AllWhole := by
  obtain ⟨s, hreach, hsuccess, hios⟩ :
      ∃ s, Transition.Reach (step (singleTarget true)) (FailuresStop (singleTarget true))
        (init (singleTarget true)) s ∧ s.outcome = some .success ∧ (s.target 0).ios = [(4, 4)] :=
    Transition.exists_reach_of_run (singleIo true 4) (by decide +kernel)
  exact ⟨s, hsuccess, hios, (success_only_if_whole hreach hsuccess 0).1⟩

/-- Without `-stoponerror` a run whose only I/O failed ends with success. -/
theorem success_despite_failure : ∃ s : State (singleTarget false),
    Transition.Reach (step (singleTarget false)) Transition.anyStep (init (singleTarget false)) s ∧
      s.outcome = some .success ∧ ¬ (s.target 0).AllWhole := by
  obtain ⟨s, hreach, hsuccess, hios⟩ :
      ∃ s, Transition.Reach (step (singleTarget false)) Transition.anyStep
        (init (singleTarget false)) s ∧ s.outcome = some .success ∧
          (s.target 0).ios = [(4, -1)] :=
    Transition.exists_reach_of_run (singleIo false (-1)) (by decide +kernel)
  refine ⟨s, hreach, hsuccess, ?_⟩
  intro hall
  have hwhole := hall (4, -1) (by simp [hios])
  simp at hwhole

end Xdd.Results
