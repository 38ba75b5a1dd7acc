import Xdd.Results.Run

/-!
# Rounds of the pass barriers

The barriers keep targets and manager in step only as long as the targets agree: when
one target leaves its loop after a pass and another one goes on, the first enters the
startpass barrier for the last time and the second finds `run_complete` set, returns
without going through the endpass barrier and is missed there by everyone else. An
abort makes the manager return before the targets have gone through their last
barriers. In every other run nobody waits for a thread that does not come.
-/

namespace Xdd.Results

variable {cfg : Config}

/-- The manager has made its last test of `abort`. -/
def LastCheckMade (s : State cfg) : Prop :=
  s.manager = .checkComplete ∧ s.runComplete = true ∨ s.manager = .runDisplay ∨
    s.manager = .waitforcleanup ∨ s.manager = .final

instance (s : State cfg) : Decidable (LastCheckMade s) :=
  inferInstanceAs (Decidable (_ ∨ _))

/-- The steps of a run in which the targets agree after each pass and no abort is raised
while the manager still looks for one. -/
def Agreed (cfg : Config) (s : State cfg) : Action cfg → Prop
  | .target t => (Leaves s t → ∀ u, (s.target u).pc ≠ .startpass) ∧
      (GoesOn s t → ∀ u, (s.target u).pc ≠ .lastStartpass)
  | .raiseAbort => LastCheckMade s
  | _ => True

instance (cfg : Config) (s : State cfg) : (a : Action cfg) → Decidable (Agreed cfg s a)
  | .target _ => inferInstanceAs (Decidable ((_ → _) ∧ (_ → _)))
  | .raiseAbort => inferInstanceAs (Decidable (LastCheckMade s))
  | .worker .. | .release _ | .manager | .main | .cancel | .runTimeExpires => isTrue trivial

/-- Every thread that has not returned is in a barrier, and no barrier is full. -/
def Wedged (s : State cfg) : Prop :=
  s.outcome = none ∧
  ¬ ((∀ t, (s.target t).pc = .returned) ∧ (s.manager = .final ∨ s.manager = .returned)) ∧
  (∀ t, (s.target t).pc = .returned ∨ (s.target t).pc.barrier.isSome = true) ∧
  (s.manager = .final ∨ s.manager = .returned ∨ s.manager.barrier.isSome = true) ∧
  ∀ b, entered s b ≠ cfg.targets + 1

instance (s : State cfg) : Decidable (Wedged s) :=
  inferInstanceAs (Decidable (_ ∧ _))

/-- What a target can be doing, given where the manager is and how many passes it has
processed. -/
def Expected (s : State cfg) (t : Fin cfg.targets) : Prop :=
  let target := s.target t
  let n := s.processed.length
  match s.manager with
  | .startpass =>
    (target.pc = .startpass ∧ target.passNumber = n + 1 ∨
      (target.pc = .testAbort ∨ target.pc = .testRunTime ∨ target.pc = .testPasses ∨
        target.pc = .lastStartpass) ∧ target.passNumber = n) ∧ target.completed = n
  | .endpass =>
    if s.runComplete then
      target.pc = .lastEndpass ∧ target.completed = n
    else
      target.passNumber = n + 1 ∧
        (target.pc = .endpass ∧ target.completed = n + 1 ∨
          (target.pc = .checkAbort ∨ target.pc = .checkComplete ∨ target.pc = .pass ∨
            target.pc = .testAbort ∧ cfg.endToEnd t = true ∧ s.canceled = true) ∧
          target.completed = n)
  | .checkAbort | .checkComplete =>
    if s.runComplete then
      target.pc = .lastDisplay ∧ target.completed = n
    else
      target.pc = .display ∧ target.passNumber = n + 1 ∧ target.completed = n + 1
  | .display => target.pc = .display ∧ target.passNumber = n ∧ target.completed = n
  | .runDisplay => target.pc = .lastDisplay ∧ target.completed = n
  | .waitforcleanup => target.pc = .waitforcleanup ∧ target.completed = n
  | .final => target.pc = .returned ∧ target.completed = n
  | .abortDisplay | .returned => False

structure RoundInv (s : State cfg) : Prop where
  expected : ∀ t, Expected s t
  alive : s.manager ≠ .abortDisplay ∧ s.manager ≠ .returned
  agreed : s.manager = .startpass → s.runComplete = true → ∀ t, (s.target t).pc ≠ .startpass
  complete : s.manager = .startpass →
    (s.runComplete = true ↔ ∃ t, (s.target t).pc = .lastStartpass)
  passing : s.manager = .display → s.runComplete = false
  lastCheck : s.abort = true → LastCheckMade s
  processed : s.processed = (List.range s.processed.length).map fun n _ => n + 1

variable {s s' : State cfg} {t : Fin cfg.targets}

namespace RoundInv

theorem init (cfg : Config) : RoundInv (init cfg) where
  expected t := by simp [Expected, Results.init]
  alive := by simp [Results.init]
  agreed := by simp [Results.init]
  complete := by simp [Results.init]
  passing := by simp [Results.init]
  lastCheck := by simp [Results.init]
  processed := by simp [Results.init]

/-- Nothing the invariant looks at changes. -/
theorem congr (h : RoundInv s) (hmanager : s'.manager = s.manager)
    (hview : ∀ t, (s'.target t).pc = (s.target t).pc ∧
      (s'.target t).passNumber = (s.target t).passNumber ∧
      (s'.target t).completed = (s.target t).completed)
    (hcomplete : s'.runComplete = s.runComplete)
    (hcanceled : s.canceled = true → s'.canceled = true)
    (hprocessed : s'.processed = s.processed) (habort : s'.abort = true → LastCheckMade s) :
    RoundInv s' where
  expected t := by
    obtain ⟨hpc, hpass, hcompleted⟩ := hview t
    have hexpected := h.expected t
    simp only [Expected, hmanager, hpc, hpass, hcompleted, hcomplete, hprocessed] at hexpected ⊢
    cases hm : s.manager <;> simp only [hm] at hexpected ⊢
    case endpass =>
      split at hexpected
      · rwa [if_pos ‹_›]
      · rw [if_neg ‹_›]
        obtain ⟨hn, hended | ⟨hrunning, hdone⟩⟩ := hexpected
        · exact ⟨hn, .inl hended⟩
        · -- only the test of a cancelled end-to-end target looks at `canceled`
          refine ⟨hn, .inr ⟨?_, hdone⟩⟩
          obtain hp | hp | hp | ⟨hp, hendToEnd, hcancel⟩ := hrunning
          · exact .inl hp
          · exact .inr (.inl hp)
          · exact .inr (.inr (.inl hp))
          · exact .inr (.inr (.inr ⟨hp, hendToEnd, hcanceled hcancel⟩))
    all_goals exact hexpected
  alive := hmanager ▸ h.alive
  agreed := by simpa only [hmanager, hcomplete, fun t => (hview t).1] using h.agreed
  complete := by simpa only [hmanager, hcomplete, fun t => (hview t).1] using h.complete
  passing := by simpa only [hmanager, hcomplete] using h.passing
  lastCheck habort' := by simpa only [LastCheckMade, hmanager, hcomplete] using habort habort'
  processed := by rw [hprocessed]; exact h.processed

/-- A target that is on its way through a pass. -/
theorem of_running (h : RoundInv s) (hpc : (s.target t).pc = .checkAbort ∨
      (s.target t).pc = .checkComplete ∨ (s.target t).pc = .pass) :
    s.manager = .endpass ∧ s.runComplete = false ∧
      (s.target t).passNumber = s.processed.length + 1 ∧
      (s.target t).completed = s.processed.length := by
  have hexpected := h.expected t
  unfold Expected at hexpected
  cases hm : s.manager <;> simp only [hm] at hexpected
  case endpass => split at hexpected <;> rcases hpc with hpc | hpc | hpc <;> simp_all
  case checkAbort | checkComplete =>
    split at hexpected <;> rcases hpc with hpc | hpc | hpc <;> simp_all
  all_goals rcases hpc with hpc | hpc | hpc <;> simp_all

/-- A target that has to decide after a pass. -/
theorem of_deciding (h : RoundInv s)
    (hpc : (s.target t).pc = .testRunTime ∨ (s.target t).pc = .testPasses) :
    s.manager = .startpass ∧ (s.target t).passNumber = s.processed.length ∧
      (s.target t).completed = s.processed.length := by
  have hexpected := h.expected t
  unfold Expected at hexpected
  cases hm : s.manager <;> simp only [hm] at hexpected
  case endpass | checkAbort | checkComplete =>
    split at hexpected <;> rcases hpc with hpc | hpc <;> simp_all
  all_goals rcases hpc with hpc | hpc <;> simp_all

theorem of_testAbort (h : RoundInv s) (hpc : (s.target t).pc = .testAbort) :
    s.manager = .startpass ∧ (s.target t).passNumber = s.processed.length ∧
        (s.target t).completed = s.processed.length ∨
      cfg.endToEnd t = true ∧ s.canceled = true := by
  have hexpected := h.expected t
  unfold Expected at hexpected
  cases hm : s.manager <;> simp only [hm] at hexpected
  case endpass | checkAbort | checkComplete => split at hexpected <;> simp_all
  all_goals simp_all

/-- One target changes. -/
theorem setTarget (h : RoundInv s) {target : Target (cfg.queueDepth t)}
    (hexpected : Expected (s.setTarget t target) t)
    (hstart : s.manager = .startpass → (s.target t).pc ≠ .lastStartpass ∧
      target.pc ≠ .lastStartpass ∧
      (target.pc = .startpass → ∀ u, (s.target u).pc ≠ .lastStartpass)) :
    RoundInv (s.setTarget t target) where
  expected u := by
    by_cases hu : u = t
    · subst hu
      exact hexpected
    · have hother := h.expected u
      simpa [Expected, State.setTarget, Function.update_of_ne hu] using hother
  alive := h.alive
  agreed hm hcomplete := by
    refine State.forall_setTarget (fun _ tg => tg.pc ≠ .startpass) ?_
      fun i _ => h.agreed hm hcomplete i
    intro hpc
    obtain ⟨u, hu⟩ := (h.complete hm).mp hcomplete
    exact (hstart hm).2.2 hpc u hu
  complete hm := by
    obtain ⟨hold, hnew, -⟩ := hstart hm
    refine (h.complete hm).trans ⟨?_, ?_⟩
    · rintro ⟨u, hu⟩
      have hne : u ≠ t := by
        rintro rfl
        exact hold hu
      exact ⟨u, by simpa [State.setTarget, Function.update_of_ne hne] using hu⟩
    · rintro ⟨u, hu⟩
      have hne : u ≠ t := by
        rintro rfl
        simp [State.setTarget] at hu
        exact hnew hu
      exact ⟨u, by simpa [State.setTarget, Function.update_of_ne hne] using hu⟩
  passing := h.passing
  lastCheck := h.lastCheck
  processed := h.processed

/-- A target leaves its loop while no other has gone on. -/
theorem leave (h : RoundInv s) (hleaves : Leaves s t)
    (hnone : ∀ u, (s.target u).pc ≠ .startpass) : RoundInv (leaveLoop s t) := by
  unfold leaveLoop
  split
  · exact h.congr rfl (fun _ => ⟨rfl, rfl, rfl⟩) rfl id rfl h.lastCheck
  · rename_i hexit
    have hround : s.manager = .startpass ∧ (s.target t).passNumber = s.processed.length ∧
        (s.target t).completed = s.processed.length := by
      cases hpc : (s.target t).pc <;> simp only [Leaves, hpc] at hleaves
      · exact (h.of_testAbort hpc).resolve_right (by simpa using hexit)
      · exact h.of_deciding (.inl hpc)
      · exact h.of_deciding (.inr hpc)
    obtain ⟨hm, hpass, hcompleted⟩ := hround
    refine ⟨?_, h.alive, ?_, ?_, ?_, ?_, h.processed⟩
    · intro u
      by_cases hu : u = t
      · subst hu
        simp [Expected, State.setTarget, hm, hpass, hcompleted]
      · have hother := h.expected u
        simpa only [Expected, State.setTarget, hm, Function.update_of_ne hu] using hother
    · intro _
      exact fun _ => State.forall_setTarget (fun _ tg => tg.pc ≠ .startpass)
        TargetPc.noConfusion fun i _ => hnone i
    · intro _
      refine ⟨fun _ => ⟨t, by simp [State.setTarget]⟩, fun _ => rfl⟩
    · intro hd
      simp [State.setTarget, hm] at hd
    · intro habort
      have := h.lastCheck habort
      simp [LastCheckMade, hm] at this

/-- A target moves within its pass. -/
theorem move (h : RoundInv s) {pc : TargetPc} {target : Target (cfg.queueDepth t)}
    (hold : (s.target t).pc = .checkAbort ∨ (s.target t).pc = .checkComplete ∨
      (s.target t).pc = .pass)
    (hpc : target.pc = pc)
    (hnew : pc = .checkComplete ∨ pc = .pass ∨
      pc = .testAbort ∧ cfg.endToEnd t = true ∧ s.canceled = true)
    (hpass : target.passNumber = (s.target t).passNumber)
    (hcompleted : target.completed = (s.target t).completed) : RoundInv (s.setTarget t target) := by
  obtain ⟨hm, hcomplete, hn, hdone⟩ := h.of_running hold
  refine h.setTarget ?_ fun hstart => by simp [hm] at hstart
  simp only [Expected, State.setTarget, hm, hcomplete, Function.update_self, hpc, hpass, hcompleted,
    hn, hdone, Bool.false_eq_true, if_false, and_true, true_and]
  exact .inr (.inr hnew)

/-- A target ends its pass. -/
theorem ended (h : RoundInv s) (hpc : (s.target t).pc = .pass) :
    RoundInv (s.setTarget t { s.target t with
      pc := .endpass
      completed := (s.target t).completed + 1 }) := by
  obtain ⟨hm, hcomplete, hn, hdone⟩ := h.of_running (.inr (.inr hpc))
  refine h.setTarget ?_ fun hstart => by simp [hm] at hstart
  simp [Expected, State.setTarget, hm, hcomplete, hn, hdone]

theorem target (h : RoundInv s) (hok : Agreed cfg s (.target t)) (hs : TargetStep s t s') :
    RoundInv s' := by
  cases hs with
  | abortSeen hpc habort =>
      obtain ⟨hm, -⟩ := h.of_running (.inl hpc)
      have hlast := h.lastCheck habort
      simp [LastCheckMade, hm] at hlast
  | abortClear hpc => exact h.move (.inl hpc) rfl (.inl rfl) rfl rfl
  | completeSeen hpc hcomplete =>
      obtain ⟨-, hno, -⟩ := h.of_running (.inr (.inl hpc))
      simp [hno] at hcomplete
  | begin hpc => exact h.move (.inr (.inl hpc)) rfl (.inr (.inl rfl)) rfl rfl
  | quit hpc hend hcanceled =>
      exact h.move (.inr (.inr hpc)) rfl (.inr (.inr ⟨rfl, hend, hcanceled⟩)) rfl rfl
  | cutShort hpc => exact h.ended hpc
  | finish errno hpc =>
      exact (h.ended hpc).congr rfl (fun _ => ⟨rfl, rfl, rfl⟩) rfl id rfl h.lastCheck
  | leave hleaves => exact h.leave hleaves (hok.1 hleaves)
  | noAbort hpc hcanceled =>
      obtain ⟨hm, hpass, hcompleted⟩ := (h.of_testAbort hpc).resolve_right (by simp [hcanceled])
      refine h.setTarget ?_ fun _ => ⟨by simp [hpc], by simp, by simp⟩
      simp [Expected, State.setTarget, hm, hpass, hcompleted]
  | runTime passes hpc =>
      obtain ⟨hm, hpass, hcompleted⟩ := h.of_deciding (.inl hpc)
      have hmoved : RoundInv (s.setTarget t { s.target t with pc := .testPasses }) := by
        refine h.setTarget ?_ fun _ => ⟨by simp [hpc], by simp, by simp⟩
        simp [Expected, State.setTarget, hm, hpass, hcompleted]
      exact hmoved.congr rfl (fun _ => ⟨rfl, rfl, rfl⟩) rfl id rfl h.lastCheck
  | goOn hgoes =>
      obtain ⟨hm, hpass, hcompleted⟩ := h.of_deciding (.inr hgoes.1)
      refine h.setTarget ?_ fun _ => ⟨by simp [hgoes.1], by simp, fun _ => hok.2 hgoes⟩
      simp [Expected, State.setTarget, hm, hpass, hcompleted]

/-- What a target in the startpass barrier is there for when everyone else is, too. -/
theorem at_startpass (h : RoundInv s) (hm : s.manager = .startpass)
    (hin : (s.target t).pc.barrier = some .startpass) :
    if s.runComplete then (s.target t).pc = .lastStartpass
    else (s.target t).pc = .startpass ∧ (s.target t).passNumber = s.processed.length + 1 := by
  have hexpected := h.expected t
  simp only [Expected, hm] at hexpected
  split
  · rename_i hcomplete
    have hnot := h.agreed hm hcomplete t
    rcases hexpected.1 with ⟨hp, -⟩ | ⟨hp | hp | hp | hp, -⟩
    · exact absurd hp hnot
    · simp [hp, TargetPc.barrier] at hin
    · simp [hp, TargetPc.barrier] at hin
    · simp [hp, TargetPc.barrier] at hin
    · exact hp
  · rename_i hcomplete
    rcases hexpected.1 with ⟨hp, hn⟩ | ⟨hp | hp | hp | hp, -⟩
    · exact ⟨hp, hn⟩
    · simp [hp, TargetPc.barrier] at hin
    · simp [hp, TargetPc.barrier] at hin
    · simp [hp, TargetPc.barrier] at hin
    · exact absurd ((h.complete hm).mpr ⟨t, hp⟩) hcomplete

/-- The same for the endpass barrier. -/
theorem at_endpass (h : RoundInv s) (hm : s.manager = .endpass)
    (hin : (s.target t).pc.barrier = some .endpass) :
    if s.runComplete then
      (s.target t).pc = .lastEndpass ∧ (s.target t).completed = s.processed.length
    else (s.target t).pc = .endpass ∧ (s.target t).passNumber = s.processed.length + 1 ∧
      (s.target t).completed = s.processed.length + 1 := by
  have hexpected := h.expected t
  simp only [Expected, hm] at hexpected
  split at hexpected
  · rw [if_pos ‹_›]
    exact hexpected
  · rw [if_neg ‹_›]
    obtain ⟨hn, ⟨hp, hdone⟩ | ⟨hp | hp | hp | ⟨hp, -⟩, -⟩⟩ := hexpected
    · exact ⟨hp, hn, hdone⟩
    · simp [hp, TargetPc.barrier] at hin
    · simp [hp, TargetPc.barrier] at hin
    · simp [hp, TargetPc.barrier] at hin
    · simp [hp, TargetPc.barrier] at hin

/-- What each target has to do when the barrier opens. -/
theorem expected_release (h : RoundInv s) {b : Barrier}
    (htargets : ∀ t, (s.target t).pc.barrier = some b) (hmanager : s.manager.barrier = some b)
    (t : Fin cfg.targets) : Expected (Results.release s b) t := by
  have hexpected := h.expected t
  have hin := htargets t
  cases hm : s.manager <;>
    simp only [hm, ManagerPc.barrier, Option.some.injEq, reduceCtorEq] at hmanager
  all_goals subst hmanager
  case startpass =>
    have hat := h.at_startpass hm hin
    have hdone : (s.target t).completed = s.processed.length := by
      simp only [Expected, hm] at hexpected
      exact hexpected.2
    simp only [Expected, Results.release, hm, hin, ManagerPc.barrier, ManagerPc.released, if_true]
    split at hat
    · simp [*, TargetPc.released]
    · simp [*, TargetPc.released]
  case endpass =>
    have hat := h.at_endpass hm hin
    simp only [Expected, Results.release, hm, hin, ManagerPc.barrier, ManagerPc.released, if_true]
    split at hat
    · simp [*, TargetPc.released]
    · simp [*, TargetPc.released]
  case abortDisplay => exact absurd hm h.alive.1
  all_goals
    simp only [Expected, hm] at hexpected
    simp [Expected, Results.release, hm, ManagerPc.barrier, ManagerPc.released, TargetPc.barrier,
      TargetPc.released, hexpected]

/-- All threads leave a barrier together. -/
theorem release (h : RoundInv s) {b : Barrier} (hfull : entered s b = cfg.targets + 1) :
    RoundInv (Results.release s b) := by
  obtain ⟨htargets, hmanager⟩ := (entered_eq_iff s b).mp hfull
  have hnew : (Results.release s b).manager = s.manager.released := if_pos hmanager
  refine ⟨h.expected_release htargets hmanager, ?_, ?_, ?_, ?_, ?_, h.processed⟩
  · rw [hnew]
    have hnot := h.alive
    cases hm : s.manager <;> simp_all [ManagerPc.released]
  · -- only the display barrier leads back to the startpass barrier
    intro hstart hcomplete
    have hpassing := h.passing
    rw [hnew] at hstart
    cases hm : s.manager <;> simp_all [ManagerPc.released, ManagerPc.barrier, Results.release]
  · intro hstart
    have hdisplay : s.manager = .display := by
      rw [hnew] at hstart
      cases hm : s.manager <;> simp_all [ManagerPc.released, ManagerPc.barrier]
    have hno : (Results.release s b).runComplete = false := h.passing hdisplay
    simp only [hno, Bool.false_eq_true, false_iff, not_exists]
    intro t hlast
    have hwas := h.expected t
    simp only [Expected, hdisplay] at hwas
    have hpc : ((Results.release s b).target t).pc = (s.target t).pc.released := by
      simp [Results.release, htargets t]
    rw [hpc, hwas.1] at hlast
    cases hlast
  · intro hdisplay
    rw [hnew] at hdisplay
    cases hm : s.manager <;> simp_all [ManagerPc.released, ManagerPc.barrier]
  · intro habort
    have hlast := h.lastCheck habort
    rcases hlast with ⟨hm, -⟩ | hm | hm | hm
    · simp [hm, ManagerPc.barrier] at hmanager
    all_goals simp [LastCheckMade, hnew, hm, ManagerPc.released]

/-- The manager processes the results of a pass that all targets have ended. -/
theorem processPass (h : RoundInv s) (hm : s.manager = .checkComplete)
    (hcomplete : s.runComplete = false) :
    RoundInv { processPassResults s with manager := .display } := by
  have hall : ∀ t, (s.target t).pc = .display ∧
      (s.target t).passNumber = s.processed.length + 1 ∧
      (s.target t).completed = s.processed.length + 1 := by
    intro t
    have hexpected := h.expected t
    simpa only [Expected, hm, hcomplete, Bool.false_eq_true, if_false] using hexpected
  refine ⟨?_, by simp, nofun, nofun, fun _ => hcomplete, ?_, ?_⟩
  · intro t
    simp [Expected, processPassResults, hall t]
  · intro habort
    have hlast := h.lastCheck habort
    simp [LastCheckMade, hm, hcomplete] at hlast
  · have hentry : (fun t => (s.target t).passNumber) =
        fun _ : Fin cfg.targets => s.processed.length + 1 := funext fun t => (hall t).2.1
    simp only [processPassResults, hentry, List.length_append, List.length_singleton,
      List.range_succ, List.map_append, List.map_singleton, ← h.processed]

/-- The manager processes the results of the run. -/
theorem processRun (h : RoundInv s) (hm : s.manager = .checkComplete)
    (hcomplete : s.runComplete = true) :
    RoundInv { processRunResults s with manager := .runDisplay } := by
  refine ⟨?_, by simp, nofun, nofun, nofun, ?_, h.processed⟩
  · intro t
    have hexpected := h.expected t
    simp only [Expected, hm, hcomplete, if_true] at hexpected
    simp [Expected, processRunResults, hexpected]
  · intro _
    exact .inr (.inl rfl)

theorem step (h : RoundInv s) {a : Action cfg} (hok : Agreed cfg s a) (hs : Step cfg s a s') :
    RoundInv s' := by
  cases hs with
  | @worker t a target hwork =>
      refine h.congr rfl ?_ rfl id rfl h.lastCheck
      exact State.forall_setTarget (fun u tg => tg.pc = (s.target u).pc ∧
        tg.passNumber = (s.target u).passNumber ∧ tg.completed = (s.target u).completed)
        (Target.work_eq hwork) fun _ _ => ⟨rfl, rfl, rfl⟩
  | target hstep => exact h.target hok hstep
  | release hfull => exact h.release hfull
  | abortDisplay hm habort =>
      have hlast := h.lastCheck habort
      simp [LastCheckMade, hm] at hlast
  | abortClear hm habort =>
      refine ⟨?_, by simp, nofun, nofun, nofun, ?_, h.processed⟩
      · intro t
        have hexpected := h.expected t
        simpa only [Expected, hm] using hexpected
      · intro habort'
        simp [habort] at habort'
  | runDisplay hm hcomplete => exact h.processRun hm hcomplete
  | display hm hcomplete => exact h.processPass hm hcomplete
  | main hm => exact h.congr rfl (fun _ => ⟨rfl, rfl, rfl⟩) rfl id rfl h.lastCheck
  | raiseAbort => exact h.congr rfl (fun _ => ⟨rfl, rfl, rfl⟩) rfl id rfl fun _ => hok
  | cancel => exact h.congr rfl (fun _ => ⟨rfl, rfl, rfl⟩) rfl (fun _ => rfl) rfl h.lastCheck
  | runTimeExpires => exact h.congr rfl (fun _ => ⟨rfl, rfl, rfl⟩) rfl id rfl h.lastCheck

theorem of_reach (hreach : Transition.Reach (Results.step cfg) (Agreed cfg) (Results.init cfg) s) :
    RoundInv s :=
  hreach.invariant (RoundInv.init cfg) fun _ _ _ h hok hstep =>
    h.step hok (Step.of_eq_some hstep).2

/-- If every thread is in a barrier, they are all in the same one. -/
theorem not_wedged (h : RoundInv s) : ¬ Wedged s := by
  rintro ⟨-, hnot, hblocked, hmanager, hfull⟩
  have hopen : ∀ b, s.manager.barrier = some b → ∃ t, (s.target t).pc.barrier ≠ some b := by
    intro b hb
    by_contra hall
    push Not at hall
    exact hfull b ((entered_eq_iff s b).mpr ⟨hall, hb⟩)
  cases hm : s.manager <;> simp only [hm, ManagerPc.barrier, reduceCtorEq, Option.isSome_none,
    Bool.false_eq_true, or_self] at hmanager hopen
  case final =>
    refine hnot ⟨?_, .inl hm⟩
    intro t
    have hexpected := h.expected t
    simp only [Expected, hm] at hexpected
    exact hexpected.1
  case returned => exact h.alive.2 hm
  case abortDisplay => exact h.alive.1 hm
  all_goals
    obtain ⟨t, ht⟩ := hopen _ rfl
    have hexpected := h.expected t
    have hb := hblocked t
    simp only [Expected, hm] at hexpected
  case startpass =>
    rcases hexpected.1 with ⟨hp, -⟩ | ⟨hp | hp | hp | hp, -⟩ <;>
      simp [hp, TargetPc.barrier] at hb ht
  case endpass =>
    split at hexpected
    · simp [hexpected, TargetPc.barrier] at ht
    · obtain ⟨-, ⟨hp, -⟩ | ⟨hp | hp | hp | ⟨hp, -⟩, -⟩⟩ := hexpected <;>
        simp [hp, TargetPc.barrier] at hb ht
  all_goals simp [hexpected, TargetPc.barrier] at ht

/-- No pass is processed before all targets have ended it. -/
theorem processed_le (h : RoundInv s) (t : Fin cfg.targets) :
    s.processed.length ≤ (s.target t).completed := by
  have hexpected := h.expected t
  unfold Expected at hexpected
  cases hm : s.manager <;> simp only [hm] at hexpected
  case startpass => exact hexpected.2.ge
  case endpass =>
    split at hexpected
    · exact hexpected.2.ge
    · obtain ⟨-, ⟨-, hdone⟩ | ⟨-, hdone⟩⟩ := hexpected <;> omega
  case checkAbort | checkComplete => split at hexpected <;> omega
  case display => exact hexpected.2.2.ge
  all_goals exact hexpected.2.ge

theorem processed_eq (h : RoundInv s) (hm : s.manager ≠ .endpass ∧ s.manager ≠ .checkAbort ∧
    s.manager ≠ .checkComplete) (t : Fin cfg.targets) :
    (s.target t).completed = s.processed.length := by
  have hexpected := h.expected t
  obtain ⟨hend, habort, hcomplete⟩ := hm
  unfold Expected at hexpected
  cases hm : s.manager <;> simp only [hm] at hexpected
  case startpass => exact hexpected.2
  case endpass => exact absurd hm hend
  case checkAbort => exact absurd hm habort
  case checkComplete => exact absurd hm hcomplete
  case display => exact hexpected.2.2
  all_goals exact hexpected.2

end RoundInv

/-- In a run in which the targets agree after each pass and no abort is raised while the
manager looks for one, no state is wedged. The manager processes the passes 1, 2, …, `k`
in this order, each of them after every target has ended it, and while it is not about
to process one these are all the passes that have been ended. -/
theorem agreed_never_wedged
    (hreach : Transition.Reach (step cfg) (Agreed cfg) (init cfg) s) :
    ¬ Wedged s ∧
    s.processed = (List.range s.processed.length).map (fun n _ => n + 1) ∧
    (∀ t, s.processed.length ≤ (s.target t).completed) ∧
    (s.manager ≠ .endpass ∧ s.manager ≠ .checkAbort ∧ s.manager ≠ .checkComplete →
      ∀ t, (s.target t).completed = s.processed.length) := by
  have h := RoundInv.of_reach hreach
  exact ⟨h.not_wedged, h.processed, h.processed_le, h.processed_eq⟩

/-- Two targets and two passes; an I/O error stops its target. -/
abbrev twoTargets : Config where
  targets := 2
  queueDepth := fun _ => 1
  passes := 2
  runTime := false
  endToEnd := fun _ => false
  stopOnError := true

/-- The barriers of a pass; `ios` are the I/Os in between. -/
def passRun (ios : List (Action twoTargets)) : List (Action twoTargets) :=
  List.flatten [
    [.release .startpass, .target 0, .target 1, .target 1, .target 0], ios,
    [.target 1, .target 0, .release .endpass, .manager, .manager, .release .display]]

theorem agreed_never_wedged_twoTargets : ∃ s : State twoTargets,
    s.manager = .final ∧ ¬ Wedged s ∧ s.processed = [fun _ => 1, fun _ => 2] := by
  obtain ⟨s, hreach, hfinal, hlength⟩ :
      ∃ s, Transition.Reach (step twoTargets) (Agreed twoTargets) (init twoTargets) s ∧
        s.manager = .final ∧ s.processed.length = 2 :=
    Transition.exists_reach_of_run
      (List.flatten [
        passRun [], [.target 0, .target 0, .target 0, .target 1, .target 1, .target 1],
        passRun [], [.target 1, .target 1, .target 1, .target 0, .target 0, .target 0],
        [.release .startpass, .release .endpass, .manager, .manager, .release .display,
          .release .waitforcleanup]]) (by decide +kernel)
  obtain ⟨hwedged, hprocessed, -⟩ := agreed_never_wedged hreach
  refine ⟨s, hfinal, hwedged, ?_⟩
  rw [hprocessed, hlength]
  rfl

/-- One target and one pass. -/
abbrev oneTarget : Config where
  targets := 1
  queueDepth := fun _ => 1
  passes := 1
  runTime := false
  endToEnd := fun _ => false
  stopOnError := false

/-- An abort that is raised during a pass leaves a target alone in its last barriers, with
the results of the pass unprocessed. Without any abort, an I/O error that stops one of
two targets leaves both and the manager in barriers that never fill. -/
theorem barriers_wedge :
    (∃ s, Transition.Reach (step oneTarget) Transition.anyStep (init oneTarget) s ∧
      Wedged s ∧ (s.target 0).completed = 1 ∧ s.processed = []) ∧
    ∃ s, Transition.Reach (step twoTargets) Transition.anyStep (init twoTargets) s ∧
      Wedged s ∧ s.abort = false := by
  constructor
  · exact Transition.exists_reach_of_run
      [.release .startpass, .target 0, .target 0, .raiseAbort, .target 0, .release .endpass,
        .manager, .release .display, .target 0] (by decide +kernel)
  · exact Transition.exists_reach_of_run
      (List.flatten [
        passRun [.worker 0 (.assign 0 (.io 4)), .worker 0 (.startIo 0),
          .worker 0 (.finishIo 0 (-1))],
        [.target 0, .target 1, .target 1, .target 1, .release .startpass, .target 1, .target 1,
          .target 1, .target 1, .target 1]]) (by decide +kernel)

end Xdd.Results
