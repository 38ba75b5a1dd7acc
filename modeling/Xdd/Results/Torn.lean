import Xdd.Results.Rounds

/-!
# Targets that disagree after a pass

Without a cancel or an abort the targets are in step with the results manager or, if some of
them have left their loops and some have gone on, wait for each other for ever. Nothing is
processed then.
-/

namespace Xdd.Results

variable {cfg : Config}

/-- Some targets have left their loops and some have gone on. The ones that have gone on come
back to the startpass barrier and miss the endpass barrier, in which the others wait. -/
def TargetPc.torn : TargetPc → Bool
  | .startpass | .testAbort | .testRunTime | .testPasses | .lastStartpass => true
  | _ => false

def TargetPc.lost : TargetPc → Bool
  | .checkAbort | .checkComplete | .lastEndpass => true
  | pc => pc.torn

structure Torn (s : State cfg) : Prop where
  complete : s.runComplete = true
  waits : s.manager = .startpass ∧ (∀ t, (s.target t).pc.torn = true) ∧
      (∃ t, (s.target t).pc = .startpass) ∨
    s.manager = .endpass ∧ (∀ t, (s.target t).pc.lost = true) ∧
      ∃ t, (s.target t).pc ≠ .lastEndpass

namespace Torn

variable {s s' : State cfg} {t : Fin cfg.targets}

/-- Nobody runs a pass. -/
theorem pc_ne_pass (h : Torn s) (t : Fin cfg.targets) : (s.target t).pc ≠ .pass := by
  intro hpc
  obtain ⟨-, hall, -⟩ | ⟨-, hall, -⟩ := h.waits
  · have := hall t
    rw [hpc] at this
    cases this
  · have := hall t
    rw [hpc] at this
    cases this

theorem manager_waits (h : Torn s) : s.manager = .startpass ∨ s.manager = .endpass :=
  h.waits.imp And.left And.left

/-- Only the places of the targets matter. -/
theorem congr (h : Torn s) (hmanager : s'.manager = s.manager)
    (hpc : ∀ t, (s'.target t).pc = (s.target t).pc) (hcomplete : s'.runComplete = true) :
    Torn s' where
  complete := hcomplete
  waits := by simpa only [hmanager, hpc] using h.waits

/-- A target goes on to a place from which it does not come to the endpass barrier. -/
theorem setTarget (h : Torn s) {target : Target (cfg.queueDepth t)}
    (hold : (s.target t).pc ≠ .startpass) (hnew : target.pc.lost = true)
    (htorn : (s.target t).pc.torn = true → target.pc.torn = true)
    (hend : target.pc ≠ .lastEndpass) : Torn (s.setTarget t target) where
  complete := h.complete
  waits := by
    refine h.waits.imp ?_ ?_
    · rintro ⟨hm, hall, u, hu⟩
      refine ⟨hm, State.forall_setTarget (fun _ target => target.pc.torn = true) (htorn (hall t))
        fun u _ => hall u, u, ?_⟩
      have hne : u ≠ t := by
        rintro rfl
        exact hold hu
      simpa [State.setTarget, hne] using hu
    · rintro ⟨hm, hall, -⟩
      exact ⟨hm, State.forall_setTarget (fun _ target => target.pc.lost = true) hnew
        fun u _ => hall u, t, by simpa [State.setTarget] using hend⟩

theorem target (h : Torn s) (hcanceled : s.canceled = false) (hs : TargetStep s t s') :
    Torn s' := by
  cases hs with
  | abortSeen hpc => exact h.setTarget (by simp [hpc]) rfl (fun _ => rfl) (by simp)
  | abortClear hpc =>
    exact h.setTarget (by simp [hpc]) rfl (by simp [hpc, TargetPc.torn]) (by simp)
  | completeSeen hpc => exact h.setTarget (by simp [hpc]) rfl (fun _ => rfl) (by simp)
  | begin hpc hno =>
    rw [h.complete] at hno
    cases hno
  | quit hpc => exact absurd hpc (h.pc_ne_pass t)
  | cutShort hpc => exact absurd hpc (h.pc_ne_pass t)
  | finish errno hpc => exact absurd hpc (h.pc_ne_pass t)
  | leave hleaves =>
    have hne : (s.target t).pc ≠ .startpass := by
      intro hpc
      simp [Leaves, hpc] at hleaves
    have hleft : Torn (s.setTarget t { s.target t with pc := .lastStartpass }) :=
      h.setTarget hne rfl (fun _ => rfl) (by simp)
    rw [leaveLoop, hcanceled, Bool.and_false]
    exact hleft.congr rfl (fun _ => rfl) rfl
  | noAbort hpc => exact h.setTarget (by simp [hpc]) rfl (fun _ => rfl) (by simp)
  | runTime passes hpc =>
    have hmoved : Torn (s.setTarget t { s.target t with pc := .testPasses }) :=
      h.setTarget (by simp [hpc]) rfl (fun _ => rfl) (by simp)
    exact hmoved.congr rfl (fun _ => rfl) h.complete
  | goOn hgoes => exact h.setTarget (by simp [hgoes.1]) rfl (fun _ => rfl) (by simp)

theorem release (h : Torn s) {b : Barrier} (hfull : entered s b = cfg.targets + 1) :
    Torn (release s b) := by
  obtain ⟨htargets, hmanager⟩ := (entered_eq_iff s b).mp hfull
  have hpc : ∀ t, ((Results.release s b).target t).pc = (s.target t).pc.released := by
    intro t
    simp [Results.release, htargets t]
  refine ⟨h.complete, ?_⟩
  obtain ⟨hm, hall, u, hu⟩ | ⟨hm, hall, u, hu⟩ := h.waits
  · rw [hm] at hmanager
    cases hmanager
    refine .inr ⟨by simp [Results.release, hm, ManagerPc.barrier, ManagerPc.released], ?_, u, ?_⟩
    · intro t
      have hin := htargets t
      have ht := hall t
      rw [hpc]
      cases hp : (s.target t).pc <;> simp_all [TargetPc.torn, TargetPc.barrier]
      · rfl
      · rfl
    · rw [hpc, hu]
      simp [TargetPc.released]
  · -- the one that has gone on is not in the endpass barrier
    rw [hm] at hmanager
    cases hmanager
    have hin := htargets u
    have ht := hall u
    cases hp : (s.target u).pc <;>
      simp_all [TargetPc.lost, TargetPc.torn, TargetPc.barrier]

theorem step (h : Torn s) (hcanceled : s.canceled = false) {a : Action cfg}
    (hs : Step cfg s a s') : Torn s' := by
  cases hs with
  | @worker t a target hwork =>
    refine h.congr rfl ?_ h.complete
    exact State.forall_setTarget (fun u target => target.pc = (s.target u).pc)
      (Target.work_eq hwork).1 fun _ _ => rfl
  | target hstep => exact h.target hcanceled hstep
  | release hfull => exact h.release hfull
  | abortDisplay hm => exact absurd h.manager_waits (by simp [hm])
  | abortClear hm => exact absurd h.manager_waits (by simp [hm])
  | runDisplay hm => exact absurd h.manager_waits (by simp [hm])
  | display hm => exact absurd h.manager_waits (by simp [hm])
  | main hm => exact absurd h.manager_waits (by simp [hm])
  | raiseAbort => exact h.congr rfl (fun _ => rfl) h.complete
  | cancel => exact h.congr rfl (fun _ => rfl) h.complete
  | runTimeExpires => exact h.congr rfl (fun _ => rfl) h.complete

end Torn

theorem targetStep_of_leaves {s : State cfg} {t : Fin cfg.targets} (h : Leaves s t) :
    targetStep s t = some (leaveLoop s t) := by
  cases hpc : (s.target t).pc <;> simp only [Leaves, hpc] at h
  · simp [targetStep, hpc, h]
  · simp [targetStep, hpc, h.1, h.2]
  · simp [targetStep, hpc, h]

namespace RoundInv

variable {s s' : State cfg} {t : Fin cfg.targets}

theorem torn_of_startpass (h : RoundInv s) (hm : s.manager = .startpass) (t : Fin cfg.targets) :
    (s.target t).pc.torn = true := by
  have hexpected := h.expected t
  simp only [Expected, hm] at hexpected
  obtain ⟨⟨hp, -⟩ | ⟨hp | hp | hp | hp, -⟩, -⟩ := hexpected <;> rw [hp] <;> rfl

/-- A target that leaves its loop has ended the passes that are processed. -/
theorem of_leaves (h : RoundInv s) (hcanceled : s.canceled = false) (hleaves : Leaves s t) :
    s.manager = .startpass ∧ (s.target t).passNumber = s.processed.length := by
  cases hpc : (s.target t).pc <;> simp only [Leaves, hpc] at hleaves
  · obtain ⟨hm, hpass, -⟩ := (h.of_testAbort hpc).resolve_right (by simp [hcanceled])
    exact ⟨hm, hpass⟩
  · obtain ⟨hm, hpass, -⟩ := h.of_deciding (.inl hpc)
    exact ⟨hm, hpass⟩
  · obtain ⟨hm, hpass, -⟩ := h.of_deciding (.inr hpc)
    exact ⟨hm, hpass⟩

/-- A target leaves although another one has gone on. -/
theorem torn_of_leaves (h : RoundInv s) (hcanceled : s.canceled = false) (hleaves : Leaves s t)
    {u : Fin cfg.targets} (hu : (s.target u).pc = .startpass) : Torn (leaveLoop s t) := by
  obtain ⟨hm, -⟩ := h.of_leaves hcanceled hleaves
  have hne : u ≠ t := by
    rintro rfl
    simp [Leaves, hu] at hleaves
  rw [leaveLoop, hcanceled, Bool.and_false]
  refine ⟨rfl, .inl ⟨hm, ?_, u, ?_⟩⟩
  · exact State.forall_setTarget (fun _ target => target.pc.torn = true) rfl
      fun u _ => h.torn_of_startpass hm u
  · simpa [State.setTarget, hne] using hu

/-- A target goes on although another one has left. -/
theorem torn_of_goesOn (h : RoundInv s) (hgoes : GoesOn s t) {u : Fin cfg.targets}
    (hu : (s.target u).pc = .lastStartpass) {target : Target (cfg.queueDepth t)}
    (hpc : target.pc = .startpass) : Torn (s.setTarget t target) := by
  obtain ⟨hm, -⟩ := h.of_deciding (.inr hgoes.1)
  refine ⟨(h.complete hm).mpr ⟨u, hu⟩, .inl ⟨hm, ?_, t, by simpa [State.setTarget] using hpc⟩⟩
  exact State.forall_setTarget (fun _ target => target.pc.torn = true) (by rw [hpc]; rfl)
    fun u _ => h.torn_of_startpass hm u

end RoundInv

/-- What a target thread leaves alone. -/
theorem TargetStep.frame {s s' : State cfg} {t : Fin cfg.targets} (hs : TargetStep s t s') :
    s'.manager = s.manager ∧ s'.processed = s.processed ∧ s'.canceled = s.canceled ∧
      (∀ u, u ≠ t → s'.target u = s.target u) ∧
      (s'.runComplete = s.runComplete ∨ Leaves s t ∧ s'.runComplete = true) := by
  cases hs with
  | leave hleaves =>
    rw [leaveLoop]
    split
    · exact ⟨rfl, rfl, rfl, fun _ _ => rfl, .inl rfl⟩
    · exact ⟨rfl, rfl, rfl, fun u hu => by simp [State.setTarget, hu], .inr ⟨hleaves, rfl⟩⟩
  | _ => exact ⟨rfl, rfl, rfl, fun u hu => by simp [State.setTarget, hu], .inl rfl⟩

/-- The targets are in step with the manager, or nothing is reported any more. -/
theorem inStep_step {s s' : State cfg} {a : Action cfg} (h : RoundInv s ∨ Torn s)
    (hcanceled : s.canceled = false) (ha : a ≠ .raiseAbort)
    (hstep : Results.step cfg s a = some s') : RoundInv s' ∨ Torn s' := by
  obtain ⟨hrunning, hs⟩ := Step.of_eq_some hstep
  obtain h | h := h
  · by_cases hok : Agreed cfg s a
    · exact .inl (h.step hok hs)
    right
    cases hs with
    | @target t s' htarget =>
      have hnot : (Leaves s t ∧ ∃ u, (s.target u).pc = .startpass) ∨
          (GoesOn s t ∧ ∃ u, (s.target u).pc = .lastStartpass) := by
        by_contra hno
        push Not at hno
        exact hok hno
      obtain ⟨hleaves, u, hu⟩ | ⟨hgoes, u, hu⟩ := hnot
      · have heq : targetStep s t = some s' := by simpa [Results.step, hrunning] using hstep
        rw [targetStep_of_leaves hleaves] at heq
        cases heq
        exact h.torn_of_leaves hcanceled hleaves hu
      · have heq : targetStep s t = some s' := by simpa [Results.step, hrunning] using hstep
        simp only [targetStep, hgoes.1, Nat.not_le.mpr hgoes.2, if_false] at heq
        cases heq
        exact h.torn_of_goesOn hgoes hu rfl
    | raiseAbort => exact absurd rfl ha
    | worker | release | abortDisplay | abortClear | runDisplay | display | main | cancel
    | runTimeExpires => exact absurd trivial hok
  · exact .inr (h.step hcanceled hs)

end Xdd.Results
