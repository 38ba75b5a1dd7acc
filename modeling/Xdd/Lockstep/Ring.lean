import Xdd.Library.Transition

/-!
# Targets in lockstep

Targets in lockstep form a ring. In a pass the first target starts; the others wait, each
in a barrier of its own that takes two. A target whose turn it is issues some operations,
waits for all of them, looks for the next target that has not completed its pass, and
enters the barrier of that target to wake it up. Unless it has completed its own pass it
then waits in its own barrier for its next turn.

All targets start a pass together, and a pass ends when all of them have left
`xdd_lockstep`. Each target clears its own completion bit at the start of a pass, some time
before it enters `xdd_lockstep`.

How a target hands its operations to its workers is the subject of `Xdd.HandOff.Loops`;
here an operation is outstanding from the moment it is issued until its worker is done.
-/

namespace Xdd.Lockstep

/-- What is set for each target: `LS_STATE_END_STOP` makes it stop when it finds that
another target has completed its pass. -/
structure Options where
  targetOps : Nat
  intervalValue : Nat
  intervalValue_pos : 0 < intervalValue
  queueDepth : Nat
  queueDepth_pos : 0 < queueDepth
  endStop : Bool

/-- The ring, as `ls_next_tdp` links it. -/
structure Ring where
  size : Nat
  two_le_size : 2 ≤ size
  next : Fin size → Fin size
  cyclic : ∀ t u, ∃ m, next^[m] t = u
  /-- the target with `LS_STATE_I_AM_THE_FIRST` -/
  first : Fin size
  options : Fin size → Options
  passes : Nat

instance (ring : Ring) : NeZero ring.size :=
  ⟨Nat.ne_of_gt (Nat.lt_of_lt_of_le Nat.two_pos ring.two_le_size)⟩

/-- Where a target is. -/
inductive Phase (k : Nat) where
  /-- released from the startpass barrier -/
  | beforePass
  | entering
  /-- in its own barrier -/
  | waiting
  /-- at the head of the loop over the intervals -/
  | looping
  /-- has this many operations of the interval still to issue -/
  | issuing (ops : Nat)
  /-- waits for its workers -/
  | collecting
  /-- looks at the completion bit of this target -/
  | scanning (next : Fin k) (status : Bool)
  | deciding (next : Fin k) (status : Bool)
  | passing (next : Fin k)
  /-- in the barrier of this target -/
  | releasing (next : Fin k)
  /-- has woken another target up -/
  | released
  /-- has left `xdd_lockstep` -/
  | left
deriving DecidableEq, Repr

/-- A target. The last two fields only record how many operations it has issued in the
pass, and whether it stopped because of another target. -/
structure Target (k : Nat) where
  phase : Phase k
  passComplete : Bool
  opsRemaining : Nat
  outstanding : Nat
  issued : Nat
  stopped : Bool
deriving DecidableEq, Repr

/-- `barrier t` is the target that waits in the barrier of `t`, if there is one. The last
two fields count how often a target has entered its own barrier, and how often others have
entered it to wake it up. -/
structure State (ring : Ring) where
  target : Fin ring.size → Target ring.size
  barrier : Fin ring.size → Option (Fin ring.size)
  pass : Nat
  waits : Fin ring.size → Nat
  releases : Fin ring.size → Nat

def init (ring : Ring) : State ring where
  target := fun _ =>
    { phase := .beforePass, passComplete := false, opsRemaining := 0, outstanding := 0
      issued := 0, stopped := false }
  barrier := fun _ => none
  pass := 1
  waits := fun _ => 0
  releases := fun _ => 0

inductive Action (ring : Ring) where
  /-- `xdd_lockstep_before_pass` -/
  | beforePass (t : Fin ring.size)
  | enter (t : Fin ring.size)
  | loop (t : Fin ring.size)
  | issue (t : Fin ring.size)
  /-- `xdd_target_ttd_before_io_op` finds a limit or an abort -/
  | limit (t : Fin ring.size)
  | endInterval (t : Fin ring.size)
  /-- a worker of the target is done -/
  | ioDone (t : Fin ring.size)
  | collect (t : Fin ring.size)
  | scan (t : Fin ring.size)
  | decide (t : Fin ring.size)
  | pass (t : Fin ring.size)
  | resume (t : Fin ring.size)
  /-- the endpass and startpass barriers -/
  | nextPass

variable {ring : Ring}

namespace State

def setTarget (s : State ring) (t : Fin ring.size) (target : Target ring.size) : State ring :=
  { s with target := Function.update s.target t target }

def setPhase (s : State ring) (t : Fin ring.size) (phase : Phase ring.size) : State ring :=
  s.setTarget t { s.target t with phase := phase }

/-- What comes after the barrier in which a target waits. -/
def wake (s : State ring) (u : Fin ring.size) : State ring :=
  match (s.target u).phase with
  | .waiting => s.setPhase u .looping
  | .releasing _ => s.setPhase u .released
  | _ => s

/-- A target enters its own barrier. If another one waits there, both go on. -/
def wait (s : State ring) (t : Fin ring.size) : State ring :=
  let s := { s with waits := Function.update s.waits t (s.waits t + 1) }
  match s.barrier t with
  | none =>
    { s.setPhase t .waiting with barrier := Function.update s.barrier t (some t) }
  | some u =>
    { (s.wake u).setPhase t .looping with
      barrier := Function.update s.barrier t none }

/-- Target `t` enters the barrier of `u` to wake it up. -/
def release (s : State ring) (t u : Fin ring.size) : State ring :=
  let s := { s with releases := Function.update s.releases u (s.releases u + 1) }
  match s.barrier u with
  | none =>
    { s.setPhase t (.releasing u) with barrier := Function.update s.barrier u (some t) }
  | some v =>
    { (s.wake v).setPhase t .released with barrier := Function.update s.barrier u none }

end State

/-- One step of a target, of a worker or of the barriers around a pass. -/
def step (ring : Ring) (s : State ring) : Action ring → Option (State ring)
  | .beforePass t =>
    match (s.target t).phase with
    | .beforePass =>
      some (s.setTarget t { s.target t with phase := .entering, passComplete := false })
    | _ => none
  | .enter t =>
    match (s.target t).phase with
    | .entering =>
      let s := s.setTarget t { s.target t with
        opsRemaining := (ring.options t).targetOps
        issued := 0
        stopped := false }
      -- a target that has no bytes does not call `xdd_lockstep`
      if (ring.options t).targetOps = 0 then some (s.setPhase t .left)
      else if t = ring.first then some (s.setPhase t .looping)
      else some (s.wait t)
    | _ => none
  | .loop t =>
    match (s.target t).phase with
    | .looping =>
      if (s.target t).opsRemaining = 0 then some (s.setPhase t .left)
      else
        some (s.setPhase t
          (.issuing (min (s.target t).opsRemaining (ring.options t).intervalValue)))
    | _ => none
  | .issue t =>
    match (s.target t).phase with
    | .issuing (ops + 1) =>
      if (s.target t).outstanding < (ring.options t).queueDepth then
        some (s.setTarget t { s.target t with
          phase := .issuing ops
          opsRemaining := (s.target t).opsRemaining - 1
          outstanding := (s.target t).outstanding + 1
          issued := (s.target t).issued + 1 })
      else
        none
    | _ => none
  | .limit t =>
    match (s.target t).phase with
    | .issuing (_ + 1) => some (s.setPhase t .collecting)
    | _ => none
  | .endInterval t =>
    match (s.target t).phase with
    | .issuing 0 => some (s.setPhase t .collecting)
    | _ => none
  | .ioDone t =>
    match (s.target t).outstanding with
    | outstanding + 1 => some (s.setTarget t { s.target t with outstanding := outstanding })
    | 0 => none
  | .collect t =>
    match (s.target t).phase, (s.target t).outstanding with
    | .collecting, 0 =>
      some (s.setTarget t { s.target t with
        phase := .scanning (ring.next t) false
        passComplete := (s.target t).passComplete || (s.target t).opsRemaining == 0 })
    | _, _ => none
  | .scan t =>
    match (s.target t).phase with
    | .scanning u status =>
      if (s.target u).passComplete then
        if ring.next u = t then some (s.setPhase t (.deciding t true))
        else some (s.setPhase t (.scanning (ring.next u) true))
      else
        some (s.setPhase t (.deciding u status))
    | _ => none
  | .decide t =>
    match (s.target t).phase with
    | .deciding u status =>
      if status && (ring.options t).endStop then
        some (s.setTarget t { s.target t with
          phase := .passing u
          opsRemaining := 0
          passComplete := true
          stopped := (s.target t).stopped || (s.target t).opsRemaining != 0 })
      else
        some (s.setPhase t (.passing u))
    | _ => none
  | .pass t =>
    match (s.target t).phase with
    | .passing u =>
      if u = t then some (s.setPhase t .looping) else some (s.release t u)
    | _ => none
  | .resume t =>
    match (s.target t).phase with
    | .released =>
      if (s.target t).passComplete then some (s.setPhase t .looping) else some (s.wait t)
    | _ => none
  | .nextPass =>
    if (∀ t, (s.target t).phase = .left) ∧ s.pass < ring.passes then
      some { s with
        pass := s.pass + 1
        target := fun t => { s.target t with phase := .beforePass } }
    else
      none

/-- A target that starts a pass. -/
def Target.start {k : Nat} (target : Target k) (targetOps : Nat) : Target k :=
  { target with opsRemaining := targetOps, issued := 0, stopped := false }

/-- The steps of the ring, one constructor for each branch of `step`. -/
inductive Step (ring : Ring) (s : State ring) : Action ring → State ring → Prop where
  | beforePass {t} : (s.target t).phase = .beforePass →
      Step ring s (.beforePass t)
        (s.setTarget t { s.target t with phase := .entering, passComplete := false })
  | skip {t} : (s.target t).phase = .entering → (ring.options t).targetOps = 0 →
      Step ring s (.enter t)
        ((s.setTarget t ((s.target t).start (ring.options t).targetOps)).setPhase t .left)
  | first {t} : (s.target t).phase = .entering → (ring.options t).targetOps ≠ 0 →
      t = ring.first →
      Step ring s (.enter t)
        ((s.setTarget t ((s.target t).start (ring.options t).targetOps)).setPhase t .looping)
  | wait {t} : (s.target t).phase = .entering → (ring.options t).targetOps ≠ 0 →
      t ≠ ring.first →
      Step ring s (.enter t)
        ((s.setTarget t ((s.target t).start (ring.options t).targetOps)).wait t)
  | leave {t} : (s.target t).phase = .looping → (s.target t).opsRemaining = 0 →
      Step ring s (.loop t) (s.setPhase t .left)
  | turn {t} : (s.target t).phase = .looping → (s.target t).opsRemaining ≠ 0 →
      Step ring s (.loop t) (s.setPhase t
        (.issuing (min (s.target t).opsRemaining (ring.options t).intervalValue)))
  | issue {t ops} : (s.target t).phase = .issuing (ops + 1) →
      (s.target t).outstanding < (ring.options t).queueDepth →
      Step ring s (.issue t) (s.setTarget t { s.target t with
        phase := .issuing ops
        opsRemaining := (s.target t).opsRemaining - 1
        outstanding := (s.target t).outstanding + 1
        issued := (s.target t).issued + 1 })
  | limit {t ops} : (s.target t).phase = .issuing (ops + 1) →
      Step ring s (.limit t) (s.setPhase t .collecting)
  | endInterval {t} : (s.target t).phase = .issuing 0 →
      Step ring s (.endInterval t) (s.setPhase t .collecting)
  | ioDone {t outstanding} : (s.target t).outstanding = outstanding + 1 →
      Step ring s (.ioDone t) (s.setTarget t { s.target t with outstanding := outstanding })
  | collect {t} : (s.target t).phase = .collecting → (s.target t).outstanding = 0 →
      Step ring s (.collect t) (s.setTarget t { s.target t with
        phase := .scanning (ring.next t) false
        passComplete := (s.target t).passComplete || (s.target t).opsRemaining == 0 })
  | scanSelf {t u status} : (s.target t).phase = .scanning u status →
      (s.target u).passComplete = true → ring.next u = t →
      Step ring s (.scan t) (s.setPhase t (.deciding t true))
  | scanOn {t u status} : (s.target t).phase = .scanning u status →
      (s.target u).passComplete = true → ring.next u ≠ t →
      Step ring s (.scan t) (s.setPhase t (.scanning (ring.next u) true))
  | scanFound {t u status} : (s.target t).phase = .scanning u status →
      (s.target u).passComplete = false →
      Step ring s (.scan t) (s.setPhase t (.deciding u status))
  | stop {t u} : (s.target t).phase = .deciding u true → (ring.options t).endStop = true →
      Step ring s (.decide t) (s.setTarget t { s.target t with
        phase := .passing u
        opsRemaining := 0
        passComplete := true
        stopped := (s.target t).stopped || (s.target t).opsRemaining != 0 })
  | decide {t u status} : (s.target t).phase = .deciding u status →
      (status && (ring.options t).endStop) = false →
      Step ring s (.decide t) (s.setPhase t (.passing u))
  | keep {t} : (s.target t).phase = .passing t →
      Step ring s (.pass t) (s.setPhase t .looping)
  | release {t u} : (s.target t).phase = .passing u → u ≠ t →
      Step ring s (.pass t) (s.release t u)
  | finish {t} : (s.target t).phase = .released → (s.target t).passComplete = true →
      Step ring s (.resume t) (s.setPhase t .looping)
  | waitAgain {t} : (s.target t).phase = .released → (s.target t).passComplete = false →
      Step ring s (.resume t) (s.wait t)
  | nextPass : (∀ t, (s.target t).phase = .left) → s.pass < ring.passes →
      Step ring s .nextPass { s with
        pass := s.pass + 1
        target := fun t => { s.target t with phase := .beforePass } }

theorem Step.of_eq_some {s s' : State ring} {a : Action ring} (h : step ring s a = some s') :
    Step ring s a s' := by
  cases a with
  | beforePass t =>
      simp only [step] at h
      split at h <;> cases h
      exact .beforePass ‹_›
  | enter t =>
      simp only [step] at h
      split at h
      · split at h
        · cases h
          exact .skip ‹_› ‹_›
        · split at h <;> cases h
          · exact .first ‹_› ‹_› ‹_›
          · exact .wait ‹_› ‹_› ‹_›
      · cases h
  | loop t =>
      simp only [step] at h
      split at h
      · split at h <;> cases h
        · exact .leave ‹_› ‹_›
        · exact .turn ‹_› ‹_›
      · cases h
  | issue t =>
      simp only [step] at h
      split at h
      · split at h <;> cases h
        exact .issue ‹_› ‹_›
      · cases h
  | limit t =>
      simp only [step] at h
      split at h <;> cases h
      exact .limit ‹_›
  | endInterval t =>
      simp only [step] at h
      split at h <;> cases h
      exact .endInterval ‹_›
  | ioDone t =>
      simp only [step] at h
      split at h <;> cases h
      exact .ioDone ‹_›
  | collect t =>
      simp only [step] at h
      split at h <;> cases h
      exact .collect ‹_› ‹_›
  | scan t =>
      simp only [step] at h
      split at h
      · split at h
        · split at h <;> cases h
          · exact .scanSelf ‹_› ‹_› ‹_›
          · exact .scanOn ‹_› ‹_› ‹_›
        · cases h
          exact .scanFound ‹_› (Bool.eq_false_of_not_eq_true ‹_›)
      · cases h
  | decide t =>
      simp only [step] at h
      split at h
      · rename_i u status hphase
        split at h <;> cases h
        · rename_i hstop
          obtain ⟨rfl, hend⟩ := Bool.and_eq_true_iff.mp hstop
          exact .stop hphase hend
        · exact .decide hphase (Bool.eq_false_of_not_eq_true ‹_›)
      · cases h
  | pass t =>
      simp only [step] at h
      split at h
      · split at h <;> cases h
        · subst_vars
          exact .keep ‹_›
        · exact .release ‹_› ‹_›
      · cases h
  | resume t =>
      simp only [step] at h
      split at h
      · split at h <;> cases h
        · exact .finish ‹_› ‹_›
        · exact .waitAgain ‹_› (Bool.eq_false_of_not_eq_true ‹_›)
      · cases h
  | nextPass =>
      simp only [step] at h
      split at h <;> cases h
      rename_i hguard
      exact .nextPass hguard.1 hguard.2

end Xdd.Lockstep
