import Xdd.Library.Account
import Xdd.Lockstep.Stranded

/-!
# Every run comes to an end

A target that has its turn takes up at least one operation, and what it does until its
next turn is bounded: it waits for its workers, looks once around the ring, and wakes one
target up. So the operations of a pass pay for all steps of the pass. With the progress of
the ring this means that every run can be continued until the last pass is over, and not
beyond that.
-/

namespace Xdd.Lockstep

variable {ring : Ring}

/-! ## What a target may still do -/

namespace Ring

/-- How far it is along the ring from `u` to `t`. -/
def distance (ring : Ring) (u t : Fin ring.size) : Nat :=
  Nat.find (ring.cyclic u t)

theorem distance_next_lt (ring : Ring) {u t : Fin ring.size} (hne : u ≠ t) :
    ring.distance (ring.next u) t < ring.distance u t := by
  have hspec : ring.next^[ring.distance u t] u = t := Nat.find_spec (ring.cyclic u t)
  cases hdistance : ring.distance u t with
  | zero =>
      rw [hdistance] at hspec
      exact absurd hspec hne
  | succ m =>
      rw [hdistance, Function.iterate_succ_apply] at hspec
      exact Nat.lt_succ_of_le (Nat.find_min' (ring.cyclic (ring.next u) t) hspec)

/-- How far it is once around the ring, from the next target on. -/
def lap (ring : Ring) (t : Fin ring.size) : Nat :=
  ring.distance (ring.next t) t

/-- The steps that one operation pays for. -/
def price (ring : Ring) (t : Fin ring.size) : Nat :=
  11 + ring.lap t

/-- The steps that all operations of a pass pay for, and the start of the pass. -/
def passPrice (ring : Ring) : Nat :=
  ∑ t, (3 + ring.price t * (ring.options t).targetOps) + 1

end Ring

/-- A bound for the steps of a target before it waits or has its next turn. Who wakes
another one up pays for the step of both. -/
def Phase.weight (ring : Ring) (t : Fin ring.size) : Phase ring.size → Nat
  | .waiting | .left => 0
  | .looping => 1
  | .released | .entering => 2
  | .beforePass => 3
  | .releasing _ => 4
  | .passing _ => 5
  | .deciding .. => 6
  | .scanning u _ => 7 + ring.distance u t
  | .collecting => 8 + ring.lap t
  | .issuing ops => 9 + ring.lap t + 2 * ops

/-- The operations of the pass that the target has not taken up in a turn. -/
def Target.toTake {k : Nat} (targetOps : Nat) (target : Target k) : Nat :=
  match target.phase with
  | .beforePass | .entering => targetOps
  | .issuing ops => target.opsRemaining - ops
  | .waiting | .looping | .collecting | .scanning .. | .deciding .. | .passing _ | .releasing _
  | .released | .left => target.opsRemaining

def potential (ring : Ring) (t : Fin ring.size) (target : Target ring.size) : Nat :=
  target.phase.weight ring t + target.outstanding +
    ring.price t * target.toTake (ring.options t).targetOps

/-- A bound for the steps of all runs from here. -/
def rank (s : State ring) : Nat :=
  (ring.passes - s.pass) * ring.passPrice + ∑ t, potential ring t (s.target t)

/-! ## Every step lowers the rank -/

variable {s s' : State ring} {t u : Fin ring.size}

theorem rank_setTarget_lt {target : Target ring.size}
    (h : potential ring t target < potential ring t (s.target t)) :
    rank (s.setTarget t target) < rank s :=
  Nat.add_lt_add_left (Account.sum_update_lt s.target t target (potential ring) h) _

/-- A target moves on, with the same operations before it. -/
theorem potential_setPhase {target : Target ring.size} {old phase : Phase ring.size}
    (hold : target.phase = old)
    (htake : Target.toTake (ring.options t).targetOps { target with phase := phase } =
      Target.toTake (ring.options t).targetOps { target with phase := old }) :
    potential ring t { target with phase := phase } + old.weight ring t =
      potential ring t target + phase.weight ring t := by
  subst hold
  have hsame : Target.toTake (ring.options t).targetOps { target with phase := phase } =
      target.toTake (ring.options t).targetOps := htake
  simp only [potential, hsame]
  omega

theorem rank_setPhase_lt {old phase : Phase ring.size} (hold : (s.target t).phase = old)
    (hweight : phase.weight ring t < old.weight ring t)
    (htake : Target.toTake (ring.options t).targetOps { s.target t with phase := phase } =
      Target.toTake (ring.options t).targetOps { s.target t with phase := old }) :
    rank (s.setPhase t phase) < rank s := by
  have hpotential := potential_setPhase hold htake
  apply rank_setTarget_lt
  dsimp only
  omega

/-- Two targets leave a barrier. -/
theorem rank_handOver_lt (hne : t ≠ u) {old phase old' phase' : Phase ring.size}
    (hold : (s.target t).phase = old) (hold' : (s.target u).phase = old')
    (hweight : phase.weight ring t + phase'.weight ring u <
      old.weight ring t + old'.weight ring u)
    (htake : Target.toTake (ring.options t).targetOps { s.target t with phase := phase } =
      Target.toTake (ring.options t).targetOps { s.target t with phase := old })
    (htake' : Target.toTake (ring.options u).targetOps { s.target u with phase := phase' } =
      Target.toTake (ring.options u).targetOps { s.target u with phase := old' }) :
    rank ((s.setPhase u phase').setPhase t phase) < rank s := by
  have hsame : (s.setPhase u phase').target t = s.target t := by
    simp [State.setPhase, State.setTarget, hne]
  have hpotential := potential_setPhase hold htake
  have hpotential' := potential_setPhase hold' htake'
  rw [State.setPhase, hsame]
  refine Nat.add_lt_add_left (Account.sum_update_update_lt s.target hne _ _ (potential ring) ?_) _
  dsimp only
  omega

/-- A target enters its own barrier, after it has woken another one up or at the start of
its pass. -/
theorem rank_wait_lt (hex : Exclusive s) {old : Phase ring.size} (hold : (s.target t).phase = old)
    (hinside : old.inside t = none) (hweight : old.weight ring t = 2)
    (htake : (s.target t).opsRemaining =
      Target.toTake (ring.options t).targetOps { s.target t with phase := old }) :
    rank (s.wait t) < rank s := by
  rw [← hold] at hinside
  obtain ⟨_, hwait⟩ | ⟨u, hne, _, hreleasing, hwait⟩ := hex.wait_cases hinside
  · rw [hwait]
    have hlower : rank (s.setPhase t .waiting) < rank s :=
      rank_setPhase_lt hold (by rw [hweight]; simp [Phase.weight]) htake
    exact hlower
  · rw [hwait]
    have hlower : rank ((s.setPhase u .released).setPhase t .looping) < rank s :=
      rank_handOver_lt hne.symm hold hreleasing (by rw [hweight]; simp [Phase.weight]) htake rfl
    exact hlower

/-- The target with the token wakes another one up. -/
theorem rank_release_lt (hex : Exclusive s) (hphase : (s.target t).phase = .passing u)
    (hne : u ≠ t) : rank (s.release t u) < rank s := by
  obtain ⟨_, hrelease⟩ | ⟨_, hwaiting, hrelease⟩ := hex.release_cases hphase
  · rw [hrelease]
    have hlower : rank (s.setPhase t (.releasing u)) < rank s :=
      rank_setPhase_lt hphase (by simp [Phase.weight]) rfl
    exact hlower
  · rw [hrelease]
    have hlower : rank ((s.setPhase u .looping).setPhase t .released) < rank s :=
      rank_handOver_lt hne.symm hphase hwaiting (by simp [Phase.weight]) rfl rfl
    exact hlower

/-- The operations that a target takes up pay for the turn. -/
theorem rank_turn_lt (hphase : (s.target t).phase = .looping) {ops : Nat} (hpos : 0 < ops)
    (hle : ops ≤ (s.target t).opsRemaining) : rank (s.setPhase t (.issuing ops)) < rank s := by
  apply rank_setTarget_lt
  obtain ⟨rest, hrest⟩ := Nat.exists_eq_add_of_le hle
  have hpaid : 9 + ring.lap t + 2 * ops ≤ ring.price t * ops := by
    have hmul : 9 + ring.lap t ≤ (9 + ring.lap t) * ops := Nat.le_mul_of_pos_right _ hpos
    calc 9 + ring.lap t + 2 * ops ≤ (9 + ring.lap t) * ops + 2 * ops := by omega
      _ = ring.price t * ops := by rw [← Nat.add_mul, Ring.price]; congr 1; omega
  simp only [potential, Phase.weight, Target.toTake, hphase, hrest, Nat.add_sub_cancel_left,
    Nat.mul_add]
  omega

/-- Nothing is counted twice when a target sets up its pass. -/
theorem rank_start (hphase : (s.target t).phase = .entering) (targetOps : Nat) :
    rank (s.setTarget t ((s.target t).start targetOps)) = rank s := by
  unfold rank
  congr 1
  apply Finset.sum_congr rfl
  intro u _
  by_cases hu : u = t
  · subst hu
    simp [State.setTarget, potential, Target.start, Target.toTake, hphase]
  · simp [State.setTarget, hu]

/-- A pass that is over pays for the next one. -/
theorem rank_nextPass_lt (hpass : s.pass < ring.passes) :
    rank { s with
      pass := s.pass + 1
      target := fun t => { s.target t with phase := .beforePass } } < rank s := by
  obtain ⟨more, hmore⟩ := Nat.exists_eq_add_of_lt hpass
  have hsum : ∑ t, potential ring t { s.target t with phase := .beforePass } + 1 ≤
      ∑ t, potential ring t (s.target t) + ring.passPrice := by
    rw [Ring.passPrice, ← Nat.add_assoc, ← Finset.sum_add_distrib]
    gcongr with t
    simp only [potential, Phase.weight, Target.toTake]
    omega
  have hnow : ring.passes - s.pass = more + 1 := by omega
  have hnext : ring.passes - (s.pass + 1) = more := by omega
  simp only [rank, hnow, hnext, Nat.add_mul, Nat.one_mul] at hsum ⊢
  omega

theorem Turning.rank_lt (h : Turning ring s.target) (hex : Exclusive s) {a : Action ring}
    (hok : Current ring s a) (hs : Step ring s a s') : rank s' < rank s := by
  cases hs with
  | @beforePass t hphase =>
      apply rank_setTarget_lt
      simp only [potential, Phase.weight, Target.toTake, hphase]
      omega
  | @skip t hphase _ =>
      rw [← rank_start hphase (ring.options t).targetOps]
      refine rank_setPhase_lt (Exclusive.start_phase hphase _) (by simp [Phase.weight]) ?_
      simp [Target.toTake, State.setTarget, Target.start]
  | @first t hphase _ _ =>
      rw [← rank_start hphase (ring.options t).targetOps]
      refine rank_setPhase_lt (Exclusive.start_phase hphase _) (by simp [Phase.weight]) ?_
      simp [Target.toTake, State.setTarget, Target.start]
  | @wait t hphase _ _ =>
      rw [← rank_start hphase (ring.options t).targetOps]
      refine rank_wait_lt (hex.start hphase _) (Exclusive.start_phase hphase _) rfl rfl ?_
      simp [Target.toTake, State.setTarget, Target.start]
  | leave hphase _ => exact rank_setPhase_lt hphase (by simp [Phase.weight]) rfl
  | @turn t hphase hne =>
      refine rank_turn_lt hphase ?_ (min_le_left _ _)
      exact lt_min (Nat.pos_of_ne_zero hne) (ring.options t).intervalValue_pos
  | @issue t ops hphase _ =>
      apply rank_setTarget_lt
      have hsame : (s.target t).opsRemaining - 1 - ops = (s.target t).opsRemaining - (ops + 1) := by
        omega
      simp only [potential, Phase.weight, Target.toTake, hphase, hsame]
      omega
  | limit => exact hok.elim
  | endInterval hphase => exact rank_setPhase_lt hphase (by simp [Phase.weight]) rfl
  | @ioDone t outstanding hout =>
      apply rank_setTarget_lt
      simp only [potential, Target.toTake, hout]
      omega
  | @collect t hphase _ =>
      apply rank_setTarget_lt
      simp only [potential, Phase.weight, Target.toTake, hphase, Ring.lap]
      omega
  | scanSelf hphase _ _ => exact rank_setPhase_lt hphase (by simp only [Phase.weight]; omega) rfl
  | @scanOn t u _ hphase _ _ =>
      have hscanned := h.scanned t
      simp only [Scanned, hphase] at hscanned
      have hcloser := ring.distance_next_lt hscanned.1
      exact rank_setPhase_lt hphase (by simp only [Phase.weight]; omega) rfl
  | scanFound hphase _ => exact rank_setPhase_lt hphase (by simp only [Phase.weight]; omega) rfl
  | @stop t u hphase _ =>
      apply rank_setTarget_lt
      simp only [potential, Phase.weight, Target.toTake, hphase, Nat.mul_zero]
      omega
  | decide hphase _ => exact rank_setPhase_lt hphase (by simp [Phase.weight]) rfl
  | keep hphase => exact rank_setPhase_lt hphase (by simp [Phase.weight]) rfl
  | release hphase hne => exact rank_release_lt hex hphase hne
  | finish hphase _ => exact rank_setPhase_lt hphase (by simp [Phase.weight]) rfl
  | waitAgain hphase _ => exact rank_wait_lt hex hphase rfl rfl rfl
  | nextPass _ hpass => exact rank_nextPass_lt hpass

/-! ## The runs of the ring -/

/-- No run has more steps than the operations of all passes pay for. -/
theorem length_le_rank (hops : ∀ t, 0 < (ring.options t).targetOps) {actions : List (Action ring)}
    (hrun : Transition.run (Transition.guarded (step ring) (Current ring)) actions (init ring) =
      some s) : actions.length ≤ rank (init ring) := by
  have hle := Transition.length_add_rank_le (fun s a s' hreach hok hs =>
    (Turning.of_reach hops hreach).rank_lt (Exclusive.of_reach hreach) hok (.of_eq_some hs))
    .init actions hrun
  omega

/-- In every run in which no target looks at a bit of the pass before, no target is ever
left waiting by all others, a target that has left has issued all of its operations unless
it stopped because of another one, and there is a next step until the last pass is over,
which it is after a bounded number of steps. -/
theorem lockstep_keeps_turning (hops : ∀ t, 0 < (ring.options t).targetOps)
    (hreach : Transition.Reach (step ring) (Current ring) (init ring) s) :
    (∀ t, ¬ Stranded s t) ∧
      (∀ t, (s.target t).phase = .left → (s.target t).stopped = false →
        (s.target t).issued = (ring.options t).targetOps) ∧
      (Finished s ∨ ∃ a s', Current ring s a ∧ step ring s a = some s') ∧
      ∀ actions, Transition.run (Transition.guarded (step ring) (Current ring)) actions
        (init ring) = some s → actions.length ≤ rank (init ring) := by
  have hex := Exclusive.of_reach hreach
  have h := Turning.of_reach hops hreach
  refine ⟨h.not_stranded hex, ?_, h.progress hex, fun _ hrun => length_le_rank hops hrun⟩
  intro t hleft hstopped
  have hcount := (h.steady t).count (by simp [hleft]) (by simp [hleft]) hstopped
  rwa [(h.steady t).left hleft] at hcount

/-- The second of two targets leaves last, and has issued its two operations. -/
theorem lockstep_keeps_turning_twoTargets : ∃ s : State (twoTargets false),
    (∀ t, (s.target t).phase = .left) ∧ (s.target 1).issued = 2 ∧
      ∃ a s', Current (twoTargets false) s a ∧ step (twoTargets false) s a = some s' := by
  obtain ⟨s, hreach, hleft, hstopped, hpass⟩ :
      ∃ s, Transition.Reach (step (twoTargets false)) (Current (twoTargets false))
        (init (twoTargets false)) s ∧ (∀ t, (s.target t).phase = .left) ∧
          (s.target 1).stopped = false ∧ s.pass = 1 :=
    Transition.exists_reach_of_run
      [.beforePass 0, .enter 0, .beforePass 1, .enter 1,
        .loop 0, .issue 0, .endInterval 0, .ioDone 0, .collect 0, .scan 0, .decide 0, .pass 0,
        .resume 0,
        .loop 1, .issue 1, .endInterval 1, .ioDone 1, .collect 1, .scan 1, .decide 1, .pass 1,
        .resume 1,
        .loop 0, .issue 0, .endInterval 0, .ioDone 0, .collect 0, .scan 0, .decide 0, .pass 0,
        .resume 0, .loop 0,
        .loop 1, .issue 1, .endInterval 1, .ioDone 1, .collect 1, .scan 1, .decide 1, .pass 1,
        .loop 1] (by decide +kernel)
  obtain ⟨_, hissued, hnext, _⟩ := lockstep_keeps_turning (fun _ => Nat.two_pos) hreach
  refine ⟨s, hleft, hissued 1 (hleft 1) hstopped, ?_⟩
  rcases hnext with ⟨_, hlast⟩ | hnext
  · rw [hpass] at hlast
    exact absurd hlast (by decide)
  · exact hnext

/-- In the second pass the second target is late. The first one still sees its bit of the
first pass, issues everything alone and leaves, and the second one waits for ever. -/
theorem target_stranded : ∃ s : State (twoTargets false),
    Transition.Reach (step (twoTargets false)) NoLimit (init (twoTargets false)) s ∧
      s.pass = 2 ∧ Stranded s 1 ∧ (s.target 1).issued = 0 :=
  Transition.exists_reach_of_run (List.flatten [
    [.beforePass 0, .enter 0, .beforePass 1, .enter 1],
    [.loop 0, .issue 0, .endInterval 0, .ioDone 0, .collect 0, .scan 0, .decide 0, .pass 0,
      .resume 0],
    [.loop 1, .issue 1, .endInterval 1, .ioDone 1, .collect 1, .scan 1, .decide 1, .pass 1,
      .resume 1],
    [.loop 0, .issue 0, .endInterval 0, .ioDone 0, .collect 0, .scan 0, .decide 0, .pass 0,
      .resume 0, .loop 0],
    [.loop 1, .issue 1, .endInterval 1, .ioDone 1, .collect 1, .scan 1, .decide 1, .pass 1,
      .loop 1],
    [.nextPass, .beforePass 0, .enter 0],
    [.loop 0, .issue 0, .endInterval 0, .ioDone 0, .collect 0, .scan 0, .decide 0, .pass 0],
    [.loop 0, .issue 0, .endInterval 0, .ioDone 0, .collect 0, .scan 0, .decide 0, .pass 0,
      .loop 0],
    [.beforePass 1, .enter 1]]) (by decide +kernel)

end Xdd.Lockstep
