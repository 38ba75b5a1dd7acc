import Xdd.Lockstep.Ring

/-!
# One target at a time

A token goes around the ring: the target whose turn it is has it, and so has a target that
waits in the barrier of another one to wake it up. At the start of a pass it belongs to
the first target. A barrier opens when the one that waits for its turn and the one that
wakes it up are both in it, and the token goes from one to the other.

Whether the token is ever lost does not matter here: there is never more than one.
-/

namespace Xdd.Lockstep

variable {ring : Ring}

/-- The barrier that a target is in. -/
def Phase.inside {k : Nat} (t : Fin k) : Phase k → Option (Fin k)
  | .waiting => some t
  | .releasing u => some u
  | .beforePass | .entering | .looping | .issuing _ | .collecting | .scanning .. | .deciding ..
  | .passing _ | .released | .left => none

/-- The target may have operations outstanding. -/
def Phase.working {k : Nat} : Phase k → Bool
  | .issuing _ | .collecting => true
  | .beforePass | .entering | .waiting | .looping | .scanning .. | .deciding .. | .passing _
  | .releasing _ | .released | .left => false

/-- The target is between its wake-up and the barrier of the next one. -/
def InTurn {k : Nat} (target : Target k) : Prop :=
  match target.phase with
  | .looping => 0 < target.opsRemaining
  | .issuing _ | .collecting | .scanning .. | .deciding .. | .passing _ => True
  | .beforePass | .entering | .waiting | .releasing _ | .released | .left => False

/-- It is the turn of the target, or it is still to wake another one up, or it is the
first one and has not started the pass. -/
def HasToken (ring : Ring) (t : Fin ring.size) (target : Target ring.size) : Prop :=
  match target.phase with
  | .beforePass | .entering => t = ring.first
  | .looping => 0 < target.opsRemaining
  | .issuing _ | .collecting | .scanning .. | .deciding .. | .passing _ | .releasing _ => True
  | .waiting | .released | .left => False

/-- It is the turn of the target, or it is still to wake another one up, whatever it has
left to issue. -/
def Phase.owns {k : Nat} : Phase k → Bool
  | .issuing _ | .collecting | .scanning .. | .deciding .. | .passing _ | .releasing _ => true
  | .beforePass | .entering | .waiting | .looping | .released | .left => false

theorem HasToken.of_owns {t : Fin ring.size} {target : Target ring.size} {phase : Phase ring.size}
    (hphase : target.phase = phase) (howns : phase.owns = true) : HasToken ring t target := by
  unfold HasToken
  rw [hphase]
  cases phase <;> trivial

structure TargetOk {k : Nat} (target : Target k) : Prop where
  settled : target.phase ≠ .beforePass → target.passComplete = true → target.opsRemaining = 0
  cleared : target.phase = .entering → target.passComplete = false
  quiet : target.phase.working = false → target.outstanding = 0

/-- How many more waits than wake-ups a barrier has seen. -/
def lead (s : State ring) (t : Fin ring.size) : Int :=
  match s.barrier t with
  | none => 0
  | some u => if u = t then 1 else -1

structure Exclusive (s : State ring) : Prop where
  targets : ∀ t, TargetOk (s.target t)
  barriers : ∀ t u, s.barrier t = some u ↔ (s.target u).phase.inside u = some t
  apart : ∀ t, (s.target t).phase ≠ .releasing t
  one : ∀ t u, HasToken ring t (s.target t) → HasToken ring u (s.target u) → t = u
  balance : ∀ t, (s.waits t : Int) = s.releases t + lead s t

theorem State.forall_setTarget {s : State ring} {t : Fin ring.size} {target : Target ring.size}
    {P : Fin ring.size → Target ring.size → Prop} (ht : P t target)
    (hothers : ∀ u, u ≠ t → P u (s.target u)) (u : Fin ring.size) :
    P u ((s.setTarget t target).target u) := by
  by_cases hu : u = t
  · subst hu
    simpa [State.setTarget] using ht
  · simpa [State.setTarget, hu] using hothers u hu

namespace TargetOk

variable {k : Nat} {target : Target k}

theorem setPhase (h : TargetOk target) {phase : Phase k} (hold : target.phase ≠ .beforePass)
    (hnew : phase ≠ .entering) (hwork : phase.working = false → target.phase.working = false) :
    TargetOk { target with phase := phase } :=
  ⟨fun _ => h.settled hold, fun hentering => absurd hentering hnew,
    fun hquiet => h.quiet (hwork hquiet)⟩

end TargetOk

namespace Exclusive

variable {s s' : State ring}

theorem init (ring : Ring) : Exclusive (init ring) where
  targets _ := ⟨nofun, nofun, fun _ => rfl⟩
  barriers := by simp [Lockstep.init, Phase.inside]
  apart := nofun
  one _ _ ht hu := ht.trans hu.symm
  balance _ := rfl

/-- A target moves outside the barriers and gains no token. -/
theorem setTarget (h : Exclusive s) {t : Fin ring.size} {target : Target ring.size}
    (hold : (s.target t).phase.inside t = none) (hnew : target.phase.inside t = none)
    (htoken : HasToken ring t target → HasToken ring t (s.target t)) (hok : TargetOk target) :
    Exclusive (s.setTarget t target) := by
  have hsub : ∀ u, HasToken ring u ((s.setTarget t target).target u) →
      HasToken ring u (s.target u) :=
    State.forall_setTarget
      (P := fun u target => HasToken ring u target → HasToken ring u (s.target u)) htoken
      fun _ _ => id
  refine ⟨?_, ?_, ?_, ?_, h.balance⟩
  · exact State.forall_setTarget (P := fun _ => TargetOk) hok fun u _ => h.targets u
  · intro u
    refine State.forall_setTarget
      (P := fun v target => s.barrier u = some v ↔ target.phase.inside v = some u) ?_
      fun v _ => h.barriers u v
    rw [h.barriers, hold, hnew]
  · refine State.forall_setTarget (P := fun u target => target.phase ≠ .releasing u) ?_
      fun u _ => h.apart u
    intro heq
    rw [heq] at hnew
    cases hnew
  · intro u v hu hv
    exact h.one u v (hsub u hu) (hsub v hv)

/-- A target enters an empty barrier. -/
theorem block (h : Exclusive s) {t u : Fin ring.size} {phase : Phase ring.size}
    {waits releases : Fin ring.size → Nat} (hempty : s.barrier u = none)
    (hold : (s.target t).phase.inside t = none) (hnew : phase.inside t = some u)
    (hapart : phase ≠ .releasing t)
    (htoken : HasToken ring t { s.target t with phase := phase } → HasToken ring t (s.target t))
    (hok : TargetOk { s.target t with phase := phase })
    (hbalance : ∀ v, (waits v : Int) =
      releases v + if v = u then (if t = u then 1 else -1) else lead s v) :
    Exclusive { s.setPhase t phase with
      barrier := Function.update s.barrier u (some t)
      waits := waits
      releases := releases } := by
  have hsub : ∀ v, HasToken ring v ((s.setPhase t phase).target v) →
      HasToken ring v (s.target v) :=
    State.forall_setTarget
      (P := fun v target => HasToken ring v target → HasToken ring v (s.target v)) htoken
      fun _ _ => id
  refine ⟨?_, ?_, ?_, ?_, ?_⟩
  · exact State.forall_setTarget (P := fun _ => TargetOk) hok fun v _ => h.targets v
  · intro x
    refine State.forall_setTarget (P := fun v target =>
      Function.update s.barrier u (some t) x = some v ↔ target.phase.inside v = some x) ?_ ?_
    · by_cases hx : x = u
      · simp [hx, hnew]
      · have hnone : s.barrier x ≠ some t := by
          rw [Ne, h.barriers, hold]
          exact nofun
        simp [hx, hnew, hnone, Ne.symm hx]
    · intro v hv
      by_cases hx : x = u
      · have hnone := (h.barriers u v).not.mp (by rw [hempty]; exact nofun)
        simp [hx, Ne.symm hv, hnone]
      · simpa [hx] using h.barriers x v
  · exact State.forall_setTarget (P := fun v target => target.phase ≠ .releasing v) hapart
      fun v _ => h.apart v
  · intro v w hv hw
    exact h.one v w (hsub v hv) (hsub w hw)
  · intro v
    rw [hbalance v]
    by_cases hv : v = u
    · simp [lead, hv]
    · simp [lead, hv]

/-- The barrier of `u` opens for `v`, which is inside, and for `t`. Only `w` has a token
after that. -/
theorem unblock (h : Exclusive s) {t u v w : Fin ring.size} {phase phase' : Phase ring.size}
    {waits releases : Fin ring.size → Nat} (hinside : s.barrier u = some v)
    (hold : (s.target t).phase.inside t = none) (hnew : phase.inside t = none)
    (hnew' : phase'.inside v = none)
    (htoken : ∀ x, HasToken ring x (((s.setPhase v phase').setPhase t phase).target x) → x = w)
    (hok : TargetOk { s.target t with phase := phase })
    (hok' : TargetOk { s.target v with phase := phase' })
    (hbalance : ∀ x, (waits x : Int) = releases x + if x = u then 0 else lead s x) :
    Exclusive { (s.setPhase v phase').setPhase t phase with
      barrier := Function.update s.barrier u none
      waits := waits
      releases := releases } := by
  have hne : t ≠ v := by
    rintro rfl
    rw [h.barriers, hold] at hinside
    cases hinside
  have htarget : ((s.setPhase v phase').target t) = s.target t := by
    simp [State.setPhase, State.setTarget, hne]
  refine ⟨?_, ?_, ?_, ?_, ?_⟩
  · refine State.forall_setTarget (P := fun _ => TargetOk) (htarget ▸ hok) ?_
    intro x _
    exact State.forall_setTarget (P := fun _ => TargetOk) hok' (fun y _ => h.targets y) x
  · intro x
    have hout : ∀ y, y = t ∨ y = v → Function.update s.barrier u none x ≠ some y := by
      intro y hy
      by_cases hx : x = u
      · simp [hx]
      · rw [Function.update_of_ne hx, Ne, h.barriers]
        rcases hy with rfl | rfl
        · rw [hold]
          exact nofun
        · rw [(h.barriers u _).mp hinside]
          intro heq
          exact hx (Option.some.inj heq).symm
    refine State.forall_setTarget (P := fun y target =>
      Function.update s.barrier u none x = some y ↔ target.phase.inside y = some x) ?_ ?_
    · exact iff_of_false (hout t (.inl rfl)) (by rw [hnew]; exact nofun)
    · intro y _
      refine State.forall_setTarget (P := fun y target =>
        Function.update s.barrier u none x = some y ↔ target.phase.inside y = some x) ?_ ?_ y
      · exact iff_of_false (hout v (.inr rfl)) (by rw [hnew']; exact nofun)
      · intro z hz
        by_cases hx : x = u
        · -- the barrier of `u` held no other target
          have hnone : (s.target z).phase.inside z ≠ some u := by
            rw [Ne, ← h.barriers, hinside]
            exact fun heq => hz (Option.some.inj heq).symm
          simp [hx, hnone]
        · simpa [hx] using h.barriers x z
  · refine State.forall_setTarget (P := fun x target => target.phase ≠ .releasing x) ?_ ?_
    · rintro heq
      rw [show phase = .releasing t from heq] at hnew
      cases hnew
    · intro x _
      refine State.forall_setTarget (P := fun x target => target.phase ≠ .releasing x) ?_
        (fun y _ => h.apart y) x
      rintro heq
      rw [show phase' = .releasing v from heq] at hnew'
      cases hnew'
  · intro x y hx hy
    exact (htoken x hx).trans (htoken y hy).symm
  · intro x
    rw [hbalance x]
    by_cases hx : x = u
    · simp [lead, hx]
    · simp [lead, hx]

/-- Who is in a barrier: its own target, or one that wakes this up. -/
theorem inside_cases (h : Exclusive s) {t u : Fin ring.size} (hinside : s.barrier t = some u) :
    (u = t ∧ (s.target t).phase = .waiting) ∨ (u ≠ t ∧ (s.target u).phase = .releasing t) := by
  have hu := (h.barriers t u).mp hinside
  cases hphase : (s.target u).phase with
  | waiting =>
      rw [hphase] at hu
      obtain rfl : u = t := Option.some.inj hu
      exact .inl ⟨rfl, hphase⟩
  | releasing v =>
      rw [hphase] at hu
      obtain rfl : v = t := Option.some.inj hu
      refine .inr ⟨?_, rfl⟩
      rintro rfl
      exact h.apart u hphase
  | _ => simp [hphase, Phase.inside] at hu

/-- A target enters its own barrier: it is empty, or one that wakes the target up is in it
and both go on. -/
theorem wait_cases (h : Exclusive s) {t : Fin ring.size}
    (hold : (s.target t).phase.inside t = none) :
    (s.barrier t = none ∧ s.wait t = { s.setPhase t .waiting with
        barrier := Function.update s.barrier t (some t)
        waits := Function.update s.waits t (s.waits t + 1)
        releases := s.releases }) ∨
      ∃ u, u ≠ t ∧ s.barrier t = some u ∧ (s.target u).phase = .releasing t ∧
        s.wait t = { (s.setPhase u .released).setPhase t .looping with
          barrier := Function.update s.barrier t none
          waits := Function.update s.waits t (s.waits t + 1)
          releases := s.releases } := by
  cases hbarrier : s.barrier t with
  | none =>
      left
      refine ⟨rfl, ?_⟩
      simp only [State.wait, hbarrier]
      rfl
  | some u =>
      obtain ⟨rfl, hwaiting⟩ | ⟨hne, hreleasing⟩ := h.inside_cases hbarrier
      · rw [hwaiting] at hold
        cases hold
      · right
        refine ⟨u, hne, rfl, hreleasing, ?_⟩
        simp only [State.wait, hbarrier, State.wake, hreleasing]
        rfl

/-- The target with the token enters the barrier of another one: it is empty, or the other
one waits in it and both go on. -/
theorem release_cases (h : Exclusive s) {t u : Fin ring.size}
    (hphase : (s.target t).phase = .passing u) :
    (s.barrier u = none ∧ s.release t u = { s.setPhase t (.releasing u) with
        barrier := Function.update s.barrier u (some t)
        waits := s.waits
        releases := Function.update s.releases u (s.releases u + 1) }) ∨
      (s.barrier u = some u ∧ (s.target u).phase = .waiting ∧
        s.release t u = { (s.setPhase u .looping).setPhase t .released with
          barrier := Function.update s.barrier u none
          waits := s.waits
          releases := Function.update s.releases u (s.releases u + 1) }) := by
  cases hbarrier : s.barrier u with
  | none =>
      left
      refine ⟨rfl, ?_⟩
      simp only [State.release, hbarrier]
      rfl
  | some v =>
      obtain ⟨rfl, hwaiting⟩ | ⟨_, hreleasing⟩ := h.inside_cases hbarrier
      · right
        refine ⟨rfl, hwaiting, ?_⟩
        simp only [State.release, hbarrier, State.wake, hwaiting]
        rfl
      · -- another target that wakes `u` up would have the token as well
        obtain rfl := h.one v t (.of_owns hreleasing rfl) (.of_owns hphase rfl)
        rw [hphase] at hreleasing
        cases hreleasing

/-- A target without a token enters its own barrier. -/
theorem wait (h : Exclusive s) {t : Fin ring.size}
    (hold : (s.target t).phase.inside t = none) (hphase : (s.target t).phase ≠ .beforePass)
    (hwork : (s.target t).phase.working = false) : Exclusive (s.wait t) := by
  obtain ⟨hbarrier, hwait⟩ | ⟨u, hne, hbarrier, hreleasing, hwait⟩ := h.wait_cases hold
  · rw [hwait]
    refine h.block hbarrier hold rfl nofun nofun
      ((h.targets t).setPhase hphase nofun fun _ => hwork) ?_
    intro v
    have hbalance := h.balance v
    by_cases hv : v = t
    · subst hv
      simp only [lead, hbarrier] at hbalance
      simp only [Function.update_self, if_true]
      omega
    · simpa [hv] using hbalance
  · have htoken : HasToken ring u (s.target u) := .of_owns hreleasing rfl
    rw [hwait]
    refine h.unblock (w := t) hbarrier hold rfl rfl ?_
      ((h.targets t).setPhase hphase nofun fun _ => hwork)
      ((h.targets u).setPhase (by simp [hreleasing]) nofun fun _ => by rw [hreleasing]; rfl) ?_
    · -- the token has gone from `u` to `t`
      intro x hx
      by_contra hxt
      by_cases hxu : x = u
      · subst hxu
        simp [State.setPhase, State.setTarget, hxt, HasToken] at hx
      · have hx' : HasToken ring x (s.target x) := by
          simpa [State.setPhase, State.setTarget, hxt, hxu] using hx
        exact hxu (h.one x u hx' htoken)
    · intro v
      have hbalance := h.balance v
      by_cases hv : v = t
      · subst hv
        simp only [lead, hbarrier, if_neg hne] at hbalance
        simp only [Function.update_self, if_true]
        omega
      · simpa [hv] using hbalance

/-- The target with the token wakes another one up. -/
theorem release (h : Exclusive s) {t u : Fin ring.size} (hphase : (s.target t).phase = .passing u)
    (hne : u ≠ t) : Exclusive (s.release t u) := by
  have hold : (s.target t).phase.inside t = none := by rw [hphase]; rfl
  have htoken : HasToken ring t (s.target t) := .of_owns hphase rfl
  have hok : ∀ phase : Phase ring.size, phase ≠ .entering →
      TargetOk { s.target t with phase := phase } := by
    intro phase hnew
    exact (h.targets t).setPhase (by simp [hphase]) hnew fun _ => by rw [hphase]; rfl
  obtain ⟨hbarrier, hrelease⟩ | ⟨hbarrier, hwaiting, hrelease⟩ := h.release_cases hphase
  · rw [hrelease]
    refine h.block hbarrier hold rfl ?_ (fun _ => htoken) (hok _ nofun) ?_
    · exact fun heq => hne (Phase.releasing.inj heq)
    · intro v
      have hbalance := h.balance v
      by_cases hv : v = u
      · subst hv
        simp only [lead, hbarrier] at hbalance
        simp only [Function.update_self, if_true, if_neg hne.symm]
        omega
      · simpa [hv] using hbalance
  · rw [hrelease]
    refine h.unblock (w := u) hbarrier hold rfl rfl ?_ (hok _ nofun)
      ((h.targets u).setPhase (by simp [hwaiting]) nofun fun _ => by rw [hwaiting]; rfl) ?_
    · intro x hx
      by_contra hxu
      by_cases hxt : x = t
      · subst hxt
        simp [State.setPhase, State.setTarget, HasToken] at hx
      · have hx' : HasToken ring x (s.target x) := by
          simpa [State.setPhase, State.setTarget, hxt, hxu] using hx
        exact hxt (h.one x t hx' htoken)
    · intro x
      have hbalance := h.balance x
      by_cases hx : x = u
      · subst hx
        simp only [lead, hbarrier, if_true] at hbalance
        simp only [Function.update_self, if_true]
        omega
      · simpa [hx] using hbalance

/-- A target sets up its pass. -/
theorem start (h : Exclusive s) {t : Fin ring.size} (hphase : (s.target t).phase = .entering)
    (targetOps : Nat) : Exclusive (s.setTarget t ((s.target t).start targetOps)) := by
  have hinside : (s.target t).phase.inside t = none := by rw [hphase]; rfl
  refine h.setTarget hinside hinside ?_ ⟨?_, (h.targets t).cleared, (h.targets t).quiet⟩
  · simp [HasToken, Target.start, hphase]
  · intro _ hcomplete
    have hcleared : (s.target t).passComplete = false := (h.targets t).cleared hphase
    rw [show (s.target t).passComplete = true from hcomplete] at hcleared
    cases hcleared

theorem start_phase {t : Fin ring.size} (hphase : (s.target t).phase = .entering)
    (targetOps : Nat) :
    ((s.setTarget t ((s.target t).start targetOps)).target t).phase = .entering := by
  simpa [State.setTarget, Target.start] using hphase

theorem nextPass (h : Exclusive s) (hleft : ∀ t, (s.target t).phase = .left) :
    Exclusive { s with
      pass := s.pass + 1
      target := fun t => { s.target t with phase := .beforePass } } := by
  refine ⟨?_, ?_, nofun, ?_, h.balance⟩
  · intro t
    refine ⟨nofun, nofun, fun _ => (h.targets t).quiet ?_⟩
    rw [hleft t]
    rfl
  · intro t u
    rw [h.barriers, hleft u]
    rfl
  · exact fun _ _ ht hu => ht.trans hu.symm

theorem setPhase (h : Exclusive s) {t : Fin ring.size} {phase : Phase ring.size}
    (hold : (s.target t).phase.inside t = none) (hnew : phase.inside t = none)
    (htoken : HasToken ring t { s.target t with phase := phase } → HasToken ring t (s.target t))
    (hphase : (s.target t).phase ≠ .beforePass) (hentering : phase ≠ .entering)
    (hwork : phase.working = false → (s.target t).phase.working = false) :
    Exclusive (s.setPhase t phase) :=
  h.setTarget hold hnew htoken ((h.targets t).setPhase hphase hentering hwork)

/-- A target that has the token moves outside the barriers. -/
theorem proceed (h : Exclusive s) {t : Fin ring.size} {phase phase' : Phase ring.size}
    (hphase : (s.target t).phase = phase) (howns : phase.owns = true)
    (hold : phase.inside t = none) (hnew : phase'.inside t = none) (hentering : phase' ≠ .entering)
    (hwork : phase'.working = false → phase.working = false) : Exclusive (s.setPhase t phase') := by
  subst hphase
  refine h.setPhase hold hnew (fun _ => .of_owns rfl howns) ?_ hentering hwork
  intro heq
  rw [heq] at howns
  cases howns

theorem step (h : Exclusive s) {a : Action ring} (hs : Step ring s a s') : Exclusive s' := by
  cases hs with
  | @beforePass t hphase =>
      refine h.setTarget (by rw [hphase]; rfl) rfl ?_ ⟨?_, fun _ => rfl, fun _ => ?_⟩
      · simp [HasToken, hphase]
      · nofun
      · exact (h.targets t).quiet (by rw [hphase]; rfl)
  | @skip t hphase _ =>
      have hstart := start_phase hphase (ring.options t).targetOps
      exact (h.start hphase _).setPhase (by rw [hstart]; rfl) rfl nofun (by simp [hstart]) nofun
        fun _ => by rw [hstart]; rfl
  | @first t hphase _ hfirst =>
      have hstart := start_phase hphase (ring.options t).targetOps
      refine (h.start hphase _).setPhase (by rw [hstart]; rfl) rfl ?_ (by simp [hstart]) nofun
        fun _ => by rw [hstart]; rfl
      intro _
      rw [HasToken, hstart]
      exact hfirst
  | @wait t hphase _ _ =>
      have hstart := start_phase hphase (ring.options t).targetOps
      exact (h.start hphase _).wait (by rw [hstart]; rfl) (by simp [hstart]) (by rw [hstart]; rfl)
  | @leave t hphase _ =>
      exact h.setPhase (by rw [hphase]; rfl) rfl nofun (by simp [hphase]) nofun
        fun _ => by rw [hphase]; rfl
  | @turn t hphase hops =>
      refine h.setPhase (by rw [hphase]; rfl) rfl ?_ (by simp [hphase]) nofun nofun
      intro _
      rw [HasToken, hphase]
      exact Nat.pos_of_ne_zero hops
  | @issue t ops hphase _ =>
      refine h.setTarget (by rw [hphase]; rfl) rfl ?_ ⟨?_, nofun, nofun⟩
      · exact fun _ => .of_owns hphase rfl
      · intro _ hcomplete
        have hsettled := (h.targets t).settled (by simp [hphase]) hcomplete
        exact Nat.sub_eq_zero_of_le (hsettled.trans_le (Nat.zero_le 1))
  | limit hphase => exact h.proceed hphase rfl rfl rfl nofun nofun
  | endInterval hphase => exact h.proceed hphase rfl rfl rfl nofun nofun
  | @ioDone t outstanding hout =>
      have hwork : (s.target t).phase.working = true := by
        by_contra hquiet
        have hzero := (h.targets t).quiet (Bool.eq_false_of_not_eq_true hquiet)
        omega
      have hinside : (s.target t).phase.inside t = none := by
        cases hphase : (s.target t).phase <;> simp [hphase, Phase.working, Phase.inside] at hwork ⊢
      refine h.setTarget hinside hinside (fun htoken => htoken)
        ⟨(h.targets t).settled, (h.targets t).cleared, ?_⟩
      intro hquiet
      rw [show (s.target t).phase.working = false from hquiet] at hwork
      cases hwork
  | @collect t hphase hout =>
      refine h.setTarget (by rw [hphase]; rfl) rfl ?_ ⟨?_, nofun, fun _ => hout⟩
      · exact fun _ => .of_owns hphase rfl
      · intro _ hcomplete
        rcases Bool.or_eq_true_iff.mp hcomplete with hcomplete | hops
        · exact (h.targets t).settled (by simp [hphase]) hcomplete
        · exact eq_of_beq hops
  | scanSelf hphase => exact h.proceed hphase rfl rfl rfl nofun fun _ => rfl
  | scanOn hphase => exact h.proceed hphase rfl rfl rfl nofun fun _ => rfl
  | scanFound hphase => exact h.proceed hphase rfl rfl rfl nofun fun _ => rfl
  | @stop t u hphase _ =>
      refine h.setTarget (by rw [hphase]; rfl) rfl ?_ ⟨fun _ _ => rfl, nofun, ?_⟩
      · exact fun _ => .of_owns hphase rfl
      · exact fun _ => (h.targets t).quiet (by rw [hphase]; rfl)
  | decide hphase => exact h.proceed hphase rfl rfl rfl nofun fun _ => rfl
  | keep hphase => exact h.proceed hphase rfl rfl rfl nofun fun _ => rfl
  | release hphase hne => exact h.release hphase hne
  | @finish t hphase hcomplete =>
      refine h.setPhase (by rw [hphase]; rfl) rfl ?_ (by simp [hphase]) nofun
        fun _ => by rw [hphase]; rfl
      -- a target that has completed its pass has nothing left to issue
      intro hops
      have hsettled := (h.targets t).settled (by simp [hphase]) hcomplete
      exact absurd hsettled (Nat.pos_iff_ne_zero.mp hops)
  | @waitAgain t hphase _ =>
      exact h.wait (by rw [hphase]; rfl) (by simp [hphase]) (by rw [hphase]; rfl)
  | nextPass hleft _ => exact h.nextPass hleft

theorem of_reach {ok : State ring → Action ring → Prop}
    (hreach : Transition.Reach (Lockstep.step ring) ok (Lockstep.init ring) s) : Exclusive s :=
  hreach.invariant (Exclusive.init ring) fun _ _ _ h _ hstep => h.step (.of_eq_some hstep)

end Exclusive

/-! ## Turns and wake-ups -/

/-- The target is in its turn or has operations outstanding. -/
def Busy {k : Nat} (target : Target k) : Prop := InTurn target ∨ 0 < target.outstanding

/-- The targets that are in the barrier of `t` to wake it up. -/
def releasers (s : State ring) (t : Fin ring.size) : Finset (Fin ring.size) :=
  Finset.univ.filter fun u => (s.target u).phase = .releasing t

/-- The target is in its own barrier. -/
def isWaiting (s : State ring) (t : Fin ring.size) : Nat :=
  if (s.target t).phase = .waiting then 1 else 0

/-- Every wait of the target goes with one wake-up: the numbers are the same, but for the
one that is first in the barrier. -/
def Paired (s : State ring) (t : Fin ring.size) : Prop :=
  s.waits t + (releasers s t).card = s.releases t + isWaiting s t ∧
    (releasers s t).card + isWaiting s t ≤ 1

theorem Exclusive.hasToken_of_busy {s : State ring} (h : Exclusive s) {t : Fin ring.size}
    (hbusy : Busy (s.target t)) : HasToken ring t (s.target t) := by
  rcases hbusy with hturn | hout
  · unfold InTurn at hturn
    unfold HasToken
    split at hturn <;> simp_all
  · have hwork : (s.target t).phase.working = true := by
      by_contra hquiet
      have hzero := (h.targets t).quiet (Bool.eq_false_of_not_eq_true hquiet)
      omega
    unfold HasToken
    cases hphase : (s.target t).phase <;> simp [hphase, Phase.working] at hwork ⊢

theorem Exclusive.paired {s : State ring} (h : Exclusive s) (t : Fin ring.size) : Paired s t := by
  have hbalance := h.balance t
  have hmem : ∀ u, u ∈ releasers s t ↔ (s.target u).phase = .releasing t := by simp [releasers]
  cases hbarrier : s.barrier t with
  | none =>
      have hnone : ∀ u, (s.target u).phase.inside u ≠ some t := by
        intro u
        rw [Ne, ← h.barriers, hbarrier]
        exact nofun
      have hempty : releasers s t = ∅ := by
        refine Finset.eq_empty_of_forall_notMem fun u hu => hnone u ?_
        rw [(hmem u).mp hu]
        rfl
      have hwaiting : (s.target t).phase ≠ .waiting := by
        intro heq
        apply hnone t
        rw [heq]
        rfl
      simp only [lead, hbarrier] at hbalance
      simp only [Paired, hempty, Finset.card_empty, isWaiting, if_neg hwaiting]
      omega
  | some u =>
      have honly : ∀ v, (s.target v).phase = .releasing t → v = u := by
        intro v hv
        have hinside := (h.barriers t v).mpr (by rw [hv]; rfl)
        rw [hbarrier] at hinside
        exact (Option.some.inj hinside).symm
      obtain ⟨rfl, hwaiting⟩ | ⟨hne, hreleasing⟩ := h.inside_cases hbarrier
      · have hempty : releasers s u = ∅ := by
          refine Finset.eq_empty_of_forall_notMem fun v hv => ?_
          have hphase := (hmem v).mp hv
          obtain rfl := honly v hphase
          rw [hwaiting] at hphase
          cases hphase
        simp only [lead, hbarrier, if_true] at hbalance
        simp only [Paired, hempty, Finset.card_empty, isWaiting, if_pos hwaiting]
        omega
      · have hone : releasers s t = {u} := by
          ext v
          rw [hmem, Finset.mem_singleton]
          constructor
          · exact honly v
          · rintro rfl
            exact hreleasing
        have hwaiting : (s.target t).phase ≠ .waiting := by
          intro heq
          have hinside := (h.barriers t t).mpr (by rw [heq]; rfl)
          rw [hbarrier] at hinside
          exact hne (Option.some.inj hinside)
        simp only [lead, hbarrier, if_neg hne] at hbalance
        simp only [Paired, hone, Finset.card_singleton, isWaiting, if_neg hwaiting]
        omega

/-- In every run, whatever the settings of the targets, at most one target is in its turn
or has operations outstanding, and no barrier sees two wake-ups for one wait. -/
theorem lockstep_exclusive {s : State ring}
    (hreach : Transition.Reach (step ring) Transition.anyStep (init ring) s) :
    (∀ t u, Busy (s.target t) → Busy (s.target u) → t = u) ∧ ∀ t, Paired s t := by
  have h := Exclusive.of_reach hreach
  refine ⟨?_, h.paired⟩
  intro t u ht hu
  exact h.one t u (h.hasToken_of_busy ht) (h.hasToken_of_busy hu)

theorem next_cyclic (t u : Fin 2) : ∃ m, Fin.rev^[m] t = u := by
  refine ⟨(u - t).val, ?_⟩
  revert t u
  decide

/-- Two targets with two operations each, for two passes. They change turns after every
operation. -/
def twoTargets (endStop : Bool) : Ring where
  size := 2
  two_le_size := le_rfl
  next := Fin.rev
  cyclic := next_cyclic
  first := ⟨0, Nat.two_pos⟩
  options := fun _ => ⟨2, 1, Nat.one_pos, 1, Nat.one_pos, endStop⟩
  passes := 2

/-- The second target has issued its first operation. -/
theorem lockstep_exclusive_twoTargets : ∃ s : State (twoTargets false),
    (s.target 1).outstanding = 1 ∧ (∀ t, Busy (s.target t) → t = 1) ∧ ∀ t, Paired s t := by
  obtain ⟨s, hreach, hout⟩ : ∃ s, Transition.Reach (step (twoTargets false)) Transition.anyStep
      (init (twoTargets false)) s ∧ (s.target 1).outstanding = 1 :=
    Transition.exists_reach_of_run
      [.beforePass 0, .enter 0, .loop 0, .issue 0, .endInterval 0, .ioDone 0, .collect 0, .scan 0,
        .decide 0, .pass 0, .beforePass 1, .enter 1, .resume 0, .loop 1, .issue 1]
      (by decide +kernel)
  have h := lockstep_exclusive hreach
  refine ⟨s, hout, ?_, h.2⟩
  intro t ht
  exact h.1 t 1 ht (.inr (hout.symm ▸ Nat.one_pos))

end Xdd.Lockstep
