import Xdd.Lockstep.Exclusion

/-!
# Whether every target gets its turn

The target whose turn it is passes over every target that has completed its pass, and if
it finds no other it goes on alone. It tells by the completion bits, and a target clears
its own bit some time after the pass has started. A target that is late still shows the
bit of the pass before, is passed over, and waits for ever once the others are done.

As long as no bit of the pass before is looked at, the token is not lost: some target has
it until all have completed the pass, every target issues all of its operations unless it
stops because another one has completed, and the passes go on to the last one.
-/

namespace Xdd.Lockstep

variable {ring : Ring}

/-- The target looks at a bit that is left over from the pass before. -/
def looksBack (s : State ring) (t : Fin ring.size) : Bool :=
  match (s.target t).phase with
  | .scanning u _ => decide ((s.target u).phase = .beforePass) && (s.target u).passComplete
  | _ => false

/-- No limit is met. -/
def NoLimit (_ : State ring) : Action ring → Prop
  | .limit _ => False
  | _ => True

instance (s : State ring) : (a : Action ring) → Decidable (NoLimit s a)
  | .limit _ => isFalse id
  | .beforePass _ | .enter _ | .loop _ | .issue _ | .endInterval _ | .ioDone _ | .collect _
  | .scan _ | .decide _ | .pass _ | .resume _ | .nextPass => isTrue trivial

/-- No limit is met, and no target looks at a bit of the pass before. -/
def Current (ring : Ring) (s : State ring) : Action ring → Prop
  | .limit _ => False
  | .scan t => looksBack s t = false
  | _ => True

instance (ring : Ring) (s : State ring) : (a : Action ring) → Decidable (Current ring s a)
  | .limit _ => isFalse id
  | .scan _ => inferInstanceAs (Decidable (_ = _))
  | .beforePass _ | .enter _ | .loop _ | .issue _ | .endInterval _ | .ioDone _ | .collect _
  | .decide _ | .pass _ | .resume _ | .nextPass => isTrue trivial

/-! ## The ring -/

namespace Ring

theorem next_ne (ring : Ring) (t : Fin ring.size) : ring.next t ≠ t := by
  intro hfix
  have hall : ∀ u, u = t := by
    intro u
    obtain ⟨m, rfl⟩ := ring.cyclic t u
    exact Function.iterate_fixed hfix m
  have hsize := ring.two_le_size
  have hval : (⟨0, by omega⟩ : Fin ring.size) = ⟨1, by omega⟩ := (hall _).trans (hall _).symm
  cases hval

/-- Who goes around the ring meets everybody. -/
theorem forall_of_iterate (ring : Ring) {t : Fin ring.size} {m : Nat}
    (hback : ring.next^[m + 2] t = t) {P : Fin ring.size → Prop}
    (h : ∀ i ≤ m, P (ring.next^[i + 1] t)) : ∀ u, u ≠ t → P u := by
  intro u hu
  obtain ⟨j, rfl⟩ := ring.cyclic t u
  have hperiod : Function.IsPeriodicPt ring.next (m + 2) t := hback
  have hmod : ring.next^[j % (m + 2)] t = ring.next^[j] t := hperiod.iterate_mod_apply j
  have hlt : j % (m + 2) < m + 2 := Nat.mod_lt j (by omega)
  cases hj : j % (m + 2) with
  | zero =>
      rw [hj] at hmod
      exact absurd hmod.symm hu
  | succ i =>
      rw [← hmod, hj]
      exact h i (by omega)

end Ring

/-! ## The token is kept -/

/-- The target has completed the pass. -/
def Complete {k : Nat} (target : Target k) : Prop :=
  target.phase ≠ .beforePass ∧ target.passComplete = true

theorem Complete.setPhase {k : Nat} {target : Target k} (h : Complete target) {phase : Phase k}
    (hphase : phase ≠ .beforePass) : Complete { target with phase := phase } :=
  ⟨hphase, h.2⟩

/-- A bit that is looked at is one of this pass. -/
theorem complete_of_current {s : State ring} {t u : Fin ring.size} {status : Bool}
    (hok : Current ring s (.scan t)) (hphase : (s.target t).phase = .scanning u status)
    (hcomplete : (s.target u).passComplete = true) : Complete (s.target u) := by
  refine ⟨?_, hcomplete⟩
  intro hbefore
  have hback : looksBack s t = true := by
    rw [looksBack, hphase]
    simp [hbefore, hcomplete]
  rw [show looksBack s t = false from hok] at hback
  cases hback

/-- The target has not yet decided whether it has completed the pass. -/
def Phase.early {k : Nat} : Phase k → Bool
  | .beforePass | .entering | .issuing _ | .collecting => true
  | .waiting | .looping | .scanning .. | .deciding .. | .passing _ | .releasing _ | .released
  | .left => false

/-- The phase says nothing about what is left to issue. -/
def Phase.plain {k : Nat} : Phase k → Bool
  | .waiting | .issuing _ | .left => false
  | .beforePass | .entering | .looping | .collecting | .scanning .. | .deciding .. | .passing _
  | .releasing _ | .released => true

structure Steady (ring : Ring) (t : Fin ring.size) (target : Target ring.size) : Prop where
  done : target.phase.early = false → target.opsRemaining = 0 → target.passComplete = true
  waiting : target.phase = .waiting → target.opsRemaining ≠ 0
  left : target.phase = .left → target.opsRemaining = 0
  interval : ∀ ops, target.phase = .issuing ops → ops ≤ target.opsRemaining
  count : target.phase ≠ .beforePass → target.phase ≠ .entering → target.stopped = false →
    target.issued + target.opsRemaining = (ring.options t).targetOps

/-- What a target knows that looks for the next one: those it has passed over have
completed the pass, and the one that it wakes up has not. -/
def Scanned (ring : Ring) (target : Fin ring.size → Target ring.size) (t : Fin ring.size) : Prop :=
  match (target t).phase with
  | .scanning u _ =>
    u ≠ t ∧ ∃ m, u = ring.next^[m + 1] t ∧ ∀ i < m, Complete (target (ring.next^[i + 1] t))
  | .deciding u _ | .passing u =>
    (u = t → ∀ v, v ≠ t → Complete (target v)) ∧ (u ≠ t → (target u).passComplete = false)
  | .releasing u => (target u).passComplete = false
  | .beforePass | .entering | .waiting | .looping | .issuing _ | .collecting | .released
  | .left => True

structure Turning (ring : Ring) (target : Fin ring.size → Target ring.size) : Prop where
  steady : ∀ t, Steady ring t (target t)
  scanned : ∀ t, Scanned ring target t
  kept : (∃ t, HasToken ring t (target t)) ∨ ∀ t, Complete (target t)

theorem Scanned.of_not_owns {target : Fin ring.size → Target ring.size} {t : Fin ring.size}
    (h : (target t).phase.owns = false) : Scanned ring target t := by
  unfold Scanned
  cases hphase : (target t).phase <;> simp [hphase, Phase.owns] at h ⊢

/-- Others move, complete nothing and take nothing back. -/
theorem Scanned.frame {target target' : Fin ring.size → Target ring.size} {t : Fin ring.size}
    (h : Scanned ring target t) (hphase : (target' t).phase = (target t).phase)
    (hcomplete : ∀ u, Complete (target u) → Complete (target' u))
    (hfalse : ∀ u, u ≠ t → (target u).passComplete = false → (target' u).passComplete = false)
    (hapart : (target t).phase ≠ .releasing t) : Scanned ring target' t := by
  unfold Scanned at h ⊢
  rw [hphase]
  cases hp : (target t).phase with
  | scanning u status =>
      simp only [hp] at h ⊢
      obtain ⟨hne, m, hm, hpassed⟩ := h
      exact ⟨hne, m, hm, fun i hi => hcomplete _ (hpassed i hi)⟩
  | deciding u status =>
      simp only [hp] at h ⊢
      exact ⟨fun hu v hv => hcomplete v (h.1 hu v hv), fun hu => hfalse u hu (h.2 hu)⟩
  | passing u =>
      simp only [hp] at h ⊢
      exact ⟨fun hu v hv => hcomplete v (h.1 hu v hv), fun hu => hfalse u hu (h.2 hu)⟩
  | releasing u =>
      simp only [hp] at h ⊢
      refine hfalse u ?_ h
      rintro rfl
      exact hapart hp
  | _ => trivial

namespace Steady

variable {t : Fin ring.size} {target : Target ring.size}

/-- A target that has not started its pass has counted nothing. -/
theorem of_entering (hphase : target.phase = .beforePass ∨ target.phase = .entering) :
    Steady ring t target := by
  rcases hphase with hphase | hphase <;> refine ⟨?_, ?_, ?_, ?_, ?_⟩ <;>
    simp [hphase, Phase.early]

/-- A target goes on and has not yet more or less to issue. -/
theorem setPhase (h : Steady ring t target) {phase : Phase ring.size}
    (hearly : phase.early = false → target.phase.early = false)
    (hwaiting : phase = .waiting → target.opsRemaining ≠ 0)
    (hleft : phase = .left → target.opsRemaining = 0)
    (hinterval : ∀ ops, phase = .issuing ops → ops ≤ target.opsRemaining)
    (hold : target.phase ≠ .beforePass ∧ target.phase ≠ .entering) :
    Steady ring t { target with phase := phase } :=
  ⟨fun hphase => h.done (hearly hphase), hwaiting, hleft, hinterval,
    fun _ _ => h.count hold.1 hold.2⟩

/-- A target goes on that has decided whether it has completed the pass. -/
theorem move (h : Steady ring t target) {phase : Phase ring.size}
    (hold : target.phase.early = false) (hplain : phase.plain = true) :
    Steady ring t { target with phase := phase } := by
  refine h.setPhase (fun _ => hold) ?_ ?_ ?_ ?_
  · rintro rfl
    cases hplain
  · rintro rfl
    cases hplain
  · rintro ops rfl
    cases hplain
  · constructor <;> intro hphase <;> rw [hphase] at hold <;> cases hold

end Steady

namespace Turning

variable {s s' : State ring}

theorem init (ring : Ring) : Turning ring (init ring).target where
  steady _ := .of_entering (.inl rfl)
  scanned _ := trivial
  kept := .inl ⟨ring.first, rfl⟩

/-- One target moves. It may complete the pass only if it has the token, and give up the
token only when all have completed. -/
theorem setTarget (h : Turning ring s.target) (hex : Exclusive s) {t : Fin ring.size}
    {target : Target ring.size} (hsteady : Steady ring t target)
    (hcomplete : Complete (s.target t) → Complete target)
    (hfalse : ¬ HasToken ring t (s.target t) → (s.target t).passComplete = false →
      target.passComplete = false)
    (hscanned : Scanned ring (s.setTarget t target).target t)
    (hkept : HasToken ring t (s.target t) →
      HasToken ring t target ∨ ∀ u, Complete ((s.setTarget t target).target u)) :
    Turning ring (s.setTarget t target).target := by
  have hsame : ∀ u, u ≠ t → (s.setTarget t target).target u = s.target u := by
    intro u hu
    simp [State.setTarget, hu]
  have hself : (s.setTarget t target).target t = target := by simp [State.setTarget]
  have hall : ∀ u, Complete (s.target u) → Complete ((s.setTarget t target).target u) :=
    State.forall_setTarget (P := fun u target => Complete (s.target u) → Complete target) hcomplete
      fun _ _ => id
  refine ⟨?_, ?_, ?_⟩
  · exact State.forall_setTarget (P := Steady ring) hsteady fun u _ => h.steady u
  · intro u
    by_cases hu : u = t
    · exact hu ▸ hscanned
    · by_cases howns : (s.target u).phase.owns = true
      · -- `u` has the token, so `t` completes nothing
        have hnot : ¬ HasToken ring t (s.target t) := fun ht =>
          hu (hex.one u t (.of_owns rfl howns) ht)
        refine (h.scanned u).frame (by rw [hsame u hu]) hall ?_ (hex.apart u)
        intro v _
        exact State.forall_setTarget (P := fun v target =>
          (s.target v).passComplete = false → target.passComplete = false) (hfalse hnot)
          (fun _ _ => id) v
      · apply Scanned.of_not_owns
        rw [hsame u hu]
        exact Bool.eq_false_of_not_eq_true howns
  · rcases h.kept with ⟨u, hu⟩ | hdone
    · by_cases hut : u = t
      · subst hut
        rcases hkept hu with hnew | hdone
        · exact .inl ⟨u, hself.symm ▸ hnew⟩
        · exact .inr hdone
      · exact .inl ⟨u, (hsame u hut).symm ▸ hu⟩
    · exact .inr fun u => hall u (hdone u)

/-- A target moves that has the token before and after, and completes nothing. -/
theorem proceed (h : Turning ring s.target) (hex : Exclusive s) {t : Fin ring.size}
    {phase : Phase ring.size} (howns : phase.owns = true)
    (hsteady : Steady ring t { s.target t with phase := phase })
    (hscanned : Scanned ring (s.setPhase t phase).target t) :
    Turning ring (s.setPhase t phase).target := by
  refine h.setTarget hex hsteady ?_ (fun _ hfalse => hfalse) hscanned fun _ => .inl ?_
  · rintro ⟨_, hcomplete⟩
    refine ⟨?_, hcomplete⟩
    rintro rfl
    cases howns
  · exact .of_owns rfl howns

/-- A target moves to where it has the token only if it still has something to issue. -/
theorem rest (h : Turning ring s.target) (hex : Exclusive s) {t : Fin ring.size}
    {phase : Phase ring.size} (howns : phase.owns = false) (hphase : phase ≠ .beforePass)
    (hsteady : Steady ring t { s.target t with phase := phase })
    (hkept : HasToken ring t (s.target t) → HasToken ring t { s.target t with phase := phase } ∨
      ∀ u, Complete ((s.setPhase t phase).target u)) :
    Turning ring (s.setPhase t phase).target := by
  refine h.setTarget hex hsteady (fun hcomplete => hcomplete.setPhase hphase)
    (fun _ hfalse => hfalse) ?_ hkept
  apply Scanned.of_not_owns
  simpa [State.setTarget] using howns

/-- A barrier opens for `t` and `u`. One of them had the token, and `w` has it now. -/
theorem handOver (h : Turning ring s.target) (hex : Exclusive s) {t u w : Fin ring.size}
    {phase phase' : Phase ring.size} (hne : t ≠ u)
    (howner : HasToken ring t (s.target t) ∨ HasToken ring u (s.target u))
    (hsteady : Steady ring t { s.target t with phase := phase })
    (hsteady' : Steady ring u { s.target u with phase := phase' })
    (howns : phase.owns = false) (howns' : phase'.owns = false)
    (htoken : HasToken ring w (((s.setPhase u phase').setPhase t phase).target w)) :
    Turning ring ((s.setPhase u phase').setPhase t phase).target := by
  have htarget : (s.setPhase u phase').target t = s.target t := by
    simp [State.setPhase, State.setTarget, hne]
  refine ⟨?_, ?_, .inl ⟨w, htoken⟩⟩
  · refine State.forall_setTarget (P := Steady ring) (htarget.symm ▸ hsteady) ?_
    intro x _
    exact State.forall_setTarget (P := Steady ring) hsteady' (fun y _ => h.steady y) x
  · intro x
    apply Scanned.of_not_owns
    by_cases hxt : x = t
    · subst hxt
      simpa [State.setPhase, State.setTarget] using howns
    · by_cases hxu : x = u
      · subst hxu
        simpa [State.setPhase, State.setTarget, hxt] using howns'
      · -- nobody else had the token
        by_contra hx
        have hx' : HasToken ring x (s.target x) := by
          refine .of_owns rfl (Bool.eq_true_of_not_eq_false ?_)
          simpa [State.setPhase, State.setTarget, hxt, hxu] using hx
        rcases howner with ht | hu
        · exact hxt (hex.one x t hx' ht)
        · exact hxu (hex.one x u hx' hu)

/-- A target that has something left to issue waits for its turn. -/
theorem wait (h : Turning ring s.target) (hex : Exclusive s) {t : Fin ring.size}
    (hold : (s.target t).phase.inside t = none) (htoken : ¬ HasToken ring t (s.target t))
    (hops : (s.target t).opsRemaining ≠ 0)
    (hcount : (s.target t).stopped = false →
      (s.target t).issued + (s.target t).opsRemaining = (ring.options t).targetOps) :
    Turning ring (s.wait t).target := by
  have hsteady : ∀ phase : Phase ring.size, phase = .waiting ∨ phase = .looping →
      Steady ring t { s.target t with phase := phase } := by
    intro phase hnew
    refine ⟨fun _ hzero => absurd hzero hops, fun _ => hops, ?_, ?_, fun _ _ => hcount⟩
    · rintro rfl
      rcases hnew with hnew | hnew <;> cases hnew
    · rintro ops rfl
      rcases hnew with hnew | hnew <;> cases hnew
  obtain ⟨_, hwait⟩ | ⟨u, hne, _, hreleasing, hwait⟩ := hex.wait_cases hold
  · rw [hwait]
    refine h.rest hex rfl (by simp) (hsteady _ (.inl rfl)) ?_
    exact fun ht => absurd ht htoken
  · rw [hwait]
    refine h.handOver hex (w := t) hne.symm (.inr (.of_owns hreleasing rfl))
      (hsteady _ (.inr rfl)) ((h.steady u).move (by rw [hreleasing]; rfl) rfl) rfl rfl ?_
    have hpos := Nat.pos_of_ne_zero hops
    simpa [State.setPhase, State.setTarget, HasToken, hne.symm] using hpos

/-- The target with the token wakes one up that has not completed the pass. -/
theorem release (h : Turning ring s.target) (hex : Exclusive s) {t u : Fin ring.size}
    (hphase : (s.target t).phase = .passing u) (hne : u ≠ t) :
    Turning ring (s.release t u).target := by
  have hscanned : (s.target u).passComplete = false := by
    have hscanned := h.scanned t
    simp only [Scanned, hphase] at hscanned
    exact hscanned.2 hne
  have hlate : (s.target t).phase.early = false := by
    rw [hphase]
    rfl
  obtain ⟨_, hrelease⟩ | ⟨_, hwaiting, hrelease⟩ := hex.release_cases hphase
  · rw [hrelease]
    refine h.proceed hex rfl ((h.steady t).move hlate rfl) ?_
    simp only [Scanned, State.setPhase, State.setTarget, Function.update_self]
    rw [Function.update_of_ne hne]
    exact hscanned
  · have hops := (h.steady u).waiting hwaiting
    rw [hrelease]
    refine h.handOver hex (w := u) hne.symm (.inl (.of_owns hphase rfl))
      ((h.steady t).move hlate rfl) ((h.steady u).move (by rw [hwaiting]; rfl) rfl) rfl rfl ?_
    have hpos := Nat.pos_of_ne_zero hops
    simpa [State.setPhase, State.setTarget, HasToken, hne] using hpos

/-- A target sets up its pass. -/
theorem start (h : Turning ring s.target) (hex : Exclusive s) {t : Fin ring.size}
    (hphase : (s.target t).phase = .entering) (targetOps : Nat) :
    Turning ring (s.setTarget t ((s.target t).start targetOps)).target := by
  refine h.setTarget hex (.of_entering (.inr hphase)) id (fun _ hfalse => hfalse) ?_ ?_
  · apply Scanned.of_not_owns
    simp [State.setTarget, Target.start, hphase, Phase.owns]
  · intro htoken
    left
    simpa [HasToken, Target.start, hphase] using htoken

/-- The first target starts at once. -/
theorem first (h : Turning ring s.target) (hex : Exclusive s) {t : Fin ring.size}
    (hops : (s.target t).opsRemaining ≠ 0)
    (hcount : (s.target t).issued + (s.target t).opsRemaining = (ring.options t).targetOps) :
    Turning ring (s.setPhase t .looping).target := by
  refine h.rest hex rfl (by simp) ⟨?_, by simp, by simp, by simp, ?_⟩ ?_
  · exact fun _ hzero => absurd hzero hops
  · exact fun _ _ _ => hcount
  · exact fun _ => .inl (Nat.pos_of_ne_zero hops)

theorem leave (h : Turning ring s.target) (hex : Exclusive s) {t : Fin ring.size}
    (hphase : (s.target t).phase = .looping) (hops : (s.target t).opsRemaining = 0) :
    Turning ring (s.setPhase t .left).target := by
  refine h.rest hex rfl (by simp) ?_ ?_
  · exact (h.steady t).setPhase (fun _ => by rw [hphase]; rfl) (by simp) (fun _ => hops) (by simp)
      (by simp [hphase])
  · intro htoken
    rw [HasToken, hphase] at htoken
    exact absurd hops (Nat.pos_iff_ne_zero.mp htoken)

theorem issue (h : Turning ring s.target) (hex : Exclusive s) {t : Fin ring.size} {ops : Nat}
    (hphase : (s.target t).phase = .issuing (ops + 1)) :
    Turning ring (s.setTarget t { s.target t with
      phase := .issuing ops
      opsRemaining := (s.target t).opsRemaining - 1
      outstanding := (s.target t).outstanding + 1
      issued := (s.target t).issued + 1 }).target := by
  have hinterval := (h.steady t).interval _ hphase
  refine h.setTarget hex ⟨by simp [Phase.early], by simp, by simp, ?_, ?_⟩
    (fun hcomplete => hcomplete.setPhase (by simp)) (fun _ hfalse => hfalse) ?_
    fun _ => .inl trivial
  · intro ops' heq
    cases heq
    exact Nat.le_sub_one_of_lt hinterval
  · intro _ _ hstopped
    have hcount := (h.steady t).count (by simp [hphase]) (by simp [hphase]) hstopped
    dsimp only
    omega
  · simp [Scanned, State.setTarget]

/-- The workers are done, and the target looks at its neighbour. -/
theorem collect (h : Turning ring s.target) (hex : Exclusive s) {t : Fin ring.size}
    (hphase : (s.target t).phase = .collecting) :
    Turning ring (s.setTarget t { s.target t with
      phase := .scanning (ring.next t) false
      passComplete := (s.target t).passComplete || (s.target t).opsRemaining == 0 }).target := by
  refine h.setTarget hex ⟨?_, by simp, by simp, by simp, ?_⟩ ?_ ?_ ?_ fun _ => .inl trivial
  · intro _ hzero
    simp [show (s.target t).opsRemaining = 0 from hzero]
  · exact fun _ _ => (h.steady t).count (by simp [hphase]) (by simp [hphase])
  · exact fun hcomplete => ⟨by simp, by simp [hcomplete.2]⟩
  · exact fun hnot => absurd (.of_owns hphase rfl) hnot
  · simp only [Scanned, State.setTarget, Function.update_self]
    exact ⟨ring.next_ne t, 0, rfl, fun i hi => absurd hi (Nat.not_lt_zero i)⟩

/-- One more target has completed the pass. -/
theorem scanned_next (h : Turning ring s.target) {t u : Fin ring.size} {status : Bool}
    (hphase : (s.target t).phase = .scanning u status)
    (hcomplete : Complete (s.target u)) : ∃ m, ring.next u = ring.next^[m + 2] t ∧
      ∀ i ≤ m, Complete (s.target (ring.next^[i + 1] t)) := by
  have hscanned := h.scanned t
  simp only [Scanned, hphase] at hscanned
  obtain ⟨_, m, rfl, hpassed⟩ := hscanned
  refine ⟨m, (Function.iterate_succ_apply' ring.next (m + 1) t).symm, ?_⟩
  intro i hi
  rcases Nat.lt_or_eq_of_le hi with hlt | rfl
  · exact hpassed i hlt
  · exact hcomplete

/-- All others have completed the pass. -/
theorem scanSelf (h : Turning ring s.target) (hex : Exclusive s) {t u : Fin ring.size}
    {status : Bool} (hphase : (s.target t).phase = .scanning u status)
    (hcomplete : Complete (s.target u)) (hback : ring.next u = t) :
    Turning ring (s.setPhase t (.deciding t true)).target := by
  obtain ⟨m, hnext, hpassed⟩ := h.scanned_next hphase hcomplete
  have hall := ring.forall_of_iterate (hnext.symm.trans hback)
    (P := fun v => Complete (s.target v)) hpassed
  refine h.proceed hex rfl ((h.steady t).move (by rw [hphase]; rfl) rfl) ?_
  simp only [Scanned, State.setPhase, State.setTarget, Function.update_self]
  refine ⟨?_, fun hne => absurd rfl hne⟩
  intro _ v hv
  rw [Function.update_of_ne hv]
  exact hall v hv

theorem scanOn (h : Turning ring s.target) (hex : Exclusive s) {t u : Fin ring.size}
    {status : Bool} (hphase : (s.target t).phase = .scanning u status)
    (hcomplete : Complete (s.target u)) (hnext : ring.next u ≠ t) :
    Turning ring (s.setPhase t (.scanning (ring.next u) true)).target := by
  obtain ⟨m, heq, hpassed⟩ := h.scanned_next hphase hcomplete
  refine h.proceed hex rfl ((h.steady t).move (by rw [hphase]; rfl) rfl) ?_
  have hall : ∀ v, Complete (s.target v) →
      Complete ((s.setPhase t (.scanning (ring.next u) true)).target v) :=
    State.forall_setTarget (P := fun v target => Complete (s.target v) → Complete target)
      (fun hc => hc.setPhase (by simp)) fun _ _ => id
  have hself : ((s.setPhase t (.scanning (ring.next u) true)).target t).phase =
      .scanning (ring.next u) true := by simp [State.setPhase, State.setTarget]
  simp only [Scanned, hself]
  exact ⟨hnext, m + 1, heq, fun i hi => hall _ (hpassed i (Nat.le_of_lt_succ hi))⟩

theorem scanFound (h : Turning ring s.target) (hex : Exclusive s) {t u : Fin ring.size}
    {status : Bool} (hphase : (s.target t).phase = .scanning u status)
    (hfound : (s.target u).passComplete = false) :
    Turning ring (s.setPhase t (.deciding u status)).target := by
  have hscanned := h.scanned t
  simp only [Scanned, hphase] at hscanned
  refine h.proceed hex rfl ((h.steady t).move (by rw [hphase]; rfl) rfl) ?_
  simp only [Scanned, State.setPhase, State.setTarget, Function.update_self]
  refine ⟨fun heq => absurd heq hscanned.1, ?_⟩
  intro hne
  rw [Function.update_of_ne hne]
  exact hfound

/-- What a target has found out stays when it changes its own fields. -/
theorem scanned_passing (h : Turning ring s.target) {t u : Fin ring.size} {status : Bool}
    (hphase : (s.target t).phase = .deciding u status) {target : Target ring.size}
    (hpassing : target.phase = .passing u) :
    Scanned ring (s.setTarget t target).target t := by
  have hscanned := h.scanned t
  simp only [Scanned, hphase] at hscanned
  simp only [Scanned, State.setTarget, Function.update_self, hpassing]
  refine ⟨?_, ?_⟩
  · intro hu v hv
    rw [Function.update_of_ne hv]
    exact hscanned.1 hu v hv
  · intro hu
    rw [Function.update_of_ne hu]
    exact hscanned.2 hu

/-- The target stops because another one has completed the pass. -/
theorem stop (h : Turning ring s.target) (hex : Exclusive s) {t u : Fin ring.size}
    (hphase : (s.target t).phase = .deciding u true) :
    Turning ring (s.setTarget t { s.target t with
      phase := .passing u
      opsRemaining := 0
      passComplete := true
      stopped := (s.target t).stopped || (s.target t).opsRemaining != 0 }).target := by
  refine h.setTarget hex ⟨fun _ _ => rfl, by simp, by simp, by simp, ?_⟩
    (fun _ => ⟨by simp, rfl⟩) ?_ (h.scanned_passing hphase rfl) fun _ => .inl trivial
  · intro _ _ hstopped
    obtain ⟨hstopped, hzero⟩ := Bool.or_eq_false_iff.mp hstopped
    have hcount := (h.steady t).count (by simp [hphase]) (by simp [hphase]) hstopped
    have hzero : (s.target t).opsRemaining = 0 := by simpa using hzero
    rw [hzero] at hcount
    exact hcount
  · exact fun hnot => absurd (.of_owns hphase rfl) hnot

/-- The target goes on alone, or leaves when all have completed. -/
theorem keep (h : Turning ring s.target) (hex : Exclusive s) {t : Fin ring.size}
    (hphase : (s.target t).phase = .passing t) : Turning ring (s.setPhase t .looping).target := by
  have hscanned := h.scanned t
  simp only [Scanned, hphase] at hscanned
  refine h.rest hex rfl (by simp) ((h.steady t).move (by rw [hphase]; rfl) rfl) ?_
  intro _
  rcases Nat.eq_zero_or_pos (s.target t).opsRemaining with hzero | hpos
  · right
    refine State.forall_setTarget (P := fun _ => Complete) ?_ fun v hv => hscanned.1 trivial v hv
    exact ⟨by simp, (h.steady t).done (by rw [hphase]; rfl) hzero⟩
  · exact .inl hpos

/-- A target that has completed the pass and has handed the token on. -/
theorem finish (h : Turning ring s.target) (hex : Exclusive s) {t : Fin ring.size}
    (hphase : (s.target t).phase = .released) : Turning ring (s.setPhase t .looping).target := by
  refine h.rest hex rfl (by simp) ((h.steady t).move (by rw [hphase]; rfl) rfl) ?_
  intro htoken
  rw [HasToken, hphase] at htoken
  exact htoken.elim

theorem nextPass : Turning ring (fun t => { s.target t with phase := .beforePass }) where
  steady _ := .of_entering (.inl rfl)
  scanned _ := trivial
  kept := .inl ⟨ring.first, rfl⟩

theorem step (h : Turning ring s.target) (hex : Exclusive s)
    (hops : ∀ t, 0 < (ring.options t).targetOps) {a : Action ring} (hok : Current ring s a)
    (hs : Step ring s a s') : Turning ring s'.target := by
  cases hs with
  | @beforePass t hphase =>
      refine h.setTarget hex (.of_entering (.inr rfl)) ?_ (fun _ _ => rfl) ?_ ?_
      · exact fun hcomplete => absurd hphase hcomplete.1
      · apply Scanned.of_not_owns
        simp [State.setTarget, Phase.owns]
      · intro htoken
        left
        simpa [HasToken, hphase] using htoken
  | @skip t _ hnone => exact absurd hnone (hops t).ne'
  | @first t hphase hnone _ =>
      refine (h.start hex hphase _).first (hex.start hphase _) ?_ ?_
      · simpa [State.setTarget, Target.start] using hnone
      · simp [State.setTarget, Target.start]
  | @wait t hphase hnone hfirst =>
      have hstart := Exclusive.start_phase hphase (ring.options t).targetOps
      refine (h.start hex hphase _).wait (hex.start hphase _) (by rw [hstart]; rfl) ?_ ?_ ?_
      · rw [HasToken, hstart]
        exact hfirst
      · simpa [State.setTarget, Target.start] using hnone
      · simp [State.setTarget, Target.start]
  | leave hphase hzero => exact h.leave hex hphase hzero
  | @turn t hphase hne =>
      refine h.proceed hex rfl ?_ (by simp [Scanned, State.setPhase, State.setTarget])
      refine (h.steady t).setPhase (by simp [Phase.early]) (by simp) (by simp) ?_ (by simp [hphase])
      intro ops heq
      cases heq
      exact min_le_left _ _
  | issue hphase _ => exact h.issue hex hphase
  | limit => exact hok.elim
  | @endInterval t hphase =>
      refine h.proceed hex rfl ?_ (by simp [Scanned, State.setPhase, State.setTarget])
      exact (h.steady t).setPhase (by simp [Phase.early]) (by simp) (by simp) (by simp)
        (by simp [hphase])
  | @ioDone t outstanding _ =>
      have hsteady := h.steady t
      refine h.setTarget hex ⟨hsteady.done, hsteady.waiting, hsteady.left, hsteady.interval,
        hsteady.count⟩ id (fun _ hfalse => hfalse) ?_ fun htoken => .inl htoken
      refine (h.scanned t).frame (by simp [State.setTarget]) ?_ ?_ (hex.apart t)
      · exact State.forall_setTarget (P := fun u target => Complete (s.target u) → Complete target)
          id fun _ _ => id
      · intro u hu
        simp [State.setTarget, hu]
  | collect hphase _ => exact h.collect hex hphase
  | scanSelf hphase hcomplete hback =>
      exact h.scanSelf hex hphase (complete_of_current hok hphase hcomplete) hback
  | scanOn hphase hcomplete hnext =>
      exact h.scanOn hex hphase (complete_of_current hok hphase hcomplete) hnext
  | scanFound hphase hfound => exact h.scanFound hex hphase hfound
  | stop hphase _ => exact h.stop hex hphase
  | @decide t u status hphase _ =>
      refine h.proceed hex rfl ?_ (h.scanned_passing hphase rfl)
      exact (h.steady t).move (by rw [hphase]; rfl) rfl
  | keep hphase => exact h.keep hex hphase
  | release hphase hne => exact h.release hex hphase hne
  | finish hphase _ => exact h.finish hex hphase
  | @waitAgain t hphase hfalse =>
      refine h.wait hex (by rw [hphase]; rfl) (by simp [HasToken, hphase]) ?_ ?_
      · intro hzero
        rw [(h.steady t).done (by rw [hphase]; rfl) hzero] at hfalse
        cases hfalse
      · exact (h.steady t).count (by simp [hphase]) (by simp [hphase])
  | nextPass => exact nextPass

theorem of_reach (hops : ∀ t, 0 < (ring.options t).targetOps)
    (hreach : Transition.Reach (Lockstep.step ring) (Current ring) (Lockstep.init ring) s) :
    Turning ring s.target := by
  induction hreach with
  | init => exact Turning.init ring
  | step hbefore hok hs ih => exact ih.step (Exclusive.of_reach hbefore) hops hok (.of_eq_some hs)

end Turning

/-! ## Every target gets its turn -/

/-- All passes are over. -/
def Finished (s : State ring) : Prop :=
  (∀ t, (s.target t).phase = .left) ∧ ring.passes ≤ s.pass

/-- The target waits in its own barrier, and all others have left `xdd_lockstep`. -/
def Stranded (s : State ring) (t : Fin ring.size) : Prop :=
  (s.target t).phase = .waiting ∧ ∀ u, u ≠ t → (s.target u).phase = .left

instance (s : State ring) (t : Fin ring.size) : Decidable (Stranded s t) :=
  inferInstanceAs (Decidable (_ ∧ _))

theorem Turning.not_stranded {s : State ring} (h : Turning ring s.target) (hex : Exclusive s)
    (t : Fin ring.size) : ¬ Stranded s t := by
  rintro ⟨hwaiting, hothers⟩
  rcases h.kept with ⟨u, hu⟩ | hall
  · by_cases hut : u = t
    · rw [HasToken, hut, hwaiting] at hu
      exact hu
    · rw [HasToken, hothers u hut] at hu
      exact hu
  · have hsettled := (hex.targets t).settled (hall t).1 (hall t).2
    exact (h.steady t).waiting hwaiting hsettled

/-- The target is in a barrier or has left. -/
def Phase.atRest {k : Nat} : Phase k → Bool
  | .waiting | .releasing _ | .left => true
  | .beforePass | .entering | .looping | .issuing _ | .collecting | .scanning .. | .deciding ..
  | .passing _ | .released => false

/-- A target that is not at rest can take a step of its own, or one of its workers can,
once all targets have started the pass. -/
theorem exists_step_of_not_atRest {s : State ring} {t : Fin ring.size}
    (hstarted : ∀ u, (s.target u).phase ≠ .beforePass) (hrest : (s.target t).phase.atRest = false) :
    ∃ a s', Current ring s a ∧ step ring s a = some s' := by
  cases hphase : (s.target t).phase with
  | beforePass => exact absurd hphase (hstarted t)
  | entering =>
      refine ⟨.enter t, ?_⟩
      simp only [step, hphase, Current, true_and]
      split
      · exact ⟨_, rfl⟩
      · split <;> exact ⟨_, rfl⟩
  | looping =>
      refine ⟨.loop t, ?_⟩
      simp only [step, hphase, Current, true_and]
      split <;> exact ⟨_, rfl⟩
  | issuing ops =>
      cases ops with
      | zero => exact ⟨.endInterval t, _, trivial, by simp only [step, hphase]; rfl⟩
      | succ ops =>
          by_cases hfree : (s.target t).outstanding < (ring.options t).queueDepth
          · exact ⟨.issue t, _, trivial, by simp only [step, hphase, if_pos hfree]; rfl⟩
          · -- all workers are at work
            have hdepth := (ring.options t).queueDepth_pos
            obtain ⟨n, hn⟩ := Nat.exists_eq_succ_of_ne_zero
              (by omega : (s.target t).outstanding ≠ 0)
            exact ⟨.ioDone t, _, trivial, by simp only [step, hn]; rfl⟩
  | collecting =>
      cases hout : (s.target t).outstanding with
      | zero => exact ⟨.collect t, _, trivial, by simp only [step, hphase, hout]; rfl⟩
      | succ n => exact ⟨.ioDone t, _, trivial, by simp only [step, hout]; rfl⟩
  | scanning u status =>
      refine ⟨.scan t, ?_⟩
      simp only [step, hphase, Current, looksBack, hstarted u, decide_false, Bool.false_and,
        true_and]
      split
      · split <;> exact ⟨_, rfl⟩
      · exact ⟨_, rfl⟩
  | deciding u status =>
      refine ⟨.decide t, ?_⟩
      simp only [step, hphase, Current, true_and]
      split <;> exact ⟨_, rfl⟩
  | passing u =>
      refine ⟨.pass t, ?_⟩
      simp only [step, hphase, Current, true_and]
      split <;> exact ⟨_, rfl⟩
  | released =>
      refine ⟨.resume t, ?_⟩
      simp only [step, hphase, Current, true_and]
      split <;> exact ⟨_, rfl⟩
  | waiting => rw [hphase] at hrest; cases hrest
  | releasing u => rw [hphase] at hrest; cases hrest
  | left => rw [hphase] at hrest; cases hrest

/-- If all targets are at rest, all have left. -/
theorem Turning.left_of_atRest {s : State ring} (h : Turning ring s.target) (hex : Exclusive s)
    (hrest : ∀ t, (s.target t).phase.atRest = true) (t : Fin ring.size) :
    (s.target t).phase = .left := by
  have hnone : ∀ u, ¬ HasToken ring u (s.target u) := by
    intro u hu
    cases hphase : (s.target u).phase with
    | releasing v =>
        have hfalse : (s.target v).passComplete = false := by
          have hscanned := h.scanned u
          simpa only [Scanned, hphase] using hscanned
        have hinside := (hex.barriers v u).mpr (by rw [hphase]; rfl)
        -- the target that is woken up is not in its barrier, and cannot have left
        cases hv : (s.target v).phase with
        | waiting =>
            have hself := (hex.barriers v v).mpr (by rw [hv]; rfl)
            rw [hinside] at hself
            obtain rfl := Option.some.inj hself
            rw [hphase] at hv
            cases hv
        | releasing w =>
            obtain rfl := hex.one u v hu (.of_owns hv rfl)
            exact hex.apart u hphase
        | left =>
            rw [(h.steady v).done (by rw [hv]; rfl) ((h.steady v).left hv)] at hfalse
            cases hfalse
        | _ => have hv' := hrest v; rw [hv] at hv'; cases hv'
    | waiting => rw [HasToken, hphase] at hu; exact hu
    | left => rw [HasToken, hphase] at hu; exact hu
    | _ => have hu' := hrest u; rw [hphase] at hu'; cases hu'
  have hall : ∀ u, Complete (s.target u) := by
    rcases h.kept with ⟨u, hu⟩ | hall
    · exact absurd hu (hnone u)
    · exact hall
  cases hphase : (s.target t).phase with
  | left => rfl
  | releasing u => exact absurd (.of_owns hphase rfl) (hnone t)
  | waiting =>
      have hsettled := (hex.targets t).settled (hall t).1 (hall t).2
      exact absurd hsettled ((h.steady t).waiting hphase)
  | _ => have ht := hrest t; rw [hphase] at ht; cases ht

/-- The ring is never stuck before the last pass is over. -/
theorem Turning.progress {s : State ring} (h : Turning ring s.target) (hex : Exclusive s) :
    Finished s ∨ ∃ a s', Current ring s a ∧ Lockstep.step ring s a = some s' := by
  by_cases hlate : ∃ t, (s.target t).phase = .beforePass
  · obtain ⟨t, ht⟩ := hlate
    exact .inr ⟨.beforePass t, _, trivial, by simp only [Lockstep.step, ht]; rfl⟩
  · have hstarted : ∀ t, (s.target t).phase ≠ .beforePass := fun t ht => hlate ⟨t, ht⟩
    by_cases hrest : ∀ t, (s.target t).phase.atRest = true
    · have hleft := h.left_of_atRest hex hrest
      rcases Nat.lt_or_ge s.pass ring.passes with hmore | hlast
      · exact .inr ⟨.nextPass, _, trivial, if_pos ⟨hleft, hmore⟩⟩
      · exact .inl ⟨hleft, hlast⟩
    · push Not at hrest
      obtain ⟨t, ht⟩ := hrest
      exact .inr (exists_step_of_not_atRest hstarted (Bool.eq_false_of_not_eq_true ht))

end Xdd.Lockstep
