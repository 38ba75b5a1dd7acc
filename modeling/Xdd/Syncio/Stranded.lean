import Xdd.Syncio.Barrier

/-!
# Targets that wait for targets that are done

The barrier lets all targets through together, so all of them have been let through equally
often, and a target that has issued `k` operations has been let through once for every
multiple of the interval below `k`. A target whose operations reach over one more multiple
than those of another one comes to the barrier once more, and by then the other one is gone.
-/

namespace Xdd.Syncio

variable {cfg : Config}

/-! ## How often a target is let through -/

namespace Config

@[simp] theorem rounds_zero : cfg.rounds 0 = 0 :=
  Nat.div_eq_of_lt (by have := cfg.syncio_pos; omega)

theorem rounds_succ (k : Nat) : cfg.rounds (k + 1) = k / cfg.syncio + 1 := by
  rw [rounds, show k + 1 + cfg.syncio - 1 = k + cfg.syncio by omega]
  exact Nat.add_div_right k cfg.syncio_pos

/-- The operation before which a target waits is in the next round. -/
theorem rounds_succ_of_mod {k : Nat} (h : k % cfg.syncio = 0) :
    cfg.rounds (k + 1) = cfg.rounds k + 1 := by
  cases k with
  | zero => rw [rounds_succ, rounds_zero, Nat.zero_div]
  | succ k =>
    rw [rounds_succ, rounds_succ, Nat.succ_div_of_mod_eq_zero h]

theorem rounds_succ_of_mod_ne {k : Nat} (h : k % cfg.syncio ≠ 0) :
    cfg.rounds (k + 1) = cfg.rounds k := by
  cases k with
  | zero => exact absurd (Nat.zero_mod _) h
  | succ k => rw [rounds_succ, rounds_succ, Nat.succ_div_of_mod_ne_zero h]

theorem rounds_le {j k : Nat} (h : j ≤ k) : cfg.rounds j ≤ cfg.rounds k :=
  Nat.div_le_div_right (by omega)

end Config

/-- What a target has issued tells how often it has been let through. A target that a limit has
stopped is behind the barrier of an operation that it has not issued. -/
def Target.Counted (cfg : Config) (ops : Nat) (target : Target) : Prop :=
  match target.phase with
  | .loop => target.issued ≤ ops ∧ target.rounds = cfg.rounds target.issued
  | .syncio => target.issued < ops ∧ target.rounds = cfg.rounds target.issued
  | .blocked => target.issued < ops ∧ target.rounds = cfg.rounds target.issued ∧
      target.issued % cfg.syncio = 0
  | .testing => target.issued < ops ∧ target.rounds = cfg.rounds (target.issued + 1)
  | .collecting | .endpass => target.issued = ops → target.rounds = cfg.rounds ops

/-- A target that is let through. -/
theorem Target.Counted.release {ops : Nat} {target : Target} (h : target.Counted cfg ops)
    (hphase : target.phase = .blocked ∨
      target.phase = .syncio ∧ target.issued % cfg.syncio = 0) :
    Target.Counted cfg ops { target with phase := .testing, rounds := target.rounds + 1 } := by
  obtain hphase | ⟨hphase, hmod⟩ := hphase
  · rw [Target.Counted, hphase] at h
    obtain ⟨hlt, hrounds, hmod⟩ := h
    exact ⟨hlt, by rw [hrounds, Config.rounds_succ_of_mod hmod]⟩
  · rw [Target.Counted, hphase] at h
    obtain ⟨hlt, hrounds⟩ := h
    exact ⟨hlt, by rw [hrounds, Config.rounds_succ_of_mod hmod]⟩

structure Inv (s : State cfg) : Prop where
  counted : ∀ t, (s.target t).Counted cfg (cfg.ops t)
  together : ∀ t t', (s.target t).rounds = (s.target t').rounds
  /-- the barrier is not closed over all targets -/
  awake : ∃ t, (s.target t).phase ≠ .blocked

namespace Inv

variable {s : State cfg}

theorem init (h : 1 < cfg.targets) : Inv (init cfg) where
  counted _ := ⟨Nat.zero_le _, Config.rounds_zero.symm⟩
  together _ _ := rfl
  awake := ⟨⟨0, by omega⟩, by simp [Syncio.init, Target.start]⟩

/-- One target goes on by itself. -/
theorem setTarget (hinv : Inv s) {t : Fin cfg.targets} {target : Target}
    (hcounted : target.Counted cfg (cfg.ops t)) (hrounds : target.rounds = (s.target t).rounds)
    (hawake : ∃ t', (Function.update s.target t target t').phase ≠ .blocked) :
    Inv (s.setTarget t target) where
  counted := by
    intro t'
    by_cases ht : t' = t
    · subst ht
      simpa [State.setTarget] using hcounted
    · simpa [State.setTarget, ht] using hinv.counted t'
  together := by
    have hsame : ∀ t', (Function.update s.target t target t').rounds = (s.target t').rounds := by
      intro t'
      by_cases ht : t' = t
      · subst ht
        simpa using hrounds
      · simp [ht]
    intro t' t''
    exact (hsame t').trans ((hinv.together t' t'').trans (hsame t'').symm)
  awake := hawake

theorem setPhase (hinv : Inv s) {t : Fin cfg.targets} {phase : Phase}
    (hcounted : Target.Counted cfg (cfg.ops t) { s.target t with phase := phase })
    (hphase : phase ≠ .blocked) : Inv (s.setPhase t phase) :=
  hinv.setTarget hcounted rfl ⟨t, by simpa using hphase⟩

theorem release (hinv : Inv s) {t : Fin cfg.targets} (ht : (s.target t).phase = .syncio)
    (hmod : (s.target t).issued % cfg.syncio = 0)
    (hall : ∀ t', t' ≠ t → (s.target t').phase = .blocked) : Inv s.release where
  counted := by
    intro t'
    apply (hinv.counted t').release
    by_cases h : t' = t
    · subst h
      exact .inr ⟨ht, hmod⟩
    · exact .inl (hall t' h)
  together t' t'' := congrArg (· + 1) (hinv.together t' t'')
  awake := ⟨t, by simp [State.release]⟩

theorem step (hmany : 1 < cfg.targets) (hinv : Inv s) {a : Action cfg} {s' : State cfg}
    (h : step s a = some s') : Inv s' := by
  cases Step.of_eq_some h with
  | finish t ht hops =>
    have hc := hinv.counted t
    rw [Target.Counted, ht] at hc
    apply hinv.setPhase _ (by simp)
    intro hdone
    exact hops ▸ hc.2
  | locate t ht hops =>
    have hc := hinv.counted t
    rw [Target.Counted, ht] at hc
    exact hinv.setPhase ⟨Nat.lt_of_le_of_ne hc.1 hops, hc.2⟩ (by simp)
  | pass t ht hno =>
    have hc := hinv.counted t
    rw [Target.Counted, ht] at hc
    have hmod : (s.target t).issued % cfg.syncio ≠ 0 := fun hmod => hno ⟨hmany, hmod⟩
    exact hinv.setPhase ⟨hc.1, hc.2.trans (Config.rounds_succ_of_mod_ne hmod).symm⟩ (by simp)
  | release t ht hin hall => exact hinv.release ht hin.2 hall
  | block t ht hin hsome =>
    have hc := hinv.counted t
    rw [Target.Counted, ht] at hc
    push Not at hsome
    obtain ⟨t', hne, hawake⟩ := hsome
    refine hinv.setTarget (t := t) ⟨hc.1, hc.2, hin.2⟩ rfl ⟨t', ?_⟩
    simpa [hne] using hawake
  | issue t ht =>
    have hc := hinv.counted t
    rw [Target.Counted, ht] at hc
    exact hinv.setTarget ⟨hc.1, hc.2⟩ rfl ⟨t, by simp⟩
  | collected t ht =>
    have hc := hinv.counted t
    rw [Target.Counted, ht] at hc
    exact hinv.setPhase hc (by simp)
  | limit t ht =>
    have hc := hinv.counted t
    rw [Target.Counted, ht] at hc
    apply hinv.setPhase _ (by simp)
    intro hdone
    exact absurd hdone (Nat.ne_of_lt hc.1)
  | complete t ht =>
    obtain ⟨t', hawake⟩ := hinv.awake
    refine hinv.setTarget (t := t) (hinv.counted t) rfl ⟨t', ?_⟩
    by_cases h : t' = t
    · subst h
      simpa using hawake
    · simpa [h] using hawake
  | nextPass =>
    have hstart := Inv.init hmany
    exact ⟨hstart.counted, hstart.together, hstart.awake⟩

theorem of_reach (hmany : 1 < cfg.targets) {ok : State cfg → Action cfg → Prop}
    (h : Transition.Reach Syncio.step ok (Syncio.init cfg) s) : Inv s :=
  h.invariant (init hmany) fun _ _ _ hinv _ hstep => hinv.step hmany hstep

/-- Who waits in the barrier has more rounds before it than who is done. -/
theorem rounds_lt (hinv : Inv s) {t t' : Fin cfg.targets} (ht : (s.target t).phase = .blocked)
    (ht' : (s.target t').phase = .endpass) (hdone : (s.target t').issued = cfg.ops t') :
    cfg.rounds (cfg.ops t') < cfg.rounds (cfg.ops t) := by
  have hc := hinv.counted t
  have hc' := hinv.counted t'
  rw [Target.Counted, ht] at hc
  rw [Target.Counted, ht'] at hc'
  obtain ⟨hlt, hrounds, hmod⟩ := hc
  calc cfg.rounds (cfg.ops t') = (s.target t').rounds := (hc' hdone).symm
    _ = (s.target t).rounds := hinv.together t' t
    _ = cfg.rounds (s.target t).issued := hrounds
    _ < cfg.rounds ((s.target t).issued + 1) := by
        rw [Config.rounds_succ_of_mod hmod]
        exact Nat.lt_succ_self _
    _ ≤ cfg.rounds (cfg.ops t) := Config.rounds_le hlt

end Inv

/-! ## A pass that goes on as far as it can -/

/-- No limit is met, and the pass is not followed by another one. -/
def Undisturbed (_ : State cfg) : Action cfg → Prop
  | .advance _ | .complete _ => True
  | .limit _ | .nextPass => False

/-- Without a limit, who has left the loop has issued everything. -/
def Finished (s : State cfg) : Prop :=
  ∀ t, (s.target t).phase = .collecting ∨ (s.target t).phase = .endpass →
    (s.target t).issued = cfg.ops t

theorem Finished.setTarget {s : State cfg} (h : Finished s) {t : Fin cfg.targets}
    {target : Target} (htarget : target.phase = .collecting ∨ target.phase = .endpass →
      target.issued = cfg.ops t) : Finished (s.setTarget t target) := by
  intro t'
  by_cases ht : t' = t
  · subst ht
    simpa [State.setTarget] using htarget
  · simpa [State.setTarget, ht] using h t'

theorem Finished.step {s s' : State cfg} {a : Action cfg} (hfin : Finished s)
    (hok : Undisturbed s a) (h : step s a = some s') : Finished s' := by
  cases Step.of_eq_some h with
  | finish t ht hops => exact hfin.setTarget fun _ => hops
  | locate t ht hops => exact hfin.setTarget (by simp)
  | pass t ht hno => exact hfin.setTarget (by simp)
  | release t ht hin hall => exact fun t' => by simp [State.release]
  | block t ht hin hsome => exact hfin.setTarget (by simp)
  | issue t ht => exact hfin.setTarget (by simp)
  | collected t ht => exact hfin.setTarget fun _ => hfin t (.inl ht)
  | limit t ht => exact hok.elim
  | complete t ht => exact hfin.setTarget (hfin t)
  | nextPass => exact hok.elim

theorem Finished.of_reach {s : State cfg}
    (h : Transition.Reach Syncio.step Undisturbed (init cfg) s) : Finished s :=
  h.invariant (fun t => by simp [init, Target.start]) fun _ _ _ hfin hok hstep =>
    hfin.step hok hstep

/-- The steps that a phase is away from the end of the loop. -/
def Phase.distance : Phase → Nat
  | .loop => 4
  | .syncio => 3
  | .blocked => 2
  | .testing => 1
  | .collecting => 1
  | .endpass => 0

/-- What a target still has to do in a pass. -/
def Target.left (ops : Nat) (target : Target) : Nat :=
  8 * (ops - target.issued) + target.phase.distance + target.outstanding

def left (s : State cfg) : Nat := ∑ t, (s.target t).left (cfg.ops t)

theorem left_setTarget_lt {s : State cfg} {t : Fin cfg.targets} {target : Target}
    (h : target.left (cfg.ops t) < (s.target t).left (cfg.ops t)) :
    left (s.setTarget t target) < left s :=
  Account.sum_update_lt s.target t target (fun t target => target.left (cfg.ops t)) h

theorem left_setPhase_lt {s : State cfg} {t : Fin cfg.targets} {phase : Phase}
    (h : phase.distance < (s.target t).phase.distance) : left (s.setPhase t phase) < left s :=
  left_setTarget_lt (by simp only [Target.left]; omega)

theorem left_release_lt {s : State cfg} {t : Fin cfg.targets}
    (ht : (s.target t).phase = .syncio)
    (hall : ∀ t', t' ≠ t → (s.target t').phase = .blocked) : left s.release < left s := by
  have hlt : ∀ t', (s.release.target t').left (cfg.ops t') <
      (s.target t').left (cfg.ops t') := by
    intro t'
    have hphase : (s.target t').phase = .syncio ∨ (s.target t').phase = .blocked := by
      by_cases h : t' = t
      · exact .inl (h ▸ ht)
      · exact .inr (hall t' h)
    obtain hphase | hphase := hphase <;>
      simp [Target.left, State.release, hphase, Phase.distance]
  exact Finset.sum_lt_sum_of_nonempty ⟨t, Finset.mem_univ t⟩ fun t' _ => hlt t'

theorem left_step_lt {s s' : State cfg} {a : Action cfg} (hinv : Inv s) (hok : Undisturbed s a)
    (h : step s a = some s') : left s' < left s := by
  cases Step.of_eq_some h with
  | finish t ht hops => exact left_setPhase_lt (by simp [ht, Phase.distance])
  | locate t ht hops => exact left_setPhase_lt (by simp [ht, Phase.distance])
  | pass t ht hno => exact left_setPhase_lt (by simp [ht, Phase.distance])
  | release t ht hin hall => exact left_release_lt ht hall
  | block t ht hin hsome => exact left_setPhase_lt (by simp [ht, Phase.distance])
  | issue t ht =>
    have hc := hinv.counted t
    rw [Target.Counted, ht] at hc
    apply left_setTarget_lt
    simp only [Target.left, ht, Phase.distance]
    omega
  | collected t ht => exact left_setPhase_lt (by simp [ht, Phase.distance])
  | limit t ht => exact hok.elim
  | complete t ht =>
    apply left_setTarget_lt
    simp only [Target.left]
    omega
  | nextPass => exact hok.elim

/-- A target that can do nothing waits in one of the two barriers. -/
theorem blocked_or_endpass {s : State cfg} (hstuck : ∀ a, Undisturbed s a → step s a = none)
    (t : Fin cfg.targets) : (s.target t).phase = .blocked ∨ (s.target t).phase = .endpass := by
  have hadvance := hstuck (.advance t) trivial
  have hidle : (s.target t).outstanding = 0 := by
    have hcomplete := hstuck (.complete t) trivial
    by_contra hpos
    simp [step, Nat.pos_of_ne_zero hpos] at hcomplete
  cases hphase : (s.target t).phase with
  | loop =>
    have hfree := cfg.queueDepth_pos t
    rw [step, hphase] at hadvance
    dsimp only at hadvance
    split at hadvance
    · cases hadvance
    · simp [hidle, hfree] at hadvance
  | syncio => simp [step, hphase] at hadvance
  | blocked => exact .inl rfl
  | testing => simp [step, hphase] at hadvance
  | collecting => simp [step, hphase, hidle] at hadvance
  | endpass => exact .inr rfl

/-- If the targets differ in their rounds, a pass without a limit strands some of them. -/
theorem exists_stranded {t t' : Fin cfg.targets}
    (hne : cfg.rounds (cfg.ops t) ≠ cfg.rounds (cfg.ops t')) (hmany : 1 < cfg.targets) :
    ∃ s : State cfg, Reachable s ∧ Stranded s := by
  have hinit : Transition.Reach step Undisturbed (init cfg) (init cfg) := .init
  obtain ⟨s, hreach, hstuck⟩ := Transition.exists_reach_stuck left
    (fun s a s' hs hok h => left_step_lt (Inv.of_reach hmany hs) hok h) hinit
  have hinv := Inv.of_reach hmany hreach
  have hfin := Finished.of_reach hreach
  refine ⟨s, hreach.mono fun _ _ _ => trivial, ?_⟩
  have hend : ∃ u, (s.target u).phase = .endpass := by
    obtain ⟨u, hu⟩ := hinv.awake
    exact ⟨u, (blocked_or_endpass hstuck u).resolve_left hu⟩
  have hblocked : ∃ u, (s.target u).phase = .blocked := by
    by_contra hnone
    have hrounds : ∀ u, (s.target u).rounds = cfg.rounds (cfg.ops u) := by
      intro u
      have hu := (blocked_or_endpass hstuck u).resolve_left fun h => hnone ⟨u, h⟩
      have hc := hinv.counted u
      rw [Target.Counted, hu] at hc
      exact hc (hfin u (.inr hu))
    exact hne ((hrounds t).symm.trans ((hinv.together t t').trans (hrounds t')))
  obtain ⟨u, hu⟩ := hblocked
  obtain ⟨u', hu'⟩ := hend
  exact ⟨u, u', hu, hu', hfin u' (.inr hu')⟩

/-- No run of the targets strands one of them in the syncio barrier if and only if there is
one target only or all of them come to the barrier equally often in a pass. -/
theorem not_stranded_iff :
    (∀ s : State cfg, Reachable s → ¬ Stranded s) ↔
      cfg.targets ≤ 1 ∨ ∀ t t', cfg.rounds (cfg.ops t) = cfg.rounds (cfg.ops t') := by
  constructor
  · intro hsafe
    by_contra hno
    push Not at hno
    obtain ⟨hmany, t, t', hne⟩ := hno
    obtain ⟨s, hs, hstranded⟩ := exists_stranded hne hmany
    exact hsafe s hs hstranded
  · rintro hsame s hs ⟨t, t', ht, ht', hdone⟩
    have hmany : 1 < cfg.targets := by
      have hne : t ≠ t' := by
        rintro rfl
        rw [ht] at ht'
        cases ht'
      have := t.isLt
      have := t'.isLt
      have : t.val ≠ t'.val := fun h => hne (Fin.ext h)
      omega
    have hlt := (Inv.of_reach hmany hs).rounds_lt ht ht' hdone
    obtain hone | hsame := hsame
    · omega
    · exact absurd (hsame t' t) (Nat.ne_of_lt hlt)

/-- Two targets with one operation and with two, and a barrier before every operation. -/
abbrev oneAndTwo : Config where
  targets := 2
  ops := ![1, 2]
  queueDepth := ![1, 1]
  queueDepth_pos := by decide
  syncio := 1
  syncio_pos := Nat.one_pos
  passes := 1

instance (s : State cfg) : Decidable (Stranded s) := inferInstanceAs (Decidable (∃ _, _))

/-- The second target waits for the first one, which has issued its operation. -/
theorem second_target_stranded : ∃ s : State oneAndTwo, Reachable s ∧ Stranded s :=
  Transition.exists_reach_of_run
    [.advance 0, .advance 0, .advance 1, .advance 1, .advance 0, .advance 0, .complete 0,
      .advance 0, .advance 1, .complete 1, .advance 1, .advance 1]
    (by decide +kernel)

end Xdd.Syncio
