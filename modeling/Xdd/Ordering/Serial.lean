import Xdd.Ordering.Chain

/-!
# Serial ordering

`tot_init` marks every entry available and the wait never looks at `tot_op_number`, so
an operation can pass a wait that nobody has posted for. The invariant below needs two
things of a run: a wait that finds its entry available finds the post of the operation
before it, and no operation is handed out while one that is a whole table and more
behind it is still inside its release.
-/

namespace Xdd.Ordering

/-- The steps of a run in which the table is used as intended: an operation is handed
out only when those more than a table behind it are done, and a wait that finds its
entry available finds the post of the previous operation there. -/
def InOrder (cfg : Config) (s : State cfg) : Action cfg → Prop
  | .assign _ => ∀ M < s.nextOp - cfg.entries, s.phase M = .done
  | .advance w => ∀ N ∈ s.worker w, N ≠ 0 → s.phase N = .ready →
      (s.table (waitSlot cfg.entries N)).available = true →
      (s.table (waitSlot cfg.entries N)).opNumber = N - 1
  | .raise => True

instance (cfg : Config) (s : State cfg) : (a : Action cfg) → Decidable (InOrder cfg s a)
  | .assign _ => inferInstanceAs (Decidable (∀ M < _, _))
  | .advance _ => inferInstanceAs (Decidable (∀ N ∈ _, _))
  | .raise => inferInstanceAs (Decidable True)

/-- What an in-order run keeps up. -/
structure SerialInv (cfg : Config) (s : State cfg) : Prop extends ChainInv cfg s where
  noEarly : ∀ N, s.phase N ≠ .earlyPost ∧ s.phase N ≠ .earlyPop
  previous : ∀ N, (s.phase (N + 1)).passed = true → (s.phase N).posted = true
  outcome : ∀ N, s.phase N = .finishing ∨ (s.phase N).posted = true →
    s.ioFinished N = true ∨ s.stop = true
  started : ∀ N, s.phase (N + 1) = .starting ∨ s.phase (N + 1) = .io ∨
    s.ioStarted (N + 1) = true → s.ioFinished N = true
  entry : ∀ j K : Nat, (s.table j).opNumber = K → (s.phase K).posted = true
  distance : ∀ M, M + cfg.entries + 1 < s.nextOp → s.phase M = .done

variable {cfg : Config} {s s' : State cfg} {w : Fin cfg.queueDepth} {N : Nat}

namespace SerialInv

theorem init (cfg : Config) : SerialInv cfg (init cfg) := by
  refine ⟨ChainInv.init cfg, ?_, ?_, ?_, ?_, ?_, ?_⟩
  all_goals simp [Ordering.init, Phase.passed, Phase.posted]

/-- Everything before an operation that is past its wait has made its last post. -/
theorem posted_of_passed (h : SerialInv cfg s) {M N : Nat} (hMN : M < N)
    (hN : (s.phase N).passed = true) : (s.phase M).posted = true := by
  induction N with
  | zero => omega
  | succ N ih =>
      have hprev := h.previous N hN
      rcases Nat.lt_succ_iff_lt_or_eq.mp hMN with hlt | rfl
      · apply ih hlt
        cases hp : s.phase N <;> simp_all [Phase.posted, Phase.passed]
      · exact hprev

/-- The operation that takes a waiter off its chain is the one the waiter waits for. -/
theorem waiter_eq (h : SerialInv cfg s) (hE : 0 < cfg.entries) {M : Nat}
    (hN : s.phase N = .lastPop) (hM : s.table.waiter cfg.entries N = some M) : M = N + 1 := by
  obtain ⟨hblocked, hpos, hslot⟩ := h.waiter M hM
  obtain ⟨M, rfl⟩ : ∃ K, M = K + 1 := ⟨M - 1, by omega⟩
  rw [waitSlot_succ hE] at hslot
  rcases Nat.lt_trichotomy N M with hlt | rfl | hgt
  · -- an older operation of the same slot has left its release long ago
    by_contra hne
    have hfar : N + cfg.entries ≤ M := by
      apply not_lt.mp
      intro hclose
      have := eq_of_mod_eq hslot.symm hlt.le hclose
      omega
    have hassigned := (h.assigned (M + 1)).mp (by simp [hblocked])
    have hdone := h.distance N (by omega)
    simp [hdone] at hN
  · rfl
  · -- a younger one would have the waiter's own post behind it
    have hpassed : (s.phase N).passed = true := by simp [hN, Phase.passed]
    rcases Nat.lt_or_eq_of_le hgt with hlt | heq
    · have hposted := h.posted_of_passed hlt hpassed
      simp [hblocked, Phase.posted] at hposted
    · rw [← heq, hblocked] at hN
      cases hN

/-- A worker gets past its wait when the operation before it has made its last post. -/
theorem previous_advance (h : SerialInv cfg s) (hE : 0 < cfg.entries)
    (hentry : ∀ K, N = K + 1 → s.phase N = .ready →
      (s.table (waitSlot cfg.entries N)).available = true →
      (s.table (waitSlot cfg.entries N)).opNumber = K)
    (hs : Advance cfg s w N s') (M : Nat) (hM : (s'.phase (M + 1)).passed = true) :
    (s'.phase M).posted = true := by
  by_cases hMN : M + 1 = N
  · subst hMN
    apply hs.posted_mono h.toChainInv
    cases hs with
    | first hp hzero => omega
    | pass hp hpos havailable => exact h.entry _ M (hentry M rfl hp havailable)
    | block hp => simp [Phase.passed] at hM
    | wake hp | quit hp | goSerial hp | goLoose hp | earlyPost hp | earlyPop hp | start hp
    | finish hp | lastPost hp | lastPop hp => exact h.previous M (by simp [hp, Phase.passed])
  · rcases hs.other h.toChainInv hMN with hsame | ⟨-, -, hw, hp⟩
    · rw [hsame] at hM
      exact hs.posted_mono h.toChainInv (h.previous M hM)
    · have hlast : s.phase N = .lastPop := hp.resolve_left (h.noEarly N).2
      obtain rfl : M = N := by
        have := h.waiter_eq hE hlast hw
        omega
      exact hs.posted_mono h.toChainInv (by simp [hlast, Phase.posted])

theorem noEarly_advance (h : SerialInv cfg s) (hord : cfg.ordering = .serial)
    (hs : Advance cfg s w N s') (M : Nat) :
    s'.phase M ≠ .earlyPost ∧ s'.phase M ≠ .earlyPop := by
  by_cases hMN : M = N
  · subst hMN
    have hearly := h.noEarly M
    cases hs with
    | lastPop hp =>
        have hw := Advance.waiter_ne h.toChainInv (N := M) (by simp [hp])
        simp [hw]
    | earlyPop hp => exact absurd hp hearly.2
    | earlyPost hp => exact absurd hp hearly.1
    | goLoose hp hstop hloose => simp [hord] at hloose
    | _ => simp
  · rcases hs.other h.toChainInv hMN with hsame | ⟨-, hreleased, -⟩
    · rw [hsame]
      exact h.noEarly M
    · simp [hreleased]

theorem outcome_advance (h : SerialInv cfg s) (hs : Advance cfg s w N s') (M : Nat)
    (hM : s'.phase M = .finishing ∨ (s'.phase M).posted = true) :
    s'.ioFinished M = true ∨ s'.stop = true := by
  have hout := h.outcome M
  by_cases hMN : M = N
  · subst hMN
    cases hs with
    | earlyPop hp => exact absurd hp (h.noEarly M).2
    | lastPop hp | lastPost hp | quit hp => simp_all [Phase.posted]
    | finish hp => simp
    | _ => simp [Phase.posted] at hM
  · have hio : s'.ioFinished M = s.ioFinished M := by
      cases hs <;> simp [Function.update_of_ne hMN]
    rw [hio, hs.stop_eq]
    rcases hs.other h.toChainInv hMN with hsame | ⟨-, hreleased, -⟩
    · exact hout (hsame ▸ hM)
    · simp [hreleased, Phase.posted] at hM

theorem started_advance (h : SerialInv cfg s) (hs : Advance cfg s w N s') (M : Nat)
    (hM : s'.phase (M + 1) = .starting ∨ s'.phase (M + 1) = .io ∨ s'.ioStarted (M + 1) = true) :
    s'.ioFinished M = true := by
  have hmono : s.ioFinished M = true → s'.ioFinished M = true := by
    cases hs <;> simp [Function.update_apply]
    exact .inr
  apply hmono
  by_cases hMN : M + 1 = N
  · subst hMN
    have hstarted := h.started M
    cases hs with
    | goSerial hp hstop hord =>
        -- the test for cancel came out negative, so the previous operation did its I/O
        have hposted := h.previous M (by simp [hp, Phase.passed])
        exact (h.outcome M (.inr hposted)).resolve_right (by simp [hstop])
    | earlyPop hp => exact absurd hp (h.noEarly (M + 1)).2
    | lastPop hp =>
        have hw := Advance.waiter_ne h.toChainInv (N := M + 1) (by simp [hp])
        simp_all
    | _ => simp_all
  · have hio : s'.ioStarted (M + 1) = s.ioStarted (M + 1) := by
      cases hs <;> simp [Function.update_of_ne hMN]
    rw [hio] at hM
    rcases hs.other h.toChainInv hMN with hsame | ⟨-, hreleased, -⟩
    · exact h.started M (hsame ▸ hM)
    · exact h.started M (.inr (.inr (by simpa [hreleased] using hM)))

theorem entry_advance (h : SerialInv cfg s) (hs : Advance cfg s w N s') (j K : Nat)
    (hK : (s'.table j).opNumber = K) : (s'.phase K).posted = true := by
  by_cases hold : (s.table j).opNumber = K
  · exact hs.posted_mono h.toChainInv (h.entry j K hold)
  · cases hs with
    | earlyPost hp => exact absurd hp (h.noEarly N).1
    | lastPost hp =>
        dsimp only at hK
        rw [Table.post_apply] at hK
        split at hK
        · obtain rfl : N = K := by simpa using hK
          simp [Phase.posted]
        · exact absurd hK hold
    | pass | block | wake | earlyPop | lastPop =>
        refine absurd ?_ hold
        simp only [Table.consume_apply, Table.enqueue_apply, Table.pop_apply] at hK
        split at hK <;> simp_all
    | _ => exact absurd hK hold

theorem advance (h : SerialInv cfg s) (hE : 0 < cfg.entries) (hord : cfg.ordering = .serial)
    (hentry : ∀ K, N = K + 1 → s.phase N = .ready →
      (s.table (waitSlot cfg.entries N)).available = true →
      (s.table (waitSlot cfg.entries N)).opNumber = K)
    (hs : Advance cfg s w N s') : SerialInv cfg s' where
  toChainInv := h.toChainInv.advance hs
  noEarly := h.noEarly_advance hord hs
  previous := h.previous_advance hE hentry hs
  outcome := h.outcome_advance hs
  started := h.started_advance hs
  entry := h.entry_advance hs
  distance := by
    intro M hM
    rw [hs.nextOp_eq] at hM
    exact hs.done_mono h.toChainInv (h.distance M hM)

theorem assign (h : SerialInv cfg s)
    (hdone : ∀ M < s.nextOp - cfg.entries, s.phase M = .done)
    (hs : step cfg s (.assign w) = some s') : SerialInv cfg s' := by
  have hchain := h.toChainInv.assign hs
  obtain ⟨-, -, rfl⟩ := step_assign hs
  have hfresh := h.fresh
  -- only the operation handed out changes its phase, and it had none before
  have hnew : ∀ M, Function.update s.phase s.nextOp .ready M ≠ .ready →
      Function.update s.phase s.nextOp .ready M = s.phase M := by
    intro M hM
    refine Function.update_of_ne ?_ _ _
    rintro rfl
    simp at hM
  have hold : ∀ M, (s.phase M).posted = true →
      (Function.update s.phase s.nextOp .ready M).posted = true := by
    intro M hM
    rwa [Function.update_of_ne]
    rintro rfl
    simp [hfresh, Phase.posted] at hM
  refine ⟨hchain, ?_, ?_, ?_, ?_, ?_, ?_⟩
  · intro M
    by_cases hM : M = s.nextOp
    · simp [hM]
    · simpa [hM] using h.noEarly M
  · intro M hM
    refine hold M (h.previous M ?_)
    rwa [← hnew (M + 1) (fun hready => by simp [hready, Phase.passed] at hM)]
  · intro M hM
    apply h.outcome M
    rwa [← hnew M (fun hready => by simp [hready, Phase.posted] at hM)]
  · intro M hM
    apply h.started M
    by_cases hready : Function.update s.phase s.nextOp .ready (M + 1) = .ready
    · exact .inr (.inr (by simpa [hready] using hM))
    · rwa [← hnew (M + 1) hready]
  · intro j K hK
    exact hold K (h.entry j K hK)
  · intro M hM
    dsimp only at hM ⊢
    have hlt : M < s.nextOp := by omega
    rw [Function.update_of_ne hlt.ne]
    exact hdone M (by omega)

theorem step (h : SerialInv cfg s) (hE : 0 < cfg.entries) (hord : cfg.ordering = .serial)
    {a : Action cfg} (hok : InOrder cfg s a) (hs : step cfg s a = some s') :
    SerialInv cfg s' := by
  cases a with
  | assign w => exact h.assign hok hs
  | advance w =>
      obtain ⟨N, hworker, hadvance⟩ := step_advance hs
      refine h.advance hE hord ?_ hadvance
      intro K hK hp havailable
      have := hok N hworker (by omega) hp havailable
      omega
  | raise =>
      cases hs
      exact ⟨h.toChainInv.step (a := .raise) rfl, h.noEarly, h.previous, fun N _ => .inr rfl,
        h.started, h.entry, h.distance⟩

end SerialInv

/-- With serial ordering, in every run that uses the table as intended, the I/O of an
operation starts only after the I/O of the operation before it has finished. -/
theorem serial_io_order (cfg : Config) (hQ : 2 ≤ cfg.queueDepth) (hord : cfg.ordering = .serial)
    (s : State cfg) (h : Transition.Reach (step cfg) (InOrder cfg) (init cfg) s) (N : Nat)
    (hN : s.ioStarted (N + 1) = true) : s.ioFinished N = true := by
  have hE : 0 < cfg.entries := Config.entries_pos (by omega)
  have hinv : SerialInv cfg s :=
    h.invariant (SerialInv.init cfg) fun _ _ _ hs hok hstep => hs.step hE hord hok hstep
  exact hinv.started N (.inr (.inr hN))

/-- Two workers, two operations, serial ordering. -/
def twoOps : Config := ⟨.serial, 2, 2⟩

/-- The second worker arrives after the first has posted. -/
theorem serial_io_order_twoOps :
    ∃ s, Transition.Reach (step twoOps) (InOrder twoOps) (init twoOps) s ∧
      s.ioStarted 1 = true ∧ s.ioFinished 0 = true := by
  obtain ⟨s, hreach, hstarted⟩ :
      ∃ s, Transition.Reach (step twoOps) (InOrder twoOps) (init twoOps) s ∧
        s.ioStarted 1 = true :=
    ⟨_, Transition.reach_of_run
      (List.flatten [
        .assign (0 : Fin 2) :: List.replicate 5 (.advance (0 : Fin 2)),
        .assign (1 : Fin 2) :: List.replicate 3 (.advance (1 : Fin 2))]) rfl, rfl⟩
  exact ⟨s, hreach, hstarted, serial_io_order twoOps (by decide) rfl s hreach 0 hstarted⟩

/-- The second worker finds its entry available from the start and overtakes the first. -/
theorem serial_io_overtakes :
    ∃ s, Transition.Reach (step twoOps) Transition.anyStep (init twoOps) s ∧
      s.ioStarted 1 = true ∧ s.ioFinished 0 = false :=
  ⟨_, Transition.reach_of_run
    (.assign (0 : Fin 2) :: .assign (1 : Fin 2) :: List.replicate 3 (.advance (1 : Fin 2))) rfl,
    rfl, rfl⟩

end Xdd.Ordering
