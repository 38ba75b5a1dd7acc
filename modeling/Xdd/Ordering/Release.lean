import Xdd.Ordering.Chain

/-!
# No release is lost

A post is kept as one flag in an entry that operations a whole table apart share. While
all operations in flight are less than `tot_entries - 1` apart, an entry has one poster
and one waiter at a time, and a worker that sleeps still has its release to come. A
worker that falls further behind can use up the post meant for a younger operation,
which then sleeps for ever.
-/

namespace Xdd.Ordering

/-- An operation is handed out only when those `tot_entries - 1` or more behind are done. -/
def CloseTogether (cfg : Config) (s : State cfg) : Action cfg → Prop
  | .assign _ => ∀ M < s.nextOp + 2 - cfg.entries, s.phase M = .done
  | .advance _ => True
  | .raise => True

instance (cfg : Config) (s : State cfg) : (a : Action cfg) → Decidable (CloseTogether cfg s a)
  | .assign _ => inferInstanceAs (Decidable (∀ M < _, _))
  | .advance _ => inferInstanceAs (Decidable True)
  | .raise => inferInstanceAs (Decidable True)

/-- What such a run keeps up. -/
structure ReleaseInv (cfg : Config) (s : State cfg) : Prop extends ChainInv cfg s where
  first : s.phase 0 ≠ .released
  window : ∀ M, M + cfg.entries ≤ s.nextOp → s.phase M = .done
  available : ∀ K, (s.phase K).posted = true →
    s.phase (K + 1) = .unassigned ∨ s.phase (K + 1) = .ready →
    (s.table (K % cfg.entries)).available = true
  waiting : ∀ N, s.phase (N + 1) = .blocked → s.phase N ≠ .done

variable {cfg : Config} {s s' : State cfg} {w : Fin cfg.queueDepth} {N : Nat}

namespace ReleaseInv

theorem init (cfg : Config) (hE : 0 < cfg.entries) : ReleaseInv cfg (init cfg) := by
  refine ⟨ChainInv.init cfg, ?_, fun M hM => ?_, ?_, ?_⟩
  · simp [Ordering.init]
  · simp only [Ordering.init] at hM
    omega
  all_goals simp [Ordering.init, Phase.posted]

/-- Two operations in flight never wait on the same entry. -/
theorem eq_of_slot (h : ReleaseInv cfg s) {I J : Nat}
    (hmod : I % cfg.entries = J % cfg.entries) (hI : I < s.nextOp) (hJ : J < s.nextOp)
    (hI' : s.phase (I + 1) ≠ .done) (hJ' : s.phase (J + 1) ≠ .done) : I = J := by
  rcases Nat.lt_trichotomy I J with hlt | heq | hgt
  · by_contra hne
    have hfar : I + cfg.entries ≤ J :=
      not_lt.mp fun hclose => hne (eq_of_mod_eq hmod hlt.le hclose)
    exact hI' (h.window (I + 1) (by omega))
  · exact heq
  · by_contra hne
    have hfar : J + cfg.entries ≤ I :=
      not_lt.mp fun hclose => hne (eq_of_mod_eq hmod.symm hgt.le hclose).symm
    exact hJ' (h.window (J + 1) (by omega))

/-- An operation in flight that waits on the entry of `K` is `K + 1`. -/
theorem eq_succ_of_waitSlot (h : ReleaseInv cfg s) (hE : 0 < cfg.entries) {K M : Nat}
    (hpos : M ≠ 0) (hslot : waitSlot cfg.entries M = K % cfg.entries) (hK : K < s.nextOp)
    (hM : s.phase M ≠ .unassigned) (hM' : s.phase M ≠ .done) (hK' : s.phase (K + 1) ≠ .done) :
    M = K + 1 := by
  obtain ⟨M, rfl⟩ : ∃ I, M = I + 1 := ⟨M - 1, by omega⟩
  rw [waitSlot_succ hE] at hslot
  have hassigned := (h.assigned (M + 1)).mp hM
  rw [h.eq_of_slot hslot (by omega) hK hM' hK']

/-- Only the waiter an entry is meant for uses up its post. -/
theorem consume_available (h : ReleaseInv cfg s) (hE : 0 < cfg.entries) {K : Nat}
    (hK : (s.phase K).posted = true)
    (hnext : s.phase (K + 1) = .unassigned ∨ s.phase (K + 1) = .ready) (hpos : N ≠ 0)
    (hN : s.phase N ≠ .unassigned) (hN' : s.phase N ≠ .done) (hne : K + 1 ≠ N) :
    (s.table.consume (waitSlot cfg.entries N) (K % cfg.entries)).available = true := by
  have hslot : K % cfg.entries ≠ waitSlot cfg.entries N := by
    intro heq
    have hassigned := (h.assigned K).mp (by cases hp : s.phase K <;> simp_all [Phase.posted])
    have hopen : s.phase (K + 1) ≠ .done := by rcases hnext with hp | hp <;> simp [hp]
    exact hne (h.eq_succ_of_waitSlot hE hpos heq.symm hassigned hN hN' hopen).symm
  rw [Table.consume_apply, if_neg hslot]
  exact h.available K hK hnext

theorem available_advance (h : ReleaseInv cfg s) (hE : 0 < cfg.entries)
    (hs : Advance cfg s w N s') (K : Nat) (hK : (s'.phase K).posted = true)
    (hnext : s'.phase (K + 1) = .unassigned ∨ s'.phase (K + 1) = .ready) :
    (s'.table (K % cfg.entries)).available = true := by
  obtain ⟨hne, hsame⟩ := hs.notYet h.toChainInv hnext
  rw [hsame] at hnext
  have hold : s.phase N ≠ .finishing → (s.phase K).posted = true := by
    intro hp
    exact (hs.posted_cases h.toChainInv hK).resolve_right fun hfin => hp hfin.2
  have hkept : s.phase N ≠ .finishing → (s.table (K % cfg.entries)).available = true :=
    fun hp => h.available K (hold hp) hnext
  cases hs with
  | pass hp hpos =>
      exact h.consume_available hE (hold (by simp [hp])) hnext hpos (by simp [hp])
        (by simp [hp]) hne
  | wake hp =>
      have hpos : N ≠ 0 := fun hzero => h.first (hzero ▸ hp)
      exact h.consume_available hE (hold (by simp [hp])) hnext hpos (by simp [hp])
        (by simp [hp]) hne
  | lastPost hp =>
      dsimp only
      rw [Table.post_apply]
      split
      · rfl
      · rename_i hslot
        refine h.available K ?_ hnext
        refine (Advance.posted_cases (.lastPost hp) h.toChainInv (w := w) hK).resolve_right ?_
        rintro ⟨rfl, -⟩
        exact hslot rfl
  | block hp | earlyPost hp | earlyPop hp | lastPop hp =>
      have havailable := hkept (by simp [hp])
      simp only [Table.enqueue_apply, Table.post_apply, Table.pop_apply]
      split <;> simp_all
  | first hp | quit hp | goSerial hp | goLoose hp | start hp | finish hp =>
      exact hkept (by simp [hp])

/-- The chain of an entry holds at most the one operation the entry is meant for. -/
theorem waiter_eq_succ (h : ReleaseInv cfg s) (hE : 0 < cfg.entries)
    (hblocked : s.phase (N + 1) = .blocked) : s.table.waiter cfg.entries N = some (N + 1) := by
  have hqueued := h.queued (N + 1) hblocked
  rw [waitSlot_succ hE] at hqueued
  have hassigned := (h.assigned (N + 1)).mp (by simp [hblocked])
  cases hw : s.table.waiter cfg.entries N with
  | none =>
      rw [Table.waiter, List.head?_eq_none_iff] at hw
      simp [hw] at hqueued
  | some M =>
      obtain ⟨hM, hpos, hslot⟩ := h.waiter M hw
      rw [h.eq_succ_of_waitSlot hE hpos hslot (by omega) (by simp [hM]) (by simp [hM])
        (by simp [hblocked])]

theorem waiting_advance (h : ReleaseInv cfg s) (hE : 0 < cfg.entries)
    (hs : Advance cfg s w N s') (M : Nat) (hM : s'.phase (M + 1) = .blocked) :
    s'.phase M ≠ .done := by
  intro hdone
  by_cases hMN : M + 1 = N
  · -- the worker goes to sleep: its entry is not available, so nothing was posted
    subst hMN
    have hposted : (s.phase M).posted = true := by
      have hother := hs.other h.toChainInv (M := M) (by omega)
      rw [hdone] at hother
      simpa [← hother.resolve_right (by simp)] using (by rfl : Phase.done.posted = true)
    cases hs with
    | block hp hpos hunavailable =>
        have havailable := h.available M hposted (.inr hp)
        rw [waitSlot_succ hE, havailable] at hunavailable
        cases hunavailable
    | earlyPop hp | lastPop hp =>
        have hw := Advance.waiter_ne h.toChainInv (N := M + 1) (by simp [hp])
        simp [hw] at hM
    | _ => simp at hM
  · have hblocked : s.phase (M + 1) = .blocked := by
      rcases hs.other h.toChainInv hMN with hsame | ⟨-, hreleased, -⟩
      · rwa [← hsame]
      · simp [hreleased] at hM
    have hopen := h.waiting M hblocked
    obtain rfl : M = N := by
      by_contra hne
      rcases hs.other h.toChainInv hne with hsame | ⟨-, hreleased, -⟩
      · exact hopen (hsame ▸ hdone)
      · simp [hreleased] at hdone
    -- the release that ends the previous operation wakes this one
    have hw := h.waiter_eq_succ hE hblocked
    cases hs with
    | lastPop hp | earlyPop hp => simp [hw] at hM
    | _ => simp at hdone

theorem advance (h : ReleaseInv cfg s) (hE : 0 < cfg.entries) (hs : Advance cfg s w N s') :
    ReleaseInv cfg s' where
  toChainInv := h.toChainInv.advance hs
  first := by
    by_cases hN : 0 = N
    · subst hN
      cases hs with
      | lastPop hp | earlyPop hp =>
          have hw := Advance.waiter_ne h.toChainInv (N := 0) (by simp [hp])
          simp [hw]
      | _ => simp
    · rcases hs.other h.toChainInv hN with hsame | ⟨-, -, hw, -⟩
      · rw [hsame]
        exact h.first
      · exact absurd rfl (h.waiter 0 hw).2.1
  window := by
    intro M hM
    rw [hs.nextOp_eq] at hM
    exact hs.done_mono h.toChainInv (h.window M hM)
  available := h.available_advance hE hs
  waiting := h.waiting_advance hE hs

theorem assign (h : ReleaseInv cfg s)
    (hdone : ∀ M < s.nextOp + 2 - cfg.entries, s.phase M = .done)
    (hs : step cfg s (.assign w) = some s') : ReleaseInv cfg s' := by
  have hchain := h.toChainInv.assign hs
  obtain ⟨-, -, rfl⟩ := step_assign hs
  have hfresh := h.fresh
  refine ⟨hchain, ?_, ?_, ?_, ?_⟩
  · by_cases hzero : 0 = s.nextOp
    · simp [← hzero]
    · simpa [Function.update_of_ne hzero] using h.first
  · intro M hM
    dsimp only at hM ⊢
    have hM' := hdone M (by omega)
    rw [Function.update_of_ne]
    · exact hM'
    · rintro rfl
      simp [hfresh] at hM'
  · intro K hK hnext
    dsimp only at hK hnext ⊢
    have hne : K ≠ s.nextOp := by
      rintro rfl
      simp [Phase.posted] at hK
    rw [Function.update_of_ne hne] at hK
    apply h.available K hK
    by_cases hnew : K + 1 = s.nextOp
    · exact .inl (hnew ▸ hfresh)
    · rwa [Function.update_of_ne hnew] at hnext
  · intro M hM
    dsimp only at hM ⊢
    have hne : M + 1 ≠ s.nextOp := by
      intro heq
      simp [heq] at hM
    rw [Function.update_of_ne hne] at hM
    have hassigned := (h.assigned (M + 1)).mp (by simp [hM])
    rw [Function.update_of_ne (by omega)]
    exact h.waiting M hM

theorem step (h : ReleaseInv cfg s) (hE : 0 < cfg.entries) {a : Action cfg}
    (hok : CloseTogether cfg s a) (hs : step cfg s a = some s') : ReleaseInv cfg s' := by
  cases a with
  | assign w => exact h.assign hok hs
  | advance w =>
      obtain ⟨N, -, hadvance⟩ := step_advance hs
      exact h.advance hE hadvance
  | raise =>
      cases hs
      exact ⟨h.toChainInv.step (a := .raise) rfl, h.first, h.window, h.available, h.waiting⟩

end ReleaseInv

/-- With serial or loose ordering, in every run that keeps the operations in flight close
together, a worker that sleeps in the wait of an operation is still to be released by
the last release call of the operation before it. -/
theorem blocked_awaits_release (cfg : Config) (hQ : 1 ≤ cfg.queueDepth) (s : State cfg)
    (h : Transition.Reach (step cfg) (CloseTogether cfg) (init cfg) s) (N : Nat)
    (hN : s.phase (N + 1) = .blocked) : s.phase N ≠ .done := by
  have hE : 0 < cfg.entries := Config.entries_pos (by omega)
  have hinv : ReleaseInv cfg s :=
    h.invariant (ReleaseInv.init cfg hE) fun _ _ _ hs hok hstep => hs.step hE hok hstep
  exact hinv.waiting N hN

/-- Two workers and a hundred operations, so that the table has forty entries. -/
def manyOps : Config := ⟨.serial, 2, 100⟩

/-- The whole of one operation, from the hand-over to the end of its last release. -/
def wholeOp (w : Fin 2) : List (Action manyOps) := .assign w :: List.replicate 6 (.advance w)

/-- Forty operations in turn, and then operation 41 arrives before operation 40 posts. -/
theorem blocked_awaits_release_manyOps :
    ∃ s, Transition.Reach (step manyOps) (CloseTogether manyOps) (init manyOps) s ∧
      s.phase 41 = .blocked ∧ s.phase 40 ≠ .done := by
  obtain ⟨s, hreach, hblocked⟩ :
      ∃ s, Transition.Reach (step manyOps) (CloseTogether manyOps) (init manyOps) s ∧
        s.phase 41 = .blocked :=
    Transition.exists_reach_of_run
      (List.flatten [(List.replicate 40 (wholeOp 0)).flatten,
        [.assign (0 : Fin 2), .assign (1 : Fin 2), .advance (1 : Fin 2)]]) (by decide +kernel)
  exact ⟨s, hreach, hblocked, blocked_awaits_release manyOps (by decide) s hreach 40 hblocked⟩

/-- Operation 1 is overtaken by operations 2 to 40 and uses up the post of operation 40,
which has the same entry as operation 0. Operation 41 sleeps although all operations
before it are done. -/
theorem release_lost :
    ∃ s, Transition.Reach (step manyOps) Transition.anyStep (init manyOps) s ∧
      s.phase 41 = .blocked ∧ ∀ M < 41, s.phase M = .done :=
  Transition.exists_reach_of_run
    (List.flatten [
      wholeOp 0, [.assign (1 : Fin 2)], (List.replicate 39 (wholeOp 0)).flatten,
      List.replicate 6 (.advance (1 : Fin 2)), [.assign (0 : Fin 2), .advance (0 : Fin 2)]])
    (by decide +kernel)

end Xdd.Ordering
