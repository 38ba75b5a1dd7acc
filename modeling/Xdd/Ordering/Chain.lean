import Xdd.Ordering.Table

/-!
# The wait chains

Whatever the schedule, the chain of an entry holds exactly the blocked operations that
wait on that entry, each of them once.
-/

namespace Xdd.Ordering

/-- The bookkeeping that every step keeps up. -/
structure ChainInv (cfg : Config) (s : State cfg) : Prop where
  assigned : ∀ N, s.phase N ≠ .unassigned ↔ N < s.nextOp
  members : ∀ j, ∀ N ∈ (s.table j).chain,
    s.phase N = .blocked ∧ N ≠ 0 ∧ waitSlot cfg.entries N = j
  nodup : ∀ j, (s.table j).chain.Nodup
  queued : ∀ N, s.phase N = .blocked → N ∈ (s.table (waitSlot cfg.entries N)).chain

variable {cfg : Config} {s s' : State cfg} {w : Fin cfg.queueDepth} {N : Nat}

namespace ChainInv

theorem init (cfg : Config) : ChainInv cfg (init cfg) := by
  refine ⟨?_, ?_, ?_, ?_⟩ <;> simp [Ordering.init]

/-- The operation to be handed out next. -/
theorem fresh (h : ChainInv cfg s) : s.phase s.nextOp = .unassigned := by
  by_contra hne
  exact lt_irrefl _ ((h.assigned s.nextOp).mp hne)

/-- A waiter that operation `N` takes off its chain waits on the entry of `N`. -/
theorem waiter (h : ChainInv cfg s) (M : Nat) (hM : s.table.waiter cfg.entries N = some M) :
    s.phase M = .blocked ∧ M ≠ 0 ∧ waitSlot cfg.entries M = N % cfg.entries :=
  h.members _ M (List.mem_of_mem_head? hM)

/-- Taking a waiter off removes it and nothing else, since no chain holds it twice. -/
theorem mem_pop_iff (h : ChainInv cfg s) (j M : Nat) :
    M ∈ (s.table.pop cfg.entries N j).chain ↔
      M ∈ (s.table j).chain ∧ s.table.waiter cfg.entries N ≠ some M := by
  rw [Table.pop_apply]
  split
  · rename_i hj
    subst hj
    have hnodup := h.nodup (N % cfg.entries)
    rw [Table.waiter]
    cases hchain : (s.table (N % cfg.entries)).chain with
    | nil => simp
    | cons K rest =>
        rw [hchain, List.nodup_cons] at hnodup
        simp only [List.tail_cons, List.mem_cons, List.head?_cons, ne_eq, Option.some.injEq]
        constructor
        · intro hM
          exact ⟨.inr hM, fun hK => hnodup.1 (hK ▸ hM)⟩
        · rintro ⟨hM, hne⟩
          exact hM.resolve_left (Ne.symm hne)
  · rename_i hj
    have hother : s.table.waiter cfg.entries N = some M → M ∉ (s.table j).chain := by
      intro hw hM
      exact hj ((h.members j M hM).2.2.symm.trans (h.waiter M hw).2.2)
    exact ⟨fun hM => ⟨hM, fun hw => hother hw hM⟩, And.left⟩

theorem nodup_pop (h : ChainInv cfg s) (j : Nat) :
    (s.table.pop cfg.entries N j).chain.Nodup := by
  rw [Table.pop_apply]
  split
  · exact (h.nodup _).sublist (List.tail_sublist _)
  · exact h.nodup j

/-- A step of an operation that is not asleep and does not go to sleep, with all chains
as they were. -/
theorem move (h : ChainInv cfg s) {p : Phase} (hnext : s'.nextOp = s.nextOp)
    (hphase : s'.phase = Function.update s.phase N p)
    (hchain : ∀ j, (s'.table j).chain = (s.table j).chain)
    (hN : s.phase N ≠ .unassigned ∧ s.phase N ≠ .blocked)
    (hp : p ≠ .unassigned ∧ p ≠ .blocked) : ChainInv cfg s' where
  assigned M := by
    rw [hnext, hphase, ← h.assigned M]
    by_cases hM : M = N
    · subst hM
      simp [hN, hp]
    · rw [Function.update_of_ne hM]
  members j M hM := by
    rw [hchain] at hM
    obtain ⟨hblocked, hslot⟩ := h.members j M hM
    have hne : M ≠ N := fun heq => hN.2 (heq ▸ hblocked)
    rw [hphase, Function.update_of_ne hne]
    exact ⟨hblocked, hslot⟩
  nodup j := by
    rw [hchain]
    exact h.nodup j
  queued M hM := by
    have hne : M ≠ N := by
      rintro rfl
      simp [hphase, hp] at hM
    rw [hphase, Function.update_of_ne hne] at hM
    rw [hchain]
    exact h.queued M hM

/-- An operation goes to sleep on the chain of the entry it waits on. -/
theorem block (h : ChainInv cfg s) (hN : s.phase N = .ready) (hpos : N ≠ 0) :
    ChainInv cfg { s with
      table := s.table.enqueue (waitSlot cfg.entries N) N
      phase := Function.update s.phase N .blocked } := by
  have hout : ∀ j, N ∉ (s.table j).chain := by
    intro j hmem
    have hblocked := (h.members j N hmem).1
    simp [hN] at hblocked
  have hphase : ∀ M, M ≠ N → Function.update s.phase N .blocked M = s.phase M :=
    fun M hM => Function.update_of_ne hM _ _
  refine ⟨?_, ?_, ?_, ?_⟩ <;> dsimp only
  · intro M
    rw [← h.assigned M]
    by_cases hM : M = N
    · simp [hM, hN]
    · rw [hphase M hM]
  · intro j M hM
    by_cases hMN : M = N
    · subst hMN
      refine ⟨Function.update_self .., hpos, ?_⟩
      rw [Table.enqueue_apply] at hM
      split at hM
      · exact (‹j = _›).symm
      · exact absurd hM (hout j)
    · rw [hphase M hMN]
      apply h.members j M
      rw [Table.enqueue_apply] at hM
      split at hM
      · simpa [hMN, ‹j = _›] using hM
      · exact hM
  · intro j
    rw [Table.enqueue_apply]
    split
    · refine List.nodup_append.mpr ⟨h.nodup _, by simp, ?_⟩
      intro M hM K hK heq
      obtain rfl := List.mem_singleton.mp hK
      exact hout _ (heq ▸ hM)
    · exact h.nodup j
  · intro M hM
    by_cases hMN : M = N
    · simp [hMN]
    · rw [hphase M hMN] at hM
      have hqueued := h.queued M hM
      rw [Table.enqueue_apply]
      split
      · rename_i hslot
        exact List.mem_append_left _ (hslot ▸ hqueued)
      · exact hqueued

/-- The waiter that an operation takes off its chain is no longer asleep. -/
theorem pop (h : ChainInv cfg s) {p : Phase} (hnext : s'.nextOp = s.nextOp)
    (hphase : s'.phase =
      release (Function.update s.phase N p) (s.table.waiter cfg.entries N))
    (htable : s'.table = s.table.pop cfg.entries N)
    (hN : s.phase N ≠ .unassigned ∧ s.phase N ≠ .blocked)
    (hp : p ≠ .unassigned ∧ p ≠ .blocked) : ChainInv cfg s' := by
  refine ⟨?_, ?_, ?_, ?_⟩
  · intro M
    rw [hnext, hphase, release_apply, ← h.assigned M]
    split
    · simp [(h.waiter M ‹_›).1]
    · by_cases hM : M = N
      · subst hM
        simp [hN, hp]
      · rw [Function.update_of_ne hM]
  · intro j M hM
    rw [htable] at hM
    obtain ⟨hmem, hw⟩ := (h.mem_pop_iff j M).mp hM
    obtain ⟨hblocked, hslot⟩ := h.members j M hmem
    have hne : M ≠ N := fun heq => hN.2 (heq ▸ hblocked)
    rw [hphase, release_apply, if_neg hw, Function.update_of_ne hne]
    exact ⟨hblocked, hslot⟩
  · intro j
    rw [htable]
    exact h.nodup_pop j
  · intro M hM
    rw [hphase, release_apply] at hM
    split at hM
    · cases hM
    · have hne : M ≠ N := by
        rintro rfl
        simp [hp] at hM
      rw [Function.update_of_ne hne] at hM
      rw [htable]
      exact (h.mem_pop_iff _ M).mpr ⟨h.queued M hM, ‹_›⟩

theorem advance (h : ChainInv cfg s) (hs : Advance cfg s w N s') : ChainInv cfg s' := by
  cases hs with
  | block hp hpos => exact h.block hp hpos
  | earlyPop hp | lastPop hp => exact h.pop rfl rfl rfl (by simp [hp]) (by simp)
  | pass hp | wake hp =>
      exact h.move rfl rfl (fun j => Table.consume_chain ..) (by simp [hp]) (by simp)
  | earlyPost hp | lastPost hp =>
      exact h.move rfl rfl (fun j => Table.post_chain ..) (by simp [hp]) (by simp)
  | first hp | quit hp | goSerial hp | goLoose hp | start hp | finish hp =>
      exact h.move rfl rfl (fun _ => rfl) (by simp [hp]) (by simp)

theorem assign (h : ChainInv cfg s) (hs : step cfg s (.assign w) = some s') :
    ChainInv cfg s' := by
  obtain ⟨-, -, rfl⟩ := step_assign hs
  have hfresh := h.fresh
  refine ⟨?_, ?_, h.nodup, ?_⟩ <;> dsimp only
  · intro M
    have hassigned := h.assigned M
    by_cases hMN : M = s.nextOp
    · simp [hMN]
    · rw [Function.update_of_ne hMN, hassigned]
      omega
  · intro j M hM
    obtain ⟨hblocked, hslot⟩ := h.members j M hM
    have hne : M ≠ s.nextOp := by
      rintro rfl
      simp [hfresh] at hblocked
    rw [Function.update_of_ne hne]
    exact ⟨hblocked, hslot⟩
  · intro M hM
    have hne : M ≠ s.nextOp := by
      rintro rfl
      simp at hM
    rw [Function.update_of_ne hne] at hM
    exact h.queued M hM

theorem step (h : ChainInv cfg s) {a : Action cfg} (hs : step cfg s a = some s') :
    ChainInv cfg s' := by
  cases a with
  | assign w => exact h.assign hs
  | advance w =>
      obtain ⟨N, -, hadvance⟩ := step_advance hs
      exact h.advance hadvance
  | raise =>
      cases hs
      exact ⟨h.assigned, h.members, h.nodup, h.queued⟩

end ChainInv

/-! ## Phases -/

/-- The worker is past its wait, or released from it. -/
def Phase.passed : Phase → Bool
  | .unassigned | .ready | .blocked => false
  | _ => true

/-- The worker has made its last post. -/
def Phase.posted : Phase → Bool
  | .lastPop | .done => true
  | _ => false

namespace Advance

/-- A worker does not move the operations of the others, except that it releases the
waiter it takes off a chain. -/
theorem other (hs : Advance cfg s w N s') (h : ChainInv cfg s) {M : Nat} (hM : M ≠ N) :
    s'.phase M = s.phase M ∨
      (s.phase M = .blocked ∧ s'.phase M = .released ∧ s.table.waiter cfg.entries N = some M ∧
        (s.phase N = .earlyPop ∨ s.phase N = .lastPop)) := by
  cases hs with
  | earlyPop hp | lastPop hp =>
      dsimp only
      rw [release_apply]
      split
      · rename_i hw
        exact .inr ⟨(h.waiter M hw).1, rfl, hw, by simp [hp]⟩
      · exact .inl (Function.update_of_ne hM _ _)
  | _ => exact .inl (Function.update_of_ne hM _ _)

/-- No worker waits for itself. -/
theorem waiter_ne (h : ChainInv cfg s) (hp : s.phase N ≠ .blocked) :
    s.table.waiter cfg.entries N ≠ some N :=
  fun hw => hp (h.waiter N hw).1

theorem posted_mono (hs : Advance cfg s w N s') (h : ChainInv cfg s) {M : Nat}
    (hM : (s.phase M).posted = true) : (s'.phase M).posted = true := by
  by_cases hMN : M = N
  · subst hMN
    cases hs with
    | lastPop hp =>
        have hw := waiter_ne h (N := M) (by simp [hp])
        simp [hw, Phase.posted]
    | first hp | pass hp | block hp | wake hp | quit hp | goSerial hp | goLoose hp
    | earlyPost hp | earlyPop hp | start hp | finish hp | lastPost hp =>
        simp [hp, Phase.posted] at hM
  · rcases hs.other h hMN with hsame | ⟨hblocked, -⟩
    · rwa [hsame]
    · simp [hblocked, Phase.posted] at hM

theorem done_mono (hs : Advance cfg s w N s') (h : ChainInv cfg s) {M : Nat}
    (hM : s.phase M = .done) : s'.phase M = .done := by
  by_cases hMN : M = N
  · subst hMN
    cases hs <;> simp_all
  · rcases hs.other h hMN with hsame | ⟨hblocked, -⟩
    · rwa [hsame]
    · simp [hblocked] at hM

/-- An operation makes its last post by its own step. -/
theorem posted_cases (hs : Advance cfg s w N s') (h : ChainInv cfg s) {M : Nat}
    (hM : (s'.phase M).posted = true) :
    (s.phase M).posted = true ∨ (M = N ∧ s.phase N = .finishing) := by
  by_cases hMN : M = N
  · subst hMN
    cases hs with
    | lastPost hp => exact .inr ⟨rfl, hp⟩
    | lastPop hp => exact .inl (by simp [hp, Phase.posted])
    | earlyPop hp =>
        have hw := waiter_ne h (N := M) (by simp [hp])
        simp [hw, Phase.posted] at hM
    | _ => simp [Phase.posted] at hM
  · rcases hs.other h hMN with hsame | ⟨-, hreleased, -⟩
    · exact .inl (hsame ▸ hM)
    · simp [hreleased, Phase.posted] at hM

/-- No step takes an operation back to its wait. -/
theorem notYet (hs : Advance cfg s w N s') (h : ChainInv cfg s) {M : Nat}
    (hM : s'.phase M = .unassigned ∨ s'.phase M = .ready) :
    M ≠ N ∧ s'.phase M = s.phase M := by
  have hMN : M ≠ N := by
    rintro rfl
    cases hs with
    | earlyPop hp | lastPop hp =>
        have hw := waiter_ne h (N := M) (by simp [hp])
        simp [hw] at hM
    | _ => simp at hM
  refine ⟨hMN, ?_⟩
  rcases hs.other h hMN with hsame | ⟨-, hreleased, -⟩
  · exact hsame
  · simp [hreleased] at hM

@[simp] theorem nextOp_eq (hs : Advance cfg s w N s') : s'.nextOp = s.nextOp := by
  cases hs <;> rfl

@[simp] theorem stop_eq (hs : Advance cfg s w N s') : s'.stop = s.stop := by
  cases hs <;> rfl

end Advance

end Xdd.Ordering
