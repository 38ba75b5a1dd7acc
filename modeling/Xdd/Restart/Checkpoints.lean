import Xdd.Restart.Scan

/-!
# The sequence of restart offsets

The scan of `Xdd.Restart.Scan` with the restart file behind it. The file is created with the
offset that the copy starts from, and every scan adds the offset that it has stored, but no
less than that one. A worker that waits for its next block shows `-1`, so that a scan that comes
to it takes the file back to its start.
-/

namespace Xdd.Restart.Checkpoints

open Scan (Worker MonitorPc)

structure Config extends Scan.Config where
  /-- `initial_restart_offset` -/
  initial : Int

/-- `restartFile` holds every offset that `xdd_restart_write_restart_file` has written. -/
structure State (cfg : Config) where
  scan : Scan.State cfg.toConfig
  restartFile : List Int

def init (cfg : Config) : State cfg where
  scan := Scan.init cfg.toConfig
  restartFile := [restartOffset cfg.initial cfg.initial]

variable {cfg : Config}

/-- `xdd_restart_write_restart_file` comes right behind the store, with the lock held. -/
def writes (cfg : Config) (byteOffset : Int) : Scan.Action cfg.toConfig → List Int
  | .store => [restartOffset byteOffset cfg.initial]
  | _ => []

def step (cfg : Config) (s : State cfg) (a : Scan.Action cfg.toConfig) : Option (State cfg) :=
  (Scan.step cfg.toConfig s.scan a).map fun scan =>
    { scan := scan, restartFile := s.restartFile ++ writes cfg scan.byteOffset a }

theorem writes_of_ne (byteOffset : Int) {a : Scan.Action cfg.toConfig} (h : a ≠ .store) :
    writes cfg byteOffset a = [] := by
  cases a <;> first | rfl | exact absurd rfl h

/-- When the monitor reads the offset that it stores, the worker is not waiting for a block,
unless there is nothing in the file that could be lost, and the last block of no worker is below
it. -/
def LowestNotWaiting (s : State cfg) : Scan.Action cfg.toConfig → Prop
  | .readRestart =>
    match s.scan.pc with
    | .comparing _ low _ _ =>
      ((s.scan.worker low).taskByteOffset ≠ -1 ∨ ∀ v ∈ s.restartFile, v ≤ cfg.initial) ∧
        ∀ w, (s.scan.worker low).taskByteOffset ≤ (s.scan.worker w).shown
    | _ => True
  | _ => True

instance (s : State cfg) (a : Scan.Action cfg.toConfig) : Decidable (LowestNotWaiting s a) := by
  unfold LowestNotWaiting
  split
  · split <;> infer_instance
  · infer_instance

/-! ## What the workers show -/

section

variable {s s' : Scan.State cfg.toConfig} {a : Scan.Action cfg.toConfig}

/-- A worker waits or shows its last block. -/
def Shown (s : Scan.State cfg.toConfig) : Prop :=
  ∀ w, (s.worker w).taskByteOffset = -1 ∨ (s.worker w).taskByteOffset = (s.worker w).shown

/-- The kinds of steps: one worker moves, the monitor goes on with its comparisons, it reads the
offset to be stored, or it stores it. -/
inductive Kind (s s' : Scan.State cfg.toConfig) : Scan.Action cfg.toConfig → Prop where
  | move {b : Scan.Action cfg.toConfig} (w : Fin cfg.queueDepth) (x : Worker) : b ≠ .store →
      s'.pc = s.pc → s'.worker = Function.update s.worker w x → (s.worker w).shown ≤ x.shown →
      (x.taskByteOffset = -1 ∨ x.taskByteOffset = x.shown ∨
        x.taskByteOffset = (s.worker w).taskByteOffset ∧ x.shown = (s.worker w).shown) →
      Kind s s' b
  | compare {b : Scan.Action cfg.toConfig} {cur low current lowest} : b ≠ .store →
      s'.worker = s.worker → s'.pc = .comparing cur low current lowest → Kind s s' b
  | read {cur low current lowest} : s'.worker = s.worker →
      s.pc = .comparing cur low current lowest →
      s'.pc = .loaded (s.worker low).taskByteOffset → Kind s s' .readRestart
  | store {v} : s'.worker = s.worker → s.pc = .loaded v → s'.pc = .asleep → s'.byteOffset = v →
      Kind s s' .store

theorem Kind.of_step (h : Scan.step cfg.toConfig s a = some s') : Kind s s' a := by
  cases a with
  | assign w =>
      simp only [Scan.step] at h
      split at h <;> cases h
      exact .move w _ (by simp) rfl rfl le_rfl (.inl rfl)
  | receive w byteOffset =>
      simp only [Scan.step] at h
      split at h <;> cases h
      rename_i hguard
      exact .move w _ (by simp) rfl rfl hguard.2.shown_le (.inr (.inl rfl))
  | write w =>
      simp only [Scan.step] at h
      split at h <;> cases h
      exact .move w _ (by simp) rfl rfl le_rfl (.inr (.inr ⟨rfl, rfl⟩))
  | wakeUp =>
      simp only [Scan.step] at h
      split at h <;> cases h
      exact .compare (by simp) rfl rfl
  | readCurrent =>
      simp only [Scan.step] at h
      split at h
      · split at h <;> cases h
        exact .compare (by simp) rfl rfl
      · cases h
  | readLowest =>
      simp only [Scan.step] at h
      split at h
      · split at h <;> cases h
        exact .compare (by simp) rfl rfl
      · cases h
  | compare =>
      simp only [Scan.step] at h
      split at h
      · split at h <;> cases h
        exact .compare (by simp) rfl rfl
      · cases h
  | readRestart =>
      simp only [Scan.step] at h
      split at h
      · split at h <;> cases h
        exact .read rfl ‹_› rfl
      · cases h
  | store =>
      simp only [Scan.step] at h
      split at h <;> cases h
      exact .store rfl ‹_› rfl rfl

/-- The last block of a worker is never followed by a lower one. -/
theorem Kind.shown_le (h : Kind s s' a) (m : Fin cfg.queueDepth) :
    (s.worker m).shown ≤ (s'.worker m).shown := by
  cases h with
  | move w x _ _ hworker hle _ =>
      rw [hworker, Function.update_apply]
      split
      · next hm => exact hm ▸ hle
      · exact le_rfl
  | compare _ hworker _ => rw [hworker]
  | read hworker _ _ => rw [hworker]
  | store hworker _ _ _ => rw [hworker]

theorem Kind.shown (h : Kind s s' a) (hshown : Shown s) : Shown s' := by
  cases h with
  | move w x _ _ hworker _ hx =>
      intro m
      rw [hworker, Function.update_apply]
      split
      · obtain hwait | hlast | ⟨hoffset, hold⟩ := hx
        · exact .inl hwait
        · exact .inr hlast
        · rw [hoffset, hold]
          exact hshown w
      · exact hshown m
  | compare _ hworker _ => rwa [Shown, hworker]
  | read hworker _ _ => rwa [Shown, hworker]
  | store hworker _ _ _ => rwa [Shown, hworker]

end

/-! ## The file -/

theorem initial_le_restartOffset (v initial : Int) : initial ≤ restartOffset v initial := by
  unfold restartOffset
  split <;> omega

theorem le_restartOffset (v initial : Int) : v ≤ restartOffset v initial := by
  unfold restartOffset
  split <;> omega

/-- What is in the file, or has been read for it, is not above the last block of any worker,
unless it is the offset that the copy starts from. -/
structure Inv (s : State cfg) : Prop where
  shown : Shown s.scan
  sorted : s.restartFile.Pairwise (· ≤ ·)
  written : ∀ v ∈ s.restartFile, v ≤ cfg.initial ∨ ∀ w, v ≤ (s.scan.worker w).shown
  loaded : ∀ v, s.scan.pc = .loaded v → (∀ w, v ≤ (s.scan.worker w).shown) ∧
    ∀ u ∈ s.restartFile, u ≤ restartOffset v cfg.initial

theorem Inv.init (cfg : Config) : Inv (init cfg) where
  shown := fun _ => .inr rfl
  sorted := List.pairwise_singleton _ _
  written := by
    intro v hv
    left
    simp [Checkpoints.init, restartOffset] at hv
    exact hv.le
  loaded := nofun

/-- Every step under the condition keeps the file in order. -/
theorem Inv.step {s s' : State cfg} {a : Scan.Action cfg.toConfig} (h : Inv s)
    (hok : LowestNotWaiting s a) (hstep : step cfg s a = some s') : Inv s' := by
  obtain ⟨scan, hscan, rfl⟩ := Option.map_eq_some_iff.mp hstep
  have hkind := Kind.of_step hscan
  have hle := hkind.shown_le
  have hshown := hkind.shown h.shown
  have hwritten : ∀ v ∈ s.restartFile, v ≤ cfg.initial ∨ ∀ w, v ≤ (scan.worker w).shown :=
    fun v hv => (h.written v hv).imp_right fun hall w => (hall w).trans (hle w)
  cases hkind with
  | move w x hstore hpc _ _ _ =>
      rw [writes_of_ne _ hstore, List.append_nil]
      refine ⟨hshown, h.sorted, hwritten, ?_⟩
      intro v hv
      obtain ⟨hlow, hfile'⟩ := h.loaded v (hpc ▸ hv)
      exact ⟨fun w => (hlow w).trans (hle w), hfile'⟩
  | compare hstore _ hpc =>
      rw [writes_of_ne _ hstore, List.append_nil]
      refine ⟨hshown, h.sorted, hwritten, ?_⟩
      intro v hv
      cases hpc.symm.trans hv
  | @read cur low current lowest hworker hpc hpc' =>
      rw [writes_of_ne _ (by simp), List.append_nil]
      refine ⟨hshown, h.sorted, hwritten, ?_⟩
      intro v hv
      obtain rfl : (s.scan.worker low).taskByteOffset = v := by
        cases hpc'.symm.trans hv
        rfl
      simp only [LowestNotWaiting, hpc] at hok
      obtain ⟨hwaiting, hlow⟩ := hok
      refine ⟨fun w => (hlow w).trans (hle w), ?_⟩
      intro u hu
      obtain hu' | hall := h.written u hu
      · exact hu'.trans (initial_le_restartOffset _ _)
      · obtain hnot | hnothing := hwaiting
        · -- the worker shows its last block, which is not below what has been written
          have hlast := (h.shown low).resolve_left hnot
          rw [hlast]
          exact (hall low).trans (le_restartOffset _ _)
        · exact (hnothing u hu).trans (initial_le_restartOffset _ _)
  | @store v hworker hpc hpc' hbyte =>
      obtain ⟨hlow, hfile⟩ := h.loaded v hpc
      rw [writes, hbyte]
      refine ⟨hshown, ?_, ?_, ?_⟩
      · refine List.pairwise_append.mpr ⟨h.sorted, List.pairwise_singleton _ _, ?_⟩
        intro u hu w hw
        rw [List.mem_singleton.mp hw]
        exact hfile u hu
      · intro u hu
        obtain hu | hu := List.mem_append.mp hu
        · exact hwritten u hu
        · obtain rfl := List.mem_singleton.mp hu
          by_cases hv : v > cfg.initial
          · right
            intro w
            rw [restartOffset, if_pos hv]
            exact (hlow w).trans (hle w)
          · left
            rw [restartOffset, if_neg hv]
      · intro u hu
        cases hpc'.symm.trans hu

/-- The offsets in the restart file never go backwards, if the monitor never reads the offset of
a worker that waits or has been overtaken. -/
theorem restartFile_sorted {s : State cfg}
    (h : Transition.Reach (step cfg) LowestNotWaiting (init cfg) s) :
    s.restartFile.Pairwise (· ≤ ·) := by
  have hinv : Inv s := by
    induction h with
    | init => exact Inv.init cfg
    | step _ hok hstep ih => exact ih.step hok hstep
  exact hinv.sorted

/-- Two workers and a copy from the start of the file. -/
def twoWorkers : Config := ⟨Scan.twoWorkers, 0⟩

/-- The first worker goes on to a block at 150 between two scans. -/
theorem restartFile_sorted_twoWorkers : ∃ s : State twoWorkers,
    s.restartFile = [0, 50, 100] ∧ s.restartFile.Pairwise (· ≤ ·) := by
  obtain ⟨s, hreach, hfile⟩ :
      ∃ s, Transition.Reach (step twoWorkers) LowestNotWaiting (init twoWorkers) s ∧
        s.restartFile = [0, 50, 100] :=
    Transition.exists_reach_of_run
      (List.flatten [Scan.twoBlocks,
        [.wakeUp, .readCurrent, .readLowest, .compare, .readRestart, .store],
        [.write ⟨0, Nat.two_pos⟩, .assign ⟨0, Nat.two_pos⟩, .receive ⟨0, Nat.two_pos⟩ 150],
        [.wakeUp, .readCurrent, .readLowest, .compare, .readRestart, .store]])
      (by decide +kernel)
  exact ⟨s, hfile, restartFile_sorted hreach⟩

def oneWorker : Config := ⟨⟨1, Nat.one_pos⟩, 0⟩

/-- The monitor looks while the worker has its block at 100, and again when it waits for the next
one. -/
theorem restartFile_goes_back : ∃ s : State oneWorker,
    Transition.Reach (step oneWorker) Transition.anyStep (init oneWorker) s ∧
      s.restartFile = [0, 100, 0] ∧ ¬ s.restartFile.Pairwise (· ≤ ·) := by
  obtain ⟨s, hreach, hfile⟩ :
      ∃ s, Transition.Reach (step oneWorker) Transition.anyStep (init oneWorker) s ∧
        s.restartFile = [0, 100, 0] :=
    Transition.exists_reach_of_run
      [.assign ⟨0, Nat.one_pos⟩, .receive ⟨0, Nat.one_pos⟩ 100, .wakeUp, .readRestart, .store,
        .write ⟨0, Nat.one_pos⟩, .assign ⟨0, Nat.one_pos⟩, .wakeUp, .readRestart, .store]
      (by decide +kernel)
  refine ⟨s, hreach, hfile, ?_⟩
  rw [hfile]
  decide

end Xdd.Restart.Checkpoints
