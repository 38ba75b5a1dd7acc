import Xdd.Restart.Monitor

/-!
# The scan of the restart monitor while the workers move on

The monitor remembers a worker, not a value. Every comparison reads the offset of the
current worker and that of the remembered one anew, in either order, and the offset to
store is read once more after the loop. Between these reads any worker may finish its
block, be given a receive task and receive a block further on.
-/

namespace Xdd.Restart.Scan

/-- A destination worker as the scan sees it. `last` is the offset of the last block it
has received, and `unwritten` says that this block is still to be written. -/
structure Worker where
  taskByteOffset : Int
  last : Option Int
  unwritten : Bool
deriving DecidableEq, Repr

/-- No block that the worker holds or will receive has a lower offset. -/
def Worker.shown (worker : Worker) : Int := worker.last.getD 0

/-- Where `xdd_restart_monitor` is. In a comparison `cur` is the worker to compare with
the lowest one so far, and `current` and `lowest` are the values read. -/
inductive MonitorPc (Q : Nat) where
  | asleep
  | comparing (cur : Nat) (low : Fin Q) (current lowest : Option Int)
  | loaded (byteOffset : Int)
deriving DecidableEq, Repr

structure Config where
  queueDepth : Nat
  queueDepth_pos : 0 < queueDepth

instance (cfg : Config) : NeZero cfg.queueDepth := ⟨Nat.ne_of_gt cfg.queueDepth_pos⟩

structure State (cfg : Config) where
  worker : Fin cfg.queueDepth → Worker
  pc : MonitorPc cfg.queueDepth
  byteOffset : Int

def init (cfg : Config) : State cfg where
  worker := fun _ => { taskByteOffset := 0, last := none, unwritten := false }
  pc := .asleep
  byteOffset := 0

inductive Action (cfg : Config) where
  /-- the target gives the worker a receive task -/
  | assign (w : Fin cfg.queueDepth)
  /-- the worker receives a block -/
  | receive (w : Fin cfg.queueDepth) (byteOffset : Int)
  | write (w : Fin cfg.queueDepth)
  | wakeUp
  | readCurrent
  | readLowest
  | compare
  /-- the read behind the loop -/
  | readRestart
  | store

variable {cfg : Config}

def State.setWorker (s : State cfg) (w : Fin cfg.queueDepth) (worker : Worker) : State cfg :=
  { s with worker := Function.update s.worker w worker }

/-- A worker's offset grows from block to block. -/
def Follows (worker : Worker) (byteOffset : Int) : Prop :=
  0 ≤ byteOffset ∧ ∀ last ∈ worker.last, last < byteOffset

instance (worker : Worker) (byteOffset : Int) : Decidable (Follows worker byteOffset) :=
  inferInstanceAs (Decidable (_ ∧ _))

/-- One read or write of the monitor, or one update of a worker. -/
def step (cfg : Config) (s : State cfg) : Action cfg → Option (State cfg)
  | .assign w =>
    if (s.worker w).unwritten then none
    else some (s.setWorker w { s.worker w with taskByteOffset := -1 })
  | .receive w byteOffset =>
    if (s.worker w).taskByteOffset = -1 ∧ Follows (s.worker w) byteOffset then
      some (s.setWorker w
        { taskByteOffset := byteOffset, last := some byteOffset, unwritten := true })
    else
      none
  | .write w =>
    if (s.worker w).unwritten then some (s.setWorker w { s.worker w with unwritten := false })
    else none
  | .wakeUp =>
    if s.pc = .asleep then
      some { s with pc := .comparing 1 ⟨0, cfg.queueDepth_pos⟩ none none }
    else
      none
  | .readCurrent =>
    match s.pc with
    | .comparing cur low none lowest =>
      if h : cur < cfg.queueDepth then
        some { s with pc := .comparing cur low (some (s.worker ⟨cur, h⟩).taskByteOffset) lowest }
      else
        none
    | _ => none
  | .readLowest =>
    match s.pc with
    | .comparing cur low current none =>
      if cur < cfg.queueDepth then
        some { s with pc := .comparing cur low current (some (s.worker low).taskByteOffset) }
      else
        none
    | _ => none
  | .compare =>
    match s.pc with
    | .comparing cur low (some current) (some lowest) =>
      if h : cur < cfg.queueDepth then
        some { s with
          pc := .comparing (cur + 1) (if current < lowest then ⟨cur, h⟩ else low) none none }
      else
        none
    | _ => none
  | .readRestart =>
    match s.pc with
    | .comparing cur low _ _ =>
      if cur < cfg.queueDepth then none
      else some { s with pc := .loaded (s.worker low).taskByteOffset }
    | _ => none
  | .store =>
    match s.pc with
    | .loaded byteOffset => some { s with pc := .asleep, byteOffset := byteOffset }
    | _ => none

/-! ## Scans that nobody overtakes -/

namespace MonitorPc

variable {Q : Nat}

/-- The rest of the scan relies on the offset of the worker: it is the lowest so far, or
the current one and its offset has been read. -/
def ReliesOn : MonitorPc Q → Fin Q → Prop
  | .comparing cur low current _, w => w = low ∨ w.val = cur ∧ current.isSome = true
  | _, _ => False

/-- The scan has come to the worker. -/
def Reached : MonitorPc Q → Fin Q → Prop
  | .comparing cur _ _ _, w => w.val ≤ cur
  | _, _ => False

instance (w : Fin Q) : (pc : MonitorPc Q) → Decidable (pc.ReliesOn w)
  | .comparing .. => inferInstanceAs (Decidable (_ ∨ _))
  | .asleep | .loaded _ => isFalse id

instance (w : Fin Q) : (pc : MonitorPc Q) → Decidable (pc.Reached w)
  | .comparing .. => inferInstanceAs (Decidable (_ ≤ _))
  | .asleep | .loaded _ => isFalse id

end MonitorPc

/-- A worker that the scan relies on is not given a block beyond the one last shown by
another worker that the scan has come to. -/
def NotOvertaking (cfg : Config) (s : State cfg) : Action cfg → Prop
  | .receive w byteOffset =>
    s.pc.ReliesOn w → ∀ m, s.pc.Reached m → m ≠ w → byteOffset ≤ (s.worker m).shown
  | _ => True

instance (cfg : Config) (s : State cfg) : (a : Action cfg) → Decidable (NotOvertaking cfg s a)
  | .receive w byteOffset => inferInstanceAs (Decidable
      (s.pc.ReliesOn w → ∀ m, s.pc.Reached m → m ≠ w → byteOffset ≤ (s.worker m).shown))
  | .assign _ | .write _ | .wakeUp | .readCurrent | .readLowest | .compare | .readRestart
  | .store => isTrue trivial

/-- What a worker shows is `-1` or its last block, and a block that is not written is
shown. -/
structure WorkerOk (worker : Worker) : Prop where
  high : worker.taskByteOffset ≤ worker.shown
  nonneg : 0 ≤ worker.shown
  unwritten : worker.unwritten = true → worker.taskByteOffset = worker.shown

/-- What is known in a comparison of worker `cur` with the lowest one so far: that one is
not above any worker before `cur`, and the values read are good for the decision. -/
structure Comparing (worker : Fin Q → Worker) (cur : Nat) (low : Fin Q)
    (current lowest : Option Int) : Prop where
  low_lt : low.val < cur
  le_shown : ∀ m, m.val < cur → (worker low).taskByteOffset ≤ (worker m).shown
  current : ∀ c, current = some c → ∀ j, j.val = cur → c ≤ (worker j).shown ∧
    ((worker j).taskByteOffset ≤ c ∨
      ∀ m, m.val < cur → (worker j).taskByteOffset ≤ (worker m).shown)
  lowest : ∀ l, lowest = some l → (∀ m, m.val < cur → l ≤ (worker m).shown) ∧
    ((worker low).taskByteOffset ≤ l ∨
      ∀ j, j.val = cur → (worker low).taskByteOffset ≤ (worker j).shown)

structure ScanInv (s : State cfg) : Prop where
  workers : ∀ w, WorkerOk (s.worker w)
  comparing : ∀ cur low current lowest, s.pc = .comparing cur low current lowest →
    Comparing s.worker cur low current lowest
  loaded : ∀ v, s.pc = .loaded v → ∀ m, v ≤ (s.worker m).shown

theorem Follows.shown_le {worker : Worker} {byteOffset : Int} (h : Follows worker byteOffset) :
    worker.shown ≤ byteOffset := by
  unfold Worker.shown
  cases hlast : worker.last with
  | none => exact h.1
  | some last => exact (h.2 last hlast).le

/-- One worker moves. If the scan relies on it, it does not get past the others. -/
theorem Comparing.setWorker {Q cur : Nat} {worker : Fin Q → Worker} {low w : Fin Q}
    {current lowest : Option Int} {worker' : Worker}
    (h : Comparing worker cur low current lowest) (hok : WorkerOk worker')
    (hshown : (worker w).shown ≤ worker'.shown)
    (hmove : worker'.taskByteOffset = (worker w).taskByteOffset ∨
      (w = low ∨ w.val = cur ∧ current.isSome = true → ∀ m : Fin Q, m.val ≤ cur → m ≠ w →
        worker'.taskByteOffset ≤ (worker m).shown)) :
    Comparing (Function.update worker w worker') cur low current lowest := by
  have hgrows : ∀ m, (worker m).shown ≤ (Function.update worker w worker' m).shown := by
    intro m
    by_cases hm : m = w
    · subst hm
      simpa using hshown
    · simp [hm]
  -- a worker that is relied on shows what it showed, or nothing above the others
  have hrelied : ∀ u : Fin Q, u = low ∨ u.val = cur ∧ current.isSome = true →
      (Function.update worker w worker' u).taskByteOffset = (worker u).taskByteOffset ∨
      ∀ m : Fin Q, m.val ≤ cur → (Function.update worker w worker' u).taskByteOffset ≤
        (Function.update worker w worker' m).shown := by
    intro u hu
    by_cases huw : u = w
    · subst huw
      simp only [Function.update_self]
      refine hmove.imp_right ?_
      intro hnot m hm
      by_cases hmu : m = u
      · subst hmu
        simpa using hok.high
      · exact (hnot hu m hm hmu).trans (hgrows m)
    · left
      simp [huw]
  refine ⟨h.low_lt, ?_, ?_, ?_⟩
  · intro m hm
    rcases hrelied low (.inl rfl) with hsame | hbelow
    · rw [hsame]
      exact (h.le_shown m hm).trans (hgrows m)
    · exact hbelow m hm.le
  · intro c hc j hj
    obtain ⟨hcj, hold⟩ := h.current c hc j hj
    refine ⟨hcj.trans (hgrows j), ?_⟩
    rcases hrelied j (.inr ⟨hj, by simp [hc]⟩) with hsame | hbelow
    · rw [hsame]
      refine hold.imp_right ?_
      intro hall m hm
      exact (hall m hm).trans (hgrows m)
    · exact .inr fun m hm => hbelow m hm.le
  · intro l hl
    obtain ⟨hbelow, hold⟩ := h.lowest l hl
    refine ⟨fun m hm => (hbelow m hm).trans (hgrows m), ?_⟩
    rcases hrelied low (.inl rfl) with hsame | hbelow'
    · rw [hsame]
      refine hold.imp_right ?_
      intro hall j hj
      exact (hall j hj).trans (hgrows j)
    · exact .inr fun j hj => hbelow' j hj.le

/-- The comparison of worker `cur` decides for one that is not above any worker so far. -/
theorem Comparing.decide {Q cur : Nat} {worker : Fin Q → Worker} {low j : Fin Q} {c l : Int}
    (h : Comparing worker cur low (some c) (some l)) (hj : j.val = cur)
    (hok : WorkerOk (worker j)) :
    Comparing worker (cur + 1) (if c < l then j else low) none none := by
  obtain ⟨hcj, hj'⟩ := h.current c rfl j hj
  obtain ⟨hbelow, hlow'⟩ := h.lowest l rfl
  have hcases : ∀ m : Fin Q, m.val < cur + 1 → m.val < cur ∨ m = j := by
    intro m hm
    rcases Nat.lt_succ_iff_lt_or_eq.mp hm with hm | hm
    · exact .inl hm
    · exact .inr (Fin.ext (hm.trans hj.symm))
  refine ⟨?_, ?_, nofun, nofun⟩
  · split
    · omega
    · exact h.low_lt.trans (Nat.lt_succ_self _)
  · intro m hm
    split
    · -- the current worker becomes the lowest
      rename_i hless
      rcases hcases m hm with hm | rfl
      · rcases hj' with hread | hall
        · exact hread.trans (hless.le.trans (hbelow m hm))
        · exact hall m hm
      · exact hok.high
    · -- the lowest one stays
      rename_i hless
      rcases hcases m hm with hm | rfl
      · exact h.le_shown m hm
      · rcases hlow' with hread | hall
        · exact hread.trans ((not_lt.mp hless).trans hcj)
        · exact hall m hj

namespace ScanInv

variable {s s' : State cfg} {w : Fin cfg.queueDepth}

theorem init (cfg : Config) : ScanInv (init cfg) where
  workers _ := ⟨le_rfl, le_rfl, nofun⟩
  comparing := nofun
  loaded := nofun

theorem setWorker (h : ScanInv s) {worker : Worker} (hok : WorkerOk worker)
    (hshown : (s.worker w).shown ≤ worker.shown)
    (hmove : worker.taskByteOffset = (s.worker w).taskByteOffset ∨
      (s.pc.ReliesOn w → ∀ m, s.pc.Reached m → m ≠ w →
        worker.taskByteOffset ≤ (s.worker m).shown)) :
    ScanInv (s.setWorker w worker) := by
  refine ⟨?_, ?_, ?_⟩
  · exact (Function.forall_update_iff s.worker fun _ => WorkerOk).mpr ⟨hok, fun u _ => h.workers u⟩
  · intro cur low current lowest hpc
    have hpc' : s.pc = .comparing cur low current lowest := hpc
    rw [hpc'] at hmove
    exact (h.comparing cur low current lowest hpc').setWorker hok hshown hmove
  · intro v hpc
    refine (Function.forall_update_iff s.worker fun _ worker => v ≤ worker.shown).mpr
      ⟨(h.loaded v hpc w).trans hshown, fun u _ => h.loaded v hpc u⟩

theorem step (h : ScanInv s) {a : Action cfg} (hok : NotOvertaking cfg s a)
    (hs : Scan.step cfg s a = some s') : ScanInv s' := by
  cases a with
  | assign w =>
      simp only [Scan.step] at hs
      split at hs <;> cases hs
      rename_i hwritten
      have hw := h.workers w
      have hhigh : (-1 : Int) ≤ (s.worker w).shown := by
        have := hw.nonneg
        omega
      refine h.setWorker ⟨hhigh, hw.nonneg, fun hu => absurd hu hwritten⟩ le_rfl (.inr ?_)
      intro _ m _ _
      have := (h.workers m).nonneg
      show (-1 : Int) ≤ _
      omega
  | receive w byteOffset =>
      simp only [Scan.step] at hs
      split at hs <;> cases hs
      rename_i hguard
      exact h.setWorker ⟨le_rfl, hguard.2.1, fun _ => rfl⟩ hguard.2.shown_le (.inr hok)
  | write w =>
      simp only [Scan.step] at hs
      split at hs <;> cases hs
      have hw := h.workers w
      exact h.setWorker ⟨hw.high, hw.nonneg, nofun⟩ le_rfl (.inl rfl)
  | wakeUp =>
      simp only [Scan.step] at hs
      split at hs <;> cases hs
      refine ⟨h.workers, ?_, nofun⟩
      intro cur low current lowest hpc
      cases hpc
      refine ⟨Nat.zero_lt_one, ?_, nofun, nofun⟩
      intro m hm
      obtain rfl : m = ⟨0, cfg.queueDepth_pos⟩ := Fin.ext (Nat.lt_one_iff.mp hm)
      exact (h.workers _).high
  | readCurrent =>
      simp only [Scan.step] at hs
      split at hs
      · rename_i cur low lowest hpc
        split at hs <;> cases hs
        have hcomparing := h.comparing _ _ _ _ hpc
        refine ⟨h.workers, ?_, nofun⟩
        intro cur' low' current' lowest' hpc'
        cases hpc'
        refine ⟨hcomparing.low_lt, hcomparing.le_shown, ?_, hcomparing.lowest⟩
        intro c hc j hj
        obtain rfl : j = ⟨cur, ‹_›⟩ := Fin.ext hj
        cases hc
        exact ⟨(h.workers _).high, .inl le_rfl⟩
      · cases hs
  | readLowest =>
      simp only [Scan.step] at hs
      split at hs
      · rename_i cur low current hpc
        split at hs <;> cases hs
        have hcomparing := h.comparing _ _ _ _ hpc
        refine ⟨h.workers, ?_, nofun⟩
        intro cur' low' current' lowest' hpc'
        cases hpc'
        refine ⟨hcomparing.low_lt, hcomparing.le_shown, hcomparing.current, ?_⟩
        intro l hl
        cases hl
        exact ⟨hcomparing.le_shown, .inl le_rfl⟩
      · cases hs
  | compare =>
      simp only [Scan.step] at hs
      split at hs
      · rename_i cur low c l hpc
        split at hs <;> cases hs
        refine ⟨h.workers, ?_, nofun⟩
        intro cur' low' current' lowest' hpc'
        cases hpc'
        exact (h.comparing _ _ _ _ hpc).decide rfl (h.workers _)
      · cases hs
  | readRestart =>
      simp only [Scan.step] at hs
      split at hs
      · rename_i cur low current lowest hpc
        split at hs <;> cases hs
        refine ⟨h.workers, nofun, ?_⟩
        intro v hpc' m
        cases hpc'
        exact (h.comparing _ _ _ _ hpc).le_shown m (by omega)
      · cases hs
  | store =>
      simp only [Scan.step] at hs
      split at hs <;> cases hs
      exact ⟨h.workers, nofun, nofun⟩

end ScanInv

/-- The value that a scan stores is not above any block that is unwritten when it is
stored, if no worker the scan relies on overtakes another one it has come to. -/
theorem scan_stores_low {s s' : State cfg}
    (hreach : Transition.Reach (step cfg) (NotOvertaking cfg) (init cfg) s)
    (hstore : step cfg s .store = some s') :
    ∀ w, (s'.worker w).unwritten = true → s'.byteOffset ≤ (s'.worker w).taskByteOffset := by
  have h := hreach.invariant (ScanInv.init cfg) fun _ _ _ h hok hstep => h.step hok hstep
  intro w hunwritten
  simp only [step] at hstore
  split at hstore <;> cases hstore
  rename_i v hpc
  have hshown := (h.workers w).unwritten hunwritten
  exact (h.loaded v hpc w).trans_eq hshown.symm

/-- Two workers; the first one has its block at 50, the second one at 100. -/
def twoWorkers : Config := ⟨2, Nat.two_pos⟩

def twoBlocks : List (Action twoWorkers) :=
  [.assign 0, .receive 0 50, .assign 1, .receive 1 100]

theorem scan_stores_low_twoWorkers : ∃ s : State twoWorkers,
    s.byteOffset = 50 ∧ s.byteOffset ≤ (s.worker 1).taskByteOffset := by
  obtain ⟨s, hreach, hpc, hunwritten⟩ :
      ∃ s, Transition.Reach (step twoWorkers) (NotOvertaking twoWorkers) (init twoWorkers) s ∧
        s.pc = .loaded 50 ∧ (s.worker 1).unwritten = true :=
    Transition.exists_reach_of_run
      (List.flatten [twoBlocks, [.wakeUp, .readCurrent, .readLowest, .compare, .readRestart]])
      (by decide +kernel)
  have hstore : step twoWorkers s .store = some { s with pc := .asleep, byteOffset := 50 } := by
    simp [step, hpc]
  exact ⟨_, rfl, scan_stores_low hreach hstore 1 hunwritten⟩

/-- The first worker is found to be the lowest, writes its block and receives one at 150
before the last read. The value 150 is stored while the block at 100 is unwritten. -/
theorem scan_stores_too_high : ∃ s s' : State twoWorkers,
    Transition.Reach (step twoWorkers) Transition.anyStep (init twoWorkers) s ∧
      step twoWorkers s .store = some s' ∧ (s'.worker 1).unwritten = true ∧
      s'.byteOffset = 150 ∧ (s'.worker 1).taskByteOffset = 100 := by
  obtain ⟨s, hreach, hpc, hunwritten, hoffset⟩ :
      ∃ s, Transition.Reach (step twoWorkers) Transition.anyStep (init twoWorkers) s ∧
        s.pc = .loaded 150 ∧ (s.worker 1).unwritten = true ∧ (s.worker 1).taskByteOffset = 100 :=
    Transition.exists_reach_of_run
      (List.flatten [twoBlocks, [.wakeUp, .readCurrent, .readLowest, .compare, .write 0,
        .assign 0, .receive 0 150, .readRestart]])
      (by decide +kernel)
  refine ⟨s, { s with pc := .asleep, byteOffset := 150 }, hreach, ?_, hunwritten, rfl, hoffset⟩
  simp [step, hpc]

end Xdd.Restart.Scan
