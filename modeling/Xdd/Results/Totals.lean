import Xdd.Library.Account
import Xdd.Results.Ledger
import Xdd.Results.Torn

/-!
# Reported totals

While a target runs a pass, its counters and what its workers have still to add make up the
operations of the pass. No worker has anything to add when the pass is over, so this is what
the results manager extracts. It does so exactly once for each pass, because the barriers hold
all targets until it is done, and after the last pass it has seen all operations.
-/

namespace Xdd.Results

/-! ## Adding totals -/

namespace Totals

instance : Zero Totals := ⟨zero⟩

instance : Add Totals := ⟨combineResults⟩

instance : AddCancelCommMonoid Totals where
  add_assoc a b c := by ext <;> exact Nat.add_assoc _ _ _
  zero_add a := by ext <;> exact Nat.zero_add _
  add_zero a := by ext <;> exact Nat.add_zero _
  add_comm a b := by ext <;> exact Nat.add_comm _ _
  nsmul := nsmulRec
  add_left_cancel a b c h := by
    have h : combineResults a b = combineResults a c := h
    simp only [combineResults, Totals.mk.injEq, Nat.add_left_cancel_iff] at h
    ext
    all_goals simp only [h]

@[simp] theorem of_nil : of [] = 0 := rfl

@[simp] theorem of_append (ops ops' : List Op) : of (ops ++ ops') = of ops + of ops' := by
  change of (ops ++ ops') = combineResults (of ops) (of ops')
  simp [of, combineResults]

/-- The operations of the passes from 1 to `n` are all operations. -/
theorem sum_of_passes {ops : List Op} {n : Nat} (h : ∀ op ∈ ops, 1 ≤ op.pass ∧ op.pass ≤ n) :
    ∑ i ∈ Finset.range n, of (ops.filter fun op => op.pass == i + 1) = of ops := by
  induction ops with
  | nil => simp
  | cons op ops ih =>
    obtain ⟨hpos, hle⟩ := h op (by simp)
    have hsplit : ∀ i, of ((op :: ops).filter fun op => op.pass == i + 1) =
        (if i = op.pass - 1 then of [op] else 0) +
          of (ops.filter fun op => op.pass == i + 1) := by
      intro i
      by_cases hi : i = op.pass - 1
      · have hpass : (op.pass == i + 1) = true := by simp; omega
        rw [if_pos hi, List.filter_cons, if_pos hpass, ← List.singleton_append, of_append]
      · have hpass : (op.pass == i + 1) = false := by simp; omega
        rw [if_neg hi, List.filter_cons, hpass, zero_add]
        rfl
    rw [Finset.sum_congr rfl fun i _ => hsplit i, Finset.sum_add_distrib,
      ih fun op' hop' => h op' (by simp [hop']), Finset.sum_ite_eq',
      if_pos (Finset.mem_range.mpr (by omega)), ← of_append, List.singleton_append]

end Totals

/-- The update under the mutex adds what is to be reported of the operation. -/
theorem updateTargetCounters_eq (counters : Totals) (pass : Nat) (opType : OpType)
    (xferSize : Nat) (status : Int) :
    updateTargetCounters counters opType xferSize status (updateLocalCounters xferSize status) =
      counters + Totals.of [⟨pass, opType, xferSize, status⟩] := by
  change _ = combineResults counters _
  by_cases h : status = xferSize
  · cases opType <;> ext <;>
      simp [updateTargetCounters, updateLocalCounters, combineResults, Totals.of, Op.whole, h]
  · ext <;>
      simp [updateTargetCounters, updateLocalCounters, combineResults, Totals.of, Op.whole, h]

variable {cfg : Config} {Q : Nat}

/-! ## The counters of a target -/

/-- What a worker has still to add to the counters of its target. -/
def pending (pass : Nat) (worker : Worker) (data : WorkerData) : Totals :=
  match worker, data.progress with
  | .inIo xferSize, .returned status | .inIo xferSize, .counted status _ =>
    Totals.of [⟨pass, data.opType, xferSize, status⟩]
  | _, _ => 0

/-- A worker that is not in an I/O has nothing to add, and one that has updated its own
counters knows whether the I/O has failed. -/
def Booked (worker : Worker) (data : WorkerData) : Prop :=
  match worker with
  | .inIo xferSize => ∀ status errorCount, data.progress = .counted status errorCount →
      errorCount = updateLocalCounters xferSize status
  | _ => data.progress = .waiting

theorem pending_of_waiting {data : WorkerData} (h : data.progress = .waiting) (pass : Nat)
    (worker : Worker) : pending pass worker data = 0 := by
  cases worker <;> simp [pending, h]

theorem booked_of_waiting {data : WorkerData} (h : data.progress = .waiting) (worker : Worker) :
    Booked worker data := by
  cases worker <;> simp [Booked, h]

theorem Booked.waiting {worker : Worker} {data : WorkerData} (h : Booked worker data)
    (hio : ∀ xferSize, worker ≠ .inIo xferSize) : data.progress = .waiting := by
  cases worker with
  | idle => exact h
  | assigned task => exact h
  | inIo xferSize => exact absurd rfl (hio xferSize)

/-- One worker changes. -/
theorem sum_pending_update (pass : Nat) (worker : Fin Q → Worker) (data : Fin Q → WorkerData)
    (w : Fin Q) (worker' : Worker) (data' : WorkerData) :
    ∑ v, pending pass (Function.update worker w worker' v) (Function.update data w data' v) +
        pending pass (worker w) (data w) =
      ∑ v, pending pass (worker v) (data v) + pending pass worker' data' := by
  have hpair : ∀ v, Function.update (fun v => (worker v, data v)) w (worker', data') v =
      (Function.update worker w worker' v, Function.update data w data' v) := by
    intro v
    by_cases hv : v = w
    · subst hv
      simp
    · simp [hv]
  have hsum := Account.sum_update_add (fun v => (worker v, data v)) w (worker', data')
    fun p => pending pass p.1 p.2
  simpa only [hpair] using hsum

/-- A worker that takes a task, or starts or leaves out its operation. -/
theorem Target.work_worker {target target' : Target Q} {stopOnError stop : Bool}
    {a : WorkerAction Q} (h : target.work stopOnError stop a = some target')
    (ha : ∀ w status, a ≠ .finishIo w status) :
    ∃ w worker', target'.worker = Function.update target.worker w worker' ∧
      (∀ xferSize, target.worker w ≠ .inIo xferSize) ∧
      (target.worker w = .idle → target.pc = .pass) := by
  cases a with
  | assign w task =>
    rw [Target.work] at h
    split at h
    · next hassign =>
      cases h
      exact ⟨w, .assigned task, rfl, by simp [hassign.2], fun _ => hassign.1⟩
    · cases h
  | startIo w =>
    rw [Target.work] at h
    split at h
    · next xferSize hw =>
      split at h
      · cases h
        exact ⟨w, .idle, rfl, by simp [hw], by simp [hw]⟩
      · cases h
        exact ⟨w, .inIo xferSize, rfl, by simp [hw], by simp [hw]⟩
    · cases h
  | finishIo w status => exact absurd rfl (ha w status)
  | finishEof w status =>
    rw [Target.work] at h
    split at h
    · next hw =>
      cases h
      exact ⟨w, .idle, rfl, by simp [hw], by simp [hw]⟩
    · cases h

theorem Target.work_finishIo {target target' : Target Q} {stopOnError stop : Bool} {w : Fin Q}
    {status : Int} (h : target.work stopOnError stop (.finishIo w status) = some target') :
    target'.worker = Function.update target.worker w .idle := by
  rw [Target.work] at h
  split at h
  · split at h <;> cases h <;> rfl
  · cases h

/-- The operations of the pass have not begun. -/
def TargetPc.fresh : TargetPc → Bool
  | .startpass | .checkAbort | .checkComplete => true
  | _ => false

/-- The counters are those of the pass. -/
def TargetPc.counting : TargetPc → Bool
  | .pass | .endpass | .display => true
  | _ => false

structure TargetBooks (target : Target Q) (data : Fin Q → WorkerData) (counters : Totals)
    (ops : List Op) : Prop where
  passNumber : 1 ≤ target.passNumber
  pass : ∀ op ∈ ops, 1 ≤ op.pass ∧ op.pass ≤ target.passNumber
  fresh : target.pc.fresh = true → ∀ op ∈ ops, op.pass < target.passNumber
  idle : target.pc ≠ .pass → ∀ w, target.worker w = .idle
  booked : ∀ w, Booked (target.worker w) (data w)
  balance : target.pc.counting = true →
    counters + ∑ w, pending target.passNumber (target.worker w) (data w) =
      Totals.of (ops.filter fun op => op.pass == target.passNumber)

namespace TargetBooks

variable {target target' : Target Q} {data : Fin Q → WorkerData} {counters : Totals}
  {ops : List Op}

/-- A worker goes on. -/
theorem setWorker (h : TargetBooks target data counters ops) {w : Fin Q} {worker' : Worker}
    {data' : WorkerData} {counters' : Totals} {more : List Op} (hpc : target'.pc = target.pc)
    (hpass : target'.passNumber = target.passNumber)
    (hworker : target'.worker = Function.update target.worker w worker')
    (hin : target.pc = .pass) (hbooked : Booked worker' data')
    (hmore : ∀ op ∈ more, op.pass = target.passNumber)
    (hchange : counters' + pending target.passNumber worker' data' =
      counters + pending target.passNumber (target.worker w) (data w) + Totals.of more) :
    TargetBooks target' (Function.update data w data') counters' (ops ++ more) where
  passNumber := hpass ▸ h.passNumber
  pass := by
    intro op hop
    rw [hpass]
    obtain hop | hop := List.mem_append.mp hop
    · exact h.pass op hop
    · rw [hmore op hop]
      exact ⟨h.passNumber, le_rfl⟩
  fresh hfresh := by
    rw [hpc, hin] at hfresh
    cases hfresh
  idle hne := absurd (hpc.trans hin) hne
  booked := by
    intro v
    rw [hworker]
    by_cases hv : v = w
    · subst hv
      simpa using hbooked
    · simpa [hv] using h.booked v
  balance := by
    intro _
    have hold := h.balance (by rw [hin]; rfl)
    have hsum := sum_pending_update target.passNumber target.worker data w worker' data'
    have hall : more.filter (fun op => op.pass == target.passNumber) = more :=
      List.filter_eq_self.mpr fun op hop => by simp [hmore op hop]
    rw [hpass, hworker, List.filter_append, hall, Totals.of_append, ← hold]
    apply add_right_cancel (b := pending target.passNumber (target.worker w) (data w))
    rw [add_assoc, hsum, ← add_assoc, add_right_comm, hchange]
    abel

/-- The target thread goes on. -/
theorem move (h : TargetBooks target data counters ops)
    (hpass : target'.passNumber = target.passNumber) (hworker : target'.worker = target.worker)
    (hfresh : target'.pc.fresh = true → target.pc.fresh = true)
    (hcounting : target'.pc.counting = true → target.pc.counting = true)
    (hidle : target'.pc ≠ .pass → ∀ w, target.worker w = .idle) :
    TargetBooks target' data counters ops where
  passNumber := hpass ▸ h.passNumber
  pass := hpass ▸ h.pass
  fresh hpc := hpass ▸ h.fresh (hfresh hpc)
  idle hpc := hworker ▸ hidle hpc
  booked := hworker ▸ h.booked
  balance hpc := by
    rw [hpass, hworker]
    exact h.balance (hcounting hpc)

/-- Nobody has anything to add. -/
theorem sum_pending (h : TargetBooks target data counters ops)
    (hidle : ∀ w, target.worker w = .idle) (pass : Nat) :
    ∑ w, pending pass (target.worker w) (data w) = 0 := by
  apply Finset.sum_eq_zero
  intro w _
  exact pending_of_waiting ((h.booked w).waiting (by simp [hidle w])) pass _

/-- A pass begins. -/
theorem begin (h : TargetBooks target data counters ops) (hpc : target.pc = .checkComplete) :
    TargetBooks target.beforePass data 0 ops where
  passNumber := h.passNumber
  pass := h.pass
  fresh := by simp [Target.beforePass, TargetPc.fresh]
  idle := by simp [Target.beforePass]
  booked := h.booked
  balance := by
    intro _
    have hnone : ops.filter (fun op => op.pass == target.passNumber) = [] := by
      apply List.filter_eq_nil_iff.mpr
      intro op hop
      have hlt := h.fresh (by rw [hpc]; rfl) op hop
      simp only [beq_iff_eq]
      omega
    have hidle := h.idle (by simp [hpc])
    change 0 + ∑ w, pending target.passNumber (target.worker w) (data w) =
      Totals.of (ops.filter fun op => op.pass == target.passNumber)
    rw [h.sum_pending hidle, hnone, Totals.of_nil, add_zero]

/-- The target goes on to another pass. -/
theorem goOn (h : TargetBooks target data counters ops) (hpc : target.pc = .testPasses) :
    TargetBooks { target with pc := .startpass, passNumber := target.passNumber + 1 } data counters
      ops where
  passNumber := Nat.le_add_left 1 _
  pass op hop := ⟨(h.pass op hop).1, Nat.le_succ_of_le (h.pass op hop).2⟩
  fresh _ op hop := Nat.lt_succ_of_le (h.pass op hop).2
  idle _ := h.idle (by simp [hpc])
  booked := h.booked
  balance := by simp [TargetPc.counting]

/-- When the pass has been ended, the counters are the totals of its operations. -/
theorem counters_eq (h : TargetBooks target data counters ops) (hpc : target.pc = .display) :
    counters = Totals.of (ops.filter fun op => op.pass == target.passNumber) := by
  have hbalance := h.balance (by rw [hpc]; rfl)
  rwa [h.sum_pending (h.idle (by simp [hpc])), add_zero] at hbalance

/-- A worker that is in an I/O is one of a pass that is going on. -/
theorem pc_of_inIo (h : TargetBooks target data counters ops) {w : Fin Q} {xferSize : Nat}
    (hio : target.worker w = .inIo xferSize) : target.pc = .pass := by
  by_contra hne
  rw [h.idle hne w] at hio
  cases hio

theorem assign (h : TargetBooks target data counters ops) {stopOnError stop : Bool} {w : Fin Q}
    {task : Task} (hwork : target.work stopOnError stop (.assign w task) = some target')
    {data' : WorkerData} (hdata : data'.progress = .waiting) :
    TargetBooks target' (Function.update data w data') counters ops := by
  rw [Target.work] at hwork
  split at hwork
  · next hassign =>
    cases hwork
    have hwaiting := (h.booked w).waiting (by simp [hassign.2])
    have hset : TargetBooks
        { target with worker := Function.update target.worker w (.assigned task) }
        (Function.update data w data') counters (ops ++ []) :=
      h.setWorker rfl rfl rfl hassign.1 (booked_of_waiting hdata _) (by simp)
        (by simp [pending_of_waiting hwaiting, pending_of_waiting hdata])
    simpa using hset
  · cases hwork

/-- A worker that has no status yet goes on. -/
theorem work (h : TargetBooks target data counters ops) {stopOnError stop : Bool}
    {a : WorkerAction Q} (hwork : target.work stopOnError stop a = some target')
    (ha : ∀ w status, a ≠ .finishIo w status) : TargetBooks target' data counters ops := by
  obtain ⟨hpc, hpass, -⟩ := Target.work_eq hwork
  obtain ⟨w, worker', hworker, hio, hbegin⟩ := Target.work_worker hwork ha
  have hin : target.pc = .pass := by
    by_contra hne
    exact hne (hbegin (h.idle hne w))
  have hwaiting := (h.booked w).waiting hio
  have hset : TargetBooks target' (Function.update data w (data w)) counters (ops ++ []) :=
    h.setWorker hpc hpass hworker hin (booked_of_waiting hwaiting worker') (by simp)
      (by simp [pending_of_waiting hwaiting])
  simpa using hset

theorem ioReturns (h : TargetBooks target data counters ops) {w : Fin Q} {xferSize : Nat}
    (hio : target.worker w = .inIo xferSize) (hprogress : (data w).progress = .waiting)
    (status : Int) :
    TargetBooks target (Function.update data w { data w with progress := .returned status })
      counters (ops ++ [⟨target.passNumber, (data w).opType, xferSize, status⟩]) := by
  apply h.setWorker rfl rfl (Function.update_eq_self w target.worker).symm (h.pc_of_inIo hio)
  · simp [Booked, hio]
  · simp
  · simp [pending, hio, hprogress]

theorem updateLocal (h : TargetBooks target data counters ops) {w : Fin Q} {xferSize : Nat}
    {status : Int} (hio : target.worker w = .inIo xferSize)
    (hprogress : (data w).progress = .returned status) :
    TargetBooks target (Function.update data w { data w with
      progress := .counted status (updateLocalCounters xferSize status) }) counters ops := by
  have hset : TargetBooks target (Function.update data w { data w with
      progress := .counted status (updateLocalCounters xferSize status) }) counters (ops ++ []) :=
    h.setWorker rfl rfl (Function.update_eq_self w target.worker).symm (h.pc_of_inIo hio)
      (by simp [Booked, hio]) (by simp) (by simp [pending, hio, hprogress])
  simpa using hset

theorem updateTarget (h : TargetBooks target data counters ops) {stopOnError stop : Bool}
    {w : Fin Q} {xferSize : Nat} {status : Int} {errorCount : Nat}
    (hwork : target.work stopOnError stop (.finishIo w status) = some target')
    (hio : target.worker w = .inIo xferSize)
    (hprogress : (data w).progress = .counted status errorCount) :
    TargetBooks target' (Function.update data w { data w with progress := .waiting })
      (updateTargetCounters counters (data w).opType xferSize status errorCount) ops := by
  obtain ⟨hpc, hpass, -⟩ := Target.work_eq hwork
  have herror : errorCount = updateLocalCounters xferSize status := by
    have hbooked := h.booked w
    rw [hio] at hbooked
    exact hbooked status errorCount hprogress
  have hset : TargetBooks target' (Function.update data w { data w with progress := .waiting })
      (updateTargetCounters counters (data w).opType xferSize status errorCount) (ops ++ []) := by
    apply h.setWorker hpc hpass (Target.work_finishIo hwork) (h.pc_of_inIo hio)
      (booked_of_waiting rfl _) (by simp)
    rw [pending_of_waiting rfl, herror,
      updateTargetCounters_eq counters target.passNumber (data w).opType xferSize status]
    simp [pending, hio, hprogress]
  simpa using hset

/-- A target thread that is released from a barrier. -/
theorem released (h : TargetBooks target data counters ops) {b : Barrier}
    (hin : target.pc.barrier = some b) :
    TargetBooks { target with pc := target.pc.released } data counters ops := by
  have hne : target.pc ≠ .pass := by
    intro hpc
    rw [hpc] at hin
    cases hin
  refine h.move rfl rfl ?_ ?_ fun _ => h.idle hne
  · dsimp only
    cases hpc : target.pc <;> simp [hpc, TargetPc.released, TargetPc.fresh] at *
  · dsimp only
    cases hpc : target.pc <;> simp [hpc, TargetPc.released, TargetPc.counting] at *

end TargetBooks

/-- A step of the target thread that does not begin a pass. -/
theorem TargetStep.books {s s' : State cfg} {t : Fin cfg.targets} (hs : TargetStep s t s')
    (hcanceled : s.canceled = false)
    (hbegin : ¬ ((s.target t).pc = .checkComplete ∧ s.runComplete = false))
    {data : Fin (cfg.queueDepth t) → WorkerData} {counters : Totals} {ops : List Op}
    (h : TargetBooks (s.target t) data counters ops) :
    TargetBooks (s'.target t) data counters ops := by
  have hmove : ∀ pc, (s.target t).pc ≠ .pass → pc.counting = false →
      (pc.fresh = true → (s.target t).pc.fresh = true) →
      TargetBooks { s.target t with pc := pc } data counters ops := by
    intro pc hne hcounting hfresh
    exact h.move rfl rfl hfresh (by simp [hcounting]) fun _ => h.idle hne
  cases hs with
  | abortSeen hpc =>
    simpa [State.setTarget] using hmove .testAbort (by simp [hpc]) rfl (by simp [TargetPc.fresh])
  | abortClear hpc =>
    simpa [State.setTarget] using
      hmove .checkComplete (by simp [hpc]) rfl (by simp [hpc, TargetPc.fresh])
  | completeSeen hpc =>
    simpa [State.setTarget] using hmove .testAbort (by simp [hpc]) rfl (by simp [TargetPc.fresh])
  | begin hpc hno => exact absurd ⟨hpc, hno⟩ hbegin
  | quit hpc hend hcancel =>
    rw [hcanceled] at hcancel
    cases hcancel
  | cutShort hpc hcancel =>
    rw [hcanceled] at hcancel
    cases hcancel
  | finish errno hpc hidle =>
    simp only [State.setTarget, Function.update_self]
    exact h.move rfl rfl (by simp [TargetPc.fresh]) (by simp [hpc, TargetPc.counting])
      fun _ => hidle
  | leave hleaves =>
    have hne : (s.target t).pc ≠ .pass := by
      intro hpc
      simp [Leaves, hpc] at hleaves
    rw [leaveLoop, hcanceled, Bool.and_false]
    simpa [State.setTarget] using hmove .lastStartpass hne rfl (by simp [TargetPc.fresh])
  | noAbort hpc =>
    simpa [State.setTarget] using
      hmove .testRunTime (by simp [hpc]) rfl (by simp [TargetPc.fresh])
  | runTime passes hpc =>
    simpa [State.setTarget] using
      hmove .testPasses (by simp [hpc]) rfl (by simp [TargetPc.fresh])
  | goOn hgoes => simpa [State.setTarget] using h.goOn hgoes.1

/-! ## What is reported -/

/-- All operations are those of passes that have been processed. -/
def Settled (s : State cfg) : Prop :=
  s.runComplete = true ∨
    s.manager ≠ .endpass ∧ s.manager ≠ .checkAbort ∧ s.manager ≠ .checkComplete

structure Reported (l : Ledger cfg) : Prop where
  length : l.passResults.length = l.run.processed.length
  settled : Settled l.run → ∀ t, ∀ op ∈ l.ops t, op.pass ≤ l.run.processed.length
  pass : ∀ n results, l.passResults[n]? = some results →
    ∀ t, results t = Totals.of (l.operations t (n + 1))
  average : 0 < l.passResults.length → ∀ t, l.average t =
    ∑ n ∈ Finset.range l.passResults.length, Totals.of (l.operations t (n + 1))
  combined : ∀ totals, l.combined = some totals →
    l.run.runComplete = true ∧ totals = ∑ t, l.average t

structure LedgerInv (l : Ledger cfg) : Prop where
  canceled : l.run.canceled = false
  rounds : RoundInv l.run ∨ Torn l.run
  target : ∀ t, TargetBooks (l.run.target t) (l.worker t) (l.counters t) (l.ops t)
  started : l.run.runComplete = true → 0 < l.run.processed.length
  reported : Reported l

namespace Reported

variable {l : Ledger cfg}

/-- A step that reports nothing. -/
theorem congr (h : Reported l) {l' : Ledger cfg} (hresults : l'.passResults = l.passResults)
    (haverage : l'.average = l.average) (hcombined : l'.combined = l.combined)
    (hops : l'.ops = l.ops) (hprocessed : l'.run.processed = l.run.processed)
    (hsettled : Settled l'.run → Settled l.run)
    (hcomplete : l.run.runComplete = true → l'.run.runComplete = true) : Reported l' where
  length := by rw [hresults, hprocessed, h.length]
  settled hs := by
    rw [hops, hprocessed]
    exact h.settled (hsettled hs)
  pass := by simpa only [hresults, Ledger.operations, hops] using h.pass
  average := by simpa only [hresults, haverage, Ledger.operations, hops] using h.average
  combined totals htotals := by
    obtain ⟨hdone, heq⟩ := h.combined totals (hcombined ▸ htotals)
    exact ⟨hcomplete hdone, haverage ▸ heq⟩

/-- An operation of the pass that is going on. -/
theorem addOp (h : Reported l) {t : Fin cfg.targets} {op : Op} {l' : Ledger cfg}
    (hresults : l'.passResults = l.passResults) (haverage : l'.average = l.average)
    (hcombined : l'.combined = l.combined) (hrun : l'.run = l.run)
    (hops : l'.ops = Function.update l.ops t (l.ops t ++ [op]))
    (hpass : op.pass = l.run.processed.length + 1) (hopen : ¬ Settled l.run)
    (hcomplete : l.run.runComplete = false) : Reported l' := by
  have hsame : ∀ n, n < l.passResults.length → ∀ u, l'.operations u (n + 1) =
      l.operations u (n + 1) := by
    intro n hn u
    by_cases hu : u = t
    · subst hu
      have hne : (op.pass == n + 1) = false := by
        simp only [beq_eq_false_iff_ne, hpass, ← h.length]
        omega
      simp [Ledger.operations, hops, List.filter_append, hne]
    · simp [Ledger.operations, hops, hu]
  refine ⟨by rw [hresults, hrun, h.length], ?_, ?_, ?_, ?_⟩
  · intro hs
    exact absurd (hrun ▸ hs) hopen
  · intro n results hn u
    rw [hresults] at hn
    have hlt : n < l.passResults.length := (List.getElem?_eq_some_iff.mp hn).1
    rw [hsame n hlt u]
    exact h.pass n results hn u
  · intro hpos u
    rw [hresults] at hpos ⊢
    rw [haverage, h.average hpos u]
    apply Finset.sum_congr rfl
    intro n hn
    rw [hsame n (Finset.mem_range.mp hn) u]
  · intro totals htotals
    rw [hcombined] at htotals
    obtain ⟨hdone, -⟩ := h.combined totals htotals
    rw [hcomplete] at hdone
    cases hdone

/-- The results of a pass that all targets have ended. -/
theorem processPass (h : Reported l) {run : State cfg}
    (hprocessed : run.processed.length = l.run.processed.length + 1)
    (hnumber : ∀ t, (l.run.target t).passNumber = l.run.processed.length + 1)
    (hcounters : ∀ t, l.counters t = Totals.of (l.operations t (l.run.processed.length + 1)))
    (hops : ∀ t, ∀ op ∈ l.ops t, op.pass ≤ l.run.processed.length + 1)
    (hcomplete : l.run.runComplete = false) :
    Reported { l.processPassResults with run := run } where
  length := by
    change (l.passResults ++ [l.counters]).length = _
    rw [List.length_append, h.length, hprocessed]
    rfl
  settled _ t op hop := by
    rw [hprocessed]
    exact hops t op hop
  pass := by
    intro n results hn t
    change (l.passResults ++ [l.counters])[n]? = some results at hn
    change results t = Totals.of (l.operations t (n + 1))
    by_cases hlt : n < l.passResults.length
    · rw [List.getElem?_append_left hlt] at hn
      exact h.pass n results hn t
    · rw [List.getElem?_append_right (by omega)] at hn
      obtain ⟨hzero, rfl⟩ : n - l.passResults.length = 0 ∧ l.counters = results := by
        cases hk : n - l.passResults.length with
        | zero => simpa [hk] using hn
        | succ k => simp [hk] at hn
      rw [hcounters, ← h.length, show n = l.passResults.length by omega]
  average := by
    intro _ t
    change combineResults (if (l.run.target t).passNumber = 1 then .zero else l.average t)
        (l.counters t) =
      ∑ n ∈ Finset.range (l.passResults ++ [l.counters]).length, Totals.of (l.operations t (n + 1))
    have hbefore : (if (l.run.target t).passNumber = 1 then .zero else l.average t) =
        ∑ n ∈ Finset.range l.passResults.length, Totals.of (l.operations t (n + 1)) := by
      rw [hnumber t, h.length]
      split
      · next hfirst =>
        rw [show l.run.processed.length = 0 by omega]
        rfl
      · next hlater => rw [← h.length, h.average (by rw [h.length]; omega) t]
    rw [hbefore, hcounters, List.length_append, List.length_singleton, Finset.sum_range_succ,
      h.length]
    rfl
  combined := by
    intro totals htotals
    obtain ⟨hdone, -⟩ := h.combined totals htotals
    rw [hcomplete] at hdone
    cases hdone

end Reported

theorem foldl_combineResults {ι : Type*} (f : ι → Totals) (ts : List ι) (totals : Totals) :
    ts.foldl (fun combined t => combineResults combined (f t)) totals =
      totals + (ts.map f).sum := by
  induction ts generalizing totals with
  | nil => simp
  | cons t ts ih =>
    rw [List.foldl_cons, ih, List.map_cons, List.sum_cons, ← add_assoc]
    rfl

/-- The results of the run. -/
theorem Reported.processRun {l : Ledger cfg} (h : Reported l) {run : State cfg}
    (hprocessed : run.processed = l.run.processed) (hcomplete : l.run.runComplete = true)
    (hrun : run.runComplete = l.run.runComplete) :
    Reported { l.processRunResults with run := run } where
  length := by
    change l.passResults.length = run.processed.length
    rw [hprocessed, h.length]
  settled _ t op hop := by
    rw [hprocessed]
    exact h.settled (.inl hcomplete) t op hop
  pass := h.pass
  average := h.average
  combined := by
    intro totals htotals
    refine ⟨hrun.trans hcomplete, ?_⟩
    change some ((List.finRange cfg.targets).foldl
      (fun combined t => combineResults combined (l.average t)) .zero) = some totals at htotals
    change totals = ∑ t, l.average t
    rw [foldl_combineResults, ← Fin.sum_univ_def] at htotals
    rw [← Option.some.inj htotals]
    exact zero_add _

namespace LedgerInv

variable {l : Ledger cfg}

theorem init (average : Fin cfg.targets → Totals) :
    LedgerInv (Ledger.init average : Ledger cfg) where
  canceled := rfl
  rounds := .inl (RoundInv.init cfg)
  target t := by
    refine ⟨le_rfl, ?_, ?_, fun _ _ => rfl, fun _ => rfl, ?_⟩
    · simp [Ledger.init]
    · simp [Ledger.init]
    · simp [Ledger.init, Results.init, TargetPc.counting]
  started := by simp [Ledger.init, Results.init]
  reported := by
    refine ⟨rfl, ?_, ?_, ?_, ?_⟩
    · simp [Ledger.init]
    · simp [Ledger.init]
    · simp [Ledger.init]
    · simp [Ledger.init]

/-- A target whose pass goes on is in the pass that is processed next. -/
theorem of_pass (h : LedgerInv l) {t : Fin cfg.targets} (hpc : (l.run.target t).pc = .pass) :
    l.run.manager = .endpass ∧ l.run.runComplete = false ∧
      (l.run.target t).passNumber = l.run.processed.length + 1 := by
  obtain hrounds | htorn := h.rounds
  · obtain ⟨hm, hcomplete, hpass, -⟩ := hrounds.of_running (.inr (.inr hpc))
    exact ⟨hm, hcomplete, hpass⟩
  · exact absurd hpc (htorn.pc_ne_pass t)

theorem of_leaves (h : LedgerInv l) {t : Fin cfg.targets} (hleaves : Leaves l.run t) :
    Settled l.run ∧ 0 < l.run.processed.length := by
  obtain hrounds | htorn := h.rounds
  · obtain ⟨hm, hpass⟩ := hrounds.of_leaves h.canceled hleaves
    refine ⟨.inr (by simp [hm]), ?_⟩
    rw [← hpass]
    exact (h.target t).passNumber
  · exact ⟨.inl htorn.complete, h.started htorn.complete⟩

/-- A step of the run that reports nothing. -/
theorem setRun (h : LedgerInv l) {run : State cfg} (counters : Fin cfg.targets → Totals)
    (hcanceled : run.canceled = l.run.canceled) (hrounds : RoundInv run ∨ Torn run)
    (htarget : ∀ t, TargetBooks (run.target t) (l.worker t) (counters t) (l.ops t))
    (hprocessed : run.processed = l.run.processed)
    (hsettled : Settled run → Settled l.run)
    (hcomplete : run.runComplete = l.run.runComplete ∨
      run.runComplete = true ∧ 0 < l.run.processed.length) :
    LedgerInv { l with run := run, counters := counters } where
  canceled := hcanceled.trans h.canceled
  rounds := hrounds
  target := htarget
  started := by
    intro hdone
    change 0 < run.processed.length
    rw [hprocessed]
    obtain hsame | ⟨-, hpos⟩ := hcomplete
    · exact h.started (hsame ▸ hdone)
    · exact hpos
  reported := by
    refine h.reported.congr rfl rfl rfl rfl hprocessed hsettled ?_
    intro hdone
    obtain hsame | ⟨hdone', -⟩ := hcomplete
    · exact hsame.trans hdone
    · exact hdone'

/-- A step of a target thread. -/
theorem targetStep (h : LedgerInv l) {t : Fin cfg.targets} {run : State cfg}
    (hrounds : RoundInv run ∨ Torn run) (hs : TargetStep l.run t run) :
    LedgerInv { l.follow (.target t) with run := run } := by
  obtain ⟨hm, hprocessed, hcanceled, hothers, hcomplete⟩ := hs.frame
  have hsettled : Settled run → Settled l.run := by
    intro hset
    obtain hsame | ⟨hleaves, -⟩ := hcomplete
    · simpa only [Settled, hm, hsame] using hset
    · exact (h.of_leaves hleaves).1
  have hcomplete' : run.runComplete = l.run.runComplete ∨
      run.runComplete = true ∧ 0 < l.run.processed.length :=
    hcomplete.imp id fun hleft => ⟨hleft.2, (h.of_leaves hleft.1).2⟩
  by_cases hbegin : (l.run.target t).pc = .checkComplete ∧ l.run.runComplete = false
  · have hrun : run.target t = (l.run.target t).beforePass := by
      cases hs with
      | begin => simp [State.setTarget]
      | completeSeen hpc hdone =>
        rw [hbegin.2] at hdone
        cases hdone
      | leave hleaves => simp [Leaves, hbegin.1] at hleaves
      | goOn hgoes =>
        have hpc := hgoes.1
        rw [hbegin.1] at hpc
        cases hpc
      | abortSeen hpc | abortClear hpc | quit hpc | cutShort hpc | finish _ hpc | noAbort hpc
      | runTime _ hpc =>
        rw [hbegin.1] at hpc
        cases hpc
    rw [Ledger.follow, if_pos hbegin]
    refine h.setRun (Function.update l.counters t .zero) hcanceled hrounds ?_
      hprocessed hsettled hcomplete'
    intro u
    by_cases hu : u = t
    · subst hu
      rw [hrun, Function.update_self]
      exact (h.target u).begin hbegin.1
    · rw [hothers u hu, Function.update_of_ne hu]
      exact h.target u
  · rw [Ledger.follow, if_neg hbegin]
    refine h.setRun _ hcanceled hrounds ?_ hprocessed hsettled hcomplete'
    intro u
    by_cases hu : u = t
    · subst hu
      exact hs.books h.canceled hbegin (h.target u)
    · rw [hothers u hu]
      exact h.target u

/-- The targets and the manager leave a barrier. -/
theorem release (h : LedgerInv l) {b : Barrier} (hrounds : RoundInv (release l.run b) ∨
    Torn (Results.release l.run b)) :
    LedgerInv { l with run := Results.release l.run b } := by
  refine h.setRun _ rfl hrounds ?_ rfl ?_ (.inl rfl)
  · intro t
    simp only [Results.release]
    split
    · next hin => exact (h.target t).released hin
    · exact h.target t
  · rintro (hdone | hm)
    · exact .inl hdone
    · right
      simp only [Results.release] at hm
      split at hm
      · next hin => cases hp : l.run.manager <;> simp_all [ManagerPc.released, ManagerPc.barrier]
      · exact hm

/-- The manager processes the results of a pass. -/
theorem processPass (h : LedgerInv l) (hm : l.run.manager = .checkComplete)
    (hcomplete : l.run.runComplete = false)
    (hrounds : RoundInv { processPassResults l.run with manager := .display } ∨
      Torn { processPassResults l.run with manager := .display }) :
    LedgerInv { l.processPassResults with
      run := { Results.processPassResults l.run with manager := .display } } := by
  have hold : RoundInv l.run :=
    h.rounds.resolve_right fun htorn => absurd htorn.manager_waits (by simp [hm])
  have hall : ∀ t, (l.run.target t).pc = .display ∧
      (l.run.target t).passNumber = l.run.processed.length + 1 := by
    intro t
    have hexpected := hold.expected t
    simp only [Expected, hm, hcomplete, Bool.false_eq_true, if_false] at hexpected
    exact ⟨hexpected.1, hexpected.2.1⟩
  refine ⟨h.canceled, hrounds, h.target, ?_, ?_⟩
  · intro hdone
    rw [show l.run.runComplete = true from hdone] at hcomplete
    cases hcomplete
  · apply h.reported.processPass _ (fun t => (hall t).2) _ _ hcomplete
    · simp [Results.processPassResults]
    · intro t
      rw [(h.target t).counters_eq (hall t).1, (hall t).2]
      rfl
    · intro t op hop
      rw [← (hall t).2]
      exact ((h.target t).pass op hop).2

/-- A step of the run other than the ones that the ledger takes in its own way. -/
theorem runStep (h : LedgerInv l) {a : Action cfg} {run : State cfg} (ha : a.booked = false)
    (hcancel : a ≠ .cancel) (habort : a ≠ .raiseAbort)
    (hstep : Results.step cfg l.run a = some run) : LedgerInv { l.follow a with run := run } := by
  have hrounds := inStep_step h.rounds h.canceled habort hstep
  have hrunning : l.run.manager = .checkAbort → l.run.abort = false := by
    intro hm
    have hold : RoundInv l.run :=
      h.rounds.resolve_right fun htorn => absurd htorn.manager_waits (by simp [hm])
    by_contra habort
    have hlast := hold.lastCheck (by simpa using habort)
    simp [LastCheckMade, hm] at hlast
  cases (Step.of_eq_some hstep).2 with
  | @worker t a target hwork =>
    have hother : ∀ w status, a ≠ .finishIo w status := by
      rintro w status rfl
      cases ha
    refine h.setRun _ rfl hrounds ?_ rfl id (.inl rfl)
    exact State.forall_setTarget
      (fun u target => TargetBooks target (l.worker u) (l.counters u) (l.ops u))
      ((h.target t).work hwork hother) fun u _ => h.target u
  | target htarget => exact h.targetStep hrounds htarget
  | release hfull => exact h.release hrounds
  | abortDisplay hm hraised =>
    rw [hrunning hm] at hraised
    cases hraised
  | abortClear hm hno =>
    have hfollow : l.follow .manager = l := by simp [Ledger.follow, hm, hno]
    rw [hfollow]
    refine h.setRun _ rfl hrounds h.target rfl ?_ (.inl rfl)
    rintro (hdone | ⟨-, -, hnot⟩)
    · exact .inl hdone
    · exact absurd rfl hnot
  | runDisplay hm hcomplete =>
    have hfollow : l.follow .manager = l.processRunResults := by
      simp [Ledger.follow, hm, hcomplete]
    rw [hfollow]
    exact ⟨h.canceled, hrounds, h.target, h.started, h.reported.processRun rfl hcomplete rfl⟩
  | display hm hcomplete =>
    have hfollow : l.follow .manager = l.processPassResults := by
      simp [Ledger.follow, hm, hcomplete]
    rw [hfollow]
    exact h.processPass hm hcomplete hrounds
  | main hm => exact h.setRun _ rfl hrounds h.target rfl id (.inl rfl)
  | raiseAbort => exact absurd rfl habort
  | cancel => exact absurd rfl hcancel
  | runTimeExpires => exact h.setRun _ rfl hrounds h.target rfl id (.inl rfl)

/-- The books of one target change, and nothing is reported. -/
theorem setBooks (h : LedgerInv l) {l' : Ledger cfg} {t : Fin cfg.targets}
    {target : Target (cfg.queueDepth t)} {data : Fin (cfg.queueDepth t) → WorkerData}
    {counters : Totals} (hrun : l'.run = l.run.setTarget t target)
    (hrounds : RoundInv (l.run.setTarget t target) ∨ Torn (l.run.setTarget t target))
    (hworker : l'.worker = Function.update l.worker t data)
    (hcounters : l'.counters = Function.update l.counters t counters)
    (hbooks : TargetBooks target data counters (l'.ops t))
    (hops : ∀ u, u ≠ t → l'.ops u = l.ops u) (hreported : Reported l') : LedgerInv l' where
  canceled := by
    rw [hrun]
    exact h.canceled
  rounds := hrun ▸ hrounds
  target := by
    intro u
    rw [hrun, hworker, hcounters]
    by_cases hu : u = t
    · subst hu
      simpa [State.setTarget] using hbooks
    · simpa [State.setTarget, hu, hops u hu] using h.target u
  started := by
    rw [hrun]
    exact h.started
  reported := hreported

theorem step (h : LedgerInv l) {a : LedgerAction cfg} {l' : Ledger cfg}
    (hok : Ledger.Unhindered l a) (hstep : l.step a = some l') : LedgerInv l' := by
  cases a with
  | run a =>
    rw [Ledger.step] at hstep
    split at hstep
    · cases hstep
    next hbooked =>
    obtain ⟨run, hrun, rfl⟩ := Option.map_eq_some_iff.mp hstep
    apply h.runStep (by simpa using hbooked) _ _ hrun
    · rintro rfl
      exact hok
    · rintro rfl
      exact hok
  | assign t w opType xferSize =>
    rw [Ledger.step] at hstep
    obtain ⟨run, hrun, rfl⟩ := Option.map_eq_some_iff.mp hstep
    have hrounds := inStep_step h.rounds h.canceled (by simp) hrun
    obtain ⟨-, ⟨hwork⟩⟩ := Step.of_eq_some hrun
    exact h.setBooks rfl hrounds rfl (Function.update_eq_self t l.counters).symm
      ((h.target t).assign hwork rfl) (fun _ _ => rfl)
      (h.reported.congr rfl rfl rfl rfl rfl id id)
  | ioReturns t w status =>
    rw [Ledger.step] at hstep
    split at hstep
    · next xferSize hio hprogress =>
      cases hstep
      obtain ⟨hm, hcomplete, hpass⟩ := h.of_pass ((h.target t).pc_of_inIo hio)
      have hsame : l.run = l.run.setTarget t (l.run.target t) := by simp [State.setTarget]
      refine h.setBooks hsame (hsame ▸ h.rounds) rfl (Function.update_eq_self t l.counters).symm
        ?_ (fun u hu => by simp [hu]) ?_
      · simpa [Ledger.setWorker] using (h.target t).ioReturns hio hprogress status
      · exact h.reported.addOp rfl rfl rfl rfl rfl hpass
          (by simp [Settled, hm, hcomplete]) hcomplete
    · cases hstep
  | updateLocalCounters t w =>
    rw [Ledger.step] at hstep
    split at hstep
    · next xferSize status hio hprogress =>
      cases hstep
      have hsame : l.run = l.run.setTarget t (l.run.target t) := by simp [State.setTarget]
      exact h.setBooks hsame (hsame ▸ h.rounds) rfl (Function.update_eq_self t l.counters).symm
        ((h.target t).updateLocal hio hprogress) (fun _ _ => rfl)
        (h.reported.congr rfl rfl rfl rfl rfl id id)
    · cases hstep
  | updateTargetCounters t w =>
    rw [Ledger.step] at hstep
    split at hstep
    · next xferSize status errorCount hio hprogress =>
      obtain ⟨run, hrun, rfl⟩ := Option.map_eq_some_iff.mp hstep
      have hrounds := inStep_step h.rounds h.canceled (by simp) hrun
      obtain ⟨-, ⟨hwork⟩⟩ := Step.of_eq_some hrun
      exact h.setBooks rfl hrounds rfl rfl ((h.target t).updateTarget hwork hio hprogress)
        (fun _ _ => rfl) (h.reported.congr rfl rfl rfl rfl rfl id id)
    · cases hstep

theorem of_reach {average : Fin cfg.targets → Totals}
    (h : Transition.Reach Ledger.step Ledger.Unhindered (Ledger.init average) l) : LedgerInv l :=
  h.invariant (init average) fun _ _ _ hinv hok hstep => hinv.step hok hstep

end LedgerInv

/-- In a run without cancel and abort, the results of the `n`-th pass are for each target the
totals of the operations of this pass. The average results are the sums over the passes that
have been processed. The combined results are the sums of the average results over all targets,
and no operation is missing from these. -/
theorem reported_totals_exact {average : Fin cfg.targets → Totals} {l : Ledger cfg}
    (hreach : Transition.Reach Ledger.step Ledger.Unhindered (Ledger.init average) l) :
    (∀ n results, l.passResults[n]? = some results →
      ∀ t, results t = Totals.of (l.operations t (n + 1))) ∧
    (0 < l.passResults.length → ∀ t, l.average t =
      ∑ n ∈ Finset.range l.passResults.length, Totals.of (l.operations t (n + 1))) ∧
    ∀ totals, l.combined = some totals →
      totals = ∑ t, l.average t ∧ ∀ t, l.average t = Totals.of (l.ops t) := by
  have h := LedgerInv.of_reach hreach
  refine ⟨h.reported.pass, h.reported.average, ?_⟩
  intro totals htotals
  obtain ⟨hdone, heq⟩ := h.reported.combined totals htotals
  refine ⟨heq, ?_⟩
  intro t
  rw [h.reported.average (by rw [h.reported.length]; exact h.started hdone) t, h.reported.length]
  apply Totals.sum_of_passes
  intro op hop
  exact ⟨((h.target t).pass op hop).1, h.reported.settled (.inl hdone) t op hop⟩

/-- Two targets and two passes; errors do not stop a target. -/
abbrev twoPasses : Config where
  targets := 2
  queueDepth := fun _ => 1
  passes := 2
  runTime := false
  endToEnd := fun _ => false
  stopOnError := false

/-- An operation of a target from its task to the counters. -/
def transfer (t : Fin 2) (opType : OpType) (xferSize : Nat) (status : Int) :
    List (LedgerAction twoPasses) :=
  let w : Fin 1 := ⟨0, Nat.one_pos⟩
  [.assign t w opType xferSize, .run (.worker t (.startIo w)), .ioReturns t w status,
    .updateLocalCounters t w, .updateTargetCounters t w]

/-- A pass with these operations. -/
def ledgerPass (ops : List (LedgerAction twoPasses)) : List (LedgerAction twoPasses) :=
  let t₀ : Fin 2 := ⟨0, Nat.two_pos⟩
  let t₁ : Fin 2 := ⟨1, Nat.one_lt_two⟩
  List.flatten [
    [.run (.release .startpass), .run (.target t₀), .run (.target t₁), .run (.target t₁),
      .run (.target t₀)], ops,
    [.run (.target t₁), .run (.target t₀), .run (.release .endpass), .run .manager, .run .manager,
      .run (.release .display)]]

theorem reported_totals_exact_twoPasses : ∃ l : Ledger twoPasses,
    l.combined = some ⟨20, 12, 8, 3, 2, 1, 1⟩ ∧ l.passResults.length = 2 ∧
      (∀ t, l.average t = Totals.of (l.ops t)) ∧
      ∀ n results, l.passResults[n]? = some results →
        ∀ t, results t = Totals.of (l.operations t (n + 1)) := by
  obtain ⟨l, hreach, hcombined, hlength⟩ :
      ∃ l, Transition.Reach Ledger.step Ledger.Unhindered
          (Ledger.init (fun _ => ⟨9, 9, 9, 9, 9, 9, 9⟩) : Ledger twoPasses) l ∧
        l.combined = some ⟨20, 12, 8, 3, 2, 1, 1⟩ ∧ l.passResults.length = 2 :=
    Transition.exists_reach_of_run
      (List.flatten [
        ledgerPass (transfer 0 .read 4 4 ++ transfer 1 .write 8 8),
        [.run (.target 0), .run (.target 0), .run (.target 0), .run (.target 1),
          .run (.target 1), .run (.target 1)],
        ledgerPass (transfer 1 .write 8 (-1) ++ transfer 0 .read 8 8),
        [.run (.target 1), .run (.target 1), .run (.target 1), .run (.target 0),
          .run (.target 0), .run (.target 0), .run (.release .startpass),
          .run (.release .endpass), .run .manager, .run .manager]]) (by decide +kernel)
  obtain ⟨hpass, -, htotals⟩ := reported_totals_exact hreach
  exact ⟨l, hcombined, hlength, (htotals _ hcombined).2, hpass⟩

end Xdd.Results
