import Xdd.Library.Extremum
import Xdd.Library.Transition
import Xdd.Results.Ledger

/-!
# Operation times

The same counters exist for every worker and for the target. When an I/O has returned, its worker
computes the elapsed time in its own counters, adds to the times of the target under the counters
mutex, and then updates the extended statistics of the target, without a lock. Both updates of the
overall time read the elapsed time in the counters of the target, which nothing ever sets.

Every access of the extended statistics is a step of its own, so the workers interleave within the
function. The times of a type are only compared by a worker that has replaced the overall time, and
the type is that of the entry of the seek list that is issued next. Beside the run stands a record
of the operations of the pass and, for the proofs, of the kinds whose shortest time has been
compared.
-/

namespace Xdd.Results.OpTimes

/-- The largest time. -/
def NCLK_MAX : Nat := 2 ^ 64 - 1

/-! ## The data -/

/-- The times of `xint_target_counters_t`, which are counted in 64 bits here only where they are
subtracted. -/
structure Counters where
  currentOpNumber : Nat
  currentOpStartTime : Nat
  currentOpEndTime : Nat
  currentOpElapsedTime : Nat
  accumulatedOpTime : Nat
  accumulatedTypeOpTime : OpType → Nat

/-- What `memset` leaves. -/
def Counters.zero : Counters where
  currentOpNumber := 0
  currentOpStartTime := 0
  currentOpEndTime := 0
  currentOpElapsedTime := 0
  accumulatedOpTime := 0
  accumulatedTypeOpTime := fun _ => 0

inductive Extreme where
  | longest
  | shortest
deriving DecidableEq, Repr

/-- All operations, or those of a type. -/
inductive Scope where
  | overall
  | type (opType : OpType)
deriving DecidableEq, Repr

/-- The times and operation numbers of `xint_extended_stats_t`: `my_longest_op_time`,
`my_longest_read_op_time` and so on. -/
structure ExtendedStats where
  time : Extreme → Scope → Nat
  number : Extreme → Scope → Nat

/-- The fields that a results report has and that are reset before a pass; those of a noop are
not. -/
def Scope.reported : Scope → Bool
  | .type .noop => false
  | _ => true

def Extreme.reset : Extreme → Nat
  | .longest => 0
  | .shortest => NCLK_MAX

/-- Whether an elapsed time replaces the one that is kept. -/
def Extreme.replaces : Extreme → Nat → Nat → Bool
  | .longest, elapsed, time => time < elapsed
  | .shortest, elapsed, time => elapsed < time

/-- Where a worker is: in an I/O, in the updates of the counters, and in `xdd_extended_stats`. -/
inductive WorkerPc where
  | idle
  | inIo
  | returned
  | counted
  | afterIoOp
  | compare (extreme : Extreme) (scope : Scope)
  | storeTime (extreme : Extreme) (scope : Scope)
  | storeNumber (extreme : Extreme) (scope : Scope)
  | testWrite (extreme : Extreme)
  | testRead (extreme : Extreme)
deriving DecidableEq, Repr

/-- The task of a worker and its counters. `statusGood` says whether `task_io_status` is the
transfer size. -/
structure WorkerData where
  pc : WorkerPc
  taskOpType : OpType
  statusGood : Bool
  counters : Counters

/-- An operation whose I/O has returned. -/
structure Op where
  opType : OpType
  elapsedTime : Nat

def Op.inScope (op : Op) : Scope → Bool
  | .overall => true
  | .type opType => op.opType == opType

variable {n : Nat}

/-- A target with its workers. The last three are the record; `unaborted` says whether
`xdd_worker_thread_ttd_after_io_op` has found the target not aborted after some operation. -/
structure State (n : Nat) where
  counters : Counters
  esp : ExtendedStats
  abort : Bool
  worker : Fin n → WorkerData
  completed : List Op
  unaborted : Bool
  compared : Scope → Bool

/-- The operation type of each entry of the seek list, and whether `-extendedstats` is given. -/
structure Config where
  seeks : Nat → OpType
  extendedStats : Bool

/-! ## The steps -/

def setWorker (s : State n) (w : Fin n) (data : WorkerData) : State n :=
  { s with worker := Function.update s.worker w data }

def setPc (s : State n) (w : Fin n) (pc : WorkerPc) : State n :=
  setWorker s w { s.worker w with pc := pc }

/-- A new target. The extended statistics come from `malloc`. -/
def created (esp : ExtendedStats) : State n where
  counters := .zero
  esp := esp
  abort := false
  worker := fun _ => { pc := .idle, taskOpType := .noop, statusGood := false, counters := .zero }
  completed := []
  unaborted := false
  compared := fun _ => false

/-- `xdd_init_target_data_before_pass`; the record starts anew. -/
def initTargetDataBeforePass (s : State n) : State n where
  counters :=
    { s.counters with
      currentOpNumber := 0
      accumulatedOpTime := 0
      accumulatedTypeOpTime := fun opType =>
        if opType = .noop then s.counters.accumulatedTypeOpTime opType else 0 }
  esp :=
    { time := fun extreme scope =>
        if scope.reported then extreme.reset else s.esp.time extreme scope
      number := fun extreme scope => if scope.reported then 0 else s.esp.number extreme scope }
  abort := false
  worker := s.worker
  completed := []
  unaborted := false
  compared := fun _ => false

/-- The difference of two time stamps. -/
def elapsedTime (startTime endTime : Nat) : Nat := (((endTime : Int) - startTime) % 2 ^ 64).toNat

/-- `xdd_worker_thread_update_local_counters` -/
def updateLocalCounters (data : WorkerData) : WorkerData :=
  let elapsed := elapsedTime data.counters.currentOpStartTime data.counters.currentOpEndTime
  { data with
    pc := .counted
    counters :=
      { data.counters with
        currentOpElapsedTime := elapsed
        accumulatedOpTime := data.counters.accumulatedOpTime + elapsed
        accumulatedTypeOpTime :=
          if data.statusGood then
            Function.update data.counters.accumulatedTypeOpTime data.taskOpType
              (data.counters.accumulatedTypeOpTime data.taskOpType + elapsed)
          else data.counters.accumulatedTypeOpTime } }

/-- `xdd_worker_thread_update_target_counters`. The overall time is that of the counters of the
target, the time of the type that of the worker. -/
def updateTargetCounters (counters : Counters) (data : WorkerData) : Counters :=
  { counters with
    accumulatedOpTime := counters.accumulatedOpTime + counters.currentOpElapsedTime
    accumulatedTypeOpTime :=
      if data.statusGood then
        Function.update counters.accumulatedTypeOpTime data.taskOpType
          (counters.accumulatedTypeOpTime data.taskOpType + data.counters.currentOpElapsedTime)
      else counters.accumulatedTypeOpTime }

/-- What comes behind the section of `xdd_extended_stats` for the longest times, and behind the
one for the shortest. -/
def afterExtreme : Extreme → WorkerPc
  | .longest => .compare .shortest .overall
  | .shortest => .idle

/-- A step of `xdd_extended_stats`. The time and the number of the operation are those of the
counters of the target, and so is the entry of the seek list that tells its type. -/
def extendedStatsStep (cfg : Config) (s : State n) (w : Fin n) : Option (State n) :=
  let elapsed := s.counters.currentOpElapsedTime
  let opNumber := s.counters.currentOpNumber
  match (s.worker w).pc with
  | .compare extreme scope =>
    let pc :=
      if extreme.replaces elapsed (s.esp.time extreme scope) then .storeTime extreme scope
      else afterExtreme extreme
    some (setPc
      { s with
        compared := if extreme = .shortest then Function.update s.compared scope true
          else s.compared } w pc)
  | .storeTime extreme scope =>
    let time := Function.update s.esp.time extreme
      (Function.update (s.esp.time extreme) scope elapsed)
    some (setPc { s with esp := { s.esp with time := time } } w (.storeNumber extreme scope))
  | .storeNumber extreme scope =>
    let number := Function.update s.esp.number extreme
      (Function.update (s.esp.number extreme) scope opNumber)
    some (setPc { s with esp := { s.esp with number := number } } w
      (if scope = .overall then .testWrite extreme else afterExtreme extreme))
  | .testWrite extreme =>
    some (setPc s w
      (if cfg.seeks opNumber = .write then .compare extreme (.type .write)
        else .testRead extreme))
  | .testRead extreme =>
    some (setPc s w
      (if cfg.seeks opNumber = .read then .compare extreme (.type .read)
        else .compare extreme (.type .noop)))
  | _ => none

/-- What happens in a run. -/
inductive Action (n : Nat) where
  | beforePass
  | assign (w : Fin n)
  | ioReturns (w : Fin n) (startTime endTime : Nat) (statusGood : Bool)
  | updateLocal (w : Fin n)
  | updateTarget (w : Fin n)
  | afterIoOp (w : Fin n)
  | extendedStats (w : Fin n)
  | abort

/-- No worker is busy, as at the end of a pass. -/
def Quiet (s : State n) : Prop := ∀ w, (s.worker w).pc = .idle

instance (s : State n) : Decidable (Quiet s) := inferInstanceAs (Decidable (∀ _, _))

def step (cfg : Config) (s : State n) : Action n → Option (State n)
  | .beforePass => if Quiet s then some (initTargetDataBeforePass s) else none
  | .assign w =>
    if (s.worker w).pc = .idle then
      some { setWorker s w { s.worker w with
          pc := .inIo, taskOpType := cfg.seeks s.counters.currentOpNumber } with
        counters := { s.counters with currentOpNumber := s.counters.currentOpNumber + 1 } }
    else none
  | .ioReturns w startTime endTime statusGood =>
    if (s.worker w).pc = .inIo then
      some { setWorker s w { s.worker w with
          pc := .returned
          statusGood := statusGood
          counters := { (s.worker w).counters with
            currentOpStartTime := startTime, currentOpEndTime := endTime } } with
        completed := s.completed ++
          [{ opType := (s.worker w).taskOpType, elapsedTime := elapsedTime startTime endTime }] }
    else none
  | .updateLocal w =>
    if (s.worker w).pc = .returned then some (setWorker s w (updateLocalCounters (s.worker w)))
    else none
  | .updateTarget w =>
    if (s.worker w).pc = .counted then
      some { setPc s w .afterIoOp with counters := updateTargetCounters s.counters (s.worker w) }
    else none
  | .afterIoOp w =>
    -- `xdd_worker_thread_ttd_after_io_op` returns early if the target aborts
    if (s.worker w).pc = .afterIoOp then
      some (setPc { s with unaborted := s.unaborted || !s.abort } w
        (if s.abort || !cfg.extendedStats then .idle else .compare .longest .overall))
    else none
  | .extendedStats w => extendedStatsStep cfg s w
  | .abort => some { s with abort := true }

/-! ## What the statistics should be -/

/-- The elapsed times of the operations of a scope. -/
def timesOf (s : State n) (scope : Scope) : List Nat :=
  (s.completed.filter fun op => op.inScope scope).map Op.elapsedTime

/-- The maximum or minimum of times, or the value that is set before a pass if there is none. -/
def Extreme.among : Extreme → List Nat → Nat
  | .longest, times => (0 :: times).max (List.cons_ne_nil 0 times)
  | .shortest, times => (NCLK_MAX :: times).min (List.cons_ne_nil NCLK_MAX times)

/-- The time statistics of a target are those of the operations of its pass. -/
structure TimesExact (cfg : Config) (s : State n) : Prop where
  accumulated : s.counters.accumulatedOpTime = (s.completed.map Op.elapsedTime).sum
  extended : cfg.extendedStats = true → ∀ extreme scope, scope.reported = true →
    s.esp.time extreme scope = extreme.among (timesOf s scope)

/-! ## What they are -/

/-- Where a worker is as long as no time is longer than the longest. -/
def WorkerPc.shortestOnly : WorkerPc → Bool
  | .compare .longest (.type _) | .storeTime .longest _ | .storeNumber .longest _
  | .testWrite .longest | .testRead .longest => false
  | _ => true

/-- Whether a worker is about to store a shortest time. -/
def WorkerPc.stores : WorkerPc → Bool
  | .storeTime .shortest _ => true
  | _ => false

/-- The elapsed time of the target stays 0, so nothing is accumulated and no longest time is
stored; a shortest time is that of before the pass until it is compared, and 0 afterwards. -/
structure Inv (s : State n) : Prop where
  elapsed : s.counters.currentOpElapsedTime = 0
  accumulated : s.counters.accumulatedOpTime = 0
  longest : ∀ scope, scope.reported = true → s.esp.time .longest scope = 0
  pcs : ∀ w, (s.worker w).pc.shortestOnly = true
  fresh : ∀ scope, scope.reported = true → s.compared scope = false →
    s.esp.time .shortest scope = NCLK_MAX
  pending : ∀ scope w, (s.worker w).pc = .storeTime .shortest scope → s.compared scope = true
  compared : ∀ scope, scope.reported = true → s.compared scope = true →
    s.esp.time .shortest scope = 0 ∨ ∃ w, (s.worker w).pc = .storeTime .shortest scope

section Steps

variable {cfg : Config} {s : State n}

theorem setPc_self (s : State n) (w : Fin n) (pc : WorkerPc) :
    (setPc s w pc).worker w = { s.worker w with pc := pc } := Function.update_self ..

theorem setPc_of_ne (s : State n) {v w : Fin n} (hv : v ≠ w) (pc : WorkerPc) :
    (setPc s w pc).worker v = s.worker v := Function.update_of_ne hv ..

theorem Inv.initTargetDataBeforePass (helapsed : s.counters.currentOpElapsedTime = 0)
    (hquiet : Quiet s) : Inv (initTargetDataBeforePass s) where
  elapsed := helapsed
  accumulated := rfl
  longest := by
    intro scope hscope
    exact if_pos hscope
  pcs := by
    intro w
    show (s.worker w).pc.shortestOnly = true
    rw [hquiet w]
    rfl
  fresh := by
    intro scope hscope _
    exact if_pos hscope
  pending := by
    intro scope w hpc
    exact absurd ((hquiet w).symm.trans hpc) WorkerPc.noConfusion
  compared := by
    intro scope _ hcompared
    cases hcompared

/-- A worker goes on without a store of a time. -/
theorem Inv.move (h : Inv s) {s' : State n} {w : Fin n} {data : WorkerData}
    (hold : (s.worker w).pc.stores = false) (hnew : data.pc.stores = false)
    (hpc : data.pc.shortestOnly = true)
    (hworker : s'.worker = Function.update s.worker w data)
    (helapsed : s'.counters.currentOpElapsedTime = s.counters.currentOpElapsedTime)
    (haccumulated : s'.counters.accumulatedOpTime = s.counters.accumulatedOpTime)
    (htime : s'.esp.time = s.esp.time) (hcompared : s'.compared = s.compared) : Inv s' := by
  have hother : ∀ {v}, v ≠ w → s'.worker v = s.worker v := by
    intro v hv
    rw [hworker, Function.update_of_ne hv]
  have hself : s'.worker w = data := by
    rw [hworker, Function.update_self]
  constructor
  · rw [helapsed, h.elapsed]
  · rw [haccumulated, h.accumulated]
  · rw [htime]
    exact h.longest
  · intro v
    by_cases hv : v = w
    · rw [hv, hself]
      exact hpc
    · rw [hother hv]
      exact h.pcs v
  · rw [htime, hcompared]
    exact h.fresh
  · intro scope v hstore
    rw [hcompared]
    by_cases hv : v = w
    · rw [hv, hself] at hstore
      rw [hstore] at hnew
      cases hnew
    · rw [hother hv] at hstore
      exact h.pending scope v hstore
  · intro scope hscope hdone
    rw [htime]
    rw [hcompared] at hdone
    obtain hzero | ⟨v, hv⟩ := h.compared scope hscope hdone
    · exact .inl hzero
    · have hne : v ≠ w := by
        rintro rfl
        rw [hv] at hold
        cases hold
      exact .inr ⟨v, by rw [hother hne, hv]⟩

/-- A comparison with the shortest time of a scope: the time is above 0 exactly until one has been
stored. -/
theorem Inv.compareShortest (h : Inv s) {w : Fin n} {scope : Scope}
    (hpc : (s.worker w).pc = .compare .shortest scope) :
    Inv (setPc { s with compared := Function.update s.compared scope true } w
      (if 0 < s.esp.time .shortest scope then .storeTime .shortest scope else .idle)) := by
  generalize hnext : (if 0 < s.esp.time .shortest scope then WorkerPc.storeTime .shortest scope
    else .idle) = pc
  constructor
  · exact h.elapsed
  · exact h.accumulated
  · exact h.longest
  · intro v
    by_cases hv : v = w
    · rw [hv, setPc_self, ← hnext]
      split
      · rfl
      · rfl
    · rw [setPc_of_ne _ hv]
      exact h.pcs v
  · intro scope' hscope' hfresh
    have hne : scope' ≠ scope := by
      rintro rfl
      exact absurd ((Function.update_self ..).symm.trans hfresh) (by decide)
    change Function.update s.compared scope true scope' = false at hfresh
    rw [Function.update_of_ne hne] at hfresh
    exact h.fresh scope' hscope' hfresh
  · intro scope' v hstore
    by_cases hscope : scope' = scope
    · rw [hscope]
      exact Function.update_self ..
    · refine (Function.update_of_ne hscope ..).trans ?_
      by_cases hv : v = w
      · rw [hv, setPc_self, ← hnext] at hstore
        dsimp only at hstore
        split at hstore
        · cases hstore
          exact absurd rfl hscope
        · cases hstore
      · rw [setPc_of_ne _ hv] at hstore
        exact h.pending scope' v hstore
  · intro scope' hscope' hdone
    by_cases hscope : scope' = scope
    · subst hscope
      by_cases hpositive : 0 < s.esp.time .shortest scope'
      · right
        refine ⟨w, ?_⟩
        rw [setPc_self, ← hnext, if_pos hpositive]
      · left
        show s.esp.time .shortest scope' = 0
        omega
    · change Function.update s.compared scope true scope' = true at hdone
      rw [Function.update_of_ne hscope] at hdone
      obtain hzero | ⟨v, hv⟩ := h.compared scope' hscope' hdone
      · exact .inl hzero
      · have hne : v ≠ w := by
          rintro rfl
          rw [hpc] at hv
          cases hv
        exact .inr ⟨v, by rw [setPc_of_ne _ hne, hv]⟩

/-- The store of a shortest time. -/
theorem Inv.storeShortest (h : Inv s) {w : Fin n} {scope : Scope}
    (hpc : (s.worker w).pc = .storeTime .shortest scope) {esp : ExtendedStats}
    (htime : esp.time = Function.update s.esp.time .shortest
      (Function.update (s.esp.time .shortest) scope 0)) :
    Inv (setPc { s with esp := esp } w (.storeNumber .shortest scope)) := by
  have hstored : esp.time .shortest scope = 0 := by
    rw [htime, Function.update_self, Function.update_self]
  have hkept : ∀ scope', scope' ≠ scope →
      esp.time .shortest scope' = s.esp.time .shortest scope' := by
    intro scope' hne
    rw [htime, Function.update_self, Function.update_of_ne hne]
  constructor
  · exact h.elapsed
  · exact h.accumulated
  · intro scope' hscope'
    show esp.time .longest scope' = 0
    rw [htime, Function.update_of_ne (by decide)]
    exact h.longest scope' hscope'
  · intro v
    by_cases hv : v = w
    · rw [hv, setPc_self]
      rfl
    · rw [setPc_of_ne _ hv]
      exact h.pcs v
  · intro scope' hscope' hfresh
    have hne : scope' ≠ scope := by
      rintro rfl
      exact absurd ((h.pending scope' w hpc).symm.trans hfresh) (by decide)
    exact (hkept scope' hne).trans (h.fresh scope' hscope' hfresh)
  · intro scope' v hstore
    by_cases hv : v = w
    · rw [hv, setPc_self] at hstore
      cases hstore
    · rw [setPc_of_ne _ hv] at hstore
      exact h.pending scope' v hstore
  · intro scope' hscope' hdone
    by_cases hscope : scope' = scope
    · rw [hscope]
      exact .inl hstored
    · obtain hzero | ⟨v, hv⟩ := h.compared scope' hscope' hdone
      · exact .inl ((hkept scope' hscope).trans hzero)
      · have hne : v ≠ w := by
          rintro rfl
          rw [hpc] at hv
          cases hv
          exact hscope rfl
        exact .inr ⟨v, by rw [setPc_of_ne _ hne, hv]⟩

/-- A step of `xdd_extended_stats` that stores no time. -/
theorem Inv.goOn (h : Inv s) {w : Fin n} {pc : WorkerPc} {esp : ExtendedStats}
    (htime : esp.time = s.esp.time) (hold : (s.worker w).pc.stores = false)
    (hnew : pc.stores = false) (hpc : pc.shortestOnly = true) :
    Inv (setPc { s with esp := esp } w pc) :=
  h.move hold hnew hpc rfl rfl rfl htime rfl

/-- The same with a choice of the place to go to. -/
theorem Inv.branch (h : Inv s) {w : Fin n} {c : Prop} [Decidable c] {pc pc' : WorkerPc}
    {esp : ExtendedStats} (htime : esp.time = s.esp.time) (hold : (s.worker w).pc.stores = false)
    (hthen : pc.stores = false ∧ pc.shortestOnly = true)
    (helse : pc'.stores = false ∧ pc'.shortestOnly = true) :
    Inv (setPc { s with esp := esp } w (if c then pc else pc')) := by
  split
  · exact h.goOn htime hold hthen.1 hthen.2
  · exact h.goOn htime hold helse.1 helse.2

theorem Inv.extendedStatsStep (h : Inv s) {s' : State n} {w : Fin n}
    (hs : extendedStatsStep cfg s w = some s') : Inv s' := by
  have honly := h.pcs w
  rw [OpTimes.extendedStatsStep, h.elapsed] at hs
  cases hpc : (s.worker w).pc with
  | compare extreme scope =>
    rw [hpc] at hs honly
    cases extreme with
    | longest =>
      cases scope with
      | overall =>
        dsimp only [Extreme.replaces] at hs
        rw [h.longest .overall rfl] at hs
        cases hs
        exact h.goOn rfl (hpc ▸ rfl) rfl rfl
      | type opType => cases honly
    | shortest =>
      cases hs
      have hcompare := h.compareShortest hpc
      simpa [Extreme.replaces, afterExtreme] using hcompare
  | storeTime extreme scope =>
    rw [hpc] at hs honly
    cases extreme with
    | longest => cases honly
    | shortest =>
      cases hs
      exact h.storeShortest hpc rfl
  | storeNumber extreme scope =>
    rw [hpc] at hs honly
    cases extreme with
    | longest => cases honly
    | shortest =>
      cases hs
      exact h.branch rfl (hpc ▸ rfl) ⟨rfl, rfl⟩ ⟨rfl, rfl⟩
  | testWrite extreme =>
    rw [hpc] at hs honly
    cases extreme with
    | longest => cases honly
    | shortest =>
      cases hs
      exact h.branch rfl (hpc ▸ rfl) ⟨rfl, rfl⟩ ⟨rfl, rfl⟩
  | testRead extreme =>
    rw [hpc] at hs honly
    cases extreme with
    | longest => cases honly
    | shortest =>
      cases hs
      exact h.branch rfl (hpc ▸ rfl) ⟨rfl, rfl⟩ ⟨rfl, rfl⟩
  | idle =>
    rw [hpc] at hs
    cases hs
  | inIo =>
    rw [hpc] at hs
    cases hs
  | returned =>
    rw [hpc] at hs
    cases hs
  | counted =>
    rw [hpc] at hs
    cases hs
  | afterIoOp =>
    rw [hpc] at hs
    cases hs

theorem Inv.step (h : Inv s) {a : Action n} {s' : State n} (hs : step cfg s a = some s') :
    Inv s' := by
  cases a with
  | beforePass =>
    obtain ⟨hquiet, hs⟩ := Option.ite_none_right_eq_some.mp hs
    cases hs
    exact .initTargetDataBeforePass h.elapsed hquiet
  | assign w =>
    obtain ⟨hpc, hs⟩ := Option.ite_none_right_eq_some.mp hs
    cases hs
    exact h.move (hpc ▸ rfl) rfl rfl rfl rfl rfl rfl rfl
  | ioReturns w startTime endTime statusGood =>
    obtain ⟨hpc, hs⟩ := Option.ite_none_right_eq_some.mp hs
    cases hs
    exact h.move (hpc ▸ rfl) rfl rfl rfl rfl rfl rfl rfl
  | updateLocal w =>
    obtain ⟨hpc, hs⟩ := Option.ite_none_right_eq_some.mp hs
    cases hs
    exact h.move (hpc ▸ rfl) rfl rfl rfl rfl rfl rfl rfl
  | updateTarget w =>
    obtain ⟨hpc, hs⟩ := Option.ite_none_right_eq_some.mp hs
    cases hs
    -- what is added is the elapsed time of the target
    have hsame : s.counters.accumulatedOpTime + s.counters.currentOpElapsedTime =
        s.counters.accumulatedOpTime := by
      rw [h.elapsed, Nat.add_zero]
    exact h.move (hpc ▸ rfl) rfl rfl rfl rfl hsame rfl rfl
  | afterIoOp w =>
    obtain ⟨hpc, hs⟩ := Option.ite_none_right_eq_some.mp hs
    cases hs
    split
    · exact h.move (hpc ▸ rfl) rfl rfl rfl rfl rfl rfl rfl
    · exact h.move (hpc ▸ rfl) rfl rfl rfl rfl rfl rfl rfl
  | extendedStats w => exact h.extendedStatsStep hs
  | abort =>
    cases hs
    exact ⟨h.elapsed, h.accumulated, h.longest, h.pcs, h.fresh, h.pending, h.compared⟩

theorem Inv.of_reach {esp : ExtendedStats} {ok : State n → Action n → Prop}
    (hreach : Transition.Reach (OpTimes.step cfg) ok
      (OpTimes.initTargetDataBeforePass (created esp)) s) : Inv s :=
  hreach.invariant (.initTargetDataBeforePass rfl fun _ => rfl) fun _ _ _ h _ hs => h.step hs

end Steps

/-! ## Operations of one kind -/

/-- The entries of the seek list that a pass meets are of the kind of the first one, also the entry
behind the last operation that is issued. -/
def OneKind (cfg : Config) (s : State n) : Action n → Prop
  | .assign _ => cfg.seeks s.counters.currentOpNumber = cfg.seeks 0 ∧
      cfg.seeks (s.counters.currentOpNumber + 1) = cfg.seeks 0
  | _ => True

instance (cfg : Config) (s : State n) (a : Action n) : Decidable (OneKind cfg s a) :=
  match a with
  | .assign _ => inferInstanceAs (Decidable (_ ∧ _))
  | .beforePass | .ioReturns .. | .updateLocal _ | .updateTarget _ | .afterIoOp _
  | .extendedStats _ | .abort => isTrue trivial

/-- A worker that has yet to compare the shortest overall time. -/
def WorkerPc.beforeOverall : WorkerPc → Bool
  | .compare .longest .overall | .compare .shortest .overall => true
  | _ => false

/-- A worker that has found the shortest overall time too long and has yet to compare that of a
type. -/
def WorkerPc.beforeType : WorkerPc → Bool
  | .storeTime .shortest .overall | .storeNumber .shortest .overall | .testWrite .shortest
  | .testRead .shortest | .compare .shortest (.type _) => true
  | _ => false

/-- What the place of a worker tells when all operations are of one kind. -/
def WorkerData.Fits (cfg : Config) (s : State n) (data : WorkerData) : Prop :=
  match data.pc with
  | .idle => True
  | .inIo => data.taskOpType = cfg.seeks 0
  | .returned | .counted | .afterIoOp => s.completed ≠ []
  | .compare .shortest (.type opType) => s.unaborted = true ∧ opType = cfg.seeks 0
  | .testRead .shortest => s.unaborted = true ∧ cfg.seeks 0 ≠ .write
  | _ => s.unaborted = true

/-- The operations of a pass are of one kind, and the shortest times that have been compared are
the overall one and that of this kind. -/
structure Kinds (cfg : Config) (s : State n) : Prop where
  entry : cfg.seeks s.counters.currentOpNumber = cfg.seeks 0
  fits : ∀ w, (s.worker w).Fits cfg s
  completed : ∀ op ∈ s.completed, op.opType = cfg.seeks 0
  unaborted : s.unaborted = true → s.completed ≠ []
  compared : ∀ scope, s.compared scope = true → s.unaborted = true ∧
    ∀ opType, scope = .type opType → opType = cfg.seeks 0
  overall : cfg.extendedStats = true → s.unaborted = true →
    (∃ w, (s.worker w).pc.beforeOverall = true) ∨ s.compared .overall = true
  type : s.compared .overall = true →
    (∃ w, (s.worker w).pc.beforeType = true) ∨ s.compared (.type (cfg.seeks 0)) = true

section Kinds

variable {cfg : Config} {s s' : State n} {w : Fin n} {data : WorkerData}

theorem Kinds.initTargetDataBeforePass (hquiet : Quiet s) :
    Kinds cfg (initTargetDataBeforePass s) where
  entry := rfl
  fits := by
    intro w
    show (s.worker w).Fits cfg (OpTimes.initTargetDataBeforePass s)
    rw [WorkerData.Fits, hquiet w]
    trivial
  completed := fun _ hop => absurd hop List.not_mem_nil
  unaborted := fun h => absurd h Bool.false_ne_true
  compared := fun _ h => absurd h Bool.false_ne_true
  overall := fun _ h => absurd h Bool.false_ne_true
  type := fun h => absurd h Bool.false_ne_true

/-- What a worker knows stays true when operations complete. -/
theorem WorkerData.Fits.mono (h : data.Fits cfg s)
    (hcompleted : s.completed ≠ [] → s'.completed ≠ [])
    (hunaborted : s.unaborted = true → s'.unaborted = true) : data.Fits cfg s' := by
  unfold WorkerData.Fits at h ⊢
  split at h
  · trivial
  · exact h
  · exact hcompleted h
  · exact hcompleted h
  · exact hcompleted h
  · exact ⟨hunaborted h.1, h.2⟩
  · exact ⟨hunaborted h.1, h.2⟩
  · exact hunaborted h

/-- One of the workers is still at a place when another moves, or the one that moves stays. -/
theorem exists_worker_update {P : WorkerPc → Bool} (h : ∃ v, P (s.worker v).pc = true)
    (hkeep : P (s.worker w).pc = true → P data.pc = true) :
    ∃ v, P (Function.update s.worker w data v).pc = true := by
  obtain ⟨v, hv⟩ := h
  refine ⟨v, ?_⟩
  by_cases hvw : v = w
  · subst hvw
    rw [Function.update_self]
    exact hkeep hv
  · rw [Function.update_of_ne hvw]
    exact hv

theorem fits_update (h : ∀ v, (s.worker v).Fits cfg s)
    (hworker : s'.worker = Function.update s.worker w data) (hfits : data.Fits cfg s')
    (hcompleted : s.completed ≠ [] → s'.completed ≠ [])
    (hunaborted : s.unaborted = true → s'.unaborted = true) (v : Fin n) :
    (s'.worker v).Fits cfg s' := by
  rw [hworker]
  by_cases hvw : v = w
  · subst hvw
    rw [Function.update_self]
    exact hfits
  · rw [Function.update_of_ne hvw]
    exact (h v).mono hcompleted hunaborted

/-- A worker goes on and the record stays. -/
theorem Kinds.move (h : Kinds cfg s) (hworker : s'.worker = Function.update s.worker w data)
    (hfits : data.Fits cfg s')
    (hentry : cfg.seeks s'.counters.currentOpNumber = cfg.seeks 0)
    (hcompleted : s'.completed = s.completed) (hunaborted : s'.unaborted = s.unaborted)
    (hcompared : s'.compared = s.compared)
    (hoverall : (s.worker w).pc.beforeOverall = true → data.pc.beforeOverall = true)
    (htype : (s.worker w).pc.beforeType = true → data.pc.beforeType = true) : Kinds cfg s' where
  entry := hentry
  fits := fits_update h.fits hworker hfits (hcompleted ▸ id) (hunaborted ▸ id)
  completed := hcompleted ▸ h.completed
  unaborted := by
    rw [hunaborted, hcompleted]
    exact h.unaborted
  compared := by
    rw [hunaborted, hcompared]
    exact h.compared
  overall := by
    rw [hunaborted, hcompared, hworker]
    intro hextended hfound
    exact (h.overall hextended hfound).imp_left fun hex => exists_worker_update hex hoverall
  type := by
    rw [hcompared, hworker]
    intro hdone
    exact (h.type hdone).imp_left fun hex => exists_worker_update hex htype

/-- An I/O returns. -/
theorem Kinds.complete (h : Kinds cfg s) (hpc : (s.worker w).pc = .inIo)
    (hdata : data.pc = .returned) {op : Op} (hop : op.opType = (s.worker w).taskOpType) :
    Kinds cfg { setWorker s w data with completed := s.completed ++ [op] } where
  entry := h.entry
  fits := by
    refine fits_update (w := w) h.fits rfl ?_ (fun _ => ?_) id
    · rw [WorkerData.Fits, hdata]
      exact List.concat_ne_nil op s.completed
    · exact List.concat_ne_nil op s.completed
  completed := by
    intro op' hop'
    obtain hold | hnew := List.mem_append.mp hop'
    · exact h.completed op' hold
    · have hfits := h.fits w
      rw [WorkerData.Fits, hpc] at hfits
      rw [List.mem_singleton.mp hnew, hop, hfits]
  unaborted := fun _ => List.concat_ne_nil op s.completed
  compared := h.compared
  overall := by
    intro hextended hfound
    refine (h.overall hextended hfound).imp_left fun hex => exists_worker_update hex ?_
    rw [hpc]
    exact fun hbefore => absurd hbefore Bool.false_ne_true
  type := by
    intro hdone
    refine (h.type hdone).imp_left fun hex => exists_worker_update hex ?_
    rw [hpc]
    exact fun hbefore => absurd hbefore Bool.false_ne_true

/-- The tasks after an operation find the target not aborted. -/
theorem Kinds.examine (h : Kinds cfg s) (hpc : (s.worker w).pc = .afterIoOp) {pc : WorkerPc}
    (hnext : cfg.extendedStats = true ∧ pc = .compare .longest .overall ∨
      cfg.extendedStats = false ∧ pc = .idle) :
    Kinds cfg (setPc { s with unaborted := true } w pc) where
  entry := h.entry
  fits := by
    refine fits_update (s := s) (w := w) h.fits rfl ?_ id fun _ => rfl
    obtain ⟨_, rfl⟩ | ⟨_, rfl⟩ := hnext
    · rfl
    · trivial
  completed := h.completed
  unaborted := by
    intro _
    have hfits := h.fits w
    rw [WorkerData.Fits, hpc] at hfits
    exact hfits
  compared := fun scope hdone => ⟨rfl, (h.compared scope hdone).2⟩
  overall := by
    intro hextended _
    obtain ⟨_, rfl⟩ | ⟨hoff, _⟩ := hnext
    · refine .inl ⟨w, ?_⟩
      rw [setPc_self]
      rfl
    · rw [hoff] at hextended
      cases hextended
  type := by
    intro hdone
    refine (h.type hdone).imp_left fun hex => exists_worker_update hex ?_
    rw [hpc]
    exact fun hbefore => absurd hbefore Bool.false_ne_true

/-- A comparison of the shortest time of a scope. Only the first one can find it too long, or one
that comes before that of another worker is stored. -/
theorem Kinds.compareShortest (h : Kinds cfg s) (hinv : Inv s) {scope : Scope}
    (hpc : (s.worker w).pc = .compare .shortest scope) {pc : WorkerPc}
    (hnext : pc = if 0 < s.esp.time .shortest scope then .storeTime .shortest scope else .idle) :
    Kinds cfg (setPc { s with compared := Function.update s.compared scope true } w pc) := by
  have hfits := h.fits w
  rw [WorkerData.Fits, hpc] at hfits
  have hfound : s.unaborted = true := by
    cases scope with
    | overall => exact hfits
    | type opType => exact hfits.1
  have hdone : ∀ {scope'}, Function.update s.compared scope true scope' = true →
      scope' = scope ∨ s.compared scope' = true := by
    intro scope' hdone
    by_cases hscope : scope' = scope
    · exact .inl hscope
    · rw [Function.update_of_ne hscope] at hdone
      exact .inr hdone
  have hkept : ∀ {scope'}, s.compared scope' = true →
      Function.update s.compared scope true scope' = true := by
    intro scope' hold
    by_cases hscope : scope' = scope
    · rw [hscope, Function.update_self]
    · rw [Function.update_of_ne hscope, hold]
  constructor
  · exact h.entry
  · refine fits_update (s := s) (w := w) h.fits rfl ?_ id id
    rw [hnext]
    split
    · exact hfound
    · trivial
  · exact h.completed
  · exact h.unaborted
  · intro scope' hscope'
    obtain rfl | hold := hdone hscope'
    · refine ⟨hfound, ?_⟩
      rintro opType rfl
      exact hfits.2
    · exact h.compared scope' hold
  · intro hextended _
    cases scope with
    | overall =>
      have hself : Function.update s.compared .overall true .overall = true :=
        Function.update_self ..
      exact .inr hself
    | type opType =>
      refine (h.overall hextended hfound).imp (fun hex => exists_worker_update hex ?_) hkept
      rw [hpc]
      exact fun hbefore => absurd hbefore Bool.false_ne_true
  · intro hoverall
    cases scope with
    | type opType =>
      obtain ⟨_, rfl⟩ := hfits
      right
      exact Function.update_self ..
    | overall =>
      by_cases hpositive : 0 < s.esp.time .shortest .overall
      · rw [if_pos hpositive] at hnext
        refine .inl ⟨w, ?_⟩
        rw [setPc_self, hnext]
        rfl
      · have hbefore : s.compared .overall = true := by
          by_contra hfresh
          rw [hinv.fresh .overall rfl (Bool.eq_false_iff.mpr hfresh)] at hpositive
          exact hpositive (by decide)
        refine (h.type hbefore).imp (fun hex => exists_worker_update hex ?_) hkept
        rw [hpc]
        exact fun hbefore => absurd hbefore Bool.false_ne_true

theorem Kinds.extendedStatsStep (h : Kinds cfg s) (hinv : Inv s)
    (hs : extendedStatsStep cfg s w = some s') : Kinds cfg s' := by
  have honly := hinv.pcs w
  have hfits := h.fits w
  rw [WorkerData.Fits] at hfits
  rw [OpTimes.extendedStatsStep, hinv.elapsed] at hs
  cases hpc : (s.worker w).pc with
  | compare extreme scope =>
    rw [hpc] at hs honly hfits
    cases extreme with
    | longest =>
      cases scope with
      | overall =>
        dsimp only [Extreme.replaces] at hs
        rw [hinv.longest .overall rfl] at hs
        cases hs
        exact h.move rfl hfits h.entry rfl rfl rfl (fun _ => rfl) (hpc ▸ nofun)
      | type opType => cases honly
    | shortest =>
      cases hs
      refine h.compareShortest hinv hpc ?_
      simp [Extreme.replaces, afterExtreme]
  | storeTime extreme scope =>
    rw [hpc] at hs honly hfits
    cases extreme with
    | longest => cases honly
    | shortest =>
      cases hs
      refine h.move rfl hfits h.entry rfl rfl rfl (hpc ▸ nofun) ?_
      rw [hpc]
      cases scope with
      | overall => exact fun _ => rfl
      | type opType => exact nofun
  | storeNumber extreme scope =>
    rw [hpc] at hs honly hfits
    cases extreme with
    | longest => cases honly
    | shortest =>
      cases hs
      cases scope with
      | overall => exact h.move rfl hfits h.entry rfl rfl rfl (hpc ▸ nofun) fun _ => rfl
      | type opType => exact h.move rfl trivial h.entry rfl rfl rfl (hpc ▸ nofun) (hpc ▸ nofun)
  | testWrite extreme =>
    rw [hpc] at hs honly hfits
    cases extreme with
    | longest => cases honly
    | shortest =>
      cases hs
      rw [h.entry]
      split
      · next hwrite =>
        exact h.move rfl ⟨hfits, hwrite.symm⟩ h.entry rfl rfl rfl (hpc ▸ nofun) fun _ => rfl
      · next hwrite =>
        exact h.move rfl ⟨hfits, hwrite⟩ h.entry rfl rfl rfl (hpc ▸ nofun) fun _ => rfl
  | testRead extreme =>
    rw [hpc] at hs honly hfits
    cases extreme with
    | longest => cases honly
    | shortest =>
      cases hs
      rw [h.entry]
      split
      · next hread =>
        exact h.move rfl ⟨hfits.1, hread.symm⟩ h.entry rfl rfl rfl (hpc ▸ nofun) fun _ => rfl
      · next hread =>
        -- neither a write nor a read
        have hnoop : OpType.noop = cfg.seeks 0 := by
          cases hkind : cfg.seeks 0 with
          | read => exact absurd hkind hread
          | write => exact absurd hkind hfits.2
          | noop => rfl
        exact h.move rfl ⟨hfits.1, hnoop⟩ h.entry rfl rfl rfl (hpc ▸ nofun) fun _ => rfl
  | idle | inIo | returned | counted | afterIoOp =>
    rw [hpc] at hs
    cases hs

theorem Kinds.step (h : Kinds cfg s) (hinv : Inv s) {a : Action n} (hok : OneKind cfg s a)
    (hs : step cfg s a = some s') : Kinds cfg s' := by
  cases a with
  | beforePass =>
    obtain ⟨hquiet, hs⟩ := Option.ite_none_right_eq_some.mp hs
    cases hs
    exact .initTargetDataBeforePass hquiet
  | assign w =>
    obtain ⟨hpc, hs⟩ := Option.ite_none_right_eq_some.mp hs
    cases hs
    exact h.move rfl h.entry hok.2 rfl rfl rfl (hpc ▸ nofun) (hpc ▸ nofun)
  | ioReturns w startTime endTime statusGood =>
    obtain ⟨hpc, hs⟩ := Option.ite_none_right_eq_some.mp hs
    cases hs
    exact h.complete hpc rfl rfl
  | updateLocal w =>
    obtain ⟨hpc, hs⟩ := Option.ite_none_right_eq_some.mp hs
    have hfits := h.fits w
    rw [WorkerData.Fits, hpc] at hfits
    cases hs
    exact h.move rfl hfits h.entry rfl rfl rfl (hpc ▸ nofun) (hpc ▸ nofun)
  | updateTarget w =>
    obtain ⟨hpc, hs⟩ := Option.ite_none_right_eq_some.mp hs
    have hfits := h.fits w
    rw [WorkerData.Fits, hpc] at hfits
    cases hs
    exact h.move rfl hfits h.entry rfl rfl rfl (hpc ▸ nofun) (hpc ▸ nofun)
  | afterIoOp w =>
    obtain ⟨hpc, hs⟩ := Option.ite_none_right_eq_some.mp hs
    cases hs
    by_cases habort : s.abort = true
    · have hfound : (s.unaborted || !s.abort) = s.unaborted := by
        simp [habort]
      rw [hfound, if_pos (by simp [habort])]
      exact h.move rfl trivial h.entry rfl rfl rfl (hpc ▸ nofun) (hpc ▸ nofun)
    · have hfound : (s.unaborted || !s.abort) = true := by
        simp [habort]
      rw [hfound]
      refine h.examine hpc ?_
      cases hextended : cfg.extendedStats with
      | true => exact .inl ⟨rfl, if_neg (by simp [habort])⟩
      | false => exact .inr ⟨rfl, if_pos (by simp)⟩
  | extendedStats w => exact h.extendedStatsStep hinv hs
  | abort =>
    cases hs
    exact ⟨h.entry, h.fits, h.completed, h.unaborted, h.compared, h.overall, h.type⟩

theorem Kinds.of_reach {esp : ExtendedStats}
    (hreach : Transition.Reach (OpTimes.step cfg) (OneKind cfg)
      (OpTimes.initTargetDataBeforePass (created esp)) s) : Kinds cfg s := by
  have hinv : Inv s ∧ Kinds cfg s := by
    induction hreach with
    | init => exact ⟨.initTargetDataBeforePass rfl fun _ => rfl,
        .initTargetDataBeforePass fun _ => rfl⟩
    | step _ hok hs ih => exact ⟨ih.1.step hs, ih.2.step ih.1 hok hs⟩
  exact hinv.2

/-- When no worker is busy, the shortest times that have been compared are those of the scopes that
have operations, if some operation came before an abort. -/
theorem Kinds.compared_iff (h : Kinds cfg s) (hquiet : Quiet s)
    (hextended : cfg.extendedStats = true) :
    (∀ scope, scope.reported = true →
      (s.compared scope = true ↔ ∃ op ∈ s.completed, op.inScope scope = true)) ↔
    (s.completed ≠ [] → s.unaborted = true) := by
  constructor
  · intro hscopes hne
    obtain ⟨op, hop⟩ := List.exists_mem_of_ne_nil _ hne
    have hoverall := (hscopes .overall rfl).mpr ⟨op, hop, rfl⟩
    exact (h.compared .overall hoverall).1
  · intro hfound scope _
    constructor
    · intro hdone
      obtain ⟨hexamined, hkind⟩ := h.compared scope hdone
      obtain ⟨op, hop⟩ := List.exists_mem_of_ne_nil _ (h.unaborted hexamined)
      refine ⟨op, hop, ?_⟩
      cases scope with
      | overall => rfl
      | type opType =>
        rw [Op.inScope, h.completed op hop, hkind opType rfl]
        exact beq_self_eq_true _
    · rintro ⟨op, hop, hscope⟩
      have hoverall : s.compared .overall = true := by
        refine (h.overall hextended (hfound (List.ne_nil_of_mem hop))).resolve_left ?_
        rintro ⟨w, hw⟩
        rw [hquiet w] at hw
        cases hw
      have htype : s.compared (.type (cfg.seeks 0)) = true := by
        refine (h.type hoverall).resolve_left ?_
        rintro ⟨w, hw⟩
        rw [hquiet w] at hw
        cases hw
      cases scope with
      | overall => exact hoverall
      | type opType =>
        rw [Op.inScope, beq_iff_eq, h.completed op hop] at hscope
        rwa [hscope] at htype

end Kinds

/-! ## When they are right -/

theorem mem_timesOf {s : State n} {scope : Scope} {time : Nat} :
    time ∈ timesOf s scope ↔
      ∃ op ∈ s.completed, op.inScope scope = true ∧ op.elapsedTime = time := by
  rw [timesOf, List.mem_map]
  constructor
  · rintro ⟨op, hop, htime⟩
    obtain ⟨hmem, hscope⟩ := List.mem_filter.mp hop
    exact ⟨op, hmem, hscope, htime⟩
  · rintro ⟨op, hmem, hscope, htime⟩
    exact ⟨op, List.mem_filter.mpr ⟨hmem, hscope⟩, htime⟩

/-- The extrema of operations that took no time. -/
theorem among_of_zero {times : List Nat} (hzero : ∀ time ∈ times, time = 0) :
    Extreme.longest.among times = 0 ∧
      (Extreme.shortest.among times = 0 ↔ times ≠ []) ∧
      (Extreme.shortest.among times = NCLK_MAX ↔ times = []) := by
  cases times with
  | nil => exact ⟨rfl, by decide, by decide⟩
  | cons time times =>
    have htime : time = 0 := hzero time List.mem_cons_self
    have hmin : Extreme.shortest.among (time :: times) = 0 := by
      rw [Extreme.among, List.min_eq_iff]
      exact ⟨htime ▸ List.mem_cons_of_mem _ List.mem_cons_self, fun _ _ => Nat.zero_le _⟩
    refine ⟨?_, iff_of_true hmin (List.cons_ne_nil _ _), ?_⟩
    · rw [Extreme.among, List.max_eq_iff]
      refine ⟨List.mem_cons_self, ?_⟩
      intro t ht
      obtain rfl | ht := List.mem_cons.mp ht
      · exact le_rfl
      · exact (hzero t ht).le
    · rw [hmin]
      exact iff_of_false (by decide) (List.cons_ne_nil _ _)

theorem Inv.accumulated_iff {s : State n} (h : Inv s) :
    s.counters.accumulatedOpTime = (s.completed.map Op.elapsedTime).sum ↔
      ∀ op ∈ s.completed, op.elapsedTime = 0 := by
  rw [h.accumulated, eq_comm, List.sum_eq_zero_iff_forall_eq_nat]
  exact List.forall_mem_map

/-- When no worker is busy the statistics are right if no operation took any time and the shortest
times have been looked at of just the scopes that have operations. -/
theorem Inv.timesExact_iff {cfg : Config} {s : State n} (h : Inv s) (hquiet : Quiet s) :
    TimesExact cfg s ↔ (∀ op ∈ s.completed, op.elapsedTime = 0) ∧
      (cfg.extendedStats = true → ∀ scope, scope.reported = true →
        (s.compared scope = true ↔ ∃ op ∈ s.completed, op.inScope scope = true)) := by
  have hzero := h.accumulated_iff
  have hshortest : ∀ scope, scope.reported = true →
      s.esp.time .shortest scope = if s.compared scope = true then 0 else NCLK_MAX := by
    intro scope hscope
    split
    · next hcompared =>
      obtain htime | ⟨w, hw⟩ := h.compared scope hscope hcompared
      · exact htime
      · rw [hquiet w] at hw
        cases hw
    · next hfresh => exact h.fresh scope hscope (Bool.eq_false_iff.mpr hfresh)
  have hscopes : (∀ op ∈ s.completed, op.elapsedTime = 0) → ∀ scope, scope.reported = true →
      (s.esp.time .shortest scope = Extreme.shortest.among (timesOf s scope) ↔
        (s.compared scope = true ↔ ∃ op ∈ s.completed, op.inScope scope = true)) := by
    intro hops scope hscope
    have htimes : ∀ time ∈ timesOf s scope, time = 0 := by
      intro time htime
      obtain ⟨op, hop, _, rfl⟩ := mem_timesOf.mp htime
      exact hops op hop
    obtain ⟨_, hmin, hmax⟩ := among_of_zero htimes
    have hsome : timesOf s scope ≠ [] ↔ ∃ op ∈ s.completed, op.inScope scope = true := by
      constructor
      · intro hne
        obtain ⟨time, htime⟩ := List.exists_mem_of_ne_nil _ hne
        obtain ⟨op, hop, hin, _⟩ := mem_timesOf.mp htime
        exact ⟨op, hop, hin⟩
      · rintro ⟨op, hop, hin⟩
        exact List.ne_nil_of_mem (mem_timesOf.mpr ⟨op, hop, hin, rfl⟩)
    rw [hshortest scope hscope, ← hsome]
    split
    · next hcompared => rw [eq_comm, hmin, iff_true_left hcompared]
    · next hfresh => rw [eq_comm, hmax, iff_false_left hfresh, not_not]
  constructor
  · intro hexact
    have hops := hzero.mp hexact.accumulated
    refine ⟨hops, ?_⟩
    intro hextended scope hscope
    exact (hscopes hops scope hscope).mp (hexact.extended hextended .shortest scope hscope)
  · rintro ⟨hops, hcompared⟩
    refine ⟨hzero.mpr hops, ?_⟩
    intro hextended extreme scope hscope
    cases extreme with
    | longest =>
      rw [h.longest scope hscope]
      symm
      apply (among_of_zero _).1
      intro time htime
      obtain ⟨op, hop, _, rfl⟩ := mem_timesOf.mp htime
      exact hops op hop
    | shortest => exact (hscopes hops scope hscope).mpr (hcompared hextended scope hscope)

/-! ## Combined results -/

/-- The operation times of `results_t`. -/
structure ResultTimes where
  longestOpTime : Int
  longestReadOpTime : Int
  longestWriteOpTime : Int
  shortestOpTime : Int
  shortestReadOpTime : Int
  shortestWriteOpTime : Int
deriving DecidableEq, Repr

/-- The operation times in `xdd_combine_results`. Only the first comparison is with the field of
its own name. -/
def combineTimes (dest source : ResultTimes) : ResultTimes where
  longestOpTime :=
    if dest.longestOpTime < source.longestOpTime then source.longestOpTime
    else dest.longestOpTime
  longestReadOpTime :=
    if dest.longestReadOpTime < source.longestOpTime then source.longestOpTime
    else dest.longestReadOpTime
  longestWriteOpTime :=
    if dest.longestWriteOpTime < source.longestOpTime then source.longestOpTime
    else dest.longestWriteOpTime
  shortestOpTime :=
    if dest.shortestOpTime > source.longestOpTime then source.longestOpTime
    else dest.shortestOpTime
  shortestReadOpTime :=
    if dest.shortestReadOpTime > source.longestOpTime then source.longestOpTime
    else dest.shortestReadOpTime
  shortestWriteOpTime :=
    if dest.shortestWriteOpTime > source.longestOpTime then source.longestOpTime
    else dest.shortestWriteOpTime

/-- The maximum of a field of the results that are combined, and of what was there before. -/
def maximum (field : ResultTimes → Int) (dest : ResultTimes) (sources : List ResultTimes) : Int :=
  (field dest :: sources.map field).max (List.cons_ne_nil _ _)

def minimum (field : ResultTimes → Int) (dest : ResultTimes) (sources : List ResultTimes) : Int :=
  (field dest :: sources.map field).min (List.cons_ne_nil _ _)

/-- The combined times are the maxima and minima of the fields of their names. -/
structure CombinedExact (dest : ResultTimes) (sources : List ResultTimes)
    (combined : ResultTimes) : Prop where
  longestOpTime : combined.longestOpTime = maximum ResultTimes.longestOpTime dest sources
  longestReadOpTime : combined.longestReadOpTime =
    maximum ResultTimes.longestReadOpTime dest sources
  longestWriteOpTime : combined.longestWriteOpTime =
    maximum ResultTimes.longestWriteOpTime dest sources
  shortestOpTime : combined.shortestOpTime = minimum ResultTimes.shortestOpTime dest sources
  shortestReadOpTime : combined.shortestReadOpTime =
    minimum ResultTimes.shortestReadOpTime dest sources
  shortestWriteOpTime : combined.shortestWriteOpTime =
    minimum ResultTimes.shortestWriteOpTime dest sources

/-- The longest times of the sources and their times in another field do not exceed each other
and what was there before. -/
def LongestFits (field : ResultTimes → Int) (dest : ResultTimes) (sources : List ResultTimes) :
    Prop :=
  Extremum.Below (field dest) (sources.map ResultTimes.longestOpTime) (sources.map field) ∧
    Extremum.Below (field dest) (sources.map field) (sources.map ResultTimes.longestOpTime)

/-- The same downwards. -/
def ShortestFits (field : ResultTimes → Int) (dest : ResultTimes) (sources : List ResultTimes) :
    Prop :=
  Extremum.Above (field dest) (sources.map ResultTimes.longestOpTime) (sources.map field) ∧
    Extremum.Above (field dest) (sources.map field) (sources.map ResultTimes.longestOpTime)

section Combine

variable {field : ResultTimes → Int} {dest : ResultTimes} {sources : List ResultTimes}

/-- A field that is compared with the longest time is the maximum with the longest times. -/
theorem foldl_longest
    (hfield : ∀ dest source, field (combineTimes dest source) =
      if field dest < source.longestOpTime then source.longestOpTime else field dest) :
    field (sources.foldl combineTimes dest) =
      (field dest :: sources.map ResultTimes.longestOpTime).max (List.cons_ne_nil _ _) := by
  induction sources generalizing dest with
  | nil => rfl
  | cons source sources ih =>
    rw [List.foldl_cons, ih, List.map_cons, List.max_cons_cons]
    congr 2
    rw [hfield, max_def_lt]

theorem foldl_shortest
    (hfield : ∀ dest source, field (combineTimes dest source) =
      if field dest > source.longestOpTime then source.longestOpTime else field dest) :
    field (sources.foldl combineTimes dest) =
      (field dest :: sources.map ResultTimes.longestOpTime).min (List.cons_ne_nil _ _) := by
  induction sources generalizing dest with
  | nil => rfl
  | cons source sources ih =>
    rw [List.foldl_cons, ih, List.map_cons, List.min_cons_cons]
    congr 2
    rw [hfield, min_comm, min_def_lt]

end Combine

theorem combinedExact_iff (dest : ResultTimes) (sources : List ResultTimes) :
    CombinedExact dest sources (sources.foldl combineTimes dest) ↔
      LongestFits ResultTimes.longestReadOpTime dest sources ∧
      LongestFits ResultTimes.longestWriteOpTime dest sources ∧
      ShortestFits ResultTimes.shortestOpTime dest sources ∧
      ShortestFits ResultTimes.shortestReadOpTime dest sources ∧
      ShortestFits ResultTimes.shortestWriteOpTime dest sources := by
  have hlongest : ∀ {field : ResultTimes → Int},
      (∀ dest source, field (combineTimes dest source) =
        if field dest < source.longestOpTime then source.longestOpTime else field dest) →
      (field (sources.foldl combineTimes dest) = maximum field dest sources ↔
        LongestFits field dest sources) := by
    intro field hfield
    rw [foldl_longest hfield]
    exact Extremum.max_eq_max_iff
  have hshortest : ∀ {field : ResultTimes → Int},
      (∀ dest source, field (combineTimes dest source) =
        if field dest > source.longestOpTime then source.longestOpTime else field dest) →
      (field (sources.foldl combineTimes dest) = minimum field dest sources ↔
        ShortestFits field dest sources) := by
    intro field hfield
    rw [foldl_shortest hfield]
    exact Extremum.min_eq_min_iff
  constructor
  · intro hexact
    exact ⟨(hlongest fun _ _ => rfl).mp hexact.longestReadOpTime,
      (hlongest fun _ _ => rfl).mp hexact.longestWriteOpTime,
      (hshortest fun _ _ => rfl).mp hexact.shortestOpTime,
      (hshortest fun _ _ => rfl).mp hexact.shortestReadOpTime,
      (hshortest fun _ _ => rfl).mp hexact.shortestWriteOpTime⟩
  · rintro ⟨hread, hwrite, hop, hshortRead, hshortWrite⟩
    exact ⟨foldl_longest fun _ _ => rfl, (hlongest fun _ _ => rfl).mpr hread,
      (hlongest fun _ _ => rfl).mpr hwrite, (hshortest fun _ _ => rfl).mpr hop,
      (hshortest fun _ _ => rfl).mpr hshortRead, (hshortest fun _ _ => rfl).mpr hshortWrite⟩

/-- When the accumulated time of a target is right, in any pass and for any interleaving of its
workers; when all its times are, if the operations are of one kind; and when those of combined
results are. -/
theorem opTimes_iff {cfg : Config} {esp : ExtendedStats} {s : State n}
    (hreach : Transition.Reach (step cfg) Transition.anyStep
      (initTargetDataBeforePass (created esp)) s)
    (hquiet : Quiet s) (dest : ResultTimes) (sources : List ResultTimes) :
    (s.counters.accumulatedOpTime = (s.completed.map Op.elapsedTime).sum ↔
      ∀ op ∈ s.completed, op.elapsedTime = 0) ∧
    ((cfg.extendedStats = true → Transition.Reach (step cfg) (OneKind cfg)
        (initTargetDataBeforePass (created esp)) s) →
      (TimesExact cfg s ↔ (∀ op ∈ s.completed, op.elapsedTime = 0) ∧
        (cfg.extendedStats = true → s.completed ≠ [] → s.unaborted = true))) ∧
    (CombinedExact dest sources (sources.foldl combineTimes dest) ↔
      LongestFits ResultTimes.longestReadOpTime dest sources ∧
      LongestFits ResultTimes.longestWriteOpTime dest sources ∧
      ShortestFits ResultTimes.shortestOpTime dest sources ∧
      ShortestFits ResultTimes.shortestReadOpTime dest sources ∧
      ShortestFits ResultTimes.shortestWriteOpTime dest sources) := by
  have hinv := Inv.of_reach hreach
  refine ⟨hinv.accumulated_iff, ?_, combinedExact_iff dest sources⟩
  intro hkinds
  rw [hinv.timesExact_iff hquiet]
  refine and_congr_right' (forall_congr' fun hextended => ?_)
  exact (Kinds.of_reach (hkinds hextended)).compared_iff hquiet hextended

/-! ## One operation -/

/-- A seek list of reads, with `-extendedstats`. -/
def reads : Config where
  seeks := fun _ => .read
  extendedStats := true

/-- What `malloc` happens to return. -/
def zeroStats : ExtendedStats where
  time := fun _ _ => 0
  number := fun _ _ => 0

/-- A worker performs a read that takes 3 ns. -/
def oneRead : List (Action 1) :=
  let w : Fin 1 := ⟨0, Nat.zero_lt_one⟩
  [.assign w, .ioReturns w 5 8 true, .updateLocal w, .updateTarget w, .afterIoOp w] ++
    List.replicate 9 (.extendedStats w)

/-- The pass of one read. -/
theorem exists_oneRead : ∃ s : State 1, Transition.Reach (step reads) (OneKind reads)
    (initTargetDataBeforePass (created zeroStats)) s ∧
    Quiet s ∧ s.completed.map Op.elapsedTime = [3] ∧ s.counters.accumulatedOpTime = 0 ∧
      s.esp.time .longest (.type .read) = 0 ∧ s.esp.time .shortest (.type .read) = 0 :=
  Transition.exists_reach_of_run oneRead (by decide +kernel)

/-- The read shows in none of the times. A result with a long write makes the shortest time of
another one, and the longest time of its reads. -/
theorem opTimes_fail : (∃ s : State 1,
    Transition.Reach (step reads) Transition.anyStep
      (initTargetDataBeforePass (created zeroStats)) s ∧
    Quiet s ∧ s.completed.map Op.elapsedTime = [3] ∧ s.counters.accumulatedOpTime = 0 ∧
      s.esp.time .longest (.type .read) = 0 ∧ s.esp.time .shortest (.type .read) = 0 ∧
      ¬ TimesExact reads s) ∧
    combineTimes ⟨0, 0, 0, 100, 100, 100⟩ ⟨9, 4, 9, 2, 2, 5⟩ = ⟨9, 9, 9, 9, 9, 9⟩ ∧
    ¬ CombinedExact ⟨0, 0, 0, 100, 100, 100⟩ [⟨9, 4, 9, 2, 2, 5⟩]
      (combineTimes ⟨0, 0, 0, 100, 100, 100⟩ ⟨9, 4, 9, 2, 2, 5⟩) := by
  refine ⟨?_, by decide, ?_⟩
  · obtain ⟨s, hreach, hquiet, hcompleted, haccumulated, hlongest, hshortest⟩ := exists_oneRead
    refine ⟨s, hreach.mono fun _ _ _ => trivial, hquiet, hcompleted, haccumulated, hlongest,
      hshortest, ?_⟩
    intro hexact
    have hsum := hexact.accumulated
    rw [haccumulated, hcompleted] at hsum
    exact absurd hsum (by decide)
  · intro hexact
    exact absurd hexact.longestReadOpTime (by decide)

theorem opTimes_iff_oneRead : ∃ s : State 1, s.completed.map Op.elapsedTime = [3] ∧
    (TimesExact reads s ↔ (∀ op ∈ s.completed, op.elapsedTime = 0) ∧
      (reads.extendedStats = true → s.completed ≠ [] → s.unaborted = true)) := by
  obtain ⟨s, hreach, hquiet, hcompleted, _⟩ := exists_oneRead
  exact ⟨s, hcompleted, (opTimes_iff (hreach.mono fun _ _ _ => trivial) hquiet
    ⟨0, 0, 0, 0, 0, 0⟩ []).2.1 fun _ => hreach⟩

end Xdd.Results.OpTimes
