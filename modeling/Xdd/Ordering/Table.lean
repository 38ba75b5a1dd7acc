import Xdd.Library.Transition

/-!
# The Target Offset Table

With serial or loose storage ordering a worker that holds operation `N` waits on the
table entry of operation `N - 1` before its I/O and posts the entry of `N` afterwards
(with loose ordering also before). The table has `tot_entries` entries, so operations
that far apart share one.

A step of the model is one mutex section, one pass over the wait chain after a post,
or the start or end of an I/O. The target hands out operations in order to idle
workers, and a cancel or abort can be raised at any moment.
-/

namespace Xdd.Ordering

/-- `TO_ORDERING_STORAGE_SERIAL` or `TO_ORDERING_STORAGE_LOOSE`. -/
inductive StorageOrdering where
  | serial
  | loose
deriving DecidableEq, Repr

/-- Where the worker of an operation is in `xdd_worker_thread_io`. -/
inductive Phase where
  | unassigned
  /-- about to enter `xdd_worker_thread_wait_for_previous_io` -/
  | ready
  /-- asleep on the chain of a table entry -/
  | blocked
  /-- taken off the chain with `totw_is_released` set, not awake yet -/
  | released
  /-- back from the wait, about to test for cancel and abort -/
  | checking
  /-- loose ordering: about to post before the I/O -/
  | earlyPost
  /-- loose ordering: posted, about to look at the chain -/
  | earlyPop
  | starting
  | io
  /-- about to make the last post -/
  | finishing
  /-- made the last post, about to look at the chain -/
  | lastPop
  | done
deriving DecidableEq, Repr

/-- `tot_status`, `tot_op_number` and the chain at `tot_waitp`. -/
structure Entry where
  available : Bool
  opNumber : Int
  chain : List Nat
deriving DecidableEq, Repr

/-- The entries of the table, by slot. -/
abbrev Table := Nat → Entry

structure Config where
  ordering : StorageOrdering
  queueDepth : Nat
  numReqs : Nat
deriving DecidableEq, Repr

/-- The number of entries that `tot_init` allocates. -/
def totEntries (queueDepth numReqs : Nat) : Nat :=
  if queueDepth > numReqs then
    queueDepth
  else if numReqs / queueDepth > 20 * queueDepth * 1000 then
    queueDepth * 20 * 30
  else
    queueDepth * 20

def Config.entries (cfg : Config) : Nat := totEntries cfg.queueDepth cfg.numReqs

theorem Config.entries_pos {cfg : Config} (hQ : 0 < cfg.queueDepth) : 0 < cfg.entries := by
  unfold entries totEntries
  split
  · exact hQ
  · split <;> omega

/-- `stop` stands for canceled, abort and td_abort. The last two fields only record
which I/Os have started and finished. -/
structure State (cfg : Config) where
  nextOp : Nat
  worker : Fin cfg.queueDepth → Option Nat
  phase : Nat → Phase
  table : Table
  stop : Bool
  ioStarted : Nat → Bool
  ioFinished : Nat → Bool

/-- The table as `tot_init` leaves it: every entry is available. -/
def init (cfg : Config) : State cfg where
  nextOp := 0
  worker := fun _ => none
  phase := fun _ => .unassigned
  table := fun _ => { available := true, opNumber := -1, chain := [] }
  stop := false
  ioStarted := fun _ => false
  ioFinished := fun _ => false

inductive Action (cfg : Config) where
  /-- the target gives its next operation to an idle worker -/
  | assign (w : Fin cfg.queueDepth)
  /-- the worker takes its next step -/
  | advance (w : Fin cfg.queueDepth)
  /-- a cancel or abort is raised -/
  | raise

/-- The entry that operation `N` waits on. -/
def waitSlot (entries N : Nat) : Nat := if N % entries = 0 then entries - 1 else N % entries - 1

theorem waitSlot_succ {entries : Nat} (hE : 0 < entries) (N : Nat) :
    waitSlot entries (N + 1) = N % entries := by
  have hlt := Nat.mod_lt N hE
  rw [waitSlot, ← Nat.mod_add_mod]
  by_cases hlast : N % entries + 1 = entries
  · rw [hlast, Nat.mod_self, if_pos rfl]
    omega
  · rw [Nat.mod_eq_of_lt (by omega), if_neg (by omega)]
    omega

/-- Operations that share a slot are a whole table apart. -/
theorem eq_of_mod_eq {entries M N : Nat} (hmod : M % entries = N % entries) (hle : M ≤ N)
    (hlt : N < M + entries) : M = N := by
  have hdvd : entries ∣ N - M := (Nat.modEq_iff_dvd' hle).mp hmod
  have := Nat.eq_zero_of_dvd_of_lt hdvd (by omega)
  omega

namespace Table

variable (t : Table) (entries slot N i : Nat)

/-- Both ways out of the wait mark the entry unavailable. -/
def consume : Table := Function.update t slot { t slot with available := false }

/-- Join the end of the chain of the entry. -/
def enqueue : Table := Function.update t slot { t slot with chain := (t slot).chain ++ [N] }

/-- The mutex section of `xdd_worker_thread_release_next_io`. -/
def post : Table :=
  Function.update t (N % entries) { t (N % entries) with available := true, opNumber := N }

/-- The rest of it, after the mutex is unlocked: the first waiter, if any, is taken off. -/
def pop : Table :=
  Function.update t (N % entries) { t (N % entries) with chain := (t (N % entries)).chain.tail }

/-- The waiter that `pop` takes off. -/
def waiter : Option Nat := (t (N % entries)).chain.head?

@[simp] theorem consume_apply : t.consume slot i =
    if i = slot then { t slot with available := false } else t i := by
  simp [consume, Function.update_apply]

@[simp] theorem enqueue_apply : t.enqueue slot N i =
    if i = slot then { t slot with chain := (t slot).chain ++ [N] } else t i := by
  simp [enqueue, Function.update_apply]

@[simp] theorem post_apply : t.post entries N i =
    if i = N % entries then { t (N % entries) with available := true, opNumber := N }
    else t i := by
  simp [post, Function.update_apply]

@[simp] theorem pop_apply : t.pop entries N i =
    if i = N % entries then
      { t (N % entries) with chain := (t (N % entries)).chain.tail }
    else t i := by
  simp [pop, Function.update_apply]

/-! Only joining and leaving touch a chain. -/

theorem consume_chain : (t.consume slot i).chain = (t i).chain := by
  rw [consume_apply]
  split
  · rename_i hi
    rw [hi]
  · rfl

theorem post_chain : (t.post entries N i).chain = (t i).chain := by
  rw [post_apply]
  split
  · rename_i hi
    rw [hi]
  · rfl

end Table

/-- Set `totw_is_released` of a waiter that was taken off its chain. -/
def release (phase : Nat → Phase) : Option Nat → Nat → Phase
  | none => phase
  | some M => Function.update phase M .released

@[simp] theorem release_apply (phase : Nat → Phase) (waiter : Option Nat) (M : Nat) :
    release phase waiter M = if waiter = some M then .released else phase M := by
  cases waiter <;> simp [release, Function.update_apply, eq_comm]

/-- The next step of the worker `w` that holds operation `N`. -/
def advance (cfg : Config) (s : State cfg) (w : Fin cfg.queueDepth) (N : Nat) :
    Option (State cfg) :=
  let goto (p : Phase) : Nat → Phase := Function.update s.phase N p
  match s.phase N with
  | .ready =>
    if N = 0 then
      some { s with phase := goto .checking }
    else if (s.table (waitSlot cfg.entries N)).available then
      some { s with
        table := s.table.consume (waitSlot cfg.entries N), phase := goto .checking }
    else
      some { s with
        table := s.table.enqueue (waitSlot cfg.entries N) N, phase := goto .blocked }
  | .released =>
    some { s with table := s.table.consume (waitSlot cfg.entries N), phase := goto .checking }
  | .checking =>
    if s.stop then
      some { s with phase := goto .finishing }
    else
      match cfg.ordering with
      | .serial => some { s with phase := goto .starting }
      | .loose => some { s with phase := goto .earlyPost }
  | .earlyPost => some { s with table := s.table.post cfg.entries N, phase := goto .earlyPop }
  | .earlyPop =>
    some { s with
      table := s.table.pop cfg.entries N
      phase := release (goto .starting) (s.table.waiter cfg.entries N) }
  | .starting =>
    some { s with phase := goto .io, ioStarted := Function.update s.ioStarted N true }
  | .io =>
    some { s with phase := goto .finishing, ioFinished := Function.update s.ioFinished N true }
  | .finishing => some { s with table := s.table.post cfg.entries N, phase := goto .lastPop }
  | .lastPop =>
    some { s with
      table := s.table.pop cfg.entries N
      phase := release (goto .done) (s.table.waiter cfg.entries N)
      worker := Function.update s.worker w none }
  | .unassigned | .blocked | .done => none

/-- One atomic step of the system. -/
def step (cfg : Config) (s : State cfg) : Action cfg → Option (State cfg)
  | .assign w =>
    if s.nextOp < cfg.numReqs ∧ s.worker w = none then
      some { s with
        nextOp := s.nextOp + 1
        phase := Function.update s.phase s.nextOp .ready
        worker := Function.update s.worker w (some s.nextOp) }
    else
      none
  | .advance w => (s.worker w).bind (advance cfg s w)
  | .raise => some { s with stop := true }

/-! ## What a step can do -/

section Inversion

variable {cfg : Config} {s s' : State cfg} {w : Fin cfg.queueDepth} {N : Nat}

/-- The steps of a worker, one constructor for each branch of `advance`. -/
inductive Advance (cfg : Config) (s : State cfg) (w : Fin cfg.queueDepth) (N : Nat) :
    State cfg → Prop where
  | first : s.phase N = .ready → N = 0 →
      Advance cfg s w N { s with phase := Function.update s.phase N .checking }
  | pass : s.phase N = .ready → N ≠ 0 → (s.table (waitSlot cfg.entries N)).available = true →
      Advance cfg s w N { s with
        table := s.table.consume (waitSlot cfg.entries N)
        phase := Function.update s.phase N .checking }
  | block : s.phase N = .ready → N ≠ 0 → (s.table (waitSlot cfg.entries N)).available = false →
      Advance cfg s w N { s with
        table := s.table.enqueue (waitSlot cfg.entries N) N
        phase := Function.update s.phase N .blocked }
  | wake : s.phase N = .released →
      Advance cfg s w N { s with
        table := s.table.consume (waitSlot cfg.entries N)
        phase := Function.update s.phase N .checking }
  | quit : s.phase N = .checking → s.stop = true →
      Advance cfg s w N { s with phase := Function.update s.phase N .finishing }
  | goSerial : s.phase N = .checking → s.stop = false → cfg.ordering = .serial →
      Advance cfg s w N { s with phase := Function.update s.phase N .starting }
  | goLoose : s.phase N = .checking → s.stop = false → cfg.ordering = .loose →
      Advance cfg s w N { s with phase := Function.update s.phase N .earlyPost }
  | earlyPost : s.phase N = .earlyPost →
      Advance cfg s w N { s with
        table := s.table.post cfg.entries N
        phase := Function.update s.phase N .earlyPop }
  | earlyPop : s.phase N = .earlyPop →
      Advance cfg s w N { s with
        table := s.table.pop cfg.entries N
        phase := release (Function.update s.phase N .starting) (s.table.waiter cfg.entries N) }
  | start : s.phase N = .starting →
      Advance cfg s w N { s with
        phase := Function.update s.phase N .io
        ioStarted := Function.update s.ioStarted N true }
  | finish : s.phase N = .io →
      Advance cfg s w N { s with
        phase := Function.update s.phase N .finishing
        ioFinished := Function.update s.ioFinished N true }
  | lastPost : s.phase N = .finishing →
      Advance cfg s w N { s with
        table := s.table.post cfg.entries N
        phase := Function.update s.phase N .lastPop }
  | lastPop : s.phase N = .lastPop →
      Advance cfg s w N { s with
        table := s.table.pop cfg.entries N
        phase := release (Function.update s.phase N .done) (s.table.waiter cfg.entries N)
        worker := Function.update s.worker w none }

theorem Advance.of_eq_some (h : advance cfg s w N = some s') : Advance cfg s w N s' := by
  cases hp : s.phase N <;> simp only [advance, hp, reduceCtorEq, Option.some.injEq] at h
  case ready =>
    split at h
    · cases h
      exact .first hp ‹_›
    · split at h <;> cases h
      · exact .pass hp ‹_› ‹_›
      · exact .block hp ‹_› (Bool.eq_false_iff.mpr ‹_›)
  case checking =>
    split at h
    · cases h
      exact .quit hp ‹_›
    · have hstop : s.stop = false := Bool.eq_false_iff.mpr ‹_›
      cases hord : cfg.ordering <;> simp only [hord, Option.some.injEq] at h <;> cases h
      · exact .goSerial hp hstop hord
      · exact .goLoose hp hstop hord
  all_goals cases h
  · exact .wake hp
  · exact .earlyPost hp
  · exact .earlyPop hp
  · exact .start hp
  · exact .finish hp
  · exact .lastPost hp
  · exact .lastPop hp

theorem step_assign (h : step cfg s (.assign w) = some s') :
    s.nextOp < cfg.numReqs ∧ s.worker w = none ∧
      s' = { s with
        nextOp := s.nextOp + 1
        phase := Function.update s.phase s.nextOp .ready
        worker := Function.update s.worker w (some s.nextOp) } := by
  simp only [step] at h
  split at h
  · rename_i hassign
    cases h
    exact ⟨hassign.1, hassign.2, rfl⟩
  · cases h

theorem step_advance (h : step cfg s (.advance w) = some s') :
    ∃ N, s.worker w = some N ∧ Advance cfg s w N s' := by
  obtain ⟨N, hworker, hadvance⟩ := Option.bind_eq_some_iff.mp h
  exact ⟨N, hworker, .of_eq_some hadvance⟩

end Inversion

end Xdd.Ordering
