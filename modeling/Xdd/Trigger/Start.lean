import Xdd.Library.Transition

/-!
# Start triggers

With `-starttrigger t1 t2` target `t2` waits before its first operation of a pass in a barrier
for two, and target `t1` enters this barrier once it has come far enough. It looks at how far
it has come before each of its operations. The trigger structure of a target is allocated by the
first option that names the target in the first place, and it is not cleared. It has room for one
target to trigger, that of the last option of `t1`.

The model follows the two targets of an option. The other targets are part of the environment, and
so is the clock: the one that `t1` may have to wait for, the one that `t1` triggers if a later
option has replaced `t2`, and those that trigger `t2` as well.
-/

namespace Xdd.Trigger

/-! ## The options -/

/-- When to trigger, with the values that are accepted. -/
inductive When where
  | time (nanoseconds : Nat) (pos : 0 < nanoseconds)
  | op (number : Nat) (pos : 0 < number)
  | percent
  | bytes (number : Nat)

/-- `xint_triggers_t` as far as it is read. The flags are the bits of `trigger_types`. -/
structure Triggers where
  time : Bool
  op : Bool
  percent : Bool
  bytes : Bool
  /-- a bit that has no meaning -/
  other : Bool
  startTriggerTime : Nat
  startTriggerOp : Nat
  startTriggerBytes : Nat
  startTriggerTarget : Int
deriving DecidableEq

/-- `trigger_types` is not 0. -/
def Triggers.any (trigp : Triggers) : Bool :=
  trigp.time || trigp.op || trigp.percent || trigp.bytes || trigp.other

inductive TriggerOption (targets : Nat) where
  | starttrigger (t1 t2 : Fin targets) (when : When)
  | stoptrigger (t1 t2 : Fin targets)

/-- The target that does the triggering. -/
def TriggerOption.first {targets : Nat} : TriggerOption targets → Fin targets
  | .starttrigger t1 _ _ | .stoptrigger t1 _ => t1

/-- `td_trigp` and `TO_WAITFORSTART` of each target. -/
structure Parsed (targets : Nat) where
  trigp : Fin targets → Option Triggers
  waitForStart : Fin targets → Bool

namespace Parsed

variable {targets : Nat}

/-- `xdd_get_trigp`; `malloc` is what the memory holds that a target is given. -/
def getTrigp (p : Parsed targets) (malloc : Fin targets → Triggers) (t : Fin targets) : Triggers :=
  (p.trigp t).getD (malloc t)

def xddfuncStarttrigger (p : Parsed targets) (malloc : Fin targets → Triggers)
    (t1 t2 : Fin targets) (when : When) : Parsed targets :=
  let trigp := { p.getTrigp malloc t1 with startTriggerTarget := t2 }
  let trigp :=
    match when with
    | .time nanoseconds _ => { trigp with startTriggerTime := nanoseconds, time := true }
    | .op number _ => { trigp with startTriggerOp := number, op := true }
    | .percent => { trigp with percent := true }
    | .bytes number => { trigp with startTriggerBytes := number, bytes := true }
  { trigp := Function.update p.trigp t1 (some trigp)
    waitForStart := Function.update p.waitForStart t2 true }

/-- The values that `xddfunc_stoptrigger` stores are not read anywhere. -/
def xddfuncStoptrigger (p : Parsed targets) (malloc : Fin targets → Triggers) (t1 : Fin targets) :
    Parsed targets :=
  { p with trigp := Function.update p.trigp t1 (some (p.getTrigp malloc t1)) }

def apply (malloc : Fin targets → Triggers) (p : Parsed targets) :
    TriggerOption targets → Parsed targets
  | .starttrigger t1 t2 when => p.xddfuncStarttrigger malloc t1 t2 when
  | .stoptrigger t1 _ => p.xddfuncStoptrigger malloc t1

end Parsed

/-- The options are gone through in both phases of the parsing. -/
def parse {targets : Nat} (malloc : Fin targets → Triggers)
    (options : List (TriggerOption targets)) : Parsed targets :=
  (options ++ options).foldl (Parsed.apply malloc)
    { trigp := fun _ => none, waitForStart := fun _ => false }

/-! ## The pair of targets -/

/-- An accepted line with an option by which `t1` triggers `t2`; `t1` does not wait for `t2`. -/
structure Config where
  targets : Nat
  options : List (TriggerOption targets)
  malloc : Fin targets → Triggers
  t1 : Fin targets
  t2 : Fin targets
  when : When
  ne : t1 ≠ t2
  mem : .starttrigger t1 t2 when ∈ options
  notBack : ∀ when, .starttrigger t2 t1 when ∉ options
  /-- operations, transfer size and queue depth of `t1` -/
  ops : Nat
  xferSize : Nat
  queueDepth : Nat
  queueDepth_pos : 0 < queueDepth
  /-- operations of `t2` -/
  ops2 : Nat
  passes : Nat

namespace Config

def parsed (cfg : Config) : Parsed cfg.targets := parse cfg.malloc cfg.options

/-- The trigger structure of `t1`. -/
def trigp (cfg : Config) : Triggers := cfg.parsed.getTrigp cfg.malloc cfg.t1

/-- The structure of `t1` names `t2`. -/
def Names (cfg : Config) : Prop := cfg.trigp.startTriggerTarget = cfg.t2

instance (cfg : Config) : Decidable cfg.Names := inferInstanceAs (Decidable (_ = _))

/-- The structure of another target names `t2`, too. -/
def HasRival (cfg : Config) : Prop :=
  ∃ t, t ≠ cfg.t1 ∧ (cfg.parsed.trigp t).any
    (fun trigp : Triggers => trigp.any && trigp.startTriggerTarget == cfg.t2) = true

instance (cfg : Config) : Decidable cfg.HasRival := inferInstanceAs (Decidable (∃ _, _))

/-- `xint_target_init_barriers` uses the structure of every target that waits. -/
def BarriersInit (cfg : Config) : Prop :=
  ∀ t, cfg.parsed.waitForStart t = true → (cfg.parsed.trigp t).isSome = true

end Config

/-- The tests of `xdd_start_trigger_before_io_op`, in this order. -/
inductive Test where
  | time
  | op
  | bytes
deriving DecidableEq, Repr

/-- Where target `t1` is. -/
inductive First where
  /-- at the head of the pass loop -/
  | loop
  /-- has located a worker -/
  | before
  /-- waits in its own barrier -/
  | waiting
  /-- about to look at the run status of the target that it triggers -/
  | status
  | test (test : Test)
  /-- in the barrier of that target after this test -/
  | triggering (test : Test)
  | issuing
  /-- all operations of the pass are issued -/
  | finished
deriving DecidableEq, Repr

/-- Where target `t2` is. -/
inductive Second where
  | starting
  /-- waits in its barrier -/
  | blocked
  /-- released, about to set its run status -/
  | released
  | running
  | ended
deriving DecidableEq, Repr

def Test.next : Test → First
  | .time => .test .op
  | .op => .test .bytes
  | .bytes => .issuing

/-- `issued` is `tc_current_op_number` of `t1`. Its operations are in flight, completed and
counted while their worker is still busy, or done; `completed` counts the last two. -/
structure State where
  pass : Nat
  first : First
  started : Bool
  issued : Nat
  inFlight : Nat
  busy : Nat
  completed : Nat
  second : Second
  runStatus : Bool
deriving DecidableEq, Repr

/-- The beginning of a pass; both run states are reset. -/
def State.start (pass : Nat) : State where
  pass := pass
  first := .loop
  started := false
  issued := 0
  inFlight := 0
  busy := 0
  completed := 0
  second := .starting
  runStatus := false

inductive Action where
  /-- the next step of `t1`; `now` is the time since the start of the pass, and `running` the run
  status of the target that `t1` triggers, if it is not `t2` -/
  | first (now : Nat) (running : Bool)
  /-- a third target enters the barrier of `t1` -/
  | third
  /-- the target that `t1` triggers enters its barrier, if it is not `t2` -/
  | other
  /-- a worker counts its operation -/
  | count
  /-- a worker is no longer busy -/
  | free
  | second
  /-- both targets are in the barrier of `t2` -/
  | release
  /-- a rival is in the barrier of `t2` together with `t1` -/
  | rivalMeets
  /-- a rival is in the barrier of `t2` together with `t2` -/
  | rivalReleases
  | nextPass

/-- The condition of a test of `xdd_start_trigger_before_io_op`. -/
def fires (cfg : Config) (s : State) (now : Nat) : Test → Bool
  | .time => cfg.trigp.time && decide (cfg.trigp.startTriggerTime < now)
  | .op => cfg.trigp.op && decide (cfg.trigp.startTriggerOp < s.issued)
  | .bytes => cfg.trigp.bytes && decide (cfg.trigp.startTriggerBytes < s.completed * cfg.xferSize)

/-- The run status of the target that `t1` triggers. -/
def goalRuns (cfg : Config) (s : State) (running : Bool) : Bool :=
  if cfg.Names then s.runStatus else running

def firstStep (cfg : Config) (s : State) (now : Nat) (running : Bool) : Option State :=
  match s.first with
  | .loop =>
    if s.issued = cfg.ops then some { s with first := .finished }
    else if s.inFlight + s.busy < cfg.queueDepth then some { s with first := .before }
    else none
  | .before =>
    if cfg.parsed.waitForStart cfg.t1 = true ∧ s.started = false then
      some { s with first := .waiting }
    else some { s with first := .status }
  | .status =>
    if cfg.trigp.any = true ∧ goalRuns cfg s running = false then
      some { s with first := .test .time }
    else some { s with first := .issuing }
  | .test test =>
    if fires cfg s now test then some { s with first := .triggering test }
    else some { s with first := test.next }
  | .issuing =>
    some { s with first := .loop, issued := s.issued + 1, inFlight := s.inFlight + 1 }
  | .waiting | .triggering _ | .finished => none

def step (cfg : Config) (s : State) : Action → Option State
  | .first now running => firstStep cfg s now running
  | .third =>
    if s.first = .waiting then some { s with first := .status, started := true } else none
  | .other =>
    match s.first with
    | .triggering test => if cfg.Names then none else some { s with first := test.next }
    | _ => none
  | .count =>
    if 0 < s.inFlight then
      some { s with
        inFlight := s.inFlight - 1, busy := s.busy + 1, completed := s.completed + 1 }
    else none
  | .free => if 0 < s.busy then some { s with busy := s.busy - 1 } else none
  | .second =>
    match s.second with
    | .starting => some { s with second := if cfg.ops2 = 0 then .ended else .blocked }
    | .released => some { s with second := .running, runStatus := true }
    | .running => some { s with second := .ended }
    | .blocked | .ended => none
  | .release =>
    match s.first, s.second with
    | .triggering test, .blocked =>
      if cfg.Names then some { s with first := test.next, second := .released } else none
    | _, _ => none
  | .rivalMeets =>
    match s.first with
    | .triggering test =>
      if cfg.Names ∧ cfg.HasRival then some { s with first := test.next } else none
    | _ => none
  | .rivalReleases =>
    if s.second = .blocked ∧ cfg.HasRival then some { s with second := .released } else none
  | .nextPass =>
    if s.first = .finished ∧ s.inFlight + s.busy = 0 ∧ s.second = .ended ∧
        s.pass + 1 < cfg.passes then
      some (.start (s.pass + 1))
    else none

/-- The steps, each with what it needs. -/
inductive Step (cfg : Config) (s : State) : Action → State → Prop where
  | finish (now : Nat) (running : Bool) (hfirst : s.first = .loop) (hops : s.issued = cfg.ops) :
      Step cfg s (.first now running) { s with first := .finished }
  | locate (now : Nat) (running : Bool) (hfirst : s.first = .loop) (hops : s.issued ≠ cfg.ops)
      (hroom : s.inFlight + s.busy < cfg.queueDepth) :
      Step cfg s (.first now running) { s with first := .before }
  | wait (now : Nat) (running : Bool) (hfirst : s.first = .before)
      (hwait : cfg.parsed.waitForStart cfg.t1 = true) :
      Step cfg s (.first now running) { s with first := .waiting }
  | ready (now : Nat) (running : Bool) (hfirst : s.first = .before) :
      Step cfg s (.first now running) { s with first := .status }
  | check (now : Nat) (running : Bool) (hfirst : s.first = .status) :
      Step cfg s (.first now running) { s with first := .test .time }
  | skip (now : Nat) (running : Bool) (hfirst : s.first = .status)
      (hno : ¬ (cfg.trigp.any = true ∧ goalRuns cfg s running = false)) :
      Step cfg s (.first now running) { s with first := .issuing }
  | fire (now : Nat) (running : Bool) (test : Test) (hfirst : s.first = .test test)
      (hfires : fires cfg s now test = true) :
      Step cfg s (.first now running) { s with first := .triggering test }
  | pass (now : Nat) (running : Bool) (test : Test) (hfirst : s.first = .test test)
      (hfires : fires cfg s now test = false) :
      Step cfg s (.first now running) { s with first := test.next }
  | issue (now : Nat) (running : Bool) (hfirst : s.first = .issuing) :
      Step cfg s (.first now running)
        { s with first := .loop, issued := s.issued + 1, inFlight := s.inFlight + 1 }
  | third (hfirst : s.first = .waiting) :
      Step cfg s .third { s with first := .status, started := true }
  | other (test : Test) (hfirst : s.first = .triggering test) (hnames : ¬ cfg.Names) :
      Step cfg s .other { s with first := test.next }
  | count (hpos : 0 < s.inFlight) :
      Step cfg s .count
        { s with inFlight := s.inFlight - 1, busy := s.busy + 1, completed := s.completed + 1 }
  | free (hpos : 0 < s.busy) : Step cfg s .free { s with busy := s.busy - 1 }
  | begin (hsecond : s.second = .starting) :
      Step cfg s .second { s with second := if cfg.ops2 = 0 then .ended else .blocked }
  | run (hsecond : s.second = .released) :
      Step cfg s .second { s with second := .running, runStatus := true }
  | stop (hsecond : s.second = .running) : Step cfg s .second { s with second := .ended }
  | release (test : Test) (hfirst : s.first = .triggering test) (hsecond : s.second = .blocked) :
      Step cfg s .release { s with first := test.next, second := .released }
  | rivalMeets (test : Test) (hfirst : s.first = .triggering test) (hrival : cfg.HasRival) :
      Step cfg s .rivalMeets { s with first := test.next }
  | rivalReleases (hsecond : s.second = .blocked) (hrival : cfg.HasRival) :
      Step cfg s .rivalReleases { s with second := .released }
  | nextPass : Step cfg s .nextPass (.start (s.pass + 1))

theorem Step.of_firstStep {cfg : Config} {s s' : State} {now : Nat} {running : Bool}
    (h : firstStep cfg s now running = some s') : Step cfg s (.first now running) s' := by
  rw [firstStep] at h
  split at h
  · next hfirst =>
    split at h
    · next hops =>
      cases h
      exact .finish now running hfirst hops
    · next hops =>
      split at h
      · next hroom =>
        cases h
        exact .locate now running hfirst hops hroom
      · cases h
  · next hfirst =>
    split at h
    · next hwait =>
      cases h
      exact .wait now running hfirst hwait.1
    · cases h
      exact .ready now running hfirst
  · next hfirst =>
    split at h
    · cases h
      exact .check now running hfirst
    · next hno =>
      cases h
      exact .skip now running hfirst hno
  · next test hfirst =>
    split at h
    · next hfires =>
      cases h
      exact .fire now running test hfirst hfires
    · next hfires =>
      cases h
      exact .pass now running test hfirst (Bool.eq_false_iff.mpr hfires)
  · next hfirst =>
    cases h
    exact .issue now running hfirst
  · cases h
  · cases h
  · cases h

theorem Step.of_eq_some {cfg : Config} {s s' : State} {a : Action} (h : step cfg s a = some s') :
    Step cfg s a s' := by
  cases a with
  | first now running => exact .of_firstStep h
  | third =>
    rw [step] at h
    split at h
    · next hfirst =>
      cases h
      exact .third hfirst
    · cases h
  | other =>
    rw [step] at h
    split at h
    · next test hfirst =>
      split at h
      · cases h
      · next hnames =>
        cases h
        exact .other test hfirst hnames
    · cases h
  | count =>
    rw [step] at h
    split at h
    · next hpos =>
      cases h
      exact .count hpos
    · cases h
  | free =>
    rw [step] at h
    split at h
    · next hpos =>
      cases h
      exact .free hpos
    · cases h
  | second =>
    rw [step] at h
    split at h
    · next hsecond =>
      cases h
      exact .begin hsecond
    · next hsecond =>
      cases h
      exact .run hsecond
    · next hsecond =>
      cases h
      exact .stop hsecond
    · cases h
    · cases h
  | release =>
    rw [step] at h
    split at h
    · next test hfirst hsecond =>
      split at h
      · cases h
        exact .release test hfirst hsecond
      · cases h
    · cases h
  | rivalMeets =>
    rw [step] at h
    split at h
    · next test hfirst =>
      split at h
      · next hrival =>
        cases h
        exact .rivalMeets test hfirst hrival.2
      · cases h
    · cases h
  | rivalReleases =>
    rw [step] at h
    split at h
    · next hsecond =>
      cases h
      exact .rivalReleases hsecond.1 hsecond.2
    · cases h
  | nextPass =>
    rw [step] at h
    split at h
    · cases h
      exact .nextPass
    · cases h

/-- The states of a run; there is none if the barriers cannot be initialised. -/
def Reachable (cfg : Config) (s : State) : Prop :=
  cfg.BarriersInit ∧ Transition.Reach (step cfg) Transition.anyStep (.start 0) s

/-- Target `t1` has issued its operations, and `t2` waits for a trigger. -/
def Left (s : State) : Prop := s.first = .finished ∧ s.second = .blocked

/-- The trigger structure of `t2` exists, and `t2` is not left in its barrier. -/
def Delivered (cfg : Config) : Prop :=
  (cfg.parsed.trigp cfg.t2).isSome = true ∧ ∀ s, Reachable cfg s → ¬ Left s

end Xdd.Trigger
