import Xdd.Trigger.Start

/-!
# Whether a start trigger is delivered

The last time that target `t1` looks at how far it has come is before its last operation. By
then it has issued all operations but one, and all but those that its other workers may still
have in flight have been counted. The tests ask for more than the threshold. A time may be
reached later, and nothing looks at a percentage.
-/

namespace Xdd.Trigger

/-! ## The trigger structures -/

section Parsed

variable {targets : Nat} {malloc : Fin targets → Triggers}

theorem apply_trigp_isSome (p : Parsed targets) (o : TriggerOption targets) (t : Fin targets) :
    ((p.apply malloc o).trigp t).isSome = true ↔ (p.trigp t).isSome = true ∨ o.first = t := by
  cases o with
  | starttrigger t1 t2 when =>
    by_cases ht : t = t1
    · subst ht
      simp [Parsed.apply, Parsed.xddfuncStarttrigger, TriggerOption.first]
    · simp [Parsed.apply, Parsed.xddfuncStarttrigger, TriggerOption.first, ht, Ne.symm ht]
  | stoptrigger t1 t2 =>
    by_cases ht : t = t1
    · subst ht
      simp [Parsed.apply, Parsed.xddfuncStoptrigger, TriggerOption.first]
    · simp [Parsed.apply, Parsed.xddfuncStoptrigger, TriggerOption.first, ht, Ne.symm ht]

theorem foldl_trigp_isSome (options : List (TriggerOption targets)) (p : Parsed targets)
    (t : Fin targets) :
    ((options.foldl (Parsed.apply malloc) p).trigp t).isSome = true ↔
      (p.trigp t).isSome = true ∨ ∃ o ∈ options, o.first = t := by
  induction options generalizing p with
  | nil => simp
  | cons o rest ih =>
    rw [List.foldl_cons, ih, apply_trigp_isSome]
    simp [or_assoc]

/-- A target has a trigger structure if an option names it in the first place. -/
theorem parse_trigp_isSome (options : List (TriggerOption targets)) (t : Fin targets) :
    ((parse malloc options).trigp t).isSome = true ↔ ∃ o ∈ options, o.first = t := by
  rw [parse, foldl_trigp_isSome]
  simp

theorem apply_waitForStart (p : Parsed targets) (o : TriggerOption targets) (t : Fin targets) :
    (p.apply malloc o).waitForStart t = true ↔
      p.waitForStart t = true ∨ ∃ t1 when, o = .starttrigger t1 t when := by
  cases o with
  | starttrigger t1 t2 when =>
    by_cases ht : t = t2
    · subst ht
      simp [Parsed.apply, Parsed.xddfuncStarttrigger]
    · simp [Parsed.apply, Parsed.xddfuncStarttrigger, ht, Ne.symm ht]
  | stoptrigger t1 t2 => simp [Parsed.apply, Parsed.xddfuncStoptrigger]

theorem foldl_waitForStart (options : List (TriggerOption targets)) (p : Parsed targets)
    (t : Fin targets) :
    (options.foldl (Parsed.apply malloc) p).waitForStart t = true ↔
      p.waitForStart t = true ∨ ∃ t1 when, .starttrigger t1 t when ∈ options := by
  induction options generalizing p with
  | nil => simp
  | cons o rest ih =>
    rw [List.foldl_cons, ih, apply_waitForStart, or_assoc]
    simp only [List.mem_cons, exists_or, eq_comm]

/-- The targets that the start options of a target name, in their order. -/
def goals (options : List (TriggerOption targets)) (t : Fin targets) : List (Fin targets) :=
  options.filterMap fun
    | .starttrigger t1 t2 _ => if t1 = t then some t2 else none
    | .stoptrigger .. => none

/-- A structure names the target of the last start option. -/
theorem foldl_startTriggerTarget (options : List (TriggerOption targets)) (p : Parsed targets)
    (t : Fin targets) :
    ((options.foldl (Parsed.apply malloc) p).getTrigp malloc t).startTriggerTarget =
      ((goals options t).getLast?.map fun goal => (goal : Int)).getD
        (p.getTrigp malloc t).startTriggerTarget := by
  induction options generalizing p with
  | nil => rfl
  | cons o rest ih =>
    rw [List.foldl_cons, ih]
    cases o with
    | starttrigger t1 t2 when =>
      by_cases ht : t1 = t
      · subst ht
        have hgoals : goals (.starttrigger t1 t2 when :: rest) t1 = t2 :: goals rest t1 := by
          simp [goals]
        have hnew : ((p.apply malloc (.starttrigger t1 t2 when)).getTrigp malloc
            t1).startTriggerTarget = t2 := by
          cases when <;> simp [Parsed.apply, Parsed.xddfuncStarttrigger, Parsed.getTrigp]
        rw [hgoals, hnew, List.getLast?_cons]
        cases (goals rest t1).getLast? <;> rfl
      · have hgoals : goals (.starttrigger t1 t2 when :: rest) t = goals rest t := by
          simp [goals, ht]
        rw [hgoals]
        simp [Parsed.apply, Parsed.xddfuncStarttrigger, Parsed.getTrigp, Ne.symm ht]
    | stoptrigger t1 t2 =>
      have hgoals : goals (.stoptrigger t1 t2 :: rest) t = goals rest t := by
        simp [goals]
      rw [hgoals]
      by_cases ht : t = t1
      · subst ht
        simp [Parsed.apply, Parsed.xddfuncStoptrigger, Parsed.getTrigp]
      · simp [Parsed.apply, Parsed.xddfuncStoptrigger, Parsed.getTrigp, ht]

end Parsed

variable {cfg : Config} {s s' : State}

/-- Target `t1` has a structure, and `t2` waits. -/
theorem Config.pair (cfg : Config) :
    cfg.parsed.trigp cfg.t1 = some cfg.trigp ∧ cfg.parsed.waitForStart cfg.t2 = true := by
  constructor
  · have hsome : (cfg.parsed.trigp cfg.t1).isSome = true :=
      (parse_trigp_isSome cfg.options cfg.t1).mpr ⟨_, cfg.mem, rfl⟩
    obtain ⟨trigp, htrigp⟩ := Option.isSome_iff_exists.mp hsome
    rw [Config.trigp, Parsed.getTrigp, htrigp]
    rfl
  · rw [Config.parsed, parse, foldl_waitForStart]
    exact .inr ⟨cfg.t1, cfg.when, List.mem_append_left _ cfg.mem⟩

/-- The structure of `t1` names `t2` if its last start option does. -/
theorem Config.names_iff (cfg : Config) :
    cfg.Names ↔ (goals cfg.options cfg.t1).getLast? = some cfg.t2 := by
  have hgoals : (goals (cfg.options ++ cfg.options) cfg.t1).getLast? =
      (goals cfg.options cfg.t1).getLast? := by
    rw [goals, List.filterMap_append, List.getLast?_append, Option.or_self]
    rfl
  have hmem : cfg.t2 ∈ goals cfg.options cfg.t1 :=
    List.mem_filterMap.mpr ⟨_, cfg.mem, if_pos rfl⟩
  rw [Config.Names, Config.trigp, Config.parsed, parse, foldl_startTriggerTarget, hgoals]
  cases hlast : (goals cfg.options cfg.t1).getLast? with
  | none =>
    rw [List.getLast?_eq_none_iff] at hlast
    rw [hlast] at hmem
    cases hmem
  | some goal => simp [Fin.ext_iff]

/-- The last start option of `t1` names `t2`, and the structure of no other target does. -/
def Config.Sole (cfg : Config) : Prop :=
  (goals cfg.options cfg.t1).getLast? = some cfg.t2 ∧ ¬ cfg.HasRival

theorem Config.Sole.names (h : cfg.Sole) : cfg.Names := cfg.names_iff.mpr h.1

/-! ## What `t1` has come to at its tests -/

def First.evaluating : First → Bool
  | .loop | .finished => false
  | .before | .waiting | .status | .test _ | .triggering _ | .issuing => true

structure Accounts (cfg : Config) (s : State) : Prop where
  issued : s.issued = s.completed + s.inFlight
  le : s.issued ≤ cfg.ops
  room : s.inFlight + s.busy ≤ cfg.queueDepth
  evaluating : s.first.evaluating = true →
    s.issued < cfg.ops ∧ s.inFlight + s.busy < cfg.queueDepth
  finished : s.first = .finished → s.issued = cfg.ops

namespace Accounts

theorem start (pass : Nat) : Accounts cfg (.start pass) where
  issued := rfl
  le := Nat.zero_le _
  room := Nat.zero_le _
  evaluating := by simp [State.start, First.evaluating]
  finished := by simp [State.start]

/-- Target `t1` goes from one test to the next. -/
theorem move (h : Accounts cfg s) (hold : s.first.evaluating = true) {first : First}
    (hnew : first ≠ .finished) : Accounts cfg { s with first := first } where
  issued := h.issued
  le := h.le
  room := h.room
  evaluating _ := h.evaluating hold
  finished hfinished := absurd hfinished hnew

theorem step (h : Accounts cfg s) {a : Action} (hs : Step cfg s a s') : Accounts cfg s' := by
  cases hs with
  | finish now running hfirst hops =>
    exact ⟨h.issued, h.le, h.room, by simp [First.evaluating], fun _ => hops⟩
  | locate now running hfirst hops hroom =>
    exact ⟨h.issued, h.le, h.room, fun _ => ⟨Nat.lt_of_le_of_ne h.le hops, hroom⟩, by simp⟩
  | wait now running hfirst hwait => exact h.move (by rw [hfirst]; rfl) (by simp)
  | ready now running hfirst => exact h.move (by rw [hfirst]; rfl) (by simp)
  | check now running hfirst => exact h.move (by rw [hfirst]; rfl) (by simp)
  | skip now running hfirst hno => exact h.move (by rw [hfirst]; rfl) (by simp)
  | fire now running test hfirst hfires => exact h.move (by rw [hfirst]; rfl) (by simp)
  | pass now running test hfirst hfires =>
    exact h.move (by rw [hfirst]; rfl) (by cases test <;> simp [Test.next])
  | issue now running hfirst =>
    obtain ⟨hlt, hroom⟩ := h.evaluating (by rw [hfirst]; rfl)
    have hissued := h.issued
    refine ⟨?_, hlt, ?_, by simp [First.evaluating], by simp⟩
    · simp only
      omega
    · simp only
      omega
  | third hfirst =>
    have hmove : Accounts cfg { s with first := .status } :=
      h.move (by rw [hfirst]; rfl) (by simp)
    exact ⟨hmove.issued, hmove.le, hmove.room, hmove.evaluating, hmove.finished⟩
  | other test hfirst hnames =>
    exact h.move (by rw [hfirst]; rfl) (by cases test <;> simp [Test.next])
  | count hpos =>
    have hissued := h.issued
    refine ⟨?_, h.le, ?_, ?_, h.finished⟩
    · simp only
      omega
    · have hroom := h.room
      simp only
      omega
    · intro hfirst
      obtain ⟨hlt, hroom⟩ := h.evaluating hfirst
      simp only
      omega
  | free hpos =>
    refine ⟨h.issued, h.le, ?_, ?_, h.finished⟩
    · have hroom := h.room
      simp only
      omega
    · intro hfirst
      obtain ⟨hlt, hroom⟩ := h.evaluating hfirst
      simp only
      omega
  | begin hsecond => exact ⟨h.issued, h.le, h.room, h.evaluating, h.finished⟩
  | run hsecond => exact ⟨h.issued, h.le, h.room, h.evaluating, h.finished⟩
  | stop hsecond => exact ⟨h.issued, h.le, h.room, h.evaluating, h.finished⟩
  | release test hfirst hsecond =>
    have hmove : Accounts cfg { s with first := test.next } :=
      h.move (by rw [hfirst]; rfl) (by cases test <;> simp [Test.next])
    exact ⟨hmove.issued, hmove.le, hmove.room, hmove.evaluating, hmove.finished⟩
  | rivalMeets test hfirst hrival =>
    exact h.move (by rw [hfirst]; rfl) (by cases test <;> simp [Test.next])
  | rivalReleases hsecond hrival =>
    exact ⟨h.issued, h.le, h.room, h.evaluating, h.finished⟩
  | nextPass => exact .start _

end Accounts

/-! ## As long as `t2` waits -/

/-- Nobody has released `t2` in this pass. -/
def Second.early : Second → Bool
  | .starting | .blocked => true
  | .released | .running | .ended => false

/-- The test for the operation is behind `t1`. -/
def First.pastOp : First → Bool
  | .test .bytes | .triggering .bytes | .issuing => true
  | _ => false

/-- Target `t1` gets past a test without triggering only while it is not beyond the threshold. -/
structure Early (cfg : Config) (s : State) : Prop where
  runStatus : s.second.early = true → s.runStatus = false
  op : s.second.early = true → cfg.trigp.op = true →
    s.issued ≤ cfg.trigp.startTriggerOp + 1 ∧
      (s.first.pastOp = true → s.issued ≤ cfg.trigp.startTriggerOp)
  bytes : s.second.early = true → cfg.trigp.bytes = true →
    (s.issued - cfg.queueDepth) * cfg.xferSize ≤ cfg.trigp.startTriggerBytes ∧
      (s.first = .issuing →
        (s.issued + 1 - cfg.queueDepth) * cfg.xferSize ≤ cfg.trigp.startTriggerBytes)

namespace Early

theorem start (pass : Nat) : Early cfg (.start pass) where
  runStatus _ := rfl
  op _ _ := ⟨Nat.zero_le _, by simp [State.start, First.pastOp]⟩
  bytes _ _ := ⟨by simp [State.start], by simp [State.start]⟩

/-- Target `t1` goes to a place that says nothing new. -/
theorem move (h : Early cfg s) {first : First}
    (hop : first.pastOp = true → s.first.pastOp = true) (hissuing : first ≠ .issuing) :
    Early cfg { s with first := first } where
  runStatus := h.runStatus
  op hearly htype := ⟨(h.op hearly htype).1, fun hpast => (h.op hearly htype).2 (hop hpast)⟩
  bytes hearly htype := ⟨(h.bytes hearly htype).1, fun hfirst => absurd hfirst hissuing⟩

/-- Target `t2` has been released. -/
theorem of_late (h : s.second.early = false) : Early cfg s where
  runStatus hearly := by simp [h] at hearly
  op hearly := by simp [h] at hearly
  bytes hearly := by simp [h] at hearly

/-- A test that does not trigger. -/
theorem pass (h : Early cfg s) (haccounts : Accounts cfg s) {now : Nat} {test : Test}
    (hfirst : s.first = .test test) (hfires : fires cfg s now test = false) :
    Early cfg { s with first := test.next } := by
  obtain ⟨hlt, hroom⟩ := haccounts.evaluating (by rw [hfirst]; rfl)
  cases test with
  | time => exact h.move (by simp [Test.next, First.pastOp]) (by simp [Test.next])
  | op =>
    refine ⟨h.runStatus, ?_, ?_⟩
    · intro hearly htype
      refine ⟨(h.op hearly htype).1, fun _ => ?_⟩
      simpa [fires, htype] using hfires
    · intro hearly htype
      exact ⟨(h.bytes hearly htype).1, by simp [Test.next]⟩
  | bytes =>
    refine ⟨h.runStatus, ?_, ?_⟩
    · intro hearly htype
      exact ⟨(h.op hearly htype).1, fun _ => (h.op hearly htype).2 (by rw [hfirst]; rfl)⟩
    · intro hearly htype
      refine ⟨(h.bytes hearly htype).1, fun _ => ?_⟩
      have hcompleted : s.completed * cfg.xferSize ≤ cfg.trigp.startTriggerBytes := by
        simpa [fires, htype] using hfires
      have hlag : s.issued + 1 - cfg.queueDepth ≤ s.completed := by
        have hissued := haccounts.issued
        omega
      exact (Nat.mul_le_mul_right _ hlag).trans hcompleted

theorem step (h : Early cfg s) (haccounts : Accounts cfg s) (hsole : cfg.Sole) {a : Action}
    (hs : Step cfg s a s') : Early cfg s' := by
  cases hs with
  | finish now running hfirst hops => exact h.move (by simp [First.pastOp]) (by simp)
  | locate now running hfirst hops hroom => exact h.move (by simp [First.pastOp]) (by simp)
  | wait now running hfirst hwait => exact h.move (by simp [First.pastOp]) (by simp)
  | ready now running hfirst => exact h.move (by simp [First.pastOp]) (by simp)
  | check now running hfirst => exact h.move (by simp [First.pastOp]) (by simp)
  | skip now running hfirst hno =>
    have hnone : s.second.early = true → cfg.trigp.any = false := by
      intro hearly
      by_contra hany
      refine hno ⟨by simpa using hany, ?_⟩
      rw [goalRuns, if_pos hsole.names]
      exact h.runStatus hearly
    refine ⟨h.runStatus, ?_, ?_⟩
    · intro hearly htype
      have := hnone hearly
      simp [Triggers.any, htype] at this
    · intro hearly htype
      have := hnone hearly
      simp [Triggers.any, htype] at this
  | fire now running test hfirst hfires =>
    refine h.move ?_ (by simp)
    cases test <;> simp [hfirst, First.pastOp]
  | pass now running test hfirst hfires => exact h.pass haccounts hfirst hfires
  | issue now running hfirst =>
    refine ⟨h.runStatus, ?_, ?_⟩
    · intro hearly htype
      have hle := (h.op hearly htype).2 (by rw [hfirst]; rfl)
      exact ⟨Nat.succ_le_succ hle, by simp [First.pastOp]⟩
    · intro hearly htype
      exact ⟨(h.bytes hearly htype).2 hfirst, by simp⟩
  | third hfirst =>
    have hmove : Early cfg { s with first := .status } := h.move (by simp [First.pastOp]) (by simp)
    exact ⟨hmove.runStatus, hmove.op, hmove.bytes⟩
  | other test hfirst hnames => exact absurd hsole.names hnames
  | count hpos => exact ⟨h.runStatus, h.op, h.bytes⟩
  | free hpos => exact ⟨h.runStatus, h.op, h.bytes⟩
  | begin hsecond =>
    have hearly : s.second.early = true := by rw [hsecond]; rfl
    exact ⟨fun _ => h.runStatus hearly, fun _ => h.op hearly, fun _ => h.bytes hearly⟩
  | run hsecond => exact of_late rfl
  | stop hsecond => exact of_late rfl
  | release test hfirst hsecond => exact of_late rfl
  | rivalMeets test hfirst hrival => exact absurd hrival hsole.2
  | rivalReleases hsecond hrival => exact of_late rfl
  | nextPass => exact .start _

end Early

/-- A threshold that `t1` is beyond at its last test whatever is in flight. -/
def Config.Reaches (cfg : Config) : Prop :=
  cfg.trigp.op = true ∧ cfg.trigp.startTriggerOp + 2 ≤ cfg.ops ∨
    cfg.trigp.bytes = true ∧
      cfg.trigp.startTriggerBytes < (cfg.ops - cfg.queueDepth) * cfg.xferSize

theorem not_left_of_reaches (hsole : cfg.Sole) (hreaches : cfg.Reaches)
    (h : Transition.Reach (step cfg) Transition.anyStep (.start 0) s) : ¬ Left s := by
  have hinv : Accounts cfg s ∧ Early cfg s := by
    induction h with
    | init => exact ⟨.start 0, .start 0⟩
    | step _ _ hstep hinv =>
      have hs := Step.of_eq_some hstep
      exact ⟨hinv.1.step hs, hinv.2.step hinv.1 hsole hs⟩
  rintro ⟨hfirst, hsecond⟩
  have hearly : s.second.early = true := by rw [hsecond]; rfl
  have hissued := hinv.1.finished hfirst
  obtain ⟨htype, hle⟩ | ⟨htype, hlt⟩ := hreaches
  · have hop := (hinv.2.op hearly htype).1
    omega
  · have hbytes := (hinv.2.bytes hearly htype).1
    rw [hissued] at hbytes
    omega

/-- Without operations `t2` does not come to its barrier. -/
theorem not_left_of_no_ops (hops : cfg.ops2 = 0)
    (h : Transition.Reach (step cfg) Transition.anyStep (.start 0) s) : ¬ Left s := by
  have hinv : s.second = .starting ∨ s.second = .ended := by
    induction h with
    | init => exact .inl rfl
    | step _ _ hstep hinv =>
      cases Step.of_eq_some hstep with
      | begin hsecond => exact .inr (if_pos hops)
      | run hsecond => simp [hsecond] at hinv
      | stop hsecond => exact .inr rfl
      | release test hfirst hsecond => simp [hsecond] at hinv
      | rivalReleases hsecond hrival => simp [hsecond] at hinv
      | nextPass => exact .inl rfl
      | finish | locate | wait | ready | check | skip | fire | pass | issue | third | other | count
      | free | rivalMeets => exact hinv
  rintro ⟨-, hsecond⟩
  simp [hsecond] at hinv

/-! ## Operations that are completed as late as possible -/

/-- The clock stands still, and a worker counts its operation when `t1` needs it. -/
def Late (cfg : Config) (s : State) : Action → Prop
  | .first now _ => now = 0
  | .free => True
  | .count => s.first = .loop ∧ s.inFlight = cfg.queueDepth
  | .third | .other | .second | .release | .rivalMeets | .rivalReleases | .nextPass => False

/-- Target `t2` waits, and `t1` goes past it. -/
structure Missed (cfg : Config) (s : State) : Prop where
  second : s.second = .blocked
  completed : s.completed = 0 ∨ s.completed + cfg.queueDepth ≤ s.issued + 1
  first : s.first ≠ .waiting ∧ ∀ test, s.first ≠ .triggering test

theorem Missed.not_fires (h : Missed cfg s) (haccounts : Accounts cfg s) (hno : ¬ cfg.Reaches)
    {test : Test} (hfirst : s.first = .test test) : fires cfg s 0 test = false := by
  obtain ⟨hlt, hroom⟩ := haccounts.evaluating (by rw [hfirst]; rfl)
  simp only [Config.Reaches, not_or, not_and, not_le, not_lt] at hno
  obtain ⟨hop, hbytes⟩ := hno
  cases test with
  | time => simp [fires]
  | op =>
    cases htype : cfg.trigp.op with
    | false => simp [fires, htype]
    | true =>
      have hle := hop htype
      simp only [fires, htype, Bool.true_and, decide_eq_false_iff_not]
      omega
  | bytes =>
    cases htype : cfg.trigp.bytes with
    | false => simp [fires, htype]
    | true =>
      have hle := hbytes htype
      have hcompleted : s.completed * cfg.xferSize ≤
          (cfg.ops - cfg.queueDepth) * cfg.xferSize := by
        apply Nat.mul_le_mul_right
        obtain hzero | hlag := h.completed <;> omega
      simp only [fires, htype, Bool.true_and, decide_eq_false_iff_not]
      omega

theorem Missed.step (h : Missed cfg s) (haccounts : Accounts cfg s) (hno : ¬ cfg.Reaches)
    (hfree : cfg.parsed.waitForStart cfg.t1 = false) {a : Action} (hok : Late cfg s a)
    (hs : Step cfg s a s') : Missed cfg s' := by
  cases hs with
  | finish now running hfirst hops => exact ⟨h.second, h.completed, by simp⟩
  | locate now running hfirst hops hroom => exact ⟨h.second, h.completed, by simp⟩
  | wait now running hfirst hwait =>
    rw [hfree] at hwait
    cases hwait
  | ready now running hfirst => exact ⟨h.second, h.completed, by simp⟩
  | check now running hfirst => exact ⟨h.second, h.completed, by simp⟩
  | skip now running hfirst hnot => exact ⟨h.second, h.completed, by simp⟩
  | fire now running test hfirst hfires =>
    obtain rfl : now = 0 := hok
    rw [h.not_fires haccounts hno hfirst] at hfires
    cases hfires
  | pass now running test hfirst hfires =>
    exact ⟨h.second, h.completed, by cases test <;> simp [Test.next]⟩
  | issue now running hfirst =>
    refine ⟨h.second, h.completed.imp id fun hlag => ?_, by simp⟩
    simp only
    omega
  | count hpos =>
    have hissued := haccounts.issued
    refine ⟨h.second, .inr ?_, h.first⟩
    have hfull : s.inFlight = cfg.queueDepth := hok.2
    simp only
    omega
  | free hpos => exact ⟨h.second, h.completed, h.first⟩
  | third | other | begin | run | stop | release | rivalMeets | rivalReleases | nextPass =>
    exact hok.elim

/-- The steps that `t1` is away from the end of an operation. -/
def First.distance : First → Nat
  | .loop => 8
  | .before => 7
  | .waiting => 6
  | .status => 5
  | .test .time => 4
  | .test .op => 3
  | .test .bytes => 2
  | .issuing => 1
  | .triggering _ | .finished => 0

def left (cfg : Config) (s : State) : Nat :=
  16 * (cfg.ops - s.issued) + s.first.distance + 2 * s.inFlight + s.busy

theorem left_step_lt (haccounts : Accounts cfg s) {a : Action} (hok : Late cfg s a)
    (hs : Step cfg s a s') : left cfg s' < left cfg s := by
  have hmove : ∀ first : First, first.distance < s.first.distance →
      left cfg { s with first := first } < left cfg s := by
    intro first hlt
    simp only [left]
    omega
  cases hs with
  | finish now running hfirst hops => exact hmove _ (by simp [hfirst, First.distance])
  | locate now running hfirst hops hroom => exact hmove _ (by simp [hfirst, First.distance])
  | wait now running hfirst hwait => exact hmove _ (by simp [hfirst, First.distance])
  | ready now running hfirst => exact hmove _ (by simp [hfirst, First.distance])
  | check now running hfirst => exact hmove _ (by simp [hfirst, First.distance])
  | skip now running hfirst hnot => exact hmove _ (by simp [hfirst, First.distance])
  | fire now running test hfirst hfires =>
    exact hmove _ (by cases test <;> simp [hfirst, First.distance])
  | pass now running test hfirst hfires =>
    exact hmove _ (by cases test <;> simp [hfirst, Test.next, First.distance])
  | issue now running hfirst =>
    obtain ⟨hlt, -⟩ := haccounts.evaluating (by rw [hfirst]; rfl)
    simp only [left, hfirst, First.distance]
    omega
  | count hpos =>
    simp only [left]
    omega
  | free hpos =>
    simp only [left]
    omega
  | third | other | begin | run | stop | release | rivalMeets | rivalReleases | nextPass =>
    exact hok.elim

/-- If `t1` can do nothing more, it has issued all operations. -/
theorem finished_of_stuck (h : Missed cfg s) (haccounts : Accounts cfg s)
    (hstuck : ∀ a, Late cfg s a → step cfg s a = none) : s.first = .finished := by
  have hfirst := hstuck (.first 0 false) rfl
  cases hphase : s.first with
  | loop =>
    have hidle : s.busy = 0 := by
      have hfree := hstuck .free trivial
      by_contra hpos
      simp [step, Nat.pos_of_ne_zero hpos] at hfree
    have hnotFull : s.inFlight ≠ cfg.queueDepth := by
      intro hfull
      have hcount := hstuck .count ⟨hphase, hfull⟩
      simp [step, hfull, cfg.queueDepth_pos] at hcount
    have hroom := haccounts.room
    simp only [step, firstStep, hphase] at hfirst
    split at hfirst
    · cases hfirst
    · rw [if_pos (by omega)] at hfirst
      cases hfirst
  | before =>
    simp only [step, firstStep, hphase] at hfirst
    split at hfirst <;> cases hfirst
  | waiting => exact absurd hphase h.first.1
  | status =>
    simp only [step, firstStep, hphase] at hfirst
    split at hfirst <;> cases hfirst
  | test test =>
    simp only [step, firstStep, hphase] at hfirst
    split at hfirst <;> cases hfirst
  | triggering test => exact absurd hphase (h.first.2 test)
  | issuing => simp [step, firstStep, hphase] at hfirst
  | finished => rfl

theorem exists_left (hno : ¬ cfg.Reaches) (hfree : cfg.parsed.waitForStart cfg.t1 = false)
    (hops : cfg.ops2 ≠ 0) :
    ∃ s, Transition.Reach (step cfg) Transition.anyStep (.start 0) s ∧ Left s := by
  obtain ⟨s₁, hs₁, hmissed₁, haccounts₁⟩ : ∃ s₁, step cfg (.start 0) .second = some s₁ ∧
      Missed cfg s₁ ∧ Accounts cfg s₁ := by
    refine ⟨_, rfl, ⟨?_, .inl rfl, by simp [State.start]⟩, ?_⟩
    · simp [hops]
    · exact (Accounts.start 0).step (.begin rfl)
  have hinv : ∀ s, Transition.Reach (step cfg) (Late cfg) s₁ s →
      Accounts cfg s ∧ Missed cfg s := by
    intro s hs
    induction hs with
    | init => exact ⟨haccounts₁, hmissed₁⟩
    | step _ hok hstep hinv =>
      have hs := Step.of_eq_some hstep
      exact ⟨hinv.1.step hs, hinv.2.step hinv.1 hno hfree hok hs⟩
  have hstart : Transition.Reach (step cfg) (Late cfg) s₁ s₁ := .init
  obtain ⟨s, hreach, hstuck⟩ := Transition.exists_reach_stuck (left cfg)
    (fun s a s' hs hok hstep => left_step_lt (hinv s hs).1 hok (.of_eq_some hstep)) hstart
  obtain ⟨haccounts, hmissed⟩ := hinv s hreach
  refine ⟨s, ?_, finished_of_stuck hmissed haccounts hstuck, hmissed.second⟩
  have hbegin : Transition.Reach (step cfg) Transition.anyStep (.start 0) s₁ :=
    .step .init trivial hs₁
  exact hbegin.trans (hreach.mono fun _ _ _ => trivial)

/-- Memory that happens to be zero. -/
def cleared : Triggers where
  time := false
  op := false
  percent := false
  bytes := false
  other := false
  startTriggerTime := 0
  startTriggerOp := 0
  startTriggerBytes := 0
  startTriggerTarget := 0

/-- `-starttrigger 0 1 op 1` alone; target 0 has four operations. -/
abbrev opOne : Config where
  targets := 2
  options := [.starttrigger ⟨0, Nat.two_pos⟩ ⟨1, Nat.one_lt_two⟩ (.op 1 Nat.one_pos)]
  malloc := fun _ => cleared
  t1 := ⟨0, Nat.two_pos⟩
  t2 := ⟨1, Nat.one_lt_two⟩
  when := .op 1 Nat.one_pos
  ne := by decide
  mem := List.mem_singleton_self _
  notBack := by simp
  ops := 4
  xferSize := 1
  queueDepth := 1
  queueDepth_pos := Nat.one_pos
  ops2 := 1
  passes := 1

/-- `-starttrigger 0 1 op 3 -stoptrigger 1 0`; target 0 has four operations. -/
abbrev opThree : Config where
  targets := 2
  options := [.starttrigger ⟨0, Nat.two_pos⟩ ⟨1, Nat.one_lt_two⟩ (.op 3 (by decide)),
    .stoptrigger ⟨1, Nat.one_lt_two⟩ ⟨0, Nat.two_pos⟩]
  malloc := fun _ => cleared
  t1 := ⟨0, Nat.two_pos⟩
  t2 := ⟨1, Nat.one_lt_two⟩
  when := .op 3 (by decide)
  ne := by decide
  mem := List.mem_cons_self
  notBack := by simp
  ops := 4
  xferSize := 1
  queueDepth := 1
  queueDepth_pos := Nat.one_pos
  ops2 := 1
  passes := 1

instance : DecidablePred Left := fun _ => inferInstanceAs (Decidable (_ ∧ _))

end Xdd.Trigger
