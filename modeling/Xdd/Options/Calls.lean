import Xdd.Options.LastWriter

/-!
# What the handlers are told

`xdd_parse_args` keeps the number of words that are left beside the index of the next word.
Words that are not options move the index only. From then on a handler is told of more words
than there are, and its checks let it read behind the end.
-/

namespace Xdd.Options

/-- What a handler is called with. -/
structure Call where
  argCount : Int
  argv : List String
deriving DecidableEq, Repr

section

variable {F : Type} (ratios : Ratios F) (others : String → Option OtherOption)

/-- `xdd_parse_args` with the calls that it makes. -/
def tracedArgs (phase : Phase) :
    Nat → Int → List String → Plan F → List Call × Except Stop (Plan F)
  | _, _, [], plan => ([], .ok plan)
  | skip + 1, left, _ :: argv, plan => tracedArgs phase skip left argv plan
  | 0, left, word :: argv, plan =>
    if left = 0 then ([], .ok plan)
    else match optionName word with
      | none => tracedArgs phase 0 left argv plan
      | some name => match handler ratios others name with
        | none => ([], .error .rejected)
        | some func => match func phase left (word :: argv) plan with
          | .error stop => ([⟨left, word :: argv⟩], .error stop)
          | .ok (plan, used) =>
            let (calls, result) := tracedArgs phase (used - 1) (left - used) argv plan
            (⟨left, word :: argv⟩ :: calls, result)

/-- The calls of one phase. -/
def calls (phase : Phase) (argv : List String) (plan : Plan F) : List Call :=
  (tracedArgs ratios others phase 0 argv.length argv plan).1

/-- A handler knows how many words there are from its option on, the words that
`xdd_parse_arg_count_check` counts are there, and neither `xdd_parse_target_number` nor a
handler with one value depends on anything behind them. -/
structure Told (phase : Phase) (call : Call) : Prop where
  count : call.argCount = call.argv.length
  counted : ∀ args : Nat, argCountCheck args call.argCount = .ok () → args + 1 < call.argv.length
  targetNumber : ∀ (beyond : List String) (plan : Plan F),
    parseTargetNumber ratios call.argCount (call.argv ++ beyond) plan =
      parseTargetNumber ratios call.argCount call.argv plan
  checked : ∀ (read : String → Option (Setting F)) (beyond : List String) (plan : Plan F),
    scalarOption ratios read phase call.argCount (call.argv ++ beyond) plan =
      scalarOption ratios read phase call.argCount call.argv plan

/-- The next option, if there is one, has a handler. -/
def nextHandled (argv : List String) : Bool :=
  match argv.findSome? optionName with
  | some name => (handler ratios others name).isSome
  | none => false

/-- Once a word has been passed over, no option with a handler follows. -/
def strayLast (phase : Phase) : Nat → List String → Plan F → Bool
  | _, [], _ => true
  | skip + 1, _ :: argv, plan => strayLast phase skip argv plan
  | 0, word :: argv, plan => match optionName word with
    | none => !nextHandled ratios others argv
    | some name => match handler ratios others name with
      | none => true
      | some func => match func phase (argv.length + 1) (word :: argv) plan with
        | .error _ => true
        | .ok (plan, used) => strayLast phase (used - 1) argv plan

/-! ## The calls are those of the parser -/

theorem tracedArgs_snd (phase : Phase) (argv : List String) :
    ∀ (skip : Nat) (left : Int) (plan : Plan F),
      (tracedArgs ratios others phase skip left argv plan).2 =
        parseArgs ratios others phase skip left argv plan := by
  induction argv with
  | nil =>
    intro skip left plan
    cases skip <;> rfl
  | cons word argv ih =>
    intro skip left plan
    cases skip with
    | succ skip => exact ih skip left plan
    | zero =>
      rw [tracedArgs, parseArgs]
      split
      · rfl
      cases optionName word with
      | none => exact ih 0 left plan
      | some name =>
        dsimp only
        cases handler ratios others name with
        | none => rfl
        | some func =>
          dsimp only
          cases func phase left (word :: argv) plan with
          | error stop => rfl
          | ok result =>
            obtain ⟨plan₁, used⟩ := result
            exact ih (used - 1) (left - used) plan₁

/-! ## Reading arguments -/

variable {ratios others}

theorem arg_append {argv : List String} {i : Nat} (hi : i < argv.length) (beyond : List String) :
    arg (argv ++ beyond) i = arg argv i := by
  rw [arg, arg, List.getElem?_append_left hi]

theorem parseTargetNumber_append (argv beyond : List String) (plan : Plan F) :
    parseTargetNumber ratios argv.length (argv ++ beyond) plan =
      parseTargetNumber ratios argv.length argv plan := by
  rw [parseTargetNumber, parseTargetNumber]
  by_cases hone : (argv.length : Int) ≤ 1
  · rw [if_pos hone, if_pos hone]
  have hoption : arg (argv ++ beyond) 0 = arg argv 0 := arg_append (by omega) beyond
  have hword : arg (argv ++ beyond) 1 = arg argv 1 := arg_append (by omega) beyond
  simp only [if_neg hone, hoption, hword]
  by_cases hthree : (argv.length : Int) < 3
  · simp only [if_pos hthree]
    rfl
  · have htarget : arg (argv ++ beyond) 2 = arg argv 2 := arg_append (by omega) beyond
    simp only [if_neg hthree, htarget]

theorem scalarOption_append (read : String → Option (Setting F)) (phase : Phase)
    (argv beyond : List String) (plan : Plan F) :
    scalarOption ratios read phase argv.length (argv ++ beyond) plan =
      scalarOption ratios read phase argv.length argv plan := by
  rw [scalarOption, scalarOption, parseTargetNumber_append]
  cases parseTargetNumber ratios argv.length argv plan with
  | error stop => rfl
  | ok result =>
    obtain ⟨args, who, plan₁⟩ := result
    simp only [bind, Except.bind]
    by_cases hcount : (argv.length : Int) ≤ args + 1
    · rw [argCountCheck, if_pos hcount]
    · rw [argCountCheck, if_neg hcount, arg_append (by omega)]

theorem Told.of_count {phase : Phase} {call : Call} (h : call.argCount = call.argv.length) :
    Told ratios phase call where
  count := h
  counted := by
    intro args hcheck
    rw [argCountCheck, h] at hcheck
    split at hcheck
    · cases hcheck
    · omega
  targetNumber := by
    intro beyond plan
    rw [h]
    exact parseTargetNumber_append call.argv beyond plan
  checked := by
    intro read beyond plan
    rw [h]
    exact scalarOption_append read phase call.argv beyond plan

/-! ## Every handler uses its option -/

def UsesOption (func : Handler F) : Prop :=
  ∀ phase argc argv plan plan' used, func phase argc argv plan = .ok (plan', used) → 1 ≤ used

theorem scalarOption_usesOption (read : String → Option (Setting F)) :
    UsesOption (scalarOption ratios read) := by
  intro phase argc argv plan plan' used h
  obtain ⟨⟨args, who, plan₁⟩, -, h⟩ := bind_eq_ok h
  obtain ⟨-, -, h⟩ := bind_eq_ok h
  obtain ⟨text, -, h⟩ := bind_eq_ok h
  split at h
  · cases h
  · obtain ⟨plan₂, -, h⟩ := bind_eq_ok h
    cases h
    split <;> omega

theorem xddfuncEndtoend_usesOption : UsesOption (xddfuncEndtoend ratios) := by
  intro phase argc argv plan plan' used h
  rw [xddfuncEndtoend] at h
  split at h
  · cases h
  obtain ⟨⟨args, who, plan₁⟩, -, h⟩ := bind_eq_ok h
  obtain ⟨-, -, h⟩ := bind_eq_ok h
  obtain ⟨word, -, h⟩ := bind_eq_ok h
  obtain ⟨⟨s, words⟩, -, h⟩ := bind_eq_ok h
  obtain ⟨plan₂, -, h⟩ := bind_eq_ok h
  cases h
  omega

theorem xddfuncTarget_usesOption : UsesOption (xddfuncTarget ratios) := by
  intro phase argc argv plan plan' used h
  cases phase with
  | phase1 =>
    obtain ⟨plan₁, -, h⟩ := bind_eq_ok h
    cases h
    decide
  | phase2 =>
    cases h
    decide

theorem one_le_targetsUsed (count : Int) : 1 ≤ targetsUsed count := by
  rw [targetsUsed]
  split <;> omega

theorem xddfuncTargets_usesOption : UsesOption (xddfuncTargets ratios) := by
  intro phase argc argv plan plan' used h
  obtain ⟨text, -, h⟩ := bind_eq_ok h
  cases phase with
  | phase1 =>
    dsimp only at h
    split at h
    · cases h
    · obtain ⟨plan₁, -, h⟩ := bind_eq_ok h
      cases h
      exact one_le_targetsUsed _
  | phase2 =>
    cases h
    exact one_le_targetsUsed _

theorem otherOption_usesOption (option : OtherOption) : UsesOption (otherOption ratios option) := by
  intro phase argc argv plan plan' used h
  rw [otherOption] at h
  split at h
  · cases h
  split at h
  · obtain ⟨result, -, h⟩ := bind_eq_ok h
    cases h
    omega
  · cases h
    omega

theorem xddFunc_usesOption (ratios : Ratios F) : ∀ row ∈ xddFunc ratios, UsesOption row.2.2 := by
  have hscalar (read : String → Option (Setting F)) : UsesOption (scalarOption ratios read) :=
    scalarOption_usesOption read
  simp only [xddFunc, List.forall_mem_cons]
  exact ⟨hscalar _, hscalar _, xddfuncEndtoend_usesOption, hscalar _, hscalar _, hscalar _,
    hscalar _, hscalar _, hscalar _, hscalar _, hscalar _, xddfuncTarget_usesOption,
    xddfuncTargets_usesOption, xddfuncEndtoend_usesOption,
    fun _ h => absurd h List.not_mem_nil⟩

theorem handler_usesOption {name : String} {func : Handler F}
    (h : handler ratios others name = some func) : UsesOption func := by
  rw [handler] at h
  split at h
  · next func' hrow =>
    cases h
    exact xddFunc_usesOption ratios _ (List.mem_of_find?_eq_some hrow)
  · obtain ⟨option, -, rfl⟩ := Option.map_eq_some_iff.mp h
    exact otherOption_usesOption option

/-! ## The number of words that are left -/

/-- With a number that is too high, the next handler is told the wrong one. -/
theorem told_of_high {phase : Phase} (argv : List String) {left : Int} {plan : Plan F}
    (hhigh : argv.length < left) :
    (∀ call ∈ (tracedArgs ratios others phase 0 left argv plan).1, Told ratios phase call) ↔
      nextHandled ratios others argv = false := by
  induction argv with
  | nil => exact ⟨fun _ => rfl, fun _ call hcall => absurd hcall List.not_mem_nil⟩
  | cons word argv ih =>
    rw [List.length_cons] at hhigh
    rw [tracedArgs, if_neg (by omega), nextHandled, List.findSome?_cons]
    cases optionName word with
    | none => exact ih (by omega)
    | some name =>
      dsimp only
      cases handler ratios others name with
      | none => exact ⟨fun _ => rfl, fun _ call hcall => absurd hcall List.not_mem_nil⟩
      | some func =>
        dsimp only
        have hwrong : ¬ Told ratios phase ⟨left, word :: argv⟩ := by
          intro htold
          have hcount : left = (word :: argv).length := htold.count
          rw [List.length_cons] at hcount
          omega
        refine iff_of_false ?_ (by simp)
        intro htold
        apply hwrong
        apply htold
        cases func phase left (word :: argv) plan with
        | error stop => exact List.mem_cons_self
        | ok result => exact List.mem_cons_self

/-- With the right number behind the words that an option has used, it stays right until a word
is passed over. -/
theorem told_of_left {phase : Phase} (argv : List String) {skip : Nat} {left : Int} {plan : Plan F}
    (hleft : left = argv.length - skip) :
    (∀ call ∈ (tracedArgs ratios others phase skip left argv plan).1, Told ratios phase call) ↔
      strayLast ratios others phase skip argv plan = true := by
  induction argv generalizing skip left plan with
  | nil =>
    cases skip <;>
    · exact ⟨fun _ => rfl, fun _ call hcall => absurd hcall List.not_mem_nil⟩
  | cons word argv ih =>
    rw [List.length_cons] at hleft
    cases skip with
    | succ skip =>
      rw [tracedArgs, strayLast]
      exact ih (by omega)
    | zero =>
      obtain rfl : left = argv.length + 1 := by omega
      rw [tracedArgs, if_neg (by omega), strayLast]
      cases optionName word with
      | none =>
        dsimp only
        rw [told_of_high argv (by omega), Bool.not_eq_true']
      | some name =>
        dsimp only
        cases hfunc : handler ratios others name with
        | none => exact ⟨fun _ => rfl, fun _ call hcall => absurd hcall List.not_mem_nil⟩
        | some func =>
          dsimp only
          have hfirst : Told ratios phase ⟨argv.length + 1, word :: argv⟩ :=
            .of_count (by rw [List.length_cons]; push_cast; rfl)
          cases hresult : func phase (argv.length + 1) (word :: argv) plan with
          | error stop =>
            exact ⟨fun _ => rfl, fun _ => List.forall_mem_singleton.mpr hfirst⟩
          | ok result =>
            obtain ⟨plan₁, used⟩ := result
            have hused := handler_usesOption hfunc _ _ _ _ _ _ hresult
            dsimp only
            rw [List.forall_mem_cons, and_iff_right hfirst]
            exact ih (by omega)

end

/-- Every handler is told the true number of words exactly if, once a word has been passed over,
no option with a handler follows. -/
theorem told_iff {F : Type} (ratios : Ratios F) (others : String → Option OtherOption)
    (phase : Phase) (argv : List String) (plan : Plan F) :
    (∀ call ∈ calls ratios others phase argv plan, Told ratios phase call) ↔
      strayLast ratios others phase 0 argv plan = true :=
  told_of_left argv (by omega)

/-- A word is passed over, and the size is missing. -/
def strayLine : List String := ["stray", "-reqsize"]

/-- The handler is told of two words where there is one, and looks for a target in the second. -/
theorem reqsize_beyond :
    ⟨2, ["-reqsize"]⟩ ∈ calls wholeRatios (fun _ => none) .phase1 strayLine ⟨fun _ => none, 0⟩ ∧
      ¬ Told wholeRatios .phase1 ⟨2, ["-reqsize"]⟩ ∧
      xddfuncReqsize wholeRatios .phase1 2 ["-reqsize"] ⟨fun _ => none, 0⟩ = .error .crash := by
  refine ⟨?_, ?_, rfl⟩
  · have hcalls : calls wholeRatios (fun _ => none) .phase1 strayLine ⟨fun _ => none, 0⟩ =
        [⟨2, ["-reqsize"]⟩] := by decide +kernel
    rw [hcalls]
    exact List.mem_cons_self
  · intro htold
    exact absurd htold.count (by decide)

end Xdd.Options
