import Xdd.Lite.Options

/-!
# From the command line of xdd-lite to its plan

The options are read one after the other. A target specification starts a new target, and an
option of a target goes to the one before it. What is accepted is checked and put into the
attributes of the targets of the plan. An option is given as `getopt_long` returns it, with its
argument.
-/

namespace Xdd.Lite

open Text

/-! ## The command line -/

/-- What `getopt_long` returns. -/
inductive Opt where
  | again
  | blockSize (val : List Char)
  | help
  | requestSize (val : List Char)
  | verbose
  | itarget (val : List Char)
  | otarget (val : List Char)
  | mtarget (val : List Char)
  | access (val : List Char)
  | directIo
  | length (val : List Char)
  | numThreads (val : List Char)
  | policy (val : List Char)
  | startOffset (val : List Char)
  | targetHelp
  | targetVerbose
  /-- `?`, or a letter without a case -/
  | unknown
deriving DecidableEq, Repr

/-- `xdd_lite_options_init`. -/
def Options.init : Options where
  againFlag := 0
  blockSize := 4096
  helpFlag := 0
  requestSize := 1
  verboseFlag := 0
  numTargets := 0
  defaultTargetLength := 0
  targets := []

/-- `xdd_lite_target_options_init` and what `parse_itarget` and `parse_otarget` set. -/
def TargetOptions.init (type : TargetType) (val : List Char) : TargetOptions where
  type := type
  uri := val.take 255
  access := .nullAccess
  dioFlag := 0
  length := 0
  numThreads := 1
  policy := .nullPolicy
  startOffset := 0

/-- The new target goes to the end of the list. -/
def Options.addTarget (opts : Options) (target : TargetOptions) : Options :=
  { opts with targets := opts.targets ++ [target], numTargets := opts.numTargets + 1 }

/-- `parse_block_size`. -/
def parseBlockSize (opts : Options) (val : List Char) : Int × Options :=
  let p := strtoul 0 val
  if p.errno = ERANGE then (1, opts)
  else if p.rest ≠ [] then (1, opts)
  else (0, { opts with blockSize := p.num })

/-- The result of `strncmp` with the length of the argument: is the argument the beginning of
the word? -/
def begins (word : String) (val : List Char) : Bool := val.isPrefixOf word.toList

/-- The word that `parse_target_access` takes the argument for. -/
def accessType (val : List Char) : Option AccessType :=
  if begins "loose" val then some .loose
  else if begins "random" val then some .random
  else if begins "serial" val then some .serial
  else if begins "unordered" val then some .unordered
  else none

/-- `parse_target_access`. -/
def parseTargetAccess (opts : Options) (val : List Char) : Int × Options :=
  match opts.toTail, accessType val with
  | none, _ | some _, none => (1, opts)
  | some target, some access => (0, opts.setTail { target with access := access })

/-- `parse_target_direct_io`. -/
def parseTargetDirectIo (opts : Options) : Int × Options :=
  match opts.toTail with
  | none => (1, opts)
  | some target => (0, opts.setTail { target with dioFlag := 1 })

/-- `parse_target_policy`. -/
def parseTargetPolicy (opts : Options) (val : List Char) : Int × Options :=
  match opts.toTail with
  | none => (1, opts)
  | some target =>
    if begins "any" val then (0, opts.setTail { target with policy := .any }) else (1, opts)

/-- `parse_target_help`: the flag of all of xdd-lite. -/
def parseTargetHelp (opts : Options) : Int × Options :=
  (if opts.toTail = none then 1 else 0, { opts with helpFlag := 1 })

/-- `parse_target_verbose`. -/
def parseTargetVerbose (opts : Options) : Int × Options :=
  (if opts.toTail = none then 1 else 0, { opts with verboseFlag := 1 })

/-- The `errno` that an option leaves behind: only the numeric ones touch it. -/
def errnoAfter (errno : Nat) : Opt → Nat
  | .blockSize val | .requestSize val | .length val | .numThreads val => (strtoul 0 val).errno
  | .startOffset val => (strtoul errno val).errno
  | _ => errno

/-- The case of an option; `none` is the write through a null pointer in
`parse_target_num_threads`. -/
def parseOpt (errno : Nat) (opts : Options) : Opt → Option (Int × Options)
  | .again => some (0, { opts with againFlag := 1 })
  | .blockSize val => some (parseBlockSize opts val)
  | .help => some (0, { opts with helpFlag := 1 })
  | .requestSize val => some (parseRequestSize opts val)
  | .verbose => some (0, { opts with verboseFlag := 1 })
  | .itarget val => some (0, opts.addTarget (.init .inTarget val))
  | .otarget val => some (0, opts.addTarget (.init .outTarget val))
  | .mtarget _ => some (1, opts)
  | .access val => some (parseTargetAccess opts val)
  | .directIo => some (parseTargetDirectIo opts)
  | .length val => some (parseTargetLength opts val)
  | .numThreads val => parseTargetNumThreads opts val
  | .policy val => some (parseTargetPolicy opts val)
  | .startOffset val => some (parseTargetStartOffset errno opts val)
  | .targetHelp => some (parseTargetHelp opts)
  | .targetVerbose => some (parseTargetVerbose opts)
  | .unknown => some (1, opts)

/-- The loop of `xdd_lite_options_parse`; the first error ends it. -/
def parseLoop (errno : Nat) (opts : Options) : List Opt → Option (Int × Options)
  | [] => some (0, opts)
  | opt :: rest =>
    match parseOpt errno opts opt with
    | none => none
    | some (rc, opts) =>
      if rc = 0 then parseLoop (errnoAfter errno opt) opts rest else some (1, opts)

/-! ## The checks -/

/-- The variables of the loop in `validate_options`. -/
structure Validation where
  activeTargetLength : Nat
  hasItarget : Bool
  hasOtarget : Bool
  rc : Nat
deriving DecidableEq, Repr

def isXniTarget (target : TargetOptions) : Bool := "xni://".toList.isPrefixOf target.uri

/-- One turn of the loop. -/
def Validation.check (v : Validation) (target : TargetOptions) : Validation :=
  let xni := if isXniTarget target ∧ target.startOffset ≠ 0 then 1
    else if isXniTarget target ∧ target.dioFlag ≠ 0 then 1 else 0
  let active := if v.activeTargetLength = 0 ∧ target.length ≠ 0 then target.length
    else v.activeTargetLength
  let mismatch := if target.length ≠ 0 ∧ target.length ≠ active then 1 else 0
  { activeTargetLength := active
    hasItarget := v.hasItarget || target.type == .inTarget
    hasOtarget := v.hasOtarget || target.type == .outTarget
    rc := v.rc + xni + mismatch }

/-- `validate_options`. -/
def validateOptions (opts : Options) : Nat :=
  if opts.numTargets = 0 then 1
  else
    let v := opts.targets.foldl Validation.check ⟨0, false, false, 0⟩
    v.rc + (if v.hasItarget ∧ v.hasOtarget then 0 else 1) +
      if v.activeTargetLength = 0 then 1 else 0

/-! ## The plan -/

/-- `struct xdd_target_attributes`. -/
structure TargetAttributes where
  type : TargetType
  uri : List Char
  dioFlag : Int
  numThreads : Nat
  startOffset : Nat
  length : Nat
deriving DecidableEq, Repr

/-- The target and plan attributes that `xdd_lite_options_plan_create` hands to
`xdd_plan_init`. -/
structure Plan where
  blockSize : Nat
  requestSize : Nat
  targets : List TargetAttributes
deriving DecidableEq, Repr

def targetAttributes (opts : Options) (target : TargetOptions) : TargetAttributes where
  type := target.type
  uri := target.uri.take 2047
  dioFlag := target.dioFlag
  numThreads := target.numThreads
  startOffset := target.startOffset
  length := if target.length ≠ 0 then target.length else opts.defaultTargetLength

/-- `xdd_lite_options_plan_create`; a target that is neither for input nor for output makes it
fail. -/
def planCreate (opts : Options) : Option Plan :=
  if opts.targets.all fun target => target.type == .inTarget || target.type == .outTarget then
    some {
      blockSize := opts.blockSize
      requestSize := opts.requestSize
      targets := opts.targets.map (targetAttributes opts) }
  else none

inductive Outcome where
  /-- the usage, with exit status 1 for an error and 0 for a request -/
  | usage (status : Nat)
  /-- the options do not go together -/
  | invalid
  | plan (plan : Plan)
deriving DecidableEq, Repr

/-- `main` up to the start of the plan; `none` is a crash. -/
def main (args : List Opt) : Option Outcome :=
  match parseLoop 0 .init args with
  | none => none
  | some (rc, opts) =>
    if rc ≠ 0 then some (.usage 1)
    else if opts.helpFlag = 1 then some (.usage 0)
    else if validateOptions opts ≠ 0 then some .invalid
    else
      match planCreate opts with
      | none => some .invalid
      | some plan => some (.plan plan)

/-! ## Each option of a target goes to the specification before it -/

/-- The target that a specification starts. -/
def Opt.start : Opt → Option TargetOptions
  | .itarget val => some (.init .inTarget val)
  | .otarget val => some (.init .outTarget val)
  | _ => none

/-- What an accepted option does to its target. -/
def TargetOptions.apply (target : TargetOptions) : Opt → TargetOptions
  | .access val => { target with access := (accessType val).getD target.access }
  | .directIo => { target with dioFlag := 1 }
  | .length val => { target with length := (strtoul 0 val).num }
  | .numThreads val => { target with numThreads := (strtoul 0 val).num }
  | .policy _ => { target with policy := .any }
  | .startOffset val => { target with startOffset := (strtoul 0 val).num }
  | _ => target

/-- The options up to the next specification. -/
def ownOptions (args : List Opt) : List Opt := args.takeWhile fun opt => opt.start.isNone

/-- The targets of a command line, each with its options. -/
def specified : List Opt → List TargetOptions
  | [] => []
  | opt :: rest =>
    match opt.start with
    | some target => (ownOptions rest).foldl TargetOptions.apply target :: specified rest
    | none => specified rest

/-- The targets after some options of the last one. -/
def continued (targets : List TargetOptions) (args : List Opt) : List TargetOptions :=
  match targets.getLast? with
  | none => targets
  | some target => targets.dropLast ++ [args.foldl TargetOptions.apply target]

theorem continued_nil (targets : List TargetOptions) : continued targets [] = targets := by
  unfold continued
  split
  · rfl
  · next target htail => exact List.dropLast_append_getLast? target htail

theorem continued_concat (targets : List TargetOptions) (target : TargetOptions)
    (args : List Opt) : continued (targets ++ [target]) args =
      targets ++ [args.foldl TargetOptions.apply target] := by
  simp [continued]

theorem continued_cons (targets : List TargetOptions) (opt : Opt) (args : List Opt) :
    continued targets (opt :: args) = continued (continued targets [opt]) args := by
  obtain rfl | ⟨init, target, rfl⟩ := List.eq_nil_or_concat targets
  · rfl
  · rw [List.concat_eq_append, continued_concat, continued_concat, continued_concat]
    rfl

/-- The number does not depend on `errno`. -/
theorem strtoul_num (errno : Nat) (val : List Char) :
    (strtoul errno val).num = (strtoul 0 val).num := by
  unfold strtoul
  dsimp only
  split
  · rfl
  · split <;> rfl

/-- Writing through `to_tail` what the option says. -/
theorem continued_of_toTail {opts : Options} {target : TargetOptions}
    (htail : opts.toTail = some target) (opt : Opt) :
    continued opts.targets [opt] = opts.targets.dropLast ++ [target.apply opt] := by
  have htargets : opts.targets.getLast? = some target := htail
  rw [continued, htargets]
  rfl

/-- An option that touches no target. -/
theorem continued_of_apply_eq {opt : Opt} (h : ∀ target : TargetOptions, target.apply opt = target)
    (targets : List TargetOptions) : continued targets [opt] = targets := by
  unfold continued
  split
  · rfl
  · next target htail =>
    rw [List.foldl_cons, List.foldl_nil, h]
    exact List.dropLast_append_getLast? target htail

/-- The value of an option `-l`. The long option returns 'L', which is refused. -/
def Opt.lengthValue : Opt → Option Nat
  | .length val => some (strtoul 0 val).num
  | _ => none

/-- What an option that is accepted does: the default is the last length. -/
theorem parseOpt_accepted {errno : Nat} {opts opts' : Options} {opt : Opt}
    (h : parseOpt errno opts opt = some (0, opts')) :
    (opts'.targets = match opt.start with
      | some target => opts.targets ++ [target]
      | none => continued opts.targets [opt]) ∧
    opts'.defaultTargetLength = opt.lengthValue.getD opts.defaultTargetLength := by
  cases opt with
  | again | help | verbose =>
    cases h
    exact ⟨(continued_of_apply_eq (fun _ => rfl) _).symm, rfl⟩
  | itarget val | otarget val =>
    cases h
    exact ⟨rfl, rfl⟩
  | mtarget val | unknown => cases h
  | blockSize val =>
    simp only [parseOpt, parseBlockSize, Option.some.injEq] at h
    split_ifs at h
    · cases h
    · cases h
    · cases h
      exact ⟨(continued_of_apply_eq (fun _ => rfl) _).symm, rfl⟩
  | requestSize val =>
    simp only [parseOpt, parseRequestSize, Option.some.injEq] at h
    split_ifs at h
    · cases h
    · cases h
    · cases h
      exact ⟨(continued_of_apply_eq (fun _ => rfl) _).symm, rfl⟩
  | access val =>
    simp only [parseOpt, parseTargetAccess, Option.some.injEq] at h
    split at h
    · cases h
    · cases h
    · next target access htail haccess =>
      cases h
      have htargets := continued_of_toTail htail (.access val)
      rw [TargetOptions.apply, haccess] at htargets
      exact ⟨htargets.symm, rfl⟩
  | directIo =>
    simp only [parseOpt, parseTargetDirectIo, Option.some.injEq] at h
    split at h
    · cases h
    · next target htail =>
      cases h
      exact ⟨(continued_of_toTail htail .directIo).symm, rfl⟩
  | length val =>
    simp only [parseOpt, parseTargetLength, Option.some.injEq] at h
    split at h
    · cases h
    · next target htail =>
      split_ifs at h
      · cases h
      · cases h
      · cases h
        exact ⟨(continued_of_toTail htail (.length val)).symm, rfl⟩
  | numThreads val =>
    simp only [parseOpt, parseTargetNumThreads] at h
    split at h
    · cases h
    · split at h
      · cases h
      · split at h
        · cases h
        · next target htail =>
          obtain ⟨-, rfl⟩ := Prod.mk.inj (Option.some.inj h)
          exact ⟨(continued_of_toTail htail (.numThreads val)).symm, rfl⟩
  | policy val =>
    simp only [parseOpt, parseTargetPolicy, Option.some.injEq] at h
    split at h
    · cases h
    · next target htail =>
      split_ifs at h
      · cases h
        exact ⟨(continued_of_toTail htail (.policy val)).symm, rfl⟩
      · cases h
  | startOffset val =>
    simp only [parseOpt, parseTargetStartOffset, Option.some.injEq] at h
    split at h
    · cases h
    · next target htail =>
      split_ifs at h
      · cases h
      · cases h
      · cases h
        have htargets := continued_of_toTail htail (.startOffset val)
        rw [TargetOptions.apply, ← strtoul_num errno] at htargets
        exact ⟨htargets.symm, rfl⟩
  | targetHelp | targetVerbose =>
    obtain ⟨-, rfl⟩ := Prod.mk.inj (Option.some.inj h)
    exact ⟨(continued_of_apply_eq (fun _ => rfl) _).symm, rfl⟩

/-- The first option of a command line that is accepted. -/
theorem parseLoop_cons {errno : Nat} {opts opts' : Options} {opt : Opt} {rest : List Opt}
    (h : parseLoop errno opts (opt :: rest) = some (0, opts')) :
    ∃ opts₁, parseOpt errno opts opt = some (0, opts₁) ∧
      parseLoop (errnoAfter errno opt) opts₁ rest = some (0, opts') := by
  rw [parseLoop] at h
  split at h
  · cases h
  · next rc opts₁ hopt =>
    split_ifs at h with hrc
    · subst hrc
      exact ⟨opts₁, hopt, h⟩
    · cases h

theorem parseLoop_targets {errno : Nat} {opts opts' : Options} {args : List Opt}
    (h : parseLoop errno opts args = some (0, opts')) :
    opts'.targets = continued opts.targets (ownOptions args) ++ specified args := by
  induction args generalizing errno opts with
  | nil =>
    cases h
    rw [ownOptions, List.takeWhile_nil, continued_nil, specified, List.append_nil]
  | cons opt rest ih =>
    obtain ⟨opts₁, hopt, hrest⟩ := parseLoop_cons h
    have htargets := (parseOpt_accepted hopt).1
    rw [ih hrest]
    cases hstart : opt.start with
    | some target =>
      rw [hstart] at htargets
      have hown : ownOptions (opt :: rest) = [] := by simp [ownOptions, hstart]
      rw [htargets, continued_concat, specified, hstart, hown, continued_nil, List.append_assoc]
      rfl
    | none =>
      rw [hstart] at htargets
      rw [htargets, ← continued_cons, specified, hstart]
      simp [ownOptions, hstart]

/-! ## The lengths in the plan -/

/-- The value of the last `-l` on the command line, 0 if there is none. -/
def lastLength (args : List Opt) : Nat := (args.filterMap Opt.lengthValue).getLastD 0

theorem parseLoop_default {errno : Nat} {opts opts' : Options} {args : List Opt}
    (h : parseLoop errno opts args = some (0, opts')) : opts'.defaultTargetLength =
      (args.filterMap Opt.lengthValue).getLastD opts.defaultTargetLength := by
  induction args generalizing errno opts with
  | nil =>
    cases h
    rfl
  | cons opt rest ih =>
    obtain ⟨opts₁, hopt, hrest⟩ := parseLoop_cons h
    rw [ih hrest, (parseOpt_accepted hopt).2]
    cases hvalue : opt.lengthValue with
    | none => rw [List.filterMap_cons_none hvalue, Option.getD_none]
    | some n => rw [List.filterMap_cons_some hvalue, Option.getD_some, List.getLastD_cons]

/-- A default other than 0 is the length of a target. -/
def DefaultUsed (opts : Options) : Prop :=
  opts.defaultTargetLength ≠ 0 →
    ∃ target ∈ opts.targets, target.length = opts.defaultTargetLength

/-- Only `-l` changes the length of a target. -/
theorem TargetOptions.apply_length {opt : Opt} (h : opt.lengthValue = none)
    (target : TargetOptions) : (target.apply opt).length = target.length := by
  cases opt with
  | length val => cases h
  | _ => rfl

theorem defaultUsed_step {errno : Nat} {opts opts' : Options} {opt : Opt}
    (hused : DefaultUsed opts) (h : parseOpt errno opts opt = some (0, opts')) :
    DefaultUsed opts' := by
  obtain ⟨htargets, hdefault⟩ := parseOpt_accepted h
  intro hne
  cases hstart : opt.start with
  | some target =>
    have hvalue : opt.lengthValue = none := by cases opt <;> first | rfl | cases hstart
    rw [hvalue, Option.getD_none] at hdefault
    rw [hdefault] at hne ⊢
    obtain ⟨t, ht, hlength⟩ := hused hne
    rw [htargets, hstart]
    exact ⟨t, List.mem_append_left _ ht, hlength⟩
  | none =>
    rw [hstart] at htargets
    dsimp only at htargets
    obtain hnil | ⟨init, target, hconcat⟩ := List.eq_nil_or_concat opts.targets
    · -- an option of a target needs one, and the default is not touched by the others
      have hvalue : opt.lengthValue = none := by
        cases opt with
        | length val => simp [parseOpt, parseTargetLength, Options.toTail, hnil] at h
        | _ => rfl
      rw [hvalue, Option.getD_none] at hdefault
      rw [hdefault] at hne
      obtain ⟨t, ht, -⟩ := hused hne
      rw [hnil] at ht
      cases ht
    · rw [List.concat_eq_append] at hconcat
      rw [hconcat, continued_concat, List.foldl_cons, List.foldl_nil] at htargets
      rw [htargets]
      cases hvalue : opt.lengthValue with
      | some n =>
        refine ⟨target.apply opt, by simp, ?_⟩
        rw [hdefault, hvalue]
        cases opt with
        | length val =>
          cases hvalue
          rfl
        | _ => cases hvalue
      | none =>
        rw [hvalue, Option.getD_none] at hdefault
        rw [hdefault] at hne ⊢
        obtain ⟨t, ht, hlength⟩ := hused hne
        rw [hconcat, List.mem_append, List.mem_singleton] at ht
        obtain ht | rfl := ht
        · exact ⟨t, by simp [ht], hlength⟩
        · exact ⟨t.apply opt, by simp, (t.apply_length hvalue).trans hlength⟩

theorem parseLoop_defaultUsed {errno : Nat} {opts opts' : Options} {args : List Opt}
    (hused : DefaultUsed opts) (h : parseLoop errno opts args = some (0, opts')) :
    DefaultUsed opts' := by
  induction args generalizing errno opts with
  | nil =>
    cases h
    exact hused
  | cons opt rest ih =>
    obtain ⟨opts₁, hopt, hrest⟩ := parseLoop_cons h
    exact ih (defaultUsed_step hused hopt) hrest

/-- What a loop without complaints has seen. -/
structure Validated (v v' : Validation) (targets : List TargetOptions) : Prop where
  before : v.rc = 0
  active : v.activeTargetLength ≠ 0 → v'.activeTargetLength = v.activeTargetLength
  lengths : ∀ target ∈ targets, target.length ≠ 0 → target.length = v'.activeTargetLength
  used : v'.activeTargetLength = v.activeTargetLength ∨
    ∃ target ∈ targets, target.length = v'.activeTargetLength
  xni : ∀ target ∈ targets, isXniTarget target → target.startOffset = 0 ∧ target.dioFlag = 0
  itarget : v'.hasItarget = true →
    v.hasItarget = true ∨ ∃ target ∈ targets, target.type = .inTarget
  otarget : v'.hasOtarget = true →
    v.hasOtarget = true ∨ ∃ target ∈ targets, target.type = .outTarget

/-- A turn without a complaint. -/
theorem validated_check {v : Validation} {target : TargetOptions}
    (h : (v.check target).rc = 0) : Validated v (v.check target) [target] := by
  simp only [Validation.check] at h
  have hmismatch : ¬ (target.length ≠ 0 ∧ target.length ≠
      if v.activeTargetLength = 0 ∧ target.length ≠ 0 then target.length
      else v.activeTargetLength) := by
    intro hne
    rw [if_pos hne] at h
    omega
  have hxni : isXniTarget target → target.startOffset = 0 ∧ target.dioFlag = 0 := by
    intro hxni
    by_contra hnot
    by_cases hoffset : target.startOffset = 0
    · have hdio : target.dioFlag ≠ 0 := fun hdio => hnot ⟨hoffset, hdio⟩
      simp [hxni, hoffset, hdio] at h
    · simp [hxni, hoffset] at h
  refine ⟨by omega, ?_, ?_, ?_, ?_, ?_, ?_⟩
  · intro hne
    exact if_neg fun hzero => hne hzero.1
  · intro t ht hne
    obtain rfl := List.mem_singleton.mp ht
    exact not_not.mp fun hlength => hmismatch ⟨hne, hlength⟩
  · by_cases hzero : v.activeTargetLength = 0 ∧ target.length ≠ 0
    · exact .inr ⟨target, List.mem_singleton_self _, (if_pos hzero).symm⟩
    · exact .inl (if_neg hzero)
  · intro t ht
    obtain rfl := List.mem_singleton.mp ht
    exact hxni
  · intro htype
    obtain htype | htype := Bool.or_eq_true_iff.mp htype
    · exact .inl htype
    · exact .inr ⟨target, List.mem_singleton_self _, by simpa using htype⟩
  · intro htype
    obtain htype | htype := Bool.or_eq_true_iff.mp htype
    · exact .inl htype
    · exact .inr ⟨target, List.mem_singleton_self _, by simpa using htype⟩

/-- Two stretches of the loop, one behind the other. -/
theorem Validated.append {v v₁ v₂ : Validation} {targets rest : List TargetOptions}
    (h : Validated v v₁ targets) (hrest : Validated v₁ v₂ rest) :
    Validated v v₂ (targets ++ rest) where
  before := h.before
  active := by
    intro hne
    have heq := h.active hne
    rw [← heq]
    exact hrest.active (heq ▸ hne)
  lengths := by
    intro t ht hne
    obtain ht | ht := List.mem_append.mp ht
    · have hlength := h.lengths t ht hne
      rw [hlength, hrest.active (hlength ▸ hne)]
    · exact hrest.lengths t ht hne
  used := by
    obtain heq | ⟨t, ht, hlength⟩ := hrest.used
    · obtain heq' | ⟨t, ht, hlength⟩ := h.used
      · exact .inl (heq.trans heq')
      · exact .inr ⟨t, List.mem_append_left _ ht, hlength.trans heq.symm⟩
    · exact .inr ⟨t, List.mem_append_right _ ht, hlength⟩
  xni := by
    intro t ht
    obtain ht | ht := List.mem_append.mp ht
    · exact h.xni t ht
    · exact hrest.xni t ht
  itarget := by
    intro htype
    obtain htype | ⟨t, ht, htype⟩ := hrest.itarget htype
    · exact (h.itarget htype).imp_right fun ⟨t, ht, htype⟩ =>
        ⟨t, List.mem_append_left _ ht, htype⟩
    · exact .inr ⟨t, List.mem_append_right _ ht, htype⟩
  otarget := by
    intro htype
    obtain htype | ⟨t, ht, htype⟩ := hrest.otarget htype
    · exact (h.otarget htype).imp_right fun ⟨t, ht, htype⟩ =>
        ⟨t, List.mem_append_left _ ht, htype⟩
    · exact .inr ⟨t, List.mem_append_right _ ht, htype⟩

theorem validated_foldl {v : Validation} {targets : List TargetOptions}
    (h : (targets.foldl Validation.check v).rc = 0) :
    Validated v (targets.foldl Validation.check v) targets := by
  induction targets generalizing v with
  | nil => exact ⟨h, fun _ => rfl, nofun, .inl rfl, nofun, .inl, .inl⟩
  | cons target rest ih =>
    have hrest := ih h
    exact (validated_check hrest.before).append hrest

/-- Accepted options have targets of both kinds, and their lengths that are not 0 are the
same. -/
structure Consistent (opts : Options) : Prop where
  itarget : ∃ target ∈ opts.targets, target.type = .inTarget
  otarget : ∃ target ∈ opts.targets, target.type = .outTarget
  xni : ∀ target ∈ opts.targets, isXniTarget target → target.startOffset = 0 ∧ target.dioFlag = 0
  lengths : ∃ length, length ≠ 0 ∧ (∃ target ∈ opts.targets, target.length = length) ∧
    ∀ target ∈ opts.targets, target.length ≠ 0 → target.length = length

theorem consistent_of_validate {opts : Options} (h : validateOptions opts = 0) :
    Consistent opts := by
  simp only [validateOptions] at h
  split at h
  · cases h
  have hactive : (opts.targets.foldl Validation.check ⟨0, false, false, 0⟩).activeTargetLength ≠
      0 := by
    intro hzero
    rw [if_pos hzero] at h
    omega
  have hboth : (opts.targets.foldl Validation.check ⟨0, false, false, 0⟩).hasItarget ∧
      (opts.targets.foldl Validation.check ⟨0, false, false, 0⟩).hasOtarget := by
    by_contra hnot
    rw [if_neg hnot] at h
    omega
  have hvalid := validated_foldl
    (Nat.eq_zero_of_add_eq_zero_right (Nat.eq_zero_of_add_eq_zero_right h))
  refine ⟨?_, ?_, hvalid.xni, _, hactive, ?_, hvalid.lengths⟩
  · exact (hvalid.itarget hboth.1).resolve_left (by simp)
  · exact (hvalid.otarget hboth.2).resolve_left (by simp)
  · exact hvalid.used.resolve_left hactive

/-- The options behind a plan. -/
theorem main_plan {args : List Opt} {plan : Plan} (h : main args = some (.plan plan)) :
    ∃ opts, parseLoop 0 .init args = some (0, opts) ∧ validateOptions opts = 0 ∧
      planCreate opts = some plan := by
  rw [main] at h
  split at h
  · cases h
  · next rc opts hparse =>
    split at h
    · cases h
    · next hrc =>
      split at h
      · cases h
      · split at h
        · cases h
        · next hvalid =>
          split at h
          · cases h
          · next plan' hplan =>
            cases h
            exact ⟨opts, not_not.mp hrc ▸ hparse, not_not.mp hvalid, hplan⟩

theorem planCreate_targets {opts : Options} {plan : Plan} (h : planCreate opts = some plan) :
    plan.targets = opts.targets.map (targetAttributes opts) := by
  rw [planCreate] at h
  split_ifs at h
  cases h
  rfl

/-- Reads four blocks from one file and writes them to another one, without direct I/O there. -/
def twoFiles : List Opt :=
  [.itarget "a".toList, .directIo, .length "16384".toList, .otarget "b".toList]

/-- A plan that is started has a target to read from and one to write to, and no start offset or
direct I/O where it does not make sense. -/
theorem plan_consistent {args : List Opt} {plan : Plan} (h : main args = some (.plan plan)) :
    (∃ target ∈ plan.targets, target.type = .inTarget) ∧
      (∃ target ∈ plan.targets, target.type = .outTarget) ∧
      ∀ target ∈ plan.targets, "xni://".toList.isPrefixOf target.uri →
        target.startOffset = 0 ∧ target.dioFlag = 0 := by
  obtain ⟨opts, hparse, hvalid, hplan⟩ := main_plan h
  have hconsistent := consistent_of_validate hvalid
  rw [planCreate_targets hplan]
  refine ⟨?_, ?_, ?_⟩
  · obtain ⟨target, htarget, htype⟩ := hconsistent.itarget
    exact ⟨_, List.mem_map_of_mem htarget, htype⟩
  · obtain ⟨target, htarget, htype⟩ := hconsistent.otarget
    exact ⟨_, List.mem_map_of_mem htarget, htype⟩
  · intro attributes hattributes hxni
    obtain ⟨target, htarget, rfl⟩ := List.mem_map.mp hattributes
    refine hconsistent.xni target htarget ?_
    rw [List.isPrefixOf_iff_prefix] at hxni
    rw [isXniTarget, List.isPrefixOf_iff_prefix]
    exact hxni.trans (List.take_prefix _ _)

theorem plan_consistent_twoFiles : ∃ plan, main twoFiles = some (.plan plan) ∧
    (∃ target ∈ plan.targets, target.type = .inTarget) ∧
      (∃ target ∈ plan.targets, target.type = .outTarget) ∧
      ∀ target ∈ plan.targets, "xni://".toList.isPrefixOf target.uri →
        target.startOffset = 0 ∧ target.dioFlag = 0 := by
  have hmain : main twoFiles = some (.plan ⟨4096, 1, [⟨.inTarget, "a".toList, 1, 1, 0, 16384⟩,
      ⟨.outTarget, "b".toList, 0, 1, 0, 16384⟩]⟩) := by decide +kernel
  exact ⟨_, hmain, plan_consistent hmain⟩

/-- All targets of a plan have one length, unless the last length on the command line is 0 and a
target has been given none or 0. -/
theorem plan_lengths_iff {args : List Opt} {plan : Plan} (h : main args = some (.plan plan)) :
    (∃ length, length ≠ 0 ∧ ∀ target ∈ plan.targets, target.length = length) ↔
      lastLength args ≠ 0 ∨ ∀ target ∈ specified args, target.length ≠ 0 := by
  obtain ⟨opts, hparse, hvalid, hplan⟩ := main_plan h
  have htargets : opts.targets = specified args := parseLoop_targets hparse
  have hdefault : opts.defaultTargetLength = lastLength args := parseLoop_default hparse
  obtain ⟨length, hne, ⟨t₀, ht₀, hlength₀⟩, hsame⟩ := (consistent_of_validate hvalid).lengths
  rw [planCreate_targets hplan, ← htargets, ← hdefault]
  constructor
  · rintro ⟨length', hne', hall⟩
    by_contra hnot
    push Not at hnot
    obtain ⟨hzero, t, ht, hlength⟩ := hnot
    have heq := hall _ (List.mem_map_of_mem ht)
    rw [targetAttributes, if_neg (not_not.mpr hlength), hzero] at heq
    exact hne' heq.symm
  · intro hor
    refine ⟨length, hne, ?_⟩
    intro attributes hattributes
    obtain ⟨t, ht, rfl⟩ := List.mem_map.mp hattributes
    by_cases hlength : t.length = 0
    · -- the target has the default, which is the length of another one
      have hused : opts.defaultTargetLength ≠ 0 :=
        hor.resolve_right fun hall => hall t ht hlength
      obtain ⟨t', ht', heq⟩ := parseLoop_defaultUsed (fun hne => absurd rfl hne) hparse hused
      rw [targetAttributes, if_neg (not_not.mpr hlength), ← heq]
      exact hsame t' ht' (heq ▸ hused)
    · rw [targetAttributes, if_pos hlength]
      exact hsame t ht hlength

/-- The length of the first target is taken back by a length of 0 for the second one. -/
theorem plan_lengths_takenBack : ∃ args plan, main args = some (.plan plan) ∧
    ¬ ∃ length, length ≠ 0 ∧ ∀ target ∈ plan.targets, target.length = length := by
  have hmain : main [.itarget "a".toList, .length "8".toList, .otarget "b".toList,
      .length "0".toList] = some (.plan ⟨4096, 1, [⟨.inTarget, "a".toList, 0, 1, 0, 8⟩,
        ⟨.outTarget, "b".toList, 0, 1, 0, 0⟩]⟩) := by decide +kernel
  refine ⟨_, _, hmain, ?_⟩
  rw [plan_lengths_iff hmain]
  decide +kernel

end Xdd.Lite
