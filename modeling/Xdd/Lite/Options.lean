import Xdd.Library.Strtoul

/-!
# The numeric options of xdd-lite

An option is a string that is put into the option structure as a number. The option of a target
goes to the last one on the command line, the active one. Four parsers do this with nearly the
same checks: an active target, the range of the number, and the end of the string.
-/

namespace Xdd.Lite

open Text

/-! ## The option structure -/

inductive TargetType where
  | nullTarget | inTarget | metaTarget | outTarget
deriving DecidableEq, Repr

inductive AccessType where
  | nullAccess | loose | random | serial | unordered
deriving DecidableEq, Repr

inductive PolicyType where
  | nullPolicy | any
deriving DecidableEq, Repr

/-- `xdd_lite_target_options_t`. -/
structure TargetOptions where
  type : TargetType
  uri : List Char
  access : AccessType
  dioFlag : Int
  length : Nat
  numThreads : Nat
  policy : PolicyType
  startOffset : Nat
deriving DecidableEq, Repr

/-- `xdd_lite_options_t`. The targets are the list from `to_head` on, and `to_tail` is the last
of them, a null pointer as long as there is none. -/
structure Options where
  againFlag : Int
  blockSize : Nat
  helpFlag : Int
  requestSize : Nat
  verboseFlag : Int
  numTargets : Nat
  defaultTargetLength : Nat
  targets : List TargetOptions
deriving DecidableEq, Repr

def Options.toTail (opts : Options) : Option TargetOptions := opts.targets.getLast?

/-- Writing through `to_tail`. -/
def Options.setTail (opts : Options) (target : TargetOptions) : Options :=
  { opts with targets := opts.targets.dropLast ++ [target] }

@[simp] theorem toTail_setTail (opts : Options) (target : TargetOptions) :
    (opts.setTail target).toTail = some target :=
  List.getLast?_concat ..

/-! ## The parsers -/

/-- `parse_request_size`. -/
def parseRequestSize (opts : Options) (val : List Char) : Int × Options :=
  let p := strtoul 0 val
  if p.errno = ERANGE then (1, opts)
  else if p.rest ≠ [] then (1, opts)
  else (0, { opts with requestSize := p.num })

/-- `parse_target_length`. The length is the default of the targets that have none, too. -/
def parseTargetLength (opts : Options) (val : List Char) : Int × Options :=
  let p := strtoul 0 val
  match opts.toTail with
  | none => (1, opts)
  | some target =>
    if p.errno = ERANGE then (1, opts)
    else if p.rest ≠ [] then (1, opts)
    else (0, { opts.setTail { target with length := p.num } with defaultTargetLength := p.num })

/-- `parse_target_num_threads`. There is no `else` behind the check of the target, so the last
branch can write through a null pointer, which is `none`; and the string is refused if it ends
behind the number. -/
def parseTargetNumThreads (opts : Options) (val : List Char) : Option (Int × Options) :=
  let p := strtoul 0 val
  let rc : Int := if opts.toTail = none then 1 else 0
  if p.errno = ERANGE then some (1, opts)
  else if p.rest = [] then some (1, opts)
  else
    match opts.toTail with
    | none => none
    | some target => some (rc, opts.setTail { target with numThreads := p.num })

/-- `parse_target_start_offset`. `errno` is not reset before the number is read, and the string is
refused if it ends behind the number. -/
def parseTargetStartOffset (errno : Nat) (opts : Options) (val : List Char) : Int × Options :=
  let p := strtoul errno val
  match opts.toTail with
  | none => (1, opts)
  | some target =>
    if p.errno = ERANGE then (1, opts)
    else if p.rest = [] then (1, opts)
    else (0, opts.setTail { target with startOffset := p.num })

/-! ## All or nothing -/

/-- The string is entirely a decimal number, and the number fits into 64 bits. -/
structure IsDecimal (val : List Char) : Prop where
  ne_nil : val ≠ []
  digits : ∀ c ∈ val, c.isDigit = true
  fits : value val < 2 ^ 64

/-- A parser returns 0 exactly for a decimal number while its target is active; then the field
holds the number, and otherwise nothing has changed. -/
structure AllOrNothing (active : Prop) (field : Options → Option Nat) (opts : Options)
    (val : List Char) (result : Int × Options) : Prop where
  accepts : result.1 = 0 ↔ IsDecimal val ∧ active
  stores : result.1 = 0 → field result.2 = some (value val)
  keeps : result.1 ≠ 0 → result.2 = opts

def RequestSizeExact (opts : Options) (val : List Char) : Prop :=
  AllOrNothing True (fun opts => some opts.requestSize) opts val (parseRequestSize opts val)

def TargetLengthExact (opts : Options) (val : List Char) : Prop :=
  AllOrNothing (opts.toTail ≠ none) (fun opts => opts.toTail.map TargetOptions.length) opts val
    (parseTargetLength opts val)

/-- The parser has to return at all. -/
def NumThreadsExact (opts : Options) (val : List Char) : Prop :=
  ∃ result, parseTargetNumThreads opts val = some result ∧
    AllOrNothing (opts.toTail ≠ none) (fun opts => opts.toTail.map TargetOptions.numThreads) opts
      val result

def StartOffsetExact (errno : Nat) (opts : Options) (val : List Char) : Prop :=
  AllOrNothing (opts.toTail ≠ none) (fun opts => opts.toTail.map TargetOptions.startOffset) opts
    val (parseTargetStartOffset errno opts val)

/-! ## Strings -/

/-- The number at the front is too large. -/
def TooLarge (val : List Char) : Prop :=
  ∃ space sign digits rest, Numeral val space sign digits rest ∧ 2 ^ 64 ≤ value digits

/-- The string is not a decimal number, but `strtoul` reads it to its end: it is empty, or there
is white space or a sign in front of the number. -/
def Lenient (val : List Char) : Prop :=
  val = [] ∨ ∃ space sign digits, Numeral val space sign digits [] ∧ value digits < 2 ^ 64 ∧
    (space ≠ [] ∨ sign ≠ [])

theorem zero_ne_ERANGE : 0 ≠ ERANGE := by decide

theorem noDigit_nil : NoDigit [] := by
  intro c hc
  cases hc

theorem IsDecimal.numeral {val : List Char} (hdecimal : IsDecimal val) :
    Numeral val [] [] val [] where
  eq := by rw [List.nil_append, List.nil_append, List.append_nil]
  space := by
    intro c hc
    cases hc
  sign := .inl rfl
  digits_ne_nil := hdecimal.ne_nil
  digits := hdecimal.digits
  rest := noDigit_nil

/-- A decimal number is read as it stands. -/
theorem IsDecimal.strtoul_eq {val : List Char} (hdecimal : IsDecimal val) (errno : Nat) :
    strtoul errno val = { num := value val, rest := [], errno := errno } := by
  rw [hdecimal.numeral.strtoul_eq errno, if_pos hdecimal.fits, if_neg (by decide)]

/-- A decimal number starts with a digit. -/
theorem IsDecimal.not_lenient {val : List Char} (hdecimal : IsDecimal val) : ¬ Lenient val := by
  rintro (hnil | ⟨space, sign, digits, hnumeral, _, hfront⟩)
  · exact hdecimal.ne_nil hnil
  · have hdigit : ∀ c ∈ space ++ sign, c.isDigit = true := by
      intro c hc
      apply hdecimal.digits c
      rw [hnumeral.eq, ← List.append_assoc]
      exact List.mem_append_left _ hc
    obtain hspace | hsign := hfront
    · obtain ⟨c, space', rfl⟩ := List.exists_cons_of_ne_nil hspace
      have hc := hnumeral.space c List.mem_cons_self
      rw [isSpace_of_isDigit (hdigit c (List.mem_append_left _ List.mem_cons_self))] at hc
      cases hc
    · obtain hnil | rfl | rfl := hnumeral.sign
      · exact hsign hnil
      · exact absurd (hdigit '+' (by simp)) (by decide)
      · exact absurd (hdigit '-' (by simp)) (by decide)

/-- `errno` is `ERANGE` afterwards if it was before or the number is too large. -/
theorem strtoul_range (errno : Nat) (val : List Char) :
    (strtoul errno val).errno = ERANGE ↔ errno = ERANGE ∨ TooLarge val := by
  have hlarge : ∀ {space sign digits rest}, Numeral val space sign digits rest →
      (TooLarge val ↔ 2 ^ 64 ≤ value digits) := by
    intro space sign digits rest hnumeral
    refine ⟨?_, fun hvalue => ⟨space, sign, digits, rest, hnumeral, hvalue⟩⟩
    rintro ⟨space', sign', digits', rest', hnumeral', hvalue'⟩
    by_contra hvalue
    have hread := hnumeral.strtoul_eq 0
    rw [hnumeral'.strtoul_eq 0, if_neg (by omega), if_pos (by omega)] at hread
    exact zero_ne_ERANGE (congrArg Strtoul.errno hread).symm
  obtain ⟨space, sign, digits, rest, hnumeral⟩ | hunread := numeral_or_unread errno val
  · rw [hlarge hnumeral, hnumeral.strtoul_eq errno]
    split
    · next hfits =>
      constructor
      · exact .inl
      · rintro (herrno | hvalue)
        · exact herrno
        · omega
    · next hfits => exact iff_of_true rfl (.inr (by omega))
  · rw [hunread]
    constructor
    · exact .inl
    · rintro (herrno | ⟨space, sign, digits, rest, hnumeral, _⟩)
      · exact herrno
      · have hrest := hnumeral.rest_eq errno
        rw [hunread] at hrest
        exact absurd (congrArg List.length hrest) hnumeral.length_lt.ne'

/-- The string is read to its end if it is a decimal number, or lenient, or too large. -/
theorem strtoul_end {val : List Char} (hfits : ¬ TooLarge val) (errno : Nat) :
    (strtoul errno val).rest = [] ↔ IsDecimal val ∨ Lenient val := by
  constructor
  · intro hend
    obtain ⟨space, sign, digits, rest, hnumeral⟩ | hunread := numeral_or_unread errno val
    · have hrest := (hnumeral.rest_eq errno).symm.trans hend
      have hvalue : value digits < 2 ^ 64 := by
        by_contra hvalue
        exact hfits ⟨space, sign, digits, rest, hnumeral, by omega⟩
      subst hrest
      by_cases hfront : space ≠ [] ∨ sign ≠ []
      · exact .inr (.inr ⟨space, sign, digits, hnumeral, hvalue, hfront⟩)
      · obtain ⟨hspace, hsign⟩ := not_or.mp hfront
        have hdigits : val = digits := by
          rw [hnumeral.eq, not_not.mp hspace, not_not.mp hsign, List.nil_append, List.nil_append,
            List.append_nil]
        rw [hdigits]
        exact .inl ⟨hnumeral.digits_ne_nil, hnumeral.digits, hvalue⟩
    · rw [hunread] at hend
      exact .inr (.inl hend)
  · rintro (hdecimal | rfl | ⟨space, sign, digits, hnumeral, _⟩)
    · rw [hdecimal.strtoul_eq]
    · rfl
    · exact hnumeral.rest_eq errno

theorem IsDecimal.not_tooLarge {val : List Char} (hdecimal : IsDecimal val) : ¬ TooLarge val := by
  intro hlarge
  have hrange := (strtoul_range 0 val).mpr (.inr hlarge)
  rw [hdecimal.strtoul_eq] at hrange
  exact zero_ne_ERANGE hrange

theorem Lenient.not_tooLarge {val : List Char} (hlenient : Lenient val) : ¬ TooLarge val := by
  intro hlarge
  have hrange := (strtoul_range 0 val).mpr (.inr hlarge)
  obtain rfl | ⟨space, sign, digits, hnumeral, hvalue, _⟩ := hlenient
  · exact zero_ne_ERANGE hrange
  · rw [hnumeral.strtoul_eq, if_pos hvalue] at hrange
    exact zero_ne_ERANGE hrange

/-- What `strtoul` makes of a string. -/
inductive Reading (errno : Nat) (val : List Char) : Prop where
  | tooLarge (hlarge : TooLarge val) (hrange : (strtoul errno val).errno = ERANGE)
  | decimal (hdecimal : IsDecimal val)
      (hread : strtoul errno val = { num := value val, rest := [], errno := errno })
  | lenient (hlenient : Lenient val) (herrno : (strtoul errno val).errno = errno)
      (hend : (strtoul errno val).rest = [])
  | trailing (hlarge : ¬ TooLarge val) (hdecimal : ¬ IsDecimal val) (hlenient : ¬ Lenient val)
      (herrno : (strtoul errno val).errno = errno) (hend : (strtoul errno val).rest ≠ [])

theorem reading (errno : Nat) (val : List Char) : Reading errno val := by
  by_cases hlarge : TooLarge val
  · exact .tooLarge hlarge ((strtoul_range errno val).mpr (.inr hlarge))
  · have herrno : (strtoul errno val).errno = errno := by
      obtain ⟨space, sign, digits, rest, hnumeral⟩ | hunread := numeral_or_unread errno val
      · have hvalue : value digits < 2 ^ 64 := by
          by_contra hvalue
          exact hlarge ⟨space, sign, digits, rest, hnumeral, by omega⟩
        rw [hnumeral.strtoul_eq, if_pos hvalue]
      · rw [hunread]
    by_cases hend : (strtoul errno val).rest = []
    · obtain hdecimal | hlenient := (strtoul_end hlarge errno).mp hend
      · exact .decimal hdecimal (hdecimal.strtoul_eq errno)
      · exact .lenient hlenient herrno hend
    · obtain ⟨hdecimal, hlenient⟩ := not_or.mp (mt (strtoul_end hlarge errno).mpr hend)
      exact .trailing hlarge hdecimal hlenient herrno hend

/-! ## When the parsers are right -/

section Verdicts

variable {active : Prop} {field : Options → Option Nat} {opts opts' : Options} {val : List Char}

/-- To refuse a string is right if it is not a number or there is no target. -/
theorem refused_iff : AllOrNothing active field opts val (1, opts) ↔ ¬ (IsDecimal val ∧ active) := by
  constructor
  · intro hexact haccepted
    exact Int.one_ne_zero (hexact.accepts.mpr haccepted)
  · intro hrefused
    constructor
    · exact iff_of_false Int.one_ne_zero hrefused
    · intro hzero
      exact absurd hzero Int.one_ne_zero
    · intro _
      rfl

/-- To accept a string is right if it is a number, and the right one is stored. -/
theorem accepted_iff : AllOrNothing active field opts val (0, opts') ↔
    (IsDecimal val ∧ active) ∧ field opts' = some (value val) := by
  constructor
  · intro hexact
    exact ⟨hexact.accepts.mp rfl, hexact.stores rfl⟩
  · rintro ⟨haccepted, hstored⟩
    constructor
    · exact iff_of_true rfl haccepted
    · intro _
      exact hstored
    · intro hne
      exact absurd rfl hne

/-- The checks as they should be: everything that `strtoul` reads to the end is accepted. -/
theorem checked_iff (hactive : active) (store : Nat → Options)
    (hstore : ∀ num, field (store num) = some num) :
    AllOrNothing active field opts val
      (if (strtoul 0 val).errno = ERANGE then (1, opts)
        else if (strtoul 0 val).rest ≠ [] then (1, opts)
        else (0, store (strtoul 0 val).num)) ↔ ¬ Lenient val := by
  cases reading 0 val with
  | tooLarge hlarge hrange =>
    rw [if_pos hrange, refused_iff]
    exact iff_of_true (fun h => h.1.not_tooLarge hlarge) (fun h => h.not_tooLarge hlarge)
  | decimal hdecimal hread =>
    rw [hread]
    dsimp only
    rw [if_neg zero_ne_ERANGE, if_neg (not_not.mpr rfl), accepted_iff]
    exact iff_of_true ⟨⟨hdecimal, hactive⟩, hstore _⟩ hdecimal.not_lenient
  | lenient hlenient herrno hend =>
    rw [herrno, hend, if_neg zero_ne_ERANGE, if_neg (not_not.mpr rfl), accepted_iff]
    exact iff_of_false (fun h => h.1.1.not_lenient hlenient) (not_not.mpr hlenient)
  | trailing _ hdecimal hlenient herrno hend =>
    rw [herrno, if_neg zero_ne_ERANGE, if_pos hend, refused_iff]
    exact iff_of_true (fun h => hdecimal h.1) hlenient

/-- The checks with the inverted test: a number is refused and what goes on behind one is
accepted. -/
theorem inverted_iff (hactive : active) (errno : Nat) (store : Nat → Options) :
    AllOrNothing active field opts val
      (if (strtoul errno val).errno = ERANGE then (1, opts)
        else if (strtoul errno val).rest = [] then (1, opts)
        else (0, store (strtoul errno val).num)) ↔
      TooLarge val ∨ Lenient val ∨ (errno = ERANGE ∧ ¬ IsDecimal val) := by
  cases reading errno val with
  | tooLarge hlarge hrange =>
    rw [if_pos hrange, refused_iff]
    exact iff_of_true (fun h => h.1.not_tooLarge hlarge) (.inl hlarge)
  | decimal hdecimal hread =>
    rw [hread]
    dsimp only
    rw [if_pos rfl, ite_self, refused_iff]
    refine iff_of_false (not_not.mpr ⟨hdecimal, hactive⟩) ?_
    rintro (h | h | h)
    · exact hdecimal.not_tooLarge h
    · exact hdecimal.not_lenient h
    · exact h.2 hdecimal
  | lenient hlenient herrno hend =>
    rw [if_pos hend, ite_self, refused_iff]
    exact iff_of_true (fun h => h.1.not_lenient hlenient) (.inr (.inl hlenient))
  | trailing hlarge hdecimal hlenient herrno hend =>
    rw [herrno, if_neg hend]
    by_cases hstale : errno = ERANGE
    · rw [if_pos hstale, refused_iff]
      exact iff_of_true (fun h => hdecimal h.1) (.inr (.inr ⟨hstale, hdecimal⟩))
    · rw [if_neg hstale, accepted_iff]
      refine iff_of_false (fun h => hdecimal h.1.1) ?_
      rintro (h | h | h)
      · exact hlarge h
      · exact hlenient h
      · exact hstale h.1

end Verdicts

theorem requestSizeExact_iff (opts : Options) (val : List Char) :
    RequestSizeExact opts val ↔ ¬ Lenient val :=
  checked_iff trivial (fun num => { opts with requestSize := num }) fun _ => rfl

theorem targetLengthExact_iff (opts : Options) (val : List Char) :
    TargetLengthExact opts val ↔ opts.toTail = none ∨ ¬ Lenient val := by
  rw [TargetLengthExact, parseTargetLength]
  cases htail : opts.toTail with
  | none =>
    dsimp only
    rw [refused_iff]
    exact iff_of_true (fun h => h.2 rfl) (.inl rfl)
  | some target =>
    have hactive := Option.some_ne_none target
    rw [or_iff_right hactive]
    refine checked_iff hactive (fun num =>
      { opts.setTail { target with length := num } with defaultTargetLength := num }) ?_
    intro num
    show ((opts.setTail _).toTail).map TargetOptions.length = _
    rw [toTail_setTail]
    rfl

/-- Without a target, what goes on behind a number is written through the null pointer. -/
theorem numThreadsExact_iff (opts : Options) (val : List Char) :
    NumThreadsExact opts val ↔
      TooLarge val ∨ Lenient val ∨ (opts.toTail = none ∧ IsDecimal val) := by
  rw [NumThreadsExact, parseTargetNumThreads]
  cases htail : opts.toTail with
  | none =>
    have hrefused : ∀ field, AllOrNothing ((none : Option TargetOptions) ≠ none) field opts val
        (1, opts) := fun field => refused_iff.mpr fun h => h.2 rfl
    cases reading 0 val with
    | tooLarge hlarge hrange =>
      dsimp only
      rw [if_pos hrange]
      exact iff_of_true ⟨_, rfl, hrefused _⟩ (.inl hlarge)
    | decimal hdecimal hread =>
      rw [hread]
      dsimp only
      rw [if_pos rfl, ite_self]
      exact iff_of_true ⟨_, rfl, hrefused _⟩ (.inr (.inr ⟨rfl, hdecimal⟩))
    | lenient hlenient herrno hend =>
      dsimp only
      rw [if_pos hend, ite_self]
      exact iff_of_true ⟨_, rfl, hrefused _⟩ (.inr (.inl hlenient))
    | trailing hlarge hdecimal hlenient herrno hend =>
      dsimp only
      rw [herrno, if_neg zero_ne_ERANGE, if_neg hend]
      apply iff_of_false
      · rintro ⟨result, hresult, _⟩
        cases hresult
      · rintro (h | h | h)
        · exact hlarge h
        · exact hlenient h
        · exact hdecimal h.2
  | some target =>
    have hactive := Option.some_ne_none target
    dsimp only
    rw [if_neg hactive, ← apply_ite some, ← apply_ite some]
    simp only [Option.some.injEq, exists_eq_left']
    rw [inverted_iff hactive 0 fun num => opts.setTail { target with numThreads := num }]
    have hstale : ¬ (0 = ERANGE ∧ ¬ IsDecimal val) := fun h => zero_ne_ERANGE h.1
    have hmissing : ¬ (some target = none ∧ IsDecimal val) := fun h => hactive h.1
    rw [or_iff_left hstale, or_iff_left hmissing]

/-- The same inverted test, and a range check that goes by an old `errno`. -/
theorem startOffsetExact_iff (errno : Nat) (opts : Options) (val : List Char) :
    StartOffsetExact errno opts val ↔ opts.toTail = none ∨ TooLarge val ∨ Lenient val ∨
      (errno = ERANGE ∧ ¬ IsDecimal val) := by
  rw [StartOffsetExact, parseTargetStartOffset]
  cases htail : opts.toTail with
  | none =>
    dsimp only
    rw [refused_iff]
    exact iff_of_true (fun h => h.2 rfl) (.inl rfl)
  | some target =>
    have hactive := Option.some_ne_none target
    rw [or_iff_right hactive]
    exact inverted_iff hactive errno fun num => opts.setTail { target with startOffset := num }

/-- When each of the four options is all or nothing. -/
theorem numericOptions_iff (errno : Nat) (opts : Options) (val : List Char) :
    (RequestSizeExact opts val ↔ ¬ Lenient val) ∧
    (TargetLengthExact opts val ↔ opts.toTail = none ∨ ¬ Lenient val) ∧
    (NumThreadsExact opts val ↔
      TooLarge val ∨ Lenient val ∨ (opts.toTail = none ∧ IsDecimal val)) ∧
    (StartOffsetExact errno opts val ↔ opts.toTail = none ∨ TooLarge val ∨ Lenient val ∨
      (errno = ERANGE ∧ ¬ IsDecimal val)) := by
  exact ⟨requestSizeExact_iff opts val, targetLengthExact_iff opts val,
    numThreadsExact_iff opts val, startOffsetExact_iff errno opts val⟩

/-- The options behind `-i a`. -/
def inputTarget : Options :=
  let target : TargetOptions :=
    { type := .inTarget, uri := ['a'], access := .nullAccess, dioFlag := 0, length := 0,
      numThreads := 1, policy := .nullPolicy, startOffset := 0 }
  { againFlag := 0, blockSize := 4096, helpFlag := 0, requestSize := 1, verboseFlag := 0,
    numTargets := 1, defaultTargetLength := 0, targets := [target] }

/-- A number of threads and an offset are refused, an empty request size counts as 0 and a negative
length as a huge one. Without a target a number of threads with a unit ends the process. -/
theorem numericOptions_fail :
    (parseTargetNumThreads inputTarget ['4'] = some (1, inputTarget) ∧
      ¬ NumThreadsExact inputTarget ['4']) ∧
    (parseTargetStartOffset 0 inputTarget ['8'] = (1, inputTarget) ∧
      ¬ StartOffsetExact 0 inputTarget ['8']) ∧
    (parseRequestSize inputTarget [] = (0, { inputTarget with requestSize := 0 }) ∧
      ¬ RequestSizeExact inputTarget []) ∧
    ((parseTargetLength inputTarget ['-', '5']).2.defaultTargetLength = 2 ^ 64 - 5 ∧
      ¬ TargetLengthExact inputTarget ['-', '5']) ∧
    parseTargetNumThreads { inputTarget with targets := [] } ['4', 'k'] = none := by
  have htail : inputTarget.toTail ≠ none := by decide
  have hfour : IsDecimal ['4'] :=
    ⟨by decide, List.forall_mem_singleton.mpr rfl, by decide +kernel⟩
  have height : IsDecimal ['8'] :=
    ⟨by decide, List.forall_mem_singleton.mpr rfl, by decide +kernel⟩
  refine ⟨⟨by decide +kernel, ?_⟩, ⟨by decide +kernel, ?_⟩, ⟨by decide +kernel, ?_⟩,
    ⟨by decide +kernel, ?_⟩, by decide +kernel⟩
  · rw [numThreadsExact_iff]
    rintro (h | h | h)
    · exact hfour.not_tooLarge h
    · exact hfour.not_lenient h
    · exact htail h.1
  · rw [startOffsetExact_iff]
    rintro (h | h | h | h)
    · exact htail h
    · exact height.not_tooLarge h
    · exact height.not_lenient h
    · exact zero_ne_ERANGE h.1
  · rw [requestSizeExact_iff]
    exact not_not.mpr (.inl rfl)
  · rw [targetLengthExact_iff]
    rintro (h | h)
    · exact htail h
    · refine h (.inr ⟨[], ['-'], ['5'], ?_, by decide +kernel, .inr (by decide)⟩)
      exact ⟨rfl, List.forall_mem_nil _, .inr (.inr rfl), by decide,
        List.forall_mem_singleton.mpr rfl, noDigit_nil⟩

end Xdd.Lite
