import Xdd.Options.CommandLine

/-!
# What the two phases do to one target

The options of a command line can be read off without looking at the plan or the phase.
Each phase then replays on a target the settings that reach it: those that name it in the
first phase, these and those for all targets in the second.
-/

namespace Xdd.Options

section

variable {F : Type}

/-- What an option asks for: more targets, a setting of one or all targets, or something
that is not about the fields of the model. -/
inductive Opt (F : Type) where
  | define (count : Nat)
  | set (who : Option Nat) (s : Setting F)
  | other
deriving DecidableEq, Repr

/-- The settings of an option that name the target. -/
def Opt.naming (t : Nat) : Opt F → Option (Setting F)
  | .set (some u) s => if u = t then some s else none
  | _ => none

/-- The settings of an option that apply to the target. -/
def Opt.applying (t : Nat) : Opt F → Option (Setting F)
  | .set (some u) s => if u = t then some s else none
  | .set none s => some s
  | _ => none

/-- The targets that an option adds in a phase. -/
def Opt.added (phase : Phase) : Opt F → Nat
  | .define count => match phase with
    | .phase1 => count
    | .phase2 => 0
  | _ => 0

/-- The settings of an option that reach the target in a phase. -/
def Opt.reaching (phase : Phase) (t : Nat) (o : Opt F) : Option (Setting F) :=
  match phase with
  | .phase1 => o.naming t
  | .phase2 => o.applying t

/-- Store settings one after the other. -/
def replay (settings : List (Setting F)) (td : TargetData F) : TargetData F :=
  settings.foldl (fun td s => s.set td) td

/-! ## Reading the options off the command line -/

/-- An option with the number of words that it takes. -/
abbrev Decoder (F : Type) := Int → List String → Option (Opt F × Nat)

/-- The words for a target behind the option, and the target. -/
def named (argc : Int) (argv : List String) : Nat × Option Nat :=
  if argc ≤ 1 then (0, none)
  else if argv[1]? = some "target" then (2, some (atoi (argv[2]?.getD "")).toNat)
  else (0, none)

def decodeScalar (read : String → Option (Setting F)) : Decoder F := fun argc argv => do
  let (args, who) := named argc argv
  let s ← read (← argv[args + 1]?)
  return (.set who s, args + 2)

def decodeEndtoend : Decoder F := fun argc argv => do
  let (args, who) := named argc argv
  let (s, used) ← (e2eSuboption (← argv[args + 1]?) (argv.drop (args + 2))).toOption
  return (.set who s, args + 1 + used)

def decodeTarget : Decoder F := fun _ _ => some (.define 1, 2)

def decodeTargets : Decoder F := fun _ argv => do
  let count := atoi (← argv[1]?)
  return (.define count.natAbs, targetsUsed count)

def decodeOther (option : OtherOption) : Decoder F := fun argc argv =>
  (option.used argc argv).map fun used => (.other, used + 1)

variable (ratios : Ratios F) (others : String → Option OtherOption)

/-- The options of the function table. -/
def decoders : List (String × String × Decoder F) :=
  [("blocksize", "bs", decodeScalar fun text => positive .blocksize (atoi text)),
   ("bytes", "b", decodeScalar fun text => some (.bytes (atoll text))),
   ("endtoend", "e2e", decodeEndtoend),
   ("kbytes", "kb", decodeScalar fun text => some (.bytes (int64 (atoll text * 1024)))),
   ("mbytes", "mb", decodeScalar fun text => some (.bytes (int64 (atoll text * 1024 * 1024)))),
   ("numreqs", "nr", decodeScalar fun text => positive .numreqs (atoll text)),
   ("operation", "op", decodeScalar (readOperation ratios)),
   ("queuedepth", "qd", decodeScalar fun text => some (.queuedepth (atoi text))),
   ("reqsize", "rs", decodeScalar fun text => positive .reqsize (atoi text)),
   ("rwratio", "rw", decodeScalar fun text => (ratios.percent text).map .rwratio),
   ("startoffset", "sto", decodeScalar readStartoffset),
   ("target", "target", decodeTarget),
   ("targets", "targets", decodeTargets),
   ("writeafterread", "war", decodeEndtoend)]

def decoder (name : String) : Option (Decoder F) :=
  match (decoders ratios).find? fun (func, alt, _) => func = name ∨ alt = name with
  | some (_, _, d) => some d
  | none => (others name).map decodeOther

/-- The options of a command line in their order. -/
def optionsFrom : Nat → Int → List String → List (Opt F)
  | _, _, [] => []
  | skip + 1, left, _ :: argv => optionsFrom skip left argv
  | 0, left, word :: argv =>
    if left = 0 then []
    else match optionName word with
      | none => optionsFrom 0 left argv
      | some name => match (decoder ratios others name).bind fun d => d left (word :: argv) with
        | none => []
        | some (o, used) => o :: optionsFrom (used - 1) (left - used) argv

def options (argv : List String) : List (Opt F) := optionsFrom ratios others 0 argv.length argv

/-! ## One option -/

/-- The targets up to `t` all have a structure. -/
def Plan.Reached (plan : Plan F) (t : Nat) : Prop := ∀ i ≤ t, (plan.targets i).isSome

/-- What an option has done to a plan. -/
structure Effect (phase : Phase) (o : Opt F) (plan plan' : Plan F) : Prop where
  data : ∀ t, (phase = .phase2 → plan.Reached t) →
    plan'.data ratios t = replay (o.reaching phase t).toList (plan.data ratios t)
  mono : ∀ t, (plan.targets t).isSome → (plan'.targets t).isSome
  count : plan'.numberOfTargets = plan.numberOfTargets + o.added phase
  defined : ∀ t, plan.numberOfTargets ≤ t → t < plan'.numberOfTargets → (plan'.targets t).isSome

/-- An accepted option is the one that is read off the command line, and it has its
effect. -/
def Decodes (func : Handler F) (d : Decoder F) : Prop :=
  ∀ (phase : Phase) (argc : Int) (word : String) (rest : List String) (plan plan' : Plan F)
    (used : Nat), (optionName word).isSome → func phase argc (word :: rest) plan = .ok (plan', used) →
    ∃ o, d argc (word :: rest) = some (o, used) ∧ Effect ratios phase o plan plan'

variable {ratios}

theorem bind_eq_ok {α β : Type} {x : Except Stop α} {f : α → Except Stop β} {b : β}
    (h : (x >>= f) = .ok b) : ∃ a, x = .ok a ∧ f a = .ok b := by
  cases x with
  | error e => cases h
  | ok a => exact ⟨a, rfl, h⟩

theorem eq_ok_of_toOption {α : Type} {x : Except Stop α} {a : α} (h : x.toOption = some a) :
    x = .ok a := by
  cases x with
  | error e => cases h
  | ok a' =>
    cases h
    rfl

theorem arg_eq_ok {argv : List String} {i : Nat} {text : String} (h : arg argv i = .ok text) :
    argv[i]? = some text := by
  rw [arg] at h
  split at h
  · next text' htext =>
    cases h
    exact htext
  · cases h

theorem getTargetDatap_data {plan plan' : Plan F} {u : Nat}
    (h : getTargetDatap ratios plan u = .ok plan') (t : Nat) :
    plan'.data ratios t = plan.data ratios t := by
  rw [getTargetDatap] at h
  split at h
  · cases h
  cases h
  by_cases hu : t = u
  · subst hu
    simp [Plan.data]
  · simp [Plan.data, hu]

theorem getTargetDatap_isSome {plan plan' : Plan F} {u : Nat}
    (h : getTargetDatap ratios plan u = .ok plan') (t : Nat) :
    (plan'.targets t).isSome ↔ t = u ∨ (plan.targets t).isSome := by
  rw [getTargetDatap] at h
  split at h
  · cases h
  cases h
  by_cases hu : t = u
  · simp [hu]
  · simp [hu]

theorem getTargetDatap_numberOfTargets {plan plan' : Plan F} {u : Nat}
    (h : getTargetDatap ratios plan u = .ok plan') :
    plan'.numberOfTargets = plan.numberOfTargets := by
  rw [getTargetDatap] at h
  split at h
  · cases h
  cases h
  rfl

theorem other_reaching (phase : Phase) (t : Nat) : (Opt.other : Opt F).reaching phase t = none := by
  cases phase <;> rfl

theorem Effect.getTargetDatap {phase : Phase} {plan plan' : Plan F} {u : Nat}
    (h : getTargetDatap ratios plan u = .ok plan') : Effect ratios phase .other plan plan' where
  data := by
    intro t _
    rw [getTargetDatap_data h, other_reaching]
    rfl
  mono := by
    intro t ht
    exact (getTargetDatap_isSome h t).mpr (.inr ht)
  count := getTargetDatap_numberOfTargets h
  defined := by
    intro t hlow hhigh
    rw [getTargetDatap_numberOfTargets h] at hhigh
    omega

/-- An option that does nothing in a phase. -/
theorem Effect.refl {phase : Phase} {o : Opt F} (hreaching : ∀ t, o.reaching phase t = none)
    (hadded : o.added phase = 0) (plan : Plan F) : Effect ratios phase o plan plan where
  data := by
    intro t _
    rw [hreaching t]
    rfl
  mono := fun _ ht => ht
  count := by rw [hadded, Nat.add_zero]
  defined := by
    intro t hlow hhigh
    omega

theorem Plan.Reached.mono {plan plan' : Plan F} {t : Nat} (h : plan.Reached t)
    (hmono : ∀ i, (plan.targets i).isSome → (plan'.targets i).isSome) : plan'.Reached t :=
  fun i hi => hmono i (h i hi)

/-- Targets may come into being before an option is stored. -/
theorem Effect.after {phase : Phase} {o : Opt F} {plan plan₁ plan₂ : Plan F}
    (h₁ : Effect ratios phase .other plan plan₁) (h₂ : Effect ratios phase o plan₁ plan₂) :
    Effect ratios phase o plan plan₂ where
  data := by
    intro t ht
    rw [h₂.data t (fun hphase => (ht hphase).mono h₁.mono), h₁.data t ht, other_reaching]
    rfl
  mono := fun t ht => h₂.mono t (h₁.mono t ht)
  count := by
    rw [h₂.count, h₁.count]
    simp [Opt.added]
  defined := by
    intro t hlow hhigh
    have hcount : plan₁.numberOfTargets = plan.numberOfTargets := by
      rw [h₁.count]
      simp [Opt.added]
    exact h₂.defined t (by omega) hhigh

theorem optionName_previous :
    optionName "previous" = none ∧ optionName "prev" = none ∧ optionName "p" = none := by
  decide

/-- The words before an option are never taken for `previous`. -/
theorem parseTargetNumber_spec (phase : Phase) {argc : Int} {word name : String}
    {rest : List String} {plan plan' : Plan F} {args : Nat} {who : Option Nat}
    (hword : optionName word = some name)
    (h : parseTargetNumber ratios argc (word :: rest) plan = .ok (args, who, plan')) :
    named argc (word :: rest) = (args, who) ∧ Effect ratios phase .other plan plan' := by
  rw [parseTargetNumber] at h
  split at h
  · next hargc =>
    cases h
    exact ⟨by rw [named, if_pos hargc], .refl (other_reaching phase) rfl plan⟩
  next hargc =>
  obtain ⟨second, hsecond, h⟩ := bind_eq_ok h
  have hsecond' := arg_eq_ok hsecond
  rw [named, if_neg hargc, hsecond']
  split at h
  · next htarget =>
    subst htarget
    rw [if_pos rfl]
    split at h
    · cases h
    obtain ⟨third, hthird, h⟩ := bind_eq_ok h
    rw [arg_eq_ok hthird]
    dsimp only at h
    split at h
    · cases h
    split at h
    · cases h
    obtain ⟨plan₁, hplan, h⟩ := bind_eq_ok h
    cases h
    exact ⟨rfl, .getTargetDatap hplan⟩
  · next htarget =>
    rw [if_neg (by simpa using htarget)]
    obtain ⟨option, hoption, h⟩ := bind_eq_ok h
    obtain rfl : word = option := by simpa using arg_eq_ok hoption
    rw [if_neg] at h
    · cases h
      exact ⟨rfl, .refl (other_reaching phase) rfl plan⟩
    · obtain ⟨hprevious, hprev, hp⟩ := optionName_previous
      rintro (rfl | rfl | rfl)
      · rw [hprevious] at hword
        cases hword
      · rw [hprev] at hword
        cases hword
      · rw [hp] at hword
        cases hword

theorem le_chain (targets : Nat → Option (TargetData F)) :
    ∀ places i : Nat, i ≤ chain targets places i
  | 0, i => le_rfl
  | places + 1, i => by
    have hle := le_chain targets places (i + 1)
    rw [chain]
    split <;> omega

theorem chain_le (targets : Nat → Option (TargetData F)) :
    ∀ places i : Nat, chain targets places i ≤ i + places
  | 0, i => le_rfl
  | places + 1, i => by
    have hle := chain_le targets places (i + 1)
    rw [chain]
    split <;> omega

/-- The loop over all targets comes to a target if there is no gap before it. -/
theorem lt_chain {targets : Nat → Option (TargetData F)} {t : Nat} :
    ∀ {places i : Nat}, chain targets places i < i + places → i ≤ t →
      (∀ j ≤ t, (targets j).isSome) → t < chain targets places i
  | 0, i, hend, _, _ => by
    rw [chain] at hend
    omega
  | places + 1, i, hend, hi, hsome => by
    rw [chain, if_pos (hsome i hi)] at hend ⊢
    by_cases hlast : i = t
    · have hstart := le_chain targets places (i + 1)
      omega
    · exact lt_chain (by omega) (by omega) hsome

theorem setTarget_effect {phase : Phase} {plan plan' : Plan F} {u : Nat} {s : Setting F}
    (h : setTarget ratios u s.set plan = .ok plan') :
    Effect ratios phase (.set (some u) s) plan plan' := by
  obtain ⟨plan₁, hplan, h⟩ := bind_eq_ok h
  cases h
  refine Effect.after (.getTargetDatap hplan) ⟨?_, ?_, rfl, ?_⟩
  · intro t _
    by_cases hu : t = u
    · subst hu
      cases phase <;> simp [Plan.data, Opt.reaching, Opt.naming, Opt.applying, replay]
    · have hu' : u ≠ t := fun h => hu h.symm
      cases phase <;> simp [Plan.data, Opt.reaching, Opt.naming, Opt.applying, replay, hu, hu']
  · intro t ht
    by_cases hu : t = u
    · simp [hu]
    · simpa [hu] using ht
  · intro t hlow hhigh
    exact absurd hhigh (by simpa using hlow)

theorem setAllTargets_effect {plan plan' : Plan F} {s : Setting F}
    (h : setAllTargets s.set plan = .ok plan') :
    Effect ratios .phase2 (.set none s) plan plan' := by
  rw [setAllTargets] at h
  split at h
  · cases h
  next hfull =>
  cases h
  refine ⟨?_, ?_, rfl, ?_⟩
  · intro t ht
    have hend : chain plan.targets maxTargets 0 < 0 + maxTargets := by
      have hle := chain_le plan.targets maxTargets 0
      omega
    have hlt := lt_chain hend (Nat.zero_le t) (ht rfl)
    obtain ⟨td, htd⟩ := Option.isSome_iff_exists.mp (ht rfl t le_rfl)
    simp [Plan.data, Opt.reaching, Opt.applying, replay, hlt, htd]
  · intro t ht
    dsimp only
    split
    · simpa using ht
    · exact ht
  · intro t hlow hhigh
    exact absurd hhigh (by simpa using hlow)

theorem store_effect {phase : Phase} {plan plan' : Plan F} {who : Option Nat} {s : Setting F}
    (h : store ratios phase who s plan = .ok plan') :
    Effect ratios phase (.set who s) plan plan' := by
  cases who with
  | some u =>
    rw [store] at h
    split at h
    · exact setTarget_effect h
    · cases h
  | none =>
    cases phase with
    | phase1 =>
      cases h
      exact .refl (fun _ => rfl) rfl plan
    | phase2 =>
      rw [store] at h
      split at h
      · exact setAllTargets_effect h
      · cases h

/-! ## The handlers -/

theorem scalarOption_decodes (read : String → Option (Setting F)) :
    Decodes ratios (scalarOption ratios read) (decodeScalar read) := by
  intro phase argc word rest plan plan' used hword h
  obtain ⟨name, hname⟩ := Option.isSome_iff_exists.mp hword
  obtain ⟨⟨args, who, plan₁⟩, htarget, h⟩ := bind_eq_ok h
  obtain ⟨hnamed, heffect⟩ := parseTargetNumber_spec phase hname htarget
  obtain ⟨-, -, h⟩ := bind_eq_ok h
  obtain ⟨text, htext, h⟩ := bind_eq_ok h
  have hargs : (if who.isSome then args + 2 else 2) = args + 2 := by
    rw [named] at hnamed
    split at hnamed
    · cases hnamed
      rfl
    · split at hnamed
      · cases hnamed
        rfl
      · cases hnamed
        rfl
  split at h
  · cases h
  next s hs =>
  obtain ⟨plan₂, hstore, h⟩ := bind_eq_ok h
  cases h
  refine ⟨.set who s, ?_, heffect.after (store_effect hstore)⟩
  simp only [decodeScalar, hnamed, arg_eq_ok htext, Option.bind_eq_bind, Option.bind_some, hs,
    hargs, Option.pure_def]

theorem xddfuncEndtoend_decodes :
    Decodes ratios (xddfuncEndtoend ratios) decodeEndtoend := by
  intro phase argc word rest plan plan' used hword h
  obtain ⟨name, hname⟩ := Option.isSome_iff_exists.mp hword
  rw [xddfuncEndtoend] at h
  split at h
  · cases h
  obtain ⟨⟨args, who, plan₁⟩, htarget, h⟩ := bind_eq_ok h
  obtain ⟨hnamed, heffect⟩ := parseTargetNumber_spec phase hname htarget
  obtain ⟨-, -, h⟩ := bind_eq_ok h
  obtain ⟨text, htext, h⟩ := bind_eq_ok h
  obtain ⟨⟨s, n⟩, hsub, h⟩ := bind_eq_ok h
  obtain ⟨plan₂, hstore, h⟩ := bind_eq_ok h
  cases h
  refine ⟨.set who s, ?_, heffect.after (store_effect hstore)⟩
  simp only [decodeEndtoend, hnamed, arg_eq_ok htext, Option.bind_eq_bind, Option.bind_some, hsub,
    Except.toOption, Option.pure_def]

theorem otherOption_decodes (option : OtherOption) :
    Decodes ratios (otherOption ratios option) (decodeOther option) := by
  intro phase argc word rest plan plan' used hword h
  obtain ⟨name, hname⟩ := Option.isSome_iff_exists.mp hword
  rw [otherOption] at h
  split at h
  · cases h
  next n hn =>
  refine ⟨.other, ?_⟩
  split at h
  · obtain ⟨⟨args, who, plan₁⟩, htarget, h⟩ := bind_eq_ok h
    cases h
    exact ⟨by simp [decodeOther, hn], (parseTargetNumber_spec phase hname htarget).2⟩
  · cases h
    exact ⟨by simp [decodeOther, hn], .refl (other_reaching phase) rfl plan⟩

/-- A target that is put behind the others. -/
theorem addTarget_effect {count : Nat} {plan plan₁ plan' : Plan F}
    (h₁ : getTargetDatap ratios plan plan.numberOfTargets = .ok plan₁)
    (h : Effect ratios .phase1 (.define count)
      { plan₁ with numberOfTargets := plan₁.numberOfTargets + 1 } plan') :
    Effect ratios .phase1 (.define (count + 1)) plan plan' := by
  have hnumber := getTargetDatap_numberOfTargets h₁
  have hsome : (plan₁.targets plan.numberOfTargets).isSome :=
    (getTargetDatap_isSome h₁ _).mpr (.inl rfl)
  refine ⟨?_, ?_, ?_, ?_⟩
  · intro t _
    rw [h.data t (fun hphase => by cases hphase)]
    exact congrArg _ (getTargetDatap_data h₁ t)
  · intro t ht
    exact h.mono t ((getTargetDatap_isSome h₁ t).mpr (.inr ht))
  · rw [h.count]
    simp only [Opt.added]
    omega
  · intro t hlow hhigh
    by_cases hfirst : t = plan.numberOfTargets
    · subst hfirst
      exact h.mono _ hsome
    · exact h.defined t (by dsimp only; omega) hhigh

theorem addTargets_effect {plan' : Plan F} : ∀ {count : Nat} {plan : Plan F},
    addTargets ratios count plan = .ok plan' → Effect ratios .phase1 (.define count) plan plan'
  | 0, plan, h => by
    cases h
    exact .refl (fun _ => rfl) rfl _
  | count + 1, plan, h => by
    obtain ⟨plan₁, hplan, h⟩ := bind_eq_ok h
    exact addTarget_effect hplan (addTargets_effect h)

theorem xddfuncTarget_decodes : Decodes ratios (xddfuncTarget ratios) decodeTarget := by
  intro phase argc word rest plan plan' used _ h
  refine ⟨.define 1, ?_⟩
  cases phase with
  | phase1 =>
    obtain ⟨plan₁, hplan, h⟩ := bind_eq_ok h
    cases h
    exact ⟨rfl, addTarget_effect hplan (.refl (fun _ => rfl) rfl _)⟩
  | phase2 =>
    cases h
    exact ⟨rfl, .refl (fun _ => rfl) rfl plan⟩

theorem xddfuncTargets_decodes :
    Decodes ratios (xddfuncTargets ratios) decodeTargets := by
  intro phase argc word rest plan plan' used _ h
  obtain ⟨text, htext, h⟩ := bind_eq_ok h
  refine ⟨.define (atoi text).natAbs, ?_⟩
  simp only [decodeTargets, arg_eq_ok htext, Option.bind_eq_bind, Option.bind_some, Option.pure_def]
  cases phase with
  | phase1 =>
    dsimp only at h
    split at h
    · cases h
    obtain ⟨plan₁, hplan, h⟩ := bind_eq_ok h
    cases h
    exact ⟨rfl, addTargets_effect hplan⟩
  | phase2 =>
    cases h
    exact ⟨rfl, .refl (fun _ => rfl) rfl plan⟩

/-- Corresponding rows of the two tables. -/
def Rows (ratios : Ratios F) (row : String × String × Handler F) (row' : String × String × Decoder F) : Prop :=
  row.1 = row'.1 ∧ row.2.1 = row'.2.1 ∧ Decodes ratios row.2.2 row'.2.2

theorem tables_rows (ratios : Ratios F) : List.Forall₂ (Rows ratios) (xddFunc ratios) (decoders ratios) := by
  have hscalar (read : String → Option (Setting F)) (name alt : String) :
      Rows ratios (name, alt, scalarOption ratios read)
        (name, alt, decodeScalar read) := ⟨rfl, rfl, scalarOption_decodes read⟩
  refine .cons (hscalar ..) (.cons (hscalar ..) (.cons ⟨rfl, rfl, xddfuncEndtoend_decodes⟩ ?_))
  refine .cons (hscalar ..) (.cons (hscalar ..) (.cons (hscalar ..) (.cons (hscalar ..) ?_)))
  refine .cons (hscalar ..) (.cons (hscalar ..) (.cons (hscalar ..) (.cons (hscalar ..) ?_)))
  exact .cons ⟨rfl, rfl, xddfuncTarget_decodes⟩
    (.cons ⟨rfl, rfl, xddfuncTargets_decodes⟩ (.cons ⟨rfl, rfl, xddfuncEndtoend_decodes⟩ .nil))

/-- The same name finds corresponding rows. -/
theorem find_rows {rows : List (String × String × Handler F)}
    {rows' : List (String × String × Decoder F)} (h : List.Forall₂ (Rows ratios) rows rows')
    (name : String) :
    Option.Rel (Rows ratios)
      (rows.find? fun (func, alt, _) => func = name ∨ alt = name)
      (rows'.find? fun (func, alt, _) => func = name ∨ alt = name) := by
  induction h with
  | nil => exact .none
  | @cons row row' _ _ hrow _ ih =>
    obtain ⟨func, alt, handle⟩ := row
    obtain ⟨func', alt', d⟩ := row'
    obtain ⟨rfl, rfl, hdecodes⟩ : func = func' ∧ alt = alt' ∧ Decodes ratios handle d := hrow
    rw [List.find?_cons, List.find?_cons]
    dsimp only
    split
    · exact .some ⟨rfl, rfl, hdecodes⟩
    · exact ih

theorem handler_decodes {name : String} {func : Handler F}
    (h : handler ratios others name = some func) :
    ∃ d, decoder ratios others name = some d ∧ Decodes ratios func d := by
  rw [handler] at h
  rw [decoder]
  have hrel := find_rows (tables_rows ratios) name
  generalize ((xddFunc ratios).find? fun (func, alt, _) => func = name ∨ alt = name) = row at h hrel
  generalize ((decoders ratios).find? fun (func, alt, _) => func = name ∨ alt = name) = row' at hrel
  cases hrel with
  | none =>
    obtain ⟨option, hoption, rfl⟩ := Option.map_eq_some_iff.mp h
    exact ⟨decodeOther option, by simp [hoption], otherOption_decodes option⟩
  | some hrow =>
    cases h
    exact ⟨_, rfl, hrow.2.2⟩

/-! ## The two phases -/

/-- What a phase has done to a plan. -/
structure PhaseEffect (ratios : Ratios F) (phase : Phase) (os : List (Opt F)) (plan plan' : Plan F) : Prop where
  data : ∀ t, (phase = .phase2 → plan.Reached t) →
    plan'.data ratios t = replay (os.filterMap (·.reaching phase t)) (plan.data ratios t)
  mono : ∀ t, (plan.targets t).isSome → (plan'.targets t).isSome
  count : plan'.numberOfTargets = plan.numberOfTargets + (os.map (·.added phase)).sum
  defined : ∀ t, plan.numberOfTargets ≤ t → t < plan'.numberOfTargets → (plan'.targets t).isSome

theorem PhaseEffect.nil (phase : Phase) (plan : Plan F) :
    PhaseEffect ratios phase [] plan plan where
  data := fun _ _ => rfl
  mono := fun _ ht => ht
  count := rfl
  defined := by
    intro t hlow hhigh
    omega

theorem PhaseEffect.cons {phase : Phase} {o : Opt F} {os : List (Opt F)} {plan plan₁ plan₂ : Plan F}
    (h₁ : Effect ratios phase o plan plan₁)
    (h₂ : PhaseEffect ratios phase os plan₁ plan₂) :
    PhaseEffect ratios phase (o :: os) plan plan₂ where
  data := by
    intro t ht
    rw [h₂.data t (fun hphase => (ht hphase).mono h₁.mono), h₁.data t ht, List.filterMap_cons]
    cases o.reaching phase t <;> rfl
  mono := fun t ht => h₂.mono t (h₁.mono t ht)
  count := by
    rw [h₂.count, h₁.count, List.map_cons, List.sum_cons]
    omega
  defined := by
    intro t hlow hhigh
    by_cases hfirst : t < plan₁.numberOfTargets
    · exact h₂.mono t (h₁.defined t hlow hfirst)
    · exact h₂.defined t (by omega) hhigh

theorem parseArgs_effect {phase : Phase} {plan' : Plan F} (argv : List String) :
    ∀ {skip : Nat} {left : Int} {plan : Plan F},
      parseArgs ratios others phase skip left argv plan = .ok plan' →
      PhaseEffect ratios phase (optionsFrom ratios others skip left argv) plan plan' := by
  induction argv with
  | nil =>
    intro skip left plan h
    cases skip <;>
    · cases h
      exact .nil phase _
  | cons word argv ih =>
    intro skip left plan h
    cases skip with
    | succ skip => exact ih h
    | zero =>
      rw [parseArgs] at h
      rw [optionsFrom]
      split at h
      · next hleft =>
        cases h
        rw [if_pos hleft]
        exact .nil phase _
      next hleft =>
      rw [if_neg hleft]
      cases hname : optionName word with
      | none =>
        rw [hname] at h
        exact ih h
      | some name =>
        rw [hname] at h
        dsimp only at h ⊢
        split at h
        · cases h
        next func hfunc =>
        obtain ⟨⟨plan₁, used⟩, hopt, h⟩ := bind_eq_ok h
        obtain ⟨d, hd, hdecodes⟩ := handler_decodes others hfunc
        obtain ⟨o, ho, heffect⟩ := hdecodes phase left word argv plan plan₁ used (by simp [hname]) hopt
        simp only [hd, Option.bind_some, ho]
        exact .cons heffect (ih h)

/-- A target of an accepted command line: the settings that name it are stored in the first
phase, and in the second phase once more together with those for all targets. -/
theorem xddParse_targets {argv : List String} {plan : Plan F}
    (h : xddParse ratios others argv = .ok plan) {t : Nat} (ht : t < plan.numberOfTargets) :
    plan.targets t = some
      (replay ((options ratios others argv).filterMap (·.applying t))
        (replay ((options ratios others argv).filterMap (·.naming t))
          (initNewTargetData ratios))) := by
  obtain ⟨plan₁, h₁, h⟩ := bind_eq_ok h
  obtain ⟨plan₂, h₂, h⟩ := bind_eq_ok h
  have heffect₁ := parseArgs_effect others argv h₁
  have heffect₂ := parseArgs_effect others argv h₂
  obtain rfl : plan₂ = plan := by
    split at h
    · cases h
    · cases h
      rfl
  have hcount : ((optionsFrom ratios others 0 argv.length argv).map (·.added .phase2)).sum = 0 := by
    apply List.sum_eq_zero
    intro n hn
    obtain ⟨o, -, rfl⟩ := List.mem_map.mp hn
    cases o <;> rfl
  have hreached : plan₁.Reached t := by
    intro i hi
    have hsame := heffect₂.count
    rw [hcount, Nat.add_zero] at hsame
    exact heffect₁.defined i (Nat.zero_le i) (by omega)
  have hdata := heffect₂.data t (fun _ => hreached)
  rw [heffect₁.data t (fun hphase => by cases hphase)] at hdata
  obtain ⟨td, htd⟩ := Option.isSome_iff_exists.mp (heffect₂.mono t (hreached t le_rfl))
  rw [Plan.data, htd] at hdata
  rw [htd]
  exact congrArg some hdata

end

end Xdd.Options
