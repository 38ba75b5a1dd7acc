import Xdd.Options.Phases

/-!
# The last option wins

Options that are stored into the same field, or reset one another, form a group. After
both phases a group of a target has the value of the last option of the command line that
applies to the target. Storing the settings of one target twice does no harm here: all of
them are stored again, in the same order, by the second phase.
-/

namespace Xdd.Options

/-- The groups of options that replace one another. -/
inductive Group where
  | reqsize
  | blocksize
  | queuedepth
  | amount
  | rwratio
  | startoffset
deriving DecidableEq, Repr

section

variable {F : Type}

/-- What the fields of a group hold: the number of requests and the number of bytes go
together. -/
def Group.Value (F : Type) : Group → Type
  | .amount => Int × Int
  | .rwratio => F
  | _ => Int

/-- The fields of a group in a target. -/
def Group.get : (g : Group) → TargetData F → g.Value F
  | .reqsize, td => td.reqsize
  | .blocksize, td => td.blockSize
  | .queuedepth, td => td.queueDepth
  | .amount, td => (td.numreqs, td.bytes)
  | .rwratio, td => td.rwratio
  | .startoffset, td => td.startOffset

/-- What a setting gives to a group. -/
def Group.given : (g : Group) → Setting F → Option (g.Value F)
  | .reqsize, .reqsize value => some value
  | .blocksize, .blocksize value => some value
  | .queuedepth, .queuedepth value => some value
  | .amount, .numreqs value => some (value, (0 : Int))
  | .amount, .bytes value => some ((0 : Int), value)
  | .rwratio, .rwratio value => some value
  | .startoffset, .startoffset value => some value
  | _, _ => none

/-- A setting is about one group and leaves the others alone. -/
theorem Group.get_set (g : Group) (s : Setting F) (td : TargetData F) :
    g.get (s.set td) = (g.given s).getD (g.get td) := by
  cases s <;> cases g <;> rfl

theorem Group.get_replay (g : Group) (settings : List (Setting F)) :
    ∀ td : TargetData F,
      g.get (replay settings td) = (settings.filterMap g.given).getLastD (g.get td) := by
  induction settings with
  | nil => exact fun _ => rfl
  | cons s settings ih =>
    intro td
    have hstep : g.get (replay (s :: settings) td) = g.get (replay settings (s.set td)) := rfl
    rw [hstep, ih, g.get_set, List.filterMap_cons]
    cases g.given s with
    | none => rfl
    | some value => exact (List.getLastD_cons ..).symm

theorem Opt.applying_of_naming {t : Nat} {o : Opt F} {s : Setting F} (h : o.naming t = some s) :
    o.applying t = some s := by
  cases o with
  | define count => cases h
  | other => cases h
  | set who s' =>
    cases who with
    | none => cases h
    | some u => exact h

/-- If no option for the target or for all targets is about a group, then none that names
the target is. -/
theorem given_naming_eq_nil {os : List (Opt F)} {t : Nat} {g : Group}
    (h : (os.filterMap (·.applying t)).filterMap g.given = []) :
    (os.filterMap (·.naming t)).filterMap g.given = [] := by
  rw [List.filterMap_eq_nil_iff] at h ⊢
  intro s hs
  obtain ⟨o, ho, hnaming⟩ := List.mem_filterMap.mp hs
  exact h s (List.mem_filterMap.mpr ⟨o, ho, Opt.applying_of_naming hnaming⟩)

/-- The second phase leaves nothing of the first. -/
theorem Group.get_twoPhases (g : Group) (os : List (Opt F)) (t : Nat) (td : TargetData F) :
    g.get (replay (os.filterMap (·.applying t)) (replay (os.filterMap (·.naming t)) td)) =
      ((os.filterMap (·.applying t)).filterMap g.given).getLastD (g.get td) := by
  rw [g.get_replay, g.get_replay]
  cases hgiven : (os.filterMap (·.applying t)).filterMap g.given with
  | nil =>
    rw [given_naming_eq_nil hgiven]
    rfl
  | cons value values => rw [List.getLastD_cons, List.getLastD_cons]

/-- The option is a setting. -/
def Opt.isSet : Opt F → Bool
  | .set _ _ => true
  | _ => false

theorem filterMap_applying_filter (os : List (Opt F)) (t : Nat) :
    (os.filter Opt.isSet).filterMap (·.applying t) = os.filterMap (·.applying t) := by
  rw [List.filterMap_filter]
  congr 1
  funext o
  cases o <;> rfl

/-- After both phases a group of a target has the value of the last option that applies to
the target, or its default. The options that define targets and those about other fields
can stand anywhere. -/
theorem xddParse_lastWriter (ratios : Ratios F) (others : String → Option OtherOption)
    (argv : List String) (plan : Plan F) (h : xddParse ratios others argv = .ok plan)
    (t : Nat) (ht : t < plan.numberOfTargets) :
    ∃ td, plan.targets t = some td ∧
      (∀ g : Group, g.get td =
        (((options ratios others argv).filterMap (·.applying t)).filterMap g.given).getLastD
          (g.get (initNewTargetData ratios))) ∧
      ∀ (argv' : List String) (plan' : Plan F), xddParse ratios others argv' = .ok plan' →
        t < plan'.numberOfTargets →
        (options ratios others argv').filter Opt.isSet =
          (options ratios others argv).filter Opt.isSet →
        ∃ td', plan'.targets t = some td' ∧ ∀ g : Group, g.get td' = g.get td := by
  refine ⟨_, xddParse_targets others h ht, fun g => g.get_twoPhases _ t _, ?_⟩
  intro argv' plan' h' ht' hsame
  refine ⟨_, xddParse_targets others h' ht', ?_⟩
  intro g
  rw [g.get_twoPhases, g.get_twoPhases, ← filterMap_applying_filter, hsame,
    filterMap_applying_filter]

end

/-- The ratios of a plan without percentages. -/
def wholeRatios : Ratios Int where
  write := 0
  read := 1
  noop := -1
  percent := fun _ => none

/-- A request size for the target before it is defined, and one for all targets behind it;
a number of requests that a number of bytes replaces. -/
def mixedLine : List String :=
  ["-rs", "target", "0", "4", "-target", "a", "-rs", "7", "-nr", "5", "-b", "target", "0", "2048"]

theorem xddParse_lastWriter_mixedLine :
    ∃ plan td, xddParse wholeRatios (fun _ => none) mixedLine = .ok plan ∧
      plan.targets 0 = some td ∧ td.reqsize = 7 ∧ (td.numreqs, td.bytes) = (0, 2048) ∧
      td.blockSize = 1024 := by
  have hplan : (xddParse wholeRatios (fun _ => none) mixedLine).toOption.map
      (·.numberOfTargets) = some 1 := by decide +kernel
  obtain ⟨plan, hparse, hnumber⟩ := Option.map_eq_some_iff.mp hplan
  have hok := eq_ok_of_toOption hparse
  obtain ⟨td, htd, hgroups, -⟩ := xddParse_lastWriter wholeRatios (fun _ => none) mixedLine plan
    hok 0 (by omega)
  have hoptions : options wholeRatios (fun _ => none) mixedLine =
      [.set (some 0) (.reqsize 4), .define 1, .set none (.reqsize 7), .set none (.numreqs 5),
        .set (some 0) (.bytes 2048)] := by decide +kernel
  rw [hoptions] at hgroups
  exact ⟨plan, td, hok, htd, hgroups .reqsize, hgroups .amount, hgroups .blocksize⟩

end Xdd.Options
