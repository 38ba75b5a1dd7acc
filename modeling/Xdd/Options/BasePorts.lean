import Xdd.Options.Addresses

/-!
# Base ports of the destinations

`-e2e port` puts its number into all entries of the table, whether they were given with a base
port or not, and leaves no trace for the entries that come later: a destination without a base
port then gets the default again. So the base ports depend on where the option stands.
-/

namespace Xdd.Options

/-! ## Destinations and ports as they are given -/

/-- An option for all targets that is about base ports, with its argument. -/
inductive Given where
  | destination (text : String)
  | port (number : Option String)
deriving DecidableEq, Repr

/-- The names of `xddfunc_endtoend` in the function table. -/
def isEndtoend (name : String) : Bool :=
  name = "endtoend" ∨ name = "e2e" ∨ name = "writeafterread" ∨ name = "war"

/-- The words of an option, if they are `-e2e destination` or `-e2e port` for all targets. -/
def givenOption (name : String) (argc : Int) (argv : List String) : Option Given :=
  if isEndtoend name ∧ (named argc argv).2 = none then
    match argv[1]? with
    | some word =>
      if word = "destination" ∨ word = "dest" ∨ word = "host" then argv[2]?.map .destination
      else if word = "port" ∨ word = "baseport" then some (.port argv[2]?)
      else none
    | none => none
  else none

/-- The base port that an address is given with. -/
def explicitPort (text : String) : Option Int :=
  let (_, rest) := field ':' text.toList
  let (basePort, _) := nextField ',' rest
  if basePort = [] then none else some (Target.atoi (number basePort))

def Given.destination? : Given → Option String
  | .destination text => some text
  | .port _ => none

def Given.port? : Given → Option Int
  | .destination _ => none
  | .port number => some (atoi (number.getD ""))

/-- The texts of the destinations. -/
def destinationTexts (given : List Given) : List String := given.filterMap Given.destination?

/-- The numbers of the `port` options. -/
def givenPorts (given : List Given) : List Int := given.filterMap Given.port?

section

variable {F : Type} (ratios : Ratios F) (others : String → Option OtherOption)

/-- The options about base ports in their order. -/
def givenFrom : Nat → Int → List String → List Given
  | _, _, [] => []
  | skip + 1, left, _ :: argv => givenFrom skip left argv
  | 0, left, word :: argv =>
    if left = 0 then []
    else match optionName word with
      | none => givenFrom 0 left argv
      | some name => match (decoder ratios others name).bind fun d => d left (word :: argv) with
        | none => []
        | some (_, used) =>
          (givenOption name left (word :: argv)).toList ++ givenFrom (used - 1) (left - used) argv

def given (argv : List String) : List Given := givenFrom ratios others 0 argv.length argv

def TargetData.basePorts (td : TargetData F) : List Int := td.addressTable.map (·.basePort)

/-- The table has room for the destinations, and each of them has the port that it was given with,
else that of the `port` option, else the default. -/
structure PortsAsGiven (given : List Given) (td : TargetData F) : Prop where
  room : td.addressTable.length ≤ tableEntries
  ports : td.basePorts = (destinationTexts given).map fun text =>
    (explicitPort text).getD ((givenPorts given).head?.getD defaultE2ePort)

/-- There is room for the destinations; those before the `port` option that have a base port have
the same one, and those behind it have one, or the option gives the default. -/
structure PortsAgree (given : List Given) : Prop where
  room : (destinationTexts given).length ≤ tableEntries
  before : ∀ port ∈ (givenPorts given).head?,
    ∀ text ∈ destinationTexts (given.takeWhile (·.port? = none)),
      ∀ own ∈ explicitPort text, own = port
  behind : ∀ port ∈ (givenPorts given).head?,
    ∀ text ∈ destinationTexts (given.dropWhile (·.port? = none)),
      explicitPort text = none → port = defaultE2ePort

end

/-! ## What an option does to the base ports -/

/-- A new entry, or a port for all entries. -/
inductive Base where
  | entry (port : Int)
  | all (port : Int)
deriving DecidableEq, Repr

def Base.apply (ports : List Int) : Base → List Int
  | .entry port => ports ++ [port]
  | .all port => ports.map fun _ => port

def Base.isEntry : Base → Bool
  | .entry _ => true
  | .all _ => false

def Given.base : Given → Base
  | .destination text => .entry (address text.toList).basePort
  | .port number => .all (atoi (number.getD ""))

section

variable {F : Type}

def Setting.base : Setting F → Option Base
  | .destination entry => some (.entry entry.basePort)
  | .port number => some (.all (atoi (number.getD "")))
  | _ => none

/-- The base ports that an option gives to all targets. -/
def Opt.base : Opt F → Option Base
  | .set none s => s.base
  | _ => none

theorem basePorts_set (s : Setting F) {td : TargetData F}
    (hroom : td.addressTable.length ≤ tableEntries) :
    (s.set td).basePorts = s.base.toList.foldl Base.apply td.basePorts := by
  cases s with
  | destination entry => exact List.map_append
  | port number => exact map_mapTable (·.basePort) (fun _ => rfl) hroom
  | portcount number =>
    refine (map_mapTable (·.basePort)
      (f := fun e => { e with portCount := atoi (number.getD "") }) (g := id) (fun _ => rfl)
      hroom).trans ?_
    exact List.map_id _
  | _ => rfl

/-- The base ports after some options, while the table has room. -/
theorem basePorts_replay (settings : List (Setting F)) {td : TargetData F}
    (hroom : td.addressTable.length + (settings.filterMap Setting.entry).length ≤ tableEntries) :
    (replay settings td).basePorts =
      (settings.filterMap Setting.base).foldl Base.apply td.basePorts := by
  induction settings generalizing td with
  | nil => rfl
  | cons s settings ih =>
    have htd : td.addressTable.length ≤ tableEntries := by omega
    rw [replay_cons, ih (room_set s hroom), basePorts_set s htd, List.filterMap_cons]
    cases s.base <;> rfl

theorem length_entries (settings : List (Setting F)) :
    (settings.filterMap Setting.entry).length =
      (settings.filterMap Setting.base).countP Base.isEntry := by
  induction settings with
  | nil => rfl
  | cons s settings ih =>
    rw [List.filterMap_cons, List.filterMap_cons]
    cases s with
    | destination entry =>
      simp only [Setting.entry, Setting.base]
      rw [List.length_cons, ih, List.countP_cons_of_pos rfl]
    | port number =>
      simp only [Setting.entry, Setting.base]
      rw [ih, List.countP_cons_of_neg Bool.false_ne_true]
    | _ => exact ih

/-! ## The options are those that are given -/

/-- An option that gives no base ports to all targets. -/
def NoBase (d : Decoder F) : Prop :=
  ∀ argc argv o used, d argc argv = some (o, used) → o.base = none

theorem decodeScalar_noBase {read : String → Option (Setting F)}
    (hread : ∀ text s, read text = some s → s.base = none) : NoBase (decodeScalar read) := by
  intro argc argv o used h
  rw [decodeScalar] at h
  generalize named argc argv = name at h
  obtain ⟨args, who⟩ := name
  obtain ⟨word, -, h⟩ := Option.bind_eq_some_iff.mp h
  obtain ⟨s, hs, h⟩ := Option.bind_eq_some_iff.mp h
  cases h
  cases who with
  | none => exact hread word s hs
  | some t => rfl

theorem positive_base {set : Int → Setting F} (hset : ∀ value, (set value).base = none)
    {value : Int} {s : Setting F} (h : positive set value = some s) : s.base = none := by
  rw [positive] at h
  split at h
  · cases h
  · cases h
    exact hset value

variable {ratios : Ratios F} {others : String → Option OtherOption}

theorem readOperation_base {text : String} {s : Setting F}
    (h : readOperation ratios text = some s) : s.base = none := by
  rw [readOperation] at h
  split at h
  · cases h
    rfl
  split at h
  · cases h
    rfl
  split at h
  · cases h
    rfl
  · cases h

theorem readStartoffset_base {text : String} {s : Setting F}
    (h : readStartoffset text = some s) : s.base = none := by
  rw [readStartoffset] at h
  split at h
  · cases h
  · cases h
    rfl

/-- Of the function table, only the two rows of `xddfunc_endtoend` are about base ports. -/
theorem decoders_base (ratios : Ratios F) : ∀ row ∈ decoders ratios,
    (isEndtoend row.1 = true ∧ isEndtoend row.2.1 = true) ∨ NoBase row.2.2 := by
  have hpositive {read : String → Int} {set : Int → Setting F}
      (hset : ∀ value, (set value).base = none) :
      NoBase (decodeScalar fun text => positive set (read text)) :=
    decodeScalar_noBase fun _ _ h => positive_base hset h
  have hsome {set : String → Setting F} (hset : ∀ text, (set text).base = none) :
      NoBase (decodeScalar fun text => some (set text)) :=
    decodeScalar_noBase fun text s h => by
      cases h
      exact hset text
  simp only [decoders, List.forall_mem_cons]
  refine ⟨.inr (hpositive fun _ => rfl), .inr (hsome fun _ => rfl), .inl ⟨rfl, rfl⟩,
    .inr (hsome fun _ => rfl), .inr (hsome fun _ => rfl), .inr (hpositive fun _ => rfl),
    .inr (decodeScalar_noBase fun _ _ h => readOperation_base h), .inr (hsome fun _ => rfl),
    .inr (hpositive fun _ => rfl), .inr (decodeScalar_noBase ?_),
    .inr (decodeScalar_noBase fun _ _ h => readStartoffset_base h), .inr ?_, .inr ?_,
    .inl ⟨rfl, rfl⟩, fun _ h => absurd h List.not_mem_nil⟩
  · intro text s h
    obtain ⟨value, -, rfl⟩ := Option.map_eq_some_iff.mp h
    rfl
  · intro argc argv o used h
    cases h
    rfl
  · intro argc argv o used h
    obtain ⟨word, -, h⟩ := Option.bind_eq_some_iff.mp h
    cases h
    rfl

theorem decoder_endtoend {name : String} (hname : isEndtoend name = true) :
    decoder ratios others name = some decodeEndtoend := by
  rw [isEndtoend, decide_eq_true_eq] at hname
  obtain rfl | rfl | rfl | rfl := hname
  · rfl
  · rfl
  · rfl
  · rfl

theorem decoder_noBase {name : String} (hname : isEndtoend name = false) {d : Decoder F}
    (h : decoder ratios others name = some d) : NoBase d := by
  rw [decoder] at h
  split at h
  · next func alt d' hrow =>
    cases h
    obtain ⟨hfunc, halt⟩ | hnone := decoders_base ratios _ (List.mem_of_find?_eq_some hrow)
    · have hfound := List.find?_some hrow
      simp only [decide_eq_true_eq] at hfound
      obtain rfl | rfl := hfound
      · rw [hname] at hfunc
        cases hfunc
      · rw [hname] at halt
        cases halt
    · exact hnone
  · obtain ⟨option, -, rfl⟩ := Option.map_eq_some_iff.mp h
    intro argc argv o used ho
    obtain ⟨words, -, hwords⟩ := Option.map_eq_some_iff.mp ho
    cases hwords
    rfl

theorem named_none {argc : Int} {argv : List String} (h : (named argc argv).2 = none) :
    named argc argv = (0, none) := by
  rw [named] at h ⊢
  split at h
  · next hone => rw [if_pos hone]
  · next hmore =>
    rw [if_neg hmore]
    split at h
    · cases h
    · next hword => rw [if_neg hword]

/-- The suboption that is decoded gives the base ports that its words say. -/
theorem e2eSuboption_base {word : String} {argv : List String} {s : Setting F} {used : Nat}
    (h : e2eSuboption word (argv.drop 2) = .ok (s, used)) :
    s.base = ((if word = "destination" ∨ word = "dest" ∨ word = "host" then
        argv[2]?.map Given.destination
      else if word = "port" ∨ word = "baseport" then some (.port argv[2]?)
      else none).map Given.base) := by
  rw [e2eSuboption] at h
  split at h
  · next hword =>
    rw [if_pos hword]
    obtain ⟨text, htext, h⟩ := bind_eq_ok h
    have htext' := arg_eq_ok htext
    rw [List.getElem?_drop] at htext'
    rw [htext']
    dsimp only at h
    split at h
    · cases h
    · cases h
      rfl
  · next hword =>
    rw [if_neg hword]
    by_cases hport : word = "port" ∨ word = "baseport"
    · rw [if_pos hport]
      obtain rfl | rfl := hport
      · cases h
        simp [Setting.base, Given.base, List.getElem?_drop]
      · cases h
        simp [Setting.base, Given.base, List.getElem?_drop]
    · rw [if_neg hport]
      rw [if_neg hport] at h
      repeat' split at h
      all_goals first
        | cases h; rfl
        | cases h

theorem decode_base {name word : String} {argv : List String} {argc : Int} {o : Opt F} {used : Nat}
    (h : ((decoder ratios others name).bind fun d => d argc (word :: argv)) = some (o, used)) :
    o.base = (givenOption name argc (word :: argv)).map Given.base := by
  obtain ⟨d, hd, h⟩ := Option.bind_eq_some_iff.mp h
  rw [givenOption]
  by_cases hname : isEndtoend name = true
  · rw [decoder_endtoend hname] at hd
    cases hd
    rw [decodeEndtoend] at h
    by_cases hwho : (named argc (word :: argv)).2 = none
    · rw [named_none hwho] at h
      obtain ⟨suboption, hsuboption, h⟩ := Option.bind_eq_some_iff.mp h
      obtain ⟨⟨s, n⟩, hs, h⟩ := Option.bind_eq_some_iff.mp h
      cases h
      rw [if_pos ⟨hname, hwho⟩, show (word :: argv)[1]? = some suboption from hsuboption]
      exact e2eSuboption_base (eq_ok_of_toOption hs)
    · rw [if_neg fun hboth => hwho hboth.2]
      generalize named argc (word :: argv) = target at h hwho
      obtain ⟨args, who⟩ := target
      obtain ⟨suboption, -, h⟩ := Option.bind_eq_some_iff.mp h
      obtain ⟨⟨s, n⟩, -, h⟩ := Option.bind_eq_some_iff.mp h
      cases h
      cases who with
      | none => exact absurd rfl hwho
      | some t => rfl
  · rw [if_neg fun hboth => hname hboth.1]
    rw [Bool.not_eq_true] at hname
    exact decoder_noBase hname hd argc (word :: argv) o used h

/-- The base ports that the options give to all targets are those of the given words. -/
theorem optionsFrom_base (argv : List String) : ∀ (skip : Nat) (left : Int),
    (optionsFrom ratios others skip left argv).filterMap Opt.base =
      (givenFrom ratios others skip left argv).map Given.base := by
  induction argv with
  | nil =>
    intro skip left
    cases skip <;> rfl
  | cons word argv ih =>
    intro skip left
    cases skip with
    | succ skip => exact ih skip left
    | zero =>
      rw [optionsFrom, givenFrom]
      split
      · rfl
      cases optionName word with
      | none => exact ih 0 left
      | some name =>
        dsimp only
        cases hdecode : (decoder ratios others name).bind fun d => d left (word :: argv) with
        | none => rfl
        | some result =>
          obtain ⟨o, used⟩ := result
          dsimp only
          rw [List.filterMap_cons, decode_base hdecode, List.map_append, ← ih]
          cases givenOption name left (word :: argv) <;> rfl

/-! ## The base ports of the table -/

theorem basePort_address (text : String) :
    (address text.toList).basePort = (explicitPort text).getD defaultE2ePort := by
  rw [address, explicitPort]
  dsimp only
  split
  · rfl
  · rfl

/-- Without a `port` option every destination has its own base port or the default. -/
theorem foldl_base_of_noPort {given : List Given} (hnone : givenPorts given = [])
    (ports : List Int) :
    (given.map Given.base).foldl Base.apply ports =
      ports ++ (destinationTexts given).map fun text =>
        (explicitPort text).getD defaultE2ePort := by
  induction given generalizing ports with
  | nil => exact (List.append_nil ports).symm
  | cons g given ih =>
    cases g with
    | destination text =>
      rw [List.map_cons, List.foldl_cons, ih hnone, Given.base, Base.apply, basePort_address,
        List.append_assoc]
      rfl
    | port number => cases hnone

theorem countP_base (given : List Given) :
    (given.map Given.base).countP Base.isEntry = (destinationTexts given).length := by
  induction given with
  | nil => rfl
  | cons g given ih =>
    rw [List.map_cons]
    cases g with
    | destination text => rw [List.countP_cons_of_pos rfl, ih]; rfl
    | port number => rw [List.countP_cons_of_neg Bool.false_ne_true, ih]; rfl

theorem getD_eq_self_iff {own : Option Int} {port : Int} :
    port = own.getD port ↔ ∀ p ∈ own, p = port := by
  cases own with
  | none => simp
  | some p => simp [eq_comm]

theorem getD_eq_getD_iff {own : Option Int} {port : Int} :
    own.getD defaultE2ePort = own.getD port ↔ (own = none → port = defaultE2ePort) := by
  cases own with
  | none => simp [eq_comm]
  | some p => simp

/-- The base ports of a sequence with at most one `port` option. -/
theorem foldl_base_iff {given : List Given} (hone : (givenPorts given).length ≤ 1) :
    ((given.map Given.base).foldl Base.apply [] = (destinationTexts given).map fun text =>
        (explicitPort text).getD ((givenPorts given).head?.getD defaultE2ePort)) ↔
      (∀ port ∈ (givenPorts given).head?,
        ∀ text ∈ destinationTexts (given.takeWhile (·.port? = none)),
          ∀ own ∈ explicitPort text, own = port) ∧
      ∀ port ∈ (givenPorts given).head?,
        ∀ text ∈ destinationTexts (given.dropWhile (·.port? = none)),
          explicitPort text = none → port = defaultE2ePort := by
  have hsplit := List.takeWhile_append_dropWhile (p := fun g : Given => decide (g.port? = none))
    (l := given)
  have hfront : givenPorts (given.takeWhile (·.port? = none)) = [] := by
    apply List.filterMap_eq_nil_iff.mpr
    intro g hg
    simpa using List.mem_takeWhile_imp hg
  generalize given.takeWhile (·.port? = none) = front at hsplit hfront ⊢
  cases hback : given.dropWhile (·.port? = none) with
  | nil =>
    rw [hback, List.append_nil] at hsplit
    subst hsplit
    rw [foldl_base_of_noPort hfront, hfront]
    exact iff_of_true rfl ⟨fun _ h => absurd h (by simp), fun _ h => absurd h (by simp)⟩
  | cons g back =>
    have hg := List.head?_dropWhile_not (fun g : Given => decide (g.port? = none)) given
    rw [hback] at hg hsplit
    cases g with
    | destination text => exact absurd hg (by simp [Given.port?])
    | port number =>
      have hports : givenPorts given = atoi (number.getD "") :: givenPorts back := by
        rw [← hsplit, givenPorts, List.filterMap_append]
        show givenPorts front ++ _ = _
        rw [hfront]
        rfl
      have hnone : givenPorts back = [] := by
        rw [hports, List.length_cons] at hone
        exact List.length_eq_zero_iff.mp (by omega)
      have htexts : destinationTexts given = destinationTexts front ++ destinationTexts back := by
        rw [← hsplit, destinationTexts, List.filterMap_append]
        rfl
      rw [hports, htexts, List.head?_cons, Option.getD_some, ← hsplit, List.map_append,
        List.foldl_append, foldl_base_of_noPort hfront, List.map_cons, List.foldl_cons,
        foldl_base_of_noPort hnone, Given.base, Base.apply, List.nil_append, List.map_map,
        List.map_append]
      have hbehind : destinationTexts (.port number :: back) = destinationTexts back := rfl
      rw [hbehind]
      simp only [Option.mem_def, Option.some.injEq, forall_eq']
      constructor
      · intro heq
        obtain ⟨hfronts, hbacks⟩ := List.append_inj heq (by simp)
        refine ⟨?_, ?_⟩
        · intro text htext
          exact getD_eq_self_iff.mp (List.map_inj_left.mp hfronts text htext)
        · intro text htext
          exact getD_eq_getD_iff.mp (List.map_inj_left.mp hbacks text htext)
      · rintro ⟨hfronts, hbacks⟩
        refine congrArg₂ (· ++ ·) ?_ ?_
        · apply List.map_congr_left
          intro text htext
          exact getD_eq_self_iff.mpr (hfronts text htext)
        · apply List.map_congr_left
          intro text htext
          exact getD_eq_getD_iff.mpr (hbacks text htext)

/-- The base ports that a target gets are those for all targets, if no option about them names
it. -/
theorem applying_base {os : List (Opt F)} (hall : ∀ u s, .set (some u) s ∈ os → s.base = none)
    (t : Nat) :
    (os.filterMap (·.naming t) ++ os.filterMap (·.applying t)).filterMap Setting.base =
      os.filterMap Opt.base := by
  rw [List.filterMap_append, List.filterMap_filterMap, List.filterMap_filterMap]
  have hnaming : os.filterMap (fun o => (o.naming t).bind Setting.base) = [] := by
    apply List.filterMap_eq_nil_iff.mpr
    intro o ho
    cases o with
    | set who s =>
      cases who with
      | none => rfl
      | some u =>
        rw [Opt.naming]
        split
        · exact hall u s ho
        · rfl
    | _ => rfl
  rw [hnaming, List.nil_append]
  apply List.filterMap_congr
  intro o ho
  cases o with
  | set who s =>
    cases who with
    | none => rfl
    | some u =>
      rw [Opt.applying]
      split
      · exact hall u s ho
      · rfl
  | _ => rfl

/-- For every accepted command line whose options about base ports are for all targets, with at
most one `port` option, the base ports are as given exactly if they agree with that option. -/
theorem xddParse_portsAsGiven_iff (ratios : Ratios F) (others : String → Option OtherOption)
    (argv : List String) (plan : Plan F) (h : xddParse ratios others argv = .ok plan)
    (hall : ∀ u s, .set (some u) s ∈ options ratios others argv → s.base = none)
    (hone : (givenPorts (given ratios others argv)).length ≤ 1)
    (t : Nat) (ht : t < plan.numberOfTargets) :
    ∃ td, plan.targets t = some td ∧
      (PortsAsGiven (given ratios others argv) td ↔ PortsAgree (given ratios others argv)) := by
  refine ⟨_, xddParse_targets others h ht, ?_⟩
  have hreplay : replay ((options ratios others argv).filterMap (·.applying t))
      (replay ((options ratios others argv).filterMap (·.naming t)) (initNewTargetData ratios)) =
        replay ((options ratios others argv).filterMap (·.naming t) ++
          (options ratios others argv).filterMap (·.applying t)) (initNewTargetData ratios) :=
    (List.foldl_append).symm
  have hbase := applying_base hall t
  rw [show (options ratios others argv).filterMap Opt.base =
    (given ratios others argv).map Given.base from optionsFrom_base argv 0 argv.length] at hbase
  rw [hreplay]
  generalize (options ratios others argv).filterMap (·.naming t) ++
    (options ratios others argv).filterMap (·.applying t) = settings at hbase
  generalize given ratios others argv = given at hbase hone
  have hentries : (settings.filterMap Setting.entry).length = (destinationTexts given).length := by
    rw [length_entries, hbase, countP_base]
  have hlength : (replay settings (initNewTargetData ratios)).addressTable.length =
      (destinationTexts given).length := by
    have hhosts := congrArg List.length (hosts_replay settings (initNewTargetData ratios))
    rw [List.length_map, List.length_append, List.length_map, List.length_map, hentries] at hhosts
    rw [hhosts]
    exact Nat.zero_add _
  by_cases hroom : (destinationTexts given).length ≤ tableEntries
  · have hports : (replay settings (initNewTargetData ratios)).basePorts =
        (given.map Given.base).foldl Base.apply [] := by
      rw [basePorts_replay settings, hbase]
      · rfl
      · rw [hentries]
        exact (Nat.zero_add _).trans_le hroom
    have hiff := foldl_base_iff hone
    rw [← hports] at hiff
    constructor
    · rintro ⟨-, hgiven⟩
      obtain ⟨hbefore, hbehind⟩ := hiff.mp hgiven
      exact ⟨hroom, hbefore, hbehind⟩
    · rintro ⟨-, hbefore, hbehind⟩
      exact ⟨hlength.trans_le hroom, hiff.mpr ⟨hbefore, hbehind⟩⟩
  · refine iff_of_false ?_ ?_
    · rintro ⟨hfits, -⟩
      exact hroom (hlength ▸ hfits)
    · rintro ⟨hfits, -, -⟩
      exact hroom hfits

end

/-- A destination without a base port, and then the port. -/
def portBehindLine : List String :=
  ["-target", "a", "-e2e", "destination", "h", "-e2e", "port", "50010"]

theorem xddParse_portsAsGiven_portBehindLine :
    ∃ plan td, xddParse wholeRatios (fun _ => none) portBehindLine = .ok plan ∧
      plan.targets 0 = some td ∧
      PortsAsGiven (given wholeRatios (fun _ => none) portBehindLine) td := by
  have hplan : (xddParse wholeRatios (fun _ => none) portBehindLine).toOption.map
      (·.numberOfTargets) = some 1 := by decide +kernel
  obtain ⟨plan, hparse, hnumber⟩ := Option.map_eq_some_iff.mp hplan
  have hok := eq_ok_of_toOption hparse
  have hoptions : options wholeRatios (fun _ => none) portBehindLine =
      [.define 1, .set none (.destination ⟨"h".toList, 40010, 0⟩),
        .set none (.port (some "50010"))] := by decide +kernel
  have hgiven : given wholeRatios (fun _ => none) portBehindLine =
      [.destination "h", .port (some "50010")] := by decide +kernel
  have hnone : explicitPort "h" = none := by decide +kernel
  obtain ⟨td, htd, hiff⟩ := xddParse_portsAsGiven_iff wholeRatios (fun _ => none) portBehindLine
    plan hok (by rw [hoptions]; simp) (by rw [hgiven]; decide) 0 (by omega)
  refine ⟨plan, td, hok, htd, hiff.mpr ?_⟩
  rw [hgiven]
  refine ⟨by decide, ?_, ?_⟩
  · intro port _ text htext
    obtain rfl : text = "h" := by
      simpa [destinationTexts, Given.destination?, Given.port?] using htext
    rw [hnone]
    exact fun own h => absurd h (by simp)
  · intro port _ text htext
    exact absurd htext (by simp [destinationTexts, Given.destination?, Given.port?])

/-- The port, and then a destination without a base port. -/
def portBeforeLine : List String :=
  ["-target", "a", "-e2e", "port", "50010", "-e2e", "destination", "h"]

/-- A destination with a base port, and then another port. -/
def portOverLine : List String :=
  ["-target", "a", "-e2e", "destination", "h:60010", "-e2e", "port", "50010"]

/-- A line whose first target gets other base ports than it was given. -/
theorem exists_not_portsAsGiven {argv : List String} {ports : List Int}
    (hplan : (xddParse wholeRatios (fun _ => none) argv).toOption.map
      (fun plan => (plan.targets 0).map TargetData.basePorts) = some (some ports))
    (hother : ports ≠ (destinationTexts (given wholeRatios (fun _ => none) argv)).map fun text =>
      (explicitPort text).getD
        ((givenPorts (given wholeRatios (fun _ => none) argv)).head?.getD defaultE2ePort)) :
    ∃ plan td, xddParse wholeRatios (fun _ => none) argv = .ok plan ∧
      plan.targets 0 = some td ∧ td.basePorts = ports ∧
      ¬ PortsAsGiven (given wholeRatios (fun _ => none) argv) td := by
  obtain ⟨plan, hparse, hdata⟩ := Option.map_eq_some_iff.mp hplan
  obtain ⟨td, htd, hports⟩ := Option.map_eq_some_iff.mp hdata
  exact ⟨plan, td, eq_ok_of_toOption hparse, htd, hports, fun hgiven =>
    hother (hports.symm.trans hgiven.ports)⟩

/-- The destination behind the option gets the default; the one before it loses its port. -/
theorem basePorts_by_order :
    (∃ plan td, xddParse wholeRatios (fun _ => none) portBeforeLine = .ok plan ∧
      plan.targets 0 = some td ∧ td.basePorts = [40010] ∧
      ¬ PortsAsGiven (given wholeRatios (fun _ => none) portBeforeLine) td) ∧
    ∃ plan td, xddParse wholeRatios (fun _ => none) portOverLine = .ok plan ∧
      plan.targets 0 = some td ∧ td.basePorts = [50010] ∧
      ¬ PortsAsGiven (given wholeRatios (fun _ => none) portOverLine) td :=
  ⟨exists_not_portsAsGiven (by decide +kernel) (by decide +kernel),
    exists_not_portsAsGiven (by decide +kernel) (by decide +kernel)⟩

end Xdd.Options
