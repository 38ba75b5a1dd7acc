import Xdd.Library.Text
import Xdd.Target.Options

/-!
# The command line of a plan

`xdd_parse` goes over the command line twice. Options for all targets wait for the second
phase, when every target is known; an option with the suboption `target t` acts in both
phases, on a structure that is created when the target is first mentioned. `-target` counts
the targets in the first phase only.

Doubles are only stored and compared here, so their type is a parameter. The strings of
the command line are taken as they are; a missing argument is a null pointer, and reading
through it ends the program.
-/

namespace Xdd.Options

open Text

/-- How the parser can end the program. -/
inductive Stop where
  | rejected
  | crash
deriving DecidableEq, Repr

inductive Phase where
  | phase1
  | phase2
deriving DecidableEq, Repr

/-- The values of `td_rwratio` that the options know: three constants, and a percentage
between 0 and 100. -/
structure Ratios (F : Type) where
  write : F
  read : F
  noop : F
  percent : String → Option F

/-- An entry of the end-to-end address table. -/
structure AddressEntry where
  hostname : List Char
  basePort : Int
  portCount : Int
deriving DecidableEq, Repr

/-- The fields of the Target Data that the options set. `addressTable` holds the entries in
the order in which they were written; the table itself has room for the first 16. -/
structure TargetData (F : Type) where
  reqsize : Int
  blockSize : Int
  queueDepth : Int
  numreqs : Int
  bytes : Int
  rwratio : F
  startOffset : Int
  endToEnd : Bool
  e2eSource : Bool
  e2eDestination : Bool
  sourceMonitor : Bool
  addressTable : List AddressEntry
  hostCount : Nat
  portCount : Int
  srcFilePath : Option String
  srcFileMtime : Int
deriving DecidableEq, Repr

/-- `target_datap` and `number_of_targets`. -/
structure Plan (F : Type) where
  targets : Nat → Option (TargetData F)
  numberOfTargets : Nat

def maxTargets : Nat := 8192
def tableEntries : Nat := 16
def defaultE2ePort : Int := 40010

/-- A handler gets the arguments from its option on and returns how many it has used. -/
abbrev Handler (F : Type) := Phase → Int → List String → Plan F → Except Stop (Plan F × Nat)

/-- The number at the front of a text. -/
def number (text : List Char) : Int :=
  match readInteger text with
  | some (value, _) => value
  | none => 0

def atoll (text : String) : Int := Target.atoll (number text.toList)

def atoi (text : String) : Int := Target.atoi (number text.toList)

/-- Reading an argument. -/
def arg (argv : List String) (i : Nat) : Except Stop String :=
  match argv[i]? with
  | some text => .ok text
  | none => .error .crash

section

variable {F : Type} (ratios : Ratios F)

/-- `xdd_init_new_target_data` on cleared memory. -/
def initNewTargetData : TargetData F where
  reqsize := 128
  blockSize := 1024
  queueDepth := 1
  numreqs := 0
  bytes := 0
  rwratio := ratios.write
  startOffset := 0
  endToEnd := false
  e2eSource := false
  e2eDestination := false
  sourceMonitor := false
  addressTable := []
  hostCount := 0
  portCount := 0
  srcFilePath := none
  srcFileMtime := 0

/-- The structure of a target, or the one that would be created for it. -/
def Plan.data (plan : Plan F) (t : Nat) : TargetData F :=
  (plan.targets t).getD (initNewTargetData ratios)

/-- `xdd_get_target_datap`: the array has no place for more targets. -/
def getTargetDatap (plan : Plan F) (t : Nat) : Except Stop (Plan F) :=
  if maxTargets ≤ t then .error .crash
  else .ok { plan with targets := Function.update plan.targets t (some (plan.data ratios t)) }

/-- The number of targets that `while (tdp)` comes to. -/
def chain (targets : Nat → Option (TargetData F)) : Nat → Nat → Nat
  | 0, i => i
  | places + 1, i => if (targets i).isSome then chain targets places (i + 1) else i

/-- Put an option into one target. -/
def setTarget (t : Nat) (set : TargetData F → TargetData F) (plan : Plan F) :
    Except Stop (Plan F) := do
  let plan ← getTargetDatap ratios plan t
  return { plan with targets := Function.update plan.targets t (some (set (plan.data ratios t))) }

/-- Put an option into all targets. With a full array the loop does not find its end. -/
def setAllTargets (set : TargetData F → TargetData F) (plan : Plan F) : Except Stop (Plan F) :=
  let reached := chain plan.targets maxTargets 0
  if reached = maxTargets then .error .crash
  else .ok { plan with
    targets := fun i => if i < reached then (plan.targets i).map set else plan.targets i }

/-- `xdd_parse_target_number`: the arguments used, the target if one is named, and the plan
in which it exists. The word `previous` is looked for in the option itself. -/
def parseTargetNumber (argc : Int) (argv : List String) (plan : Plan F) :
    Except Stop (Nat × Option Nat × Plan F) := do
  if argc ≤ 1 then return (0, none, plan)
  let word ← arg argv 1
  if word = "target" then
    if argc < 3 then throw .rejected
    let tn := atoi (← arg argv 2)
    if maxTargets ≤ tn then throw .rejected
    if tn < 0 then throw .crash
    let plan ← getTargetDatap ratios plan tn.toNat
    return (2, some tn.toNat, plan)
  else
    let option ← arg argv 0
    if option = "previous" ∨ option = "prev" ∨ option = "p" then
      if plan.numberOfTargets = 0 then throw .crash
      let plan ← getTargetDatap ratios plan (plan.numberOfTargets - 1)
      return (1, some (plan.numberOfTargets - 1), plan)
    else return (0, none, plan)

/-- `xdd_parse_arg_count_check`. -/
def argCountCheck (args : Nat) (argc : Int) : Except Stop Unit :=
  if argc ≤ args + 1 then .error .rejected else .ok ()

/-- What an option stores into a target. A missing argument is kept until it is read. -/
inductive Setting (F : Type) where
  | reqsize (value : Int)
  | blocksize (value : Int)
  | queuedepth (value : Int)
  | numreqs (value : Int)
  | bytes (value : Int)
  | rwratio (value : F)
  | startoffset (value : Int)
  | destination (entry : AddressEntry)
  | issource
  | isdestination
  | port (number : Option String)
  | portcount (number : Option String)
  | sourcemonitor
  | sourcepath (path mtime : Option String)
deriving DecidableEq, Repr

/-- The loops over the address table go over its 16 places. -/
def mapTable (f : AddressEntry → AddressEntry) (table : List AddressEntry) : List AddressEntry :=
  (table.take tableEntries).map f ++ table.drop tableEntries

/-- The arguments that are read when the option is stored are there. -/
def Setting.complete : Setting F → Bool
  | .port number | .portcount number => number.isSome
  | .sourcepath _ mtime => mtime.isSome
  | _ => true

/-- Store an option into a target; a number of requests and a number of bytes reset each
other, and a destination is put behind the entries that are already in the table. -/
def Setting.set (s : Setting F) (td : TargetData F) : TargetData F :=
  match s with
  | .reqsize value => { td with reqsize := value }
  | .blocksize value => { td with blockSize := value }
  | .queuedepth value => { td with queueDepth := value }
  | .numreqs value => { td with numreqs := value, bytes := 0 }
  | .bytes value => { td with bytes := value, numreqs := 0 }
  | .rwratio value => { td with rwratio := value }
  | .startoffset value => { td with startOffset := value }
  | .destination entry => { td with
      endToEnd := true
      addressTable := td.addressTable ++ [entry]
      portCount := int32 (td.portCount + entry.portCount)
      hostCount := td.hostCount + 1 }
  | .issource => { td with e2eSource := true }
  | .isdestination => { td with e2eDestination := true }
  | .port number => { td with
      endToEnd := true
      addressTable := mapTable (fun e => { e with basePort := atoi (number.getD "") })
        td.addressTable }
  | .portcount number => { td with
      endToEnd := true
      addressTable := mapTable (fun e => { e with portCount := atoi (number.getD "") })
        td.addressTable }
  | .sourcemonitor => { td with sourceMonitor := true }
  | .sourcepath path mtime => { td with
      endToEnd := true
      srcFilePath := path
      srcFileMtime := atoll (mtime.getD "") }

/-- The last part of every handler: the named target in both phases, all targets in the
second phase. -/
def store (phase : Phase) (who : Option Nat) (s : Setting F) (plan : Plan F) :
    Except Stop (Plan F) :=
  match who, phase with
  | some t, _ => if s.complete then setTarget ratios t s.set plan else .error .crash
  | none, .phase2 => if s.complete then setAllTargets s.set plan else .error .crash
  | none, .phase1 => .ok plan

/-- The handlers of options with one value. -/
def scalarOption (read : String → Option (Setting F)) : Handler F := fun phase argc argv plan => do
  let (args, who, plan) ← parseTargetNumber ratios argc argv plan
  argCountCheck args argc
  match read (← arg argv (args + 1)) with
  | none => throw .rejected
  | some s =>
    let plan ← store ratios phase who s plan
    return (plan, if who.isSome then args + 2 else 2)

def positive (set : Int → Setting F) (value : Int) : Option (Setting F) :=
  if value ≤ 0 then none else some (set value)

def xddfuncReqsize : Handler F := scalarOption ratios fun text => positive .reqsize (atoi text)

def xddfuncBlocksize : Handler F := scalarOption ratios fun text => positive .blocksize (atoi text)

def xddfuncQueuedepth : Handler F := scalarOption ratios fun text => some (.queuedepth (atoi text))

def xddfuncNumreqs : Handler F := scalarOption ratios fun text => positive .numreqs (atoll text)

def xddfuncBytes : Handler F := scalarOption ratios fun text => some (.bytes (atoll text))

def xddfuncKbytes : Handler F :=
  scalarOption ratios fun text => some (.bytes (int64 (atoll text * 1024)))

def xddfuncMbytes : Handler F :=
  scalarOption ratios fun text => some (.bytes (int64 (atoll text * 1024 * 1024)))

def readOperation (text : String) : Option (Setting F) :=
  if text = "write" then some (.rwratio ratios.write)
  else if text = "read" then some (.rwratio ratios.read)
  else if text = "noop" ∨ text = "nop" then some (.rwratio ratios.noop)
  else none

def xddfuncOperation : Handler F := scalarOption ratios (readOperation ratios)

def xddfuncRwratio : Handler F := scalarOption ratios fun text => (ratios.percent text).map .rwratio

def readStartoffset (text : String) : Option (Setting F) :=
  if atoll text < 0 then none else some (.startoffset (atoll text))

def xddfuncStartoffset : Handler F := scalarOption ratios readStartoffset

/-- `-target` takes the next number; only the first phase counts. -/
def xddfuncTarget : Handler F := fun phase _ _ plan =>
  match phase with
  | .phase1 => do
    let plan ← getTargetDatap ratios plan plan.numberOfTargets
    return ({ plan with numberOfTargets := plan.numberOfTargets + 1 }, 2)
  | .phase2 => .ok (plan, 2)

/-- Add targets one after the other. -/
def addTargets : Nat → Plan F → Except Stop (Plan F)
  | 0, plan => .ok plan
  | count + 1, plan => do
    let plan ← getTargetDatap ratios plan plan.numberOfTargets
    addTargets count { plan with numberOfTargets := plan.numberOfTargets + 1 }

/-- The words that `-targets` uses: a negative number gives one name to all of them. -/
def targetsUsed (count : Int) : Nat := if count < 0 then 3 else count.toNat + 2

/-- `-targets`. A single name is looked up in the function table with its dash, where it is
never found, and all names are compared with `null`. -/
def xddfuncTargets : Handler F := fun phase _ argv plan => do
  let count := atoi (← arg argv 1)
  match phase with
  | .phase1 =>
    if argv.length < targetsUsed count then throw .crash
    else
      let plan ← addTargets ratios count.natAbs plan
      return (plan, targetsUsed count)
  | .phase2 => return (plan, targetsUsed count)

/-- A part of an address up to its delimiter, and the text behind it if there may be more.
Without a delimiter the part keeps the white space in front of it. -/
def field (delim : Char) (text : List Char) : List Char × Option (List Char) :=
  let body := text.dropWhile isSpace
  let inside := fun c => c ≠ delim && !isSpace c
  match body.dropWhile inside with
  | [] => (text, some [])
  | c :: rest => (body.takeWhile inside, if c = delim then some rest else none)

/-- The next part of an address, if there is one. -/
def nextField (delim : Char) (text : Option (List Char)) : List Char × Option (List Char) :=
  match text with
  | some text => field delim text
  | none => ([], none)

/-- `hostname:base_port,port_count`. -/
def address (text : List Char) : AddressEntry :=
  let (hostname, rest) := field ':' text
  let (basePort, rest) := nextField ',' rest
  let (portCount, _) := nextField ',' rest
  if basePort = [] then { hostname := hostname, basePort := defaultE2ePort, portCount := 0 }
  else
    { hostname := hostname
      basePort := Target.atoi (number basePort)
      portCount := Target.atoi (number portCount) }

/-- The suboptions of `-e2e` with the number of arguments that they take. The address is
copied into a buffer of 256 characters before it is taken apart. -/
def e2eSuboption (word : String) (args : List String) : Except Stop (Setting F × Nat) :=
  if word = "destination" ∨ word = "dest" ∨ word = "host" then do
    let text ← arg args 0
    if 256 ≤ text.utf8ByteSize then throw .crash
    return (.destination (address text.toList), 2)
  else if word = "issource" ∨ word = "issrc" then .ok (.issource, 1)
  else if word = "isdestination" ∨ word = "isdest" then .ok (.isdestination, 1)
  else if word = "port" ∨ word = "baseport" then .ok (.port args[0]?, 2)
  else if word = "portcount" then .ok (.portcount args[0]?, 2)
  else if word = "sourcemonitor" ∨ word = "srcmon" then .ok (.sourcemonitor, 1)
  else if word = "sourcepath" ∨ word = "srcpath" then .ok (.sourcepath args[0]? args[1]?, 3)
  else .error .rejected

def xddfuncEndtoend : Handler F := fun phase argc argv plan => do
  if argc ≤ 1 then throw .rejected
  let (args, who, plan) ← parseTargetNumber ratios argc argv plan
  argCountCheck args argc
  let (s, used) ← e2eSuboption (← arg argv (args + 1)) (argv.drop (args + 2))
  let plan ← store ratios phase who s plan
  return (plan, args + 1 + used)

/-- An option that sets none of the fields above: it may name a target, which then exists,
and it uses some arguments behind its name or ends the program. `-setup` is among them: the
program ends when the parameter file could be read. -/
structure OtherOption where
  takesTarget : Bool
  used : Int → List String → Option Nat

def otherOption (option : OtherOption) : Handler F := fun _ argc argv plan =>
  match option.used argc argv with
  | none => .error .rejected
  | some used =>
    if option.takesTarget then do
      let (_, _, plan) ← parseTargetNumber ratios argc argv plan
      return (plan, used + 1)
    else .ok (plan, used + 1)

/-- The rows of the function table that set the fields above: name, alternate and handler. -/
def xddFunc : List (String × String × Handler F) :=
  [("blocksize", "bs", xddfuncBlocksize ratios),
   ("bytes", "b", xddfuncBytes ratios),
   ("endtoend", "e2e", xddfuncEndtoend ratios),
   ("kbytes", "kb", xddfuncKbytes ratios),
   ("mbytes", "mb", xddfuncMbytes ratios),
   ("numreqs", "nr", xddfuncNumreqs ratios),
   ("operation", "op", xddfuncOperation ratios),
   ("queuedepth", "qd", xddfuncQueuedepth ratios),
   ("reqsize", "rs", xddfuncReqsize ratios),
   ("rwratio", "rw", xddfuncRwratio ratios),
   ("startoffset", "sto", xddfuncStartoffset ratios),
   ("target", "target", xddfuncTarget ratios),
   ("targets", "targets", xddfuncTargets ratios),
   ("writeafterread", "war", xddfuncEndtoend ratios)]

variable (others : String → Option OtherOption)

/-- The handler of an option. -/
def handler (name : String) : Option (Handler F) :=
  match (xddFunc ratios).find? fun (func, alt, _) => func = name ∨ alt = name with
  | some (_, _, func) => some func
  | none => (others name).map (otherOption ratios)

/-- The name of an option, if a word starts with a dash. -/
def optionName (word : String) : Option String :=
  match word.toList with
  | '-' :: name => some (String.ofList name)
  | _ => none

/-- `xdd_parse_args`. Words that are not options are passed over; they still count as
arguments that are left. `skip` words belong to the option before. -/
def parseArgs (phase : Phase) : Nat → Int → List String → Plan F → Except Stop (Plan F)
  | _, _, [], plan => .ok plan
  | skip + 1, left, _ :: argv, plan => parseArgs phase skip left argv plan
  | 0, left, word :: argv, plan =>
    if left = 0 then .ok plan
    else match optionName word with
      | none => parseArgs phase 0 left argv plan
      | some name => match handler ratios others name with
        | none => .error .rejected
        | some func => do
          let (plan, used) ← func phase left (word :: argv) plan
          parseArgs phase (used - 1) (left - used) argv plan

/-- `xdd_parse` on the words behind the program name. -/
def xddParse (argv : List String) : Except Stop (Plan F) := do
  let plan ← parseArgs ratios others .phase1 0 argv.length argv
    { targets := fun _ => none, numberOfTargets := 0 }
  let plan ← parseArgs ratios others .phase2 0 argv.length argv plan
  if (plan.targets 0).isNone then throw .rejected
  return plan

end

end Xdd.Options
