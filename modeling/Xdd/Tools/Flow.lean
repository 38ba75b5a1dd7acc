import Xdd.Target.Options
import Xdd.Tools.Partition

/-!
# Restarting a copy between several hosts

A copy between several hosts has one flow for each pair of hosts, and a flow starts one
XDD process on each side. A restart is split from the restart offset on: each source is
told where its part starts and how many bytes it has. Each sink is given the number of
bytes of its part and the restart offset, and the planner takes that offset off once more.
With one flow the number of bytes is that of the whole file, on both sides, and all is well.
-/

namespace Xdd.MultiHost

open Target (Arg TargetData parseArgs initNewTargetData calculateXferInfo plannedRange atoi)

/-- The fields of a `Flow` that decide what its XDD process transfers. -/
structure Flow where
  isSink : Bool
  reqSize : Int
  flowIdx : Nat
  numFlows : Int
  dataSize : Int
  startOffset : Int
  restart : Bool
  restartByte : Int
deriving DecidableEq, Repr

/-- The constructor. -/
def init (isSink : Bool) (reqSize : Int) (flowIdx : Nat) (numFlows : Int) : Flow where
  isSink := isSink
  reqSize := reqSize
  flowIdx := flowIdx
  numFlows := numFlows
  dataSize := 0
  startOffset := 0
  restart := false
  restartByte := 0

namespace Flow

/-- The restart options, and the start of a part of a copy that is not restarted. -/
def restartArgs (f : Flow) : List Arg :=
  if f.restart then
    if f.isSink then
      [.restartOffset f.restartByte, .restartEnable]
    else if 1 = f.numFlows then
      [.restartOffset f.restartByte]
    else
      [.startoffset (f.restartByte + f.startOffset)]
  else if 1 < f.numFlows then
    [.startoffset f.startOffset]
  else
    []

def createCommandArgs (f : Flow) : List Arg :=
  [.op (if f.isSink then .write else .read), .reqsize f.reqSize, .blocksize 1, .bytes f.dataSize] ++
    f.restartArgs

/-- The part of `start` that fills in the fields. -/
def prepare (f : Flow) (flowSize : Int) (restartFlag : Bool) (restartOffset : Int) : Flow :=
  let flowSize := if restartFlag ∧ f.numFlows > 1 then flowSize - restartOffset else flowSize
  let part := (Partition.init f.numFlows f.reqSize flowSize).getPart f.flowIdx
  { f with
    restart := restartFlag
    restartByte := restartOffset
    startOffset := part.1
    dataSize := part.2 }

/-- The command that `start` runs, whose checks of the files have passed. A flow without
data runs none. -/
def start (f : Flow) (flowSize : Int) (restartFlag : Bool) (restartOffset : Int) :
    Option (List Arg) :=
  let f := f.prepare flowSize restartFlag restartOffset
  if 0 = f.dataSize then none else some f.createCommandArgs

end Flow

/-- The target of the XDD process, if there is one and it accepts its command line. -/
def parsed (command : Option (List Arg)) : Option TargetData :=
  command.bind fun args => parseArgs args (initNewTargetData 0)

/-- The bytes that the process goes over. -/
def range (command : Option (List Arg)) : Set Int :=
  match parsed command with
  | some td => plannedRange (calculateXferInfo td)
  | none => ∅

/-- The number of bytes that the process plans. -/
def bytes (command : Option (List Arg)) : Int :=
  match parsed command with
  | some td => (calculateXferInfo td).bytesToXferPerPass
  | none => 0

/-- The planner takes off no more than there is. -/
def NoUnderflow (command : Option (List Arg)) : Prop :=
  ∀ td, parsed command = some td → ∀ restart, td.restart = some restart →
    restart.resumeCopy = true → restart.byteOffset ≤ td.bytes

section Restart

variable (total R n g : Int)

/-- The source of flow `i` of a copy of `total` bytes that is restarted at `R`. -/
def source (i : Nat) : Option (List Arg) := (init false g i n).start total true R

def sink (i : Nat) : Option (List Arg) := (init true g i n).start total true R

/-- The sources go over the rest of the file, each byte once, and every sink plans as many
bytes as its source sends. -/
structure SplitAgrees : Prop where
  disjoint : ∀ i j : Nat, (i : Int) < n → (j : Int) < n → i ≠ j →
    Disjoint (range (source total R n g i)) (range (source total R n g j))
  union : ⋃ i ∈ {i : Nat | (i : Int) < n}, range (source total R n g i) = Set.Ico R total
  agrees : ∀ i : Nat, (i : Int) < n →
    bytes (sink total R n g i) = bytes (source total R n g i)
  noUnderflow : ∀ i : Nat, (i : Int) < n →
    NoUnderflow (source total R n g i) ∧ NoUnderflow (sink total R n g i)

end Restart

/-! ## What a process makes of its command line -/

/-- The target after the options of a flow. -/
def asked (isSink : Bool) (g size start : Int) (restart : Option Target.Restart) : TargetData :=
  { initNewTargetData 0 with
    rwratio := if isSink then 0 else 1
    reqsize := atoi g
    blockSize := 1
    bytes := size
    startOffset := start
    restart := restart }

variable {f : Flow}

theorem parseArgs_createCommandArgs (f : Flow) :
    parseArgs f.createCommandArgs (initNewTargetData 0) =
      if atoi f.reqSize ≤ 0 then none
      else parseArgs f.restartArgs
        (asked f.isSink f.reqSize (Target.atoll f.dataSize) 0 none) := by
  have hone : ¬ atoi 1 ≤ 0 := by decide
  have hop : Target.xddfuncOperation (if f.isSink then .write else .read) (initNewTargetData 0) =
      some { initNewTargetData 0 with rwratio := if f.isSink then 0 else 1 } := by
    cases f.isSink <;> rfl
  simp only [Flow.createCommandArgs, List.cons_append, List.nil_append, parseArgs, Target.xddfunc,
    hop, Option.bind_some, Target.xddfuncReqsize]
  by_cases hreq : atoi f.reqSize ≤ 0
  · rw [if_pos hreq, if_pos hreq, Option.bind_none]
  · rw [if_neg hreq, if_neg hreq, Option.bind_some, Target.xddfuncBlocksize]
    simp only [if_neg hone, Option.bind_some, Target.xddfuncBytes]
    rfl

/-- The process of a flow with data comes to its restart options. -/
theorem parsed_start {isSink : Bool} {g R total n : Int} {i : Nat} {f : Flow}
    (hf : (init isSink g i n).prepare total true R = f) (hdata : f.dataSize ≠ 0)
    (hreq : 0 < atoi g) :
    parsed ((init isSink g i n).start total true R) =
      parseArgs f.restartArgs (asked isSink g (Target.atoll f.dataSize) 0 none) := by
  have hsink : f.isSink = isSink := by rw [← hf]; rfl
  have hsize : f.reqSize = g := by rw [← hf]; rfl
  simp only [Flow.start, hf, parsed]
  rw [if_neg hdata.symm, Option.bind_some, parseArgs_createCommandArgs, hsize, hsink,
    if_neg (not_le.mpr hreq)]

/-- The process of a flow of a restarted copy with data, which is told to resume. -/
theorem parsed_resume (isSink : Bool) (g R total n : Int) (i : Nat) {f : Flow}
    (hf : (init isSink g i n).prepare total true R = f) (hone : isSink = true ∨ n = 1)
    (hdata : f.dataSize ≠ 0) (hreq : 0 < atoi g) :
    parsed ((init isSink g i n).start total true R) =
      some (asked isSink g (Target.atoll f.dataSize) 0
        (some { resumeCopy := true, byteOffset := Target.atoll R })) := by
  have hargs : f.restartArgs = .restartOffset R :: if isSink then [.restartEnable] else [] := by
    rcases hone with rfl | rfl
    · simp [← hf, Flow.restartArgs, Flow.prepare, init]
    · cases isSink <;> simp [← hf, Flow.restartArgs, Flow.prepare, init]
  rw [parsed_start hf hdata hreq, hargs]
  cases isSink <;> rfl

/-- The process of a source of a restarted copy with several flows. -/
theorem parsed_startoffset (g R total n : Int) (i : Nat) {f : Flow}
    (hf : (init false g i n).prepare total true R = f) (hmany : n ≠ 1) (hdata : f.dataSize ≠ 0)
    (hreq : 0 < atoi g) (hlow : 0 ≤ R + f.startOffset) (hhigh : R + f.startOffset < 2 ^ 63) :
    parsed ((init false g i n).start total true R) =
      some (asked false g (Target.atoll f.dataSize) (R + f.startOffset) none) := by
  have hargs : f.restartArgs = [.startoffset (R + f.startOffset)] := by
    simp [← hf, Flow.restartArgs, Flow.prepare, init, hmany.symm]
  rw [parsed_start hf hdata hreq, hargs]
  simp only [parseArgs, Target.xddfunc, Target.xddfuncStartoffset, Target.atoll_of_fits hlow hhigh,
    if_neg (not_lt.mpr hlow), Option.bind_some]
  rfl

/-- Without data there is no process, and none accepts a request size that is no positive
number. -/
theorem parsed_eq_none {isSink : Bool} {g R total n : Int} {i : Nat}
    (h : ((init isSink g i n).prepare total true R).dataSize = 0 ∨ atoi g ≤ 0) :
    parsed ((init isSink g i n).start total true R) = none := by
  generalize hf : (init isSink g i n).prepare total true R = f at h
  have hsize : f.reqSize = g := by rw [← hf]; rfl
  simp only [Flow.start, hf, parsed]
  rcases h with hdata | hreq
  · rw [if_pos hdata.symm, Option.bind_none]
  · split
    · exact Option.bind_none _
    · rw [Option.bind_some, parseArgs_createCommandArgs, hsize, if_pos hreq]

theorem requestSize_ne_zero {g : Int} (hreq : 0 < atoi g) : int32 (atoi g * 1) ≠ 0 := by
  have hlt := Target.atoi_lt g
  rw [mul_one, int32_of_fits (by omega) hlt]
  omega

/-- A resumed process: the offset is taken off the number of bytes. -/
theorem calculateXferInfo_resumed (isSink : Bool) {g size R : Int} (hreq : 0 < atoi g)
    (hpos : 0 < size) (hfits : size < 2 ^ 63) (hlow : 0 ≤ R) (hhigh : R < 2 ^ 63) :
    let td := calculateXferInfo (asked isSink g size 0
      (some { resumeCopy := true, byteOffset := R }))
    td.startOffset = R ∧ td.blockSize = 1 ∧ td.bytesToXferPerPass = uint64 (size - R) := by
  obtain ⟨ops, heq⟩ := Target.calculateXferInfo_bytes
    (asked isSink g size 0 (some { resumeCopy := true, byteOffset := R }))
    (requestSize_ne_zero hreq) rfl hpos hfits
  intro td
  have hstart : int64 (R.tdiv 1) = R := by
    rw [Int.tdiv_one, int64_of_fits (by omega) hhigh]
  simp only [td, heq, Target.resumeCopy, asked, if_true, hstart, and_self]

/-- A process that starts where it is told. -/
theorem calculateXferInfo_started {g size : Int} (start : Int) (hreq : 0 < atoi g) (hpos : 0 < size)
    (hfits : size < 2 ^ 63) :
    let td := calculateXferInfo (asked false g size start none)
    td.startOffset = start ∧ td.blockSize = 1 ∧ td.bytesToXferPerPass = size := by
  obtain ⟨ops, heq⟩ := Target.calculateXferInfo_bytes (asked false g size start none)
    (requestSize_ne_zero hreq) rfl hpos hfits
  intro td
  simp only [td, heq, Target.resumeCopy, asked, and_self]

section Sides

variable {total R n g : Int} {i : Nat}

/-- With one flow each side plans what is left of the file. -/
theorem one_flow (isSink : Bool) (hR : 0 ≤ R) (hle : R ≤ total) (hfits : total < 2 ^ 63)
    (hg : 1 ≤ g) (hreq : 0 < atoi g) :
    let command := (init isSink g 0 1).start total true R
    range command = Set.Ico R total ∧ bytes command = total - R ∧ NoUnderflow command := by
  intro command
  have hdata : ((init isSink g 0 1).prepare total true R).dataSize = total := by
    simpa [Flow.prepare, init] using congrArg Prod.snd (Partition.getPart_one hg (by omega))
  by_cases hempty : total = 0
  · have hnone : parsed command = none := parsed_eq_none (.inl (hdata.trans hempty))
    obtain rfl : R = 0 := by omega
    simp [range, bytes, NoUnderflow, hnone, hempty]
  · have hparsed := parsed_resume isSink g R total 1 0 rfl (.inr rfl) (by rwa [hdata]) hreq
    rw [hdata, Target.atoll_of_fits (by omega) hfits, Target.atoll_of_fits hR (by omega)] at hparsed
    obtain ⟨hstart, hblock, hbytes⟩ := calculateXferInfo_resumed isSink hreq
      (by omega : 0 < total) hfits hR (by omega)
    rw [uint64_of_fits (by omega) (by omega)] at hbytes
    refine ⟨?_, ?_, ?_⟩
    · simp only [range, command, hparsed, plannedRange, hstart, hblock, hbytes, mul_one,
        add_sub_cancel]
    · simp only [bytes, command, hparsed, hbytes]
    · intro td htd restart hrestart _
      obtain rfl := Option.some.inj (hparsed.symm.trans htd)
      obtain rfl := Option.some.inj hrestart
      exact hle

/-- The part of the rest of the file that flow `i` has. -/
def part (total R n g : Int) (i : Nat) : Int × Int :=
  (Partition.init n g (total - R)).getPart i

theorem part_bounds (hle : R ≤ total) (hg : 1 ≤ g) (hn : 1 ≤ n) :
    0 ≤ (part total R n g i).1 ∧ 0 ≤ (part total R n g i).2 ∧
      (part total R n g i).1 + (part total R n g i).2 ≤ total - R :=
  Partition.getPart_bounds hn hg (by omega) i

theorem prepare_many (isSink : Bool) (total R g : Int) (i : Nat) (hmany : 1 < n) :
    let f := (init isSink g i n).prepare total true R
    f.startOffset = (part total R n g i).1 ∧ f.dataSize = (part total R n g i).2 := by
  simp [Flow.prepare, init, part, hmany]

theorem source_many (hR : 0 ≤ R) (hle : R ≤ total) (hfits : total < 2 ^ 63) (hg : 1 ≤ g)
    (hreq : 0 < atoi g) (hmany : 1 < n) :
    range (source total R n g i) = Set.Ico (R + (part total R n g i).1)
        (R + (part total R n g i).1 + (part total R n g i).2) ∧
      bytes (source total R n g i) = (part total R n g i).2 ∧
      NoUnderflow (source total R n g i) := by
  obtain ⟨hoffset, hdata⟩ := prepare_many false total R g i hmany
  obtain ⟨hlow, hsize, hhigh⟩ := part_bounds (n := n) (i := i) hle hg (by omega)
  by_cases hempty : (part total R n g i).2 = 0
  · have hnone : parsed (source total R n g i) = none := parsed_eq_none (.inl (hdata.trans hempty))
    simp [range, bytes, NoUnderflow, hnone, hempty]
  · have hparsed := parsed_startoffset g R total n i rfl (by omega)
      (by rwa [hdata]) hreq (by rw [hoffset]; omega) (by rw [hoffset]; omega)
    rw [hoffset, hdata, Target.atoll_of_fits hsize (by omega)] at hparsed
    obtain ⟨hstart, hblock, hbytes⟩ := calculateXferInfo_started
      (R + (part total R n g i).1) hreq (by omega : 0 < (part total R n g i).2) (by omega)
    refine ⟨?_, ?_, ?_⟩
    · simp only [range, source, hparsed, plannedRange, hstart, hblock, hbytes, mul_one]
    · simp only [bytes, source, hparsed, hbytes]
    · intro td htd restart hrestart _
      obtain rfl := Option.some.inj (hparsed.symm.trans htd)
      cases hrestart

/-- A sink of several has the offset taken off the bytes of its part. -/
theorem sink_many (hR : 0 ≤ R) (hle : R ≤ total) (hfits : total < 2 ^ 63) (hg : 1 ≤ g)
    (hreq : 0 < atoi g) (hmany : 1 < n) :
    bytes (sink total R n g i) =
        (if (part total R n g i).2 = 0 then 0 else uint64 ((part total R n g i).2 - R)) ∧
      (R = 0 → NoUnderflow (sink total R n g i)) := by
  obtain ⟨hoffset, hdata⟩ := prepare_many true total R g i hmany
  obtain ⟨hlow, hsize, hhigh⟩ := part_bounds (n := n) (i := i) hle hg (by omega)
  by_cases hempty : (part total R n g i).2 = 0
  · have hnone : parsed (sink total R n g i) = none := parsed_eq_none (.inl (hdata.trans hempty))
    simp [bytes, NoUnderflow, hnone, hempty]
  · have hparsed := parsed_resume true g R total n i rfl (.inl rfl) (by rwa [hdata]) hreq
    rw [hdata, Target.atoll_of_fits hsize (by omega), Target.atoll_of_fits hR (by omega)] at hparsed
    obtain ⟨_, _, hbytes⟩ := calculateXferInfo_resumed true
      hreq (by omega : 0 < (part total R n g i).2) (by omega) hR (by omega)
    refine ⟨?_, ?_⟩
    · simp only [bytes, sink, hparsed, hbytes, if_neg hempty]
    · intro hzero td htd restart hrestart _
      obtain rfl := Option.some.inj (hparsed.symm.trans htd)
      obtain rfl := Option.some.inj hrestart
      exact hzero.trans_le hsize

end Sides

/-! ## When the two sides agree -/

section Agreement

variable {total R n g : Int}

/-- A copy in which no process starts agrees if nothing is left to copy. -/
theorem splitAgrees_of_none (hsource : ∀ i, parsed (source total total n g i) = none)
    (hsink : ∀ i, parsed (sink total total n g i) = none) : SplitAgrees total total n g := by
  have hrange : ∀ i, range (source total total n g i) = ∅ := by
    intro i
    simp [range, hsource i]
  refine ⟨?_, ?_, ?_, ?_⟩
  · intro i j _ _ _
    rw [hrange i]
    exact disjoint_bot_left
  · simp [hrange]
  · intro i _
    simp [bytes, hsource i, hsink i]
  · intro i _
    simp [NoUnderflow, hsource i, hsink i]

theorem splitAgrees_one (hR : 0 ≤ R) (hle : R ≤ total) (hfits : total < 2 ^ 63) (hg : 1 ≤ g)
    (hreq : 0 < atoi g) : SplitAgrees total R 1 g := by
  obtain ⟨hrange, hbytes, hunder⟩ := one_flow false hR hle hfits hg hreq
  obtain ⟨_, hbytes', hunder'⟩ := one_flow true hR hle hfits hg hreq
  have hzero : ∀ i : Nat, (i : Int) < 1 → i = 0 := by
    intro i hi
    omega
  refine ⟨?_, ?_, ?_, ?_⟩
  · intro i j hi hj hij
    exact absurd ((hzero i hi).trans (hzero j hj).symm) hij
  · ext x
    simp only [Set.mem_iUnion, Set.mem_ofPred_eq, exists_prop]
    constructor
    · rintro ⟨i, hi, hx⟩
      rw [hzero i hi] at hx
      exact hrange ▸ hx
    · intro hx
      exact ⟨0, by decide, hrange.symm ▸ hx⟩
  · intro i hi
    rw [hzero i hi]
    exact hbytes'.trans hbytes.symm
  · intro i hi
    rw [hzero i hi]
    exact ⟨hunder, hunder'⟩

/-- Nothing is left to copy. -/
theorem splitAgrees_of_eq (hR : 0 ≤ R) (hfits : R < 2 ^ 63) (hn : 1 ≤ n) (hg : 1 ≤ g) :
    SplitAgrees R R n g := by
  rcases le_or_gt (atoi g) 0 with hreq | hreq
  · exact splitAgrees_of_none (fun _ => parsed_eq_none (.inr hreq))
      fun _ => parsed_eq_none (.inr hreq)
  · rcases hn.lt_or_eq with hmany | rfl
    · have hempty : ∀ i, (part R R n g i).2 = 0 := by
        intro i
        obtain ⟨hlow, hsize, hhigh⟩ := part_bounds (n := n) (i := i) (le_refl R) hg hn
        omega
      refine splitAgrees_of_none ?_ ?_
      · exact fun i => parsed_eq_none (.inl ((prepare_many _ R R g i hmany).2.trans (hempty i)))
      · exact fun i => parsed_eq_none (.inl ((prepare_many _ R R g i hmany).2.trans (hempty i)))
    · exact splitAgrees_one hR le_rfl hfits hg hreq

/-- A copy that starts over is split as the whole file is. -/
theorem splitAgrees_of_zero (hfits : total < 2 ^ 63) (hg : 1 ≤ g) (hgt : g ≤ total)
    (hreq : 0 < atoi g) (hmany : 1 < n) : SplitAgrees total 0 n g := by
  have hsplit := Partition.exact_of_granule_le_size (r := n) (by omega) hg hgt
  have hrange : ∀ i : Nat, range (source total 0 n g i) = (Partition.init n g total).range i := by
    intro i
    rw [(source_many le_rfl (by omega) hfits hg hreq hmany).1, part, sub_zero, zero_add]
    rfl
  refine ⟨?_, ?_, ?_, ?_⟩
  · intro i j hi hj hij
    rw [hrange, hrange]
    exact hsplit.disjoint i j hi hj hij
  · simp only [hrange]
    exact hsplit.union
  · intro i _
    obtain ⟨_, hsize, hhigh⟩ := part_bounds (R := 0) (n := n) (i := i) (by omega : 0 ≤ total) hg
      (by omega)
    rw [(sink_many le_rfl (by omega) hfits hg hreq hmany).1,
      (source_many le_rfl (by omega) hfits hg hreq hmany).2.1]
    split
    · omega
    · rw [sub_zero, uint64_of_fits hsize (by omega)]
  · intro i _
    exact ⟨(source_many le_rfl (by omega) hfits hg hreq hmany).2.2,
      (sink_many le_rfl (by omega) hfits hg hreq hmany).2 rfl⟩

/-- Less than one request for several flows: each source sends all of it. -/
theorem not_splitAgrees_of_lt (hR : 0 ≤ R) (hlt : R < total) (hfits : total < 2 ^ 63)
    (hshort : total - R < g) (hreq : 0 < atoi g) (hmany : 1 < n) : ¬ SplitAgrees total R n g := by
  intro h
  have hrange : ∀ i : Nat, R ∈ range (source total R n g i) := by
    intro i
    rw [(source_many hR hlt.le hfits (by omega) hreq hmany).1, part,
      Partition.getPart_of_size_lt_granule (by omega) (by omega) hshort]
    exact Set.mem_Ico.mpr (by dsimp only; omega)
  have hdisjoint := h.disjoint 0 1 (by omega) (by omega) (by decide)
  exact Set.disjoint_left.mp hdisjoint (hrange 0) (hrange 1)

/-- A restart offset in the middle of the file: the sink of a part that is not empty plans
another number of bytes than its source. -/
theorem not_splitAgrees_of_pos (hR : 0 < R) (hlt : R < total) (hfits : total < 2 ^ 63)
    (hg : 1 ≤ g) (hlong : g ≤ total - R) (hreq : 0 < atoi g) (hmany : 1 < n) :
    ¬ SplitAgrees total R n g := by
  intro h
  have hunion := (Partition.exact_of_granule_le_size (r := n) (by omega) hg hlong).union
  have hzero : (0 : Int) ∈ Set.Ico 0 (total - R) := ⟨le_rfl, by omega⟩
  rw [← hunion] at hzero
  simp only [Set.mem_iUnion, Set.mem_ofPred_eq, exists_prop] at hzero
  obtain ⟨i, hi, hlow, hhigh⟩ := hzero
  change (part total R n g i).1 ≤ 0 at hlow
  change 0 < (part total R n g i).1 + (part total R n g i).2 at hhigh
  obtain ⟨_, _, hend⟩ := part_bounds (n := n) (i := i) hlt.le hg (by omega)
  have hagrees := h.agrees i hi
  rw [(sink_many hR.le hlt.le hfits hg hreq hmany).1,
    (source_many hR.le hlt.le hfits hg hreq hmany).2.1, if_neg (by omega), uint64,
    CInt.unsigned] at hagrees
  omega

/-- For all sizes, restart offsets, numbers of flows and request sizes, the processes of a
restarted copy fit together if and only if nothing is left to copy, or there is one flow,
or the restart offset is zero and the file has a whole request. (A request size is
accepted if it is positive as a C `int`.) -/
theorem splitAgrees_iff (hR : 0 ≤ R) (hle : R ≤ total) (hfits : total < 2 ^ 63) (hn : 1 ≤ n)
    (hg : 1 ≤ g) :
    SplitAgrees total R n g ↔
      R = total ∨ (0 < atoi g ∧ (n = 1 ∨ (R = 0 ∧ g ≤ total))) := by
  constructor
  · intro h
    by_contra hnot
    push Not at hnot
    obtain ⟨hrest, hbad⟩ := hnot
    have hlt : R < total := lt_of_le_of_ne hle hrest
    rcases le_or_gt (atoi g) 0 with hreq | hreq
    · -- no process starts, and the first byte that is left stays where it is
      have hmem : R ∈ Set.Ico R total := ⟨le_rfl, hlt⟩
      rw [← h.union] at hmem
      simp only [Set.mem_iUnion, exists_prop] at hmem
      obtain ⟨i, _, hx⟩ := hmem
      have hnone : parsed (source total R n g i) = none := parsed_eq_none (.inr hreq)
      simp [range, hnone] at hx
    · obtain ⟨hmany, hshort⟩ := hbad hreq
      rcases lt_or_ge (total - R) g with hless | hlong
      · exact not_splitAgrees_of_lt hR hlt hfits hless hreq (by omega) h
      · have hpos : 0 < R := by
          rcases hR.lt_or_eq with hpos | hzero
          · exact hpos
          · have := hshort hzero.symm
            omega
        exact not_splitAgrees_of_pos hpos hlt hfits hg hlong hreq (by omega) h
  · rintro (rfl | ⟨hreq, rfl | ⟨rfl, hgt⟩⟩)
    · exact splitAgrees_of_eq hR hfits hn hg
    · exact splitAgrees_one hR hle hfits hg hreq
    · rcases hn.lt_or_eq with hmany | rfl
      · exact splitAgrees_of_zero hfits hg hgt hreq hmany
      · exact splitAgrees_one hR hle hfits hg hreq

/-- A file of 7000 bytes for two hosts, started over. -/
theorem splitAgrees_iff_twoHosts : SplitAgrees 7000 0 2 1024 ∧ ¬ SplitAgrees 7000 1024 2 1024 := by
  constructor
  · rw [splitAgrees_iff (by decide) (by decide) (by decide) (by decide) (by decide)]
    exact .inr ⟨by decide, .inr ⟨rfl, by decide⟩⟩
  · rw [splitAgrees_iff (by decide) (by decide) (by decide) (by decide) (by decide)]
    decide

/-- A file of 4000 bytes for two hosts, restarted at 3000. Each source sends 500 bytes,
and its sink plans 2500 less than none. -/
theorem sink_underflows : ¬ SplitAgrees 4000 3000 2 500 ∧
    bytes (source 4000 3000 2 500 0) = 500 ∧
    bytes (sink 4000 3000 2 500 0) = 2 ^ 64 - 2500 := by
  have hsource : bytes (source 4000 3000 2 500 0) = 500 := by decide +kernel
  have hsink : bytes (sink 4000 3000 2 500 0) = 2 ^ 64 - 2500 := by decide +kernel
  refine ⟨?_, hsource, hsink⟩
  intro h
  have hagrees := h.agrees 0 (by decide)
  rw [hsource, hsink] at hagrees
  omega

end Agreement

end Xdd.MultiHost
