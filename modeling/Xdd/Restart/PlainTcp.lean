import Xdd.Restart.Monitor

/-!
# Restart offsets over plain TCP

The copy of `Xdd.EndToEnd.Copy` with the monitor beside it. Destination worker `w`
receives only from source worker `w`, in the order of sending, so that the offsets it
shows grow. The source hands out contiguous blocks in order, whichever worker takes them.

A source worker whose `pread` fails, or that finds an abort, sends nothing for its block.
The blocks behind it are sent all the same, so that the destination shows offsets above a
hole. The offsets are safe in the runs in which no block is given up.
-/

namespace Xdd.Restart

open EndToEnd (Block Lane Message SourcePhase DestPhase WorkerAction)

def blockExtent (b : Block) : Extent := ⟨b.byteOffset, b.xferSize⟩

/-- A copy of the file from `initial` on, whose destination writes restart files. -/
structure Config extends EndToEnd.Config where
  initial : Nat
  contiguous : Contiguous initial (plan.map blockExtent)

/-- `byteOffset` is that of the restart structure, and `restartFile` holds every offset
that the monitor has written. -/
structure State (cfg : Config) where
  copy : EndToEnd.State cfg.toConfig
  taskByteOffset : Fin cfg.queueDepth → Int
  byteOffset : Int
  restartFile : List Int

def init (cfg : Config) : State cfg where
  copy := EndToEnd.init cfg.toConfig
  taskByteOffset := fun _ => 0
  byteOffset := cfg.initial
  restartFile := [restartOffset cfg.initial cfg.initial]

inductive Action (cfg : Config) where
  | copy (a : EndToEnd.Action cfg.toConfig)
  /-- one round of `xdd_restart_monitor` -/
  | monitor

variable {cfg : Config}

/-- The offsets of the workers after a step of the copy. -/
def taskByteOffsets (s : EndToEnd.State cfg.toConfig) (taskByteOffset : Fin cfg.queueDepth → Int) :
    EndToEnd.Action cfg.toConfig → Fin cfg.queueDepth → Int
  | .assign w => Function.update taskByteOffset w (-1)
  | .worker w .beforeIoOp =>
    match (s.lane w).channel with
    | .dataReady _ byteOffset _ _ :: _ => Function.update taskByteOffset w byteOffset
    | _ => taskByteOffset
  | _ => taskByteOffset

/-- The monitor leaves a target that has completed alone. -/
def step (cfg : Config) (s : State cfg) : Action cfg → Option (State cfg)
  | .copy a =>
    (EndToEnd.step cfg.toConfig s.copy a).map fun copy =>
      { s with copy := copy, taskByteOffset := taskByteOffsets s.copy s.taskByteOffset a }
  | .monitor =>
    if s.copy.success then
      none
    else
      let byteOffset := lowestOffset s.taskByteOffset
      some { s with
        byteOffset := byteOffset
        restartFile := s.restartFile ++ [restartOffset byteOffset cfg.initial] }

/-- Whether a step of the source worker gives its block up. -/
def drops (abort : Bool) (l : Lane) : WorkerAction → Bool
  | .checkAbort => abort
  | .afterIoOp =>
    match l.source with
    | .afterIo _ status => abort || decide (status ≤ 0)
    | _ => false
  | _ => false

/-- Every `pwrite` is whole. -/
def WritesWhole (cfg : Config) (s : State cfg) : Action cfg → Prop
  | .copy (.worker w a) => (s.copy.lane w).writeFails a = false
  | _ => True

instance (cfg : Config) (s : State cfg) : (a : Action cfg) → Decidable (WritesWhole cfg s a)
  | .copy (.worker ..) => inferInstanceAs (Decidable (_ = _))
  | .copy (.locate _) | .copy .release | .copy .leaveLoop | .copy .eofSrc | .copy (.assign _)
  | .copy .endPass | .copy .complete | .monitor => isTrue trivial

/-- Every block that the source issues is sent, and every `pwrite` is whole. -/
def SentAndWritten (cfg : Config) (s : State cfg) : Action cfg → Prop
  | .copy (.worker w a) =>
    drops s.copy.abort (s.copy.lane w) a = false ∧ (s.copy.lane w).writeFails a = false
  | _ => True

instance (cfg : Config) (s : State cfg) : (a : Action cfg) → Decidable (SentAndWritten cfg s a)
  | .copy (.worker ..) => inferInstanceAs (Decidable (_ ∧ _))
  | .copy (.locate _) | .copy .release | .copy .leaveLoop | .copy .eofSrc | .copy (.assign _)
  | .copy .endPass | .copy .complete | .monitor => isTrue trivial

/-! ## A lane -/

def writeExtent (wr : EndToEnd.Write) : Extent := ⟨wr.byteOffset, wr.xferSize⟩

/-- The stretch of the file that a message carries. -/
def header : Message → Option Extent
  | .dataReady _ byteOffset dataLength _ => some ⟨byteOffset, dataLength⟩
  | .eof => none

@[simp] theorem header_eof : header .eof = none := rfl

@[simp] theorem header_dataReady (sequenceNumber byteOffset dataLength : Nat)
    (data : List UInt8) :
    header (.dataReady sequenceNumber byteOffset dataLength data) =
      some ⟨byteOffset, dataLength⟩ := rfl

/-- The data behind a header has the length that the header says. -/
def Whole : Message → Prop
  | .dataReady _ _ dataLength data => data.length = dataLength
  | .eof => True

/-- The block that the source worker still has to send. -/
def toSend : SourcePhase → List Extent
  | .assigned b | .reading b | .afterIo b _ => [blockExtent b]
  | .idle | .held | .eofTask => []

/-- The block that the destination worker still has to write. -/
def toWrite : DestPhase → List Extent
  | .writing byteOffset xferSize _ => [⟨byteOffset, xferSize⟩]
  | .idle | .receiving => []

/-- Every block of the lane is on its way or has been received, in the order of issue. -/
structure LaneOk (l : Lane) : Prop where
  sent : l.received.filterMap header ++ l.channel.filterMap header ++ toSend l.source =
    l.issued.map blockExtent
  whole : ∀ m ∈ l.channel, Whole m
  recorded : l.received.filterMap header = l.written.map writeExtent ++ toWrite l.dest
  writing : ∀ byteOffset xferSize data, l.dest = .writing byteOffset xferSize data →
    data.length = xferSize
  full : ∀ wr ∈ l.written, wr.data.length = wr.xferSize

namespace LaneOk

variable {l l' : Lane}

/-- A step of a worker of the lane that gives no block up and writes it whole. -/
theorem work {cfg : EndToEnd.Config} {abort : Bool} {a : WorkerAction} (h : LaneOk l)
    (hs : EndToEnd.Work cfg abort l a l') (hdrops : drops abort l a = false)
    (hwrites : l.writeFails a = false) : LaneOk l' := by
  obtain ⟨hsent, hwhole, hrecorded, hwriting, hfull⟩ := h
  cases hs with
  | quit _ habort => simp [drops, habort] at hdrops
  | go hp =>
      refine ⟨?_, hwhole, hrecorded, hwriting, hfull⟩
      simpa [hp, toSend] using hsent
  | read hp =>
      refine ⟨?_, hwhole, hrecorded, hwriting, hfull⟩
      simpa [hp, toSend] using hsent
  | @send b status hp =>
      refine ⟨?_, ?_, hrecorded, hwriting, hfull⟩
      · simpa [hp, toSend, EndToEnd.srcSend, blockExtent] using hsent
      · intro m hm
        rcases List.mem_append.mp hm with hm | hm
        · exact hwhole m hm
        · obtain rfl := List.mem_singleton.mp hm
          exact EndToEnd.length_bytesAt _ _ _
  | skip hp hskip =>
      rcases hskip with habort | hstatus
      · simp [drops, hp, habort] at hdrops
      · simp only [drops, hp, Bool.or_eq_false_iff, decide_eq_false_iff_not] at hdrops
        exact absurd hstatus hdrops.2
  | sendEof hp =>
      refine ⟨?_, ?_, hrecorded, hwriting, hfull⟩
      · simpa [hp, toSend, List.filterMap_cons] using hsent
      · intro m hm
        rcases List.mem_append.mp hm with hm | hm
        · exact hwhole m hm
        · obtain rfl := List.mem_singleton.mp hm
          trivial
  | receive hp hchannel =>
      have hdata := hwhole _ (hchannel ▸ List.mem_cons_self)
      refine ⟨?_, ?_, ?_, ?_, hfull⟩
      · simpa [hchannel] using hsent
      · intro m hm
        exact hwhole m (hchannel ▸ List.mem_cons_of_mem _ hm)
      · simp [hrecorded, hp, toWrite]
      · intro byteOffset xferSize data hd
        cases hd
        exact hdata
  | receiveEof hp hchannel =>
      refine ⟨?_, ?_, ?_, nofun, hfull⟩
      · simpa [hchannel, List.filterMap_cons] using hsent
      · intro m hm
        exact hwhole m (hchannel ▸ List.mem_cons_of_mem _ hm)
      · simp [hrecorded, hp, toWrite, List.filterMap_cons]
  | @write byteOffset xferSize data status hp hresult =>
      have hstatus : status = xferSize := by simpa [Lane.writeFails, hp] using hwrites
      have hlength := hwriting _ _ _ hp
      refine ⟨hsent, hwhole, ?_, nofun, ?_⟩
      · simp [hrecorded, hp, toWrite, writeExtent]
      · intro wr hwr
        rcases List.mem_append.mp hwr with hwr | hwr
        · exact hfull wr hwr
        · obtain rfl := List.mem_singleton.mp hwr
          simp [hstatus, hlength]

/-- The target thread moves a source worker that has nothing to send. -/
theorem setSource (h : LaneOk l) {p : SourcePhase} {eofIssued : Bool} (hold : toSend l.source = [])
    (hnew : toSend p = []) : LaneOk { l with source := p, eofIssued := eofIssued } := by
  refine ⟨?_, h.whole, h.recorded, h.writing, h.full⟩
  simpa [hold, hnew] using h.sent

theorem issue (h : LaneOk l) (b : Block) (hheld : toSend l.source = []) :
    LaneOk { l with source := .assigned b, issued := l.issued ++ [b] } := by
  refine ⟨?_, h.whole, h.recorded, h.writing, h.full⟩
  have hsent := h.sent
  rw [hheld, List.append_nil] at hsent
  simp [toSend, hsent]

theorem assign (h : LaneOk l) (hidle : l.dest = .idle) : LaneOk { l with dest := .receiving } := by
  refine ⟨h.sent, h.whole, ?_, nofun, h.full⟩
  simpa [hidle, toWrite] using h.recorded

/-- What the destination worker of a lane was given and has written. -/
def log (h : LaneOk l) : Log where
  given := l.received.filterMap header
  written := l.written.map writeExtent
  behind := by
    rw [h.recorded]
    cases l.dest with
    | idle => exact .inl (List.append_nil _)
    | receiving => exact .inl (List.append_nil _)
    | writing byteOffset xferSize _ => exact .inr ⟨_, rfl⟩

end LaneOk

/-! ## The whole copy -/

/-- What the source has handed out and what is left: everything from `initial` to `next`
was issued, in increasing order on each lane, and the rest starts at `next`. -/
structure Frontier {Q : Nat} (initial : Nat) (issued : Fin Q → List Block) (todo : List Block)
    (next : Nat) : Prop where
  todo : Contiguous next (todo.map blockExtent)
  below : ∀ w, ∀ b ∈ issued w, b.byteOffset + b.xferSize ≤ next
  increasing : ∀ w, (issued w).Pairwise fun b b' => b.byteOffset + b.xferSize ≤ b'.byteOffset
  covered : ∀ x, initial ≤ x → x < next → ∃ w, ∃ b ∈ issued w, (blockExtent b).Holds x

/-- The next block goes to worker `w`. -/
theorem Frontier.issue {Q initial next : Nat} {issued issued' : Fin Q → List Block}
    {b : Block} {rest : List Block} (h : Frontier initial issued (b :: rest) next) {w : Fin Q}
    (hw : issued' w = issued w ++ [b]) (hother : ∀ i, i ≠ w → issued' i = issued i) :
    Frontier initial issued' rest (next + b.xferSize) := by
  obtain ⟨⟨hstart, hrest⟩, hbelow, hincreasing, hcovered⟩ := h
  change b.byteOffset = next at hstart
  have hcases : ∀ i, issued' i = issued i ++ if i = w then [b] else [] := by
    intro i
    by_cases hi : i = w
    · rw [if_pos hi, hi, hw]
    · rw [if_neg hi, List.append_nil, hother i hi]
  refine ⟨hrest, ?_, ?_, ?_⟩
  · intro i b' hb'
    rw [hcases i] at hb'
    rcases List.mem_append.mp hb' with hb' | hb'
    · exact (hbelow i b' hb').trans (Nat.le_add_right _ _)
    · split at hb'
      · obtain rfl := List.mem_singleton.mp hb'
        omega
      · cases hb'
  · intro i
    rw [hcases i]
    refine List.pairwise_append.mpr ⟨hincreasing i, ?_, ?_⟩
    · split <;> simp
    · intro b₁ hb₁ b₂ hb₂
      split at hb₂
      · obtain rfl := List.mem_singleton.mp hb₂
        rw [hstart]
        exact hbelow i b₁ hb₁
      · cases hb₂
  · intro x hinitial hx
    by_cases hold : x < next
    · obtain ⟨i, b', hb', hholds⟩ := hcovered x hinitial hold
      exact ⟨i, b', by rw [hcases i]; exact List.mem_append_left _ hb', hholds⟩
    · refine ⟨w, b, by rw [hw]; simp, ?_⟩
      show b.byteOffset ≤ x ∧ x < b.byteOffset + b.xferSize
      omega

/-- The bytes from the start of the copy to `v` have been written. -/
def WrittenTo (s : State cfg) (v : Int) : Prop :=
  ∀ x : Nat, cfg.initial ≤ x → (x : Int) < v → ∃ w, ∃ wr ∈ (s.copy.lane w).written,
    wr.byteOffset ≤ x ∧ x < wr.byteOffset + wr.data.length

structure MonitorInv (s : State cfg) : Prop where
  lanes : ∀ w, LaneOk (s.copy.lane w)
  located : ∀ w, s.copy.stage = .located w → (s.copy.lane w).source = .held
  frontier : ∃ next, Frontier cfg.initial (fun w => (s.copy.lane w).issued) s.copy.todo next
  shows : ∀ w, Shows ((s.copy.lane w).received.filterMap header) (s.taskByteOffset w)
  safe : ∀ v ∈ s.restartFile, WrittenTo s v

namespace MonitorInv

theorem init (cfg : Config) : MonitorInv (init cfg) where
  lanes _ := ⟨rfl, nofun, rfl, nofun, nofun⟩
  located := nofun
  frontier := by
    refine ⟨cfg.initial, cfg.contiguous, nofun, fun _ => List.Pairwise.nil, ?_⟩
    intro x hinitial hx
    omega
  shows _ := .inl le_rfl
  safe := by
    intro v hv x hinitial hx
    have hv : v = restartOffset cfg.initial cfg.initial := by simpa [Restart.init] using hv
    simp only [hv, restartOffset, gt_iff_lt, lt_self_iff_false, if_false] at hx
    omega

variable {s s' : State cfg}

theorem writtenTo_mono {v : Int} (h : WrittenTo s v)
    (hwritten : ∀ w, (s.copy.lane w).written ⊆ (s'.copy.lane w).written) : WrittenTo s' v := by
  intro x hinitial hx
  obtain ⟨w, wr, hwr, hholds⟩ := h x hinitial hx
  exact ⟨w, wr, hwritten w hwr, hholds⟩

/-- A step that issues nothing and does not touch the restart file. -/
theorem keep (h : MonitorInv s) (hlanes : ∀ w, LaneOk (s'.copy.lane w))
    (hlocated : ∀ w, s'.copy.stage = .located w → (s'.copy.lane w).source = .held)
    (hissued : ∀ w, (s'.copy.lane w).issued = (s.copy.lane w).issued)
    (htodo : s'.copy.todo = s.copy.todo)
    (hwritten : ∀ w, (s.copy.lane w).written ⊆ (s'.copy.lane w).written)
    (hshows : ∀ w, Shows ((s'.copy.lane w).received.filterMap header) (s'.taskByteOffset w))
    (hfile : s'.restartFile = s.restartFile) : MonitorInv s' := by
  refine ⟨hlanes, hlocated, ?_, hshows, ?_⟩
  · obtain ⟨next, hfrontier⟩ := h.frontier
    refine ⟨next, ?_⟩
    rw [htodo, funext hissued]
    exact hfrontier
  · intro v hv
    rw [hfile] at hv
    exact writtenTo_mono (h.safe v hv) hwritten

/-- The same for a step that changes one lane. -/
theorem setLane_shows (h : MonitorInv s) {w : Fin cfg.queueDepth} {l : Lane}
    {stage : EndToEnd.Stage cfg.queueDepth} {abort : Bool} {offset : Fin cfg.queueDepth → Int}
    (hl : LaneOk l)
    (hlocated : ∀ i, stage = .located i →
      ((s.copy.setLane w l).lane i).source = .held)
    (hissued : l.issued = (s.copy.lane w).issued) (hwritten : (s.copy.lane w).written ⊆ l.written)
    (hshows : ∀ i, Shows (((s.copy.setLane w l).lane i).received.filterMap header) (offset i)) :
    MonitorInv { s with
      copy := { s.copy.setLane w l with stage := stage, abort := abort }
      taskByteOffset := offset } := by
  refine h.keep ?_ hlocated ?_ rfl ?_ hshows rfl
  · exact EndToEnd.State.forall_setLane (fun _ => LaneOk) hl fun i _ => h.lanes i
  · exact EndToEnd.State.forall_setLane (fun i l => l.issued = (s.copy.lane i).issued) hissued
      fun _ _ => rfl
  · exact EndToEnd.State.forall_setLane (fun i l => (s.copy.lane i).written ⊆ l.written) hwritten
      fun _ _ => List.Subset.refl _

/-- The same for a step that leaves the offsets alone. -/
theorem setLane (h : MonitorInv s) {w : Fin cfg.queueDepth} {l : Lane}
    {stage : EndToEnd.Stage cfg.queueDepth} {abort : Bool} (hl : LaneOk l)
    (hlocated : ∀ i, stage = .located i →
      ((s.copy.setLane w l).lane i).source = .held)
    (hissued : l.issued = (s.copy.lane w).issued) (hwritten : (s.copy.lane w).written ⊆ l.written)
    (hreceived : l.received.filterMap header = (s.copy.lane w).received.filterMap header) :
    MonitorInv { s with copy := { s.copy.setLane w l with stage := stage, abort := abort } } := by
  refine h.setLane_shows hl hlocated hissued hwritten ?_
  refine EndToEnd.State.forall_setLane
    (fun i l => Shows (l.received.filterMap header) (s.taskByteOffset i)) ?_ fun i _ => h.shows i
  rw [hreceived]
  exact h.shows w

/-- A source worker that the target thread has located does not move by itself. -/
theorem located_setLane (h : MonitorInv s) {w : Fin cfg.queueDepth} {l : Lane} {a : WorkerAction}
    (hs : EndToEnd.Work cfg.toConfig s.copy.abort (s.copy.lane w) a l) :
    ∀ i, s.copy.stage = .located i → ((s.copy.setLane w l).lane i).source = .held := by
  refine EndToEnd.State.forall_setLane
    (fun i l => s.copy.stage = .located i → l.source = .held) ?_ fun i _ => h.located i
  intro hstage
  have hheld := h.located w hstage
  cases hs <;> simp_all

theorem work (h : MonitorInv s) {w : Fin cfg.queueDepth} {l : Lane} {a : WorkerAction}
    {abort : Bool} (hs : EndToEnd.Work cfg.toConfig s.copy.abort (s.copy.lane w) a l)
    (hdrops : drops s.copy.abort (s.copy.lane w) a = false)
    (hwrites : (s.copy.lane w).writeFails a = false) :
    MonitorInv { s with
      copy := { s.copy.setLane w l with abort := abort }
      taskByteOffset := taskByteOffsets s.copy s.taskByteOffset (.worker w a) } := by
  have hl := (h.lanes w).work hs hdrops hwrites
  have hlocated := h.located_setLane hs
  cases hs with
  | quit => exact h.setLane hl hlocated rfl (List.Subset.refl _) rfl
  | go => exact h.setLane hl hlocated rfl (List.Subset.refl _) rfl
  | read => exact h.setLane hl hlocated rfl (List.Subset.refl _) rfl
  | send => exact h.setLane hl hlocated rfl (List.Subset.refl _) rfl
  | skip => exact h.setLane hl hlocated rfl (List.Subset.refl _) rfl
  | sendEof => exact h.setLane hl hlocated rfl (List.Subset.refl _) rfl
  | @receive sequenceNumber byteOffset dataLength data rest hp hchannel =>
      -- the worker shows the offset of the header that it has received
      simp only [taskByteOffsets, hchannel]
      refine h.setLane_shows hl hlocated rfl (List.Subset.refl _) ?_
      intro i
      by_cases hi : i = w
      · subst hi
        right
        simp [EndToEnd.State.setLane]
      · simpa [EndToEnd.State.setLane, hi] using h.shows i
  | receiveEof hp hchannel =>
      simp only [taskByteOffsets, hchannel]
      refine h.setLane hl hlocated rfl (List.Subset.refl _) ?_
      simp [List.filterMap_cons]
  | write => exact h.setLane hl hlocated rfl (List.subset_append_left _ _) rfl

theorem copy (h : MonitorInv s) {a : EndToEnd.Action cfg.toConfig}
    (hok : SentAndWritten cfg s (.copy a)) {c : EndToEnd.State cfg.toConfig}
    (hs : EndToEnd.Step cfg.toConfig s.copy a c) :
    MonitorInv { s with
      copy := c
      taskByteOffset := taskByteOffsets s.copy s.taskByteOffset a } := by
  cases hs with
  | worker hwork => exact h.work hwork hok.1 hok.2
  | @locate w _ _ hidle =>
      refine h.setLane ((h.lanes w).setSource (by simp [hidle, toSend]) rfl) ?_ rfl
        (List.Subset.refl _) rfl
      intro i hi
      cases hi
      simp [EndToEnd.State.setLane]
  | @turnBack w hstage _ =>
      exact h.setLane ((h.lanes w).setSource (by simp [h.located w hstage, toSend]) rfl) nofun rfl
        (List.Subset.refl _) rfl
  | @release w b rest hstage htodo _ =>
      refine ⟨?_, nofun, ?_, ?_, ?_⟩
      · exact EndToEnd.State.forall_setLane (fun _ => LaneOk)
          ((h.lanes w).issue b (by simp [h.located w hstage, toSend])) fun i _ => h.lanes i
      · obtain ⟨next, hfrontier⟩ := h.frontier
        rw [htodo] at hfrontier
        refine ⟨next + b.xferSize, hfrontier.issue (w := w) ?_ ?_⟩
        · simp [EndToEnd.State.setLane]
        · intro i hi
          simp [EndToEnd.State.setLane, hi]
      · exact EndToEnd.State.forall_setLane
          (fun i l => Shows (l.received.filterMap header) (s.taskByteOffset i)) (h.shows w)
          fun i _ => h.shows i
      · intro v hv
        refine writtenTo_mono (h.safe v hv) ?_
        exact EndToEnd.State.forall_setLane (fun i l => (s.copy.lane i).written ⊆ l.written)
          (List.Subset.refl _) fun _ _ => List.Subset.refl _
  | leaveLoop =>
      exact h.keep h.lanes nofun (fun _ => rfl) rfl (fun _ => List.Subset.refl _) h.shows rfl
  | @eofSrc w _ hidle =>
      exact h.setLane ((h.lanes w).setSource (by simp [hidle, toSend]) rfl) nofun rfl
        (List.Subset.refl _) rfl
  | @assign w _ hidle _ =>
      refine h.setLane_shows ((h.lanes w).assign hidle) ?_ rfl (List.Subset.refl _) ?_
      · exact EndToEnd.State.forall_setLane
          (fun i l => s.copy.stage = .located i → l.source = .held) (h.located w)
          fun i _ => h.located i
      · intro i
        by_cases hi : i = w
        · subst hi
          left
          simp [taskByteOffsets]
        · simpa [EndToEnd.State.setLane, taskByteOffsets, hi] using h.shows i
  | endPass =>
      exact h.keep h.lanes h.located (fun _ => rfl) rfl (fun _ => List.Subset.refl _) h.shows rfl
  | complete =>
      exact h.keep h.lanes h.located (fun _ => rfl) rfl (fun _ => List.Subset.refl _) h.shows rfl

/-- A block that was issued on a lane before one that has been received was received. -/
theorem mem_received (h : MonitorInv s) {w : Fin cfg.queueDepth} {b : Block}
    (hb : b ∈ (s.copy.lane w).issued) (hpast : (b.byteOffset : Int) < s.taskByteOffset w) :
    blockExtent b ∈ (s.copy.lane w).received.filterMap header := by
  obtain ⟨next, hfrontier⟩ := h.frontier
  have hsent := (h.lanes w).sent
  have hincreasing : ((s.copy.lane w).issued.map blockExtent).Pairwise
      fun e e' => e.byteOffset + e.xferSize ≤ e'.byteOffset :=
    List.pairwise_map.mpr (hfrontier.increasing w)
  have hissued : blockExtent b ∈ (s.copy.lane w).issued.map blockExtent :=
    List.mem_map_of_mem hb
  rw [← hsent, List.append_assoc] at hincreasing hissued
  rcases List.mem_append.mp hissued with hreceived | hlater
  · exact hreceived
  · rcases h.shows w with hnone | ⟨e, hlast, hoffset⟩
    · omega
    · have horder := (List.pairwise_append.mp hincreasing).2.2 e (List.mem_of_getLast? hlast) _
        hlater
      simp only [blockExtent] at horder
      omega

/-- A byte below the offset that a worker shows belongs to a block that was issued. -/
theorem issued_below (h : MonitorInv s) {w : Fin cfg.queueDepth} {x : Nat}
    (hinitial : cfg.initial ≤ x) (hx : (x : Int) < s.taskByteOffset w) :
    ∃ i, ∃ b ∈ (s.copy.lane i).issued, (blockExtent b).Holds x := by
  obtain ⟨next, hfrontier⟩ := h.frontier
  apply hfrontier.covered x hinitial
  rcases h.shows w with hnone | ⟨e, hlast, hoffset⟩
  · omega
  · have he : e ∈ (s.copy.lane w).issued.map blockExtent := by
      rw [← (h.lanes w).sent, List.append_assoc]
      exact List.mem_append_left _ (List.mem_of_getLast? hlast)
    obtain ⟨b, hb, rfl⟩ := List.mem_map.mp he
    have hbelow := hfrontier.below w b hb
    simp only [blockExtent] at hoffset
    omega

/-- Everything below the lowest offset has been written. -/
theorem monitor (h : MonitorInv s) :
    WrittenTo s (restartOffset (lowestOffset s.taskByteOffset) cfg.initial) := by
  intro x hinitial hx
  have hlow := le_taskByteOffset (lt_of_le_of_lt (Int.ofNat_le.mpr hinitial) hx)
  have hgiven : ∀ x : Nat, cfg.initial ≤ x →
      (x : Int) < restartOffset (lowestOffset s.taskByteOffset) cfg.initial →
      ∃ w, ∃ e ∈ (h.lanes w).log.given, e.Holds x := by
    intro x hinitial hx
    obtain ⟨w, b, hb, hholds⟩ :=
      h.issued_below hinitial (lt_of_lt_of_le hx (hlow ⟨0, cfg.queueDepth_pos⟩))
    refine ⟨w, blockExtent b, h.mem_received hb ?_, hholds⟩
    have hv := hlow w
    have hstart : b.byteOffset ≤ x := hholds.1
    omega
  obtain ⟨w, e, he, hholds⟩ := written_below h.shows hgiven hlow x hinitial hx
  obtain ⟨wr, hwr, rfl⟩ := List.mem_map.mp he
  refine ⟨w, wr, hwr, ?_⟩
  rw [(h.lanes w).full wr hwr]
  exact hholds

theorem step (h : MonitorInv s) {a : Action cfg} (hok : SentAndWritten cfg s a)
    (hs : Restart.step cfg s a = some s') : MonitorInv s' := by
  cases a with
  | copy a =>
      obtain ⟨c, hc, rfl⟩ := Option.map_eq_some_iff.mp hs
      exact h.copy hok (.of_eq_some hc)
  | monitor =>
      simp only [Restart.step] at hs
      split at hs <;> cases hs
      refine ⟨h.lanes, h.located, h.frontier, h.shows, ?_⟩
      intro v hv
      rcases List.mem_append.mp hv with hv | hv
      · exact h.safe v hv
      · obtain rfl := List.mem_singleton.mp hv
        exact h.monitor

end MonitorInv

/-- Every offset that the monitor has written to the restart file is safe: all bytes from
the start of the copy to it have been written. -/
theorem plainTcp_restart_safe {s : State cfg}
    (hreach : Transition.Reach (step cfg) (SentAndWritten cfg) (init cfg) s) :
    ∀ v ∈ s.restartFile, WrittenTo s v :=
  (hreach.invariant (MonitorInv.init cfg) fun _ _ _ h hok hstep => h.step hok hstep).safe

/-- One lane and three bytes in two blocks, resumed from offset 5. -/
def oneLane : Config where
  queueDepth := 1
  queueDepth_pos := Nat.one_pos
  plan := [⟨0, 5, 2, Nat.two_pos⟩, ⟨1, 7, 1, Nat.one_pos⟩]
  file := fun i => UInt8.ofNat i
  stale := fun _ _ => 0
  stopOnError := false
  initial := 5
  contiguous := ⟨rfl, rfl, trivial⟩

/-- The monitor looks when the second block has arrived. -/
theorem plainTcp_restart_safe_oneLane : ∃ s : State oneLane, 7 ∈ s.restartFile ∧ WrittenTo s 7 := by
  obtain ⟨s, hreach, hfile⟩ :
      ∃ s, Transition.Reach (step oneLane) (SentAndWritten oneLane) (init oneLane) s ∧
        7 ∈ s.restartFile :=
    Transition.exists_reach_of_run
      [.copy (.assign 0), .copy (.locate 0), .copy .release, .copy (.worker 0 .checkAbort),
        .copy (.worker 0 (.read 2)), .copy (.worker 0 .afterIoOp), .copy (.worker 0 .beforeIoOp),
        .monitor, .copy (.locate 0), .copy .release, .copy (.worker 0 (.write 2)),
        .copy (.worker 0 .checkAbort), .copy (.worker 0 (.read 1)), .copy (.worker 0 .afterIoOp),
        .copy (.assign 0), .copy (.worker 0 .beforeIoOp), .monitor] (by decide +kernel)
  exact ⟨s, hfile, plainTcp_restart_safe hreach 7 hfile⟩

/-- The `pread` of the first block fails, the second block arrives, and the restart file says
that the first one need not be copied again. Every `pwrite` is whole: there is none. -/
theorem restart_skips_unread_block : ∃ s : State oneLane,
    Transition.Reach (step oneLane) (WritesWhole oneLane) (init oneLane) s ∧
      7 ∈ s.restartFile ∧ ¬ WrittenTo s 7 := by
  obtain ⟨s, hreach, hfile, hwritten⟩ :
      ∃ s, Transition.Reach (step oneLane) (WritesWhole oneLane) (init oneLane) s ∧
        7 ∈ s.restartFile ∧ ∀ w, (s.copy.lane w).written = [] :=
    Transition.exists_reach_of_run
      [.copy (.assign 0), .copy (.locate 0), .copy .release, .copy (.worker 0 .checkAbort),
        .copy (.worker 0 (.read (-1))), .copy (.worker 0 .afterIoOp), .copy (.locate 0),
        .copy .release, .copy (.worker 0 .checkAbort), .copy (.worker 0 (.read 1)),
        .copy (.worker 0 .afterIoOp), .copy (.worker 0 .beforeIoOp), .monitor] (by decide +kernel)
  refine ⟨s, hreach, hfile, ?_⟩
  intro hsafe
  obtain ⟨w, wr, hwr, -⟩ := hsafe 5 le_rfl (by decide)
  rw [hwritten w] at hwr
  cases hwr

end Xdd.Restart
