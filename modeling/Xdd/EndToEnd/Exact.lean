import Xdd.Library.Account
import Xdd.EndToEnd.Copy

/-!
# Exact copies

When every read and every write is whole, each message is accounted for from the moment
its block is issued: it has been received, it is in the channel, or the source worker
still has to send it. An end of file comes after the blocks of its lane, so that a
destination that has seen all of them has seen every block.
-/

namespace Xdd.EndToEnd

variable {cfg : Config}

/-- Every read and every write of the run transfers what it was asked for. -/
def WholeIo (cfg : Config) (s : State cfg) : Action cfg → Prop
  | .worker w a => (s.lane w).readFails a = false ∧ (s.lane w).writeFails a = false
  | _ => True

instance (cfg : Config) (s : State cfg) : (a : Action cfg) → Decidable (WholeIo cfg s a)
  | .worker .. => inferInstanceAs (Decidable (_ ∧ _))
  | .locate _ | .release | .leaveLoop | .eofSrc | .assign _ | .endPass | .complete => isTrue trivial

/-- The message that carries a block of the source file. -/
def fileMessage (cfg : Config) (b : Block) : Message :=
  .dataReady b.opNumber b.byteOffset b.xferSize (bytesAt cfg.file b.byteOffset b.xferSize)

/-- The write that puts a block of the source file in its place. -/
def fileWrite (cfg : Config) (b : Block) : Write :=
  ⟨b.byteOffset, b.xferSize, bytesAt cfg.file b.byteOffset b.xferSize⟩

/-- What the destination writes for a message. -/
def Message.toWrite : Message → Option Write
  | .dataReady _ byteOffset dataLength data => some ⟨byteOffset, dataLength, data⟩
  | .eof => none

theorem filterMap_toWrite (blocks : List Block) :
    (blocks.map (fileMessage cfg)).filterMap Message.toWrite = blocks.map (fileWrite cfg) := by
  rw [List.filterMap_map]
  exact congrFun (List.filterMap_eq_map (f := fileWrite cfg)) blocks

/-- A worker that has read its whole block sends what the file holds. -/
theorem srcSend_eq {buffer : Nat → UInt8} {b : Block}
    (h : ∀ i < b.xferSize, buffer i = cfg.file (b.byteOffset + i)) :
    srcSend buffer b = fileMessage cfg b := by
  simp only [srcSend, fileMessage, bytesAt, Nat.zero_add]
  congr 1
  exact List.map_congr_left fun i hi => h i (List.mem_range.mp hi)

/-- The message that the source worker still has to send. -/
def SourcePhase.outbox (cfg : Config) : SourcePhase → List Message
  | .assigned b | .reading b | .afterIo b _ => [fileMessage cfg b]
  | .eofTask => [.eof]
  | .idle | .held => []

/-- The write that the destination worker still has to make. -/
def DestPhase.inbox : DestPhase → List Write
  | .writing byteOffset xferSize data => [⟨byteOffset, xferSize, data⟩]
  | .idle | .receiving => []

structure LaneInv (cfg : Config) (l : Lane) : Prop where
  sent : l.received ++ l.channel ++ l.source.outbox cfg =
    l.issued.map (fileMessage cfg) ++ if l.eofIssued then [.eof] else []
  read : ∀ b status, l.source = .afterIo b status →
    status = b.xferSize ∧ ∀ i < b.xferSize, l.buffer i = cfg.file (b.byteOffset + i)
  recorded : l.received.filterMap Message.toWrite = l.written ++ l.dest.inbox
  eofSeen : l.eofReceived = true → .eof ∈ l.received

/-- If an element occurs in the first part and otherwise only at the very end, the
second part is empty. -/
theorem eq_nil_of_append_eq {α : Type*} {x : α} {l₁ l₂ l : List α}
    (h : l₁ ++ l₂ = l ++ [x]) (hx : x ∈ l₁) (hl : x ∉ l) : l₂ = [] := by
  induction l₂ using List.reverseRecOn with
  | nil => rfl
  | append_singleton l₂ y ih =>
      rw [← List.append_assoc] at h
      obtain ⟨hinit, -⟩ := List.append_inj' h rfl
      exact absurd (hinit ▸ List.mem_append_left l₂ hx) hl

namespace LaneInv

variable {l l' : Lane} {a : WorkerAction}

/-- Every data message that was received carries a block of the file. -/
theorem data_eq (h : LaneInv cfg l) {byteOffset xferSize : Nat} {data : List UInt8}
    (hdest : l.dest = .writing byteOffset xferSize data) : data.length = xferSize := by
  have hwrite : ⟨byteOffset, xferSize, data⟩ ∈ l.received.filterMap Message.toWrite := by
    rw [h.recorded]
    simp [hdest, DestPhase.inbox]
  obtain ⟨m, hm, htoWrite⟩ := List.mem_filterMap.mp hwrite
  have hsent : m ∈ l.issued.map (fileMessage cfg) ++ if l.eofIssued then [.eof] else [] := by
    rw [← h.sent]
    simp [hm]
  rcases List.mem_append.mp hsent with hblock | heof
  · obtain ⟨b, -, rfl⟩ := List.mem_map.mp hblock
    cases htoWrite
    simp
  · split at heof
    · obtain rfl := List.mem_singleton.mp heof
      cases htoWrite
    · cases heof

/-- A step of a worker whose reads and writes are whole. -/
theorem work (h : LaneInv cfg l) (hs : Work cfg false l a l') (hread : l.readFails a = false)
    (hwrite : l.writeFails a = false) : LaneInv cfg l' := by
  obtain ⟨hsent, hbuffer, hrecorded, heof⟩ := h
  cases hs with
  | quit _ habort => cases habort
  | go hp =>
      refine ⟨?_, nofun, hrecorded, heof⟩
      simpa [hp, SourcePhase.outbox] using hsent
  | @read b status hp hresult =>
      have hfull : status = b.xferSize := by simpa [Lane.readFails, hp] using hread
      refine ⟨?_, ?_, hrecorded, heof⟩
      · simpa [hp, SourcePhase.outbox] using hsent
      · rintro b' status' hb
        cases hb
        refine ⟨hfull, fun i hi => if_pos ?_⟩
        omega
  | @send b status hp _ hpos =>
      obtain ⟨-, hb⟩ := hbuffer b status hp
      refine ⟨?_, nofun, hrecorded, heof⟩
      simpa [hp, SourcePhase.outbox, srcSend_eq hb] using hsent
  | @skip b status hp hskip =>
      -- a whole read is never empty, because no block is
      have hpos := b.xferSize_pos
      obtain ⟨rfl, -⟩ := hbuffer b status hp
      rcases hskip with habort | hempty
      · cases habort
      · omega
  | sendEof hp =>
      refine ⟨?_, nofun, hrecorded, heof⟩
      simpa [hp, SourcePhase.outbox] using hsent
  | receive hp hchannel =>
      refine ⟨?_, hbuffer, ?_, fun hseen => List.mem_append_left _ (heof hseen)⟩
      · simpa [hchannel] using hsent
      · simp [hrecorded, hp, DestPhase.inbox, Message.toWrite]
  | receiveEof hp hchannel =>
      refine ⟨?_, hbuffer, ?_, fun _ => by simp⟩
      · simpa [hchannel] using hsent
      · simp [hrecorded, hp, DestPhase.inbox, Message.toWrite]
  | @write byteOffset xferSize data status hp hresult =>
      have hfull : status = xferSize := by simpa [Lane.writeFails, hp] using hwrite
      have hlength := data_eq ⟨hsent, hbuffer, hrecorded, heof⟩ hp
      refine ⟨hsent, hbuffer, ?_, heof⟩
      simp [hrecorded, hp, DestPhase.inbox, hfull, ← hlength]

/-- The target thread moves a worker that has nothing to send. -/
theorem setSource (h : LaneInv cfg l) {p : SourcePhase} (hold : l.source.outbox cfg = [])
    (hnew : p.outbox cfg = []) (hp : ∀ b status, p ≠ .afterIo b status) :
    LaneInv cfg { l with source := p } := by
  refine ⟨?_, fun b status hb => absurd hb (hp b status), h.recorded, h.eofSeen⟩
  simpa [hold, hnew] using h.sent

theorem issue (h : LaneInv cfg l) {b : Block} (hidle : l.source.outbox cfg = [])
    (heof : l.eofIssued = false) :
    LaneInv cfg { l with source := .assigned b, issued := l.issued ++ [b] } := by
  refine ⟨?_, nofun, h.recorded, h.eofSeen⟩
  have hsent := h.sent
  simp only [hidle, heof, Bool.false_eq_true, if_false, List.append_nil] at hsent
  simp [SourcePhase.outbox, heof, hsent]

theorem issueEof (h : LaneInv cfg l) (hidle : l.source.outbox cfg = [])
    (heof : l.eofIssued = false) :
    LaneInv cfg { l with source := .eofTask, eofIssued := true } := by
  refine ⟨?_, nofun, h.recorded, h.eofSeen⟩
  have hsent := h.sent
  simp only [hidle, heof, Bool.false_eq_true, if_false, List.append_nil] at hsent
  simp [SourcePhase.outbox, hsent]

theorem assign (h : LaneInv cfg l) (hidle : l.dest = .idle) :
    LaneInv cfg { l with dest := .receiving } := by
  refine ⟨h.sent, h.read, ?_, h.eofSeen⟩
  simpa [hidle, DestPhase.inbox] using h.recorded

/-- A lane whose end of file has arrived and whose writer is idle is finished. -/
theorem finished (h : LaneInv cfg l) (hseen : l.eofReceived = true) (hidle : l.dest = .idle) :
    l.eofIssued = true ∧ l.received = l.issued.map (fileMessage cfg) ++ [.eof] ∧
      l.written = l.issued.map (fileWrite cfg) := by
  have hmem := h.eofSeen hseen
  have hnot : Message.eof ∉ l.issued.map (fileMessage cfg) := by simp [fileMessage]
  have hissued : l.eofIssued = true := by
    by_contra hissued
    have hall : Message.eof ∈ l.issued.map (fileMessage cfg) := by
      have hsent := h.sent
      rw [if_neg hissued, List.append_nil] at hsent
      rw [← hsent]
      simp [hmem]
    exact hnot hall
  have hsent := h.sent
  rw [if_pos hissued, List.append_assoc] at hsent
  have hempty := eq_nil_of_append_eq hsent hmem hnot
  rw [hempty, List.append_nil] at hsent
  refine ⟨hissued, hsent, ?_⟩
  have hrecorded := h.recorded
  rw [hsent, hidle, List.filterMap_append, filterMap_toWrite, List.filterMap_cons_none rfl]
    at hrecorded
  simpa [DestPhase.inbox] using hrecorded.symm

end LaneInv

/-- The source has given worker `w` its end-of-file task. -/
def Stage.ended {Q : Nat} : Stage Q → Fin Q → Prop
  | .eof q, w => w.val < q
  | _, _ => False

structure CopyInv (cfg : Config) (s : State cfg) : Prop where
  lanes : ∀ w, LaneInv cfg (s.lane w)
  noAbort : s.abort = false
  accounted : ∑ w, ((s.lane w).issued : Multiset Block) + s.todo = cfg.plan
  eofs : ∀ w, (s.lane w).eofIssued = true ↔ s.stage.ended w
  located : ∀ w, s.stage = .located w → (s.lane w).source = .held
  drained : ∀ q, s.stage = .eof q → s.todo = []
  ended : s.passEnded = true → ∀ w, (s.lane w).dest = .idle ∧ (s.lane w).eofReceived = true
  succeeded : s.success = true → s.passEnded = true

namespace CopyInv

theorem init (cfg : Config) : CopyInv cfg (init cfg) where
  lanes w := ⟨rfl, nofun, rfl, nofun⟩
  noAbort := rfl
  accounted := by simp [EndToEnd.init]
  eofs w := by simp [EndToEnd.init, Stage.ended]
  located := nofun
  drained := nofun
  ended := nofun
  succeeded := nofun

variable {s s' : State cfg} {w : Fin cfg.queueDepth} {l : Lane}

theorem lanes_setLane (h : CopyInv cfg s) (hl : LaneInv cfg l) :
    ∀ i, LaneInv cfg ((s.setLane w l).lane i) :=
  State.forall_setLane (fun _ => LaneInv cfg) hl fun i _ => h.lanes i

theorem ended_setLane (h : CopyInv cfg s) (hdest : l.dest = (s.lane w).dest)
    (heof : l.eofReceived = (s.lane w).eofReceived) (hended : s.passEnded = true) :
    ∀ i, ((s.setLane w l).lane i).dest = .idle ∧ ((s.setLane w l).lane i).eofReceived = true := by
  refine State.forall_setLane (fun _ l => l.dest = .idle ∧ l.eofReceived = true) ?_
      fun i _ => h.ended hended i
  rw [hdest, heof]
  exact h.ended hended w

theorem eofIssued_setLane (hl : l.eofIssued = (s.lane w).eofIssued) :
    ∀ i, ((s.setLane w l).lane i).eofIssued = (s.lane i).eofIssued :=
  State.forall_setLane (fun i l => l.eofIssued = (s.lane i).eofIssued) hl fun _ _ => rfl

theorem accounted_setLane (h : CopyInv cfg s) (hl : l.issued = (s.lane w).issued) :
    ∑ i, (((s.setLane w l).lane i).issued : Multiset Block) + s.todo = cfg.plan := by
  have hsum := Account.sum_update_same s.lane w l (fun l => (l.issued : Multiset Block))
    (by simp [hl])
  exact hsum ▸ h.accounted

/-- A worker keeps what the target threads go by. -/
theorem work (h : CopyInv cfg s) {a : WorkerAction} (hs : Work cfg s.abort (s.lane w) a l)
    (hread : (s.lane w).readFails a = false) (hwrite : (s.lane w).writeFails a = false) :
    CopyInv cfg { s.setLane w l with
      abort := s.abort || cfg.stopOnError && (s.lane w).readFails a } where
  lanes := h.lanes_setLane ((h.lanes w).work (h.noAbort ▸ hs) hread hwrite)
  noAbort := by simp [h.noAbort, hread]
  accounted := h.accounted_setLane (by cases hs <;> rfl)
  eofs i := by
    have hsame := eofIssued_setLane (s := s) (w := w) (l := l) (by cases hs <;> rfl) i
    simp only [hsame]
    exact h.eofs i
  located := by
    refine State.forall_setLane (fun i l => s.stage = .located i → l.source = .held) ?_
      fun i _ => h.located i
    intro hstage
    have hheld := h.located w hstage
    cases hs <;> simp_all
  drained := h.drained
  ended hended := by
    refine State.forall_setLane (fun _ l => l.dest = .idle ∧ l.eofReceived = true) ?_
      fun i _ => h.ended hended i
    have hidle := h.ended hended w
    cases hs <;> simp_all
  succeeded := h.succeeded

theorem locate (h : CopyInv cfg s) (hstage : s.stage = .loop) (hidle : (s.lane w).source = .idle) :
    CopyInv cfg { s.setLane w { s.lane w with source := .held } with stage := .located w } where
  lanes := h.lanes_setLane ((h.lanes w).setSource (by simp [hidle, SourcePhase.outbox]) rfl nofun)
  noAbort := h.noAbort
  accounted := h.accounted_setLane rfl
  eofs i := by
    have hno := h.eofs i
    rw [hstage] at hno
    have hsame := eofIssued_setLane (s := s) (w := w) (l := { s.lane w with source := .held }) rfl i
    simpa [hsame, Stage.ended] using hno
  located i hi := by
    cases hi
    simp [State.setLane]
  drained := nofun
  ended := h.ended_setLane rfl rfl
  succeeded := h.succeeded

theorem release (h : CopyInv cfg s) {b : Block} {rest : List Block}
    (hstage : s.stage = .located w) (htodo : s.todo = b :: rest) :
    CopyInv cfg { s.setLane w { s.lane w with
        source := .assigned b
        issued := (s.lane w).issued ++ [b] } with
      stage := .loop
      todo := rest } where
  lanes := by
    have hno : (s.lane w).eofIssued = false := by
      simpa [hstage, Stage.ended] using h.eofs w
    exact h.lanes_setLane
      ((h.lanes w).issue (by simp [h.located w hstage, SourcePhase.outbox]) hno)
  noAbort := h.noAbort
  accounted := by
    have hsum := Account.sum_update s.lane w
      { s.lane w with source := .assigned b, issued := (s.lane w).issued ++ [b] }
      (fun l => (l.issued : Multiset Block)) {b} (by simp [← Multiset.coe_add])
    have hall := h.accounted
    rw [htodo, ← Multiset.cons_coe, ← Multiset.singleton_add, ← add_assoc] at hall
    exact hsum ▸ hall
  eofs i := by
    have hno := h.eofs i
    rw [hstage] at hno
    have hsame := eofIssued_setLane (s := s) (w := w)
      (l := { s.lane w with source := .assigned b, issued := (s.lane w).issued ++ [b] }) rfl i
    simpa [hsame, Stage.ended] using hno
  located := nofun
  drained := nofun
  ended := h.ended_setLane rfl rfl
  succeeded := h.succeeded

theorem eofSrc (h : CopyInv cfg s) (hstage : s.stage = .eof w.val)
    (hidle : (s.lane w).source = .idle) :
    CopyInv cfg { s.setLane w { s.lane w with source := .eofTask, eofIssued := true } with
      stage := .eof (w.val + 1) } where
  lanes := by
    have hno : (s.lane w).eofIssued = false := by
      simpa [hstage, Stage.ended] using h.eofs w
    exact h.lanes_setLane ((h.lanes w).issueEof (by simp [hidle, SourcePhase.outbox]) hno)
  noAbort := h.noAbort
  accounted := h.accounted_setLane rfl
  eofs := by
    refine State.forall_setLane (fun i l => l.eofIssued = true ↔ i.val < w.val + 1) (by simp) ?_
    intro i hi
    have hne : i.val ≠ w.val := fun heq => hi (Fin.ext heq)
    rw [h.eofs i, hstage, Stage.ended]
    omega
  located := nofun
  drained _ _ := h.drained w.val hstage
  ended := h.ended_setLane rfl rfl
  succeeded := h.succeeded

theorem assign (h : CopyInv cfg s) (hpass : s.passEnded = false)
    (hidle : (s.lane w).dest = .idle) :
    CopyInv cfg (s.setLane w { s.lane w with dest := .receiving }) where
  lanes := h.lanes_setLane ((h.lanes w).assign hidle)
  noAbort := h.noAbort
  accounted := h.accounted_setLane rfl
  eofs := State.forall_setLane (fun i l => l.eofIssued = true ↔ s.stage.ended i) (h.eofs w)
    fun i _ => h.eofs i
  located := State.forall_setLane (fun i l => s.stage = .located i → l.source = .held)
    (h.located w) fun i _ => h.located i
  drained := h.drained
  ended hended := by simp [State.setLane, hpass] at hended
  succeeded := h.succeeded

theorem step (h : CopyInv cfg s) {a : Action cfg} (hwhole : WholeIo cfg s a)
    (hs : Step cfg s a s') : CopyInv cfg s' := by
  cases hs with
  | worker hwork => exact h.work hwork hwhole.1 hwhole.2
  | locate hstage _ hidle => exact h.locate hstage hidle
  | turnBack _ habort => simp [h.noAbort] at habort
  | release hstage htodo _ => exact h.release hstage htodo
  | leaveLoop hstage htodo =>
      refine { h with eofs := ?_, located := nofun, drained := fun _ _ => htodo }
      intro i
      simpa [hstage, Stage.ended] using h.eofs i
  | eofSrc hstage hidle => exact h.eofSrc hstage hidle
  | assign hpass hidle _ => exact h.assign hpass hidle
  | endPass hall => exact { h with ended := fun _ => hall, succeeded := fun _ => rfl }
  | complete hended => exact { h with succeeded := fun _ => hended }

/-- The invariant holds throughout a run whose reads and writes are whole. -/
theorem of_reach (hs : Transition.Reach (EndToEnd.step cfg) (WholeIo cfg) (EndToEnd.init cfg) s) :
    CopyInv cfg s :=
  hs.invariant (CopyInv.init cfg) fun _ _ _ h hwhole hstep => h.step hwhole (.of_eq_some hstep)

/-- When the destination pass has ended, every planned block was issued. -/
theorem issued_eq (h : CopyInv cfg s) (hended : s.passEnded = true) :
    ∑ w, ((s.lane w).issued : Multiset Block) = cfg.plan := by
  have hall := h.accounted
  have hfirst : (s.lane ⟨0, cfg.queueDepth_pos⟩).eofIssued = true := by
    obtain ⟨hidle, hseen⟩ := h.ended hended ⟨0, cfg.queueDepth_pos⟩
    exact ((h.lanes _).finished hseen hidle).1
  have hstage := (h.eofs _).mp hfirst
  cases hs : s.stage with
  | loop => simp [hs, Stage.ended] at hstage
  | located w => simp [hs, Stage.ended] at hstage
  | eof q => simpa [h.drained q hs] using hall

end CopyInv

/-- A copy whose reads and writes are whole and whose destination pass has ended is
exact. Each destination worker received the blocks of its lane in the order of issue
and then one end of file, and made one write for each with the bytes of the file; over
all lanes these are the planned blocks, each as often as it was planned. -/
theorem copy_exact {s : State cfg}
    (hreach : Transition.Reach (step cfg) (WholeIo cfg) (init cfg) s)
    (hended : s.passEnded = true) :
    (∀ w, (s.lane w).received = (s.lane w).issued.map (fileMessage cfg) ++ [.eof] ∧
      (s.lane w).written = (s.lane w).issued.map (fileWrite cfg)) ∧
    ∑ w, ((s.lane w).issued : Multiset Block) = cfg.plan ∧
    ∑ w, ((s.lane w).written : Multiset Write) = (cfg.plan.map (fileWrite cfg) : List Write) := by
  have h := CopyInv.of_reach hreach
  have hlane : ∀ w, (s.lane w).received = (s.lane w).issued.map (fileMessage cfg) ++ [.eof] ∧
      (s.lane w).written = (s.lane w).issued.map (fileWrite cfg) := by
    intro w
    obtain ⟨hidle, hseen⟩ := h.ended hended w
    exact ((h.lanes w).finished hseen hidle).2
  have hissued := h.issued_eq hended
  refine ⟨hlane, hissued, ?_⟩
  calc ∑ w, ((s.lane w).written : Multiset Write)
      = ∑ w, ((s.lane w).issued : Multiset Block).map (fileWrite cfg) := by
        exact Finset.sum_congr rfl fun w _ => by rw [(hlane w).2, Multiset.map_coe]
    _ = (∑ w, ((s.lane w).issued : Multiset Block)).map (fileWrite cfg) :=
        (map_sum (Multiset.mapAddMonoidHom (fileWrite cfg))
          (fun w => ((s.lane w).issued : Multiset Block)) Finset.univ).symm
    _ = (cfg.plan.map (fileWrite cfg) : List Write) := by rw [hissued, Multiset.map_coe]

/-- Two lanes and a file of three bytes in two blocks. -/
def smallCopy : Config where
  queueDepth := 2
  queueDepth_pos := by decide
  plan := [⟨0, 0, 2, by decide⟩, ⟨1, 2, 1, by decide⟩]
  file := fun i => UInt8.ofNat (10 + i)
  stale := fun _ _ => 255
  stopOnError := false

/-- The second block overtakes the first one. -/
def smallRun : List (Action smallCopy) :=
  [.assign 0, .assign 1, .locate 0, .release, .locate 1, .release, .leaveLoop,
    .worker 1 .checkAbort, .worker 1 (.read 1), .worker 1 .afterIoOp, .worker 1 .beforeIoOp,
    .worker 0 .checkAbort, .worker 0 (.read 2), .worker 1 (.write 1), .worker 0 .afterIoOp,
    .worker 0 .beforeIoOp, .eofSrc, .eofSrc, .worker 1 .eofSourceSide, .assign 1,
    .worker 0 .eofSourceSide, .worker 0 (.write 2), .assign 0, .worker 1 .beforeIoOp,
    .worker 0 .beforeIoOp, .endPass]

theorem copy_exact_twoLanes : ∃ s : State smallCopy,
    s.passEnded = true ∧
      ∑ w, ((s.lane w).written : Multiset Write) =
        ([⟨0, 2, [10, 11]⟩, ⟨2, 1, [12]⟩] : List Write) := by
  obtain ⟨s, hreach, hended⟩ :
      ∃ s, Transition.Reach (step smallCopy) (WholeIo smallCopy) (init smallCopy) s ∧
        s.passEnded = true :=
    Transition.exists_reach_of_run smallRun (by decide +kernel)
  refine ⟨s, hended, (copy_exact hreach hended).2.2.trans ?_⟩
  rfl

end Xdd.EndToEnd
