import Xdd.EndToEnd.Exact

/-!
# Copies that report success

The header of a block takes its length from the plan and not from the result of the
read, and the end-of-file protocol runs whatever the reads returned. A short read is
therefore sent with whatever the buffer held before, and a block whose read failed is
dropped without a trace at the destination.
-/

namespace Xdd.EndToEnd

variable {cfg : Config}

/-- The bytes of a write belong where it puts them. -/
def Write.Clean (cfg : Config) (wr : Write) : Prop :=
  ∀ i c, wr.data[i]? = some c → c = cfg.file (wr.byteOffset + i)

/-- Every byte that the destination has written is the byte of the source file there. -/
def Faithful (cfg : Config) (s : State cfg) : Prop :=
  ∀ w, ∀ wr ∈ (s.lane w).written, wr.Clean cfg

/-- Every planned block was received and written. -/
def Complete (cfg : Config) (s : State cfg) : Prop :=
  ∀ b ∈ cfg.plan, ∃ w, fileMessage cfg b ∈ (s.lane w).received ∧
    fileWrite cfg b ∈ (s.lane w).written

/-- No read is short without being empty, unless it makes the source stop. -/
def NoShortRead (cfg : Config) (s : State cfg) : Action cfg → Prop
  | .worker w (.read status) =>
    (s.lane w).readFails (.read status) = true → status ≤ 0 ∨ cfg.stopOnError = true
  | _ => True

/-- What keeps stale bytes out of a lane. -/
structure CleanLane (cfg : Config) (abort : Bool) (l : Lane) : Prop where
  sending : ∀ b status, l.source = .afterIo b status → 0 < status → abort = false →
    ∀ i < b.xferSize, l.buffer i = cfg.file (b.byteOffset + i)
  channel : ∀ m ∈ l.channel, ∀ wr ∈ m.toWrite, wr.Clean cfg
  pending : ∀ wr ∈ l.dest.inbox, wr.Clean cfg
  written : ∀ wr ∈ l.written, wr.Clean cfg

theorem Write.Clean.take {wr : Write} (h : wr.Clean cfg) (n : Nat) :
    Write.Clean cfg { wr with data := wr.data.take n } := by
  intro i c hc
  apply h i c
  rw [List.getElem?_take] at hc
  split at hc
  · exact hc
  · cases hc

theorem fileWrite_clean (b : Block) : (fileWrite cfg b).Clean cfg :=
  fun _ _ hc => getElem?_bytesAt hc

namespace CleanLane

variable {abort : Bool} {l l' : Lane} {a : WorkerAction}

theorem work (h : CleanLane cfg abort l) (hs : Work cfg abort l a l')
    (hread : ∀ status, a = .read status → l.readFails a = true →
      status ≤ 0 ∨ cfg.stopOnError = true) :
    CleanLane cfg (abort || cfg.stopOnError && l.readFails a) l' := by
  obtain ⟨hsending, hchannel, hpending, hwritten⟩ := h
  cases hs with
  | quit | go | skip =>
      refine ⟨?_, hchannel, hpending, hwritten⟩
      rintro b status ⟨⟩
  | @read b status hp hresult =>
      refine ⟨?_, hchannel, hpending, hwritten⟩
      rintro b' status' hb hpos habort i hi
      cases hb
      -- a read that is short would have raised the abort
      have hfull : status = b.xferSize := by
        by_contra hshort
        have hfails : l.readFails (.read status) = true := by
          simpa [Lane.readFails, hp] using hshort
        rcases hread status rfl hfails with hempty | hstop
        · omega
        · simp [hfails, hstop] at habort
      exact if_pos (by omega)
  | @send b status hp habort hpos =>
      refine ⟨by rintro b status ⟨⟩, ?_, hpending, hwritten⟩
      intro m hm wr hwr
      rcases List.mem_append.mp hm with hold | hnew
      · exact hchannel m hold wr hwr
      · obtain rfl := List.mem_singleton.mp hnew
        rw [srcSend_eq (hsending b status hp hpos habort)] at hwr
        obtain rfl := Option.mem_some.mp hwr
        exact fileWrite_clean b
  | sendEof hp =>
      refine ⟨by rintro b status ⟨⟩, ?_, hpending, hwritten⟩
      intro m hm wr hwr
      rcases List.mem_append.mp hm with hold | hnew
      · exact hchannel m hold wr hwr
      · obtain rfl := List.mem_singleton.mp hnew
        cases hwr
  | receive hp hl =>
      refine ⟨by simpa [Lane.readFails] using hsending, fun m hm => hchannel m (by simp [hl, hm]),
        ?_, hwritten⟩
      intro wr hwr
      obtain rfl := List.mem_singleton.mp hwr
      exact hchannel _ (hl ▸ List.mem_cons_self) _ rfl
  | receiveEof hp hl =>
      refine ⟨by simpa [Lane.readFails] using hsending, fun m hm => hchannel m (by simp [hl, hm]),
        ?_, hwritten⟩
      rintro wr ⟨⟩
  | @write byteOffset xferSize data status hp =>
      refine ⟨by simpa [Lane.readFails] using hsending, hchannel, by rintro wr ⟨⟩, ?_⟩
      intro wr hwr
      rcases List.mem_append.mp hwr with hold | hnew
      · exact hwritten wr hold
      · obtain rfl := List.mem_singleton.mp hnew
        have hclean := hpending ⟨byteOffset, xferSize, data⟩ (by simp [hp, DestPhase.inbox])
        exact hclean.take status.toNat

theorem mono (h : CleanLane cfg abort l) {abort' : Bool} (habort : abort' = false → abort = false) :
    CleanLane cfg abort' l :=
  ⟨fun b status hp hpos hno => h.sending b status hp hpos (habort hno), h.channel, h.pending,
    h.written⟩

/-- The target thread only touches workers that have nothing to send. -/
theorem moved (h : CleanLane cfg abort l) (hsource : ∀ b status, l'.source ≠ .afterIo b status)
    (hchannel : l'.channel = l.channel) (hdest : l'.dest = l.dest)
    (hwritten : l'.written = l.written) : CleanLane cfg abort l' := by
  refine ⟨fun b status hb => absurd hb (hsource b status), ?_, ?_, ?_⟩
  · rw [hchannel]
    exact h.channel
  · rw [hdest]
    exact h.pending
  · rw [hwritten]
    exact h.written

end CleanLane

/-- A step keeps stale bytes out of every lane. -/
theorem cleanLanes_step {s s' : State cfg} {a : Action cfg} (hread : NoShortRead cfg s a)
    (hs : Step cfg s a s') (h : ∀ w, CleanLane cfg s.abort (s.lane w)) :
    ∀ w, CleanLane cfg s'.abort (s'.lane w) := by
  cases hs with
  | @worker w a l hwork =>
      refine State.forall_setLane (fun _ => CleanLane cfg _) ((h w).work hwork ?_) ?_
      · rintro status rfl
        exact hread
      · intro i _
        exact (h i).mono (by simp +contextual)
  | @locate w | @turnBack w | @release w | @eofSrc w =>
      refine State.forall_setLane (fun _ => CleanLane cfg _) ?_ fun i _ => h i
      exact (h w).moved (fun _ _ => SourcePhase.noConfusion) rfl rfl rfl
  | @assign w =>
      refine State.forall_setLane (fun _ => CleanLane cfg _) ?_ fun i _ => h i
      exact ⟨(h w).sending, (h w).channel, nofun, (h w).written⟩
  | leaveLoop | endPass | complete => exact h

/-- A run without short reads writes only bytes of the file. -/
theorem faithful_of_reach {s : State cfg}
    (hreach : Transition.Reach (step cfg) (NoShortRead cfg) (init cfg) s) : Faithful cfg s := by
  have hclean : ∀ w, CleanLane cfg s.abort (s.lane w) := by
    have hinit : ∀ w, CleanLane cfg (init cfg).abort ((init cfg).lane w) :=
      fun w => ⟨nofun, nofun, nofun, nofun⟩
    exact hreach.invariant hinit fun s a s' h hread hstep =>
      cleanLanes_step hread (.of_eq_some hstep) h
  exact fun w => (hclean w).written

/-- A run whose reads and writes are whole reports success only for a complete copy. -/
theorem complete_of_reach {s : State cfg}
    (hreach : Transition.Reach (step cfg) (WholeIo cfg) (init cfg) s)
    (hsuccess : s.success = true) : Complete cfg s := by
  have h := CopyInv.of_reach hreach
  have hended := h.succeeded hsuccess
  intro b hb
  have hissued : b ∈ ∑ w, ((s.lane w).issued : Multiset Block) := by
    rw [h.issued_eq hended]
    exact Multiset.mem_coe.mpr hb
  obtain ⟨w, -, hw⟩ := Multiset.mem_sum.mp hissued
  obtain ⟨hidle, hseen⟩ := h.ended hended w
  obtain ⟨-, hreceived, hwritten⟩ := (h.lanes w).finished hseen hidle
  refine ⟨w, ?_, ?_⟩
  · rw [hreceived]
    exact List.mem_append_left _ (List.mem_map_of_mem (Multiset.mem_coe.mp hw))
  · rw [hwritten]
    exact List.mem_map_of_mem (Multiset.mem_coe.mp hw)

/-- What a copy guarantees about the bytes it writes and about the success it reports:
the bytes are those of the file in every run without short reads that go on, and the
copy is complete in every run whose reads and writes are whole. -/
theorem reported_copy {s : State cfg} :
    (Transition.Reach (step cfg) (NoShortRead cfg) (init cfg) s → Faithful cfg s) ∧
    (Transition.Reach (step cfg) (WholeIo cfg) (init cfg) s → s.success = true →
      Complete cfg s) :=
  ⟨faithful_of_reach, complete_of_reach⟩

instance (cfg : Config) (s : State cfg) : (a : Action cfg) → Decidable (NoShortRead cfg s a)
  | .worker _ (.read _) => inferInstanceAs (Decidable (_ → _))
  | .worker _ .checkAbort | .worker _ .afterIoOp | .worker _ .eofSourceSide
  | .worker _ .beforeIoOp | .worker _ (.write _) | .locate _ | .release | .leaveLoop | .eofSrc
  | .assign _ | .endPass | .complete => isTrue trivial

theorem reported_copy_twoLanes : ∃ s : State smallCopy,
    s.success = true ∧ Faithful smallCopy s ∧ Complete smallCopy s := by
  have hrun : (Transition.run (Transition.guarded (step smallCopy)
      (fun s a => NoShortRead smallCopy s a ∧ WholeIo smallCopy s a))
      (smallRun ++ [.complete]) (init smallCopy)).any
        (fun s => decide (s.success = true)) = true := by
    decide +kernel
  obtain ⟨s, hreach, hsuccess⟩ := Transition.exists_reach_of_run _ hrun
  refine ⟨s, hsuccess, ?_, ?_⟩
  · exact reported_copy.1 (hreach.mono fun _ _ hok => hok.1)
  · exact reported_copy.2 (hreach.mono fun _ _ hok => hok.2) hsuccess

/-- One lane and a file of one block. -/
def oneBlock : Config where
  queueDepth := 1
  queueDepth_pos := Nat.one_pos
  plan := [⟨0, 0, 2, Nat.two_pos⟩]
  file := fun i => UInt8.ofNat (10 + i)
  stale := fun _ _ => 255
  stopOnError := false

/-- A read of one of the two bytes is sent with a stale byte behind it, and after a
read that fails the copy is reported as complete without the block. -/
theorem reported_copy_wrong :
    (∃ s, Transition.Reach (step oneBlock) Transition.anyStep (init oneBlock) s ∧
      ¬ Faithful oneBlock s) ∧
    ∃ s, Transition.Reach (step oneBlock) Transition.anyStep (init oneBlock) s ∧
      s.success = true ∧ ¬ Complete oneBlock s := by
  constructor
  · obtain ⟨s, hreach, hwritten⟩ :
        ∃ s, Transition.Reach (step oneBlock) Transition.anyStep (init oneBlock) s ∧
          (s.lane 0).written = [⟨0, 2, [10, 255]⟩] :=
      Transition.exists_reach_of_run
        [.assign 0, .locate 0, .release, .worker 0 .checkAbort, .worker 0 (.read 1),
          .worker 0 .afterIoOp, .worker 0 .beforeIoOp, .worker 0 (.write 2)] (by decide +kernel)
    refine ⟨s, hreach, ?_⟩
    intro hfaithful
    have hbyte := hfaithful 0 ⟨0, 2, [10, 255]⟩ (by simp [hwritten]) 1 255 rfl
    exact absurd hbyte (by decide)
  · obtain ⟨s, hreach, hsuccess, hwritten⟩ :
        ∃ s, Transition.Reach (step oneBlock) Transition.anyStep (init oneBlock) s ∧
          s.success = true ∧ ∀ w, (s.lane w).written = [] :=
      Transition.exists_reach_of_run
        [.assign 0, .locate 0, .release, .worker 0 .checkAbort, .worker 0 (.read (-1)),
          .worker 0 .afterIoOp, .leaveLoop, .eofSrc, .worker 0 .eofSourceSide,
          .worker 0 .beforeIoOp, .endPass, .complete] (by decide +kernel)
    refine ⟨s, hreach, hsuccess, ?_⟩
    intro hcomplete
    obtain ⟨w, -, hw⟩ := hcomplete ⟨0, 0, 2, by decide⟩ (by simp [oneBlock])
    simp [hwritten w] at hw

end Xdd.EndToEnd
