import Xdd.Xni.Delivered

/-!
# Restart offsets over XNI

The monitor writes the lowest offset of the workers to the restart file. That offset is
safe if the workers take the blocks in the order of the file, and over XNI they need not:
a source worker may keep its block while another one sends the blocks behind it, and any
worker of the destination takes whatever is ready. As soon as every worker has gone past
a block that nobody has received, the monitor writes an offset behind a hole.

This takes two source workers, and one block more than there are workers. With less than
that every offset is safe.
-/

namespace Xdd.Xni

open Restart (Contiguous Extent Shows lowestOffset restartOffset)

variable {cfg : Config}

/-- The bytes from the start of the copy to `v` have been written. -/
def WrittenTo (s : State cfg) (v : Int) : Prop :=
  ∀ x : Nat, cfg.initial ≤ x → (x : Int) < v → ∃ w, ∃ e ∈ (s.receiver w).written, e.Holds x

/-- Whatever the monitor has written in any run, everything below it was written before. -/
def RestartSafe (cfg : Config) : Prop :=
  ∀ s, Reachable cfg s → ∀ v ∈ s.restartFile, WrittenTo s v

/-! ## What a worker shows -/

/-- The block that a worker has received and not yet written. -/
def Phase.inHand {S : Nat} : Phase S → List Extent
  | .received _ e | .writing e => [e]
  | .idle | .selecting | .selected _ | .claimed _ | .sawEof _ | .stopped => []

/-- The worker is in `tcp_receive_target_buffer`. -/
def Phase.receiving {S : Nat} : Phase S → Bool
  | .selecting | .selected _ | .claimed _ | .received .. | .sawEof _ => true
  | .idle | .writing _ | .stopped => false

structure ReceiverOk {S : Nat} (r : Receiver S) : Prop where
  recorded : r.received = r.written ++ r.phase.inHand
  receiving : r.phase.receiving = true → r.taskByteOffset = -1
  shows : Shows r.received r.taskByteOffset

namespace ReceiverOk

variable {S : Nat} {r : Receiver S}

/-- A worker goes on without a new block. -/
theorem setPhase (h : ReceiverOk r) {phase : Phase S} (hhand : phase.inHand = r.phase.inHand)
    (hreceiving : phase.receiving = true → r.phase.receiving = true) :
    ReceiverOk { r with phase := phase } :=
  ⟨hhand ▸ h.recorded, fun hphase => h.receiving (hreceiving hphase), h.shows⟩

theorem assign (h : ReceiverOk r) (hidle : r.phase = .idle) :
    ReceiverOk (S := S) { r with phase := .selecting, taskByteOffset := -1 } := by
  refine ⟨?_, fun _ => rfl, .inl (by simp)⟩
  simpa [hidle, Phase.inHand] using h.recorded

theorem recv (h : ReceiverOk r) {k : Fin S} (hclaimed : r.phase = .claimed k) (e : Extent) :
    ReceiverOk (S := S) { r with phase := .received k e, received := r.received ++ [e] } := by
  have hwaits : r.taskByteOffset = -1 := h.receiving (by rw [hclaimed]; rfl)
  refine ⟨?_, fun _ => hwaits, .inl (by simp [hwaits])⟩
  have hrecorded := h.recorded
  rw [hclaimed] at hrecorded
  simp [hrecorded, Phase.inHand]

theorem release (h : ReceiverOk r) {k : Fin S} {e : Extent} (hreceived : r.phase = .received k e) :
    ReceiverOk (S := S) { r with phase := .writing e, taskByteOffset := e.byteOffset } := by
  have hrecorded := h.recorded
  rw [hreceived] at hrecorded
  refine ⟨hrecorded, nofun, .inr ⟨e, ?_, rfl⟩⟩
  rw [hrecorded]
  exact List.getLast?_concat

theorem write (h : ReceiverOk r) {e : Extent} (hwriting : r.phase = .writing e) :
    ReceiverOk (S := S) { r with phase := .idle, written := r.written ++ [e] } := by
  refine ⟨?_, nofun, h.shows⟩
  have hrecorded := h.recorded
  rw [hwriting] at hrecorded
  simpa [Phase.inHand] using hrecorded

/-- What the worker was given and has written. -/
def log (h : ReceiverOk r) : Restart.Log where
  given := r.received
  written := r.written
  behind := by
    rw [h.recorded]
    cases r.phase with
    | received _ e => exact .inr ⟨e, rfl⟩
    | writing e => exact .inr ⟨e, rfl⟩
    | idle => exact .inl (List.append_nil _)
    | selecting => exact .inl (List.append_nil _)
    | selected => exact .inl (List.append_nil _)
    | claimed => exact .inl (List.append_nil _)
    | sawEof => exact .inl (List.append_nil _)
    | stopped => exact .inl (List.append_nil _)

end ReceiverOk

theorem State.forall_setReceiver {s : State cfg} {w : Fin cfg.queueDepth}
    {r : Receiver cfg.sockets} {P : Receiver cfg.sockets → Prop} (hw : P r)
    (hothers : ∀ i, P (s.receiver i)) (i : Fin cfg.queueDepth) :
    P ((s.setReceiver w r).receiver i) := by
  by_cases hi : i = w
  · simpa [State.setReceiver, hi] using hw
  · simpa [State.setReceiver, hi] using hothers i

theorem receivers_step {s s' : State cfg} {a : Action cfg} (h : ∀ w, ReceiverOk (s.receiver w))
    (hs : Step cfg s a s') : ∀ w, ReceiverOk (s'.receiver w) := by
  cases hs with
  | issue => exact h
  | claimToSend => exact h
  | send => exact h
  | close => exact h
  | deliver => exact h
  | @assign w hidle => exact State.forall_setReceiver ((h w).assign hidle) h
  | @allEof w hphase =>
      exact State.forall_setReceiver ((h w).setPhase (by rw [hphase]; rfl) nofun) h
  | @select w hphase =>
      exact State.forall_setReceiver
        ((h w).setPhase (by rw [hphase]; rfl) fun _ => by rw [hphase]; rfl) h
  | @claim w _ _ hphase =>
      exact State.forall_setReceiver
        ((h w).setPhase (by rw [hphase]; rfl) fun _ => by rw [hphase]; rfl) h
  | @retry w _ hphase =>
      exact State.forall_setReceiver
        ((h w).setPhase (by rw [hphase]; rfl) fun _ => by rw [hphase]; rfl) h
  | @recv w _ e _ hphase => exact State.forall_setReceiver ((h w).recv hphase e) h
  | @recvEof w _ _ hphase =>
      exact State.forall_setReceiver
        ((h w).setPhase (by rw [hphase]; rfl) fun _ => by rw [hphase]; rfl) h
  | @release w _ _ hphase => exact State.forall_setReceiver ((h w).release hphase) h
  | @stop w _ hphase =>
      exact State.forall_setReceiver ((h w).setPhase (by rw [hphase]; rfl) nofun) h
  | @write w _ hphase => exact State.forall_setReceiver ((h w).write hphase) h
  | complete => exact h
  | monitor => exact h

theorem receivers_ok {s : State cfg} (hreach : Reachable cfg s) :
    ∀ w, ReceiverOk (s.receiver w) :=
  hreach.invariant (fun _ => ⟨rfl, nofun, .inl le_rfl⟩)
    fun _ _ _ h _ hstep => receivers_step h (.of_eq_some hstep)

/-! ## When an offset is safe -/

/-- Every byte that all workers have gone past belongs to a block that one of them has
received. -/
def NoneOvertaken (s : State cfg) : Prop :=
  ∀ x : Nat, cfg.initial ≤ x → (∀ w, (x : Int) < (s.receiver w).taskByteOffset) →
    ∃ w, ∃ e ∈ (s.receiver w).received, e.Holds x

/-- The monitor writes a safe offset then. -/
theorem NoneOvertaken.writtenTo {s : State cfg} (h : NoneOvertaken s)
    (hok : ∀ w, ReceiverOk (s.receiver w)) :
    WrittenTo s (restartOffset (lowestOffset fun w => (s.receiver w).taskByteOffset)
      cfg.initial) := by
  intro x hinitial hx
  have hlow := Restart.le_taskByteOffset (lt_of_le_of_lt (Int.ofNat_le.mpr hinitial) hx)
  have hgiven : ∀ y : Nat, cfg.initial ≤ y →
      (y : Int) < restartOffset (lowestOffset fun w => (s.receiver w).taskByteOffset) cfg.initial →
      ∃ w, ∃ e ∈ (hok w).log.given, e.Holds y := by
    intro y hy hbelow
    exact h y hy fun w => lt_of_lt_of_le hbelow (hlow w)
  exact Restart.written_below (fun w => (hok w).shows) hgiven hlow x hinitial hx

/-- Nothing that was written is taken back. -/
theorem Step.written_subset {s s' : State cfg} {a : Action cfg} (hs : Step cfg s a s')
    (w : Fin cfg.queueDepth) : (s.receiver w).written ⊆ (s'.receiver w).written := by
  have hset : ∀ i (r : Receiver cfg.sockets), (s.receiver i).written ⊆ r.written →
      (s.receiver w).written ⊆ ((s.setReceiver i r).receiver w).written := by
    intro i r hr
    by_cases hw : w = i
    · subst hw
      simpa [State.setReceiver] using hr
    · simp [State.setReceiver, hw]
  cases hs with
  | issue => exact List.Subset.refl _
  | claimToSend => exact List.Subset.refl _
  | send => exact List.Subset.refl _
  | close => exact List.Subset.refl _
  | deliver => exact List.Subset.refl _
  | assign => exact hset _ _ (List.Subset.refl _)
  | allEof => exact hset _ _ (List.Subset.refl _)
  | select => exact hset _ _ (List.Subset.refl _)
  | claim => exact hset _ _ (List.Subset.refl _)
  | retry => exact hset _ _ (List.Subset.refl _)
  | recv => exact hset _ _ (List.Subset.refl _)
  | recvEof => exact hset _ _ (List.Subset.refl _)
  | release => exact hset _ _ (List.Subset.refl _)
  | stop => exact hset _ _ (List.Subset.refl _)
  | write => exact hset _ _ (List.subset_append_left _ _)
  | complete => exact List.Subset.refl _
  | monitor => exact List.Subset.refl _

/-- Only the monitor writes to the restart file. -/
theorem Step.mem_restartFile {s s' : State cfg} {a : Action cfg} (hs : Step cfg s a s') {v : Int}
    (hv : v ∈ s'.restartFile) : v ∈ s.restartFile ∨
      v = restartOffset (lowestOffset fun w => (s.receiver w).taskByteOffset) cfg.initial := by
  cases hs
  case monitor => simpa using hv
  all_goals exact .inl hv

theorem restartSafe_of_noneOvertaken (h : ∀ s, Reachable cfg s → NoneOvertaken s) :
    RestartSafe cfg := by
  intro s hreach
  induction hreach with
  | init =>
      intro v hv x hinitial hx
      obtain rfl := List.mem_singleton.mp hv
      simp only [restartOffset, gt_iff_lt, lt_self_iff_false, if_false] at hx
      omega
  | @step s₁ s₂ a hreach _ hs ih =>
      have hstep := Step.of_eq_some hs
      intro v hv x hinitial hx
      have hbefore : WrittenTo s₁ v := by
        rcases hstep.mem_restartFile hv with hold | rfl
        · exact ih v hold
        · exact (h s₁ hreach).writtenTo (receivers_ok hreach)
      obtain ⟨w, e, he, hholds⟩ := hbefore x hinitial hx
      exact ⟨w, e, hstep.written_subset w he, hholds⟩

/-! ## No more blocks than workers -/

/-- A worker that has gone past some byte has received a block beyond it. -/
theorem ReceiverOk.exists_beyond {S : Nat} {r : Receiver S} (h : ReceiverOk r) {x : Nat}
    (hx : (x : Int) < r.taskByteOffset) : ∃ e ∈ r.received, x < e.byteOffset := by
  rcases h.shows with hnone | ⟨e, hlast, hoffset⟩
  · omega
  · exact ⟨e, List.mem_of_getLast? hlast, by omega⟩

/-- The blocks that were received, as often as they were. -/
def receivedBlocks (s : State cfg) : Multiset Extent :=
  ∑ w, ((s.receiver w).received : Multiset Extent)

theorem mem_receivedBlocks {s : State cfg} {e : Extent} :
    e ∈ receivedBlocks s ↔ ∃ w, e ∈ (s.receiver w).received := by
  simp [receivedBlocks, Multiset.mem_sum]

theorem receivedBlocks_le {s : State cfg} (h : Conserved s) :
    receivedBlocks s ≤ (cfg.plan : Multiset Extent) := by
  rw [← h.planned, ← h.carried]
  exact (Multiset.le_add_left _ _).trans (Multiset.le_add_left _ _)

/-- If every worker has gone past a block that none has received, then there is one block
for each worker and that one. -/
theorem noneOvertaken_of_length_le (hplan : Contiguous cfg.initial cfg.plan)
    (hlength : cfg.plan.length ≤ cfg.queueDepth) {s : State cfg} (hreach : Reachable cfg s) :
    NoneOvertaken s := by
  intro x hinitial hpast
  have hok := receivers_ok hreach
  have hle := receivedBlocks_le (Conserved.of_reach hreach)
  obtain ⟨e, he, hbeyond⟩ := (hok 0).exists_beyond (hpast 0)
  have heplan : e ∈ cfg.plan :=
    Multiset.mem_coe.mp (Multiset.mem_of_le hle (mem_receivedBlocks.mpr ⟨0, he⟩))
  obtain ⟨b, hb, hholds⟩ := hplan.exists_holds heplan hinitial hbeyond
  by_contra hmissing
  have hb' : b ∉ receivedBlocks s := by
    intro hmem
    obtain ⟨w, hw⟩ := mem_receivedBlocks.mp hmem
    exact hmissing ⟨w, b, hw, hholds⟩
  have hcard : cfg.queueDepth ≤ (receivedBlocks s).card := by
    rw [receivedBlocks, Multiset.card_sum]
    have hone : ∀ w ∈ Finset.univ, 1 ≤ ((s.receiver w).received : Multiset Extent).card := by
      intro w _
      obtain ⟨e, he, _⟩ := (hok w).exists_beyond (hpast w)
      rw [Multiset.coe_card]
      exact List.length_pos_of_mem he
    simpa using Finset.card_nsmul_le_sum _ _ 1 hone
  have hcons : b ::ₘ receivedBlocks s ≤ (cfg.plan : Multiset Extent) :=
    (Multiset.cons_le_of_notMem hb').mpr ⟨hb, hle⟩
  have htotal := Multiset.card_le_card hcons
  rw [Multiset.card_cons, Multiset.coe_card] at htotal
  omega

/-! ## One worker -/

/-- The blocks on their way over a socket, the first to arrive in front. -/
def Socket.blocks (socket : Socket) : List Extent :=
  socket.arrived.filterMap Packet.extent ++ socket.inFlight.filterMap Packet.extent

/-- The block that a source worker has in hand. -/
def Sender.inHand {S : Nat} : Sender S → List Extent
  | .idle => []
  | .holding e | .sending _ e => [e]

/-- The first worker of each side has had all blocks so far, over the first socket and in
the order of the plan. -/
structure InOrder (s : State cfg) : Prop where
  line : (s.receiver 0).received ++ (s.socket 0).blocks ++ (s.sender 0).inHand ++ s.todo = cfg.plan
  others : ∀ k, k ≠ 0 → (s.socket k).blocks = []
  sending : ∀ k, (s.socket k).sending = true → ∃ e, s.sender 0 = .sending k e
  first : ∀ k e, s.sender 0 = .sending k e → k = 0

namespace InOrder

variable {s s' : State cfg}

theorem init (cfg : Config) : InOrder (init cfg) where
  line := rfl
  others _ _ := rfl
  sending := nofun
  first := nofun

/-- The workers of the destination move and no block does. -/
theorem keep (h : InOrder s) (hsender : s'.sender 0 = s.sender 0) (htodo : s'.todo = s.todo)
    (hsocket : ∀ k, (s'.socket k).blocks = (s.socket k).blocks ∧
      (s'.socket k).sending = (s.socket k).sending)
    (hreceived : (s'.receiver 0).received = (s.receiver 0).received) : InOrder s' := by
  refine ⟨?_, ?_, ?_, ?_⟩
  · rw [hreceived, (hsocket 0).1, hsender, htodo]
    exact h.line
  · intro k hk
    rw [(hsocket k).1]
    exact h.others k hk
  · intro k
    rw [(hsocket k).2, hsender]
    exact h.sending k
  · rw [hsender]
    exact h.first

theorem setReceiver (h : InOrder s) {w : Fin cfg.queueDepth} {r : Receiver cfg.sockets}
    (hreceived : r.received = (s.receiver w).received) : InOrder (s.setReceiver w r) := by
  refine h.keep rfl rfl (fun _ => ⟨rfl, rfl⟩) ?_
  by_cases hw : 0 = w
  · subst hw
    simpa [State.setReceiver] using hreceived
  · simp [State.setReceiver, hw]

theorem setSocket (h : InOrder s) {k : Fin cfg.sockets} {socket : Socket}
    (hblocks : socket.blocks = (s.socket k).blocks)
    (hsending : socket.sending = (s.socket k).sending) : InOrder (s.setSocket k socket) := by
  refine h.keep rfl rfl ?_ rfl
  intro i
  by_cases hi : i = k
  · subst hi
    simpa [State.setSocket] using ⟨hblocks, hsending⟩
  · simp [State.setSocket, hi]

/-- A worker moves and a socket on which nothing comes or goes. -/
theorem move (h : InOrder s) {k : Fin cfg.sockets} {socket : Socket} {w : Fin cfg.queueDepth}
    {r : Receiver cfg.sockets} (hblocks : socket.blocks = (s.socket k).blocks)
    (hsending : socket.sending = (s.socket k).sending)
    (hreceived : r.received = (s.receiver w).received) :
    InOrder ((s.setSocket k socket).setReceiver w r) :=
  (h.setSocket hblocks hsending).setReceiver hreceived

/-- A socket is free for the worker, and it is the first one. -/
theorem freeSocket_eq (h : InOrder s) {e : Extent} (hholding : s.sender 0 = .holding e) :
    s.freeSocket = some 0 := by
  apply find?_finRange_zero
  cases hsending : (s.socket 0).sending with
  | false => rfl
  | true =>
      obtain ⟨e', he'⟩ := h.sending 0 hsending
      rw [hholding] at he'
      cases he'

theorem issue (h : InOrder s) {e : Extent} {rest : List Extent} (htodo : s.todo = e :: rest)
    (hidle : s.sender 0 = .idle) :
    InOrder { s.setSender 0 (.holding e) with todo := rest } := by
  refine ⟨?_, h.others, ?_, ?_⟩
  · have hline := h.line
    rw [hidle, htodo] at hline
    simpa [State.setSender, Sender.inHand] using hline
  · intro k hk
    obtain ⟨e', he'⟩ := h.sending k hk
    rw [hidle] at he'
    cases he'
  · intro k e' he'
    simp [State.setSender] at he'

theorem claimToSend (h : InOrder s) {e : Extent} (hholding : s.sender 0 = .holding e) :
    InOrder ((s.setSocket 0 { s.socket 0 with sending := true }).setSender 0 (.sending 0 e)) := by
  refine ⟨?_, ?_, ?_, ?_⟩
  · have hline := h.line
    rw [hholding] at hline
    simpa [State.setSender, State.setSocket, Sender.inHand, Socket.blocks] using hline
  · intro k hk
    simpa [State.setSender, State.setSocket, hk] using h.others k hk
  · intro k hk
    by_cases hzero : k = 0
    · subst hzero
      exact ⟨e, by simp [State.setSender]⟩
    · have hk : (s.socket k).sending = true := by
        simpa [State.setSender, State.setSocket, hzero] using hk
      obtain ⟨e', he'⟩ := h.sending k hk
      rw [hholding] at he'
      cases he'
  · intro k e' he'
    simp only [State.setSender, Function.update_self, Sender.sending.injEq] at he'
    exact he'.1.symm

theorem send (h : InOrder s) {e : Extent} (hsending : s.sender 0 = .sending 0 e) :
    InOrder { (s.setSocket 0 { s.socket 0 with
        sending := false
        inFlight := (s.socket 0).inFlight ++ [.data e] }).setSender 0 .idle with
      sent := s.sent ++ [e] } := by
  refine ⟨?_, ?_, ?_, ?_⟩
  · have hline := h.line
    rw [hsending] at hline
    simpa [State.setSender, State.setSocket, Sender.inHand, Socket.blocks, Packet.extent] using
      hline
  · intro k hk
    simpa [State.setSender, State.setSocket, hk] using h.others k hk
  · intro k hk
    by_cases hzero : k = 0
    · subst hzero
      simp [State.setSender, State.setSocket] at hk
    · have hk : (s.socket k).sending = true := by
        simpa [State.setSender, State.setSocket, hzero] using hk
      obtain ⟨e', he'⟩ := h.sending k hk
      rw [hsending] at he'
      exact absurd (Sender.sending.inj he').1.symm hzero
  · intro k e' he'
    simp [State.setSender] at he'

theorem recv (h : InOrder s) {k : Fin cfg.sockets} {e : Extent} {rest : List Packet}
    {r : Receiver cfg.sockets} (harrived : (s.socket k).arrived = .data e :: rest)
    (hreceived : r.received = (s.receiver 0).received ++ [e]) :
    InOrder ((s.setSocket k { s.socket k with arrived := rest }).setReceiver 0 r) := by
  -- the other sockets carry no block
  obtain rfl : k = 0 := by
    by_contra hk
    have hnone := h.others k hk
    simp [Socket.blocks, harrived, Packet.extent] at hnone
  refine ⟨?_, ?_, ?_, h.first⟩
  · have hline := h.line
    simp only [Socket.blocks, harrived, List.filterMap_cons, Packet.extent] at hline
    simpa [State.setReceiver, State.setSocket, Socket.blocks, hreceived] using hline
  · intro k hk
    simpa [State.setReceiver, State.setSocket, hk] using h.others k hk
  · intro k hk
    apply h.sending k
    by_cases hzero : k = 0
    · subst hzero
      simpa [State.setReceiver, State.setSocket] using hk
    · simpa [State.setReceiver, State.setSocket, hzero] using hk

theorem step (h : InOrder s) (hone : ∀ w : Fin cfg.queueDepth, w = 0) {a : Action cfg}
    (hs : Step cfg s a s') : InOrder s' := by
  cases hs with
  | @issue w e rest htodo hidle =>
      obtain rfl := hone w
      exact h.issue htodo hidle
  | @claimToSend w e k hholding hfree =>
      obtain rfl := hone w
      obtain rfl : 0 = k := Option.some.inj ((h.freeSocket_eq hholding).symm.trans hfree)
      exact h.claimToSend hholding
  | @send w k e hsending =>
      obtain rfl := hone w
      obtain rfl := h.first k e hsending
      exact h.send hsending
  | close =>
      refine h.keep rfl rfl (fun k => ⟨?_, rfl⟩) rfl
      simp [Socket.blocks, List.filterMap_cons, Packet.extent]
  | @deliver k p rest hinFlight =>
      refine h.setSocket ?_ rfl
      simp [Socket.blocks, hinFlight, List.filterMap_cons]
      cases p <;> simp [Packet.extent]
  | assign => exact h.setReceiver rfl
  | allEof => exact h.setReceiver rfl
  | select => exact h.setReceiver rfl
  | claim => exact h.move rfl rfl rfl
  | retry => exact h.setReceiver rfl
  | @recv w k e rest hclaimed harrived =>
      obtain rfl := hone w
      exact h.recv harrived rfl
  | recvEof => exact h.setReceiver rfl
  | release => exact h.move rfl rfl rfl
  | stop => exact h.move rfl rfl rfl
  | write => exact h.setReceiver rfl
  | complete => exact h.keep rfl rfl (fun _ => ⟨rfl, rfl⟩) rfl
  | monitor => exact h.keep rfl rfl (fun _ => ⟨rfl, rfl⟩) rfl

end InOrder

theorem noneOvertaken_of_queueDepth_eq_one (hplan : Contiguous cfg.initial cfg.plan)
    (hdepth : cfg.queueDepth = 1) {s : State cfg} (hreach : Reachable cfg s) :
    NoneOvertaken s := by
  have hone : ∀ w : Fin cfg.queueDepth, w = 0 := by
    intro w
    apply Fin.ext
    have hw := w.isLt
    have hzero := (0 : Fin cfg.queueDepth).isLt
    omega
  have horder : InOrder s :=
    hreach.invariant (InOrder.init cfg) fun _ _ _ h _ hstep => h.step hone (.of_eq_some hstep)
  intro x hinitial hpast
  obtain ⟨e, he, hbeyond⟩ := (receivers_ok hreach 0).exists_beyond (hpast 0)
  have hreceived : Contiguous cfg.initial (s.receiver 0).received := by
    rw [← horder.line, List.append_assoc, List.append_assoc] at hplan
    exact hplan.of_append
  obtain ⟨b, hb, hholds⟩ := hreceived.exists_holds he hinitial hbeyond
  exact ⟨0, b, hb, hholds⟩

/-! ## More blocks than workers -/

/-- A source worker keeps the first block, the second one has sent the next `j`, and as
many workers of the destination have received one each and not written it. -/
structure Overtaken (first : Extent) (rest : List Extent) (j : Nat) (s : State cfg) : Prop where
  held : s.sender 0 = .holding first
  idle : ∀ w, w ≠ 0 → s.sender w = .idle
  todo : s.todo = rest.drop j
  sockets : ∀ k, s.socket k = freshSocket
  past : ∀ w : Fin cfg.queueDepth, w.val < j →
    ∃ e ∈ rest, (s.receiver w).taskByteOffset = e.byteOffset
  waiting : ∀ w : Fin cfg.queueDepth, j ≤ w.val → (s.receiver w).phase = .idle
  written : ∀ w, (s.receiver w).written = []
  running : s.success = false

/-- On an idle connection a block is sent and arrives on the first socket. -/
theorem exists_arrived {s : State cfg} (hreach : Reachable cfg s) {w : Fin cfg.queueDepth}
    {e : Extent} {rest : List Extent} (htodo : s.todo = e :: rest) (hidle : s.sender w = .idle)
    (hsockets : ∀ k, s.socket k = freshSocket) :
    ∃ s', Reachable cfg s' ∧ s'.sender = s.sender ∧ s'.todo = rest ∧
      s'.socket = Function.update s.socket 0 { freshSocket with arrived := [.data e] } ∧
      s'.receiver = s.receiver ∧ s'.success = s.success := by
  let s₁ : State cfg := { s.setSocket 0 { s.socket 0 with
      inFlight := (s.socket 0).inFlight ++ [.data e] } with
    todo := rest
    sent := s.sent ++ [e] }
  let s₂ : State cfg := s₁.setSocket 0 { s₁.socket 0 with
    inFlight := []
    arrived := (s₁.socket 0).arrived ++ [.data e] }
  have hsent : Reachable cfg s₁ := hreach.send htodo hidle (by rw [hsockets]; rfl)
  have hdeliver : step cfg s₁ (.deliver 0) = some s₂ := by
    have hinFlight : (s₁.socket 0).inFlight = [.data e] := by
      simp [s₁, State.setSocket, hsockets, freshSocket]
    simp [step, hinFlight, s₂]
  refine ⟨s₂, hsent.next hdeliver, rfl, rfl, ?_, rfl, rfl⟩
  simp [s₂, s₁, State.setSocket, hsockets, freshSocket]

/-- An idle worker takes the only block that has arrived. -/
theorem exists_taken {s : State cfg} (hreach : Reachable cfg s) {w : Fin cfg.queueDepth}
    {e : Extent} (hidle : (s.receiver w).phase = .idle)
    (hfirst : s.socket 0 = { freshSocket with arrived := [.data e] })
    (hothers : ∀ k, k ≠ 0 → s.socket k = freshSocket) :
    ∃ s', Reachable cfg s' ∧ s'.sender = s.sender ∧ s'.todo = s.todo ∧
      s'.socket = Function.update s.socket 0 freshSocket ∧
      s'.receiver = Function.update s.receiver w
        { s.receiver w with
          phase := .writing e
          taskByteOffset := e.byteOffset
          received := (s.receiver w).received ++ [e] } ∧
      s'.success = s.success := by
  let s₁ : State cfg := (s.setSocket 0 { s.socket 0 with busy := true }).setReceiver w
    { s.receiver w with phase := .claimed 0, taskByteOffset := -1 }
  let s₂ : State cfg := (s₁.setSocket 0 { s₁.socket 0 with arrived := [] }).setReceiver w
    { s₁.receiver w with
      phase := .received 0 e
      received := (s₁.receiver w).received ++ [e] }
  let s₃ : State cfg := (s₂.setSocket 0 { s₂.socket 0 with busy := false }).setReceiver w
    { s₂.receiver w with phase := .writing e, taskByteOffset := e.byteOffset }
  have hclaimed : Reachable cfg s₁ := by
    refine hreach.claim hidle ?_ (by rw [hfirst]; rfl)
    intro i
    by_cases hi : i = 0
    · simp [hi, hfirst, freshSocket]
    · simp [hi, hothers i hi, freshSocket]
  have hrecv : step cfg s₁ (.recv w) = some s₂ := by
    have hphase : (s₁.receiver w).phase = .claimed 0 := by
      simp [s₁, State.setReceiver]
    have harrived : (s₁.socket 0).arrived = [.data e] := by
      simp [s₁, State.setReceiver, State.setSocket, hfirst]
    simp [step, hphase, harrived, s₂]
  have hrelease : step cfg s₂ (.release w) = some s₃ := by
    have hphase : (s₂.receiver w).phase = .received 0 e := by
      simp [s₂, State.setReceiver]
    simp [step, hphase, s₃]
  refine ⟨s₃, (hclaimed.next hrecv).next hrelease, rfl, rfl, ?_, ?_, rfl⟩
  · simp [s₃, s₂, s₁, State.setReceiver, State.setSocket, hfirst, freshSocket]
  · simp [s₃, s₂, s₁, State.setReceiver, State.setSocket]

namespace Overtaken

variable {s : State cfg} {first : Extent} {rest : List Extent} {j : Nat}

/-- The first block goes to a worker that keeps it. -/
theorem start (hplan : cfg.plan = first :: rest) :
    ∃ s : State cfg, Reachable cfg s ∧ Overtaken first rest 0 s := by
  let s₁ : State cfg := { (init cfg).setSender 0 (.holding first) with todo := rest }
  have hissue : step cfg (init cfg) (.issue 0) = some s₁ := by
    simp [step, init, hplan, s₁]
  refine ⟨s₁, Reachable.next .init hissue, ?_, ?_, rfl, ?_, ?_, ?_, ?_, rfl⟩
  · simp [s₁, State.setSender]
  · intro w hw
    simp [s₁, State.setSender, hw, init]
  · intro k
    rfl
  · intro w hw
    exact absurd hw (Nat.not_lt_zero _)
  · intro w _
    rfl
  · intro w
    rfl

/-- One more block overtakes the first one. -/
theorem next (h : Overtaken first rest j s) (hreach : Reachable cfg s)
    {w : Fin cfg.queueDepth} (hw : w.val = j) (second : Fin cfg.queueDepth) (hsecond : second ≠ 0)
    (hj : j < rest.length) : ∃ s', Reachable cfg s' ∧ Overtaken first rest (j + 1) s' := by
  have htodo : s.todo = rest[j] :: rest.drop (j + 1) := by
    rw [h.todo, List.drop_eq_getElem_cons hj]
  obtain ⟨s₁, hreach₁, hsender₁, htodo₁, hsocket₁, hreceiver₁, hsuccess₁⟩ :=
    exists_arrived hreach htodo (h.idle second hsecond) h.sockets
  have hidle : (s₁.receiver w).phase = .idle := by
    rw [hreceiver₁]
    exact h.waiting w hw.ge
  have hfirst : s₁.socket 0 = { freshSocket with arrived := [.data rest[j]] } := by
    rw [hsocket₁, Function.update_self]
  have hothers : ∀ k, k ≠ 0 → s₁.socket k = freshSocket := by
    intro k hk
    rw [hsocket₁, Function.update_of_ne hk]
    exact h.sockets k
  obtain ⟨s₂, hreach₂, hsender₂, htodo₂, hsocket₂, hreceiver₂, hsuccess₂⟩ :=
    exists_taken hreach₁ hidle hfirst hothers
  have hsame : ∀ i, i ≠ w → s₂.receiver i = s.receiver i := by
    intro i hi
    rw [hreceiver₂, Function.update_of_ne hi, hreceiver₁]
  refine ⟨s₂, hreach₂, ?_, ?_, ?_, ?_, ?_, ?_, ?_, ?_⟩
  · rw [hsender₂, hsender₁]
    exact h.held
  · rw [hsender₂, hsender₁]
    exact h.idle
  · rw [htodo₂, htodo₁]
  · intro k
    by_cases hk : k = 0
    · rw [hsocket₂, hk, Function.update_self]
    · rw [hsocket₂, Function.update_of_ne hk]
      exact hothers k hk
  · intro i hi
    by_cases hiw : i = w
    · refine ⟨rest[j], List.getElem_mem hj, ?_⟩
      rw [hiw, hreceiver₂, Function.update_self]
    · rw [hsame i hiw]
      have hval : i.val ≠ w.val := fun hval => hiw (Fin.ext hval)
      exact h.past i (by omega)
  · intro i hi
    rw [hsame i (fun hiw => by rw [hiw] at hi; omega)]
    exact h.waiting i (by omega)
  · intro i
    by_cases hiw : i = w
    · rw [hiw, hreceiver₂, Function.update_self, hreceiver₁]
      exact h.written w
    · rw [hsame i hiw]
      exact h.written i
  · rw [hsuccess₂, hsuccess₁]
    exact h.running

end Overtaken

/-- All workers of the destination go past the first block. -/
theorem exists_overtaken {first : Extent} {rest : List Extent} (hplan : cfg.plan = first :: rest)
    (hdepth : 1 < cfg.queueDepth) (hlength : cfg.queueDepth ≤ rest.length) (j : Nat)
    (hj : j ≤ cfg.queueDepth) : ∃ s : State cfg, Reachable cfg s ∧ Overtaken first rest j s := by
  induction j with
  | zero => exact Overtaken.start hplan
  | succ j ih =>
      obtain ⟨s, hreach, h⟩ := ih (by omega)
      refine h.next hreach (w := ⟨j, by omega⟩) rfl ⟨1, hdepth⟩ ?_ (by omega)
      exact fun heq => absurd (congrArg Fin.val heq) (by simp)

/-- An offset that the monitor wrote before anything else was written. -/
theorem not_writtenTo {s : State cfg} {v : Int} (hv : (cfg.initial : Int) < v)
    (hnone : ∀ w, (s.receiver w).written = []) : ¬ WrittenTo s v := by
  intro h
  obtain ⟨w, e, he, _⟩ := h cfg.initial le_rfl hv
  rw [hnone w] at he
  cases he

theorem not_restartSafe (hplan : Contiguous cfg.initial cfg.plan)
    (hsize : ∀ e ∈ cfg.plan, 0 < e.xferSize) (hdepth : 1 < cfg.queueDepth)
    (hlength : cfg.queueDepth < cfg.plan.length) : ¬ RestartSafe cfg := by
  intro hsafe
  obtain ⟨first, rest, hcons⟩ := List.exists_cons_of_length_pos (Nat.zero_lt_of_lt hlength)
  rw [hcons, List.length_cons] at hlength
  obtain ⟨s, hreach, h⟩ :=
    exists_overtaken hcons hdepth (Nat.le_of_lt_succ hlength) cfg.queueDepth le_rfl
  have hpos := hsize first (hcons ▸ List.mem_cons_self)
  rw [hcons] at hplan
  have hpast : ∀ w, (cfg.initial : Int) + 1 ≤ (s.receiver w).taskByteOffset := by
    intro w
    obtain ⟨e, he, hoffset⟩ := h.past w w.isLt
    have hbeyond := hplan.2.le_byteOffset he
    omega
  have hlow := Restart.le_lowestOffset cfg.queueDepth_pos hpast
  have hmonitor := hreach.next (a := .monitor) (by simp only [step, h.running]; rfl)
  refine not_writtenTo ?_ h.written (hsafe _ hmonitor _ List.mem_concat_self)
  rw [restartOffset, if_pos (by omega)]
  omega

/-- For all numbers of workers and sockets and all plans, every offset that the monitor
writes is safe in every run if and only if there is one worker, or there are no more
blocks than workers. -/
theorem restartSafe_iff (cfg : Config) (hplan : Contiguous cfg.initial cfg.plan)
    (hsize : ∀ e ∈ cfg.plan, 0 < e.xferSize) :
    RestartSafe cfg ↔ cfg.queueDepth = 1 ∨ cfg.plan.length ≤ cfg.queueDepth := by
  constructor
  · intro hsafe
    by_contra hmany
    have hpos := cfg.queueDepth_pos
    exact not_restartSafe hplan hsize (by omega) (by omega) hsafe
  · rintro (hone | hfew)
    · exact restartSafe_of_noneOvertaken fun _ => noneOvertaken_of_queueDepth_eq_one hplan hone
    · exact restartSafe_of_noneOvertaken fun _ => noneOvertaken_of_length_le hplan hfew

/-- One target with two workers, and so with three sockets. -/
def twoWorkers (plan : List Extent) : Config :=
  connection [2] 0 Nat.two_pos plan 0

theorem restartSafe_iff_twoWorkers : RestartSafe (twoWorkers [⟨0, 4⟩, ⟨4, 4⟩]) ∧
    ¬ RestartSafe (twoWorkers [⟨0, 4⟩, ⟨4, 4⟩, ⟨8, 4⟩]) := by
  constructor
  · refine (restartSafe_iff (twoWorkers [⟨0, 4⟩, ⟨4, 4⟩]) ⟨rfl, rfl, trivial⟩ ?_).mpr
      (.inr (by decide))
    simp [twoWorkers, connection]
  · rw [restartSafe_iff (twoWorkers [⟨0, 4⟩, ⟨4, 4⟩, ⟨8, 4⟩]) ⟨rfl, rfl, rfl, trivial⟩
      (by simp [twoWorkers, connection])]
    decide

/-- The first block waits on its socket while the other two go over the second socket, one
to each worker. The monitor then writes offset 4, and nothing has been written. -/
theorem offset_behind_hole : ∃ s : State (twoWorkers [⟨0, 4⟩, ⟨4, 4⟩, ⟨8, 4⟩]),
    Transition.Reach (step (twoWorkers [⟨0, 4⟩, ⟨4, 4⟩, ⟨8, 4⟩])) Transition.anyStep
        (init (twoWorkers [⟨0, 4⟩, ⟨4, 4⟩, ⟨8, 4⟩])) s ∧
      4 ∈ s.restartFile ∧ ¬ WrittenTo s 4 := by
  obtain ⟨s, hreach, hfile, hnone⟩ :
      ∃ s : State (twoWorkers [⟨0, 4⟩, ⟨4, 4⟩, ⟨8, 4⟩]),
        Transition.Reach (step (twoWorkers [⟨0, 4⟩, ⟨4, 4⟩, ⟨8, 4⟩])) Transition.anyStep
          (init (twoWorkers [⟨0, 4⟩, ⟨4, 4⟩, ⟨8, 4⟩])) s ∧
        4 ∈ s.restartFile ∧ ∀ w, (s.receiver w).written = [] :=
    Transition.exists_reach_of_run
      [.issue 0, .claimToSend 0, .issue 1, .claimToSend 1, .send 1, .deliver 1, .assign 0,
        .select 0, .claim 0, .recv 0, .release 0, .issue 1, .claimToSend 1, .send 1, .deliver 1,
        .assign 1, .select 1, .claim 1, .recv 1, .release 1, .send 0, .monitor] (by decide +kernel)
  exact ⟨s, hreach, hfile, not_writtenTo (by decide) hnone⟩

end Xdd.Xni
