import Xdd.Library.Account
import Xdd.Xni.Connection

/-!
# Which messages of an XNI connection are delivered

No socket loses or doubles a message: what was sent has been received or is still on its
way. Whether the destination waits for all of it is another matter. Each socket shows an
end of file of its own and each worker stops at the first one, so as many sockets as
there are workers can stop all of them, and the control block asks for one socket for
each I/O thread of the plan, which is always more.
-/

namespace Xdd.Xni

open Restart (Extent)

variable {cfg : Config}

/-! ## Conservation -/

/-- The block that a packet carries. -/
def Packet.extent : Packet → Option Extent
  | .data e => some e
  | .close => none

/-- The blocks on a socket. -/
def Socket.load (socket : Socket) : Multiset Extent :=
  (socket.inFlight.filterMap Packet.extent : Multiset Extent) +
    (socket.arrived.filterMap Packet.extent : Multiset Extent)

/-- The block that a source worker has in hand. -/
def Sender.load {S : Nat} : Sender S → Multiset Extent
  | .idle => 0
  | .holding e | .sending _ e => {e}

/-- Every block is where it was planned, in the hands of a source worker, on a socket or
received, exactly once. -/
structure Conserved (s : State cfg) : Prop where
  planned : (s.todo : Multiset Extent) + ∑ w, (s.sender w).load + s.sent = cfg.plan
  carried : ∑ k, (s.socket k).load + ∑ w, ((s.receiver w).received : Multiset Extent) = s.sent

namespace Conserved

variable {s s' : State cfg}

theorem init (cfg : Config) : Conserved (init cfg) where
  planned := by simp [Xni.init, Sender.load]
  carried := by simp [Xni.init, Socket.load]

/-- A socket whose blocks stay the same is replaced. -/
theorem sockets_eq {k : Fin cfg.sockets} {socket : Socket} (h : socket.load = (s.socket k).load) :
    ∑ i, ((s.setSocket k socket).socket i).load = ∑ i, (s.socket i).load :=
  Account.sum_update_same s.socket k socket Socket.load h

/-- A worker that has received nothing new is replaced. -/
theorem receivers_eq {w : Fin cfg.queueDepth} {r : Receiver cfg.sockets}
    (h : r.received = (s.receiver w).received) :
    ∑ i, (((s.setReceiver w r).receiver i).received : Multiset Extent) =
      ∑ i, ((s.receiver i).received : Multiset Extent) :=
  Account.sum_update_same s.receiver w r (fun r => (r.received : Multiset Extent)) (by rw [h])

/-- A worker is replaced, and a socket on which nothing comes or goes. -/
theorem keep (h : Conserved s) {k : Fin cfg.sockets} {socket : Socket} {w : Fin cfg.queueDepth}
    {r : Receiver cfg.sockets} (hsocket : socket.load = (s.socket k).load)
    (hreceived : r.received = (s.receiver w).received) :
    Conserved ((s.setSocket k socket).setReceiver w r) :=
  ⟨h.planned, (congrArg₂ (· + ·) (sockets_eq hsocket) (receivers_eq hreceived)).trans h.carried⟩

/-- A worker is replaced. -/
theorem keepReceiver (h : Conserved s) {w : Fin cfg.queueDepth} {r : Receiver cfg.sockets}
    (hreceived : r.received = (s.receiver w).received) : Conserved (s.setReceiver w r) :=
  ⟨h.planned, (congrArg (_ + ·) (receivers_eq hreceived)).trans h.carried⟩

theorem issue (h : Conserved s) {w : Fin cfg.queueDepth} {e : Extent} {rest : List Extent}
    (htodo : s.todo = e :: rest) (hidle : s.sender w = .idle) :
    Conserved { s.setSender w (.holding e) with todo := rest } := by
  refine ⟨?_, h.carried⟩
  have hsum := Account.sum_update s.sender w (.holding e) Sender.load {e}
    (by simp [hidle, Sender.load])
  have hplanned := h.planned
  rw [htodo, ← Multiset.cons_coe, ← Multiset.singleton_add] at hplanned
  calc (rest : Multiset Extent) + ∑ i, (Function.update s.sender w (.holding e) i).load + s.sent
      = rest + (∑ i, (s.sender i).load + {e}) + s.sent := by rw [hsum]
    _ = {e} + rest + ∑ i, (s.sender i).load + s.sent := by abel
    _ = cfg.plan := hplanned

theorem claimToSend (h : Conserved s) {w : Fin cfg.queueDepth} {e : Extent} {k : Fin cfg.sockets}
    (hholding : s.sender w = .holding e) :
    Conserved ((s.setSocket k { s.socket k with sending := true }).setSender w (.sending k e)) := by
  have hsum := Account.sum_update_same s.sender w (.sending k e) Sender.load
    (by simp [hholding, Sender.load])
  have hsockets : ∑ i, ((s.setSocket k { s.socket k with sending := true }).socket i).load =
      ∑ i, (s.socket i).load := sockets_eq rfl
  refine ⟨?_, (congrArg (· + _) hsockets).trans h.carried⟩
  calc (s.todo : Multiset Extent) + ∑ i, (Function.update s.sender w (.sending k e) i).load + s.sent
      = s.todo + ∑ i, (s.sender i).load + s.sent := by rw [hsum]
    _ = cfg.plan := h.planned

/-- A block goes from the hands of a source worker to a socket. -/
theorem send (h : Conserved s) {w : Fin cfg.queueDepth} {k : Fin cfg.sockets} {e : Extent}
    (hsending : s.sender w = .sending k e) :
    Conserved { (s.setSocket k { s.socket k with
        sending := false
        inFlight := (s.socket k).inFlight ++ [.data e] }).setSender w .idle with
      sent := s.sent ++ [e] } := by
  have hsender : ∑ i, (s.sender i).load =
      ∑ i, (Function.update s.sender w .idle i).load + {e} := by
    have hback := Account.sum_update (Function.update s.sender w .idle) w (.sending k e)
      Sender.load {e} (by simp [Sender.load])
    rwa [Function.update_idem, ← hsending, Function.update_eq_self] at hback
  have hsocket := Account.sum_update s.socket k { s.socket k with
      sending := false
      inFlight := (s.socket k).inFlight ++ [.data e] } Socket.load {e} (by
    simp only [Socket.load, List.filterMap_append, ← Multiset.coe_add]
    simp only [List.filterMap_cons, Packet.extent, List.filterMap_nil, Multiset.coe_singleton]
    abel)
  have hsent : ((s.sent ++ [e] : List Extent) : Multiset Extent) = s.sent + {e} := by
    rw [← Multiset.coe_add, Multiset.coe_singleton]
  refine ⟨?_, ?_⟩
  · have hplanned := h.planned
    rw [hsender] at hplanned
    calc (s.todo : Multiset Extent) + ∑ i, (Function.update s.sender w .idle i).load +
          ((s.sent ++ [e] : List Extent) : Multiset Extent)
        = s.todo + (∑ i, (Function.update s.sender w .idle i).load + {e}) + s.sent := by
          rw [hsent]
          abel
      _ = cfg.plan := hplanned
  · have hcarried := h.carried
    calc ∑ i, (Function.update s.socket k _ i).load +
          ∑ i, ((s.receiver i).received : Multiset Extent)
        = ∑ i, (s.socket i).load + {e} + ∑ i, ((s.receiver i).received : Multiset Extent) := by
          rw [hsocket]
      _ = (∑ i, (s.socket i).load + ∑ i, ((s.receiver i).received : Multiset Extent)) + {e} := by
          abel
      _ = ((s.sent ++ [e] : List Extent) : Multiset Extent) := by rw [hcarried, hsent]

/-- A block goes from a socket to a worker of the destination. -/
theorem recv (h : Conserved s) {w : Fin cfg.queueDepth} {k : Fin cfg.sockets} {e : Extent}
    {rest : List Packet} {r : Receiver cfg.sockets}
    (harrived : (s.socket k).arrived = .data e :: rest)
    (hreceived : r.received = (s.receiver w).received ++ [e]) :
    Conserved ((s.setSocket k { s.socket k with arrived := rest }).setReceiver w r) := by
  have hsocket : ∑ i, (s.socket i).load =
      ∑ i, (Function.update s.socket k { s.socket k with arrived := rest } i).load + {e} := by
    have hback := Account.sum_update
      (Function.update s.socket k { s.socket k with arrived := rest }) k (s.socket k)
      Socket.load {e} (by
        simp only [Function.update_self, Socket.load, harrived, List.filterMap_cons,
          Packet.extent, ← Multiset.cons_coe, ← Multiset.singleton_add]
        abel)
    rwa [Function.update_idem, Function.update_eq_self] at hback
  have hreceiver := Account.sum_update s.receiver w r
    (fun r => (r.received : Multiset Extent)) {e}
    (by simp only [hreceived, ← Multiset.coe_add, Multiset.coe_singleton])
  refine ⟨h.planned, ?_⟩
  calc ∑ i, (Function.update s.socket k { s.socket k with arrived := rest } i).load +
        ∑ i, ((Function.update s.receiver w r i).received : Multiset Extent)
      = (∑ i, (Function.update s.socket k { s.socket k with arrived := rest } i).load + {e}) +
          ∑ i, ((s.receiver i).received : Multiset Extent) := by
        rw [hreceiver]
        abel
    _ = ∑ i, (s.socket i).load + ∑ i, ((s.receiver i).received : Multiset Extent) := by
        rw [hsocket]
    _ = s.sent := h.carried

theorem step (h : Conserved s) {a : Action cfg} (hs : Step cfg s a s') : Conserved s' := by
  cases hs with
  | issue htodo hidle => exact h.issue htodo hidle
  | claimToSend hholding _ => exact h.claimToSend hholding
  | send hsending => exact h.send hsending
  | close =>
      refine ⟨h.planned, Eq.trans ?_ h.carried⟩
      refine congrArg (· + _) (Finset.sum_congr rfl fun k _ => ?_)
      simp [Socket.load, List.filterMap_cons, Packet.extent]
  | @deliver k p rest hinFlight =>
      refine ⟨h.planned, (congrArg (· + _) (sockets_eq ?_)).trans h.carried⟩
      simp only [Socket.load, hinFlight, List.filterMap_append, ← Multiset.coe_add]
      rw [List.filterMap_cons, List.filterMap_cons]
      cases p.extent with
      | none => simp
      | some e =>
          simp only [List.filterMap_nil, ← Multiset.cons_coe, ← Multiset.singleton_add]
          abel
  | assign => exact h.keepReceiver rfl
  | allEof => exact h.keepReceiver rfl
  | select => exact h.keepReceiver rfl
  | claim => exact h.keep rfl rfl
  | retry => exact h.keepReceiver rfl
  | recv _ harrived => exact h.recv harrived rfl
  | recvEof => exact h.keepReceiver rfl
  | release => exact h.keep rfl rfl
  | stop => exact h.keep rfl rfl
  | write => exact h.keepReceiver rfl
  | complete => exact ⟨h.planned, h.carried⟩
  | monitor => exact ⟨h.planned, h.carried⟩

theorem of_reach {ok : State cfg → Action cfg → Prop}
    (hreach : Transition.Reach (Xni.step cfg) ok (Xni.init cfg) s) : Conserved s :=
  hreach.invariant (Conserved.init cfg) fun _ _ _ h _ hstep => h.step (.of_eq_some hstep)

end Conserved

/-! ## Stopping before everything is delivered -/

/-- Whenever all workers of the destination have been told the end of file, every message
that was sent has been received, and by one worker only. -/
def DeliversAll (cfg : Config) : Prop :=
  ∀ s, Transition.Reach (step cfg) Transition.anyStep (init cfg) s →
    (∀ w, (s.receiver w).phase = .stopped) →
    ∑ w, ((s.receiver w).received : Multiset Extent) = s.sent

/-- A socket that nothing has happened on. -/
def freshSocket : Socket :=
  { sending := false, inFlight := [], arrived := [], busy := false, eof := false }

/-- One source worker has sent everything so far on the first socket. -/
structure Piled (cfg : Config) (rest : List Extent) (s : State cfg) : Prop where
  todo : s.todo = rest
  sent : s.sent ++ rest = cfg.plan
  closed : s.closed = false
  senders : ∀ w, s.sender w = .idle
  first : s.socket 0 = { freshSocket with inFlight := s.sent.map .data }
  others : ∀ k, k ≠ 0 → s.socket k = freshSocket
  receivers : ∀ w, (s.receiver w).phase = .idle ∧ (s.receiver w).received = []

/-- The sockets are closed. The close of sockets `1` to `j` has arrived and has stopped
as many workers; everything that was sent is still on its way. -/
structure Stalled (cfg : Config) (j : Nat) (s : State cfg) : Prop where
  sent : s.sent = cfg.plan
  first : s.socket 0 = { freshSocket with inFlight := s.sent.map .data ++ [.close] }
  ended : ∀ k : Fin cfg.sockets, k ≠ 0 → k.val ≤ j → (s.socket k).eof = true
  pending : ∀ k : Fin cfg.sockets, j < k.val →
    s.socket k = { freshSocket with inFlight := [.close] }
  stopped : ∀ w : Fin cfg.queueDepth, w.val < j → (s.receiver w).phase = .stopped
  idle : ∀ w : Fin cfg.queueDepth, j ≤ w.val → (s.receiver w).phase = .idle
  received : ∀ w, (s.receiver w).received = []

/-- Reachability without a condition on the steps. -/
def Reachable (cfg : Config) (s : State cfg) : Prop :=
  Transition.Reach (step cfg) Transition.anyStep (init cfg) s

theorem Reachable.next {s s' : State cfg} (h : Reachable cfg s) {a : Action cfg}
    (hs : step cfg s a = some s') : Reachable cfg s' :=
  Transition.Reach.step h trivial hs

/-- The first member of a list of indices that passes a test is the first index, if that
one passes it. -/
theorem find?_finRange_zero {n : Nat} [NeZero n] {p : Fin n → Bool} (h : p 0 = true) :
    (List.finRange n).find? p = some 0 := by
  cases n with
  | zero => exact absurd rfl (NeZero.ne 0)
  | succ n => simp [List.finRange_succ, h]

/-- A source worker sends its next block on the first socket. -/
theorem Reachable.send {s : State cfg} (h : Reachable cfg s) {w : Fin cfg.queueDepth} {e : Extent}
    {rest : List Extent} (htodo : s.todo = e :: rest) (hidle : s.sender w = .idle)
    (hfree : (s.socket 0).sending = false) :
    Reachable cfg { s.setSocket 0 { s.socket 0 with
        inFlight := (s.socket 0).inFlight ++ [.data e] } with
      todo := rest
      sent := s.sent ++ [e] } := by
  let s₁ : State cfg := { s.setSender w (.holding e) with todo := rest }
  let s₂ : State cfg :=
    (s₁.setSocket 0 { s₁.socket 0 with sending := true }).setSender w (.sending 0 e)
  have hissue : step cfg s (.issue w) = some s₁ := by
    simp [step, htodo, hidle, s₁]
  have hclaim : step cfg s₁ (.claimToSend w) = some s₂ := by
    have hsender : s₁.sender w = .holding e := by simp [s₁, State.setSender]
    have hfirst : s₁.freeSocket = some 0 := by
      apply find?_finRange_zero
      simp [s₁, State.setSender, hfree]
    simp [step, hsender, hfirst, s₂]
  have hsend := ((h.next hissue).next hclaim).next (a := .send w) (by
    have hsender : s₂.sender w = .sending 0 e := by simp [s₂, State.setSender]
    simp only [step, hsender]
    rfl)
  -- the worker is idle again
  simpa [s₂, s₁, State.setSender, State.setSocket, ← hidle, ← hfree] using hsend

/-- One more message goes to the first socket. -/
theorem Piled.next {s : State cfg} {e : Extent} {rest : List Extent}
    (h : Piled cfg (e :: rest) s) (hreach : Reachable cfg s) :
    ∃ s', Reachable cfg s' ∧ Piled cfg rest s' := by
  have hfree : (s.socket 0).sending = false := by rw [h.first]; rfl
  refine ⟨_, hreach.send h.todo (h.senders 0) hfree, rfl, ?_, h.closed, h.senders, ?_, ?_,
    h.receivers⟩
  · simpa using h.sent
  · simp [State.setSocket, h.first, freshSocket]
  · intro k hk
    simpa [State.setSocket, hk] using h.others k hk

/-- Everything is sent on the first socket. -/
theorem Piled.all {rest : List Extent} {s : State cfg} (h : Piled cfg rest s)
    (hreach : Reachable cfg s) : ∃ s', Reachable cfg s' ∧ Piled cfg [] s' := by
  induction rest generalizing s with
  | nil => exact ⟨s, hreach, h⟩
  | cons e rest ih =>
      obtain ⟨s', hreach', h'⟩ := h.next hreach
      exact ih h' hreach'

/-- The source closes its sockets. -/
theorem Piled.close {s : State cfg} (h : Piled cfg [] s) (hreach : Reachable cfg s) :
    ∃ s', Reachable cfg s' ∧ Stalled cfg 0 s' := by
  have hsent : s.sent = cfg.plan := by simpa using h.sent
  refine ⟨_, hreach.next (a := .close) (if_pos ⟨h.closed, h.todo, h.senders⟩), hsent, ?_, ?_, ?_,
    ?_, ?_, ?_⟩
  · simp [h.first, freshSocket]
  · intro k hk hle
    exact absurd (Fin.ext (Nat.le_zero.mp hle)) hk
  · intro k hk
    have hne : k ≠ 0 := fun h0 => by simp [h0] at hk
    simp [h.others k hne, freshSocket]
  · intro w hw
    exact absurd hw (Nat.not_lt_zero _)
  · intro w _
    exact (h.receivers w).1
  · intro w
    exact (h.receivers w).2

/-- A worker for which one socket is ready claims that one. -/
theorem claimable_eq {s : State cfg} {ready : List (Fin cfg.sockets)} {k : Fin cfg.sockets}
    (hk : k ∈ ready) (honly : ∀ i ∈ ready, i = k) (hbusy : (s.socket k).busy = false)
    (heof : (s.socket k).eof = false) : s.claimable ready = some k := by
  unfold State.claimable
  cases hfind : ready.find? fun k => !(s.socket k).busy && !(s.socket k).eof with
  | none =>
      have hnone := List.find?_eq_none.mp hfind k hk
      simp [hbusy, heof] at hnone
  | some i => rw [honly i (List.mem_of_find?_eq_some hfind)]

theorem mem_readySockets {s : State cfg} {k : Fin cfg.sockets} :
    k ∈ s.readySockets ↔ (s.socket k).eof = false ∧ (s.socket k).arrived ≠ [] := by
  simp [State.readySockets]

/-- An idle worker is given a receive task and claims the only socket that is ready. -/
theorem Reachable.claim {s : State cfg} (h : Reachable cfg s) {w : Fin cfg.queueDepth}
    {k : Fin cfg.sockets} (hidle : (s.receiver w).phase = .idle)
    (hready : ∀ i, (s.socket i).eof = false ∧ (s.socket i).arrived ≠ [] ↔ i = k)
    (hbusy : (s.socket k).busy = false) :
    Reachable cfg ((s.setSocket k { s.socket k with busy := true }).setReceiver w
      { s.receiver w with phase := .claimed k, taskByteOffset := -1 }) := by
  let s₁ : State cfg :=
    s.setReceiver w { s.receiver w with phase := .selecting, taskByteOffset := -1 }
  let s₂ : State cfg := s₁.setPhase w (.selected s₁.readySockets)
  have hopen : (s.socket k).eof = false := ((hready k).mpr rfl).1
  have hmem : ∀ i, i ∈ s₁.readySockets ↔ i = k := by
    intro i
    rw [mem_readySockets]
    exact hready i
  have hassign : step cfg s (.assign w) = some s₁ := by
    simp [step, hidle, s₁]
  have hselect : step cfg s₁ (.select w) = some s₂ := by
    have hphase : (s₁.receiver w).phase = .selecting := by simp [s₁, State.setReceiver]
    have hnotAll : ¬ ∀ i, (s₁.socket i).eof = true := by
      intro hall
      have hk : (s.socket k).eof = true := hall k
      rw [hopen] at hk
      cases hk
    have hnonempty : s₁.readySockets ≠ [] := List.ne_nil_of_mem ((hmem k).mpr rfl)
    simp [step, hphase, hnotAll, hnonempty, s₂]
  have hclaim := ((h.next hassign).next hselect).next (a := .claim w) (by
    have hphase : (s₂.receiver w).phase = .selected s₁.readySockets := by
      simp [s₂, State.setPhase, State.setReceiver]
    have hfirst : s₂.claimable s₁.readySockets = some k :=
      claimable_eq ((hmem k).mpr rfl) (fun i hi => (hmem i).mp hi) hbusy hopen
    simp only [step, hphase, hfirst]
    rfl)
  simpa [s₂, s₁, State.setPhase, State.setReceiver, State.setSocket] using hclaim

/-- The close of the next socket arrives and stops the next worker. -/
theorem Stalled.next {j : Nat} {s : State cfg} (h : Stalled cfg j s) (hreach : Reachable cfg s)
    {w : Fin cfg.queueDepth} (hw : w.val = j) {k : Fin cfg.sockets} (hk : k.val = j + 1) :
    ∃ s', Reachable cfg s' ∧ Stalled cfg (j + 1) s' := by
  have hne : (0 : Fin cfg.sockets) ≠ k := fun h0 => by simp [← h0] at hk
  have hsocket := h.pending k (by omega)
  let s₁ : State cfg := s.setSocket k { s.socket k with inFlight := [], arrived := [.close] }
  let s₂ : State cfg := (s₁.setSocket k { s₁.socket k with busy := true }).setReceiver w
    { s₁.receiver w with phase := .claimed k, taskByteOffset := -1 }
  let s₃ : State cfg := s₂.setPhase w (.sawEof k)
  let s₄ : State cfg :=
    (s₃.setSocket k { s₃.socket k with busy := false, eof := true }).setPhase w .stopped
  have hdeliver : step cfg s (.deliver k) = some s₁ := by
    simp [step, hsocket, freshSocket, s₁]
  have hready : ∀ i, (s₁.socket i).eof = false ∧ (s₁.socket i).arrived ≠ [] ↔ i = k := by
    intro i
    by_cases hi : i = k
    · simp [s₁, State.setSocket, hi, hsocket, freshSocket]
    · have hsame : s₁.socket i = s.socket i := by simp [s₁, State.setSocket, hi]
      rw [hsame]
      refine iff_of_false ?_ hi
      rintro ⟨heof, harrived⟩
      by_cases hzero : i = 0
      · simp [hzero, h.first, freshSocket] at harrived
      · by_cases hle : i.val ≤ j
        · simp [h.ended i hzero hle] at heof
        · simp [h.pending i (by omega), freshSocket] at harrived
  have hclaimed : Reachable cfg s₂ := by
    refine (hreach.next hdeliver).claim (h.idle w hw.ge) hready ?_
    simp [s₁, State.setSocket, hsocket, freshSocket]
  have hrecv : step cfg s₂ (.recv w) = some s₃ := by
    have hphase : (s₂.receiver w).phase = .claimed k := by
      simp [s₂, State.setReceiver]
    have harrived : (s₂.socket k).arrived = [.close] := by
      simp [s₂, s₁, State.setReceiver, State.setSocket]
    simp [step, hphase, harrived, s₃]
  have hstop : step cfg s₃ (.release w) = some s₄ := by
    have hphase : (s₃.receiver w).phase = .sawEof k := by
      simp [s₃, State.setPhase, State.setReceiver]
    simp [step, hphase, s₄]
  have hother : ∀ i, i ≠ k → s₄.socket i = s.socket i := by
    intro i hi
    simp [s₄, s₃, s₂, s₁, State.setPhase, State.setReceiver, State.setSocket, hi]
  have hsame : ∀ v, v ≠ w → s₄.receiver v = s.receiver v := by
    intro v hv
    simp [s₄, s₃, s₂, s₁, State.setPhase, State.setReceiver, State.setSocket, hv]
  refine ⟨s₄, (hclaimed.next hrecv).next hstop, h.sent, (hother 0 hne).trans h.first, ?_, ?_, ?_,
    ?_, ?_⟩
  · intro i hi hle
    by_cases hik : i = k
    · subst hik
      simp [s₄, State.setPhase, State.setReceiver, State.setSocket]
    · rw [hother i hik]
      have hval : i.val ≠ k.val := fun hval => hik (Fin.ext hval)
      exact h.ended i hi (by omega)
  · intro i hi
    rw [hother i (fun hik => by rw [hik] at hi; omega)]
    exact h.pending i (by omega)
  · intro v hv
    by_cases hvw : v = w
    · subst hvw
      simp [s₄, State.setPhase, State.setReceiver]
    · have hval : v.val ≠ w.val := fun hval => hvw (Fin.ext hval)
      rw [hsame v hvw]
      exact h.stopped v (by omega)
  · intro v hv
    rw [hsame v (fun hvw => by rw [hvw] at hv; omega)]
    exact h.idle v (by omega)
  · intro v
    by_cases hvw : v = w
    · subst hvw
      simpa [s₄, s₃, s₂, s₁, State.setPhase, State.setReceiver, State.setSocket] using h.received v
    · rw [hsame v hvw]
      exact h.received v

/-- The closes of as many sockets as there are workers stop all of them. -/
theorem exists_stalled (hsockets : cfg.queueDepth < cfg.sockets) (j : Nat)
    (hj : j ≤ cfg.queueDepth) : ∃ s, Reachable cfg s ∧ Stalled cfg j s := by
  induction j with
  | zero =>
      have hinit : Piled cfg cfg.plan (init cfg) :=
        ⟨rfl, rfl, rfl, fun _ => rfl, rfl, fun _ _ => rfl, fun _ => ⟨rfl, rfl⟩⟩
      obtain ⟨s, hreach, hpiled⟩ := hinit.all .init
      exact hpiled.close hreach
  | succ j ih =>
      obtain ⟨s, hreach, hstalled⟩ := ih (by omega)
      exact hstalled.next hreach (w := ⟨j, by omega⟩) rfl (k := ⟨j + 1, by omega⟩) rfl

/-- With more sockets than workers, a connection over which anything is sent can lose it. -/
theorem not_deliversAll (hsockets : cfg.queueDepth < cfg.sockets) (hplan : cfg.plan ≠ []) :
    ¬ DeliversAll cfg := by
  intro hall
  obtain ⟨s, hreach, hstalled⟩ := exists_stalled hsockets cfg.queueDepth le_rfl
  have hdelivered := hall s hreach fun w => hstalled.stopped w w.isLt
  simp only [hstalled.received, Multiset.coe_nil, Finset.sum_const_zero, hstalled.sent]
    at hdelivered
  exact hplan (Multiset.coe_eq_zero _ |>.mp hdelivered.symm)

theorem deliversAll_of_nil (hplan : cfg.plan = []) : DeliversAll cfg := by
  intro s hreach _
  have h := Conserved.of_reach hreach
  have hsent : (s.sent : Multiset Extent) = 0 := by
    have hplanned := h.planned
    rw [hplan, Multiset.coe_nil] at hplanned
    exact (add_eq_zero.mp hplanned).2
  have hcarried := h.carried
  rw [hsent] at hcarried
  rw [hsent]
  exact (add_eq_zero.mp hcarried).2

/-! ## The number of sockets -/

/-- `number_of_iothreads` as `xdd_build_target_data_substructure` counts it: each target
and each of its workers. -/
def numberOfIothreads (queueDepths : List Nat) : Nat :=
  queueDepths.foldl (fun threads queueDepth => threads + 1 + queueDepth) 0

theorem numberOfIothreads_eq (queueDepths : List Nat) :
    numberOfIothreads queueDepths = queueDepths.length + queueDepths.sum := by
  have hfold : ∀ threads, queueDepths.foldl (fun threads queueDepth => threads + 1 + queueDepth)
      threads = threads + (queueDepths.length + queueDepths.sum) := by
    induction queueDepths with
    | nil => simp
    | cons q rest ih =>
        intro threads
        rw [List.foldl_cons, ih, List.length_cons, List.sum_cons]
        omega
  rw [numberOfIothreads, hfold, Nat.zero_add]

/-- Every target has fewer workers than that. -/
theorem queueDepth_lt_numberOfIothreads (queueDepths : List Nat) (t : Fin queueDepths.length) :
    queueDepths.get t < numberOfIothreads queueDepths := by
  have hle := List.le_sum_of_mem (List.get_mem queueDepths t)
  have hpos := Fin.pos t
  rw [numberOfIothreads_eq]
  omega

/-- The connection of target `t` of a plan, with the number of sockets that
`xint_e2e_xni_init` puts into the control block. -/
def connection (queueDepths : List Nat) (t : Fin queueDepths.length)
    (hdepth : 0 < queueDepths.get t) (plan : List Extent) (initial : Nat) : Config where
  sockets := numberOfIothreads queueDepths
  sockets_pos := hdepth.trans (queueDepth_lt_numberOfIothreads queueDepths t)
  queueDepth := queueDepths.get t
  queueDepth_pos := hdepth
  plan := plan
  initial := initial

/-- For all numbers of targets and queue depths, a connection delivers everything before
the destination finishes, in every run, if and only if nothing is sent on it. -/
theorem connection_deliversAll_iff (queueDepths : List Nat) (t : Fin queueDepths.length)
    (hdepth : 0 < queueDepths.get t) (plan : List Extent) (initial : Nat) :
    DeliversAll (connection queueDepths t hdepth plan initial) ↔ plan = [] := by
  constructor
  · intro hall
    by_contra hplan
    exact not_deliversAll (queueDepth_lt_numberOfIothreads queueDepths t) hplan hall
  · intro hplan
    exact deliversAll_of_nil hplan

theorem connection_deliversAll_iff_twoTargets :
    DeliversAll (connection [2, 1] 0 Nat.two_pos [] 0) ∧
      ¬ DeliversAll (connection [2, 1] 0 Nat.two_pos [⟨0, 4⟩] 0) := by
  refine ⟨(connection_deliversAll_iff ..).mpr rfl, ?_⟩
  rw [connection_deliversAll_iff]
  exact List.cons_ne_nil _ _

/-- One target with one worker has a connection of two sockets. The close of the second
one stops the worker while the only message waits on the first one. -/
theorem message_lost : ∃ s : State (connection [1] 0 Nat.one_pos [⟨0, 4⟩] 0),
    Transition.Reach (step (connection [1] 0 Nat.one_pos [⟨0, 4⟩] 0)) Transition.anyStep
        (init (connection [1] 0 Nat.one_pos [⟨0, 4⟩] 0)) s ∧
      (∀ w, (s.receiver w).phase = .stopped) ∧ s.sent = [⟨0, 4⟩] ∧
      ∀ w, (s.receiver w).received = [] :=
  Transition.exists_reach_of_run
    [.issue 0, .claimToSend 0, .send 0, .close, .deliver 1, .assign 0, .select 0, .claim 0,
      .recv 0, .release 0] (by decide +kernel)

end Xdd.Xni
