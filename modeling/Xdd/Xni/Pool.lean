import Xdd.Library.Ownership
import Xdd.Library.Transition

/-!
# The buffers and sockets of XNI

The workers of a target share the registered buffers of a context and the sockets of a
connection. Both are pools with busy flags: a call searches for the first element whose flag is
not set, and blocks if there is none. A worker keeps a pointer to its buffer from one call to
the next, in `xni_wd_buf`. If a call of `send` fails, `tcp_send_target_buffer` returns at once
and gives nothing back.
-/

namespace Xdd.Xni.Pool

open Ownership

/-- Where a worker is. -/
inductive Phase (S : Nat) where
  | start
  /-- `tcp_request_target_buffer` -/
  | requesting
  /-- between two calls -/
  | idle
  /-- `tcp_send_target_buffer`, without a socket -/
  | sending
  | sendingOn (k : Fin S)
  /-- the message is sent and the socket is free -/
  | sent
  /-- `tcp_receive_target_buffer`, without a buffer -/
  | receiving
  /-- with the buffer `tb`, which is a local variable -/
  | selecting (tb : Nat)
  | receivingOn (tb : Nat) (k : Fin S)
  /-- `buffer_out`, with a code other than `XNI_OK` -/
  | failing (tb : Nat)
  /-- the last call has returned `XNI_EOF` or `XNI_ERR` -/
  | stopped
deriving DecidableEq, Repr

structure Worker (S : Nat) where
  phase : Phase S
  /-- `xni_wd_buf` -/
  wdBuf : Option Nat
deriving DecidableEq, Repr

namespace Worker

variable {S : Nat}

/-- The buffer that a worker has: within a receive call it is the one of that call. -/
def held (w : Worker S) : Option Nat :=
  match w.phase with
  | .selecting tb => some tb
  | .receivingOn tb _ => some tb
  | .failing tb => some tb
  | _ => w.wdBuf

/-- The socket that a call of a worker is using. -/
def socket (w : Worker S) : Option (Fin S) :=
  match w.phase with
  | .sendingOn k => some k
  | .receivingOn _ k => some k
  | _ => none

end Worker

structure Config where
  workers : Nat
  /-- `num_sockets`, which also bounds the number of registered buffers -/
  sockets : Nat

structure State (cfg : Config) where
  numRegistered : Nat
  bufferBusy : Nat → Bool
  socketBusy : Fin cfg.sockets → Bool
  socketEof : Fin cfg.sockets → Bool
  worker : Fin cfg.workers → Worker cfg.sockets

def init (cfg : Config) : State cfg where
  numRegistered := 0
  bufferBusy := fun _ => false
  socketBusy := fun _ => false
  socketEof := fun _ => false
  worker := fun _ => { phase := .start, wdBuf := none }

inductive Action (cfg : Config) where
  /-- `xni_register_buffer` in `xdd_worker_thread_init` -/
  | register (w : Fin cfg.workers)
  /-- a call of `tcp_request_target_buffer` finds a buffer -/
  | request (w : Fin cfg.workers)
  /-- `xint_e2e_xni_send` with this `data_length` -/
  | send (w : Fin cfg.workers) (dataLength : Int)
  | claimToSend (w : Fin cfg.workers)
  /-- the whole message is sent -/
  | sendDone (w : Fin cfg.workers)
  /-- a call of `send` fails, and not with `EINTR` -/
  | sendFails (w : Fin cfg.workers)
  | freeBuffer (w : Fin cfg.workers)
  /-- `xint_e2e_xni_recv` -/
  | recv (w : Fin cfg.workers)
  | grab (w : Fin cfg.workers)
  /-- `select` has returned these sockets -/
  | claim (w : Fin cfg.workers) (ready : Fin cfg.sockets → Bool)
  /-- there is no socket left, or `select` fails -/
  | giveUp (w : Fin cfg.workers)
  | recvDone (w : Fin cfg.workers)
  /-- a call of `recv` fails or shows the end of the stream -/
  | recvFails (w : Fin cfg.workers) (eof : Bool)
  | dropBuffer (w : Fin cfg.workers)

variable {cfg : Config}

namespace State

def setWorker (s : State cfg) (w : Fin cfg.workers) (worker : Worker cfg.sockets) : State cfg :=
  { s with worker := Function.update s.worker w worker }

def setBuffer (s : State cfg) (b : Nat) (busy : Bool) : State cfg :=
  { s with bufferBusy := Function.update s.bufferBusy b busy }

def setSocket (s : State cfg) (k : Fin cfg.sockets) (busy : Bool) : State cfg :=
  { s with socketBusy := Function.update s.socketBusy k busy }

/-- The search for a buffer. -/
def freeBuffer (s : State cfg) : Option Nat :=
  (List.range s.numRegistered).find? fun b => !s.bufferBusy b

/-- The search for a socket among those that a condition holds for. -/
def freeSocket (s : State cfg) (p : Fin cfg.sockets → Bool) : Option (Fin cfg.sockets) :=
  (List.finRange cfg.sockets).find? fun k => !s.socketBusy k && p k

/-- `tcp_register_buffer`; the result is not looked at -/
def tcpRegisterBuffer (s : State cfg) : State cfg :=
  if cfg.sockets ≤ s.numRegistered then s
  else { s.setBuffer s.numRegistered false with numRegistered := s.numRegistered + 1 }

/-- One step; a call that finds nothing free blocks. -/
def step (s : State cfg) : Action cfg → Option (State cfg)
  | .register w =>
    match (s.worker w).phase with
    | .start => some (s.tcpRegisterBuffer.setWorker w { s.worker w with phase := .requesting })
    | _ => none
  | .request w =>
    match (s.worker w).phase, s.freeBuffer with
    | .requesting, some b =>
      some ((s.setBuffer b true).setWorker w { phase := .idle, wdBuf := some b })
    | _, _ => none
  | .send w dataLength =>
    match (s.worker w).phase, (s.worker w).wdBuf with
    | .idle, some _ =>
      -- a message without data is refused before anything else, and the status is not looked at
      let phase := if dataLength < 1 then .requesting else .sending
      some (s.setWorker w { s.worker w with phase := phase })
    | _, _ => none
  | .claimToSend w =>
    match (s.worker w).phase, s.freeSocket fun _ => true with
    | .sending, some k =>
      some ((s.setSocket k true).setWorker w { s.worker w with phase := .sendingOn k })
    | _, _ => none
  | .sendDone w =>
    match (s.worker w).phase with
    | .sendingOn k => some ((s.setSocket k false).setWorker w { s.worker w with phase := .sent })
    | _ => none
  | .sendFails w =>
    match (s.worker w).phase with
    | .sendingOn _ => some (s.setWorker w { s.worker w with phase := .requesting })
    | _ => none
  | .freeBuffer w =>
    match (s.worker w).phase, (s.worker w).wdBuf with
    | .sent, some b =>
      some ((s.setBuffer b false).setWorker w { phase := .requesting, wdBuf := none })
    | _, _ => none
  | .recv w =>
    match (s.worker w).phase, (s.worker w).wdBuf with
    | .idle, some b =>
      some ((s.setBuffer b false).setWorker w { phase := .receiving, wdBuf := none })
    | _, _ => none
  | .grab w =>
    match (s.worker w).phase, s.freeBuffer with
    | .receiving, some b =>
      some ((s.setBuffer b true).setWorker w { s.worker w with phase := .selecting b })
    | _, _ => none
  | .claim w ready =>
    match (s.worker w).phase, s.freeSocket fun k => ready k && !s.socketEof k with
    | .selecting tb, some k =>
      some ((s.setSocket k true).setWorker w { s.worker w with phase := .receivingOn tb k })
    | _, _ => none
  | .giveUp w =>
    match (s.worker w).phase with
    | .selecting tb => some (s.setWorker w { s.worker w with phase := .failing tb })
    | _ => none
  | .recvDone w =>
    match (s.worker w).phase with
    | .receivingOn tb k =>
      some ((s.setSocket k false).setWorker w { phase := .idle, wdBuf := some tb })
    | _ => none
  | .recvFails w eof =>
    match (s.worker w).phase with
    | .receivingOn tb k =>
      let s' := (s.setSocket k false).setWorker w { s.worker w with phase := .failing tb }
      some { s' with socketEof := Function.update s.socketEof k (s.socketEof k || eof) }
    | _ => none
  | .dropBuffer w =>
    match (s.worker w).phase with
    | .failing tb => some ((s.setBuffer tb false).setWorker w { s.worker w with phase := .stopped })
    | _ => none

end State

/-! ## What the flags say -/

/-- A buffer is busy only if exactly one worker has it, and a socket only while exactly one call
is using it; so a request or a send that blocks waits for somebody. -/
structure NoLeak (s : State cfg) : Prop where
  buffer : ∀ b, s.bufferBusy b → ∃! w, (s.worker w).held = some b
  socket : ∀ k, s.socketBusy k → ∃! w, (s.worker w).socket = some k
  request : s.freeBuffer = none → ∀ b < s.numRegistered, ∃! w, (s.worker w).held = some b
  send : (s.freeSocket fun _ => true) = none → ∀ k, ∃! w, (s.worker w).socket = some k

/-- No call of `send` fails, and there is data in every message. -/
def SendSucceeds (_ : State cfg) : Action cfg → Prop
  | .send _ dataLength => 1 ≤ dataLength
  | .sendFails _ => False
  | _ => True

instance (s : State cfg) (a : Action cfg) : Decidable (SendSucceeds s a) := by
  unfold SendSucceeds
  split <;> infer_instance

/-- A worker that asks for a buffer has no pointer to one. -/
def Worker.Tidy {S : Nat} (w : Worker S) : Prop :=
  match w.phase with
  | .idle | .sending | .sendingOn _ | .sent => True
  | _ => w.wdBuf = none

structure Inv (s : State cfg) : Prop where
  buffers : Agree s.bufferBusy fun w => (s.worker w).held
  sockets : Agree s.socketBusy fun w => (s.worker w).socket
  registered : ∀ b, s.bufferBusy b → b < s.numRegistered
  tidy : ∀ w, (s.worker w).Tidy

theorem Inv.init (cfg : Config) : Inv (init cfg) where
  buffers := .of_none
  sockets := .of_none
  registered := by simp [Pool.init]
  tidy := fun _ => rfl

theorem Inv.noLeak {s : State cfg} (h : Inv s) : NoLeak s where
  buffer := fun _ => h.buffers.existsUnique
  socket := fun _ => h.sockets.existsUnique
  request := by
    intro hnone b hb
    have hbusy := List.find?_eq_none.mp hnone b (List.mem_range.mpr hb)
    exact h.buffers.existsUnique (by simpa using hbusy)
  send := by
    intro hnone k
    have hbusy := List.find?_eq_none.mp hnone k (List.mem_finRange k)
    exact h.sockets.existsUnique (by simpa using hbusy)

section

variable {s s' : State cfg} {w : Fin cfg.workers} {b : Nat} {k : Fin cfg.sockets}

theorem freeBuffer_spec (h : s.freeBuffer = some b) :
    b < s.numRegistered ∧ s.bufferBusy b = false := by
  have hfree := List.find?_some h
  exact ⟨List.mem_range.mp (List.mem_of_find?_eq_some h), by simpa using hfree⟩

theorem freeSocket_spec {p : Fin cfg.sockets → Bool} (h : s.freeSocket p = some k) :
    s.socketBusy k = false := by
  have hfree := List.find?_some h
  simp only [Bool.and_eq_true, Bool.not_eq_true'] at hfree
  exact hfree.1

/-- A step of one worker, with what it does to the two pools. -/
theorem Inv.update (h : Inv s) {x : Worker cfg.sockets}
    (hworker : s'.worker = Function.update s.worker w x)
    (hbuffers : Agree s'.bufferBusy (Function.update (fun v => (s.worker v).held) w x.held))
    (hsockets : Agree s'.socketBusy (Function.update (fun v => (s.worker v).socket) w x.socket))
    (hregistered : ∀ b, s'.bufferBusy b → b < s'.numRegistered) (htidy : x.Tidy) : Inv s' where
  buffers := by
    have hheld : (fun v => (s'.worker v).held) =
        Function.update (fun v => (s.worker v).held) w x.held := by
      rw [hworker]
      exact Function.comp_update Worker.held s.worker w x
    rw [hheld]
    exact hbuffers
  sockets := by
    have hsocket : (fun v => (s'.worker v).socket) =
        Function.update (fun v => (s.worker v).socket) w x.socket := by
      rw [hworker]
      exact Function.comp_update Worker.socket s.worker w x
    rw [hsocket]
    exact hsockets
  registered := hregistered
  tidy := by
    intro v
    rw [hworker, Function.update_apply]
    split
    · exact htidy
    · exact h.tidy v

theorem Inv.registered_take (h : Inv s) (hb : b < s.numRegistered) :
    ∀ c, (s.setBuffer b true).bufferBusy c → c < s.numRegistered := by
  intro c hc
  by_cases hcb : c = b
  · exact hcb ▸ hb
  · exact h.registered c (by simpa [State.setBuffer, hcb] using hc)

theorem Inv.registered_give (h : Inv s) (b : Nat) :
    ∀ c, (s.setBuffer b false).bufferBusy c → c < s.numRegistered := by
  intro c hc
  by_cases hcb : c = b
  · simp [State.setBuffer, hcb] at hc
  · exact h.registered c (by simpa [State.setBuffer, hcb] using hc)

/-- A new buffer is free already. -/
theorem Inv.setBuffer_numRegistered (h : Inv s) :
    (s.setBuffer s.numRegistered false).bufferBusy = s.bufferBusy := by
  apply Function.update_eq_self_iff.mpr
  by_contra hne
  exact lt_irrefl _ (h.registered s.numRegistered (by simpa using Ne.symm hne))

/-- A worker takes the first free buffer. -/
theorem Inv.takeBuffer (h : Inv s) (hfree : s.freeBuffer = some b)
    (hheld : (s.worker w).held = none) {x : Worker cfg.sockets} (hx : x.held = some b)
    (hsocket : x.socket = (s.worker w).socket) (htidy : x.Tidy) :
    Inv ((s.setBuffer b true).setWorker w x) := by
  obtain ⟨hlt, hbusy⟩ := freeBuffer_spec hfree
  refine h.update rfl ?_ (h.sockets.keep hsocket) (h.registered_take hlt) htidy
  rw [hx]
  exact h.buffers.take hbusy hheld

/-- A worker marks its buffer as free. -/
theorem Inv.giveBuffer (h : Inv s) (hheld : (s.worker w).held = some b) {x : Worker cfg.sockets}
    (hx : x.held = none) (hsocket : x.socket = (s.worker w).socket) (htidy : x.Tidy) :
    Inv ((s.setBuffer b false).setWorker w x) := by
  refine h.update rfl ?_ (h.sockets.keep hsocket) (h.registered_give b) htidy
  rw [hx]
  exact h.buffers.give hheld

/-- A worker takes a free socket. -/
theorem Inv.takeSocket (h : Inv s) {p : Fin cfg.sockets → Bool} (hfree : s.freeSocket p = some k)
    (hsocket : (s.worker w).socket = none) {x : Worker cfg.sockets} (hx : x.socket = some k)
    (hheld : x.held = (s.worker w).held) (htidy : x.Tidy) :
    Inv ((s.setSocket k true).setWorker w x) := by
  refine h.update rfl (h.buffers.keep hheld) ?_ h.registered htidy
  rw [hx]
  exact h.sockets.take (freeSocket_spec hfree) hsocket

/-- A worker marks its socket as free. -/
theorem Inv.giveSocket (h : Inv s) (hsocket : (s.worker w).socket = some k)
    {x : Worker cfg.sockets} (hx : x.socket = none) (hheld : x.held = (s.worker w).held)
    (htidy : x.Tidy) : Inv ((s.setSocket k false).setWorker w x) := by
  refine h.update rfl (h.buffers.keep hheld) ?_ h.registered htidy
  rw [hx]
  exact h.sockets.give hsocket

/-- A worker goes on with what it has. -/
theorem Inv.goOn (h : Inv s) {x : Worker cfg.sockets} (hheld : x.held = (s.worker w).held)
    (hsocket : x.socket = (s.worker w).socket) (htidy : x.Tidy) : Inv (s.setWorker w x) :=
  h.update rfl (h.buffers.keep hheld) (h.sockets.keep hsocket) h.registered htidy

theorem Inv.tcpRegisterBuffer (h : Inv s) : Inv s.tcpRegisterBuffer := by
  unfold State.tcpRegisterBuffer
  split
  · exact h
  · refine ⟨?_, h.sockets, ?_, h.tidy⟩
    · show Agree (s.setBuffer s.numRegistered false).bufferBusy _
      rw [h.setBuffer_numRegistered]
      exact h.buffers
    · intro b hb
      exact Nat.lt_succ_of_lt (h.registered_give _ b hb)

/-- The end of a stream is noted in the socket only. -/
theorem Inv.setEof (h : Inv s) (eof : Fin cfg.sockets → Bool) : Inv { s with socketEof := eof } :=
  ⟨h.buffers, h.sockets, h.registered, h.tidy⟩

/-- Every step of a run without failing sends keeps the flags right. -/
theorem Inv.step {a : Action cfg} (h : Inv s) (hok : SendSucceeds s a)
    (hstep : s.step a = some s') : Inv s' := by
  cases a with
  | register w =>
    simp only [State.step] at hstep
    split at hstep
    · next hphase =>
      cases hstep
      have hworker : s.tcpRegisterBuffer.worker = s.worker := by
        unfold State.tcpRegisterBuffer
        split <;> rfl
      have htidy : (s.worker w).wdBuf = none := by simpa [Worker.Tidy, hphase] using h.tidy w
      apply h.tcpRegisterBuffer.goOn
      · rw [hworker]
        simp [Worker.held, hphase]
      · rw [hworker]
        simp [Worker.socket, hphase]
      · exact htidy
    · cases hstep
  | request w =>
    simp only [State.step] at hstep
    split at hstep
    · next b hphase hfree =>
      cases hstep
      have htidy : (s.worker w).wdBuf = none := by simpa [Worker.Tidy, hphase] using h.tidy w
      apply h.takeBuffer hfree
      · simp [Worker.held, hphase, htidy]
      · rfl
      · simp [Worker.socket, hphase]
      · trivial
    · cases hstep
  | send w dataLength =>
    simp only [State.step] at hstep
    split at hstep
    · next hphase hbuf =>
      have hlength : ¬ dataLength < 1 := Int.not_lt.mpr hok
      rw [if_neg hlength] at hstep
      cases hstep
      apply h.goOn
      · simp [Worker.held, hphase]
      · simp [Worker.socket, hphase]
      · trivial
    · cases hstep
  | claimToSend w =>
    simp only [State.step] at hstep
    split at hstep
    · next k hphase hfree =>
      cases hstep
      apply h.takeSocket hfree
      · simp [Worker.socket, hphase]
      · rfl
      · simp [Worker.held, hphase]
      · trivial
    · cases hstep
  | sendDone w =>
    simp only [State.step] at hstep
    split at hstep
    · next k hphase =>
      cases hstep
      apply h.giveSocket
      · simp [Worker.socket, hphase]
      · rfl
      · simp [Worker.held, hphase]
      · trivial
    · cases hstep
  | sendFails w => exact hok.elim
  | freeBuffer w =>
    simp only [State.step] at hstep
    split at hstep
    · next b hphase hbuf =>
      cases hstep
      apply h.giveBuffer
      · simp [Worker.held, hphase, hbuf]
      · rfl
      · simp [Worker.socket, hphase]
      · rfl
    · cases hstep
  | recv w =>
    simp only [State.step] at hstep
    split at hstep
    · next b hphase hbuf =>
      cases hstep
      apply h.giveBuffer
      · simp [Worker.held, hphase, hbuf]
      · rfl
      · simp [Worker.socket, hphase]
      · rfl
    · cases hstep
  | grab w =>
    simp only [State.step] at hstep
    split at hstep
    · next b hphase hfree =>
      cases hstep
      have htidy : (s.worker w).wdBuf = none := by simpa [Worker.Tidy, hphase] using h.tidy w
      apply h.takeBuffer hfree
      · simp [Worker.held, hphase, htidy]
      · rfl
      · simp [Worker.socket, hphase]
      · exact htidy
    · cases hstep
  | claim w ready =>
    simp only [State.step] at hstep
    split at hstep
    · next tb k hphase hfree =>
      cases hstep
      have htidy : (s.worker w).wdBuf = none := by simpa [Worker.Tidy, hphase] using h.tidy w
      apply h.takeSocket hfree
      · simp [Worker.socket, hphase]
      · rfl
      · simp [Worker.held, hphase]
      · exact htidy
    · cases hstep
  | giveUp w =>
    simp only [State.step] at hstep
    split at hstep
    · next tb hphase =>
      cases hstep
      have htidy : (s.worker w).wdBuf = none := by simpa [Worker.Tidy, hphase] using h.tidy w
      apply h.goOn
      · simp [Worker.held, hphase]
      · simp [Worker.socket, hphase]
      · exact htidy
    · cases hstep
  | recvDone w =>
    simp only [State.step] at hstep
    split at hstep
    · next tb k hphase =>
      cases hstep
      apply h.giveSocket
      · simp [Worker.socket, hphase]
      · rfl
      · simp [Worker.held, hphase]
      · trivial
    · cases hstep
  | recvFails w eof =>
    simp only [State.step] at hstep
    split at hstep
    · next tb k hphase =>
      cases hstep
      have htidy : (s.worker w).wdBuf = none := by simpa [Worker.Tidy, hphase] using h.tidy w
      apply Inv.setEof
      apply h.giveSocket
      · simp [Worker.socket, hphase]
      · rfl
      · simp [Worker.held, hphase]
      · exact htidy
    · cases hstep
  | dropBuffer w =>
    simp only [State.step] at hstep
    split at hstep
    · next tb hphase =>
      cases hstep
      have htidy : (s.worker w).wdBuf = none := by simpa [Worker.Tidy, hphase] using h.tidy w
      apply h.giveBuffer
      · simp [Worker.held, hphase]
      · exact htidy
      · simp [Worker.socket, hphase]
      · exact htidy
    · cases hstep

end

theorem inv_of_reach {s : State cfg}
    (h : Transition.Reach State.step SendSucceeds (init cfg) s) : Inv s := by
  induction h with
  | init => exact Inv.init cfg
  | step _ hok hstep ih => exact ih.step hok hstep

/-- In a run in which no send fails, whatever receives fail, nothing is leaked. -/
theorem noLeak_of_sends {s : State cfg}
    (h : Transition.Reach State.step SendSucceeds (init cfg) s) : NoLeak s :=
  (inv_of_reach h).noLeak

/-- Two workers, two sockets. -/
def twoWorkers : Config := ⟨2, 2⟩

def first : Fin twoWorkers.workers := ⟨0, Nat.two_pos⟩
def second : Fin twoWorkers.workers := ⟨1, Nat.one_lt_two⟩

/-- The first worker sends a message while a receive of the second one fails. -/
theorem noLeak_twoWorkers : ∃ s : State twoWorkers,
    Transition.Reach State.step SendSucceeds (init twoWorkers) s ∧
      ((s.worker first).phase = .idle ∧ (s.worker second).phase = .stopped ∧
        s.bufferBusy 0 = true) ∧ NoLeak s := by
  obtain ⟨s, hreach, hs⟩ : ∃ s : State twoWorkers,
      Transition.Reach State.step SendSucceeds (init twoWorkers) s ∧
        ((s.worker first).phase = .idle ∧ (s.worker second).phase = .stopped ∧
          s.bufferBusy 0 = true) :=
    Transition.exists_reach_of_run [.register first, .request first, .register second,
      .request second, .send first 1, .recv second, .claimToSend first, .grab second,
      .claim second fun _ => true, .sendDone first, .recvFails second false, .freeBuffer first,
      .request first, .dropBuffer second] (by decide)
  exact ⟨s, hreach, hs, noLeak_of_sends hreach⟩

/-! ## A failing send -/

/-- The first failing send leaves a busy socket that no call is using. -/
theorem not_noLeak_of_sendFails {s s' : State cfg} {w : Fin cfg.workers}
    (h : Transition.Reach State.step SendSucceeds (init cfg) s)
    (hstep : s.step (.sendFails w) = some s') : ¬ NoLeak s' := by
  have hinv := inv_of_reach h
  simp only [State.step] at hstep
  split at hstep
  · next k hphase =>
    cases hstep
    have hsocket : (s.worker w).socket = some k := by simp [Worker.socket, hphase]
    intro hnoLeak
    obtain ⟨v, hv, -⟩ := hnoLeak.socket k ((hinv.sockets.busy_iff k).mpr ⟨w, hsocket⟩)
    by_cases hvw : v = w
    · simp [State.setWorker, hvw, Worker.socket] at hv
    · simp only [State.setWorker, Function.update_of_ne hvw] at hv
      exact hvw (hinv.sockets.unique hv hsocket)
  · cases hstep

/-- One worker, one socket. -/
def oneWorker : Config := ⟨1, 1⟩

def only : Fin oneWorker.workers := ⟨0, Nat.one_pos⟩
def onlySocket : Fin oneWorker.sockets := ⟨0, Nat.one_pos⟩

/-- The socket stays busy and nobody is using it, and the worker blocks in its next request. -/
theorem leak_of_failing_send : ∃ s : State oneWorker,
    Transition.Reach State.step Transition.anyStep (init oneWorker) s ∧ ¬ NoLeak s ∧
      ∀ a, s.step a = none := by
  obtain ⟨s, hreach, ⟨hphase, hsocket⟩, hregistered, hbuffer⟩ : ∃ s : State oneWorker,
      Transition.Reach State.step Transition.anyStep (init oneWorker) s ∧
        ((s.worker only).phase = .requesting ∧ s.socketBusy onlySocket = true) ∧
          s.numRegistered = 1 ∧ s.bufferBusy 0 = true :=
    Transition.exists_reach_of_run [.register only, .request only, .send only 1,
      .claimToSend only, .sendFails only] (by decide)
  have honly : ∀ w : Fin oneWorker.workers, w = only := fun w => Fin.fin_one_eq_zero w
  refine ⟨s, hreach, ?_, ?_⟩
  · intro hnoLeak
    obtain ⟨w, hw, -⟩ := hnoLeak.socket onlySocket hsocket
    rw [honly w] at hw
    simp [Worker.socket, hphase] at hw
  · have hnone : s.freeBuffer = none := by
      simp [State.freeBuffer, hregistered, hbuffer, List.range_succ]
    have hworker : ∀ w, (s.worker w).phase = .requesting := fun w => honly w ▸ hphase
    intro a
    cases a <;> simp [State.step, hworker, hnone]

end Xdd.Xni.Pool
