import Xdd.Restart.Monitor

/-!
# An end-to-end copy over XNI with the TCP transport

The workers of a target share one connection of several sockets. A source worker sends
its block on the first socket that no other worker is sending on, and a destination
worker takes its next message from the first socket that is ready, whichever that is. The
end of a copy is not sent as a message: the source closes its sockets, each socket shows
an end of file of its own, and a worker stops at the first one it is told of.

A message arrives whole and in order on its socket, some time after it was sent; nothing
is said about the order across sockets. The restart monitor of the destination is part of
the model.
-/

namespace Xdd.Xni

open Restart (Extent lowestOffset restartOffset)

/-- What travels on a socket: a block, or the close of the source. -/
inductive Packet where
  | data (e : Extent)
  | close
deriving DecidableEq, Repr

/-- `sending` is the busy flag of the source, `busy` and `eof` are those of the
destination. -/
structure Socket where
  sending : Bool
  inFlight : List Packet
  arrived : List Packet
  busy : Bool
  eof : Bool
deriving DecidableEq, Repr

inductive Sender (S : Nat) where
  | idle
  /-- has read the block -/
  | holding (e : Extent)
  | sending (k : Fin S) (e : Extent)
deriving DecidableEq, Repr

/-- Where a destination worker is. -/
inductive Phase (S : Nat) where
  | idle
  | selecting
  /-- `select` has returned these sockets -/
  | selected (ready : List (Fin S))
  | claimed (k : Fin S)
  /-- has the message, the socket is still busy -/
  | received (k : Fin S) (e : Extent)
  | sawEof (k : Fin S)
  | writing (e : Extent)
  /-- was told `XNI_EOF` -/
  | stopped
deriving DecidableEq, Repr

/-- A destination worker. The last two fields only record the blocks it has received and
written. -/
structure Receiver (S : Nat) where
  phase : Phase S
  taskByteOffset : Int
  received : List Extent
  written : List Extent
deriving DecidableEq, Repr

structure Config where
  sockets : Nat
  sockets_pos : 0 < sockets
  queueDepth : Nat
  queueDepth_pos : 0 < queueDepth
  /-- the blocks of the source pass, in order -/
  plan : List Extent
  /-- where the copy starts -/
  initial : Nat

instance (cfg : Config) : NeZero cfg.sockets := ⟨Nat.ne_of_gt cfg.sockets_pos⟩
instance (cfg : Config) : NeZero cfg.queueDepth := ⟨Nat.ne_of_gt cfg.queueDepth_pos⟩

/-- `sent` and `restartFile` record what was sent and what the monitor wrote. -/
structure State (cfg : Config) where
  socket : Fin cfg.sockets → Socket
  sender : Fin cfg.queueDepth → Sender cfg.sockets
  receiver : Fin cfg.queueDepth → Receiver cfg.sockets
  todo : List Extent
  sent : List Extent
  closed : Bool
  success : Bool
  restartFile : List Int

def init (cfg : Config) : State cfg where
  socket := fun _ =>
    { sending := false, inFlight := [], arrived := [], busy := false, eof := false }
  sender := fun _ => .idle
  receiver := fun _ => { phase := .idle, taskByteOffset := 0, received := [], written := [] }
  todo := cfg.plan
  sent := []
  closed := false
  success := false
  restartFile := [restartOffset cfg.initial cfg.initial]

inductive Action (cfg : Config) where
  /-- the source gives its next block to an idle worker -/
  | issue (w : Fin cfg.queueDepth)
  /-- `tcp_send_target_buffer` takes a socket -/
  | claimToSend (w : Fin cfg.queueDepth)
  | send (w : Fin cfg.queueDepth)
  /-- `tcp_close_connection` of the source -/
  | close
  /-- the network -/
  | deliver (k : Fin cfg.sockets)
  /-- the destination gives an idle worker a receive task -/
  | assign (w : Fin cfg.queueDepth)
  /-- `tcp_receive_target_buffer`: wait until a socket is ready -/
  | select (w : Fin cfg.queueDepth)
  | claim (w : Fin cfg.queueDepth)
  | recv (w : Fin cfg.queueDepth)
  /-- give the socket back and return -/
  | release (w : Fin cfg.queueDepth)
  | write (w : Fin cfg.queueDepth)
  | complete
  | monitor

variable {cfg : Config}

namespace State

def setSocket (s : State cfg) (k : Fin cfg.sockets) (socket : Socket) : State cfg :=
  { s with socket := Function.update s.socket k socket }

def setSender (s : State cfg) (w : Fin cfg.queueDepth) (sender : Sender cfg.sockets) : State cfg :=
  { s with sender := Function.update s.sender w sender }

def setReceiver (s : State cfg) (w : Fin cfg.queueDepth) (r : Receiver cfg.sockets) : State cfg :=
  { s with receiver := Function.update s.receiver w r }

def setPhase (s : State cfg) (w : Fin cfg.queueDepth) (phase : Phase cfg.sockets) : State cfg :=
  s.setReceiver w { s.receiver w with phase := phase }

/-- The first socket that no worker of the source is sending on. -/
def freeSocket (s : State cfg) : Option (Fin cfg.sockets) :=
  (List.finRange cfg.sockets).find? fun k => !(s.socket k).sending

/-- The sockets that `select` returns: those that have not shown an end of file and have
something to read. -/
def readySockets (s : State cfg) : List (Fin cfg.sockets) :=
  (List.finRange cfg.sockets).filter fun k => !(s.socket k).eof && !(s.socket k).arrived.isEmpty

/-- The first of these that is neither busy nor at its end. -/
def claimable (s : State cfg) (ready : List (Fin cfg.sockets)) : Option (Fin cfg.sockets) :=
  ready.find? fun k => !(s.socket k).busy && !(s.socket k).eof

end State

/-- One step of a thread of the source or of the destination, or of the network. -/
def step (cfg : Config) (s : State cfg) : Action cfg → Option (State cfg)
  | .issue w =>
    match s.todo, s.sender w with
    | e :: rest, .idle => some { s.setSender w (.holding e) with todo := rest }
    | _, _ => none
  | .claimToSend w =>
    match s.sender w, s.freeSocket with
    | .holding e, some k =>
      some ((s.setSocket k { s.socket k with sending := true }).setSender w (.sending k e))
    | _, _ => none
  | .send w =>
    match s.sender w with
    | .sending k e =>
      some { (s.setSocket k { s.socket k with
          sending := false
          inFlight := (s.socket k).inFlight ++ [.data e] }).setSender w .idle with
        sent := s.sent ++ [e] }
    | _ => none
  | .close =>
    if s.closed = false ∧ s.todo = [] ∧ ∀ w, s.sender w = .idle then
      some { s with
        closed := true
        socket := fun k => { s.socket k with inFlight := (s.socket k).inFlight ++ [.close] } }
    else
      none
  | .deliver k =>
    match (s.socket k).inFlight with
    | p :: rest =>
      some (s.setSocket k { s.socket k with
        inFlight := rest
        arrived := (s.socket k).arrived ++ [p] })
    | [] => none
  | .assign w =>
    match (s.receiver w).phase with
    | .idle =>
      some (s.setReceiver w { s.receiver w with phase := .selecting, taskByteOffset := -1 })
    | _ => none
  | .select w =>
    match (s.receiver w).phase with
    | .selecting =>
      if ∀ k, (s.socket k).eof = true then some (s.setPhase w .stopped)
      else if s.readySockets = [] then none
      else some (s.setPhase w (.selected s.readySockets))
    | _ => none
  | .claim w =>
    match (s.receiver w).phase with
    | .selected ready =>
      match s.claimable ready with
      | some k =>
        some ((s.setSocket k { s.socket k with busy := true }).setPhase w (.claimed k))
      | none => some (s.setPhase w .selecting)
    | _ => none
  | .recv w =>
    match (s.receiver w).phase with
    | .claimed k =>
      match (s.socket k).arrived with
      | .data e :: rest =>
        some ((s.setSocket k { s.socket k with arrived := rest }).setReceiver w
          { s.receiver w with
            phase := .received k e
            received := (s.receiver w).received ++ [e] })
      | .close :: _ => some (s.setPhase w (.sawEof k))
      | [] => none
    | _ => none
  | .release w =>
    match (s.receiver w).phase with
    | .received k e =>
      some ((s.setSocket k { s.socket k with busy := false }).setReceiver w
        { s.receiver w with phase := .writing e, taskByteOffset := e.byteOffset })
    | .sawEof k =>
      some ((s.setSocket k { s.socket k with busy := false, eof := true }).setPhase w .stopped)
    | _ => none
  | .write w =>
    match (s.receiver w).phase with
    | .writing e =>
      some (s.setReceiver w
        { s.receiver w with phase := .idle, written := (s.receiver w).written ++ [e] })
    | _ => none
  | .complete =>
    if ∀ w, (s.receiver w).phase = .stopped then some { s with success := true } else none
  | .monitor =>
    if s.success then
      none
    else
      some { s with
        restartFile := s.restartFile ++
          [restartOffset (lowestOffset fun w => (s.receiver w).taskByteOffset) cfg.initial] }

/-- The steps of the system, one constructor for each branch of `step`. -/
inductive Step (cfg : Config) (s : State cfg) : Action cfg → State cfg → Prop where
  | issue {w e rest} : s.todo = e :: rest → s.sender w = .idle →
      Step cfg s (.issue w) { s.setSender w (.holding e) with todo := rest }
  | claimToSend {w e k} : s.sender w = .holding e → s.freeSocket = some k →
      Step cfg s (.claimToSend w)
        ((s.setSocket k { s.socket k with sending := true }).setSender w (.sending k e))
  | send {w k e} : s.sender w = .sending k e →
      Step cfg s (.send w) { (s.setSocket k { s.socket k with
          sending := false
          inFlight := (s.socket k).inFlight ++ [.data e] }).setSender w .idle with
        sent := s.sent ++ [e] }
  | close : s.closed = false → s.todo = [] → (∀ w, s.sender w = .idle) →
      Step cfg s .close { s with
        closed := true
        socket := fun k => { s.socket k with inFlight := (s.socket k).inFlight ++ [.close] } }
  | deliver {k p rest} : (s.socket k).inFlight = p :: rest →
      Step cfg s (.deliver k) (s.setSocket k { s.socket k with
        inFlight := rest
        arrived := (s.socket k).arrived ++ [p] })
  | assign {w} : (s.receiver w).phase = .idle →
      Step cfg s (.assign w)
        (s.setReceiver w { s.receiver w with phase := .selecting, taskByteOffset := -1 })
  | allEof {w} : (s.receiver w).phase = .selecting → (∀ k, (s.socket k).eof = true) →
      Step cfg s (.select w) (s.setPhase w .stopped)
  | select {w} : (s.receiver w).phase = .selecting → s.readySockets ≠ [] →
      Step cfg s (.select w) (s.setPhase w (.selected s.readySockets))
  | claim {w ready k} : (s.receiver w).phase = .selected ready → s.claimable ready = some k →
      Step cfg s (.claim w)
        ((s.setSocket k { s.socket k with busy := true }).setPhase w (.claimed k))
  | retry {w ready} : (s.receiver w).phase = .selected ready → s.claimable ready = none →
      Step cfg s (.claim w) (s.setPhase w .selecting)
  | recv {w k e rest} : (s.receiver w).phase = .claimed k →
      (s.socket k).arrived = .data e :: rest →
      Step cfg s (.recv w) ((s.setSocket k { s.socket k with arrived := rest }).setReceiver w
        { s.receiver w with
          phase := .received k e
          received := (s.receiver w).received ++ [e] })
  | recvEof {w k rest} : (s.receiver w).phase = .claimed k →
      (s.socket k).arrived = .close :: rest →
      Step cfg s (.recv w) (s.setPhase w (.sawEof k))
  | release {w k e} : (s.receiver w).phase = .received k e →
      Step cfg s (.release w) ((s.setSocket k { s.socket k with busy := false }).setReceiver w
        { s.receiver w with phase := .writing e, taskByteOffset := e.byteOffset })
  | stop {w k} : (s.receiver w).phase = .sawEof k →
      Step cfg s (.release w)
        ((s.setSocket k { s.socket k with busy := false, eof := true }).setPhase w .stopped)
  | write {w e} : (s.receiver w).phase = .writing e →
      Step cfg s (.write w) (s.setReceiver w
        { s.receiver w with phase := .idle, written := (s.receiver w).written ++ [e] })
  | complete : (∀ w, (s.receiver w).phase = .stopped) →
      Step cfg s .complete { s with success := true }
  | monitor : s.success = false →
      Step cfg s .monitor { s with
        restartFile := s.restartFile ++
          [restartOffset (lowestOffset fun w => (s.receiver w).taskByteOffset) cfg.initial] }

theorem Step.of_eq_some {s s' : State cfg} {a : Action cfg} (h : step cfg s a = some s') :
    Step cfg s a s' := by
  cases a with
  | issue w =>
      simp only [step] at h
      split at h <;> cases h
      exact .issue ‹_› ‹_›
  | claimToSend w =>
      simp only [step] at h
      split at h <;> cases h
      exact .claimToSend ‹_› ‹_›
  | send w =>
      simp only [step] at h
      split at h <;> cases h
      exact .send ‹_›
  | close =>
      simp only [step] at h
      split at h <;> cases h
      rename_i hguard
      exact .close hguard.1 hguard.2.1 hguard.2.2
  | deliver k =>
      simp only [step] at h
      split at h <;> cases h
      exact .deliver ‹_›
  | assign w =>
      simp only [step] at h
      split at h <;> cases h
      exact .assign ‹_›
  | select w =>
      simp only [step] at h
      split at h
      · split at h
        · cases h
          exact .allEof ‹_› ‹_›
        · split at h <;> cases h
          exact .select ‹_› ‹_›
      · cases h
  | claim w =>
      simp only [step] at h
      split at h
      · split at h <;> cases h
        · exact .claim ‹_› ‹_›
        · exact .retry ‹_› ‹_›
      · cases h
  | recv w =>
      simp only [step] at h
      split at h
      · split at h <;> cases h
        · exact .recv ‹_› ‹_›
        · exact .recvEof ‹_› ‹_›
      · cases h
  | release w =>
      simp only [step] at h
      split at h <;> cases h
      · exact .release ‹_›
      · exact .stop ‹_›
  | write w =>
      simp only [step] at h
      split at h <;> cases h
      exact .write ‹_›
  | complete =>
      simp only [step] at h
      split at h <;> cases h
      exact .complete ‹_›
  | monitor =>
      simp only [step] at h
      split at h <;> cases h
      exact .monitor (Bool.eq_false_of_not_eq_true ‹_›)

end Xdd.Xni
