import Xdd.Bx.Pipeline

/-!
# A wake-up that is lost

A worker that has seen that it is not released goes to sleep. A target that releases it in
between sets the flag and sends a wake-up that nobody hears. The worker is on no queue any more,
so nobody wakes it up again, and the range that it was to read is never written.
-/

namespace Xdd.Bx

variable {cfg : Config} {s s' : State cfg}

/-! ## What an update leaves alone -/

namespace State

@[simp] theorem setWorker_worker (side : Side) (w : Fin (cfg.workers side))
    (worker : Worker cfg.buffers) : (s.setWorker side w worker).worker =
      Function.update s.worker side (Function.update (s.worker side) w worker) := rfl

@[simp] theorem hand_queue (side : Side) (w : Fin (cfg.workers side)) (b : Fin cfg.buffers)
    (stage : Stage) : (s.hand side w b stage).queue = s.queue := by
  cases stage <;> rfl

@[simp] theorem hand_idle (side : Side) (w : Fin (cfg.workers side)) (b : Fin cfg.buffers)
    (stage : Stage) : (s.hand side w b stage).idle = s.idle := by
  cases stage <;> rfl

@[simp] theorem hand_header (side : Side) (w : Fin (cfg.workers side)) (b : Fin cfg.buffers)
    (stage : Stage) : (s.hand side w b stage).header = s.header := by
  cases stage <;> rfl

@[simp] theorem hand_ops (side : Side) (w : Fin (cfg.workers side)) (b : Fin cfg.buffers)
    (stage : Stage) : (s.hand side w b stage).ops = s.ops := by
  cases stage <;> rfl

@[simp] theorem hand_written (side : Side) (w : Fin (cfg.workers side)) (b : Fin cfg.buffers)
    (stage : Stage) : (s.hand side w b stage).written = s.written := by
  cases stage <;> rfl

@[simp] theorem hand_input (side : Side) (w : Fin (cfg.workers side)) (b : Fin cfg.buffers)
    (stage : Stage) : (s.hand side w b stage).input = s.input := by
  cases stage <;> rfl

@[simp] theorem hand_output (side : Side) (w : Fin (cfg.workers side)) (b : Fin cfg.buffers)
    (stage : Stage) : (s.hand side w b stage).output = s.output := by
  cases stage <;> rfl

/-- The hand-over changes one worker, and gives it no other buffer. -/
theorem hand_worker (side : Side) (w : Fin (cfg.workers side)) (b : Fin cfg.buffers)
    (stage : Stage) : ∃ worker : Worker cfg.buffers,
      (s.hand side w b stage).worker =
        Function.update s.worker side (Function.update (s.worker side) w worker) ∧
      (worker.bufhdrp = (s.worker side w).bufhdrp ∨ worker.bufhdrp = some b) := by
  cases stage with
  | fill => exact ⟨_, rfl, .inr rfl⟩
  | release => exact ⟨_, rfl, .inl rfl⟩
  | next => exact ⟨_, rfl, .inl rfl⟩
  | broadcast => exact ⟨_, rfl, .inl rfl⟩

/-- A buffer is added to at most one queue. -/
theorem mem_bhEnqueue {b b' : Fin cfg.buffers} {dest : Option Side} {side : Side}
    (h : b ∈ (s.bhEnqueue b' dest).queue side) : b ∈ s.queue side ∨ b = b' := by
  cases dest with
  | none => exact .inl h
  | some dest =>
    by_cases hside : side = dest
    · subst hside
      simpa [bhEnqueue, setQueue] using h
    · exact .inl (by simpa [bhEnqueue, setQueue, hside] using h)

@[simp] theorem bhEnqueue_frame (b : Fin cfg.buffers) (dest : Option Side) :
    (s.bhEnqueue b dest).worker = s.worker ∧ (s.bhEnqueue b dest).idle = s.idle ∧
      (s.bhEnqueue b dest).header = s.header ∧ (s.bhEnqueue b dest).ops = s.ops ∧
      (s.bhEnqueue b dest).written = s.written ∧ (s.bhEnqueue b dest).input = s.input ∧
      (s.bhEnqueue b dest).output = s.output := by
  cases dest <;> exact ⟨rfl, rfl, rfl, rfl, rfl, rfl, rfl⟩

end State

/-! ## A worker that sleeps for ever -/

/-- The input target has neither the worker nor its buffer. -/
def Input.Without {buffers workers : Nat} (w : Fin workers) (b : Fin buffers) :
    Input buffers workers → Prop
  | .getBuffer w' => w' ≠ w
  | .hand w' b' _ => w' ≠ w ∧ b' ≠ b
  | .collectWorkers _ last => last ≠ some w
  | .collectBuffers _ last buffer => last ≠ some w ∧ buffer ≠ some b
  | .getWorker | .finished | .crashed => True

def Output.Without {buffers workers : Nat} (b : Fin buffers) : Output buffers workers → Prop
  | .getWorker b' => b' ≠ b
  | .hand _ b' _ => b' ≠ b
  | .getBuffer | .terminate _ | .done => True

/-- The worker sleeps with the buffer of the first range, and both are out of the pipeline. -/
structure Lost (w : Fin (cfg.workers .input)) (b : Fin cfg.buffers) (s : State cfg) : Prop where
  asleep : (s.worker .input w).phase = .asleep
  idle : w ∉ s.idle .input
  input : s.input.Without w b
  output : s.output.Without b
  readers : ∀ w', w' ≠ w → (s.worker .input w').bufhdrp ≠ some b
  writers : ∀ w', (s.worker .output w').bufhdrp ≠ some b
  queue : ∀ side, b ∉ s.queue side
  range : ∀ b', b' ≠ b → (s.header b').range ≠ cfg.range 0
  ops : 0 < s.ops
  written : ∀ write ∈ s.written, write.range ≠ cfg.range 0

namespace Lost

variable {w : Fin (cfg.workers .input)} {b : Fin cfg.buffers}

/-- Another worker changes, and the rest is as before. -/
theorem setWorker (h : Lost w b s) (side : Side) (w' : Fin (cfg.workers side))
    (worker : Worker cfg.buffers) (hne : ∀ hside : side = .input, hside ▸ w' ≠ w)
    (hbufhdrp : worker.bufhdrp ≠ some b)
    (hworker : s'.worker = Function.update s.worker side
      (Function.update (s.worker side) w' worker))
    (hidle : w ∉ s'.idle .input) (hinput : s'.input.Without w b)
    (houtput : s'.output.Without b) (hqueue : ∀ side, b ∉ s'.queue side)
    (hrange : ∀ b', b' ≠ b → (s'.header b').range ≠ cfg.range 0) (hops : 0 < s'.ops)
    (hwritten : ∀ write ∈ s'.written, write.range ≠ cfg.range 0) : Lost w b s' := by
  cases side with
  | input =>
    have hne : w' ≠ w := hne rfl
    refine ⟨?_, hidle, hinput, houtput, ?_, ?_, hqueue, hrange, hops, hwritten⟩
    · simpa [hworker, hne.symm] using h.asleep
    · intro v hv
      by_cases hvw : v = w'
      · subst hvw
        simpa [hworker] using hbufhdrp
      · simpa [hworker, hvw] using h.readers v hv
    · simpa [hworker] using h.writers
  | output =>
    refine ⟨?_, hidle, hinput, houtput, ?_, ?_, hqueue, hrange, hops, hwritten⟩
    · simpa [hworker] using h.asleep
    · simpa [hworker] using h.readers
    · intro v
      by_cases hvw : v = w'
      · subst hvw
        simpa [hworker] using hbufhdrp
      · simpa [hworker, hvw] using h.writers v

/-- The workers do not change. -/
theorem congr (h : Lost w b s) (hworker : s'.worker = s.worker)
    (hidle : w ∉ s'.idle .input) (hinput : s'.input.Without w b)
    (houtput : s'.output.Without b) (hqueue : ∀ side, b ∉ s'.queue side)
    (hrange : ∀ b', b' ≠ b → (s'.header b').range ≠ cfg.range 0) (hops : 0 < s'.ops)
    (hwritten : ∀ write ∈ s'.written, write.range ≠ cfg.range 0) : Lost w b s' :=
  ⟨hworker ▸ h.asleep, hidle, hinput, houtput, hworker ▸ h.readers, hworker ▸ h.writers, hqueue,
    hrange, hops, hwritten⟩

/-- A worker that takes a step is another one, and has another buffer. -/
theorem of_worker (h : Lost w b s) (side : Side) (w' : Fin (cfg.workers side))
    (hphase : (s.worker side w').phase ≠ .asleep) :
    (∀ hside : side = .input, hside ▸ w' ≠ w) ∧ (s.worker side w').bufhdrp ≠ some b := by
  cases side with
  | input =>
    have hne : w' ≠ w := by
      rintro rfl
      exact hphase h.asleep
    exact ⟨fun _ => hne, h.readers w' hne⟩
  | output => exact ⟨by simp, h.writers w'⟩

/-- A worker that is awake moves, and nothing else does. -/
theorem move (h : Lost w b s) (side : Side) (w' : Fin (cfg.workers side))
    (hphase : (s.worker side w').phase ≠ .asleep) {worker : Worker cfg.buffers}
    (hbufhdrp : worker.bufhdrp = (s.worker side w').bufhdrp) :
    Lost w b (s.setWorker side w' worker) := by
  obtain ⟨hne, hb⟩ := h.of_worker side w' hphase
  rw [← hbufhdrp] at hb
  exact h.setWorker side w' worker hne hb rfl h.idle h.input h.output h.queue h.range h.ops
    h.written

/-- The queues without one of their first elements. -/
theorem queue_tail (h : Lost w b s) {side : Side} {b' : Fin cfg.buffers}
    {rest : List (Fin cfg.buffers)} (hqueue : s.queue side = b' :: rest) :
    b' ≠ b ∧ ∀ side', b ∉ (s.setQueue side rest).queue side' := by
  have hnot := h.queue side
  rw [hqueue, List.mem_cons, not_or] at hnot
  refine ⟨Ne.symm hnot.1, ?_⟩
  intro side'
  by_cases hside : side' = side
  · subst hside
    simpa [State.setQueue] using hnot.2
  · simpa [State.setQueue, hside] using h.queue side'

/-- The worker queue without its first element. -/
theorem idle_tail (h : Lost w b s) {w' : Fin (cfg.workers .input)}
    {rest : List (Fin (cfg.workers .input))} (hidle : s.idle .input = w' :: rest) :
    w' ≠ w ∧ w ∉ (s.setIdle .input rest).idle .input := by
  have hnot := h.idle
  rw [hidle, List.mem_cons, not_or] at hnot
  exact ⟨Ne.symm hnot.1, by simpa [State.setIdle] using hnot.2⟩

/-- Only the first operation is on the first range. -/
theorem range_ne (h : Lost w b s) : cfg.range s.ops ≠ cfg.range 0 := by
  intro heq
  have hoffset : s.ops * cfg.transferSize = 0 * cfg.transferSize := congrArg Range.offset heq
  have hops := h.ops
  have hsize := cfg.transferSize_pos
  rw [Nat.zero_mul] at hoffset
  exact absurd hoffset (Nat.mul_pos hops hsize).ne'

theorem range_fill (h : Lost w b s) (b' : Fin cfg.buffers) (content : Range) (eof : Bool) :
    ∀ b'', b'' ≠ b →
      ((s.setHeader b' ⟨cfg.range s.ops, content, eof⟩).header b'').range ≠ cfg.range 0 := by
  intro b'' hne
  by_cases hb : b'' = b'
  · subst hb
    simpa [State.setHeader] using h.range_ne
  · simpa [State.setHeader, hb] using h.range b'' hne

theorem range_keep (h : Lost w b s) (b' : Fin cfg.buffers) (content : Range) (eof : Bool) :
    ∀ b'', b'' ≠ b →
      ((s.setHeader b' ⟨(s.header b').range, content, eof⟩).header b'').range ≠ cfg.range 0 := by
  intro b'' hne
  by_cases hb : b'' = b'
  · subst hb
    simpa [State.setHeader] using h.range b'' hne
  · simpa [State.setHeader, hb] using h.range b'' hne

/-- A step of the input target. -/
theorem inputStep (h : Lost w b s) (hs : Step s .input s') : Lost w b s' := by
  have hin := h.input
  cases hs with
  | takeWorker w' rest hinput hops hidle =>
    obtain ⟨hne, hrest⟩ := h.idle_tail hidle
    exact h.congr rfl hrest hne h.output h.queue h.range h.ops h.written
  | scheduled hinput hops =>
    exact h.congr rfl h.idle (by simp [Input.Without]) h.output h.queue h.range h.ops h.written
  | takeBuffer w' b' rest hinput hqueue =>
    rw [hinput] at hin
    obtain ⟨hne, hrest⟩ := h.queue_tail hqueue
    exact h.congr rfl h.idle ⟨hin, hne⟩ h.output hrest h.range h.ops h.written
  | fill w' b' hinput =>
    rw [hinput] at hin
    exact h.setWorker .input w' { s.worker .input w' with bufhdrp := some b' } (fun _ => hin.1)
      (by simpa using hin.2) rfl h.idle hin h.output h.queue (h.range_fill b' _ _)
      (Nat.succ_pos _) h.written
  | handInput w' b' stage after hinput hfill hafter =>
    rw [hinput] at hin
    obtain ⟨worker, hworker, hbufhdrp⟩ := State.hand_worker (s := s) .input w' b' stage
    refine h.setWorker .input w' worker (fun _ => hin.1) ?_ hworker ?_ hin ?_ ?_ ?_ ?_ ?_
    · obtain hsame | hgiven := hbufhdrp
      · rw [hsame]
        exact h.readers w' hin.1
      · rw [hgiven]
        simpa using hin.2
    · simpa using h.idle
    · simpa using h.output
    · simpa using h.queue
    · simpa using h.range
    · simpa using h.ops
    · simpa using h.written
  | handedInput w' b' hinput =>
    rw [hinput] at hin
    exact h.setWorker .input w' (s.worker .input w').broadcast (fun _ => hin.1)
      (h.readers w' hin.1) rfl h.idle trivial h.output h.queue h.range h.ops h.written
  | collectWorker left last w' rest hinput hidle =>
    obtain ⟨hne, hrest⟩ := h.idle_tail hidle
    exact h.setWorker .input w' { (s.worker .input w').broadcast with terminate := true }
      (fun _ => hne) (h.readers w' hne) rfl hrest (by simpa [Input.Without] using hne) h.output
      h.queue h.range h.ops h.written
  | workersCollected last hinput =>
    rw [hinput] at hin
    exact h.congr rfl h.idle ⟨hin, by simp⟩ h.output h.queue h.range h.ops h.written
  | collectBuffer left last buffer b' rest hinput hqueue =>
    rw [hinput] at hin
    obtain ⟨hne, hrest⟩ := h.queue_tail hqueue
    exact h.congr rfl h.idle ⟨hin.1, by simpa using hne⟩ h.output hrest h.range h.ops h.written
  | mark w' b₁ b₂ hinput hbufhdrp =>
    rw [hinput] at hin
    have hne : w' ≠ w := by simpa [Input.Without] using hin.1
    have hb : b ≠ b₂ := by
      rintro rfl
      exact h.readers w' hne hbufhdrp
    obtain ⟨hworker, hidle, hheader, hops, hwritten, -, houtput⟩ :=
      State.bhEnqueue_frame (s := s.setHeader b₁ { s.header b₁ with eof := true }) b₂
        (State.nextQueue (s.worker .input w'))
    refine h.congr hworker (hidle ▸ h.idle) trivial (houtput ▸ h.output) ?_ ?_ (hops ▸ h.ops)
      (hwritten ▸ h.written)
    · intro side hmem
      obtain hmem | heq := State.mem_bhEnqueue hmem
      · exact h.queue side hmem
      · exact hb heq
    · intro b' hb'
      change ((State.bhEnqueue _ _ _).header b').range ≠ _
      rw [hheader]
      exact h.range_keep b₁ _ _ b' hb'
  | crash w' b' hinput hbufhdrp =>
    exact h.congr rfl h.idle trivial h.output h.queue (h.range_keep b' _ _) h.ops h.written

/-- A step of the output target. -/
theorem outputStep (h : Lost w b s) (hs : Step s .output s') : Lost w b s' := by
  have hout := h.output
  cases hs with
  | takeEnd b' rest houtput hqueue heof =>
    exact h.congr rfl h.idle h.input trivial (h.queue_tail hqueue).2 h.range h.ops h.written
  | takeFilled b' rest houtput hqueue heof =>
    obtain ⟨hne, hrest⟩ := h.queue_tail hqueue
    exact h.congr rfl h.idle h.input hne hrest h.range h.ops h.written
  | takeWriter b' w' rest houtput hidle =>
    rw [houtput] at hout
    exact h.congr rfl (by simpa [State.setIdle] using h.idle) h.input hout h.queue h.range h.ops
      h.written
  | handOutput w' b' stage after houtput hafter =>
    rw [houtput] at hout
    obtain ⟨worker, hworker, hbufhdrp⟩ := State.hand_worker (s := s) .output w' b' stage
    refine h.setWorker .output w' worker nofun ?_ hworker ?_ ?_ hout ?_ ?_ ?_ ?_
    · obtain hsame | hgiven := hbufhdrp
      · rw [hsame]
        exact h.writers w'
      · rw [hgiven]
        simpa [Output.Without] using hout
    · simpa using h.idle
    · simpa using h.input
    · simpa using h.queue
    · simpa using h.range
    · simpa using h.ops
    · simpa using h.written
  | handedOutput w' b' houtput =>
    exact h.setWorker .output w' (s.worker .output w').broadcast nofun (h.writers w') rfl h.idle
      h.input trivial h.queue h.range h.ops h.written
  | terminate left w' rest houtput hidle =>
    exact h.setWorker .output w' { (s.worker .output w').broadcast with terminate := true } nofun
      (h.writers w') rfl
      (by simpa [State.terminateWorker, State.setWorker, State.setIdle] using h.idle)
      h.input trivial h.queue h.range h.ops h.written
  | finish houtput =>
    exact h.congr rfl h.idle h.input trivial h.queue h.range h.ops h.written

/-- A step of a worker. -/
theorem workerStep (h : Lost w b s) {side : Side} {w' : Fin (cfg.workers side)}
    (hs : Step s (.worker side w') s') : Lost w b s' := by
  cases hs with
  | enqueue _ _ hphase =>
    obtain ⟨hne, hbufhdrp⟩ := h.of_worker side w' (by simp [hphase])
    refine h.setWorker side w' { s.worker side w' with phase := .test } hne hbufhdrp rfl ?_ h.input
      h.output h.queue h.range h.ops h.written
    cases side with
    | input => simpa [State.setIdle, State.setWorker, h.idle] using (hne rfl).symm
    | output => simpa [State.setIdle, State.setWorker] using h.idle
  | wake _ _ hphase => exact h.move side w' (by simp [hphase]) rfl
  | doze _ _ hphase => exact h.move side w' (by simp [hphase]) rfl
  | sleep _ _ hphase => exact h.move side w' (by simp [hphase]) rfl
  | read w' b' hphase =>
    obtain ⟨hne, hbufhdrp⟩ := h.of_worker .input w' (by simp [hphase])
    exact h.setWorker .input w' { s.worker .input w' with phase := .put } hne hbufhdrp rfl h.idle
      h.input h.output h.queue (h.range_keep b' _ _) h.ops h.written
  | write w' b' hphase hb' =>
    obtain ⟨hne, hbufhdrp⟩ := h.of_worker .output w' (by simp [hphase])
    refine h.setWorker .output w' { s.worker .output w' with phase := .put } hne hbufhdrp rfl
      h.idle h.input h.output h.queue h.range h.ops ?_
    intro write hwrite
    obtain hwrite | hwrite := List.mem_append.mp hwrite
    · exact h.written write hwrite
    · rw [List.mem_singleton.mp hwrite]
      apply h.range b'
      rintro rfl
      exact h.writers _ hb'
  | put _ _ b' hphase hb' =>
    obtain ⟨hne, hbufhdrp⟩ := h.of_worker side w' (by simp [hphase])
    obtain ⟨hworker, hidle, hheader, hops, hwritten, hinput, houtput⟩ :=
      State.bhEnqueue_frame
        (s := s.setWorker side w' { s.worker side w' with phase := .start }) b'
        (State.nextQueue (s.worker side w'))
    refine h.setWorker side w' { s.worker side w' with phase := .start } hne hbufhdrp hworker
      (hidle ▸ h.idle) (hinput ▸ h.input) (houtput ▸ h.output) ?_ (hheader ▸ h.range)
      (hops ▸ h.ops) (hwritten ▸ h.written)
    intro side' hmem
    obtain hmem | heq := State.mem_bhEnqueue hmem
    · exact h.queue side' hmem
    · subst heq
      exact hbufhdrp hb'

theorem step (h : Lost w b s) {a : Action cfg} (hs : Step s a s') : Lost w b s' := by
  cases a with
  | input => exact h.inputStep hs
  | output => exact h.outputStep hs
  | worker side w' => exact h.workerStep hs

end Lost

/-! ## It happens with every number of threads and buffers -/

/-- After the wake-up of the first hand-over was lost. -/
def lostState (w : Fin (cfg.workers .input)) (b : Fin cfg.buffers)
    (rest : List (Fin cfg.buffers)) : State cfg where
  input := .getWorker
  output := .getBuffer
  ops := 1
  queue
    | .input => rest
    | .output => []
  idle := fun _ => []
  worker := Function.update (init cfg).worker .input (Function.update ((init cfg).worker .input) w
    { phase := .asleep, released := true, terminate := false, bufhdrp := some b,
      next := some .output })
  header := Function.update (init cfg).header b { (init cfg).header b with range := cfg.range 0 }
  written := []

/-- The worker sees that it is not released, its target hands it the first buffer, and then it
goes to sleep. -/
theorem reachable_lostState {w : Fin (cfg.workers .input)} {b : Fin cfg.buffers}
    {rest : List (Fin cfg.buffers)} (hbuffers : List.finRange cfg.buffers = b :: rest) :
    Reachable (lostState w b rest) := by
  apply Transition.reach_of_run
    [.worker .input w, .worker .input w, .input, .input, .input, .input, .input, .input,
      .worker .input w]
  simp [Transition.run, Transition.guarded, Transition.anyStep, step, init, State.workerStep,
    inputStep, hbuffers, State.setIdle, State.setWorker, State.setQueue, State.setHeader,
    State.hand, Stage.after, Worker.broadcast, cfg.fileSize_pos, lostState, Side.next]
  -- what is left is the queue without its first buffer
  funext side
  cases side <;> rfl

theorem lost_lostState {w : Fin (cfg.workers .input)} {b : Fin cfg.buffers}
    {rest : List (Fin cfg.buffers)} (hbuffers : List.finRange cfg.buffers = b :: rest) :
    Lost w b (lostState w b rest) := by
  have hnodup := List.nodup_finRange cfg.buffers
  rw [hbuffers, List.nodup_cons] at hnodup
  refine ⟨by simp [lostState], by simp [lostState], trivial, trivial, ?_, ?_, ?_, ?_, ?_, ?_⟩
  · intro w' hne
    simp [lostState, hne, init]
  · intro w'
    simp [lostState, init]
  · intro side
    cases side with
    | input => exact hnodup.1
    | output => exact List.not_mem_nil
  · -- a header that was never filled in has size 0
    intro b' hne heq
    have hsize : 0 = min cfg.transferSize (cfg.fileSize - 0 * cfg.transferSize) := by
      simpa [lostState, hne, init, Config.range] using congrArg Range.size heq
    have htransfer := cfg.transferSize_pos
    have hfile := cfg.fileSize_pos
    omega
  · exact Nat.one_pos
  · intro write hwrite
    cases hwrite

theorem Config.ops_pos (cfg : Config) : 0 < cfg.ops := by
  have hfile := cfg.fileSize_pos
  exact Nat.div_pos (by omega) cfg.transferSize_pos

/-- There is no number of buffers and workers and no file that is always copied. -/
theorem not_copies (cfg : Config) : ¬ Copies cfg := by
  rintro ⟨-, hcopied, -⟩
  obtain ⟨b, rest, hbuffers⟩ : ∃ b rest, List.finRange cfg.buffers = b :: rest := by
    apply List.exists_cons_of_ne_nil
    intro hnil
    have hlength := congrArg List.length hnil
    rw [List.length_finRange, List.length_nil] at hlength
    exact cfg.buffers_pos.ne' hlength
  let w : Fin (cfg.workers .input) := ⟨0, cfg.workers_pos .input⟩
  obtain ⟨s', hreach, hall⟩ := hcopied (lostState w b rest) (reachable_lostState hbuffers)
  have hlost : Lost w b s' :=
    hreach.invariant (lost_lostState hbuffers) fun _ _ _ h _ hs => h.step (.of_eq_some hs)
  exact hlost.written _ (hall 0 cfg.ops_pos) rfl

/-! ## The flag in one buffer, the other one on the queue -/

/-- Two operations, two buffers and two workers that read. -/
def twoReaders : Config where
  fileSize := 2
  fileSize_pos := Nat.two_pos
  transferSize := 1
  transferSize_pos := Nat.one_pos
  buffers := 2
  buffers_pos := Nat.two_pos
  workers
    | .input => 2
    | .output => 1
  workers_pos := by
    intro side
    cases side <;> decide
  zero := some .input

def input₀ : Action twoReaders := .worker .input ⟨0, Nat.two_pos⟩

def input₁ : Action twoReaders := .worker .input ⟨1, Nat.one_lt_two⟩

def output₀ : Action twoReaders := .worker .output ⟨0, Nat.one_pos⟩

instance (s : State cfg) : Decidable (EndMissed s) :=
  inferInstanceAs (Decidable (s.input = .crashed ∨
    s.input = .finished ∧ s.output = .getBuffer ∧ s.queue .output = []))

/-- No wake-up is lost, but the worker of the first buffer comes back last. -/
theorem end_missed_twoReaders : ¬ Copies twoReaders := by
  rintro ⟨-, -, hend⟩
  have hmissed : ∃ s, Transition.Reach step Transition.anyStep (init twoReaders) s ∧
      EndMissed s :=
    Transition.exists_reach_of_run
      ([input₀, input₁] ++ List.replicate 12 .input ++
        [input₀, input₀, input₀, input₁, input₁, input₁, input₁, input₀] ++
        [output₀] ++ List.replicate 6 .output ++ List.replicate 4 output₀ ++
        List.replicate 6 .output ++ List.replicate 4 output₀ ++ List.replicate 7 .input ++
        List.replicate 6 .output) (by decide +kernel)
  obtain ⟨s, hreach, hs⟩ := hmissed
  exact hend s hreach hs

end Xdd.Bx
