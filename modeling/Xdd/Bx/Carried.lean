import Xdd.Bx.Places

/-!
# What the pipeline of `bx` keeps

No buffer is ever in the hands of two threads, so a worker writes what was read for the range of
its buffer. The input target gets all buffers back only when every range has been written, if no
worker is ready with its buffer before its target has told it where to put it.
-/

namespace Xdd.Bx

variable {cfg : Config} {s s' : State cfg}

/-! ## One place for each buffer -/

theorem Worker.weight_add {buffers : Nat} (f g : Place → Nat) (side : Side) (b : Fin buffers)
    (worker : Worker buffers) : worker.weight (fun p => f p + g p) side b =
      worker.weight f side b + worker.weight g side b := by
  unfold Worker.weight
  split_ifs <;> rfl

theorem Input.weight_add {buffers workers : Nat} (f g : Place → Nat) (b : Fin buffers)
    (input : Input buffers workers) :
    input.weight (fun p => f p + g p) b = input.weight f b + input.weight g b := by
  cases input with
  | hand w b' stage => cases stage <;> simp only [Input.weight] <;> split_ifs <;> rfl
  | _ => rfl

theorem Output.weight_add {buffers workers : Nat} (f g : Place → Nat) (b : Fin buffers)
    (output : Output buffers workers) :
    output.weight (fun p => f p + g p) b = output.weight f b + output.weight g b := by
  cases output with
  | getWorker b' =>
    simp only [Output.weight]
    split_ifs <;> rfl
  | hand w b' stage => cases stage <;> simp only [Output.weight] <;> split_ifs <;> rfl
  | _ => rfl

/-- Weights of places add up. -/
theorem State.weight_add (f g : Place → Nat) (b : Fin cfg.buffers) :
    s.weight (fun p => f p + g p) b = s.weight f b + s.weight g b := by
  have hqueue : queueWeight (fun p => f p + g p) b s.queue =
      queueWeight f b s.queue + queueWeight g b s.queue := by
    simp only [queueWeight, Nat.mul_add, Finset.sum_add_distrib]
  have hworkers : workersWeight (fun p => f p + g p) b s.worker =
      workersWeight f b s.worker + workersWeight g b s.worker := by
    simp only [workersWeight, Worker.weight_add, Finset.sum_add_distrib]
  simp only [weight, hqueue, hworkers, Input.weight_add, Output.weight_add]
  omega

/-- In how many places a buffer is. -/
def State.tokens (s : State cfg) (b : Fin cfg.buffers) : Nat := s.weight (fun _ => 1) b

/-- Is it this place? -/
def Place.is (p q : Place) : Nat := if q = p then 1 else 0

/-- A buffer that has one place is not at another one. -/
theorem State.weight_eq_zero_of_tokens {b : Fin cfg.buffers} {f : Place → Nat} {p : Place}
    (htokens : s.tokens b ≤ 1) (hp : 1 ≤ s.weight p.is b) (hle : ∀ q, f q + p.is q ≤ 1) :
    s.weight f b = 0 := by
  have hsplit : s.tokens b =
      s.weight (fun q => (f q + p.is q) + (1 - (f q + p.is q))) b := by
    refine congrArg (fun g => s.weight g b) ?_
    funext q
    have := hle q
    omega
  rw [hsplit, State.weight_add, State.weight_add] at htokens
  omega

/-- The place that a buffer is taken from. -/
theorem Moves.from_pos {b : Fin cfg.buffers} {p : Place} {q : Option Place}
    (h : Moves s s' b (some p) q) (hne : q ≠ some p) : 1 ≤ s.weight p.is b := by
  have hmoves := h p.is b
  cases q with
  | none =>
    simp [Place.is] at hmoves
    omega
  | some q =>
    have hq : q ≠ p := fun heq => hne (congrArg some heq)
    simp [Place.is, hq] at hmoves
    omega

theorem Moves.weight_of_ne {b b' : Fin cfg.buffers} {p q : Option Place} (h : Moves s s' b p q)
    (hne : b' ≠ b) (f : Place → Nat) : s'.weight f b' = s.weight f b' := by
  simpa [Ne.symm hne] using h f b'

theorem Moves.weight_self {b : Fin cfg.buffers} {p q : Option Place} (h : Moves s s' b p q)
    (f : Place → Nat) : s'.weight f b + p.elim 0 f = s.weight f b + q.elim 0 f := by
  simpa using h f b

/-- A buffer that had a place is in no more places than before. -/
theorem Moves.tokens_le {b : Fin cfg.buffers} {p : Place} {q : Option Place}
    (h : Moves s s' b (some p) q) (b' : Fin cfg.buffers) : s'.tokens b' ≤ s.tokens b' := by
  by_cases hb : b' = b
  · subst hb
    have hself := h.weight_self fun _ => 1
    have hq : q.elim 0 (fun _ : Place => 1) ≤ 1 := by cases q <;> simp
    simp only [Option.elim_some] at hself
    rw [State.tokens, State.tokens]
    omega
  · exact (h.weight_of_ne hb _).le

/-- No step but the last one of the input target makes a place for a buffer. -/
theorem Change.tokens_le {a : Action cfg} (h : Change s a s') (b : Fin cfg.buffers) :
    s'.tokens b ≤ s.tokens b ∨ s'.input = .finished ∧ s'.tokens b ≤ s.tokens b + 1 ∧
      ∃ last buffer, s.input = .collectBuffers 0 last buffer := by
  cases h with
  | still _ _ hstays hdata => exact .inl (hstays _ b).le
  | carry _ _ b' p q hcarry hmoves hdata => exact .inl (hmoves.tokens_le b)
  | takeEnd _ b' heof hmoves hdata => exact .inl (hmoves.tokens_le b)
  | fill _ w b' hinput hmoves => exact .inl (hmoves.tokens_le b)
  | read _ w b' hmoves => exact .inl (hmoves.tokens_le b)
  | write _ w b' hmoves => exact .inl (hmoves.tokens_le b)
  | put _ side w b' hphase hmoves => exact .inl (hmoves.tokens_le b)
  | mark _ w b' b'' hinput hfinished hbufhdrp hmoves =>
    refine .inr ⟨hfinished, ?_, _, _, hinput⟩
    by_cases hb : b = b''
    · subst hb
      have hself := hmoves.weight_self fun _ => 1
      have hle : ((State.nextQueue (s.worker .input w)).map Place.queue).elim 0
          (fun _ => 1) ≤ 1 := by
        cases State.nextQueue (s.worker .input w) <;> simp
      simp only [Option.elim_none] at hself
      rw [State.tokens, State.tokens]
      omega
    · exact (hmoves.weight_of_ne hb _).le.trans (Nat.le_add_right _ _)

/-- Every buffer has at most one place, and those that the input target has got back have none. -/
structure Single (s : State cfg) : Prop where
  placed : Placed s
  tokens : ∀ b, s.tokens b ≤ 1
  collected : ∀ left last buffer, s.input = .collectBuffers left last buffer →
    ∑ b, s.tokens b ≤ left

/-- At first all buffers are on the queue of the input target. -/
theorem weight_init (cfg : Config) (f : Place → Nat) (b : Fin cfg.buffers) :
    (init cfg).weight f b = f (.queue .input) := by
  have hcount : (List.finRange cfg.buffers).count b = 1 :=
    List.count_eq_one_of_mem (List.nodup_finRange _) (List.mem_finRange b)
  have hqueue : queueWeight f b (init cfg).queue = f (.queue .input) := by
    rw [queueWeight, Finset.sum_eq_single .input]
    · rw [init, hcount, Nat.one_mul]
    · intro side _ hside
      cases side with
      | input => exact absurd rfl hside
      | output => exact Nat.zero_mul _
    · exact fun h => absurd (Finset.mem_univ _) h
  have hworkers : workersWeight f b (init cfg).worker = 0 := by
    simp [workersWeight, init, Worker.weight]
  rw [State.weight, hqueue, hworkers]
  rfl

theorem Single.init (cfg : Config) : Single (init cfg) where
  placed := Placed.init cfg
  tokens := fun b => (weight_init cfg _ b).le
  collected := nofun

theorem Single.step (hs : Single s) {a : Action cfg} (h : Step s a s') : Single s' where
  placed := hs.placed.step h
  tokens := by
    intro b
    obtain hle | ⟨-, hle, last, buffer, hinput⟩ := (h.change hs.placed).tokens_le b
    · exact hle.trans (hs.tokens b)
    · -- the input target has got all buffers back
      have hzero := Finset.single_le_sum (fun b _ => Nat.zero_le (s.tokens b))
        (Finset.mem_univ b)
      have hsum := hs.collected 0 last buffer hinput
      omega
  collected := by
    intro left last buffer hinput
    have hle : ∑ b, s'.tokens b ≤ ∑ b, s.tokens b := by
      refine Finset.sum_le_sum fun b _ => ?_
      obtain hle | ⟨hfinished, -⟩ := (h.change hs.placed).tokens_le b
      · exact hle
      · cases hinput.symm.trans hfinished
    cases a with
    | input =>
      cases h with
      | workersCollected last hinput₀ =>
        cases hinput
        have hone := Finset.sum_le_sum fun b (_ : b ∈ Finset.univ) => hs.tokens b
        simpa using hle.trans hone
      | collectBuffer left last buffer b rest hinput₀ hqueue =>
        cases hinput
        have hmoves : Moves s { s.setQueue .input rest with
            input := .collectBuffers left last (some b) } b (some (.queue .input)) none :=
          Moves.of_dequeue .input rfl hqueue rfl (by simp [hinput₀, Input.weight]) fun _ _ => rfl
        have hsum := hs.collected _ _ _ hinput₀
        have hself := hmoves.weight_self fun _ => 1
        have hlt := Finset.sum_lt_sum (fun b' _ => hmoves.tokens_le b')
          ⟨b, Finset.mem_univ b, Nat.lt_of_succ_le hself.le⟩
        exact Nat.le_of_lt_succ (hlt.trans_le hsum)
      | _ => cases hinput
    | output =>
      rw [h.frame_output.1] at hinput
      exact hle.trans (hs.collected left last buffer hinput)
    | worker side w =>
      rw [h.frame_worker.1] at hinput
      exact hle.trans (hs.collected left last buffer hinput)

theorem Reachable.single (h : Reachable s) : Single s :=
  h.invariant (Single.init cfg) fun _ _ _ hs _ hstep => hs.step (.of_eq_some hstep)

/-- The queues, the targets and the workers. -/
abbrev Owner (cfg : Config) := Side ⊕ Side ⊕ (side : Side) × Fin (cfg.workers side)

/-- The buffer is on the queue; the target is about to hand it to a worker; the worker has been
released with it, and has not put it on the next queue. -/
def State.Owns (s : State cfg) : Owner cfg → Fin cfg.buffers → Prop
  | .inl side, b => b ∈ s.queue side
  | .inr (.inl .input), b => ∃ w, s.input = .hand w b .fill ∨ s.input = .hand w b .release
  | .inr (.inl .output), b => s.output = .getWorker b ∨
      ∃ w, s.output = .hand w b .fill ∨ s.output = .hand w b .release
  | .inr (.inr ⟨side, w⟩), b => (s.worker side w).bufhdrp = some b ∧
      ((s.worker side w).released ∨ (s.worker side w).phase = .io ∨
        (s.worker side w).phase = .put)

/-- How often an owner has a buffer. -/
def State.share (s : State cfg) (b : Fin cfg.buffers) : Owner cfg → Nat
  | .inl side => (s.queue side).count b
  | .inr (.inl .input) => s.input.weight (fun _ => 1) b
  | .inr (.inl .output) => s.output.weight (fun _ => 1) b
  | .inr (.inr ⟨side, w⟩) => (s.worker side w).weight (fun _ => 1) side b

theorem State.sum_share (b : Fin cfg.buffers) : ∑ owner, s.share b owner = s.tokens b := by
  have hqueue : ∑ side, (s.queue side).count b = queueWeight (fun _ => 1) b s.queue := by
    simp only [queueWeight, Nat.mul_one]
  have htargets : ∑ side, s.share b (.inr (.inl side)) =
      s.input.weight (fun _ => 1) b + s.output.weight (fun _ => 1) b :=
    Finset.sum_pair (by decide)
  rw [Fintype.sum_sum_type, Fintype.sum_sum_type, Fintype.sum_sigma, htargets]
  simp only [share, hqueue, tokens, weight, workersWeight]
  omega

theorem State.Owns.share_pos {b : Fin cfg.buffers} {owner : Owner cfg} (h : s.Owns owner b) :
    1 ≤ s.share b owner := by
  obtain side | side | ⟨side, w⟩ := owner
  · exact List.count_pos_iff.mpr h
  · cases side with
    | input =>
      obtain ⟨w, hinput | hinput⟩ := h <;> simp [share, hinput, Input.weight]
    | output =>
      obtain houtput | ⟨w, houtput | houtput⟩ := h <;> simp [share, houtput, Output.weight]
  · obtain ⟨hbufhdrp, hreleased | hio | hput⟩ := h
    · simp [share, Worker.weight, hbufhdrp, hreleased]
    · simp [share, Worker.weight, hbufhdrp, hio]
    · simp [share, Worker.weight, hbufhdrp, hput]

/-- No two of the queues, the targets and the workers ever have one buffer, and a queue has none
of them twice. -/
theorem owner_unique (h : Reachable s) :
    (∀ side, (s.queue side).Nodup) ∧
      ∀ b owner owner', s.Owns owner b → s.Owns owner' b → owner = owner' := by
  have hshare (b : Fin cfg.buffers) : ∑ owner, s.share b owner ≤ 1 :=
    State.sum_share b ▸ h.single.tokens b
  constructor
  · intro side
    rw [List.nodup_iff_count_le_one]
    intro b
    exact (Finset.single_le_sum (fun owner _ => Nat.zero_le (s.share b owner))
      (Finset.mem_univ (.inl side))).trans (hshare b)
  · intro b owner owner' howner howner'
    by_contra hne
    have hpair := Finset.sum_le_sum_of_subset (Finset.subset_univ {owner, owner'})
      |>.trans (hshare b)
    rw [Finset.sum_pair hne] at hpair
    have h₁ := howner.share_pos
    have h₂ := howner'.share_pos
    omega

/-- Both buffers of the copy with two readers have been read, and are on one queue. -/
theorem owner_unique_twoReaders : ∃ s : State twoReaders, 2 ≤ (s.queue .output).length ∧
    (∀ side, (s.queue side).Nodup) ∧
      ∀ b owner owner', s.Owns owner b → s.Owns owner' b → owner = owner' := by
  have hrun : ∃ s, Transition.Reach step Transition.anyStep (init twoReaders) s ∧
      2 ≤ (s.queue .output).length :=
    Transition.exists_reach_of_run
      ([input₀, input₁] ++ List.replicate 12 .input ++
        [input₀, input₀, input₀, input₁, input₁, input₁, input₁, input₀]) (by decide +kernel)
  obtain ⟨s, hreach, hqueue⟩ := hrun
  exact ⟨s, hqueue, owner_unique hreach⟩

/-! ## What is written is what was read -/

/-- Places of a buffer whose range is that of an operation. -/
def Place.loaded : Place → Nat
  | .queue .input | .unfilled => 0
  | _ => 1

/-- Places of a buffer that has a range, and not its data yet. -/
def Place.raw : Place → Nat
  | .filled | .before .input => 1
  | _ => 0

/-- The range of the buffer is that of an operation that has been scheduled. -/
def State.Filled (s : State cfg) (b : Fin cfg.buffers) : Prop :=
  ∃ op, op < s.ops ∧ (s.header b).range = cfg.range op

/-- How many of the operations have been scheduled. -/
def Input.Scheduled {buffers workers : Nat} (ops total : Nat) : Input buffers workers → Prop
  | .getBuffer _ | .hand _ _ .fill => ops < total
  | .getWorker | .hand _ _ _ => ops ≤ total
  | _ => ops = total

structure Sound (s : State cfg) : Prop where
  single : Single s
  filled : ∀ b, s.Filled b ∨ s.weight Place.loaded b = 0
  bufhdrp : ∀ side w b, (s.worker side w).bufhdrp = some b → s.Filled b
  content : ∀ b, (s.header b).content = (s.header b).range ∨ 1 ≤ s.weight Place.raw b
  written : ∀ write ∈ s.written, write.content = write.range ∧
    ∃ op, op < s.ops ∧ write.range = cfg.range op
  scheduled : s.input.Scheduled s.ops cfg.ops

theorem Config.lt_ops (op : Nat) : op < cfg.ops ↔ op * cfg.transferSize < cfg.fileSize := by
  have hsize := cfg.transferSize_pos
  rw [Config.ops, ← Nat.succ_le_iff, Nat.le_div_iff_mul_le hsize, Nat.succ_mul]
  omega

theorem Input.Scheduled.le {buffers workers ops total : Nat} {input : Input buffers workers}
    (h : input.Scheduled ops total) : ops ≤ total := by
  cases input with
  | getWorker => exact h
  | getBuffer => exact Nat.le_of_lt h
  | hand w b stage =>
    cases stage with
    | fill => exact Nat.le_of_lt h
    | _ => exact h
  | _ => exact Nat.le_of_eq h

theorem State.weight_mono {f g : Place → Nat} (hle : ∀ p, f p ≤ g p) (b : Fin cfg.buffers) :
    s.weight f b ≤ s.weight g b := by
  have hsplit : s.weight g b = s.weight (fun p => f p + (g p - f p)) b := by
    refine congrArg (fun g => s.weight g b) ?_
    funext p
    have := hle p
    omega
  rw [hsplit, State.weight_add]
  exact Nat.le_add_right _ _

theorem SameData.filled (h : SameData s s') {b : Fin cfg.buffers} (hb : s.Filled b) :
    s'.Filled b := by
  obtain ⟨op, hop, hrange⟩ := hb
  exact ⟨op, h.ops ▸ hop, (h.range b).trans hrange⟩

/-- A range that has been scheduled stays so. -/
theorem Change.filled {a : Action cfg} (h : Change s a s') {b : Fin cfg.buffers}
    (hb : s.Filled b) : s'.Filled b := by
  cases h with
  | still _ _ hstays hdata => exact hdata.filled hb
  | carry _ _ b' p q hcarry hmoves hdata => exact hdata.filled hb
  | takeEnd _ b' heof hmoves hdata => exact hdata.filled hb
  | put _ side w b' hphase hmoves hdata => exact hdata.filled hb
  | mark _ w b' b'' hinput hinput' hbufhdrp hmoves hdata => exact hdata.filled hb
  | fill _ w b' hinput hmoves hheader hops hwritten =>
    obtain ⟨op, hop, hrange⟩ := hb
    by_cases hbb : b = b'
    · subst hbb
      exact ⟨s.ops, by omega, by rw [hheader, Function.update_self]⟩
    · exact ⟨op, by omega, by rw [hheader, Function.update_of_ne hbb, hrange]⟩
  | read _ w b' hmoves hheader hops hwritten =>
    obtain ⟨op, hop, hrange⟩ := hb
    refine ⟨op, hops ▸ hop, ?_⟩
    by_cases hbb : b = b'
    · subst hbb
      rw [hheader, Function.update_self, hrange]
    · rw [hheader, Function.update_of_ne hbb, hrange]
  | write _ w b' hmoves hheader hops hwritten =>
    obtain ⟨op, hop, hrange⟩ := hb
    exact ⟨op, hops ▸ hop, hheader ▸ hrange⟩

/-- Where a worker got its buffer. -/
theorem Step.bufhdrp {a : Action cfg} (h : Step s a s') {side : Side}
    {w : Fin (cfg.workers side)} {b : Fin cfg.buffers}
    (hb : (s'.worker side w).bufhdrp = some b) : (s.worker side w).bufhdrp = some b ∨
      (a = .input ∧ ∃ w, s.input = .hand w b .fill) ∨ ∃ w, s.output = .hand w b .fill := by
  cases a with
  | worker side' w' => exact .inl (h.frame_worker.2.2 side w ▸ hb)
  | input =>
    cases side with
    | output => exact .inl (h.frame_input.2 ▸ hb)
    | input =>
      by_cases hgiven : ∃ w, s.input = .hand w b .fill
      · exact .inr (.inl ⟨rfl, hgiven⟩)
      refine .inl ?_
      cases h with
      | fill w' b' hinput =>
        by_cases hw : w = w'
        · subst hw
          have hbb : b' = b := by simpa [State.hand] using hb
          exact absurd ⟨w, hbb ▸ hinput⟩ hgiven
        · simpa [State.hand, State.setHeader, hw] using hb
      | handInput w' b' stage after hinput hfill hafter =>
        cases stage with
        | fill => exact absurd rfl hfill
        | _ => by_cases hw : w = w' <;> simpa [State.hand, hw, Worker.broadcast] using hb
      | handedInput w' b' hinput =>
        by_cases hw : w = w' <;> simpa [State.hand, hw, Worker.broadcast] using hb
      | collectWorker left last w' rest hinput hidle =>
        by_cases hw : w = w' <;>
          simpa [State.terminateWorker, State.setIdle, hw, Worker.broadcast] using hb
      | mark w' b₁ b₂ hinput hbufhdrp =>
        obtain ⟨hworker, -⟩ :=
          State.bhEnqueue_frame (s := s.setHeader b₁ { s.header b₁ with eof := true }) b₂
            (State.nextQueue (s.worker .input w'))
        exact congrFun hworker .input ▸ hb
      | _ => exact hb
  | output =>
    cases side with
    | input => exact .inl (h.frame_output.2 ▸ hb)
    | output =>
      by_cases hgiven : ∃ w, s.output = .hand w b .fill
      · exact .inr (.inr hgiven)
      refine .inl ?_
      cases h with
      | handOutput w' b' stage after houtput hafter =>
        cases stage with
        | fill =>
          by_cases hw : w = w'
          · subst hw
            have hbb : b' = b := by simpa [State.hand] using hb
            exact absurd ⟨w, hbb ▸ houtput⟩ hgiven
          · simpa [State.hand, hw] using hb
        | _ => by_cases hw : w = w' <;> simpa [State.hand, hw, Worker.broadcast] using hb
      | handedOutput w' b' houtput =>
        by_cases hw : w = w' <;> simpa [State.hand, hw, Worker.broadcast] using hb
      | terminate left w' rest houtput hidle =>
        by_cases hw : w = w' <;>
          simpa [State.terminateWorker, State.setIdle, hw, Worker.broadcast] using hb
      | _ => exact hb

/-- A weight that does not grow with the move of a buffer does not grow. -/
theorem Moves.weight_le {b : Fin cfg.buffers} {p q : Option Place} (h : Moves s s' b p q)
    {f : Place → Nat} (hle : q.elim 0 f ≤ p.elim 0 f) (b' : Fin cfg.buffers) :
    s'.weight f b' ≤ s.weight f b' := by
  by_cases hb : b' = b
  · subst hb
    have := h.weight_self f
    omega
  · exact (h.weight_of_ne hb f).le

theorem Moves.le_weight {b : Fin cfg.buffers} {p q : Option Place} (h : Moves s s' b p q)
    {f : Place → Nat} (hle : p.elim 0 f ≤ q.elim 0 f) (b' : Fin cfg.buffers) :
    s.weight f b' ≤ s'.weight f b' := by
  by_cases hb : b' = b
  · subst hb
    have := h.weight_self f
    omega
  · exact (h.weight_of_ne hb f).ge

theorem Place.loaded_le (p : Place) : p.loaded ≤ 1 := by
  cases p with
  | queue side => cases side <;> simp [loaded]
  | _ => simp [loaded]

namespace Sound

theorem filled_step (hs : Sound s) {a : Action cfg} (h : Change s a s') (b : Fin cfg.buffers) :
    s'.Filled b ∨ s'.weight Place.loaded b = 0 := by
  obtain hb | hb := hs.filled b
  · exact .inl (h.filled hb)
  have hmove {b' : Fin cfg.buffers} {p : Place} {q : Option Place}
      (hmoves : Moves s s' b' (some p) q) (hle : q.elim 0 Place.loaded ≤ p.loaded) :
      s'.Filled b ∨ s'.weight Place.loaded b = 0 :=
    .inr (Nat.le_zero.mp ((hmoves.weight_le hle b).trans hb.le))
  cases h with
  | still _ _ hstays hdata => exact .inr ((hstays _ b).trans hb)
  | carry _ _ b' p q hcarry hmoves hdata =>
    refine hmove hmoves ?_
    cases hcarry <;> decide
  | takeEnd _ b' heof hmoves hdata => exact hmove hmoves (Nat.zero_le _)
  | put _ side w b' hphase hmoves hdata =>
    refine hmove hmoves ?_
    cases State.nextQueue (s.worker side w) with
    | none => exact Nat.zero_le _
    | some side' => exact (Place.loaded_le _).trans (by cases side <;> decide)
  | mark _ w b' b'' hinput hinput' hbufhdrp hmoves hdata =>
    by_cases hbb : b = b''
    · subst hbb
      exact .inl (hdata.filled (hs.bufhdrp _ _ _ hbufhdrp))
    · exact .inr ((hmoves.weight_of_ne hbb _).trans hb)
  | fill _ w b' hinput hmoves hheader hops hwritten =>
    by_cases hbb : b = b'
    · subst hbb
      exact .inl ⟨s.ops, by omega, by rw [hheader, Function.update_self]⟩
    · exact .inr ((hmoves.weight_of_ne hbb _).trans hb)
  | read _ w b' hmoves hheader hops hwritten => exact hmove hmoves (by decide)
  | write _ w b' hmoves hheader hops hwritten => exact hmove hmoves (by decide)

theorem content_step (hs : Sound s) {a : Action cfg} (h : Change s a s')
    (b : Fin cfg.buffers) :
    (s'.header b).content = (s'.header b).range ∨ 1 ≤ s'.weight Place.raw b := by
  have hmove {b' : Fin cfg.buffers} {p q : Option Place}
      (hmoves : Moves s s' b' p q) (hle : p.elim 0 Place.raw ≤ q.elim 0 Place.raw)
      (hcontent : (s'.header b).content = (s.header b).content)
      (hrange : (s'.header b).range = (s.header b).range) :
      (s'.header b).content = (s'.header b).range ∨ 1 ≤ s'.weight Place.raw b := by
    rw [hcontent, hrange]
    exact (hs.content b).imp_right fun hb => hb.trans (hmoves.le_weight hle b)
  cases h with
  | still _ _ hstays hdata =>
    rw [hdata.content, hdata.range, hstays]
    exact hs.content b
  | carry _ _ b' p q hcarry hmoves hdata =>
    refine hmove hmoves ?_ (hdata.content b) (hdata.range b)
    cases hcarry <;> decide
  | takeEnd _ b' heof hmoves hdata =>
    exact hmove hmoves (by decide) (hdata.content b) (hdata.range b)
  | put _ side w b' hphase hmoves hdata =>
    refine hmove hmoves ?_ (hdata.content b) (hdata.range b)
    cases side <;> exact Nat.zero_le _
  | mark _ w b' b'' hinput hinput' hbufhdrp hmoves hdata =>
    exact hmove hmoves (Nat.zero_le _) (hdata.content b) (hdata.range b)
  | fill _ w b' hinput hmoves hheader hops hwritten =>
    by_cases hbb : b = b'
    · subst hbb
      have hself := hmoves.weight_self Place.raw
      simp only [Option.elim_some, Place.raw] at hself
      exact .inr (by omega)
    · exact hmove hmoves (by decide) (by rw [hheader, Function.update_of_ne hbb])
        (by rw [hheader, Function.update_of_ne hbb])
  | read _ w b' hmoves hheader hops hwritten =>
    by_cases hbb : b = b'
    · subst hbb
      rw [hheader, Function.update_self]
      exact .inl rfl
    · rw [hheader, Function.update_of_ne hbb, hmoves.weight_of_ne hbb]
      exact hs.content b
  | write _ w b' hmoves hheader hops hwritten =>
    exact hmove hmoves (by decide) (by rw [hheader]) (by rw [hheader])

/-- The output target hands on a buffer whose range is that of an operation. -/
theorem filled_of_output (hs : Sound s) {w : Fin (cfg.workers .output)} {b : Fin cfg.buffers}
    (houtput : s.output = .hand w b .fill) : s.Filled b := by
  refine (hs.filled b).resolve_right fun hzero => ?_
  have hpos : s.output.weight Place.loaded b = 1 := by simp [houtput, Output.weight, Place.loaded]
  rw [State.weight, hpos] at hzero
  omega

theorem bufhdrp_step (hs : Sound s) {a : Action cfg} (h : Step s a s') (side : Side)
    (w : Fin (cfg.workers side)) (b : Fin cfg.buffers)
    (hb : (s'.worker side w).bufhdrp = some b) : s'.Filled b := by
  have hchange := h.change hs.single.placed
  obtain hold | ⟨rfl, w', hinput⟩ | ⟨w', houtput⟩ := h.bufhdrp hb
  · exact hchange.filled (hs.bufhdrp side w b hold)
  · cases h with
    | fill w₁ b₁ hinput₁ =>
      cases hinput.symm.trans hinput₁
      exact ⟨s.ops, Nat.lt_succ_self _, by simp [State.setHeader]⟩
    | handInput w₁ b₁ stage after hinput₁ hfill =>
      cases hinput.symm.trans hinput₁
      exact absurd rfl hfill
    | _ => cases hinput.symm.trans ‹s.input = _›
  · exact hchange.filled (hs.filled_of_output houtput)

theorem scheduled_step (hs : Sound s) {a : Action cfg} (h : Step s a s') :
    s'.input.Scheduled s'.ops cfg.ops := by
  have hscheduled := hs.scheduled
  have hchange := h.change hs.single.placed
  cases a with
  | input =>
    cases h with
    | takeWorker w rest hinput hops hidle => exact (Config.lt_ops _).mpr hops
    | scheduled hinput hops =>
      have hle := hscheduled.le
      have hnot := mt (Config.lt_ops s.ops).mp hops.not_gt
      exact Nat.le_antisymm hle (Nat.le_of_not_lt hnot)
    | takeBuffer w b rest hinput hqueue =>
      rw [hinput] at hscheduled
      exact hscheduled
    | fill w b hinput =>
      rw [hinput] at hscheduled
      exact hscheduled
    | handInput w b stage after hinput hfill hafter =>
      have hle := hscheduled.le
      cases stage <;> cases hafter
      · exact absurd rfl hfill
      · exact hle
      · exact hle
    | handedInput w b hinput => exact hscheduled.le
    | collectWorker | workersCollected | collectBuffer | crash =>
      rw [‹s.input = _›] at hscheduled
      exact hscheduled
    | mark w b b' hinput hbufhdrp =>
      obtain ⟨-, -, -, hops, -⟩ :=
        State.bhEnqueue_frame (s := s.setHeader b { s.header b with eof := true }) b'
          (State.nextQueue (s.worker .input w))
      rw [hinput] at hscheduled
      exact hops.trans hscheduled
  | output =>
    have hops : s'.ops = s.ops := by
      cases hchange with
      | still _ _ hstays hdata => exact hdata.ops
      | carry _ _ b p q hcarry hmoves hdata => exact hdata.ops
      | takeEnd _ b heof hmoves hdata => exact hdata.ops
    rw [h.frame_output.1, hops]
    exact hscheduled
  | worker side w =>
    have hops : s'.ops = s.ops := by
      cases hchange with
      | still _ _ hstays hdata => exact hdata.ops
      | carry _ _ b p q hcarry hmoves hdata => exact hdata.ops
      | read _ _ b hmoves hheader hops => exact hops
      | write _ _ b hmoves hheader hops => exact hops
      | put _ _ _ b hphase hmoves hdata => exact hdata.ops
    rw [h.frame_worker.1, hops]
    exact hscheduled

/-- A buffer that a worker is about to write has the data of its range. -/
theorem content_of_write (hs : Sound s) {b : Fin cfg.buffers}
    (hb : 1 ≤ s.weight (Place.before .output).is b) :
    (s.header b).content = (s.header b).range ∧ s.Filled b := by
  constructor
  · refine (hs.content b).resolve_right fun hraw => ?_
    have hzero : s.weight Place.raw b = 0 := by
      refine State.weight_eq_zero_of_tokens (hs.single.tokens b) hb fun q => ?_
      cases q with
      | before side => cases side <;> decide
      | _ => simp [Place.raw, Place.is]
    omega
  · refine (hs.filled b).resolve_right fun hzero => ?_
    have hle := s.weight_mono (f := (Place.before .output).is) (g := Place.loaded) (fun p => ?_) b
    · omega
    · cases p <;> simp [Place.is, Place.loaded]
      split <;> simp

theorem written_step (hs : Sound s) {a : Action cfg} (h : Change s a s') :
    ∀ write ∈ s'.written, write.content = write.range ∧
      ∃ op, op < s'.ops ∧ write.range = cfg.range op := by
  have hkeep (hwritten : s'.written = s.written) (hops : s.ops ≤ s'.ops) :
      ∀ write ∈ s'.written, write.content = write.range ∧
        ∃ op, op < s'.ops ∧ write.range = cfg.range op := by
    intro write hwrite
    obtain ⟨hcontent, op, hop, hrange⟩ := hs.written write (hwritten ▸ hwrite)
    exact ⟨hcontent, op, hop.trans_le hops, hrange⟩
  cases h with
  | still _ _ hstays hdata => exact hkeep hdata.written hdata.ops.ge
  | carry _ _ b p q hcarry hmoves hdata => exact hkeep hdata.written hdata.ops.ge
  | takeEnd _ b heof hmoves hdata => exact hkeep hdata.written hdata.ops.ge
  | put _ side w b hphase hmoves hdata => exact hkeep hdata.written hdata.ops.ge
  | mark _ w b b' hinput hinput' hbufhdrp hmoves hdata => exact hkeep hdata.written hdata.ops.ge
  | fill _ w b hinput hmoves hheader hops hwritten => exact hkeep hwritten (by omega)
  | read _ w b hmoves hheader hops hwritten => exact hkeep hwritten hops.ge
  | write _ w b hmoves hheader hops hwritten =>
    rw [hwritten, hops]
    intro write hwrite
    obtain hwrite | hwrite := List.mem_append.mp hwrite
    · exact hs.written write hwrite
    · rw [List.mem_singleton.mp hwrite]
      exact hs.content_of_write (hmoves.from_pos (by simp))

theorem init (cfg : Config) : Sound (init cfg) where
  single := Single.init cfg
  filled := fun b => .inr (weight_init cfg _ b)
  bufhdrp := nofun
  content := fun _ => .inl rfl
  written := nofun
  scheduled := Nat.zero_le _

theorem step (hs : Sound s) {a : Action cfg} (h : Step s a s') : Sound s' where
  single := hs.single.step h
  filled := hs.filled_step (h.change hs.single.placed)
  bufhdrp := hs.bufhdrp_step h
  content := hs.content_step (h.change hs.single.placed)
  written := hs.written_step (h.change hs.single.placed)
  scheduled := hs.scheduled_step h

end Sound

theorem Reachable.sound (h : Reachable s) : Sound s :=
  h.invariant (Sound.init cfg) fun _ _ _ hs _ hstep => hs.step (.of_eq_some hstep)

/-- Whatever is written is the data of an operation, in its place. -/
theorem written_own_data (h : Reachable s) : ∀ write ∈ s.written,
    write.content = write.range ∧ ∃ op, op < cfg.ops ∧ write.range = cfg.range op := by
  intro write hwrite
  obtain ⟨hcontent, op, hop, hrange⟩ := h.sound.written write hwrite
  exact ⟨hcontent, op, hop.trans_le h.sound.scheduled.le, hrange⟩

/-- A range of the copy with two readers has been written. -/
theorem written_own_data_twoReaders : ∃ s : State twoReaders, s.written ≠ [] ∧
    ∀ write ∈ s.written, write.content = write.range ∧
      ∃ op, op < twoReaders.ops ∧ write.range = twoReaders.range op := by
  have hrun : ∃ s, Transition.Reach step Transition.anyStep (init twoReaders) s ∧
      s.written ≠ [] :=
    Transition.exists_reach_of_run
      ([input₀, input₁] ++ List.replicate 12 .input ++
        [input₀, input₀, input₀, input₁, input₁, input₁, input₁, input₀] ++
        [output₀] ++ List.replicate 6 .output ++ List.replicate 4 output₀) (by decide +kernel)
  obtain ⟨s, hreach, hwritten⟩ := hrun
  exact ⟨s, hwritten, written_own_data hreach⟩

end Xdd.Bx
