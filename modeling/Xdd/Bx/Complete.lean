import Xdd.Bx.Carried

/-!
# When everything has been written

A target sets `bx_wd_next_buffer_queue` after it has released the worker. If no worker has done
its first read or write before, each range that has been scheduled is in a buffer on its way or
has been written, once: as soon as all buffers are back at the input target, everything has been
written.
-/

namespace Xdd.Bx

variable {cfg : Config} {s s' : State cfg}

/-- A worker that puts its buffer on a queue has been told on which. -/
def HandedOver (s : State cfg) : Action cfg → Prop
  | .worker side w => (s.worker side w).phase = .put → (s.worker side w).next ≠ none
  | _ => True

instance (s : State cfg) (a : Action cfg) : Decidable (HandedOver s a) :=
  match a with
  | .worker side w => inferInstanceAs
      (Decidable ((s.worker side w).phase = .put → (s.worker side w).next ≠ none))
  | .input | .output => isTrue trivial

/-- Only the target of a worker tells it where to put its buffer. -/
theorem Step.next {a : Action cfg} (h : Step s a s') (side : Side) (w : Fin (cfg.workers side)) :
    (s'.worker side w).next = (s.worker side w).next ∨
      (s'.worker side w).next = some side.next := by
  have hkeep (side' : Side) (w' : Fin (cfg.workers side')) (new : Worker cfg.buffers)
      (hnew : new.next = (s.worker side' w').next ∨ new.next = some side'.next) :
      (Function.update s.worker side' (Function.update (s.worker side') w' new) side w).next =
          (s.worker side w).next ∨
        (Function.update s.worker side' (Function.update (s.worker side') w' new) side w).next =
          some side.next := by
    by_cases hside : side = side'
    · subst hside
      by_cases hw : w = w'
      · subst hw
        simpa using hnew
      · simp [hw]
    · simp [hside]
  cases h with
  | fill w' b hinput =>
    exact hkeep .input w' { s.worker .input w' with bufhdrp := some b } (.inl rfl)
  | handInput w' b stage after hinput hfill hafter =>
    cases stage with
    | fill => exact absurd rfl hfill
    | release => exact hkeep .input w' { s.worker .input w' with released := true } (.inl rfl)
    | next =>
      exact hkeep .input w' { s.worker .input w' with next := some Side.input.next } (.inr rfl)
    | broadcast => cases hafter
  | handedInput w' b hinput => exact hkeep .input w' (s.worker .input w').broadcast (.inl rfl)
  | collectWorker left last w' rest hinput hidle =>
    exact hkeep .input w' { (s.worker .input w').broadcast with terminate := true } (.inl rfl)
  | handOutput w' b stage after houtput hafter =>
    cases stage with
    | fill => exact hkeep .output w' { s.worker .output w' with bufhdrp := some b } (.inl rfl)
    | release => exact hkeep .output w' { s.worker .output w' with released := true } (.inl rfl)
    | next =>
      exact hkeep .output w' { s.worker .output w' with next := some Side.output.next } (.inr rfl)
    | broadcast => cases hafter
  | handedOutput w' b houtput => exact hkeep .output w' (s.worker .output w').broadcast (.inl rfl)
  | terminate left w' rest houtput hidle =>
    exact hkeep .output w' { (s.worker .output w').broadcast with terminate := true } (.inl rfl)
  | enqueue side' w' hphase =>
    exact hkeep side' w' { s.worker side' w' with phase := .test } (.inl rfl)
  | wake side' w' hphase hreleased => exact hkeep side' w' _ (.inl rfl)
  | doze side' w' hphase hreleased =>
    exact hkeep side' w' { s.worker side' w' with phase := .drowsy } (.inl rfl)
  | sleep side' w' hphase =>
    exact hkeep side' w' { s.worker side' w' with phase := .asleep } (.inl rfl)
  | read w' b hphase hbufhdrp =>
    exact hkeep .input w' { s.worker .input w' with phase := .put } (.inl rfl)
  | write w' b hphase hbufhdrp =>
    exact hkeep .output w' { s.worker .output w' with phase := .put } (.inl rfl)
  | put side' w' b hphase hbufhdrp =>
    obtain ⟨hworker, -⟩ := State.bhEnqueue_frame
      (s := s.setWorker side' w' { s.worker side' w' with phase := .start }) b
      (State.nextQueue (s.worker side' w'))
    rw [hworker]
    exact hkeep side' w' { s.worker side' w' with phase := .start } (.inl rfl)
  | mark w' b b' hinput hbufhdrp =>
    obtain ⟨hworker, -⟩ :=
      State.bhEnqueue_frame (s := s.setHeader b { s.header b with eof := true }) b'
        (State.nextQueue (s.worker .input w'))
    exact .inl (congrArg Worker.next (congrFun (congrFun hworker side) w))
  | _ => exact .inl rfl

/-- The end of file is marked in the last step of the input target. -/
theorem Step.eof {a : Action cfg} (h : Step s a s') (hfinished : s'.input ≠ .finished)
    (hcrashed : s'.input ≠ .crashed) (b : Fin cfg.buffers) :
    (s'.header b).eof = (s.header b).eof := by
  cases h with
  | fill w b' hinput =>
    by_cases hb : b = b'
    · subst hb
      simp [State.setHeader]
    · simp [State.setHeader, hb]
  | read w b' hphase hbufhdrp =>
    by_cases hb : b = b'
    · subst hb
      simp [State.setHeader]
    · simp [State.setHeader, State.setWorker, hb]
  | mark => exact absurd rfl hfinished
  | crash => exact absurd rfl hcrashed
  | put side' w' b' hphase hbufhdrp =>
    obtain ⟨-, -, hheader, -⟩ := State.bhEnqueue_frame
      (s := s.setWorker side' w' { s.worker side' w' with phase := .start }) b'
      (State.nextQueue (s.worker side' w'))
    rw [hheader]
    rfl
  | handInput | handOutput | handedInput | handedOutput => simp
  | _ => rfl

/-! ## Every range once -/

/-- Places of a buffer whose range has still to be written. -/
def Place.pending : Place → Nat
  | .filled | .before _ | .after .input | .queue .output | .taken => 1
  | .queue .input | .unfilled | .after .output => 0

/-- How many buffers are on their way with the range. -/
def State.carried (s : State cfg) (r : Range) (b : Fin cfg.buffers) : Nat :=
  if (s.header b).range = r then s.weight Place.pending b else 0

/-- How often the range has been written or is about to be. -/
def State.account (s : State cfg) (r : Range) : Nat :=
  (s.written.map Write.range).count r + ∑ b, s.carried r b

theorem Config.range_injective : Function.Injective cfg.range := by
  intro op op' h
  exact Nat.eq_of_mul_eq_mul_right cfg.transferSize_pos (congrArg Range.offset h)

/-- No step but the one that fills in a buffer changes the account of a range. -/
theorem State.account_eq (r : Range) (hwritten : s'.written = s.written)
    (hcarried : ∀ b, s'.carried r b = s.carried r b) : s'.account r = s.account r := by
  rw [account, account, hwritten, Finset.sum_congr rfl fun b _ => hcarried b]

theorem Moves.carried_eq {b : Fin cfg.buffers} {p q : Option Place} (h : Moves s s' b p q)
    (hsame : p.elim 0 Place.pending = q.elim 0 Place.pending)
    (hrange : ∀ b, (s'.header b).range = (s.header b).range) (r : Range)
    (b' : Fin cfg.buffers) : s'.carried r b' = s.carried r b' := by
  have hweight : s'.weight Place.pending b' = s.weight Place.pending b' :=
    Nat.le_antisymm (h.weight_le hsame.ge b') (h.le_weight hsame.le b')
  rw [State.carried, State.carried, hrange, hweight]

/-- The range of the next operation gets its account. -/
theorem account_fill (hs : Sound s) {b : Fin cfg.buffers}
    (hmoves : Moves s s' b (some .unfilled) (some .filled))
    (hheader : s'.header = Function.update s.header b
      { s.header b with range := cfg.range s.ops }) (hwritten : s'.written = s.written)
    (r : Range) : s'.account r = s.account r + if cfg.range s.ops = r then 1 else 0 := by
  have hzero : s.weight Place.pending b = 0 :=
    State.weight_eq_zero_of_tokens (hs.single.tokens b) (hmoves.from_pos (by simp)) fun q => by
      cases q with
      | queue side => cases side <;> decide
      | after side => cases side <;> decide
      | _ => simp [Place.pending, Place.is]
  have hone : s'.weight Place.pending b = 1 := by
    have hself := hmoves.weight_self Place.pending
    simp only [Option.elim_some, Place.pending] at hself
    omega
  have hother (b' : Fin cfg.buffers) (hne : b' ≠ b) : s'.carried r b' = s.carried r b' := by
    rw [State.carried, State.carried, hheader, Function.update_of_ne hne,
      hmoves.weight_of_ne hne]
  have hsum := Account.sum_add_eq_sum_add b hother
  have hold : s.carried r b = 0 := by simp [State.carried, hzero]
  have hnew : s'.carried r b = if cfg.range s.ops = r then 1 else 0 := by
    rw [State.carried, hheader, Function.update_self, hone]
  rw [State.account, State.account, hwritten]
  omega

/-- The range goes over to what has been written. -/
theorem account_write {b : Fin cfg.buffers}
    (hmoves : Moves s s' b (some (.before .output)) (some (.after .output)))
    (hheader : s'.header = s.header)
    (hwritten : s'.written = s.written ++ [⟨(s.header b).range, (s.header b).content⟩])
    (r : Range) : s'.account r = s.account r := by
  have hself := hmoves.weight_self Place.pending
  simp only [Option.elim_some, Place.pending] at hself
  have hother (b' : Fin cfg.buffers) (hne : b' ≠ b) : s'.carried r b' = s.carried r b' := by
    rw [State.carried, State.carried, hheader, hmoves.weight_of_ne hne]
  have hsum := Account.sum_add_eq_sum_add b hother
  have hcount : (s'.written.map Write.range).count r = (s.written.map Write.range).count r +
      if (s.header b).range = r then 1 else 0 := by
    rw [hwritten, List.map_append, List.count_append]
    simp [List.count_singleton]
  have hb : s'.carried r b + (if (s.header b).range = r then 1 else 0) = s.carried r b := by
    rw [State.carried, State.carried, hheader]
    split
    · omega
    · rfl
  rw [State.account, State.account, hcount]
  omega

/-- What holds as long as the workers wait to be told. -/
structure Orderly (s : State cfg) : Prop where
  sound : Sound s
  next : ∀ side w, (s.worker side w).next = none ∨ (s.worker side w).next = some side.next
  eof : s.input ≠ .finished → s.input ≠ .crashed → ∀ b, (s.header b).eof = false
  account : s.input ≠ .finished → ∀ op, op < cfg.ops →
    s.account (cfg.range op) = if op < s.ops then 1 else 0
  copied : s.input = .finished ∨ s.input = .crashed → Copied s

namespace Orderly

theorem account_step (hs : Orderly s) {a : Action cfg} (h : Change s a s')
    (hok : HandedOver s a) (hcrashed : s.input ≠ .crashed) (hfinished : s.input ≠ .finished)
    (hfinished' : s'.input ≠ .finished) (op : Nat) (hop : op < cfg.ops) :
    s'.account (cfg.range op) = if op < s'.ops then 1 else 0 := by
  have hsame (heq : s'.account (cfg.range op) = s.account (cfg.range op))
      (hops : s'.ops = s.ops) : s'.account (cfg.range op) = if op < s'.ops then 1 else 0 := by
    rw [heq, hops, hs.account hfinished op hop]
  cases h with
  | still _ _ hstays hdata =>
    refine hsame (State.account_eq _ hdata.written fun b => ?_) hdata.ops
    rw [State.carried, State.carried, hdata.range, hstays]
  | carry _ _ b p q hcarry hmoves hdata =>
    refine hsame (State.account_eq _ hdata.written fun b => ?_) hdata.ops
    refine hmoves.carried_eq ?_ hdata.range _ b
    cases hcarry <;> rfl
  | takeEnd _ b heof hmoves hdata =>
    rw [hs.eof hfinished hcrashed b] at heof
    cases heof
  | fill _ w b hinput hmoves hheader hops hwritten =>
    have hold := hs.account hfinished op hop
    rw [account_fill hs.sound hmoves hheader hwritten, hold, hops]
    have hinj : cfg.range s.ops = cfg.range op ↔ s.ops = op :=
      ⟨fun h => cfg.range_injective h, fun h => h ▸ rfl⟩
    simp only [hinj]
    split_ifs <;> omega
  | read _ w b hmoves hheader hops hwritten =>
    refine hsame (State.account_eq _ hwritten fun b' => ?_) hops
    refine hmoves.carried_eq rfl (fun b'' => ?_) _ b'
    by_cases hb : b'' = b
    · subst hb
      rw [hheader, Function.update_self]
    · rw [hheader, Function.update_of_ne hb]
  | write _ w b hmoves hheader hops hwritten =>
    exact hsame (account_write hmoves hheader hwritten _) hops
  | put _ side w b hphase hmoves hdata =>
    have hnext : State.nextQueue (s.worker side w) = some side.next := by
      rw [State.nextQueue, (hs.next side w).resolve_left (hok hphase)]
      rfl
    rw [hnext] at hmoves
    refine hsame (State.account_eq _ hdata.written fun b' => ?_) hdata.ops
    refine hmoves.carried_eq ?_ hdata.range _ b'
    cases side <;> rfl
  | mark _ w b b' hinput hinput' => exact absurd hinput' hfinished'

/-- All buffers are back: what has been scheduled has been written. -/
theorem count_of_collected (hs : Orderly s) {last : Option (Fin (cfg.workers .input))}
    {buffer : Option (Fin cfg.buffers)} (hinput : s.input = .collectBuffers 0 last buffer)
    {op : Nat} (hop : op < cfg.ops) : (s.written.map Write.range).count (cfg.range op) = 1 := by
  have hops : s.ops = cfg.ops := by
    have hscheduled := hs.sound.scheduled
    rw [hinput] at hscheduled
    exact hscheduled
  have haccount := hs.account (by simp [hinput]) op hop
  have hcarried : ∑ b, s.carried (cfg.range op) b = 0 := by
    refine Finset.sum_eq_zero fun b _ => ?_
    have hsum := hs.sound.single.collected 0 last buffer hinput
    have htokens := Finset.single_le_sum (fun b _ => Nat.zero_le (s.tokens b))
      (Finset.mem_univ b)
    have hle := s.weight_mono (f := Place.pending) (g := fun _ => 1) (fun p => ?_) b
    · rw [State.carried]
      rw [State.tokens] at htokens
      split
      · omega
      · rfl
    · cases p with
      | queue side => cases side <;> decide
      | after side => cases side <;> decide
      | _ => simp [Place.pending]
  rw [State.account, hcarried, hops, if_pos hop] at haccount
  exact haccount

theorem mem_of_count (hs : Sound s) {op : Nat}
    (hcount : 1 ≤ (s.written.map Write.range).count (cfg.range op)) :
    ⟨cfg.range op, cfg.range op⟩ ∈ s.written := by
  obtain ⟨write, hwrite, hrange⟩ := List.mem_map.mp (List.count_pos_iff.mp hcount)
  have hcontent := (hs.written write hwrite).1
  obtain ⟨range, content⟩ := write
  cases hrange
  cases hcontent
  exact hwrite

end Orderly

/-- The input target does not come back from its end. -/
theorem Step.not_finished {a : Action cfg} (h : Step s a s') (hfinished : s'.input ≠ .finished) :
    s.input ≠ .finished := by
  intro hinput
  cases a with
  | input => cases h <;> cases hinput.symm.trans ‹s.input = _›
  | output => exact hfinished (h.frame_output.1.trans hinput)
  | worker side w => exact hfinished (h.frame_worker.1.trans hinput)

namespace Orderly

theorem init (cfg : Config) : Orderly (init cfg) where
  sound := Sound.init cfg
  next := fun _ _ => .inl rfl
  eof := fun _ _ _ => rfl
  account := by
    intro _ op _
    have hcarried : ∑ b, (Bx.init cfg).carried (cfg.range op) b = 0 :=
      Finset.sum_eq_zero fun b _ => by simp [State.carried, weight_init, Place.pending]
    rw [State.account, hcarried]
    rfl
  copied := by
    rintro (hfinished | hcrashed)
    · cases hfinished
    · cases hcrashed

theorem written_subset {a : Action cfg} (h : Change s a s') : s.written ⊆ s'.written := by
  cases h with
  | still _ _ hstays hdata => exact hdata.written ▸ List.Subset.refl _
  | carry _ _ b p q hcarry hmoves hdata => exact hdata.written ▸ List.Subset.refl _
  | takeEnd _ b heof hmoves hdata => exact hdata.written ▸ List.Subset.refl _
  | put _ side w b hphase hmoves hdata => exact hdata.written ▸ List.Subset.refl _
  | mark _ w b b' hinput hinput' hbufhdrp hmoves hdata => exact hdata.written ▸ List.Subset.refl _
  | fill _ w b hinput hmoves hheader hops hwritten => exact hwritten ▸ List.Subset.refl _
  | read _ w b hmoves hheader hops hwritten => exact hwritten ▸ List.Subset.refl _
  | write _ w b hmoves hheader hops hwritten => exact hwritten ▸ List.subset_append_left _ _

theorem copied_of_collected (hs : Orderly s) {last : Option (Fin (cfg.workers .input))}
    {buffer : Option (Fin cfg.buffers)} (hinput : s.input = .collectBuffers 0 last buffer) :
    Copied s :=
  fun _ hop => mem_of_count hs.sound (hs.count_of_collected hinput hop).ge

theorem step (hs : Orderly s) {a : Action cfg} (h : Step s a s') (hok : HandedOver s a)
    (hcrashed : s.input ≠ .crashed) : Orderly s' where
  sound := hs.sound.step h
  next := by
    intro side w
    obtain hnext | hnext := h.next side w
    · rw [hnext]
      exact hs.next side w
    · exact .inr hnext
  eof := by
    intro hfinished' hcrashed' b
    rw [h.eof hfinished' hcrashed']
    exact hs.eof (h.not_finished hfinished') hcrashed b
  account := fun hfinished' op hop =>
    hs.account_step (h.change hs.sound.single.placed) hok hcrashed (h.not_finished hfinished')
      hfinished' op hop
  copied := by
    intro hend op hop
    have hsub := written_subset (h.change hs.sound.single.placed)
    cases a with
    | input =>
      cases h with
      | mark w b b' hinput hbufhdrp => exact hsub (hs.copied_of_collected hinput op hop)
      | crash w b hinput hbufhdrp => exact hs.copied_of_collected hinput op hop
      | _ => obtain hend | hend := hend <;> cases hend
    | output =>
      rw [h.frame_output.1] at hend
      exact hsub (hs.copied hend op hop)
    | worker side w =>
      rw [h.frame_worker.1] at hend
      exact hsub (hs.copied hend op hop)

theorem of_reach (h : Transition.Reach Bx.step HandedOver (Bx.init cfg) s) : Orderly s := by
  refine h.invariant (init cfg) fun s a s' hs hok hstep => hs.step (.of_eq_some hstep) hok ?_
  intro hcrashed
  have hnone : Bx.step s a = none := if_pos hcrashed
  cases hnone.symm.trans hstep

end Orderly

/-- The input target has got all buffers back. -/
def Input.Collected {buffers workers : Nat} : Input buffers workers → Prop
  | .collectBuffers 0 _ _ | .finished | .crashed => True
  | _ => False

/-- Up to its last step the input target has had no range written twice; when all buffers are
back, each range has been written with its own data. -/
theorem copied_when_collected (h : Transition.Reach step HandedOver (init cfg) s) :
    (s.input ≠ .finished → (s.written.map Write.range).Nodup) ∧
      (s.input.Collected → Copied s) := by
  have hs := Orderly.of_reach h
  constructor
  · intro hfinished
    rw [List.nodup_iff_count_le_one]
    intro r
    by_cases hr : r ∈ s.written.map Write.range
    · obtain ⟨write, hwrite, rfl⟩ := List.mem_map.mp hr
      obtain ⟨-, op, hop, hrange⟩ := hs.sound.written write hwrite
      have haccount := hs.account hfinished op (hop.trans_le hs.sound.scheduled.le)
      rw [if_pos hop, State.account] at haccount
      rw [hrange]
      omega
    · rw [List.count_eq_zero_of_not_mem hr]
      exact Nat.zero_le 1
  · intro hcollected
    cases hinput : s.input with
    | collectBuffers left last buffer =>
      cases left with
      | zero => exact hs.copied_of_collected hinput
      | succ left =>
        rw [hinput] at hcollected
        exact hcollected.elim
    | finished => exact hs.copied (.inl hinput)
    | crashed => exact hs.copied (.inr hinput)
    | _ =>
      rw [hinput] at hcollected
      exact hcollected.elim

instance {buffers workers : Nat} (input : Input buffers workers) : Decidable input.Collected := by
  unfold Input.Collected
  split <;> infer_instance

/-- Both ranges of the copy with two readers are there when the buffers are back. -/
theorem copied_twoReaders : ∃ s : State twoReaders, s.input.Collected ∧ Copied s := by
  have hrun : ∃ s, Transition.Reach step HandedOver (init twoReaders) s ∧ s.input.Collected :=
    Transition.exists_reach_of_run
      ([input₀, input₁] ++ List.replicate 12 .input ++
        [input₀, input₀, input₀, input₁, input₁, input₁, input₁, input₀] ++
        [output₀] ++ List.replicate 6 .output ++ List.replicate 4 output₀ ++
        List.replicate 6 .output ++ List.replicate 4 output₀ ++ List.replicate 6 .input)
      (by decide +kernel)
  obtain ⟨s, hreach, hcollected⟩ := hrun
  exact ⟨s, hcollected, (copied_when_collected hreach).2 hcollected⟩

end Xdd.Bx
