import Xdd.TimeStamp.Stamping

/-!
# Which time stamp entries are used

The table depends on nothing but the number of tasks stamped so far. The number of tasks of
a run decides whether that is as it should be: the table is sized for the operations of the
passes that were asked for and one end of file for each worker, but a run time adds passes, every
pass of an end-to-end source has its own ends of file, a wrapping table is wrapped after every
task, and a triggered one-shot table is stamped although it is full.
-/

namespace Xdd.TimeStamp

variable {cfg : Config}

/-- One shot goes before wrapping. -/
def Config.wrapping (cfg : Config) : Bool := cfg.wrap && !cfg.oneshot

/-- The entry that the code assigns to the `k`-th stamped task. -/
def Config.assigned (cfg : Config) (k : Nat) : Nat := if cfg.wrapping then 0 else k

/-- The table when `n` tasks have been stamped. -/
def Config.tableAfter (cfg : Config) (n : Nat) : TsTable where
  on := !cfg.oneshot || decide (n < cfg.tsSize)
  triggered := cfg.triggered
  oneshot := cfg.oneshot
  wrap := cfg.wrap
  currentEntry := cfg.assigned n
  size := cfg.tsSize

theorem Config.tsSize_pos (cfg : Config) : 0 < cfg.tsSize := by
  have hpos := cfg.queueDepth_pos
  rw [Config.tsSize]
  omega

theorem tsSetup_eq (cfg : Config) : tsSetup cfg = cfg.tableAfter 0 := by
  simp [tsSetup, Config.tableAfter, Config.assigned, cfg.tsSize_pos]

/-- The task is stamped: the table does not stop at its end, or it is not full. -/
def Config.Stamps (cfg : Config) (n : Nat) : Prop :=
  cfg.oneshot = false ∨ cfg.triggered = true ∨ n < cfg.tsSize

theorem stamp_tableAfter {n : Nat} (h : cfg.Stamps n) :
    (cfg.tableAfter n).stamp = (some (cfg.assigned n), cfg.tableAfter (n + 1)) := by
  have hon : ((cfg.tableAfter n).on || (cfg.tableAfter n).triggered) = true := by
    obtain h | h | h := h <;> simp [Config.tableAfter, h]
  rw [TsTable.stamp, if_pos hon]
  cases hone : cfg.oneshot with
  | true =>
    simp only [Config.tableAfter, hone, Config.assigned, Config.wrapping, Bool.not_true,
      Bool.and_false, Bool.false_or, if_true, Bool.false_eq_true, if_false]
    split
    · next hlast => simp [hlast]
    · next hlast =>
      have hiff : n < cfg.tsSize ↔ n + 1 < cfg.tsSize := by omega
      simp [hiff]
  | false =>
    cases hwrap : cfg.wrap <;>
      simp [Config.tableAfter, hone, hwrap, Config.assigned, Config.wrapping]

theorem stamp_tableAfter_full {n : Nat} (h : ¬ cfg.Stamps n) :
    (cfg.tableAfter n).stamp = (none, cfg.tableAfter n) := by
  simp only [Config.Stamps, not_or] at h
  obtain ⟨hone, htriggered, hfull⟩ := h
  rw [TsTable.stamp, if_neg]
  simp [Config.tableAfter, hone, htriggered, hfull]

/-! ## The table and the tasks in flight -/

/-- The entries given out so far, and who holds them. -/
structure Tabled (s : State cfg) : Prop where
  table : s.table = cfg.tableAfter s.stamped.length
  stamped : s.stamped = (List.range s.stamped.length).map cfg.assigned
  tasks : s.stamped.length ≤ s.tasks
  all : cfg.oneshot = false ∨ cfg.triggered = true → s.stamped.length = s.tasks
  full : cfg.oneshot = true → cfg.triggered = false → s.stamped.length ≤ cfg.tsSize
  held : ∀ w e, s.worker w = .busy (some e) →
    0 < s.stamped.length ∧ (cfg.wrapping = false → e < s.stamped.length)
  apart : cfg.wrapping = false ∨ s.stamped.length ≤ 1 →
    ∀ w w' e, s.worker w = .busy (some e) → s.worker w' = .busy (some e) → w = w'

theorem Tabled.init (cfg : Config) : Tabled (init cfg) where
  table := tsSetup_eq cfg
  stamped := rfl
  tasks := le_rfl
  all := fun _ => rfl
  full := fun _ _ => Nat.zero_le _
  held := by
    intro w e hw
    cases hw
  apart := by
    intro _ w w' e hw
    cases hw

/-- No task is stamped. -/
theorem Tabled.keep {s s' : State cfg} (h : Tabled s) (htable : s'.table = s.table)
    (hstamped : s'.stamped = s.stamped) (htasks : s.tasks ≤ s'.tasks)
    (hall : cfg.oneshot = false ∨ cfg.triggered = true → s'.tasks = s.tasks)
    (hworker : ∀ w e, s'.worker w = .busy (some e) → s.worker w = .busy (some e)) :
    Tabled s' where
  table := by rw [htable, hstamped, h.table]
  stamped := by
    rw [hstamped]
    exact h.stamped
  tasks := by
    rw [hstamped]
    exact h.tasks.trans htasks
  all := by
    intro hmode
    rw [hstamped, hall hmode]
    exact h.all hmode
  full := by
    rw [hstamped]
    exact h.full
  held := by
    intro w e hw
    rw [hstamped]
    exact h.held w e (hworker w e hw)
  apart := by
    rw [hstamped]
    intro hmode w w' e hw hw'
    exact h.apart hmode w w' e (hworker w e hw) (hworker w' e hw')

theorem busy_update {s : State cfg} {w : Fin cfg.queueDepth} {worker : Worker}
    (hworker : ∀ e, worker ≠ .busy (some e)) (w' : Fin cfg.queueDepth) (e : Nat)
    (h : Function.update s.worker w worker w' = .busy (some e)) :
    s.worker w' = .busy (some e) := by
  by_cases hw : w' = w
  · subst hw
    rw [Function.update_self] at h
    exact absurd h (hworker e)
  · rwa [Function.update_of_ne hw] at h

theorem Tabled.setWorker {s : State cfg} (h : Tabled s) (w : Fin cfg.queueDepth) {worker : Worker}
    (hworker : ∀ e, worker ≠ .busy (some e)) : Tabled (s.setWorker w worker) :=
  h.keep rfl rfl le_rfl (fun _ => rfl) (busy_update hworker)

theorem Tabled.give {s : State cfg} (h : Tabled s) (w : Fin cfg.queueDepth) :
    Tabled (s.give w) := by
  by_cases hstamps : cfg.Stamps s.stamped.length
  · have hstamp := stamp_tableAfter hstamps
    rw [← h.table] at hstamp
    have hlength : (s.give w).stamped.length = s.stamped.length + 1 := by
      simp [State.give, hstamp]
    have hself : (s.give w).worker w = .busy (some (cfg.assigned s.stamped.length)) := by
      simp [State.give, hstamp]
    have hother : ∀ w', w' ≠ w → (s.give w).worker w' = s.worker w' := by
      intro w' hw
      simp [State.give, hw]
    have hnew : cfg.wrapping = false → cfg.assigned s.stamped.length = s.stamped.length := by
      intro hmode
      simp [Config.assigned, hmode]
    refine ⟨?_, ?_, ?_, ?_, ?_, ?_, ?_⟩
    · rw [hlength]
      simp [State.give, hstamp]
    · rw [hlength, List.range_succ, List.map_append, ← h.stamped]
      simp [State.give, hstamp]
    · rw [hlength]
      exact Nat.succ_le_succ h.tasks
    · intro hall
      rw [hlength]
      exact congrArg (· + 1) (h.all hall)
    · intro hone htriggered
      obtain hnot | hnot | hroom := hstamps
      · rw [hone] at hnot
        cases hnot
      · rw [htriggered] at hnot
        cases hnot
      · omega
    · intro w' e hw'
      refine ⟨by omega, ?_⟩
      intro hmode
      by_cases hw : w' = w
      · rw [hw, hself, hnew hmode] at hw'
        cases hw'
        omega
      · rw [hother w' hw] at hw'
        have hlt := (h.held w' e hw').2 hmode
        omega
    · intro hmode w₁ w₂ e h₁ h₂
      rw [hlength] at hmode
      -- a worker that already holds an entry holds another one
      have hfresh : ∀ w', w' ≠ w → s.worker w' = .busy (some (cfg.assigned s.stamped.length)) →
          False := by
        intro w' _ hw'
        obtain ⟨hpos, hlt⟩ := h.held w' _ hw'
        obtain hcounted | hfew := hmode
        · have hlt := hlt hcounted
          rw [hnew hcounted] at hlt
          omega
        · omega
      by_cases hw₁ : w₁ = w
      · by_cases hw₂ : w₂ = w
        · rw [hw₁, hw₂]
        · rw [hw₁, hself] at h₁
          cases h₁
          rw [hother w₂ hw₂] at h₂
          exact absurd h₂ (hfresh w₂ hw₂)
      · by_cases hw₂ : w₂ = w
        · rw [hw₂, hself] at h₂
          cases h₂
          rw [hother w₁ hw₁] at h₁
          exact absurd h₁ (hfresh w₁ hw₁)
        · rw [hother w₁ hw₁] at h₁
          rw [hother w₂ hw₂] at h₂
          exact h.apart (hmode.imp id (by omega)) w₁ w₂ e h₁ h₂
  · have hstamp := stamp_tableAfter_full hstamps
    rw [← h.table] at hstamp
    have htable : (s.give w).table = s.table := by simp [State.give, hstamp]
    have hstamped : (s.give w).stamped = s.stamped := by simp [State.give, hstamp]
    have hworker : (s.give w).worker = Function.update s.worker w (.busy none) := by
      simp [State.give, hstamp]
    simp only [Config.Stamps, not_or] at hstamps
    obtain ⟨hone, htriggered, -⟩ := hstamps
    refine h.keep htable hstamped (Nat.le_succ _) ?_ ?_
    · rintro (hmode | hmode)
      · exact absurd hmode hone
      · exact absurd hmode htriggered
    · rw [hworker]
      exact busy_update (fun e => by simp)

theorem Tabled.step {s s' : State cfg} (h : Tabled s) (hs : Step s s') : Tabled s' := by
  cases hs with
  | assign w => exact (h.give w).keep rfl rfl le_rfl (fun _ => rfl) (fun _ _ hw => hw)
  | lose w =>
    exact (h.setWorker w (by simp)).keep rfl rfl le_rfl (fun _ => rfl) (fun _ _ hw => hw)
  | leave => exact h.keep rfl rfl le_rfl (fun _ => rfl) (fun _ _ hw => hw)
  | eof w => exact (h.give w).keep rfl rfl le_rfl (fun _ => rfl) (fun _ _ hw => hw)
  | complete w => exact h.setWorker w (by simp)
  | receive w =>
    exact (h.setWorker w (by simp)).keep rfl rfl le_rfl (fun _ => rfl) (fun _ _ hw => hw)
  | receiveEof w => exact h.setWorker w (by simp)
  | nextPass => exact h.keep rfl rfl le_rfl (fun _ => rfl) (fun _ _ hw => hw)

theorem Tabled.of_reach {s : State cfg} (h : Reachable s) : Tabled s :=
  h.invariant (.init cfg) fun _ _ _ ih _ hs => ih.step (.of_eq_some hs)

/-! ## The number of tasks -/

/-- A worker of a destination that has a task or has seen the end of file. -/
def Worker.taken : Worker → Nat
  | .busy _ | .eof => 1
  | _ => 0

@[simp] theorem taken_idle : Worker.idle.taken = 0 := rfl
@[simp] theorem taken_busy (entry : Option Nat) : (Worker.busy entry).taken = 1 := rfl
@[simp] theorem taken_eof : Worker.eof.taken = 1 := rfl

/-- The tasks of the run and of the pass so far. -/
structure Counted (s : State cfg) : Prop where
  pass : s.pass ≤ cfg.passes ∨ cfg.runTime = true
  last : ¬ cfg.MayPass s.pass → s.issued = 0 ∧ s.eofs = 0
  tasks : cfg.loop ≠ .destination →
    s.tasks ≤ ∑ pass ∈ Finset.range s.pass, cfg.passTasks pass + (s.issued + s.eofs)
  issued : cfg.loop ≠ .destination → s.issued ≤ cfg.ops
  eofs : s.eofs ≤ if cfg.loop = .source then cfg.queueDepth else 0
  received : s.received ≤ cfg.blocks
  taken : cfg.loop = .destination → s.tasks = s.received + ∑ w, (s.worker w).taken

theorem sum_taken_le (worker : Fin cfg.queueDepth → Worker) :
    ∑ w, (worker w).taken ≤ cfg.queueDepth := by
  have hle : ∀ w ∈ Finset.univ, (worker w).taken ≤ 1 := by
    intro w _
    cases worker w <;> simp [Worker.taken]
  simpa using Finset.sum_le_card_nsmul Finset.univ _ 1 hle

/-- No pass has more tasks than one that is not cut short. -/
theorem Counted.issued_add_eofs_le {s : State cfg} (h : Counted s)
    (hdestination : cfg.loop ≠ .destination) : s.issued + s.eofs ≤ cfg.passTasks s.pass := by
  have hissued := h.issued hdestination
  have heofs := h.eofs
  rw [Config.passTasks]
  cases hloop : cfg.loop with
  | normal =>
    simp only [hloop, reduceCtorEq, if_false] at heofs
    dsimp only
    omega
  | lockstep =>
    simp only [hloop, reduceCtorEq, if_false] at heofs
    dsimp only
    omega
  | source =>
    simp only [hloop, if_true] at heofs
    dsimp only
    omega
  | destination => exact absurd hloop hdestination

/-- The run may have so many passes. -/
def Config.MayHave (cfg : Config) (passes : Nat) : Prop :=
  passes ≤ cfg.passes ∨ cfg.runTime = true

theorem runTasks_destination (cfg : Config) (h : cfg.loop = .destination) {passes : Nat}
    (hpasses : 0 < passes) : cfg.runTasks passes = cfg.blocks + cfg.queueDepth := by
  simp [Config.runTasks, Config.passTasks, h, hpasses]

theorem Counted.tasks_le {s : State cfg} (h : Counted s) :
    ∃ passes, cfg.MayHave passes ∧ s.tasks ≤ cfg.runTasks passes := by
  by_cases hdestination : cfg.loop = .destination
  · refine ⟨cfg.passes, .inl le_rfl, ?_⟩
    have htaken := h.taken hdestination
    have hreceived := h.received
    have hsum := sum_taken_le s.worker
    rw [runTasks_destination cfg hdestination cfg.passes_pos]
    omega
  · have htasks := h.tasks hdestination
    have hpass := h.issued_add_eofs_le hdestination
    by_cases hmay : cfg.MayPass s.pass
    · refine ⟨s.pass + 1, hmay, ?_⟩
      rw [Config.runTasks, Finset.sum_range_succ]
      omega
    · obtain ⟨hissued, heofs⟩ := h.last hmay
      refine ⟨s.pass, h.pass, ?_⟩
      rw [hissued, heofs] at htasks
      exact htasks

theorem Counted.init (cfg : Config) : Counted (init cfg) where
  pass := .inl (Nat.zero_le _)
  last := fun _ => ⟨rfl, rfl⟩
  tasks := fun _ => le_rfl
  issued := fun _ => Nat.zero_le _
  eofs := Nat.zero_le _
  received := Nat.zero_le _
  taken := fun _ => by simp [TimeStamp.init]

theorem taken_setWorker (s : State cfg) (w : Fin cfg.queueDepth) (worker : Worker) :
    ∑ w', (Function.update s.worker w worker w').taken + (s.worker w).taken =
      ∑ w', (s.worker w').taken + worker.taken :=
  Account.sum_update_add s.worker w worker Worker.taken

theorem Counted.step {s s' : State cfg} (h : Counted s) (hs : Step s s') : Counted s' := by
  have htasks := h.tasks
  cases hs with
  | assign w hmay hw =>
    obtain ⟨hpass, -, hissue⟩ := hmay
    refine ⟨h.pass, fun hlast => absurd hpass hlast, ?_, ?_, h.eofs, h.received, ?_⟩
    · intro hloop
      have htasks := htasks hloop
      change s.tasks + 1 ≤
        ∑ pass ∈ Finset.range s.pass, cfg.passTasks pass + (s.issued + 1 + s.eofs)
      omega
    · intro hloop
      exact hissue.resolve_left hloop
    · intro hloop
      have hsum := taken_setWorker s w (.busy s.table.stamp.1)
      have htaken := h.taken hloop
      rw [hw, taken_idle, taken_busy] at hsum
      change s.tasks + 1 = s.received +
        ∑ w', (Function.update s.worker w (.busy s.table.stamp.1) w').taken
      omega
  | lose w hmay hw hloop =>
    refine ⟨h.pass, h.last, htasks, h.issued, h.eofs, h.received, ?_⟩
    intro hdestination
    rw [hloop] at hdestination
    cases hdestination
  | leave => exact ⟨h.pass, h.last, htasks, h.issued, h.eofs, h.received, h.taken⟩
  | eof w hat hnext hw =>
    obtain ⟨hpass, hloop, -⟩ := hat
    refine ⟨h.pass, fun hlast => absurd hpass hlast, ?_, h.issued, ?_, h.received, ?_⟩
    · intro hother
      have htasks := htasks hother
      change s.tasks + 1 ≤
        ∑ pass ∈ Finset.range s.pass, cfg.passTasks pass + (s.issued + (s.eofs + 1))
      omega
    · rw [if_pos hloop]
      change s.eofs + 1 ≤ _
      have hlt := w.isLt
      omega
    · intro hdestination
      rw [hloop] at hdestination
      cases hdestination
  | complete w entry hw hloop =>
    exact ⟨h.pass, h.last, htasks, h.issued, h.eofs, h.received,
      fun hdestination => absurd hdestination hloop⟩
  | receive w entry hw hloop hblocks =>
    refine ⟨h.pass, h.last, htasks, h.issued, h.eofs, hblocks, ?_⟩
    intro _
    have hsum := taken_setWorker s w .idle
    have htaken := h.taken hloop
    rw [hw, taken_idle, taken_busy] at hsum
    change s.tasks = s.received + 1 + ∑ w', (Function.update s.worker w .idle w').taken
    omega
  | receiveEof w entry hw hloop =>
    refine ⟨h.pass, h.last, htasks, h.issued, h.eofs, h.received, ?_⟩
    intro _
    have hsum := taken_setWorker s w .eof
    have htaken := h.taken hloop
    rw [hw, taken_eof, taken_busy] at hsum
    change s.tasks = s.received + ∑ w', (Function.update s.worker w .eof w').taken
    omega
  | nextPass hover =>
    refine ⟨hover.1, fun _ => ⟨rfl, rfl⟩, ?_, fun _ => Nat.zero_le _, Nat.zero_le _, h.received,
      h.taken⟩
    intro hloop
    have htasks := htasks hloop
    have hpass := h.issued_add_eofs_le hloop
    rw [Finset.sum_range_succ]
    change s.tasks ≤ _
    omega

theorem Counted.of_reach {s : State cfg} (h : Reachable s) : Counted s :=
  h.invariant (.init cfg) fun _ _ _ ih _ hs => ih.step (.of_eq_some hs)

/-! ## A run that is not cut short -/

/-- No task is under way: the first `ended` workers have seen the end of file. -/
structure Calm (s : State cfg) (i e r ended : Nat) : Prop where
  reach : Reachable s
  left : s.left = false
  issued : s.issued = i
  eofs : s.eofs = e
  received : s.received = r
  worker : ∀ w, s.worker w = if w.val < ended then .eof else .idle
  tasks : s.tasks = ∑ pass ∈ Finset.range s.pass, cfg.passTasks pass + (i + e)

theorem Calm.init (cfg : Config) : Calm (init cfg) 0 0 0 0 where
  reach := .init
  left := rfl
  issued := rfl
  eofs := rfl
  received := rfl
  worker := fun _ => by simp [TimeStamp.init]
  tasks := by simp [TimeStamp.init]

theorem Reachable.next {s s' : State cfg} {a : Action cfg} (h : Reachable s)
    (hstep : step s a = some s') : Reachable s' := h.step trivial hstep

theorem step_complete {s : State cfg} {w : Fin cfg.queueDepth} {entry : Option Nat}
    (hw : s.worker w = .busy entry) (hloop : cfg.loop ≠ .destination) :
    step s (.complete w) = some (s.setWorker w .idle) := by
  simp [step, hw, hloop]

theorem step_receive {s : State cfg} {w : Fin cfg.queueDepth} {entry : Option Nat}
    (hw : s.worker w = .busy entry) (hloop : cfg.loop = .destination)
    (hblocks : s.received < cfg.blocks) :
    step s (.receive w) = some { s.setWorker w .idle with received := s.received + 1 } := by
  simp [step, hw, hloop, hblocks]

theorem step_receiveEof {s : State cfg} {w : Fin cfg.queueDepth} {entry : Option Nat}
    (hw : s.worker w = .busy entry) (hloop : cfg.loop = .destination) :
    step s (.receiveEof w) = some (s.setWorker w .eof) := by
  simp [step, hw, hloop]

theorem give_worker (s : State cfg) (w : Fin cfg.queueDepth) :
    (s.give w).worker w = .busy s.table.stamp.1 := by
  simp [State.give]

theorem update_give (s : State cfg) (w : Fin cfg.queueDepth) (worker : Worker) :
    Function.update (s.give w).worker w worker = Function.update s.worker w worker :=
  Function.update_idem ..

/-- A worker that has done its task is as it was. -/
theorem update_give_idle {s : State cfg} {w : Fin cfg.queueDepth} (hw : s.worker w = .idle) :
    Function.update (s.give w).worker w .idle = s.worker := by
  rw [update_give, ← hw, Function.update_eq_self]

/-- An operation. -/
theorem Calm.operation {s : State cfg} {i : Nat} (h : Calm s i 0 0 0)
    (hpass : cfg.MayPass s.pass) (hloop : cfg.loop ≠ .destination) (hi : i < cfg.ops) :
    ∃ s' : State cfg, Calm s' (i + 1) 0 0 0 ∧ s'.pass = s.pass := by
  have hidle : s.worker 0 = .idle := by simp [h.worker]
  have hassign : step s (.assign 0) = some { s.give 0 with issued := s.issued + 1 } :=
    if_pos ⟨⟨hpass, h.left, .inr (h.issued ▸ hi)⟩, hidle⟩
  have hcomplete := (h.reach.next hassign).next
    (step_complete (w := 0) (give_worker s 0) hloop)
  refine ⟨_, ⟨hcomplete, h.left, congrArg (· + 1) h.issued, h.eofs, h.received, ?_, ?_⟩, rfl⟩
  · intro w
    change Function.update (s.give 0).worker 0 .idle w = _
    rw [update_give_idle hidle]
    exact h.worker w
  · have htasks := h.tasks
    change s.tasks + 1 = ∑ pass ∈ Finset.range s.pass, cfg.passTasks pass + (i + 1 + 0)
    omega

/-- The task of an end-to-end source for the end of file. -/
theorem Calm.sendEof {s : State cfg} {e : Nat} (h : Calm s cfg.ops e 0 0)
    (hpass : cfg.MayPass s.pass) (hloop : cfg.loop = .source) (he : e < cfg.queueDepth) :
    ∃ s' : State cfg, Calm s' cfg.ops (e + 1) 0 0 ∧ s'.pass = s.pass := by
  have hidle : s.worker ⟨e, he⟩ = .idle := by simp [h.worker]
  have heof : step s (.eof ⟨e, he⟩) = some { s.give ⟨e, he⟩ with eofs := s.eofs + 1 } :=
    if_pos ⟨⟨hpass, hloop, .inr h.issued⟩, h.eofs.symm, hidle⟩
  have hcomplete := (h.reach.next heof).next
    (step_complete (give_worker s ⟨e, he⟩) (by rw [hloop]; decide))
  refine ⟨_, ⟨hcomplete, h.left, h.issued, congrArg (· + 1) h.eofs, h.received, ?_, ?_⟩, rfl⟩
  · intro w
    change Function.update (s.give ⟨e, he⟩).worker ⟨e, he⟩ .idle w = _
    rw [update_give_idle hidle]
    exact h.worker w
  · have htasks := h.tasks
    change s.tasks + 1 = ∑ pass ∈ Finset.range s.pass, cfg.passTasks pass + (cfg.ops + (e + 1))
    omega

/-- A block of an end-to-end destination. -/
theorem Calm.block {s : State cfg} {r : Nat} (h : Calm s r 0 r 0) (hpass : cfg.MayPass s.pass)
    (hloop : cfg.loop = .destination) (hr : r < cfg.blocks) :
    ∃ s' : State cfg, Calm s' (r + 1) 0 (r + 1) 0 ∧ s'.pass = s.pass := by
  have hidle : s.worker 0 = .idle := by simp [h.worker]
  have hassign : step s (.assign 0) = some { s.give 0 with issued := s.issued + 1 } :=
    if_pos ⟨⟨hpass, h.left, .inl hloop⟩, hidle⟩
  have hreceive := (h.reach.next hassign).next
    (step_receive (w := 0) (give_worker s 0) hloop (h.received ▸ hr))
  refine ⟨_, ⟨hreceive, h.left, congrArg (· + 1) h.issued, h.eofs, congrArg (· + 1) h.received,
    ?_, ?_⟩, rfl⟩
  · intro w
    change Function.update (s.give 0).worker 0 .idle w = _
    rw [update_give_idle hidle]
    exact h.worker w
  · have htasks := h.tasks
    change s.tasks + 1 = ∑ pass ∈ Finset.range s.pass, cfg.passTasks pass + (r + 1 + 0)
    omega

/-- The end of file at a worker of an end-to-end destination. -/
theorem Calm.receiveEof {s : State cfg} {i r ended : Nat} (h : Calm s i 0 r ended)
    (hpass : cfg.MayPass s.pass) (hloop : cfg.loop = .destination)
    (hended : ended < cfg.queueDepth) :
    ∃ s' : State cfg, Calm s' (i + 1) 0 r (ended + 1) ∧ s'.pass = s.pass := by
  have hidle : s.worker ⟨ended, hended⟩ = .idle := by simp [h.worker]
  have hassign : step s (.assign ⟨ended, hended⟩) =
      some { s.give ⟨ended, hended⟩ with issued := s.issued + 1 } :=
    if_pos ⟨⟨hpass, h.left, .inl hloop⟩, hidle⟩
  have hreceive := (h.reach.next hassign).next
    (step_receiveEof (give_worker s ⟨ended, hended⟩) hloop)
  refine ⟨_, ⟨hreceive, h.left, congrArg (· + 1) h.issued, h.eofs, h.received, ?_, ?_⟩, rfl⟩
  · intro w
    change Function.update (s.give ⟨ended, hended⟩).worker ⟨ended, hended⟩ .eof w = _
    rw [update_give]
    by_cases hw : w = ⟨ended, hended⟩
    · subst hw
      simp
    · have hne : w.val ≠ ended := fun heq => hw (Fin.ext heq)
      have hiff : w.val < ended + 1 ↔ w.val < ended := by omega
      simp [hw, h.worker, hiff]
  · have htasks := h.tasks
    change s.tasks + 1 = ∑ pass ∈ Finset.range s.pass, cfg.passTasks pass + (i + 1 + 0)
    omega

/-- Repeat a stretch of the run. -/
theorem exists_after {P : Nat → State cfg → Prop} {n : Nat} {s : State cfg} (h : P 0 s)
    (hnext : ∀ i s', i < n → P i s' → s'.pass = s.pass →
      ∃ s'', P (i + 1) s'' ∧ s''.pass = s'.pass) :
    ∃ s', P n s' ∧ s'.pass = s.pass := by
  induction n with
  | zero => exact ⟨s, h, rfl⟩
  | succ n ih =>
    obtain ⟨s', hs', hpass⟩ := ih fun i s' hi => hnext i s' (by omega)
    obtain ⟨s'', hs'', hpass'⟩ := hnext n s' (by omega) hs' hpass
    exact ⟨s'', hs'', hpass'.trans hpass⟩

theorem Calm.over {s : State cfg} {i e : Nat} (h : Calm s i e 0 0)
    (hover : s.PassOver) (htasks : i + e = cfg.passTasks s.pass) :
    ∃ s' : State cfg, Calm s' 0 0 0 0 ∧ s'.pass = s.pass + 1 := by
  have hstep : step s .nextPass = some _ := if_pos hover
  refine ⟨_, ⟨h.reach.next hstep, rfl, rfl, rfl, h.received, h.worker, ?_⟩, rfl⟩
  have hsum := h.tasks
  change s.tasks = ∑ pass ∈ Finset.range (s.pass + 1), cfg.passTasks pass + (0 + 0)
  rw [Finset.sum_range_succ]
  omega

theorem Calm.idle {s : State cfg} {i e r : Nat} (h : Calm s i e r 0) (w : Fin cfg.queueDepth) :
    s.worker w = .idle ∨ s.worker w = .eof :=
  .inl (by simp [h.worker])

/-- All operations of a pass. -/
theorem Calm.operations {s : State cfg} (h : Calm s 0 0 0 0) (hpass : cfg.MayPass s.pass)
    (hloop : cfg.loop ≠ .destination) :
    ∃ s' : State cfg, Calm s' cfg.ops 0 0 0 ∧ s'.pass = s.pass :=
  exists_after (P := fun i s' => Calm s' i 0 0 0) h fun _ _ hi hs' hsame =>
    hs'.operation (hsame ▸ hpass) hloop hi

/-- A pass that is not cut short. -/
theorem Calm.pass {s : State cfg} (h : Calm s 0 0 0 0) (hpass : cfg.MayPass s.pass)
    (hdestination : cfg.loop ≠ .destination) :
    ∃ s' : State cfg, Calm s' 0 0 0 0 ∧ s'.pass = s.pass + 1 := by
  obtain ⟨s₁, h₁, hsame₁⟩ := h.operations hpass hdestination
  rw [← hsame₁] at hpass ⊢
  cases hloop : cfg.loop with
  | normal =>
    exact h₁.over ⟨hpass, by rw [hloop]; exact .inr h₁.issued, h₁.idle⟩
      (by rw [Config.passTasks, hloop, Nat.add_zero])
  | lockstep =>
    exact h₁.over ⟨hpass, by rw [hloop]; exact .inr h₁.issued, h₁.idle⟩
      (by rw [Config.passTasks, hloop, Nat.add_zero])
  | source =>
    obtain ⟨s₂, h₂, hsame₂⟩ := exists_after (P := fun e s' => Calm s' cfg.ops e 0 0)
      (n := cfg.queueDepth) h₁ fun _ _ he hs' hsame => hs'.sendEof (hsame ▸ hpass) hloop he
    rw [← hsame₂] at hpass ⊢
    exact h₂.over ⟨hpass, by rw [hloop]; exact h₂.eofs, h₂.idle⟩ (by rw [Config.passTasks, hloop])
  | destination => exact absurd hloop hdestination

/-- The first pass of a destination, up to the last end of file. -/
theorem exists_reach_received (cfg : Config) (hloop : cfg.loop = .destination) :
    ∃ s : State cfg, Reachable s ∧ s.tasks = cfg.blocks + cfg.queueDepth := by
  have hfirst : cfg.MayPass (init cfg).pass := .inl cfg.passes_pos
  obtain ⟨s₁, h₁, hsame₁⟩ := exists_after (P := fun r s' => Calm s' r 0 r 0)
    (n := cfg.blocks) (.init cfg) fun _ _ hr hs' hsame => hs'.block (hsame ▸ hfirst) hloop hr
  obtain ⟨s₂, h₂, hsame₂⟩ := exists_after
    (P := fun d s' => Calm s' (cfg.blocks + d) 0 cfg.blocks d)
    (n := cfg.queueDepth) h₁ fun _ _ hd hs' hsame =>
      hs'.receiveEof ((hsame.trans hsame₁) ▸ hfirst) hloop hd
  have htasks := h₂.tasks
  rw [hsame₂.trans hsame₁] at htasks
  exact ⟨s₂, h₂.reach, by simpa [init] using htasks⟩

/-- The tasks of a run can all be given out. -/
theorem exists_reach_runTasks {passes : Nat} (hpasses : cfg.MayHave passes) :
    ∃ s : State cfg, Reachable s ∧ s.tasks = cfg.runTasks passes := by
  by_cases hdestination : cfg.loop = .destination
  · cases passes with
    | zero => exact ⟨init cfg, .init, rfl⟩
    | succ passes =>
      rw [runTasks_destination cfg hdestination passes.succ_pos]
      exact exists_reach_received cfg hdestination
  · have hall : ∃ s : State cfg, Calm s 0 0 0 0 ∧ s.pass = passes := by
      induction passes with
      | zero => exact ⟨init cfg, .init cfg, rfl⟩
      | succ passes ih =>
        obtain ⟨s, hs, rfl⟩ := ih (hpasses.imp_left Nat.le_of_succ_le)
        exact hs.pass hpasses hdestination
    obtain ⟨s, hs, rfl⟩ := hall
    exact ⟨s, hs.reach, hs.tasks⟩

/-! ## When the entries are in order -/

/-- No run has more tasks than this, however many passes it has. -/
def Config.AtMost (cfg : Config) (tasks : Nat) : Prop :=
  ∀ passes, cfg.MayHave passes → cfg.runTasks passes ≤ tasks

/-- The run has no more tasks than the table is good for. -/
def Config.Fits (cfg : Config) : Prop :=
  if cfg.oneshot then cfg.triggered = true → cfg.AtMost cfg.tsSize
  else if cfg.wrap then cfg.AtMost 1 ∨ cfg.tsSize = 1
  else cfg.AtMost cfg.tsSize

/-- Without a run time it is the number of passes that were asked for that matters. -/
theorem Config.atMost_iff (cfg : Config) (hrun : cfg.runTime = false) (tasks : Nat) :
    cfg.AtMost tasks ↔ cfg.runTasks cfg.passes ≤ tasks := by
  refine ⟨fun h => h cfg.passes (.inl le_rfl), ?_⟩
  intro hall passes hpasses
  have hle : passes ≤ cfg.passes := hpasses.resolve_right (by simp [hrun])
  exact (Finset.sum_le_sum_of_subset (Finset.range_subset_range.mpr hle)).trans hall

theorem runTasks_operations (cfg : Config) (h : cfg.loop = .normal ∨ cfg.loop = .lockstep)
    (passes : Nat) : cfg.runTasks passes = passes * cfg.ops := by
  obtain h | h := h <;> simp [Config.runTasks, Config.passTasks, h]

theorem runTasks_source (cfg : Config) (h : cfg.loop = .source) (passes : Nat) :
    cfg.runTasks passes = passes * (cfg.ops + cfg.queueDepth) := by
  simp [Config.runTasks, Config.passTasks, h]

/-- Without a run time a plain table is always large enough for operations. -/
theorem fits_operations (cfg : Config) (hone : cfg.oneshot = false) (hwrap : cfg.wrap = false)
    (hrun : cfg.runTime = false) (hloop : cfg.loop = .normal ∨ cfg.loop = .lockstep) :
    cfg.Fits := by
  simp only [Config.Fits, hone, hwrap, Bool.false_eq_true, if_false, cfg.atMost_iff hrun,
    Config.tsSize, runTasks_operations cfg hloop]
  omega

/-- The ends of file of an end-to-end source fit for one pass only. -/
theorem fits_source_iff (cfg : Config) (hone : cfg.oneshot = false) (hwrap : cfg.wrap = false)
    (hrun : cfg.runTime = false) (hloop : cfg.loop = .source) : cfg.Fits ↔ cfg.passes ≤ 1 := by
  simp only [Config.Fits, hone, hwrap, Bool.false_eq_true, if_false, cfg.atMost_iff hrun,
    Config.tsSize, runTasks_source cfg hloop, Nat.mul_add, Nat.add_le_add_iff_left]
  exact mul_le_iff_le_one_left cfg.queueDepth_pos

/-- The tasks of a destination are those of its first pass, with a run time or without. -/
theorem atMost_destination_iff (cfg : Config) (hloop : cfg.loop = .destination) (tasks : Nat) :
    cfg.AtMost tasks ↔ cfg.blocks + cfg.queueDepth ≤ tasks := by
  constructor
  · intro h
    have hfirst := h cfg.passes (.inl le_rfl)
    rwa [runTasks_destination cfg hloop cfg.passes_pos] at hfirst
  · intro h passes _
    cases passes with
    | zero => exact Nat.zero_le _
    | succ passes => rwa [runTasks_destination cfg hloop passes.succ_pos]

/-- With a run time no number of tasks is enough for a loop that has any. -/
theorem not_atMost_of_runTime (cfg : Config) (hrun : cfg.runTime = true)
    (hloop : cfg.loop ≠ .destination) (hops : 0 < cfg.ops) (tasks : Nat) :
    ¬ cfg.AtMost tasks := by
  intro h
  have hpass : ∀ pass, 1 ≤ cfg.passTasks pass := by
    intro pass
    rw [Config.passTasks]
    cases hcase : cfg.loop with
    | normal => exact hops
    | lockstep => exact hops
    | source => exact Nat.le_add_right_of_le hops
    | destination => exact absurd hcase hloop
  have hmany : tasks + 1 ≤ cfg.runTasks (tasks + 1) := by
    simpa [Config.runTasks] using Finset.card_nsmul_le_sum (Finset.range (tasks + 1))
      cfg.passTasks 1 fun pass _ => hpass pass
  exact absurd (hmany.trans (h (tasks + 1) (.inr hrun))) (Nat.not_succ_le_self tasks)

theorem Tabled.getElem {s : State cfg} (h : Tabled s) (k : Nat) (hk : k < s.stamped.length) :
    s.stamped[k] = cfg.assigned k := by
  rw [List.getElem_of_eq h.stamped, List.getElem_map, List.getElem_range]

/-- A table that is not wrapped and not overrun. -/
theorem inOrder_of_le {s : State cfg} (h : Tabled s) (hmode : cfg.wrapping = false)
    (hle : s.stamped.length ≤ cfg.tsSize) : InOrder s := by
  have hassigned : ∀ k, cfg.assigned k = k := by
    intro k
    simp [Config.assigned, hmode]
  refine ⟨?_, fun _ => hle, ?_, h.apart (.inl hmode)⟩
  · intro k hk
    rw [h.getElem k hk, hassigned, Config.expected]
    split
    · exact (Nat.mod_eq_of_lt (by omega)).symm
    · rfl
  · intro e he
    obtain ⟨k, hk, rfl⟩ := List.mem_iff_getElem.mp he
    rw [h.getElem k hk, hassigned]
    omega

/-- A wrapped table with one entry, or with one task. -/
theorem inOrder_of_wrapping {s : State cfg} (h : Tabled s) (hone : cfg.oneshot = false)
    (hwrap : cfg.wrap = true) (hfew : s.stamped.length ≤ 1 ∨ cfg.tsSize = 1) : InOrder s := by
  have hassigned : ∀ k, cfg.assigned k = 0 := by
    intro k
    simp [Config.assigned, Config.wrapping, hone, hwrap]
  refine ⟨?_, fun hmode => absurd hmode (by simp [hone]), ?_, ?_⟩
  · intro k hk
    rw [h.getElem k hk, hassigned, Config.expected, if_pos hwrap]
    obtain hfew | hsize := hfew
    · obtain rfl : k = 0 := by omega
      exact (Nat.zero_mod _).symm
    · rw [hsize, Nat.mod_one]
  · intro e he
    obtain ⟨k, hk, rfl⟩ := List.mem_iff_getElem.mp he
    rw [h.getElem k hk, hassigned]
    exact cfg.tsSize_pos
  · intro w w' e hw hw'
    obtain hfew | hsize := hfew
    · exact h.apart (.inr hfew) w w' e hw hw'
    · have hdepth : cfg.queueDepth ≤ 1 := by
        rw [Config.tsSize] at hsize
        omega
      exact Fin.ext (by omega)

theorem inOrder_of_fits {s : State cfg} (h : Reachable s) (hfits : cfg.Fits) : InOrder s := by
  have htabled := Tabled.of_reach h
  obtain ⟨passes, hmay, hle⟩ := (Counted.of_reach h).tasks_le
  have htasks := htabled.tasks.trans hle
  rw [Config.Fits] at hfits
  split at hfits
  · next hone =>
    refine inOrder_of_le htabled (by simp [Config.wrapping, hone]) ?_
    cases htriggered : cfg.triggered with
    | true => exact htasks.trans (hfits htriggered passes hmay)
    | false => exact htabled.full hone htriggered
  · next hone =>
    split at hfits
    · next hwrap =>
      exact inOrder_of_wrapping htabled (by simpa using hone) hwrap
        (hfits.imp (fun hfew => htasks.trans (hfew passes hmay)) id)
    · next hwrap =>
      exact inOrder_of_le htabled (by simp [Config.wrapping, hwrap])
        (htasks.trans (hfits passes hmay))

/-- A run with more tasks than this. -/
theorem exists_tasks_of_not_atMost {tasks : Nat} (h : ¬ cfg.AtMost tasks) :
    ∃ s : State cfg, Reachable s ∧ tasks < s.tasks := by
  simp only [Config.AtMost, not_forall, not_le] at h
  obtain ⟨passes, hmay, hmore⟩ := h
  obtain ⟨s, hs, htasks⟩ := exists_reach_runTasks hmay
  exact ⟨s, hs, htasks ▸ hmore⟩

theorem exists_not_inOrder_of_not_fits (hfits : ¬ cfg.Fits) :
    ∃ s : State cfg, Reachable s ∧ ¬ InOrder s := by
  rw [Config.Fits] at hfits
  split at hfits
  · next hone =>
    obtain ⟨htriggered, hmore⟩ := Classical.not_imp.mp hfits
    obtain ⟨s, hs, hlt⟩ := exists_tasks_of_not_atMost hmore
    refine ⟨s, hs, fun horder => ?_⟩
    have hall := (Tabled.of_reach hs).all (.inr htriggered)
    have hfull := horder.full hone
    omega
  · next hone =>
    split at hfits
    · next hwrap =>
      rw [not_or] at hfits
      obtain ⟨s, hs, hlt⟩ := exists_tasks_of_not_atMost hfits.1
      refine ⟨s, hs, fun horder => ?_⟩
      have htabled := Tabled.of_reach hs
      have hall := htabled.all (.inl (by simpa using hone))
      -- the second stamped task gets the first entry again
      have hsecond : 1 < s.stamped.length := by omega
      have hentry := horder.entry 1 hsecond
      rw [htabled.getElem 1 hsecond, Config.assigned, Config.wrapping, hwrap, Config.expected,
        if_pos hwrap] at hentry
      have hsize := cfg.tsSize_pos
      rw [Nat.mod_eq_of_lt (by omega)] at hentry
      simp [hone] at hentry
    · next hwrap =>
      obtain ⟨s, hs, hlt⟩ := exists_tasks_of_not_atMost hfits
      refine ⟨s, hs, fun horder => ?_⟩
      have htabled := Tabled.of_reach hs
      have hall := htabled.all (.inl (by simpa using hone))
      have hbehind : cfg.tsSize < s.stamped.length := by omega
      have hmem : s.stamped[cfg.tsSize] ∈ s.stamped := List.getElem_mem hbehind
      have hbound := horder.bound _ hmem
      rw [htabled.getElem _ hbehind, Config.assigned] at hbound
      simp [Config.wrapping, hwrap] at hbound

/-- The entries of every run are in order and in bounds if and only if the run has no more
tasks than the table is good for. -/
theorem inOrder_iff (cfg : Config) : (∀ s : State cfg, Reachable s → InOrder s) ↔ cfg.Fits := by
  refine ⟨?_, fun hfits s hs => inOrder_of_fits hs hfits⟩
  intro hall
  by_contra hfits
  obtain ⟨s, hs, hbad⟩ := exists_not_inOrder_of_not_fits hfits
  exact hbad (hall s hs)

/-- Two operations with a wrapping table of three entries. -/
def twoOpsWrap : Config where
  loop := .normal
  queueDepth := 1
  queueDepth_pos := Nat.one_pos
  passes := 1
  passes_pos := Nat.one_pos
  runTime := false
  ops := 2
  blocks := 0
  oneshot := false
  wrap := true
  triggered := false

/-- The second task overwrites the entry of the first one. -/
theorem entry_wrapped_too_early : ∃ s : State twoOpsWrap, Reachable s ∧ twoOpsWrap.tsSize = 3 ∧
    s.stamped = [0, 0] ∧ ¬ InOrder s := by
  have hrun : ∃ s : State twoOpsWrap, Reachable s ∧ s.stamped = [0, 0] :=
    Transition.exists_reach_of_run [.assign 0, .complete 0, .assign 0] (by decide +kernel)
  obtain ⟨s, hs, hstamped⟩ := hrun
  refine ⟨s, hs, by decide, hstamped, ?_⟩
  intro horder
  have hentry := horder.entry 1 (by simp [hstamped])
  simp [hstamped, Config.expected, twoOpsWrap, Config.tsSize] at hentry

end Xdd.TimeStamp
