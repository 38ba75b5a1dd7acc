import Xdd.DirectIo.Fallback

/-!
# Which descriptors operations are issued on

The descriptor that a misaligned operation leaves behind in the target is closed after that
operation, and while one worker has turned `TO_DIO` off, another misaligned operation goes
through the direct descriptor. So all is well as long as the target has no aligned operation
after a misaligned one and no two misaligned operations at the same time.
-/

namespace Xdd.DirectIo

variable {cfg : Config}

/-- No aligned operation after a misaligned one in the whole run, and a single worker or at
most one misaligned operation in each pass. -/
def Config.Tame (cfg : Config) : Prop :=
  cfg.passes.flatten.Pairwise (fun op op' => cfg.aligned op' = true → cfg.aligned op = true) ∧
  (cfg.queueDepth = 1 ∨
    ∀ ops ∈ cfg.passes, (ops.filter fun op => !cfg.aligned op).length ≤ 1)

/-- The operations that are not assigned yet. -/
def State.rest (s : State cfg) : List Op := s.current ++ s.later.flatten

/-- One if the worker has a misaligned operation. -/
def Worker.misaligned (cfg : Config) : Worker → Nat
  | .idle => 0
  | .task op _ _ => if cfg.aligned op then 0 else 1

@[simp] theorem misaligned_idle : Worker.idle.misaligned cfg = 0 := rfl

theorem misaligned_task_aligned {op : Op} (h : cfg.aligned op = true) (fd : Nat) (stage : Stage) :
    (Worker.task op fd stage).misaligned cfg = 0 :=
  if_pos h

theorem misaligned_task {op : Op} (h : cfg.aligned op = false) (fd : Nat) (stage : Stage) :
    (Worker.task op fd stage).misaligned cfg = 1 :=
  if_neg (by simp [h])

theorem misaligned_ne_zero {worker : Worker} (h : worker.misaligned cfg ≠ 0) :
    ∃ op fd stage, worker = .task op fd stage ∧ cfg.aligned op = false := by
  cases worker with
  | idle => exact absurd rfl h
  | task op fd stage =>
    refine ⟨op, fd, stage, rfl, ?_⟩
    cases haligned : cfg.aligned op with
    | true => exact absurd (misaligned_task_aligned haligned fd stage) h
    | false => rfl

/-- The target has been opened again, without `O_DIRECT`. -/
def State.Reopened (s : State cfg) : Prop :=
  0 < s.fileDesc ∧ s.descriptors = [⟨0, true⟩, ⟨s.fileDesc, false⟩]

/-- The shared fields while a worker is busy with the only misaligned operation. -/
def State.Fallback (s : State cfg) (fd : Nat) : Stage → Prop
  | .before | .clearing => s.dio = true ∧ s.descriptors = [⟨0, true⟩]
  | .flagging => s.dio = false ∧ s.descriptors = [⟨0, true⟩]
  | .opening => s.dio = false ∧ s.openDirect = false ∧ s.descriptors = [⟨0, true⟩]
  | .taking => s.dio = false ∧ s.Reopened
  | .restoring => s.dio = false ∧ fd = s.fileDesc ∧ s.Reopened
  | .io | .after | .closing => s.dio = true ∧ fd = s.fileDesc ∧ s.Reopened

/-- The next stage of a misaligned operation that finds `TO_DIO` set. -/
def Stage.next : Stage → Option Stage
  | .before => some .clearing
  | .clearing => some .flagging
  | .flagging => some .opening
  | .opening => some .taking
  | .taking => some .restoring
  | .restoring => some .io
  | .io => some .after
  | .after => some .closing
  | .closing => none

/-- An aligned operation goes through the first descriptor. -/
def Direct (fd : Nat) (stage : Stage) : Prop :=
  fd = 0 ∧ (stage = .before ∨ stage = .io ∨ stage = .after)

/-- At most one misaligned operation is under way, and no aligned one is left when there has
been a misaligned one. -/
structure Tidy (s : State cfg) : Prop where
  sorted : s.rest.Pairwise (fun op op' => cfg.aligned op' = true → cfg.aligned op = true)
  single : cfg.queueDepth = 1 ∨
    ∑ w, (s.worker w).misaligned cfg + (s.current.filter fun op => !cfg.aligned op).length ≤ 1 ∧
      ∀ ops ∈ s.later, (ops.filter fun op => !cfg.aligned op).length ≤ 1
  direct : ∀ w op fd stage, s.worker w = .task op fd stage → cfg.aligned op = true →
    Direct fd stage
  fallback : ∀ w op fd stage, s.worker w = .task op fd stage → cfg.aligned op = false →
    s.Fallback fd stage
  quiet : (∀ w, (s.worker w).misaligned cfg = 0) →
    s.dio = true ∧ s.descriptors = [⟨0, true⟩]
  rest : (s.fileDesc ≠ 0 ∨ ∃ w, (s.worker w).misaligned cfg ≠ 0) →
    ∀ op ∈ s.rest, cfg.aligned op = false
  nextFd : 0 < s.nextFd
  calls : ∀ call ∈ s.calls, call.2 = some (cfg.aligned call.1)

theorem Tidy.init (h : cfg.Tame) : Tidy (init cfg) where
  sorted := h.1
  single := h.2.imp id fun hpasses => ⟨by simp [DirectIo.init], hpasses⟩
  direct := by
    intro w op fd stage hw
    cases hw
  fallback := by
    intro w op fd stage hw
    cases hw
  quiet := fun _ => ⟨rfl, rfl⟩
  rest := by
    rintro (hfd | ⟨w, hw⟩)
    · exact absurd rfl hfd
    · exact absurd rfl hw
  nextFd := Nat.one_pos
  calls := by
    intro call hcall
    cases hcall

/-- Two workers do not have misaligned operations at the same time. -/
theorem Tidy.only {s : State cfg} (h : Tidy s) {w w' : Fin cfg.queueDepth}
    (hw : (s.worker w).misaligned cfg ≠ 0) (hw' : (s.worker w').misaligned cfg ≠ 0) : w' = w := by
  obtain hone | ⟨hsum, -⟩ := h.single
  · exact Fin.ext (by omega)
  · by_contra hne
    have hmem : w' ∈ Finset.univ.erase w := Finset.mem_erase.mpr ⟨hne, Finset.mem_univ w'⟩
    have hle := Finset.single_le_sum (f := fun j => (s.worker j).misaligned cfg)
      (fun _ _ => Nat.zero_le _) hmem
    rw [← Finset.add_sum_erase _ _ (Finset.mem_univ w)] at hsum
    omega

/-- The first descriptor and at most one more are open. -/
theorem State.Fallback.descriptors {s : State cfg} {fd : Nat} {stage : Stage}
    (h : s.Fallback fd stage) : ∃ d, s.descriptors = ⟨0, true⟩ :: d ∧ d.length ≤ 1 := by
  cases stage with
  | before => exact ⟨[], h.2, Nat.zero_le _⟩
  | clearing => exact ⟨[], h.2, Nat.zero_le _⟩
  | flagging => exact ⟨[], h.2, Nat.zero_le _⟩
  | opening => exact ⟨[], h.2.2, Nat.zero_le _⟩
  | taking => exact ⟨_, h.2.2, le_rfl⟩
  | restoring => exact ⟨_, h.2.2.2, le_rfl⟩
  | io => exact ⟨_, h.2.2.2, le_rfl⟩
  | after => exact ⟨_, h.2.2.2, le_rfl⟩
  | closing => exact ⟨_, h.2.2.2, le_rfl⟩

theorem kind_zero {s : State cfg} {d : List Descriptor} (h : s.descriptors = ⟨0, true⟩ :: d) :
    s.kind 0 = some true := by
  simp [State.kind, h]

/-- The first descriptor stays open. -/
theorem Tidy.kind_zero {s : State cfg} (h : Tidy s) : s.kind 0 = some true := by
  by_cases hquiet : ∀ w, (s.worker w).misaligned cfg = 0
  · exact DirectIo.kind_zero (h.quiet hquiet).2
  · obtain ⟨w, hw⟩ := not_forall.mp hquiet
    obtain ⟨op, fd, stage, htask, haligned⟩ := misaligned_ne_zero hw
    obtain ⟨d, hdescriptors, -⟩ := (h.fallback w op fd stage htask haligned).descriptors
    exact DirectIo.kind_zero hdescriptors

/-- A step of a worker with an aligned operation: the shared fields stay as they are. -/
theorem Tidy.directStep {s s' : State cfg} (h : Tidy s) {w : Fin cfg.queueDepth} {worker : Worker}
    (hworker : s'.worker = Function.update s.worker w worker)
    (hbefore : (s.worker w).misaligned cfg = 0) (hafter : worker.misaligned cfg = 0)
    (hdirect : ∀ op fd stage, worker = .task op fd stage → Direct fd stage)
    (hdio : s'.dio = s.dio) (hflags : s'.openDirect = s.openDirect)
    (hfd : s'.fileDesc = s.fileDesc) (hdescriptors : s'.descriptors = s.descriptors)
    (hnext : s'.nextFd = s.nextFd) (hcurrent : s'.current = s.current)
    (hlater : s'.later = s.later)
    (hcalls : ∀ call ∈ s'.calls, call.2 = some (cfg.aligned call.1)) : Tidy s' := by
  have hsame : ∀ w', (s'.worker w').misaligned cfg = (s.worker w').misaligned cfg := by
    intro w'
    rw [hworker]
    by_cases hw : w' = w
    · subst hw
      rw [Function.update_self, hbefore, hafter]
    · rw [Function.update_of_ne hw]
  have hrest : s'.rest = s.rest := by rw [State.rest, hcurrent, hlater, State.rest]
  refine ⟨by rw [hrest]; exact h.sorted, ?_, ?_, ?_, ?_, ?_, by rw [hnext]; exact h.nextFd,
    hcalls⟩
  · simp only [hsame, hcurrent, hlater]
    exact h.single
  · intro w' op fd stage hw' haligned
    rw [hworker] at hw'
    by_cases hw : w' = w
    · subst hw
      rw [Function.update_self] at hw'
      exact hdirect op fd stage hw'
    · rw [Function.update_of_ne hw] at hw'
      exact h.direct w' op fd stage hw' haligned
  · intro w' op fd stage hw' haligned
    rw [hworker] at hw'
    by_cases hw : w' = w
    · subst hw
      rw [Function.update_self] at hw'
      rw [hw', misaligned_task haligned] at hafter
      cases hafter
    · rw [Function.update_of_ne hw] at hw'
      have hfallback := h.fallback w' op fd stage hw' haligned
      cases stage <;>
        simpa only [State.Fallback, State.Reopened, hdio, hflags, hfd, hdescriptors] using hfallback
  · intro hquiet
    rw [hdio, hdescriptors]
    exact h.quiet fun w' => (hsame w').symm.trans (hquiet w')
  · rw [hrest, hfd]
    simp only [hsame]
    exact h.rest

/-- A step of the worker with the misaligned operation. -/
theorem Tidy.fallbackStep {s s' : State cfg} (h : Tidy s) {w : Fin cfg.queueDepth} {op : Op}
    {fd : Nat} {stage : Stage} {worker : Worker} (hw : s.worker w = .task op fd stage)
    (haligned : cfg.aligned op = false)
    (hworker : s'.worker = Function.update s.worker w worker)
    (hafter : (∃ fd' stage', worker = .task op fd' stage' ∧ s'.Fallback fd' stage') ∨
      worker = .idle ∧ s'.dio = true ∧ s'.descriptors = [⟨0, true⟩])
    (hnext : 0 < s'.nextFd) (hcurrent : s'.current = s.current) (hlater : s'.later = s.later)
    (hcalls : ∀ call ∈ s'.calls, call.2 = some (cfg.aligned call.1)) : Tidy s' := by
  have hself : (s.worker w).misaligned cfg ≠ 0 := by simp [hw, misaligned_task haligned]
  have hother : ∀ w', w' ≠ w → (s.worker w').misaligned cfg = 0 := by
    intro w' hne
    by_contra hmis
    exact hne (h.only hself hmis)
  have hle : worker.misaligned cfg ≤ (s.worker w).misaligned cfg := by
    obtain ⟨fd', stage', rfl, -⟩ | ⟨rfl, -⟩ := hafter
    · rw [hw, misaligned_task haligned, misaligned_task haligned]
    · exact Nat.zero_le _
  have hsum : ∑ w', (s'.worker w').misaligned cfg ≤ ∑ w', (s.worker w').misaligned cfg := by
    have hupdate := Account.sum_update_add s.worker w worker (Worker.misaligned cfg)
    rw [hworker]
    omega
  have hrest : s'.rest = s.rest := by rw [State.rest, hcurrent, hlater, State.rest]
  have hnone : ∀ op ∈ s'.rest, cfg.aligned op = false := by
    rw [hrest]
    exact h.rest (.inr ⟨w, hself⟩)
  refine ⟨by rw [hrest]; exact h.sorted, ?_, ?_, ?_, ?_, fun _ => hnone, hnext, hcalls⟩
  · rw [hcurrent, hlater]
    exact h.single.imp id fun hsingle => ⟨by omega, hsingle.2⟩
  · intro w' op' fd' stage' hw' haligned'
    rw [hworker] at hw'
    by_cases hwe : w' = w
    · subst hwe
      rw [Function.update_self] at hw'
      obtain ⟨fd'', stage'', rfl, -⟩ | ⟨rfl, -⟩ := hafter
      · cases hw'
        rw [haligned] at haligned'
        cases haligned'
      · cases hw'
    · rw [Function.update_of_ne hwe] at hw'
      exact h.direct w' op' fd' stage' hw' haligned'
  · intro w' op' fd' stage' hw' haligned'
    rw [hworker] at hw'
    by_cases hwe : w' = w
    · subst hwe
      rw [Function.update_self] at hw'
      obtain ⟨fd'', stage'', rfl, hfallback⟩ | ⟨rfl, -⟩ := hafter
      · cases hw'
        exact hfallback
      · cases hw'
    · rw [Function.update_of_ne hwe] at hw'
      have hzero := hother w' hwe
      rw [hw', misaligned_task haligned'] at hzero
      cases hzero
  · intro hquiet
    obtain ⟨fd', stage', rfl, -⟩ | ⟨-, hshared⟩ := hafter
    · have hzero := hquiet w
      rw [hworker, Function.update_self, misaligned_task haligned] at hzero
      cases hzero
    · exact hshared

theorem Tidy.runDirect {s : State cfg} (h : Tidy s) {w : Fin cfg.queueDepth} {op : Op} {fd : Nat}
    {stage : Stage} (hw : s.worker w = .task op fd stage) (haligned : cfg.aligned op = true) :
    Tidy (s.advance w op fd stage) := by
  obtain ⟨rfl, hstage⟩ := h.direct w op fd stage hw haligned
  have hbefore : (s.worker w).misaligned cfg = 0 := by
    rw [hw]
    exact misaligned_task_aligned haligned ..
  obtain rfl | rfl | rfl := hstage
  · have hstep : s.advance w op 0 .before = s.setStage w op 0 .io :=
      if_neg (by simp [haligned])
    rw [hstep]
    refine h.directStep rfl hbefore (misaligned_task_aligned haligned ..) ?_ rfl rfl rfl rfl rfl rfl
      rfl h.calls
    rintro op' fd' stage' ⟨⟩
    exact ⟨rfl, .inr (.inl rfl)⟩
  · refine h.directStep rfl hbefore (misaligned_task_aligned haligned 0 .after) ?_ rfl rfl rfl rfl rfl
      rfl rfl ?_
    · rintro op' fd' stage' ⟨⟩
      exact ⟨rfl, .inr (.inr rfl)⟩
    · intro call hcall
      obtain hcall | hcall := List.mem_append.mp hcall
      · exact h.calls call hcall
      · obtain rfl := List.mem_singleton.mp hcall
        exact h.kind_zero.trans (congrArg some haligned.symm)
  · have hstep : s.advance w op 0 .after = s.setWorker w .idle :=
      if_neg (by simp [haligned])
    rw [hstep]
    refine h.directStep rfl hbefore rfl ?_ rfl rfl rfl rfl rfl rfl rfl h.calls
    rintro op' fd' stage' ⟨⟩

theorem State.Reopened.kind {s : State cfg} (h : s.Reopened) : s.kind s.fileDesc = some false := by
  obtain ⟨hfd, hdescriptors⟩ := h
  have hne : (0 : Nat) ≠ s.fileDesc := by omega
  simp [State.kind, hdescriptors, hne]

theorem State.Reopened.close {s : State cfg} (h : s.Reopened) :
    (s.descriptors.filter fun d => d.fd ≠ s.fileDesc) = [⟨0, true⟩] := by
  obtain ⟨hfd, hdescriptors⟩ := h
  have hne : (0 : Nat) ≠ s.fileDesc := by omega
  rw [hdescriptors]
  simp [hne]

/-- What a step of the only misaligned operation does. -/
structure FallbackStep (s s' : State cfg) (w : Fin cfg.queueDepth) (op : Op) (stage : Stage) :
    Prop where
  worker : ∃ worker, s'.worker = Function.update s.worker w worker ∧
    ((∃ fd' stage', stage.next = some stage' ∧ worker = .task op fd' stage' ∧
        s'.Fallback fd' stage') ∨
      stage.next = none ∧ worker = .idle ∧ s'.dio = true ∧ s'.descriptors = [⟨0, true⟩] ∧
        0 < s'.fileDesc)
  nextFd : 0 < s'.nextFd
  current : s'.current = s.current
  later : s'.later = s.later
  calls : ∀ call ∈ s'.calls, call ∈ s.calls ∨ call = (op, some false)

theorem State.Fallback.advance {s : State cfg} {fd : Nat} {stage : Stage}
    (h : s.Fallback fd stage) (w : Fin cfg.queueDepth) {op : Op} (hnext : 0 < s.nextFd)
    (haligned : cfg.aligned op = false) :
    FallbackStep s (s.advance w op fd stage) w op stage := by
  have hcalls : ∀ call ∈ s.calls, call ∈ s.calls ∨ call = (op, some false) := fun _ => .inl
  cases stage with
  | before =>
    have hstep : s.advance w op fd .before = s.setStage w op fd .clearing :=
      if_pos (by simp [h.1, haligned])
    rw [hstep]
    exact ⟨⟨_, rfl, .inl ⟨fd, .clearing, rfl, rfl, h⟩⟩, hnext, rfl, rfl, hcalls⟩
  | clearing =>
    exact ⟨⟨_, rfl, .inl ⟨fd, .flagging, rfl, rfl, rfl, h.2⟩⟩, hnext, rfl, rfl, hcalls⟩
  | flagging =>
    exact ⟨⟨_, rfl, .inl ⟨fd, .opening, rfl, rfl, h.1, h.1, h.2⟩⟩, hnext, rfl, rfl, hcalls⟩
  | opening =>
    obtain ⟨hdio, hflags, hdescriptors⟩ := h
    refine ⟨⟨_, rfl, .inl ⟨fd, .taking, rfl, rfl, hdio, hnext, ?_⟩⟩, Nat.succ_pos _, rfl, rfl,
      hcalls⟩
    change s.descriptors ++ [⟨s.nextFd, s.openDirect⟩] = _
    rw [hdescriptors, hflags]
    rfl
  | taking =>
    exact ⟨⟨_, rfl, .inl ⟨s.fileDesc, .restoring, rfl, rfl, h.1, rfl, h.2⟩⟩, hnext, rfl, rfl,
      hcalls⟩
  | restoring =>
    exact ⟨⟨_, rfl, .inl ⟨fd, .io, rfl, rfl, rfl, h.2⟩⟩, hnext, rfl, rfl, hcalls⟩
  | io =>
    refine ⟨⟨_, rfl, .inl ⟨fd, .after, rfl, rfl, h⟩⟩, hnext, rfl, rfl, ?_⟩
    intro call hcall
    refine (List.mem_append.mp hcall).imp id ?_
    intro hlast
    rw [List.mem_singleton.mp hlast, h.2.1, h.2.2.kind]
  | after =>
    have hstep : s.advance w op fd .after = s.setStage w op fd .closing :=
      if_pos (by simp [h.1, haligned])
    rw [hstep]
    exact ⟨⟨_, rfl, .inl ⟨fd, .closing, rfl, rfl, h⟩⟩, hnext, rfl, rfl, hcalls⟩
  | closing =>
    obtain ⟨hdio, rfl, hreopened⟩ := h
    exact ⟨⟨_, rfl, .inr ⟨rfl, rfl, hdio, hreopened.close, hreopened.1⟩⟩, hnext, rfl, rfl, hcalls⟩

theorem Tidy.runFallback {s : State cfg} (h : Tidy s) {w : Fin cfg.queueDepth} {op : Op}
    {fd : Nat} {stage : Stage} (hw : s.worker w = .task op fd stage)
    (haligned : cfg.aligned op = false) : Tidy (s.advance w op fd stage) := by
  have hstep := (h.fallback w op fd stage hw haligned).advance w h.nextFd haligned
  obtain ⟨worker, hworker, hafter⟩ := hstep.worker
  refine h.fallbackStep hw haligned hworker ?_ hstep.nextFd hstep.current hstep.later ?_
  · obtain ⟨fd', stage', -, hself, hfallback⟩ | ⟨-, hself, hdio, hdescriptors, -⟩ := hafter
    · exact .inl ⟨fd', stage', hself, hfallback⟩
    · exact .inr ⟨hself, hdio, hdescriptors⟩
  · intro call hcall
    obtain hold | rfl := hstep.calls call hcall
    · exact h.calls call hold
    · exact congrArg some haligned.symm

theorem rest_of_current {s : State cfg} {op : Op} {current : List Op}
    (h : s.current = op :: current) : s.rest = op :: (current ++ s.later.flatten) := by
  rw [State.rest, h, List.cons_append]

/-- Taking an operation off the list. -/
theorem Tidy.drop {s : State cfg} (h : Tidy s) {op : Op} {rest : List Op}
    (hcurrent : s.current = op :: rest) : Tidy { s with current := rest } where
  sorted := by
    have hsorted := h.sorted
    rw [rest_of_current hcurrent] at hsorted
    exact hsorted.of_cons
  single := by
    refine h.single.imp id fun hsingle => ⟨?_, hsingle.2⟩
    have hle : (rest.filter fun op => !cfg.aligned op).length ≤
        (s.current.filter fun op => !cfg.aligned op).length := by
      rw [hcurrent]
      exact ((List.sublist_cons_self op rest).filter _).length_le
    exact (Nat.add_le_add_left hle _).trans hsingle.1
  direct := h.direct
  fallback := h.fallback
  quiet := h.quiet
  rest := by
    intro hsome op' hop'
    have hmem : op' ∈ s.rest := by
      rw [rest_of_current hcurrent]
      exact List.mem_cons_of_mem _ hop'
    exact h.rest hsome op' hmem
  nextFd := h.nextFd
  calls := h.calls

theorem Tidy.assignDirect {s : State cfg} (h : Tidy s) {w : Fin cfg.queueDepth} {op : Op}
    {rest : List Op} (hw : s.worker w = .idle) (hcurrent : s.current = op :: rest)
    (haligned : cfg.aligned op = true) :
    Tidy { s.setStage w op s.fileDesc .before with current := rest } := by
  -- an aligned operation is left, so the descriptor of the target is still the first one
  have hfd : s.fileDesc = 0 := by
    by_contra hne
    have hfalse := h.rest (.inl hne) op (by rw [rest_of_current hcurrent]; exact List.mem_cons_self)
    rw [haligned] at hfalse
    cases hfalse
  have hbefore : (s.worker w).misaligned cfg = 0 := by rw [hw, misaligned_idle]
  refine (h.drop hcurrent).directStep rfl hbefore (misaligned_task_aligned haligned ..) ?_ rfl rfl rfl
    rfl rfl rfl rfl h.calls
  rintro op' fd' stage' ⟨⟩
  exact ⟨hfd, .inl rfl⟩

/-- A misaligned operation is assigned when no other one is under way. -/
theorem Tidy.none_misaligned {s : State cfg} (h : Tidy s) {w : Fin cfg.queueDepth} {op : Op}
    {rest : List Op} (hw : s.worker w = .idle) (hcurrent : s.current = op :: rest)
    (haligned : cfg.aligned op = false) (w' : Fin cfg.queueDepth) :
    (s.worker w').misaligned cfg = 0 := by
  obtain hone | ⟨hsum, -⟩ := h.single
  · obtain rfl : w' = w := Fin.ext (by omega)
    rw [hw, misaligned_idle]
  · have hle := Finset.single_le_sum (f := fun j => (s.worker j).misaligned cfg)
      (fun _ _ => Nat.zero_le _) (Finset.mem_univ w')
    have hhead : ((op :: rest).filter fun op => !cfg.aligned op).length =
        (rest.filter fun op => !cfg.aligned op).length + 1 := by
      simp [haligned]
    rw [hcurrent, hhead] at hsum
    omega

theorem Tidy.assignFallback {s : State cfg} (h : Tidy s) {w : Fin cfg.queueDepth} {op : Op}
    {rest : List Op} (hw : s.worker w = .idle) (hcurrent : s.current = op :: rest)
    (haligned : cfg.aligned op = false) :
    Tidy { s.setStage w op s.fileDesc .before with current := rest } := by
  have hnone := h.none_misaligned hw hcurrent haligned
  have hdrop := h.drop hcurrent
  have hsorted := h.sorted
  rw [rest_of_current hcurrent] at hsorted
  refine ⟨hdrop.sorted, ?_, ?_, ?_, ?_, ?_, h.nextFd, h.calls⟩
  · refine h.single.imp id fun hsingle => ⟨?_, hsingle.2⟩
    have hupdate := Account.sum_update_add s.worker w (.task op s.fileDesc .before)
      (Worker.misaligned cfg)
    have hhead : ((op :: rest).filter fun op => !cfg.aligned op).length =
        (rest.filter fun op => !cfg.aligned op).length + 1 := by
      simp [haligned]
    have hsum := hsingle.1
    rw [hcurrent, hhead] at hsum
    rw [hw, misaligned_idle, misaligned_task haligned] at hupdate
    change ∑ w', (Function.update s.worker w (.task op s.fileDesc .before) w').misaligned cfg +
      (rest.filter fun op => !cfg.aligned op).length ≤ 1
    omega
  · intro w' op' fd' stage' hw' haligned'
    by_cases hwe : w' = w
    · subst hwe
      cases (Function.update_self w' _ s.worker).symm.trans hw'
      rw [haligned] at haligned'
      cases haligned'
    · exact h.direct w' op' fd' stage' ((Function.update_of_ne hwe _ _).symm.trans hw') haligned'
  · intro w' op' fd' stage' hw' haligned'
    by_cases hwe : w' = w
    · subst hwe
      cases (Function.update_self w' _ s.worker).symm.trans hw'
      exact h.quiet hnone
    · have hzero := hnone w'
      rw [(Function.update_of_ne hwe _ _).symm.trans hw', misaligned_task haligned'] at hzero
      cases hzero
  · intro hquiet
    have hzero : (Function.update s.worker w (.task op s.fileDesc .before) w).misaligned cfg = 0 :=
      hquiet w
    rw [Function.update_self, misaligned_task haligned] at hzero
    cases hzero
  · intro _ op' hop'
    cases haligned' : cfg.aligned op' with
    | false => rfl
    | true =>
      have htrue := List.rel_of_pairwise_cons hsorted hop' haligned'
      rw [haligned] at htrue
      cases htrue

theorem Tidy.nextPass {s : State cfg} (h : Tidy s) {ops : List Op} {later : List (List Op)}
    (hcurrent : s.current = []) (hlater : s.later = ops :: later)
    (hidle : ∀ w, s.worker w = .idle) : Tidy { s with current := ops, later := later } := by
  have hrest : s.rest = ops ++ later.flatten := by
    rw [State.rest, hcurrent, hlater, List.nil_append, List.flatten_cons]
  refine ⟨?_, ?_, h.direct, h.fallback, h.quiet, ?_, h.nextFd, h.calls⟩
  · have hsorted := h.sorted
    rw [hrest] at hsorted
    exact hsorted
  · refine h.single.imp id fun hsingle => ?_
    have hpasses := hsingle.2
    rw [hlater] at hpasses
    refine ⟨?_, fun ops' hops' => hpasses ops' (List.mem_cons_of_mem _ hops')⟩
    have hfirst := hpasses ops List.mem_cons_self
    simpa [hidle] using hfirst
  · intro hsome op hop
    exact h.rest hsome op (by rw [hrest]; exact hop)

theorem Tidy.step {s s' : State cfg} (h : Tidy s) (hs : Step s s') : Tidy s' := by
  cases hs with
  | nextPass ops later hcurrent hlater hidle => exact h.nextPass hcurrent hlater hidle
  | assign w op rest hw hcurrent =>
    cases haligned : cfg.aligned op with
    | true => exact h.assignDirect hw hcurrent haligned
    | false => exact h.assignFallback hw hcurrent haligned
  | run w op fd stage hw =>
    cases haligned : cfg.aligned op with
    | true => exact h.runDirect hw haligned
    | false => exact h.runFallback hw haligned

theorem Tidy.of_reach {s : State cfg} (h : Reachable s) (htame : cfg.Tame) : Tidy s :=
  h.invariant (.init htame) fun _ _ _ ih _ hs => ih.step (.of_eq_some hs)

theorem Tidy.sound {s : State cfg} (h : Tidy s) : Sound s := by
  have hpos := cfg.queueDepth_pos
  refine ⟨h.calls, ?_⟩
  by_cases hquiet : ∀ w, (s.worker w).misaligned cfg = 0
  · rw [(h.quiet hquiet).2]
    exact Nat.succ_le_succ (Nat.zero_le _)
  · obtain ⟨w, hw⟩ := not_forall.mp hquiet
    obtain ⟨op, fd, stage, htask, haligned⟩ := misaligned_ne_zero hw
    obtain ⟨d, hdescriptors, hd⟩ := (h.fallback w op fd stage htask haligned).descriptors
    rw [hdescriptors, List.length_cons]
    omega

/-! ## Runs that go wrong -/

/-- A run can come to a state that is not sound. -/
def Unsound (cfg : Config) : Prop := ∃ s : State cfg, Reachable s ∧ ¬ Sound s

/-- No operation is under way and only the first descriptor is open. -/
structure Paused (s : State cfg) : Prop where
  reach : Reachable s
  idle : ∀ w, s.worker w = .idle
  dio : s.dio = true
  descriptors : s.descriptors = [⟨0, true⟩]
  nextFd : 0 < s.nextFd

theorem Reachable.assign {s : State cfg} (h : Reachable s) {w : Fin cfg.queueDepth} {op : Op}
    {rest : List Op} (hw : s.worker w = .idle) (hcurrent : s.current = op :: rest) :
    Reachable { s.setStage w op s.fileDesc .before with current := rest } := by
  refine h.step trivial (a := .assign w) ?_
  simp only [step, hw, hcurrent]

theorem Reachable.run {s : State cfg} (h : Reachable s) (w : Fin cfg.queueDepth) (op : Op)
    (fd : Nat) (stage : Stage) (hw : s.worker w = .task op fd stage) :
    Reachable (s.advance w op fd stage) := by
  refine h.step trivial (a := .run w) ?_
  simp only [step, hw]

theorem Paused.init (cfg : Config) : Paused (init cfg) :=
  ⟨.init, fun _ => rfl, rfl, rfl, Nat.one_pos⟩

theorem Paused.nextPass {s : State cfg} (h : Paused s) {ops : List Op} {later : List (List Op)}
    (hcurrent : s.current = []) (hlater : s.later = ops :: later) :
    Paused { s with current := ops, later := later } := by
  refine ⟨h.reach.step trivial (a := .nextPass) ?_, h.idle, h.dio, h.descriptors, h.nextFd⟩
  simp only [step, hcurrent, hlater]
  rw [if_pos h.idle]

/-- The first worker is busy with a misaligned operation, the others are idle. -/
structure Solo (s : State cfg) (op : Op) (fd : Nat) (stage : Stage) : Prop where
  reach : Reachable s
  self : s.worker 0 = .task op fd stage
  others : ∀ w, w ≠ 0 → s.worker w = .idle
  fallback : s.Fallback fd stage
  nextFd : 0 < s.nextFd

/-- The stages that are left. -/
def Stage.rank : Stage → Nat
  | .before => 8
  | .clearing => 7
  | .flagging => 6
  | .opening => 5
  | .taking => 4
  | .restoring => 3
  | .io => 2
  | .after => 1
  | .closing => 0

theorem Stage.rank_next {stage stage' : Stage} (h : stage.next = some stage') :
    stage'.rank < stage.rank := by
  cases stage <;> cases h <;> decide

/-- The operation is done, and the target keeps a descriptor that is closed. -/
theorem Solo.finish {s : State cfg} {op : Op} {fd : Nat} {stage : Stage} (h : Solo s op fd stage)
    (haligned : cfg.aligned op = false) :
    ∃ s' : State cfg, Paused s' ∧ s'.fileDesc ≠ 0 ∧ s'.current = s.current ∧
      s'.later = s.later := by
  induction hrank : stage.rank using Nat.strong_induction_on generalizing s fd stage with
  | _ n ih =>
    have hstep := h.fallback.advance 0 h.nextFd haligned
    have hreach := h.reach.run 0 op fd stage h.self
    obtain ⟨worker, hworker, hafter⟩ := hstep.worker
    obtain ⟨fd', stage', hnext, rfl, hfallback⟩ | ⟨-, rfl, hdio, hdescriptors, hfd⟩ := hafter
    · have hsolo : Solo (s.advance 0 op fd stage) op fd' stage' := by
        refine ⟨hreach, ?_, ?_, hfallback, hstep.nextFd⟩
        · rw [hworker, Function.update_self]
        · intro w hw
          rw [hworker, Function.update_of_ne hw]
          exact h.others w hw
      obtain ⟨s', hpaused, hfd, hcurrent, hlater⟩ :=
        ih stage'.rank (hrank ▸ Stage.rank_next hnext) hsolo rfl
      exact ⟨s', hpaused, hfd, hcurrent.trans hstep.current, hlater.trans hstep.later⟩
    · refine ⟨_, ⟨hreach, ?_, hdio, hdescriptors, hstep.nextFd⟩, Nat.ne_of_gt hfd,
        hstep.current, hstep.later⟩
      intro w
      rw [hworker]
      by_cases hw : w = 0
      · subst hw
        rw [Function.update_self]
      · rw [Function.update_of_ne hw]
        exact h.others w hw

theorem Paused.fallback {s : State cfg} (h : Paused s) {op : Op} {rest : List Op}
    (hcurrent : s.current = op :: rest) (haligned : cfg.aligned op = false) :
    ∃ s' : State cfg, Paused s' ∧ s'.fileDesc ≠ 0 ∧ s'.current = rest ∧ s'.later = s.later := by
  have hsolo : Solo { s.setStage 0 op s.fileDesc .before with current := rest } op s.fileDesc
      .before := by
    refine ⟨h.reach.assign (h.idle 0) hcurrent, ?_, ?_, ⟨h.dio, h.descriptors⟩, h.nextFd⟩
    · simp [State.setStage, State.setWorker]
    · intro w hw
      simp [State.setStage, State.setWorker, hw, h.idle]
  exact hsolo.finish haligned

/-- An aligned operation up to its I/O call. -/
theorem Paused.call {s : State cfg} (h : Paused s) {op : Op} {rest : List Op}
    (hcurrent : s.current = op :: rest) (haligned : cfg.aligned op = true) :
    Reachable { s.setStage 0 op s.fileDesc .after with
      current := rest
      calls := s.calls ++ [(op, s.kind s.fileDesc)] } := by
  have hassign := h.reach.assign (h.idle 0) hcurrent
  have hbefore := hassign.run 0 op s.fileDesc .before (by simp [State.setStage, State.setWorker])
  rw [State.advance, if_neg (by simp [haligned])] at hbefore
  have hcall := hbefore.run 0 op s.fileDesc .io (by simp [State.setStage, State.setWorker])
  simpa [State.advance, State.setStage, State.setWorker, State.kind] using hcall

theorem Paused.direct {s : State cfg} (h : Paused s) {op : Op} {rest : List Op}
    (hcurrent : s.current = op :: rest) (haligned : cfg.aligned op = true) :
    ∃ s' : State cfg, Paused s' ∧ s'.fileDesc = s.fileDesc ∧ s'.current = rest ∧
      s'.later = s.later := by
  have hafter := (h.call hcurrent haligned).run 0 op s.fileDesc .after
    (by simp [State.setStage, State.setWorker])
  rw [State.advance, if_neg (by simp [haligned])] at hafter
  refine ⟨_, ⟨hafter, ?_, h.dio, h.descriptors, h.nextFd⟩, rfl, rfl, rfl⟩
  intro w
  by_cases hw : w = 0
  · simp [State.setStage, State.setWorker, hw]
  · simp [State.setStage, State.setWorker, hw, h.idle]

/-- An aligned operation with a descriptor that is closed. -/
theorem Paused.unsound_of_stale {s : State cfg} (h : Paused s) {op : Op} {rest : List Op}
    (hcurrent : s.current = op :: rest) (haligned : cfg.aligned op = true)
    (hstale : s.fileDesc ≠ 0) : Unsound cfg := by
  refine ⟨_, h.call hcurrent haligned, ?_⟩
  intro hsound
  have hcall := hsound.calls (op, s.kind s.fileDesc) (by simp)
  have hclosed : s.kind s.fileDesc = none := by
    simp [State.kind, h.descriptors, Ne.symm hstale]
  rw [hclosed] at hcall
  cases hcall

/-- Two misaligned operations at the same time: the second one finds `TO_DIO` turned off. -/
theorem Paused.unsound_of_two {s : State cfg} (h : Paused s) (hdepth : 1 < cfg.queueDepth)
    {op op' : Op} {rest : List Op} (hcurrent : s.current = op :: op' :: rest)
    (haligned : cfg.aligned op = false) (haligned' : cfg.aligned op' = false) : Unsound cfg := by
  have hne : (⟨1, hdepth⟩ : Fin cfg.queueDepth) ≠ 0 := by
    intro heq
    have hval := congrArg Fin.val heq
    simp at hval
  have hassign := h.reach.assign (h.idle 0) hcurrent
  have hbefore := hassign.run 0 op s.fileDesc .before (by simp [State.setStage, State.setWorker])
  rw [State.advance, if_pos (by simp [haligned, State.setStage, State.setWorker, h.dio])] at hbefore
  have hclear := hbefore.run 0 op s.fileDesc .clearing (by simp [State.setStage, State.setWorker])
  have hassign' := hclear.assign (w := ⟨1, hdepth⟩)
    (by simp [State.advance, State.setStage, State.setWorker, hne, h.idle]) rfl
  have hbefore' := hassign'.run ⟨1, hdepth⟩ op' s.fileDesc .before
    (by simp [State.advance, State.setStage, State.setWorker])
  rw [State.advance, if_neg (by simp [State.advance, State.setStage, State.setWorker])] at hbefore'
  have hcall := hbefore'.run ⟨1, hdepth⟩ op' s.fileDesc .io
    (by simp [State.setStage, State.setWorker])
  refine ⟨_, hcall, ?_⟩
  intro hsound
  have hlast := hsound.calls (op', s.kind s.fileDesc)
    (by simp [State.advance, State.setStage, State.setWorker, State.kind])
  rw [haligned'] at hlast
  by_cases hfd : s.fileDesc = 0
  · simp [State.kind, h.descriptors, hfd] at hlast
  · simp [State.kind, h.descriptors, Ne.symm hfd] at hlast

/-- The operations can be done one after the other. -/
def Config.Serial (cfg : Config) (fileDesc : Nat) (ops : List Op) : Prop :=
  ops.Pairwise (fun op op' => cfg.aligned op' = true → cfg.aligned op = true) ∧
  (fileDesc ≠ 0 → ∀ op ∈ ops, cfg.aligned op = false)

theorem Config.Serial.consDirect {op : Op} {ops : List Op} (h : cfg.Serial 0 ops)
    (haligned : cfg.aligned op = true) : cfg.Serial 0 (op :: ops) :=
  ⟨List.pairwise_cons.mpr ⟨fun _ _ _ => haligned, h.1⟩, fun hfd => absurd rfl hfd⟩

theorem Config.Serial.consFallback {op : Op} {ops : List Op} {fd : Nat} (h : cfg.Serial fd ops)
    (hfd : fd ≠ 0) (haligned : cfg.aligned op = false) (fd' : Nat) :
    cfg.Serial fd' (op :: ops) := by
  refine ⟨List.pairwise_cons.mpr ⟨?_, h.1⟩, ?_⟩
  · intro op' hop' haligned'
    rw [h.2 hfd op' hop'] at haligned'
    cases haligned'
  · intro _ op' hop'
    obtain rfl | hop' := List.mem_cons.mp hop'
    · exact haligned
    · exact h.2 hfd op' hop'

/-- Do one operation after the other with the first worker, until something goes wrong. -/
theorem Paused.unsound_of_serial {P : State cfg → Prop}
    (hend : ∀ s, P s → s.current = [] → s.later ≠ [])
    (hpass : ∀ s ops later, P s → s.current = [] → s.later = ops :: later →
      P { s with current := ops, later := later })
    (hop : ∀ s op rest, Paused s → P s → s.current = op :: rest → Unsound cfg ∨
      ∃ s', Paused s' ∧ P s' ∧ s'.current = rest ∧ s'.later = s.later)
    {s : State cfg} (h : Paused s) (hP : P s) : Unsound cfg := by
  induction hlater : s.later generalizing s with
  | nil =>
    induction hcurrent : s.current generalizing s with
    | nil => exact absurd hlater (hend s hP hcurrent)
    | cons op rest ih =>
      obtain hdone | ⟨s', hpaused, hP', hrest, hsame⟩ := hop s op rest h hP hcurrent
      · exact hdone
      · exact ih hpaused hP' (hsame.trans hlater) hrest
  | cons ops later ihlater =>
    induction hcurrent : s.current generalizing s with
    | nil => exact ihlater (h.nextPass hcurrent hlater) (hpass s ops later hP hcurrent hlater) rfl
    | cons op rest ih =>
      obtain hdone | ⟨s', hpaused, hP', hrest, hsame⟩ := hop s op rest h hP hcurrent
      · exact hdone
      · exact ih hpaused hP' (hsame.trans hlater) hrest

theorem rest_nextPass {s : State cfg} {ops : List Op} {later : List (List Op)}
    (hcurrent : s.current = []) (hlater : s.later = ops :: later) :
    State.rest { s with current := ops, later := later } = s.rest := by
  rw [State.rest, State.rest, hcurrent, hlater, List.nil_append, List.flatten_cons]

/-- An aligned operation comes after a misaligned one: one worker is enough. -/
theorem Paused.unsound_of_not_serial {s : State cfg} (h : Paused s)
    (hserial : ¬ cfg.Serial s.fileDesc s.rest) : Unsound cfg := by
  refine h.unsound_of_serial (P := fun s => ¬ cfg.Serial s.fileDesc s.rest) ?_ ?_ ?_ hserial
  · intro s hs hcurrent hlater
    refine hs ⟨?_, ?_⟩
    · rw [State.rest, hcurrent, hlater]
      exact List.Pairwise.nil
    · rw [State.rest, hcurrent, hlater]
      intro _ op hop
      cases hop
  · intro s ops later hs hcurrent hlater
    rw [rest_nextPass hcurrent hlater]
    exact hs
  · intro s op rest hpaused hs hcurrent
    rw [rest_of_current hcurrent] at hs
    cases haligned : cfg.aligned op with
    | true =>
      by_cases hfd : s.fileDesc = 0
      · obtain ⟨s', hpaused', hsame, hrest, hlater⟩ := hpaused.direct hcurrent haligned
        refine .inr ⟨s', hpaused', ?_, hrest, hlater⟩
        rw [hfd] at hs
        rw [State.rest, hrest, hlater, hsame, hfd]
        exact fun hserial => hs (hserial.consDirect haligned)
      · exact .inl (hpaused.unsound_of_stale hcurrent haligned hfd)
    | false =>
      obtain ⟨s', hpaused', hfd, hrest, hlater⟩ := hpaused.fallback hcurrent haligned
      refine .inr ⟨s', hpaused', ?_, hrest, hlater⟩
      rw [State.rest, hrest, hlater]
      exact fun hserial => hs (hserial.consFallback hfd haligned _)

/-- Two misaligned operations in a pass: they can be under way at the same time. -/
theorem Paused.unsound_of_crowded {s : State cfg} (h : Paused s) (hdepth : 1 < cfg.queueDepth)
    (hcrowded : ∃ ops ∈ s.current :: s.later, 1 < (ops.filter fun op => !cfg.aligned op).length) :
    Unsound cfg := by
  refine h.unsound_of_serial (P := fun s => ∃ ops ∈ s.current :: s.later,
    1 < (ops.filter fun op => !cfg.aligned op).length) ?_ ?_ ?_ hcrowded
  · rintro s ⟨ops, hops, hmore⟩ hcurrent hlater
    rw [hcurrent, hlater] at hops
    rw [List.mem_singleton.mp hops] at hmore
    simp at hmore
  · rintro s ops later ⟨ops', hops', hmore⟩ hcurrent hlater
    rw [hcurrent, hlater] at hops'
    obtain rfl | hops' := List.mem_cons.mp hops'
    · simp at hmore
    · exact ⟨ops', hops', hmore⟩
  · rintro s op rest hpaused ⟨ops, hops, hmore⟩ hcurrent
    cases haligned : cfg.aligned op with
    | true =>
      by_cases hfd : s.fileDesc = 0
      · obtain ⟨s', hpaused', -, hrest, hlater⟩ := hpaused.direct hcurrent haligned
        refine .inr ⟨s', hpaused', ?_, hrest, hlater⟩
        rw [hcurrent] at hops
        rw [hrest, hlater]
        obtain rfl | hops := List.mem_cons.mp hops
        · rw [List.filter_cons_of_neg (by simp [haligned])] at hmore
          exact ⟨rest, List.mem_cons_self, hmore⟩
        · exact ⟨ops, List.mem_cons_of_mem _ hops, hmore⟩
      · exact .inl (hpaused.unsound_of_stale hcurrent haligned hfd)
    | false =>
      rw [hcurrent] at hops
      obtain rfl | hops := List.mem_cons.mp hops
      · rw [List.filter_cons_of_pos (by simp [haligned])] at hmore
        cases rest with
        | nil => simp at hmore
        | cons op' rest =>
          cases haligned' : cfg.aligned op' with
          | false => exact .inl (hpaused.unsound_of_two hdepth hcurrent haligned haligned')
          | true =>
            refine .inl (hpaused.unsound_of_not_serial fun hserial => ?_)
            have hpairwise := hserial.1
            rw [rest_of_current hcurrent] at hpairwise
            have hfirst := List.rel_of_pairwise_cons hpairwise
              (List.mem_append_left _ List.mem_cons_self) haligned'
            rw [haligned] at hfirst
            cases hfirst
      · obtain ⟨s', hpaused', -, hrest, hlater⟩ := hpaused.fallback hcurrent haligned
        refine .inr ⟨s', hpaused', ?_, hrest, hlater⟩
        rw [hrest, hlater]
        exact ⟨ops, List.mem_cons_of_mem _ hops, hmore⟩

/-- A misaligned operation and an aligned one behind it, with one worker. -/
def shortThenPage : Config where
  pagesize := 4096
  queueDepth := 1
  queueDepth_pos := Nat.one_pos
  passes := [[⟨0, 512⟩, ⟨4096, 4096⟩]]

end Xdd.DirectIo
