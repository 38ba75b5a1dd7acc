import Xdd.HandOff.Loops

/-!
# Exclusive ownership of a task

A worker is busy from the moment the target thread takes it until it has finished its
task, and the target clears the flag itself only for a worker that it holds. A worker
that the target holds is therefore not executing anything, although it may not have come
back to its barrier yet. Cleanup does not take the workers; it relies on the collection
at the end of the last pass.
-/

namespace Xdd.HandOff

variable {cfg : Config} {Q : Nat}

/-- The run is not canceled. -/
def NoCancel (cfg : Config) (_ : State cfg) : Action cfg → Prop
  | .cancel => False
  | _ => True

instance (cfg : Config) (s : State cfg) : (a : Action cfg) → Decidable (NoCancel cfg s a)
  | .cancel => isFalse id
  | .worker _ | .receiveEof _ | .target | .tests _ | .ring _ | .beginPass _ | .beginCleanup =>
    isTrue trivial

namespace Worker

/-- Between its release and the end of its task. -/
def executing (worker : Worker) : Bool :=
  match worker.pc with
  | .starting | .running _ => true
  | _ => false

/-- The task that the worker was released with and has not looked at. -/
def toStart (worker : Worker) : List Nat :=
  match worker.pc with
  | .starting => [worker.task.id]
  | _ => []

/-- The task that the worker is running. -/
def current (worker : Worker) : List Nat :=
  match worker.pc with
  | .running id => [id]
  | _ => []

end Worker

namespace TargetPc

/-- The target has taken the worker and marked it busy. -/
def Holds : TargetPc Q → Fin Q → Prop
  | .located v, w | .setUp v, w | .release v, w | .eofSetUp v, w | .eofRelease v, w
  | .clear _ v, w => v = w
  | _, _ => False

/-- The next step of the target writes the task of the worker. -/
def Writes : TargetPc Q → Fin Q → Prop
  | .setUp v, w | .eofSetUp v, w => v = w
  | .cleanup q, w => q = w.val
  | _, _ => False

/-- The target is in the barrier of the worker. -/
def Releases : TargetPc Q → Fin Q → Prop
  | .release v, w | .eofRelease v, w | .cleanupRelease v, w => v = w
  | _, _ => False

/-- The worker has been collected and was not released since. -/
def Settled : TargetPc Q → Fin Q → Prop
  | .collect .pass q, w => w.val < q
  | .clear .pass v, w => w < v
  | .betweenPasses, _ => True
  | .cleanup q, w => q ≤ w.val
  | .cleanupRelease v, w => v ≤ w
  | _, _ => False

def cleaning : TargetPc Q → Bool
  | .cleanup _ | .cleanupRelease _ | .finished => true
  | _ => false

/-- The target has no worker in hand and is not in its cleanup. -/
def free : TargetPc Q → Bool
  | .betweenPasses | .intervalTop | .loopTop | .awaitAny | .scan .. | .eofGet _ | .collect ..
  | .ring => true
  | .located _ | .setUp _ | .release _ | .eofSetUp _ | .eofRelease _ | .clear .. | .cleanup _
  | .cleanupRelease _ | .finished => false

instance (pc : TargetPc Q) (w : Fin Q) : Decidable (pc.Releases w) := by
  unfold Releases
  split <;> infer_instance

variable {pc : TargetPc Q}

theorem not_holds_of_free (h : pc.free = true) (w : Fin Q) : ¬ pc.Holds w := by
  cases pc <;> simp [free, Holds] at h ⊢

theorem not_releases_of_free (h : pc.free = true) (w : Fin Q) : ¬ pc.Releases w := by
  cases pc <;> simp [free, Releases] at h ⊢

theorem cleaning_of_free (h : pc.free = true) : pc.cleaning = false := by
  cases pc <;> simp [free, cleaning] at h ⊢

theorem cleaning_of_holds {w : Fin Q} (h : pc.Holds w) : pc.cleaning = false := by
  cases pc <;> simp [Holds, cleaning] at h ⊢

end TargetPc

/-- The tasks that were set up for a worker. -/
def tasksOf (setups : List (Fin Q)) (w : Fin Q) : List Nat :=
  (List.range setups.length).filter fun id => setups[id]? = some w

theorem tasksOf_append (setups : List (Fin Q)) (v w : Fin Q) :
    tasksOf (setups ++ [v]) w = tasksOf setups w ++ if v = w then [setups.length] else [] := by
  unfold tasksOf
  rw [List.length_append, List.length_singleton, List.range_succ, List.filter_append]
  congr 1
  · apply List.filter_congr
    intro id hid
    rw [List.getElem?_append_left (List.mem_range.mp hid)]
  · by_cases hv : v = w <;> simp [hv]

theorem mem_tasksOf {setups : List (Fin Q)} {w : Fin Q} {id : Nat} :
    id ∈ tasksOf setups w ↔ setups[id]? = some w := by
  simp only [tasksOf, List.mem_filter, List.mem_range, decide_eq_true_eq, and_iff_right_iff_imp]
  intro hid
  exact (List.getElem?_eq_some_iff.mp hid).1

theorem tasksOf_nodup (setups : List (Fin Q)) (w : Fin Q) : (tasksOf setups w).Nodup :=
  List.nodup_range.filter _

/-- What holds of a worker, given where the target is and which tasks it was given. -/
structure WorkerOk (pc : TargetPc Q) (w : Fin Q) (tasks : List Nat) (worker : Worker) : Prop where
  busy : worker.executing = true → worker.busy = true ∨ pc.cleaning = true
  held : pc.Holds w → worker.executing = false ∧ worker.busy = true
  settled : pc.Settled w → worker.executing = false
  started : worker.started ++ worker.toStart = worker.released
  finished : worker.finished ++ worker.current ++ worker.toStart = worker.released
  tasks : worker.released ++ (if pc.Releases w then [worker.task.id] else []) = tasks

structure OwnerInv (s : State cfg) : Prop where
  workers : ∀ w, WorkerOk s.pc w (tasksOf s.setups w) (s.worker w)
  notCanceled : s.canceled = false

namespace WorkerOk

variable {pc pc' : TargetPc Q} {w : Fin Q} {tasks : List Nat} {worker : Worker}

/-- Outside the barrier of the worker its tasks are those it was released with. -/
theorem tasks_kept (h : WorkerOk pc w tasks worker) (hreleased : ¬ pc.Releases w)
    (hreleases : ¬ pc'.Releases w) :
    worker.released ++ (if pc'.Releases w then [worker.task.id] else []) = tasks := by
  have htasks := h.tasks
  rw [if_neg hreleased] at htasks
  rw [if_neg hreleases]
  exact htasks

/-- The target moves and leaves the worker alone. -/
theorem goto (h : WorkerOk pc w tasks worker) (hclean : pc.cleaning = true → pc'.cleaning = true)
    (hheld : ¬ pc'.Holds w) (hsettled : pc'.Settled w → worker.executing = false)
    (hreleases : ¬ pc'.Releases w) (hreleased : ¬ pc.Releases w) :
    WorkerOk pc' w tasks worker := by
  refine ⟨?_, fun hh => absurd hh hheld, hsettled, h.started, h.finished,
    h.tasks_kept hreleased hreleases⟩
  intro he
  exact (h.busy he).imp_right hclean

/-- A worker that is not busy is not executing either. -/
theorem idle (h : WorkerOk pc w tasks worker) (hbusy : worker.busy = false)
    (hclean : pc.cleaning = false) : worker.executing = false := by
  by_contra hexecuting
  rcases h.busy (Bool.eq_true_of_not_eq_false hexecuting) with hb | hc
  · simp [hbusy] at hb
  · simp [hclean] at hc

/-- The target takes the worker. -/
theorem take (h : WorkerOk pc w tasks worker) (hbusy : worker.busy = false)
    (hclean : pc.cleaning = false) (hreleases : ¬ pc'.Releases w) (hreleased : ¬ pc.Releases w) :
    WorkerOk pc' w tasks { worker with busy := true } := by
  have hidle : Worker.executing { worker with busy := true } = false := h.idle hbusy hclean
  exact ⟨fun _ => .inl rfl, fun _ => ⟨hidle, rfl⟩, fun _ => hidle, h.started, h.finished,
    h.tasks_kept hreleased hreleases⟩

/-- The target clears the flag of a worker that it holds and lets it go. -/
theorem drop (h : WorkerOk pc w tasks worker) (hholds : pc.Holds w) (hheld : ¬ pc'.Holds w)
    (hreleases : ¬ pc'.Releases w) (hreleased : ¬ pc.Releases w) :
    WorkerOk pc' w tasks { worker with busy := false } := by
  have hidle : Worker.executing { worker with busy := false } = false := (h.held hholds).1
  refine ⟨?_, fun hh => absurd hh hheld, fun _ => hidle, h.started, h.finished,
    h.tasks_kept hreleased hreleases⟩
  intro he
  simp [hidle] at he

/-- The target writes the task of a worker that is not executing one. -/
theorem write (h : WorkerOk pc w tasks worker) (hidle : worker.executing = false)
    (hbusy : pc'.Holds w → worker.busy = true) (hreleases : pc'.Releases w)
    (hreleased : ¬ pc.Releases w) (task : Task) :
    WorkerOk pc' w (tasks ++ [task.id]) { worker with task := task } := by
  have hidle' : Worker.executing { worker with task := task } = false := hidle
  have hstart : Worker.toStart { worker with task := task } = worker.toStart := by
    cases hp : worker.pc <;> simp [Worker.toStart, Worker.executing, hp] at hidle ⊢
  refine ⟨?_, fun hh => ⟨hidle', hbusy hh⟩, fun _ => hidle', ?_, ?_, ?_⟩
  · intro he
    simp [hidle'] at he
  · rw [hstart]
    exact h.started
  · rw [hstart]
    exact h.finished
  · have htasks := h.tasks
    rw [if_neg hreleased, List.append_nil] at htasks
    rw [if_pos hreleases, ← htasks]

/-- The barrier opens. -/
theorem opened (h : WorkerOk pc w tasks worker) (hreleased : pc.Releases w)
    (hin : worker.pc = .inBarrier) (hbusy : worker.busy = true ∨ pc'.cleaning = true)
    (hheld : ¬ pc'.Holds w) (hsettled : ¬ pc'.Settled w) (hreleases : ¬ pc'.Releases w) :
    WorkerOk pc' w tasks { worker with
      pc := .starting
      released := worker.released ++ [worker.task.id] } := by
  obtain ⟨-, -, -, hstarted, hfinished, htasks⟩ := h
  simp only [Worker.toStart, Worker.current, hin, List.append_nil] at hstarted hfinished
  rw [if_pos hreleased] at htasks
  refine ⟨fun _ => hbusy, fun hh => absurd hh hheld, fun hh => absurd hh hsettled, ?_, ?_, ?_⟩
  · simp [Worker.toStart, hstarted]
  · simp [Worker.toStart, Worker.current, hfinished]
  · simpa [hreleases] using htasks

/-- A worker outside its task moves on. -/
theorem move (h : WorkerOk pc w tasks worker) {p : WorkerPc}
    (hold : worker.pc = .arriving ∨ worker.pc = .signalling)
    (hnew : p = .inBarrier ∨ p = .arriving) :
    WorkerOk pc w tasks { worker with pc := p } := by
  obtain ⟨hbusy, hheld, hsettled, hstarted, hfinished, htasks⟩ := h
  rcases hold with hold | hold <;> rcases hnew with rfl | rfl <;>
    exact ⟨nofun, fun hh => ⟨rfl, (hheld hh).2⟩, fun _ => rfl,
      by simpa [Worker.toStart, hold] using hstarted,
      by simpa [Worker.toStart, Worker.current, hold] using hfinished, htasks⟩

/-- The worker looks at its task. -/
theorem start (h : WorkerOk pc w tasks worker) (hpc : worker.pc = .starting) :
    WorkerOk pc w tasks { worker with
      pc := .running worker.task.id
      started := worker.started ++ [worker.task.id] } := by
  have hexecuting : worker.executing = true := by simp [Worker.executing, hpc]
  obtain ⟨hbusy, hheld, hsettled, hstarted, hfinished, htasks⟩ := h
  refine ⟨fun _ => hbusy hexecuting, ?_, ?_, ?_, ?_, htasks⟩
  · intro hh
    simp [(hheld hh).1] at hexecuting
  · intro hh
    simp [hsettled hh] at hexecuting
  · simpa [Worker.toStart, hpc] using hstarted
  · simpa [Worker.toStart, Worker.current, hpc] using hfinished

/-- The worker is told to stop. -/
theorem stop (h : WorkerOk pc w tasks worker) (hpc : worker.pc = .starting) :
    WorkerOk pc w tasks { worker with
      pc := .stopped
      started := worker.started ++ [worker.task.id]
      finished := worker.finished ++ [worker.task.id] } := by
  have hexecuting : worker.executing = true := by simp [Worker.executing, hpc]
  obtain ⟨hbusy, hheld, hsettled, hstarted, hfinished, htasks⟩ := h
  refine ⟨nofun, ?_, fun _ => rfl, ?_, ?_, htasks⟩
  · intro hh
    simp [(hheld hh).1] at hexecuting
  · simpa [Worker.toStart, hpc] using hstarted
  · simpa [Worker.toStart, Worker.current, hpc] using hfinished

/-- The worker finishes its task and clears its flag. -/
theorem finish (h : WorkerOk pc w tasks worker) {id : Nat} (hpc : worker.pc = .running id) :
    WorkerOk pc w tasks { worker with
      pc := .signalling
      busy := false
      finished := worker.finished ++ [id] } := by
  have hexecuting : worker.executing = true := by simp [Worker.executing, hpc]
  obtain ⟨hbusy, hheld, hsettled, hstarted, hfinished, htasks⟩ := h
  refine ⟨nofun, ?_, fun _ => rfl, ?_, ?_, htasks⟩
  · intro hh
    simp [(hheld hh).1] at hexecuting
  · simpa [Worker.toStart, hpc] using hstarted
  · simpa [Worker.toStart, Worker.current, hpc] using hfinished

end WorkerOk

variable {s s' : State cfg} {w : Fin cfg.queueDepth}

theorem State.forall_setWorker {worker : Worker}
    (P : Fin cfg.queueDepth → Worker → Prop) (hw : P w worker) (h : ∀ u ≠ w, P u (s.worker u)) :
    ∀ u, P u ((s.setWorker w worker).worker u) :=
  (Function.forall_update_iff s.worker P).mpr ⟨hw, h⟩

namespace OwnerInv

theorem init (cfg : Config) : OwnerInv (init cfg) where
  workers _ := ⟨nofun, nofun, fun _ => rfl, rfl, rfl, rfl⟩
  notCanceled := rfl

/-- One worker takes a step. -/
theorem setWorker (h : OwnerInv s) {worker : Worker}
    (hw : WorkerOk s.pc w (tasksOf s.setups w) worker) : OwnerInv (s.setWorker w worker) :=
  ⟨State.forall_setWorker (fun u => WorkerOk s.pc u (tasksOf s.setups u)) hw
    fun u _ => h.workers u, h.notCanceled⟩

/-- The target moves and leaves all workers alone. -/
theorem goto (h : OwnerInv s) (hworker : s'.worker = s.worker) (hsetups : s'.setups = s.setups)
    (hcanceled : s'.canceled = s.canceled)
    (hclean : s.pc.cleaning = true → s'.pc.cleaning = true) (hreleased : ∀ w, ¬ s.pc.Releases w)
    (hheld : ∀ w, ¬ s'.pc.Holds w) (hreleases : ∀ w, ¬ s'.pc.Releases w)
    (hsettled : ∀ w, s'.pc.Settled w → s.pc.Settled w) : OwnerInv s' := by
  refine ⟨?_, hcanceled.trans h.notCanceled⟩
  intro w
  rw [hworker, hsetups]
  exact (h.workers w).goto hclean (hheld w) (fun hs => (h.workers w).settled (hsettled w hs))
    (hreleases w) (hreleased w)

/-- The target moves with no worker in hand. -/
theorem move (h : OwnerInv s) (hworker : s'.worker = s.worker) (hsetups : s'.setups = s.setups)
    (hcanceled : s'.canceled = s.canceled) (hold : s.pc.free = true) (hnew : s'.pc.free = true)
    (hsettled : ∀ w, s'.pc.Settled w → s.pc.Settled w) : OwnerInv s' :=
  h.goto hworker hsetups hcanceled (by simp [TargetPc.cleaning_of_free hold])
    (TargetPc.not_releases_of_free hold) (TargetPc.not_holds_of_free hnew)
    (TargetPc.not_releases_of_free hnew) hsettled

/-- The target takes worker `w`. -/
theorem take (h : OwnerInv s) {pc : TargetPc cfg.queueDepth} (hbusy : (s.worker w).busy = false)
    (hold : s.pc.free = true) (hholds : ∀ u, pc.Holds u → u = w) (hreleases : ∀ u, ¬ pc.Releases u)
    (hsettled : ∀ u, u ≠ w → pc.Settled u → s.pc.Settled u) :
    OwnerInv { s.setBusy w true with pc := pc } := by
  have hclean := TargetPc.cleaning_of_free hold
  have hreleased := TargetPc.not_releases_of_free hold
  refine ⟨?_, h.notCanceled⟩
  apply State.forall_setWorker (fun u => WorkerOk pc u (tasksOf s.setups u))
  · exact (h.workers w).take hbusy hclean (hreleases w) (hreleased w)
  · intro u hu
    exact (h.workers u).goto (by simp [hclean]) (fun hh => hu (hholds u hh))
      (fun hs => (h.workers u).settled (hsettled u hu hs)) (hreleases u) (hreleased u)

/-- The target lets worker `w` go. -/
theorem drop (h : OwnerInv s) {pc : TargetPc cfg.queueDepth} (hholds : s.pc.Holds w)
    (hreleased : ∀ u, ¬ s.pc.Releases u) (hnew : pc.free = true)
    (hsettled : ∀ u, u ≠ w → pc.Settled u → s.pc.Settled u) :
    OwnerInv { s.setBusy w false with pc := pc } := by
  have hheld := TargetPc.not_holds_of_free hnew
  have hreleases := TargetPc.not_releases_of_free hnew
  refine ⟨?_, h.notCanceled⟩
  apply State.forall_setWorker (fun u => WorkerOk pc u (tasksOf s.setups u))
  · exact (h.workers w).drop hholds (hheld w) (hreleases w) (hreleased w)
  · intro u hu
    exact (h.workers u).goto (by simp [TargetPc.cleaning_of_holds hholds]) (hheld u)
      (fun hs => (h.workers u).settled (hsettled u hu hs)) (hreleases u) (hreleased u)

/-- The target writes the task of worker `w`. -/
theorem writeTask (h : OwnerInv s) {pc : TargetPc cfg.queueDepth} {request : Request}
    (hidle : (s.worker w).executing = false) (hbusy : pc.Holds w → (s.worker w).busy = true)
    (hclean : s.pc.cleaning = true → pc.cleaning = true) (hreleased : ∀ u, ¬ s.pc.Releases u)
    (hholds : ∀ u, pc.Holds u → u = w) (hreleases : ∀ u, pc.Releases u ↔ u = w)
    (hsettled : ∀ u, u ≠ w → pc.Settled u → s.pc.Settled u) :
    OwnerInv { HandOff.writeTask s w request with pc := pc } := by
  refine ⟨?_, h.notCanceled⟩
  apply State.forall_setWorker (fun u => WorkerOk pc u (tasksOf (s.setups ++ [w]) u))
  · rw [tasksOf_append, if_pos rfl]
    exact (h.workers w).write hidle hbusy ((hreleases w).mpr rfl) (hreleased w)
      ⟨s.setups.length, request⟩
  · intro u hu
    rw [tasksOf_append, if_neg (Ne.symm hu), List.append_nil]
    exact (h.workers u).goto hclean (fun hh => hu (hholds u hh))
      (fun hs => (h.workers u).settled (hsettled u hu hs)) (fun hh => hu ((hreleases u).mp hh))
      (hreleased u)

/-- The barrier of worker `w` opens. -/
theorem release (h : OwnerInv s) {pc : TargetPc cfg.queueDepth}
    (hin : (s.worker w).pc = .inBarrier) (hreleased : ∀ u, s.pc.Releases u ↔ u = w)
    (hbusy : (s.worker w).busy = true ∨ pc.cleaning = true)
    (hclean : s.pc.cleaning = true → pc.cleaning = true)
    (hheld : ∀ u, ¬ pc.Holds u) (hreleases : ∀ u, ¬ pc.Releases u) (hnot : ¬ pc.Settled w)
    (hsettled : ∀ u, u ≠ w → pc.Settled u → s.pc.Settled u) :
    OwnerInv { s.release w with pc := pc } := by
  refine ⟨?_, h.notCanceled⟩
  apply State.forall_setWorker (fun u => WorkerOk pc u (tasksOf s.setups u))
  · exact (h.workers w).opened ((hreleased w).mpr rfl) hin hbusy (hheld w) hnot (hreleases w)
  · intro u hu
    exact (h.workers u).goto hclean (hheld u)
      (fun hs => (h.workers u).settled (hsettled u hu hs)) (hreleases u)
      fun hrel => hu ((hreleased u).mp hrel)

/-- The target opens the barrier of a worker that it holds, and goes on in its loop. -/
theorem release_held (h : OwnerInv s) {pc : TargetPc cfg.queueDepth}
    (hin : (s.worker w).pc = .inBarrier) (hholds : s.pc.Holds w)
    (hreleased : ∀ u, s.pc.Releases u ↔ u = w) (hnew : pc.free = true)
    (hnot : ∀ u, ¬ pc.Settled u) : OwnerInv { s.release w with pc := pc } :=
  h.release hin hreleased (.inl ((h.workers w).held hholds).2)
    (by simp [TargetPc.cleaning_of_holds hholds]) (TargetPc.not_holds_of_free hnew)
    (TargetPc.not_releases_of_free hnew) (hnot w) fun u _ hs => absurd hs (hnot u)

/-- The target writes the task of a worker that it holds, and goes to its barrier. -/
theorem writeTask_held (h : OwnerInv s) {pc : TargetPc cfg.queueDepth} {request : Request}
    (hold : s.pc.Holds w) (hreleased : ∀ u, ¬ s.pc.Releases u)
    (hholds : ∀ u, pc.Holds u → u = w) (hreleases : ∀ u, pc.Releases u ↔ u = w)
    (hnot : ∀ u, ¬ pc.Settled u) : OwnerInv { HandOff.writeTask s w request with pc := pc } := by
  obtain ⟨hidle, hbusy⟩ := (h.workers w).held hold
  exact h.writeTask hidle (fun _ => hbusy) (by simp [TargetPc.cleaning_of_holds hold]) hreleased
    hholds hreleases fun u _ hs => absurd hs (hnot u)

/-- The target is somewhere in its loop and in no barrier. -/
theorem afterLoop (h : OwnerInv s) (hclean : s.pc.cleaning = false)
    (hreleased : ∀ w, ¬ s.pc.Releases w) : OwnerInv (HandOff.afterLoop s) := by
  unfold HandOff.afterLoop
  rw [if_neg (by simp [h.notCanceled])]
  split
  · exact h.goto rfl rfl rfl (by simp [hclean]) hreleased (by simp [TargetPc.Holds])
      (by simp [TargetPc.Releases]) (by simp [TargetPc.Settled])
  · exact h.goto rfl rfl rfl (by simp [hclean]) hreleased (by simp [TargetPc.Holds])
      (by simp [TargetPc.Releases]) (by simp [TargetPc.Settled])

theorem afterLoop_drop (h : OwnerInv s) (hpc : s.pc = .located w) :
    OwnerInv (HandOff.afterLoop (s.setBusy w false)) := by
  have hdropped : OwnerInv { s.setBusy w false with pc := .loopTop } :=
    h.drop (by simp [hpc, TargetPc.Holds]) (by simp [hpc, TargetPc.Releases]) rfl
      fun _ _ hs => hs.elim
  have hafter := hdropped.afterLoop rfl (by simp [TargetPc.Releases])
  unfold HandOff.afterLoop at hafter ⊢
  exact hafter

/-- The tests before an I/O are passed. -/
theorem good (h : OwnerInv s) (hpc : s.pc = .located w) : OwnerInv { s with pc := .setUp w } := by
  refine ⟨?_, h.notCanceled⟩
  intro u
  have hu := h.workers u
  refine ⟨fun he => .inl ?_, fun hh => hu.held ?_, fun hs => hs.elim, hu.started, hu.finished, ?_⟩
  · exact (hu.busy he).resolve_right (by simp [hpc, TargetPc.cleaning])
  · simpa [hpc, TargetPc.Holds] using hh
  · simpa [hpc, TargetPc.Releases] using hu.tasks

/-- A collected worker is let go, and all before it have been. -/
theorem clear (h : OwnerInv s) {c : Collection} (hpc : s.pc = .clear c w) :
    OwnerInv { s.setBusy w false with pc := .collect c (w.val + 1) } := by
  refine h.drop (by simp [hpc, TargetPc.Holds]) (by simp [hpc, TargetPc.Releases]) rfl ?_
  intro u hu hs
  cases c with
  | interval => exact hs.elim
  | pass =>
      rw [hpc]
      have hlt : u.val < w.val + 1 := hs
      have hne : u.val ≠ w.val := fun heq => hu (Fin.ext heq)
      show u.val < w.val
      omega

/-- All workers are collected. -/
theorem collected (h : OwnerInv s) {c : Collection} {q : Nat} (hpc : s.pc = .collect c q)
    (hall : cfg.queueDepth ≤ q) : OwnerInv (HandOff.collected s c) := by
  cases c with
  | interval => exact h.move rfl rfl rfl (by rw [hpc]; rfl) rfl fun _ hs => hs.elim
  | pass =>
      refine h.move rfl rfl rfl (by rw [hpc]; rfl) rfl ?_
      intro u _
      rw [hpc]
      exact lt_of_lt_of_le u.isLt hall

theorem step (h : OwnerInv s) {a : Action cfg} (hok : NoCancel cfg s a) (hs : Step cfg s a s') :
    OwnerInv s' := by
  cases hs with
  | @arrive w hpc => exact h.setWorker ((h.workers w).move (.inl hpc) (.inl rfl))
  | @start w hpc _ => exact h.setWorker ((h.workers w).start hpc)
  | @stop w hpc _ => exact h.setWorker ((h.workers w).stop hpc)
  | @finish w _ hpc => exact h.setWorker ((h.workers w).finish hpc)
  | @signal w hpc _ =>
      exact ⟨(h.setWorker ((h.workers w).move (.inr hpc) (.inr rfl))).workers, h.notCanceled⟩
  | @receiveEof w _ _ _ =>
      have hw := h.workers w
      exact h.setWorker ⟨hw.busy, hw.held, hw.settled, hw.started, hw.finished, hw.tasks⟩
  | leaveLoop hpc =>
      have hfree : s.pc.free = true := by rcases hpc with hpc | hpc <;> rw [hpc] <;> rfl
      exact h.afterLoop (TargetPc.cleaning_of_free hfree) (TargetPc.not_releases_of_free hfree)
  | interval hpc => exact h.move rfl rfl rfl (by rw [hpc]; rfl) rfl fun _ hs => hs.elim
  | await hpc => exact h.move rfl rfl rfl (by rw [hpc]; rfl) rfl fun _ hs => hs.elim
  | endInterval hpc => exact h.move rfl rfl rfl (by rw [hpc]; rfl) rfl fun _ hs => hs.elim
  | takeAny hpc _ => exact h.move rfl rfl rfl (by rw [hpc]; rfl) rfl fun _ hs => hs.elim
  | scanBusy hpc _ => exact h.move rfl rfl rfl (by rw [hpc]; rfl) rfl fun _ hs => hs.elim
  | scanEof hpc _ _ _ => exact h.move rfl rfl rfl (by rw [hpc]; rfl) rfl fun _ hs => hs.elim
  | scanAllEof hpc _ _ _ =>
      exact h.afterLoop (by rw [hpc]; rfl) (by simp [hpc, TargetPc.Releases])
  | locate hpc hbusy _ =>
      exact h.take hbusy (by rw [hpc]; rfl) (fun _ hh => hh.symm) (by simp [TargetPc.Releases])
        fun _ _ hs => hs.elim
  | scanEnd hpc _ => exact h.move rfl rfl rfl (by rw [hpc]; rfl) rfl fun _ hs => hs.elim
  | @setUp w hpc =>
      have hwritten : OwnerInv { HandOff.writeTask s w .io with pc := .release w } :=
        h.writeTask_held (by simp [hpc, TargetPc.Holds]) (by simp [hpc, TargetPc.Releases])
          (fun _ hh => hh.symm) (by simp [TargetPc.Releases, eq_comm]) (by simp [TargetPc.Settled])
      exact ⟨hwritten.workers, hwritten.notCanceled⟩
  | release hpc hin =>
      exact h.release_held hin (by simp [hpc, TargetPc.Holds])
        (by simp [hpc, TargetPc.Releases, eq_comm]) rfl (by simp [TargetPc.Settled])
  | eofTake hpc hbusy =>
      exact h.take hbusy (by rw [hpc]; rfl) (fun _ hh => hh.symm) (by simp [TargetPc.Releases])
        fun _ _ hs => hs.elim
  | eofEnd hpc _ =>
      exact h.move rfl rfl rfl (by rw [hpc]; rfl) rfl fun _ hs => absurd hs (Nat.not_lt_zero _)
  | eofSetUp hpc =>
      exact h.writeTask_held (by simp [hpc, TargetPc.Holds]) (by simp [hpc, TargetPc.Releases])
        (fun _ hh => hh.symm) (by simp [TargetPc.Releases, eq_comm]) (by simp [TargetPc.Settled])
  | eofRelease hpc hin =>
      exact h.release_held hin (by simp [hpc, TargetPc.Holds])
        (by simp [hpc, TargetPc.Releases, eq_comm]) rfl (by simp [TargetPc.Settled])
  | @collect c w hpc hbusy =>
      refine h.take hbusy (by rw [hpc]; rfl) (fun _ hh => hh.symm) (by simp [TargetPc.Releases]) ?_
      intro u _ hs
      cases c with
      | interval => exact hs.elim
      | pass =>
          rw [hpc]
          exact hs
  | collected hpc hall => exact h.collected hpc hall
  | clear hpc => exact h.clear hpc
  | clearCount hpc => exact ⟨(h.clear hpc).workers, h.notCanceled⟩
  | clearCanceled _ hcanceled =>
      rw [h.notCanceled] at hcanceled
      cases hcanceled
  | @cleanup w hpc =>
      refine h.writeTask ?_ (fun hh => hh.elim) (fun _ => rfl) (by simp [hpc, TargetPc.Releases])
        (fun _ hh => hh.elim) (by simp [TargetPc.Releases, eq_comm]) ?_
      · exact (h.workers w).settled (by simp [hpc, TargetPc.Settled])
      · intro u _ hs
        rw [hpc]
        exact hs
  | cleaned hpc _ =>
      exact h.goto rfl rfl rfl (fun _ => rfl) (by simp [hpc, TargetPc.Releases])
        (by simp [TargetPc.Holds]) (by simp [TargetPc.Releases]) fun _ hs => hs.elim
  | cleanupRelease hpc hin =>
      refine h.release hin (by simp [hpc, TargetPc.Releases, eq_comm]) (.inr rfl) (fun _ => rfl)
        (by simp [TargetPc.Holds]) (by simp [TargetPc.Releases]) (by simp [TargetPc.Settled]) ?_
      intro u _ hs
      rw [hpc]
      exact Nat.le_of_lt hs
  | good hpc => exact h.good hpc
  | giveBack hpc _ _ => exact h.afterLoop_drop hpc
  | giveBackTurn hpc _ _ =>
      exact h.drop (by simp [hpc, TargetPc.Holds]) (by simp [hpc, TargetPc.Releases]) rfl
        fun _ _ hs => hs.elim
  | keepBusy hpc _ => exact h.afterLoop (by rw [hpc]; rfl) (by simp [hpc, TargetPc.Releases])
  | ring hpc => exact h.move rfl rfl rfl (by rw [hpc]; rfl) rfl fun _ hs => hs.elim
  | beginPass hpc hnew =>
      rcases hnew with rfl | rfl
      · exact h.move rfl rfl rfl (by rw [hpc]; rfl) rfl fun _ hs => hs.elim
      · exact h.move rfl rfl rfl (by rw [hpc]; rfl) rfl fun _ hs => hs.elim
  | beginCleanup hpc =>
      refine h.goto rfl rfl rfl (fun _ => rfl) (by simp [hpc, TargetPc.Releases])
        (by simp [TargetPc.Holds]) (by simp [TargetPc.Releases]) ?_
      intro w _
      simp [hpc, TargetPc.Settled]
  | cancel => exact hok.elim

theorem of_reach
    (hreach : Transition.Reach (HandOff.step cfg) (NoCancel cfg) (HandOff.init cfg) s) :
    OwnerInv s :=
  hreach.invariant (OwnerInv.init cfg) fun _ _ _ h hok hstep => h.step hok (.of_eq_some hstep)

/-- A worker is released only with tasks that were set up for it. -/
theorem released_subset (h : OwnerInv s) {id : Nat} (hid : id ∈ (s.worker w).released) :
    s.setups[id]? = some w := by
  rw [← mem_tasksOf, ← (h.workers w).tasks]
  exact List.mem_append_left _ hid

theorem released_nodup (h : OwnerInv s) (w : Fin cfg.queueDepth) : (s.worker w).released.Nodup := by
  have hnodup := tasksOf_nodup s.setups w
  rw [← (h.workers w).tasks] at hnodup
  exact (List.nodup_append.mp hnodup).1

/-- The target writes only the tasks of workers that execute none. -/
theorem writes (h : OwnerInv s) (hw : s.pc.Writes w) : (s.worker w).executing = false := by
  have hworker := h.workers w
  cases hpc : s.pc <;> simp only [hpc, TargetPc.Writes] at hw
  case setUp v => exact (hworker.held (by simp [hpc, TargetPc.Holds, hw])).1
  case eofSetUp v => exact (hworker.held (by simp [hpc, TargetPc.Holds, hw])).1
  case cleanup q => exact hworker.settled (by simp [hpc, TargetPc.Settled, hw])

/-- Between passes every task that was set up is finished. -/
theorem betweenPasses (h : OwnerInv s) (hpc : s.pc = .betweenPasses) (w : Fin cfg.queueDepth) :
    (s.worker w).finished = tasksOf s.setups w := by
  have hworker := h.workers w
  have hidle := hworker.settled (by simp [hpc, TargetPc.Settled])
  have htasks := hworker.tasks
  have hfinished := hworker.finished
  rw [if_neg (by simp [hpc, TargetPc.Releases]), List.append_nil] at htasks
  cases hp : (s.worker w).pc <;> simp_all [Worker.executing, Worker.current, Worker.toStart]

end OwnerInv

/-- Tasks are handed over exactly once. The target writes the task of a worker only while
the worker executes none; the tasks that a worker was released with were set up for it,
and each of them is started once, by this worker alone; and between passes every task
that was set up has been finished by the worker it was set up for. -/
theorem handOff_exactly_once
    (hreach : Transition.Reach (step cfg) (NoCancel cfg) (init cfg) s) :
    (∀ w, s.pc.Writes w → (s.worker w).executing = false) ∧
    (∀ w, ∀ id ∈ (s.worker w).released, s.setups[id]? = some w ∧
      ((s.worker w).started ++ (s.worker w).toStart).count id = 1 ∧
      ∀ v, v ≠ w → id ∉ (s.worker v).started ++ (s.worker v).toStart) ∧
    (∀ w, (s.worker w).finished ++ (s.worker w).current = (s.worker w).started) ∧
    (s.pc = .betweenPasses → ∀ w, (s.worker w).finished = (s.worker w).released ∧
      (s.worker w).finished = tasksOf s.setups w) := by
  have h := OwnerInv.of_reach hreach
  refine ⟨fun w => h.writes, fun w id hid => ⟨h.released_subset hid, ?_, fun v hv hmem => hv ?_⟩,
    ?_, fun hpc w => ⟨?_, h.betweenPasses hpc w⟩⟩
  · rw [(h.workers w).started]
    rw [(h.released_nodup w).count, if_pos hid]
  · rw [(h.workers v).started] at hmem
    exact Option.some.inj ((h.released_subset hmem).symm.trans (h.released_subset hid))
  · intro w
    have hfinished := (h.workers w).finished
    rw [← (h.workers w).started] at hfinished
    exact List.append_cancel_right hfinished
  · have htasks := (h.workers w).tasks
    rw [if_neg (by simp [hpc, TargetPc.Releases]), List.append_nil] at htasks
    rw [h.betweenPasses hpc w, htasks]

/-- Two workers and a normal pass loop. -/
def twoWorkers : Config where
  variant := .normal
  queueDepth := 2
  queueDepth_pos := Nat.two_pos
  interval := 0

/-- A pass of two operations; worker 0 is still busy when the target scans again. -/
def twoOps : List (Action twoWorkers) :=
  [.beginPass 2, .target, .target, .target, .tests .good, .target, .worker 0, .target,
    .target, .target, .target, .target, .tests .good, .target, .worker 0, .worker 1, .target,
    .target, .worker 1, .worker 1, .worker 0, .target, .target, .target, .target, .target]

theorem handOff_exactly_once_twoOps : ∃ s : State twoWorkers,
    s.pc = .betweenPasses ∧ (s.worker 0).finished = [0] ∧ (s.worker 1).finished = [1] := by
  obtain ⟨s, hreach, hpc, hsetups⟩ :
      ∃ s, Transition.Reach (step twoWorkers) (NoCancel twoWorkers) (init twoWorkers) s ∧
        s.pc = .betweenPasses ∧ s.setups = [0, 1] :=
    Transition.exists_reach_of_run twoOps (by decide +kernel)
  have hfinished := (handOff_exactly_once hreach).2.2.2 hpc
  refine ⟨s, hpc, ?_, ?_⟩
  · rw [(hfinished 0).2, hsetups]
    decide +kernel
  · rw [(hfinished 1).2, hsetups]
    decide +kernel

end Xdd.HandOff
