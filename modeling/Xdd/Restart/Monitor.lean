import Xdd.EndToEnd.Copy

/-!
# The restart monitor

On the destination of a copy a monitor thread wakes up now and then, looks for the lowest
`task_byte_offset` of the workers and writes it to the restart file, but no less than the
offset the copy started from. A copy that is interrupted is resumed from the last offset
in that file, so everything below it must have been written.

A worker's offset starts as zero, is set to `-1` when the worker is given a receive task,
and becomes the offset of the block when a header arrives. An end of file leaves it alone.
-/

namespace Xdd.Restart

/-- The loop of `xdd_restart_monitor` over the workers, with its reads taken at one
moment. -/
def lowest : Int → List Int → Int
  | low, [] => low
  | low, cur :: rest => lowest (if cur < low then cur else low) rest

/-- The lowest offset of the workers; the first worker is the first candidate. -/
def lowestOffset {Q : Nat} (taskByteOffset : Fin Q → Int) : Int :=
  match List.ofFn taskByteOffset with
  | [] => 0
  | first :: rest => lowest first rest

/-- The offset that `xdd_restart_write_restart_file` puts into the file. -/
def restartOffset (byteOffset initial : Int) : Int :=
  if byteOffset > initial then byteOffset else initial

theorem lowest_le (low : Int) (offsets : List Int) :
    lowest low offsets ≤ low ∧ ∀ x ∈ offsets, lowest low offsets ≤ x := by
  induction offsets generalizing low with
  | nil => simp [lowest]
  | cons cur rest ih =>
      obtain ⟨hlow, hrest⟩ := ih (if cur < low then cur else low)
      have hmin : (if cur < low then cur else low) ≤ low ∧
          (if cur < low then cur else low) ≤ cur := by
        split <;> omega
      refine ⟨hlow.trans hmin.1, ?_⟩
      intro x hx
      rcases List.mem_cons.mp hx with rfl | hx
      · exact hlow.trans hmin.2
      · exact hrest x hx

theorem lowestOffset_le {Q : Nat} (taskByteOffset : Fin Q → Int) (w : Fin Q) :
    lowestOffset taskByteOffset ≤ taskByteOffset w := by
  have hmem : taskByteOffset w ∈ List.ofFn taskByteOffset := List.mem_ofFn.mpr ⟨w, rfl⟩
  unfold lowestOffset
  split
  · rename_i hnil
    simp [hnil] at hmem
  · rename_i first rest hcons
    rw [hcons] at hmem
    obtain ⟨hfirst, hrest⟩ := lowest_le first rest
    rcases List.mem_cons.mp hmem with heq | hmem
    · exact heq ▸ hfirst
    · exact hrest _ hmem

theorem le_lowest {m low : Int} {offsets : List Int} (hlow : m ≤ low) (h : ∀ x ∈ offsets, m ≤ x) :
    m ≤ lowest low offsets := by
  induction offsets generalizing low with
  | nil => exact hlow
  | cons cur rest ih =>
      refine ih ?_ fun x hx => h x (List.mem_cons_of_mem _ hx)
      have hcur := h cur List.mem_cons_self
      split <;> omega

theorem le_lowestOffset {Q : Nat} (hQ : 0 < Q) {taskByteOffset : Fin Q → Int} {m : Int}
    (h : ∀ w, m ≤ taskByteOffset w) : m ≤ lowestOffset taskByteOffset := by
  have hmem : ∀ x ∈ List.ofFn taskByteOffset, m ≤ x := by
    intro x hx
    obtain ⟨w, rfl⟩ := List.mem_ofFn.mp hx
    exact h w
  unfold lowestOffset
  split
  · rename_i hnil
    have hlength := congrArg List.length hnil
    simp only [List.length_ofFn, List.length_nil] at hlength
    omega
  · rename_i first rest hcons
    rw [hcons] at hmem
    exact le_lowest (hmem first List.mem_cons_self) fun x hx => hmem x (List.mem_cons_of_mem _ hx)

/-- An offset above the initial one is the lowest offset of the workers. -/
theorem le_taskByteOffset {Q : Nat} {taskByteOffset : Fin Q → Int} {initial : Int}
    (h : initial < restartOffset (lowestOffset taskByteOffset) initial) (w : Fin Q) :
    restartOffset (lowestOffset taskByteOffset) initial ≤ taskByteOffset w := by
  have hle := lowestOffset_le taskByteOffset w
  unfold restartOffset at h ⊢
  split at h
  · rw [if_pos ‹_›]
    exact hle
  · omega

/-! ## Why the lowest offset is safe -/

/-- A stretch of the file. -/
structure Extent where
  byteOffset : Nat
  xferSize : Nat
deriving DecidableEq, Repr

/-- The extent holds the byte at `x`. -/
def Extent.Holds (e : Extent) (x : Nat) : Prop :=
  e.byteOffset ≤ x ∧ x < e.byteOffset + e.xferSize

/-- The extents follow each other without gaps from `start` on. -/
def Contiguous : Nat → List Extent → Prop
  | _, [] => True
  | start, e :: rest => e.byteOffset = start ∧ Contiguous (start + e.xferSize) rest

/-- Contiguous blocks that reach beyond `x` hold it. -/
theorem Contiguous.exists_holds {start : Nat} {blocks : List Extent} (h : Contiguous start blocks)
    {e : Extent} (he : e ∈ blocks) {x : Nat} (hstart : start ≤ x) (hx : x < e.byteOffset) :
    ∃ b ∈ blocks, b.Holds x := by
  induction blocks generalizing start with
  | nil => cases he
  | cons b rest ih =>
      obtain ⟨hb, hrest⟩ := h
      by_cases hhere : x < start + b.xferSize
      · exact ⟨b, List.mem_cons_self, hb.trans_le hstart, by omega⟩
      · rcases List.mem_cons.mp he with rfl | he
        · omega
        · obtain ⟨b', hb', hholds⟩ := ih hrest he (Nat.le_of_not_lt hhere)
          exact ⟨b', List.mem_cons_of_mem _ hb', hholds⟩

theorem Contiguous.le_byteOffset {start : Nat} {blocks : List Extent} (h : Contiguous start blocks)
    {e : Extent} (he : e ∈ blocks) : start ≤ e.byteOffset := by
  induction blocks generalizing start with
  | nil => cases he
  | cons b rest ih =>
      rcases List.mem_cons.mp he with rfl | he
      · exact h.1.ge
      · exact (Nat.le_add_right _ _).trans (ih h.2 he)

/-- A part in front of contiguous blocks is contiguous. -/
theorem Contiguous.of_append {start : Nat} {blocks rest : List Extent}
    (h : Contiguous start (blocks ++ rest)) : Contiguous start blocks := by
  induction blocks generalizing start with
  | nil => trivial
  | cons b blocks ih => exact ⟨h.1, ih h.2⟩

/-- The blocks that a worker was given, in order, and those it has written. It writes a
block before it is given the next one. -/
structure Log where
  given : List Extent
  written : List Extent
  behind : given = written ∨ ∃ e, given = written ++ [e]

/-- The offset of a worker is that of the block it was given last, unless it waits for
another one or has not been given any. -/
def Shows (given : List Extent) (taskByteOffset : Int) : Prop :=
  taskByteOffset ≤ 0 ∨ ∃ e, given.getLast? = some e ∧ taskByteOffset = e.byteOffset

/-- A worker that has gone past a block has written it. -/
theorem Log.written_of_lt {log : Log} {taskByteOffset : Int}
    (hshows : Shows log.given taskByteOffset) {e : Extent} (he : e ∈ log.given)
    (hpast : (e.byteOffset : Int) < taskByteOffset) : e ∈ log.written := by
  rcases log.behind with hall | ⟨last, hlast⟩
  · exact hall ▸ he
  · rw [hlast] at he
    rcases List.mem_append.mp he with he | he
    · exact he
    · -- the last block shows its own offset, which is not past it
      obtain rfl := List.mem_singleton.mp he
      rcases hshows with hnone | ⟨shown, hshown, hoffset⟩
      · omega
      · rw [hlast, List.getLast?_concat] at hshown
        cases hshown
        omega

/-- If every byte below `v` belongs to a block that some worker was given, and every
worker shows an offset of at least `v`, then every byte below `v` has been written. -/
theorem written_below {ι : Type*} {log : ι → Log} {taskByteOffset : ι → Int} {v : Int}
    {initial : Nat} (hshows : ∀ w, Shows (log w).given (taskByteOffset w))
    (hgiven : ∀ x : Nat, initial ≤ x → (x : Int) < v → ∃ w, ∃ e ∈ (log w).given, e.Holds x)
    (hlow : ∀ w, v ≤ taskByteOffset w) :
    ∀ x : Nat, initial ≤ x → (x : Int) < v → ∃ w, ∃ e ∈ (log w).written, e.Holds x := by
  intro x hinitial hx
  obtain ⟨w, e, he, hholds⟩ := hgiven x hinitial hx
  refine ⟨w, e, Log.written_of_lt (hshows w) he ?_, hholds⟩
  have hv := hlow w
  have hstart := hholds.1
  omega

end Xdd.Restart
