import Xdd.Library.Tiling

/-!
# Splitting a file over several hosts

`AlignedPartitionStrategy` of the Python tools cuts `[0, size)` into parts that
start on granule boundaries. Python 2 integers are unbounded and their division
rounds towards minus infinity, so the model computes in `Int` with `Int.fdiv`.

Below one granule the strategy plans no part at all and every requested part
then receives the whole file. The last theorem says exactly when this happens.
-/

namespace Xdd.Partition

/-- The fields a constructed `AlignedPartitionStrategy` keeps. -/
structure AlignedPartitionStrategy where
  requestedParts : Int
  granule : Int
  size : Int
  parts : Int
deriving Repr, DecidableEq

/-- The constructor. Too many requested parts are clamped to whole granules. -/
def init (requestedParts granule size : Int) : AlignedPartitionStrategy where
  requestedParts := requestedParts
  granule := granule
  size := size
  parts := if requestedParts * granule > size then size.fdiv granule else requestedParts

namespace AlignedPartitionStrategy

variable (ps : AlignedPartitionStrategy)

/-- The first offset in the part. -/
def partBegin (part : Int) : Int :=
  if part < ps.parts then
    (part * ps.size.fdiv ps.granule).fdiv ps.parts * ps.granule
  else
    0

/-- The last offset in the part. -/
def partEnd (part : Int) : Int :=
  if part = ps.parts - 1 then
    ps.size - 1
  else if part < ps.parts then
    ps.partBegin (part + 1) - 1
  else
    0

/-- The size of the part. With no possible part this is the whole size. -/
def partSize (part : Int) : Int :=
  if 0 = ps.parts then
    ps.size
  else if part < ps.parts then
    ps.partEnd part - ps.partBegin part + 1
  else
    0

/-- First offset and size of the part. -/
def getPart (part : Int) : Int × Int := (ps.partBegin part, ps.partSize part)

/-- The bytes of the file that the part makes a host transfer. -/
def range (part : Int) : Set Int :=
  Set.Ico (ps.getPart part).1 ((ps.getPart part).1 + (ps.getPart part).2)

end AlignedPartitionStrategy

open AlignedPartitionStrategy

/-- How many parts of whole granules can be non-empty. A file shorter than one
granule still makes one part, which is what the unit tests of the tool expect. -/
def possibleNumber (requestedParts granule size : Int) : Int :=
  if size = 0 then 0 else min requestedParts (max 1 (size.fdiv granule))

/-- The split is exact: the parts are disjoint, fill the file, start on granule
boundaries, and nothing is left for the parts beyond the possible ones. -/
structure Exact (requestedParts granule size : Int) : Prop where
  disjoint : ∀ i j : Nat, (i : Int) < requestedParts → (j : Int) < requestedParts → i ≠ j →
    Disjoint ((init requestedParts granule size).range i)
      ((init requestedParts granule size).range j)
  union : ⋃ i ∈ {i : Nat | (i : Int) < requestedParts},
    (init requestedParts granule size).range i = Set.Ico 0 size
  aligned : ∀ i : Nat, (i : Int) < requestedParts →
    ((init requestedParts granule size).range i).Nonempty →
    granule ∣ ((init requestedParts granule size).getPart i).1
  beyond : ∀ i : Nat, possibleNumber requestedParts granule size ≤ i → (i : Int) < requestedParts →
    (init requestedParts granule size).range i = ∅

theorem init_parts {r g s : Int} (hg : 1 ≤ g) : (init r g s).parts = min r (s / g) := by
  have hlt : s / g < r ↔ s < r * g := Int.ediv_lt_iff_lt_mul (by omega)
  simp only [init, Int.fdiv_eq_ediv_of_nonneg s (by omega : (0 : Int) ≤ g)]
  split <;> omega

section WholeGranules

variable {r g s : Int}

/-- The boundaries between the parts of a split that has at least one part. -/
def boundary (r g s : Int) (k : Nat) : Int :=
  if (k : Int) < (init r g s).parts then (init r g s).partBegin k else s

theorem partBegin_eq (hg : 1 ≤ g) {k : Nat}
    (hk : (k : Int) < (init r g s).parts) :
    (init r g s).partBegin k = k * (s / g) / (init r g s).parts * g := by
  rw [partBegin, if_pos hk, Int.fdiv_eq_ediv_of_nonneg _ (by omega)]
  simp only [init, Int.fdiv_eq_ediv_of_nonneg s (by omega : (0 : Int) ≤ g)]

private theorem parts_pos (hr : 1 ≤ r) (hg : 1 ≤ g) (hgs : g ≤ s) : 0 < (init r g s).parts := by
  have hn : 1 ≤ s / g := (Int.le_ediv_iff_mul_le (by omega)).mpr (by omega)
  rw [init_parts hg]
  omega

private theorem scaled_le {a b n p g : Int} (hn : 0 ≤ n) (hp : 0 < p) (hg : 0 ≤ g) (hab : a ≤ b) :
    a * n / p * g ≤ b * n / p * g :=
  Int.mul_le_mul_of_nonneg_right
    (Int.ediv_le_ediv hp (Int.mul_le_mul_of_nonneg_right hab hn)) hg

/-- A part begins no later than the file ends. -/
private theorem partBegin_le_size (hr : 1 ≤ r) (hg : 1 ≤ g) (hgs : g ≤ s) {k : Nat}
    (hk : (k : Int) < (init r g s).parts) : (init r g s).partBegin k ≤ s := by
  have hparts := parts_pos hr hg hgs
  have hn : 0 ≤ s / g := Int.ediv_nonneg (by omega) (by omega)
  rw [partBegin_eq hg hk]
  calc k * (s / g) / (init r g s).parts * g
      ≤ (init r g s).parts * (s / g) / (init r g s).parts * g := by
        exact scaled_le hn hparts (by omega) hk.le
    _ = s / g * g := by rw [Int.mul_ediv_cancel_left _ (by omega)]
    _ ≤ s := Int.ediv_mul_le s (by omega)

theorem boundary_monotone (hr : 1 ≤ r) (hg : 1 ≤ g) (hgs : g ≤ s) :
    Monotone (boundary r g s) := by
  have hparts := parts_pos hr hg hgs
  have hn : 0 ≤ s / g := Int.ediv_nonneg (by omega) (by omega)
  apply monotone_nat_of_le_succ
  intro k
  by_cases hk : (k : Int) < (init r g s).parts
  · rw [boundary, if_pos hk]
    by_cases hk' : ((k + 1 : Nat) : Int) < (init r g s).parts
    · rw [boundary, if_pos hk', partBegin_eq hg hk, partBegin_eq hg hk']
      exact scaled_le hn hparts (by omega) (by omega)
    · rw [boundary, if_neg hk']
      exact partBegin_le_size hr hg hgs hk
  · have hk' : ¬ ((k + 1 : Nat) : Int) < (init r g s).parts := by omega
    rw [boundary, if_neg hk, boundary, if_neg hk']

/-- A possible part lies between two neighbouring boundaries; the last one also takes
the bytes behind the last whole granule. -/
theorem getPart_eq {k : Nat} (hk : (k : Int) < (init r g s).parts) :
    (init r g s).getPart k =
      (boundary r g s k, boundary r g s (k + 1) - boundary r g s k) := by
  have hne : ¬ 0 = (init r g s).parts := by omega
  have hend : (init r g s).partEnd k = boundary r g s (k + 1) - 1 := by
    rw [partEnd, boundary]
    by_cases hlast : (k : Int) = (init r g s).parts - 1
    · rw [if_pos hlast, if_neg (by omega)]
      rfl
    · rw [if_neg hlast, if_pos hk, if_pos (by omega)]
      norm_cast
  have hbegin : (init r g s).partBegin k = boundary r g s k := by rw [boundary, if_pos hk]
  rw [getPart, partSize, if_neg hne, if_pos hk, hend, hbegin]
  congr 1
  omega

theorem range_eq_cell {k : Nat} (hk : (k : Int) < (init r g s).parts) :
    (init r g s).range k = Tiling.cell (boundary r g s) k := by
  simp only [range, getPart_eq hk, Tiling.cell, add_sub_cancel]

theorem boundary_zero (hr : 1 ≤ r) (hg : 1 ≤ g) (hgs : g ≤ s) : boundary r g s 0 = 0 := by
  have hparts := parts_pos hr hg hgs
  rw [boundary, if_pos (by simpa using hparts), partBegin_eq hg (by simpa using hparts)]
  simp

theorem boundary_le_size (hr : 1 ≤ r) (hg : 1 ≤ g) (hgs : g ≤ s) (k : Nat) :
    boundary r g s k ≤ s := by
  rw [boundary]
  split
  · exact partBegin_le_size hr hg hgs ‹_›
  · exact le_rfl

theorem range_of_parts_le {i : Int} (hne : (init r g s).parts ≠ 0) (hi : (init r g s).parts ≤ i) :
    (init r g s).range i = ∅ := by
  simp only [range, getPart, partSize, if_neg hne.symm, if_neg (not_lt.mpr hi), add_zero,
    Set.Ico_self]

/-- With at least one whole granule the split is exact. -/
theorem exact_of_granule_le_size (hr : 1 ≤ r) (hg : 1 ≤ g) (hgs : g ≤ s) : Exact r g s := by
  have hparts := parts_pos hr hg hgs
  have hmono := boundary_monotone hr hg hgs
  have hle : (init r g s).parts ≤ r := by
    rw [init_parts hg]
    exact min_le_left _ _
  have hempty : ∀ i : Nat, ¬ (i : Int) < (init r g s).parts → (init r g s).range i = ∅ :=
    fun i hi => range_of_parts_le hparts.ne' (not_lt.mp hi)
  refine ⟨?_, ?_, ?_, ?_⟩
  · intro i j _ _ hij
    by_cases hi : (i : Int) < (init r g s).parts
    · by_cases hj : (j : Int) < (init r g s).parts
      · rw [range_eq_cell hi, range_eq_cell hj]
        exact Tiling.disjoint_cell hmono hij
      · rw [hempty j hj]
        exact disjoint_bot_right
    · rw [hempty i hi]
      exact disjoint_bot_left
  · ext x
    have hcells := Tiling.exists_mem_cell_iff hmono (init r g s).parts.toNat x
    have hlast : boundary r g s (init r g s).parts.toNat = s := by
      rw [boundary, if_neg (by omega)]
    rw [boundary_zero hr hg hgs, hlast] at hcells
    simp only [Set.mem_iUnion, Set.mem_ofPred_eq, Set.mem_Ico, exists_prop]
    rw [← hcells]
    constructor
    · rintro ⟨i, -, hmem⟩
      by_cases hi : (i : Int) < (init r g s).parts
      · exact ⟨i, by omega, range_eq_cell hi ▸ hmem⟩
      · rw [hempty i hi] at hmem
        exact hmem.elim
    · rintro ⟨k, hk, hmem⟩
      have hk' : (k : Int) < (init r g s).parts := by omega
      exact ⟨k, by omega, (range_eq_cell hk').symm ▸ hmem⟩
  · intro i _ hne
    by_cases hi : (i : Int) < (init r g s).parts
    · rw [getPart, partBegin_eq hg hi]
      exact Dvd.intro_left _ rfl
    · rw [hempty i hi] at hne
      exact absurd hne Set.not_nonempty_empty
  · intro i hi _
    apply hempty i
    have hn : 1 ≤ s / g := (Int.le_ediv_iff_mul_le (by omega)).mpr (by omega)
    rw [possibleNumber, if_neg (by omega), Int.fdiv_eq_ediv_of_nonneg s (by omega)] at hi
    rw [init_parts hg]
    omega

end WholeGranules

/-- Below one granule no part is planned, and every part is the whole file. -/
theorem getPart_of_size_lt_granule {r g s : Int} (hr : 1 ≤ r) (hs : 0 ≤ s) (hsg : s < g)
    (i : Nat) : (init r g s).getPart i = (0, s) := by
  have hparts : (init r g s).parts = 0 := by
    rw [init_parts (by omega), Int.ediv_eq_zero_of_lt hs hsg]
    omega
  have hi : ¬ (i : Int) < (init r g s).parts := by omega
  rw [getPart, partBegin, partSize, if_neg hi, if_pos hparts.symm]
  rfl

theorem range_of_size_lt_granule {r g s : Int} (hr : 1 ≤ r) (hs : 0 ≤ s) (hsg : s < g) (i : Nat) :
    (init r g s).range i = Set.Ico 0 s := by
  simp only [range, getPart_of_size_lt_granule hr hs hsg, zero_add]

/-- A single part is the whole file. -/
theorem getPart_one {g s : Int} (hg : 1 ≤ g) (hs : 0 ≤ s) : (init 1 g s).getPart 0 = (0, s) := by
  rcases le_or_gt g s with hgs | hsg
  · have hn : 1 ≤ s / g := (Int.le_ediv_iff_mul_le (by omega)).mpr (by omega)
    have hparts : (init 1 g s).parts = 1 := by rw [init_parts hg]; omega
    have hpart := getPart_eq (r := 1) (g := g) (s := s) (k := 0) (by rw [hparts]; decide)
    rw [boundary_zero le_rfl hg hgs, boundary, if_neg (by rw [hparts]; decide), sub_zero] at hpart
    exact hpart
  · exact getPart_of_size_lt_granule le_rfl hs hsg 0

/-- Every part lies inside the file. -/
theorem getPart_bounds {r g s : Int} (hr : 1 ≤ r) (hg : 1 ≤ g) (hs : 0 ≤ s) (i : Nat) :
    0 ≤ ((init r g s).getPart i).1 ∧ 0 ≤ ((init r g s).getPart i).2 ∧
      ((init r g s).getPart i).1 + ((init r g s).getPart i).2 ≤ s := by
  rcases le_or_gt g s with hgs | hsg
  · by_cases hi : (i : Int) < (init r g s).parts
    · have hmono := boundary_monotone hr hg hgs
      have hfirst := hmono (Nat.zero_le i)
      have hnext := hmono (Nat.le_succ i)
      have hlast := boundary_le_size hr hg hgs (i + 1)
      rw [boundary_zero hr hg hgs] at hfirst
      rw [getPart_eq hi]
      dsimp only [Nat.succ_eq_add_one] at hnext ⊢
      omega
    · have hparts := parts_pos hr hg hgs
      rw [getPart, partBegin, partSize, if_neg hi, if_neg hparts.ne, if_neg hi]
      dsimp only
      omega
  · rw [getPart_of_size_lt_granule hr hs hsg]
    dsimp only
    omega

/-- The split of a file over several hosts is exact unless at least two parts
are requested from a non-empty file that is shorter than one granule. -/
theorem exact_iff (r g s : Int) (hr : 1 ≤ r) (hg : 1 ≤ g) (hs : 0 ≤ s) :
    Exact r g s ↔ r = 1 ∨ s = 0 ∨ g ≤ s := by
  rcases le_or_gt g s with hgs | hsg
  · exact iff_of_true (exact_of_granule_le_size hr hg hgs) (by omega)
  · have hrange := range_of_size_lt_granule hr hs hsg
    constructor
    · intro h
      by_contra hnot
      -- parts 0 and 1 both hold byte 0
      have hdisjoint := h.disjoint 0 1 (by omega) (by omega) (by omega)
      rw [hrange, hrange] at hdisjoint
      have hzero : (0 : Int) ∈ Set.Ico 0 s := ⟨le_rfl, by omega⟩
      exact Set.disjoint_left.mp hdisjoint hzero hzero
    · intro h
      have hn : s.fdiv g = 0 := by
        rw [Int.fdiv_eq_ediv_of_nonneg s (by omega), Int.ediv_eq_zero_of_lt hs hsg]
      refine ⟨?_, ?_, ?_, ?_⟩
      · intro i j hi hj hij
        rw [hrange, hrange]
        obtain rfl | rfl : r = 1 ∨ s = 0 := by omega
        · omega
        · simp
      · ext x
        simp only [hrange, Set.mem_iUnion, Set.mem_ofPred_eq, exists_prop]
        exact ⟨fun ⟨_, _, hx⟩ => hx, fun hx => ⟨0, by omega, hx⟩⟩
      · intro i _ _
        rw [getPart, partBegin, init_parts hg, Int.ediv_eq_zero_of_lt hs hsg, if_neg (by omega)]
        exact Int.dvd_zero g
      · intro i hi hir
        rw [hrange]
        simp only [possibleNumber, hn] at hi
        obtain rfl | hpos : s = 0 ∨ s ≠ 0 := by omega
        · simp
        · rw [if_neg hpos] at hi
          omega

theorem exact_iff_three_hosts :
    Exact 3 1024 7000 ↔ (3 : Int) = 1 ∨ (7000 : Int) = 0 ∨ (1024 : Int) ≤ 7000 :=
  exact_iff 3 1024 7000 (by decide) (by decide) (by decide)

/-- Two hosts that share 500 bytes with a request size of 1000 both get all of them. -/
theorem not_exact_two_hosts : ¬ Exact 2 1000 500 := by
  intro h
  have hdisjoint := h.disjoint 0 1 (by decide) (by decide) (by decide)
  have hfirst : (0 : Int) ∈ (init 2 1000 500).range (0 : Nat) := Set.mem_Ico.mpr (by decide)
  have hsecond : (0 : Int) ∈ (init 2 1000 500).range (1 : Nat) := Set.mem_Ico.mpr (by decide)
  exact Set.disjoint_left.mp hdisjoint hfirst hsecond

end Xdd.Partition
