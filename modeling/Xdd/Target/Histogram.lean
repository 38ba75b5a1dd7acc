import Xdd.Target.SaveLoad

/-!
# The histograms of a seek list

`xdd_save_seek_list` can also count the locations and the seek distances into buckets. The
width of a bucket is a quotient that drops its remainder, and the array of buckets is indexed
without a check. The distance histogram takes the longest distance from the section that saves
the list, where it is 0 if the list is not saved, and its loop ends one distance early.
-/

namespace Xdd.Target

/-- The options of the list and the numbers of buckets. -/
structure HistogramOptions where
  save : Bool
  seekhist : Bool
  disthist : Bool
  numSeekHistBuckets : Int
  numDistHistBuckets : Int
deriving DecidableEq, Repr

/-- A histogram is not printed, it is filled in, or a count goes to a place outside the array. -/
inductive Histogram where
  | notEnoughRange
  | filled (buckets : List Nat)
  | outside
deriving DecidableEq, Repr

/-- `buckets[bucket]++`. -/
def countBucket (buckets : List Nat) (bucket : Nat) : Option (List Nat) :=
  if bucket < buckets.length then some (buckets.modify bucket (· + 1)) else none

/-- Count values into `n` buckets of the width `divisor`. -/
def fillHistogram (n divisor : Int) (values : List Int) : Histogram :=
  if divisor = 0 then .notEnoughRange
  else match (values.map fun x => (x / divisor).toNat).foldlM countBucket
      (List.replicate n.toNat 0) with
    | some buckets => .filled buckets
    | none => .outside

/-- The section for `SO_SEEK_SEEKHIST`. -/
def seekHistogram (n range : Int) (entries : List TimedEntry) : Histogram :=
  fillHistogram n (uint64 (range.tdiv n)) (entries.map (·.blockLocation))

/-- The distances in the order of the list. -/
def seekDistances (entries : List TimedEntry) : List Int :=
  List.zipWith seekDistance entries entries.tail

/-- The section for `SO_SEEK_DISTHIST`. Its loop ends before the last entry. -/
def distHistogram (n longest : Int) (entries : List TimedEntry) : Histogram :=
  fillHistogram n (longest / n) ((seekDistances entries).take (entries.length - 2))

/-- The histograms that `xdd_save_seek_list` makes. -/
structure Histograms where
  seek : Option Histogram
  dist : Option Histogram
deriving DecidableEq, Repr

/-- `xdd_save_seek_list` with its options. The longest distance is computed by the section that
saves the list; a failure there ends the program. -/
def saveHistograms (o : HistogramOptions) (range : Int) (entries : List TimedEntry) :
    Except Fault Histograms := do
  let longest ←
    if o.save then do
      let _ ← saveSeekList range entries
      pure (distances range entries).longest
    else pure 0
  return {
    seek := if o.seekhist then some (seekHistogram o.numSeekHistBuckets range entries) else none
    dist := if o.disthist then some (distHistogram o.numDistHistBuckets longest entries) else none }

/-- A histogram that is filled in counts `total` values, all of them inside the array. -/
def Histogram.Counts (total : Nat) : Histogram → Prop
  | .notEnoughRange => True
  | .filled buckets => buckets.sum = total
  | .outside => False

/-- Whenever a histogram is filled in, it counts every operation or every distance. -/
def HistogramsCount (entries : List TimedEntry) (result : Except Fault Histograms) : Prop :=
  ∀ histograms, result = .ok histograms →
    (∀ h ∈ histograms.seek, h.Counts entries.length) ∧
    ∀ h ∈ histograms.dist, h.Counts (entries.length - 1)

/-! ## Filling buckets -/

theorem sum_modify_succ {buckets : List Nat} {i : Nat} (h : i < buckets.length) :
    (buckets.modify i (· + 1)).sum = buckets.sum + 1 := by
  induction buckets generalizing i with
  | nil => simp at h
  | cons count rest ih =>
    cases i with
    | zero =>
      rw [List.modify_zero_cons, List.sum_cons, List.sum_cons]
      omega
    | succ i =>
      rw [List.modify_succ_cons, List.sum_cons, List.sum_cons, ih (Nat.lt_of_succ_lt_succ h)]
      omega

/-- Indices inside the array are all counted. -/
theorem countBuckets_inside {indices buckets : List Nat} (h : ∀ i ∈ indices, i < buckets.length) :
    ∃ counted, indices.foldlM countBucket buckets = some counted ∧
      counted.sum = buckets.sum + indices.length := by
  induction indices generalizing buckets with
  | nil => exact ⟨buckets, rfl, rfl⟩
  | cons i indices ih =>
    have hi : i < buckets.length := h i List.mem_cons_self
    have hrest : ∀ j ∈ indices, j < (buckets.modify i (· + 1)).length := by
      intro j hj
      rw [List.length_modify]
      exact h j (List.mem_cons_of_mem i hj)
    obtain ⟨counted, hcounted, hsum⟩ := ih hrest
    refine ⟨counted, ?_, ?_⟩
    · rw [List.foldlM_cons, countBucket, if_pos hi]
      exact hcounted
    · rw [hsum, sum_modify_succ hi, List.length_cons]
      omega

/-- One index outside stops the count. -/
theorem countBuckets_outside {indices buckets : List Nat}
    (h : ¬ ∀ i ∈ indices, i < buckets.length) : indices.foldlM countBucket buckets = none := by
  induction indices generalizing buckets with
  | nil => exact absurd (fun i hi => absurd hi List.not_mem_nil) h
  | cons i indices ih =>
    rw [List.foldlM_cons, countBucket]
    by_cases hi : i < buckets.length
    · rw [if_pos hi]
      apply ih
      intro hall
      apply h
      intro j hj
      rcases List.mem_cons.mp hj with rfl | hj
      · exact hi
      · have hlt := hall j hj
        rwa [List.length_modify] at hlt
    · rw [if_neg hi]
      rfl

/-- A histogram is right exactly if it is not filled in, or all values are below the end of the
last bucket and there are as many as it should count. -/
theorem fillHistogram_counts_iff {n divisor : Int} {values : List Int} (hn : 1 ≤ n)
    (hdivisor : 0 ≤ divisor) (hvalues : ∀ x ∈ values, 0 ≤ x) (total : Nat) :
    (fillHistogram n divisor values).Counts total ↔
      divisor = 0 ∨ (∀ x ∈ values, x < n * divisor) ∧ values.length = total := by
  by_cases hzero : divisor = 0
  · simp [fillHistogram, hzero, Histogram.Counts]
  have hpos : 0 < divisor := by omega
  have hindex : (∀ i ∈ values.map fun x => (x / divisor).toNat,
      i < (List.replicate n.toNat 0).length) ↔ ∀ x ∈ values, x < n * divisor := by
    rw [List.forall_mem_map, List.length_replicate]
    apply forall₂_congr
    intro x hx
    have hquotient := Int.ediv_nonneg (hvalues x hx) hdivisor
    rw [← Int.ediv_lt_iff_lt_mul hpos]
    omega
  rw [fillHistogram, if_neg hzero, or_iff_right hzero, ← hindex]
  by_cases hinside : ∀ i ∈ values.map fun x => (x / divisor).toNat,
      i < (List.replicate n.toNat 0).length
  · obtain ⟨counted, hcounted, hsum⟩ := countBuckets_inside hinside
    rw [hcounted, and_iff_right hinside]
    show counted.sum = total ↔ _
    rw [hsum, List.sum_replicate, List.length_map]
    simp
  · rw [countBuckets_outside hinside]
    exact iff_of_false id fun h => hinside h.1

/-! ## The longest distance -/

theorem longest_lt_iff {steps : List Int} {n : Int} (d : Distances) :
    (steps.foldl Distances.add d).longest < n ↔ d.longest < n ∧ ∀ x ∈ steps, x < n := by
  induction steps generalizing d with
  | nil => simp
  | cons x steps ih =>
    have hstep : (d.add x).longest < n ↔ d.longest < n ∧ x < n := by
      simp only [Distances.add]
      split <;> omega
    rw [List.foldl_cons, ih, hstep, List.forall_mem_cons, and_assoc]

theorem length_seekDistances (entries : List TimedEntry) :
    (seekDistances entries).length = entries.length - 1 := by
  rw [seekDistances, List.length_zipWith, List.length_tail]
  omega

theorem seekDistances_nonneg {entries : List TimedEntry} {x : Int}
    (hx : x ∈ seekDistances entries) : 0 ≤ x := by
  rw [seekDistances, ← List.map_uncurry_zip_eq_zipWith] at hx
  obtain ⟨⟨a, b⟩, -, rfl⟩ := List.mem_map.mp hx
  exact (seekDistance_fits a b).1

/-- The loop leaves out a distance, so a distance histogram that is filled in is never right. -/
theorem distHistogram_counts_iff {n longest : Int} (hn : 1 ≤ n) (hlongest : 0 ≤ longest)
    {entries : List TimedEntry} (hshort : entries.length ≤ 1 → longest < n) :
    (distHistogram n longest entries).Counts (entries.length - 1) ↔ longest < n := by
  have hvalues : ∀ x ∈ (seekDistances entries).take (entries.length - 2), 0 ≤ x :=
    fun x hx => seekDistances_nonneg (List.mem_of_mem_take hx)
  rw [distHistogram, fillHistogram_counts_iff hn (Int.ediv_nonneg hlongest (by omega)) hvalues]
  constructor
  · rintro (hzero | ⟨-, hlength⟩)
    · by_contra hlong
      have hone := (Int.le_ediv_iff_mul_le (show 0 < n by omega)).mpr
        (show 1 * n ≤ longest by omega)
      omega
    · apply hshort
      rw [List.length_take, length_seekDistances] at hlength
      omega
  · intro hlong
    exact .inl (Int.ediv_eq_zero_of_lt hlongest hlong)

theorem seekHistogram_counts_iff {n range : Int} (hn : 1 ≤ n) {entries : List TimedEntry}
    (hentries : ∀ e ∈ entries, 0 ≤ e.blockLocation) :
    (seekHistogram n range entries).Counts entries.length ↔
      uint64 (range.tdiv n) = 0 ∨
        ∀ e ∈ entries, e.blockLocation < n * uint64 (range.tdiv n) := by
  have hvalues : ∀ x ∈ entries.map (·.blockLocation), 0 ≤ x := by
    rw [List.forall_mem_map]
    exact hentries
  rw [seekHistogram, fillHistogram_counts_iff hn (uint64_fits _).1 hvalues, List.forall_mem_map,
    List.length_map, and_iff_left rfl]

/-- What the options ask for. -/
def Histograms.requested (o : HistogramOptions) (range longest : Int) (entries : List TimedEntry) :
    Histograms where
  seek := if o.seekhist then some (seekHistogram o.numSeekHistBuckets range entries) else none
  dist := if o.disthist then some (distHistogram o.numDistHistBuckets longest entries) else none

theorem saveHistograms_eq (o : HistogramOptions) (range : Int) {entries : List TimedEntry}
    (h : o.save = false ∨ entries ≠ []) :
    saveHistograms o range entries = .ok (.requested o range
      (if o.save then (distances range entries).longest else 0) entries) := by
  cases hsave : o.save with
  | false =>
    simp only [saveHistograms, hsave]
    rfl
  | true =>
    have hne : entries.length ≠ 0 := by
      rw [hsave] at h
      simpa using h
    simp only [saveHistograms, hsave, saveSeekList, if_neg hne]
    rfl

theorem histogramsCount_requested {o : HistogramOptions} {range longest : Int}
    {entries : List TimedEntry} :
    HistogramsCount entries (.ok (.requested o range longest entries)) ↔
      (o.seekhist = true →
        (seekHistogram o.numSeekHistBuckets range entries).Counts entries.length) ∧
      (o.disthist = true →
        (distHistogram o.numDistHistBuckets longest entries).Counts (entries.length - 1)) := by
  cases hseek : o.seekhist <;> cases hdist : o.disthist <;>
    simp [HistogramsCount, Histograms.requested, hseek, hdist]

/-- The histograms count everything exactly if the locations of a seek histogram are below the
end of its last bucket and no distance histogram is filled in, which takes a saved list with
two neighbours that are as far apart as there are buckets. -/
theorem histogramsCount_iff (o : HistogramOptions) (range : Int) (entries : List TimedEntry)
    (hseek : o.seekhist = true → 1 ≤ o.numSeekHistBuckets)
    (hdist : o.disthist = true → 1 ≤ o.numDistHistBuckets)
    (hentries : ∀ e ∈ entries, 0 ≤ e.blockLocation) :
    HistogramsCount entries (saveHistograms o range entries) ↔
      (o.seekhist = true → uint64 (range.tdiv o.numSeekHistBuckets) = 0 ∨
        ∀ e ∈ entries,
          e.blockLocation < o.numSeekHistBuckets * uint64 (range.tdiv o.numSeekHistBuckets)) ∧
      (o.disthist = true → o.save = true →
        ∀ x ∈ seekDistances entries, x < o.numDistHistBuckets) := by
  by_cases hempty : o.save = true ∧ entries = []
  · -- the average of no distances ends the program before anything is counted
    obtain ⟨hsave, rfl⟩ := hempty
    have herror : saveHistograms o range [] = .error .divideByZero := by
      simp only [saveHistograms, hsave]
      rfl
    rw [herror]
    refine iff_of_true ?_ ⟨fun _ => .inr (by simp), fun _ _ => by simp [seekDistances]⟩
    intro histograms hok
    cases hok
  have hsome : o.save = false ∨ entries ≠ [] := by
    cases hsave : o.save with
    | false => exact .inl rfl
    | true => exact .inr fun hnil => hempty ⟨hsave, hnil⟩
  rw [saveHistograms_eq o range hsome, histogramsCount_requested]
  refine and_congr
    (imp_congr_right fun hrequested => seekHistogram_counts_iff (hseek hrequested) hentries)
    (imp_congr_right fun hrequested => ?_)
  have hdist := hdist hrequested
  have hpos : 0 < o.numDistHistBuckets := by omega
  cases hsave : o.save with
  | false =>
    rw [distHistogram_counts_iff hdist (by simp) (fun _ => by simpa using hpos)]
    simpa using hpos
  | true =>
    have hlongest : (distances range entries).longest < o.numDistHistBuckets ↔
        ∀ x ∈ seekDistances entries, x < o.numDistHistBuckets := by
      rw [distances, longest_lt_iff, and_iff_right hpos]
      rfl
    rw [if_pos rfl, distHistogram_counts_iff hdist (distances_fits range entries).longest.1, hlongest]
    · simp
    · intro hshort
      have hnone : (seekDistances entries).length = 0 := by
        rw [length_seekDistances]
        omega
      rw [hlongest, List.eq_nil_of_length_eq_zero hnone]
      simp

/-- Locations up to nine with a time of zero. -/
def locations (ls : List Int) : List TimedEntry :=
  ls.map fun l =>
    { operation := .read, reqsize := 1, blockLocation := l, time1 := 0, time2 := 0 }

theorem histogramsCount_oneBucket :
    HistogramsCount (locations [0, 1, 2])
      (saveHistograms ⟨false, true, true, 1, 1⟩ 3 (locations [0, 1, 2])) :=
  (histogramsCount_iff ⟨false, true, true, 1, 1⟩ 3 (locations [0, 1, 2]) (by decide) (by decide)
    (by decide)).mpr (by decide)

/-- Three buckets for the range 10 end at 9, and the third of three distances is not counted. -/
theorem histograms_fail :
    saveHistograms ⟨false, true, false, 3, 1⟩ 10 (locations [0, 9]) =
      .ok ⟨some .outside, none⟩ ∧
    ¬ HistogramsCount (locations [0, 9])
      (saveHistograms ⟨false, true, false, 3, 1⟩ 10 (locations [0, 9])) ∧
    saveHistograms ⟨true, false, true, 1, 2⟩ 10 (locations [0, 1, 2, 4]) =
      .ok ⟨none, some (.filled [0, 2])⟩ ∧
    ¬ HistogramsCount (locations [0, 1, 2, 4])
      (saveHistograms ⟨true, false, true, 1, 2⟩ 10 (locations [0, 1, 2, 4])) := by
  have houtside : saveHistograms ⟨false, true, false, 3, 1⟩ 10 (locations [0, 9]) =
      .ok ⟨some .outside, none⟩ := by decide
  have hshort : saveHistograms ⟨true, false, true, 1, 2⟩ 10 (locations [0, 1, 2, 4]) =
      .ok ⟨none, some (.filled [0, 2])⟩ := by decide +kernel
  refine ⟨houtside, ?_, hshort, ?_⟩
  · intro hcount
    exact (hcount _ houtside).1 _ rfl
  · intro hcount
    have hsum : [0, 2].sum = 3 := (hcount _ hshort).2 _ rfl
    exact absurd hsum (by decide)

end Xdd.Target
