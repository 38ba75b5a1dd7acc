import Xdd.Library.Text
import Xdd.Target.Options

/-!
# Saving and loading a seek list

`xdd_save_seek_list` writes two comment lines and one line for each entry;
`xdd_load_seek_list` reads a file line by line, skips the comments and takes every other
line apart with `sscanf`. A list that was saved is loaded as it was, except that nothing is
saved of an empty list: the average seek distance is a division by the number of entries.
-/

namespace Xdd.Target

open Text

/-- A seek entry with both of its times. -/
structure TimedEntry extends SeekEntry where
  time2 : Int
deriving DecidableEq, Repr

/-- The one-letter code of an operation. -/
def SeekOperation.code : SeekOperation → Char
  | .read => 'r'
  | .write => 'w'
  | .noop => 'n'
  | .unset => 'u'

/-! ## Saving -/

/-- The distances between neighbouring entries. -/
structure Distances where
  longest : Int
  shortest : Int
  total : Int
deriving DecidableEq, Repr

def seekDistance (previous current : TimedEntry) : Int :=
  if current.blockLocation > previous.blockLocation then
    uint64 (current.blockLocation - previous.blockLocation)
  else uint64 (previous.blockLocation - current.blockLocation)

def Distances.add (d : Distances) (distance : Int) : Distances where
  longest := if distance > d.longest then distance else d.longest
  shortest := if distance < d.shortest then distance else d.shortest
  total := uint64 (d.total + distance)

def distances (range : Int) (entries : List TimedEntry) : Distances :=
  (List.zipWith seekDistance entries entries.tail).foldl Distances.add ⟨0, uint64 range, 0⟩

/-- What the first line says. -/
def longestLabel : List Char := "# Longest seek=".toList
def shortestLabel : List Char := ", Shortest seek=".toList
def averageLabel : List Char := ", Average seek distance=".toList

def distanceLine (d : Distances) (average : Int) : List Char :=
  longestLabel ++ (padded 0 d.longest.toNat ++ (shortestLabel ++ (padded 0 d.shortest.toNat ++
    (averageLabel ++ padded 0 average.toNat))))

def headingLine : List Char := "#Ordinal Location Reqsize Operation Time1 Time2".toList

/-- One entry of the list, as `"%010d %012llu %d %s %016llu %016llu"` writes it. -/
def seekLine (i : Nat) (e : TimedEntry) : List Char :=
  padded 10 i ++ (' ' :: padded 12 e.blockLocation.toNat ++ (' ' :: integer e.reqsize ++
    (' ' :: e.operation.code :: ' ' :: padded 16 e.time1.toNat ++
      (' ' :: padded 16 e.time2.toNat))))

def seekLines (i : Nat) : List TimedEntry → List (List Char)
  | [] => []
  | e :: rest => seekLine i e :: seekLines (i + 1) rest

/-- The section for `SO_SEEK_SAVE`. -/
def saveSeekList (range : Int) (entries : List TimedEntry) : Except Fault (List Char) :=
  if entries.length = 0 then .error .divideByZero
  else
    let d := distances range entries
    let lines := distanceLine d (d.total / entries.length) :: headingLine :: seekLines 0 entries
    .ok (lines.flatMap fun line => line ++ ['\n'])

/-! ## Loading -/

/-- The variables that `sscanf` stores into; they keep their values from line to line. -/
structure Scan where
  ordinal : Int
  loc : Int
  reqsz : Int
  rw : Char
  t1 : Int
  t2 : Int
deriving DecidableEq, Repr

structure Load where
  index : Nat
  reqszHigh : Int
  vars : Scan
  seeks : List TimedEntry
deriving DecidableEq, Repr

inductive LoadFault where
  | behindLine
  | behindList
deriving DecidableEq, Repr

/-- What successive calls of `fgets` return: a line with its newline, or as many characters
as the buffer has room for. -/
def fgetsLines : Nat → List Char → List Char → List (List Char)
  | _, [], [] => []
  | _, read, [] => [read]
  | room, read, c :: text =>
    if c = '\n' ∨ room ≤ 1 then (read ++ [c]) :: fgetsLines 1023 [] text
    else fgetsLines (room - 1) (read ++ [c]) text

/-- `xdd_getnexttoken` does not look for the end of the line. -/
def getnexttoken (line : List Char) : Option (List Char) :=
  match line.dropWhile fun c => c ≠ '\t' && c ≠ ' ' with
  | [] => none
  | rest => some (rest.dropWhile fun c => c = '\t' || c = ' ')

/-- `%llu`: a value that does not fit becomes the largest one. -/
def unsignedLongLong (n : Int) : Int := if 2 ^ 64 ≤ n.natAbs then 2 ^ 64 - 1 else uint64 n

/-- `sscanf(line, "%d %llu %d %c %llu %llu", …)` stops at the first conversion that fails. A
`%d` is converted as by `atoi`: the nearest `long`, cut down to an `int`. -/
def sscanf (line : List Char) (v : Scan) : Scan :=
  match readInteger line with
  | none => v
  | some (ordinal, rest) =>
    let v := { v with ordinal := atoi ordinal }
    match readInteger rest with
    | none => v
    | some (loc, rest) =>
      let v := { v with loc := unsignedLongLong loc }
      match readInteger rest with
      | none => v
      | some (reqsz, rest) =>
        let v := { v with reqsz := atoi reqsz }
        match rest.dropWhile isSpace with
        | [] => v
        | rw :: rest =>
          let v := { v with rw := rw }
          match readInteger rest with
          | none => v
          | some (t1, rest) =>
            let v := { v with t1 := unsignedLongLong t1 }
            match readInteger rest with
            | none => v
            | some (t2, _) => { v with t2 := unsignedLongLong t2 }

def loadedOperation (rw : Char) : SeekOperation :=
  if rw = 'w' ∨ rw = 'W' then .write
  else if rw = 'n' ∨ rw = 'N' then .noop
  else .read

def Scan.entry (v : Scan) : TimedEntry where
  operation := loadedOperation v.rw
  reqsize := v.reqsz
  blockLocation := v.loc
  time1 := v.t1
  time2 := v.t2

/-- A string ends at its first null character, which a line of a file can contain. -/
def cString (line : List Char) : List Char := line.takeWhile (· ≠ Char.ofNat 0)

/-- The body of the loop for a line. -/
def loadLine (st : Load) (line : List Char) : Except LoadFault Load :=
  if line.head? = some '#' then .ok st
  else match getnexttoken line with
    | none => .error .behindLine
    | some token =>
      if token.head? = some '#' then .ok st
      else
        let v := sscanf (cString line) st.vars
        if st.index < st.seeks.length then
          .ok { index := st.index + 1
                reqszHigh := if v.reqsz > st.reqszHigh then v.reqsz else st.reqszHigh
                vars := v
                seeks := st.seeks.set st.index v.entry }
        else .error .behindList

/-- `xdd_load_seek_list` into a list that is already there. The variables are not
initialised. -/
def loadSeekList (uninitialised : Scan) (text : List Char) (seeks : List TimedEntry) :
    Except LoadFault Load :=
  (fgetsLines 1023 [] text).foldlM loadLine ⟨0, 0, uninitialised, seeks⟩

/-- The largest transfer of the list, in an unsigned field of 32 bits. -/
def Load.seekIosize (st : Load) (blockSize : Int) : Int :=
  CInt.unsigned 32 (st.reqszHigh * blockSize)

/-! ## The lines of a saved file -/

/-- A line that fits into the buffer is returned as a whole. -/
theorem fgetsLines_line {line : List Char} (read rest : List Char) {room : Nat}
    (hnewline : '\n' ∉ line) (hroom : line.length < room) :
    fgetsLines room read (line ++ '\n' :: rest) =
      (read ++ line ++ ['\n']) :: fgetsLines 1023 [] rest := by
  induction line generalizing room read with
  | nil => simp [fgetsLines]
  | cons c line ih =>
      have hc : c ≠ '\n' := fun h => hnewline (h ▸ List.mem_cons_self)
      have hlong : 1 < room := by
        rw [List.length_cons] at hroom
        omega
      have hline := ih (read ++ [c]) (fun h => hnewline (List.mem_cons_of_mem c h))
        (show line.length < room - 1 by rw [List.length_cons] at hroom; omega)
      rw [List.cons_append, fgetsLines, if_neg (by simp only [hc, false_or]; omega), hline]
      simp

/-- A file made of lines is read line by line. -/
theorem fgetsLines_flatMap {lines : List (List Char)}
    (h : ∀ line ∈ lines, '\n' ∉ line ∧ line.length < 1023) :
    fgetsLines 1023 [] (lines.flatMap fun line => line ++ ['\n']) =
      lines.map fun line => line ++ ['\n'] := by
  induction lines with
  | nil => rfl
  | cons line lines ih =>
      obtain ⟨hnewline, hroom⟩ := h line List.mem_cons_self
      rw [List.flatMap_cons, List.append_assoc, List.singleton_append,
        fgetsLines_line [] _ hnewline hroom, List.nil_append, List.map_cons,
        ih fun line hline => h line (List.mem_cons_of_mem _ hline)]

/-- The values an entry can have: an operation that was set and fields of their types. -/
structure TimedEntry.Valid (e : TimedEntry) : Prop where
  operation : e.operation ≠ .unset
  reqsize : -2 ^ 31 ≤ e.reqsize ∧ e.reqsize < 2 ^ 31
  blockLocation : 0 ≤ e.blockLocation ∧ e.blockLocation < 2 ^ 64
  time1 : 0 ≤ e.time1 ∧ e.time1 < 2 ^ 64
  time2 : 0 ≤ e.time2 ∧ e.time2 < 2 ^ 64

theorem not_mem_padded {c : Char} (hdigit : c.isDigit = false) (width n : Nat) :
    c ∉ padded width n := by
  intro h
  rw [isDigit_of_mem_padded h] at hdigit
  cases hdigit

theorem not_mem_integer {c : Char} (hdigit : c.isDigit = false) (hminus : c ≠ '-') (z : Int) :
    c ∉ integer z := by
  have hdigits : ∀ n : Nat, c ∉ Nat.toDigits 10 n := by
    intro n h
    rw [Nat.isDigit_of_mem_toDigits (by omega) (by omega) h] at hdigit
    cases hdigit
  cases z with
  | ofNat n => exact hdigits n
  | negSucc n =>
      intro h
      rcases List.mem_cons.mp h with h | h
      · exact hminus h
      · exact hdigits (n + 1) h

theorem ne_code {c : Char} (hcode : c.toNat < 32) (op : SeekOperation) : c ≠ op.code := by
  rintro rfl
  cases op <;> exact absurd hcode (by decide)

/-- An unsigned field of 64 bits takes at most 20 digits. -/
theorem length_padded_uint64 (width : Nat) {x : Int} (h : 0 ≤ x ∧ x < 2 ^ 64)
    (hwidth : width ≤ 20) : (padded width x.toNat).length ≤ 20 := by
  have hlen := length_padded_le width x.toNat 20 (by omega) (by omega)
  omega

/-- The line of an entry has no control characters. -/
theorem not_mem_seekLine {c : Char} (hcontrol : c.toNat < 32) (i : Nat) (e : TimedEntry) :
    c ∉ seekLine i e := by
  have hdigit : c.isDigit = false := by
    rw [Bool.eq_false_iff]
    intro h
    have hrange : 48 ≤ c.toNat ∧ c.toNat ≤ 57 := Char.isDigit_iff_toNat.mp h
    omega
  have hspace : c ≠ ' ' := by
    rintro rfl
    exact absurd hcontrol (by decide)
  have hminus : c ≠ '-' := by
    rintro rfl
    exact absurd hcontrol (by decide)
  simp only [seekLine, List.mem_append, List.mem_cons]
  simp [not_mem_padded hdigit, not_mem_integer hdigit hminus, ne_code hcontrol, hspace]

theorem seekLine_fits {i : Nat} {e : TimedEntry} (he : e.Valid) (hi : i < 2 ^ 31) :
    '\n' ∉ seekLine i e ∧ (seekLine i e).length < 1023 := by
  refine ⟨not_mem_seekLine (by decide) i e, ?_⟩
  have hordinal := length_padded_le 10 i 10 (by omega) (by omega)
  have hloc := length_padded_uint64 12 he.blockLocation (by omega)
  have hreqsize := length_integer_le (z := e.reqsize) (k := 10) (by omega)
    (by have := he.reqsize; omega)
  have htime1 := length_padded_uint64 16 he.time1 (by omega)
  have htime2 := length_padded_uint64 16 he.time2 (by omega)
  simp only [seekLine, List.length_append, List.length_cons]
  omega

/-- The distances are unsigned values of 64 bits. -/
structure Distances.Fits (d : Distances) : Prop where
  longest : 0 ≤ d.longest ∧ d.longest < 2 ^ 64
  shortest : 0 ≤ d.shortest ∧ d.shortest < 2 ^ 64
  total : 0 ≤ d.total ∧ d.total < 2 ^ 64

theorem uint64_fits (x : Int) : 0 ≤ uint64 x ∧ uint64 x < 2 ^ 64 := by
  have hpos : (0 : Int) < (2 ^ 64 : Nat) := by norm_num
  have hlow := Int.emod_nonneg x hpos.ne'
  have hhigh := Int.emod_lt_of_pos x hpos
  refine ⟨hlow, ?_⟩
  simpa [uint64, CInt.unsigned] using hhigh

theorem seekDistance_fits (a b : TimedEntry) : 0 ≤ seekDistance a b ∧ seekDistance a b < 2 ^ 64 := by
  unfold seekDistance
  split <;> exact uint64_fits _

theorem Distances.Fits.add {d : Distances} (hd : d.Fits) {distance : Int}
    (h : 0 ≤ distance ∧ distance < 2 ^ 64) : (d.add distance).Fits where
  longest := by
    unfold Distances.add
    dsimp only
    split
    · exact h
    · exact hd.longest
  shortest := by
    unfold Distances.add
    dsimp only
    split
    · exact h
    · exact hd.shortest
  total := uint64_fits _

theorem distances_fits (range : Int) (entries : List TimedEntry) : (distances range entries).Fits := by
  have hstart : Distances.Fits ⟨0, uint64 range, 0⟩ := ⟨by norm_num, uint64_fits range, by norm_num⟩
  have hall : ∀ x ∈ List.zipWith seekDistance entries entries.tail, 0 ≤ x ∧ x < 2 ^ 64 := by
    intro x hx
    rw [← List.map_uncurry_zip_eq_zipWith] at hx
    obtain ⟨⟨a, b⟩, -, rfl⟩ := List.mem_map.mp hx
    exact seekDistance_fits a b
  unfold distances
  generalize List.zipWith seekDistance entries entries.tail = steps at hall
  generalize (⟨0, uint64 range, 0⟩ : Distances) = d at hstart
  induction steps generalizing d with
  | nil => exact hstart
  | cons x steps ih =>
      exact ih (fun y hy => hall y (List.mem_cons_of_mem x hy)) _
        (hstart.add (hall x List.mem_cons_self))

theorem distanceLine_fits {d : Distances} (hd : d.Fits) {average : Int}
    (haverage : 0 ≤ average ∧ average < 2 ^ 64) :
    '\n' ∉ distanceLine d average ∧ (distanceLine d average).length < 1023 := by
  have hlongest : '\n' ∉ longestLabel ∧ longestLabel.length = 15 := by decide
  have hshortest : '\n' ∉ shortestLabel ∧ shortestLabel.length = 16 := by decide
  have haverageLabel : '\n' ∉ averageLabel ∧ averageLabel.length = 24 := by decide
  refine ⟨?_, ?_⟩
  · simp [distanceLine, not_mem_padded (show '\n'.isDigit = false by decide), hlongest, hshortest,
      haverageLabel]
  · have h₁ := length_padded_uint64 0 hd.longest (by omega)
    have h₂ := length_padded_uint64 0 hd.shortest (by omega)
    have h₃ := length_padded_uint64 0 haverage (by omega)
    simp only [distanceLine, List.length_append, hlongest, hshortest, haverageLabel]
    omega

/-! ## Reading the lines back -/

theorem loadLine_comment {line : List Char} (st : Load) (h : line.head? = some '#') :
    loadLine st line = .ok st := by
  rw [loadLine, if_pos h]

theorem unsignedLongLong_of_fits {x : Int} (h : 0 ≤ x ∧ x < 2 ^ 64) :
    unsignedLongLong (x.toNat : Int) = x := by
  rw [Int.toNat_of_nonneg h.1, unsignedLongLong, if_neg (by omega), uint64_of_fits h.1 h.2]

theorem atoi_of_fits {x : Int} (h : -2 ^ 31 ≤ x ∧ x < 2 ^ 31) : atoi x = x := by
  have hlong : atoll x = x := by
    rw [atoll]
    omega
  rw [atoi, hlong, int32_of_fits h.1 h.2]

/-- The space in front of a field is skipped. -/
theorem readInteger_space_padded (width n : Nat) {rest : List Char} (hrest : NoDigit rest) :
    readInteger (' ' :: (padded width n ++ rest)) = some ((n : Int), rest) :=
  readInteger_padded [' '] width n (by simp [isSpace]) hrest

theorem sscanf_seekLine {i : Nat} {e : TimedEntry} (he : e.Valid) (hi : i < 2 ^ 31) (v : Scan) :
    sscanf (seekLine i e ++ ['\n']) v =
      ⟨i, e.blockLocation, e.reqsize, e.operation.code, e.time1, e.time2⟩ := by
  have hspace : ∀ rest, NoDigit (' ' :: rest) := fun rest => noDigit_cons rfl
  have hordinal : readInteger (padded 10 i ++ _) = some ((i : Int), _) :=
    readInteger_padded [] 10 i (List.forall_mem_nil _) (hspace
      (padded 12 e.blockLocation.toNat ++ ' ' :: (integer e.reqsize ++
        ' ' :: e.operation.code :: ' ' :: (padded 16 e.time1.toNat ++
          ' ' :: (padded 16 e.time2.toNat ++ ['\n'])))))
  have hreqsize : readInteger (' ' :: (integer e.reqsize ++ _)) = some (e.reqsize, _) :=
    readInteger_integer [' '] e.reqsize (by simp [isSpace]) (hspace
      (e.operation.code :: ' ' :: (padded 16 e.time1.toNat ++
        ' ' :: (padded 16 e.time2.toNat ++ ['\n']))))
  have hcode : isSpace e.operation.code = false := by cases e.operation <;> decide
  have htext : seekLine i e ++ ['\n'] = padded 10 i ++ ' ' :: (padded 12 e.blockLocation.toNat ++
      ' ' :: (integer e.reqsize ++ ' ' :: e.operation.code :: ' ' :: (padded 16 e.time1.toNat ++
        ' ' :: (padded 16 e.time2.toNat ++ ['\n'])))) := by
    simp only [seekLine, List.append_assoc, List.cons_append]
  rw [htext]
  have hend : NoDigit ['\n'] := noDigit_cons rfl
  simp only [sscanf, hordinal, readInteger_space_padded _ _ (hspace _), hreqsize,
    readInteger_space_padded _ _ hend, unsignedLongLong_of_fits he.blockLocation,
    unsignedLongLong_of_fits he.time1, unsignedLongLong_of_fits he.time2,
    atoi_of_fits he.reqsize,
    List.dropWhile_cons_of_pos (show isSpace ' ' = true by decide),
    List.dropWhile_cons_of_neg (show ¬ isSpace e.operation.code = true by simp [hcode])]
  rw [atoi_of_fits (by omega)]

/-- The second token of an entry's line is its location, not a comment. -/
theorem getnexttoken_seekLine (i : Nat) (e : TimedEntry) :
    ∃ token, getnexttoken (seekLine i e ++ ['\n']) = some token ∧ token.head? ≠ some '#' := by
  obtain ⟨c, digits, hloc⟩ := List.exists_cons_of_ne_nil (padded_ne_nil 12 e.blockLocation.toNat)
  have hc : c.isDigit = true := isDigit_of_mem_padded (hloc ▸ List.mem_cons_self)
  have hblank : ∀ d : Char, d.isDigit = true → d ≠ '\t' ∧ d ≠ ' ' ∧ d ≠ '#' := by
    intro d hd
    refine ⟨?_, ?_, ?_⟩ <;> rintro rfl <;> exact absurd hd (by decide)
  have hordinal : ∀ d ∈ padded 10 i, (decide (d ≠ '\t') && decide (d ≠ ' ')) = true := by
    intro d hd
    obtain ⟨htab, hspace, -⟩ := hblank d (isDigit_of_mem_padded hd)
    simp [htab, hspace]
  obtain ⟨htab, hspace, hcomment⟩ := hblank c hc
  simp only [getnexttoken, seekLine, hloc, List.append_assoc, List.cons_append,
    List.dropWhile_append_of_pos hordinal]
  simp [htab, hspace, hcomment]

theorem loadedOperation_code {op : SeekOperation} (h : op ≠ .unset) :
    loadedOperation op.code = op := by
  cases op with
  | unset => contradiction
  | noop | read | write => rfl

/-- The line of an entry puts it into the next place of the list. -/
theorem loadLine_seekLine {i : Nat} {e : TimedEntry} (he : e.Valid) (hi : i < 2 ^ 31) (st : Load)
    (hroom : st.index < st.seeks.length) :
    ∃ st', loadLine st (seekLine i e ++ ['\n']) = .ok st' ∧ st'.index = st.index + 1 ∧
      st'.seeks = st.seeks.set st.index e := by
  obtain ⟨token, htoken, hcomment⟩ := getnexttoken_seekLine i e
  have hfirst : (seekLine i e ++ ['\n']).head? ≠ some '#' := by
    obtain ⟨c, digits, hordinal⟩ := List.exists_cons_of_ne_nil (padded_ne_nil 10 i)
    have hc : c.isDigit = true := isDigit_of_mem_padded (hordinal ▸ List.mem_cons_self)
    have hne : c ≠ '#' := by
      rintro rfl
      exact absurd hc (by decide)
    simpa [seekLine, hordinal] using hne
  have hentry : (Scan.mk i e.blockLocation e.reqsize e.operation.code e.time1 e.time2).entry = e := by
    simp only [Scan.entry, loadedOperation_code he.operation]
  have hstring : cString (seekLine i e ++ ['\n']) = seekLine i e ++ ['\n'] := by
    apply List.takeWhile_eq_self_iff.mpr
    intro c hc
    rw [decide_eq_true_eq]
    rintro rfl
    rcases List.mem_append.mp hc with hc | hc
    · exact not_mem_seekLine (by decide) i e hc
    · exact absurd hc (by decide)
  rw [loadLine, if_neg hfirst, htoken]
  simp only [if_neg hcomment, if_pos hroom, hstring, sscanf_seekLine he hi, hentry]
  exact ⟨_, rfl, rfl, rfl⟩

/-- The lines of the entries fill the list from the place reached on. -/
theorem foldlM_seekLines {entries : List TimedEntry} (i : Nat) (st : Load) (loaded old : List TimedEntry)
    (hentries : ∀ e ∈ entries, e.Valid) (hi : i + entries.length < 2 ^ 31)
    (hindex : st.index = loaded.length) (hseeks : st.seeks = loaded ++ old)
    (hold : old.length = entries.length) :
    ∃ st', ((seekLines i entries).map fun line => line ++ ['\n']).foldlM loadLine st = .ok st' ∧
      st'.seeks = loaded ++ entries := by
  induction entries generalizing i st loaded old with
  | nil =>
      refine ⟨st, rfl, ?_⟩
      rw [hseeks, List.length_eq_zero_iff.mp hold]
  | cons e entries ih =>
      obtain ⟨first, old, rfl⟩ := List.exists_cons_of_ne_nil (List.ne_nil_of_length_eq_add_one hold)
      rw [List.length_cons] at hi
      obtain ⟨st₁, hload, hindex₁, hseeks₁⟩ := loadLine_seekLine (hentries e List.mem_cons_self)
        (show i < 2 ^ 31 by omega) st (by rw [hseeks, hindex]; simp)
      have hset : st₁.seeks = (loaded ++ [e]) ++ old := by
        rw [hseeks₁, hseeks, hindex]
        simp
      obtain ⟨st', hrest, hdone⟩ := ih (i + 1) st₁ (loaded ++ [e]) old
        (fun e he => hentries e (List.mem_cons_of_mem _ he)) (by omega)
        (by rw [hindex₁, hindex]; simp) hset (by simpa using hold)
      refine ⟨st', ?_, by simpa using hdone⟩
      rw [seekLines, List.map_cons, List.foldlM_cons, hload]
      exact hrest

theorem seekLines_fit {entries : List TimedEntry} (i : Nat) (hentries : ∀ e ∈ entries, e.Valid)
    (hi : i + entries.length < 2 ^ 31) :
    ∀ line ∈ seekLines i entries, '\n' ∉ line ∧ line.length < 1023 := by
  induction entries generalizing i with
  | nil => simp [seekLines]
  | cons e entries ih =>
      rw [List.length_cons] at hi
      intro line hline
      rcases List.mem_cons.mp hline with rfl | hline
      · exact seekLine_fits (hentries e List.mem_cons_self) (by omega)
      · exact ih (i + 1) (fun e he => hentries e (List.mem_cons_of_mem _ he)) (by omega) line hline

/-- Saving and loading gives back every field of every entry, whatever the list that is
loaded into and the variables held before. -/
def SaveLoadRoundTrip (entries : List TimedEntry) : Prop :=
  ∀ range uninitialised old, old.length = entries.length →
    ∃ text st, saveSeekList range entries = .ok text ∧
      loadSeekList uninitialised text old = .ok st ∧ st.seeks = entries

/-- A seek list whose length the ordinal can count comes back as it was saved exactly if it
is not empty. -/
theorem saveLoad_roundTrip_iff {entries : List TimedEntry} (hentries : ∀ e ∈ entries, e.Valid)
    (hlength : entries.length < 2 ^ 31) : SaveLoadRoundTrip entries ↔ entries ≠ [] := by
  constructor
  · rintro h rfl
    obtain ⟨text, st, hsave, -⟩ := h 0 ⟨0, 0, 0, 'r', 0, 0⟩ [] rfl
    cases hsave
  · intro hne range uninitialised old hold
    have hpos : 0 < entries.length := List.length_pos_iff.mpr hne
    have hd := distances_fits range entries
    have haverage : 0 ≤ (distances range entries).total / (entries.length : Int) ∧
        (distances range entries).total / (entries.length : Int) < 2 ^ 64 :=
      ⟨Int.ediv_nonneg hd.total.1 (by omega),
        (Int.ediv_le_self _ hd.total.1).trans_lt hd.total.2⟩
    have hfits : ∀ line ∈ distanceLine (distances range entries)
          ((distances range entries).total / entries.length) :: headingLine :: seekLines 0 entries,
        '\n' ∉ line ∧ line.length < 1023 := by
      intro line hline
      rcases List.mem_cons.mp hline with rfl | hline
      · exact distanceLine_fits hd haverage
      · rcases List.mem_cons.mp hline with rfl | hline
        · decide
        · exact seekLines_fit 0 hentries (by omega) line hline
    obtain ⟨st, hload, hseeks⟩ := foldlM_seekLines 0 ⟨0, 0, uninitialised, old⟩ [] old hentries
      (by omega) rfl rfl hold
    refine ⟨_, st, if_neg (by omega), ?_, hseeks⟩
    rw [loadSeekList, fgetsLines_flatMap hfits, List.map_cons, List.map_cons, List.foldlM_cons,
      loadLine_comment _ rfl]
    exact hload

/-- The theorem applied to a list of two entries. -/
theorem saveLoad_roundTrip_twoEntries :
    SaveLoadRoundTrip [⟨⟨.write, -1, 2 ^ 64 - 1, 0⟩, 5⟩, ⟨⟨.noop, 8, 0, 70⟩, 2 ^ 64 - 1⟩] :=
  (saveLoad_roundTrip_iff
    (by
      intro e he
      simp only [List.mem_cons, List.not_mem_nil, or_false] at he
      obtain rfl | rfl := he
      · exact ⟨by decide, by decide, by decide, by decide, by decide⟩
      · exact ⟨by decide, by decide, by decide, by decide, by decide⟩)
    (by decide)).mpr (List.cons_ne_nil _ _)

/-- The empty list of a target without operations: the average distance is a division by
zero. -/
theorem saveLoad_no_roundTrip_empty : ¬ SaveLoadRoundTrip [] := by
  intro h
  obtain ⟨text, st, hsave, -⟩ := h 0 ⟨0, 0, 0, 'r', 0, 0⟩ [] rfl
  cases hsave

end Xdd.Target
