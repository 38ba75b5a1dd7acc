import Xdd.Target.SaveLoad

/-!
# What a seek file can do to the seek list

The list has room for as many entries as there are operations, but a file can have any number
of lines. `xdd_load_seek_list` stores every line that is not a comment, does not look at how
many fields `sscanf` has found, and looks for the second token of a line without a bound.
-/

namespace Xdd.Target

open Text

/-- The line has a blank, so that `xdd_getnexttoken` finds the end of its first token. -/
def hasBlank (line : List Char) : Bool := line.any fun c => c = '\t' || c = ' '

/-- A line is a comment if it or its second token starts with the comment character. -/
def isSeekLine (line : List Char) : Bool :=
  line.head? ≠ some '#' && match getnexttoken line with
    | none => true
    | some token => token.head? ≠ some '#'

/-- The lines of a file that are not comments. -/
def seekLinesOf (text : List Char) : List (List Char) :=
  (fgetsLines 1023 [] text).filter isSeekLine

/-- The six fields of a line: numbers as they stand there, and a character. -/
structure Fields where
  ordinal : Int
  loc : Int
  reqsz : Int
  rw : Char
  t1 : Int
  t2 : Int
deriving DecidableEq, Repr

/-- The fields of a line, if all six are there. -/
def fields (line : List Char) : Option Fields :=
  match readInteger line with
  | none => none
  | some (ordinal, rest) => match readInteger rest with
    | none => none
    | some (loc, rest) => match readInteger rest with
      | none => none
      | some (reqsz, rest) => match rest.dropWhile isSpace with
        | [] => none
        | rw :: rest => match readInteger rest with
          | none => none
          | some (t1, rest) => match readInteger rest with
            | none => none
            | some (t2, _) => some ⟨ordinal, loc, reqsz, rw, t1, t2⟩

/-- The entry has the operation, the size, the location and the times that stand on the line,
as far as their types can hold them. -/
def TakenFrom (line : List Char) (e : TimedEntry) : Prop :=
  ∃ f, fields (cString line) = some f ∧ e.operation = loadedOperation f.rw ∧
    e.reqsize = atoi f.reqsz ∧ e.blockLocation = unsignedLongLong f.loc ∧
    e.time1 = unsignedLongLong f.t1 ∧ e.time2 = unsignedLongLong f.t2

/-- Nothing is read behind a line or stored behind the list, and every line that is not a
comment makes an entry that is taken from it. -/
def LoadsSafely (uninitialised : Scan) (text : List Char) (seeks : List TimedEntry) : Prop :=
  ∃ st, loadSeekList uninitialised text seeks = .ok st ∧
    ∀ (k : Nat) (line : List Char), (seekLinesOf text)[k]? = some line →
      ∃ e, st.seeks[k]? = some e ∧ TakenFrom line e

/-! ## The fields of a line -/

/-- A line with all its fields sets all variables. -/
theorem sscanf_of_fields {line : List Char} {f : Fields} (h : fields line = some f) (v : Scan) :
    sscanf line v = ⟨atoi f.ordinal, unsignedLongLong f.loc, atoi f.reqsz, f.rw,
      unsignedLongLong f.t1, unsignedLongLong f.t2⟩ := by
  unfold fields at h
  unfold sscanf
  rcases hordinal : readInteger line with _ | ⟨ordinal, rest⟩
  · rw [hordinal] at h
    cases h
  rw [hordinal] at h
  dsimp only at h ⊢
  rcases hloc : readInteger rest with _ | ⟨loc, rest⟩
  · rw [hloc] at h
    cases h
  rw [hloc] at h
  dsimp only at h ⊢
  rcases hreqsz : readInteger rest with _ | ⟨reqsz, rest⟩
  · rw [hreqsz] at h
    cases h
  rw [hreqsz] at h
  dsimp only at h ⊢
  rcases hrw : rest.dropWhile isSpace with _ | ⟨rw, rest⟩
  · rw [hrw] at h
    cases h
  rw [hrw] at h
  dsimp only at h ⊢
  rcases ht1 : readInteger rest with _ | ⟨t1, rest⟩
  · rw [ht1] at h
    cases h
  rw [ht1] at h
  dsimp only at h ⊢
  rcases ht2 : readInteger rest with _ | ⟨t2, rest⟩
  · rw [ht2] at h
    cases h
  · rw [ht2] at h
    cases h
    rfl

theorem takenFrom_of_fields {line : List Char} (h : (fields (cString line)).isSome) (v : Scan) :
    TakenFrom line (sscanf (cString line) v).entry := by
  obtain ⟨f, hf⟩ := Option.isSome_iff_exists.mp h
  refine ⟨f, hf, ?_⟩
  rw [sscanf_of_fields hf]
  exact ⟨rfl, rfl, rfl, rfl, rfl⟩

/-- Fields that their types can hold are stored as they stand on the line. -/
theorem TakenFrom.eq_of_fits {line : List Char} {e : TimedEntry} (h : TakenFrom line e)
    {f : Fields} (hf : fields (cString line) = some f)
    (hreqsz : -2 ^ 31 ≤ f.reqsz ∧ f.reqsz < 2 ^ 31) (hloc : 0 ≤ f.loc ∧ f.loc < 2 ^ 64)
    (ht1 : 0 ≤ f.t1 ∧ f.t1 < 2 ^ 64) (ht2 : 0 ≤ f.t2 ∧ f.t2 < 2 ^ 64) :
    e = ⟨⟨loadedOperation f.rw, f.reqsz, f.loc, f.t1⟩, f.t2⟩ := by
  obtain ⟨f', hf', hop, hsize, hlocation, htime1, htime2⟩ := h
  rw [hf] at hf'
  cases hf'
  have hstored {n : Int} (hn : 0 ≤ n ∧ n < 2 ^ 64) : unsignedLongLong n = n := by
    have hfits := unsignedLongLong_of_fits hn
    rwa [Int.toNat_of_nonneg hn.1] at hfits
  rw [atoi_of_fits hreqsz] at hsize
  rw [hstored hloc] at hlocation
  rw [hstored ht1] at htime1
  rw [hstored ht2] at htime2
  obtain ⟨⟨operation, reqsize, blockLocation, time1⟩, time2⟩ := e
  simp_all

/-! ## One line -/

theorem getnexttoken_isSome {line : List Char} : (getnexttoken line).isSome = hasBlank line := by
  have hnone : (line.dropWhile fun c => c ≠ '\t' && c ≠ ' ') = [] ↔ hasBlank line = false := by
    rw [List.dropWhile_eq_nil_iff, hasBlank, List.any_eq_false]
    apply forall₂_congr
    intro c _
    simp
  unfold getnexttoken
  split
  · next hend => exact (hnone.mp hend).symm
  · next hrest =>
    have hblank : hasBlank line ≠ false := fun h => hrest (hnone.mpr h)
    exact (Bool.eq_true_of_not_eq_false hblank).symm

/-- The lines that the loop can look at. -/
def Scannable (line : List Char) : Prop := line.head? = some '#' ∨ hasBlank line = true

theorem loadLine_ok {st st' : Load} {line : List Char} (h : loadLine st line = .ok st') :
    Scannable line ∧
      (isSeekLine line = false ∧ st' = st ∨
        isSeekLine line = true ∧ st.index < st.seeks.length ∧ st'.index = st.index + 1 ∧
          st'.seeks = st.seeks.set st.index (sscanf (cString line) st.vars).entry) := by
  unfold loadLine at h
  split at h
  · next hcomment =>
    cases h
    exact ⟨.inl hcomment, .inl ⟨by simp [isSeekLine, hcomment], rfl⟩⟩
  next hcomment =>
  split at h
  · cases h
  next token htoken =>
  have hblank : hasBlank line = true := by
    rw [← getnexttoken_isSome, htoken]
    rfl
  refine ⟨.inr hblank, ?_⟩
  split at h
  · next htokenComment =>
    cases h
    exact .inl ⟨by simp [isSeekLine, htoken, htokenComment], rfl⟩
  next htokenComment =>
  dsimp only at h
  split at h
  · next hroom =>
    cases h
    exact .inr ⟨by simp [isSeekLine, htoken, hcomment, htokenComment], hroom, rfl, rfl⟩
  · cases h

theorem loadLine_of_scannable {st : Load} {line : List Char} (hscan : Scannable line)
    (hroom : isSeekLine line = true → st.index < st.seeks.length) :
    ∃ st', loadLine st line = .ok st' := by
  unfold loadLine
  split
  · exact ⟨st, rfl⟩
  next hcomment =>
  have hblank := hscan.resolve_left hcomment
  rw [← getnexttoken_isSome] at hblank
  obtain ⟨token, htoken⟩ := Option.isSome_iff_exists.mp hblank
  rw [htoken]
  dsimp only
  split
  · exact ⟨st, rfl⟩
  next htokenComment =>
  rw [if_pos (hroom (by simp [isSeekLine, htoken, hcomment, htokenComment]))]
  exact ⟨_, rfl⟩

/-! ## All lines -/

/-- What a load that has come to its end has done. -/
structure Loaded (lines : List (List Char)) (st st' : Load) : Prop where
  scannable : ∀ line ∈ lines, Scannable line
  index : st'.index = st.index + (lines.filter isSeekLine).length
  length : st'.seeks.length = st.seeks.length
  room : st.index ≤ st.seeks.length → st'.index ≤ st'.seeks.length
  before : ∀ i < st.index, st'.seeks[i]? = st.seeks[i]?
  entries : ∀ (k : Nat) (line : List Char), (lines.filter isSeekLine)[k]? = some line →
    ∃ v, st'.seeks[st.index + k]? = some (sscanf (cString line) v).entry

theorem loaded_of_ok {lines : List (List Char)} {st st' : Load}
    (h : lines.foldlM loadLine st = .ok st') : Loaded lines st st' := by
  induction lines generalizing st with
  | nil =>
    cases h
    exact ⟨by simp, rfl, rfl, id, fun _ _ => rfl, by simp⟩
  | cons line lines ih =>
    rw [List.foldlM_cons] at h
    cases hline : loadLine st line with
    | error fault =>
      rw [hline] at h
      cases h
    | ok st₁ =>
      rw [hline] at h
      have hrest : Loaded lines st₁ st' := ih h
      obtain ⟨hscan, ⟨hcomment, rfl⟩ | ⟨hseek, hroom, hindex, hseeks⟩⟩ := loadLine_ok hline
      · have hfilter : (line :: lines).filter isSeekLine = lines.filter isSeekLine :=
          List.filter_cons_of_neg (by simp [hcomment])
        refine ⟨List.forall_mem_cons.mpr ⟨hscan, hrest.scannable⟩, ?_, hrest.length, hrest.room,
          hrest.before, ?_⟩
        · rw [hfilter]
          exact hrest.index
        · rw [hfilter]
          exact hrest.entries
      · have hfilter : (line :: lines).filter isSeekLine = line :: lines.filter isSeekLine :=
          List.filter_cons_of_pos hseek
        have hlength : st₁.seeks.length = st.seeks.length := by rw [hseeks, List.length_set]
        refine ⟨List.forall_mem_cons.mpr ⟨hscan, hrest.scannable⟩, ?_, hrest.length.trans hlength,
          fun _ => hrest.room (by omega), ?_, ?_⟩
        · rw [hfilter, hrest.index, hindex, List.length_cons]
          omega
        · intro i hi
          rw [hrest.before i (by omega), hseeks, List.getElem?_set_ne (by omega)]
        · intro k line' hk
          rw [hfilter] at hk
          cases k with
          | zero =>
            cases hk
            refine ⟨st.vars, ?_⟩
            rw [Nat.add_zero, hrest.before st.index (by omega), hseeks,
              List.getElem?_set_self hroom]
          | succ k =>
            obtain ⟨v, hv⟩ := hrest.entries k line' hk
            refine ⟨v, ?_⟩
            rw [← hv, hindex]
            congr 1
            omega

theorem load_of_room {lines : List (List Char)} {st : Load}
    (hscan : ∀ line ∈ lines, Scannable line)
    (hroom : st.index + (lines.filter isSeekLine).length ≤ st.seeks.length) :
    ∃ st', lines.foldlM loadLine st = .ok st' := by
  induction lines generalizing st with
  | nil => exact ⟨st, rfl⟩
  | cons line lines ih =>
    obtain ⟨hfirst, hlines⟩ := List.forall_mem_cons.mp hscan
    have hplace : isSeekLine line = true → st.index < st.seeks.length := by
      intro hseek
      rw [List.filter_cons_of_pos hseek, List.length_cons] at hroom
      omega
    obtain ⟨st₁, hline⟩ := loadLine_of_scannable hfirst hplace
    have hroom₁ : st₁.index + (lines.filter isSeekLine).length ≤ st₁.seeks.length := by
      obtain ⟨-, ⟨hcomment, rfl⟩ | ⟨hseek, -, hindex, hseeks⟩⟩ := loadLine_ok hline
      · rwa [List.filter_cons_of_neg (by simp [hcomment])] at hroom
      · rw [List.filter_cons_of_pos hseek, List.length_cons] at hroom
        rw [hindex, hseeks, List.length_set]
        omega
    obtain ⟨st', hrest⟩ := ih hlines hroom₁
    refine ⟨st', ?_⟩
    rw [List.foldlM_cons, hline]
    exact hrest

/-- A file is loaded safely exactly if each of its lines starts a comment or has a blank, it
has no more lines with entries than there are operations, and each of them has all six fields. -/
theorem loadsSafely_iff (uninitialised : Scan) (text : List Char) (seeks : List TimedEntry) :
    LoadsSafely uninitialised text seeks ↔
      (∀ line ∈ fgetsLines 1023 [] text, line.head? = some '#' ∨ hasBlank line = true) ∧
      (seekLinesOf text).length ≤ seeks.length ∧
      ∀ line ∈ seekLinesOf text, (fields (cString line)).isSome := by
  constructor
  · rintro ⟨st, hload, hentries⟩
    have hloaded := loaded_of_ok hload
    refine ⟨hloaded.scannable, ?_, ?_⟩
    · have hroom := hloaded.room (Nat.zero_le _)
      rw [hloaded.index, hloaded.length, Nat.zero_add] at hroom
      exact hroom
    · intro line hline
      obtain ⟨k, hk⟩ := List.getElem?_of_mem hline
      obtain ⟨e, -, ⟨f, hf, -⟩⟩ := hentries k line hk
      rw [hf]
      rfl
  · rintro ⟨hscan, hroom, hfields⟩
    have hstart : (⟨0, 0, uninitialised, seeks⟩ : Load).index +
        (seekLinesOf text).length ≤ seeks.length := by
      rw [Nat.zero_add]
      exact hroom
    obtain ⟨st, hload⟩ := load_of_room hscan hstart
    refine ⟨st, hload, ?_⟩
    intro k line hk
    obtain ⟨v, hv⟩ := (loaded_of_ok hload).entries k line hk
    rw [Nat.zero_add] at hv
    exact ⟨_, hv, takenFrom_of_fields (hfields line (List.mem_of_getElem? hk)) v⟩

/-- Entries that are not filled in. -/
def emptyEntries (n : Nat) : List TimedEntry :=
  List.replicate n ⟨⟨.unset, 0, 0, 0⟩, 0⟩

/-- A second line for one operation, an empty line, and a line with two fields. -/
theorem load_fails :
    loadSeekList ⟨0, 0, 0, 'r', 0, 0⟩ "0 1 2 r 3 4\n1 2 2 r 3 4\n".toList (emptyEntries 1) =
      .error .behindList ∧
    loadSeekList ⟨0, 0, 0, 'r', 0, 0⟩ ['\n'] (emptyEntries 1) = .error .behindLine ∧
    ¬ LoadsSafely ⟨0, 0, 0, 'r', 0, 0⟩ ['\n'] (emptyEntries 1) := by
  have hlist : loadSeekList ⟨0, 0, 0, 'r', 0, 0⟩ "0 1 2 r 3 4\n1 2 2 r 3 4\n".toList
      (emptyEntries 1) = .error .behindList := by decide +kernel
  have hline : loadSeekList ⟨0, 0, 0, 'r', 0, 0⟩ ['\n'] (emptyEntries 1) =
      .error .behindLine := by decide +kernel
  refine ⟨hlist, hline, ?_⟩
  rintro ⟨st, hload, -⟩
  rw [hline] at hload
  cases hload

end Xdd.Target
