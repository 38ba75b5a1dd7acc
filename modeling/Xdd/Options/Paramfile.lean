import Xdd.Target.SaveLoad

/-!
# Parameter files

`xdd_process_paramfile` reads a file into a buffer and cuts it into words in place. A pointer and
a counter go over the text together; behind a comment line the counter gets ahead of the pointer
by one, so the end of the text is reached too early. Blanks are passed over behind a word only:
where the text or what follows a comment line begins with a blank, an empty word is found, and a
first line that begins with a space or a tab is passed over as a whole.
-/

namespace Xdd.Options

open Target (cString)

def isBlank (c : Char) : Bool := c = ' ' || c = '\t' || c = '\n'

/-! ## The words of a text -/

/-- The words of a line, up to one that begins with `#`. -/
def lineWords (line : List Char) : List (List Char) :=
  ((line.splitOnP isBlank).filter (· ≠ [])).takeWhile (·.head? ≠ some '#')

def words (text : List Char) : List (List Char) := (text.splitOn '\n').flatMap lineWords

/-! ## The loop -/

/-- The loop over the text. `left` is what the counter lacks to the size; behind the text the
buffer holds zeros, which are neither blanks nor line ends. A word is what the C string is at its
beginning. -/
def paramLoop : Nat → Nat → List Char → List (List Char)
  | 0, _, _ => []
  | fuel + 1, left, cp =>
    if left = 0 then []
    else if cp.head? = some '#' then
      if '\n' ∉ cp.take left then []
      else
        let skipped := (cp.takeWhile (· ≠ '\n')).length
        paramLoop fuel (left - skipped - 2) (cp.drop (skipped + 1))
    else if (cp.take left).all (!isBlank ·) then [cString (cp.take left)]
    else
      let token := cp.takeWhile (!isBlank ·)
      let cp := cp.drop (token.length + 1)
      let left := left - token.length
      let skipped := ((cp.take left).takeWhile isBlank).length
      if left ≤ skipped then [cString token]
      else cString token :: paramLoop fuel (left - skipped - 1) (cp.drop skipped)

/-- `xdd_process_paramfile`: the words behind the program name. A text that begins with a blank is
first searched for a line end. The array has room for 8191 words. -/
def xddProcessParamfile (text : List Char) : Option (List (List Char)) :=
  let cp := if text.head?.any isBlank then text.dropWhile (· ≠ '\n') else text
  let argv := paramLoop cp.length cp.length cp
  if 8191 < argv.length then none else some argv

/-! ## Where a text is cut rightly -/

/-- Between two words, in a word or in a comment. -/
inductive Place where
  | between
  | word
  | comment
deriving DecidableEq, Repr

/-- The text begins with a word or a comment. -/
def StartsItem (text : List Char) : Prop := ∀ c ∈ text.head?, isBlank c = false

/-- No word has a zero in it or fewer characters behind it than there have been comment lines; and
behind a comment line there is no blank, unless there are no more characters than there have been
comment lines. -/
def InStep : Place → Nat → List Char → Prop
  | .between, _, [] => True
  | .word, comments, [] => comments = 0
  | .comment, _, [] => True
  | .between, comments, c :: rest =>
    if isBlank c then InStep .between comments rest
    else if c = '#' then InStep .comment comments rest
    else c ≠ Char.ofNat 0 ∧ InStep .word comments rest
  | .word, comments, c :: rest =>
    if isBlank c then comments ≤ rest.length + 1 ∧ InStep .between comments rest
    else c ≠ Char.ofNat 0 ∧ InStep .word comments rest
  | .comment, comments, c :: rest =>
    if c = '\n' then
      (comments + 1 < rest.length → StartsItem rest) ∧ InStep .between (comments + 1) rest
    else InStep .comment comments rest

/-! ## Taking a text apart -/

/-- What a text begins with. -/
inductive Item : List Char → Prop where
  | nil : Item []
  | blank (c : Char) (rest : List Char) (hblank : isBlank c = true) : Item (c :: rest)
  | lastComment (line : List Char) (hline : '\n' ∉ line) : Item ('#' :: line)
  | comment (line next : List Char) (hline : '\n' ∉ line) : Item ('#' :: (line ++ '\n' :: next))
  | word (w after : List Char) (hne : w ≠ []) (hw : ∀ c ∈ w, isBlank c = false)
      (hhash : w.head? ≠ some '#') (hafter : ∀ c ∈ after.head?, isBlank c = true) :
      Item (w ++ after)

theorem head_dropWhile {p : Char → Bool} {text : List Char} :
    ∀ c ∈ (text.dropWhile p).head?, p c = false := by
  intro c hc
  have hnot := List.head?_dropWhile_not p text
  rw [Option.mem_def.mp hc] at hnot
  exact hnot

theorem item (text : List Char) : Item text := by
  cases text with
  | nil => exact .nil
  | cons c rest =>
    by_cases hblank : isBlank c = true
    · exact .blank c rest hblank
    by_cases hhash : c = '#'
    · subst hhash
      have hline : '\n' ∉ rest.takeWhile (· ≠ '\n') := by
        intro hmem
        simpa using List.mem_takeWhile_imp hmem
      have hsplit := List.takeWhile_append_dropWhile (p := fun c => decide (c ≠ '\n')) (l := rest)
      cases hrest : rest.dropWhile (· ≠ '\n') with
      | nil =>
        rw [hrest, List.append_nil] at hsplit
        rw [← hsplit]
        exact .lastComment _ hline
      | cons c next =>
        have hend : decide (c ≠ '\n') = false := head_dropWhile c (by rw [hrest]; rfl)
        rw [decide_eq_false_iff_not, not_not] at hend
        rw [hrest, hend] at hsplit
        rw [← hsplit]
        exact .comment _ next hline
    · rw [← List.takeWhile_append_dropWhile (p := (!isBlank ·)) (l := c :: rest)]
      have hfirst : (c :: rest).takeWhile (!isBlank ·) = c :: rest.takeWhile (!isBlank ·) :=
        List.takeWhile_cons_of_pos (by simpa using hblank)
      refine .word _ _ ?_ ?_ ?_ ?_
      · rw [hfirst]
        exact List.cons_ne_nil _ _
      · intro d hd
        simpa using List.mem_takeWhile_imp hd
      · rw [hfirst, List.head?_cons]
        simpa using hhash
      · intro d hd
        simpa using head_dropWhile d hd

/-! ## Words of a text that is taken apart -/

theorem lineWords_blank {c : Char} (hblank : isBlank c = true) (line : List Char) :
    lineWords (c :: line) = lineWords line := by
  rw [lineWords, List.splitOnP_cons_eq_if_modifyHead, if_pos hblank,
    List.filter_cons_of_neg (by simp), lineWords]

theorem lineWords_word {w : List Char} (hne : w ≠ []) (hw : ∀ c ∈ w, isBlank c = false)
    (hhash : w.head? ≠ some '#') : lineWords w = [w] := by
  rw [lineWords, List.splitOnP_eq_singleton hw, List.filter_cons_of_pos (by simpa using hne),
    List.takeWhile_cons_of_pos (by simpa using hhash)]
  rfl

theorem lineWords_word_blank {w : List Char} (hne : w ≠ []) (hw : ∀ c ∈ w, isBlank c = false)
    (hhash : w.head? ≠ some '#') {c : Char} (hblank : isBlank c = true) (line : List Char) :
    lineWords (w ++ c :: line) = w :: lineWords line := by
  rw [lineWords, List.splitOnP_append_cons_of_forall_mem hw c hblank,
    List.filter_cons_of_pos (by simpa using hne),
    List.takeWhile_cons_of_pos (by simpa using hhash), lineWords]

theorem lineWords_comment (line : List Char) : lineWords ('#' :: line) = [] := by
  obtain ⟨w, ws, hsplit⟩ := List.exists_cons_of_ne_nil (List.splitOnP_ne_nil isBlank line)
  rw [lineWords, List.splitOnP_cons_eq_if_modifyHead, if_neg (by decide), hsplit,
    List.modifyHead_cons, List.filter_cons_of_pos (by simp),
    List.takeWhile_cons_of_neg (by simp)]

theorem words_line {line : List Char} (hline : '\n' ∉ line) : words line = lineWords line := by
  rw [words, List.splitOn_eq_singleton hline, List.flatMap_singleton]

theorem words_newline (text rest : List Char) :
    words (text ++ '\n' :: rest) = words text ++ words rest := by
  rw [words, List.splitOn_append_cons_self, List.flatMap_append, words, words]

/-- What the front of a line adds to its words it adds to the words of the text. -/
theorem words_front (front : List Char) (hfront : '\n' ∉ front) (out : List (List Char))
    (h : ∀ line, lineWords (front ++ line) = out ++ lineWords line) (rest : List Char) :
    words (front ++ rest) = out ++ words rest := by
  by_cases hnewline : '\n' ∈ rest
  · obtain ⟨line, next, rfl, hline⟩ := List.eq_append_cons_of_mem hnewline
    rw [← List.append_assoc, words_newline, words_newline, words_line (by simp [hfront, hline]),
      words_line hline, h, List.append_assoc]
  · rw [words_line (by simp [hfront, hnewline]), words_line hnewline, h]

theorem words_blank {c : Char} (hblank : isBlank c = true) (rest : List Char) :
    words (c :: rest) = words rest := by
  by_cases hend : c = '\n'
  · subst hend
    exact words_newline [] rest
  · exact words_front [c] (by simpa using Ne.symm hend) [] (lineWords_blank hblank) rest

theorem words_comment {line : List Char} (hline : '\n' ∉ line) (next : List Char) :
    words ('#' :: (line ++ '\n' :: next)) = words next := by
  rw [← List.cons_append, words_newline, words_line (by simp [hline]), lineWords_comment,
    List.nil_append]

theorem words_word {w after : List Char} (hne : w ≠ []) (hw : ∀ c ∈ w, isBlank c = false)
    (hhash : w.head? ≠ some '#') (hafter : ∀ c ∈ after.head?, isBlank c = true) :
    words (w ++ after) = w :: words after := by
  have hnewline : '\n' ∉ w := fun hmem => absurd (hw _ hmem) (by decide)
  have hword : words w = [w] := by rw [words_line hnewline, lineWords_word hne hw hhash]
  cases after with
  | nil =>
    rw [List.append_nil, hword]
    rfl
  | cons c rest =>
    have hblank := hafter c rfl
    rw [words_blank hblank]
    by_cases hend : c = '\n'
    · subst hend
      rw [words_newline, hword]
      rfl
    · rw [List.append_cons]
      refine words_front (w ++ [c]) (by simp [hnewline, Ne.symm hend]) [w] ?_ rest
      intro line
      rw [List.append_assoc]
      exact lineWords_word_blank hne hw hhash hblank line

theorem not_mem_nil_words (text : List Char) : [] ∉ words text := by
  intro hmem
  obtain ⟨line, -, hword⟩ := List.mem_flatMap.mp hmem
  have hfilter := ( List.takeWhile_prefix _).subset hword
  simp at hfilter

/-! ## The condition for a text that is taken apart -/

theorem inStep_blank {comments : Nat} {c : Char} (hblank : isBlank c = true) (rest : List Char) :
    InStep .between comments (c :: rest) ↔ InStep .between comments rest := by
  rw [InStep, if_pos hblank]

theorem inStep_hash {comments : Nat} (rest : List Char) :
    InStep .between comments ('#' :: rest) ↔ InStep .comment comments rest := by
  rw [InStep, if_neg (by decide), if_pos rfl]

theorem inStep_lastComment {comments : Nat} {line : List Char} (hline : '\n' ∉ line) :
    InStep .comment comments line := by
  induction line with
  | nil => trivial
  | cons c line ih =>
    rw [List.mem_cons, not_or] at hline
    rw [InStep, if_neg (Ne.symm hline.1)]
    exact ih hline.2

theorem inStep_comment {comments : Nat} {line : List Char} (hline : '\n' ∉ line)
    (next : List Char) :
    InStep .comment comments (line ++ '\n' :: next) ↔
      (comments + 1 < next.length → StartsItem next) ∧ InStep .between (comments + 1) next := by
  induction line with
  | nil => rw [List.nil_append, InStep, if_pos rfl]
  | cons c line ih =>
    rw [List.mem_cons, not_or] at hline
    rw [List.cons_append, InStep, if_neg (Ne.symm hline.1)]
    exact ih hline.2

/-- The rest of a word. -/
theorem inStep_inside {comments : Nat} {w after : List Char} (hw : ∀ c ∈ w, isBlank c = false)
    (hafter : ∀ c ∈ after.head?, isBlank c = true) :
    InStep .word comments (w ++ after) ↔
      Char.ofNat 0 ∉ w ∧ comments ≤ after.length ∧ InStep .between comments after := by
  induction w with
  | nil =>
    rw [List.nil_append, and_iff_right List.not_mem_nil]
    cases after with
    | nil => simp [InStep]
    | cons c rest =>
      have hblank := hafter c rfl
      rw [inStep_blank hblank, InStep, if_pos hblank, List.length_cons]
  | cons c w ih =>
    obtain ⟨hc, hw⟩ := List.forall_mem_cons.mp hw
    rw [List.cons_append, InStep, if_neg (by simp [hc]), ih hw, List.mem_cons, not_or, and_assoc,
      ne_comm]

theorem inStep_word {comments : Nat} {w after : List Char} (hne : w ≠ [])
    (hw : ∀ c ∈ w, isBlank c = false) (hhash : w.head? ≠ some '#')
    (hafter : ∀ c ∈ after.head?, isBlank c = true) :
    InStep .between comments (w ++ after) ↔
      Char.ofNat 0 ∉ w ∧ comments ≤ after.length ∧ InStep .between comments after := by
  cases w with
  | nil => exact absurd rfl hne
  | cons c w =>
    obtain ⟨hc, hw⟩ := List.forall_mem_cons.mp hw
    have hc' : c ≠ '#' := fun h => hhash (by rw [h]; rfl)
    rw [List.cons_append, InStep, if_neg (by simp [hc]), if_neg hc', inStep_inside hw hafter,
      List.mem_cons, not_or, and_assoc, ne_comm]

/-- A text that is no longer than the comment lines before it may not have a word. -/
theorem inStep_short {comments : Nat} {text : List Char} (hshort : text.length ≤ comments) :
    InStep .between comments text ↔ words text = [] := by
  induction hn : text.length using Nat.strong_induction_on generalizing comments text with
  | _ n ih =>
    cases item text with
    | nil => exact iff_of_true trivial rfl
    | blank c rest hblank =>
      rw [List.length_cons] at hn hshort
      rw [inStep_blank hblank, words_blank hblank]
      exact ih rest.length (by omega) (by omega) rfl
    | lastComment line hline =>
      rw [inStep_hash, words_line (by simp [hline]), lineWords_comment]
      exact iff_of_true (inStep_lastComment hline) rfl
    | comment line next hline =>
      simp only [List.length_cons, List.length_append] at hn hshort
      rw [inStep_hash, inStep_comment hline, words_comment hline]
      rw [and_iff_right fun h => absurd h (by omega)]
      exact ih next.length (by omega) (by omega) rfl
    | word w after hne hw hhash hafter =>
      have hpos : 0 < w.length := List.length_pos_iff.mpr hne
      rw [List.length_append] at hshort
      rw [inStep_word hne hw hhash hafter, words_word hne hw hhash hafter]
      refine iff_of_false ?_ (List.cons_ne_nil _ _)
      rintro ⟨-, hroom, -⟩
      omega

/-- Blanks are passed over by both. -/
theorem inStep_drop_blanks (comments : Nat) (text : List Char) (n : Nat)
    (hblanks : ∀ c ∈ text.take n, isBlank c = true) :
    (InStep .between comments (text.drop n) ↔ InStep .between comments text) ∧
      words (text.drop n) = words text := by
  induction n generalizing text with
  | zero => exact ⟨Iff.rfl, rfl⟩
  | succ n ih =>
    cases text with
    | nil => exact ⟨Iff.rfl, rfl⟩
    | cons c rest =>
      rw [List.take_succ_cons] at hblanks
      obtain ⟨hc, hrest⟩ := List.forall_mem_cons.mp hblanks
      rw [List.drop_succ_cons, inStep_blank hc, words_blank hc]
      exact ih rest hrest

/-! ## The loop over a text -/

theorem cString_eq_self_iff {w : List Char} : cString w = w ↔ Char.ofNat 0 ∉ w := by
  rw [cString, List.takeWhile_eq_self_iff]
  simp only [decide_eq_true_eq]
  constructor
  · intro h hmem
    exact h _ hmem rfl
  · intro h c hc hzero
    rw [hzero] at hc
    exact h hc

theorem takeWhile_append {p : Char → Bool} {front after : List Char}
    (hfront : ∀ c ∈ front, p c = true) (hafter : ∀ c ∈ after.head?, p c = false) :
    (front ++ after).takeWhile p = front := by
  rw [List.takeWhile_append_of_pos hfront]
  cases after with
  | nil => exact List.append_nil front
  | cons c rest => rw [List.takeWhile_cons_of_neg (by simp [hafter c rfl]), List.append_nil]

/-- Blanks are passed over among the next `n` characters. -/
theorem skipped_blanks (text : List Char) (n : Nat) :
    ((text.take n).takeWhile isBlank).length ≤ n ∧
      (∀ c ∈ text.take ((text.take n).takeWhile isBlank).length, isBlank c = true) ∧
      (((text.take n).takeWhile isBlank).length < n →
        StartsItem (text.drop ((text.take n).takeWhile isBlank).length)) := by
  have hbegin := List.takeWhile_prefix isBlank (l := text.take n)
  have hfront := List.prefix_iff_eq_take.mp (hbegin.trans ( List.take_prefix n text))
  refine ⟨?_, ?_, ?_⟩
  · exact hbegin.length_le.trans (List.length_take_le n text)
  · rw [← hfront]
    intro c hc
    exact List.mem_takeWhile_imp hc
  · intro hless c hc
    have hdrop : ((text.take n).takeWhile isBlank ++ (text.take n).dropWhile isBlank).drop
        ((text.take n).takeWhile isBlank).length = (text.take n).dropWhile isBlank :=
      List.drop_left
    rw [List.takeWhile_append_dropWhile, List.drop_take] at hdrop
    apply head_dropWhile c
    rw [← hdrop, List.head?_take, if_neg (by omega)]
    exact hc

/-- The loop at a comment line. -/
theorem paramLoop_comment {fuel left : Nat} {line next : List Char} (hleft : left ≠ 0)
    (hline : '\n' ∉ line) :
    paramLoop (fuel + 1) left ('#' :: (line ++ '\n' :: next)) =
      if left ≤ line.length + 1 then [] else paramLoop fuel (left - line.length - 3) next := by
  have hfront : '\n' ∉ '#' :: line := by simp [hline]
  rw [paramLoop, if_neg hleft, List.head?_cons, if_pos rfl, ← List.cons_append]
  by_cases hshort : left ≤ line.length + 1
  · rw [if_pos hshort, if_pos]
    rw [List.take_append_of_le_length hshort]
    exact fun hmem => hfront (List.mem_of_mem_take hmem)
  · obtain ⟨k, rfl⟩ : ∃ k, left = ('#' :: line).length + (k + 1) :=
      ⟨left - line.length - 2, by rw [List.length_cons]; omega⟩
    have hskipped : ('#' :: line ++ '\n' :: next).takeWhile (· ≠ '\n') = '#' :: line := by
      apply takeWhile_append
      · intro c hc
        exact decide_eq_true fun h => hfront (h ▸ hc)
      · intro c hc
        cases hc
        rfl
    rw [if_neg hshort, if_neg]
    · dsimp only
      rw [hskipped, ← List.drop_drop, List.drop_left, List.drop_succ_cons, List.drop_zero]
      congr 1
    · rw [List.take_length_add_append, List.take_succ_cons]
      simp

/-- The loop at a word. -/
theorem paramLoop_word {fuel left : Nat} {w after : List Char} (hleft : left ≠ 0)
    (hsize : left ≤ w.length + after.length) (hne : w ≠ []) (hw : ∀ c ∈ w, isBlank c = false)
    (hhash : w.head? ≠ some '#') (hafter : ∀ c ∈ after.head?, isBlank c = true) :
    paramLoop (fuel + 1) left (w ++ after) =
      if left ≤ w.length then [cString (w.take left)]
      else
        let skipped := (((after.drop 1).take (left - w.length)).takeWhile isBlank).length
        if left - w.length ≤ skipped then [cString w]
        else cString w :: paramLoop fuel (left - w.length - skipped - 1)
          ((after.drop 1).drop skipped) := by
  rw [paramLoop, if_neg hleft, List.head?_append_of_ne_nil w hne, if_neg hhash]
  by_cases hshort : left ≤ w.length
  · rw [if_pos hshort, List.take_append_of_le_length hshort, if_pos]
    rw [List.all_eq_true]
    intro c hc
    rw [hw c (List.mem_of_mem_take hc)]
    rfl
  · have htoken : (w ++ after).takeWhile (!isBlank ·) = w := by
      apply takeWhile_append
      · intro c hc
        rw [hw c hc]
        rfl
      · intro c hc
        rw [hafter c hc]
        rfl
    have hblank : ¬ ((w ++ after).take left).all (!isBlank ·) = true := by
      obtain ⟨k, rfl⟩ : ∃ k, left = w.length + (k + 1) := ⟨left - w.length - 1, by omega⟩
      cases after with
      | nil => simp at hsize
      | cons c rest =>
        rw [List.take_length_add_append, List.take_succ_cons]
        simp [hafter c rfl]
    rw [if_neg hshort, if_neg hblank, htoken]
    dsimp only
    rw [← List.drop_drop, List.drop_left]

/-- A blank is taken for an empty word. -/
theorem nil_mem_paramLoop {fuel left : Nat} {c : Char} {rest : List Char} (hleft : left ≠ 0)
    (hblank : isBlank c = true) : [] ∈ paramLoop (fuel + 1) left (c :: rest) := by
  have hhash : c ≠ '#' := by
    rintro rfl
    cases hblank
  obtain ⟨k, rfl⟩ := Nat.exists_eq_succ_of_ne_zero hleft
  have htoken : (c :: rest).takeWhile (!isBlank ·) = [] :=
    List.takeWhile_cons_of_neg (by simp [hblank])
  rw [paramLoop, if_neg hleft, if_neg (by simpa using hhash), if_neg (by simp [hblank]), htoken]
  dsimp only
  split
  · exact List.mem_cons_self
  · exact List.mem_cons_self

/-- The words of a text that begins with one, if those of the text behind it are found as they
should be. -/
theorem paramLoop_word_iff {fuel left comments : Nat} {w after : List Char} (hleft : left ≠ 0)
    (hsize : left = (w ++ after).length - comments) (hfuel : left ≤ fuel + 1) (hne : w ≠ [])
    (hw : ∀ c ∈ w, isBlank c = false) (hhash : w.head? ≠ some '#')
    (hafter : ∀ c ∈ after.head?, isBlank c = true)
    (ih : ∀ {left : Nat} {text : List Char}, left ≤ fuel → left = text.length - comments →
      (paramLoop fuel left text = words text ↔
        (comments < text.length → StartsItem text) ∧ InStep .between comments text)) :
    paramLoop (fuel + 1) left (w ++ after) = words (w ++ after) ↔
      InStep .between comments (w ++ after) := by
  rw [List.length_append] at hsize
  rw [inStep_word hne hw hhash hafter, words_word hne hw hhash hafter,
    paramLoop_word hleft (by omega) hne hw hhash hafter]
  by_cases hshort : left ≤ w.length
  · rw [if_pos hshort, List.cons_eq_cons]
    by_cases hwhole : left = w.length
    · rw [List.take_of_length_le hwhole.ge, cString_eq_self_iff, inStep_short (by omega),
        and_iff_right (show comments ≤ after.length by omega), eq_comm (a := [])]
    · -- the word is cut off
      refine iff_of_false ?_ ?_
      · rintro ⟨hword, -⟩
        have hlength := congrArg List.length hword
        have hcut : (cString (w.take left)).length ≤ (w.take left).length :=
          ( List.takeWhile_prefix _).length_le
        rw [List.length_take] at hcut
        omega
      · rintro ⟨-, hroom, -⟩
        omega
  rw [if_neg hshort]
  cases after with
  | nil =>
    rw [List.length_nil] at hsize
    omega
  | cons c rest =>
    rw [List.length_cons] at hsize
    have hblank := hafter c rfl
    obtain ⟨hle, hblanks, hnext⟩ := skipped_blanks rest (left - w.length)
    obtain ⟨hstep, hwords⟩ := inStep_drop_blanks comments rest _ hblanks
    rw [List.drop_succ_cons, List.drop_zero, words_blank hblank, inStep_blank hblank, ← hstep,
      ← hwords, and_iff_right (show comments ≤ (c :: rest).length by rw [List.length_cons]; omega)]
    dsimp only
    generalize ((rest.take (left - w.length)).takeWhile isBlank).length = skipped at *
    split
    · rw [List.cons_eq_cons, cString_eq_self_iff,
        inStep_short (by rw [List.length_drop]; omega), eq_comm (a := [])]
    · rw [List.cons_eq_cons, cString_eq_self_iff,
        ih (by omega) (by rw [List.length_drop]; omega),
        and_iff_right fun _ => hnext (by omega)]

/-- The words are found exactly if the text begins with one of them or a comment and the
condition holds. -/
theorem paramLoop_eq_words_iff {fuel left comments : Nat} {text : List Char} (hfuel : left ≤ fuel)
    (hleft : left = text.length - comments) :
    paramLoop fuel left text = words text ↔
      (comments < text.length → StartsItem text) ∧ InStep .between comments text := by
  induction fuel generalizing left comments text with
  | zero =>
    rw [inStep_short (by omega), and_iff_right fun h => absurd h (by omega)]
    exact eq_comm
  | succ fuel ih =>
    by_cases hdone : left = 0
    · rw [paramLoop, if_pos hdone, inStep_short (by omega),
        and_iff_right fun h => absurd h (by omega)]
      exact eq_comm
    have hmore : comments < text.length := by omega
    rw [forall_prop_of_true hmore]
    cases item text with
    | nil => simp at hmore
    | blank c rest hblank =>
      refine iff_of_false ?_ ?_
      · intro heq
        apply not_mem_nil_words (c :: rest)
        rw [← heq]
        exact nil_mem_paramLoop hdone hblank
      · rintro ⟨hstarts, -⟩
        rw [hstarts c rfl] at hblank
        cases hblank
    | lastComment line hline =>
      have hstarts : StartsItem ('#' :: line) := by
        intro c hc
        cases hc
        rfl
      have hnewline : '\n' ∉ '#' :: line := by simp [hline]
      rw [words_line hnewline, lineWords_comment, inStep_hash, paramLoop, if_neg hdone,
        List.head?_cons, if_pos rfl, if_pos fun hmem => hnewline (List.mem_of_mem_take hmem)]
      exact iff_of_true rfl ⟨hstarts, inStep_lastComment hline⟩
    | comment line next hline =>
      simp only [List.length_cons, List.length_append] at hleft
      have hstarts : StartsItem ('#' :: (line ++ '\n' :: next)) := by
        intro c hc
        cases hc
        rfl
      rw [and_iff_right hstarts, inStep_hash, inStep_comment hline, words_comment hline,
        paramLoop_comment hdone hline]
      split
      · rw [inStep_short (by omega), and_iff_right fun h => absurd h (by omega)]
        exact eq_comm
      · exact ih (by omega) (by omega)
    | word w after hne hw hhash hafter =>
      have hstarts : StartsItem (w ++ after) := by
        intro c hc
        rw [List.head?_append_of_ne_nil w hne] at hc
        exact hw c (List.mem_of_mem_head? hc)
      rw [and_iff_right hstarts]
      exact paramLoop_word_iff hdone hleft hfuel hne hw hhash hafter ih

/-! ## The whole file -/

theorem startsItem_iff {text : List Char} : StartsItem text ↔ text.head?.any isBlank = false := by
  rw [StartsItem, Option.any_eq_false]
  simp

/-- The words of the file are found exactly if it begins with a word or a comment and the counter
does no harm; or if it is a single line that begins with a blank and has no words. -/
theorem xddProcessParamfile_iff (text : List Char) (hwords : (words text).length ≤ 8190) :
    xddProcessParamfile text = some (words text) ↔
      (StartsItem text ∧ InStep .between 0 text) ∨
        (¬ StartsItem text ∧ '\n' ∉ text ∧ words text = []) := by
  have hloop (cp : List Char) :
      (let argv := paramLoop cp.length cp.length cp
        if 8191 < argv.length then none else some argv) = some (words text) ↔
        paramLoop cp.length cp.length cp = words text := by
    dsimp only
    split
    · next hlong =>
      refine iff_of_false (Option.some_ne_none _).symm ?_
      intro heq
      rw [heq] at hlong
      omega
    · exact Option.some_inj
  rw [xddProcessParamfile, hloop]
  by_cases hstarts : StartsItem text
  · rw [if_neg (by rw [startsItem_iff.mp hstarts]; exact Bool.false_ne_true),
      paramLoop_eq_words_iff le_rfl (Nat.sub_zero _).symm, and_iff_right fun _ => hstarts,
      and_iff_right hstarts, or_iff_left fun h => h.1 hstarts]
  · have hblank : text.head?.any isBlank = true := by
      rw [← Bool.not_eq_false, ← startsItem_iff]
      exact hstarts
    rw [if_pos hblank, or_iff_right fun h => hstarts h.1, and_iff_right hstarts]
    by_cases hnewline : '\n' ∈ text
    · obtain ⟨line, next, rfl, hline⟩ := List.eq_append_cons_of_mem hnewline
      have hskip : (line ++ '\n' :: next).dropWhile (· ≠ '\n') = '\n' :: next := by
        rw [List.dropWhile_append_of_pos (by
          intro c hc
          exact decide_eq_true fun h => hline (h ▸ hc))]
        rfl
      refine iff_of_false ?_ fun h => h.1 hnewline
      intro heq
      rw [hskip] at heq
      apply not_mem_nil_words (line ++ '\n' :: next)
      rw [← heq]
      exact nil_mem_paramLoop (Nat.succ_ne_zero _) rfl
    · have hskip : text.dropWhile (· ≠ '\n') = [] := by
        rw [List.dropWhile_eq_nil_iff]
        intro c hc
        exact decide_eq_true fun h => hnewline (h ▸ hc)
      rw [hskip, and_iff_right hnewline]
      exact eq_comm

/-- A comment line, two words, and a comment at the end. -/
theorem xddProcessParamfile_commentLine :
    xddProcessParamfile "# a\n-op read #b\n".toList = some ["-op".toList, "read".toList] := by
  have hwords : words "# a\n-op read #b\n".toList = ["-op".toList, "read".toList] := by
    decide +kernel
  have hiff := xddProcessParamfile_iff "# a\n-op read #b\n".toList (by rw [hwords]; decide)
  rw [hwords] at hiff
  exact hiff.mpr (.inl ⟨startsItem_iff.mpr rfl, by simp [InStep, isBlank, StartsItem]⟩)

/-- An empty first line is found as a word; behind two comment lines the last word is cut off. -/
theorem paramfile_split_wrongly :
    xddProcessParamfile "\nab\n".toList = some [[], "ab".toList] ∧
      words "\nab\n".toList = ["ab".toList] ∧
      xddProcessParamfile "#x\n#y\nab\n".toList = some ["a".toList] ∧
      words "#x\n#y\nab\n".toList = ["ab".toList] := by
  decide +kernel

end Xdd.Options
