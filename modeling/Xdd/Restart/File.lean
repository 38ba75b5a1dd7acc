import Xdd.Library.Text
import Xdd.Restart.Monitor

/-!
# The restart file

`xdd_restart_write_restart_file` goes back to the beginning of the file and writes one
line; the file is not truncated, so behind a short line stands the tail of an earlier
longer one. `Flow.getRestartOffset` reads the first line only. The line ends with a
newline of its own, so what stands behind it never matters.
-/

namespace Xdd.Restart.File

open Text

/-- The fields of the restart structure that a call reads. -/
structure Call where
  byteOffset : Int
  initialRestartOffset : Int
deriving DecidableEq, Repr

/-- What the line says before the offset. -/
def restartOption : List Char := "-restart offset ".toList

/-- The text that a call writes. -/
def restartLine (offset : Int) : List Char := restartOption ++ (integer offset ++ ['\n'])

/-- Writing at the beginning of a file that is not truncated. -/
def overwrite (contents text : List Char) : List Char :=
  text ++ contents.drop text.length

def writeRestartFile (contents : List Char) (call : Call) : List Char :=
  overwrite contents (restartLine (restartOffset call.byteOffset call.initialRestartOffset))

/-- The contents after some calls; `fopen` leaves the file empty. -/
def restartFile (calls : List Call) : List Char :=
  calls.foldl writeRestartFile []

/-- The first line, with its newline if it has one. -/
def readline (contents : List Char) : List Char :=
  contents.takeWhile (· ≠ '\n') ++ (contents.dropWhile (· ≠ '\n')).take 1

/-- `int` of Python: a number with white space around it and nothing else. -/
def pythonInt (text : List Char) : Option Int :=
  match readInteger text with
  | some (value, rest) => if rest.all isSpace then some value else none
  | none => none

/-- `Flow.getRestartOffset` on the contents of the cookie: an `IndexError` or a
`ValueError` leaves the offset at 0. -/
def getRestartOffset (contents : List Char) : Int :=
  match ((readline contents).splitOn ' ')[2]? with
  | some field => (pythonInt field).getD 0
  | none => 0

theorem not_mem_integer {c : Char} (hdigit : c.isDigit = false) (hminus : c ≠ '-') (z : Int) :
    c ∉ integer z := by
  have hdigits : ∀ n, c ∉ Nat.toDigits 10 n := by
    intro n hmem
    rw [Nat.isDigit_of_mem_toDigits (by omega) (by omega) hmem] at hdigit
    cases hdigit
  cases z with
  | ofNat n => exact hdigits n
  | negSucc n =>
      intro hmem
      rcases List.mem_cons.mp hmem with hc | hmem
      · exact hminus hc
      · exact hdigits (n + 1) hmem

/-- A line with a newline at its end is what is read, whatever stands behind it. -/
theorem readline_append {line behind : List Char} (h : '\n' ∉ line) :
    readline (line ++ '\n' :: behind) = line ++ ['\n'] := by
  have hline : ∀ c ∈ line, decide (c ≠ '\n') = true := by
    intro c hc
    exact decide_eq_true fun heq => h (heq ▸ hc)
  simp only [readline, List.takeWhile_append_of_pos hline, List.dropWhile_append_of_pos hline]
  simp

/-- The third field of the line is the number with the newline. -/
theorem splitOn_restartLine (offset : Int) :
    (restartLine offset).splitOn ' ' =
      ["-restart".toList, "offset".toList, integer offset ++ ['\n']] := by
  have hwords : restartOption = "-restart".toList ++ ' ' :: ("offset".toList ++ [' ']) := by
    decide
  have hlast : ' ' ∉ integer offset ++ ['\n'] := by
    intro hmem
    rcases List.mem_append.mp hmem with hmem | hmem
    · exact not_mem_integer rfl (by decide) offset hmem
    · exact absurd (List.mem_singleton.mp hmem) (by decide)
  rw [restartLine, hwords, List.append_assoc, List.cons_append, List.append_assoc,
    List.singleton_append, List.splitOn_append_cons_self_of_not_mem (by decide),
    List.splitOn_append_cons_self_of_not_mem (by decide), List.splitOn_eq_singleton hlast]

/-- What stands behind the line that was written last is not looked at. -/
theorem getRestartOffset_overwrite (contents : List Char) (offset : Int) :
    getRestartOffset (overwrite contents (restartLine offset)) = offset := by
  have hline : '\n' ∉ restartOption ++ integer offset := by
    intro hmem
    rcases List.mem_append.mp hmem with hmem | hmem
    · exact absurd hmem (by decide)
    · exact not_mem_integer rfl (by decide) offset hmem
  have hread : readline (overwrite contents (restartLine offset)) = restartLine offset := by
    rw [overwrite, restartLine, ← List.append_assoc, List.append_assoc _ ['\n'],
      List.singleton_append, readline_append hline]
  have hint : pythonInt (integer offset ++ ['\n']) = some offset := by
    have h : readInteger (integer offset ++ ['\n']) = some (offset, ['\n']) :=
      readInteger_integer [] offset (List.forall_mem_nil _) (noDigit_cons rfl)
    simp only [pythonInt, h]
    rfl
  rw [getRestartOffset, hread, splitOn_restartLine]
  simp [hint]

theorem restartOffset_eq_max (byteOffset initial : Int) :
    restartOffset byteOffset initial = max byteOffset initial := by
  unfold restartOffset
  split <;> omega

/-- The offset read back is the one of the last call. -/
theorem getRestartOffset_restartFile (calls : List Call) (last : Call) :
    getRestartOffset (restartFile (calls ++ [last])) =
      max last.byteOffset last.initialRestartOffset := by
  have hlast : restartFile (calls ++ [last]) = writeRestartFile (restartFile calls) last := by
    simp [restartFile]
  rw [hlast, writeRestartFile, getRestartOffset_overwrite, restartOffset_eq_max]

/-- A shorter text leaves the end of the longer one behind it. -/
example : getRestartOffset (restartFile [⟨1000, 0⟩, ⟨7, 3⟩]) = 7 ∧
    restartFile [⟨1000, 0⟩, ⟨7, 3⟩] = "-restart offset 7\n00\n".toList := by
  decide +kernel

end Xdd.Restart.File
