import Mathlib

/-!
# Byte streams in pieces

What arrives on a connection is a list of pieces, none of them empty, and then its end. One
call of `recv` gives at most one piece. A loop that asks for what is still missing collects a
given number of bytes whatever the pieces are, and leaves the rest of the stream as it is.

Numbers go over the wire in little-endian order.
-/

namespace Stream

variable {β : Type*}

/-! ## Numbers -/

/-- The lowest `n` bytes, the lowest one first. -/
def leBytes : Nat → Nat → List UInt8
  | 0, _ => []
  | n + 1, x => UInt8.ofNat x :: leBytes n (x / 256)

def leNat : List UInt8 → Nat
  | [] => 0
  | byte :: rest => byte.toNat + 256 * leNat rest

@[simp] theorem length_leBytes (n x : Nat) : (leBytes n x).length = n := by
  induction n generalizing x with
  | zero => rfl
  | succ n ih => simp [leBytes, ih]

theorem leNat_leBytes (n x : Nat) : leNat (leBytes n x) = x % 256 ^ n := by
  induction n generalizing x with
  | zero => simp [leBytes, leNat, Nat.mod_one]
  | succ n ih =>
    rw [leBytes, leNat, ih, Nat.pow_succ, Nat.mul_comm (256 ^ n), Nat.mod_mul]
    simp

/-- A number of given length determines its bytes. -/
theorem eq_of_leNat_eq {xs ys : List UInt8} (hlength : xs.length = ys.length)
    (h : leNat xs = leNat ys) : xs = ys := by
  induction xs generalizing ys with
  | nil => exact (List.eq_nil_of_length_eq_zero hlength.symm).symm
  | cons x xs ih =>
    cases ys with
    | nil => cases hlength
    | cons y ys =>
      rw [leNat, leNat] at h
      have hx := x.toNat_lt
      have hy := y.toNat_lt
      have hbyte : x = y := UInt8.toNat_inj.mp (by omega)
      have hrest : xs = ys := ih (Nat.succ.inj hlength) (by omega)
      rw [hbyte, hrest]

/-! ## Receiving -/

/-- What a call of `recv` does when there are no more pieces. -/
inductive Ending where
  /-- the peer has closed the connection: 0 -/
  | closed
  /-- -1 -/
  | failed
  /-- it does not return -/
  | pending
deriving DecidableEq, Repr

structure Incoming (β : Type*) where
  pieces : List (List β)
  nonempty : ∀ piece ∈ pieces, piece ≠ []
  ending : Ending

namespace Incoming

/-- The bytes that are still to come. -/
def bytes (s : Incoming β) : List β := s.pieces.flatten

/-- These bytes in one piece. -/
def ofBytes [DecidableEq β] (bytes : List β) (ending : Ending) : Incoming β where
  pieces := if bytes = [] then [] else [bytes]
  nonempty := by
    intro piece hpiece
    split at hpiece
    · cases hpiece
    · rw [List.mem_singleton.mp hpiece]
      assumption
  ending := ending

@[simp] theorem bytes_ofBytes [DecidableEq β] (bytes : List β) (ending : Ending) :
    (ofBytes bytes ending).bytes = bytes := by
  by_cases h : bytes = [] <;> simp [ofBytes, Incoming.bytes, h]

/-- After a call of `recv` for `n` bytes. -/
def skip (s : Incoming β) (n : Nat) : Incoming β :=
  match h : s.pieces with
  | [] => s
  | piece :: rest =>
    if hlt : n < piece.length then
      ⟨piece.drop n :: rest, by
        intro p hp
        obtain rfl | hp := List.mem_cons.mp hp
        · exact List.ne_nil_of_length_pos (by rw [List.length_drop]; omega)
        · exact s.nonempty p (by rw [h]; exact List.mem_cons_of_mem _ hp), s.ending⟩
    else
      ⟨rest, fun p hp => s.nonempty p (by rw [h]; exact List.mem_cons_of_mem _ hp), s.ending⟩

@[simp] theorem skip_ending (s : Incoming β) (n : Nat) : (s.skip n).ending = s.ending := by
  unfold skip
  split
  · rfl
  · split <;> rfl

/-- A call takes a prefix of the first piece. -/
theorem bytes_skip {s : Incoming β} {piece : List β} {rest : List (List β)}
    (h : s.pieces = piece :: rest) (n : Nat) :
    s.bytes = piece.take n ++ (s.skip n).bytes := by
  have hskip : (s.skip n).bytes = piece.drop n ++ rest.flatten := by
    unfold skip bytes
    split
    · next hnil => simp [h] at hnil
    · next piece' rest' hcons =>
      obtain ⟨rfl, rfl⟩ : piece = piece' ∧ rest = rest' := by simpa [h] using hcons
      split
      · simp
      · next hlt => simp [List.drop_eq_nil_of_le (Nat.le_of_not_lt hlt)]
  rw [hskip, ← List.append_assoc, List.take_append_drop, bytes, h, List.flatten_cons]

end Incoming

/-- How a loop around `recv` ends. -/
inductive Outcome (β : Type*) where
  | full (bytes : List β) (rest : Incoming β)
  | ended (ending : Ending)

def Outcome.prepend (bytes : List β) : Outcome β → Outcome β
  | .full bytes' rest => .full (bytes ++ bytes') rest
  | .ended ending => .ended ending

/-- Receive what is missing, at most `limit` bytes a call, in at most `fuel` calls. -/
def recvLoop (limit : Nat) : Nat → Nat → Incoming β → Outcome β
  | _, 0, s => .full [] s
  | 0, _ + 1, _ => .ended .pending
  | fuel + 1, missing + 1, s =>
    match s.pieces with
    | [] => .ended s.ending
    | piece :: _ =>
      let got := piece.take (min (missing + 1) limit)
      (recvLoop limit fuel (missing + 1 - got.length) (s.skip (min (missing + 1) limit))).prepend got

/-- Every call makes progress, so that there are at most as many calls as bytes. -/
def recvAll (limit missing : Nat) (s : Incoming β) : Outcome β := recvLoop limit missing missing s

section

variable {limit fuel missing : Nat} {s : Incoming β}

theorem take_piece_length (missing : Nat) (hlimit : 0 < limit) {piece : List β}
    (hpiece : piece ≠ []) :
    0 < (piece.take (min (missing + 1) limit)).length ∧
      (piece.take (min (missing + 1) limit)).length ≤ missing + 1 := by
  have hpos := List.length_pos_iff.mpr hpiece
  rw [List.length_take]
  omega

theorem recvLoop_full (hlimit : 0 < limit) (hfuel : missing ≤ fuel)
    (h : missing ≤ s.bytes.length) :
    ∃ rest, recvLoop limit fuel missing s = .full (s.bytes.take missing) rest ∧
      rest.bytes = s.bytes.drop missing ∧ rest.ending = s.ending := by
  induction fuel generalizing missing s with
  | zero =>
    obtain rfl : missing = 0 := by omega
    exact ⟨s, by simp [recvLoop], by simp, rfl⟩
  | succ fuel ih =>
    cases missing with
    | zero => exact ⟨s, by simp [recvLoop], by simp, rfl⟩
    | succ missing =>
      cases hpieces : s.pieces with
      | nil => simp [Incoming.bytes, hpieces] at h
      | cons piece pieces =>
        obtain ⟨hpos, hle⟩ := take_piece_length missing hlimit
          (s.nonempty piece (by simp [hpieces]))
        have hbytes := Incoming.bytes_skip hpieces (min (missing + 1) limit)
        have hlength := congrArg List.length hbytes
        rw [List.length_append] at hlength
        have hfuel' : missing + 1 - (piece.take (min (missing + 1) limit)).length ≤ fuel := by
          omega
        have hmissing : missing + 1 - (piece.take (min (missing + 1) limit)).length ≤
            (s.skip (min (missing + 1) limit)).bytes.length := by
          omega
        obtain ⟨rest, hrest, hdrop, hending⟩ := ih hfuel' hmissing
        refine ⟨rest, ?_, ?_, by rw [hending, Incoming.skip_ending]⟩
        · rw [recvLoop, hpieces]
          dsimp only
          rw [hrest, Outcome.prepend, hbytes, List.take_append, List.take_of_length_le hle]
        · rw [hdrop, hbytes, List.drop_append, List.drop_eq_nil_of_le hle, List.nil_append]

theorem recvLoop_ended (hlimit : 0 < limit) (hfuel : missing ≤ fuel)
    (h : s.bytes.length < missing) : recvLoop limit fuel missing s = .ended s.ending := by
  induction fuel generalizing missing s with
  | zero => omega
  | succ fuel ih =>
    cases missing with
    | zero => omega
    | succ missing =>
      cases hpieces : s.pieces with
      | nil => rw [recvLoop, hpieces]
      | cons piece pieces =>
        obtain ⟨hpos, hle⟩ := take_piece_length missing hlimit
          (s.nonempty piece (by simp [hpieces]))
        have hlength := congrArg List.length
          (Incoming.bytes_skip hpieces (min (missing + 1) limit))
        rw [List.length_append] at hlength
        rw [recvLoop, hpieces]
        dsimp only
        rw [ih (by omega) (by omega), Outcome.prepend, Incoming.skip_ending]

/-- The loop collects the bytes, whatever the pieces are. -/
theorem recvAll_full (hlimit : 0 < limit) (h : missing ≤ s.bytes.length) :
    ∃ rest, recvAll limit missing s = .full (s.bytes.take missing) rest ∧
      rest.bytes = s.bytes.drop missing ∧ rest.ending = s.ending :=
  recvLoop_full hlimit le_rfl h

/-- The stream ends before they are all there. -/
theorem recvAll_ended (hlimit : 0 < limit) (h : s.bytes.length < missing) :
    recvAll limit missing s = .ended s.ending :=
  recvLoop_ended hlimit le_rfl h

theorem length_of_recvAll (hlimit : 0 < limit) {bytes : List β} {rest : Incoming β}
    (h : recvAll limit missing s = .full bytes rest) : bytes.length = missing := by
  by_cases hle : missing ≤ s.bytes.length
  · obtain ⟨rest', hfull, -⟩ := recvAll_full hlimit hle
    rw [hfull] at h
    rw [← (Outcome.full.inj h).1, List.length_take, Nat.min_eq_left hle]
  · rw [recvAll_ended hlimit (Nat.lt_of_not_le hle)] at h
    cases h

end

/-! ## Sending -/

/-- Counts that the calls of `send` return while this many bytes are sent, each of them positive
and at most what was asked for. -/
inductive Counts (limit : Nat) : Nat → List Nat → Prop where
  | nil : Counts limit 0 []
  | cons {missing count : Nat} {counts : List Nat} (hpos : 0 < count)
      (hle : count ≤ min missing limit) (hrest : Counts limit (missing - count) counts) :
      Counts limit missing (count :: counts)

theorem Counts.of_cons {limit missing count : Nat} {counts : List Nat}
    (h : Counts limit missing (count :: counts)) :
    0 < count ∧ count ≤ missing ∧ Counts limit (missing - count) counts := by
  cases h with
  | cons hpos hle hrest => exact ⟨hpos, by omega, hrest⟩

theorem Counts.sum {limit missing : Nat} {counts : List Nat} (h : Counts limit missing counts) :
    counts.sum = missing := by
  induction h with
  | nil => rfl
  | cons hpos hle hrest ih =>
    rw [List.sum_cons, ih]
    omega

/-- The memory from an address on. -/
def slice (memory : Nat → β) (start length : Nat) : List β :=
  (List.range length).map fun i => memory (start + i)

@[simp] theorem length_slice (memory : Nat → β) (start length : Nat) :
    (slice memory start length).length = length := by
  simp [slice]

theorem slice_append (memory : Nat → β) (start m n : Nat) :
    slice memory start m ++ slice memory (start + m) n = slice memory start (m + n) := by
  simp [slice, List.range_add, Function.comp_def, Nat.add_assoc]

end Stream
