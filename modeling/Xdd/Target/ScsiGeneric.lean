import Xdd.Library.CInt
import Xdd.Library.Stream

/-!
# I/O through the SCSI generic driver

With `-sgio` an operation does not become a positioned read or write but a command of 16 bytes
that the driver hands to the device. A device counts in sectors, and the numbers of the command
are big-endian.

The driver with its device is a parameter. What is used of it is stated in `Driver.Executes`: a
`READ(16)` or `WRITE(16)` of a number of sectors moves just these, if the header asks for as many
bytes. The last theorem says for which operations this comes to the same as a positioned read or
write.
-/

namespace Xdd.Target.ScsiGeneric

open Stream

/-- The bytes of a device, and those of a buffer. -/
abbrev Bytes := Nat → UInt8

/-- The fields of a task that an I/O reads. -/
structure Task where
  write : Bool
  byteOffset : Nat
  xferSize : Nat
deriving DecidableEq, Repr

/-- The device and the buffer after an I/O, and `task_io_status`. -/
structure Io where
  device : Bytes
  buffer : Bytes
  status : Int

/-- The bytes `source` gives for `[start, start + length)`, and the old ones around. -/
def put (start length : Nat) (source old : Bytes) : Bytes := fun i =>
  if start ≤ i ∧ i < start + length then source (i - start) else old i

theorem put_of_mem {start length i : Nat} {source old : Bytes} (hlow : start ≤ i)
    (hhigh : i < start + length) : put start length source old i = source (i - start) :=
  if_pos ⟨hlow, hhigh⟩

theorem put_of_lt {start length i : Nat} {source old : Bytes} (h : i < start) :
    put start length source old i = old i :=
  if_neg fun hmem => Nat.not_le_of_lt h hmem.1

/-- `pwrite` and `pread`, without an error. -/
def positionedIo (task : Task) (device buffer : Bytes) : Io where
  device := if task.write then put task.byteOffset task.xferSize buffer device else device
  buffer := if task.write then buffer
    else put 0 task.xferSize (fun i => device (task.byteOffset + i)) buffer
  status := task.xferSize

/-! ## The command -/

def write16 : UInt8 := 0x8a
def read16 : UInt8 := 0x88

def sgBlocksize : Nat := 512

def Task.sgFromBlock (task : Task) : Nat := task.byteOffset / sgBlocksize

/-- A `uint32_t`. -/
def Task.sgBlocks (task : Task) : Nat := task.xferSize / sgBlocksize % 2 ^ 32

def Task.cmd (task : Task) : List UInt8 :=
  [if task.write then write16 else read16, 0,
    .ofNat (task.sgFromBlock >>> 56), .ofNat (task.sgFromBlock >>> 48),
    .ofNat (task.sgFromBlock >>> 40), .ofNat (task.sgFromBlock >>> 32),
    .ofNat (task.sgFromBlock >>> 24), .ofNat (task.sgFromBlock >>> 16),
    .ofNat (task.sgFromBlock >>> 8), .ofNat task.sgFromBlock,
    .ofNat (task.sgBlocks >>> 24), .ofNat (task.sgBlocks >>> 16),
    .ofNat (task.sgBlocks >>> 8), .ofNat task.sgBlocks, 0, 0]

/-- `sg_blocksize * sg_blocks`, a product of two `uint32_t`. -/
def Task.dxferLen (task : Task) : Nat := sgBlocksize * task.sgBlocks % 2 ^ 32

/-! ## The driver -/

/-- The fields of `sg_io_hdr_t` that say what is to be done. -/
structure IoHdr where
  toDev : Bool
  cmd : List UInt8
  dxferLen : Nat
deriving DecidableEq, Repr

def Task.ioHdr (task : Task) : IoHdr where
  toDev := task.write
  cmd := task.cmd
  dxferLen := task.dxferLen

/-- The fields of `sg_io_hdr_t` that say what has become of it. -/
structure Completion where
  maskedStatus : Nat
  hostStatus : Nat
  driverStatus : Nat
  sense : List UInt8
deriving DecidableEq, Repr

inductive Category where
  | clean
  | mediaChanged
  | reset
  | timeout
  | recovered
  | sense
  | other
deriving DecidableEq, Repr

/-- What the driver answers: the results of the `write` and the `read` of the header that were not
interrupted, and the header that was read. -/
structure Answer where
  submit : Int
  complete : Int
  completion : Completion

/-- A driver with its device: what it answers, and what a command does to the device and the
buffer. -/
structure Driver where
  answer : IoHdr → Bytes → Answer
  execute : IoHdr → Bytes → Bytes → Bytes × Bytes

def checkCondition : Nat := 0x01
def commandTerminated : Nat := 0x11
def didNoConnect : Nat := 0x01
def didBusBusy : Nat := 0x02
def didTimeOut : Nat := 0x03
def driverTimeout : Nat := 0x06
def driverSense : Nat := 0x08
def recoveredError : UInt8 := 0x01
def unitAttention : UInt8 := 0x06

/-- `sg_chk_n_print3`, without what it prints. -/
def sgChkNPrint (c : Completion) : Bool :=
  c.maskedStatus = 0 && c.hostStatus = 0 && c.driverStatus = 0

/-- `sg_err_category` -/
def sgErrCategory (c : Completion) : Category :=
  if c.maskedStatus = 0 ∧ c.hostStatus = 0 ∧ c.driverStatus = 0 then .clean
  else if c.maskedStatus = checkCondition ∨ c.maskedStatus = commandTerminated ∨
      driverSense &&& c.driverStatus ≠ 0 then
    let key := c.sense.getD 2 0
    let code := c.sense.getD 12 0
    if 2 < c.sense.length ∧ key = recoveredError then .recovered
    else if 12 < c.sense.length ∧ key &&& 0x0f = unitAttention ∧ code = 0x28 then .mediaChanged
    else if 12 < c.sense.length ∧ key &&& 0x0f = unitAttention ∧ code = 0x29 then .reset
    else .sense
  else if c.hostStatus = didNoConnect ∨ c.hostStatus = didBusBusy ∨ c.hostStatus = didTimeOut then
    .timeout
  else if c.driverStatus = driverTimeout then .timeout
  else .other

/-- The command has been done, perhaps after an error that the device has got over. -/
def Answer.good (answer : Answer) : Bool :=
  (0 ≤ answer.complete && sgChkNPrint answer.completion) ||
    sgErrCategory answer.completion = .recovered

/-- `xdd_sg_io`. The status of a command that failed is 0, as for an end of file. -/
def xddSgIo (driver : Driver) (task : Task) (device buffer : Bytes) : Io :=
  let answer := driver.answer task.ioHdr device
  if answer.submit < 0 then ⟨device, buffer, answer.submit⟩
  else
    let (device, buffer) := driver.execute task.ioHdr device buffer
    ⟨device, buffer, if answer.good then CInt.signed 32 task.dxferLen else 0⟩

/-- A command of 16 bytes with big-endian numbers. -/
def command (opcode : UInt8) (firstSector sectors : Nat) : List UInt8 :=
  opcode :: 0 :: ((leBytes 8 firstSector).reverse ++ ((leBytes 4 sectors).reverse ++ [0, 0]))

/-- A driver and a device with sectors of 512 bytes that do what they are asked for. -/
structure Driver.Executes (driver : Driver) : Prop where
  submit : ∀ hdr device, 0 ≤ (driver.answer hdr device).submit
  good : ∀ hdr device, (driver.answer hdr device).good = true
  write : ∀ first n device buffer, first < 2 ^ 64 → n < 2 ^ 32 →
    driver.execute ⟨true, command write16 first n, 512 * n⟩ device buffer =
      (put (512 * first) (512 * n) buffer device, buffer)
  read : ∀ first n device buffer, first < 2 ^ 64 → n < 2 ^ 32 →
    driver.execute ⟨false, command read16 first n, 512 * n⟩ device buffer =
      (device, put 0 (512 * n) (fun i => device (512 * first + i)) buffer)

/-! ## What the driver is asked for -/

theorem leBytes_reverse_eight (x : Nat) :
    (leBytes 8 x).reverse = [.ofNat (x >>> 56), .ofNat (x >>> 48), .ofNat (x >>> 40),
      .ofNat (x >>> 32), .ofNat (x >>> 24), .ofNat (x >>> 16), .ofNat (x >>> 8), .ofNat x] := by
  simp [leBytes, Nat.shiftRight_eq_div_pow, Nat.div_div_eq_div_mul]

theorem leBytes_reverse_four (x : Nat) :
    (leBytes 4 x).reverse = [.ofNat (x >>> 24), .ofNat (x >>> 16), .ofNat (x >>> 8), .ofNat x] := by
  simp [leBytes, Nat.shiftRight_eq_div_pow, Nat.div_div_eq_div_mul]

theorem cmd_eq_command (task : Task) :
    task.cmd = command (if task.write then write16 else read16) (task.byteOffset / 512)
      task.sgBlocks := by
  rw [command, leBytes_reverse_eight, leBytes_reverse_four]
  rfl

variable {driver : Driver}

theorem xddSgIo_status (h : driver.Executes) (task : Task) (device buffer : Bytes) :
    (xddSgIo driver task device buffer).status = CInt.signed 32 task.dxferLen := by
  rw [xddSgIo]
  dsimp only
  rw [if_neg (not_lt.mpr (h.submit _ _)), if_pos (h.good _ _)]

/-- Without errors an operation of fewer than `2 ^ 32` bytes moves as many whole sectors as it has,
beginning with the one that its first byte is in. -/
theorem xddSgIo_eq (h : driver.Executes) (task : Task) (hoffset : task.byteOffset < 2 ^ 63)
    (hlen : task.dxferLen = 512 * task.sgBlocks) (device buffer : Bytes) :
    xddSgIo driver task device buffer =
      { device := if task.write then
          put (512 * (task.byteOffset / 512)) task.dxferLen buffer device else device
        buffer := if task.write then buffer
          else put 0 task.dxferLen (fun i => device (512 * (task.byteOffset / 512) + i)) buffer
        status := CInt.signed 32 task.dxferLen } := by
  have hfirst : task.byteOffset / 512 < 2 ^ 64 := by omega
  have hsectors : task.sgBlocks < 2 ^ 32 := Nat.mod_lt _ (by decide)
  have hexecute : driver.execute task.ioHdr device buffer =
      (if task.write then put (512 * (task.byteOffset / 512)) task.dxferLen buffer device
        else device,
      if task.write then buffer
        else put 0 task.dxferLen (fun i => device (512 * (task.byteOffset / 512) + i)) buffer) := by
    rw [Task.ioHdr, cmd_eq_command, hlen]
    cases task.write with
    | true => exact h.write _ _ device buffer hfirst hsectors
    | false => exact h.read _ _ device buffer hfirst hsectors
  simp only [xddSgIo, hexecute, if_neg (not_lt.mpr (h.submit _ _)), if_pos (h.good _ _)]

/-- Whatever the driver does, an operation of at least a sector counts as whole only if the command
has been taken and done. -/
theorem good_of_status (driver : Driver) (task : Task) (device buffer : Bytes)
    (hsize : 0 < task.xferSize) (h : (xddSgIo driver task device buffer).status = task.xferSize) :
    0 ≤ (driver.answer task.ioHdr device).submit ∧
      (driver.answer task.ioHdr device).good = true := by
  rw [xddSgIo] at h
  dsimp only at h
  split at h
  · next hsubmit =>
    dsimp only at h
    omega
  · next hsubmit =>
    refine ⟨not_lt.mp hsubmit, ?_⟩
    by_contra hbad
    rw [if_neg hbad] at h
    change (0 : Int) = _ at h
    omega

/-! ## When it is the positioned I/O -/

theorem dxferLen_of_fits {task : Task} (h : task.xferSize < 2 ^ 32) :
    task.dxferLen = 512 * (task.xferSize / 512) := by
  show 512 * (task.xferSize / 512 % 2 ^ 32) % 2 ^ 32 = _
  omega

theorem signed_of_lt {x : Nat} (h : x < 2 ^ 31) : CInt.signed 32 x = x :=
  CInt.signed_of_fits (w := 31) (by push_cast; omega) (by push_cast; omega)

/-- The status is the size only of an operation of whole sectors that fits into an `int32_t`. -/
theorem status_eq_iff (task : Task) :
    CInt.signed 32 task.dxferLen = task.xferSize ↔
      512 ∣ task.xferSize ∧ task.xferSize < 2 ^ 31 := by
  have hsector : 512 ∣ task.dxferLen := by
    show 512 ∣ 512 * (task.xferSize / 512 % 2 ^ 32) % 2 ^ 32
    omega
  have hbound : task.dxferLen < 2 ^ 32 := Nat.mod_lt _ (by decide)
  constructor
  · intro h
    have hlow : CInt.signed 32 task.dxferLen < 2 ^ 31 := Int.bmod_lt (by decide)
    have hfits : task.xferSize < 2 ^ 31 := by
      rw [h] at hlow
      exact_mod_cast hlow
    have hlen : task.dxferLen = _ := dxferLen_of_fits (by omega)
    rw [hlen, signed_of_lt (by omega)] at h
    exact ⟨by omega, hfits⟩
  · rintro ⟨hdvd, hfits⟩
    rw [dxferLen_of_fits (by omega), signed_of_lt (by omega)]
    omega

/-- The first sector that a command names, in the bytes from 2, and the number of sectors, in those
from 10. -/
def firstSector (cmd : List UInt8) : Nat := leNat ((cmd.drop 2).take 8).reverse
def sectors (cmd : List UInt8) : Nat := leNat ((cmd.drop 10).take 4).reverse

/-- A disk that is never full and never fails. -/
def disk : Driver where
  answer _ _ := ⟨88, 88, ⟨0, 0, 0, []⟩⟩
  execute hdr device buffer :=
    let start := 512 * firstSector hdr.cmd
    let length := min hdr.dxferLen (512 * sectors hdr.cmd)
    if hdr.cmd.head? = some write16 then (put start length buffer device, buffer)
    else if hdr.cmd.head? = some read16 then
      (device, put 0 length (fun i => device (start + i)) buffer)
    else (device, buffer)

theorem firstSector_command (opcode : UInt8) {first n : Nat} (h : first < 2 ^ 64) :
    firstSector (command opcode first n) = first := by
  have hbytes : ((command opcode first n).drop 2).take 8 = (leBytes 8 first).reverse := by
    show ((leBytes 8 first).reverse ++ _).take 8 = _
    rw [List.take_left' (by simp)]
  rw [firstSector, hbytes, List.reverse_reverse, leNat_leBytes]
  exact Nat.mod_eq_of_lt h

theorem sectors_command (opcode : UInt8) {first n : Nat} (h : n < 2 ^ 32) :
    sectors (command opcode first n) = n := by
  have hbytes : ((command opcode first n).drop 10).take 4 = (leBytes 4 n).reverse := by
    have hlength : (opcode :: 0 :: (leBytes 8 first).reverse).length = 10 := by simp
    show (((opcode :: 0 :: (leBytes 8 first).reverse) ++ _).drop 10).take 4 = _
    rw [List.drop_left' hlength, List.take_left' (by simp)]
  rw [sectors, hbytes, List.reverse_reverse, leNat_leBytes]
  exact Nat.mod_eq_of_lt h

theorem executes_disk : disk.Executes where
  submit _ _ := Int.natCast_nonneg 88
  good _ _ := rfl
  write first n device buffer hfirst hn := by
    simp only [disk, firstSector_command write16 hfirst, sectors_command write16 hn, Nat.min_self]
    rfl
  read first n device buffer hfirst hn := by
    simp only [disk, firstSector_command read16 hfirst, sectors_command read16 hn, Nat.min_self]
    rfl

end Xdd.Target.ScsiGeneric
