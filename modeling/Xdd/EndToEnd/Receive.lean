import Xdd.EndToEnd.Framing

/-!
# Receiving from several connections

A worker of the destination keeps the descriptors of its connections in a table. It reads a
header from every connection that is ready, looks at the last one, and reads the data the same
way. After a failure it closes the connection at the index `e2e_current_csd`, which is the loop
variable of both scans: it is the index of the connection if `recvfrom` fails within the loop,
and `FD_SETSIZE` if something is found to be wrong behind it.
-/

namespace Xdd.EndToEnd

open Stream

/-- `FD_SETSIZE`, as `end_to_end.h` defines it -/
def fdSetsize : Nat := 256

/-- What arrives on each descriptor. -/
abbrev Network := Nat → Incoming UInt8

/-- What the destination uses of `xint_e2e_t`. The entries of the table that are not in use are
0, and no two entries have one open descriptor. -/
structure E2e where
  sd : Nat
  csd : Fin fdSetsize → Nat
  active : Nat → Bool
  readset : Nat → Bool
  nextCsd : Fin fdSetsize
  distinct : ∀ i j, (active (csd i) ∨ readset (csd i)) → csd i = csd j → i = j
  zero_closed : active 0 = false ∧ readset 0 = false

namespace E2e

variable {e : E2e} {net : Network} {cookie : Fin 16 → UInt8}

/-- The end of `xdd_e2e_dest_init`. -/
def init (sd : Nat) (hsd : sd ≠ 0) : E2e where
  sd := sd
  csd := fun _ => 0
  active := fun d => d == sd
  readset := fun d => d == sd
  nextCsd := ⟨0, Nat.succ_pos _⟩
  distinct := fun _ _ h _ => by simp [hsd.symm] at h
  zero_closed := by simp [hsd.symm]

/-- `accept` returns a descriptor that is not in use. -/
structure Fresh (e : E2e) (d : Nat) : Prop where
  ne_zero : d ≠ 0
  ne_csd : ∀ i, e.csd i ≠ d

/-- `accept` has returned `d`; the sets after `select` and the two `FD_SET`. -/
def accept (e : E2e) {d : Nat} (hd : e.Fresh d) : E2e where
  sd := e.sd
  csd := Function.update e.csd e.nextCsd d
  active := Function.update e.active d true
  readset := Function.update e.readset d true
  nextCsd := e.nextCsd
  distinct := by
    intro i j hopen heq
    by_cases hi : i = e.nextCsd <;> by_cases hj : j = e.nextCsd
    · rw [hi, hj]
    · exact absurd (by simpa [hi, hj] using heq.symm) (hd.ne_csd j)
    · exact absurd (by simpa [hi, hj] using heq) (hd.ne_csd i)
    · rw [Function.update_of_ne hi, Function.update_of_ne (hd.ne_csd i),
        Function.update_of_ne (hd.ne_csd i)] at hopen
      exact e.distinct i j hopen (by simpa [hi, hj] using heq)
  zero_closed := by simpa [Function.update_of_ne hd.ne_zero.symm] using e.zero_closed

/-- `select` leaves in `e2e_readset` what is ready. -/
def select (e : E2e) (ready : Nat → Bool) : E2e where
  sd := e.sd
  csd := e.csd
  active := e.active
  readset := fun d => e.readset d && ready d
  nextCsd := e.nextCsd
  distinct := fun i j h => e.distinct i j (h.imp_right fun h => (by simpa using h : _ ∧ _).1)
  zero_closed := ⟨e.zero_closed.1, by rw [e.zero_closed.2, Bool.false_and]⟩

/-- `xdd_e2e_dest_connection`; `none` if there is no entry left -/
def xddE2eDestConnection (e : E2e) (ready : Nat → Bool) {d : Nat} (hd : e.Fresh d) : Option E2e :=
  if (e.select ready).readset e.sd then
    let e' := (e.select ready).accept ⟨hd.ne_zero, hd.ne_csd⟩
    match (List.finRange fdSetsize).find? fun i => e'.csd i = 0 with
    | some next => some { e' with nextCsd := next }
    | none => none
  else some (e.select ready)

/-! ## The scans -/

/-- The connection at this index is in `e2e_readset`. -/
def ready (e : E2e) (i : Fin fdSetsize) : Bool := e.readset (e.csd i)

/-- How a loop over the descriptors ends. -/
inductive Scan where
  /-- `recvfrom` returns 0 or -1 for the descriptor at this index -/
  | failed (index : Fin fdSetsize)
  | pending
  /-- the loop has run to its end, `last` is what it has received last and where from -/
  | done (last : Option (Fin fdSetsize × List UInt8)) (net : Network)

/-- The loop of `xdd_e2e_dest_receive_header` and `xdd_e2e_dest_receive_data` from an index on. -/
def scan (e : E2e) (size : Nat) :
    List (Fin fdSetsize) → Option (Fin fdSetsize × List UInt8) → Network → Scan
  | [], last, net => .done last net
  | i :: rest, last, net =>
    if e.ready i then
      match recvAll maxmitTcp size (net (e.csd i)) with
      | .ended .pending => .pending
      | .ended _ => .failed i
      | .full bytes s => e.scan size rest (some (i, bytes)) (Function.update net (e.csd i) s)
    else e.scan size rest last net

/-- What a call of `xdd_e2e_dest_receive` comes to. If it fails, `currentCsd` is the value of
`e2e_current_csd` at that time and `origin` the index of the connection that the header or the
missing bytes belong to. -/
inductive Call where
  | received (h : Header) (data : List UInt8) (net : Network)
  | failed (currentCsd : Nat) (origin : Option (Fin fdSetsize))
  | pending

/-- `xdd_e2e_dest_receive_data` and the check behind it -/
def xddE2eDestReceiveData (e : E2e) (h : Header) (net : Network) : Call :=
  match e.scan h.dataSize.toNat (List.finRange fdSetsize) none net with
  | .failed i => .failed i (some i)
  | .pending => .pending
  | .done none _ => .failed fdSetsize none
  | .done (some (i, data)) net =>
    if data.length ≤ 0 then .failed fdSetsize (some i) else .received h data net

/-- `xdd_e2e_dest_receive`, from `xdd_e2e_dest_receive_header` on -/
def xddE2eDestReceive (e : E2e) (cookie : Fin 16 → UInt8) (net : Network) : Call :=
  match e.scan Header.size (List.finRange fdSetsize) none net with
  | .failed i => .failed i (some i)
  | .pending => .pending
  | .done none _ => .failed fdSetsize none
  | .done (some (i, bytes)) net =>
    let h := Header.decode bytes
    if ¬ h.Accepted cookie then .failed fdSetsize (some i)
    else if h.magic = dataReady then e.xddE2eDestReceiveData h net
    else .received h [] net

/-- `xdd_e2e_dest_receive_error`; `none` if the index is not one of the table -/
def xddE2eDestReceiveError (e : E2e) (currentCsd : Nat) : Option E2e :=
  if h : currentCsd < fdSetsize then
    some
      { e with
        csd := Function.update e.csd ⟨currentCsd, h⟩ 0
        active := Function.update e.active (e.csd ⟨currentCsd, h⟩) false
        distinct := by
          intro i j hopen heq
          have hi : e.active (e.csd i) ∨ e.readset (e.csd i) := by
            by_cases hi : i = ⟨currentCsd, h⟩
            · simp [hi, Function.update_apply, e.zero_closed] at hopen
            · rw [Function.update_of_ne hi, Function.update_apply] at hopen
              split at hopen <;> simp_all
          have hne : e.csd i ≠ 0 := by
            intro hzero
            rw [hzero, e.zero_closed.1, e.zero_closed.2] at hi
            simp at hi
          have hi' : i ≠ ⟨currentCsd, h⟩ := by
            rintro rfl
            simp [Function.update_apply, e.zero_closed] at hopen
          have hj' : j ≠ ⟨currentCsd, h⟩ := by
            rintro rfl
            rw [Function.update_of_ne hi', Function.update_self] at heq
            exact hne heq
          rw [Function.update_of_ne hi', Function.update_of_ne hj'] at heq
          exact e.distinct i j hi heq
        zero_closed := by
          rw [Function.update_apply, e.zero_closed.1, ite_self]
          exact ⟨rfl, e.zero_closed.2⟩ }
  else none

/-! ## What the scans return -/

/-- The last connection that is ready. -/
def lastReady (e : E2e) (l : List (Fin fdSetsize)) : Option (Fin fdSetsize) :=
  (l.filter e.ready).getLast?

theorem lastReady_cons_of_ready {i : Fin fdSetsize} (hi : e.ready i) (l : List (Fin fdSetsize)) :
    e.lastReady (i :: l) = (e.lastReady l).or (some i) := by
  rw [lastReady, List.filter_cons_of_pos hi, List.getLast?_cons, lastReady]
  cases (l.filter e.ready).getLast? <;> rfl

theorem lastReady_cons_of_not_ready {i : Fin fdSetsize} (hi : ¬ e.ready i)
    (l : List (Fin fdSetsize)) : e.lastReady (i :: l) = e.lastReady l := by
  rw [lastReady, List.filter_cons_of_neg hi, lastReady]

theorem mem_of_lastReady {i : Fin fdSetsize} {l : List (Fin fdSetsize)}
    (h : e.lastReady l = some i) : i ∈ l ∧ e.ready i :=
  List.mem_filter.mp (List.mem_of_getLast? h)

/-- Connections that are ready have different descriptors. -/
theorem csd_ne {i j : Fin fdSetsize} (hi : e.ready i) (hne : i ≠ j) : e.csd j ≠ e.csd i :=
  fun heq => hne (e.distinct i j (.inr hi) heq.symm)

/-- Every connection that is ready has this many bytes. -/
def Enough (e : E2e) (size : Nat) (l : List (Fin fdSetsize)) (net : Network) : Prop :=
  ∀ i ∈ l, e.ready i → size ≤ (net (e.csd i)).bytes.length

/-- Reading from a connection leaves the others alone. -/
theorem enough_update {i : Fin fdSetsize} (hi : e.ready i) {size : Nat}
    {l : List (Fin fdSetsize)} (hnotin : i ∉ l) (s : Incoming UInt8) :
    e.Enough size l (Function.update net (e.csd i) s) ↔ e.Enough size l net := by
  refine forall₃_congr fun j hj _ => ?_
  rw [Function.update_of_ne (csd_ne hi (ne_of_mem_of_not_mem hj hnotin).symm)]

/-- With enough bytes on every connection the loop runs to its end. -/
theorem scan_done {size : Nat} {l : List (Fin fdSetsize)} (hnodup : l.Nodup)
    (henough : e.Enough size l net) (last : Option (Fin fdSetsize × List UInt8)) :
    ∃ net', e.scan size l last net = .done
      (((e.lastReady l).map fun i => (i, (net (e.csd i)).bytes.take size)).or last) net' := by
  induction l generalizing last net with
  | nil => exact ⟨net, rfl⟩
  | cons i l ih =>
    obtain ⟨hnotin, hnodup⟩ := List.nodup_cons.mp hnodup
    have hrest : e.Enough size l net := fun j hj => henough j (List.mem_cons_of_mem _ hj)
    by_cases hi : e.ready i
    · obtain ⟨s, hrecv, -⟩ := recvAll_full maxmitTcp_pos (henough i List.mem_cons_self hi)
      obtain ⟨net', hnet'⟩ := ih hnodup ((enough_update hi hnotin s).mpr hrest)
        (some (i, (net (e.csd i)).bytes.take size))
      refine ⟨net', ?_⟩
      rw [scan, if_pos hi, hrecv]
      dsimp only
      rw [hnet', lastReady_cons_of_ready hi]
      cases hlast : e.lastReady l with
      | none => rfl
      | some j =>
        have hj : j ≠ i := ne_of_mem_of_not_mem (mem_of_lastReady hlast).1 hnotin
        simp [Function.update_of_ne (csd_ne hi hj.symm)]
    · obtain ⟨net', hnet'⟩ := ih hnodup hrest last
      refine ⟨net', ?_⟩
      rw [scan, if_neg hi, hnet', lastReady_cons_of_not_ready hi]

/-- It runs to its end only then. -/
theorem enough_of_scan {size : Nat} {l : List (Fin fdSetsize)} (hnodup : l.Nodup)
    {last last' : Option (Fin fdSetsize × List UInt8)} {net' : Network}
    (h : e.scan size l last net = .done last' net') : e.Enough size l net := by
  induction l generalizing last net with
  | nil => exact fun i hi => absurd hi List.not_mem_nil
  | cons i l ih =>
    obtain ⟨hnotin, hnodup⟩ := List.nodup_cons.mp hnodup
    rw [scan] at h
    by_cases hi : e.ready i
    · rw [if_pos hi] at h
      by_cases hsize : size ≤ (net (e.csd i)).bytes.length
      · obtain ⟨s, hrecv, -⟩ := recvAll_full maxmitTcp_pos hsize
        rw [hrecv] at h
        have hrest := (enough_update hi hnotin s).mp (ih hnodup h)
        intro j hj hready
        obtain rfl | hj := List.mem_cons.mp hj
        · exact hsize
        · exact hrest j hj hready
      · rw [recvAll_ended maxmitTcp_pos (Nat.lt_of_not_le hsize)] at h
        cases hending : (net (e.csd i)).ending <;> simp [hending] at h
    · rw [if_neg hi] at h
      intro j hj hready
      obtain rfl | hj := List.mem_cons.mp hj
      · exact absurd hready hi
      · exact ih hnodup h j hj hready

/-- What has been read last. -/
theorem last_of_scan {size : Nat} {l : List (Fin fdSetsize)} (hnodup : l.Nodup)
    {last : Option (Fin fdSetsize × List UInt8)} {net' : Network}
    (h : e.scan size l none net = .done last net') :
    last = (e.lastReady l).map fun i => (i, (net (e.csd i)).bytes.take size) := by
  obtain ⟨net'', h'⟩ := scan_done hnodup (enough_of_scan hnodup h) none
  rw [h, Option.or_none] at h'
  exact (Scan.done.inj h').1

/-! ## One connection -/

theorem scan_skip {size : Nat} {l rest : List (Fin fdSetsize)} (h : ∀ i ∈ l, ¬ e.ready i)
    (last : Option (Fin fdSetsize × List UInt8)) :
    e.scan size (l ++ rest) last net = e.scan size rest last net := by
  induction l with
  | nil => rfl
  | cons i l ih =>
    rw [List.cons_append, scan, if_neg (h i List.mem_cons_self)]
    exact ih fun j hj => h j (List.mem_cons_of_mem _ hj)

/-- A scan that meets one connection. -/
theorem scan_single {i : Fin fdSetsize} (hready : ∀ j, e.ready j ↔ j = i) (size : Nat) :
    e.scan size (List.finRange fdSetsize) none net =
      match recvAll maxmitTcp size (net (e.csd i)) with
      | .ended .pending => .pending
      | .ended _ => .failed i
      | .full bytes s => .done (some (i, bytes)) (Function.update net (e.csd i) s) := by
  obtain ⟨before, after, hsplit⟩ := List.append_of_mem (List.mem_finRange i)
  have hnodup := List.nodup_finRange fdSetsize
  rw [hsplit, List.nodup_middle, List.nodup_cons] at hnodup
  have hnot : ∀ j ∈ before ++ after, ¬ e.ready j :=
    fun j hj hj' => hnodup.1 ((hready j).mp hj' ▸ hj)
  have hafter : ∀ last net, e.scan size after last net = .done last net := by
    intro last net
    have hskip : e.scan size (after ++ []) last net = e.scan size [] last net :=
      scan_skip (fun j hj => hnot j (List.mem_append_right _ hj)) last
    rwa [List.append_nil] at hskip
  rw [hsplit, scan_skip fun j hj => hnot j (List.mem_append_left _ hj), scan,
    if_pos ((hready i).mpr rfl)]
  split <;> simp_all

/-- With one connection that is ready, a call does what `EndToEnd.xddE2eDestReceive` says. -/
theorem receive_single {i : Fin fdSetsize} (hready : ∀ j, e.ready j ↔ j = i) :
    match EndToEnd.xddE2eDestReceive cookie (net (e.csd i)) with
    | .message h data rest => ∃ net', e.xddE2eDestReceive cookie net = .received h data net' ∧
        net' (e.csd i) = rest
    | .error => ∃ currentCsd origin, e.xddE2eDestReceive cookie net = .failed currentCsd origin
    | .pending => e.xddE2eDestReceive cookie net = .pending := by
  rw [EndToEnd.xddE2eDestReceive, E2e.xddE2eDestReceive, scan_single hready]
  cases hheader : recvAll maxmitTcp Header.size (net (e.csd i)) with
  | ended ending => cases ending <;> simp
  | full bytes s =>
    dsimp only
    by_cases haccepted : (Header.decode bytes).Accepted cookie
    · rw [if_neg (not_not_intro haccepted), if_neg (not_not_intro haccepted)]
      by_cases hmagic : (Header.decode bytes).magic = dataReady
      · rw [if_pos hmagic, if_pos hmagic, xddE2eDestReceiveData, scan_single hready,
          Function.update_self]
        cases hdata : recvAll maxmitTcp (Header.decode bytes).dataSize.toNat s with
        | ended ending => cases ending <;> simp
        | full data s' =>
          by_cases hlength : data.length ≤ 0
          · simp [hlength]
          · simp [hlength]
      · rw [if_neg hmagic, if_neg hmagic]
        exact ⟨_, rfl, Function.update_self _ _ _⟩
    · rw [if_pos haccepted, if_pos haccepted]
      exact ⟨_, _, rfl⟩

/-! ## When the right connection is closed -/

/-- If a call fails, the index is one of the table and the one of the connection at fault; the
other entries and the other active descriptors stay. -/
def ClosesOnlyFailing (e : E2e) (cookie : Fin 16 → UInt8) (net : Network) : Prop :=
  ∀ currentCsd origin, e.xddE2eDestReceive cookie net = .failed currentCsd origin →
    ∃ i : Fin fdSetsize, currentCsd = i ∧ origin = some i ∧
      ∃ e', e.xddE2eDestReceiveError currentCsd = some e' ∧ (∀ j, j ≠ i → e'.csd j = e.csd j) ∧
        ∀ d, d ≠ e.csd i → e'.active d = e.active d

/-- Every connection that is ready has a header, and there is something wrong with the last of
these headers: the cookie, the magic number, or a length that is not positive. -/
def BadHeader (e : E2e) (cookie : Fin 16 → UInt8) (net : Network) : Prop :=
  e.Enough Header.size (List.finRange fdSetsize) net ∧
    ∀ i ∈ e.lastReady (List.finRange fdSetsize),
      ¬ (Header.decode ((net (e.csd i)).bytes.take Header.size)).Accepted cookie ∨
        (Header.decode ((net (e.csd i)).bytes.take Header.size)).magic = dataReady ∧
          (Header.decode ((net (e.csd i)).bytes.take Header.size)).dataSize ≤ 0

/-- The handler does what it should for an index of the table. -/
theorem receiveError_of_index (e : E2e) (i : Fin fdSetsize) :
    ∃ e', e.xddE2eDestReceiveError i = some e' ∧ (∀ j, j ≠ i → e'.csd j = e.csd j) ∧
      ∀ d, d ≠ e.csd i → e'.active d = e.active d := by
  rw [xddE2eDestReceiveError, dif_pos i.isLt]
  exact ⟨_, rfl, fun j hj => Function.update_of_ne hj _ _, fun d hd => Function.update_of_ne hd _ _⟩

/-- With such a header the loop variable has left the table when the call fails. -/
theorem receive_of_badHeader (hbad : e.BadHeader cookie net) :
    ∃ origin, e.xddE2eDestReceive cookie net = .failed fdSetsize origin := by
  obtain ⟨henough, hheader⟩ := hbad
  obtain ⟨net', hscan⟩ := scan_done (List.nodup_finRange _) henough none
  rw [Option.or_none] at hscan
  rw [xddE2eDestReceive, hscan]
  cases hlast : e.lastReady (List.finRange fdSetsize) with
  | none => exact ⟨none, rfl⟩
  | some i =>
    simp only [Option.map_some]
    obtain hcookie | ⟨hmagic, hsize⟩ := hheader i hlast
    · exact ⟨some i, if_pos hcookie⟩
    · by_cases haccepted :
          (Header.decode ((net (e.csd i)).bytes.take Header.size)).Accepted cookie
      · refine ⟨some i, ?_⟩
        have hzero : e.Enough 0 (List.finRange fdSetsize) net' := fun _ _ _ => Nat.zero_le _
        obtain ⟨net'', hdata⟩ := scan_done (List.nodup_finRange _) hzero none
        rw [if_neg (not_not_intro haccepted), if_pos hmagic, xddE2eDestReceiveData,
          Int.toNat_of_nonpos hsize, hdata, hlast]
        simp
      · exact ⟨some i, if_pos haccepted⟩

/-- Otherwise a call fails within a loop, at the index of the connection. -/
theorem failed_in_scan (hgood : ¬ e.BadHeader cookie net) {currentCsd : Nat}
    {origin : Option (Fin fdSetsize)}
    (h : e.xddE2eDestReceive cookie net = .failed currentCsd origin) :
    ∃ i : Fin fdSetsize, currentCsd = i ∧ origin = some i := by
  rw [xddE2eDestReceive] at h
  split at h
  · next i hscan =>
    cases h
    exact ⟨i, rfl, rfl⟩
  · cases h
  · next net' hscan =>
    -- no connection is ready
    refine absurd ⟨enough_of_scan (List.nodup_finRange _) hscan, ?_⟩ hgood
    have hlast := last_of_scan (List.nodup_finRange _) hscan
    intro i hi
    rw [Option.mem_def.mp hi] at hlast
    cases hlast
  · next i bytes net' hscan =>
    have henough := enough_of_scan (List.nodup_finRange _) hscan
    have hlast := last_of_scan (List.nodup_finRange _) hscan
    obtain ⟨j, hj, hpair⟩ := Option.map_eq_some_iff.mp hlast.symm
    obtain ⟨rfl, rfl⟩ := Prod.mk.inj hpair
    have hheader : (Header.decode ((net (e.csd j)).bytes.take Header.size)).Accepted cookie ∧
        ((Header.decode ((net (e.csd j)).bytes.take Header.size)).magic = dataReady →
          0 < (Header.decode ((net (e.csd j)).bytes.take Header.size)).dataSize) := by
      by_contra hnot
      refine hgood ⟨henough, ?_⟩
      intro k hk
      obtain rfl : j = k := Option.some.inj (hj.symm.trans hk)
      by_contra hneither
      push Not at hneither
      exact hnot hneither
    obtain ⟨haccepted, hsize⟩ := hheader
    dsimp only at h
    rw [if_neg (not_not_intro haccepted)] at h
    split at h
    · next hmagic =>
      have hpos := hsize hmagic
      rw [xddE2eDestReceiveData] at h
      split at h
      · next i hscan' =>
        cases h
        exact ⟨i, rfl, rfl⟩
      · cases h
      · next hscan' =>
        have hlast' := last_of_scan (List.nodup_finRange _) hscan'
        rw [hj] at hlast'
        cases hlast'
      · next i data net'' hscan' =>
        -- the loop has received as much as the header says
        have hdata : data.length = (Header.decode
            ((net (e.csd j)).bytes.take Header.size)).dataSize.toNat := by
          have hlast' := last_of_scan (List.nodup_finRange _) hscan'
          rw [hj, Option.map_some] at hlast'
          obtain ⟨rfl, rfl⟩ := Prod.mk.inj (Option.some.inj hlast')
          have hlong := enough_of_scan (List.nodup_finRange _) hscan' i (List.mem_finRange i)
            (mem_of_lastReady hj).2
          rw [List.length_take, Nat.min_eq_left hlong]
        rw [if_neg (by omega)] at h
        cases h
    · cases h

/-- The right connection is closed exactly if the failure is not one of the header. -/
theorem closesOnlyFailing_iff (e : E2e) (cookie : Fin 16 → UInt8) (net : Network) :
    e.ClosesOnlyFailing cookie net ↔ ¬ e.BadHeader cookie net := by
  constructor
  · intro hcloses hbad
    obtain ⟨origin, hfailed⟩ := receive_of_badHeader hbad
    obtain ⟨i, hi, -⟩ := hcloses _ _ hfailed
    exact absurd hi.symm i.isLt.ne
  · intro hgood currentCsd origin hfailed
    obtain ⟨i, rfl, rfl⟩ := failed_in_scan hgood hfailed
    exact ⟨i, rfl, rfl, e.receiveError_of_index i⟩

/-! ## A header with another cookie -/

/-- 3 is the descriptor on which the worker listens. -/
def listening : E2e := init 3 (Nat.succ_ne_zero _)

theorem listening_fresh : listening.Fresh 4 := ⟨by decide, fun _ => Nat.ne_of_beq_eq_false rfl⟩

/-- A header with a cookie of zeros on every connection. -/
def oneHeader : Network := fun _ => .ofBytes plainHeader.encode .pending

theorem badHeader_oneHeader (e : E2e) : e.BadHeader (fun _ => 1) oneHeader := by
  have hbytes : ∀ d, (oneHeader d).bytes = plainHeader.encode :=
    fun _ => Incoming.bytes_ofBytes _ _
  refine ⟨?_, ?_⟩
  · intro i _ _
    rw [hbytes, Header.length_encode]
  · intro i _
    left
    rw [hbytes, List.take_of_length_le plainHeader.length_encode.le, Header.decode_encode]
    intro haccepted
    exact absurd (congrFun haccepted.1 ⟨0, Nat.succ_pos _⟩) (by decide)

/-- The first connection of a worker sends a header with another cookie: `e2e_current_csd` is
256, and there is no such entry of `e2e_csd`. -/
theorem wrong_cookie_no_entry :
    ∃ e, listening.xddE2eDestConnection (fun d => d == 3) listening_fresh = some e ∧
      (∃ origin, e.xddE2eDestReceive (fun _ => 1) oneHeader = .failed 256 origin) ∧
      e.xddE2eDestReceiveError 256 = none ∧ ¬ e.ClosesOnlyFailing (fun _ => 1) oneHeader := by
  have hconnection : ∃ e, listening.xddE2eDestConnection (fun d => d == 3) listening_fresh =
      some e := by
    rw [xddE2eDestConnection, if_pos (by decide)]
    dsimp only
    split
    · exact ⟨_, rfl⟩
    · next hnone =>
      have hone := List.find?_eq_none.mp hnone ⟨1, by decide⟩ (List.mem_finRange _)
      exact absurd (decide_eq_true (by decide)) hone
  obtain ⟨e, he⟩ := hconnection
  have hfailed := receive_of_badHeader (badHeader_oneHeader e)
  refine ⟨e, he, hfailed, dif_neg (lt_irrefl _), ?_⟩
  intro hcloses
  obtain ⟨origin, hfailed⟩ := hfailed
  obtain ⟨i, hi, -⟩ := hcloses _ _ hfailed
  exact absurd hi.symm i.isLt.ne

end E2e

end Xdd.EndToEnd
