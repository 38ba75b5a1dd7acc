import Xdd.Options.Addresses

/-!
# Ports for the workers of an end-to-end target

Each worker gets a port of its own: one of the ports of an entry of the address table. The
entries hold their number of ports, and beside the table there is the sum of these numbers as
the destination options have given them, which decides the queue depth. `-e2e portcount` sets
the numbers in the entries and leaves the sum as it was.
-/

namespace Xdd.Options

section

variable {F : Type}

/-! ## Ports of the entries -/

/-- The numbers of ports in the entries of the table. -/
def TargetData.portCounts (td : TargetData F) : List Int := td.addressTable.map (·.portCount)

/-- Store numbers of ports into the entries. -/
def TargetData.setPortCounts (td : TargetData F) (counts : List Int) : TargetData F :=
  { td with
    addressTable := td.addressTable.zipWith (fun e count => { e with portCount := count }) counts }

/-- The loop that hands out the ports one by one. -/
def distribute (hostCount : Nat) : Nat → Nat → List Int → List Int
  | 0, _, counts => counts
  | numberOfPorts + 1, entry, counts =>
    distribute hostCount numberOfPorts (if hostCount ≤ entry + 1 then 0 else entry + 1)
      (counts.modify entry (· + 1))

/-- `xdd_build_target_data_substructure_e2e`, when there is a destination -/
def xddBuildTargetDataSubstructureE2e (td : TargetData F) : TargetData F :=
  if 0 < td.portCount then { td with queueDepth := td.portCount }
  else if td.queueDepth ≤ td.hostCount then
    { td.setPortCounts (List.replicate td.hostCount 1) with
      queueDepth := td.hostCount
      portCount := td.hostCount }
  else
    { td.setPortCounts
        (distribute td.hostCount td.queueDepth.toNat 0 (List.replicate td.hostCount 0)) with
      portCount := td.queueDepth }

/-- The loop of `xint_target_init_start_worker_threads` over the workers that are left, with the
table from `e2e_addr_index` on. `none` if the search for an entry with ports leaves the
table. -/
def assignPorts : Nat → Nat → List Int → Int → Option (List (Nat × Int))
  | 0, _, _, _ => some []
  | _ + 1, _, [], _ => none
  | workers + 1, index, count :: rest, port =>
    if count = 0 then assignPorts (workers + 1) (index + 1) rest port
    else if port + 1 = count then
      (assignPorts workers (index + 1) rest 0).map ((index, port) :: ·)
    else (assignPorts workers index (count :: rest) (port + 1)).map ((index, port) :: ·)
termination_by workers _ counts _ => (workers, counts.length)

/-- Each worker has an entry of the table and one of its ports, and no two have the same. -/
structure OnePortEach (counts : List Int) (workers : Int) (pairs : List (Nat × Int)) : Prop where
  length : (pairs.length : Int) = workers
  valid : ∀ pair ∈ pairs, ∃ count, counts[pair.1]? = some count ∧ 0 ≤ pair.2 ∧ pair.2 < count
  nodup : pairs.Nodup

/-- The ports in the table are as many as the workers, those that come from the queue depth are
spread evenly, and each worker gets one. -/
structure PortsMatch (td td' : TargetData F) : Prop where
  entries : td'.portCounts.length = td'.hostCount
  sum : td'.portCounts.sum = td'.queueDepth
  even : td.portCount ≤ 0 → ∀ c ∈ td'.portCounts, ∀ c' ∈ td'.portCounts, c ≤ c' + 1
  assigned : ∃ pairs, assignPorts td'.queueDepth.toNat 0 td'.portCounts 0 = some pairs ∧
    OnePortEach td'.portCounts td'.queueDepth pairs

/-! ## The assignment -/

/-- How many workers find a port before the first entry with a negative number. -/
def room : List Int → Int
  | [] => 0
  | count :: rest => if 0 ≤ count then count + room rest else 0

theorem room_cons_of_nonneg {count : Int} (h : 0 ≤ count) (rest : List Int) :
    room (count :: rest) = count + room rest := if_pos h

/-- Pairs that start at this port of this entry. -/
structure PairsFrom (index : Nat) (counts : List Int) (port : Int) (pairs : List (Nat × Int)) :
    Prop where
  valid : ∀ pair ∈ pairs, index ≤ pair.1 ∧
    ∃ count, counts[pair.1 - index]? = some count ∧ 0 ≤ pair.2 ∧ pair.2 < count
  behind : ∀ pair ∈ pairs, pair.1 = index → port ≤ pair.2
  nodup : pairs.Nodup

namespace PairsFrom

variable {index : Nat} {count port : Int} {rest : List Int} {pairs : List (Nat × Int)}

/-- The pairs of the entries behind one. -/
theorem shift (h : PairsFrom (index + 1) rest 0 pairs) :
    (∀ pair ∈ pairs, index ≤ pair.1 ∧
      ∃ c, (count :: rest)[pair.1 - index]? = some c ∧ 0 ≤ pair.2 ∧ pair.2 < c) ∧
      ∀ pair ∈ pairs, pair.1 ≠ index := by
  refine ⟨?_, ?_⟩
  · intro pair hpair
    obtain ⟨hle, c, hc, hvalid⟩ := h.valid pair hpair
    refine ⟨by omega, c, ?_, hvalid⟩
    rw [show pair.1 - index = pair.1 - (index + 1) + 1 by omega, List.getElem?_cons_succ]
    exact hc
  · intro pair hpair
    have hle := (h.valid pair hpair).1
    omega

theorem skip (h : PairsFrom (index + 1) rest 0 pairs) :
    PairsFrom index (count :: rest) port pairs := by
  obtain ⟨hvalid, hne⟩ := h.shift
  exact ⟨hvalid, fun pair hpair hindex => absurd hindex (hne pair hpair), h.nodup⟩

/-- The last port of an entry in front of the pairs of those behind it. -/
theorem next (h : PairsFrom (index + 1) rest 0 pairs) (hport : 0 ≤ port) (hlt : port < count) :
    PairsFrom index (count :: rest) port ((index, port) :: pairs) := by
  obtain ⟨hvalid, hne⟩ := h.shift
  refine ⟨?_, ?_, ?_⟩
  · refine List.forall_mem_cons.mpr ⟨⟨le_rfl, count, ?_, hport, hlt⟩, hvalid⟩
    rw [Nat.sub_self, List.getElem?_cons_zero]
  · exact List.forall_mem_cons.mpr
      ⟨fun _ => le_rfl, fun pair hpair hindex => absurd hindex (hne pair hpair)⟩
  · exact List.nodup_cons.mpr ⟨fun hmem => hne _ hmem rfl, h.nodup⟩

/-- A port in front of the next ones of its entry. -/
theorem cons (h : PairsFrom index (count :: rest) (port + 1) pairs) (hport : 0 ≤ port)
    (hlt : port < count) : PairsFrom index (count :: rest) port ((index, port) :: pairs) := by
  refine ⟨?_, ?_, ?_⟩
  · refine List.forall_mem_cons.mpr ⟨⟨le_rfl, count, ?_, hport, hlt⟩, h.valid⟩
    rw [Nat.sub_self, List.getElem?_cons_zero]
  · refine List.forall_mem_cons.mpr ⟨fun _ => le_rfl, ?_⟩
    intro pair hpair hindex
    have hbehind := h.behind pair hpair hindex
    omega
  · refine List.nodup_cons.mpr ⟨?_, h.nodup⟩
    intro hmem
    have hbehind := h.behind _ hmem rfl
    change port + 1 ≤ port at hbehind
    omega

end PairsFrom

/-- The port is one of the entry that the loop is at. -/
def AtPort (counts : List Int) (port : Int) : Prop :=
  0 ≤ port ∧ ∀ count ∈ counts.head?, port = 0 ∨ port < count

theorem AtPort.zero (counts : List Int) : AtPort counts 0 := ⟨le_rfl, fun _ _ => .inl rfl⟩

/-- With enough ports each worker gets one. -/
theorem assignPorts_of_le {workers index : Nat} {counts : List Int} {port : Int}
    (hport : AtPort counts port) (hroom : (workers : Int) ≤ room counts - port) :
    ∃ pairs, assignPorts workers index counts port = some pairs ∧ pairs.length = workers ∧
      PairsFrom index counts port pairs := by
  fun_induction assignPorts workers index counts port with
  | case1 => exact ⟨[], rfl, rfl, ⟨nofun, nofun, List.nodup_nil⟩⟩
  | case2 =>
    have hnonneg := hport.1
    simp only [room] at hroom
    omega
  | case3 workers index rest port ih =>
    obtain rfl : port = 0 := by
      have hnonneg := hport.1
      have hhead := hport.2 0 rfl
      omega
    rw [room_cons_of_nonneg le_rfl] at hroom
    obtain ⟨pairs, hpairs, hlength, hfrom⟩ := ih (AtPort.zero rest) (by omega)
    exact ⟨pairs, hpairs, hlength, hfrom.skip⟩
  | case4 workers index rest port hcount ih =>
    have hnonneg := hport.1
    rw [room_cons_of_nonneg (by omega)] at hroom
    obtain ⟨pairs, hpairs, hlength, hfrom⟩ := ih (AtPort.zero rest) (by omega)
    refine ⟨(index, port) :: pairs, by rw [hpairs, Option.map_some], ?_, ?_⟩
    · rw [List.length_cons, hlength]
    · exact hfrom.next hnonneg (by omega)
  | case5 workers index count rest port hcount hlast ih =>
    have hnonneg := hport.1
    have hlt : port < count := by
      have hhead := hport.2 count rfl
      by_cases hneg : 0 ≤ count
      · omega
      · rw [room, if_neg hneg] at hroom
        omega
    have hnext : AtPort (count :: rest) (port + 1) := by
      refine ⟨by omega, ?_⟩
      intro c hc
      cases hc
      exact .inr (by omega)
    obtain ⟨pairs, hpairs, hlength, hfrom⟩ := ih hnext (by push_cast at hroom; omega)
    refine ⟨(index, port) :: pairs, by rw [hpairs, Option.map_some], ?_, ?_⟩
    · rw [List.length_cons, hlength]
    · exact hfrom.cons hnonneg hlt

theorem room_nonneg (counts : List Int) : 0 ≤ room counts := by
  induction counts with
  | nil => exact le_rfl
  | cons count rest ih =>
    rw [room]
    split <;> omega

theorem index_le_of_assignPorts {workers index : Nat} {counts : List Int} {port : Int}
    {pairs : List (Nat × Int)} (h : assignPorts workers index counts port = some pairs) :
    ∀ pair ∈ pairs, index ≤ pair.1 := by
  fun_induction assignPorts workers index counts port generalizing pairs with
  | case1 =>
    cases h
    nofun
  | case2 => cases h
  | case3 workers index rest port ih =>
    intro pair hpair
    exact Nat.le_of_succ_le (ih h pair hpair)
  | case4 workers index rest port hcount ih =>
    obtain ⟨pairs, hpairs, rfl⟩ := Option.map_eq_some_iff.mp h
    refine List.forall_mem_cons.mpr ⟨le_rfl, ?_⟩
    intro pair hpair
    exact Nat.le_of_succ_le (ih hpairs pair hpair)
  | case5 workers index count rest port hcount hlast ih =>
    obtain ⟨pairs, hpairs, rfl⟩ := Option.map_eq_some_iff.mp h
    exact List.forall_mem_cons.mpr ⟨le_rfl, ih hpairs⟩

/-- The pair of a worker is one of the table from this entry on. -/
def Within (index : Nat) (counts : List Int) (pair : Nat × Int) : Prop :=
  ∃ count, counts[pair.1 - index]? = some count ∧ pair.2 < count

theorem Within.of_cons {index : Nat} {count : Int} {rest : List Int} {pair : Nat × Int}
    (h : Within index (count :: rest) pair) (hle : index + 1 ≤ pair.1) :
    Within (index + 1) rest pair := by
  obtain ⟨c, hc, hlt⟩ := h
  rw [show pair.1 - index = pair.1 - (index + 1) + 1 by omega, List.getElem?_cons_succ] at hc
  exact ⟨c, hc, hlt⟩

theorem Within.lt {index : Nat} {count port : Int} {rest : List Int}
    (h : Within index (count :: rest) (index, port)) : port < count := by
  obtain ⟨c, hc, hlt⟩ := h
  rw [Nat.sub_self, List.getElem?_cons_zero] at hc
  exact (Option.some.inj hc).symm ▸ hlt

/-- If each worker gets a port that is one of its entry, there are enough. -/
theorem le_of_assignPorts {workers index : Nat} {counts : List Int} {port : Int}
    (hport : AtPort counts port) {pairs : List (Nat × Int)}
    (h : assignPorts workers index counts port = some pairs)
    (hvalid : ∀ pair ∈ pairs, Within index counts pair) :
    workers = 0 ∨ (workers : Int) ≤ room counts - port := by
  fun_induction assignPorts workers index counts port generalizing pairs with
  | case1 => exact .inl rfl
  | case2 => cases h
  | case3 workers index rest port ih =>
    obtain rfl : port = 0 := by
      have hnonneg := hport.1
      have hhead := hport.2 0 rfl
      omega
    rw [room_cons_of_nonneg le_rfl, Int.zero_add]
    apply ih (AtPort.zero rest) h
    intro pair hpair
    exact (hvalid pair hpair).of_cons (index_le_of_assignPorts h pair hpair)
  | case4 workers index rest port hcount ih =>
    obtain ⟨pairs, hpairs, rfl⟩ := Option.map_eq_some_iff.mp h
    have hnonneg := hport.1
    have hrest := ih (AtPort.zero rest) hpairs fun pair hpair =>
      (hvalid pair (List.mem_cons_of_mem _ hpair)).of_cons
        (index_le_of_assignPorts hpairs pair hpair)
    have hroom := room_nonneg rest
    rw [room_cons_of_nonneg (by omega)]
    omega
  | case5 workers index count rest port hcount hlast ih =>
    obtain ⟨pairs, hpairs, rfl⟩ := Option.map_eq_some_iff.mp h
    have hnonneg := hport.1
    have hlt := (hvalid _ List.mem_cons_self).lt
    have hnext : AtPort (count :: rest) (port + 1) := by
      refine ⟨by omega, ?_⟩
      intro c hc
      cases hc
      exact .inr (by omega)
    have hrest := ih hnext hpairs fun pair hpair => hvalid pair (List.mem_cons_of_mem _ hpair)
    have hroom := room_nonneg rest
    rw [room_cons_of_nonneg (by omega)] at hrest ⊢
    omega

/-- The workers of a target get a port each exactly if there is room for them. -/
theorem onePortEach_iff {counts : List Int} {workers : Int} (hpos : 0 < workers) :
    (∃ pairs, assignPorts workers.toNat 0 counts 0 = some pairs ∧
      OnePortEach counts workers pairs) ↔ workers ≤ room counts := by
  constructor
  · rintro ⟨pairs, hpairs, hone⟩
    have hle := le_of_assignPorts (AtPort.zero counts) hpairs fun pair hpair => by
      obtain ⟨count, hcount, -, hlt⟩ := hone.valid pair hpair
      exact ⟨count, hcount, hlt⟩
    omega
  · intro hroom
    obtain ⟨pairs, hpairs, hlength, hfrom⟩ :=
      assignPorts_of_le (AtPort.zero counts) (by omega : (workers.toNat : Int) ≤ room counts - 0)
    refine ⟨pairs, hpairs, by omega, ?_, hfrom.nodup⟩
    intro pair hpair
    exact (hfrom.valid pair hpair).2

/-! ## The distribution -/

/-- Numbers that are `level + 1` in front of an entry and `level` from there on. -/
def spread (hostCount entry level : Nat) : List Int :=
  (List.range hostCount).map fun i => if i < entry then (level : Int) + 1 else level

@[simp] theorem length_spread (hostCount entry level : Nat) :
    (spread hostCount entry level).length = hostCount := by
  simp [spread]

theorem getElem_spread {hostCount entry level i : Nat}
    (h : i < (spread hostCount entry level).length) :
    (spread hostCount entry level)[i] = if i < entry then (level : Int) + 1 else level := by
  simp [spread]

theorem spread_zero (hostCount : Nat) : spread hostCount 0 0 = List.replicate hostCount 0 := by
  simp [spread]

/-- One more port goes to the next entry. -/
theorem modify_spread {hostCount entry : Nat} (hentry : entry < hostCount) (level : Nat) :
    (spread hostCount entry level).modify entry (· + 1) =
      if hostCount ≤ entry + 1 then spread hostCount 0 (level + 1)
      else spread hostCount (entry + 1) level := by
  by_cases hlast : hostCount ≤ entry + 1
  · rw [if_pos hlast]
    apply List.ext_getElem (by simp)
    intro i hi _
    rw [List.length_modify, length_spread] at hi
    rw [List.getElem_modify, getElem_spread, getElem_spread]
    split <;> split <;> simp <;> omega
  · rw [if_neg hlast]
    apply List.ext_getElem (by simp)
    intro i hi _
    rw [List.length_modify, length_spread] at hi
    rw [List.getElem_modify, getElem_spread, getElem_spread]
    split <;> split <;> split <;> omega

/-- The loop keeps the numbers even, and counts the ports. -/
theorem distribute_spread {hostCount : Nat} (ports : Nat) {entry : Nat} (hentry : entry < hostCount)
    (level : Nat) :
    ∃ entry' level', distribute hostCount ports entry (spread hostCount entry level) =
      spread hostCount entry' level' ∧ entry' < hostCount ∧
        hostCount * level' + entry' = hostCount * level + entry + ports := by
  induction ports generalizing entry level with
  | zero => exact ⟨entry, level, rfl, hentry, rfl⟩
  | succ ports ih =>
    rw [distribute, modify_spread hentry]
    by_cases hlast : hostCount ≤ entry + 1
    · rw [if_pos hlast, if_pos hlast]
      obtain ⟨entry', level', heq, hlt, hsum⟩ := ih (Nat.zero_lt_of_lt hentry) (level + 1)
      refine ⟨entry', level', heq, hlt, ?_⟩
      rw [hsum, Nat.mul_add]
      omega
    · rw [if_neg hlast, if_neg hlast]
      obtain ⟨entry', level', heq, hlt, hsum⟩ := ih (Nat.lt_of_not_le hlast) level
      exact ⟨entry', level', heq, hlt, by omega⟩

theorem sum_spread {hostCount entry : Nat} (hentry : entry ≤ hostCount) (level : Nat) :
    (spread hostCount entry level).sum = (hostCount * level + entry : Nat) := by
  have hsplit : ∀ n, ((List.range n).map fun i =>
      if i < entry then (level : Int) + 1 else level).sum = (n * level + min n entry : Nat) := by
    intro n
    induction n with
    | zero => simp
    | succ n ih =>
      rw [List.range_succ, List.map_append, List.sum_append, ih]
      simp only [List.map_cons, List.map_nil, List.sum_singleton]
      rw [Nat.succ_mul]
      split <;> omega
  rw [spread, hsplit, Nat.min_eq_right hentry]

theorem mem_spread {hostCount entry level : Nat} {c : Int} (h : c ∈ spread hostCount entry level) :
    c = level ∨ c = level + 1 := by
  obtain ⟨i, -, rfl⟩ := List.mem_map.mp h
  split
  · exact .inr rfl
  · exact .inl rfl

/-- Numbers that are not negative have room for as many as they say. -/
theorem room_eq_sum {counts : List Int} (h : ∀ c ∈ counts, 0 ≤ c) : room counts = counts.sum := by
  induction counts with
  | nil => rfl
  | cons count rest ih =>
    rw [room_cons_of_nonneg (h count List.mem_cons_self), List.sum_cons,
      ih fun c hc => h c (List.mem_cons_of_mem _ hc)]

/-! ## After the build -/

theorem portCounts_setPortCounts (td : TargetData F) {counts : List Int}
    (h : counts.length = td.addressTable.length) :
    (td.setPortCounts counts).portCounts = counts := by
  apply List.ext_getElem
  · simp [TargetData.portCounts, TargetData.setPortCounts, h]
  · intro i _ _
    simp [TargetData.portCounts, TargetData.setPortCounts]

/-- Even numbers of ports, as many as the queue depth, are always right. -/
theorem portsMatch_of_spread {td td' : TargetData F} {entry level : Nat}
    (hcounts : td'.portCounts = spread td'.hostCount entry level) (hentry : entry < td'.hostCount)
    (hdepth : td'.queueDepth = (td'.hostCount * level + entry : Nat)) (hpos : 0 < td'.queueDepth) :
    PortsMatch td td' := by
  have hsum : td'.portCounts.sum = td'.queueDepth := by
    rw [hcounts, sum_spread hentry.le, hdepth]
  refine ⟨by rw [hcounts, length_spread], hsum, ?_, ?_⟩
  · intro _ c hc c' hc'
    rw [hcounts] at hc hc'
    have hc := mem_spread hc
    have hc' := mem_spread hc'
    omega
  · apply (onePortEach_iff hpos).mpr
    rw [room_eq_sum, hsum]
    intro c hc
    rw [hcounts] at hc
    have hc := mem_spread hc
    omega

/-- The build is right exactly if no number of ports was given, or the sum is that of the table
and the workers do not get as far as a negative number. -/
theorem portsMatch_build_iff (td : TargetData F) (htable : td.addressTable.length = td.hostCount)
    (hpos : 0 < td.hostCount) :
    PortsMatch td (xddBuildTargetDataSubstructureE2e td) ↔
      td.portCount ≤ 0 ∨
        td.portCounts.sum = td.portCount ∧ td.portCount ≤ room td.portCounts := by
  unfold xddBuildTargetDataSubstructureE2e
  by_cases hports : 0 < td.portCount
  · rw [if_pos hports]
    constructor
    · intro hmatch
      exact .inr ⟨hmatch.sum, (onePortEach_iff hports).mp hmatch.assigned⟩
    · rintro (hnone | ⟨hsum, hroom⟩)
      · omega
      · refine ⟨?_, hsum, ?_, (onePortEach_iff hports).mpr hroom⟩
        · exact (List.length_map _).trans htable
        · intro hnone
          omega
  · rw [if_neg hports]
    refine iff_of_true ?_ (.inl (Int.not_lt.mp hports))
    split
    · -- one port for each host
      have hone : List.replicate td.hostCount 1 = spread td.hostCount 0 1 := by simp [spread]
      rw [hone]
      have hcounts := portCounts_setPortCounts td
        ((length_spread td.hostCount 0 1).trans htable.symm)
      refine portsMatch_of_spread hcounts hpos ?_ ?_
      · show (td.hostCount : Int) = (td.hostCount * 1 + 0 : Nat)
        simp
      · exact Int.natCast_pos.mpr hpos
    · next hdepth =>
      obtain ⟨entry, level, heq, hlt, hsum⟩ := distribute_spread td.queueDepth.toNat hpos 0
      rw [spread_zero] at heq
      rw [heq]
      have hcounts := portCounts_setPortCounts td
        ((length_spread td.hostCount entry level).trans htable.symm)
      refine portsMatch_of_spread hcounts hlt ?_ ?_
      · show td.queueDepth = (td.hostCount * level + entry : Nat)
        omega
      · show 0 < td.queueDepth
        omega

/-! ## From the options to the table -/

/-- The number of a `portcount` option. -/
def Setting.ports : Setting F → Option Int
  | .portcount number => some (atoi (number.getD ""))
  | _ => none

/-- The last `portcount` of some settings. -/
def lastPortcount (settings : List (Setting F)) : Option Int :=
  (settings.filterMap Setting.ports).getLast?

/-- The numbers of ports that are in effect: a destination has that of the last `portcount`
behind it, and its own if there is none. -/
def effectiveCounts : List (Setting F) → List Int
  | [] => []
  | s :: settings =>
    match s.entry with
    | some entry => (lastPortcount settings).getD entry.portCount :: effectiveCounts settings
    | none => effectiveCounts settings

/-- The numbers of ports that the destinations have been given with. -/
def givenCounts (settings : List (Setting F)) : List Int :=
  (settings.filterMap Setting.entry).map (·.portCount)

theorem lastPortcount_cons (s : Setting F) (settings : List (Setting F)) (count : Int) :
    (lastPortcount (s :: settings)).getD count =
      (lastPortcount settings).getD (s.ports.getD count) := by
  unfold lastPortcount
  rw [List.filterMap_cons]
  cases s.ports with
  | none => rfl
  | some number =>
    rw [List.getLast?_cons]
    cases (settings.filterMap Setting.ports).getLast? <;> rfl

/-- One option, while the table has room. -/
theorem portCounts_set (s : Setting F) {td : TargetData F}
    (hroom : td.addressTable.length ≤ tableEntries) :
    (s.set td).portCounts =
      td.portCounts.map (fun count => s.ports.getD count) ++ s.entry.toList.map (·.portCount) := by
  cases s with
  | destination entry =>
    show (td.addressTable ++ [entry]).map _ = _
    simp [TargetData.portCounts, Setting.ports, Setting.entry]
  | port number =>
    refine (map_mapTable (·.portCount) (f := fun e => { e with basePort := atoi (number.getD "") })
      (g := id) (fun _ => rfl) hroom).trans ?_
    simp [TargetData.portCounts, Setting.ports, Setting.entry]
  | portcount number =>
    refine (map_mapTable (·.portCount) (g := fun _ => atoi (number.getD ""))
      (fun _ => rfl) hroom).trans ?_
    simp [TargetData.portCounts, Setting.ports, Setting.entry]
  | _ => simp [TargetData.portCounts, Setting.ports, Setting.entry, Setting.set]

/-- The table after all options holds the numbers that are in effect. -/
theorem portCounts_replay (settings : List (Setting F)) {td : TargetData F}
    (hroom : td.addressTable.length + (settings.filterMap Setting.entry).length ≤ tableEntries) :
    (replay settings td).portCounts =
      td.portCounts.map (fun count => (lastPortcount settings).getD count) ++
        effectiveCounts settings := by
  induction settings generalizing td with
  | nil => simp [replay, lastPortcount, effectiveCounts]
  | cons s settings ih =>
    have hroom' := room_set s hroom
    have htd : td.addressTable.length ≤ tableEntries := by omega
    rw [replay_cons, ih hroom', portCounts_set s htd, List.map_append, List.map_map,
      List.append_assoc]
    refine congrArg₂ (· ++ ·) ?_ ?_
    · apply List.map_congr_left
      intro count _
      exact (lastPortcount_cons s settings count).symm
    · rw [effectiveCounts]
      cases s.entry <;> rfl

/-- The settings in the order in which the two phases store them. -/
def stored (os : List (Opt F)) (t : Nat) : List (Setting F) :=
  os.filterMap (·.naming t) ++ os.filterMap (·.applying t)

/-- For every accepted command line with a destination and room for all of them in the table,
ports and workers match exactly if no ports are given, or the ports given and those in effect
have the same sum and the workers do not get as far as a negative number. -/
theorem xddParse_portsMatch_iff (ratios : Ratios F) (others : String → Option OtherOption)
    (argv : List String) (plan : Plan F) (h : xddParse ratios others argv = .ok plan)
    (t : Nat) (ht : t < plan.numberOfTargets)
    (hsome : 0 < (givenCounts (stored (options ratios others argv) t)).length)
    (hroom : (givenCounts (stored (options ratios others argv) t)).length ≤ tableEntries) :
    ∃ td, plan.targets t = some td ∧
      (PortsMatch td (xddBuildTargetDataSubstructureE2e td) ↔
        int32 (givenCounts (stored (options ratios others argv) t)).sum ≤ 0 ∨
          (effectiveCounts (stored (options ratios others argv) t)).sum =
              int32 (givenCounts (stored (options ratios others argv) t)).sum ∧
            int32 (givenCounts (stored (options ratios others argv) t)).sum ≤
              room (effectiveCounts (stored (options ratios others argv) t))) := by
  have htarget := xddParse_targets others h ht
  refine ⟨_, htarget, ?_⟩
  have hreplay : replay ((options ratios others argv).filterMap (·.applying t))
      (replay ((options ratios others argv).filterMap (·.naming t)) (initNewTargetData ratios)) =
        replay (stored (options ratios others argv) t) (initNewTargetData ratios) :=
    (List.foldl_append).symm
  rw [hreplay]
  generalize stored (options ratios others argv) t = settings at hsome hroom
  rw [givenCounts, List.length_map] at hsome hroom
  have hhosts := congrArg List.length (hosts_replay settings (initNewTargetData ratios))
  have hcount := hostCount_replay settings (initNewTargetData ratios)
  have hports := portCount_replay settings (initNewTargetData ratios) 0 rfl
  have hfits : (initNewTargetData ratios).addressTable.length +
      (settings.filterMap Setting.entry).length ≤ tableEntries := by
    simpa [initNewTargetData] using hroom
  have htable := portCounts_replay settings hfits
  rw [List.length_map, List.length_append, List.length_map, List.length_map] at hhosts
  have hlength : (replay settings (initNewTargetData ratios)).addressTable.length =
      (replay settings (initNewTargetData ratios)).hostCount := by
    rw [hhosts, hcount]
    rfl
  have hpos : 0 < (replay settings (initNewTargetData ratios)).hostCount := by
    rw [hcount]
    omega
  rw [portsMatch_build_iff _ hlength hpos, hports, htable, Int.zero_add]
  rfl

end

/-- Two destinations with five ports. -/
def fivePortsLine : List String :=
  ["-target", "a", "-e2e", "destination", "h:50010,3", "-e2e", "destination", "g:50020,2"]

theorem xddParse_portsMatch_fivePortsLine :
    ∃ plan td, xddParse wholeRatios (fun _ => none) fivePortsLine = .ok plan ∧
      plan.targets 0 = some td ∧ PortsMatch td (xddBuildTargetDataSubstructureE2e td) := by
  have hplan : (xddParse wholeRatios (fun _ => none) fivePortsLine).toOption.map
      (·.numberOfTargets) = some 1 := by decide +kernel
  obtain ⟨plan, hparse, hnumber⟩ := Option.map_eq_some_iff.mp hplan
  have hok := eq_ok_of_toOption hparse
  obtain ⟨td, htd, hiff⟩ := xddParse_portsMatch_iff wholeRatios (fun _ => none) fivePortsLine
    plan hok 0 (by omega) (by decide +kernel) (by decide +kernel)
  exact ⟨plan, td, hok, htd, hiff.mpr (by decide +kernel)⟩

/-- One destination with three ports, and then two ports for every entry. -/
def twoPortsLine : List String :=
  ["-target", "a", "-e2e", "destination", "h:50010,3", "-e2e", "portcount", "2"]

/-- The queue depth is three, and there are two ports. -/
theorem xddParse_portcount_twoPortsLine :
    ∃ plan td, xddParse wholeRatios (fun _ => none) twoPortsLine = .ok plan ∧
      plan.targets 0 = some td ∧
      (xddBuildTargetDataSubstructureE2e td).queueDepth = 3 ∧
      (xddBuildTargetDataSubstructureE2e td).portCounts = [2] ∧
      ¬ PortsMatch td (xddBuildTargetDataSubstructureE2e td) := by
  have hplan : (xddParse wholeRatios (fun _ => none) twoPortsLine).toOption.map
      (fun plan => (plan.targets 0).map fun td =>
        ((xddBuildTargetDataSubstructureE2e td).queueDepth,
          (xddBuildTargetDataSubstructureE2e td).portCounts)) = some (some (3, [2])) := by
    decide +kernel
  obtain ⟨plan, hparse, hdata⟩ := Option.map_eq_some_iff.mp hplan
  obtain ⟨td, htd, hfields⟩ := Option.map_eq_some_iff.mp hdata
  obtain ⟨hdepth, hcounts⟩ := Prod.mk.inj hfields
  refine ⟨plan, td, eq_ok_of_toOption hparse, htd, hdepth, hcounts, ?_⟩
  intro hmatch
  have hsum := hmatch.sum
  rw [hcounts, hdepth] at hsum
  exact absurd hsum (by decide)

end Xdd.Options
