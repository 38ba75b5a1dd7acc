import Xdd.Options.LastWriter

/-!
# The end-to-end address table

A destination is put behind the entries of the table instead of being stored over a field,
and the branch for a single target does not ask for the phase. Such a destination is in
the table twice. Destinations for all targets are put there once, as long as the table has
room for them.
-/

namespace Xdd.Options

section

variable {F : Type}

/-- The entry of a destination. -/
def Setting.entry : Setting F → Option AddressEntry
  | .destination entry => some entry
  | _ => none

/-- The destinations that apply to a target, in the order of the command line. -/
def destinations (os : List (Opt F)) (t : Nat) : List AddressEntry :=
  (os.filterMap (·.applying t)).filterMap Setting.entry

/-- The destinations that name a target. -/
def namedDestinations (os : List (Opt F)) (t : Nat) : List AddressEntry :=
  (os.filterMap (·.naming t)).filterMap Setting.entry

/-- The target holds one entry for each destination that applies to it: the table has room
for them, each option has acted once and in its order, and the two counts agree. -/
structure OneEntryEach (ratios : Ratios F) (os : List (Opt F)) (t : Nat) (td : TargetData F) :
    Prop where
  room : td.addressTable.length ≤ tableEntries
  hosts : td.addressTable.map (·.hostname) = (destinations os t).map (·.hostname)
  once : td.addressTable =
    (replay (os.filterMap (·.applying t)) (initNewTargetData ratios)).addressTable
  hostCount : td.hostCount = (destinations os t).length
  portCount : td.portCount = ((destinations os t).map (·.portCount)).sum

/-! ## Replaying settings -/

theorem replay_cons (s : Setting F) (settings : List (Setting F)) (td : TargetData F) :
    replay (s :: settings) td = replay settings (s.set td) := rfl

theorem map_hostname_mapTable {f : AddressEntry → AddressEntry}
    (hf : ∀ e, (f e).hostname = e.hostname) (table : List AddressEntry) :
    (mapTable f table).map (·.hostname) = table.map (·.hostname) := by
  have hmap : ((table.take tableEntries).map f).map (·.hostname) =
      (table.take tableEntries).map (·.hostname) := by
    rw [List.map_map]
    exact List.map_congr_left fun e _ => hf e
  rw [mapTable, List.map_append, hmap, ← List.map_append, List.take_append_drop]

/-- A field of the entries, while the table has room. -/
theorem map_mapTable {α : Type} (get : AddressEntry → α) {f : AddressEntry → AddressEntry}
    {g : α → α} (hf : ∀ e, get (f e) = g (get e)) {table : List AddressEntry}
    (hroom : table.length ≤ tableEntries) :
    (mapTable f table).map get = (table.map get).map g := by
  rw [mapTable, List.take_of_length_le hroom, List.drop_of_length_le hroom, List.append_nil,
    List.map_map, List.map_map]
  exact List.map_congr_left fun e _ => hf e

theorem hosts_set (s : Setting F) (td : TargetData F) :
    (s.set td).addressTable.map (·.hostname) =
      td.addressTable.map (·.hostname) ++ s.entry.toList.map (·.hostname) := by
  cases s with
  | destination entry => exact List.map_append
  | port number =>
    refine (map_hostname_mapTable ?_ td.addressTable).trans (List.append_nil _).symm
    exact fun _ => rfl
  | portcount number =>
    refine (map_hostname_mapTable ?_ td.addressTable).trans (List.append_nil _).symm
    exact fun _ => rfl
  | _ => exact (List.append_nil _).symm

theorem hosts_replay (settings : List (Setting F)) (td : TargetData F) :
    (replay settings td).addressTable.map (·.hostname) =
      td.addressTable.map (·.hostname) ++
        (settings.filterMap Setting.entry).map (·.hostname) := by
  induction settings generalizing td with
  | nil => exact (List.append_nil _).symm
  | cons s settings ih =>
    rw [replay_cons, ih, hosts_set, List.filterMap_cons, List.append_assoc, ← List.map_append]
    cases s.entry <;> rfl

theorem hostCount_set (s : Setting F) (td : TargetData F) :
    (s.set td).hostCount = td.hostCount + s.entry.toList.length := by
  cases s <;> rfl

theorem hostCount_replay (settings : List (Setting F)) (td : TargetData F) :
    (replay settings td).hostCount =
      td.hostCount + (settings.filterMap Setting.entry).length := by
  induction settings generalizing td with
  | nil => rfl
  | cons s settings ih =>
    rw [replay_cons, ih, hostCount_set, List.filterMap_cons, Nat.add_assoc, ← List.length_append]
    cases s.entry <;> rfl

theorem length_addressTable_set (s : Setting F) (td : TargetData F) :
    (s.set td).addressTable.length = td.addressTable.length + s.entry.toList.length := by
  have hhosts := congrArg List.length (hosts_set s td)
  simpa using hhosts

/-- There is room for the options behind one of them. -/
theorem room_set (s : Setting F) {settings : List (Setting F)} {td : TargetData F}
    (hroom : td.addressTable.length + ((s :: settings).filterMap Setting.entry).length ≤
      tableEntries) :
    (s.set td).addressTable.length + (settings.filterMap Setting.entry).length ≤ tableEntries := by
  have hlength := length_addressTable_set s td
  rw [List.filterMap_cons] at hroom
  cases hs : s.entry with
  | none => simpa [hlength, hs] using hroom
  | some entry =>
    simp only [hs, List.length_cons] at hroom
    simp only [hlength, hs, Option.toList_some, List.length_singleton]
    omega

/-- The port count is the sum of the port counts, reduced to its width at every step. -/
theorem portCount_replay (settings : List (Setting F)) (td : TargetData F) (x : Int)
    (hx : td.portCount = int32 x) :
    (replay settings td).portCount =
      int32 (x + ((settings.filterMap Setting.entry).map (·.portCount)).sum) := by
  induction settings generalizing td x with
  | nil =>
    rw [List.filterMap_nil, List.map_nil, List.sum_nil, Int.add_zero]
    exact hx
  | cons s settings ih =>
    rw [replay_cons, List.filterMap_cons]
    cases hs : s.entry with
    | none =>
      have hsame : (s.set td).portCount = td.portCount := by
        cases s <;> first | rfl | cases hs
      exact ih _ x (hsame.trans hx)
    | some entry =>
      have hset : (s.set td).portCount = int32 (x + entry.portCount) := by
        cases s with
        | destination entry' =>
          cases hs
          exact (congrArg (fun p => int32 (p + entry.portCount)) hx).trans
            Int.bmod_add_bmod
        | _ => cases hs
      rw [ih _ _ hset, List.map_cons, List.sum_cons, Int.add_assoc]

/-- The table after an option depends on nothing but the table before it. -/
theorem addressTable_set (s : Setting F) {td td' : TargetData F}
    (h : td.addressTable = td'.addressTable) :
    (s.set td).addressTable = (s.set td').addressTable := by
  cases s with
  | destination entry => exact congrArg (· ++ [entry]) h
  | port number => exact congrArg (mapTable _) h
  | portcount number => exact congrArg (mapTable _) h
  | _ => exact h

theorem addressTable_replay (settings : List (Setting F)) {td td' : TargetData F}
    (h : td.addressTable = td'.addressTable) :
    (replay settings td).addressTable = (replay settings td').addressTable := by
  induction settings generalizing td td' with
  | nil => exact h
  | cons s settings ih => exact ih (addressTable_set s h)

/-! ## After both phases -/

theorem int32_eq_self_iff (x : Int) : int32 x = x ↔ -2 ^ 31 ≤ x ∧ x < 2 ^ 31 := by
  refine ⟨?_, ?_⟩
  · intro h
    rw [← h, int32, CInt.signed]
    have hlow := Int.le_bmod (x := x) (m := 2 ^ 32) (by decide)
    have hhigh := Int.bmod_lt (x := x) (m := 2 ^ 32) (by decide)
    omega
  · rintro ⟨hlow, hhigh⟩
    exact CInt.signed_of_fits (by omega) (by omega)

/-- The table and the counts after both phases. -/
theorem twoPhases_addresses (ratios : Ratios F) (os : List (Opt F)) (t : Nat) {td : TargetData F}
    (htd : td = replay (os.filterMap (·.applying t))
      (replay (os.filterMap (·.naming t)) (initNewTargetData ratios))) :
    td.addressTable.map (·.hostname) =
      (namedDestinations os t ++ destinations os t).map (·.hostname) ∧
    td.hostCount = (namedDestinations os t).length + (destinations os t).length ∧
    td.portCount = int32 (((namedDestinations os t).map (·.portCount)).sum +
      ((destinations os t).map (·.portCount)).sum) := by
  subst htd
  refine ⟨?_, ?_, ?_⟩
  · rw [hosts_replay, hosts_replay, List.map_append]
    rfl
  · rw [hostCount_replay, hostCount_replay]
    exact congrArg (· + _) (Nat.zero_add _)
  · have hnaming := portCount_replay (os.filterMap (·.naming t)) (initNewTargetData ratios) 0 rfl
    rw [Int.zero_add] at hnaming
    exact portCount_replay _ _ _ hnaming

/-- The first phase leaves an empty table if no destination names the target. -/
theorem addressTable_naming (ratios : Ratios F) (os : List (Opt F)) (t : Nat)
    (h : namedDestinations os t = []) :
    (replay (os.filterMap (·.naming t)) (initNewTargetData ratios)).addressTable = [] := by
  have hhosts := hosts_replay (os.filterMap (·.naming t)) (initNewTargetData ratios)
  rw [namedDestinations] at h
  rw [h] at hhosts
  exact List.map_eq_nil_iff.mp hhosts

/-- Each destination that applies to a target is in its table exactly once if and only if
none of them names the target, the table has room for those for all targets, and the sum of
their port counts fits. -/
theorem xddParse_oneEntryEach_iff (ratios : Ratios F) (others : String → Option OtherOption)
    (argv : List String) (plan : Plan F) (h : xddParse ratios others argv = .ok plan)
    (t : Nat) (ht : t < plan.numberOfTargets) :
    ∃ td, plan.targets t = some td ∧
      (OneEntryEach ratios (options ratios others argv) t td ↔
        namedDestinations (options ratios others argv) t = [] ∧
        (destinations (options ratios others argv) t).length ≤ tableEntries ∧
        -2 ^ 31 ≤ ((destinations (options ratios others argv) t).map (·.portCount)).sum ∧
        ((destinations (options ratios others argv) t).map (·.portCount)).sum < 2 ^ 31) := by
  refine ⟨_, xddParse_targets others h ht, ?_⟩
  generalize options ratios others argv = os
  obtain ⟨hhosts, hcount, hports⟩ := twoPhases_addresses ratios os t rfl
  have hlength := congrArg List.length hhosts
  rw [List.length_map, List.length_map, List.length_append] at hlength
  refine ⟨?_, ?_⟩
  · intro hone
    have hnone : namedDestinations os t = [] := by
      have hsame := hone.hostCount
      rw [hcount] at hsame
      exact List.length_eq_zero_iff.mp (by omega)
    rw [hnone] at hlength hports
    have hroom := hone.room
    have hsum := hone.portCount
    rw [hports, List.map_nil, List.sum_nil, Int.zero_add, int32_eq_self_iff] at hsum
    rw [hlength, List.length_nil, Nat.zero_add] at hroom
    exact ⟨hnone, hroom, hsum⟩
  · rintro ⟨hnone, hroom, hsum⟩
    rw [hnone] at hlength hports hhosts hcount
    refine ⟨?_, hhosts, ?_, ?_, ?_⟩
    · rw [hlength, List.length_nil, Nat.zero_add]
      exact hroom
    · exact addressTable_replay _ (addressTable_naming ratios os t hnone)
    · rw [hcount, List.length_nil, Nat.zero_add]
    · rw [hports, List.map_nil, List.sum_nil, Int.zero_add]
      exact (int32_eq_self_iff _).mpr hsum

end

/-- One destination for all targets. -/
def allTargetsLine : List String := ["-target", "a", "-e2e", "destination", "host:50010,3"]

theorem xddParse_oneEntryEach_allTargetsLine :
    ∃ plan td, xddParse wholeRatios (fun _ => none) allTargetsLine = .ok plan ∧
      plan.targets 0 = some td ∧
      OneEntryEach wholeRatios (options wholeRatios (fun _ => none) allTargetsLine) 0 td := by
  have hplan : (xddParse wholeRatios (fun _ => none) allTargetsLine).toOption.map
      (·.numberOfTargets) = some 1 := by decide +kernel
  obtain ⟨plan, hparse, hnumber⟩ := Option.map_eq_some_iff.mp hplan
  have hok := eq_ok_of_toOption hparse
  obtain ⟨td, htd, hiff⟩ := xddParse_oneEntryEach_iff wholeRatios (fun _ => none) allTargetsLine
    plan hok 0 (by omega)
  exact ⟨plan, td, hok, htd, hiff.mpr (by decide +kernel)⟩

/-- The same destination for the target alone. -/
def oneTargetLine : List String :=
  ["-target", "a", "-e2e", "target", "0", "destination", "host:50010,3"]

/-- Both phases put the destination into the table. -/
theorem xddParse_twice_oneTargetLine :
    ∃ plan td, xddParse wholeRatios (fun _ => none) oneTargetLine = .ok plan ∧
      0 < plan.numberOfTargets ∧ plan.targets 0 = some td ∧
      (destinations (options wholeRatios (fun _ => none) oneTargetLine) 0).length = 1 ∧
      td.hostCount = 2 ∧ td.addressTable.length = 2 ∧ td.portCount = 6 ∧
      ¬ OneEntryEach wholeRatios (options wholeRatios (fun _ => none) oneTargetLine) 0 td := by
  have hplan : (xddParse wholeRatios (fun _ => none) oneTargetLine).toOption.map
      (fun plan => (plan.numberOfTargets, (plan.targets 0).map fun td =>
        (td.hostCount, td.addressTable.length, td.portCount))) = some (1, some (2, 2, 6)) := by
    decide +kernel
  obtain ⟨plan, hparse, hdata⟩ := Option.map_eq_some_iff.mp hplan
  obtain ⟨hnumber, htarget⟩ := Prod.mk.injEq .. ▸ hdata
  obtain ⟨td, htd, hfields⟩ := Option.map_eq_some_iff.mp htarget
  obtain ⟨hhost, htable, hport⟩ : td.hostCount = 2 ∧ td.addressTable.length = 2 ∧
      td.portCount = 6 := by simpa using hfields
  have hone : (destinations (options wholeRatios (fun _ => none) oneTargetLine) 0).length = 1 := by
    decide +kernel
  refine ⟨plan, td, eq_ok_of_toOption hparse, by omega, htd, hone, hhost, htable, hport, ?_⟩
  intro hall
  have hsame := hall.hostCount
  omega

end Xdd.Options
