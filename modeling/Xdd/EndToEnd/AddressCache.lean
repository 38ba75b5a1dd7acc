import Mathlib.Data.List.Induction
import Mathlib.Data.List.Nodup

/-!
# The resolver cache

A process that copies over several connections looks its hosts up once for every connection, and
a resolver that takes turns would send them to different machines. The cache answers a name with
the address that it got first. Its table is of fixed size, entries are never replaced, and a mutex
around the whole look-up makes the calls of all threads one sequence. What the resolver would say
is part of a call.
-/

namespace Xdd.AddressCache

def e2eAddressTableEntries : Nat := 16

def maxAddrCacheEntries : Nat := e2eAddressTableEntries * 16

def hostnameLength : Nat := 1024

/-- A name is a C string, an address an `in_addr_t`. -/
abbrev Name := List UInt8
abbrev Addr := UInt32

/-- The entries of the table that are in use. -/
abbrev Cache := List (Name × Addr)

/-- The arguments of a call, and what `getaddrinfo` has for the name at this time. -/
structure Call where
  name : Name
  ignoreCache : Bool
  resolved : Option Addr
deriving DecidableEq, Repr

/-- The search through the table, which ends at the first entry with the name. -/
def search (name : Name) : Cache → Option Addr
  | [] => none
  | (other, addr) :: rest => if other = name then some addr else search name rest

/-- The new entry, unless the table is full. A name that fills the whole array of characters has
no end there and does not count. -/
def insert (cache : Cache) (name : Name) (addr : Addr) : Cache :=
  if cache.length < maxAddrCacheEntries then
    if name.length < hostnameLength then cache ++ [(name, addr)] else cache
  else cache

/-- `xint_lookup_addr`: the table behind the call, and the address if it returns 0. -/
def xintLookupAddr (cache : Cache) (call : Call) : Cache × Option Addr :=
  let hit := if call.ignoreCache then none else search call.name cache
  match hit with
  | some addr => (cache, some addr)
  | none =>
    match call.resolved with
    | none => (cache, none)
    | some addr => (if call.ignoreCache then cache else insert cache call.name addr, some addr)

/-- The table after a sequence of calls of one process. -/
def cacheAfter (calls : List Call) : Cache :=
  calls.foldl (fun cache call => (xintLookupAddr cache call).1) []

/-! ## A table without a bound -/

/-- What a call could contribute. -/
def Call.answer (call : Call) : Option Addr :=
  if call.ignoreCache ∨ hostnameLength ≤ call.name.length then none else call.resolved

/-- The first address of every name, in the order in which the names come up. -/
def firstAnswer (table : Cache) (call : Call) : Cache :=
  match call.answer with
  | none => table
  | some addr =>
    if call.name ∈ table.map Prod.fst then table else table ++ [(call.name, addr)]

def firstAnswers (calls : List Call) : Cache := calls.foldl firstAnswer []

theorem search_eq_none_iff {name : Name} {cache : Cache} :
    search name cache = none ↔ name ∉ cache.map Prod.fst := by
  induction cache with
  | nil => simp [search]
  | cons entry rest ih =>
    obtain ⟨other, addr⟩ := entry
    by_cases hname : other = name
    · simp [search, hname]
    · simp [search, hname, Ne.symm hname, ih]

theorem mem_of_search {name : Name} {cache : Cache} {addr : Addr}
    (h : search name cache = some addr) : (name, addr) ∈ cache := by
  induction cache with
  | nil => cases h
  | cons entry rest ih =>
    obtain ⟨other, found⟩ := entry
    rw [search] at h
    by_cases hname : other = name
    · rw [if_pos hname] at h
      rw [hname, Option.some.inj h]
      exact List.mem_cons_self
    · rw [if_neg hname] at h
      exact List.mem_cons_of_mem _ (ih h)

theorem search_of_mem {name : Name} {cache : Cache} {addr : Addr}
    (hnodup : (cache.map Prod.fst).Nodup) (h : (name, addr) ∈ cache) :
    search name cache = some addr := by
  cases hsearch : search name cache with
  | none => exact absurd (List.mem_map_of_mem h) (search_eq_none_iff.mp hsearch)
  | some found =>
    have heq := List.inj_on_of_nodup_map hnodup (mem_of_search hsearch) h rfl
    exact congrArg some (Prod.mk.inj heq).2

theorem firstAnswer_grows (table : Cache) (call : Call) :
    table <+: firstAnswer table call := by
  rw [firstAnswer]
  split
  · exact List.prefix_rfl
  · split
    · exact List.prefix_rfl
    · exact List.prefix_append _ _

theorem firstAnswer_of_mem {table : Cache} {call : Call} (h : call.name ∈ table.map Prod.fst) :
    firstAnswer table call = table := by
  rw [firstAnswer]
  cases call.answer with
  | none => rfl
  | some addr => exact if_pos h

theorem firstAnswers_concat (calls : List Call) (call : Call) :
    firstAnswers (calls ++ [call]) = firstAnswer (firstAnswers calls) call := by
  rw [firstAnswers, List.foldl_append]
  rfl

theorem firstAnswers_append (calls more : List Call) :
    firstAnswers calls <+: firstAnswers (calls ++ more) := by
  induction more using List.reverseRecOn with
  | nil => simp
  | append_singleton more call ih =>
    rw [← List.append_assoc]
    refine ih.trans ?_
    rw [firstAnswers_concat]
    exact firstAnswer_grows _ call

theorem nodup_firstAnswers (calls : List Call) :
    ((firstAnswers calls).map Prod.fst).Nodup := by
  induction calls using List.reverseRecOn with
  | nil => exact List.nodup_nil
  | append_singleton calls call ih =>
    rw [firstAnswers_concat, firstAnswer]
    split
    · exact ih
    · split
      · exact ih
      · next hnew =>
        rw [List.map_append]
        exact ih.append (List.nodup_singleton _) (by simpa using hnew)

/-! ## The table holds the first names -/

theorem cacheAfter_append (calls : List Call) (call : Call) :
    cacheAfter (calls ++ [call]) = (xintLookupAddr (cacheAfter calls) call).1 := by
  rw [cacheAfter, List.foldl_append]
  rfl

theorem notMem_of_search_take {name : Name} {table : Cache}
    (h : search name (table.take maxAddrCacheEntries) = none)
    (hlength : table.length ≤ maxAddrCacheEntries) : name ∉ table.map Prod.fst := by
  rw [List.take_of_length_le hlength] at h
  exact search_eq_none_iff.mp h

/-- One call does to the table in use what it does to the one without a bound. -/
theorem xintLookupAddr_take (table : Cache) (call : Call) :
    (xintLookupAddr (table.take maxAddrCacheEntries) call).1 =
      (firstAnswer table call).take maxAddrCacheEntries := by
  by_cases hignore : call.ignoreCache = true
  · have hanswer : call.answer = none := if_pos (Or.inl hignore)
    simp only [xintLookupAddr, firstAnswer, hanswer, if_pos hignore]
    cases call.resolved <;> rfl
  · cases hsearch : search call.name (table.take maxAddrCacheEntries) with
    | some addr =>
      have hmem := List.mem_of_mem_take (mem_of_search hsearch)
      rw [firstAnswer_of_mem (List.mem_map_of_mem hmem)]
      simp only [xintLookupAddr, if_neg hignore, hsearch]
    | none =>
      have hanswer : call.answer =
          if hostnameLength ≤ call.name.length then none else call.resolved := by
        simp [Call.answer, hignore]
      simp only [xintLookupAddr, firstAnswer, hanswer, if_neg hignore, hsearch]
      cases hresolved : call.resolved with
      | none => simp
      | some addr =>
        by_cases hlong : hostnameLength ≤ call.name.length
        · simp [insert, hlong, Nat.not_lt.mpr hlong]
        · simp only [if_neg hlong, insert, if_pos (Nat.lt_of_not_le hlong)]
          by_cases hroom : table.length < maxAddrCacheEntries
          · have hle := Nat.le_of_lt hroom
            have hnew := notMem_of_search_take hsearch hle
            have hlength : (table ++ [(call.name, addr)]).length ≤ maxAddrCacheEntries := by
              rw [List.length_append, List.length_singleton]
              exact hroom
            rw [if_neg hnew, List.take_of_length_le hle, if_pos hroom,
              List.take_of_length_le hlength]
          · have hfull := Nat.le_of_not_lt hroom
            have hlength : ¬ (table.take maxAddrCacheEntries).length < maxAddrCacheEntries := by
              rw [List.length_take, Nat.min_eq_left hfull]
              exact Nat.lt_irrefl _
            rw [if_neg hlength]
            split
            · rfl
            · rw [List.take_append_of_le_length hfull]

/-- The table in use is the beginning of the one without a bound. -/
theorem cacheAfter_eq (calls : List Call) :
    cacheAfter calls = (firstAnswers calls).take maxAddrCacheEntries := by
  induction calls using List.reverseRecOn with
  | nil => rfl
  | append_singleton calls call ih =>
    rw [cacheAfter_append, firstAnswers_concat, ih, xintLookupAddr_take]

/-- A name that a call has got an address for has an entry, if the table has not run full. -/
theorem mem_firstAnswers_of_answered {calls : List Call} {call : Call} {addr : Addr}
    (hcache : call.ignoreCache = false) (hshort : call.name.length < hostnameLength)
    (hlength : (firstAnswers (calls ++ [call])).length ≤ maxAddrCacheEntries)
    (h : (xintLookupAddr (cacheAfter calls) call).2 = some addr) :
    (call.name, addr) ∈ firstAnswers (calls ++ [call]) := by
  have hgrows := firstAnswers_append calls [call]
  rw [cacheAfter_eq, List.take_of_length_le (Nat.le_trans hgrows.length_le hlength)] at h
  simp only [xintLookupAddr, hcache, Bool.false_eq_true, if_false] at h
  cases hsearch : search call.name (firstAnswers calls) with
  | some found =>
    simp only [hsearch] at h
    rw [← Option.some.inj h]
    exact hgrows.subset (mem_of_search hsearch)
  | none =>
    simp only [hsearch] at h
    have hresolved : call.resolved = some addr := by
      cases hresolved : call.resolved with
      | none => simp [hresolved] at h
      | some found => simpa [hresolved] using h
    have hanswer : call.answer = some addr := by
      simp [Call.answer, hcache, Nat.not_le.mpr hshort, hresolved]
    rw [firstAnswers_concat, firstAnswer]
    simp only [hanswer, if_neg (search_eq_none_iff.mp hsearch)]
    exact List.mem_append_right _ List.mem_cons_self

/-- Once a look-up through the cache has got an address for a name, every later one gets the same
address, whatever the resolver says: unless the name does not fit into an entry, or more names
have come up by then than the table has entries. -/
theorem same_address {before between : List Call} {first again : Call} {addr : Addr}
    (hfirst : first.ignoreCache = false) (hagain : again.ignoreCache = false)
    (hname : again.name = first.name) (hshort : first.name.length < hostnameLength)
    (hroom : (firstAnswers (before ++ [first])).length ≤ maxAddrCacheEntries)
    (h : (xintLookupAddr (cacheAfter before) first).2 = some addr) :
    (xintLookupAddr (cacheAfter (before ++ first :: between)) again).2 = some addr := by
  have hmem := mem_firstAnswers_of_answered hfirst hshort hroom h
  have hgrows : firstAnswers (before ++ [first]) <+: firstAnswers (before ++ first :: between) := by
    simpa using firstAnswers_append (before ++ [first]) between
  have hcache : (first.name, addr) ∈ cacheAfter (before ++ first :: between) := by
    rw [cacheAfter_eq]
    exact ((List.prefix_take_iff.mpr ⟨hgrows, hroom⟩).subset hmem)
  have hnodup : ((cacheAfter (before ++ first :: between)).map Prod.fst).Nodup := by
    rw [cacheAfter_eq, List.map_take]
    exact (nodup_firstAnswers _).take
  have hsearch := search_of_mem hnodup hcache
  simp only [xintLookupAddr, hagain, Bool.false_eq_true, if_false, hname, hsearch]

/-- The resolver takes turns and fails once. -/
theorem same_address_turns :
    (xintLookupAddr (cacheAfter
      ([⟨[98], false, some 1⟩] ++
        ⟨[97], false, some 2⟩ :: [⟨[97], true, some 3⟩, ⟨[99], false, none⟩]))
      ⟨[97], false, none⟩).2 = some 2 :=
  same_address rfl rfl rfl (by decide) (by decide) (by decide)

end Xdd.AddressCache
