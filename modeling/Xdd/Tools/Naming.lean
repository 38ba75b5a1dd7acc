import Mathlib.Data.List.Basic
import Mathlib.Tactic.Common

/-!
# The names of a recursive copy

A source is a file, a symbolic link or a directory, of which every directory below has a listing.
The naming strategy walks the source from the top and gives each directory, file and link its name
on the sink; the transfer manager goes through the directories, the files and the links in this
order. A path is the list of its components; none of them is `..`, and no component but the last is
a link.

Over the walk of a listing stands the function that looks a relative path up in it. The names are
those of the paths that the listing has, directories before what they hold.
-/

namespace Xdd.Naming

abbrev Path := List String

/-- The entries of a directory in the order in which they are listed. `os.walk` counts a link as a
directory if it leads to one. -/
inductive Listing where
  | nil
  | file (name : String) (rest : Listing)
  | symlink (name : String) (value : String) (toDir : Bool) (rest : Listing)
  | dir (name : String) (children : Listing) (rest : Listing)
deriving DecidableEq, Repr

/-- What the source path names. -/
inductive Source where
  | missing
  | file
  | symlink (value : String)
  | directory (listing : Listing)
deriving DecidableEq, Repr

/-- A source path, as `os.path.split` takes it apart: an empty tail is a trailing slash. -/
structure SourcePath where
  head : Path
  tail : String
deriving DecidableEq, Repr

/-- `os.path.join`. -/
def SourcePath.join (source : SourcePath) (names : Path) : Path :=
  if source.tail = "" then source.head ++ names else source.head ++ source.tail :: names

/-- `os.path.relpath(dirpath, start=source)` for a directory below the source. -/
def relpath (rel : Path) : Path := if rel = [] then ["."] else rel

/-- `(source, target)` and `(source, target, link)`, as they are collected. -/
structure Names where
  dirs : List (Path × Path)
  files : List (Path × Path)
  symlinks : List (Path × Path × String)
deriving DecidableEq, Repr

/-! ## The walk -/

namespace Listing

/-- The entries that are directories, without the links to directories. -/
def dirNames : Listing → List String
  | nil => []
  | file _ rest | symlink _ _ _ rest => rest.dirNames
  | dir name _ rest => name :: rest.dirNames

def fileNames : Listing → List String
  | nil => []
  | file name rest => name :: rest.fileNames
  | symlink _ _ _ rest | dir _ _ rest => rest.fileNames

/-- The links of which `os.walk` says that they are directories, or that they are not. -/
def symlinks (toDir : Bool) : Listing → List (String × String)
  | nil => []
  | symlink name value b rest =>
    if b = toDir then (name, value) :: rest.symlinks toDir else rest.symlinks toDir
  | file _ rest | dir _ _ rest => rest.symlinks toDir

/-- The directories below `rel` with their listings, in the order in which `os.walk` comes to
them. -/
def walk (rel : Path) : Listing → List (Path × Listing)
  | nil => []
  | file _ rest | symlink _ _ _ rest => rest.walk rel
  | dir name children rest =>
    (rel ++ [name], children) :: (children.walk (rel ++ [name]) ++ rest.walk rel)

end Listing

/-- The body of the loop: the subdirectories with the links to directories, then the files with
the other links. -/
def Names.visit (source : SourcePath) (targetPrefix : Path) (names : Names)
    (visited : Path × Listing) : Names :=
  let sourcename (name : String) := source.join (visited.1 ++ [name])
  let targetname (name : String) := targetPrefix ++ (relpath visited.1 ++ [name])
  { dirs := names.dirs ++ visited.2.dirNames.map fun d => (sourcename d, targetname d)
    files := names.files ++ visited.2.fileNames.map fun f => (sourcename f, targetname f)
    symlinks := names.symlinks ++
      (visited.2.symlinks true ++ visited.2.symlinks false).map fun link =>
        (sourcename link.1, targetname link.1, link.2) }

/-- `PosixNamingStrategy.buildDirsFilesLinks`. -/
def buildDirsFilesLinks (source : SourcePath) (kind : Source) (target : Path)
    (targetExists targetIsDir : Bool) : Nat × Names :=
  let single := if targetIsDir then target ++ [source.tail] else target
  match kind with
  | .symlink value => (0, ⟨[], [], [(source.join [], single, value)]⟩)
  | .directory listing =>
    if targetIsDir ∨ ¬ targetExists then
      let hasTrailingSlash : Bool := source.tail = ""
      let targetPrefix :=
        if targetExists ∧ ¬ hasTrailingSlash then target ++ [source.tail] else target
      let outDirs := if ¬ targetExists ∨ ¬ hasTrailingSlash then
        [(source.join [], targetPrefix)] else []
      (0, (([], listing) :: listing.walk []).foldl (Names.visit source targetPrefix)
        ⟨outDirs, [], []⟩)
    else (1, ⟨[], [], []⟩)
  | .file => (0, ⟨[], [(source.join [], single)], []⟩)
  | .missing => (1, ⟨[], [], []⟩)

/-! ## The requests -/

/-- What `startAndMonitorTransfers` does with a name. -/
inductive Request where
  | createDir (target : Path)
  | transfer (source target : Path)
  | createSymlink (target : Path) (value : String)
deriving DecidableEq, Repr

/-- The three loops of `startAndMonitorTransfers`, if none of them is left. -/
def Names.requests (names : Names) : List Request :=
  names.dirs.map (fun dir => .createDir dir.2) ++
    (names.files.map (fun file => .transfer file.1 file.2) ++
      names.symlinks.map fun link => .createSymlink link.2.1 link.2.2)

/-- An entry of the source. -/
inductive Entry where
  | dir
  | file
  | symlink (value : String)
deriving DecidableEq, Repr

/-- A name leads to the same place with or without dots. -/
def resolve (path : Path) : Path := path.filter (· ≠ ".")

namespace Listing

/-! ## Looking a path up -/

def names : Listing → List String
  | nil => []
  | file name rest | symlink name _ _ rest | dir name _ rest => name :: rest.names

/-- The names of a directory are different, and none of them is a dot. -/
def WellFormed : Listing → Prop
  | nil => True
  | file name rest | symlink name _ _ rest =>
    name ≠ "." ∧ name ∉ rest.names ∧ rest.WellFormed
  | dir name children rest =>
    name ≠ "." ∧ name ∉ rest.names ∧ children.WellFormed ∧ rest.WellFormed

/-- What the source has at a path below it. -/
def lookup : Listing → Path → Option Entry
  | _, [] => some .dir
  | nil, _ :: _ => none
  | file name rest, found :: below =>
    if name = found then (if below = [] then some .file else none)
    else rest.lookup (found :: below)
  | symlink name value _ rest, found :: below =>
    if name = found then (if below = [] then some (.symlink value) else none)
    else rest.lookup (found :: below)
  | dir name children rest, found :: below =>
    if name = found then children.lookup below else rest.lookup (found :: below)

@[simp] theorem lookup_nil (listing : Listing) : listing.lookup [] = some .dir := by
  cases listing <;> rfl

theorem mem_names_of_lookup {listing : Listing} {name : String} {below : Path} {entry : Entry}
    (h : listing.lookup (name :: below) = some entry) : name ∈ listing.names := by
  induction listing with
  | nil => cases h
  | file other rest ih | symlink other _ _ rest ih =>
    by_cases hname : other = name
    · exact List.mem_cons.mpr (Or.inl hname.symm)
    · rw [lookup, if_neg hname] at h
      exact List.mem_cons_of_mem _ (ih h)
  | dir other children rest _ ih =>
    by_cases hname : other = name
    · exact List.mem_cons.mpr (Or.inl hname.symm)
    · rw [lookup, if_neg hname] at h
      exact List.mem_cons_of_mem _ (ih h)

theorem dot_notMem_of_lookup {listing : Listing} {rel : Path} {entry : Entry}
    (hwf : listing.WellFormed) (h : listing.lookup rel = some entry) : "." ∉ rel := by
  induction listing generalizing rel with
  | nil => cases rel with
    | nil => exact List.not_mem_nil
    | cons name below => cases h
  | file name rest ih | symlink name _ _ rest ih => cases rel with
    | nil => exact List.not_mem_nil
    | cons found below =>
      by_cases hname : name = found
      · rw [lookup, if_pos hname] at h
        have hbelow : below = [] := by
          by_contra hne
          rw [if_neg hne] at h
          cases h
        simpa [hbelow, ← hname] using hwf.1.symm
      · rw [lookup, if_neg hname] at h
        exact ih hwf.2.2 h
  | dir name children rest ihChildren ih => cases rel with
    | nil => exact List.not_mem_nil
    | cons found below =>
      by_cases hname : name = found
      · rw [lookup, if_pos hname] at h
        have hbelow := ihChildren hwf.2.2.1 h
        simpa [← hname, hbelow] using hwf.1.symm
      · rw [lookup, if_neg hname] at h
        exact ih hwf.2.2.2 h

def dirEntries (listing : Listing) : List (String × Entry) :=
  listing.dirNames.map fun name => (name, .dir)

def fileEntries (listing : Listing) : List (String × Entry) :=
  listing.fileNames.map fun name => (name, .file)

def symlinkEntries (listing : Listing) : List (String × Entry) :=
  (listing.symlinks true ++ listing.symlinks false).map fun link => (link.1, .symlink link.2)

/-- The entries of the directory itself, as the body of the loop goes through them. -/
def entries (listing : Listing) : List (String × Entry) :=
  listing.dirEntries ++ (listing.fileEntries ++ listing.symlinkEntries)

theorem mem_entries_file {name other : String} {rest : Listing} {entry : Entry} :
    (name, entry) ∈ (file other rest).entries ↔
      name = other ∧ entry = .file ∨ (name, entry) ∈ rest.entries := by
  simp [entries, dirEntries, fileEntries, symlinkEntries, dirNames, fileNames, symlinks,
    or_left_comm]

theorem mem_entries_symlink {name other value : String} {toDir : Bool} {rest : Listing}
    {entry : Entry} : (name, entry) ∈ (symlink other value toDir rest).entries ↔
      name = other ∧ entry = .symlink value ∨ (name, entry) ∈ rest.entries := by
  cases toDir
  · simp [entries, dirEntries, fileEntries, symlinkEntries, dirNames, fileNames, symlinks,
      or_left_comm]
  · simp [entries, dirEntries, fileEntries, symlinkEntries, dirNames, fileNames, symlinks,
      or_left_comm]

theorem mem_entries_dir {name other : String} {children rest : Listing} {entry : Entry} :
    (name, entry) ∈ (dir other children rest).entries ↔
      name = other ∧ entry = .dir ∨ (name, entry) ∈ rest.entries := by
  simp [entries, dirEntries, fileEntries, symlinkEntries, dirNames, fileNames, symlinks]

/-- The body of the loop misses no entry of its directory. -/
theorem mem_entries_iff {listing : Listing} (hwf : listing.WellFormed) {name : String}
    {entry : Entry} : (name, entry) ∈ listing.entries ↔ listing.lookup [name] = some entry := by
  have hcons {other : String} {first : Entry} {rest : Listing} (hnew : other ∉ rest.names)
      (ih : (name, entry) ∈ rest.entries ↔ rest.lookup [name] = some entry) :
      (name = other ∧ entry = first ∨ (name, entry) ∈ rest.entries) ↔
        (if other = name then some first else rest.lookup [name]) = some entry := by
    by_cases hname : other = name
    · have hrest : (name, entry) ∉ rest.entries := fun h =>
        hnew (hname ▸ mem_names_of_lookup (ih.mp h))
      simp [hname, hrest, eq_comm]
    · simp [hname, Ne.symm hname, ih]
  induction listing with
  | nil => simp [entries, dirEntries, fileEntries, symlinkEntries, dirNames, fileNames, symlinks,
    lookup]
  | file other rest ih =>
    rw [mem_entries_file, lookup, if_pos rfl]
    exact hcons hwf.2.1 (ih hwf.2.2)
  | symlink other value toDir rest ih =>
    rw [mem_entries_symlink, lookup, if_pos rfl]
    exact hcons hwf.2.1 (ih hwf.2.2)
  | dir other children rest _ ih =>
    rw [mem_entries_dir, lookup, lookup_nil]
    exact hcons hwf.2.1 (ih hwf.2.2.2)

/-! ## The walk and the look-up -/

/-- What the walk comes to is below, with its own listing. -/
theorem lookup_of_mem_walk {listing visited : Listing} {rel path : Path}
    (hwf : listing.WellFormed) (h : (path, visited) ∈ listing.walk rel) :
    ∃ name sub, path = rel ++ name :: sub ∧ name ∈ listing.names ∧ visited.WellFormed ∧
      ∀ below, listing.lookup (name :: (sub ++ below)) = visited.lookup below := by
  induction listing generalizing rel with
  | nil => cases h
  | file other rest ih | symlink other _ _ rest ih =>
    obtain ⟨name, sub, hpath, hname, hvisited, hlookup⟩ := ih hwf.2.2 h
    refine ⟨name, sub, hpath, List.mem_cons_of_mem _ hname, hvisited, fun below => ?_⟩
    have hne : other ≠ name := fun heq => hwf.2.1 (heq ▸ hname)
    rw [lookup, if_neg hne]
    exact hlookup below
  | dir other children rest ihChildren ih =>
    obtain heq | h := List.mem_cons.mp h
    · obtain ⟨rfl, rfl⟩ := Prod.mk.inj heq
      refine ⟨other, [], rfl, List.mem_cons_self, hwf.2.2.1, fun below => ?_⟩
      rw [lookup, if_pos rfl]
      rfl
    · obtain h | h := List.mem_append.mp h
      · obtain ⟨name, sub, hpath, -, hvisited, hlookup⟩ := ihChildren hwf.2.2.1 h
        refine ⟨other, name :: sub, ?_, List.mem_cons_self, hvisited, fun below => ?_⟩
        · rw [hpath, List.append_assoc]
          rfl
        · rw [lookup, if_pos rfl]
          exact hlookup below
      · obtain ⟨name, sub, hpath, hname, hvisited, hlookup⟩ := ih hwf.2.2.2 h
        refine ⟨name, sub, hpath, List.mem_cons_of_mem _ hname, hvisited, fun below => ?_⟩
        have hne : other ≠ name := fun heq => hwf.2.1 (heq ▸ hname)
        rw [lookup, if_neg hne]
        exact hlookup below

/-- The walk comes to the directory of every entry. -/
theorem mem_walk_of_lookup {listing : Listing} {rel sub : Path} {name : String} {entry : Entry}
    (h : listing.lookup (sub ++ [name]) = some entry) :
    ∃ visited, (rel ++ sub, visited) ∈ (rel, listing) :: listing.walk rel ∧
      visited.lookup [name] = some entry := by
  induction listing generalizing rel sub with
  | nil => cases sub with
    | nil => cases h
    | cons _ _ => cases h
  | file other rest ih | symlink other value toDir rest ih => cases sub with
    | nil => exact ⟨_, by simp, h⟩
    | cons first sub =>
      rw [List.cons_append, lookup] at h
      by_cases hfirst : other = first
      · simp [hfirst] at h
      · rw [if_neg hfirst] at h
        obtain ⟨visited, hmem, hvisited⟩ := @ih rel (first :: sub) h
        refine ⟨visited, ?_, hvisited⟩
        have hmem := (List.mem_cons.mp hmem).resolve_left (by simp)
        exact List.mem_cons_of_mem _ hmem
  | dir other children rest ihChildren ih => cases sub with
    | nil => exact ⟨_, by simp, h⟩
    | cons first sub =>
      rw [List.cons_append, lookup] at h
      by_cases hfirst : other = first
      · rw [if_pos hfirst] at h
        obtain ⟨visited, hmem, hvisited⟩ := @ihChildren (rel ++ [other]) sub h
        refine ⟨visited, ?_, hvisited⟩
        rw [← hfirst, show rel ++ other :: sub = rel ++ [other] ++ sub by simp]
        refine List.mem_cons_of_mem _ ?_
        obtain heq | hmem := List.mem_cons.mp hmem
        · exact List.mem_cons.mpr (Or.inl heq)
        · exact List.mem_cons_of_mem _ (List.mem_append_left _ hmem)
      · rw [if_neg hfirst] at h
        obtain ⟨visited, hmem, hvisited⟩ := @ih rel (first :: sub) h
        refine ⟨visited, ?_, hvisited⟩
        have hmem := (List.mem_cons.mp hmem).resolve_left (by simp)
        exact List.mem_cons_of_mem _ (List.mem_cons_of_mem _ (List.mem_append_right _ hmem))

/-- The directories that the walk comes to, the source first. -/
def visits (listing : Listing) : List (Path × Listing) := ([], listing) :: listing.walk []

/-- Some of the entries of the directories visited, under their paths. -/
def pathsOf (part : Listing → List (String × Entry)) (visited : List (Path × Listing)) :
    List (Path × Entry) :=
  visited.flatMap fun v => (part v.2).map fun found => (v.1 ++ [found.1], found.2)

theorem mem_pathsOf {part : Listing → List (String × Entry)} {visited : List (Path × Listing)}
    {rel : Path} {entry : Entry} : (rel, entry) ∈ pathsOf part visited ↔
      ∃ v ∈ visited, ∃ name, (name, entry) ∈ part v.2 ∧ v.1 ++ [name] = rel := by
  simp only [pathsOf, List.mem_flatMap, List.mem_map, Prod.exists, Prod.mk.injEq]
  constructor
  · rintro ⟨dir, listing, hv, name, found, hname, hrel, rfl⟩
    exact ⟨dir, listing, hv, name, hname, hrel⟩
  · rintro ⟨dir, listing, hv, name, hname, hrel⟩
    exact ⟨dir, listing, hv, name, entry, hname, hrel, rfl⟩

/-- All that is below, in the order of the three loops. -/
def paths (listing : Listing) : List (Path × Entry) :=
  pathsOf dirEntries listing.visits ++
    (pathsOf fileEntries listing.visits ++ pathsOf symlinkEntries listing.visits)

theorem mem_paths {listing : Listing} {rel : Path} {entry : Entry} :
    (rel, entry) ∈ listing.paths ↔
      ∃ v ∈ listing.visits, ∃ name, (name, entry) ∈ v.2.entries ∧ v.1 ++ [name] = rel := by
  simp only [paths, entries, List.mem_append, mem_pathsOf]
  constructor
  · rintro (⟨v, hv, name, h, hrel⟩ | ⟨v, hv, name, h, hrel⟩ | ⟨v, hv, name, h, hrel⟩)
    · exact ⟨v, hv, name, Or.inl h, hrel⟩
    · exact ⟨v, hv, name, Or.inr (Or.inl h), hrel⟩
    · exact ⟨v, hv, name, Or.inr (Or.inr h), hrel⟩
  · rintro ⟨v, hv, name, h | h | h, hrel⟩
    · exact Or.inl ⟨v, hv, name, h, hrel⟩
    · exact Or.inr (Or.inl ⟨v, hv, name, h, hrel⟩)
    · exact Or.inr (Or.inr ⟨v, hv, name, h, hrel⟩)

variable {listing : Listing}

theorem lookup_of_mem_visits (hwf : listing.WellFormed) {v : Path × Listing}
    (h : v ∈ listing.visits) :
    v.2.WellFormed ∧ ∀ below, listing.lookup (v.1 ++ below) = v.2.lookup below := by
  obtain heq | h := List.mem_cons.mp h
  · subst heq
    exact ⟨hwf, fun _ => rfl⟩
  · obtain ⟨name, sub, hpath, -, hvisited, hlookup⟩ := lookup_of_mem_walk hwf h
    refine ⟨hvisited, fun below => ?_⟩
    rw [hpath]
    exact hlookup below

theorem lookup_of_mem_paths (hwf : listing.WellFormed) {rel : Path} {entry : Entry}
    (h : (rel, entry) ∈ listing.paths) : listing.lookup rel = some entry := by
  obtain ⟨v, hv, name, hname, rfl⟩ := mem_paths.mp h
  obtain ⟨hvisited, hlookup⟩ := lookup_of_mem_visits hwf hv
  rw [hlookup]
  exact (mem_entries_iff hvisited).mp hname

/-- The three loops miss nothing. -/
theorem mem_paths_of_lookup (hwf : listing.WellFormed) {dir : Path} {name : String}
    {entry : Entry} (h : listing.lookup (dir ++ [name]) = some entry) :
    (dir ++ [name], entry) ∈ listing.paths := by
  obtain ⟨visited, hmem, hvisited⟩ := @mem_walk_of_lookup listing [] dir name entry h
  have hmem : (dir, visited) ∈ listing.visits := hmem
  have hname := (mem_entries_iff (lookup_of_mem_visits hwf hmem).1).mpr hvisited
  exact mem_paths.mpr ⟨(dir, visited), hmem, name, hname, rfl⟩

/-! ## Directories before what they hold -/

/-- Every path comes after its directory, of which there are some to begin with. -/
inductive Parented (listing : Listing) : (Path → Prop) → List (Path × Entry) → Prop
  | nil {known : Path → Prop} : Parented listing known []
  | cons {known : Path → Prop} {rel : Path} {entry : Entry} {rest : List (Path × Entry)}
      (hlookup : listing.lookup rel = some entry) (hparent : rel = [] ∨ known rel.dropLast)
      (hrest : Parented listing (fun dir => known dir ∨ dir = rel ∧ entry = .dir) rest) :
      Parented listing known ((rel, entry) :: rest)

theorem Parented.of_known {known : Path → Prop} {list : List (Path × Entry)}
    (h : ∀ p ∈ list, listing.lookup p.1 = some p.2 ∧ known p.1.dropLast) :
    Parented listing known list := by
  induction list generalizing known with
  | nil => exact .nil
  | cons p rest ih =>
    have hp := h p List.mem_cons_self
    refine .cons hp.1 (Or.inr hp.2) (ih fun q hq => ?_)
    have hq := h q (List.mem_cons_of_mem _ hq)
    exact ⟨hq.1, Or.inl hq.2⟩

theorem Parented.append {known : Path → Prop} {first rest : List (Path × Entry)}
    (hfirst : Parented listing known first)
    (hrest : ∀ known' : Path → Prop, (∀ dir, known dir → known' dir) →
      (∀ dir, (dir, .dir) ∈ first → known' dir) → Parented listing known' rest) :
    Parented listing known (first ++ rest) := by
  induction hfirst with
  | nil => exact hrest _ (fun _ => id) (fun _ h => by cases h)
  | cons hlookup hparent _ ih =>
    refine .cons hlookup hparent (ih fun known' hknown hdirs => ?_)
    refine hrest known' (fun dir h => hknown dir (Or.inl h)) fun dir h => ?_
    obtain heq | h := List.mem_cons.mp h
    · obtain ⟨rfl, rfl⟩ := Prod.mk.inj heq
      exact hknown _ (Or.inr ⟨rfl, rfl⟩)
    · exact hdirs dir h

theorem mem_dirEntries {name : String} {entry : Entry} :
    (name, entry) ∈ listing.dirEntries ↔ name ∈ listing.dirNames ∧ entry = .dir := by
  simp only [dirEntries, List.mem_map, Prod.mk.injEq]
  constructor
  · rintro ⟨other, hmem, rfl, rfl⟩
    exact ⟨hmem, rfl⟩
  · rintro ⟨hmem, rfl⟩
    exact ⟨name, hmem, rfl, rfl⟩

/-- The walk goes from a directory to those below. -/
theorem parented_walk {sub : Listing} {rel : Path} {known : Path → Prop}
    (hlookup : ∀ p ∈ pathsOf dirEntries (sub.walk rel), listing.lookup p.1 = some p.2)
    (hknown : ∀ name ∈ sub.dirNames, known (rel ++ [name])) :
    Parented listing known (pathsOf dirEntries (sub.walk rel)) := by
  induction sub generalizing rel known with
  | nil => exact .nil
  | file _ rest ih | symlink _ _ _ rest ih => exact ih hlookup hknown
  | dir name children rest ihChildren ih =>
    have hpaths : pathsOf dirEntries ((dir name children rest).walk rel) =
        (children.dirEntries.map fun found => (rel ++ [name] ++ [found.1], found.2)) ++
          (pathsOf dirEntries (children.walk (rel ++ [name])) ++
            pathsOf dirEntries (rest.walk rel)) := by
      simp [pathsOf, walk]
    rw [hpaths] at hlookup ⊢
    refine Parented.append (.of_known fun p hp => ?_) fun known' hold hchildren => ?_
    · refine ⟨hlookup p (List.mem_append_left _ hp), ?_⟩
      obtain ⟨found, -, rfl⟩ := List.mem_map.mp hp
      rw [List.dropLast_concat]
      exact hknown name List.mem_cons_self
    · refine Parented.append (ihChildren (fun p hp => ?_) fun sub hsub => ?_) ?_
      · exact hlookup p (List.mem_append_right _ (List.mem_append_left _ hp))
      · refine hchildren _ (List.mem_map.mpr ⟨(sub, .dir), ?_, rfl⟩)
        exact mem_dirEntries.mpr ⟨hsub, rfl⟩
      · intro known'' hold' _
        refine ih (fun p hp => ?_) fun sub hsub => ?_
        · exact hlookup p (List.mem_append_right _ (List.mem_append_right _ hp))
        · exact hold' _ (hold _ (hknown sub (List.mem_cons_of_mem _ hsub)))

/-- The three loops come to a directory before they come to what it holds. -/
theorem parented_paths (hwf : listing.WellFormed) {known : Path → Prop} (hroot : known []) :
    Parented listing known listing.paths := by
  have hlookup : ∀ p ∈ listing.paths, listing.lookup p.1 = some p.2 :=
    fun p hp => lookup_of_mem_paths hwf hp
  have hvisits : pathsOf dirEntries listing.visits =
      (listing.dirEntries.map fun found => ([] ++ [found.1], found.2)) ++
        pathsOf dirEntries (listing.walk []) := by
    simp [pathsOf, visits]
  refine Parented.append ?_ fun known' hold hdirs => .of_known fun p hp => ?_
  · have hlookup : ∀ p ∈ pathsOf dirEntries listing.visits, listing.lookup p.1 = some p.2 :=
      fun p hp => hlookup p (List.mem_append_left _ hp)
    rw [hvisits] at hlookup ⊢
    refine Parented.append (.of_known fun p hp => ?_) fun known' _ htop => ?_
    · refine ⟨hlookup p (List.mem_append_left _ hp), ?_⟩
      obtain ⟨found, -, rfl⟩ := List.mem_map.mp hp
      exact hroot
    · refine parented_walk (fun p hp => hlookup p (List.mem_append_right _ hp)) fun sub hsub => ?_
      refine htop _ (List.mem_map.mpr ⟨(sub, .dir), ?_, rfl⟩)
      exact mem_dirEntries.mpr ⟨hsub, rfl⟩
  · have hp : p ∈ listing.paths := List.mem_append_right _ hp
    refine ⟨hlookup p hp, ?_⟩
    obtain ⟨v, hv, name, -, hrel⟩ := mem_paths.mp hp
    rw [← hrel, List.dropLast_concat]
    -- the directory of a path is the source, or one that the first loop has created
    obtain hnil | ⟨dir, last, hlast⟩ := List.eq_nil_or_concat v.1
    · rw [hnil]
      exact hold _ hroot
    · have hdir : listing.lookup v.1 = some .dir := by
        simpa using (lookup_of_mem_visits hwf hv).2 []
      refine hdirs _ ?_
      rw [hlast, List.concat_eq_append] at hdir ⊢
      obtain ⟨visited, hmem, hvisited⟩ := @mem_walk_of_lookup listing [] dir last .dir hdir
      have hmem : (dir, visited) ∈ listing.visits := hmem
      refine mem_pathsOf.mpr ⟨(dir, visited), hmem, last, ?_, rfl⟩
      have hentry := (mem_entries_iff (lookup_of_mem_visits hwf hmem).1).mpr hvisited
      simpa [entries, fileEntries, symlinkEntries] using hentry

/-- The directory of a path was there to begin with, or stands before it. -/
theorem Parented.parent_mem {known : Path → Prop} {list before after : List (Path × Entry)}
    {rel : Path} {entry : Entry} (h : Parented listing known list)
    (hlist : list = before ++ (rel, entry) :: after) :
    rel = [] ∨ known rel.dropLast ∨ (rel.dropLast, .dir) ∈ before := by
  induction h generalizing before with
  | nil => simp at hlist
  | @cons known first found rest hlookup hparent hrest ih =>
    cases before with
    | nil =>
      obtain ⟨heq, -⟩ := List.cons.inj hlist
      obtain ⟨rfl, -⟩ := Prod.mk.inj heq
      exact hparent.imp_right .inl
    | cons p before =>
      obtain ⟨rfl, htail⟩ := List.cons.inj hlist
      obtain hroot | (hknown | ⟨rfl, rfl⟩) | hmem := ih htail
      · exact .inl hroot
      · exact .inr (.inl hknown)
      · exact .inr (.inr List.mem_cons_self)
      · exact .inr (.inr (List.mem_cons_of_mem _ hmem))

end Listing

/-! ## Names and requests -/

/-- A path below the target prefix, as the walk names it. -/
def below : Path → Path
  | [name] => [".", name]
  | rel => rel

theorem relpath_append (dir : Path) (name : String) :
    relpath dir ++ [name] = below (dir ++ [name]) := by
  match dir with
  | [] => rfl
  | [_] => rfl
  | _ :: _ :: _ => rfl

theorem resolve_append (first rest : Path) :
    resolve (first ++ rest) = resolve first ++ resolve rest := List.filter_append ..

theorem resolve_of_notMem {rel : Path} (h : "." ∉ rel) : resolve rel = rel := by
  refine List.filter_eq_self.mpr fun name hname => ?_
  have hne : name ≠ "." := fun heq => h (heq ▸ hname)
  simpa using hne

theorem resolve_below (place : Path) {rel : Path} (h : "." ∉ rel) :
    resolve (place ++ below rel) = resolve place ++ rel := by
  have hbelow : resolve (below rel) = resolve rel := by
    match rel with
    | [] => rfl
    | [_] => rfl
    | _ :: _ :: _ => rfl
  rw [resolve_append, hbelow, resolve_of_notMem h]

/-- What is asked of the sink for an entry of the source. -/
def requestFor (source : SourcePath) (place : Path) : Path × Entry → Request
  | (rel, .dir) => .createDir (place ++ below rel)
  | (rel, .file) => .transfer (source.join rel) (place ++ below rel)
  | (rel, .symlink value) => .createSymlink (place ++ below rel) value

theorem foldl_visit (source : SourcePath) (place : Path) (visited : List (Path × Listing))
    (names : Names) :
    (visited.foldl (Names.visit source place) names).requests =
      names.dirs.map (fun dir => .createDir dir.2) ++
        (Listing.pathsOf Listing.dirEntries visited).map (requestFor source place) ++
      (names.files.map (fun file => .transfer file.1 file.2) ++
        (Listing.pathsOf Listing.fileEntries visited).map (requestFor source place) ++
      (names.symlinks.map (fun link => .createSymlink link.2.1 link.2.2) ++
        (Listing.pathsOf Listing.symlinkEntries visited).map (requestFor source place))) := by
  induction visited generalizing names with
  | nil => simp [Names.requests, Listing.pathsOf]
  | cons v rest ih =>
    rw [List.foldl_cons, ih]
    simp [Names.visit, Listing.pathsOf, Listing.dirEntries, Listing.fileEntries,
      Listing.symlinkEntries, requestFor, Function.comp_def,
      relpath_append, List.append_assoc]

/-! ## The names of a tree -/

/-- The target prefix: the contents of the source go to a directory that exists if the source has a
trailing slash. -/
def placeOf (source : SourcePath) (target : Path) (targetExists : Bool) : Path :=
  if targetExists = true ∧ ¬ source.tail = "" then target ++ [source.tail] else target

/-- The source itself gets a directory. -/
def MakesRoot (source : SourcePath) (targetExists : Bool) : Prop :=
  targetExists = false ∨ ¬ source.tail = ""

instance (source : SourcePath) (targetExists : Bool) : Decidable (MakesRoot source targetExists) :=
  inferInstanceAs (Decidable (_ ∨ _))

/-- What the loops go through: the source itself if it gets a directory, and what is below. -/
def rooted (makesRoot : Bool) (listing : Listing) : List (Path × Entry) :=
  if makesRoot then ([], .dir) :: listing.paths else listing.paths

section

variable {source : SourcePath} {listing : Listing} {target : Path}
  {targetExists targetIsDir : Bool}

theorem buildDirsFilesLinks_directory (hdir : targetIsDir = true ∨ targetExists = false) :
    buildDirsFilesLinks source (.directory listing) target targetExists targetIsDir =
      (0, listing.visits.foldl (Names.visit source (placeOf source target targetExists))
        ⟨if MakesRoot source targetExists then
          [(source.join [], placeOf source target targetExists)] else [], [], []⟩) := by
  cases targetExists with
  | false => simp [buildDirsFilesLinks, Listing.visits, placeOf, MakesRoot]
  | true =>
    obtain rfl := hdir.resolve_right (by simp)
    simp [buildDirsFilesLinks, Listing.visits, placeOf, MakesRoot]

theorem requests_foldl (place : Path) (makesRoot : Bool) :
    (listing.visits.foldl (Names.visit source place)
        ⟨if makesRoot then [(source.join [], place)] else [], [], []⟩).requests =
      (rooted makesRoot listing).map (requestFor source place) := by
  rw [foldl_visit]
  cases makesRoot with
  | false => simp [rooted, Listing.paths]
  | true => simp [rooted, Listing.paths, requestFor, below]

theorem mem_rooted (hwf : listing.WellFormed) {makesRoot : Bool} {rel : Path} {entry : Entry} :
    (rel, entry) ∈ rooted makesRoot listing ↔
      listing.lookup rel = some entry ∧ (rel = [] → makesRoot = true) := by
  obtain rfl | ⟨dir, name, hconcat⟩ := List.eq_nil_or_concat rel
  · have hpaths : ([], entry) ∉ listing.paths := by
      intro hmem
      obtain ⟨v, -, name, -, hrel⟩ := Listing.mem_paths.mp hmem
      simp at hrel
    cases makesRoot with
    | false => simp [rooted, hpaths]
    | true => simp [rooted, hpaths, eq_comm]
  · rw [List.concat_eq_append] at hconcat
    subst hconcat
    have hpaths : (dir ++ [name], entry) ∈ listing.paths ↔
        listing.lookup (dir ++ [name]) = some entry :=
      ⟨Listing.lookup_of_mem_paths hwf, Listing.mem_paths_of_lookup hwf⟩
    cases makesRoot with
    | false => simp [rooted, hpaths]
    | true => simp [rooted, hpaths]

theorem parented_rooted (hwf : listing.WellFormed) (makesRoot : Bool) :
    Listing.Parented listing (fun dir => dir = [] ∧ makesRoot = false)
      (rooted makesRoot listing) := by
  cases makesRoot with
  | false => exact Listing.parented_paths hwf ⟨rfl, rfl⟩
  | true =>
    exact .cons (Listing.lookup_nil listing) (.inl rfl)
      (Listing.parented_paths hwf (.inr ⟨rfl, rfl⟩))

/-- A directory that is copied to a directory, or to a name that does not exist, gives requests for
the entries of its tree and for nothing else, in an order in which every directory comes before what
it holds; the name of an entry leads to its own path below the target prefix. -/
theorem requests_of_directory (hwf : listing.WellFormed)
    (hdir : targetIsDir = true ∨ targetExists = false) :
    ∃ (names : Names) (entries : List (Path × Entry)),
      buildDirsFilesLinks source (.directory listing) target targetExists targetIsDir =
        (0, names) ∧
      names.requests =
        entries.map (requestFor source (placeOf source target targetExists)) ∧
      (∀ rel entry, (rel, entry) ∈ entries ↔
        listing.lookup rel = some entry ∧ (rel = [] → MakesRoot source targetExists)) ∧
      (∀ before rel entry after, entries = before ++ (rel, entry) :: after →
        rel = [] ∨ rel.dropLast = [] ∧ ¬ MakesRoot source targetExists ∨
          (rel.dropLast, .dir) ∈ before) ∧
      ∀ rel entry, listing.lookup rel = some entry →
        resolve (placeOf source target targetExists ++ below rel) =
          resolve (placeOf source target targetExists) ++ rel := by
  refine ⟨_, rooted (decide (MakesRoot source targetExists)) listing,
    buildDirsFilesLinks_directory hdir, ?_, ?_, ?_, ?_⟩
  · rw [← requests_foldl]
    simp only [decide_eq_true_eq]
  · intro rel entry
    rw [mem_rooted hwf, decide_eq_true_eq]
  · intro before rel entry after hentries
    have hparent := (parented_rooted hwf _).parent_mem hentries
    rwa [decide_eq_false_iff_not] at hparent
  · intro rel entry hlookup
    exact resolve_below _ (Listing.dot_notMem_of_lookup hwf hlookup)

end

/-- A directory with a link in it, and a file beside it. -/
def tree : Listing :=
  .file "notes" (.dir "data" (.symlink "latest" "../notes" false .nil) .nil)

theorem requests_of_directory_tree :
    ∃ (names : Names) (entries : List (Path × Entry)),
      buildDirsFilesLinks ⟨["src"], "tree"⟩ (.directory tree) ["dst"] true true = (0, names) ∧
      names.requests = entries.map (requestFor ⟨["src"], "tree"⟩ ["dst", "tree"]) ∧
      (["data", "latest"], .symlink "../notes") ∈ entries := by
  have hwf : tree.WellFormed := by simp [tree, Listing.WellFormed, Listing.names]
  obtain ⟨names, entries, hbuild, hrequests, hentries, -⟩ :=
    @requests_of_directory ⟨["src"], "tree"⟩ tree ["dst"] true true hwf (.inl rfl)
  exact ⟨names, entries, hbuild, hrequests, (hentries _ _).mpr ⟨rfl, by simp⟩⟩

end Xdd.Naming
