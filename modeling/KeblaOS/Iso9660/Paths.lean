import KeblaOS.Iso9660.Directory

/-!
# The path walkers of ISO 9660

`iso9660_stat`, `iso9660_open` and `iso9660_opendir` walk the same tree by hand.
`iso9660_stat` stops at a file met before the last component, `iso9660_open` opens it, and
`iso9660_opendir` does not split the path at all: it looks for the whole path as one name
in the root directory. `destination` is where a path leads; the walkers are described by
it, and agree exactly on the paths of `AgreeablePath`.
-/

namespace KeblaOS.Iso9660

open KeblaOS.Fat32 (slash pathTokens u32)

/-- `path` behind one leading slash. -/
def skipSlash (path : List UInt8) : List UInt8 := if path.head? = some slash then path.tail else path

/-- The loop of `iso9660_stat`: what it returns and the record it leaves in `*fno`. -/
def statLoop (disk : IsoDisk) : List (List UInt8) → Nat → Nat → IsoFile → Option (Int × IsoFile)
  | [], _, _, fno => some (0, fno)
  | token :: rest, curSector, curSize, fno =>
      match iso9660FindFile disk curSector curSize token with
      | none => none
      | some none => some (-1, fno)
      | some (some file) =>
          if rest ≠ [] ∧ !file.isDir then some (-1, file)
          else statLoop disk rest file.sector file.size file

/-- `iso9660_stat`. -/
def iso9660Stat (disk : IsoDisk) (path : List UInt8) (fno : IsoFile) : Option (Int × IsoFile) :=
  let path := skipSlash path
  if path = [] then some (-1, fno)
  else statLoop disk (pathTokens path) disk.rootDirectorySector disk.rootDirectorySize fno

/-- The loop of `iso9660_open`. -/
def openLoop (disk : IsoDisk) : List (List UInt8) → Nat → Nat → Option (Option IsoFile)
  | [], _, _ => some none
  | token :: rest, curSector, curSize =>
      match iso9660FindFile disk curSector curSize token with
      | none => none
      | some none => some none
      | some (some file) =>
          if file.isDir then openLoop disk rest file.sector file.size
          else some (some { file with diskNo := disk.diskNo })

/-- `iso9660_open`. -/
def iso9660Open (disk : IsoDisk) (path : List UInt8) : Option (Option IsoFile) :=
  let path := skipSlash path
  if path = [] then some none
  else openLoop disk (pathTokens path) disk.rootDirectorySector disk.rootDirectorySize

/-- The end of `iso9660_opendir`: `malloc` of no bytes fails. -/
def openExtent (disk : IsoDisk) (sector size : Nat) : Option IsoDir :=
  if size = 0 then none else some (openedDir disk sector size)

/-- `iso9660_opendir`. -/
def iso9660Opendir (disk : IsoDisk) (path : List UInt8) : Option (Option IsoDir) :=
  if path ≠ [] ∧ path ≠ [slash] then
    match iso9660FindFile disk disk.rootDirectorySector disk.rootDirectorySize path with
    | none => none
    | some none => some none
    | some (some dirInfo) =>
        if dirInfo.isDir then some (openExtent disk dirInfo.sector dirInfo.size) else some none
  else some (openExtent disk disk.rootDirectorySector disk.rootDirectorySize)

/-! ## Images -/

/-- An image whose directories are the extents `dirs`: they contain the root and every
directory entered in one of them, and no name has a slash. -/
structure WellFormed (disk : IsoDisk) (dirs : Set (Nat × Nat)) : Prop where
  blockSize : disk.bytesPerSector = 2048
  root : (disk.rootDirectorySector, disk.rootDirectorySize) ∈ dirs
  stored : ∀ dir ∈ dirs, ∃ extent, extent ≠ [] ∧ Stored disk dir.1 dir.2 extent ∧
    ∀ entry ∈ extentEntries extent, slash ∉ entry.name ∧
      (entry.isDir = true → (entry.sector, entry.size) ∈ dirs)

/-- The entry with a name in a directory extent. -/
def lookup (disk : IsoDisk) (dir : Nat × Nat) (name : List UInt8) : Option IsoFile :=
  (iso9660FindFile disk dir.1 dir.2 name).getD none

/-- Where the components of a path lead. -/
inductive Destination where
  | nowhere
  | throughFile (file : IsoFile)
  | reached (file : IsoFile)

/-- The file `iso9660_open` opens on the way to a destination: the first one it meets. -/
def Destination.opened : Destination → Option IsoFile
  | .nowhere => none
  | .throughFile file => some file
  | .reached file => if file.isDir then none else some file

/-- The destination of a path from a directory: nothing has its name, a component before the
last one is a file, or the last component has been reached. -/
def destination (disk : IsoDisk) : Nat × Nat → List (List UInt8) → Destination
  | _, [] => .nowhere
  | dir, token :: rest =>
      match lookup disk dir token with
      | none => .nowhere
      | some file =>
          if rest = [] then .reached file
          else if file.isDir then destination disk (file.sector, file.size) rest
          else .throughFile file

/-- The three walkers return, and agree on whether the path designates a file or a directory,
and on its extent. -/
def WalkersAgree (disk : IsoDisk) (path : List UInt8) (fno : IsoFile) : Prop :=
  ∃ opened stat dir, iso9660Open disk path = some opened ∧ iso9660Stat disk path fno = some stat ∧
    iso9660Opendir disk path = some dir ∧
    (opened.isSome ↔ stat.1 = 0 ∧ stat.2.isDir = false) ∧
    (dir.isSome ↔ stat.1 = 0 ∧ stat.2.isDir = true) ∧
    (∀ file ∈ opened, file.sector = stat.2.sector ∧ file.size = stat.2.size) ∧
    ∀ iterator ∈ dir, iterator = openedDir disk stat.2.sector stat.2.size

/-- The paths the walkers agree on: a single name, or a path with slashes that has a
component, meets no file before its last component, and does not designate a directory. -/
def AgreeablePath (disk : IsoDisk) (path : List UInt8) : Prop :=
  slash ∉ path ∨
    pathTokens path ≠ [] ∧
      match destination disk (disk.rootDirectorySector, disk.rootDirectorySize) (pathTokens path) with
      | .nowhere => True
      | .throughFile _ => False
      | .reached file => file.isDir = false

section Walkers

variable {disk : IsoDisk} {dirs : Set (Nat × Nat)} {dir : Nat × Nat} {path name : List UInt8}

/-- On a well-formed image every search in a directory returns, and finds only entries with
the name; a directory found is a directory of the image. -/
theorem WellFormed.find (image : WellFormed disk dirs) (member : dir ∈ dirs) (name : List UInt8) :
    iso9660FindFile disk dir.1 dir.2 name = some (lookup disk dir name) ∧
      ∀ file ∈ lookup disk dir name, file.name = name ∧ slash ∉ file.name ∧ file.diskNo = disk.diskNo ∧
        (file.isDir = true → (file.sector, file.size) ∈ dirs) := by
  obtain ⟨extent, _, stored, entries⟩ := image.stored dir member
  have found := stored.findFile_eq image.blockSize name
  have same : iso9660FindFile disk dir.1 dir.2 name = some (lookup disk dir name) := by
    rw [lookup, found, Option.getD_some]
  refine ⟨same, fun file there => ?_⟩
  rw [lookup, found, Option.getD_some] at there
  obtain ⟨entry, first, rfl⟩ := Option.map_eq_some_iff.mp there
  obtain ⟨clean, inside⟩ := entries entry (List.mem_of_find?_eq_some first)
  have matched := List.find?_some first
  exact ⟨of_decide_eq_true matched, clean, rfl, inside⟩

/-- A directory of a well-formed image has an iterator. -/
theorem WellFormed.openExtent_eq (image : WellFormed disk dirs) (member : dir ∈ dirs) :
    openExtent disk dir.1 dir.2 = some (openedDir disk dir.1 dir.2) := by
  obtain ⟨extent, nonempty, stored, _⟩ := image.stored dir member
  have size := stored.size
  have some := List.length_pos_iff.mpr nonempty
  rw [openExtent, if_neg (by omega)]

/-- `iso9660_stat` reports what the path reaches, and fails if it does not reach anything. -/
theorem statLoop_eq (image : WellFormed disk dirs) {tokens : List (List UInt8)} (fno : IsoFile)
    (member : dir ∈ dirs) (some : tokens ≠ []) :
    ∃ stat, statLoop disk tokens dir.1 dir.2 fno = Option.some stat ∧
      match destination disk dir tokens with
      | .reached file => stat = (0, file)
      | _ => stat.1 = -1 := by
  induction tokens generalizing dir fno with
  | nil => exact absurd rfl some
  | cons token rest ih =>
      obtain ⟨returned, entries⟩ := image.find member token
      rw [statLoop, returned, destination]
      cases found : lookup disk dir token with
      | none => exact ⟨_, rfl, rfl⟩
      | some file =>
          dsimp only
          by_cases last : rest = []
          · subst last
            rw [if_neg (by simp), if_pos rfl]
            exact ⟨_, rfl, rfl⟩
          · rw [if_neg last]
            by_cases isDir : file.isDir = true
            · rw [if_neg (by simp [isDir]), if_pos isDir]
              exact ih file ((entries file found).2.2.2 isDir) last
            · rw [if_pos ⟨last, by simpa using isDir⟩, if_neg isDir]
              exact ⟨_, rfl, rfl⟩

/-- `iso9660_open` opens the first file on the way. -/
theorem openLoop_eq (image : WellFormed disk dirs) {tokens : List (List UInt8)} (member : dir ∈ dirs) :
    openLoop disk tokens dir.1 dir.2 = some (destination disk dir tokens).opened := by
  induction tokens generalizing dir with
  | nil => rfl
  | cons token rest ih =>
      obtain ⟨returned, entries⟩ := image.find member token
      rw [openLoop, returned, destination]
      cases found : lookup disk dir token with
      | none => rfl
      | some file =>
          obtain ⟨_, _, number, inside⟩ := entries file found
          have same : { file with diskNo := disk.diskNo } = file := by rw [← number]
          dsimp only
          rw [same]
          by_cases isDir : file.isDir = true
          · rw [if_pos isDir, if_pos isDir, ih (inside isDir)]
            by_cases last : rest = []
            · subst last
              rw [if_pos rfl, Destination.opened, if_pos isDir]
              rfl
            · rw [if_neg last]
          · rw [if_neg isDir, if_neg isDir]
            by_cases last : rest = []
            · rw [if_pos last, Destination.opened, if_neg isDir]
            · rw [if_neg last, Destination.opened]

/-! ## Paths -/

/-- A leading slash does not change the components. -/
theorem pathTokens_skipSlash (path : List UInt8) : pathTokens (skipSlash path) = pathTokens path := by
  unfold skipSlash
  split_ifs with leading
  · cases path with
    | nil => rfl
    | cons first rest =>
        obtain rfl : first = slash := by simpa using leading
        have split : (slash :: rest).splitOn slash = [] :: rest.splitOn slash :=
          List.splitOn_append_cons_self [] rest
        rw [pathTokens, pathTokens, split, List.filter_cons_of_neg (by simp), List.tail_cons]
  · rfl

/-- A path without a slash is its only component. -/
theorem pathTokens_single (nonempty : path ≠ []) (clean : slash ∉ path) : pathTokens path = [path] := by
  rw [pathTokens, List.splitOn_eq_singleton clean, List.filter_cons_of_pos (by simpa using nonempty),
    List.filter_nil]

theorem skipSlash_eq_nil_iff (nonempty : path ≠ []) : skipSlash path = [] ↔ path = [slash] := by
  cases path with
  | nil => exact absurd rfl nonempty
  | cons first rest =>
      by_cases leading : first = slash
      · simp [skipSlash, leading]
      · simp [skipSlash, leading]

theorem iso9660Open_eq (image : WellFormed disk dirs) (more : skipSlash path ≠ []) :
    iso9660Open disk path = some (destination disk
      (disk.rootDirectorySector, disk.rootDirectorySize) (pathTokens path)).opened := by
  rw [iso9660Open, if_neg more, pathTokens_skipSlash]
  exact openLoop_eq image image.root

theorem iso9660Stat_eq (image : WellFormed disk dirs) (more : skipSlash path ≠ []) (fno : IsoFile)
    (some : pathTokens path ≠ []) :
    ∃ stat, iso9660Stat disk path fno = Option.some stat ∧
      match destination disk (disk.rootDirectorySector, disk.rootDirectorySize) (pathTokens path) with
      | .reached file => stat = (0, file)
      | _ => stat.1 = -1 := by
  rw [iso9660Stat, if_neg more, pathTokens_skipSlash]
  exact statLoop_eq image fno image.root some

/-- What the walkers return once the path is known to have a destination. -/
theorem walkersAgree_iff_of {opened : Option IsoFile} {stat : Int × IsoFile} {iterator : Option IsoDir}
    {fno : IsoFile} (opens : iso9660Open disk path = some opened) (stats : iso9660Stat disk path fno = some stat)
    (opensDir : iso9660Opendir disk path = some iterator) :
    WalkersAgree disk path fno ↔
      (opened.isSome ↔ stat.1 = 0 ∧ stat.2.isDir = false) ∧
      (iterator.isSome ↔ stat.1 = 0 ∧ stat.2.isDir = true) ∧
      (∀ file ∈ opened, file.sector = stat.2.sector ∧ file.size = stat.2.size) ∧
      ∀ found ∈ iterator, found = openedDir disk stat.2.sector stat.2.size := by
  constructor
  · rintro ⟨opened', stat', iterator', opens', stats', opensDir', agree⟩
    obtain rfl := Option.some.inj (opens.symm.trans opens')
    obtain rfl := Option.some.inj (stats.symm.trans stats')
    obtain rfl := Option.some.inj (opensDir.symm.trans opensDir')
    exact agree
  · exact fun agree => ⟨_, _, _, opens, stats, opensDir, agree⟩

/-- The root directory is opened by the name `iso9660_stat` refuses. -/
theorem not_walkersAgree_root (image : WellFormed disk dirs) (fno : IsoFile) :
    ¬ WalkersAgree disk [slash] fno := by
  have opensDir : iso9660Opendir disk [slash] =
      some (some (openedDir disk disk.rootDirectorySector disk.rootDirectorySize)) := by
    rw [iso9660Opendir, if_neg (by simp), ← image.openExtent_eq image.root]
  have stats : iso9660Stat disk [slash] fno = some (-1, fno) := rfl
  rw [walkersAgree_iff_of rfl stats opensDir]
  simp

/-- `iso9660_opendir` looks for the whole path in the root directory. -/
theorem iso9660Opendir_eq (image : WellFormed disk dirs) (nonempty : path ≠ []) (notSlash : path ≠ [slash]) :
    iso9660Opendir disk path =
      some (match lookup disk (disk.rootDirectorySector, disk.rootDirectorySize) path with
        | none => none
        | some file => if file.isDir then some (openedDir disk file.sector file.size) else none) := by
  obtain ⟨returned, entries⟩ := image.find image.root path
  rw [iso9660Opendir, if_pos ⟨nonempty, notSlash⟩, returned]
  cases found : lookup disk (disk.rootDirectorySector, disk.rootDirectorySize) path with
  | none => rfl
  | some file =>
      dsimp only
      split_ifs with isDir
      · rw [image.openExtent_eq ((entries file found).2.2.2 isDir)]
      · rfl

/-- On a path that is one name, all three look for that name in the root directory. -/
theorem walkersAgree_single (image : WellFormed disk dirs) (nonempty : path ≠ []) (clean : slash ∉ path)
    (fno : IsoFile) : WalkersAgree disk path fno := by
  have tokens := pathTokens_single nonempty clean
  have notSlash : path ≠ [slash] := by
    rintro rfl
    exact clean (List.mem_singleton_self slash)
  have more : skipSlash path ≠ [] := mt (skipSlash_eq_nil_iff nonempty).mp notSlash
  have opens := iso9660Open_eq image more
  obtain ⟨stat, stats, outcome⟩ := iso9660Stat_eq image more fno (by rw [tokens]; exact List.cons_ne_nil _ _)
  rw [walkersAgree_iff_of opens stats (iso9660Opendir_eq image nonempty notSlash)]
  rw [tokens, destination] at outcome ⊢
  cases found : lookup disk (disk.rootDirectorySector, disk.rootDirectorySize) path with
  | none =>
      rw [found] at outcome
      simp [show stat.1 = -1 from outcome, Destination.opened]
  | some file =>
      rw [found] at outcome
      dsimp only at outcome
      rw [if_pos rfl] at outcome
      obtain rfl : stat = (0, file) := outcome
      cases isDir : file.isDir <;> simp [isDir, Destination.opened]

/-- On a path with a slash `iso9660_opendir` finds nothing. -/
theorem opendir_slashed (image : WellFormed disk dirs) (slashed : slash ∈ path) (notSlash : path ≠ [slash]) :
    iso9660Opendir disk path = some none := by
  obtain ⟨_, entries⟩ := image.find image.root path
  rw [iso9660Opendir_eq image (List.ne_nil_of_mem slashed) notSlash]
  cases found : lookup disk (disk.rootDirectorySector, disk.rootDirectorySize) path with
  | none => rfl
  | some file =>
      obtain ⟨same, clean, _⟩ := entries file found
      rw [same] at clean
      exact absurd slashed clean

/-- The walkers agree exactly on the agreeable paths. -/
theorem walkersAgree_iff (disk : IsoDisk) (dirs : Set (Nat × Nat)) (path : List UInt8) (fno : IsoFile)
    (image : WellFormed disk dirs) (nonempty : path ≠ []) :
    WalkersAgree disk path fno ↔ AgreeablePath disk path := by
  by_cases slashed : slash ∈ path
  swap
  · exact iff_of_true (walkersAgree_single image nonempty slashed fno) (.inl slashed)
  by_cases root : path = [slash]
  · subst root
    refine iff_of_false (not_walkersAgree_root image fno) ?_
    rintro (clean | ⟨some, _⟩)
    · exact clean slashed
    · exact some (by decide)
  have more : skipSlash path ≠ [] := mt (skipSlash_eq_nil_iff nonempty).mp root
  have opensDir := opendir_slashed image slashed root
  have opens := iso9660Open_eq image more
  by_cases empty : pathTokens path = []
  · -- Slashes only: `iso9660_stat` succeeds and leaves the record as it was.
    have stats : iso9660Stat disk path fno = some (0, fno) := by
      rw [iso9660Stat, if_neg more, pathTokens_skipSlash, empty]
      rfl
    rw [walkersAgree_iff_of opens stats opensDir, AgreeablePath, empty]
    cases isDir : fno.isDir <;> simp [slashed, destination, Destination.opened]
  · obtain ⟨stat, stats, outcome⟩ := iso9660Stat_eq image more fno empty
    rw [walkersAgree_iff_of opens stats opensDir, AgreeablePath]
    generalize destination disk (disk.rootDirectorySector, disk.rootDirectorySize) (pathTokens path) = goal
      at outcome ⊢
    cases goal with
    | nowhere => simp [show stat.1 = -1 from outcome, empty, Destination.opened]
    | throughFile file => simp [show stat.1 = -1 from outcome, slashed, Destination.opened]
    | reached file =>
        obtain rfl : stat = (0, file) := outcome
        cases isDir : file.isDir <;> simp [isDir, empty, slashed, Destination.opened]

end Walkers

/-! ## The small disk -/

theorem smallDisk_wellFormed : WellFormed smallDisk {(20, 2048), (21, 2048)} where
  blockSize := rfl
  root := .inl rfl
  stored dir member := by
    have rootEntries : extentEntries [smallRoot] = [⟨[0x41], 22, 5, false⟩, ⟨[0x44], 21, 2048, true⟩] := by
      decide +kernel
    have subEntries : extentEntries [smallSub] = [] := by decide +kernel
    rcases member with rfl | rfl
    · refine ⟨[smallRoot], List.cons_ne_nil _ _, smallDisk_root, ?_⟩
      rw [rootEntries]
      simp [slash]
    · refine ⟨[smallSub], List.cons_ne_nil _ _, smallDisk_sub, ?_⟩
      rw [subEntries]
      simp

/-- The walkers agree on `/A`, a file of the root directory. -/
theorem walkersAgree_iff_file :
    AgreeablePath smallDisk [slash, 0x41] ∧
      WalkersAgree smallDisk [slash, 0x41] ⟨⟨[], 0, 0, false⟩, 0⟩ := by
  have reached : destination smallDisk (20, 2048) (pathTokens [slash, 0x41]) =
      .reached ⟨⟨[0x41], 22, 5, false⟩, 0⟩ := by
    have found : lookup smallDisk (20, 2048) [0x41] = some ⟨⟨[0x41], 22, 5, false⟩, 0⟩ := by decide +kernel
    have tokens : pathTokens [slash, 0x41] = [[0x41]] := by decide
    rw [tokens, destination, found]
    rfl
  have agreeable : AgreeablePath smallDisk [slash, 0x41] := by
    refine .inr ⟨by decide, ?_⟩
    show match destination smallDisk (20, 2048) (pathTokens [slash, 0x41]) with
      | .nowhere => True
      | .throughFile _ => False
      | .reached file => file.isDir = false
    rw [reached]
  exact ⟨agreeable, (walkersAgree_iff smallDisk {(20, 2048), (21, 2048)} [slash, 0x41] ⟨⟨[], 0, 0, false⟩, 0⟩
    smallDisk_wellFormed (List.cons_ne_nil _ _)).mpr agreeable⟩

/-- On `/D`, a directory of the root directory, `iso9660_stat` reports the directory and
`iso9660_opendir` fails; on `/A/X`, below a file, `iso9660_stat` fails and `iso9660_open` opens
the file. -/
theorem walkers_disagree_small :
    WellFormed smallDisk {(20, 2048), (21, 2048)} ∧
      (let path := [slash, 0x44]
       iso9660Stat smallDisk path ⟨⟨[], 0, 0, false⟩, 0⟩ = some (0, ⟨⟨[0x44], 21, 2048, true⟩, 0⟩) ∧
        iso9660Opendir smallDisk path = some none) ∧
      let path := [slash, 0x41, slash, 0x58]
      (iso9660Stat smallDisk path ⟨⟨[], 0, 0, false⟩, 0⟩).map Prod.fst = some (-1) ∧
        iso9660Open smallDisk path = some (some ⟨⟨[0x41], 22, 5, false⟩, 0⟩) := by
  refine ⟨smallDisk_wellFormed, ⟨?_, ?_⟩, ?_, ?_⟩ <;> decide +kernel

end KeblaOS.Iso9660
