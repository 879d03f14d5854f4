import KeblaOS.Fat32.DirEntry
import KeblaOS.Fat32.File

/-!
# Directories

The directory functions of `cluster_manager.c` and the calls of `dir_manager.c` and
`file_manager.c` that work on directories. All lookups follow a directory's clusters in
the same way and differ in what they do with the slots of one cluster, so `scanChain` is
the common loop and each lookup is a visitor.

Results are `Option`al twice: the outer `none` is a call that does not come back in order
(an endless chain, or a write behind the end of a fixed buffer), the inner one is `false`.
-/

namespace KeblaOS.Fat32

open KeblaOS.Buffer

/-- What a visitor says about the slots of one cluster. -/
inductive Scan (State Result : Type) where
  /-- the search is over -/
  | found (result : Result)
  /-- the directory ends here -/
  | stop
  /-- go on with the next cluster -/
  | next (state : State)
  /-- a write outside a buffer -/
  | fault

section Scan

variable {State Result : Type} (visit : State → Nat → List Slot → Scan State Result)

/-- The loop over the clusters of a directory. -/
def scanChain (vol : Volume) : Nat → State → Nat → Option (Option Result)
  | 0, _, _ => none
  | fuel + 1, state, curr =>
      if isValidCluster curr then
        match visit state curr (slotsOf (fat32ReadCluster vol curr)) with
        | .found result => some (some result)
        | .stop => some none
        | .fault => none
        | .next state =>
            let next := fat32GetNextCluster vol curr
            if isEndOfClusterChain next then some none else scanChain vol fuel state next
      else some none

end Scan

/-! ## Lookups -/

/-- The slot loop of `fat32_find_dir`. -/
def findDirVisit (name83 : List UInt8) (state : Unit) (curr : Nat) : List Slot → Scan Unit Nat
  | [] => .next state
  | slot :: rest =>
      if slot.firstByte = 0 then .stop
      else if slot.firstByte = deletedMark then findDirVisit name83 state curr rest
      else if slot.attr &&& attrDirectory ≠ 0 ∧ slot.name = name83 then .found slot.firstCluster
      else findDirVisit name83 state curr rest

/-- `fat32_find_dir`. -/
def fat32FindDir (vol : Volume) (dirCluster : Nat) (name : List UInt8) : Option (Option Nat) :=
  if dirCluster < getRootDirCluster vol.bpb ∨ u32 (getTotalClusters vol.bpb + 2) < dirCluster then
    some none
  else scanChain (findDirVisit (fat32Format83Name name)) vol (chainFuel + 1) () dirCluster

/-- `LONG_FILENAME_SIZE`. -/
def longFilenameSize : Nat := 256

/-- A cleared `long_name` buffer. -/
def emptyLongName : List UInt8 := List.replicate longFilenameSize 0

/-- The C string in a buffer. -/
def cString (buffer : List UInt8) : List UInt8 := buffer.takeWhile (· ≠ 0)

theorem cString_append_zero {front rest : List UInt8} (string : 0 ∉ front) : cString (front ++ 0 :: rest) = front := by
  rw [cString, List.takeWhile_append_of_pos (fun c member => ?_), List.takeWhile_cons_of_neg (by simp), List.append_nil]
  rw [decide_eq_true_eq]
  rintro rfl
  exact string member

theorem cString_eq_self {chars : List UInt8} (string : 0 ∉ chars) : cString chars = chars := by
  rw [cString, List.takeWhile_eq_self_iff]
  intro c member
  apply decide_eq_true
  rintro rfl
  exact string member

/-- Characters stored in `long_name` at the place of slot number `order`, counted from 1;
`none` when one of them would be stored outside. -/
def storeChars (longName : List UInt8) (order : Nat) (chars : List UInt8) : Option (List UInt8) :=
  if chars = [] then some longName
  else if 0 < order ∧ (order - 1) * 13 + chars.length ≤ longFilenameSize then
    some (overwrite longName ((order - 1) * 13) chars)
  else none

/-- The characters of a long-name slot that `fat32_dir_exists` stores. -/
def keptChars (slot : Slot) : List UInt8 :=
  (slot.units.filter fun unit => unit ≠ 0xFFFF ∧ unit ≠ 0).map UInt8.ofNat

/-- The slot loop of `fat32_dir_exists`: units `0x0000` and `0xFFFF` are left out, and the
long name is forgotten at a deleted slot. -/
def dirExistsVisit (name shortName : List UInt8) (longName : List UInt8) (curr : Nat) :
    List Slot → Scan (List UInt8) Unit
  | [] => .next longName
  | slot :: rest =>
      if slot.firstByte = 0 then .stop
      else if slot.firstByte = deletedMark then
        dirExistsVisit name shortName emptyLongName curr rest
      else if slot.attr = attrLongName then
        match storeChars longName slot.order (keptChars slot) with
        | none => .fault
        | some longName => dirExistsVisit name shortName longName curr rest
      else if slot.attr &&& attrDirectory ≠ 0 ∧
          (cString longName ≠ [] ∧ cString longName = name ∨ slot.name = shortName) then .found ()
      else dirExistsVisit name shortName emptyLongName curr rest

/-- `fat32_dir_exists`. -/
def fat32DirExists (vol : Volume) (dirCluster : Nat) (name : List UInt8) : Option Bool :=
  (scanChain (dirExistsVisit name (fat32Format83Name name)) vol (chainFuel + 1) emptyLongName
    dirCluster).map Option.isSome

/-- An entry that was found, with its place. -/
structure FoundEntry where
  entry : Slot
  entryCluster : Nat
  entryOffset : Nat
deriving DecidableEq

/-- The slot loop of `fat32_find_file` from slot number `index` on. A `0x00` slot leaves
the cluster but not the directory, and a deleted slot keeps the long name. -/
def findFileVisit (name shortName : List UInt8) (longName : List UInt8) (curr : Nat) :
    Nat → List Slot → Scan (List UInt8) FoundEntry
  | _, [] => .next longName
  | index, slot :: rest =>
      if slot.firstByte = 0 then .next longName
      else if slot.firstByte = deletedMark then findFileVisit name shortName longName curr (index + 1) rest
      else if slot.attr = attrLongName then
        match storeChars longName slot.order (slot.units.map UInt8.ofNat) with
        | none => .fault
        | some longName => findFileVisit name shortName longName curr (index + 1) rest
      else if cString longName = name ∨ slot.name = shortName then .found ⟨slot, curr, 32 * index⟩
      else findFileVisit name shortName emptyLongName curr (index + 1) rest

/-- `fat32_find_file`. -/
def fat32FindFile (vol : Volume) (dirCluster : Nat) (name : List UInt8) : Option (Option FoundEntry) :=
  scanChain (fun longName curr slots =>
      findFileVisit name (fat32Format83Name name) longName curr 0 slots)
    vol (chainFuel + 1) emptyLongName dirCluster

/-! ## Paths -/

/-- One round of the loop of `fat32_path_to_cluster`. -/
def pathStep (vol : Volume) (cluster : Nat) (token : List UInt8) : Option (Option Nat) :=
  if token = [dot] then some (some cluster)
  else if token = [dot, dot] then fat32FindDir vol cluster [dot, dot]
  else fat32FindDir vol cluster token

/-- The loop of `fat32_path_to_cluster`. -/
def pathLoop (vol : Volume) : Nat → List (List UInt8) → Option (Option Nat)
  | cluster, [] => some (some cluster)
  | cluster, token :: rest =>
      match pathStep vol cluster token with
      | none => none
      | some none => some none
      | some (some next) => pathLoop vol next rest

/-- Where the resolution of a path starts. -/
def pathStart (vol : Volume) (path : List UInt8) : Nat :=
  if path.head? = some slash then getRootDirCluster vol.bpb else vol.cwdCluster

/-- `fat32_path_to_cluster`. -/
def fat32PathToCluster (vol : Volume) (path : List UInt8) : Option (Option Nat) :=
  pathLoop vol (pathStart vol path) (pathTokens path)

/-- The cluster of the directory a path leads into; `f_open`, `f_mkdir`, `f_stat` and
`f_unlink` have the code of `fat32_split_path` inline. -/
def parentCluster (vol : Volume) (path : List UInt8) : Option (Option Nat) :=
  if directoryPart path = [] then some (some vol.cwdCluster)
  else if directoryPart path = [slash] then some (some (getRootDirCluster vol.bpb))
  else fat32PathToCluster vol (directoryPart path).dropLast

/-- The room of the path buffers on the stack, with the final zero. -/
def pathBufferSize : Nat := 256

/-- `fat32_split_path`. -/
def fat32SplitPath (vol : Volume) (path : List UInt8) : Option (Option (Nat × List UInt8)) :=
  if path.length < pathBufferSize then
    (parentCluster vol path).map (·.map fun parent => (parent, lastComponent path))
  else none

/-! ## Creating entries -/

/-- The slot loop of `fat32_find_contiguous_free_entries`: the number of the first slot of
the first run of `needed` free slots. `freeCount` counts the free slots just before. -/
def freeRun (needed : Nat) : Nat → Nat → List Slot → Option Nat
  | _, _, [] => none
  | freeCount, index, slot :: rest =>
      if slot.firstByte = 0 ∨ slot.firstByte = deletedMark then
        if freeCount + 1 = needed then some (index - (needed - 1))
        else freeRun needed (freeCount + 1) (index + 1) rest
      else freeRun needed 0 (index + 1) rest

/-- What `fat32_find_contiguous_free_entries` does with one cluster: the cluster and the
offset of a run. -/
def freeRunVisit (needed : Nat) (state : Unit) (curr : Nat) (slots : List Slot) : Scan Unit (Nat × Nat) :=
  match freeRun needed 0 0 slots with
  | some index => .found (curr, 32 * index)
  | none => .next state

/-- `fat32_find_contiguous_free_entries`: a run of free slots, in a new cluster if the
directory has none. -/
def fat32FindContiguousFreeEntries (vol : Volume) (dirCluster needed : Nat) :
    Option (Option (Nat × Nat) × Volume) :=
  match scanChain (freeRunVisit needed) vol (chainFuel + 1) () dirCluster with
  | none => none
  | some (some place) => some (some place, vol)
  | some none =>
      match fat32AppendCluster vol dirCluster with
      | none => none
      | some (none, vol) => some (none, vol)
      | some (some newCluster, vol) => some (some (newCluster, 0), fat32ClearCluster vol newCluster)

/-- `fat32_create_dir_entry`; a run longer than the cluster is written behind the end of
the cluster buffer. -/
def fat32CreateDirEntry (vol : Volume) (parentCluster : Nat) (name : List UInt8) (attr : UInt8)
    (firstCluster fileSize : Nat) : Option (Bool × Volume) :=
  let slots := entrySlots name attr firstCluster fileSize
  match fat32FindContiguousFreeEntries vol parentCluster slots.length with
  | none => none
  | some (none, vol) => some (false, vol)
  | some (some (entryCluster, entryOffset), vol) =>
      if entryOffset + 32 * slots.length ≤ getClusterSizeBytes vol.bpb then
        some (true, fat32WriteCluster vol entryCluster
          (overwrite (fat32ReadCluster vol entryCluster) entryOffset slots.flatten))
      else none

/-- The 11 bytes of a dot entry: one or two dots, then blanks. -/
def dotName (dots : Nat) : List UInt8 := List.replicate dots dot ++ List.replicate (11 - dots) space

/-- The cluster image `fat32_init_directory` writes. -/
def initialDirectory (bpb : Bpb) (dirCluster parentCluster : Nat) : List UInt8 :=
  let slots := [shortSlot (dotName 1) attrDirectory dirCluster 0,
    shortSlot (dotName 2) attrDirectory parentCluster 0]
  overwrite (List.replicate (getClusterSizeBytes bpb) 0) 0 slots.flatten

/-- `fat32_init_directory`. -/
def fat32InitDirectory (vol : Volume) (dirCluster parentCluster : Nat) : Volume :=
  fat32WriteCluster vol dirCluster (initialDirectory vol.bpb dirCluster parentCluster)

/-- `fat32_mkdir_internal`. -/
def fat32MkdirInternal (vol : Volume) (parentCluster : Nat) (name : List UInt8) : Option (Bool × Volume) :=
  match fat32AllocateCluster vol with
  | (none, vol) => some (false, vol)
  | (some newCluster, vol) =>
      let vol := fat32ClearCluster vol newCluster
      let vol := fat32InitDirectory vol newCluster parentCluster
      fat32CreateDirEntry vol parentCluster name attrDirectory newCluster 0

/-- The mark of deletion that `f_unlink` and `f_rename` write into a slot. -/
def markDeleted (vol : Volume) (found : FoundEntry) : Volume :=
  fat32WriteCluster vol found.entryCluster
    (overwrite (fat32ReadCluster vol found.entryCluster) found.entryOffset [deletedMark])

/-! ## Calls -/

/-- `f_mkdir`. -/
def fMkdir (vol : Volume) (path : List UInt8) : Option (Bool × Volume) :=
  if pathBufferSize ≤ path.length then none
  else
    match parentCluster vol path with
    | none => none
    | some none => some (false, vol)
    | some (some parent) =>
        let dirname := lastComponent path
        if dirname = [] then some (false, vol)
        else
          match fat32DirExists vol parent dirname with
          | none => none
          | some true => some (false, vol)
          | some false => fat32MkdirInternal vol parent dirname

/-- `f_rename`. -/
def fRename (vol : Volume) (oldpath newpath : List UInt8) : Option (Bool × Volume) :=
  match fat32SplitPath vol oldpath with
  | none => none
  | some none => some (false, vol)
  | some (some (oldParent, oldname)) =>
      match fat32FindFile vol oldParent oldname with
      | none => none
      | some none => some (false, vol)
      | some (some found) =>
          match fat32SplitPath vol newpath with
          | none => none
          | some none => some (false, vol)
          | some (some (newParent, newname)) =>
              match fat32DirExists vol newParent newname with
              | none => none
              | some true => some (false, vol)
              | some false =>
                  match fat32CreateDirEntry vol newParent newname found.entry.attr
                      found.entry.firstCluster found.entry.fileSize with
                  | none => none
                  | some (false, vol) => some (false, vol)
                  | some (true, vol) => some (true, markDeleted vol found)

/-- `f_unlink`; when the directory part does not resolve, it frees a buffer on the stack. -/
def fUnlink (vol : Volume) (path : List UInt8) : Option (Bool × Volume) :=
  if pathBufferSize ≤ path.length then none
  else
    match parentCluster vol path with
    | none => none
    | some none => none
    | some (some parent) =>
        match fat32FindFile vol parent (lastComponent path) with
        | none => none
        | some none => some (false, vol)
        | some (some found) =>
            if found.entry.firstCluster = 0 then some (true, markDeleted vol found)
            else
              -- The result of freeing the chain is ignored.
              (fat32FreeClusterChain vol found.entry.firstCluster).map fun (_, vol) =>
                (true, markDeleted vol found)

/-- `FAT32_STAT`. -/
structure Fat32Stat where
  name : List UInt8
  attr : UInt8
  size : Nat
  firstCluster : Nat
deriving DecidableEq

/-- `f_stat`; the same buffer on the stack as in `f_unlink`. -/
def fStat (vol : Volume) (path : List UInt8) : Option (Option Fat32Stat) :=
  if pathBufferSize ≤ path.length then none
  else
    match parentCluster vol path with
    | none => none
    | some none => none
    | some (some parent) =>
        (fat32FindFile vol parent (lastComponent path)).map (·.map fun found =>
          ⟨lastComponent path, found.entry.attr, found.entry.fileSize, found.entry.firstCluster⟩)

/-- `FA_CREATE`. -/
def faCreate : Nat := 0x04

/-- `FA_CREATE_ALWAYS`. -/
def faCreateAlways : Nat := 0x08

/-- The handle `f_open` fills. -/
def openedFile (parent : Nat) (filename : List UInt8) (mode : Nat) (found : FoundEntry) : Fat32File where
  firstCluster := found.entry.firstCluster
  currentCluster := found.entry.firstCluster
  size := found.entry.fileSize
  pos := 0
  parentCluster := parent
  dirEntryCluster := found.entryCluster
  dirEntryOffset := found.entryOffset
  name := filename.take 255
  mode := mode % 256

/-- `f_open`: the handle, if it succeeds, and the volume. -/
def fOpen (vol : Volume) (path : List UInt8) (mode : Nat) : Option (Option Fat32File × Volume) :=
  match parentCluster vol path with
  | none => none
  | some none => some (none, vol)
  | some (some parent) =>
      let filename := lastComponent path
      match fat32FindFile vol parent filename with
      | none => none
      | some (some found) => some (some (openedFile parent filename mode found), vol)
      | some none =>
          if mode &&& (faCreate ||| faCreateAlways) = 0 then some (none, vol)
          else
            match fat32CreateDirEntry vol parent filename attrArchive 0 0 with
            | none => none
            | some (false, vol) => some (none, vol)
            | some (true, vol) =>
                (fat32FindFile vol parent filename).map fun result =>
                  (result.map (openedFile parent filename mode), vol)

/-! ## The current directory -/

/-- `f_chdir`. -/
def fChdir (vol : Volume) (path : List UInt8) : Option (Bool × Volume) :=
  (fat32PathToCluster vol path).map fun
    | none => (false, vol)
    | some cluster => if cluster = 0 then (false, vol) else (true, { vol with cwdCluster := cluster })

/-- The loop of `f_cwd`; a `..` that is not found is skipped. -/
def cwdLoop (vol : Volume) : Nat → List (List UInt8) → Option (Option Nat)
  | current, [] => some (some current)
  | current, token :: rest =>
      if token = [dot] then cwdLoop vol current rest
      else if token = [dot, dot] then
        match fat32FindDir vol current [dot, dot] with
        | none => none
        | some none => cwdLoop vol current rest
        | some (some parent) => cwdLoop vol parent rest
      else
        match fat32FindDir vol current token with
        | none => none
        | some none => some none
        | some (some next) => cwdLoop vol next rest

/-- `f_cwd`. -/
def fCwd (vol : Volume) (path : List UInt8) : Option (Bool × Volume) :=
  if path = [] then some (false, vol)
  else if path = [slash] then some (true, { vol with cwdCluster := getRootDirCluster vol.bpb })
  else if pathBufferSize ≤ path.length then none
  else
    (cwdLoop vol (pathStart vol path) (pathTokens path)).map fun
      | none => (false, vol)
      | some cluster => (true, { vol with cwdCluster := cluster })

/-! ## Enumeration -/

/-- `FAT32_DIR`, without the fields no function reads. -/
structure Fat32Dir where
  firstCluster : Nat
  currentCluster : Nat
  pos : Nat
deriving DecidableEq

/-- `FAT32_DIRENT`. -/
structure Fat32Dirent where
  name : List UInt8
  attr : UInt8
  size : Nat
  firstCluster : Nat
deriving DecidableEq

/-- `f_opendir`; an absolute path is also copied to a buffer on the stack. -/
def fOpendir (vol : Volume) (path : List UInt8) : Option (Option Fat32Dir) :=
  if path.head? = some slash ∧ pathBufferSize ≤ path.length then none
  else
    (if path = [slash] then some (some (getRootDirCluster vol.bpb)) else fat32PathToCluster vol path).map
      (·.map fun cluster => ⟨cluster, cluster, 0⟩)

/-- Characters without the blanks at their end. -/
def trimmed (chars : List UInt8) : List UInt8 := chars.rdropWhile (· = space)

/-- The name `f_readdir` makes of `DIR_Name`; the strings end at a zero byte. -/
def direntName (shortName : List UInt8) : List UInt8 :=
  let base := cString (trimmed (shortName.take 8))
  let extension := shortName.drop 8
  if extension.head? = some space then base else base ++ [dot] ++ cString (trimmed extension)

/-- The result `f_readdir` stores for a slot. -/
def direntOf (slot : Slot) : Fat32Dirent where
  name := direntName slot.name
  attr := slot.attr
  size := slot.fileSize
  firstCluster := slot.firstCluster

/-- The slot loop of `f_readdir`: the slot it returns with the position behind it. -/
def readdirVisit : Nat → List Slot → Scan Unit (Slot × Nat)
  | _, [] => .next ()
  | pos, slot :: rest =>
      if slot.firstByte = 0 then .stop
      else if slot.firstByte = deletedMark then readdirVisit (pos + 32) rest
      else if slot.attr = attrLongName then readdirVisit (pos + 32) rest
      else if slot.attr &&& attrVolumeId ≠ 0 then readdirVisit (pos + 32) rest
      else .found (slot, pos + 32)

/-- The cluster loop of `f_readdir`; once it has returned `false` the handle is not used
again, so it is given back only with a result. -/
def readdirLoop (vol : Volume) : Nat → Fat32Dir → Option (Option (Fat32Dirent × Fat32Dir))
  | 0, _ => none
  | fuel + 1, dp =>
      if isValidCluster dp.currentCluster then
        match readdirVisit dp.pos ((slotsOf (fat32ReadCluster vol dp.currentCluster)).drop (dp.pos / 32)) with
        | .found (slot, pos) => some (some (direntOf slot, { dp with pos := pos }))
        | .stop => some none
        | .fault => none
        | .next _ =>
            readdirLoop vol fuel
              { dp with currentCluster := fat32GetNextCluster vol dp.currentCluster, pos := 0 }
      else some none

/-- `f_readdir`. -/
def fReaddir (vol : Volume) (dp : Fat32Dir) : Option (Option (Fat32Dirent × Fat32Dir)) :=
  readdirLoop vol (chainFuel + 1) dp

/-- Repeated `f_readdir` until it returns `false`. -/
def enumerateFrom (vol : Volume) : Nat → Fat32Dir → Option (List Fat32Dirent)
  | 0, _ => none
  | fuel + 1, dp =>
      match fReaddir vol dp with
      | none => none
      | some none => some []
      | some (some (dirent, dp)) => (enumerateFrom vol fuel dp).map (dirent :: ·)

end KeblaOS.Fat32
