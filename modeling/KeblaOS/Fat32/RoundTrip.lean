import KeblaOS.Fat32.Insertion
import KeblaOS.Fat32.Session

/-!
# A file written and read back

`f_open` with `FA_CREATE`, `f_write`, `f_close`, and then `f_open`, `f_read` and `f_stat` on the
same path. The entry of the new file goes through three states: created, left alone by the write,
and synchronised by `f_close`; `Inserted` follows it. The path leads to the same directory all the
time because `fat32_find_dir` still finds what it found.
-/

namespace KeblaOS.Fat32

open KeblaOS.Buffer

/-- A volume on which paths can be followed: its directories have chains of their own, no slot in
use follows one that was never used, and what is listed as a directory is one. -/
structure Navigable (vol : Volume) (dirs : Set Nat) : Prop extends Chained vol dirs where
  cwd : vol.cwdCluster ∈ dirs
  zeros : ∀ dir ∈ dirs, ∀ cell, InDir vol dir cell → ZerosLast vol cell
  target : ∀ dir ∈ dirs, ∀ place slot, EntryAt vol dir place slot → slot.ListsDirectory → slot.firstCluster ∈ dirs

/-! ## Paths -/

section Paths

variable {vol after : Volume} {dirs : Set Nat} {dir parent result : Nat} {name path : List UInt8}

/-- What `fat32_find_dir` finds in the directories it also finds on another volume. -/
def KeepsFinds (vol after : Volume) (dirs : Set Nat) : Prop :=
  ∀ dir ∈ dirs, ∀ token result, fat32FindDir vol dir token = some (some result) →
    fat32FindDir after dir token = some (some result)

theorem Navigable.walkable (navigable : Navigable vol dirs) : Walkable vol dirs where
  toChained := navigable.toChained
  cwd := navigable.cwd
  target := navigable.target

theorem KeepsFinds.pathStep (keeps : KeepsFinds vol after dirs) (member : dir ∈ dirs)
    (found : pathStep vol dir name = some (some result)) : pathStep after dir name = some (some result) := by
  unfold Fat32.pathStep at found ⊢
  split_ifs at found ⊢
  · exact found
  · exact keeps dir member _ _ found
  · exact keeps dir member _ _ found

/-- A path that was followed leads to the same place. -/
theorem Walkable.pathLoop_kept {tokens : List (List UInt8)} (walkable : Walkable vol dirs)
    (keeps : KeepsFinds vol after dirs) (member : dir ∈ dirs) (found : pathLoop vol dir tokens = some (some result)) :
    pathLoop after dir tokens = some (some result) := by
  induction tokens generalizing dir with
  | nil => exact found
  | cons token rest ih =>
      rw [pathLoop] at found ⊢
      cases stepped : pathStep vol dir token with
      | none => simp [stepped] at found
      | some answer =>
          cases answer with
          | none => simp [stepped] at found
          | some next =>
              rw [stepped] at found
              rw [keeps.pathStep member stepped]
              exact ih (walkable.pathStep_mem member stepped) found

theorem Navigable.parentCluster_mem (navigable : Navigable vol dirs)
    (resolved : parentCluster vol path = some (some parent)) : parent ∈ dirs :=
  navigable.walkable.parentCluster_mem resolved

theorem Navigable.parentCluster_kept (navigable : Navigable vol dirs) (keeps : KeepsFinds vol after dirs)
    (bpb : after.bpb = vol.bpb) (cwd : after.cwdCluster = vol.cwdCluster)
    (resolved : parentCluster vol path = some (some parent)) :
    parent ∈ dirs ∧ parentCluster after path = some (some parent) := by
  refine ⟨navigable.parentCluster_mem resolved, ?_⟩
  unfold parentCluster at resolved ⊢
  rw [cwd, bpb]
  split_ifs at resolved ⊢
  · exact resolved
  · exact resolved
  · unfold fat32PathToCluster at resolved ⊢
    have start : pathStart after (directoryPart path).dropLast = pathStart vol (directoryPart path).dropLast := by
      rw [pathStart, pathStart, bpb, cwd]
    rw [start]
    exact navigable.walkable.pathLoop_kept keeps (navigable.walkable.pathStart_mem _) resolved

/-- In a directory that was not touched `fat32_find_dir` finds what it found. -/
theorem fat32FindDir_congr {entries data : Set Nat} {cells : List Nat} (geometry : Geometry vol.bpb)
    (chain : ClusterChain vol dir cells) (same : vol.SameExcept after entries data)
    (outside : ∀ cell ∈ cells, cell ∉ entries ∧ cell ∉ data) :
    fat32FindDir after dir name = fat32FindDir vol dir name := by
  unfold fat32FindDir
  rw [same.bpb]
  split_ifs
  · rfl
  · rw [scanChain_eq () geometry chain, scanChain_eq () (by rwa [same.bpb])
      (chain.congr same fun cell member => (outside cell member).1)]
    exact scanCells_congr fun cell member =>
      clusterSlots_congr same (chain.isCluster cell member) (outside cell member).2

/-- In the directories with a new file entry paths lead where they led before. -/
theorem Inserted.keepsFinds {entries data : Set Nat} {cells cells' : List Nat} {cell index : Nat} {entry : Slot}
    (navigable : Navigable vol dirs) (inserted : Inserted vol after parent cells cells' cell index name entry)
    (chain : ClusterChain vol parent cells) (few : lfnCount name ≤ 19) (inUse : entry.InUse)
    (plain : ¬ entry.IsDirectory) (same : vol.SameExcept after entries data)
    (outside : ∀ dir ∈ dirs, dir ≠ parent → ∀ cell, InDir vol dir cell → cell ∉ entries ∧ cell ∉ data) :
    KeepsFinds vol after dirs := by
  intro dir member token found lookup
  by_cases here : dir = parent
  · subst here
    exact inserted.findDir navigable.geometry same.bpb chain few inUse plain lookup
  · obtain ⟨other, otherChain⟩ := navigable.chain dir member
    rw [fat32FindDir_congr navigable.geometry otherChain same fun cell inside =>
      outside dir member here cell ((inDir_iff otherChain).mpr inside)]
    exact lookup

end Paths

/-! ## The calls -/

section Calls

variable {vol after : Volume} {dirs : Set Nat} {parent cell index : Nat} {path name data : List UInt8}
  {cells cells' : List Nat} {fp : Fat32File}

/-- What `f_open` with `FA_CREATE` did for a name that was missing. -/
structure OpenedNew (vol after : Volume) (parent : Nat) (name : List UInt8) (cells cells' : List Nat)
    (cell index : Nat) (fp : Fat32File) : Prop where
  created : Created vol after parent cells cells' cell index (entrySlots name attrArchive 0 0)
  located : fp.At (cell, index + lfnCount name)
  firstCluster : fp.firstCluster = 0
  size : fp.size = 0
  pos : fp.pos = 0

/-- Nothing the lookup skips is written for the name. -/
structure FindableName (name : List UInt8) : Prop where
  string : 0 ∉ name
  notDeleted : NotDeletedName name
  few : lfnCount name ≤ 19

theorem FindableName.inUse {first size : Nat} (findable : FindableName name) :
    (newEntry name attrArchive first size).InUse :=
  newEntry_inUse findable.string findable.notDeleted (by decide)

theorem FindableName.plain {first size : Nat} : ¬ (newEntry name attrArchive first size).IsDirectory := by
  rw [newEntry_isDirectory]
  decide

theorem Navigable.fOpen_new (navigable : Navigable vol dirs) (findable : FindableName (lastComponent path))
    (resolved : parentCluster vol path = some (some parent)) (chain : ClusterChain vol parent cells)
    (missing : fat32FindFile vol parent (lastComponent path) = some none)
    (fits : lfnCount (lastComponent path) + 1 ≤ 16 * getSectorsPerCluster vol.bpb)
    (room : NoRoom vol cells (lfnCount (lastComponent path) + 1) → 0 < freeClusterCount vol) :
    ∃ fp after cells' cell index, fOpen vol path faCreate = some (some fp, after) ∧
      OpenedNew vol after parent (lastComponent path) cells cells' cell index fp ∧
      (freeClusterCount after = freeClusterCount vol ∨
        NoRoom vol cells (lfnCount (lastComponent path) + 1) ∧ freeClusterCount vol = freeClusterCount after + 1) := by
  have member := navigable.parentCluster_mem resolved
  obtain ⟨after, cells', cell, index, returned, created, count⟩ :=
    fat32CreateDirEntry_succeeds attrArchive 0 0 navigable.geometry navigable.hint chain fits room
  have geometry' : Geometry after.bpb := by
    rw [created.same.bpb]
    exact navigable.geometry
  have found := (Inserted.of_created created chain).findFile navigable.geometry geometry' chain
    (fun other inside => navigable.zeros parent member other ((inDir_iff chain).mpr inside)) missing findable.few
    findable.inUse newEntry_name
  have opened : fOpen vol path faCreate = some (some (openedFile parent (lastComponent path) faCreate
      ⟨newEntry (lastComponent path) attrArchive 0 0, cell, 32 * (index + lfnCount (lastComponent path))⟩), after) := by
    unfold fOpen
    rw [resolved]
    dsimp only
    rw [missing, returned]
    dsimp only
    rw [found, if_neg (by decide)]
    rfl
  have noCluster : (newEntry (lastComponent path) attrArchive 0 0).firstCluster = 0 := newEntry_firstCluster (by decide)
  have noByte : (newEntry (lastComponent path) attrArchive 0 0).fileSize = 0 :=
    shortSlot_fileSize (length_fat32Format83Name _) (by decide)
  refine ⟨_, after, cells', cell, index, opened, ⟨created, ⟨rfl, rfl⟩, ?_, ?_, rfl⟩, count⟩
  · dsimp only [openedFile]
    exact noCluster
  · dsimp only [openedFile]
    exact noByte

/-- What `f_write` did to an empty file when there were enough clusters. -/
structure WroteNew (vol : Volume) (fp : Fat32File) (data : List UInt8) (added : List Nat) (result : WriteResult) :
    Prop where
  ok : result.ok = true
  bw : result.bw = data.length
  size : result.fp.size = data.length
  sameEntry : fp.SameEntry result.fp
  grown : Grown vol result.vol [] added {cell | cell ∈ added}
  owned : OwnedChain result.vol result.fp.firstCluster added
  filled : data.length ≤ added.length * getClusterSizeBytes vol.bpb
  content : (chainBytes result.vol added).take data.length = data

theorem fWrite_new (geometry : Geometry vol.bpb) (hint : 2 ≤ vol.freeClusterNo) (first : fp.firstCluster = 0)
    (empty : fp.size = 0) (start : fp.pos = 0) (nonempty : 0 < data.length) (sized : data.length < 4294967296)
    (room : data.length ≤ freeClusterCount vol * getClusterSizeBytes vol.bpb) :
    ∃ result added, fWrite vol fp data = some result ∧ WroteNew vol fp data added result := by
  obtain ⟨result, added, returned, wrote⟩ := @fWrite_cases vol fp [] data geometry hint (.inl ⟨first, rfl⟩)
  refine ⟨result, added, returned, ?_⟩
  have count := wrote.grown.count
  have word : u32 (0 + data.length) = data.length := by
    rw [Nat.zero_add]
    exact u32_of_lt sized
  rcases wrote.outcome with ⟨-, -, -, exhausted, short⟩ | ⟨ok, bw, -, size, spliced⟩
  · rw [start, List.nil_append] at short
    rw [exhausted.freeClusterCount_eq, Nat.zero_add] at count
    rw [count] at room
    omega
  · rw [start, word] at size
    have written := spliced (by rw [start]; exact Nat.zero_le _)
    rw [start, chainBytes_nil, List.nil_append] at written
    have geometry' : Geometry result.vol.bpb := by
      rw [wrote.grown.same.bpb]
      exact geometry
    have bytes := length_chainBytes geometry' added
    have long := written.length_le (Nat.zero_le _)
    have content := written.slice_eq (Nat.zero_le _)
    rw [wrote.grown.same.bpb] at bytes
    exact ⟨ok, bw, by omega, wrote.sameEntry, wrote.grown, wrote.owned, by omega, content⟩

end Calls

/-! ## The round trip -/

/-- No cluster of the directory has a run of free slots of that length. -/
def DirectoryFull (vol : Volume) (dir needed : Nat) : Prop :=
  ∀ cell, InDir vol dir cell → ∀ index, ¬ FreeRun (clusterSlots vol cell) index needed

/-- The allocator can reach enough free clusters for the data and, if the directory has no room
for the entry, for one more cluster of the directory. -/
structure EnoughClusters (vol : Volume) (dir needed size : Nat) : Prop where
  data : size ≤ freeClusterCount vol * getClusterSizeBytes vol.bpb
  extension : DirectoryFull vol dir needed →
    size + getClusterSizeBytes vol.bpb ≤ freeClusterCount vol * getClusterSizeBytes vol.bpb

/-- A new file is written, closed and read back. -/
def RoundTrips (vol : Volume) (path data : List UInt8) : Prop :=
  ∃ fp opened result, fOpen vol path faCreate = some (some fp, opened) ∧
    fWrite opened fp data = some result ∧ result.ok = true ∧ result.bw = data.length ∧
    ∃ reopened fp' stat,
      fOpen (fClose result.vol result.fp).1 path 0 = some (some reopened, (fClose result.vol result.fp).1) ∧
      fRead (fClose result.vol result.fp).1 reopened data.length = some (data, fp') ∧
      fStat (fClose result.vol result.fp).1 path = some (some stat) ∧ stat.size = data.length

theorem notDeletedName_of_head {name : List UInt8} (first : name.head? ≠ some deletedMark) : NotDeletedName name := by
  unfold NotDeletedName fat32Format83Name
  dsimp only
  cases name with
  | nil => decide
  | cons c rest =>
      have different : c ≠ deletedMark := by simpa using first
      by_cases stops : c = dot
      · rw [List.takeWhile_cons_of_neg (by simpa using stops)]
        exact (show space ≠ deletedMark by decide)
      · rw [List.takeWhile_cons_of_pos (by simpa using stops)]
        have upper : toUpper c ≠ deletedMark := by
          rcases toUpper_cases c with same | ⟨_, small⟩
          · rwa [same]
          · intro marked
            rw [marked] at small
            exact absurd small (by decide)
        simpa [blankPadded] using upper

section RoundTrip

variable {vol after last : Volume} {dirs : Set Nat} {parent cell index : Nat} {path name data : List UInt8}
  {cells cells' added : List Nat} {fp : Fat32File} {result : WriteResult}

/-- The new entry after `f_close`. -/
theorem OpenedNew.closed (opened : OpenedNew vol after parent name cells cells' cell index fp)
    (geometry : Geometry vol.bpb) (chain : ClusterChain vol parent cells)
    (wrote : WroteNew after fp data added result) :
    Inserted vol (fClose result.vol result.fp).1 parent cells cells' cell index name
      ((newEntry name attrArchive 0 0).withFile result.fp.firstCluster data.length) := by
  have geometry' : Geometry result.vol.bpb := by
    rw [wrote.grown.same.bpb, opened.created.same.bpb]
    exact geometry
  have apart : ∀ other ∈ cells', other ∉ added := fun other inside taken =>
    opened.created.chain.next_ne_zero inside (wrote.grown.free other taken)
  have written := (Inserted.of_created opened.created chain).of_outside wrote.grown.same
    fun other inside => ⟨apart other inside, apart other inside⟩
  have located : result.fp.At (cell, index + lfnCount name) :=
    ⟨wrote.sameEntry.dirEntryCluster.trans opened.located.1, wrote.sameEntry.dirEntryOffset.trans opened.located.2⟩
  have synced := written.sync geometry' located
  rwa [wrote.size] at synced

/-- The three calls together change the directory's clusters and those of the file. -/
theorem OpenedNew.same (opened : OpenedNew vol after parent name cells cells' cell index fp)
    (geometry : Geometry vol.bpb) (wrote : WroteNew after fp data added result) :
    vol.SameExcept (fClose result.vol result.fp).1 {other | other ∈ cells' ∨ other ∈ added}
      {other | other ∈ cells' ∨ other ∈ added} := by
  have geometry' : Geometry result.vol.bpb := by
    rw [wrote.grown.same.bpb, opened.created.same.bpb]
    exact geometry
  have inRange : IsCluster result.vol.bpb cell := by
    rw [wrote.grown.same.bpb, opened.created.same.bpb]
    exact opened.created.inRange
  have located : result.fp.dirEntryCluster = cell :=
    wrote.sameEntry.dirEntryCluster.trans opened.located.1
  have closed : result.vol.SameExcept (fClose result.vol result.fp).1 ∅ {cell} := by
    rw [fClose, located]
    exact sameExcept_writeCluster _ geometry' inRange
  have here : ({cell} : Set Nat) ⊆ {other | other ∈ cells' ∨ other ∈ added} := by
    rintro other rfl
    exact .inl opened.created.member
  have ofDir : {other | other ∈ cells'} ⊆ {other | other ∈ cells' ∨ other ∈ added} := fun _ inside => .inl inside
  have ofFile : {other | other ∈ added} ⊆ {other | other ∈ cells' ∨ other ∈ added} := fun _ inside => .inr inside
  exact ((opened.created.same.mono ofDir here).trans (wrote.grown.same.mono ofFile ofFile)).trans
    (closed.mono (Set.empty_subset _) here)

/-- Paths lead where they led before. -/
theorem OpenedNew.keepsFinds (navigable : Navigable vol dirs) (member : parent ∈ dirs)
    (findable : FindableName name) (opened : OpenedNew vol after parent name cells cells' cell index fp)
    (chain : ClusterChain vol parent cells) (wrote : WroteNew after fp data added result) :
    KeepsFinds vol (fClose result.vol result.fp).1 dirs := by
  have same := opened.same navigable.geometry wrote
  have whole : (newEntry name attrArchive 0 0).length = 32 := length_shortSlot (length_fat32Format83Name name)
  refine (opened.closed navigable.geometry chain wrote).keepsFinds navigable chain findable.few
    ((Slot.withFile_inUse _ _ whole).mpr findable.inUse)
    (fun directory => FindableName.plain ((Slot.withFile_isDirectory _ _ whole).mp directory)) same ?_
  intro dir member' different cell inside
  have untouched := opened.created.outside navigable.toChained member chain dir member' different cell inside
  have outside : ¬ (cell ∈ cells' ∨ cell ∈ added) := by
    rintro (taken | taken)
    · exact untouched taken
    · refine inside.next_ne_zero ?_
      rw [← opened.created.same.next cell inside.isCluster untouched]
      exact wrote.grown.free cell taken
  exact ⟨outside, outside⟩

/-- The bytes of the file after `f_close`. -/
theorem OpenedNew.content (opened : OpenedNew vol after parent name cells cells' cell index fp)
    (geometry : Geometry vol.bpb) (wrote : WroteNew after fp data added result) :
    OwnedChain (fClose result.vol result.fp).1 result.fp.firstCluster added ∧
      (chainBytes (fClose result.vol result.fp).1 added).take data.length = data := by
  have geometry' : Geometry result.vol.bpb := by
    rw [wrote.grown.same.bpb, opened.created.same.bpb]
    exact geometry
  have inRange : IsCluster result.vol.bpb cell := by
    rw [wrote.grown.same.bpb, opened.created.same.bpb]
    exact opened.created.inRange
  have located : result.fp.dirEntryCluster = cell :=
    wrote.sameEntry.dirEntryCluster.trans opened.located.1
  have closed : result.vol.SameExcept (fClose result.vol result.fp).1 ∅ {cell} := by
    rw [fClose, located]
    exact sameExcept_writeCluster _ geometry' inRange
  have apart : ∀ other ∈ added, other ≠ cell := by
    rintro other taken rfl
    exact opened.created.chain.next_ne_zero opened.created.member (wrote.grown.free other taken)
  refine ⟨wrote.owned.congr closed fun _ _ => Set.notMem_empty _, ?_⟩
  rw [chainBytes_congr closed (fun other taken => wrote.owned.isCluster taken) apart]
  exact wrote.content

end RoundTrip

section ReadBack

variable {vol : Volume} {path data : List UInt8} {parent first : Nat} {cells : List Nat} {found : FoundEntry}

/-- A file whose entry says where its bytes are can be opened and read. -/
theorem reads_back (geometry : Geometry vol.bpb) (short : path.length < 256)
    (resolved : parentCluster vol path = some (some parent))
    (lookup : fat32FindFile vol parent (lastComponent path) = some (some found))
    (starts : found.entry.firstCluster = first) (size : found.entry.fileSize = data.length)
    (owned : OwnedChain vol first cells) (filled : data.length ≤ cells.length * getClusterSizeBytes vol.bpb)
    (sized : data.length < 4294967296) (content : (chainBytes vol cells).take data.length = data) :
    ∃ reopened fp' stat, fOpen vol path 0 = some (some reopened, vol) ∧
      fRead vol reopened data.length = some (data, fp') ∧
      fStat vol path = some (some stat) ∧ stat.size = data.length := by
  subst starts
  have opened : fOpen vol path 0 = some (some (openedFile parent (lastComponent path) 0 found), vol) := by
    rw [fOpen, resolved]
    dsimp only
    rw [lookup]
  have handleSize : (openedFile parent (lastComponent path) 0 found).size = data.length := size
  have read := @fRead_eq vol (openedFile parent (lastComponent path) 0 found) cells data.length geometry owned
    (by rwa [handleSize]) (by rwa [handleSize]) (Nat.zero_le _)
  have bytes : slice ((chainBytes vol cells).take found.entry.fileSize) 0 data.length = data := by
    rw [size, content, slice_whole rfl]
  have stated : fStat vol path = some (some ⟨lastComponent path, found.entry.attr, found.entry.fileSize,
      found.entry.firstCluster⟩) := by
    rw [fStat, if_neg (by rw [pathBufferSize]; omega), resolved]
    dsimp only
    rw [lookup]
    rfl
  exact ⟨_, _, _, opened, read.trans (congrArg some (Prod.ext bytes rfl)), stated, size⟩

end ReadBack

/-- Whatever the name, the directory and the data are like: a file that did not exist is created,
written and closed, and then opened, read and looked up with what was written. -/
theorem create_write_read_roundTrips {vol : Volume} {dirs : Set Nat} (navigable : Navigable vol dirs)
    {path data : List UInt8} {parent : Nat} (string : 0 ∉ path) (short : path.length < 256)
    (resolved : parentCluster vol path = some (some parent))
    (first : (lastComponent path).head? ≠ some deletedMark) (few : lfnCount (lastComponent path) ≤ 19)
    (fits : lfnCount (lastComponent path) + 1 ≤ getClusterSizeBytes vol.bpb / 32)
    (missing : fat32FindFile vol parent (lastComponent path) = some none)
    (nonempty : 0 < data.length) (sized : data.length < 4294967296)
    (enough : EnoughClusters vol parent (lfnCount (lastComponent path) + 1) data.length) :
    RoundTrips vol path data := by
  have geometry := navigable.geometry
  have member := navigable.parentCluster_mem resolved
  have findable : FindableName (lastComponent path) :=
    ⟨lastComponent_string string, notDeletedName_of_head first, few⟩
  obtain ⟨cells, chain⟩ := navigable.chain parent member
  have size := geometry.getClusterSizeBytes_eq
  have full : NoRoom vol cells (lfnCount (lastComponent path) + 1) →
      data.length + getClusterSizeBytes vol.bpb ≤ freeClusterCount vol * getClusterSizeBytes vol.bpb :=
    fun none => enough.extension fun cell inside => none cell ((inDir_iff chain).mp inside)
  obtain ⟨fp, opened, cells', cell, index, open1, isNew, count⟩ := navigable.fOpen_new findable resolved chain missing
    (by omega) fun none => by
      by_contra empty
      have room := full none
      rw [Nat.eq_zero_of_not_pos empty, Nat.zero_mul] at room
      omega
  have bpb := isNew.created.same.bpb
  have geometry1 : Geometry opened.bpb := by rwa [bpb]
  have room : data.length ≤ freeClusterCount opened * getClusterSizeBytes opened.bpb := by
    rw [bpb]
    rcases count with same | ⟨none, taken⟩
    · rw [same]
      exact enough.data
    · have room := full none
      rw [taken, Nat.add_mul, Nat.one_mul] at room
      omega
  obtain ⟨result, added, write, wrote⟩ := fWrite_new geometry1 (navigable.hint.trans isNew.created.same.hint)
    isNew.firstCluster isNew.size isNew.pos nonempty sized room
  have same := isNew.same geometry wrote
  have inserted := isNew.closed geometry chain wrote
  obtain ⟨owned, content⟩ := isNew.content geometry wrote
  have resolved' := (navigable.parentCluster_kept (isNew.keepsFinds navigable member findable chain wrote) same.bpb
    same.cwdCluster resolved).2
  have whole : (newEntry (lastComponent path) attrArchive 0 0).length = 32 :=
    length_shortSlot (length_fat32Format83Name _)
  have geometry2 : Geometry (fClose result.vol result.fp).1.bpb := by rwa [same.bpb]
  have found := inserted.findFile geometry geometry2 chain
    (fun other inside => navigable.zeros parent member other ((inDir_iff chain).mpr inside)) missing few
    ((Slot.withFile_inUse _ _ whole).mpr findable.inUse) ((Slot.withFile_name _ _ whole).trans newEntry_name)
  refine ⟨fp, opened, result, open1, write, wrote.ok, wrote.bw, ?_⟩
  exact reads_back geometry2 short resolved' found
    (Slot.withFile_firstCluster _ whole (owned.first_lt geometry2)) (Slot.withFile_fileSize _ whole sized) owned
    (by rw [same.bpb, ← bpb]; exact wrote.filled) sized content

theorem emptyVolume_navigable : Navigable emptyVolume {2} := by
  have single : ∀ dir ∈ ({2} : Set Nat), dir = 2 := fun dir member => member
  exact
    { geometry := emptyVolume_geometry
      hint := by decide +kernel
      root := by rw [emptyVolume_root]; rfl
      chain := fun dir member => ⟨[2], single dir member ▸ emptyVolume_chain⟩
      apart := fun dir member other member' _ _ _ => (single dir member).trans (single other member').symm
      cwd := by rw [show emptyVolume.cwdCluster = 2 by decide +kernel]; rfl
      zeros := fun dir member cell inside => by
        have root := emptyVolume_emptyRoot.zeros cell
        rw [emptyVolume_root] at root
        exact root (single dir member ▸ inside)
      target := fun dir member place slot entry => absurd (single dir member ▸ entry) emptyVolume_no_entry }

/-- A file `a` in the root directory of an empty volume. -/
theorem create_write_read_roundTrips_empty : RoundTrips emptyVolume [slash, 0x61] [1, 2, 3] := by
  have resolved : parentCluster emptyVolume [slash, 0x61] = some (some 2) := by decide +kernel
  exact create_write_read_roundTrips emptyVolume_navigable (by decide) (by decide) resolved (by decide) (by decide)
    (by decide +kernel) (by decide +kernel) (by decide) (by decide) ⟨by decide +kernel, fun _ => by decide +kernel⟩

end KeblaOS.Fat32
