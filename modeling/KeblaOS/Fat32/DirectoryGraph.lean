import KeblaOS.Fat32.DirectoryUpdate

/-!
# The directory graph

A volume is seen as a set of directories with their entries. An entry is named by its
place, the cluster and the number of its slot, which does not depend on the order of the
directory's clusters. `Directories` is what every call keeps: each directory has a chain of
its own. The effects of the writers are stated on entries: one is entered, one is removed,
a directory is founded or dropped. The calls are sequences of these effects.
-/

namespace KeblaOS.Fat32

open KeblaOS.Buffer

/-! ## Entries of a directory -/

/-- Cluster `cell` belongs to the directory that starts at `dir`. -/
def InDir (vol : Volume) (dir cell : Nat) : Prop := ∃ cells, ClusterChain vol dir cells ∧ cell ∈ cells

/-- The slot at `place` is a live entry of directory `dir`. -/
structure EntryAt (vol : Volume) (dir : Nat) (place : Nat × Nat) (slot : Slot) : Prop where
  inside : InDir vol dir place.1
  live : LiveAt vol place.1 place.2 slot

/-- The slot lists a directory below its own; the dot entries do not. -/
def Slot.ListsDirectory (slot : Slot) : Prop := slot.IsDirectory ∧ slot.firstByte ≠ dot

/-- The directories of a volume: every one has a chain, and no two chains meet. -/
structure Chained (vol : Volume) (dirs : Set Nat) : Prop where
  geometry : Geometry vol.bpb
  hint : 2 ≤ vol.freeClusterNo
  root : getRootDirCluster vol.bpb ∈ dirs
  chain : ∀ dir ∈ dirs, ∃ cells, ClusterChain vol dir cells
  apart : ∀ dir ∈ dirs, ∀ other ∈ dirs, ∀ cell, InDir vol dir cell → InDir vol other cell → dir = other

/-- In addition, every cluster has its free slots where the lookups expect them, and paths
start at the root. -/
structure Directories (vol : Volume) (dirs : Set Nat) : Prop extends Chained vol dirs where
  cwd : vol.cwdCluster = getRootDirCluster vol.bpb
  zeros : ∀ dir ∈ dirs, ∀ cell, InDir vol dir cell → ZerosLast vol cell

/-- The same entries in the directories `dirs`. -/
def SameEntries (vol after : Volume) (dirs : Set Nat) : Prop :=
  ∀ dir ∈ dirs, ∀ place slot, EntryAt after dir place slot ↔ EntryAt vol dir place slot

/-- An entry was stored at a place of directory `parent` where there was none. -/
structure Entered (vol after : Volume) (dirs : Set Nat) (parent : Nat) (place : Nat × Nat) (entry : Slot) :
    Prop where
  directories : Directories after dirs
  bpb : after.bpb = vol.bpb
  vacant : ∀ dir ∈ dirs, ∀ slot, ¬ EntryAt vol dir place slot
  entries : ∀ dir ∈ dirs, ∀ other slot, EntryAt after dir other slot ↔
    EntryAt vol dir other slot ∨ dir = parent ∧ other = place ∧ slot = entry ∧ slot.InUse

/-- The entry at a place was deleted. -/
structure Removed (vol after : Volume) (dirs : Set Nat) (place : Nat × Nat) : Prop where
  directories : Directories after dirs
  bpb : after.bpb = vol.bpb
  entries : ∀ dir ∈ dirs, ∀ other slot, EntryAt after dir other slot ↔
    EntryAt vol dir other slot ∧ other ≠ place

/-- The slot of a dot entry with one or two dots. -/
def dotSlot (dots cluster : Nat) : Slot := shortSlot (dotName dots) attrDirectory cluster 0

/-- A directory with dot entries was set up in a free cluster. -/
structure Founded (vol after : Volume) (dirs : Set Nat) (new parent : Nat) : Prop where
  directories : Directories after (insert new dirs)
  bpb : after.bpb = vol.bpb
  fresh : new ∉ dirs
  same : SameEntries vol after dirs
  entries : ∀ place slot, EntryAt after new place slot ↔
    place = (new, 0) ∧ slot = dotSlot 1 new ∨ place = (new, 1) ∧ slot = dotSlot 2 parent

/-- The chain of a directory was freed. -/
structure Dropped (vol after : Volume) (dirs : Set Nat) (dir : Nat) : Prop where
  directories : Directories after (dirs \ {dir})
  bpb : after.bpb = vol.bpb
  same : SameEntries vol after (dirs \ {dir})

/-- The place of a handle's directory entry. -/
def Fat32File.At (fp : Fat32File) (place : Nat × Nat) : Prop :=
  fp.dirEntryCluster = place.1 ∧ fp.dirEntryOffset = 32 * place.2

theorem Fat32File.At.unique {fp : Fat32File} {place place' : Nat × Nat} (located : fp.At place) (located' : fp.At place') :
    place = place' := by
  apply Prod.ext
  · exact located.1.symm.trans located'.1
  · have offset := located.2.symm.trans located'.2
    omega

/-- One entry got new contents. -/
structure Rewritten (vol after : Volume) (dirs : Set Nat) (place : Nat × Nat) (entry : Slot) : Prop where
  chained : Chained after dirs
  same : vol.SameExcept after ∅ {place.1}
  entries : ∀ dir ∈ dirs, ∀ other slot, EntryAt after dir other slot ↔
    EntryAt vol dir other slot ∧ other ≠ place ∨ other = place ∧ slot = entry ∧ InDir vol dir place.1

section Graph

variable {vol after : Volume} {dirs : Set Nat} {dir parent cell index first size : Nat} {cells cells' : List Nat}
  {name : List UInt8} {attr : UInt8} {slot : Slot} {place : Nat × Nat}

theorem inDir_iff (chain : ClusterChain vol dir cells) : InDir vol dir cell ↔ cell ∈ cells := by
  constructor
  · rintro ⟨other, chain', member⟩
    rwa [chain.unique chain']
  · exact fun member => ⟨cells, chain, member⟩

theorem InDir.isCluster (inside : InDir vol dir cell) : IsCluster vol.bpb cell := by
  obtain ⟨cells, chain, member⟩ := inside
  exact chain.isCluster cell member

theorem InDir.next_ne_zero (inside : InDir vol dir cell) : fat32GetNextCluster vol cell ≠ 0 := by
  obtain ⟨cells, chain, member⟩ := inside
  exact chain.next_ne_zero member

/-- The entries of a directory follow from its clusters and the slots in them. -/
theorem entryAt_congr {place : Nat × Nat} {slot : Slot} (cells : InDir after dir place.1 ↔ InDir vol dir place.1)
    (slots : InDir vol dir place.1 → clusterSlots after place.1 = clusterSlots vol place.1) :
    EntryAt after dir place slot ↔ EntryAt vol dir place slot := by
  constructor
  · rintro ⟨inside, live⟩
    rw [cells] at inside
    rw [LiveAt, slots inside] at live
    exact ⟨inside, live⟩
  · rintro ⟨inside, live⟩
    refine ⟨cells.mpr inside, ?_⟩
    rw [LiveAt, slots inside]
    exact live

/-- A change outside a directory's clusters does not move them. -/
theorem inDir_congr {entries data : Set Nat} (chain : ClusterChain vol dir cells)
    (same : vol.SameExcept after entries data) (outside : ∀ cell, InDir vol dir cell → cell ∉ entries) :
    InDir after dir cell ↔ InDir vol dir cell := by
  have kept := chain.congr same fun other member => outside other ((inDir_iff chain).mpr member)
  rw [inDir_iff chain, inDir_iff kept]

theorem Chained.subset {fewer : Set Nat} (chained : Chained vol dirs) (subset : fewer ⊆ dirs) (root : getRootDirCluster vol.bpb ∈ fewer) :
    Chained vol fewer where
  geometry := chained.geometry
  hint := chained.hint
  root := root
  chain dir member := chained.chain dir (subset member)
  apart dir member other member' := chained.apart dir (subset member) other (subset member')

theorem Directories.subset {fewer : Set Nat} (directories : Directories vol dirs) (subset : fewer ⊆ dirs)
    (root : getRootDirCluster vol.bpb ∈ fewer) : Directories vol fewer where
  toChained := directories.toChained.subset subset root
  cwd := directories.cwd
  zeros dir member := directories.zeros dir (subset member)

/-- A change outside the FAT entries of the directories moves none of their clusters. -/
theorem Chained.inDir_congr {entries data : Set Nat} (chained : Chained vol dirs)
    (same : vol.SameExcept after entries data)
    (outside : ∀ dir ∈ dirs, ∀ cell, InDir vol dir cell → cell ∉ entries) (member : dir ∈ dirs) :
    InDir after dir cell ↔ InDir vol dir cell := by
  obtain ⟨cells, chain⟩ := chained.chain dir member
  exact Fat32.inDir_congr chain same (outside dir member)

theorem Chained.of_outside {entries data : Set Nat} (chained : Chained vol dirs)
    (same : vol.SameExcept after entries data)
    (outside : ∀ dir ∈ dirs, ∀ cell, InDir vol dir cell → cell ∉ entries) : Chained after dirs where
  geometry := by
    rw [same.bpb]
    exact chained.geometry
  hint := chained.hint.trans same.hint
  root := by
    rw [same.bpb]
    exact chained.root
  chain dir member := by
    obtain ⟨cells, chain⟩ := chained.chain dir member
    exact ⟨cells, chain.congr same fun other inside => outside dir member other ((inDir_iff chain).mpr inside)⟩
  apart dir member other member' cell inside inside' := by
    rw [chained.inDir_congr same outside member] at inside
    rw [chained.inDir_congr same outside member'] at inside'
    exact chained.apart dir member other member' cell inside inside'

/-- It keeps the directories if their free slots stay at the end. -/
theorem Directories.of_outside {entries data : Set Nat} (directories : Directories vol dirs)
    (same : vol.SameExcept after entries data)
    (outside : ∀ dir ∈ dirs, ∀ cell, InDir vol dir cell → cell ∉ entries)
    (zeros : ∀ dir ∈ dirs, ∀ cell, InDir vol dir cell → ZerosLast after cell) : Directories after dirs where
  toChained := directories.toChained.of_outside same outside
  cwd := by rw [same.cwdCluster, same.bpb, directories.cwd]
  zeros dir member cell inside := by
    rw [directories.toChained.inDir_congr same outside member] at inside
    exact zeros dir member cell inside

/-- A change that touches no cluster of the directories leaves their entries alone. -/
theorem Chained.sameEntries {entries data : Set Nat} (chained : Chained vol dirs)
    (same : vol.SameExcept after entries data)
    (outside : ∀ dir ∈ dirs, ∀ cell, InDir vol dir cell → cell ∉ entries ∧ cell ∉ data) :
    SameEntries vol after dirs := by
  intro dir member place slot
  have cells := @Chained.inDir_congr vol after dirs dir place.1 _ _ chained same
    (fun dir member cell inside => (outside dir member cell inside).1) member
  have slots : InDir vol dir place.1 → clusterSlots after place.1 = clusterSlots vol place.1 :=
    fun inside => clusterSlots_congr same inside.isCluster (outside dir member _ inside).2
  exact entryAt_congr cells slots

/-- It leaves the directories alone as well. -/
theorem Directories.congr {entries data : Set Nat} (directories : Directories vol dirs)
    (same : vol.SameExcept after entries data)
    (outside : ∀ dir ∈ dirs, ∀ cell, InDir vol dir cell → cell ∉ entries ∧ cell ∉ data) :
    Directories after dirs ∧ SameEntries vol after dirs := by
  refine ⟨directories.of_outside same (fun dir member cell inside => (outside dir member cell inside).1)
    fun dir member cell inside => ?_, directories.toChained.sameEntries same outside⟩
  rw [ZerosLast, clusterSlots_congr same inside.isCluster (outside dir member cell inside).2]
  exact directories.zeros dir member cell inside

section Created

variable {new : List Slot} (chained : Chained vol dirs) (member : parent ∈ dirs)
  (chain : ClusterChain vol parent cells) (created : Created vol after parent cells cells' cell index new)
include chain created

/-- The directory has got the cluster of the new entry, if it had not got it before. -/
theorem Created.inDir_parent (other : Nat) : InDir after parent other ↔ InDir vol parent other ∨ other = cell := by
  rw [inDir_iff created.chain, inDir_iff chain]
  constructor
  · exact created.only other
  · rintro (old | rfl)
    · exact created.kept.subset old
    · exact created.member

include chained member

/-- No cluster of another directory is touched. -/
theorem Created.outside (dir : Nat) (member' : dir ∈ dirs) (different : dir ≠ parent) (other : Nat)
    (inside : InDir vol dir other) : other ∉ cells' := by
  intro claimed
  rcases created.only other claimed with old | rfl
  · exact different (chained.apart dir member' parent member other inside ((inDir_iff chain).mpr old))
  · by_cases fresh : other ∈ cells
    · exact different (chained.apart dir member' parent member other inside ((inDir_iff chain).mpr fresh))
    · exact inside.next_ne_zero (created.fresh fresh).1

theorem Created.inDir_other (dir : Nat) (member' : dir ∈ dirs) (different : dir ≠ parent) (other : Nat) :
    InDir after dir other ↔ InDir vol dir other := by
  obtain ⟨cells, chain'⟩ := chained.chain dir member'
  exact inDir_congr chain' created.same (created.outside chained member chain dir member' different)

theorem Created.entryAt_other (dir : Nat) (member' : dir ∈ dirs) (different : dir ≠ parent) :
    EntryAt after dir place slot ↔ EntryAt vol dir place slot := by
  have cells := created.inDir_other chained member chain dir member' different place.1
  have slots : InDir vol dir place.1 → clusterSlots after place.1 = clusterSlots vol place.1 := by
    intro inside
    refine clusterSlots_congr created.same inside.isCluster fun same => ?_
    rw [Set.mem_singleton_iff] at same
    refine created.outside chained member chain dir member' different place.1 inside ?_
    rw [same]
    exact created.member
  exact entryAt_congr cells slots

/-- A cluster of a directory was one before, or is the one with the new entry. -/
theorem Created.inDir_cases (dir : Nat) (member' : dir ∈ dirs) (other : Nat) (inside : InDir after dir other) :
    InDir vol dir other ∨ dir = parent ∧ other = cell := by
  by_cases same : dir = parent
  · subst same
    exact ((created.inDir_parent chain other).mp inside).imp id fun new => ⟨rfl, new⟩
  · exact .inl ((created.inDir_other chained member chain dir member' same other).mp inside)

/-- The directories keep chains of their own. -/
theorem Created.keepsChained : Chained after dirs where
  geometry := by
    rw [created.same.bpb]
    exact chained.geometry
  hint := chained.hint.trans created.same.hint
  root := by
    rw [created.same.bpb]
    exact chained.root
  chain dir member' := by
    by_cases same : dir = parent
    · exact ⟨cells', by rw [same]; exact created.chain⟩
    · obtain ⟨cells, chain'⟩ := chained.chain dir member'
      exact ⟨cells, chain'.congr created.same fun other inside =>
        created.outside chained member chain dir member' same other ((inDir_iff chain').mpr inside)⟩
  apart dir member' dir' member'' other inside inside' := by
    have outside := created.outside chained member chain
    rcases created.inDir_cases chained member chain dir member' other inside with before | ⟨rfl, rfl⟩
    · rcases created.inDir_cases chained member chain dir' member'' other inside' with before' | ⟨rfl, rfl⟩
      · exact chained.apart dir member' dir' member'' other before before'
      · by_contra different
        exact outside dir member' different other before created.member
    · by_contra different
      have before := (created.inDir_cases chained member chain dir' member'' other inside').resolve_right
        fun new => different new.1.symm
      exact outside dir' member'' (Ne.symm different) other before created.member

/-- The slots that were never used stay behind those in use. -/
theorem Created.zeros (zeros : ∀ dir ∈ dirs, ∀ cell, InDir vol dir cell → ZerosLast vol cell)
    (nonzero : ∀ slot ∈ new, Slot.firstByte slot ≠ 0) :
    ∀ dir ∈ dirs, ∀ cell, InDir after dir cell → ZerosLast after cell := by
  intro dir member' other inside
  by_cases changed : other = cell
  · subst changed
    exact created.zerosLast (fun inside => zeros parent member other ((inDir_iff chain).mpr inside)) nonzero
  · have before := (created.inDir_cases chained member chain dir member' other inside).resolve_right
      fun new => changed new.2
    rw [ZerosLast, clusterSlots_congr created.same before.isCluster changed]
    exact zeros dir member' other before

omit chained in
theorem Created.keeps (directories : Directories vol dirs) (nonzero : ∀ slot ∈ new, Slot.firstByte slot ≠ 0) :
    Directories after dirs where
  toChained := created.keepsChained directories.toChained member chain
  cwd := by rw [created.same.cwdCluster, created.same.bpb, directories.cwd]
  zeros := created.zeros directories.toChained member chain directories.zeros nonzero

end Created

/-- The entries of the directory in which an entry was created. -/
theorem Created.entryAt_parent (chain : ClusterChain vol parent cells)
    (created : Created vol after parent cells cells' cell index (entrySlots name attr first size)) :
    EntryAt after parent place slot ↔ EntryAt vol parent place slot ∨
      place = (cell, index + lfnCount name) ∧ slot = newEntry name attr first size ∧ slot.InUse := by
  have grown := created.inDir_parent chain
  by_cases before : place.1 ∈ cells
  · have live : LiveAt after place.1 place.2 slot ↔ _ :=
      created.liveAt_iff (chain.isCluster _ before) (.inl before)
    constructor
    · rintro ⟨_, now⟩
      rcases live.mp now with earlier | ⟨here, number, equal, inUse⟩
      · exact .inl ⟨(inDir_iff chain).mpr before, earlier⟩
      · exact .inr ⟨Prod.ext here number, equal, inUse⟩
    · rintro (⟨inside, earlier⟩ | ⟨rfl, equal, inUse⟩)
      · exact ⟨(grown _).mpr (.inl inside), live.mpr (.inl earlier)⟩
      · exact ⟨(grown _).mpr (.inr rfl), live.mpr (.inr ⟨rfl, rfl, equal, inUse⟩)⟩
  · constructor
    · rintro ⟨inside, now⟩
      rcases (grown _).mp inside with earlier | here
      · exact absurd ((inDir_iff chain).mp earlier) before
      · rw [here] at before now
        obtain ⟨number, equal, inUse⟩ := (created.liveAt_fresh_iff before).mp now
        exact .inr ⟨Prod.ext here number, equal, inUse⟩
    · rintro (⟨inside, _⟩ | ⟨rfl, equal, inUse⟩)
      · exact absurd ((inDir_iff chain).mp inside) before
      · exact ⟨(grown _).mpr (.inr rfl), (created.liveAt_fresh_iff before).mpr ⟨rfl, equal, inUse⟩⟩

/-- The entries of all directories. -/
theorem Created.entryAt_iff (chained : Chained vol dirs) (member : parent ∈ dirs) (chain : ClusterChain vol parent cells)
    (created : Created vol after parent cells cells' cell index (entrySlots name attr first size)) (member' : dir ∈ dirs) :
    EntryAt after dir place slot ↔ EntryAt vol dir place slot ∨
      dir = parent ∧ place = (cell, index + lfnCount name) ∧ slot = newEntry name attr first size ∧ slot.InUse := by
  by_cases same : dir = parent
  · subst same
    rw [created.entryAt_parent chain]
    simp
  · rw [created.entryAt_other chained member chain dir member' same]
    simp [same]

/-- A created entry is the only change to the graph. -/
theorem Created.entered (directories : Directories vol dirs) (member : parent ∈ dirs)
    (chain : ClusterChain vol parent cells)
    (created : Created vol after parent cells cells' cell index (entrySlots name attr first size))
    (string : 0 ∉ name) (short : lfnCount name < 256) :
    Entered vol after dirs parent (cell, index + lfnCount name) (newEntry name attr first size) := by
  refine ⟨created.keeps member chain directories (entrySlots_nonzero string short), created.same.bpb, ?_, ?_⟩
  · rintro dir member' slot ⟨inside, live⟩
    by_cases same : dir = parent
    · subst same
      exact created.vacant ((inDir_iff chain).mp inside) live
    · exact created.outside directories.toChained member chain dir member' same cell inside created.member
  · intro dir member' other slot
    exact created.entryAt_iff directories.toChained member chain member'

/-- A mark of deletion takes one entry away. -/
theorem entryAt_markDeleted {found : FoundEntry} {other : Nat × Nat} {otherSlot : Slot} (chained : Chained vol dirs)
    (here : found.entryCluster = place.1) (offset : found.entryOffset = 32 * place.2)
    (inRange : IsCluster vol.bpb place.1) (deleted : LiveAt vol place.1 place.2 slot) (member : dir ∈ dirs) :
    EntryAt (markDeleted vol found) dir other otherSlot ↔ EntryAt vol dir other otherSlot ∧ other ≠ place := by
  have same := sameExcept_markDeleted chained.geometry inRange here
  have cells := @Chained.inDir_congr vol _ dirs dir other.1 _ _ chained same (fun _ _ _ _ => Set.notMem_empty _) member
  have live : InDir vol dir other.1 → (LiveAt (markDeleted vol found) other.1 other.2 otherSlot ↔ _) :=
    fun inside => liveAt_markDeleted chained.geometry inRange here offset deleted.1 inside.isCluster
  constructor
  · rintro ⟨inside, now⟩
    rw [cells] at inside
    obtain ⟨before, different⟩ := (live inside).mp now
    exact ⟨⟨inside, before⟩, different⟩
  · rintro ⟨⟨inside, before⟩, different⟩
    exact ⟨cells.mpr inside, (live inside).mpr ⟨before, different⟩⟩

/-- It takes one entry out of the graph. -/
theorem removed_markDeleted {found : FoundEntry} (directories : Directories vol dirs)
    (here : found.entryCluster = place.1) (offset : found.entryOffset = 32 * place.2)
    (inRange : IsCluster vol.bpb place.1) (deleted : LiveAt vol place.1 place.2 slot) :
    Removed vol (markDeleted vol found) dirs place := by
  have same := sameExcept_markDeleted directories.geometry inRange here
  have outside : ∀ dir ∈ dirs, ∀ cell, InDir vol dir cell → cell ∉ (∅ : Set Nat) :=
    fun _ _ _ _ => Set.notMem_empty _
  refine ⟨directories.of_outside same outside fun dir member cell inside => ?_, same.bpb, ?_⟩
  · exact zerosLast_markDeleted directories.geometry inRange here offset deleted inside.isCluster
      (directories.zeros dir member cell inside)
  · intro dir member other otherSlot
    exact entryAt_markDeleted directories.toChained here offset inRange deleted member

theorem length_dotName {dots : Nat} (few : dots ≤ 11) : (dotName dots).length = 11 := by
  simp only [dotName, List.length_append, List.length_replicate]
  omega

section DotSlot

variable {dots cluster : Nat}

theorem dotSlot_firstByte (positive : 0 < dots) (few : dots ≤ 11) : (dotSlot dots cluster).firstByte = dot := by
  rw [dotSlot, shortSlot_firstByte (length_dotName few), dotName]
  obtain ⟨dots, rfl⟩ := Nat.exists_eq_succ_of_ne_zero (Nat.ne_of_gt positive)
  rfl

theorem dotSlot_attr (few : dots ≤ 11) : (dotSlot dots cluster).attr = attrDirectory :=
  shortSlot_attr (length_dotName few)

theorem dotSlot_inUse (positive : 0 < dots) (few : dots ≤ 11) : (dotSlot dots cluster).InUse := by
  rw [Slot.InUse, dotSlot_firstByte positive few, dotSlot_attr few]
  decide

end DotSlot

/-- A directory just set up has its dot entries and free slots. -/
theorem clusterSlots_initDirectory (parent : Nat) (geometry : Geometry vol.bpb) (inRange : IsCluster vol.bpb cell) :
    clusterSlots (fat32InitDirectory vol cell parent) cell =
      dotSlot 1 cell :: dotSlot 2 parent ::
        List.replicate (16 * getSectorsPerCluster vol.bpb - 2) (List.replicate 32 0) := by
  have positive : 0 < getSectorsPerCluster vol.bpb := geometry.secPerClus
  have size : getClusterSizeBytes vol.bpb = 32 * (16 * getSectorsPerCluster vol.bpb) := by
    rw [geometry.getClusterSizeBytes_eq]
    omega
  have sized : ∀ slot ∈ [dotSlot 1 cell, dotSlot 2 parent], slot.length = 32 := by
    intro slot member
    rcases List.mem_pair.mp member with rfl | rfl
    · exact length_shortSlot (length_dotName (by decide))
    · exact length_shortSlot (length_dotName (by decide))
  have image : initialDirectory vol.bpb cell parent =
      overwrite (List.replicate (32 * (16 * getSectorsPerCluster vol.bpb)) 0) (32 * 0)
        [dotSlot 1 cell, dotSlot 2 parent].flatten := by
    rw [initialDirectory, size]
    rfl
  have full : (initialDirectory vol.bpb cell parent).length = 512 * getSectorsPerCluster vol.bpb := by
    rw [image, length_overwrite, List.length_replicate]
    · omega
    · rw [length_flatten_of_forall sized, List.length_replicate]
      simp only [List.length_cons, List.length_nil]
      omega
  rw [clusterSlots, fat32InitDirectory, fat32ReadCluster_write_self geometry.toLayout inRange full, slotsOf, image,
    chunks_overwrite 0 (by decide) (by simp) sized, chunks_replicate (by decide)]
  simp [overwrite]

/-- Among the slots of such a directory only the dot entries are live. -/
theorem initDirectory_live {parent count i : Nat} :
    ((dotSlot 1 cell :: dotSlot 2 parent :: List.replicate count (List.replicate 32 0))[i]? = some slot ∧ slot.InUse) ↔
      i = 0 ∧ slot = dotSlot 1 cell ∨ i = 1 ∧ slot = dotSlot 2 parent := by
  match i with
  | 0 =>
      simp only [List.getElem?_cons_zero, Option.some.injEq]
      constructor
      · rintro ⟨rfl, _⟩
        exact .inl ⟨trivial, rfl⟩
      · rintro (⟨_, rfl⟩ | ⟨impossible, _⟩)
        · exact ⟨rfl, dotSlot_inUse (by decide) (by decide)⟩
        · exact absurd impossible (by decide)
  | 1 =>
      simp only [List.getElem?_cons_succ, List.getElem?_cons_zero, Option.some.injEq]
      constructor
      · rintro ⟨rfl, _⟩
        exact .inr ⟨trivial, rfl⟩
      · rintro (⟨impossible, _⟩ | ⟨_, rfl⟩)
        · exact absurd impossible (by decide)
        · exact ⟨rfl, dotSlot_inUse (by decide) (by decide)⟩
  | i + 2 =>
      simp only [List.getElem?_cons_succ]
      constructor
      · rintro ⟨there, inUse⟩
        obtain rfl := List.eq_of_mem_replicate (List.mem_of_getElem? there)
        exact absurd (by decide) inUse.1
      · rintro (⟨impossible, _⟩ | ⟨impossible, _⟩)
        · omega
        · omega

theorem initDirectory_zerosLast {parent count : Nat} :
    ZerosLastIn (dotSlot 1 cell :: dotSlot 2 parent :: List.replicate count (List.replicate 32 0)) := by
  intro i j first second there zero ordered there'
  have nonzero : ∀ dots cluster, 0 < dots → dots ≤ 11 → (dotSlot dots cluster).firstByte ≠ 0 :=
    fun dots cluster positive few => (dotSlot_inUse positive few).1
  match i, j with
  | 0, _ =>
      obtain rfl : dotSlot 1 cell = first := by simpa using there
      exact absurd zero (nonzero 1 cell (by decide) (by decide))
  | 1, _ =>
      obtain rfl : dotSlot 2 parent = first := by simpa using there
      exact absurd zero (nonzero 2 parent (by decide) (by decide))
  | i + 2, j + 2 =>
      simp only [List.getElem?_cons_succ] at there'
      obtain rfl := List.eq_of_mem_replicate (List.mem_of_getElem? there')
      decide

/-- A free cluster was set up as a directory, and nothing else changed. -/
structure SetUp (vol after : Volume) (new parent : Nat) : Prop where
  free : fat32GetNextCluster vol new = 0
  same : vol.SameExcept after {new} {new}
  chain : ClusterChain after new [new]
  slots : clusterSlots after new = dotSlot 1 new :: dotSlot 2 parent ::
    List.replicate (16 * getSectorsPerCluster vol.bpb - 2) (List.replicate 32 0)

theorem setUp_of_allocated {middle : Volume} {new : Nat} (parent : Nat) (geometry : Geometry vol.bpb)
    (allocated : Allocated vol new middle) :
    SetUp vol (fat32InitDirectory (fat32ClearCluster middle new) new parent) new parent := by
  have inRange := allocated.isCluster
  have middleGeometry : Geometry middle.bpb := by
    rw [allocated.same.bpb]
    exact geometry
  have cleared := sameExcept_clearCluster middleGeometry (by rw [allocated.same.bpb]; exact inRange)
  have clearedBpb : (fat32ClearCluster middle new).bpb = vol.bpb := cleared.bpb.trans allocated.same.bpb
  have written := @sameExcept_writeCluster (fat32ClearCluster middle new) new
    (initialDirectory (fat32ClearCluster middle new).bpb new parent) (by rw [clearedBpb]; exact geometry)
    (by rw [clearedBpb]; exact inRange)
  have slots := @clusterSlots_initDirectory (fat32ClearCluster middle new) new parent
    (by rw [clearedBpb]; exact geometry) (by rw [clearedBpb]; exact inRange)
  have chain := (allocated.chain.congr cleared fun _ _ => Set.notMem_empty _).congr written
    fun _ _ => Set.notMem_empty _
  have same := ((allocated.same.mono (subset_refl _) (Set.empty_subset {new})).trans
    (cleared.mono (Set.empty_subset {new}) (subset_refl _))).trans (written.mono (Set.empty_subset {new}) (subset_refl _))
  rw [clearedBpb] at slots
  exact ⟨allocated.free, same, chain, slots⟩

/-- A free cluster that is set up as a directory is a new directory of the graph. -/
theorem SetUp.founded {new parent : Nat} (directories : Directories vol dirs) (setUp : SetUp vol after new parent) :
    Founded vol after dirs new parent := by
  obtain ⟨free, same, chain, slots⟩ := setUp
  have apart : ∀ dir ∈ dirs, ∀ cell, InDir vol dir cell → cell ≠ new := by
    rintro dir member cell inside rfl
    exact inside.next_ne_zero free
  obtain ⟨kept, entries⟩ := directories.congr same fun dir member cell inside =>
    ⟨apart dir member cell inside, apart dir member cell inside⟩
  have fresh : new ∉ dirs := by
    intro member
    obtain ⟨cells, chain'⟩ := directories.chain new member
    exact apart new member new ((inDir_iff chain').mpr chain'.linked.start_mem) rfl
  have before : ∀ dir ∈ dirs, ∀ cell, InDir after dir cell → cell ≠ new := by
    intro dir member cell inside
    rw [directories.toChained.inDir_congr same apart member] at inside
    exact apart dir member cell inside
  have single : ∀ cell, InDir after new cell ↔ cell = new := by
    intro cell
    rw [inDir_iff chain, List.mem_singleton]
  refine ⟨?_, same.bpb, fresh, entries, ?_⟩
  · exact {
      geometry := kept.geometry
      hint := kept.hint
      cwd := kept.cwd
      root := Set.mem_insert_of_mem _ kept.root
      chain := fun dir member => by
        rcases Set.mem_insert_iff.mp member with rfl | old
        · exact ⟨_, chain⟩
        · exact kept.chain dir old
      zeros := fun dir member cell inside => by
        rcases Set.mem_insert_iff.mp member with rfl | old
        · rw [(single cell).mp inside, ZerosLast, slots]
          exact initDirectory_zerosLast
        · exact kept.zeros dir old cell inside
      apart := fun dir member other member' cell inside inside' => by
        rcases Set.mem_insert_iff.mp member with rfl | old
        · rcases Set.mem_insert_iff.mp member' with rfl | old'
          · rfl
          · exact absurd ((single cell).mp inside) (before other old' cell inside')
        · rcases Set.mem_insert_iff.mp member' with rfl | old'
          · exact absurd ((single cell).mp inside') (before dir old cell inside)
          · exact kept.apart dir old other old' cell inside inside' }
  · intro place slot
    constructor
    · rintro ⟨inside, live⟩
      have here := (single _).mp inside
      rw [LiveAt, here, slots, initDirectory_live] at live
      exact live.imp (And.imp_left (Prod.ext here)) (And.imp_left (Prod.ext here))
    · intro entry
      have here : place.1 = new := by rcases entry with ⟨rfl, _⟩ | ⟨rfl, _⟩ <;> rfl
      refine ⟨(single _).mpr here, ?_⟩
      rw [LiveAt, here, slots, initDirectory_live]
      exact entry.imp (And.imp_left (congrArg Prod.snd)) (And.imp_left (congrArg Prod.snd))

theorem founded_of_allocated {middle : Volume} {new : Nat} (parent : Nat) (directories : Directories vol dirs)
    (allocated : Allocated vol new middle) :
    Founded vol (fat32InitDirectory (fat32ClearCluster middle new) new parent) dirs new parent :=
  (setUp_of_allocated parent directories.geometry allocated).founded directories

/-- Freeing the chain of a directory takes the directory out of the graph. -/
theorem dropped_of_freed (directories : Directories vol dirs) (member : dir ∈ dirs)
    (below : dir ≠ getRootDirCluster vol.bpb) (chain : ClusterChain vol dir cells) (freed : Freed vol after cells) :
    Dropped vol after dirs dir := by
  have rest : Directories vol (dirs \ {dir}) :=
    directories.subset Set.sdiff_subset ⟨directories.root, fun same => below same.symm⟩
  obtain ⟨kept, same⟩ := rest.congr freed.same fun other inside cell there =>
    ⟨fun claimed => inside.2 (directories.apart other inside.1 dir member cell there
      ((inDir_iff chain).mpr claimed)), Set.notMem_empty _⟩
  exact ⟨kept, freed.same.bpb, same⟩

/-- `f_sync` rewrites the entry of the file and changes nothing else in the graph. -/
theorem rewritten_sync {fp : Fat32File} (chained : Chained vol dirs) (located : fp.At place)
    (entry : EntryAt vol dir place slot) :
    Rewritten vol (fSync vol fp) dirs place (slot.withFile fp.firstCluster fp.size) := by
  have inRange := entry.inside.isCluster
  have same : vol.SameExcept (fSync vol fp) ∅ {place.1} := by
    rw [fSync, located.1]
    exact sameExcept_writeCluster _ chained.geometry inRange
  have outside : ∀ dir ∈ dirs, ∀ cell, InDir vol dir cell → cell ∉ (∅ : Set Nat) :=
    fun _ _ _ _ => Set.notMem_empty _
  have whole := length_of_clusterSlots entry.live.1
  have slots := clusterSlots_sync chained.geometry inRange located.1 located.2 entry.live.1
  have inside := (List.getElem?_eq_some_iff.mp entry.live.1).1
  have live : ∀ {other : Nat × Nat} {otherSlot : Slot}, IsCluster vol.bpb other.1 →
      (LiveAt (fSync vol fp) other.1 other.2 otherSlot ↔ LiveAt vol other.1 other.2 otherSlot ∧ other ≠ place ∨
        other = place ∧ otherSlot = slot.withFile fp.firstCluster fp.size) := by
    intro other otherSlot otherInRange
    by_cases here : other.1 = place.1
    · rw [LiveAt, here, slots, getElem?_overwrite (by simpa using inside), LiveAt]
      by_cases position : other.2 = place.2
      · have equal : other = place := Prod.ext here position
        rw [if_pos (by simp [position])]
        constructor
        · rintro ⟨new, _⟩
          exact .inr ⟨equal, by simpa [position] using new.symm⟩
        · rintro (⟨_, different⟩ | ⟨_, rfl⟩)
          · exact absurd equal different
          · exact ⟨by simp [position], (Slot.withFile_inUse _ _ whole).mpr entry.live.2⟩
      · have different : other ≠ place := fun equal => position (congrArg Prod.snd equal)
        rw [if_neg (by simp only [List.length_singleton]; omega)]
        simp [different]
    · have different : other ≠ place := fun equal => here (congrArg Prod.fst equal)
      rw [LiveAt, clusterSlots_congr same otherInRange here, LiveAt]
      simp [different]
  refine ⟨chained.of_outside same outside, same, fun dir member other otherSlot => ?_⟩
  have cells := @Chained.inDir_congr vol _ dirs dir other.1 _ _ chained same outside member
  constructor
  · rintro ⟨there, now⟩
    rw [cells] at there
    rcases (live there.isCluster).mp now with ⟨before, different⟩ | ⟨rfl, rfl⟩
    · exact .inl ⟨⟨there, before⟩, different⟩
    · exact .inr ⟨rfl, rfl, there⟩
  · rintro (⟨⟨there, before⟩, different⟩ | ⟨rfl, rfl, there⟩)
    · exact ⟨cells.mpr there, (live there.isCluster).mpr (.inl ⟨before, different⟩)⟩
    · exact ⟨cells.mpr there, (live there.isCluster).mpr (.inr ⟨rfl, rfl⟩)⟩

end Graph

end KeblaOS.Fat32
