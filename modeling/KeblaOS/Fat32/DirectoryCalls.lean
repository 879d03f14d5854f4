import KeblaOS.Fat32.DirectoryGraph

/-!
# Calls on the directory graph

`Listed` says that the entries of the graph fit its directories: what is listed as a
directory is one, and is listed once. On such a graph every path resolves to one of
the directories, and each call is a sequence of the effects of `DirectoryGraph`.
-/

namespace KeblaOS.Fat32

open KeblaOS.Buffer

/-- Every directory that is listed belongs to the graph and is listed by one entry. -/
structure Listed (vol : Volume) (dirs : Set Nat) : Prop extends Directories vol dirs where
  target : ∀ dir ∈ dirs, ∀ place slot, EntryAt vol dir place slot → slot.ListsDirectory →
    slot.firstCluster ∈ dirs ∧ slot.firstCluster ≠ getRootDirCluster vol.bpb
  once : ∀ dir ∈ dirs, ∀ place slot, EntryAt vol dir place slot → slot.ListsDirectory →
    ∀ dir' ∈ dirs, ∀ place' slot', EntryAt vol dir' place' slot' → slot'.ListsDirectory →
    slot.firstCluster = slot'.firstCluster → place = place'

/-- In addition files own no clusters: none is written to by the calls that work on
directories. -/
structure Consistent (vol : Volume) (dirs : Set Nat) : Prop extends Listed vol dirs where
  file : ∀ dir ∈ dirs, ∀ place slot, EntryAt vol dir place slot → ¬ slot.IsDirectory → slot.firstCluster = 0

/-- Paths lead from directory to directory: what is listed as a directory is one. -/
structure Walkable (vol : Volume) (dirs : Set Nat) : Prop extends Chained vol dirs where
  cwd : vol.cwdCluster ∈ dirs
  target : ∀ dir ∈ dirs, ∀ place slot, EntryAt vol dir place slot → slot.ListsDirectory → slot.firstCluster ∈ dirs

section Lookups

variable {vol : Volume} {dirs : Set Nat} {dir parent : Nat} {name path : List UInt8}

theorem Chained.findDir_isSome (chained : Chained vol dirs) (member : dir ∈ dirs) :
    ∃ answer, fat32FindDir vol dir name = some answer := by
  obtain ⟨cells, chain⟩ := chained.chain dir member
  exact fat32FindDir_isSome name chained.geometry chain

/-- `fat32_find_dir` finds entries of the graph, never dot entries. -/
theorem Chained.findDir_found {result : Nat} (chained : Chained vol dirs) (member : dir ∈ dirs)
    (found : fat32FindDir vol dir name = some (some result)) :
    ∃ place slot, EntryAt vol dir place slot ∧ slot.ListsDirectory ∧ slot.name = fat32Format83Name name ∧
      slot.firstCluster = result := by
  obtain ⟨cells, chain⟩ := chained.chain dir member
  obtain ⟨cell, inside, index, slot, live, directory, named, points⟩ :=
    fat32FindDir_found chained.geometry chain found
  refine ⟨(cell, index), slot, ⟨(inDir_iff chain).mpr inside, live⟩, ⟨directory, fun starts => ?_⟩, named, points⟩
  rw [Slot.firstByte_eq_name, named] at starts
  exact fat32Format83Name_ne_dot name starts

/-- What `fat32_find_file` finds is an entry of the graph. -/
theorem Chained.findFile_found {found : FoundEntry} (chained : Chained vol dirs) (member : dir ∈ dirs)
    (returned : fat32FindFile vol dir name = some (some found)) :
    ∃ place : Nat × Nat, found.entryCluster = place.1 ∧ found.entryOffset = 32 * place.2 ∧
      EntryAt vol dir place found.entry := by
  obtain ⟨cells, chain⟩ := chained.chain dir member
  obtain ⟨cell, inside, index, here, offset, live⟩ := fat32FindFile_found chained.geometry chain returned
  exact ⟨(cell, index), here, offset, (inDir_iff chain).mpr inside, live⟩

theorem pathStep_isSome (chained : Chained vol dirs) (member : dir ∈ dirs) :
    ∃ answer, pathStep vol dir name = some answer := by
  unfold pathStep
  split_ifs
  · exact ⟨_, rfl⟩
  · exact chained.findDir_isSome member
  · exact chained.findDir_isSome member

/-- A round of the path loop stays in the graph. -/
theorem Walkable.pathStep_mem {result : Nat} (walkable : Walkable vol dirs) (member : dir ∈ dirs)
    (found : pathStep vol dir name = some (some result)) : result ∈ dirs := by
  have below : ∀ token, fat32FindDir vol dir token = some (some result) → result ∈ dirs := by
    intro token found'
    obtain ⟨place, slot, entry, lists, _, rfl⟩ := walkable.findDir_found member found'
    exact walkable.target dir member place slot entry lists
  unfold pathStep at found
  split_ifs at found
  · obtain rfl : dir = result := by simpa using found
    exact member
  · exact below _ found
  · exact below _ found

/-- The path loop comes back, and what it finds is in the graph. -/
theorem Walkable.pathLoop_cases {tokens : List (List UInt8)} (walkable : Walkable vol dirs) (member : dir ∈ dirs) :
    pathLoop vol dir tokens = some none ∨ ∃ result ∈ dirs, pathLoop vol dir tokens = some (some result) := by
  induction tokens generalizing dir with
  | nil => exact .inr ⟨dir, member, rfl⟩
  | cons token rest ih =>
      obtain ⟨answer, stepped⟩ := @pathStep_isSome vol dirs dir token walkable.toChained member
      rw [pathLoop, stepped]
      cases answer with
      | none => exact .inl rfl
      | some next => exact ih (walkable.pathStep_mem member stepped)

theorem Walkable.pathStart_mem (walkable : Walkable vol dirs) (path : List UInt8) : pathStart vol path ∈ dirs := by
  unfold pathStart
  split_ifs
  · exact walkable.root
  · exact walkable.cwd

theorem Walkable.pathToCluster_mem {result : Nat} (walkable : Walkable vol dirs)
    (resolved : fat32PathToCluster vol path = some (some result)) : result ∈ dirs := by
  rcases @Walkable.pathLoop_cases vol dirs (pathStart vol path) (pathTokens path) walkable
      (walkable.pathStart_mem path) with failed | ⟨other, member, found⟩
  · rw [fat32PathToCluster, failed] at resolved
    simp at resolved
  · rw [fat32PathToCluster, found] at resolved
    obtain rfl : other = result := by simpa using resolved
    exact member

theorem Walkable.parentCluster_mem (walkable : Walkable vol dirs)
    (resolved : parentCluster vol path = some (some parent)) : parent ∈ dirs := by
  unfold parentCluster at resolved
  split_ifs at resolved
  · obtain rfl : vol.cwdCluster = parent := by simpa using resolved
    exact walkable.cwd
  · obtain rfl : getRootDirCluster vol.bpb = parent := by simpa using resolved
    exact walkable.root
  · exact walkable.pathToCluster_mem resolved

theorem Listed.walkable (listed : Listed vol dirs) : Walkable vol dirs where
  toChained := listed.toChained
  cwd := by
    rw [listed.cwd]
    exact listed.root
  target dir member place slot entry lists := (listed.target dir member place slot entry lists).1

theorem Listed.parentCluster_mem (listed : Listed vol dirs)
    (resolved : parentCluster vol path = some (some parent)) : parent ∈ dirs :=
  listed.walkable.parentCluster_mem resolved

end Lookups

/-! ## The writing calls -/

section Calls

variable {vol after : Volume} {dirs : Set Nat} {parent first size : Nat} {name path oldpath newpath : List UInt8}
  {attr : UInt8} {ok : Bool} {mode : Nat}

theorem lastComponent_string (string : 0 ∉ path) : 0 ∉ lastComponent path :=
  fun zero => string ((List.rtakeWhile_suffix _ _).subset zero)

theorem lfnCount_lastComponent (short : path.length < pathBufferSize) : lfnCount (lastComponent path) < 256 := by
  have le : (lastComponent path).length ≤ path.length := (List.rtakeWhile_suffix _ _).length_le
  rw [pathBufferSize] at short
  unfold lfnCount
  split_ifs
  · omega
  · decide

theorem Directories.createDirEntry_cases (directories : Directories vol dirs) (member : parent ∈ dirs)
    (string : 0 ∉ name) (short : lfnCount name < 256)
    (returned : fat32CreateDirEntry vol parent name attr first size = some (ok, after)) :
    (ok = false ∧ after = vol) ∨
      ok = true ∧ ∃ place, Entered vol after dirs parent place (newEntry name attr first size) := by
  obtain ⟨cells, chain⟩ := directories.chain parent member
  rcases fat32CreateDirEntry_cases directories.geometry directories.hint chain returned with
    ⟨failed, same, _⟩ | ⟨succeeded, cells', cell, index, created⟩
  · exact .inl ⟨failed, same⟩
  · exact .inr ⟨succeeded, _, created.entered directories member chain string short⟩

/-- The effect of a successful `f_mkdir`. -/
structure MadeDirectory (vol after : Volume) (dirs : Set Nat) (path : List UInt8) (parent new : Nat)
    (place : Nat × Nat) : Prop where
  resolved : parentCluster vol path = some (some parent)
  member : parent ∈ dirs
  missing : fat32DirExists vol parent (lastComponent path) = some false
  allocated : (fat32AllocateCluster vol).1 = some new
  bounded : new < 4294967296
  effect : ∃ middle, Founded vol middle dirs new parent ∧
    Entered middle after (insert new dirs) parent place (newEntry (lastComponent path) attrDirectory new 0)

/-- An `f_mkdir` that tried to make a directory of a missing name. -/
structure DirectoryRequest (vol after : Volume) (path : List UInt8) (parent : Nat) (ok : Bool) : Prop where
  short : path.length < pathBufferSize
  resolved : parentCluster vol path = some (some parent)
  missing : fat32DirExists vol parent (lastComponent path) = some false
  creation : fat32MkdirInternal vol parent (lastComponent path) = some (ok, after)

/-- What an `f_mkdir` can do to the volume. -/
theorem fMkdir_request (returned : fMkdir vol path = some (ok, after)) :
    (ok = false ∧ after = vol) ∨ ∃ parent, DirectoryRequest vol after path parent ok := by
  have unchanged : some (false, vol) = some (ok, after) → ok = false ∧ after = vol := by
    intro same
    obtain ⟨rfl, rfl⟩ := Prod.mk.inj (Option.some.inj same)
    exact ⟨rfl, rfl⟩
  unfold fMkdir at returned
  split_ifs at returned with long
  split at returned
  · simp at returned
  · exact .inl (unchanged returned)
  rename_i parent resolved
  dsimp only at returned
  split_ifs at returned with unnamed
  · exact .inl (unchanged returned)
  split at returned
  · simp at returned
  · exact .inl (unchanged returned)
  rename_i missing
  exact .inr ⟨parent, Nat.lt_of_not_le long, resolved, missing, returned⟩

/-- A new directory gets a free cluster, set up before its entry is made. -/
theorem fat32MkdirInternal_allocated {parent : Nat} {name : List UInt8} (geometry : Geometry vol.bpb)
    (hint : 2 ≤ vol.freeClusterNo) (returned : fat32MkdirInternal vol parent name = some (ok, after)) :
    (ok = false ∧ after = vol) ∨ ∃ new middle, (fat32AllocateCluster vol).1 = some new ∧ Allocated vol new middle ∧
      fat32CreateDirEntry (fat32InitDirectory (fat32ClearCluster middle new) new parent) parent name attrDirectory
        new 0 = some (ok, after) := by
  unfold fat32MkdirInternal at returned
  rcases fat32AllocateCluster_cases geometry hint with ⟨failed, _⟩ | ⟨new, middle, found, allocated⟩
  · rw [failed] at returned
    obtain ⟨rfl, rfl⟩ := Prod.mk.inj (Option.some.inj returned)
    exact .inl ⟨rfl, rfl⟩
  · rw [found] at returned
    exact .inr ⟨new, middle, by rw [found], allocated, returned⟩

/-- `f_mkdir` makes a directory or leaves the graph alone. A cluster that was allocated for a
directory that found no room in its parent is lost, but in no chain. -/
theorem Listed.fMkdir_cases (listed : Listed vol dirs) (string : 0 ∉ path)
    (returned : fMkdir vol path = some (ok, after)) :
    (ok = false ∧ Directories after dirs ∧ SameEntries vol after dirs ∧ after.bpb = vol.bpb) ∨
      ok = true ∧ ∃ parent new place, MadeDirectory vol after dirs path parent new place := by
  rcases fMkdir_request returned with ⟨failed, rfl⟩ | ⟨parent, request⟩
  · exact .inl ⟨failed, listed.toDirectories, fun _ _ _ _ => Iff.rfl, rfl⟩
  have member := listed.parentCluster_mem request.resolved
  rcases fat32MkdirInternal_allocated listed.geometry listed.hint request.creation with
    ⟨failed, rfl⟩ | ⟨new, middle, found, allocated, creation⟩
  · exact .inl ⟨failed, listed.toDirectories, fun _ _ _ _ => Iff.rfl, rfl⟩
  · have founded := founded_of_allocated parent listed.toDirectories allocated
    have bounded : new < 4294967296 := by
      have numbers := listed.geometry.clusterNumbers
      have upper := allocated.isCluster.2
      omega
    rcases founded.directories.createDirEntry_cases (Set.mem_insert_of_mem _ member)
        (lastComponent_string string) (lfnCount_lastComponent request.short) creation with
      ⟨failed, rfl⟩ | ⟨succeeded, place, entered⟩
    · left
      refine ⟨failed, founded.directories.subset (Set.subset_insert _ _) ?_, founded.same, founded.bpb⟩
      rw [founded.bpb]
      exact listed.root
    · exact .inr ⟨succeeded, parent, new, place, request.resolved, member, request.missing, found, bounded, _, founded,
        entered⟩

/-- The effect of an `f_open` that created its file. -/
structure CreatedFile (vol after : Volume) (dirs : Set Nat) (path : List UInt8) (parent : Nat)
    (place : Nat × Nat) : Prop where
  resolved : parentCluster vol path = some (some parent)
  member : parent ∈ dirs
  missing : fat32FindFile vol parent (lastComponent path) = some none
  effect : Entered vol after dirs parent place (newEntry (lastComponent path) attrArchive 0 0)

/-- An `f_open` that tried to enter a missing name. -/
structure FileRequest (vol after : Volume) (path : List UInt8) (mode parent : Nat) (done : Bool) : Prop where
  requested : mode &&& (faCreate ||| faCreateAlways) ≠ 0
  resolved : parentCluster vol path = some (some parent)
  missing : fat32FindFile vol parent (lastComponent path) = some none
  creation : fat32CreateDirEntry vol parent (lastComponent path) attrArchive 0 0 = some (done, after)

/-- What an `f_open` can do to the volume. -/
theorem fOpen_request {file : Option Fat32File} (returned : fOpen vol path mode = some (file, after)) :
    after = vol ∨ ∃ parent done, FileRequest vol after path mode parent done := by
  have unchanged : ∀ reply, some (reply, vol) = some (file, after) → after = vol :=
    fun reply same => (Prod.mk.inj (Option.some.inj same)).2.symm
  unfold fOpen at returned
  split at returned
  · simp at returned
  · exact .inl (unchanged _ returned)
  rename_i parent resolved
  dsimp only at returned
  split at returned
  · simp at returned
  · exact .inl (unchanged _ returned)
  rename_i missing
  split_ifs at returned with requested
  · exact .inl (unchanged _ returned)
  split at returned
  · simp at returned
  · rename_i middle creation
    obtain ⟨_, rfl⟩ := Prod.mk.inj (Option.some.inj returned)
    exact .inr ⟨parent, false, requested, resolved, missing, creation⟩
  · rename_i middle creation
    obtain ⟨result, _, shape⟩ := Option.map_eq_some_iff.mp returned
    obtain ⟨_, rfl⟩ := Prod.mk.inj shape
    exact .inr ⟨parent, true, requested, resolved, missing, creation⟩

theorem Listed.fOpen_cases {file : Option Fat32File} (listed : Listed vol dirs) (string : 0 ∉ path)
    (short : mode &&& (faCreate ||| faCreateAlways) ≠ 0 → ∀ parent, parentCluster vol path = some (some parent) →
      fat32FindFile vol parent (lastComponent path) = some none → lfnCount (lastComponent path) < 256)
    (returned : fOpen vol path mode = some (file, after)) :
    after = vol ∨ ∃ parent place, CreatedFile vol after dirs path parent place := by
  rcases fOpen_request returned with same | ⟨parent, done, request⟩
  · exact .inl same
  · have member := listed.parentCluster_mem request.resolved
    have few := short request.requested parent request.resolved request.missing
    rcases listed.toDirectories.createDirEntry_cases member (lastComponent_string string) few request.creation with
      ⟨_, same⟩ | ⟨_, place, entered⟩
    · exact .inl same
    · exact .inr ⟨parent, place, request.resolved, member, request.missing, entered⟩

/-- The effect of a successful `f_rename`. -/
structure RenamedEntry (vol after : Volume) (dirs : Set Nat) (oldpath newpath : List UInt8)
    (oldParent newParent : Nat) (found : FoundEntry) (oldPlace newPlace : Nat × Nat) : Prop where
  oldResolved : parentCluster vol oldpath = some (some oldParent)
  newResolved : parentCluster vol newpath = some (some newParent)
  oldMember : oldParent ∈ dirs
  newMember : newParent ∈ dirs
  lookup : fat32FindFile vol oldParent (lastComponent oldpath) = some (some found)
  cluster : found.entryCluster = oldPlace.1
  offset : found.entryOffset = 32 * oldPlace.2
  entry : EntryAt vol oldParent oldPlace found.entry
  missing : fat32DirExists vol newParent (lastComponent newpath) = some false
  effect : ∃ middle, Entered vol middle dirs newParent newPlace (newEntry (lastComponent newpath) found.entry.attr
      found.entry.firstCluster found.entry.fileSize) ∧ Removed middle after dirs oldPlace

theorem fat32SplitPath_eq_some {result : Nat × List UInt8}
    (split : fat32SplitPath vol path = some (some result)) :
    path.length < pathBufferSize ∧ parentCluster vol path = some (some result.1) ∧
      result.2 = lastComponent path := by
  unfold fat32SplitPath at split
  split_ifs at split with short
  obtain ⟨answer, resolved, shape⟩ := Option.map_eq_some_iff.mp split
  obtain ⟨parent, rfl, rfl⟩ := Option.map_eq_some_iff.mp shape
  exact ⟨short, resolved, rfl⟩

/-- An `f_rename` that found the old name and tried to enter the new one. -/
structure RenameRequest (vol middle : Volume) (oldpath newpath : List UInt8) (oldParent newParent : Nat)
    (found : FoundEntry) (done : Bool) : Prop where
  oldResolved : parentCluster vol oldpath = some (some oldParent)
  lookup : fat32FindFile vol oldParent (lastComponent oldpath) = some (some found)
  short : newpath.length < pathBufferSize
  newResolved : parentCluster vol newpath = some (some newParent)
  missing : fat32DirExists vol newParent (lastComponent newpath) = some false
  creation : fat32CreateDirEntry vol newParent (lastComponent newpath) found.entry.attr found.entry.firstCluster
    found.entry.fileSize = some (done, middle)

/-- What an `f_rename` can do to the volume. -/
theorem fRename_request (returned : fRename vol oldpath newpath = some (ok, after)) :
    (ok = false ∧ after = vol) ∨ ∃ middle oldParent newParent found,
      RenameRequest vol middle oldpath newpath oldParent newParent found ok ∧
        after = if ok then markDeleted middle found else middle := by
  have unchanged : some (false, vol) = some (ok, after) → ok = false ∧ after = vol := by
    intro same
    obtain ⟨rfl, rfl⟩ := Prod.mk.inj (Option.some.inj same)
    exact ⟨rfl, rfl⟩
  unfold fRename at returned
  split at returned
  · simp at returned
  · exact .inl (unchanged returned)
  rename_i oldParent oldname oldSplit
  obtain ⟨_, oldResolved, rfl⟩ := fat32SplitPath_eq_some oldSplit
  split at returned
  · simp at returned
  · exact .inl (unchanged returned)
  rename_i found lookup
  split at returned
  · simp at returned
  · exact .inl (unchanged returned)
  rename_i newParent newname newSplit
  obtain ⟨short, newResolved, rfl⟩ := fat32SplitPath_eq_some newSplit
  split at returned
  · simp at returned
  · exact .inl (unchanged returned)
  rename_i missing
  split at returned
  · simp at returned
  · rename_i middle creation
    obtain ⟨rfl, rfl⟩ := Prod.mk.inj (Option.some.inj returned)
    exact .inr ⟨_, oldParent, newParent, found, ⟨oldResolved, lookup, short, newResolved, missing, creation⟩, rfl⟩
  · rename_i middle creation
    obtain ⟨rfl, rfl⟩ := Prod.mk.inj (Option.some.inj returned)
    exact .inr ⟨middle, oldParent, newParent, found, ⟨oldResolved, lookup, short, newResolved, missing, creation⟩, rfl⟩

theorem Listed.fRename_cases (listed : Listed vol dirs) (string : 0 ∉ newpath)
    (returned : fRename vol oldpath newpath = some (ok, after)) :
    after = vol ∨ ∃ oldParent newParent found oldPlace newPlace,
      RenamedEntry vol after dirs oldpath newpath oldParent newParent found oldPlace newPlace := by
  rcases fRename_request returned with ⟨_, same⟩ | ⟨middle, oldParent, newParent, found, request, rfl⟩
  · exact .inl same
  · have oldMember := listed.parentCluster_mem request.oldResolved
    have newMember := listed.parentCluster_mem request.newResolved
    obtain ⟨oldPlace, cluster, offset, entry⟩ := listed.toDirectories.findFile_found oldMember request.lookup
    rcases listed.toDirectories.createDirEntry_cases newMember (lastComponent_string string)
        (lfnCount_lastComponent request.short) request.creation with ⟨rfl, same⟩ | ⟨rfl, newPlace, entered⟩
    · exact .inl same
    · -- creating the new entry has not moved the old one
      have still := (entered.entries oldParent oldMember oldPlace found.entry).mpr (.inl entry)
      have removed := removed_markDeleted entered.directories cluster offset still.inside.isCluster still.live
      exact .inr ⟨oldParent, newParent, found, oldPlace, newPlace, request.oldResolved, request.newResolved, oldMember,
        newMember, request.lookup, cluster, offset, entry, request.missing, middle, entered, removed⟩

/-- The effect of a successful `f_unlink`: the entry is removed and its directory, if it lists
one, dropped. -/
structure UnlinkedEntry (vol after : Volume) (dirs : Set Nat) (path : List UInt8) (parent : Nat)
    (found : FoundEntry) (place : Nat × Nat) : Prop where
  resolved : parentCluster vol path = some (some parent)
  member : parent ∈ dirs
  lookup : fat32FindFile vol parent (lastComponent path) = some (some found)
  entry : EntryAt vol parent place found.entry
  effect : Removed vol after dirs place ∨ ∃ middle, found.entry.ListsDirectory ∧
    Dropped vol middle dirs found.entry.firstCluster ∧ Removed middle after (dirs \ {found.entry.firstCluster}) place

/-- The entry a path leads to is not a dot entry. -/
def AvoidsDots (vol : Volume) (path : List UInt8) : Prop :=
  ∀ parent found, parentCluster vol path = some (some parent) →
    fat32FindFile vol parent (lastComponent path) = some (some found) →
    found.entry.IsDirectory → found.entry.ListsDirectory

/-- An `f_unlink` that found its entry. -/
structure UnlinkRequest (vol middle : Volume) (path : List UInt8) (parent : Nat) (found : FoundEntry) : Prop where
  resolved : parentCluster vol path = some (some parent)
  lookup : fat32FindFile vol parent (lastComponent path) = some (some found)
  freeing : (found.entry.firstCluster = 0 ∧ middle = vol) ∨ found.entry.firstCluster ≠ 0 ∧
    ∃ done, fat32FreeClusterChain vol found.entry.firstCluster = some (done, middle)

/-- What an `f_unlink` can do to the volume. -/
theorem fUnlink_request (returned : fUnlink vol path = some (ok, after)) :
    (ok = false ∧ after = vol) ∨ ok = true ∧ ∃ middle parent found, UnlinkRequest vol middle path parent found ∧
      after = markDeleted middle found := by
  unfold fUnlink at returned
  split_ifs at returned
  split at returned
  · simp at returned
  · simp at returned
  rename_i parent resolved
  split at returned
  · simp at returned
  · obtain ⟨rfl, rfl⟩ := Prod.mk.inj (Option.some.inj returned)
    exact .inl ⟨rfl, rfl⟩
  rename_i found lookup
  split_ifs at returned with empty
  · obtain ⟨rfl, rfl⟩ := Prod.mk.inj (Option.some.inj returned)
    exact .inr ⟨rfl, vol, parent, found, ⟨resolved, lookup, .inl ⟨empty, rfl⟩⟩, rfl⟩
  · obtain ⟨⟨done, middle⟩, freeing, shape⟩ := Option.map_eq_some_iff.mp returned
    obtain ⟨rfl, rfl⟩ := Prod.mk.inj shape
    exact .inr ⟨rfl, middle, parent, found, ⟨resolved, lookup, .inr ⟨empty, done, freeing⟩⟩, rfl⟩

/-- The clusters of a chain are freed. -/
theorem UnlinkRequest.freed {middle : Volume} {found : FoundEntry} {cells : List Nat}
    (request : UnlinkRequest vol middle path parent found) (geometry : Geometry vol.bpb)
    (owned : OwnedChain vol found.entry.firstCluster cells) : Freed vol middle cells := by
  rcases request.freeing with ⟨empty, rfl⟩ | ⟨nonempty, done, freeing⟩
  · rcases owned with ⟨_, rfl⟩ | chain
    · exact ⟨.refl _ _ _, fun _ inside => absurd inside List.not_mem_nil, rfl⟩
    · exact absurd empty chain.start_ne_zero
  · rcases owned with ⟨empty, _⟩ | chain
    · exact absurd empty nonempty
    · obtain ⟨middle', freeing', freed⟩ := fat32FreeClusterChain_eq geometry chain
      obtain ⟨_, rfl⟩ := Prod.mk.inj (Option.some.inj (freeing.symm.trans freeing'))
      exact freed

theorem Consistent.fUnlink_cases (consistent : Consistent vol dirs) (avoids : AvoidsDots vol path)
    (returned : fUnlink vol path = some (ok, after)) :
    after = vol ∨ ∃ parent found place, UnlinkedEntry vol after dirs path parent found place := by
  rcases fUnlink_request returned with ⟨_, same⟩ | ⟨_, middle, parent, found, request, rfl⟩
  · exact .inl same
  have member := consistent.toListed.parentCluster_mem request.resolved
  obtain ⟨place, cluster, offset, entry⟩ := consistent.toListed.toDirectories.findFile_found member request.lookup
  rcases request.freeing with ⟨_, rfl⟩ | ⟨nonempty, _⟩
  · exact .inr ⟨parent, found, place, request.resolved, member, request.lookup, entry,
      .inl (removed_markDeleted consistent.toListed.toDirectories cluster offset entry.inside.isCluster entry.live)⟩
  · have directory : found.entry.IsDirectory := by
      by_contra file
      exact nonempty (consistent.file parent member place found.entry entry file)
    have lists := avoids parent found request.resolved request.lookup directory
    obtain ⟨listed, below⟩ := consistent.target parent member place found.entry entry lists
    obtain ⟨cells, chain⟩ := consistent.chain _ listed
    have freed := request.freed consistent.geometry (.inr chain)
    have dropped := dropped_of_freed consistent.toListed.toDirectories listed below chain freed
    have inRange : IsCluster middle.bpb place.1 := by
      rw [dropped.bpb]
      exact entry.inside.isCluster
    have live : LiveAt middle place.1 place.2 found.entry := by
      rw [LiveAt, clusterSlots_congr freed.same entry.inside.isCluster (Set.notMem_empty _)]
      exact entry.live
    exact .inr ⟨parent, found, place, request.resolved, member, request.lookup, entry, .inr ⟨middle, lists, dropped,
      removed_markDeleted dropped.directories cluster offset inRange live⟩⟩

end Calls

/-! ## Consistency is kept -/

section Kept

variable {vol after : Volume} {dirs : Set Nat} {parent : Nat} {path : List UInt8}

theorem Consistent.of_same (consistent : Consistent vol dirs) (directories : Directories after dirs)
    (same : SameEntries vol after dirs) (bpb : after.bpb = vol.bpb) : Consistent after dirs where
  toDirectories := directories
  target dir member place slot entry lists := by
    rw [bpb]
    exact consistent.target dir member place slot ((same dir member place slot).mp entry) lists
  once dir member place slot entry lists dir' member' place' slot' entry' lists' equal :=
    consistent.once dir member place slot ((same dir member place slot).mp entry) lists dir' member' place' slot'
      ((same dir' member' place' slot').mp entry') lists' equal
  file dir member place slot entry plain :=
    consistent.file dir member place slot ((same dir member place slot).mp entry) plain

/-- An entry takes the place of those in `gone`. It may list a directory that no other entry
lists. -/
theorem Consistent.replace (consistent : Consistent vol dirs) (gone : Set (Nat × Nat)) (place : Nat × Nat)
    (new : Slot) (directories : Directories after dirs) (bpb : after.bpb = vol.bpb)
    (entries : ∀ dir ∈ dirs, ∀ other slot, EntryAt after dir other slot →
      (EntryAt vol dir other slot ∨ other = place ∧ slot = new) ∧ other ∉ gone)
    (fits : new.ListsDirectory → (new.firstCluster ∈ dirs ∧ new.firstCluster ≠ getRootDirCluster vol.bpb) ∧
      ∀ dir ∈ dirs, ∀ other slot, EntryAt vol dir other slot → slot.ListsDirectory →
        slot.firstCluster = new.firstCluster → other ∈ gone)
    (plain : ¬ new.IsDirectory → new.firstCluster = 0) : Consistent after dirs where
  toDirectories := directories
  target dir member other slot entry lists := by
    rw [bpb]
    rcases (entries dir member other slot entry).1 with old | ⟨_, rfl⟩
    · exact consistent.target dir member other slot old lists
    · exact (fits lists).1
  once dir member other slot entry lists dir' member' other' slot' entry' lists' equal := by
    obtain ⟨origin, kept⟩ := entries dir member other slot entry
    obtain ⟨origin', kept'⟩ := entries dir' member' other' slot' entry'
    rcases origin with old | ⟨rfl, rfl⟩
    · rcases origin' with old' | ⟨rfl, rfl⟩
      · exact consistent.once dir member other slot old lists dir' member' other' slot' old' lists' equal
      · exact absurd ((fits lists').2 dir member other slot old lists equal) kept
    · rcases origin' with old' | ⟨rfl, rfl⟩
      · exact absurd ((fits lists).2 dir' member' other' slot' old' lists' equal.symm) kept'
      · rfl
  file dir member other slot entry notDirectory := by
    rcases (entries dir member other slot entry).1 with old | ⟨_, rfl⟩
    · exact consistent.file dir member other slot old notDirectory
    · exact plain notDirectory

/-- Entries and directories may go as long as no entry lists a directory that is gone. -/
theorem Consistent.fewer {fewer : Set Nat} (consistent : Consistent vol dirs) (subset : fewer ⊆ dirs)
    (directories : Directories after fewer) (bpb : after.bpb = vol.bpb)
    (entries : ∀ dir ∈ fewer, ∀ place slot, EntryAt after dir place slot → EntryAt vol dir place slot)
    (listed : ∀ dir ∈ fewer, ∀ place slot, EntryAt after dir place slot → slot.ListsDirectory →
      slot.firstCluster ∈ fewer) : Consistent after fewer where
  toDirectories := directories
  target dir member place slot entry lists := by
    rw [bpb]
    exact ⟨listed dir member place slot entry lists, (consistent.target dir (subset member) place slot
      (entries dir member place slot entry) lists).2⟩
  once dir member place slot entry lists dir' member' place' slot' entry' lists' equal :=
    consistent.once dir (subset member) place slot (entries dir member place slot entry) lists
      dir' (subset member') place' slot' (entries dir' member' place' slot' entry') lists' equal
  file dir member place slot entry plain :=
    consistent.file dir (subset member) place slot (entries dir member place slot entry) plain

theorem dotSlot_lists {dots cluster : Nat} (positive : 0 < dots) (few : dots ≤ 11) :
    ¬ (dotSlot dots cluster).ListsDirectory :=
  fun lists => lists.2 (dotSlot_firstByte positive few)

/-- A founded directory has dot entries only, and nothing lists it yet. -/
theorem Founded.entryAt_cases {new dir : Nat} {place : Nat × Nat} {slot : Slot}
    (founded : Founded vol after dirs new parent) (member : dir ∈ insert new dirs)
    (entry : EntryAt after dir place slot) :
    (dir ∈ dirs ∧ EntryAt vol dir place slot) ∨ dir = new ∧ slot.IsDirectory ∧ slot.firstByte = dot := by
  rcases Set.mem_insert_iff.mp member with rfl | old
  · right
    rcases (founded.entries place slot).mp entry with ⟨_, rfl⟩ | ⟨_, rfl⟩
    · refine ⟨rfl, ?_, dotSlot_firstByte (by decide) (by decide)⟩
      rw [Slot.IsDirectory, dotSlot_attr (by decide)]
      decide
    · refine ⟨rfl, ?_, dotSlot_firstByte (by decide) (by decide)⟩
      rw [Slot.IsDirectory, dotSlot_attr (by decide)]
      decide
  · exact .inl ⟨old, (founded.same dir old place slot).mp entry⟩

theorem Founded.consistent {new : Nat} (consistent : Consistent vol dirs)
    (founded : Founded vol after dirs new parent) : Consistent after (insert new dirs) where
  toDirectories := founded.directories
  target dir member place slot entry lists := by
    rcases founded.entryAt_cases member entry with ⟨old, entry'⟩ | ⟨_, _, dots⟩
    · have target := consistent.target dir old place slot entry' lists
      rw [founded.bpb]
      exact ⟨Set.mem_insert_of_mem _ target.1, target.2⟩
    · exact absurd dots lists.2
  once dir member place slot entry lists dir' member' place' slot' entry' lists' equal := by
    rcases founded.entryAt_cases member entry with ⟨old, entry⟩ | ⟨_, _, dots⟩
    · rcases founded.entryAt_cases member' entry' with ⟨old', entry'⟩ | ⟨_, _, dots⟩
      · exact consistent.once dir old place slot entry lists dir' old' place' slot' entry' lists' equal
      · exact absurd dots lists'.2
    · exact absurd dots lists.2
  file dir member place slot entry plain := by
    rcases founded.entryAt_cases member entry with ⟨old, entry'⟩ | ⟨_, directory, _⟩
    · exact consistent.file dir old place slot entry' plain
    · exact absurd directory plain

theorem newEntry_isDirectory {name : List UInt8} {attr : UInt8} {first size : Nat} :
    (newEntry name attr first size).IsDirectory ↔ attr &&& attrDirectory ≠ 0 := by
  rw [Slot.IsDirectory, newEntry_attr]

theorem MadeDirectory.consistent {new : Nat} {place : Nat × Nat} (consistent : Consistent vol dirs)
    (made : MadeDirectory vol after dirs path parent new place) : Consistent after (insert new dirs) := by
  obtain ⟨middle, founded, entered⟩ := made.effect
  refine (founded.consistent consistent).replace ∅ place (newEntry (lastComponent path) attrDirectory new 0)
    entered.directories entered.bpb
    (fun dir member other slot entry => ⟨?_, Set.notMem_empty other⟩) (fun _ => ⟨?_, ?_⟩) (fun plain => ?_)
  · exact ((entered.entries dir member other slot).mp entry).imp id fun new => ⟨new.2.1, new.2.2.1⟩
  · rw [newEntry_firstCluster made.bounded, founded.bpb]
    refine ⟨Set.mem_insert _ _, ?_⟩
    rintro rfl
    exact founded.fresh consistent.root
  · intro dir member other slot entry lists equal
    rw [newEntry_firstCluster made.bounded] at equal
    rcases founded.entryAt_cases member entry with ⟨old, entry'⟩ | ⟨_, _, dots⟩
    · refine absurd (consistent.target dir old other slot entry' lists).1 ?_
      rw [equal]
      exact founded.fresh
    · exact absurd dots lists.2
  · exact absurd (newEntry_isDirectory.mpr (by decide)) plain

theorem CreatedFile.consistent {place : Nat × Nat} (consistent : Consistent vol dirs)
    (created : CreatedFile vol after dirs path parent place) : Consistent after dirs := by
  have entered := created.effect
  have plain : ¬ (newEntry (lastComponent path) attrArchive 0 0).IsDirectory := by
    rw [newEntry_isDirectory]
    decide
  refine consistent.replace ∅ place (newEntry (lastComponent path) attrArchive 0 0) entered.directories entered.bpb
    (fun dir member other slot entry => ⟨?_, Set.notMem_empty other⟩) (fun lists => absurd lists.1 plain)
    (fun _ => newEntry_firstCluster (by decide))
  exact ((entered.entries dir member other slot).mp entry).imp id fun new => ⟨new.2.1, new.2.2.1⟩

theorem RenamedEntry.consistent {oldpath newpath : List UInt8} {oldParent newParent : Nat} {found : FoundEntry}
    {oldPlace newPlace : Nat × Nat} (consistent : Consistent vol dirs)
    (avoids : found.entry.IsDirectory → found.entry.ListsDirectory)
    (renamed : RenamedEntry vol after dirs oldpath newpath oldParent newParent found oldPlace newPlace) :
    Consistent after dirs := by
  obtain ⟨middle, entered, removed⟩ := renamed.effect
  have first := @newEntry_firstCluster found.entry.firstCluster found.entry.fileSize (lastComponent newpath)
    found.entry.attr found.entry.firstCluster_lt
  refine consistent.replace {oldPlace} newPlace (newEntry (lastComponent newpath) found.entry.attr
    found.entry.firstCluster found.entry.fileSize) removed.directories (removed.bpb.trans entered.bpb)
    (fun dir member other slot entry => ⟨?_, ?_⟩) (fun lists => ?_) (fun plain => ?_)
  · obtain ⟨entry', _⟩ := (removed.entries dir member other slot).mp entry
    exact ((entered.entries dir member other slot).mp entry').imp id fun new => ⟨new.2.1, new.2.2.1⟩
  · exact ((removed.entries dir member other slot).mp entry).2
  · have listed := avoids (newEntry_isDirectory.mp lists.1)
    rw [first]
    refine ⟨consistent.target oldParent renamed.oldMember oldPlace found.entry renamed.entry listed, ?_⟩
    intro dir member other slot entry lists' equal
    exact consistent.once dir member other slot entry lists' oldParent renamed.oldMember oldPlace found.entry
      renamed.entry listed equal
  · rw [first]
    exact consistent.file oldParent renamed.oldMember oldPlace found.entry renamed.entry
      fun directory => plain (newEntry_isDirectory.mpr directory)

/-- A deletion keeps the graph consistent. -/
theorem Removed.consistent {place : Nat × Nat} (consistent : Consistent vol dirs)
    (removed : Removed vol after dirs place) : Consistent after dirs := by
  have entries : ∀ dir ∈ dirs, ∀ other slot, EntryAt after dir other slot → EntryAt vol dir other slot :=
    fun dir member other slot entry => ((removed.entries dir member other slot).mp entry).1
  refine consistent.fewer subset_rfl removed.directories removed.bpb entries ?_
  exact fun dir member other slot entry lists =>
    (consistent.target dir member other slot (entries dir member other slot entry) lists).1

/-- So does a deletion after the chain of the directory was freed, because only the entry that was
deleted listed the directory. -/
theorem Removed.consistent_of_dropped {middle : Volume} {place : Nat × Nat} {slot : Slot}
    (consistent : Consistent vol dirs) (member : parent ∈ dirs) (entry : EntryAt vol parent place slot)
    (lists : slot.ListsDirectory) (dropped : Dropped vol middle dirs slot.firstCluster)
    (removed : Removed middle after (dirs \ {slot.firstCluster}) place) :
    Consistent after (dirs \ {slot.firstCluster}) := by
  have entries : ∀ dir ∈ dirs \ {slot.firstCluster}, ∀ other otherSlot, EntryAt after dir other otherSlot →
      EntryAt vol dir other otherSlot := fun dir member other otherSlot entry =>
    (dropped.same dir member other otherSlot).mp ((removed.entries dir member other otherSlot).mp entry).1
  refine consistent.fewer Set.sdiff_subset removed.directories (removed.bpb.trans dropped.bpb) entries ?_
  intro dir member' other otherSlot entry' lists'
  have before := entries dir member' other otherSlot entry'
  refine ⟨(consistent.target dir member'.1 other otherSlot before lists').1, fun same => ?_⟩
  exact ((removed.entries dir member' other otherSlot).mp entry').2
    (consistent.once dir member'.1 other otherSlot before lists' parent member place slot entry lists same)

theorem UnlinkedEntry.consistent {found : FoundEntry} {place : Nat × Nat} (consistent : Consistent vol dirs)
    (unlinked : UnlinkedEntry vol after dirs path parent found place) :
    ∃ fewer ⊆ dirs, Consistent after fewer ∧
      ∀ dir ∈ fewer, ∀ other slot, EntryAt after dir other slot → EntryAt vol dir other slot := by
  rcases unlinked.effect with removed | ⟨middle, lists, dropped, removed⟩
  · exact ⟨dirs, subset_rfl, removed.consistent consistent, fun dir member other slot entry =>
      ((removed.entries dir member other slot).mp entry).1⟩
  · exact ⟨_, Set.sdiff_subset, removed.consistent_of_dropped consistent unlinked.member unlinked.entry lists dropped,
      fun dir member other slot entry =>
        (dropped.same dir member other slot).mp ((removed.entries dir member other slot).mp entry).1⟩

end Kept

/-! ## An empty volume -/

/-- A volume whose root directory holds at most the volume label. -/
structure EmptyRoot (vol : Volume) : Prop where
  geometry : Geometry vol.bpb
  hint : 2 ≤ vol.freeClusterNo
  cwd : vol.cwdCluster = getRootDirCluster vol.bpb
  chain : ∃ cells, ClusterChain vol (getRootDirCluster vol.bpb) cells
  zeros : ∀ cell, InDir vol (getRootDirCluster vol.bpb) cell → ZerosLast vol cell
  label : ∀ place slot, EntryAt vol (getRootDirCluster vol.bpb) place slot →
    slot.attr = attrVolumeId ∧ slot.firstCluster = 0
  single : ∀ place slot place' slot', EntryAt vol (getRootDirCluster vol.bpb) place slot →
    EntryAt vol (getRootDirCluster vol.bpb) place' slot' → place = place'

theorem EmptyRoot.plain {vol : Volume} (empty : EmptyRoot vol) {place : Nat × Nat} {slot : Slot}
    (entry : EntryAt vol (getRootDirCluster vol.bpb) place slot) : ¬ slot.IsDirectory := by
  rw [Slot.IsDirectory, (empty.label place slot entry).1]
  decide

theorem EmptyRoot.consistent {vol : Volume} (empty : EmptyRoot vol) :
    Consistent vol {getRootDirCluster vol.bpb} where
  geometry := empty.geometry
  hint := empty.hint
  cwd := empty.cwd
  root := rfl
  chain := by
    rintro dir rfl
    exact empty.chain
  zeros := by
    rintro dir rfl
    exact empty.zeros
  apart := by
    rintro dir rfl other rfl cell _ _
    rfl
  target := by
    rintro dir rfl place slot entry lists
    exact absurd lists.1 (empty.plain entry)
  once := by
    rintro dir rfl place slot entry lists
    exact absurd lists.1 (empty.plain entry)
  file := by
    rintro dir rfl place slot entry _
    exact (empty.label place slot entry).2

/-- Ten clusters behind one reserved sector and one FAT sector. -/
def emptyBpb : Bpb :=
  { volumeBpb 0 4096 with rsvdSecCnt := 1, numFATs := 1, fatSz32 := 1, totSec32 := 12 }

/-- A volume with an empty root directory of one cluster. -/
def emptyVolume : Volume := (fat32SetNextCluster ⟨emptyBpb, blankDisk, 2, 2⟩ 2 clusterEndOfChain).2

theorem emptyVolume_geometry : Geometry emptyVolume.bpb := by
  have geometry : Geometry emptyBpb := by refine ⟨⟨?_, ?_, ?_, ?_⟩, ?_, ?_, ?_⟩ <;> decide +kernel
  have inRange : IsCluster (⟨emptyBpb, blankDisk, 2, 2⟩ : Volume).bpb 2 := by decide +kernel
  have bpb : emptyVolume.bpb = emptyBpb := fat32SetNextCluster_bpb clusterEndOfChain geometry.fatArea inRange
  rwa [bpb]

theorem emptyVolume_chain : ClusterChain emptyVolume 2 [2] := by
  refine ⟨.last (by decide +kernel), fun cell member => ?_⟩
  rw [List.mem_singleton.mp member]
  decide +kernel

theorem emptyVolume_slots : clusterSlots emptyVolume 2 = List.replicate 16 (List.replicate 32 0) := by
  decide +kernel

theorem emptyVolume_root : getRootDirCluster emptyVolume.bpb = 2 := by decide +kernel

theorem emptyVolume_no_entry {place : Nat × Nat} {slot : Slot} : ¬ EntryAt emptyVolume 2 place slot := by
  rintro ⟨inside, live⟩
  rw [inDir_iff emptyVolume_chain, List.mem_singleton] at inside
  rw [LiveAt, inside, emptyVolume_slots] at live
  obtain rfl := List.eq_of_mem_replicate (List.mem_of_getElem? live.1)
  exact live.2.1 (by decide)

theorem emptyVolume_emptyRoot : EmptyRoot emptyVolume := by
  refine ⟨emptyVolume_geometry, by decide +kernel, by decide +kernel, ?_, ?_, ?_, ?_⟩
  · rw [emptyVolume_root]
    exact ⟨[2], emptyVolume_chain⟩
  · rw [emptyVolume_root]
    intro cell inside
    rw [inDir_iff emptyVolume_chain, List.mem_singleton] at inside
    rw [ZerosLast, inside, emptyVolume_slots]
    intro i j first second _ _ _ there
    rw [List.eq_of_mem_replicate (List.mem_of_getElem? there)]
    decide
  · rw [emptyVolume_root]
    exact fun _ _ entry => absurd entry emptyVolume_no_entry
  · rw [emptyVolume_root]
    exact fun _ _ _ _ entry => absurd entry emptyVolume_no_entry

end KeblaOS.Fat32
