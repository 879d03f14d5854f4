import KeblaOS.Fat32.OpenFiles

/-!
# Several clients on one volume

A handle remembers where the entry of its file is, and nothing on the volume remembers the
handle. `f_unlink` and `f_rename` free the slot of an entry that is open, and the next entry
may be made there. When no client takes away what is open, the place of a handle stays the
place of its file, and `f_sync` and `f_close` store in no other entry.
-/

namespace KeblaOS.Fat32

open KeblaOS.Buffer

/-- A session and, for each handle, where entries were made since it was opened. No call looks
at these places. -/
structure Shared where
  session : Session
  since : Nat → Set (Nat × Nat)

/-- Calls of the clients. -/
inductive SharedCall where
  | openFile (id : Nat) (path : List UInt8) (mode : Nat)
  | handle (id : Nat) (call : HandleCall)
  | rename (oldpath newpath : List UInt8)
  | unlink (path : List UInt8)

/-- Where `fat32_create_dir_entry` stores the short entry of a name. -/
def newPlaces (vol : Volume) (parent : Nat) (name : List UInt8) : Set (Nat × Nat) :=
  {place | ∃ index after, fat32FindContiguousFreeEntries vol parent (lfnCount name + 1) =
    some (some (place.1, 32 * index), after) ∧ place.2 = index + lfnCount name}

/-- Where a call makes an entry. -/
def SharedCall.madePlaces (vol : Volume) : SharedCall → Set (Nat × Nat)
  | .openFile _ path mode => {place | mode &&& (faCreate ||| faCreateAlways) ≠ 0 ∧
      ∃ parent, parentCluster vol path = some (some parent) ∧
        fat32FindFile vol parent (lastComponent path) = some none ∧ place ∈ newPlaces vol parent (lastComponent path)}
  | .rename oldpath newpath => {place | (fRename vol oldpath newpath).map Prod.fst = some true ∧
      ∃ parent, parentCluster vol newpath = some (some parent) ∧ place ∈ newPlaces vol parent (lastComponent newpath)}
  | .handle _ _ => ∅
  | .unlink _ => ∅

/-- The places of a handle after a call. -/
def Shared.made (shared : Shared) (call : SharedCall) (id : Nat) : Set (Nat × Nat) :=
  shared.since id ∪ call.madePlaces shared.session.vol

/-- One call of a client. An `f_open` that fails leaves the handle as it was. -/
inductive Shared.Step (shared : Shared) : SharedCall → Shared → Prop where
  | opens {id path mode fp after} (returned : fOpen shared.session.vol path mode = some (some fp, after)) :
      Shared.Step shared (.openFile id path mode) ⟨⟨after, Function.update shared.session.handles id (some fp)⟩,
        Function.update (shared.made (.openFile id path mode)) id ∅⟩
  | fails {id path mode after} (returned : fOpen shared.session.vol path mode = some (none, after)) :
      Shared.Step shared (.openFile id path mode) ⟨⟨after, shared.session.handles⟩, shared.made (.openFile id path mode)⟩
  | handle {id call next} (taken : shared.session.Step (id, call) next) :
      Shared.Step shared (.handle id call) ⟨next, shared.made (.handle id call)⟩
  | rename {oldpath newpath ok after} (returned : fRename shared.session.vol oldpath newpath = some (ok, after)) :
      Shared.Step shared (.rename oldpath newpath) ⟨⟨after, shared.session.handles⟩, shared.made (.rename oldpath newpath)⟩
  | unlink {path ok after} (returned : fUnlink shared.session.vol path = some (ok, after)) :
      Shared.Step shared (.unlink path) ⟨⟨after, shared.session.handles⟩, shared.made (.unlink path)⟩

/-- The entry at `place` gets the size and the first cluster of the handle, and nothing else
changes. -/
structure StoresEntry (vol after : Volume) (fp : Fat32File) (place : Nat × Nat) (slot : Slot) : Prop where
  live : LiveAt vol place.1 place.2 slot
  slots : clusterSlots after place.1 = overwrite (clusterSlots vol place.1) place.2 [slot.withFile fp.firstCluster fp.size]
  same : vol.SameExcept after ∅ {place.1}

/-- The call on handle `id` stores in the entry of its file, and no entry was made in this place
since the handle was opened. -/
def Shared.StoresOwnEntry (shared next : Shared) (id : Nat) : Prop :=
  ∃ fp place slot, shared.session.handles id = some fp ∧ fp.At place ∧ place ∉ shared.since id ∧
    StoresEntry shared.session.vol next.session.vol fp place slot

/-! ## Careful clients -/

/-- No handle is open on the entry a path leads to. -/
def Session.SparesOpen (session : Session) (path : List UInt8) : Prop :=
  ∀ parent found id fp, parentCluster session.vol path = some (some parent) →
    fat32FindFile session.vol parent (lastComponent path) = some (some found) → session.handles id = some fp →
    (fp.dirEntryCluster, fp.dirEntryOffset) ≠ (found.entryCluster, found.entryOffset)

/-- A directory a path leads to is not the current one, and no entry in it is open. -/
def Session.SparesDirectory (session : Session) (path : List UInt8) : Prop :=
  ∀ parent found, parentCluster session.vol path = some (some parent) →
    fat32FindFile session.vol parent (lastComponent path) = some (some found) → found.entry.IsDirectory →
    found.entry.firstCluster ≠ session.vol.cwdCluster ∧
      ∀ id fp, session.handles id = some fp → ¬ InDir session.vol found.entry.firstCluster fp.dirEntryCluster

/-- Handles are opened on files, and `f_rename` and `f_unlink` take away neither what is open
nor dot entries. -/
def Session.Careful (session : Session) : SharedCall → Prop
  | .openFile _ path _ => ∀ found, NamesEntry session.vol path found → ¬ found.entry.IsDirectory
  | .handle _ _ => True
  | .rename oldpath _ => AvoidsDots session.vol oldpath ∧ session.SparesOpen oldpath
  | .unlink path => AvoidsDots session.vol path ∧ session.SparesOpen path ∧ session.SparesDirectory path

/-- A call of a careful client. -/
def Shared.CarefulStep (shared : Shared) (call : SharedCall) (next : Shared) : Prop :=
  shared.session.Careful call ∧ shared.Step call next

theorem Shared.CarefulStep.handle {shared : Shared} {id : Nat} {call : HandleCall} {next : Session}
    (taken : shared.session.Step (id, call) next) :
    shared.CarefulStep (.handle id call) ⟨next, shared.made (.handle id call)⟩ :=
  ⟨trivial, .handle taken⟩

/-- Every directory is listed by one entry, the root by none. -/
structure ListedOnce (vol : Volume) (dirs : Set Nat) : Prop where
  below : ∀ dir ∈ dirs, ∀ place slot, EntryAt vol dir place slot → slot.ListsDirectory →
    slot.firstCluster ≠ getRootDirCluster vol.bpb
  once : ∀ dir ∈ dirs, ∀ place slot, EntryAt vol dir place slot → slot.ListsDirectory →
    ∀ dir' ∈ dirs, ∀ place' slot', EntryAt vol dir' place' slot' → slot'.ListsDirectory →
    slot.firstCluster = slot'.firstCluster → place = place'

/-- What careful clients keep: no entry was made where one is open. -/
structure Shared.Guarded (shared : Shared) (dirs : Set Nat) : Prop where
  sound : shared.session.Sound dirs
  cwd : shared.session.vol.cwdCluster ∈ dirs
  tree : ListedOnce shared.session.vol dirs
  kept : ∀ id fp place, shared.session.handles id = some fp → fp.At place → place ∉ shared.since id

section Trees

variable {vol after : Volume} {dirs fewer : Set Nat} {parent newParent : Nat} {oldPlace newPlace : Nat × Nat}
  {old new : Slot}

/-- Directories that are still listed are listed once. -/
theorem ListedOnce.of_fewer (listed : ListedOnce vol dirs) (bpb : after.bpb = vol.bpb) (subset : fewer ⊆ dirs)
    (entries : ∀ dir ∈ fewer, ∀ place slot, EntryAt after dir place slot → slot.ListsDirectory →
      EntryAt vol dir place slot) : ListedOnce after fewer where
  below dir member place slot entry lists := by
    rw [bpb]
    exact listed.below dir (subset member) place slot (entries dir member place slot entry lists) lists
  once dir member place slot entry lists dir' member' place' slot' entry' lists' same :=
    listed.once dir (subset member) place slot (entries dir member place slot entry lists) lists
      dir' (subset member') place' slot' (entries dir' member' place' slot' entry' lists') lists' same

/-- An entry that lists a directory may move to another place. -/
theorem ListedOnce.moved (listed : ListedOnce vol dirs) (bpb : after.bpb = vol.bpb) (member : parent ∈ dirs)
    (source : EntryAt vol parent oldPlace old) (lists : old.ListsDirectory) (target : new.firstCluster = old.firstCluster)
    (entries : ∀ dir ∈ dirs, ∀ place slot, EntryAt after dir place slot →
      EntryAt vol dir place slot ∧ place ≠ oldPlace ∨ place = newPlace ∧ slot = new) : ListedOnce after dirs where
  below dir inDirs place slot entry slotLists := by
    rw [bpb]
    rcases entries dir inDirs place slot entry with ⟨before, _⟩ | ⟨_, rfl⟩
    · exact listed.below dir inDirs place slot before slotLists
    · rw [target]
      exact listed.below parent member oldPlace old source lists
  once dir inDirs place slot entry slotLists dir' inDirs' place' slot' entry' slotLists' same := by
    rcases entries dir inDirs place slot entry with ⟨before, different⟩ | ⟨rfl, rfl⟩
    · rcases entries dir' inDirs' place' slot' entry' with ⟨before', _⟩ | ⟨_, rfl⟩
      · exact listed.once dir inDirs place slot before slotLists dir' inDirs' place' slot' before' slotLists' same
      · rw [target] at same
        exact absurd (listed.once dir inDirs place slot before slotLists parent member oldPlace old source lists same)
          different
    · rcases entries dir' inDirs' place' slot' entry' with ⟨before', different⟩ | ⟨rfl, _⟩
      · rw [target] at same
        exact absurd (listed.once dir' inDirs' place' slot' before' slotLists' parent member oldPlace old source lists
          same.symm) different
      · rfl

end Trees

/-! ## Calls on handles -/

/-- Entries appear at these places and nowhere else. -/
def EntriesAppear (vol after : Volume) (dirs : Set Nat) (places : Set (Nat × Nat)) : Prop :=
  ∀ dir ∈ dirs, ∀ place slot, EntryAt after dir place slot → (∃ before, EntryAt vol dir place before) ∨ place ∈ places

/-- What a call does that makes no directory and moves no handle. -/
structure Session.Frame (session next : Session) (dirs : Set Nat) (places : Set (Nat × Nat)) : Prop where
  bpb : next.vol.bpb = session.vol.bpb
  cwd : next.vol.cwdCluster = session.vol.cwdCluster
  listing : ∀ dir ∈ dirs, ∀ place slot, EntryAt next.vol dir place slot → slot.ListsDirectory →
    EntryAt session.vol dir place slot
  handles : ∀ id fp place, next.handles id = some fp → fp.At place →
    ∃ before, session.handles id = some before ∧ before.At place
  appear : EntriesAppear session.vol next.vol dirs places

section Frames

variable {session next : Session} {dirs : Set Nat} {id : Nat} {fp fp' : Fat32File} {place : Nat × Nat}

theorem Session.Frame.refl (session : Session) (dirs : Set Nat) (places : Set (Nat × Nat)) :
    session.Frame session dirs places where
  bpb := rfl
  cwd := rfl
  listing _ _ _ _ entry _ := entry
  handles _ fp _ isOpen located := ⟨fp, isOpen, located⟩
  appear _ _ _ slot entry := .inl ⟨slot, entry⟩

/-- A handle that moved is still on its entry. -/
theorem updated_at {handles : Nat → Option Fat32File} (opened : handles id = some fp)
    (cluster : fp'.dirEntryCluster = fp.dirEntryCluster) (offset : fp'.dirEntryOffset = fp.dirEntryOffset) :
    ∀ other handle place, Function.update handles id (some fp') other = some handle → handle.At place →
      ∃ before, handles other = some before ∧ before.At place := by
  intro other handle place isOpen located
  by_cases same : other = id
  · subst same
    obtain rfl : fp' = handle := by simpa using isOpen
    exact ⟨fp, opened, cluster.symm.trans located.1, offset.symm.trans located.2⟩
  · exact ⟨handle, by simpa [same] using isOpen, located⟩

/-- `f_sync` and `f_close` store in the entry of the handle. -/
theorem Session.Sound.storesEntry (sound : session.Sound dirs) (opened : session.handles id = some fp)
    (located : fp.At place) : ∃ slot, StoresEntry session.vol (fSync session.vol fp) fp place slot := by
  obtain ⟨place', located', dir, member, slot, entry, _⟩ := sound.handle id fp opened
  obtain rfl := located.unique located'
  have inRange := entry.inside.isCluster
  have slots := clusterSlots_sync sound.chained.geometry inRange located.1 located.2 entry.live.1
  exact ⟨slot, entry.live, slots, (rewritten_sync sound.chained located entry).same⟩

/-- They make no entry and list no new directory. -/
theorem Session.Sound.store_entries {dir : Nat} {slot : Slot} (sound : session.Sound dirs)
    (opened : session.handles id = some fp) (member : dir ∈ dirs) (now : EntryAt (fSync session.vol fp) dir place slot) :
    (∃ before, EntryAt session.vol dir place before) ∧ (slot.ListsDirectory → EntryAt session.vol dir place slot) := by
  obtain ⟨own, located, parent, _, old, entry, file⟩ := sound.handle id fp opened
  rcases ((rewritten_sync sound.chained located entry).entries dir member place slot).mp now with
    ⟨before, _⟩ | ⟨rfl, rfl, inside⟩
  · exact ⟨⟨slot, before⟩, fun _ => before⟩
  · refine ⟨⟨old, inside, entry.live⟩, fun lists => ?_⟩
    have directory := lists.1
    rw [Slot.withFile_isDirectory _ _ (length_of_clusterSlots entry.live.1)] at directory
    exact absurd directory file

theorem Session.Sound.frame {event : Nat × HandleCall} (sound : session.Sound dirs) (taken : session.Step event next) :
    session.Frame next dirs ∅ := by
  have stored : ∀ {id fp handles}, session.handles id = some fp →
      (∀ other handle place, handles other = some handle → handle.At place →
        ∃ before, session.handles other = some before ∧ before.At place) →
      session.Frame ⟨fSync session.vol fp, handles⟩ dirs ∅ := by
    intro id fp handles opened still
    obtain ⟨place, located, _⟩ := sound.handle id fp opened
    obtain ⟨slot, stores⟩ := sound.storesEntry opened located
    exact ⟨stores.same.bpb, stores.same.cwdCluster,
      fun dir member place slot now => (sound.store_entries opened member now).2, still,
      fun dir member place slot now => .inl (sound.store_entries opened member now).1⟩
  cases taken with
  | @write id fp buff result opened returned =>
      obtain ⟨place, located, _⟩ := sound.handle id fp opened
      have owns : session.Owns dirs place fp.firstCluster := .opened opened located
      obtain ⟨cells, owned⟩ := sound.owned place _ owns
      obtain ⟨result', added, returned', wrote⟩ := fWrite_cases buff sound.chained.geometry sound.chained.hint owned
      obtain rfl : result' = result := Option.some.inj (returned'.symm.trans returned)
      have entries := sound.write_entries owns owned wrote
      exact ⟨wrote.grown.same.bpb, wrote.grown.same.cwdCluster,
        fun dir member other slot entry _ => (entries dir member other slot).mp entry,
        updated_at opened wrote.sameEntry.dirEntryCluster wrote.sameEntry.dirEntryOffset,
        fun dir member other slot entry => .inl ⟨slot, (entries dir member other slot).mp entry⟩⟩
  | @read id fp btr bytes fp' opened returned =>
      obtain ⟨_, pos, returned'⟩ := fRead_isSome fp btr sound.chained.geometry
      obtain ⟨_, rfl⟩ := Prod.mk.inj (Option.some.inj (returned.symm.trans returned'))
      exact { Session.Frame.refl session dirs ∅ with handles := updated_at opened rfl rfl }
  | @lseek id fp ofs fp' opened returned =>
      obtain ⟨cluster, returned'⟩ := fLseek_eq fp ofs sound.chained.geometry
      obtain rfl := Option.some.inj (returned.symm.trans returned')
      exact { Session.Frame.refl session dirs ∅ with handles := updated_at opened rfl rfl }
  | @sync id fp opened => exact stored opened fun _ handle _ isOpen located => ⟨handle, isOpen, located⟩
  | @close id fp opened =>
      refine stored opened fun other handle _ isOpen located => ?_
      by_cases same : other = id
      · subst same
        simp at isOpen
      · exact ⟨handle, by simpa [same] using isOpen, located⟩

end Frames

/-! ## New entries -/

section Made

variable {session : Session} {vol after : Volume} {dirs : Set Nat} {parent : Nat} {path name : List UInt8}
  {place : Nat × Nat} {slot : Slot}

/-- No live entry is where a new one is made. -/
theorem newPlaces_vacant {dir : Nat} (chained : Chained vol dirs) (member : parent ∈ dirs)
    (made : place ∈ newPlaces vol parent name) : ¬ EntryAt vol dir place slot := by
  rintro ⟨inside, live⟩
  obtain ⟨cells, chain⟩ := chained.chain parent member
  obtain ⟨index, after, found, number⟩ := made
  rcases fat32FindContiguousFreeEntries_cases chained.geometry chained.hint chain
      (show 0 < lfnCount name + 1 by omega) with
    ⟨failed, _⟩ | ⟨front, cell, back, start, split, _, run, returned⟩ | ⟨cell, middle, hung, _, _, returned⟩
  · simp [failed] at found
  · obtain ⟨answer, _⟩ := Prod.mk.inj (Option.some.inj (returned.symm.trans found))
    obtain ⟨rfl, offset⟩ := Prod.mk.inj (Option.some.inj answer)
    obtain rfl : start = index := by omega
    exact live.2.not_isFree (run.free place.2 slot live.1 (by omega) (by omega))
  · obtain ⟨answer, _⟩ := Prod.mk.inj (Option.some.inj (returned.symm.trans found))
    obtain ⟨rfl, _⟩ := Prod.mk.inj (Option.some.inj answer)
    exact inside.next_ne_zero hung.free

/-- An entry is made where the free run was found. -/
theorem Chained.created_at {cells : List Nat} {attr : UInt8} {first size : Nat} {ok : Bool} (chained : Chained vol dirs)
    (chain : ClusterChain vol parent cells)
    (creation : fat32CreateDirEntry vol parent name attr first size = some (ok, after)) :
    (ok = false ∧ after = vol) ∨ ok = true ∧ ∃ cells' cell index,
      Created vol after parent cells cells' cell index (entrySlots name attr first size) ∧
      (cell, index + lfnCount name) ∈ newPlaces vol parent name := by
  rcases fat32CreateDirEntry_firstFit chained.geometry chained.hint chain creation with
    ⟨failed, same, _⟩ | ⟨succeeded, cells', cell, index, created, ⟨middle, found⟩, _⟩
  · exact .inl ⟨failed, same⟩
  · exact .inr ⟨succeeded, cells', cell, index, created, index, middle, found, rfl⟩

/-- The places a call makes entries at have none before. -/
theorem Session.Sound.made_vacant {call : SharedCall} {dir : Nat} (sound : session.Sound dirs)
    (cwd : session.vol.cwdCluster ∈ dirs) (made : place ∈ call.madePlaces session.vol) :
    ¬ EntryAt session.vol dir place slot := by
  cases call with
  | openFile id path mode =>
      obtain ⟨_, parent, resolved, _, fresh⟩ := made
      exact newPlaces_vacant sound.chained ((sound.walkable cwd).parentCluster_mem resolved) fresh
  | rename oldpath newpath =>
      obtain ⟨_, parent, resolved, fresh⟩ := made
      exact newPlaces_vacant sound.chained ((sound.walkable cwd).parentCluster_mem resolved) fresh
  | handle id call => exact absurd made (Set.notMem_empty _)
  | unlink path => exact absurd made (Set.notMem_empty _)

/-- `f_open` may have entered the name, also where it fails. -/
theorem Session.Sound.fOpen {file : Option Fat32File} {mode : Nat} (id : Nat) (sound : session.Sound dirs)
    (cwd : session.vol.cwdCluster ∈ dirs) (returned : fOpen session.vol path mode = some (file, after)) :
    (⟨after, session.handles⟩ : Session).Sound dirs ∧ session.Frame ⟨after, session.handles⟩ dirs
      ((SharedCall.openFile id path mode).madePlaces session.vol) := by
  rcases fOpen_request returned with rfl | ⟨parent, done, request⟩
  · exact ⟨sound, .refl _ _ _⟩
  · have member := (sound.walkable cwd).parentCluster_mem request.resolved
    obtain ⟨cells, chain⟩ := sound.chained.chain parent member
    rcases sound.chained.created_at chain request.creation with ⟨_, rfl⟩ | ⟨_, cells', cell, index, created, made⟩
    · exact ⟨sound, .refl _ _ _⟩
    · have entries := fun {dir place slot} (inDirs : dir ∈ dirs) =>
        @Created.entryAt_iff _ _ dirs dir parent _ _ _ _ _ _ _ _ slot place sound.chained member chain created inDirs
      refine ⟨sound.create member chain created (by decide), created.same.bpb, created.same.cwdCluster,
        fun dir inDirs place slot entry lists => ?_, fun _ fp _ isOpen located => ⟨fp, isOpen, located⟩,
        fun dir inDirs place slot entry => ?_⟩
      · rcases (entries inDirs).mp entry with before | ⟨_, _, rfl, _⟩
        · exact before
        · exact absurd (newEntry_isDirectory.mp lists.1) (by decide)
      · rcases (entries inDirs).mp entry with before | ⟨_, rfl, _⟩
        · exact .inl ⟨slot, before⟩
        · exact .inr ⟨request.requested, parent, request.resolved, request.missing, made⟩

end Made

/-! ## Taking entries away -/

section Unlink

variable {session : Session} {vol middle : Volume} {dirs fewer : Set Nat} {parent : Nat} {found : FoundEntry}
  {place : Nat × Nat} {cells : List Nat} {path : List UInt8}

/-- The entry at a place and the clusters `cells` may be given up: the directories `fewer` and
the other files do without them. -/
structure Session.Expendable (session : Session) (dirs fewer : Set Nat) (place : Nat × Nat) (cells : List Nat) : Prop where
  subset : fewer ⊆ dirs
  root : getRootDirCluster session.vol.bpb ∈ fewer
  outside : ∀ dir ∈ fewer, ∀ cell, InDir session.vol dir cell → cell ∉ cells
  listed : ∀ dir ∈ fewer, ∀ other slot, EntryAt session.vol dir other slot → other ≠ place → slot.ListsDirectory →
    slot.firstCluster ∈ fewer
  apart : ∀ other first others, other ≠ place → session.Owns dirs other first → OwnedChain session.vol first others →
    ∀ cell ∈ others, cell ∉ cells
  handle : ∀ id fp other, session.handles id = some fp → fp.At other → other ≠ place ∧
    ∃ dir ∈ fewer, InDir session.vol dir other.1

/-- What is left after the clusters are freed and the entry is marked. -/
theorem Session.Expendable.entries (expendable : session.Expendable dirs fewer place cells) (sound : session.Sound dirs)
    (cluster : found.entryCluster = place.1) (offset : found.entryOffset = 32 * place.2)
    (entry : EntryAt session.vol parent place found.entry) (freed : Freed session.vol middle cells) :
    Chained (markDeleted middle found) fewer ∧ session.vol.SameExcept (markDeleted middle found) {cell | cell ∈ cells} {place.1} ∧
      ∀ dir ∈ fewer, ∀ other slot, EntryAt (markDeleted middle found) dir other slot ↔
        EntryAt session.vol dir other slot ∧ other ≠ place := by
  have before := sound.chained.subset expendable.subset expendable.root
  have chained := before.of_outside freed.same expendable.outside
  have entries := before.sameEntries freed.same fun dir member cell inside =>
    ⟨expendable.outside dir member cell inside, Set.notMem_empty _⟩
  have inRange : IsCluster middle.bpb place.1 := by
    rw [freed.same.bpb]
    exact entry.inside.isCluster
  have live : LiveAt middle place.1 place.2 found.entry := by
    rw [LiveAt, clusterSlots_congr freed.same entry.inside.isCluster (Set.notMem_empty _)]
    exact entry.live
  have marked := sameExcept_markDeleted chained.geometry inRange cluster
  refine ⟨chained.of_outside marked fun _ _ _ _ => Set.notMem_empty _,
    (freed.same.mono subset_rfl (Set.empty_subset _)).trans (marked.mono (Set.empty_subset _) subset_rfl),
    fun dir member other slot => ?_⟩
  rw [entryAt_markDeleted chained cluster offset inRange live member, entries dir member other slot]

theorem Session.Expendable.sound (expendable : session.Expendable dirs fewer place cells) (sound : session.Sound dirs)
    (cluster : found.entryCluster = place.1) (offset : found.entryOffset = 32 * place.2)
    (entry : EntryAt session.vol parent place found.entry) (freed : Freed session.vol middle cells) :
    (⟨markDeleted middle found, session.handles⟩ : Session).Sound fewer := by
  obtain ⟨chained, same, entries⟩ := expendable.entries sound cluster offset entry freed
  have inside : ∀ dir ∈ fewer, ∀ cell, InDir (markDeleted middle found) dir cell → InDir session.vol dir cell :=
    fun dir member cell => ((sound.chained.subset expendable.subset expendable.root).inDir_congr same
      expendable.outside member).mp
  refine sound.of_views (0, 0) 0 [] chained (same.copies sound.copies)
    (fun dir member cell there => .inl ⟨dir, expendable.subset member, inside dir member cell there⟩)
    (fun _ none => absurd none List.not_mem_nil) (fun dir member other slot there lists => ?_)
    (fun id fp isOpen => ?_) fun other first owns => .inl ?_
  · obtain ⟨before, different⟩ := (entries dir member other slot).mp there
    exact expendable.listed dir member other slot before different lists
  · obtain ⟨other, located, dir, member, slot, before, file⟩ := sound.handle id fp isOpen
    obtain ⟨different, kept, inFewer, there⟩ := expendable.handle id fp other isOpen located
    obtain rfl := sound.chained.apart dir member kept (expendable.subset inFewer) other.1 before.inside there
    exact ⟨other, located, dir, inFewer, slot, (entries dir inFewer other slot).mpr ⟨before, different⟩, file⟩
  · have before : session.Owns dirs other first ∧ other ≠ place := by
      cases owns with
      | stored member there file =>
          obtain ⟨before, different⟩ := (entries _ member other _).mp there
          exact ⟨.stored (expendable.subset member) before file, different⟩
      | opened isOpen located => exact ⟨.opened isOpen located, (expendable.handle _ _ other isOpen located).1⟩
    obtain ⟨others, owned⟩ := sound.owned other first before.1
    exact ⟨before.1, others, owned, owned.congr same (expendable.apart other first others before.2 before.1 owned),
      fun _ _ => List.not_mem_nil⟩

/-- No open handle is on an entry that is spared. -/
theorem Session.SparesOpen.ne {id : Nat} {fp : Fat32File} {other : Nat × Nat} (spares : session.SparesOpen path)
    (resolved : parentCluster session.vol path = some (some parent))
    (lookup : fat32FindFile session.vol parent (lastComponent path) = some (some found))
    (cluster : found.entryCluster = place.1) (offset : found.entryOffset = 32 * place.2)
    (isOpen : session.handles id = some fp) (located : fp.At other) : other ≠ place := by
  rintro rfl
  apply spares parent found id fp resolved lookup isOpen
  rw [located.1, located.2, cluster, offset]

/-- A file that is not open may be deleted with its clusters. -/
theorem Session.Sound.expendable_file (sound : session.Sound dirs) (member : parent ∈ dirs)
    (entry : EntryAt session.vol parent place found.entry) (file : ¬ found.entry.IsDirectory)
    (owned : OwnedChain session.vol found.entry.firstCluster cells)
    (closed : ∀ id fp other, session.handles id = some fp → fp.At other → other ≠ place) :
    session.Expendable dirs dirs place cells where
  subset := subset_rfl
  root := sound.chained.root
  outside dir inDirs cell inside claimed :=
    sound.clear place _ cells (.stored member entry file) owned cell claimed dir inDirs inside
  listed dir inDirs other slot there _ := sound.listed dir inDirs other slot there
  apart other first others different owns owned' cell inside claimed :=
    different (sound.apart other first others place _ cells owns (.stored member entry file) owned' owned cell inside
      claimed).1
  handle id fp other isOpen located := by
    refine ⟨closed id fp other isOpen located, ?_⟩
    obtain ⟨other', located', dir, inDirs, slot, there, _⟩ := sound.handle id fp isOpen
    rw [located.unique located']
    exact ⟨dir, inDirs, there.inside⟩

/-- A directory may be deleted if no entry in it is open. -/
theorem Session.Sound.expendable_directory (sound : session.Sound dirs) (tree : ListedOnce session.vol dirs)
    (member : parent ∈ dirs) (entry : EntryAt session.vol parent place found.entry) (lists : found.entry.ListsDirectory)
    (chain : ClusterChain session.vol found.entry.firstCluster cells)
    (closed : ∀ id fp other, session.handles id = some fp → fp.At other → other ≠ place ∧
      ¬ InDir session.vol found.entry.firstCluster other.1) :
    session.Expendable dirs (dirs \ {found.entry.firstCluster}) place cells where
  subset := Set.sdiff_subset
  root := ⟨sound.chained.root, fun same => tree.below parent member place _ entry lists same.symm⟩
  outside dir inDirs cell inside claimed := inDirs.2 (sound.chained.apart dir inDirs.1 _
    (sound.listed parent member place _ entry lists) cell inside ((inDir_iff chain).mpr claimed))
  listed dir inDirs other slot there different slotLists := by
    refine ⟨sound.listed dir inDirs.1 other slot there slotLists, fun same => different ?_⟩
    exact tree.once dir inDirs.1 other slot there slotLists parent member place _ entry lists same
  apart other first others _ owns owned cell inside claimed := sound.clear other first others owns owned cell inside _
    (sound.listed parent member place _ entry lists) ((inDir_iff chain).mpr claimed)
  handle id fp other isOpen located := by
    obtain ⟨different, elsewhere⟩ := closed id fp other isOpen located
    obtain ⟨other', located', dir, inDirs, slot, there, _⟩ := sound.handle id fp isOpen
    rw [located.unique located'] at different elsewhere ⊢
    refine ⟨different, dir, ⟨inDirs, ?_⟩, there.inside⟩
    rintro rfl
    exact elsewhere there.inside

end Unlink

/-! ## Moving entries -/

/-- An entry that is not open gets a second place under a new name. -/
structure Session.Moves (session : Session) (middle : Volume) (dirs : Set Nat) (oldParent newParent : Nat)
    (found : FoundEntry) (oldPlace newPlace : Nat × Nat) (name : List UInt8) : Prop where
  oldMember : oldParent ∈ dirs
  newMember : newParent ∈ dirs
  cluster : found.entryCluster = oldPlace.1
  offset : found.entryOffset = 32 * oldPlace.2
  entry : EntryAt session.vol oldParent oldPlace found.entry
  lists : found.entry.IsDirectory → found.entry.ListsDirectory
  closed : ∀ id fp other, session.handles id = some fp → fp.At other → other ≠ oldPlace
  created : ∃ cells cells' cell index, ClusterChain session.vol newParent cells ∧
    Created session.vol middle newParent cells cells' cell index
      (entrySlots name found.entry.attr found.entry.firstCluster found.entry.fileSize) ∧
    newPlace = (cell, index + lfnCount name)

section Move

variable {session : Session} {middle : Volume} {dirs : Set Nat} {oldParent newParent : Nat} {found : FoundEntry}
  {oldPlace newPlace : Nat × Nat} {name : List UInt8}

/-- The entries when the old place is given up. -/
theorem Session.Moves.entries (moves : session.Moves middle dirs oldParent newParent found oldPlace newPlace name)
    (sound : session.Sound dirs) : Chained (markDeleted middle found) dirs ∧
      middle.SameExcept (markDeleted middle found) ∅ {oldPlace.1} ∧
      ∀ dir ∈ dirs, ∀ place slot, EntryAt (markDeleted middle found) dir place slot ↔
        (EntryAt session.vol dir place slot ∨ dir = newParent ∧ place = newPlace ∧
          slot = newEntry name found.entry.attr found.entry.firstCluster found.entry.fileSize ∧ slot.InUse) ∧
        place ≠ oldPlace := by
  obtain ⟨cells, cells', cell, index, chain, created, rfl⟩ := moves.created
  have chained := created.keepsChained sound.chained moves.newMember chain
  have entries := fun {dir place slot} (member : dir ∈ dirs) =>
    @Created.entryAt_iff _ _ dirs dir newParent _ _ _ _ _ _ _ _ slot place sound.chained moves.newMember chain created
      member
  -- the new entry has not touched the old one
  have still := (entries moves.oldMember).mpr (.inl moves.entry)
  have marked := sameExcept_markDeleted chained.geometry still.inside.isCluster moves.cluster
  refine ⟨chained.of_outside marked fun _ _ _ _ => Set.notMem_empty _, marked, fun dir member place slot => ?_⟩
  rw [entryAt_markDeleted chained moves.cluster moves.offset still.inside.isCluster still.live member, entries member]

/-- The chain that moves with the entry of a file. -/
theorem Session.Moves.whole (moves : session.Moves middle dirs oldParent newParent found oldPlace newPlace name)
    (sound : session.Sound dirs) : ∃ start whole, OwnedChain session.vol start whole ∧
      (¬ found.entry.IsDirectory → start = found.entry.firstCluster) ∧
      ∀ cell ∈ whole, session.Owns dirs oldPlace start := by
  by_cases file : found.entry.IsDirectory
  · exact ⟨0, [], .inl ⟨rfl, rfl⟩, fun plain => absurd file plain, fun _ none => absurd none List.not_mem_nil⟩
  · have owns : session.Owns dirs oldPlace found.entry.firstCluster := .stored moves.oldMember moves.entry file
    obtain ⟨whole, owned⟩ := sound.owned oldPlace _ owns
    exact ⟨_, whole, owned, fun _ => rfl, fun _ _ => owns⟩

theorem Session.Moves.sound (moves : session.Moves middle dirs oldParent newParent found oldPlace newPlace name)
    (sound : session.Sound dirs) : (⟨markDeleted middle found, session.handles⟩ : Session).Sound dirs := by
  obtain ⟨chained, marked, entries⟩ := moves.entries sound
  obtain ⟨start, whole, owned, first, owns⟩ := moves.whole sound
  obtain ⟨cells, cells', cell, index, chain, created, place⟩ := moves.created
  have kept : ∀ {other first others}, session.Owns dirs other first → OwnedChain session.vol first others →
      OwnedChain (markDeleted middle found) first others := fun owns owned =>
    (owned.congr created.same (sound.apart_of_created moves.newMember chain created owns owned)).congr marked
      fun _ _ => Set.notMem_empty _
  have clusters : ∀ dir ∈ dirs, ∀ other, InDir (markDeleted middle found) dir other →
      InDir session.vol dir other ∨ dir = newParent ∧ other = cell := fun dir member other inside =>
    created.inDir_cases sound.chained moves.newMember chain dir member other
      (((created.keepsChained sound.chained moves.newMember chain).inDir_congr marked
        (fun _ _ _ _ => Set.notMem_empty _) member).mp inside)
  refine sound.of_views newPlace start whole chained (marked.copies (created.same.copies sound.copies))
    (fun dir member other inside => ?_) (fun other inside dir member claimed => ?_)
    (fun dir member place slot entry lists => ?_) (fun id fp isOpen => ?_) fun place' start' owns' => ?_
  · rcases clusters dir member other inside with before | ⟨rfl, rfl⟩
    · exact .inl ⟨dir, member, before⟩
    · by_cases old : other ∈ cells
      · exact .inl ⟨dir, member, (inDir_iff chain).mpr old⟩
      · exact .inr (created.fresh old).1
  · have from' := owns other inside
    rcases clusters dir member other claimed with before | ⟨_, rfl⟩
    · exact sound.clear oldPlace start whole from' owned other inside dir member before
    · exact sound.apart_of_created moves.newMember chain created from' owned other inside created.member
  · rcases ((entries dir member place slot).mp entry).1 with before | ⟨_, _, rfl, _⟩
    · exact sound.listed dir member place slot before lists
    · rw [newEntry_firstCluster found.entry.firstCluster_lt]
      have directory : found.entry.IsDirectory := newEntry_isDirectory.mp lists.1
      exact sound.listed oldParent moves.oldMember oldPlace found.entry moves.entry (moves.lists directory)
  · obtain ⟨other, located, dir, member, slot, entry, file⟩ := sound.handle id fp isOpen
    exact ⟨other, located, dir, member, slot, (entries dir member other slot).mpr
      ⟨.inl entry, moves.closed id fp other isOpen located⟩, file⟩
  · have untouched : session.Owns dirs place' start' → place' ≠ oldPlace → session.Owns dirs place' start' ∧
        ∃ others, OwnedChain session.vol start' others ∧ OwnedChain (markDeleted middle found) start' others ∧
          ∀ cell ∈ others, cell ∉ whole := by
      intro before different
      obtain ⟨others, owned'⟩ := sound.owned place' start' before
      exact ⟨before, others, owned', kept before owned', fun cell inside claimed => different
        (sound.apart place' start' others oldPlace start whole before (owns cell claimed) owned' owned cell inside claimed).1⟩
    cases owns' with
    | stored member entry file =>
        obtain ⟨now, different⟩ := (entries _ member place' _).mp entry
        rcases now with before | ⟨_, rfl, rfl, _⟩
        · exact .inl (untouched (.stored member before file) different)
        · have plain : ¬ found.entry.IsDirectory := fun directory => file (newEntry_isDirectory.mpr directory)
          rw [newEntry_firstCluster found.entry.firstCluster_lt]
          obtain rfl := first plain
          have from' : session.Owns dirs oldPlace found.entry.firstCluster := .stored moves.oldMember moves.entry plain
          exact .inr ⟨rfl, rfl, kept from' owned⟩
    | opened isOpen located => exact .inl (untouched (.opened isOpen located) (moves.closed _ _ place' isOpen located))

/-- Every directory is listed once, also one that moved. -/
theorem Session.Moves.tree (moves : session.Moves middle dirs oldParent newParent found oldPlace newPlace name)
    (sound : session.Sound dirs) (tree : ListedOnce session.vol dirs) : ListedOnce (markDeleted middle found) dirs := by
  obtain ⟨_, marked, entries⟩ := moves.entries sound
  have bpb : (markDeleted middle found).bpb = session.vol.bpb := by
    obtain ⟨_, _, _, _, _, created, _⟩ := moves.created
    exact marked.bpb.trans created.same.bpb
  by_cases directory : found.entry.IsDirectory
  · have moved : ∀ dir ∈ dirs, ∀ place slot, EntryAt (markDeleted middle found) dir place slot →
        EntryAt session.vol dir place slot ∧ place ≠ oldPlace ∨ place = newPlace ∧
          slot = newEntry name found.entry.attr found.entry.firstCluster found.entry.fileSize := by
      intro dir member place slot entry
      obtain ⟨before | ⟨_, new, same, _⟩, different⟩ := (entries dir member place slot).mp entry
      · exact .inl ⟨before, different⟩
      · exact .inr ⟨new, same⟩
    exact tree.moved bpb moves.oldMember moves.entry (moves.lists directory)
      (newEntry_firstCluster found.entry.firstCluster_lt) moved
  · refine tree.of_fewer bpb subset_rfl fun dir member place slot entry lists => ?_
    obtain ⟨before | ⟨_, _, rfl, _⟩, _⟩ := (entries dir member place slot).mp entry
    · exact before
    · exact absurd (newEntry_isDirectory.mp lists.1) directory

end Move

/-! ## Runs of careful clients -/

section Guarded

variable {shared next : Shared} {dirs : Set Nat} {path oldpath newpath : List UInt8} {mode parent id : Nat} {done : Bool}
  {after : Volume} {call : SharedCall}

/-- An entry that is open is not where a call makes one. -/
theorem Shared.Guarded.not_made {fp : Fat32File} {place : Nat × Nat} (guarded : shared.Guarded dirs)
    (isOpen : shared.session.handles id = some fp) (located : fp.At place) : place ∉ shared.made call id := by
  rintro (before | made)
  · exact guarded.kept id fp place isOpen located before
  · obtain ⟨place', located', dir, member, slot, entry, _⟩ := guarded.sound.handle id fp isOpen
    obtain rfl := located.unique located'
    exact guarded.sound.made_vacant guarded.cwd made entry

/-- A call that makes no directory keeps the invariant if the session stays sound. -/
theorem Shared.Guarded.of_frame {session : Session} (guarded : shared.Guarded dirs) (sound : session.Sound dirs)
    (frame : shared.session.Frame session dirs (call.madePlaces shared.session.vol)) : (⟨session, shared.made call⟩ : Shared).Guarded dirs where
  sound := sound
  cwd := by
    rw [frame.cwd]
    exact guarded.cwd
  tree := guarded.tree.of_fewer frame.bpb subset_rfl frame.listing
  kept id fp place isOpen located := by
    obtain ⟨before, isOpen', located'⟩ := frame.handles id fp place isOpen located
    exact guarded.not_made isOpen' located'

/-- A handle may be opened on a file. -/
theorem Shared.Guarded.opens {fp : Fat32File} (guarded : shared.Guarded dirs)
    (careful : shared.session.Careful (.openFile id path mode))
    (returned : Fat32.fOpen shared.session.vol path mode = some (some fp, after)) :
    (⟨⟨after, Function.update shared.session.handles id (some fp)⟩,
      Function.update (shared.made (.openFile id path mode)) id ∅⟩ : Shared).Guarded dirs := by
  obtain ⟨after', frame⟩ := guarded.sound.fOpen id guarded.cwd returned
  have before := guarded.of_frame after' frame
  obtain ⟨parent, found, opened⟩ := fOpen_opened returned
  obtain ⟨member, sound, place, located, entry⟩ := guarded.sound.openFile guarded.cwd opened
  have file := careful found (opened.namesEntry_iff.mpr rfl)
  refine ⟨sound.attach member entry file located (by rw [opened.handle]; rfl), before.cwd, before.tree, ?_⟩
  intro other handle at' isOpen located'
  by_cases same : other = id
  · subst same
    dsimp only
    rw [Function.update_self]
    exact Set.notMem_empty _
  · dsimp only
    rw [Function.update_of_ne same]
    exact before.kept other handle at' (by simpa [same] using isOpen) located'

theorem Shared.Guarded.rename {ok : Bool} (guarded : shared.Guarded dirs)
    (careful : shared.session.Careful (.rename oldpath newpath))
    (returned : fRename shared.session.vol oldpath newpath = some (ok, after)) :
    (⟨⟨after, shared.session.handles⟩, shared.made (.rename oldpath newpath)⟩ : Shared).Guarded dirs ∧
      EntriesAppear shared.session.vol after dirs ((SharedCall.rename oldpath newpath).madePlaces shared.session.vol) := by
  obtain ⟨avoids, spares⟩ := careful
  have sound := guarded.sound
  have unchanged : after = shared.session.vol →
      (⟨⟨after, shared.session.handles⟩, shared.made (.rename oldpath newpath)⟩ : Shared).Guarded dirs ∧
      EntriesAppear shared.session.vol after dirs ((SharedCall.rename oldpath newpath).madePlaces shared.session.vol) := by
    rintro rfl
    have frame := Session.Frame.refl shared.session dirs ((SharedCall.rename oldpath newpath).madePlaces shared.session.vol)
    exact ⟨guarded.of_frame sound frame, frame.appear⟩
  rcases fRename_request returned with ⟨_, same⟩ | ⟨middle, oldParent, newParent, found, request, result⟩
  · exact unchanged same
  have oldMember := (sound.walkable guarded.cwd).parentCluster_mem request.oldResolved
  have newMember := (sound.walkable guarded.cwd).parentCluster_mem request.newResolved
  obtain ⟨oldPlace, cluster, offset, entry⟩ := sound.chained.findFile_found oldMember request.lookup
  obtain ⟨cells, chain⟩ := sound.chained.chain newParent newMember
  rcases sound.chained.created_at chain request.creation with
    ⟨rfl, same⟩ | ⟨rfl, cells', cell, index, created, made⟩
  · exact unchanged (result.trans same)
  · obtain rfl : after = markDeleted middle found := result
    have moves : shared.session.Moves middle dirs oldParent newParent found oldPlace
        (cell, index + lfnCount (lastComponent newpath)) (lastComponent newpath) := {
      oldMember := oldMember
      newMember := newMember
      cluster := cluster
      offset := offset
      entry := entry
      lists := avoids oldParent found request.oldResolved request.lookup
      closed := fun id fp other => spares.ne request.oldResolved request.lookup cluster offset
      created := ⟨cells, cells', cell, index, chain, created, rfl⟩ }
    obtain ⟨_, marked, entries⟩ := moves.entries sound
    refine ⟨⟨moves.sound sound, ?_, moves.tree sound guarded.tree, fun id fp place isOpen located =>
      guarded.not_made isOpen located⟩, fun dir member place slot now => ?_⟩
    · rw [marked.cwdCluster, created.same.cwdCluster]
      exact guarded.cwd
    · rcases ((entries dir member place slot).mp now).1 with before | ⟨_, rfl, _⟩
      · exact .inl ⟨slot, before⟩
      · exact .inr ⟨by rw [returned]; rfl, newParent, request.newResolved, made⟩

theorem Shared.Guarded.unlink {ok : Bool} (guarded : shared.Guarded dirs)
    (careful : shared.session.Careful (.unlink path))
    (returned : fUnlink shared.session.vol path = some (ok, after)) :
    ∃ fewer ⊆ dirs, (⟨⟨after, shared.session.handles⟩, shared.made (.unlink path)⟩ : Shared).Guarded fewer ∧
      EntriesAppear shared.session.vol after fewer ∅ := by
  obtain ⟨avoids, spares, sparesDirectory⟩ := careful
  have sound := guarded.sound
  rcases fUnlink_request returned with ⟨_, rfl⟩ | ⟨_, middle, parent, found, request, rfl⟩
  · have frame := Session.Frame.refl shared.session dirs ∅
    exact ⟨dirs, subset_rfl, guarded.of_frame sound frame, frame.appear⟩
  have member := (sound.walkable guarded.cwd).parentCluster_mem request.resolved
  obtain ⟨place, cluster, offset, entry⟩ := sound.chained.findFile_found member request.lookup
  have closed : ∀ id fp other, shared.session.handles id = some fp → fp.At other → other ≠ place :=
    fun id fp other => spares.ne request.resolved request.lookup cluster offset
  have gone : ∀ {fewer cells}, shared.session.Expendable dirs fewer place cells →
      OwnedChain shared.session.vol found.entry.firstCluster cells → shared.session.vol.cwdCluster ∈ fewer →
      ∃ fewer ⊆ dirs, (⟨⟨markDeleted middle found, shared.session.handles⟩, shared.made (.unlink path)⟩ : Shared).Guarded
        fewer ∧ EntriesAppear shared.session.vol (markDeleted middle found) fewer ∅ := by
    intro fewer cells expendable owned cwd
    have freed := request.freed sound.chained.geometry owned
    obtain ⟨_, same, entries⟩ := expendable.entries sound cluster offset entry freed
    have before := fun dir inFewer other slot there => ((entries dir inFewer other slot).mp there).1
    refine ⟨fewer, expendable.subset, ⟨expendable.sound sound cluster offset entry freed, ?_, ?_,
      fun id fp place isOpen located => guarded.not_made isOpen located⟩, fun dir inFewer other slot there => ?_⟩
    · rw [same.cwdCluster]
      exact cwd
    · exact guarded.tree.of_fewer same.bpb expendable.subset fun dir inFewer other slot there _ =>
        before dir inFewer other slot there
    · exact .inl ⟨slot, before dir inFewer other slot there⟩
  by_cases directory : found.entry.IsDirectory
  · have lists := avoids parent found request.resolved request.lookup directory
    obtain ⟨elsewhere, outside⟩ := sparesDirectory parent found request.resolved request.lookup directory
    obtain ⟨cells, chain⟩ := sound.chained.chain _ (sound.listed parent member place _ entry lists)
    refine gone (sound.expendable_directory guarded.tree member entry lists chain fun id fp other isOpen located =>
      ⟨closed id fp other isOpen located, ?_⟩) (.inr chain) ⟨guarded.cwd, Ne.symm elsewhere⟩
    rw [← located.1]
    exact outside id fp isOpen
  · obtain ⟨cells, owned⟩ := sound.owned place _ (.stored member entry directory)
    exact gone (sound.expendable_file member entry directory owned closed) owned guarded.cwd

/-- Careful clients keep the invariant, and entries appear only where the calls make them. -/
theorem Shared.Guarded.step (guarded : shared.Guarded dirs) (taken : shared.CarefulStep call next) :
    ∃ fewer ⊆ dirs, next.Guarded fewer ∧
      EntriesAppear shared.session.vol next.session.vol fewer (call.madePlaces shared.session.vol) := by
  obtain ⟨careful, step⟩ := taken
  cases step with
  | @opens id path mode fp after returned =>
      obtain ⟨_, frame⟩ := guarded.sound.fOpen id guarded.cwd returned
      exact ⟨dirs, subset_rfl, guarded.opens careful returned, frame.appear⟩
  | @fails id path mode after returned =>
      obtain ⟨sound, frame⟩ := guarded.sound.fOpen id guarded.cwd returned
      exact ⟨dirs, subset_rfl, guarded.of_frame sound frame, frame.appear⟩
  | handle taken =>
      have frame := guarded.sound.frame taken
      exact ⟨dirs, subset_rfl, guarded.of_frame (guarded.sound.step taken).1 frame, frame.appear⟩
  | rename returned => exact ⟨dirs, subset_rfl, guarded.rename careful returned⟩
  | unlink returned => exact guarded.unlink careful returned

/-- In every run of careful clients, `f_sync` and `f_close` store in the entry of the file the
handle was opened on, where no entry was made since, and change nothing else. -/
theorem careful_run_storesOwnEntry {session : Session} {trace : List SharedCall} {call : HandleCall}
    (sound : session.Sound dirs) (cwd : session.vol.cwdCluster ∈ dirs) (tree : ListedOnce session.vol dirs)
    (run : Run Shared.CarefulStep ⟨session, fun _ => ∅⟩ trace shared) (stores : call = .sync ∨ call = .close)
    (taken : shared.Step (.handle id call) next) : shared.StoresOwnEntry next id := by
  have initial : (⟨session, fun _ => ∅⟩ : Shared).Guarded dirs :=
    ⟨sound, cwd, tree, fun _ _ _ _ _ => Set.notMem_empty _⟩
  obtain ⟨dirs, guarded⟩ := run.invariant (fun shared => ∃ dirs, shared.Guarded dirs) ⟨dirs, initial⟩
    fun ⟨dirs, guarded⟩ taken => by
      obtain ⟨fewer, _, kept, _⟩ := guarded.step taken
      exact ⟨fewer, kept⟩
  have stored : ∀ fp, shared.session.handles id = some fp → next.session.vol = fSync shared.session.vol fp →
      shared.StoresOwnEntry next id := by
    intro fp isOpen after
    obtain ⟨place, located, _⟩ := guarded.sound.handle id fp isOpen
    obtain ⟨slot, stores⟩ := guarded.sound.storesEntry isOpen located
    refine ⟨fp, place, slot, isOpen, located, guarded.kept id fp place isOpen located, ?_⟩
    rwa [after]
  cases taken with
  | handle step =>
      cases step with
      | sync isOpen => exact stored _ isOpen rfl
      | close isOpen => exact stored _ isOpen rfl
      | write => simp at stores
      | read => simp at stores
      | lseek => simp at stores

/-- An `f_open` that gives a handle on a file is careful. -/
theorem Session.careful_openFile {session : Session} {fp : Fat32File} {found : FoundEntry}
    (returned : fOpen session.vol path mode = some (some fp, after))
    (resolved : parentCluster session.vol path = some (some parent))
    (lookup : fat32FindFile after parent (lastComponent path) = some (some found)) (file : ¬ found.entry.IsDirectory) :
    session.Careful (.openFile id path mode) := by
  obtain ⟨parent', found', opened⟩ := fOpen_opened returned
  obtain rfl : parent = parent' := by simpa using resolved.symm.trans opened.resolved
  obtain rfl : found = found' := by simpa using lookup.symm.trans opened.lookup
  intro other names
  rwa [opened.namesEntry_iff.mp names]

/-- So is an `f_unlink` of a file that no handle is on. -/
theorem Session.careful_unlink {session : Session} {found : FoundEntry}
    (resolved : parentCluster session.vol path = some (some parent))
    (lookup : fat32FindFile session.vol parent (lastComponent path) = some (some found))
    (file : ¬ found.entry.IsDirectory) (closed : ∀ id fp, session.handles id = some fp →
      (fp.dirEntryCluster, fp.dirEntryOffset) ≠ (found.entryCluster, found.entryOffset)) :
    session.Careful (.unlink path) := by
  have only : ∀ {parent' found'}, parentCluster session.vol path = some (some parent') →
      fat32FindFile session.vol parent' (lastComponent path) = some (some found') → found' = found := by
    intro parent' found' resolved' lookup'
    obtain rfl : parent = parent' := by simpa using resolved.symm.trans resolved'
    simpa using lookup'.symm.trans lookup
  refine ⟨fun _ _ resolved' lookup' directory => ?_, fun _ _ id fp resolved' lookup' isOpen => ?_,
    fun _ _ resolved' lookup' directory => ?_⟩
  · rw [only resolved' lookup'] at directory
    exact absurd directory file
  · rw [only resolved' lookup']
    exact closed id fp isOpen
  · rw [only resolved' lookup'] at directory
    exact absurd directory file

theorem emptyVolume_listedOnce : ListedOnce emptyVolume {2} := by
  have consistent := emptyVolume_emptyRoot.consistent
  rw [emptyVolume_root] at consistent
  exact ⟨fun dir member place slot entry lists => (consistent.target dir member place slot entry lists).2,
    consistent.once⟩

/-- `/B` is created and deleted by one client while `/A` is open, and `/A` is stored. -/
theorem careful_run_storesOwnEntry_a_b :
    ∃ shared next, Run Shared.CarefulStep ⟨⟨emptyVolume, fun _ => none⟩, fun _ => ∅⟩
      [.openFile 0 [slash, 0x41] faCreate, .handle 0 (.write [1, 2, 3]), .openFile 1 [slash, 0x42] faCreate,
        .handle 1 .close, .unlink [slash, 0x42]] shared ∧
      shared.Step (.handle 0 .sync) next ∧ shared.StoresOwnEntry next 0 := by
  have computed : (fOpen emptyVolume [slash, 0x41] faCreate).any (fun answer => answer.1.any fun fp =>
      (fat32FindFile answer.2 2 [0x41]).any (fun found => found.any fun found => ¬ found.entry.IsDirectory) ∧
      (fWrite answer.2 fp [1, 2, 3]).any fun result => result.fp.dirEntryOffset = 0 ∧
        parentCluster result.vol [slash, 0x42] = some (some 2) ∧
        (fOpen result.vol [slash, 0x42] faCreate).any fun answer' => answer'.1.any fun fp' =>
          (fat32FindFile answer'.2 2 [0x42]).any (fun found => found.any fun found => ¬ found.entry.IsDirectory) ∧
          parentCluster (fClose answer'.2 fp').1 [slash, 0x42] = some (some 2) ∧
          (fat32FindFile (fClose answer'.2 fp').1 2 [0x42]).any (fun found => found.any fun found =>
            ¬ found.entry.IsDirectory ∧ found.entryOffset ≠ 0) ∧
          (fUnlink (fClose answer'.2 fp').1 [slash, 0x42]).isSome) = true := by
    decide +kernel
  have root : parentCluster emptyVolume [slash, 0x41] = some (some 2) := by decide +kernel
  obtain ⟨⟨answer, opened⟩, opens, computed⟩ := (Option.any_eq_true _ _).mp computed
  obtain ⟨fp, rfl, computed⟩ := (Option.any_eq_true _ _).mp computed
  obtain ⟨looked, computed⟩ := of_decide_eq_true computed
  obtain ⟨answer, lookup, looked⟩ := (Option.any_eq_true _ _).mp looked
  obtain ⟨found, rfl, file⟩ := (Option.any_eq_true _ _).mp looked
  obtain ⟨result, writes, computed⟩ := (Option.any_eq_true _ _).mp computed
  obtain ⟨offset, resolved, computed⟩ := of_decide_eq_true computed
  obtain ⟨⟨answer', opened'⟩, opens', computed⟩ := (Option.any_eq_true _ _).mp computed
  obtain ⟨fp', rfl, computed⟩ := (Option.any_eq_true _ _).mp computed
  obtain ⟨looked', resolved', last, deletes⟩ := of_decide_eq_true computed
  obtain ⟨answer', lookup', looked'⟩ := (Option.any_eq_true _ _).mp looked'
  obtain ⟨found', rfl, file'⟩ := (Option.any_eq_true _ _).mp looked'
  obtain ⟨answer', finds, last⟩ := (Option.any_eq_true _ _).mp last
  obtain ⟨victim, rfl, last⟩ := (Option.any_eq_true _ _).mp last
  obtain ⟨plain, elsewhere⟩ := of_decide_eq_true last
  obtain ⟨⟨ok, deleted⟩, deletes⟩ := Option.isSome_iff_exists.mp deletes
  have run1 : Run Shared.CarefulStep ⟨⟨emptyVolume, fun _ => none⟩, fun _ => ∅⟩ _ _ := Run.snoc .nil
    ⟨Session.careful_openFile opens root lookup (of_decide_eq_true file), @Shared.Step.opens _ 0 _ _ _ _ opens⟩
  have run2 := Run.snoc run1 (.handle (.write (Function.update_self _ _ _) writes))
  have run3 := Run.snoc run2 ⟨Session.careful_openFile opens' resolved lookup' (of_decide_eq_true file'),
    @Shared.Step.opens _ 1 _ _ _ _ opens'⟩
  have run4 := Run.snoc run3 (.handle (.close (Function.update_self _ _ _)))
  have first : ∀ id handle, Function.update (Function.update (Function.update (Function.update (fun _ => none) 0 (some fp)) 0
      (some result.fp)) 1 (some fp')) 1 none id = some handle → result.fp = handle := by
    intro id handle isOpen
    by_cases second : id = 1
    · simp [second] at isOpen
    · by_cases first : id = 0
      · simpa [first] using isOpen
      · simp [first, second] at isOpen
  have run5 := Run.snoc run4 ⟨Session.careful_unlink resolved' finds plain fun id handle isOpen same => elsewhere (by
    rw [← (Prod.mk.inj same).2, ← first id handle isOpen, offset]), .unlink deletes⟩
  have isOpen : Function.update (Function.update (Function.update (Function.update (fun _ => none) 0 (some fp)) 0
      (some result.fp)) 1 (some fp')) 1 none 0 = some result.fp := by simp
  exact ⟨_, _, run5, .handle (.sync isOpen), careful_run_storesOwnEntry emptyVolume_sound
    (by rw [show emptyVolume.cwdCluster = 2 by decide +kernel]; rfl) emptyVolume_listedOnce run5 (.inl rfl)
    (.handle (.sync isOpen))⟩

/-- `/A` is deleted while it is open, `/B` gets its place, and `f_close` of the old handle gives `/B`
the size of `/A`. -/
theorem close_changes_other_entry :
    ∃ shared next, Run Shared.Step ⟨⟨emptyVolume, fun _ => none⟩, fun _ => ∅⟩
      [.openFile 0 [slash, 0x41] faCreate, .handle 0 (.write [1, 2, 3]), .unlink [slash, 0x41],
        .openFile 1 [slash, 0x42] faCreate] shared ∧
      shared.Step (.handle 0 .close) next ∧
      (∃ before after, fStat shared.session.vol [slash, 0x42] = some (some before) ∧ before.size = 0 ∧
        fStat next.session.vol [slash, 0x42] = some (some after) ∧ after.size = 3) ∧
      ¬ shared.StoresOwnEntry next 0 := by
  have computed : (fOpen emptyVolume [slash, 0x41] faCreate).any (fun answer => answer.1.any fun fp =>
      (fWrite answer.2 fp [1, 2, 3]).any fun result => result.fp.dirEntryCluster = 2 ∧ result.fp.dirEntryOffset = 0 ∧
        (fUnlink result.vol [slash, 0x41]).any fun deleted => parentCluster deleted.2 [slash, 0x42] = some (some 2) ∧
          fat32FindFile deleted.2 2 [0x42] = some none ∧
          (fat32FindContiguousFreeEntries deleted.2 2 1).any (fun run => run.1 = some (2, 0)) ∧
          (fOpen deleted.2 [slash, 0x42] faCreate).any fun answer' => answer'.1.isSome ∧
            (fStat answer'.2 [slash, 0x42]).any (fun stat => stat.any fun stat => stat.size = 0) ∧
            (fStat (fClose answer'.2 result.fp).1 [slash, 0x42]).any fun stat => stat.any fun stat => stat.size = 3) =
      true := by
    decide +kernel
  obtain ⟨⟨answer, opened⟩, opens, computed⟩ := (Option.any_eq_true _ _).mp computed
  obtain ⟨fp, rfl, computed⟩ := (Option.any_eq_true _ _).mp computed
  obtain ⟨result, writes, computed⟩ := (Option.any_eq_true _ _).mp computed
  obtain ⟨cluster, offset, computed⟩ := of_decide_eq_true computed
  obtain ⟨⟨ok, deleted⟩, deletes, computed⟩ := (Option.any_eq_true _ _).mp computed
  obtain ⟨resolved, missing, run, computed⟩ := of_decide_eq_true computed
  obtain ⟨⟨place, middle⟩, found, first⟩ := (Option.any_eq_true _ _).mp run
  obtain rfl : place = some (2, 0) := of_decide_eq_true first
  obtain ⟨⟨answer', opened'⟩, opens', computed⟩ := (Option.any_eq_true _ _).mp computed
  obtain ⟨filled, empty, full⟩ := of_decide_eq_true computed
  obtain ⟨fp', rfl⟩ := Option.isSome_iff_exists.mp filled
  obtain ⟨stat, finds, empty⟩ := (Option.any_eq_true _ _).mp empty
  obtain ⟨before, rfl, empty⟩ := (Option.any_eq_true _ _).mp empty
  obtain ⟨stat', finds', full⟩ := (Option.any_eq_true _ _).mp full
  obtain ⟨after, rfl, full⟩ := (Option.any_eq_true _ _).mp full
  have run1 := Run.snoc .nil (@Shared.Step.opens ⟨⟨emptyVolume, fun _ => none⟩, fun _ => ∅⟩ 0 _ _ _ _ opens)
  have run2 := Run.snoc run1 (.handle (.write (Function.update_self _ _ _) writes))
  have run3 := Run.snoc run2 (.unlink deletes)
  have run4 := Run.snoc run3 (@Shared.Step.opens _ 1 _ _ _ _ opens')
  have isOpen : Function.update (Function.update (Function.update (fun _ => none) 0 (some fp)) 0 (some result.fp)) 1
      (some fp') 0 = some result.fp := by simp
  refine ⟨_, _, run4, .handle (.close isOpen), ⟨before, after, finds, of_decide_eq_true empty, finds',
    of_decide_eq_true full⟩, ?_⟩
  rintro ⟨handle, other, slot, isOpen', located, fresh, _⟩
  obtain rfl : result.fp = handle := Option.some.inj (isOpen.symm.trans isOpen')
  obtain rfl : other = (2, 0) := located.unique ⟨cluster, offset⟩
  apply fresh
  dsimp only
  rw [Function.update_of_ne (by decide)]
  exact .inr ⟨by decide, 2, resolved, missing, 0, middle, found, rfl⟩

end Guarded

end KeblaOS.Fat32
