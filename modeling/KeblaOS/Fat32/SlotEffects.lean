import KeblaOS.Fat32.LongNames
import KeblaOS.Fat32.ShortNames

/-!
# Calls on the slots of directories

The effects of `f_open`, `f_mkdir` and `f_unlink` on the slots themselves, for invariants that
the live entries alone do not decide: which long-name slots stand where, and where the slots
begin that were never used.
-/

namespace KeblaOS.Fat32

open KeblaOS.Buffer

section Calls

variable {vol after : Volume} {dirs : Set Nat} {path : List UInt8} {mode : Nat} {ok : Bool}

/-- An `f_open` that created its file. -/
structure FileCreation (vol after : Volume) (path : List UInt8) (mode parent : Nat) (cells cells' : List Nat)
    (cell index : Nat) : Prop where
  requested : mode &&& (faCreate ||| faCreateAlways) ≠ 0
  resolved : parentCluster vol path = some (some parent)
  missing : fat32FindFile vol parent (lastComponent path) = some none
  chain : ClusterChain vol parent cells
  created : Created vol after parent cells cells' cell index (entrySlots (lastComponent path) attrArchive 0 0)

theorem Listed.fOpen_slots {file : Option Fat32File} (listed : Listed vol dirs)
    (returned : fOpen vol path mode = some (file, after)) :
    after = vol ∨ ∃ parent cells cells' cell index, FileCreation vol after path mode parent cells cells' cell index := by
  rcases fOpen_request returned with same | ⟨parent, done, request⟩
  · exact .inl same
  · obtain ⟨cells, chain⟩ := listed.chain parent (listed.parentCluster_mem request.resolved)
    rcases fat32CreateDirEntry_cases listed.geometry listed.hint chain request.creation with
      ⟨_, same, _⟩ | ⟨_, cells', cell, index, created⟩
    · exact .inl same
    · exact .inr ⟨parent, cells, cells', cell, index, request.requested, request.resolved, request.missing, chain,
        created⟩

/-- An `f_mkdir` that set up a cluster and, if there was room, stored its entry. -/
structure DirectoryCreation (vol middle after : Volume) (path : List UInt8) (parent new : Nat) (ok : Bool) : Prop where
  resolved : parentCluster vol path = some (some parent)
  missing : fat32DirExists vol parent (lastComponent path) = some false
  allocated : (fat32AllocateCluster vol).1 = some new
  inRange : IsCluster vol.bpb new
  setUp : SetUp vol middle new parent
  stored : (ok = false ∧ after = middle) ∨ ok = true ∧ ∃ cells cells' cell index, ClusterChain middle parent cells ∧
    Created middle after parent cells cells' cell index (entrySlots (lastComponent path) attrDirectory new 0)

theorem Listed.fMkdir_slots (listed : Listed vol dirs) (returned : fMkdir vol path = some (ok, after)) :
    after = vol ∨ ∃ parent new middle, DirectoryCreation vol middle after path parent new ok := by
  rcases fMkdir_request returned with ⟨_, same⟩ | ⟨parent, request⟩
  · exact .inl same
  have member := listed.parentCluster_mem request.resolved
  rcases fat32MkdirInternal_allocated listed.geometry listed.hint request.creation with
    ⟨_, same⟩ | ⟨new, middle, found, allocated, creation⟩
  · exact .inl same
  · have setUp := setUp_of_allocated parent listed.geometry allocated
    have founded := setUp.founded listed.toDirectories
    obtain ⟨cells, chain⟩ := founded.directories.chain parent (Set.mem_insert_of_mem _ member)
    refine .inr ⟨parent, new, _, request.resolved, request.missing, found, allocated.isCluster, setUp, ?_⟩
    rcases fat32CreateDirEntry_cases founded.directories.geometry founded.directories.hint chain creation with
      ⟨failed, same, _⟩ | ⟨succeeded, cells', cell, index, created⟩
    · exact .inl ⟨failed, same⟩
    · exact .inr ⟨succeeded, cells, cells', cell, index, chain, created⟩

/-- An `f_unlink` that deleted an entry, after it freed the clusters of a directory. -/
structure EntryDeletion (vol middle after : Volume) (path : List UInt8) (parent : Nat) (found : FoundEntry)
    (place : Nat × Nat) : Prop where
  resolved : parentCluster vol path = some (some parent)
  lookup : fat32FindFile vol parent (lastComponent path) = some (some found)
  cluster : found.entryCluster = place.1
  offset : found.entryOffset = 32 * place.2
  entry : EntryAt vol parent place found.entry
  freed : (found.entry.firstCluster = 0 ∧ middle = vol) ∨
    found.entry.ListsDirectory ∧ ∃ cells, ClusterChain vol found.entry.firstCluster cells ∧ Freed vol middle cells
  deleted : after = markDeleted middle found

theorem Consistent.fUnlink_slots (consistent : Consistent vol dirs) (avoids : AvoidsDots vol path)
    (returned : fUnlink vol path = some (ok, after)) :
    (ok = false ∧ after = vol) ∨
      ok = true ∧ ∃ parent found place middle, EntryDeletion vol middle after path parent found place := by
  rcases fUnlink_request returned with same | ⟨succeeded, middle, parent, found, request, deleted⟩
  · exact .inl same
  have member := consistent.toListed.parentCluster_mem request.resolved
  obtain ⟨place, cluster, offset, entry⟩ := consistent.toListed.toDirectories.findFile_found member request.lookup
  refine .inr ⟨succeeded, parent, found, place, middle, request.resolved, request.lookup, cluster, offset, entry, ?_,
    deleted⟩
  rcases request.freeing with unchanged | ⟨nonempty, _⟩
  · exact .inl unchanged
  · have directory : found.entry.IsDirectory := by
      by_contra file
      exact nonempty (consistent.file parent member place found.entry entry file)
    have lists := avoids parent found request.resolved request.lookup directory
    obtain ⟨cells, chain⟩ := consistent.chain _ (consistent.target parent member place found.entry entry lists).1
    exact .inr ⟨lists, cells, chain, request.freed consistent.geometry (.inr chain)⟩

end Calls

/-! ## Properties of the slots of all directories -/

/-- A property of the slots of every directory. -/
def SlotsHold (P : List PlacedSlot → Prop) (vol : Volume) (dirs : Set Nat) : Prop :=
  ∀ dir ∈ dirs, ∀ cells, ClusterChain vol dir cells → P (dirSlots vol cells)

section SlotsHold

variable {P : List PlacedSlot → Prop} {vol after : Volume} {dirs : Set Nat} {parent new cell index first size : Nat}
  {cells cells' : List Nat} {name : List UInt8} {attr : UInt8} {slot slot' : Slot} {place : Nat × Nat}

/-- What happens outside the directories does not matter. -/
theorem SlotsHold.congr {entries data : Set Nat} (hold : SlotsHold P vol dirs) (chained : Chained vol dirs)
    (same : vol.SameExcept after entries data)
    (outside : ∀ dir ∈ dirs, ∀ cell, InDir vol dir cell → cell ∉ entries ∧ cell ∉ data) : SlotsHold P after dirs := by
  intro dir member cells chain
  obtain ⟨before, chain'⟩ := chained.chain dir member
  have apart : ∀ cell ∈ before, cell ∉ entries ∧ cell ∉ data := fun cell inside =>
    outside dir member cell ((inDir_iff chain').mpr inside)
  obtain rfl := chain.unique (chain'.congr same fun cell inside => (apart cell inside).1)
  rw [dirSlots_congr fun cell inside => clusterSlots_congr same (chain'.isCluster cell inside) (apart cell inside).2]
  exact hold dir member cells chain'

theorem SlotsHold.subset {fewer : Set Nat} (hold : SlotsHold P vol dirs) (subset : fewer ⊆ dirs) :
    SlotsHold P vol fewer :=
  fun dir member => hold dir (subset member)

/-- A new entry changes the slots of its directory. -/
theorem SlotsHold.created (hold : SlotsHold P vol dirs) (chained : Chained vol dirs) (member : parent ∈ dirs)
    (chain : ClusterChain vol parent cells)
    (created : Created vol after parent cells cells' cell index (entrySlots name attr first size))
    (kept : ∀ front run back extra, SlotsReplaced (dirSlots vol cells) (dirSlots after cells')
      (placed cell index (longSlots name ++ [newEntry name attr first size])) front run back extra →
      P (dirSlots vol cells) → P (dirSlots after cells')) : SlotsHold P after dirs := by
  intro dir member' other chain'
  by_cases here : dir = parent
  · subst here
    obtain rfl := chain'.unique created.chain
    obtain ⟨front, run, back, extra, replaced⟩ := (Inserted.of_created created chain).slotsReplaced chain
    exact kept front run back extra replaced (hold dir member' cells chain)
  · obtain ⟨before, chain''⟩ := chained.chain dir member'
    have apart : ∀ cell ∈ before, cell ∉ cells' := fun other inside =>
      created.outside chained member chain dir member' here other ((inDir_iff chain'').mpr inside)
    obtain rfl := chain'.unique (chain''.congr created.same fun other inside => apart other inside)
    rw [dirSlots_congr fun other inside => clusterSlots_congr created.same (chain''.isCluster other inside)
      fun same => apart other inside (Set.mem_singleton_iff.mp same ▸ created.member)]
    exact hold dir member' _ chain''

/-- A directory that was set up joins the others. -/
theorem SlotsHold.setUp (hold : SlotsHold P vol dirs) (chained : Chained vol dirs) (setUp : SetUp vol after new parent)
    (initial : P (dirSlots after [new])) : SlotsHold P after (insert new dirs) := by
  have old := hold.congr chained setUp.same fun dir member cell inside => by
    have apart : cell ≠ new := by
      rintro rfl
      exact inside.next_ne_zero setUp.free
    exact ⟨apart, apart⟩
  intro dir member other chain
  rcases Set.mem_insert_iff.mp member with rfl | before
  · obtain rfl := chain.unique setUp.chain
    exact initial
  · exact old dir before other chain

/-- One slot of one cluster was changed. -/
theorem dirSlots_edit (nodup : cells.Nodup) (member : cell ∈ cells)
    (there : (clusterSlots vol cell)[index]? = some slot)
    (written : clusterSlots after cell = overwrite (clusterSlots vol cell) index [slot'])
    (others : ∀ other ∈ cells, other ≠ cell → clusterSlots after other = clusterSlots vol other) :
    ∃ front back, dirSlots vol cells = front ++ ((cell, index), slot) :: back ∧
      dirSlots after cells = front ++ ((cell, index), slot') :: back := by
  obtain ⟨before, behind, rfl⟩ := List.append_of_mem member
  rw [List.nodup_append, List.nodup_cons] at nodup
  have sameBefore : dirSlots after before = dirSlots vol before := dirSlots_congr fun other inside =>
    others other (List.mem_append_left _ inside) (nodup.2.2 other inside cell List.mem_cons_self)
  have sameBehind : dirSlots after behind = dirSlots vol behind := dirSlots_congr fun other inside =>
    others other (List.mem_append_right _ (List.mem_cons_of_mem _ inside)) fun equal => nodup.2.1.1 (equal ▸ inside)
  have inside := (List.getElem?_eq_some_iff.mp there).1
  have take : ((clusterSlots vol cell).take index).length = index := by
    rw [List.length_take]
    omega
  have split : clusterSlots vol cell =
      (clusterSlots vol cell).take index ++ slot :: (clusterSlots vol cell).drop (index + 1) := by
    conv_lhs => rw [← List.take_append_drop index (clusterSlots vol cell), List.drop_eq_getElem_cons inside,
      (List.getElem?_eq_some_iff.mp there).2]
  refine ⟨dirSlots vol before ++ placed cell 0 ((clusterSlots vol cell).take index),
    placed cell (index + 1) ((clusterSlots vol cell).drop (index + 1)) ++ dirSlots vol behind, ?_, ?_⟩
  · rw [dirSlots_append, dirSlots_cons]
    conv_lhs => rw [split]
    rw [placed_append, take, Nat.zero_add, placed]
    simp
  · rw [dirSlots_append, dirSlots_cons, sameBefore, sameBehind, written, overwrite, List.append_assoc, placed_append,
      take, Nat.zero_add, List.singleton_append, placed]
    simp

/-- A deletion changes one slot of one directory. -/
theorem SlotsHold.markDeleted {found : FoundEntry} (hold : SlotsHold P vol dirs) (chained : Chained vol dirs)
    (cluster : found.entryCluster = place.1) (offset : found.entryOffset = 32 * place.2)
    (inRange : IsCluster vol.bpb place.1) (live : LiveAt vol place.1 place.2 slot)
    (kept : ∀ dir ∈ dirs, ∀ cells, ClusterChain vol dir cells → place.1 ∈ cells → ∀ front back,
      dirSlots vol cells = front ++ (place, slot) :: back → P (dirSlots vol cells) →
      P (front ++ (place, overwrite slot 0 [deletedMark]) :: back)) : SlotsHold P (markDeleted vol found) dirs := by
  have same := sameExcept_markDeleted chained.geometry inRange cluster
  intro dir member cells chain
  obtain ⟨before, chain'⟩ := chained.chain dir member
  obtain rfl := chain.unique (chain'.congr same fun _ _ => Set.notMem_empty _)
  have others : ∀ other ∈ cells, other ≠ place.1 → clusterSlots (Fat32.markDeleted vol found) other = clusterSlots vol other :=
    fun other inside different => clusterSlots_congr same (chain'.isCluster other inside) different
  by_cases here : place.1 ∈ cells
  · have written := clusterSlots_markDeleted chained.geometry inRange cluster offset live.1
    obtain ⟨front, back, split, split'⟩ := dirSlots_edit chain'.nodup here live.1 written others
    rw [split']
    exact kept dir member cells chain' here front back split (hold dir member cells chain')
  · rw [dirSlots_congr fun other inside => others other inside fun equal => here (equal ▸ inside)]
    exact hold dir member cells chain'

section Effects

variable {middle : Volume} {path : List UInt8} {mode : Nat} {ok : Bool}

/-- A file that was created is a new entry of its directory. -/
theorem FileCreation.effect (creation : FileCreation vol after path mode parent cells cells' cell index)
    (consistent : Consistent vol dirs) (string : 0 ∉ path) (short : lfnCount (lastComponent path) < 256)
    (hold : SlotsHold P vol dirs)
    (kept : ∀ front run back extra, SlotsReplaced (dirSlots vol cells) (dirSlots after cells')
      (placed cell index (longSlots (lastComponent path) ++ [newEntry (lastComponent path) attrArchive 0 0]))
        front run back extra → P (dirSlots vol cells) → P (dirSlots after cells')) :
    (∃ place, CreatedFile vol after dirs path parent place) ∧ SlotsHold P after dirs := by
  have member := consistent.toListed.parentCluster_mem creation.resolved
  have entered := creation.created.entered consistent.toDirectories member creation.chain (lastComponent_string string) short
  exact ⟨⟨_, creation.resolved, member, creation.missing, entered⟩,
    hold.created consistent.toChained member creation.chain creation.created kept⟩

/-- A directory that was set up joins the others if its entry was stored. -/
theorem DirectoryCreation.effect (creation : DirectoryCreation vol middle after path parent new ok)
    (consistent : Consistent vol dirs) (string : 0 ∉ path) (short : lfnCount (lastComponent path) < 256)
    (hold : SlotsHold P vol dirs) (initial : P (dirSlots middle [new]))
    (kept : ∀ cells cells' cell index front run back extra, SlotsReplaced (dirSlots middle cells) (dirSlots after cells')
      (placed cell index (longSlots (lastComponent path) ++ [newEntry (lastComponent path) attrDirectory new 0]))
        front run back extra → P (dirSlots middle cells) → P (dirSlots after cells')) :
    (Consistent after dirs ∧ SameEntries vol after dirs ∧ SlotsHold P after dirs) ∨
      (∃ place, MadeDirectory vol after dirs path parent new place) ∧ SlotsHold P after (insert new dirs) := by
  have member := consistent.toListed.parentCluster_mem creation.resolved
  have founded := creation.setUp.founded consistent.toDirectories
  have slots := hold.setUp consistent.toChained creation.setUp initial
  rcases creation.stored with ⟨_, rfl⟩ | ⟨_, cells, cells', cell, index, chain, created⟩
  · have fewer := Set.subset_insert new dirs
    have directories := founded.directories.subset fewer (by rw [founded.bpb]; exact consistent.root)
    exact .inl ⟨consistent.of_same directories founded.same founded.bpb, founded.same, slots.subset fewer⟩
  · have bounded : new < 4294967296 := by
      have numbers := consistent.geometry.clusterNumbers
      have upper := creation.inRange.2
      omega
    have entered := created.entered founded.directories (Set.mem_insert_of_mem _ member) chain
      (lastComponent_string string) short
    refine .inr ⟨⟨_, creation.resolved, member, creation.missing, creation.allocated, bounded, middle, founded, entered⟩, ?_⟩
    exact slots.created founded.directories.toChained (Set.mem_insert_of_mem _ member) chain created
      fun front run back extra => kept cells cells' cell index front run back extra

end Effects

/-- An `f_unlink` takes one entry away and, if it lists a directory, this directory. -/
theorem EntryDeletion.effect {middle : Volume} {path : List UInt8} {found : FoundEntry}
    (deletion : EntryDeletion vol middle after path parent found place) (consistent : Consistent vol dirs)
    (hold : SlotsHold P vol dirs)
    (kept : ∀ cells front back, ClusterChain vol parent cells → dirSlots vol cells = front ++ (place, found.entry) :: back →
      P (dirSlots vol cells) → P (front ++ (place, overwrite found.entry 0 [deletedMark]) :: back)) :
    ∃ fewer ⊆ dirs, Consistent after fewer ∧ SlotsHold P after fewer ∧
      (∀ dir ∈ fewer, ∀ other slot, EntryAt after dir other slot ↔ EntryAt vol dir other slot ∧ other ≠ place) ∧
      (¬ found.entry.IsDirectory → fewer = dirs ∧ middle = vol) := by
  have member := consistent.toListed.parentCluster_mem deletion.resolved
  have inRange := deletion.entry.inside.isCluster
  have owner : ∀ dir ∈ dirs, ∀ cells, ClusterChain vol dir cells → place.1 ∈ cells → dir = parent :=
    fun dir member' cells chain inside => consistent.apart dir member' parent member place.1
      ((inDir_iff chain).mpr inside) deletion.entry.inside
  rw [deletion.deleted]
  rcases deletion.freed with ⟨_, rfl⟩ | ⟨lists, cells, chain, freed⟩
  · have removed := removed_markDeleted consistent.toDirectories deletion.cluster deletion.offset inRange deletion.entry.live
    refine ⟨dirs, subset_rfl, removed.consistent consistent, ?_, removed.entries, fun _ => ⟨rfl, rfl⟩⟩
    refine hold.markDeleted consistent.toChained deletion.cluster deletion.offset inRange deletion.entry.live
      fun dir member' cells chain inside front back split holds => ?_
    obtain rfl := owner dir member' cells chain inside
    exact kept cells front back chain split holds
  · obtain ⟨listed, below⟩ := consistent.target parent member place found.entry deletion.entry lists
    have dropped := dropped_of_freed consistent.toDirectories listed below chain freed
    have outside : ∀ dir ∈ dirs \ {found.entry.firstCluster}, ∀ cell, InDir vol dir cell →
        cell ∉ {cell | cell ∈ cells} ∧ cell ∉ (∅ : Set Nat) := fun dir member' cell inside =>
      ⟨fun claimed => member'.2 (consistent.apart dir member'.1 _ listed cell inside ((inDir_iff chain).mpr claimed)),
        Set.notMem_empty _⟩
    have live : LiveAt middle place.1 place.2 found.entry := by
      rw [LiveAt, clusterSlots_congr freed.same inRange (Set.notMem_empty _)]
      exact deletion.entry.live
    have inRange' : IsCluster middle.bpb place.1 := by
      rw [dropped.bpb]
      exact inRange
    have rest : Directories vol (dirs \ {found.entry.firstCluster}) :=
      consistent.toDirectories.subset Set.sdiff_subset ⟨consistent.root, fun same => below same.symm⟩
    have removed := removed_markDeleted dropped.directories deletion.cluster deletion.offset inRange' live
    refine ⟨_, Set.sdiff_subset, removed.consistent_of_dropped consistent member deletion.entry lists dropped, ?_, ?_,
      fun file => absurd lists.1 file⟩
    · have hold' := (hold.subset Set.sdiff_subset).congr rest.toChained freed.same outside
      refine hold'.markDeleted dropped.directories.toChained deletion.cluster deletion.offset inRange' live
        fun dir member' others chain' inside front back split holds => ?_
      obtain ⟨before, chain⟩ := consistent.chain dir member'.1
      obtain rfl := chain'.unique (chain.congr freed.same fun cell there =>
        (outside dir member' cell ((inDir_iff chain).mpr there)).1)
      rw [dirSlots_congr fun cell there => clusterSlots_congr freed.same (chain.isCluster cell there) (Set.notMem_empty _)]
        at split holds
      obtain rfl := owner dir member'.1 others chain inside
      exact kept others front back chain split holds
    · intro dir member' other slot
      rw [removed.entries dir member' other slot, dropped.same dir member' other slot]

end SlotsHold

end KeblaOS.Fat32
