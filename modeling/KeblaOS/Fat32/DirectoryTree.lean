import KeblaOS.Fat32.ShortNames

/-!
# The directory tree

The directories made by `f_mkdir` hang below the root: each is listed by one entry, can be
reached, and its `..` entry leads back to the directory that lists it. `f_rename` rewrites
an entry but not the `..` entry of the directory it lists, so the back links stay right only
while directories are renamed within their parent.
-/

namespace KeblaOS.Fat32

open KeblaOS.Buffer

/-- A volume with the directories made so far. -/
structure MadeState where
  vol : Volume
  made : List Nat

/-- The calls that make and move directories. -/
inductive TreeCall where
  | mkdir (path : List UInt8)
  | rename (oldpath newpath : List UInt8)
deriving DecidableEq

/-- One call. A directory made by `f_mkdir` starts at the cluster that was allocated for it. -/
def TreeStep (state : MadeState) : TreeCall → MadeState → Prop
  | .mkdir path, after => 0 ∉ path ∧ ∃ ok, fMkdir state.vol path = some (ok, after.vol) ∧
      after.made = if ok then state.made ++ (fat32AllocateCluster state.vol).1.toList else state.made
  | .rename oldpath newpath, after => (0 ∉ oldpath ∧ 0 ∉ newpath) ∧
      (∃ ok, fRename state.vol oldpath newpath = some (ok, after.vol)) ∧ after.made = state.made

/-- The root directory and the directories made. -/
def MadeState.dirs (state : MadeState) : Set Nat :=
  {dir | dir = getRootDirCluster state.vol.bpb ∨ dir ∈ state.made}

/-- An entry of `parent` lists the directory. -/
def ListedAt (vol : Volume) (parent : Nat) (place : Nat × Nat) (dir : Nat) : Prop :=
  ∃ slot, EntryAt vol parent place slot ∧ slot.ListsDirectory ∧ slot.firstCluster = dir

/-- The directories form a tree with back links. -/
structure MadeState.IsTree (state : MadeState) : Prop where
  rootOnly : getRootDirCluster state.vol.bpb ∉ state.made
  children : ∀ parent ∈ state.dirs, ∀ place dir, ListedAt state.vol parent place dir → dir ∈ state.made
  reachable : ∀ dir ∈ state.made, IsDirectoryOf state.vol dir
  parent : ∀ dir ∈ state.made, ∃ parent ∈ state.dirs, ∃ place, ListedAt state.vol parent place dir ∧
    (∀ other ∈ state.dirs, ∀ place', ListedAt state.vol other place' dir → other = parent ∧ place' = place) ∧
    ∃ up, EntryAt state.vol dir (dir, 1) up ∧ up.name = dotName 2 ∧ up.firstCluster = parent

/-- The condition under which a call keeps the tree: a directory stays in its parent. -/
def TreeCall.KeepsTree (vol : Volume) : TreeCall → Prop
  | .mkdir path => ∀ parent, parentCluster vol path = some (some parent) →
      fat32DirExists vol parent (lastComponent path) = some false → NotDeletedName (lastComponent path)
  | .rename oldpath newpath => ∀ oldParent newParent found,
      parentCluster vol oldpath = some (some oldParent) → parentCluster vol newpath = some (some newParent) →
      fat32FindFile vol oldParent (lastComponent oldpath) = some (some found) →
      fat32DirExists vol newParent (lastComponent newpath) = some false → found.entry.IsDirectory →
      found.entry.ListsDirectory ∧ newParent = oldParent ∧ NotDeletedName (lastComponent newpath)

/-- A step that meets the condition. -/
def StayingStep (state : MadeState) (call : TreeCall) (after : MadeState) : Prop :=
  call.KeepsTree state.vol ∧ TreeStep state call after

/-- The directory is listed in `dirs`, by the directory its second slot leads back to. -/
def HangsIn (vol : Volume) (dirs : Set Nat) (dir : Nat) : Prop :=
  IsDirectoryOf vol dir ∧ ∃ parent ∈ dirs, (∃ place, ListedAt vol parent place dir) ∧ parent < 4294967296 ∧
    EntryAt vol dir (dir, 1) (dotSlot 2 parent)

/-- The invariant of such runs. -/
structure MadeState.Hangs (state : MadeState) : Prop where
  consistent : Consistent state.vol state.dirs
  rootOnly : getRootDirCluster state.vol.bpb ∉ state.made
  hangs : ∀ dir ∈ state.made, HangsIn state.vol state.dirs dir

section Tree

variable {vol after : Volume} {dirs more : Set Nat} {dir : Nat}

/-- Directories stay reachable while every directory lists what it listed before. -/
theorem IsDirectoryOf.mono (consistent : Consistent vol dirs) (bpb : after.bpb = vol.bpb)
    (listed : ∀ parent ∈ dirs, ∀ place child, ListedAt vol parent place child → ∃ place', ListedAt after parent place' child)
    (directory : IsDirectoryOf vol dir) : IsDirectoryOf after dir := by
  induction directory with
  | root =>
      rw [← bpb]
      exact .root
  | @listed parent place slot above entry lists ih =>
      have member := consistent.mem_of_isDirectoryOf above
      obtain ⟨place', slot', entry', lists', same⟩ := listed parent member place _ ⟨slot, entry, lists, rfl⟩
      rw [← same]
      exact .listed ih entry' lists'

theorem HangsIn.mono (consistent : Consistent vol dirs) (subset : dirs ⊆ more) (bpb : after.bpb = vol.bpb)
    (listed : ∀ parent ∈ dirs, ∀ place child, ListedAt vol parent place child → ∃ place', ListedAt after parent place' child)
    (dots : ∀ parent, EntryAt vol dir (dir, 1) (dotSlot 2 parent) → EntryAt after dir (dir, 1) (dotSlot 2 parent))
    (hangs : HangsIn vol dirs dir) : HangsIn after more dir := by
  obtain ⟨directory, parent, member, ⟨place, lists⟩, bounded, up⟩ := hangs
  exact ⟨directory.mono consistent bpb listed, parent, subset member, listed parent member place dir lists, bounded,
    dots parent up⟩

theorem MadeState.Hangs.isTree {state : MadeState} (hangs : state.Hangs) : state.IsTree := by
  have consistent := hangs.consistent
  refine ⟨hangs.rootOnly, ?_, fun dir member => (hangs.hangs dir member).1, fun dir member => ?_⟩
  · rintro parent member place dir ⟨slot, entry, lists, rfl⟩
    obtain ⟨inside, below⟩ := consistent.target parent member place slot entry lists
    exact inside.resolve_left below
  · obtain ⟨_, parent, member', ⟨place, slot, entry, lists, same⟩, bounded, up⟩ := hangs.hangs dir member
    refine ⟨parent, member', place, ⟨slot, entry, lists, same⟩, ?_, _, up, ?_, ?_⟩
    · rintro other otherMember place' ⟨slot', entry', lists', same'⟩
      have position := consistent.once other otherMember place' slot' entry' lists' parent member' place slot entry
        lists (same'.trans same.symm)
      subst position
      exact ⟨consistent.apart other otherMember parent member' place'.1 entry'.inside entry.inside, rfl⟩
    · exact shortSlot_name (length_dotName (by decide))
    · exact shortSlot_firstCluster (length_dotName (by decide)) bounded

theorem newEntry_lists {name : List UInt8} {attr : UInt8} {first size : Nat} (directory : attr &&& attrDirectory ≠ 0) :
    (newEntry name attr first size).ListsDirectory := by
  refine ⟨newEntry_isDirectory.mpr directory, ?_⟩
  rw [newEntry_firstByte]
  exact fat32Format83Name_ne_dot name

theorem Directories.lt_of_mem (directories : Directories vol dirs) (member : dir ∈ dirs) : dir < 4294967296 := by
  obtain ⟨cells, chain⟩ := directories.chain dir member
  have numbers := directories.geometry.clusterNumbers
  have upper := chain.start_isCluster.2
  omega

theorem MadeState.Hangs.isDirectoryOf {state : MadeState} (hangs : state.Hangs) (member : dir ∈ state.dirs) :
    IsDirectoryOf state.vol dir := by
  rcases member with rfl | made
  · exact .root
  · exact (hangs.hangs dir made).1

/-- A state in which the graph is the same. -/
theorem MadeState.Hangs.of_same {state next : MadeState} (hangs : state.Hangs)
    (directories : Directories next.vol state.dirs) (same : SameEntries state.vol next.vol state.dirs)
    (bpb : next.vol.bpb = state.vol.bpb) (made : next.made = state.made) : next.Hangs := by
  have dirs : next.dirs = state.dirs := by rw [MadeState.dirs, bpb, made, MadeState.dirs]
  refine ⟨?_, by rw [bpb, made]; exact hangs.rootOnly, fun dir member => ?_⟩
  · rw [dirs]
    exact hangs.consistent.of_same directories same bpb
  · rw [made] at member
    rw [dirs]
    refine (hangs.hangs dir member).mono hangs.consistent subset_rfl bpb ?_ ?_
    · rintro parent member' place child ⟨slot, entry, lists⟩
      exact ⟨place, slot, (same parent member' place slot).mpr entry, lists⟩
    · exact fun parent entry => (same dir (.inr member) _ _).mpr entry

theorem MadeState.Hangs.mkdir {state next : MadeState} {path : List UInt8} (hangs : state.Hangs)
    (keeps : (TreeCall.mkdir path).KeepsTree state.vol) (taken : TreeStep state (.mkdir path) next) : next.Hangs := by
  obtain ⟨string, ok, returned, record⟩ := taken
  have consistent := hangs.consistent
  rcases consistent.fMkdir_cases string returned with
    ⟨rfl, directories, same, bpb⟩ | ⟨rfl, parent, new, place, made⟩
  · exact hangs.of_same directories same bpb record
  · obtain ⟨middle, founded, entered⟩ := made.effect
    have bpb : next.vol.bpb = state.vol.bpb := entered.bpb.trans founded.bpb
    have list : next.made = state.made ++ [new] := by simpa [made.allocated] using record
    have dirs : next.dirs = insert new state.dirs := by
      ext other
      simp only [MadeState.dirs, bpb, list, List.mem_append, List.mem_singleton, Set.mem_ofPred_eq, Set.mem_insert_iff]
      rw [← or_assoc, or_comm]
    have kept : ∀ other ∈ state.dirs, ∀ place slot, EntryAt state.vol other place slot → EntryAt next.vol other place slot :=
      fun other member place slot entry => (entered.entries other (Set.mem_insert_of_mem _ member) place slot).mpr
        (.inl ((founded.same other member place slot).mpr entry))
    have listed : ∀ other ∈ state.dirs, ∀ place child, ListedAt state.vol other place child →
        ∃ place', ListedAt next.vol other place' child := by
      rintro other member place child ⟨slot, entry, lists⟩
      exact ⟨place, slot, kept other member place slot entry, lists⟩
    -- the new entry lists the new directory
    have entry := (entered.entries parent (Set.mem_insert_of_mem _ made.member) place
      (newEntry (lastComponent path) attrDirectory new 0)).mpr (.inr ⟨rfl, rfl, rfl,
        newEntry_inUse (lastComponent_string string) (keeps parent made.resolved made.missing) (by decide)⟩)
    have lists : (newEntry (lastComponent path) attrDirectory new 0).ListsDirectory := newEntry_lists (by decide)
    have first := @newEntry_firstCluster new 0 (lastComponent path) attrDirectory made.bounded
    refine ⟨by rw [dirs]; exact made.consistent consistent, ?_, fun dir member => ?_⟩
    · rw [bpb, list]
      rintro inside
      rcases List.mem_append.mp inside with old | fresh
      · exact hangs.rootOnly old
      · rw [List.mem_singleton] at fresh
        exact founded.fresh (.inl fresh.symm)
    · rw [list, List.mem_append, List.mem_singleton] at member
      rw [dirs]
      rcases member with old | rfl
      · exact (hangs.hangs dir old).mono consistent (Set.subset_insert _ _) bpb listed
          fun parent up => kept dir (.inr old) _ _ up
      · have above := (hangs.isDirectoryOf made.member).mono consistent bpb listed
        have reached := IsDirectoryOf.listed above entry lists
        rw [first] at reached
        refine ⟨reached, parent, Set.mem_insert_of_mem _ made.member, ⟨place, _, entry, lists, first⟩,
          consistent.toDirectories.lt_of_mem made.member, ?_⟩
        exact (entered.entries dir (Set.mem_insert _ _) _ _).mpr
          (.inl ((founded.entries _ _).mpr (.inr ⟨rfl, rfl⟩)))

theorem MadeState.Hangs.rename {state next : MadeState} {oldpath newpath : List UInt8} (hangs : state.Hangs)
    (keeps : (TreeCall.rename oldpath newpath).KeepsTree state.vol)
    (taken : TreeStep state (.rename oldpath newpath) next) : next.Hangs := by
  obtain ⟨string, ⟨ok, returned⟩, record⟩ := taken
  have consistent := hangs.consistent
  rcases consistent.fRename_cases string.2 returned with
    same | ⟨oldParent, newParent, found, oldPlace, newPlace, renamed⟩
  · refine hangs.of_same (by rw [same]; exact consistent.toDirectories) (fun _ _ _ _ => by rw [same]) (by rw [same]) record
  · obtain ⟨middle, entered, removed⟩ := renamed.effect
    have stays := keeps oldParent newParent found renamed.oldResolved renamed.newResolved renamed.lookup renamed.missing
    have avoids : found.entry.IsDirectory → found.entry.ListsDirectory := fun directory => (stays directory).1
    have bpb : next.vol.bpb = state.vol.bpb := removed.bpb.trans entered.bpb
    have dirs : next.dirs = state.dirs := by rw [MadeState.dirs, bpb, record, MadeState.dirs]
    have kept : ∀ other ∈ state.dirs, ∀ place slot, EntryAt state.vol other place slot → place ≠ oldPlace →
        EntryAt next.vol other place slot := fun other member place slot entry moved =>
      (removed.entries other member place slot).mpr ⟨(entered.entries other member place slot).mpr (.inl entry), moved⟩
    have atOld : ∀ slot, LiveAt state.vol oldPlace.1 oldPlace.2 slot → slot = found.entry := by
      intro slot live
      have there := renamed.entry.live.1
      rw [live.1] at there
      simpa using there
    have listed : ∀ other ∈ state.dirs, ∀ place child, ListedAt state.vol other place child →
        ∃ place', ListedAt next.vol other place' child := by
      rintro other member place child ⟨slot, entry, lists, rfl⟩
      by_cases moved : place = oldPlace
      · -- the renamed entry itself: the new one lists the same directory in the same parent
        subst moved
        obtain rfl := atOld slot entry.live
        obtain ⟨_, rfl, notDeleted⟩ := stays lists.1
        obtain rfl := consistent.apart other member newParent renamed.newMember place.1 entry.inside renamed.entry.inside
        refine ⟨newPlace, _, (removed.entries other member newPlace _).mpr ⟨(entered.entries other member newPlace _).mpr
          (.inr ⟨rfl, rfl, rfl, newEntry_inUse (lastComponent_string string.2) notDeleted lists.1.attr_ne⟩), ?_⟩,
          newEntry_lists lists.1, newEntry_firstCluster found.entry.firstCluster_lt⟩
        rintro rfl
        exact entered.vacant other member _ entry
      · exact ⟨place, slot, kept other member place slot entry moved, lists, rfl⟩
    refine ⟨by rw [dirs]; exact renamed.consistent consistent avoids, by rw [bpb, record]; exact hangs.rootOnly,
      fun dir member => ?_⟩
    rw [record] at member
    rw [dirs]
    refine (hangs.hangs dir member).mono consistent subset_rfl bpb listed fun parent up => ?_
    refine kept dir (.inr member) _ _ up ?_
    -- a `..` entry is not what was renamed
    intro same
    have equal : dotSlot 2 parent = found.entry := atOld _ (by rw [← same]; exact up.live)
    have directory : found.entry.IsDirectory := by
      rw [← equal, Slot.IsDirectory, dotSlot_attr (by decide)]
      decide
    have lists := avoids directory
    rw [← equal] at lists
    exact dotSlot_lists (by decide) (by decide) lists

end Tree

/-- In every run from an empty root in which directories are renamed only within their parent,
the directories form a tree with right back links. -/
theorem staying_run_isTree {start : Volume} {state : MadeState} {trace : List TreeCall} (empty : EmptyRoot start)
    (run : Run StayingStep ⟨start, []⟩ trace state) : state.IsTree := by
  have initial : (⟨start, []⟩ : MadeState).Hangs := by
    refine ⟨?_, List.not_mem_nil, fun dir member => absurd member List.not_mem_nil⟩
    have dirs : (⟨start, []⟩ : MadeState).dirs = {getRootDirCluster start.bpb} := by
      ext other
      simp [MadeState.dirs]
    rw [dirs]
    exact empty.consistent
  refine (run.invariant MadeState.Hangs initial ?_).isTree
  rintro before call after hangs ⟨keeps, taken⟩
  cases call with
  | mkdir path => exact hangs.mkdir keeps taken
  | rename oldpath newpath => exact hangs.rename keeps taken

/-- `/A` is made on the empty volume, in cluster 3. -/
theorem emptyVolume_mkdir : fMkdir emptyVolume [slash, 0x41] =
    some (true, ((fMkdir emptyVolume [slash, 0x41]).getD (false, emptyVolume)).2) :=
  eq_some_of_map_fst (false, emptyVolume) (by decide +kernel)

theorem emptyVolume_allocates : (fat32AllocateCluster emptyVolume).1 = some 3 := by decide +kernel

/-- Making `/A` and renaming it to `/B`. -/
theorem staying_run_isTree_renamed :
    ∃ vol, Run StayingStep ⟨emptyVolume, []⟩ [.mkdir [slash, 0x41], .rename [slash, 0x41] [slash, 0x42]] ⟨vol, [3]⟩ ∧
      (⟨vol, [3]⟩ : MadeState).IsTree := by
  let middle := ((fMkdir emptyVolume [slash, 0x41]).getD (false, emptyVolume)).2
  let last := ((fRename middle [slash, 0x41] [slash, 0x42]).getD (false, middle)).2
  have made : fMkdir emptyVolume [slash, 0x41] = some (true, middle) := emptyVolume_mkdir
  have renamed : fRename middle [slash, 0x41] [slash, 0x42] = some (true, last) :=
    eq_some_of_map_fst (false, middle) (by decide +kernel)
  have oldParent : parentCluster middle [slash, 0x41] = some (some 2) := by decide +kernel
  have newParent : parentCluster middle [slash, 0x42] = some (some 2) := by decide +kernel
  have first : (fat32FindFile middle 2 [0x41]).map (·.map (·.entry.firstByte)) = some (some 0x41) := by decide +kernel
  have stays : (TreeCall.rename [slash, 0x41] [slash, 0x42]).KeepsTree middle := by
    intro parent parent' found resolved resolved' lookup _ directory
    obtain rfl : 2 = parent := by simpa [oldParent] using resolved
    obtain rfl : 2 = parent' := by simpa [newParent] using resolved'
    refine ⟨⟨directory, ?_⟩, rfl, by decide⟩
    have name : lastComponent [slash, 0x41] = [0x41] := by decide
    rw [name] at lookup
    rw [lookup] at first
    have byte : found.entry.firstByte = 0x41 := by simpa using first
    rw [byte]
    decide
  have run : Run StayingStep ⟨emptyVolume, []⟩ [.mkdir [slash, 0x41], .rename [slash, 0x41] [slash, 0x42]] ⟨last, [3]⟩ :=
    Run.snoc (Run.snoc .nil (show StayingStep ⟨emptyVolume, []⟩ (.mkdir [slash, 0x41]) ⟨middle, [3]⟩ from
      ⟨fun _ _ _ => by decide, by decide, true, made, by rw [emptyVolume_allocates]; rfl⟩))
      ⟨stays, by decide, ⟨true, renamed⟩, rfl⟩
  exact ⟨last, run, staying_run_isTree emptyVolume_emptyRoot run⟩

/-- `/A` and `/B` are made and `/A` is renamed to `/B/A`; its `..` entry still leads to the
root. -/
theorem rename_keeps_stale_parent :
    EmptyRoot emptyVolume ∧ ∃ state, Run TreeStep ⟨emptyVolume, []⟩ [.mkdir [slash, 0x41], .mkdir [slash, 0x42],
      .rename [slash, 0x41] [slash, 0x42, slash, 0x41]] state ∧ ¬ state.IsTree := by
  have computed : (fMkdir emptyVolume [slash, 0x41]).any (fun first => (fMkdir first.2 [slash, 0x42]).any fun second =>
      (fRename second.2 [slash, 0x41] [slash, 0x42, slash, 0x41]).any fun last =>
        first.1 ∧ second.1 ∧ last.1 ∧ (fat32AllocateCluster emptyVolume).1 = some 3 ∧
        (fat32AllocateCluster first.2).1 = some 4 ∧ (clusterSlots last.2 3)[1]? = some (dotSlot 2 2) ∧
        (dotSlot 2 2).firstCluster = 2 ∧ isEndOfClusterChain (fat32GetNextCluster last.2 2) = true ∧
        IsCluster last.2.bpb 2 ∧ ∀ slot ∈ clusterSlots last.2 2, slot.InUse → slot.firstCluster ≠ 3) = true := by
    decide +kernel
  obtain ⟨⟨ok, first⟩, made, computed⟩ := (Option.any_eq_true _ _).mp computed
  obtain ⟨⟨ok', second⟩, made', computed⟩ := (Option.any_eq_true _ _).mp computed
  obtain ⟨⟨ok'', last⟩, renamed, computed⟩ := (Option.any_eq_true _ _).mp computed
  obtain ⟨rfl, rfl, rfl, allocated, allocated', stored, upward, ends, isCluster, unlisted⟩ := of_decide_eq_true computed
  have run : Run TreeStep ⟨emptyVolume, []⟩ [.mkdir [slash, 0x41], .mkdir [slash, 0x42],
      .rename [slash, 0x41] [slash, 0x42, slash, 0x41]] ⟨last, [3, 4]⟩ :=
    Run.snoc (Run.snoc (Run.snoc .nil (show TreeStep ⟨emptyVolume, []⟩ (.mkdir [slash, 0x41]) ⟨first, [3]⟩ from
      ⟨by decide, true, made, by rw [allocated]; rfl⟩))
      (show TreeStep ⟨first, [3]⟩ (.mkdir [slash, 0x42]) ⟨second, [3, 4]⟩ from
        ⟨by decide, true, made', by rw [allocated']; rfl⟩)) ⟨by decide, ⟨true, renamed⟩, rfl⟩
  refine ⟨emptyVolume_emptyRoot, _, run, fun tree => ?_⟩
  obtain ⟨parent, _, place, ⟨slot, entry, _, points⟩, _, up, upEntry, _, back⟩ := tree.parent 3 (by simp)
  obtain rfl : dotSlot 2 2 = up := Option.some.inj (stored.symm.trans upEntry.live.1)
  obtain rfl : 2 = parent := upward.symm.trans back
  -- but the root does not list the directory any more
  have chain : ClusterChain last 2 [2] := by
    refine ⟨.last ends, fun cell member => ?_⟩
    rwa [List.mem_singleton.mp member]
  have here : place.1 = 2 := by simpa using (inDir_iff chain).mp entry.inside
  have live := entry.live
  rw [here] at live
  exact unlisted slot (List.mem_of_getElem? live.1) live.2 points

end KeblaOS.Fat32
