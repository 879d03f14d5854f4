import KeblaOS.Lib.Run
import KeblaOS.Fat32.DirectoryCalls

/-!
# Short names in a directory

`f_open` looks for every kind of entry before it creates one, `f_mkdir` and `f_rename` only
for directories, and only up to the first slot that was never used. So short names stay
unique in the runs in which these two calls are not asked for a name that a file or an entry
behind such a slot already has.
-/

namespace KeblaOS.Fat32

open KeblaOS.Buffer

/-- The calls that change directories. -/
inductive DirectoryCall where
  | openFile (path : List UInt8) (mode : Nat)
  | mkdir (path : List UInt8)
  | rename (oldpath newpath : List UInt8)
  | unlink (path : List UInt8)
deriving DecidableEq

/-- One call, whether it succeeds or not. Paths are C strings, so they have no zero byte. -/
def DirectoryStep (vol : Volume) : DirectoryCall → Volume → Prop
  | .openFile path mode, after => 0 ∉ path ∧ ∃ file, fOpen vol path mode = some (file, after)
  | .mkdir path, after => 0 ∉ path ∧ ∃ ok, fMkdir vol path = some (ok, after)
  | .rename oldpath newpath, after => (0 ∉ oldpath ∧ 0 ∉ newpath) ∧ ∃ ok, fRename vol oldpath newpath = some (ok, after)
  | .unlink path, after => 0 ∉ path ∧ ∃ ok, fUnlink vol path = some (ok, after)

/-- The directories of a volume: what can be reached from the root along its entries. -/
inductive IsDirectoryOf (vol : Volume) : Nat → Prop where
  | root : IsDirectoryOf vol (getRootDirCluster vol.bpb)
  | listed {dir place slot} (above : IsDirectoryOf vol dir) (entry : EntryAt vol dir place slot)
      (lists : slot.ListsDirectory) : IsDirectoryOf vol slot.firstCluster

/-- No two live entries of the directory have the same 11 bytes for a name. -/
def ShortNamesUnique (vol : Volume) (dir : Nat) : Prop :=
  ∀ place slot place' slot', EntryAt vol dir place slot → EntryAt vol dir place' slot' →
    slot.name = slot'.name → place = place'

/-- The short form of the name is taken at most by directories that `fat32_dir_exists` gets
to, or by the entry at `except`. -/
def NameVisible (vol : Volume) (parent : Nat) (name : List UInt8) (except : Set (Nat × Nat)) : Prop :=
  ∀ cells, ClusterChain vol parent cells → ∀ cell ∈ cells, ∀ index slot, LiveAt vol cell index slot →
    slot.name = fat32Format83Name name → (cell, index) ∉ except → slot.IsDirectory ∧ NoGapBefore vol cells cell

/-- The condition under which a call keeps short names apart; a call that enters no name needs none. -/
def DirectoryCall.KeepsNames (vol : Volume) : DirectoryCall → Prop
  | .openFile path mode => mode &&& (faCreate ||| faCreateAlways) ≠ 0 → ∀ parent,
      parentCluster vol path = some (some parent) → fat32FindFile vol parent (lastComponent path) = some none →
      lfnCount (lastComponent path) < 256
  | .mkdir path => ∀ parent, parentCluster vol path = some (some parent) →
      fat32DirExists vol parent (lastComponent path) = some false →
      NameVisible vol parent (lastComponent path) ∅
  | .rename oldpath newpath => ∀ oldParent newParent found,
      parentCluster vol oldpath = some (some oldParent) → parentCluster vol newpath = some (some newParent) →
      fat32FindFile vol oldParent (lastComponent oldpath) = some (some found) →
      fat32DirExists vol newParent (lastComponent newpath) = some false →
      (found.entry.IsDirectory → found.entry.ListsDirectory) ∧
        NameVisible vol newParent (lastComponent newpath)
          {place | found.entryCluster = place.1 ∧ found.entryOffset = 32 * place.2}
  | .unlink path => AvoidsDots vol path

/-- A step that meets the condition. -/
def NamedStep (vol : Volume) (call : DirectoryCall) (after : Volume) : Prop :=
  call.KeepsNames vol ∧ DirectoryStep vol call after

/-- The invariant of such runs. -/
def NamesApart (vol : Volume) : Prop :=
  ∃ dirs, Consistent vol dirs ∧ ∀ dir ∈ dirs, ShortNamesUnique vol dir

section Steps

variable {vol after : Volume} {dirs more : Set Nat} {parent : Nat} {path name : List UInt8}

/-- Every directory that can be reached belongs to the graph. -/
theorem Consistent.mem_of_isDirectoryOf {dir : Nat} (consistent : Consistent vol dirs)
    (directory : IsDirectoryOf vol dir) : dir ∈ dirs := by
  induction directory with
  | root => exact consistent.root
  | listed above entry lists ih => exact (consistent.target _ ih _ _ entry lists).1

/-- A name that `fat32_dir_exists` does not find is free if it would have been visible. -/
theorem NameVisible.free {gone : Set (Nat × Nat)} {place : Nat × Nat} {slot : Slot}
    (visible : NameVisible vol parent name gone) (directories : Directories vol dirs) (member : parent ∈ dirs)
    (missing : fat32DirExists vol parent name = some false) (entry : EntryAt vol parent place slot)
    (same : slot.name = fat32Format83Name name) : place ∈ gone := by
  by_contra other
  obtain ⟨cells, chain⟩ := directories.chain parent member
  have inside := (inDir_iff chain).mp entry.inside
  obtain ⟨directory, noGap⟩ := visible cells chain place.1 inside place.2 slot entry.live same other
  exact fat32DirExists_false directories.geometry chain
    (fun cell member' => directories.zeros parent member cell ((inDir_iff chain).mpr member')) missing inside noGap
    entry.live directory same

/-- A name that `fat32_find_file` does not find is free. -/
theorem Directories.findFile_none {place : Nat × Nat} {slot : Slot} (directories : Directories vol dirs)
    (member : parent ∈ dirs) (missing : fat32FindFile vol parent name = some none)
    (entry : EntryAt vol parent place slot) : slot.name ≠ fat32Format83Name name := by
  obtain ⟨cells, chain⟩ := directories.chain parent member
  refine fat32FindFile_none directories.geometry chain (fun cell inside => ?_) missing
    ((inDir_iff chain).mp entry.inside) entry.live
  exact directories.zeros parent member cell ((inDir_iff chain).mpr inside)

/-- A new entry keeps names apart if all other entries of its directory with its name go. -/
theorem ShortNamesUnique.replace {middle : Volume} {place : Nat × Nat} {new : Slot} {dir : Nat}
    (unique : ShortNamesUnique vol dir) (member : dir ∈ dirs) (entered : Entered vol middle dirs parent place new)
    (gone : Set (Nat × Nat))
    (entries : ∀ other slot, EntryAt after dir other slot → EntryAt middle dir other slot ∧ other ∉ gone)
    (free : ∀ other slot, EntryAt vol parent other slot → slot.name = new.name → other ∈ gone) :
    ShortNamesUnique after dir := by
  intro other slot other' slot' entry entry' same
  obtain ⟨present, kept⟩ := entries other slot entry
  obtain ⟨present', kept'⟩ := entries other' slot' entry'
  rcases (entered.entries dir member other slot).mp present with old | ⟨rfl, rfl, rfl, _⟩
  · rcases (entered.entries dir member other' slot').mp present' with old' | ⟨rfl, rfl, rfl, _⟩
    · exact unique other slot other' slot' old old' same
    · exact absurd (free other slot old same) kept
  · rcases (entered.entries dir member other' slot').mp present' with old' | ⟨_, rfl, rfl, _⟩
    · exact absurd (free other' slot' old' same.symm) kept'
    · rfl

theorem Founded.shortNamesUnique {new : Nat} (founded : Founded vol after dirs new parent)
    (unique : ∀ dir ∈ dirs, ShortNamesUnique vol dir) : ∀ dir ∈ insert new dirs, ShortNamesUnique after dir := by
  intro dir member place slot place' slot' entry entry' same
  rcases Set.mem_insert_iff.mp member with rfl | old
  · -- the dot entries have different names
    have one : ∀ cluster, (dotSlot 1 cluster).name = dotName 1 := fun _ => shortSlot_name (length_dotName (by decide))
    have two : ∀ cluster, (dotSlot 2 cluster).name = dotName 2 := fun _ => shortSlot_name (length_dotName (by decide))
    have different : dotName 1 ≠ dotName 2 := by decide
    rcases (founded.entries place slot).mp entry with ⟨rfl, rfl⟩ | ⟨rfl, rfl⟩
    · rcases (founded.entries place' slot').mp entry' with ⟨rfl, rfl⟩ | ⟨rfl, rfl⟩
      · rfl
      · rw [one, two] at same
        exact absurd same different
    · rcases (founded.entries place' slot').mp entry' with ⟨rfl, rfl⟩ | ⟨rfl, rfl⟩
      · rw [one, two] at same
        exact absurd same.symm different
      · rfl
  · exact unique dir old place slot place' slot' ((founded.same dir old place slot).mp entry)
      ((founded.same dir old place' slot').mp entry') same

theorem NamesApart.of_same (consistent : Consistent vol dirs) (unique : ∀ dir ∈ dirs, ShortNamesUnique vol dir)
    (directories : Directories after dirs) (same : SameEntries vol after dirs) (bpb : after.bpb = vol.bpb) :
    NamesApart after := by
  refine ⟨dirs, consistent.of_same directories same bpb, fun dir member place slot place' slot' entry entry' => ?_⟩
  exact unique dir member place slot place' slot' ((same dir member place slot).mp entry)
    ((same dir member place' slot').mp entry')

/-- A founded directory whose entry has a free name keeps names apart. -/
theorem MadeDirectory.shortNamesUnique {new : Nat} {place : Nat × Nat}
    (made : MadeDirectory vol after dirs path parent new place) (unique : ∀ dir ∈ dirs, ShortNamesUnique vol dir)
    (free : ∀ other slot, EntryAt vol parent other slot → slot.name ≠ fat32Format83Name (lastComponent path)) :
    ∀ dir ∈ insert new dirs, ShortNamesUnique after dir := by
  obtain ⟨middle, founded, entered⟩ := made.effect
  intro dir member
  refine (founded.shortNamesUnique unique dir member).replace member entered ∅
    (fun other slot entry => ⟨entry, Set.notMem_empty other⟩) fun other slot entry same => ?_
  rw [newEntry_name] at same
  exact absurd same (free other slot ((founded.same parent made.member other slot).mp entry))

theorem CreatedFile.shortNamesUnique {place : Nat × Nat} (created : CreatedFile vol after dirs path parent place)
    (directories : Directories vol dirs) (unique : ∀ dir ∈ dirs, ShortNamesUnique vol dir) :
    ∀ dir ∈ dirs, ShortNamesUnique after dir := by
  intro dir member
  refine (unique dir member).replace member created.effect ∅
    (fun other slot entry => ⟨entry, Set.notMem_empty other⟩) fun other slot entry same => ?_
  rw [newEntry_name] at same
  exact absurd same (directories.findFile_none created.member created.missing entry)

theorem NamesApart.mkdir {ok : Bool} (apart : NamesApart vol) (string : 0 ∉ path)
    (keeps : (DirectoryCall.mkdir path).KeepsNames vol) (returned : fMkdir vol path = some (ok, after)) :
    NamesApart after := by
  obtain ⟨dirs, consistent, unique⟩ := apart
  rcases consistent.fMkdir_cases string returned with ⟨_, directories, same, bpb⟩ | ⟨_, parent, new, place, made⟩
  · exact .of_same consistent unique directories same bpb
  · have visible := keeps parent made.resolved made.missing
    refine ⟨_, made.consistent consistent, made.shortNamesUnique unique fun other slot entry same => ?_⟩
    exact visible.free consistent.toDirectories made.member made.missing entry same

theorem NamesApart.openFile {mode : Nat} {file : Option Fat32File} (apart : NamesApart vol) (string : 0 ∉ path)
    (keeps : (DirectoryCall.openFile path mode).KeepsNames vol) (returned : fOpen vol path mode = some (file, after)) :
    NamesApart after := by
  obtain ⟨dirs, consistent, unique⟩ := apart
  rcases consistent.fOpen_cases string keeps returned with rfl | ⟨parent, place, created⟩
  · exact ⟨dirs, consistent, unique⟩
  · exact ⟨dirs, created.consistent consistent, created.shortNamesUnique consistent.toDirectories unique⟩

theorem NamesApart.rename {oldpath newpath : List UInt8} {ok : Bool} (apart : NamesApart vol) (string : 0 ∉ newpath)
    (keeps : (DirectoryCall.rename oldpath newpath).KeepsNames vol)
    (returned : fRename vol oldpath newpath = some (ok, after)) : NamesApart after := by
  obtain ⟨dirs, consistent, unique⟩ := apart
  rcases consistent.fRename_cases string returned with
    rfl | ⟨oldParent, newParent, found, oldPlace, newPlace, renamed⟩
  · exact ⟨dirs, consistent, unique⟩
  · obtain ⟨middle, entered, removed⟩ := renamed.effect
    obtain ⟨avoids, visible⟩ :=
      keeps oldParent newParent found renamed.oldResolved renamed.newResolved renamed.lookup renamed.missing
    refine ⟨dirs, renamed.consistent consistent avoids, fun dir member => ?_⟩
    refine (unique dir member).replace member entered {oldPlace}
      (fun other slot entry => (removed.entries dir member other slot).mp entry) fun other slot entry same => ?_
    rw [newEntry_name] at same
    obtain ⟨cluster, offset⟩ := visible.free consistent.toDirectories renamed.newMember renamed.missing entry same
    refine Prod.ext (cluster.symm.trans renamed.cluster) ?_
    have position := renamed.offset
    omega

theorem NamesApart.unlink {ok : Bool} (apart : NamesApart vol) (avoids : AvoidsDots vol path)
    (returned : fUnlink vol path = some (ok, after)) : NamesApart after := by
  obtain ⟨dirs, consistent, unique⟩ := apart
  rcases consistent.fUnlink_cases avoids returned with rfl | ⟨parent, found, place, unlinked⟩
  · exact ⟨dirs, consistent, unique⟩
  · obtain ⟨fewer, subset, kept, entries⟩ := unlinked.consistent consistent
    refine ⟨fewer, kept, fun dir member place slot place' slot' entry entry' => ?_⟩
    exact unique dir (subset member) place slot place' slot' (entries dir member place slot entry)
      (entries dir member place' slot' entry')

theorem NamesApart.step {call : DirectoryCall} (apart : NamesApart vol) (taken : NamedStep vol call after) :
    NamesApart after := by
  obtain ⟨keeps, step⟩ := taken
  cases call with
  | openFile path mode =>
      obtain ⟨string, file, returned⟩ := step
      exact apart.openFile string keeps returned
  | mkdir path =>
      obtain ⟨string, ok, returned⟩ := step
      exact apart.mkdir string keeps returned
  | rename oldpath newpath =>
      obtain ⟨string, ok, returned⟩ := step
      exact apart.rename string.2 keeps returned
  | unlink path =>
      obtain ⟨_, ok, returned⟩ := step
      exact apart.unlink keeps returned

end Steps

theorem EmptyRoot.namesApart {vol : Volume} (empty : EmptyRoot vol) : NamesApart vol := by
  refine ⟨_, empty.consistent, ?_⟩
  rintro dir rfl place slot place' slot' entry entry' _
  exact empty.single place slot place' slot' entry entry'

/-- In every run from an empty root whose steps meet the condition, no directory has two
entries with one short name. -/
theorem named_run_shortNamesUnique {start vol : Volume} {trace : List DirectoryCall} (empty : EmptyRoot start)
    (run : Run NamedStep start trace vol) {dir : Nat} (directory : IsDirectoryOf vol dir) :
    (∃ cells, ClusterChain vol dir cells) ∧ ShortNamesUnique vol dir := by
  obtain ⟨dirs, consistent, unique⟩ := run.invariant NamesApart empty.namesApart fun apart taken => apart.step taken
  have member := consistent.mem_of_isDirectoryOf directory
  exact ⟨consistent.chain dir member, unique dir member⟩

/-- `f_mkdir("/A")` and then creating `/A/B` on an empty volume. -/
theorem named_run_shortNamesUnique_two :
    ∃ vol, Run NamedStep emptyVolume [.mkdir [slash, 0x41], .openFile [slash, 0x41, slash, 0x42] faCreate] vol ∧
      ShortNamesUnique vol (getRootDirCluster vol.bpb) := by
  let middle := ((fMkdir emptyVolume [slash, 0x41]).getD (false, emptyVolume)).2
  have made : fMkdir emptyVolume [slash, 0x41] = some (true, middle) :=
    eq_some_of_map_fst (false, emptyVolume) (by decide +kernel)
  have opened := @eq_some_getD_of_isSome _ (fOpen middle [slash, 0x41, slash, 0x42] faCreate) (none, middle)
    (by decide +kernel)
  have visible : (DirectoryCall.mkdir [slash, 0x41]).KeepsNames emptyVolume := by
    intro parent resolved _ cells chain cell member index slot live
    have value : parentCluster emptyVolume [slash, 0x41] = some (some 2) := by decide +kernel
    obtain rfl : 2 = parent := by
      rw [value] at resolved
      simpa using resolved
    exact absurd ⟨(inDir_iff chain).mpr member, live⟩ (@emptyVolume_no_entry (cell, index) slot)
  have run := Run.snoc (Run.snoc .nil (show NamedStep emptyVolume (.mkdir [slash, 0x41]) middle from
    ⟨visible, by decide, true, made⟩)) (show NamedStep middle (.openFile [slash, 0x41, slash, 0x42] faCreate) _ from
    ⟨fun _ _ _ _ => by decide, by decide, _, opened⟩)
  exact ⟨_, run, (named_run_shortNamesUnique emptyVolume_emptyRoot run .root).2⟩

/-- A file `A` is created, then `f_mkdir("/A")` succeeds: the root directory has two entries
with this name. -/
theorem mkdir_repeats_name_of_file :
    EmptyRoot emptyVolume ∧ ∃ vol dir, Run DirectoryStep emptyVolume [.openFile [slash, 0x41] faCreate,
      .mkdir [slash, 0x41]] vol ∧ IsDirectoryOf vol dir ∧ ¬ ShortNamesUnique vol dir := by
  have computed : (fOpen emptyVolume [slash, 0x41] faCreate).any (fun opened =>
      (fMkdir opened.2 [slash, 0x41]).any fun made => made.1 = true ∧ getRootDirCluster made.2.bpb = 2 ∧
        isEndOfClusterChain (fat32GetNextCluster made.2 2) = true ∧ IsCluster made.2.bpb 2 ∧
        ((clusterSlots made.2 2)[0]? = some (newEntry [0x41] attrArchive 0 0) ∧
          Slot.InUse (newEntry [0x41] attrArchive 0 0)) ∧
        (clusterSlots made.2 2)[1]? = some (newEntry [0x41] attrDirectory 3 0) ∧
        Slot.InUse (newEntry [0x41] attrDirectory 3 0)) = true := by decide +kernel
  obtain ⟨opened, opens, computed⟩ := (Option.any_eq_true _ _).mp computed
  obtain ⟨⟨ok, vol⟩, makes, computed⟩ := (Option.any_eq_true _ _).mp computed
  obtain ⟨rfl, root, ends, isCluster, archived, listed⟩ := of_decide_eq_true computed
  have run : Run DirectoryStep emptyVolume [.openFile [slash, 0x41] faCreate, .mkdir [slash, 0x41]] vol :=
    Run.snoc (Run.snoc .nil ⟨by decide, opened.1, opens⟩) ⟨by decide, true, makes⟩
  have chain : ClusterChain vol 2 [2] := by
    refine ⟨.last ends, fun cell member => ?_⟩
    rwa [List.mem_singleton.mp member]
  have inside : InDir vol 2 2 := ⟨[2], chain, List.mem_singleton.mpr rfl⟩
  have file : EntryAt vol 2 (2, 0) (newEntry [0x41] attrArchive 0 0) := ⟨inside, archived⟩
  have directory : EntryAt vol 2 (2, 1) (newEntry [0x41] attrDirectory 3 0) := ⟨inside, listed⟩
  refine ⟨emptyVolume_emptyRoot, vol, 2, run, by rw [← root]; exact .root, fun unique => ?_⟩
  have same := unique _ _ _ _ file directory (by rw [newEntry_name, newEntry_name])
  exact absurd same (by decide)

end KeblaOS.Fat32
