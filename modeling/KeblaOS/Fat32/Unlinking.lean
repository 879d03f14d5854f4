import KeblaOS.Fat32.SlotEffects

/-!
# Deleting a file

`f_unlink` marks the slot of the entry as deleted and leaves the long-name slots in front of it,
and `fat32_find_file` keeps a long name across deleted slots. So the long name of a deleted file
is given to the entry that comes next. In runs in which only entries without a long name are
deleted every directory stays tidy, and a lookup there is decided by the 8.3 names alone.
-/

namespace KeblaOS.Fat32

open KeblaOS.Buffer

/-! ## Tidy directories -/

/-- No part of a long name lies around, and every long name fits its entry. -/
structure Tidy (slots : List PlacedSlot) : Prop where
  settled : Settled slots
  fit : LongNamesFit slots

section Tidy

variable {slots front back before later run extra : List PlacedSlot} {name : List UInt8} {cell index : Nat}
  {entry slot : Slot} {place : Nat × Nat}

theorem collect_short (short : ∀ item ∈ slots, ¬ Slot.IsFree item.2 → Slot.attr item.2 ≠ attrLongName) :
    collect emptyLongName slots = some emptyLongName := by
  induction slots with
  | nil => rfl
  | cons item rest ih =>
      obtain ⟨place, slot⟩ := item
      have later := ih fun other member => short other (List.mem_cons_of_mem _ member)
      rw [collect]
      split_ifs with free long
      · exact later
      · exact absurd long (short _ List.mem_cons_self free)
      · exact later

/-- A directory without long names is tidy. -/
theorem tidy_of_short (short : ∀ item ∈ slots, ¬ Slot.IsFree item.2 → Slot.attr item.2 ≠ attrLongName) :
    Tidy slots := by
  have prefixes : ∀ front item back, slots = front ++ item :: back → collect emptyLongName front = some emptyLongName := by
    rintro front item back rfl
    exact collect_short fun other member => short other (List.mem_append_left _ member)
  refine ⟨⟨fun front item back split _ => prefixes front item back split, collect_short short⟩, ?_⟩
  intro front item back longName split _ collected nonempty
  rw [prefixes front item back split] at collected
  obtain rfl := Option.some.inj collected
  exact absurd (show cString emptyLongName = [] from by decide) nonempty

theorem LongNamesFit.extend (fit : LongNamesFit slots) (free : ∀ item ∈ extra, Slot.IsFree item.2) :
    LongNamesFit (slots ++ extra) := by
  intro front item back longName split inUse collected nonempty
  rcases split_cases split with ⟨rest, rfl, _⟩ | ⟨rest, _, rfl⟩
  · exact fit front item rest longName rfl inUse collected nonempty
  · exact absurd (free item (by simp)) inUse.not_isFree

/-- The slots written for a name fit the entry behind them. -/
theorem longNamesFit_entry (few : lfnCount name ≤ 19) (string : 0 ∉ name) (named : entry.name = fat32Format83Name name) :
    LongNamesFit (placed cell index (longSlots name ++ [entry])) := by
  intro front item back longName split inUse collected nonempty
  rw [placed_entry] at split
  rcases split_cases split with ⟨rest, long, _⟩ | ⟨rest, rfl, last⟩
  · -- long-name slots are not in use as entries
    have member : (item.1, item.2) ∈ placed cell index (longSlots name) := by
      rw [long]
      simp
    exact absurd (mem_longSlots few (List.mem_of_getElem? (mem_placed.mp member).2.2)).2.2.1 inUse.2.2
  · obtain ⟨rfl, rfl, rfl⟩ : rest = [] ∧ item = ((cell, index + lfnCount name), entry) ∧ back = [] := by
      cases rest with
      | nil =>
          obtain ⟨rfl, rfl⟩ := List.cons.inj last
          exact ⟨rfl, rfl, rfl⟩
      | cons head tail => simp at last
    rw [List.append_nil, collect_placed_longSlots few] at collected
    obtain rfl := Option.some.inj collected
    rw [cString_stored few string, collectedName] at nonempty ⊢
    split_ifs at nonempty ⊢
    · exact absurd rfl nonempty
    · exact named

/-- A new entry keeps its directory tidy. -/
theorem Tidy.replaced
    (replaced : SlotsReplaced before later (placed cell index (longSlots name ++ [entry])) front run back extra)
    (tidy : Tidy before) (few : lfnCount name ≤ 19) (string : 0 ∉ name) (inUse : entry.InUse)
    (named : entry.name = fat32Format83Name name) : Tidy later := by
  refine ⟨replaced.settled tidy.settled (entry_used few inUse) (collect_entry few inUse), ?_⟩
  have settled := tidy.settled.extend replaced.clear
  have fit := tidy.fit.extend replaced.clear
  rw [replaced.before] at settled fit
  rw [replaced.after]
  exact fit.exchange (settled.before_run replaced.free replaced.nonempty) (collect_free replaced.free)
    (collect_entry few inUse) (longNamesFit_entry few string named)

/-- The last of these slots, if there is one, is no part of a long name. -/
def NoLongNameAtEnd (front : List PlacedSlot) : Prop :=
  ∀ item ∈ front.getLast?, Slot.attr item.2 = attrLongName → Slot.IsFree item.2

theorem Settled.collected_before (settled : Settled (front ++ back)) (none : NoLongNameAtEnd front) :
    collect emptyLongName front = some emptyLongName := by
  rcases List.eq_nil_or_concat front with rfl | ⟨rest, ⟨place, slot⟩, rfl⟩
  · rfl
  · rw [List.concat_eq_append] at settled none ⊢
    rw [collect_append]
    by_cases free : Slot.IsFree slot
    · rw [settled.free rest (place, slot) back (by simp) free, Option.bind_some, collect, if_pos free, collect]
    · have short : slot.attr ≠ attrLongName := fun long => free (none (place, slot) (by simp) long)
      have passed := settled.ends
      rw [List.append_assoc, collect_append] at passed
      cases collected : collect emptyLongName rest with
      | none => simp [collected] at passed
      | some longName => rw [Option.bind_some, collect, if_neg free, if_neg short, collect]

/-- An entry without a long name may be deleted. -/
theorem Tidy.deleted (tidy : Tidy (front ++ (place, slot) :: back)) (inUse : slot.InUse) (none : NoLongNameAtEnd front) :
    Tidy (front ++ (place, overwrite slot 0 [deletedMark]) :: back) := by
  have before := tidy.settled.collected_before none
  have passed : collect emptyLongName [(place, slot)] = some emptyLongName := by
    rw [collect, if_neg inUse.not_isFree, if_neg inUse.2.2, collect]
  have free : Slot.IsFree (overwrite slot 0 [deletedMark]) := .inr (firstByte_deleted slot)
  have passed' : collect emptyLongName [(place, overwrite slot 0 [deletedMark])] = some emptyLongName :=
    collect_free fun item member => by
      rw [List.mem_singleton.mp member]
      exact free
  have alone : ∀ {item other : PlacedSlot} {front back}, [item] = front ++ other :: back → front = [] ∧ other = item := by
    intro item other front back split
    cases front with
    | nil => exact ⟨rfl, (List.cons.inj split).1.symm⟩
    | cons head tail => simp at split
  refine ⟨Settled.exchange before passed passed' tidy.settled fun front' item back' split _ => ?_,
    LongNamesFit.exchange before passed passed' tidy.fit fun front' item back' longName split inUse' _ _ => ?_⟩
  · rw [(alone split).1]
    rfl
  · rw [(alone split).2] at inUse'
    exact absurd free inUse'.not_isFree

end Tidy

/-! ## Lookups in tidy directories -/

section Lookups

variable {vol : Volume} {dirs : Set Nat} {dir : Nat} {name : List UInt8} {found : FoundEntry} {place : Nat × Nat}
  {slot : Slot}

/-- What is found has the 8.3 form of the name. -/
theorem findFile_tidy (directories : Directories vol dirs) (member : dir ∈ dirs) (tidy : SlotsHold Tidy vol dirs)
    (named : name ≠ []) (lookup : fat32FindFile vol dir name = some (some found)) :
    found.entry.name = fat32Format83Name name := by
  obtain ⟨cells, chain⟩ := directories.chain dir member
  obtain ⟨front, place, back, longName, split, collected, inUse, _, _, matched⟩ := fat32FindFile_named
    directories.geometry chain (fun cell inside => directories.zeros dir member cell ((inDir_iff chain).mpr inside)) lookup
  rcases matched with long | short
  · rw [← long]
    exact (tidy dir member cells chain).fit front _ back longName split inUse collected (by rwa [long])
  · exact short

/-- Every lookup in a tidy directory ends well. -/
theorem findFile_tidy_isSome (directories : Directories vol dirs) (member : dir ∈ dirs)
    (tidy : SlotsHold Tidy vol dirs) : ∃ answer, fat32FindFile vol dir name = some answer := by
  obtain ⟨cells, chain⟩ := directories.chain dir member
  rw [fat32FindFile_eq_lookup directories.geometry chain fun cell inside =>
    directories.zeros dir member cell ((inDir_iff chain).mpr inside)]
  rcases lookupSlots_cases (tidy dir member cells chain).settled.ends with passed | ⟨result, found⟩
  · exact ⟨none, by rw [passed]; rfl⟩
  · exact ⟨some result, by rw [found]; rfl⟩

/-- A name no entry has is not found. -/
theorem findFile_of_free (directories : Directories vol dirs) (member : dir ∈ dirs) (tidy : SlotsHold Tidy vol dirs)
    (named : name ≠ []) (free : ∀ place slot, EntryAt vol dir place slot → slot.name ≠ fat32Format83Name name) :
    fat32FindFile vol dir name = some none := by
  obtain ⟨answer, lookup⟩ := @findFile_tidy_isSome vol dirs dir name directories member tidy
  cases answer with
  | none => exact lookup
  | some found =>
      obtain ⟨place, _, _, entry⟩ := directories.findFile_found member lookup
      exact absurd (findFile_tidy directories member tidy named lookup) (free place found.entry entry)

/-- An entry whose name no other entry has is found under every name with this 8.3 form. -/
theorem findFile_of_entry (directories : Directories vol dirs) (member : dir ∈ dirs) (tidy : SlotsHold Tidy vol dirs)
    (unique : ShortNamesUnique vol dir) (named : name ≠ []) (entry : EntryAt vol dir place slot)
    (own : slot.name = fat32Format83Name name) :
    fat32FindFile vol dir name = some (some ⟨slot, place.1, 32 * place.2⟩) := by
  obtain ⟨answer, lookup⟩ := @findFile_tidy_isSome vol dirs dir name directories member tidy
  cases answer with
  | none => exact absurd own (directories.findFile_none member lookup entry)
  | some found =>
      obtain ⟨place', cluster, offset, entry'⟩ := directories.findFile_found member lookup
      have same := findFile_tidy directories member tidy named lookup
      obtain rfl := unique place' found.entry place slot entry' entry (same.trans own.symm)
      obtain ⟨other, _, _⟩ := found
      obtain rfl : other = slot := Option.some.inj (entry'.live.1.symm.trans entry.live.1)
      simp only at cluster offset
      rw [lookup, cluster, offset]

end Lookups

/-! ## Runs in which directories stay tidy -/

/-- A name that can be stored and found again. -/
structure StorableName (name : List UInt8) : Prop where
  named : name ≠ []
  notDeleted : NotDeletedName name
  few : lfnCount name ≤ 19

/-- The condition on a call: what it creates has a name that can be found again and that no entry
has, and the entry it deletes has no long-name slots. -/
def DirectoryCall.KeepsTidy (vol : Volume) : DirectoryCall → Prop
  | .openFile path mode => mode &&& (faCreate ||| faCreateAlways) ≠ 0 → ∀ parent,
      parentCluster vol path = some (some parent) → fat32FindFile vol parent (lastComponent path) = some none →
      StorableName (lastComponent path)
  | .mkdir path => ∀ parent, parentCluster vol path = some (some parent) →
      fat32DirExists vol parent (lastComponent path) = some false →
      fat32FindFile vol parent (lastComponent path) = some none ∧ StorableName (lastComponent path)
  | .rename _ _ => False
  | .unlink path => lastComponent path ≠ [] ∧ ∀ parent cells found front place back,
      parentCluster vol path = some (some parent) →
      fat32FindFile vol parent (lastComponent path) = some (some found) → ClusterChain vol parent cells →
      dirSlots vol cells = front ++ (place, found.entry) :: back →
      found.entryCluster = place.1 → found.entryOffset = 32 * place.2 → NoLongNameAtEnd front

/-- A step that meets the condition. -/
def TidyStep (vol : Volume) (call : DirectoryCall) (after : Volume) : Prop :=
  call.KeepsTidy vol ∧ DirectoryStep vol call after

/-- The invariant of such runs. -/
structure TidyVolume (vol : Volume) (dirs : Set Nat) : Prop extends Consistent vol dirs where
  unique : ∀ dir ∈ dirs, ShortNamesUnique vol dir
  tidy : SlotsHold Tidy vol dirs

section Steps

variable {vol after : Volume} {dirs : Set Nat} {path : List UInt8}

theorem TidyVolume.openFile {mode : Nat} {file : Option Fat32File} (tidy : TidyVolume vol dirs) (string : 0 ∉ path)
    (keeps : (DirectoryCall.openFile path mode).KeepsTidy vol) (returned : fOpen vol path mode = some (file, after)) :
    TidyVolume after dirs := by
  rcases tidy.toListed.fOpen_slots returned with rfl | ⟨parent, cells, cells', cell, index, creation⟩
  · exact tidy
  · have storable := keeps creation.requested parent creation.resolved creation.missing
    have plainString := lastComponent_string string
    obtain ⟨⟨place, created⟩, slots⟩ := creation.effect tidy.toConsistent string
      (Nat.lt_of_le_of_lt storable.few (by decide)) tidy.tidy fun front run back extra replaced before =>
        Tidy.replaced replaced before storable.few plainString
          (newEntry_inUse plainString storable.notDeleted (by decide)) newEntry_name
    exact ⟨created.consistent tidy.toConsistent, created.shortNamesUnique tidy.toDirectories tidy.unique, slots⟩

/-- The first slots of a new directory are short. -/
theorem SetUp.short {new parent : Nat} (setUp : SetUp vol after new parent) :
    ∀ item ∈ dirSlots after [new], ¬ Slot.IsFree item.2 → Slot.attr item.2 ≠ attrLongName := by
  rintro ⟨place, slot⟩ inside used
  obtain ⟨here, there⟩ := mem_dirSlots.mp inside
  rw [List.mem_singleton.mp here, setUp.slots] at there
  have dots : ∀ count cluster, count ≤ 11 → (dotSlot count cluster).attr ≠ attrLongName := by
    intro count cluster few
    rw [dotSlot_attr few]
    decide
  rcases List.mem_cons.mp (List.mem_of_getElem? there) with rfl | later
  · exact dots 1 new (by decide)
  · rcases List.mem_cons.mp later with rfl | zeros
    · exact dots 2 parent (by decide)
    · rw [List.eq_of_mem_replicate zeros] at used
      exact absurd (.inl (show Slot.firstByte (List.replicate 32 0) = 0 from by decide)) used

theorem TidyVolume.mkdir {ok : Bool} (tidy : TidyVolume vol dirs) (string : 0 ∉ path)
    (keeps : (DirectoryCall.mkdir path).KeepsTidy vol) (returned : fMkdir vol path = some (ok, after)) :
    ∃ more, TidyVolume after more := by
  rcases tidy.toListed.fMkdir_slots returned with rfl | ⟨parent, new, middle, creation⟩
  · exact ⟨dirs, tidy⟩
  · obtain ⟨missing, storable⟩ := keeps parent creation.resolved creation.missing
    have member := tidy.toListed.parentCluster_mem creation.resolved
    have plainString := lastComponent_string string
    rcases creation.effect tidy.toConsistent string (Nat.lt_of_le_of_lt storable.few (by decide)) tidy.tidy
        (tidy_of_short creation.setUp.short) fun cells cells' cell index front run back extra replaced before =>
          Tidy.replaced replaced before storable.few plainString
            (newEntry_inUse plainString storable.notDeleted (by decide)) newEntry_name with
      ⟨consistent, same, slots⟩ | ⟨⟨place, made⟩, slots⟩
    · refine ⟨dirs, consistent, fun dir inside other slot other' slot' entry entry' => ?_, slots⟩
      exact tidy.unique dir inside other slot other' slot' ((same dir inside other slot).mp entry)
        ((same dir inside other' slot').mp entry')
    · refine ⟨insert new dirs, made.consistent tidy.toConsistent, made.shortNamesUnique tidy.unique ?_, slots⟩
      exact fun other slot entry => tidy.toDirectories.findFile_none member missing entry

/-- No dot entry has the 8.3 form of a name. -/
theorem TidyVolume.avoidsDots (tidy : TidyVolume vol dirs) (named : lastComponent path ≠ []) : AvoidsDots vol path := by
  intro parent found resolved lookup directory
  refine ⟨directory, fun dots => ?_⟩
  rw [Slot.firstByte_eq_name, findFile_tidy tidy.toDirectories (tidy.toListed.parentCluster_mem resolved) tidy.tidy named
    lookup] at dots
  exact fat32Format83Name_ne_dot _ dots

/-- What an `f_unlink` that meets the condition does. -/
theorem TidyVolume.unlink {ok : Bool} (tidy : TidyVolume vol dirs) (keeps : (DirectoryCall.unlink path).KeepsTidy vol)
    (returned : fUnlink vol path = some (ok, after)) :
    (ok = false ∧ after = vol) ∨ ok = true ∧ ∃ parent found place middle,
      EntryDeletion vol middle after path parent found place ∧ ∃ fewer ⊆ dirs, TidyVolume after fewer ∧
        (∀ dir ∈ fewer, ∀ other slot, EntryAt after dir other slot ↔ EntryAt vol dir other slot ∧ other ≠ place) ∧
        (¬ found.entry.IsDirectory → fewer = dirs ∧ middle = vol) := by
  rcases tidy.toConsistent.fUnlink_slots (tidy.avoidsDots keeps.1) returned with
    unchanged | ⟨succeeded, parent, found, place, middle, deletion⟩
  · exact .inl unchanged
  · obtain ⟨fewer, subset, consistent, hold, entries, file⟩ := deletion.effect tidy.toConsistent tidy.tidy
      fun cells front back chain split before => by
        rw [split] at before
        exact before.deleted deletion.entry.live.2 (keeps.2 parent cells found front place back deletion.resolved
          deletion.lookup chain split deletion.cluster deletion.offset)
    refine .inr ⟨succeeded, parent, found, place, middle, deletion, fewer, subset, ⟨consistent, ?_, hold⟩, entries, file⟩
    intro dir member other slot other' slot' entry entry' same
    exact tidy.unique dir (subset member) other slot other' slot' ((entries dir member other slot).mp entry).1
      ((entries dir member other' slot').mp entry').1 same

theorem TidyVolume.step {call : DirectoryCall} (tidy : ∃ dirs, TidyVolume vol dirs) (taken : TidyStep vol call after) :
    ∃ dirs, TidyVolume after dirs := by
  obtain ⟨dirs, tidy⟩ := tidy
  obtain ⟨keeps, step⟩ := taken
  cases call with
  | openFile path mode =>
      obtain ⟨string, file, returned⟩ := step
      exact ⟨dirs, tidy.openFile string keeps returned⟩
  | mkdir path =>
      obtain ⟨string, ok, returned⟩ := step
      exact tidy.mkdir string keeps returned
  | rename oldpath newpath => exact keeps.elim
  | unlink path =>
      obtain ⟨_, ok, returned⟩ := step
      rcases tidy.unlink keeps returned with ⟨_, rfl⟩ | ⟨_, _, _, _, _, _, fewer, _, after, _⟩
      · exact ⟨dirs, tidy⟩
      · exact ⟨fewer, after⟩

end Steps

/-! ## Paths after a deletion -/

section Paths

variable {vol : Volume} {dirs : Set Nat} {parent : Nat} {found : FoundEntry} {place : Nat × Nat}

theorem Consistent.navigable (consistent : Consistent vol dirs) : Navigable vol dirs where
  toChained := consistent.toChained
  cwd := by
    rw [consistent.cwd]
    exact consistent.root
  zeros := consistent.zeros
  target dir member place slot entry lists := (consistent.target dir member place slot entry lists).1

theorem attr_deleted {slot : Slot} (whole : slot.length = 32) :
    Slot.attr (overwrite slot 0 [deletedMark]) = slot.attr := by
  rw [Slot.attr, Slot.attr, List.getD_eq_getElem?_getD, List.getD_eq_getElem?_getD,
    getElem?_overwrite (by rw [List.length_singleton]; omega), if_neg (by simp)]

/-- The slot of a deleted file can stand for what it was. -/
theorem screens_markDeleted (geometry : Geometry vol.bpb) (cluster : found.entryCluster = place.1)
    (offset : found.entryOffset = 32 * place.2) (inRange : IsCluster vol.bpb place.1)
    (live : LiveAt vol place.1 place.2 found.entry) (file : ¬ found.entry.IsDirectory) {other : Nat}
    (otherInRange : IsCluster vol.bpb other) :
    List.Forall₂ Slot.Screens (clusterSlots vol other) (clusterSlots (markDeleted vol found) other) := by
  by_cases here : other = place.1
  · subst here
    have inside := (List.getElem?_eq_some_iff.mp live.1).1
    rw [clusterSlots_markDeleted geometry inRange cluster offset live.1]
    refine forall₂_overwrite (fun _ => .inl rfl) inside fun i before now lower there written => ?_
    have upper := (List.getElem?_eq_some_iff.mp written).1
    rw [List.length_singleton] at upper
    obtain rfl : i = place.2 := by omega
    rw [Nat.sub_self, List.getElem?_cons_zero] at written
    obtain rfl := Option.some.inj written
    obtain rfl := Option.some.inj (live.1.symm.trans there)
    refine .inr ⟨.inr file, ?_, ?_⟩
    · rw [firstByte_deleted]
      decide
    · rw [Slot.IsDirectory, attr_deleted (length_of_clusterSlots there)]
      exact file
  · rw [clusterSlots_congr (sameExcept_markDeleted geometry inRange cluster) otherInRange here]
    exact List.forall₂_same.mpr fun _ _ => .inl rfl

/-- Paths lead where they led before the deletion. -/
theorem Consistent.keepsFinds_markDeleted (consistent : Consistent vol dirs) (cluster : found.entryCluster = place.1)
    (offset : found.entryOffset = 32 * place.2) (entry : EntryAt vol parent place found.entry)
    (file : ¬ found.entry.IsDirectory) : KeepsFinds vol (markDeleted vol found) dirs := by
  have inRange := entry.inside.isCluster
  have same := sameExcept_markDeleted consistent.geometry inRange cluster
  intro dir member token result lookup
  obtain ⟨cells, chain⟩ := consistent.chain dir member
  have screens := fun other (inside : other ∈ cells) => screens_markDeleted consistent.geometry cluster offset inRange
    entry.live file (chain.isCluster other inside)
  unfold fat32FindDir at lookup ⊢
  rw [same.bpb]
  split_ifs at lookup ⊢
  · exact lookup
  · rw [scanChain_eq () consistent.geometry chain] at lookup
    rw [scanChain_eq () (by rw [same.bpb]; exact consistent.geometry) (chain.congr same fun _ _ => Set.notMem_empty _),
      ← List.append_nil cells]
    exact scanCells_found_of_visits [] (fun state other inside => (findDirVisit_screened (screens other inside)).1)
      (fun state other inside => (findDirVisit_screened (screens other inside)).2) lookup

end Paths

/-! ## Deletion in a run -/

/-- An empty root directory in which no long-name slots lie around. -/
structure CleanRoot (vol : Volume) : Prop extends EmptyRoot vol where
  short : ∀ cells, ClusterChain vol (getRootDirCluster vol.bpb) cells → ∀ item ∈ dirSlots vol cells,
    ¬ Slot.IsFree item.2 → Slot.attr item.2 ≠ attrLongName

theorem CleanRoot.tidyVolume {vol : Volume} (clean : CleanRoot vol) : TidyVolume vol {getRootDirCluster vol.bpb} where
  toConsistent := clean.toEmptyRoot.consistent
  unique := by
    rintro dir rfl place slot place' slot' entry entry' _
    exact clean.single place slot place' slot' entry entry'
  tidy := by
    rintro dir rfl cells chain
    exact tidy_of_short (clean.short cells chain)

/-- The file of the path is gone, and every other entry of its directory is found under its own
name as it was. -/
structure UnlinksOnly (vol after : Volume) (path : List UInt8) : Prop where
  gone : fStat after path = some none
  others : ∀ parent found place slot other, parentCluster vol path = some (some parent) →
    fat32FindFile vol parent (lastComponent path) = some (some found) → EntryAt vol parent place slot →
    (found.entryCluster, found.entryOffset) ≠ (place.1, 32 * place.2) → parentCluster vol other = some (some parent) →
    other.length < pathBufferSize → lastComponent other ≠ [] → slot.name = fat32Format83Name (lastComponent other) →
    fStat after other = some (some ⟨lastComponent other, slot.attr, slot.fileSize, slot.firstCluster⟩)

theorem fStat_eq {vol : Volume} {path : List UInt8} {parent : Nat} {answer : Option FoundEntry}
    (short : path.length < pathBufferSize) (resolved : parentCluster vol path = some (some parent))
    (lookup : fat32FindFile vol parent (lastComponent path) = some answer) :
    fStat vol path = some (answer.map fun found =>
      ⟨lastComponent path, found.entry.attr, found.entry.fileSize, found.entry.firstCluster⟩) := by
  rw [fStat, if_neg (Nat.not_le.mpr short), resolved]
  dsimp only
  rw [lookup, Option.map_some]

theorem fUnlink_short {vol : Volume} {path : List UInt8} {outcome : Bool × Volume}
    (returned : fUnlink vol path = some outcome) : path.length < pathBufferSize := by
  by_contra long
  rw [fUnlink, if_pos (Nat.not_lt.mp long)] at returned
  simp at returned

/-- Where directories are tidy, a deletion of a file takes away nothing else. -/
theorem TidyVolume.unlinksOnly {vol after : Volume} {dirs : Set Nat} {path : List UInt8} {parent : Nat}
    {found : FoundEntry} (tidy : TidyVolume vol dirs) (resolved : parentCluster vol path = some (some parent))
    (lookup : fat32FindFile vol parent (lastComponent path) = some (some found)) (file : ¬ found.entry.IsDirectory)
    (keeps : (DirectoryCall.unlink path).KeepsTidy vol) (returned : fUnlink vol path = some (true, after)) :
    UnlinksOnly vol after path := by
  rcases tidy.unlink keeps returned with
    ⟨failed, _⟩ | ⟨_, parent', found', place, middle, deletion, fewer, _, tidy', entries, unchanged⟩
  · simp at failed
  obtain rfl : parent = parent' := by simpa using resolved.symm.trans deletion.resolved
  obtain rfl : found = found' := by simpa using lookup.symm.trans deletion.lookup
  obtain ⟨rfl, rfl⟩ := unchanged file
  have member := tidy.toListed.parentCluster_mem resolved
  have name := findFile_tidy tidy.toDirectories member tidy.tidy keeps.1 lookup
  have reaches : ∀ {other}, parentCluster middle other = some (some parent) →
      parentCluster after other = some (some parent) := by
    intro other resolved'
    have same := sameExcept_markDeleted tidy.geometry deletion.entry.inside.isCluster deletion.cluster
    rw [deletion.deleted]
    exact (tidy.toConsistent.navigable.parentCluster_kept (tidy.toConsistent.keepsFinds_markDeleted deletion.cluster
      deletion.offset deletion.entry file) same.bpb same.cwdCluster resolved').2
  constructor
  · have missing := findFile_of_free tidy'.toDirectories member tidy'.tidy keeps.1 fun other slot entry same => by
      obtain ⟨before, different⟩ := (entries parent member other slot).mp entry
      exact different (tidy.unique parent member other slot place found.entry before deletion.entry (same.trans name.symm))
    exact fStat_eq (fUnlink_short returned) (reaches resolved) missing
  · intro parent' found' other slot otherPath resolved' lookup' entry different otherResolved short named own
    obtain rfl : parent = parent' := by simpa using resolved.symm.trans resolved'
    obtain rfl : found = found' := by simpa using lookup.symm.trans lookup'
    have kept : EntryAt after parent other slot := by
      refine (entries parent member other slot).mpr ⟨entry, ?_⟩
      rintro rfl
      exact different (Prod.ext deletion.cluster deletion.offset)
    exact fStat_eq short (reaches otherResolved) (findFile_of_entry tidy'.toDirectories member tidy'.tidy
      (tidy'.unique parent member) named kept own)

/-- In every run from a clean root whose steps meet the condition, a deletion of a file that meets
it as well takes this file away and no other one. -/
theorem tidy_run_unlinksOnly {start vol after : Volume} {trace : List DirectoryCall} {path : List UInt8} {parent : Nat}
    {found : FoundEntry} (clean : CleanRoot start) (run : Run TidyStep start trace vol)
    (resolved : parentCluster vol path = some (some parent))
    (lookup : fat32FindFile vol parent (lastComponent path) = some (some found)) (file : ¬ found.entry.IsDirectory)
    (keeps : (DirectoryCall.unlink path).KeepsTidy vol) (returned : fUnlink vol path = some (true, after)) :
    UnlinksOnly vol after path := by
  obtain ⟨dirs, tidy⟩ := run.invariant (fun vol => ∃ dirs, TidyVolume vol dirs) ⟨_, clean.tidyVolume⟩
    fun tidy taken => TidyVolume.step tidy taken
  exact tidy.unlinksOnly resolved lookup file keeps returned

theorem emptyVolume_cleanRoot : CleanRoot emptyVolume := by
  refine ⟨emptyVolume_emptyRoot, ?_⟩
  rw [emptyVolume_root]
  rintro cells chain ⟨place, slot⟩ inside used
  obtain rfl := chain.unique emptyVolume_chain
  obtain ⟨here, there⟩ := mem_dirSlots.mp inside
  rw [List.mem_singleton.mp here, emptyVolume_slots] at there
  obtain rfl := List.eq_of_mem_replicate (List.mem_of_getElem? there)
  exact absurd (.inl (show Slot.firstByte (List.replicate 32 0) = 0 from by decide)) used

/-- Files `A` and `B` are created on an empty volume and `A` is deleted. -/
theorem tidy_run_unlinksOnly_a_b :
    ∃ vol after, Run TidyStep emptyVolume [.openFile [slash, 0x41] faCreate, .openFile [slash, 0x42] faCreate] vol ∧
      fUnlink vol [slash, 0x41] = some (true, after) ∧ UnlinksOnly vol after [slash, 0x41] := by
  have computed : (fOpen emptyVolume [slash, 0x41] faCreate).any (fun first =>
      (fOpen first.2 [slash, 0x42] faCreate).any fun (second : _ × Volume) =>
        (fUnlink second.2 [slash, 0x41]).any fun last =>
          last.1 = true ∧ isEndOfClusterChain (fat32GetNextCluster second.2 2) = true ∧ IsCluster second.2.bpb 2 ∧
          parentCluster second.2 [slash, 0x41] = some (some 2) ∧
          fat32FindFile second.2 2 [0x41] = some (some ⟨newEntry [0x41] attrArchive 0 0, 2, 0⟩) ∧
          ∀ item ∈ dirSlots second.2 [2], Slot.attr item.2 = attrLongName → Slot.IsFree item.2) = true := by decide +kernel
  obtain ⟨first, opened, computed⟩ := (Option.any_eq_true _ _).mp computed
  obtain ⟨second, opened', computed⟩ := (Option.any_eq_true _ _).mp computed
  obtain ⟨⟨ok, after⟩, returned, computed⟩ := (Option.any_eq_true _ _).mp computed
  obtain ⟨rfl, ends, isCluster, resolved, lookup, short⟩ := of_decide_eq_true computed
  have storable : StorableName [0x41] ∧ StorableName [0x42] :=
    ⟨⟨by decide, by decide, by decide⟩, ⟨by decide, by decide, by decide⟩⟩
  have run := Run.snoc (Run.snoc .nil (show TidyStep emptyVolume (.openFile [slash, 0x41] faCreate) first.2 from
    ⟨fun _ _ _ _ => storable.1, by decide, _, opened⟩)) (show TidyStep first.2 (.openFile [slash, 0x42] faCreate) second.2 from
    ⟨fun _ _ _ _ => storable.2, by decide, _, opened'⟩)
  have chain : ClusterChain second.2 2 [2] := by
    refine ⟨.last ends, fun cell member => ?_⟩
    rwa [List.mem_singleton.mp member]
  refine ⟨second.2, after, run, returned, tidy_run_unlinksOnly emptyVolume_cleanRoot run resolved lookup (by decide +kernel)
    ⟨by decide, ?_⟩ returned⟩
  intro parent cells found front place back resolved' _ chain' split _ _ item last
  obtain rfl : 2 = parent := by simpa using resolved.symm.trans resolved'
  obtain rfl := chain'.unique chain
  refine short item ?_
  rw [split]
  exact List.mem_append_left _ (List.mem_of_getLast? last)

/-- The file `abc` is deleted and its long-name slot stays: `f_stat` finds `X` under this name. -/
theorem unlink_gives_longname_away :
    CleanRoot emptyVolume ∧ ∃ vol after found, Run DirectoryStep emptyVolume
      [.openFile [slash, 0x61, 0x62, 0x63] faCreate, .openFile [slash, 0x58] faCreate] vol ∧
      fat32FindFile vol 2 [0x61, 0x62, 0x63] = some (some found) ∧ ¬ found.entry.IsDirectory ∧
      fUnlink vol [slash, 0x61, 0x62, 0x63] = some (true, after) ∧ ¬ UnlinksOnly vol after [slash, 0x61, 0x62, 0x63] := by
  have computed : (fOpen emptyVolume [slash, 0x61, 0x62, 0x63] faCreate).any (fun first =>
      (fOpen first.2 [slash, 0x58] faCreate).any fun second =>
        (fat32FindFile second.2 2 [0x61, 0x62, 0x63]).any (fun answer => answer.any fun found => ¬ found.entry.IsDirectory) ∧
        (fUnlink second.2 [slash, 0x61, 0x62, 0x63]).any fun last => last.1 = true ∧
          fStat last.2 [slash, 0x61, 0x62, 0x63] ≠ some none) = true := by decide +kernel
  obtain ⟨first, opened, computed⟩ := (Option.any_eq_true _ _).mp computed
  obtain ⟨second, opened', computed⟩ := (Option.any_eq_true _ _).mp computed
  obtain ⟨finds, unlinks⟩ := of_decide_eq_true computed
  obtain ⟨answer, lookup, finds⟩ := (Option.any_eq_true _ _).mp finds
  obtain ⟨found, rfl, file⟩ := (Option.any_eq_true _ _).mp finds
  obtain ⟨⟨ok, after⟩, returned, computed⟩ := (Option.any_eq_true _ _).mp unlinks
  obtain ⟨rfl, still⟩ := of_decide_eq_true computed
  have run : Run DirectoryStep emptyVolume _ second.2 :=
    Run.snoc (Run.snoc .nil (show DirectoryStep emptyVolume (.openFile [slash, 0x61, 0x62, 0x63] faCreate) first.2 from
      ⟨by decide, _, opened⟩)) (show DirectoryStep first.2 (.openFile [slash, 0x58] faCreate) second.2 from
      ⟨by decide, _, opened'⟩)
  exact ⟨emptyVolume_cleanRoot, second.2, after, found, run, lookup, of_decide_eq_true file, returned,
    fun unlinks => still unlinks.gone⟩

end KeblaOS.Fat32
