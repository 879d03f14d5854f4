import KeblaOS.Fat32.NameScan
import KeblaOS.Fat32.RoundTrip

/-!
# Two names in one directory

The long-name slots of a name leave exactly the name in the buffer of `fat32_find_file`, so an
entry is found by its long name and by its 8.3 form, and by nothing else. `f_open` makes no two
8.3 forms different, so two names with one 8.3 form share an entry; names with different forms
get entries of their own, in a directory that has no parts of other long names lying around.
-/

namespace KeblaOS.Fat32

open KeblaOS.Buffer

/-! ## The long name in the buffer -/

section LongName

variable {name : List UInt8}

/-- The character that is stored for a position of a long name. -/
def lfnChar (name : List UInt8) (idx : Nat) : UInt8 := UInt8.ofNat (lfnUnit name idx)

theorem lfnChar_of_getElem? {idx : Nat} {c : UInt8} (there : name[idx]? = some c) : lfnChar name idx = c := by
  rw [lfnChar, lfnUnit, there]
  dsimp only
  split_ifs
  · exact UInt8.ofNat_toNat
  · rw [← UInt8.toNat_inj, UInt8.toNat_ofNat']
    have small := c.toNat_lt
    omega

theorem lfnChar_length (name : List UInt8) : lfnChar name name.length = 0 := by
  rw [lfnChar, lfnUnit, List.getElem?_eq_none (Nat.le_refl _)]
  simp

/-- The buffer when the slots with numbers above `order` are stored. -/
def storedFrom (name : List UInt8) (order : Nat) : List UInt8 :=
  List.replicate (13 * order) 0 ++ ((List.range' (13 * order) (13 * (lfnCount name - order))).map (lfnChar name) ++
    List.replicate (longFilenameSize - 13 * lfnCount name) 0)

theorem storedFrom_lfnCount (few : lfnCount name ≤ 19) : storedFrom name (lfnCount name) = emptyLongName := by
  rw [storedFrom, Nat.sub_self, Nat.mul_zero, List.range'_zero, List.map_nil, List.nil_append, List.replicate_append_replicate,
    emptyLongName]
  congr 1
  rw [longFilenameSize]
  omega

theorem storedFrom_step {order : Nat} (inside : order + 1 ≤ lfnCount name) :
    overwrite (storedFrom name (order + 1)) (13 * order) ((List.range 13).map fun j => lfnChar name (13 * order + j)) =
      storedFrom name order := by
  have zeros : List.replicate (13 * (order + 1)) (0 : UInt8) = List.replicate (13 * order) 0 ++ List.replicate 13 0 := by
    rw [List.replicate_append_replicate]
    rfl
  have chars : (List.range' (13 * order) (13 * (lfnCount name - order))).map (lfnChar name) =
      ((List.range 13).map fun j => lfnChar name (13 * order + j)) ++
        (List.range' (13 * (order + 1)) (13 * (lfnCount name - (order + 1)))).map (lfnChar name) := by
    have split : 13 * (lfnCount name - order) = 13 + 13 * (lfnCount name - (order + 1)) := by omega
    rw [split, ← List.range'_append_1, List.map_append, List.range'_eq_map_range, List.map_map]
    rfl
  have step := @overwrite_middle UInt8 (List.replicate (13 * order) 0) (List.replicate 13 0)
    ((List.range 13).map fun j => lfnChar name (13 * order + j))
    ((List.range' (13 * (order + 1)) (13 * (lfnCount name - (order + 1)))).map (lfnChar name) ++
      List.replicate (longFilenameSize - 13 * lfnCount name) 0) (by simp)
  rw [List.length_replicate] at step
  rw [storedFrom, zeros, List.append_assoc, step, storedFrom, chars, List.append_assoc]

/-- The long-name slots of a name leave its characters in the buffer. -/
theorem collect_longSlots {checksum : UInt8} {cell index order : Nat} (few : lfnCount name ≤ 19)
    (inside : order ≤ lfnCount name) :
    collect (storedFrom name order) (placed cell index
      ((List.range order).map fun i => lfnSlot name checksum (lfnCount name) (order - i))) =
      some (storedFrom name 0) := by
  induction order generalizing index with
  | zero => rfl
  | succ order ih =>
      rw [List.range_succ_eq_map, List.map_cons, List.map_map, placed, collect]
      obtain ⟨number, notDeleted⟩ := @lfnOrd_toNat (lfnCount name) (order + 1) (by omega)
      have used : ¬ Slot.IsFree (lfnSlot name checksum (lfnCount name) (order + 1 - 0)) := by
        rw [Slot.IsFree, lfnSlot_firstByte]
        rintro (zero | deleted)
        · exact lfnOrd_ne_zero (by omega) (by omega) zero
        · exact notDeleted deleted
      have stored : storeChars (storedFrom name (order + 1))
          (Slot.order (lfnSlot name checksum (lfnCount name) (order + 1 - 0)))
          ((Slot.units (lfnSlot name checksum (lfnCount name) (order + 1 - 0))).map UInt8.ofNat) =
            some (storedFrom name order) := by
        rw [Slot.order, lfnSlot_firstByte, Nat.sub_zero, number, lfnSlot_units, List.map_map, storeChars,
          if_neg (by simp), if_pos, ← storedFrom_step inside, Nat.add_sub_cancel, Nat.mul_comm 13 order]
        · rfl
        · rw [List.length_map, List.length_range, longFilenameSize]
          omega
      rw [if_neg used, if_pos lfnSlot_attr, stored, Option.bind_some]
      have rest : (fun i => lfnSlot name checksum (lfnCount name) (order + 1 - i)) ∘ Nat.succ =
          fun i => lfnSlot name checksum (lfnCount name) (order - i) := by
        funext i
        simp
      rw [rest]
      exact ih (by omega)

/-- The C string in the buffer is the name. -/
theorem cString_storedFrom (few : lfnCount name ≤ 19) (string : 0 ∉ name) (needed : name.length ≤ 13 * lfnCount name) :
    cString (storedFrom name 0) = name := by
  have own : (List.range' 0 name.length).map (lfnChar name) = name := by
    refine List.ext_getElem? fun i => ?_
    rw [List.getElem?_map]
    rcases Nat.lt_or_ge i name.length with inside | outside
    · rw [List.getElem?_range' inside, Option.map_some, Nat.zero_add, Nat.one_mul, List.getElem?_eq_getElem inside,
        lfnChar_of_getElem? (List.getElem?_eq_getElem inside)]
    · rw [List.getElem?_eq_none (by simpa using outside), List.getElem?_eq_none outside, Option.map_none]
  have shape : ∃ rest, storedFrom name 0 = name ++ 0 :: rest := by
    rw [storedFrom, Nat.mul_zero, List.replicate_zero, List.nil_append, Nat.sub_zero]
    rcases Nat.lt_or_ge name.length (13 * lfnCount name) with shorter | exact
    · have split : 13 * lfnCount name = name.length + (13 * lfnCount name - name.length - 1 + 1) := by omega
      rw [split, ← List.range'_append_1, List.map_append, own, List.range'_succ, List.map_cons, Nat.zero_add,
        lfnChar_length, List.append_assoc, List.cons_append]
      exact ⟨_, rfl⟩
    · have full : 13 * lfnCount name = name.length := by omega
      have room : longFilenameSize - name.length = longFilenameSize - name.length - 1 + 1 := by
        rw [longFilenameSize]
        omega
      rw [full, own, room, List.replicate_succ]
      exact ⟨_, rfl⟩
  obtain ⟨rest, shape⟩ := shape
  rw [shape, cString_append_zero string]

end LongName

/-! ## The slots of a new entry -/

section NewSlots

variable {name looked : List UInt8} {cell index : Nat} {entry : Slot}

/-- What the lookup has collected in front of an entry with this name. -/
def collectedName (name : List UInt8) : List UInt8 := if lfnCount name = 0 then [] else name

theorem cString_stored (few : lfnCount name ≤ 19) (string : 0 ∉ name) :
    cString (storedFrom name 0) = collectedName name := by
  unfold collectedName
  split_ifs with plain
  · rw [storedFrom, plain, Nat.mul_zero, Nat.sub_zero, List.range'_zero, List.map_nil]
    decide
  · refine cString_storedFrom few string ?_
    unfold lfnCount at plain ⊢
    split_ifs at plain ⊢
    · omega
    · exact absurd rfl plain

theorem collect_placed_longSlots (few : lfnCount name ≤ 19) :
    collect emptyLongName (placed cell index (longSlots name)) = some (storedFrom name 0) := by
  rw [← storedFrom_lfnCount few]
  exact collect_longSlots few (Nat.le_refl _)

/-- A scan passes long-name slots. -/
theorem lookupSlots_longSlots {shortName : List UInt8} (few : lfnCount name ≤ 19) :
    lookupSlots looked shortName emptyLongName (placed cell index (longSlots name)) = .next (storedFrom name 0) := by
  rcases lookupSlots_cases (collect_placed_longSlots few) with passed | ⟨result, found⟩
  · exact passed
  · obtain ⟨front, place, back, _, split, _, inUse, _⟩ := lookupSlots_found found
    have member : (place, result.entry) ∈ placed cell index (longSlots name) := by
      rw [split]
      simp
    have long := mem_longSlots few (List.mem_of_getElem? (mem_placed.mp member).2.2)
    exact absurd long.2.2.1 inUse.2.2

theorem placed_entry (name : List UInt8) (entry : Slot) : placed cell index (longSlots name ++ [entry]) =
    placed cell index (longSlots name) ++ [((cell, index + lfnCount name), entry)] := by
  rw [placed_append, length_longSlots]
  rfl

/-- An entry is passed by a lookup for another name. -/
theorem lookupSlots_entry_passed (few : lfnCount name ≤ 19) (string : 0 ∉ name) (inUse : entry.InUse)
    (other : ¬ (collectedName name = looked ∨ entry.name = fat32Format83Name looked)) :
    lookupSlots looked (fat32Format83Name looked) emptyLongName (placed cell index (longSlots name ++ [entry])) =
      .next emptyLongName := by
  rw [placed_entry, lookupSlots_append (lookupSlots_longSlots few), lookupSlots, if_neg inUse.not_isFree,
    if_neg inUse.2.2, cString_stored few string, if_neg other, lookupSlots]

/-- Names with different 8.3 forms do not match each other's entries. -/
theorem not_matched (named : looked ≠ []) (short : entry.name = fat32Format83Name name)
    (different : fat32Format83Name name ≠ fat32Format83Name looked) :
    ¬ (collectedName name = looked ∨ entry.name = fat32Format83Name looked) := by
  rintro (same | same)
  · unfold collectedName at same
    split_ifs at same
    · exact named same.symm
    · exact different (congrArg fat32Format83Name same)
  · exact different (short.symm.trans same)

theorem collect_entry (few : lfnCount name ≤ 19) (inUse : entry.InUse) :
    collect emptyLongName (placed cell index (longSlots name ++ [entry])) = some emptyLongName := by
  rw [placed_entry, collect_append, collect_placed_longSlots few, Option.bind_some, collect, if_neg inUse.not_isFree,
    if_neg inUse.2.2, collect]

theorem entry_used (few : lfnCount name ≤ 19) (inUse : entry.InUse) :
    ∀ item ∈ placed cell index (longSlots name ++ [entry]), ¬ Slot.IsFree item.2 := by
  rintro ⟨place, slot⟩ member
  rcases List.mem_append.mp (List.mem_of_getElem? (mem_placed.mp member).2.2) with long | last
  · obtain ⟨nonzero, notDeleted, _⟩ := mem_longSlots few long
    rintro (zero | deleted)
    · exact nonzero zero
    · exact notDeleted deleted
  · rw [List.mem_singleton] at last
    subst last
    exact inUse.not_isFree

end NewSlots

/-! ## A directory with a new entry -/

/-- Free slots of a directory, or of a clear cluster behind it, are replaced by other slots. -/
structure SlotsReplaced (before after new front run back extra : List PlacedSlot) : Prop where
  before : before ++ extra = front ++ (run ++ back)
  after : after = front ++ (new ++ back)
  free : ∀ item ∈ run, Slot.IsFree item.2
  nonempty : run ≠ []
  clear : ∀ item ∈ extra, Slot.IsFree item.2

section Replaced

variable {vol after : Volume} {dir cell index : Nat} {cells cells' : List Nat} {name looked : List UInt8} {entry : Slot}
  {before later new front run back extra : List PlacedSlot}

theorem dirSlots_append (vol : Volume) (front back : List Nat) :
    dirSlots vol (front ++ back) = dirSlots vol front ++ dirSlots vol back := List.flatMap_append

theorem dirSlots_cons (vol : Volume) (cell : Nat) (rest : List Nat) :
    dirSlots vol (cell :: rest) = placed cell 0 (clusterSlots vol cell) ++ dirSlots vol rest := List.flatMap_cons

theorem dirSlots_congr {cells : List Nat} (same : ∀ cell ∈ cells, clusterSlots after cell = clusterSlots vol cell) :
    dirSlots after cells = dirSlots vol cells := by
  unfold dirSlots
  exact List.flatMap_congr fun cell member => by rw [same cell member]

/-- One cluster in which a run of free slots was written over. -/
theorem placed_overwrite {old new : List Slot} (run : FreeRun old index new.length) :
    ∃ free back, placed cell 0 old = placed cell 0 (old.take index) ++ (free ++ back) ∧
      placed cell 0 (overwrite old index new) = placed cell 0 (old.take index) ++ (placed cell index new ++ back) ∧
      (∀ item ∈ free, Slot.IsFree item.2) ∧ free.length = new.length := by
  have inside := run.inside
  have take : (old.take index).length = index := by
    rw [List.length_take]
    omega
  have middle : (slice old index new.length).length = new.length := length_slice_of_le inside
  refine ⟨placed cell index (slice old index new.length),
    placed cell (index + new.length) (old.drop (index + new.length)), ?_, ?_, ?_, ?_⟩
  · conv_lhs => rw [← List.take_append_drop index old, ← List.take_append_drop new.length (old.drop index)]
    rw [placed_append, placed_append, take, Nat.zero_add, ← slice, middle, List.drop_drop]
  · rw [overwrite, List.append_assoc, placed_append, placed_append, take, Nat.zero_add]
  · rintro ⟨place, slot⟩ member
    obtain ⟨_, lower, there⟩ := mem_placed.mp member
    have bound := (List.getElem?_eq_some_iff.mp there).1
    rw [middle] at bound
    rw [slice, List.getElem?_take_of_lt bound, List.getElem?_drop] at there
    exact run.free _ slot there (by omega) (by omega)
  · rw [length_placed, middle]

/-- The slots of a directory that got an entry in the cluster behind `earlier`. -/
theorem Inserted.slotsReplaced_behind {earlier later : List Nat}
    (inserted : Inserted vol after dir cells cells' cell index name entry) (chain : ClusterChain vol dir cells)
    (split : cells' = earlier ++ cell :: later) :
    ∃ old run back extra, FreeRun old index (lfnCount name + 1) ∧ (cell ∈ cells → old = clusterSlots vol cell) ∧
      (cell ∉ cells → ∀ slot ∈ old, Slot.firstByte slot = 0) ∧
      SlotsReplaced (dirSlots vol cells) (dirSlots after cells') (placed cell index (longSlots name ++ [entry]))
        (dirSlots vol earlier ++ placed cell 0 (old.take index)) run back extra := by
  obtain ⟨old, slots, freeRun, before, fresh⟩ := inserted.written
  have run := freeRun
  have length : (longSlots name ++ [entry]).length = lfnCount name + 1 := by simp
  rw [← length] at run
  obtain ⟨free, back, whole, written, isFree, count⟩ := @placed_overwrite cell index old _ run
  rw [← slots] at written
  have nonempty : free ≠ [] := by
    rw [← List.length_pos_iff, count, length]
    omega
  rcases inserted.shape with ⟨rfl, member⟩ | ⟨rfl, outside⟩
  · obtain rfl := before member
    have nodup := chain.nodup
    rw [split, List.nodup_append, List.nodup_cons] at nodup
    have same : ∀ part, (∀ other ∈ part, other ∈ cells' ∧ other ≠ cell) → dirSlots after part = dirSlots vol part :=
      fun part apart => dirSlots_congr fun other inside => inserted.others other (apart other inside).1 (apart other inside).2
    have sameEarlier := same earlier fun other inside =>
      ⟨by simp [split, inside], nodup.2.2 other inside cell List.mem_cons_self⟩
    have sameLater := same later fun other inside =>
      ⟨by simp [split, inside], fun equal => nodup.2.1.1 (equal ▸ inside)⟩
    refine ⟨_, free, back ++ dirSlots vol later, [], freeRun, before, fresh, ?_, ?_, isFree, nonempty, by simp⟩
    · rw [split, dirSlots_append, dirSlots_cons, whole]
      simp
    · rw [split, dirSlots_append, dirSlots_cons, written, sameEarlier, sameLater]
      simp
  · -- the cluster is the last one
    obtain ⟨rfl, rfl⟩ : earlier = cells ∧ later = [] := by
      rcases split_cases split with ⟨rest, shape, _⟩ | ⟨rest, shape, last⟩
      · exact absurd (by simp [shape]) outside
      · cases rest with
        | nil => exact ⟨by simpa using shape, (List.cons.inj last).2.symm⟩
        | cons head tail => simp at last
    have same : dirSlots after earlier = dirSlots vol earlier := dirSlots_congr fun other inside =>
      inserted.others other inside fun equal => outside (equal ▸ inside)
    refine ⟨old, free, back, placed cell 0 old, freeRun, before, fresh, ?_, ?_, isFree, nonempty, ?_⟩
    · rw [whole, List.append_assoc]
    · rw [dirSlots_append, dirSlots_cons, written, same]
      simp [dirSlots]
    · rintro ⟨place, slot⟩ inside
      exact .inl (fresh outside slot (List.mem_of_getElem? (mem_placed.mp inside).2.2))

theorem Inserted.slotsReplaced (inserted : Inserted vol after dir cells cells' cell index name entry)
    (chain : ClusterChain vol dir cells) :
    ∃ front run back extra, SlotsReplaced (dirSlots vol cells) (dirSlots after cells')
      (placed cell index (longSlots name ++ [entry])) front run back extra := by
  have member : cell ∈ cells' := by
    rcases inserted.shape with ⟨rfl, member⟩ | ⟨rfl, _⟩
    · exact member
    · simp
  obtain ⟨earlier, later, split⟩ := List.append_of_mem member
  obtain ⟨old, run, back, extra, _, _, _, replaced⟩ := inserted.slotsReplaced_behind chain split
  exact ⟨_, run, back, extra, replaced⟩

namespace SlotsReplaced

theorem settled (replaced : SlotsReplaced before later new front run back extra) (settled : Settled before)
    (used : ∀ item ∈ new, ¬ Slot.IsFree item.2) (passed : collect emptyLongName new = some emptyLongName) :
    Settled later := by
  have whole := settled.extend replaced.clear
  rw [replaced.before] at whole
  rw [replaced.after]
  exact whole.replace replaced.free replaced.nonempty used passed

theorem lookup_extra {shortName : List UInt8} (replaced : SlotsReplaced before later new front run back extra) :
    (lookupSlots looked shortName emptyLongName (front ++ (run ++ back))).answer =
      (lookupSlots looked shortName emptyLongName before).answer := by
  rw [← replaced.before]
  cases outcome : lookupSlots looked shortName emptyLongName before with
  | found result => rw [lookupSlots_append_found outcome]
  | stop => exact absurd outcome lookupSlots_ne_stop
  | fault => rw [lookupSlots_append_fault outcome]
  | next longName =>
      rw [lookupSlots_append outcome, lookupSlots_free replaced.clear]

/-- A lookup that does not find the new slots has the answer it had. -/
theorem lookup_other {shortName : List UInt8} (replaced : SlotsReplaced before later new front run back extra)
    (settled : Settled before) (missed : lookupSlots looked shortName emptyLongName new = .next emptyLongName) :
    (lookupSlots looked shortName emptyLongName later).answer =
      (lookupSlots looked shortName emptyLongName before).answer := by
  have whole := settled.extend replaced.clear
  rw [replaced.before] at whole
  rw [replaced.after, lookupSlots_exchange (whole.before_run replaced.free replaced.nonempty)
    (lookupSlots_free replaced.free) missed, replaced.lookup_extra]

end SlotsReplaced

/-- Names that do not match the new entry are found where they were found before. -/
theorem Inserted.findFile_other (inserted : Inserted vol after dir cells cells' cell index name entry)
    (geometry : Geometry vol.bpb) (geometry' : Geometry after.bpb) (chain : ClusterChain vol dir cells)
    (zeros : ∀ cell ∈ cells, ZerosLast vol cell) (zeros' : ∀ cell ∈ cells', ZerosLast after cell)
    (settled : Settled (dirSlots vol cells)) (few : lfnCount name ≤ 19) (string : 0 ∉ name) (inUse : entry.InUse)
    (other : ¬ (collectedName name = looked ∨ entry.name = fat32Format83Name looked)) :
    fat32FindFile after dir looked = fat32FindFile vol dir looked := by
  obtain ⟨front, run, back, extra, replaced⟩ := inserted.slotsReplaced chain
  rw [fat32FindFile_eq_lookup geometry chain zeros, fat32FindFile_eq_lookup geometry' inserted.chain zeros']
  exact replaced.lookup_other settled (lookupSlots_entry_passed few string inUse other)

theorem Inserted.settled (inserted : Inserted vol after dir cells cells' cell index name entry)
    (chain : ClusterChain vol dir cells) (settled : Settled (dirSlots vol cells)) (few : lfnCount name ≤ 19)
    (inUse : entry.InUse) : Settled (dirSlots after cells') := by
  obtain ⟨front, run, back, extra, replaced⟩ := inserted.slotsReplaced chain
  exact replaced.settled settled (entry_used few inUse) (collect_entry few inUse)

end Replaced

/-! ## Creating two files -/

section TwoFiles

variable {vol after : Volume} {dirs : Set Nat} {dir cell index : Nat} {cells cells' : List Nat}
  {path name : List UInt8} {fp : Fat32File}

/-- An `f_open` that created its file opens the new entry. -/
theorem Navigable.fOpen_created (navigable : Navigable vol dirs) (findable : FindableName (lastComponent path))
    (resolved : parentCluster vol path = some (some dir)) (chain : ClusterChain vol dir cells)
    (missing : fat32FindFile vol dir (lastComponent path) = some none)
    (opened : fOpen vol path faCreate = some (some fp, after)) :
    ∃ cells' cell index, Created vol after dir cells cells' cell index (entrySlots (lastComponent path) attrArchive 0 0) ∧
      fp.At (cell, index + lfnCount (lastComponent path)) := by
  have member := navigable.parentCluster_mem resolved
  unfold fOpen at opened
  rw [resolved] at opened
  dsimp only at opened
  rw [missing] at opened
  dsimp only at opened
  rw [if_neg (by decide)] at opened
  cases creation : fat32CreateDirEntry vol dir (lastComponent path) attrArchive 0 0 with
  | none => simp [creation] at opened
  | some outcome =>
      obtain ⟨ok, middle⟩ := outcome
      rw [creation] at opened
      rcases fat32CreateDirEntry_cases navigable.geometry navigable.hint chain creation with
        ⟨rfl, _⟩ | ⟨rfl, cells', cell, index, created⟩
      · simp at opened
      · have geometry' : Geometry middle.bpb := by
          rw [created.same.bpb]
          exact navigable.geometry
        have found := (Inserted.of_created created chain).findFile navigable.geometry geometry' chain
          (fun other inside => navigable.zeros dir member other ((inDir_iff chain).mpr inside)) missing findable.few
          findable.inUse newEntry_name
        dsimp only at opened
        rw [found, Option.map_some] at opened
        obtain ⟨handle, rfl⟩ := Prod.mk.inj (Option.some.inj opened)
        obtain rfl := Option.some.inj handle
        exact ⟨cells', cell, index, created, rfl, rfl⟩

/-- A new file leaves the volume navigable. -/
theorem Navigable.of_created (navigable : Navigable vol dirs) (member : dir ∈ dirs) (findable : FindableName name)
    (chain : ClusterChain vol dir cells)
    (created : Created vol after dir cells cells' cell index (entrySlots name attrArchive 0 0)) :
    Navigable after dirs where
  toChained := created.keepsChained navigable.toChained member chain
  cwd := by
    rw [created.same.cwdCluster]
    exact navigable.cwd
  zeros := created.zeros navigable.toChained member chain navigable.zeros
    (entrySlots_nonzero findable.string (Nat.lt_of_le_of_lt findable.few (by decide)))
  target other member' place slot entry lists := by
    by_cases here : other = dir
    · subst here
      rcases (created.entryAt_parent chain).mp entry with old | ⟨_, rfl, _⟩
      · exact navigable.target other member' place slot old lists
      · exact absurd lists.1 FindableName.plain
    · rw [created.entryAt_other navigable.toChained member chain other member' here] at entry
      exact navigable.target other member' place slot entry lists

theorem Navigable.keepsFinds_created (navigable : Navigable vol dirs) (member : dir ∈ dirs)
    (findable : FindableName name) (chain : ClusterChain vol dir cells)
    (created : Created vol after dir cells cells' cell index (entrySlots name attrArchive 0 0)) :
    KeepsFinds vol after dirs := by
  refine (Inserted.of_created created chain).keepsFinds navigable chain findable.few findable.inUse FindableName.plain
    created.same fun other member' different inside there => ?_
  have outside := created.outside navigable.toChained member chain other member' different inside there
  exact ⟨outside, fun same => outside (Set.mem_singleton_iff.mp same ▸ created.member)⟩

theorem KeepsFinds.trans {middle : Volume} (first : KeepsFinds vol middle dirs) (second : KeepsFinds middle after dirs) :
    KeepsFinds vol after dirs :=
  fun dir member token result found => second dir member token result (first dir member token result found)

theorem fOpen_of_found {found : FoundEntry} (resolved : parentCluster vol path = some (some dir))
    (lookup : fat32FindFile vol dir (lastComponent path) = some (some found)) (mode : Nat) :
    fOpen vol path mode = some (some (openedFile dir (lastComponent path) mode found), vol) := by
  rw [fOpen, resolved]
  dsimp only
  rw [lookup]

/-- What a lookup finds has the name as its long name or the 8.3 form of the name. -/
theorem fat32FindFile_named {found : FoundEntry} (geometry : Geometry vol.bpb) (chain : ClusterChain vol dir cells)
    (zeros : ∀ cell ∈ cells, ZerosLast vol cell) (lookup : fat32FindFile vol dir name = some (some found)) :
    ∃ front place back longName, dirSlots vol cells = front ++ (place, found.entry) :: back ∧
      collect emptyLongName front = some longName ∧ found.entry.InUse ∧
      found.entryCluster = place.1 ∧ found.entryOffset = 32 * place.2 ∧
      (cString longName = name ∨ found.entry.name = fat32Format83Name name) := by
  rw [fat32FindFile_eq_lookup geometry chain zeros] at lookup
  cases outcome : lookupSlots name (fat32Format83Name name) emptyLongName (dirSlots vol cells) with
  | found result =>
      rw [outcome] at lookup
      obtain rfl : result = found := by simpa [Scan.answer] using lookup
      exact lookupSlots_found outcome
  | stop => exact absurd outcome lookupSlots_ne_stop
  | fault => simp [outcome, Scan.answer] at lookup
  | next longName => simp [outcome, Scan.answer] at lookup

/-- At one place of a directory one entry is found. -/
theorem fat32FindFile_place {name' : List UInt8} {found found' : FoundEntry} (geometry : Geometry vol.bpb)
    (chain : ClusterChain vol dir cells) (lookup : fat32FindFile vol dir name = some (some found))
    (lookup' : fat32FindFile vol dir name' = some (some found')) (cluster : found.entryCluster = found'.entryCluster)
    (offset : found.entryOffset = found'.entryOffset) : found = found' := by
  obtain ⟨cell, _, index, here, position, live⟩ := fat32FindFile_found geometry chain lookup
  obtain ⟨cell', _, index', here', position', live'⟩ := fat32FindFile_found geometry chain lookup'
  obtain rfl : cell = cell' := by rw [← here, ← here', cluster]
  obtain rfl : index = index' := by omega
  obtain ⟨entry, entryCluster, entryOffset⟩ := found
  obtain ⟨entry', entryCluster', entryOffset'⟩ := found'
  have same : entry = entry' := Option.some.inj (live.1.symm.trans live'.1)
  simp only at cluster offset
  rw [same, cluster, offset]

end TwoFiles

theorem exists_opened (vol : Volume) (path : List UInt8) (mode : Nat)
    (succeeds : ((fOpen vol path mode).bind Prod.fst).isSome = true) :
    ∃ fp after, fOpen vol path mode = some (some fp, after) := by
  cases opened : fOpen vol path mode with
  | none => simp [opened] at succeeds
  | some outcome =>
      obtain ⟨handle, after⟩ := outcome
      obtain ⟨fp, rfl⟩ := Option.isSome_iff_exists.mp (by simpa [opened] using succeeds)
      exact ⟨fp, after, rfl⟩

/-- Two files have entries of their own, and each is opened again under its path. -/
structure OwnEntries (vol : Volume) (path path' : List UInt8) (fp fp' : Fat32File) : Prop where
  apart : (fp.dirEntryCluster, fp.dirEntryOffset) ≠ (fp'.dirEntryCluster, fp'.dirEntryOffset)
  first : ∀ mode, ∃ again, fOpen vol path mode = some (some again, vol) ∧
    again.dirEntryCluster = fp.dirEntryCluster ∧ again.dirEntryOffset = fp.dirEntryOffset
  second : ∀ mode, ∃ again, fOpen vol path' mode = some (some again, vol) ∧
    again.dirEntryCluster = fp'.dirEntryCluster ∧ again.dirEntryOffset = fp'.dirEntryOffset

/-- In a settled directory two new files whose names have different 8.3 forms get entries of their
own, and a lookup finds only entries that have the name as their long name or its 8.3 form. -/
theorem created_files_ownEntries {vol middle after : Volume} {dirs : Set Nat} {dir : Nat} {cells : List Nat}
    {path path' : List UInt8} {fp fp' : Fat32File} (navigable : Navigable vol dirs)
    (chain : ClusterChain vol dir cells) (settled : Settled (dirSlots vol cells))
    (resolved : parentCluster vol path = some (some dir)) (resolved' : parentCluster vol path' = some (some dir))
    (named : lastComponent path ≠ []) (named' : lastComponent path' ≠ [])
    (findable : FindableName (lastComponent path)) (findable' : FindableName (lastComponent path'))
    (different : fat32Format83Name (lastComponent path) ≠ fat32Format83Name (lastComponent path'))
    (missing : fat32FindFile vol dir (lastComponent path) = some none)
    (missing' : fat32FindFile vol dir (lastComponent path') = some none)
    (opened : fOpen vol path faCreate = some (some fp, middle))
    (opened' : fOpen middle path' faCreate = some (some fp', after)) :
    OwnEntries after path path' fp fp' ∧
      ∀ name found, fat32FindFile vol dir name = some (some found) →
        ∃ front place back longName, dirSlots vol cells = front ++ (place, found.entry) :: back ∧
          collect emptyLongName front = some longName ∧ found.entry.InUse ∧
          found.entryCluster = place.1 ∧ found.entryOffset = 32 * place.2 ∧
          (cString longName = name ∨ found.entry.name = fat32Format83Name name) := by
  have member := navigable.parentCluster_mem resolved
  have zeros : ∀ cell ∈ cells, ZerosLast vol cell := fun other inside =>
    navigable.zeros dir member other ((inDir_iff chain).mpr inside)
  refine ⟨?_, fun name found lookup => fat32FindFile_named navigable.geometry chain zeros lookup⟩
  -- the first file
  obtain ⟨cells1, cell, index, created, located⟩ := navigable.fOpen_created findable resolved chain missing opened
  have inserted := Inserted.of_created created chain
  have navigable1 := navigable.of_created member findable chain created
  have keeps := navigable.keepsFinds_created member findable chain created
  have zeros1 : ∀ cell ∈ cells1, ZerosLast middle cell := fun other inside =>
    navigable1.zeros dir member other ((inDir_iff created.chain).mpr inside)
  have settled1 := inserted.settled chain settled findable.few findable.inUse
  have found1 := inserted.findFile navigable.geometry navigable1.geometry chain zeros missing findable.few
    findable.inUse newEntry_name
  have resolved1 := (navigable.parentCluster_kept keeps created.same.bpb created.same.cwdCluster resolved').2
  have missing1 := (inserted.findFile_other navigable.geometry navigable1.geometry chain zeros zeros1 settled
    findable.few findable.string findable.inUse (not_matched named' newEntry_name different)).trans missing'
  -- the second file
  obtain ⟨cells2, cell', index', created', located'⟩ :=
    navigable1.fOpen_created findable' resolved1 created.chain missing1 opened'
  have inserted' := Inserted.of_created created' created.chain
  have navigable2 := navigable1.of_created member findable' created.chain created'
  have keeps' := keeps.trans (navigable1.keepsFinds_created member findable' created.chain created')
  have zeros2 : ∀ cell ∈ cells2, ZerosLast after cell := fun other inside =>
    navigable2.zeros dir member other ((inDir_iff created'.chain).mpr inside)
  have second := inserted'.findFile navigable1.geometry navigable2.geometry created.chain zeros1 missing1 findable'.few
    findable'.inUse newEntry_name
  have first := (inserted'.findFile_other navigable1.geometry navigable2.geometry created.chain zeros1 zeros2 settled1
    findable'.few findable'.string findable'.inUse (not_matched named newEntry_name different.symm)).trans found1
  have bpb : after.bpb = vol.bpb := created'.same.bpb.trans created.same.bpb
  have cwd : after.cwdCluster = vol.cwdCluster := created'.same.cwdCluster.trans created.same.cwdCluster
  have reaches := (navigable.parentCluster_kept keeps' bpb cwd resolved).2
  have reaches' := (navigable.parentCluster_kept keeps' bpb cwd resolved').2
  refine ⟨fun same => ?_, fun mode => ⟨_, fOpen_of_found reaches first mode, located.1.symm, located.2.symm⟩,
    fun mode => ⟨_, fOpen_of_found reaches' second mode, located'.1.symm, located'.2.symm⟩⟩
  obtain ⟨cluster, offset⟩ := Prod.mk.inj same
  have equal := fat32FindFile_place navigable2.geometry created'.chain first second
    (located.1.symm.trans (cluster.trans located'.1)) (located.2.symm.trans (offset.trans located'.2))
  have names := congrArg (fun found => Slot.name found.entry) equal
  simp only [newEntry_name] at names
  exact different names

/-- Files `a` and `b` in the root directory of an empty volume. -/
theorem created_files_ownEntries_a_b :
    ∃ fp fp' middle after, fOpen emptyVolume [slash, 0x61] faCreate = some (some fp, middle) ∧
      fOpen middle [slash, 0x62] faCreate = some (some fp', after) ∧
      OwnEntries after [slash, 0x61] [slash, 0x62] fp fp' := by
  obtain ⟨fp, middle, opened⟩ := exists_opened emptyVolume [slash, 0x61] faCreate (by decide +kernel)
  have second : ((fOpen emptyVolume [slash, 0x61] faCreate).bind fun first =>
      (fOpen first.2 [slash, 0x62] faCreate).bind Prod.fst).isSome = true := by decide +kernel
  rw [opened, Option.bind_some] at second
  obtain ⟨fp', after, opened'⟩ := exists_opened middle [slash, 0x62] faCreate second
  have clear : ∀ item ∈ dirSlots emptyVolume [2], Slot.IsFree item.2 := by
    rintro ⟨place, slot⟩ member
    obtain ⟨here, there⟩ := mem_dirSlots.mp member
    rw [List.mem_singleton.mp here, emptyVolume_slots] at there
    obtain rfl := List.eq_of_mem_replicate (List.mem_of_getElem? there)
    exact .inl rfl
  exact ⟨fp, fp', middle, after, opened, opened', (created_files_ownEntries emptyVolume_navigable emptyVolume_chain
    (settled_of_free clear) (by decide +kernel) (by decide +kernel) (by decide) (by decide)
    ⟨by decide, by decide, by decide⟩ ⟨by decide, by decide, by decide⟩ (by decide) (by decide +kernel)
    (by decide +kernel) opened opened').1⟩

/-- `/longname1` in the root directory. -/
def longname1 : List UInt8 := [slash, 0x6C, 0x6F, 0x6E, 0x67, 0x6E, 0x61, 0x6D, 0x65, 0x31]

/-- `/longname2` in the root directory. -/
def longname2 : List UInt8 := [slash, 0x6C, 0x6F, 0x6E, 0x67, 0x6E, 0x61, 0x6D, 0x65, 0x32]

/-- The 8.3 form has eight characters in front of the dot, so the second of these files is not
created: both handles are on one entry. -/
theorem longnames_share_entry :
    longname1.map toUpper ≠ longname2.map toUpper ∧
      ∃ fp fp' middle after, fOpen emptyVolume longname1 faCreate = some (some fp, middle) ∧
        fOpen middle longname2 faCreate = some (some fp', after) ∧
        fp.dirEntryCluster = fp'.dirEntryCluster ∧ fp.dirEntryOffset = fp'.dirEntryOffset ∧
        ¬ OwnEntries after longname1 longname2 fp fp' := by
  refine ⟨by decide, ?_⟩
  obtain ⟨fp, middle, opened⟩ := exists_opened emptyVolume longname1 faCreate (by decide +kernel)
  have second : ((fOpen emptyVolume longname1 faCreate).bind fun first =>
      (fOpen first.2 longname2 faCreate).bind Prod.fst).isSome = true := by decide +kernel
  have place : ((fOpen emptyVolume longname1 faCreate).bind fun first => first.1.map fun fp =>
        (fp.dirEntryCluster, fp.dirEntryOffset)) =
      (fOpen emptyVolume longname1 faCreate).bind fun first => (fOpen first.2 longname2 faCreate).bind fun next =>
        next.1.map fun fp => (fp.dirEntryCluster, fp.dirEntryOffset) := by decide +kernel
  rw [opened, Option.bind_some] at second
  obtain ⟨fp', after, opened'⟩ := exists_opened middle longname2 faCreate second
  rw [opened, Option.bind_some, Option.bind_some, opened', Option.bind_some] at place
  have same := Option.some.inj place
  exact ⟨fp, fp', middle, after, opened, opened', (Prod.mk.inj same).1, (Prod.mk.inj same).2, fun own => own.apart same⟩

end KeblaOS.Fat32
