import KeblaOS.Fat32.DirectoryScan

/-!
# What the directory writers change

A new entry goes to a run of free slots of one cluster, or to the start of a cluster that
was hung behind the directory's chain (`Created`). A deletion changes the first byte of one
slot. Both are described by the live slots they add and take away.
-/

namespace KeblaOS.Fat32

open KeblaOS.Buffer

/-! ## Runs of free slots -/

/-- The run found is the first one of its length; `freeCount` free slots stand in front of
slot number `index`. -/
theorem freeRun_spec {needed freeCount index start : Nat} {slots : List Slot}
    (found : freeRun needed freeCount index slots = some start) (few : freeCount < needed)
    (counted : freeCount ≤ index) :
    index - freeCount ≤ start ∧ start + needed ≤ index + slots.length ∧
      (∀ (j : Nat) (slot : Slot), slots[j]? = some slot → start ≤ index + j → index + j < start + needed →
        slot.IsFree) ∧
      ∀ earlier, index - freeCount ≤ earlier → earlier < start →
        ∃ (j : Nat) (slot : Slot), slots[j]? = some slot ∧ earlier ≤ index + j ∧ index + j < earlier + needed ∧
          ¬ slot.IsFree := by
  induction slots generalizing freeCount index with
  | nil => simp [freeRun] at found
  | cons slot rest ih =>
      rw [freeRun] at found
      split_ifs at found with free done
      · obtain rfl : index - (needed - 1) = start := by simpa using found
        refine ⟨by omega, by rw [List.length_cons]; omega, fun j other there lower upper => ?_, fun _ _ _ => by omega⟩
        obtain rfl : j = 0 := by omega
        obtain rfl : slot = other := by simpa using there
        exact free
      · obtain ⟨lower, upper, all, least⟩ := ih found (by omega) (by omega)
        refine ⟨by omega, by rw [List.length_cons]; omega, fun j other there above below => ?_,
          fun earlier above below => ?_⟩
        · cases j with
          | zero =>
              obtain rfl : slot = other := by simpa using there
              exact free
          | succ j => exact all j other (by simpa using there) (by omega) (by omega)
        · obtain ⟨j, other, there, above', below', used⟩ := least earlier (by omega) below
          exact ⟨j + 1, other, by simpa using there, by omega, by omega, used⟩
      · obtain ⟨lower, upper, all, least⟩ := ih found (by omega) (by omega)
        refine ⟨by omega, by rw [List.length_cons]; omega, fun j other there above below => ?_,
          fun earlier above below => ?_⟩
        · cases j with
          | zero => omega
          | succ j => exact all j other (by simpa using there) (by omega) (by omega)
        · by_cases behind : index + 1 ≤ earlier
          · obtain ⟨j, other, there, above', below', used⟩ := least earlier (by omega) below
            exact ⟨j + 1, other, by simpa using there, by omega, by omega, used⟩
          · exact ⟨0, slot, rfl, by omega, by omega, free⟩

/-- A run of free slots that starts at or in front of the first slot that was never used,
when such slots come last. -/
structure FreeRun (slots : List Slot) (start needed : Nat) : Prop where
  inside : start + needed ≤ slots.length
  free : ∀ (j : Nat) (slot : Slot), slots[j]? = some slot → start ≤ j → j < start + needed → slot.IsFree
  least : ∀ earlier < start, ∃ (j : Nat) (slot : Slot), slots[j]? = some slot ∧ earlier ≤ j ∧
    j < earlier + needed ∧ ¬ slot.IsFree

theorem freeRun_eq_some {needed start : Nat} {slots : List Slot} (positive : 0 < needed)
    (found : freeRun needed 0 0 slots = some start) : FreeRun slots start needed := by
  obtain ⟨_, inside, free, least⟩ := freeRun_spec found positive (Nat.le_refl 0)
  refine ⟨by omega, fun j slot there lower upper => free j slot there (by omega) (by omega), fun earlier below => ?_⟩
  obtain ⟨j, slot, there, lower, upper, used⟩ := least earlier (by omega) below
  exact ⟨j, slot, there, by omega, by omega, used⟩

/-- Without a result every run of that length has a slot in use; the `freeCount` free slots in front count. -/
theorem freeRun_none {needed freeCount index start : Nat} {slots : List Slot}
    (missing : freeRun needed freeCount index slots = none) (few : freeCount < needed)
    (inside : start + needed ≤ freeCount + slots.length) :
    ∃ (j : Nat) (slot : Slot), slots[j]? = some slot ∧ start ≤ freeCount + j ∧ freeCount + j < start + needed ∧
      ¬ slot.IsFree := by
  induction slots generalizing freeCount index start with
  | nil =>
      rw [List.length_nil] at inside
      omega
  | cons slot rest ih =>
      rw [List.length_cons] at inside
      rw [freeRun] at missing
      split_ifs at missing with free done
      · obtain ⟨j, other, there, lower, upper, used⟩ := @ih (freeCount + 1) (index + 1) start missing (by omega)
          (by omega)
        exact ⟨j + 1, other, by simpa using there, by omega, by omega, used⟩
      · by_cases early : start ≤ freeCount
        · exact ⟨0, slot, rfl, by omega, by omega, free⟩
        · obtain ⟨j, other, there, lower, upper, used⟩ := @ih 0 (index + 1) (start - freeCount - 1) missing (by omega)
            (by omega)
          exact ⟨j + 1, other, by simpa using there, by omega, by omega, used⟩

theorem freeRun_eq_none {needed start : Nat} {slots : List Slot} (positive : 0 < needed)
    (missing : freeRun needed 0 0 slots = none) : ¬ FreeRun slots start needed := by
  intro run
  have inside := run.inside
  obtain ⟨j, slot, there, lower, upper, used⟩ := @freeRun_none needed 0 0 start slots missing positive (by omega)
  exact used (run.free j slot there (by omega) (by omega))

/-! ## The slots of a written cluster -/

section Slots

variable {vol : Volume} {cell index : Nat} {new : List Slot}

theorem length_clusterSlots (vol : Volume) (cell : Nat) :
    (clusterSlots vol cell).length = 16 * getSectorsPerCluster vol.bpb := by
  rw [clusterSlots, slotsOf, length_chunks, length_fat32ReadCluster]
  omega

/-- Slots written over a cluster's slots. -/
theorem clusterSlots_write_self (geometry : Geometry vol.bpb) (inRange : IsCluster vol.bpb cell)
    (sized : ∀ slot ∈ new, slot.length = 32) (fits : index + new.length ≤ (clusterSlots vol cell).length) :
    clusterSlots (fat32WriteCluster vol cell
        (overwrite (fat32ReadCluster vol cell) (32 * index) new.flatten)) cell =
      overwrite (clusterSlots vol cell) index new := by
  have whole : 32 ∣ (fat32ReadCluster vol cell).length := by
    rw [length_fat32ReadCluster]
    exact ⟨16 * getSectorsPerCluster vol.bpb, by omega⟩
  have bytes := length_flatten_of_forall sized
  rw [length_clusterSlots] at fits
  have full : (overwrite (fat32ReadCluster vol cell) (32 * index) new.flatten).length =
      512 * getSectorsPerCluster vol.bpb := by
    rw [length_overwrite (by rw [bytes, length_fat32ReadCluster]; omega), length_fat32ReadCluster]
  rw [clusterSlots, fat32ReadCluster_write_self geometry.toLayout inRange full]
  exact chunks_overwrite index (by decide) whole sized

/-- A part of one slot written over. -/
theorem clusterSlots_edit {slot : Slot} {offset : Nat} {data : List UInt8} (geometry : Geometry vol.bpb)
    (inRange : IsCluster vol.bpb cell) (there : (clusterSlots vol cell)[index]? = some slot)
    (fits : offset + data.length ≤ 32) :
    clusterSlots (fat32WriteCluster vol cell
        (overwrite (fat32ReadCluster vol cell) (32 * index + offset) data)) cell =
      overwrite (clusterSlots vol cell) index [overwrite slot offset data] := by
  have inside := (List.getElem?_eq_some_iff.mp there).1
  rw [length_clusterSlots] at inside
  have length := length_fat32ReadCluster vol cell
  have full : (overwrite (fat32ReadCluster vol cell) (32 * index + offset) data).length =
      512 * getSectorsPerCluster vol.bpb := by
    rw [length_overwrite (by omega), length]
  rw [clusterSlots, fat32ReadCluster_write_self geometry.toLayout inRange full]
  exact chunks_overwrite_within (by decide) ⟨16 * getSectorsPerCluster vol.bpb, by omega⟩ there fits

theorem clusterSlots_congr {after : Volume} {entries data : Set Nat} (same : vol.SameExcept after entries data)
    (inRange : IsCluster vol.bpb cell) (outside : cell ∉ data) :
    clusterSlots after cell = clusterSlots vol cell := by
  rw [clusterSlots, clusterSlots, same.bytes cell inRange outside]

theorem clusterSize_eq (geometry : Geometry vol.bpb) :
    getBytesPerSector vol.bpb * getSectorsPerCluster vol.bpb = 512 * getSectorsPerCluster vol.bpb := by
  rw [geometry.getBytesPerSector_eq]

/-- A cleared cluster has slots that were never used. -/
theorem clusterSlots_clear (geometry : Geometry vol.bpb) (inRange : IsCluster vol.bpb cell) :
    clusterSlots (fat32ClearCluster vol cell) cell =
      List.replicate (16 * getSectorsPerCluster vol.bpb) (List.replicate 32 0) := by
  have size : 512 * getSectorsPerCluster vol.bpb = 32 * (16 * getSectorsPerCluster vol.bpb) := by omega
  rw [clusterSlots, fat32ClearCluster, clusterSize_eq geometry,
    fat32ReadCluster_write_self geometry.toLayout inRange List.length_replicate, size, slotsOf,
    chunks_replicate (by decide)]

theorem sameExcept_clearCluster (geometry : Geometry vol.bpb) (inRange : IsCluster vol.bpb cell) :
    vol.SameExcept (fat32ClearCluster vol cell) ∅ {cell} :=
  sameExcept_writeCluster _ geometry inRange

end Slots

/-! ## Finding room -/

section Room

variable {vol : Volume} {dirCluster needed : Nat} {cells : List Nat}

/-- A directory chain with one more cluster, which is clear. -/
structure ClusterHung (vol after : Volume) (dirCluster : Nat) (cells : List Nat) (cell : Nat) : Prop where
  free : fat32GetNextCluster vol cell = 0
  inRange : IsCluster vol.bpb cell
  hint : vol.freeClusterNo ≤ cell
  chain : ClusterChain after dirCluster (cells ++ [cell])
  same : vol.SameExcept after {other | other ∈ cells ++ [cell]} {cell}
  slots : clusterSlots after cell = List.replicate (16 * getSectorsPerCluster vol.bpb) (List.replicate 32 0)

theorem clusterHung_of_appended {last cell : Nat} {front : List Nat} {middle : Volume}
    (geometry : Geometry vol.bpb) (chain : ClusterChain vol dirCluster (front ++ [last]))
    (appended : Appended vol last cell middle) :
    ClusterHung vol (fat32ClearCluster middle cell) dirCluster (front ++ [last]) cell := by
  have geometry' : Geometry middle.bpb := by rwa [appended.same.bpb]
  have inRange' : IsCluster middle.bpb cell := by
    rw [appended.same.bpb]
    exact appended.isCluster
  have cleared := sameExcept_clearCluster geometry' inRange'
  have fresh : ∀ other ∈ front ++ [last], other ≠ cell := by
    rintro other member rfl
    exact chain.next_ne_zero member appended.free
  refine ⟨appended.free, appended.isCluster, appended.from_hint, ?_, ?_, ?_⟩
  · exact (appended.chain_concat geometry chain).congr cleared fun _ _ => Set.notMem_empty _
  · refine (appended.same.mono ?_ ?_).trans (cleared.mono ?_ ?_)
    · rintro other (rfl | rfl) <;> simp
    · exact Set.empty_subset _
    · exact Set.empty_subset _
    · exact subset_rfl
  · rw [clusterSlots_clear geometry' inRange', appended.same.bpb]

/-- No cluster has a run of free slots of that length. -/
def NoRoom (vol : Volume) (cells : List Nat) (needed : Nat) : Prop :=
  ∀ cell ∈ cells, ∀ index, ¬ FreeRun (clusterSlots vol cell) index needed

/-- The search passes clusters without room. -/
theorem noRoom_of_passed (positive : 0 < needed) (passed : ∀ cell ∈ cells, ∃ before after,
    freeRunVisit needed before cell (clusterSlots vol cell) = .next after) : NoRoom vol cells needed := by
  intro cell member index
  obtain ⟨state, next, passed⟩ := passed cell member
  rw [freeRunVisit] at passed
  cases run : freeRun needed 0 0 (clusterSlots vol cell) with
  | none => exact freeRun_eq_none positive run
  | some start => simp [run] at passed

/-- A search without a result means that there is no room. -/
theorem noRoom_of_scanned {state : Unit} (positive : 0 < needed)
    (scanned : scanCells (freeRunVisit needed) vol state cells = some none) : NoRoom vol cells needed := by
  obtain ⟨front, back, rfl, visited, stopped⟩ := scanCells_none scanned
  rcases stopped with rfl | ⟨stop, rest, before, rfl, outcome⟩
  · exact noRoom_of_passed positive fun cell member => visited cell (by simpa using member)
  · rw [freeRunVisit] at outcome
    cases run : freeRun needed 0 0 (clusterSlots vol stop) <;> simp [run] at outcome

/-- Room for an entry is found in the first cluster of the directory that has it, or in a cluster
hung behind it, or not at all on a volume without free clusters. A cluster is hung only behind a
directory without room. -/
theorem fat32FindContiguousFreeEntries_cases (geometry : Geometry vol.bpb) (hint : 2 ≤ vol.freeClusterNo)
    (chain : ClusterChain vol dirCluster cells) (positive : 0 < needed) :
    (fat32FindContiguousFreeEntries vol dirCluster needed = some (none, vol) ∧ vol.Exhausted ∧
        NoRoom vol cells needed) ∨
      (∃ front cell back index, cells = front ++ cell :: back ∧ NoRoom vol front needed ∧
        FreeRun (clusterSlots vol cell) index needed ∧
        fat32FindContiguousFreeEntries vol dirCluster needed = some (some (cell, 32 * index), vol)) ∨
      ∃ cell after, ClusterHung vol after dirCluster cells cell ∧
        NoRoom vol cells needed ∧ freeClusterCount vol = freeClusterCount after + 1 ∧
        fat32FindContiguousFreeEntries vol dirCluster needed = some (some (cell, 0), after) := by
  unfold fat32FindContiguousFreeEntries
  rw [scanChain_eq () geometry chain]
  obtain ⟨answer, scanned⟩ := @scanCells_isSome Unit (Nat × Nat) (freeRunVisit needed) vol () cells
    (fun state cell _ => by
      unfold freeRunVisit
      cases freeRun needed 0 0 (clusterSlots vol cell) <;> simp)
  rw [scanned]
  cases answer with
  | some place =>
      obtain ⟨front, cell, back, split, passed, state, visited⟩ := scanCells_found_first scanned
      rw [freeRunVisit] at visited
      cases run : freeRun needed 0 0 (clusterSlots vol cell) with
      | none => simp [run] at visited
      | some index =>
          rw [run] at visited
          obtain rfl : (cell, 32 * index) = place := by simpa using visited
          exact .inr (.inl ⟨front, cell, back, index, split, noRoom_of_passed positive passed,
            freeRun_eq_some positive run, rfl⟩)
  | none =>
      have full := noRoom_of_scanned positive scanned
      obtain ⟨front, last, rfl⟩ : ∃ front last, cells = front ++ [last] :=
        ⟨cells.dropLast, cells.getLast chain.linked.ne_nil, (List.dropLast_append_getLast _).symm⟩
      rcases fat32AppendCluster_cases geometry hint chain with ⟨failed, exhausted⟩ | ⟨cell, middle, grown, appended⟩
      · rw [failed]
        exact .inl ⟨rfl, exhausted, full⟩
      · rw [grown]
        have middleGeometry : Geometry middle.bpb := by rwa [appended.same.bpb]
        have inRange : IsCluster middle.bpb cell := by
          rw [appended.same.bpb]
          exact appended.isCluster
        refine .inr (.inr ⟨cell, _, clusterHung_of_appended geometry chain appended, full, ?_, rfl⟩)
        rw [appended.freeClusterCount_eq (chain.next_ne_zero (by simp)), fat32ClearCluster,
          freeClusterCount_writeCluster _ middleGeometry (hint.trans appended.same.hint) inRange]

end Room

/-! ## A new entry -/

section Created

variable {vol after : Volume} {dirCluster cell index : Nat} {cells cells' : List Nat} {new : List Slot}

/-- The slots `new` were written to a free run of a directory with clusters `cells`, which
may have got one more cluster. -/
structure Created (vol after : Volume) (dirCluster : Nat) (cells cells' : List Nat) (cell index : Nat)
    (new : List Slot) : Prop where
  chain : ClusterChain after dirCluster cells'
  kept : cells <+: cells'
  only : ∀ other ∈ cells', other ∈ cells ∨ other = cell
  member : cell ∈ cells'
  inRange : IsCluster vol.bpb cell
  fresh : cell ∉ cells → fat32GetNextCluster vol cell = 0 ∧ vol.freeClusterNo ≤ cell
  same : vol.SameExcept after {other | other ∈ cells'} {cell}
  written : ∃ old, clusterSlots after cell = overwrite old index new ∧ FreeRun old index new.length ∧
    (cell ∈ cells → old = clusterSlots vol cell) ∧
    (cell ∉ cells → old = List.replicate (16 * getSectorsPerCluster vol.bpb) (List.replicate 32 0))

theorem freeRun_replicate {count needed : Nat} (fits : needed ≤ count) :
    FreeRun (List.replicate count (List.replicate 32 0)) 0 needed := by
  refine ⟨by simpa using fits, fun j slot there _ _ => ?_, fun earlier below => by omega⟩
  obtain rfl := List.eq_of_mem_replicate (List.mem_of_getElem? there)
  exact .inl (by decide)

/-- Writing the new slots into a run of a cluster the directory already has. -/
theorem created_in_place (geometry : Geometry vol.bpb) (chain : ClusterChain vol dirCluster cells)
    (member : cell ∈ cells) (sized : ∀ slot ∈ new, slot.length = 32)
    (run : FreeRun (clusterSlots vol cell) index new.length) :
    Created vol (fat32WriteCluster vol cell (overwrite (fat32ReadCluster vol cell) (32 * index) new.flatten))
      dirCluster cells cells cell index new := by
  have inRange := chain.isCluster cell member
  have same := sameExcept_writeCluster (overwrite (fat32ReadCluster vol cell) (32 * index) new.flatten)
    geometry inRange
  refine ⟨chain.congr same fun _ _ => Set.notMem_empty _, List.prefix_rfl, fun other inside => .inl inside,
    member, inRange, fun outside => absurd member outside, same.mono (Set.empty_subset _) subset_rfl, ?_⟩
  exact ⟨clusterSlots vol cell, clusterSlots_write_self geometry inRange sized run.inside, run, fun _ => rfl,
    fun outside => absurd member outside⟩

/-- Writing them to the start of a cluster that was hung behind the directory. -/
theorem created_in_hung {middle : Volume} (geometry : Geometry vol.bpb)
    (chain : ClusterChain vol dirCluster cells) (hung : ClusterHung vol middle dirCluster cells cell)
    (sized : ∀ slot ∈ new, slot.length = 32) (fits : new.length ≤ 16 * getSectorsPerCluster vol.bpb) :
    Created vol (fat32WriteCluster middle cell (overwrite (fat32ReadCluster middle cell) (32 * 0) new.flatten))
      dirCluster cells (cells ++ [cell]) cell 0 new := by
  have geometry' : Geometry middle.bpb := by rwa [hung.same.bpb]
  have outside : cell ∉ cells := fun inside => chain.next_ne_zero inside hung.free
  have run : FreeRun (clusterSlots middle cell) 0 new.length := by
    rw [hung.slots]
    exact freeRun_replicate fits
  have second := created_in_place geometry' hung.chain (by simp) sized run
  have same := hung.same.trans (second.same.mono subset_rfl subset_rfl)
  obtain ⟨old, slots, free, before, _⟩ := second.written
  refine ⟨second.chain, List.prefix_append _ _, fun other inside => ?_, by simp, hung.inRange,
    fun _ => ⟨hung.free, hung.hint⟩, same, ?_⟩
  · simpa using inside
  · exact ⟨old, slots, free, fun inside => absurd inside outside,
      fun _ => (before (by simp)).trans hung.slots⟩

end Created

section Create

variable {vol after : Volume} {parent first size : Nat} {cells : List Nat} {name : List UInt8} {attr : UInt8}
  {ok : Bool}

theorem length_entrySlots (name : List UInt8) (attr : UInt8) (first size : Nat) :
    (entrySlots name attr first size).length = lfnCount name + 1 := by
  simp [entrySlots]

theorem entrySlots_sized : ∀ slot ∈ entrySlots name attr first size, slot.length = 32 := by
  intro slot member
  rcases List.mem_append.mp member with long | short
  · obtain ⟨i, _, rfl⟩ := List.mem_map.mp long
    exact length_lfnSlot
  · rw [List.mem_singleton.mp short]
    exact length_shortSlot (length_fat32Format83Name name)

/-- `fat32_create_dir_entry` either finds no room on a volume without free clusters or stores
the slots of the entry, behind clusters without room. -/
theorem fat32CreateDirEntry_firstFit (geometry : Geometry vol.bpb) (hint : 2 ≤ vol.freeClusterNo)
    (chain : ClusterChain vol parent cells)
    (returned : fat32CreateDirEntry vol parent name attr first size = some (ok, after)) :
    (ok = false ∧ after = vol ∧ vol.Exhausted) ∨
      ok = true ∧ ∃ cells' cell index,
        Created vol after parent cells cells' cell index (entrySlots name attr first size) ∧
        (∃ middle, fat32FindContiguousFreeEntries vol parent (lfnCount name + 1) =
          some (some (cell, 32 * index), middle)) ∧
        ∃ front back, cells' = front ++ cell :: back ∧ NoRoom vol front (lfnCount name + 1) := by
  have count := length_entrySlots name attr first size
  unfold fat32CreateDirEntry at returned
  dsimp only at returned
  rcases fat32FindContiguousFreeEntries_cases geometry hint chain
      (show 0 < (entrySlots name attr first size).length by omega) with
    ⟨failed, exhausted, -⟩ | ⟨front, cell, back, index, split, full, run, found⟩ | ⟨cell, middle, hung, full, -, found⟩
  · rw [failed] at returned
    obtain ⟨rfl, rfl⟩ := Prod.mk.inj (Option.some.inj returned)
    exact .inl ⟨rfl, rfl, exhausted⟩
  · rw [found] at returned
    dsimp only at returned
    split_ifs at returned
    obtain ⟨rfl, rfl⟩ := Prod.mk.inj (Option.some.inj returned)
    rw [count] at full found
    exact .inr ⟨rfl, cells, cell, index, created_in_place geometry chain (by simp [split]) entrySlots_sized run,
      ⟨_, found⟩, front, back, split, full⟩
  · rw [found] at returned
    dsimp only at returned
    split_ifs at returned with fits
    obtain ⟨rfl, rfl⟩ := Prod.mk.inj (Option.some.inj returned)
    rw [hung.same.bpb, geometry.getClusterSizeBytes_eq] at fits
    rw [count] at full found
    exact .inr ⟨rfl, cells ++ [cell], cell, 0, created_in_hung geometry chain hung entrySlots_sized (by omega),
      ⟨middle, found⟩, cells, [], rfl, full⟩

theorem fat32CreateDirEntry_cases (geometry : Geometry vol.bpb) (hint : 2 ≤ vol.freeClusterNo)
    (chain : ClusterChain vol parent cells)
    (returned : fat32CreateDirEntry vol parent name attr first size = some (ok, after)) :
    (ok = false ∧ after = vol ∧ vol.Exhausted) ∨
      ok = true ∧ ∃ cells' cell index,
        Created vol after parent cells cells' cell index (entrySlots name attr first size) := by
  rcases fat32CreateDirEntry_firstFit geometry hint chain returned with failed | ⟨succeeded, cells', cell, index, created, _⟩
  · exact .inl failed
  · exact .inr ⟨succeeded, cells', cell, index, created⟩

/-- It succeeds if the entry fits a cluster and there is room in the directory or a free cluster,
and takes a cluster only if there is no room. -/
theorem fat32CreateDirEntry_succeeds (attr : UInt8) (first size : Nat) (geometry : Geometry vol.bpb)
    (hint : 2 ≤ vol.freeClusterNo) (chain : ClusterChain vol parent cells)
    (fits : lfnCount name + 1 ≤ 16 * getSectorsPerCluster vol.bpb)
    (room : NoRoom vol cells (lfnCount name + 1) → 0 < freeClusterCount vol) :
    ∃ after cells' cell index, fat32CreateDirEntry vol parent name attr first size = some (true, after) ∧
      Created vol after parent cells cells' cell index (entrySlots name attr first size) ∧
      (freeClusterCount after = freeClusterCount vol ∨
        NoRoom vol cells (lfnCount name + 1) ∧ freeClusterCount vol = freeClusterCount after + 1) := by
  have count := length_entrySlots name attr first size
  unfold fat32CreateDirEntry
  dsimp only
  rcases fat32FindContiguousFreeEntries_cases geometry hint chain
      (show 0 < (entrySlots name attr first size).length by omega) with
    ⟨_, exhausted, full⟩ | ⟨front, cell, back, index, split, _, run, found⟩ | ⟨cell, middle, hung, full, taken, found⟩
  · rw [count] at full
    have positive := room full
    rw [exhausted.freeClusterCount_eq] at positive
    omega
  · rw [found]
    dsimp only
    have inside := run.inside
    rw [length_clusterSlots] at inside
    have member : cell ∈ cells := by simp [split]
    rw [if_pos (by rw [geometry.getClusterSizeBytes_eq]; omega)]
    exact ⟨_, cells, cell, index, rfl, created_in_place geometry chain member entrySlots_sized run,
      .inl (freeClusterCount_writeCluster _ geometry hint (chain.isCluster cell member))⟩
  · rw [found]
    dsimp only
    have middleGeometry : Geometry middle.bpb := by rwa [hung.same.bpb]
    have inRange : IsCluster middle.bpb cell := by
      rw [hung.same.bpb]
      exact hung.inRange
    rw [if_pos (by rw [hung.same.bpb, geometry.getClusterSizeBytes_eq]; omega)]
    refine ⟨_, cells ++ [cell], cell, 0, rfl, created_in_hung geometry chain hung entrySlots_sized (by omega),
      .inr ⟨by rwa [count] at full, ?_⟩⟩
    rw [taken, freeClusterCount_writeCluster _ middleGeometry (hint.trans hung.same.hint) inRange]

end Create

/-! ## Live slots after a change -/

section Live

variable {vol after : Volume} {parent first size cell index : Nat} {cells cells' : List Nat}
  {name : List UInt8} {attr : UInt8}

/-- The short entry of a name. -/
def newEntry (name : List UInt8) (attr : UInt8) (first size : Nat) : Slot :=
  shortSlot (fat32Format83Name name) attr first size

theorem newEntry_name : (newEntry name attr first size).name = fat32Format83Name name :=
  shortSlot_name (length_fat32Format83Name name)

theorem newEntry_attr : (newEntry name attr first size).attr = attr :=
  shortSlot_attr (length_fat32Format83Name name)

theorem newEntry_firstCluster (bounded : first < 4294967296) :
    (newEntry name attr first size).firstCluster = first :=
  shortSlot_firstCluster (length_fat32Format83Name name) bounded

theorem newEntry_firstByte : (newEntry name attr first size).firstByte = (fat32Format83Name name).getD 0 0 :=
  shortSlot_firstByte (length_fat32Format83Name name)

theorem Slot.firstByte_eq_name (slot : Slot) : slot.firstByte = slot.name.getD 0 0 := by
  rw [Slot.firstByte, Slot.name]
  simp

/-- No 8.3 name starts with a dot, so a new entry is never taken for a dot entry. -/
theorem fat32Format83Name_ne_dot (name : List UInt8) : (fat32Format83Name name).getD 0 0 ≠ dot := by
  rcases fat32Format83Name_firstByte name with blank | ⟨c, _, different, upper⟩
  · rw [blank]
    decide
  · rw [upper]
    exact toUpper_ne different (by decide)

theorem fat32Format83Name_ne_zero (string : 0 ∉ name) : (fat32Format83Name name).getD 0 0 ≠ 0 := by
  rcases fat32Format83Name_firstByte name with blank | ⟨c, member, _, upper⟩
  · rw [blank]
    decide
  · rw [upper]
    refine toUpper_ne ?_ (by decide)
    rintro rfl
    exact string member

/-- The first byte of the short name does not mark a deleted slot. -/
def NotDeletedName (name : List UInt8) : Prop := (fat32Format83Name name).getD 0 0 ≠ deletedMark

instance (name : List UInt8) : Decidable (NotDeletedName name) := inferInstanceAs (Decidable (_ ≠ _))

/-- A new entry is live if its name does not look deleted. -/
theorem newEntry_inUse (string : 0 ∉ name)
    (notDeleted : NotDeletedName name) (notLong : attr ≠ attrLongName) : (newEntry name attr first size).InUse := by
  refine ⟨?_, ?_, ?_⟩
  · rw [newEntry_firstByte]
    exact fat32Format83Name_ne_zero string
  · rw [newEntry_firstByte]
    exact notDeleted
  · rw [newEntry_attr]
    exact notLong

theorem lfnOrd_ne_zero {count order : Nat} (positive : 0 < order) (small : order < 256) :
    lfnOrd count order ≠ 0 := by
  have plain : UInt8.ofNat order ≠ 0 := by
    intro zero
    have value := congrArg UInt8.toNat zero
    rw [UInt8.toNat_ofNat_of_lt' small, UInt8.toNat_zero] at value
    omega
  unfold lfnOrd
  split_ifs
  · rw [Ne, UInt8.or_eq_zero_iff]
    exact fun zero => plain zero.1
  · exact plain

/-- No slot of an entry looks like one that was never used, unless the name is so long that the
numbers of its slots overflow their byte. -/
theorem entrySlots_nonzero (string : 0 ∉ name) (short : lfnCount name < 256) :
    ∀ slot ∈ entrySlots name attr first size, Slot.firstByte slot ≠ 0 := by
  intro slot member
  rcases List.mem_append.mp member with long | last
  · obtain ⟨i, inside, rfl⟩ := List.mem_map.mp long
    rw [List.mem_range] at inside
    rw [lfnSlot_firstByte]
    exact lfnOrd_ne_zero (by omega) (by omega)
  · rw [List.mem_singleton.mp last, shortSlot_firstByte (length_fat32Format83Name name)]
    exact fat32Format83Name_ne_zero string

/-- Among the slots of an entry only the last one is an entry of its own. -/
theorem entrySlots_inUse {j : Nat} {slot : Slot} (there : (entrySlots name attr first size)[j]? = some slot)
    (inUse : slot.InUse) : j = lfnCount name ∧ slot = newEntry name attr first size := by
  unfold entrySlots at there
  dsimp only at there
  rcases Nat.lt_or_ge j (lfnCount name) with long | short
  · rw [List.getElem?_append_left (by simpa using long)] at there
    obtain ⟨i, _, rfl⟩ := List.mem_map.mp (List.mem_of_getElem? there)
    exact absurd lfnSlot_attr inUse.2.2
  · rw [List.getElem?_append_right (by simpa using short)] at there
    have single := List.mem_singleton.mp (List.mem_of_getElem? there)
    have bound : j - lfnCount name < 1 := by
      have inside := (List.getElem?_eq_some_iff.mp there).1
      simpa using inside
    exact ⟨by omega, single⟩

theorem entrySlots_last (name : List UInt8) (attr : UInt8) (first size : Nat) :
    (entrySlots name attr first size)[lfnCount name]? = some (newEntry name attr first size) := by
  unfold entrySlots
  dsimp only
  rw [List.getElem?_append_right (by simp)]
  simp [newEntry]

/-- The live slots of a cluster into which an entry was written. -/
theorem liveAt_overwrite {old slots : List Slot} {j : Nat} {slot : Slot}
    (written : slots = overwrite old index (entrySlots name attr first size))
    (run : FreeRun old index (entrySlots name attr first size).length) :
    (slots[j]? = some slot ∧ slot.InUse) ↔
      (old[j]? = some slot ∧ slot.InUse) ∨
        j = index + lfnCount name ∧ slot = newEntry name attr first size ∧ slot.InUse := by
  have count := length_entrySlots name attr first size
  rw [written, getElem?_overwrite run.inside]
  by_cases inside : index ≤ j ∧ j < index + (entrySlots name attr first size).length
  · rw [if_pos inside]
    constructor
    · rintro ⟨there, inUse⟩
      obtain ⟨position, equal⟩ := entrySlots_inUse there inUse
      exact .inr ⟨by omega, equal, inUse⟩
    · rintro (⟨there, inUse⟩ | ⟨rfl, rfl, inUse⟩)
      · rcases run.free j slot there inside.1 inside.2 with zero | deleted
        · exact absurd zero inUse.1
        · exact absurd deleted inUse.2.1
      · rw [Nat.add_sub_cancel_left]
        exact ⟨entrySlots_last name attr first size, inUse⟩
  · rw [if_neg inside]
    constructor
    · exact .inl
    · rintro (old | ⟨rfl, _, _⟩)
      · exact old
      · omega

theorem Created.liveAt_iff (created : Created vol after parent cells cells' cell index
    (entrySlots name attr first size)) {c j : Nat} {slot : Slot} (inRange : IsCluster vol.bpb c)
    (here : c ∈ cells ∨ c ∉ cells') :
    LiveAt after c j slot ↔ LiveAt vol c j slot ∨
      c = cell ∧ j = index + lfnCount name ∧ slot = newEntry name attr first size ∧ slot.InUse := by
  by_cases same : c = cell
  · subst same
    have inside : c ∈ cells := here.resolve_right fun outside => outside created.member
    obtain ⟨old, slots, run, before, _⟩ := created.written
    obtain rfl := before inside
    rw [LiveAt, liveAt_overwrite slots run, LiveAt]
    simp
  · rw [LiveAt, LiveAt, clusterSlots_congr created.same inRange same]
    simp [same]

/-- A cluster that was hung behind the directory has the new entry and no other. -/
theorem Created.liveAt_fresh_iff (created : Created vol after parent cells cells' cell index
    (entrySlots name attr first size)) {j : Nat} {slot : Slot} (fresh : cell ∉ cells) :
    LiveAt after cell j slot ↔
      j = index + lfnCount name ∧ slot = newEntry name attr first size ∧ slot.InUse := by
  obtain ⟨old, slots, run, _, before⟩ := created.written
  rw [LiveAt, liveAt_overwrite slots run, before fresh]
  constructor
  · rintro (⟨there, inUse⟩ | new)
    · obtain rfl := List.eq_of_mem_replicate (List.mem_of_getElem? there)
      exact absurd (by decide) inUse.1
    · exact new
  · exact .inr

/-- New slots without a zero first byte keep the free slots at the end. -/
theorem zerosLastIn_overwrite {old new : List Slot} (zeros : ZerosLastIn old) (run : FreeRun old index new.length)
    (nonzero : ∀ slot ∈ new, Slot.firstByte slot ≠ 0) : ZerosLastIn (overwrite old index new) := by
  intro i j slot slot' there zero ordered there'
  rw [getElem?_overwrite run.inside] at there there'
  have outside : ¬ (index ≤ i ∧ i < index + new.length) := by
    intro inside
    rw [if_pos inside] at there
    exact nonzero slot (List.mem_of_getElem? there) zero
  rw [if_neg outside] at there
  rcases Nat.lt_or_ge i index with before | behind
  · -- the run would have been found at `i` already
    obtain ⟨k, other, otherThere, lower, upper, used⟩ := run.least i before
    exact absurd (zeros i k slot other there zero lower otherThere) used
  · rw [if_neg (by omega)] at there'
    exact zeros i j slot slot' there zero ordered there'

theorem Created.zerosLast {new : List Slot} (created : Created vol after parent cells cells' cell index new)
    (zeros : cell ∈ cells → ZerosLast vol cell) (nonzero : ∀ slot ∈ new, Slot.firstByte slot ≠ 0) :
    ZerosLast after cell := by
  obtain ⟨old, slots, run, inside, outside⟩ := created.written
  rw [ZerosLast, slots]
  refine zerosLastIn_overwrite ?_ run nonzero
  by_cases member : cell ∈ cells
  · rw [inside member]
    exact zeros member
  · rw [outside member]
    intro i j slot slot' _ _ _ there'
    obtain rfl := List.eq_of_mem_replicate (List.mem_of_getElem? there')
    decide

/-- The run an entry was written to held no entry. -/
theorem Created.vacant (created : Created vol after parent cells cells' cell index
    (entrySlots name attr first size)) {slot : Slot} (inside : cell ∈ cells) :
    ¬ LiveAt vol cell (index + lfnCount name) slot := by
  rintro ⟨there, inUse⟩
  obtain ⟨old, _, run, before, _⟩ := created.written
  obtain rfl := before inside
  have count := length_entrySlots name attr first size
  rcases run.free _ slot there (by omega) (by omega) with zero | deleted
  · exact inUse.1 zero
  · exact inUse.2.1 deleted

end Live

/-! ## A deleted entry -/

section Deleted

variable {vol : Volume} {found : FoundEntry} {cell index : Nat} {slot : Slot}

/-- A mark of deletion is a new slot in place of the old one. -/
theorem clusterSlots_markDeleted (geometry : Geometry vol.bpb) (inRange : IsCluster vol.bpb cell)
    (here : found.entryCluster = cell) (offset : found.entryOffset = 32 * index)
    (there : (clusterSlots vol cell)[index]? = some slot) :
    clusterSlots (markDeleted vol found) cell =
      overwrite (clusterSlots vol cell) index [overwrite slot 0 [deletedMark]] := by
  rw [markDeleted, here, offset, ← Nat.add_zero (32 * index)]
  exact clusterSlots_edit geometry inRange there (by decide)

theorem firstByte_deleted (slot : Slot) : Slot.firstByte (overwrite slot 0 [deletedMark]) = deletedMark := rfl

theorem sameExcept_markDeleted (geometry : Geometry vol.bpb) (inRange : IsCluster vol.bpb cell)
    (here : found.entryCluster = cell) : vol.SameExcept (markDeleted vol found) ∅ {cell} := by
  subst here
  exact sameExcept_writeCluster _ geometry inRange

/-- Deletion takes away one live slot. -/
theorem liveAt_markDeleted (geometry : Geometry vol.bpb) (inRange : IsCluster vol.bpb cell)
    (here : found.entryCluster = cell) (offset : found.entryOffset = 32 * index)
    (there : (clusterSlots vol cell)[index]? = some slot) {c j : Nat} {other : Slot}
    (otherInRange : IsCluster vol.bpb c) :
    LiveAt (markDeleted vol found) c j other ↔ LiveAt vol c j other ∧ (c, j) ≠ (cell, index) := by
  by_cases same : c = cell
  · subst same
    have slots := clusterSlots_markDeleted geometry inRange here offset there
    have inside := (List.getElem?_eq_some_iff.mp there).1
    rw [LiveAt, slots, getElem?_overwrite (by simpa using inside), LiveAt]
    by_cases position : j = index
    · subst position
      rw [if_pos (by simp)]
      constructor
      · rintro ⟨new, inUse⟩
        obtain rfl : overwrite slot 0 [deletedMark] = other := by simpa using new
        exact absurd (firstByte_deleted slot) inUse.2.1
      · rintro ⟨_, different⟩
        exact absurd rfl different
    · rw [if_neg (by simp only [List.length_singleton]; omega)]
      simp [position]
  · rw [LiveAt, clusterSlots_congr (sameExcept_markDeleted geometry inRange here) otherInRange same, LiveAt]
    simp [same]

theorem zerosLast_markDeleted (geometry : Geometry vol.bpb) (inRange : IsCluster vol.bpb cell)
    (here : found.entryCluster = cell) (offset : found.entryOffset = 32 * index)
    (live : LiveAt vol cell index slot) {c : Nat} (otherInRange : IsCluster vol.bpb c)
    (zeros : ZerosLast vol c) : ZerosLast (markDeleted vol found) c := by
  by_cases same : c = cell
  · subst same
    have slots := clusterSlots_markDeleted geometry inRange here offset live.1
    have inside := (List.getElem?_eq_some_iff.mp live.1).1
    intro i j first second there zero ordered there'
    rw [slots, getElem?_overwrite (by simpa using inside)] at there there'
    simp only [List.length_singleton] at there there'
    by_cases position : i = index
    · rw [if_pos (by omega)] at there
      obtain rfl : overwrite slot 0 [deletedMark] = first := by simpa [position] using there
      rw [firstByte_deleted] at zero
      exact absurd zero (by decide)
    · rw [if_neg (by omega)] at there
      by_cases position' : j = index
      · -- a slot that was never used would stand in front of the live one
        subst position'
        exact absurd (zeros i j first slot there zero ordered live.1) live.2.not_isFree
      · rw [if_neg (by omega)] at there'
        exact zeros i j first second there zero ordered there'
  · rw [ZerosLast, clusterSlots_congr (sameExcept_markDeleted geometry inRange here) otherInRange same]
    exact zeros

end Deleted

/-! ## An updated entry -/

section Updated

variable {vol : Volume} {cell index : Nat} {slot : Slot} {fp : Fat32File}

/-- A slot with the size and first-cluster fields stored by `f_sync` and `f_close`. -/
def Slot.withFile (slot : Slot) (first size : Nat) : Slot :=
  overwrite (overwrite (overwrite slot 28 (leBytes 4 size)) 20 (leBytes 2 (first >>> 16 &&& 0xFFFF))) 26
    (leBytes 2 (first &&& 0xFFFF))

theorem Slot.getElem?_withFile (first size : Nat) (whole : slot.length = 32) {i : Nat} (before : i < 20) :
    (slot.withFile first size)[i]? = slot[i]? := by
  have once : (overwrite slot 28 (leBytes 4 size)).length = 32 := by
    rw [length_overwrite (by rw [length_leBytes]; omega), whole]
  have twice : (overwrite (overwrite slot 28 (leBytes 4 size)) 20
      (leBytes 2 (first >>> 16 &&& 0xFFFF))).length = 32 := by
    rw [length_overwrite (by rw [length_leBytes]; omega), once]
  rw [Slot.withFile, getElem?_overwrite (by rw [length_leBytes]; omega), if_neg (by omega),
    getElem?_overwrite (by rw [length_leBytes]; omega), if_neg (by omega),
    getElem?_overwrite (by rw [length_leBytes]; omega), if_neg (by omega)]

theorem Slot.withFile_name (first size : Nat) (whole : slot.length = 32) :
    (slot.withFile first size).name = slot.name := by
  refine List.ext_getElem? fun i => ?_
  rw [Slot.name, Slot.name, List.getElem?_take, List.getElem?_take]
  split_ifs with inside
  · exact getElem?_withFile first size whole (by omega)
  · rfl

theorem Slot.withFile_firstByte (first size : Nat) (whole : slot.length = 32) :
    (slot.withFile first size).firstByte = slot.firstByte := by
  rw [Slot.firstByte, Slot.firstByte, List.getD_eq_getElem?_getD, List.getD_eq_getElem?_getD,
    getElem?_withFile first size whole (by decide)]

theorem Slot.withFile_attr (first size : Nat) (whole : slot.length = 32) :
    (slot.withFile first size).attr = slot.attr := by
  rw [Slot.attr, Slot.attr, List.getD_eq_getElem?_getD, List.getD_eq_getElem?_getD,
    getElem?_withFile first size whole (by decide)]

theorem Slot.withFile_inUse (first size : Nat) (whole : slot.length = 32) :
    (slot.withFile first size).InUse ↔ slot.InUse := by
  rw [Slot.InUse, Slot.InUse, withFile_firstByte first size whole, withFile_attr first size whole]

theorem Slot.withFile_isDirectory (first size : Nat) (whole : slot.length = 32) :
    (slot.withFile first size).IsDirectory ↔ slot.IsDirectory := by
  rw [Slot.IsDirectory, Slot.IsDirectory, withFile_attr first size whole]

/-- The places of the stored fields. -/
theorem Slot.withFile_fields (first size : Nat) (whole : slot.length = 32) :
    slice (slot.withFile first size) 20 2 = leBytes 2 (first >>> 16 &&& 0xFFFF) ∧
      slice (slot.withFile first size) 26 2 = leBytes 2 (first &&& 0xFFFF) ∧
      slice (slot.withFile first size) 28 4 = leBytes 4 size := by
  have once : (overwrite slot 28 (leBytes 4 size)).length = 32 := by
    rw [length_overwrite (by rw [length_leBytes]; omega), whole]
  have twice : (overwrite (overwrite slot 28 (leBytes 4 size)) 20
      (leBytes 2 (first >>> 16 &&& 0xFFFF))).length = 32 := by
    rw [length_overwrite (by rw [length_leBytes]; omega), once]
  have low : ∀ value, (leBytes 2 value).length = 2 := fun value => length_leBytes 2 value
  have word : (leBytes 4 size).length = 4 := length_leBytes 4 size
  refine ⟨?_, ?_, ?_⟩
  · have stored := slice_overwrite_self (leBytes 2 (first >>> 16 &&& 0xFFFF))
      (show 20 ≤ (overwrite slot 28 (leBytes 4 size)).length by omega)
    rw [low] at stored
    rw [Slot.withFile, slice_overwrite_before (by omega) (by omega)]
    exact stored
  · have stored := slice_overwrite_self (leBytes 2 (first &&& 0xFFFF))
      (show 26 ≤ (overwrite (overwrite slot 28 (leBytes 4 size)) 20
        (leBytes 2 (first >>> 16 &&& 0xFFFF))).length by omega)
    rw [low] at stored
    exact stored
  · have stored := slice_overwrite_self (leBytes 4 size) (show 28 ≤ slot.length by omega)
    rw [word] at stored
    rw [Slot.withFile, slice_overwrite_after (by omega) (by rw [low]),
      slice_overwrite_after (by omega) (by rw [low]; omega)]
    exact stored

theorem Slot.withFile_firstCluster {first : Nat} (size : Nat) (whole : slot.length = 32)
    (bounded : first < 4294967296) : (slot.withFile first size).firstCluster = first := by
  obtain ⟨high, low, _⟩ := withFile_fields first size whole
  rw [Slot.firstCluster, high, low, leNat_leBytes_of_lt (lt_of_le_of_lt Nat.and_le_right (by decide)),
    leNat_leBytes_of_lt (lt_of_le_of_lt Nat.and_le_right (by decide)), halves_eq bounded]

theorem Slot.withFile_fileSize (first : Nat) {size : Nat} (whole : slot.length = 32) (bounded : size < 4294967296) :
    (slot.withFile first size).fileSize = size := by
  obtain ⟨_, _, bytes⟩ := withFile_fields first size whole
  rw [Slot.fileSize, bytes]
  exact leNat_leBytes_of_lt bounded

theorem length_of_clusterSlots (there : (clusterSlots vol cell)[index]? = some slot) : slot.length = 32 :=
  length_of_mem_chunks (List.mem_of_getElem? there)

/-- `f_sync` changes the slot of the file and no other. -/
theorem clusterSlots_sync (geometry : Geometry vol.bpb) (inRange : IsCluster vol.bpb cell)
    (here : fp.dirEntryCluster = cell) (offset : fp.dirEntryOffset = 32 * index)
    (there : (clusterSlots vol cell)[index]? = some slot) :
    clusterSlots (fSync vol fp) cell =
      overwrite (clusterSlots vol cell) index [slot.withFile fp.firstCluster fp.size] := by
  have inside := (List.getElem?_eq_some_iff.mp there).1
  rw [length_clusterSlots] at inside
  have length := length_fat32ReadCluster vol cell
  have full : (updatedEntryCluster (fat32ReadCluster vol cell) fp).length = 512 * getSectorsPerCluster vol.bpb := by
    unfold updatedEntryCluster
    dsimp only
    have once := @length_overwrite _ (fat32ReadCluster vol cell) (leBytes 4 fp.size) (fp.dirEntryOffset + 28)
      (by rw [length_leBytes]; omega)
    have twice := @length_overwrite _ (overwrite (fat32ReadCluster vol cell) (fp.dirEntryOffset + 28)
      (leBytes 4 fp.size)) (leBytes 2 (fp.firstCluster >>> 16 &&& 0xFFFF)) (fp.dirEntryOffset + 20)
      (by rw [length_leBytes]; omega)
    rw [length_overwrite (by rw [length_leBytes]; omega), twice, once, length]
  rw [clusterSlots, fSync, here, fat32ReadCluster_write_self geometry.toLayout inRange full, updatedEntryCluster, offset]
  exact chunks_edits [(28, leBytes 4 fp.size), (20, leBytes 2 (fp.firstCluster >>> 16 &&& 0xFFFF)),
    (26, leBytes 2 (fp.firstCluster &&& 0xFFFF))] (by decide) ⟨16 * getSectorsPerCluster vol.bpb, by omega⟩ there
    (by simp [length_leBytes])

end Updated

end KeblaOS.Fat32
