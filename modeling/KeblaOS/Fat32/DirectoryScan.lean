import KeblaOS.Fat32.Directory

/-!
# What the lookups find

Along a cluster chain the common loop of the lookups is a loop over the list of its cells
(`scanCells`). Slots are named by their cluster and their number in it; `LiveAt` is a slot
that holds an entry. The lemmas say for each lookup what an answer means in terms of live
slots, and nothing about the order in which the slots are visited.
-/

namespace KeblaOS.Fat32

open KeblaOS.Buffer

/-! ## Scanning a chain -/

section Scan

variable {State Result : Type} {visit : State → Nat → List Slot → Scan State Result} {vol : Volume}

/-- The slots of a cluster of the volume. -/
def clusterSlots (vol : Volume) (cluster : Nat) : List Slot := slotsOf (fat32ReadCluster vol cluster)

/-- The loop of a lookup over a list of clusters. -/
def scanCells (visit : State → Nat → List Slot → Scan State Result) (vol : Volume) :
    State → List Nat → Option (Option Result)
  | _, [] => some none
  | state, cell :: rest =>
      match visit state cell (clusterSlots vol cell) with
      | .found result => some (some result)
      | .stop => some none
      | .fault => none
      | .next state => scanCells visit vol state rest

theorem scanChain_eq_scanCells {start fuel : Nat} {cells : List Nat} (state : State) (geometry : Geometry vol.bpb)
    (chain : ClusterChain vol start cells) (enough : cells.length < fuel) :
    scanChain visit vol fuel state start = scanCells visit vol state cells := by
  induction cells generalizing fuel start state with
  | nil => exact absurd rfl chain.linked.ne_nil
  | cons head tail ih =>
      obtain ⟨fuel, rfl⟩ := Nat.exists_eq_succ_of_ne_zero (Nat.ne_of_gt (Nat.zero_lt_of_lt enough))
      obtain ⟨_, shape⟩ := chain.linked.eq_cons
      obtain rfl : head = start := (List.cons.inj shape).1
      rw [Nat.succ_eq_add_one, scanChain,
        if_pos (geometry.fatArea.isValidCluster_of_isCluster chain.start_isCluster), scanCells, clusterSlots]
      cases visit state head (slotsOf (fat32ReadCluster vol head)) with
      | found result => rfl
      | stop => rfl
      | fault => rfl
      | next state =>
          dsimp only
          by_cases last : tail = []
          · subst last
            rw [if_pos chain.linked.stop_of_singleton.2]
            rfl
          · obtain ⟨_, continues, linked⟩ := chain.linked.tail_of_ne_nil last
            rw [if_neg continues]
            exact ih state ⟨linked, fun cell member => chain.isCluster cell (List.mem_cons_of_mem _ member)⟩
              (Nat.lt_of_succ_lt_succ enough)

/-- The fuel of the lookups is enough for every chain. -/
theorem scanChain_eq {start : Nat} {cells : List Nat} (state : State) (geometry : Geometry vol.bpb)
    (chain : ClusterChain vol start cells) :
    scanChain visit vol (chainFuel + 1) state start = scanCells visit vol state cells := by
  have numbers := geometry.clusterNumbers
  have short := chain.length_le
  exact scanChain_eq_scanCells state geometry chain (by simp only [chainFuel]; omega)

/-- A result comes from the visit of one of the cells, when all cells in front of it were passed. -/
theorem scanCells_found_first {state : State} {cells : List Nat} {result : Result}
    (found : scanCells visit vol state cells = some (some result)) :
    ∃ front cell back, cells = front ++ cell :: back ∧
      (∀ other ∈ front, ∃ before after, visit before other (clusterSlots vol other) = .next after) ∧
      ∃ state', visit state' cell (clusterSlots vol cell) = .found result := by
  induction cells generalizing state with
  | nil => simp [scanCells] at found
  | cons head tail ih =>
      rw [scanCells] at found
      cases outcome : visit state head (clusterSlots vol head) with
      | found other =>
          rw [outcome] at found
          obtain rfl : other = result := by simpa using found
          exact ⟨[], head, tail, rfl, by simp, state, outcome⟩
      | stop => simp [outcome] at found
      | fault => simp [outcome] at found
      | next state' =>
          rw [outcome] at found
          obtain ⟨front, cell, back, rfl, passed, visited⟩ := ih found
          refine ⟨head :: front, cell, back, rfl, fun other member => ?_, visited⟩
          rcases List.mem_cons.mp member with rfl | later
          · exact ⟨state, state', outcome⟩
          · exact passed other later

theorem scanCells_found {state : State} {cells : List Nat} {result : Result}
    (found : scanCells visit vol state cells = some (some result)) :
    ∃ cell ∈ cells, ∃ state', visit state' cell (clusterSlots vol cell) = .found result := by
  obtain ⟨front, cell, back, rfl, _, visited⟩ := scanCells_found_first found
  exact ⟨cell, by simp, visited⟩

/-- Without a result every cell was visited, up to the first one that stopped the scan. -/
theorem scanCells_none {state : State} {cells : List Nat} (missing : scanCells visit vol state cells = some none) :
    ∃ front back, cells = front ++ back ∧
      (∀ cell ∈ front, ∃ before after, visit before cell (clusterSlots vol cell) = .next after) ∧
      (back = [] ∨ ∃ cell rest before, back = cell :: rest ∧
        visit before cell (clusterSlots vol cell) = .stop) := by
  induction cells generalizing state with
  | nil => exact ⟨[], [], rfl, by simp, .inl rfl⟩
  | cons head tail ih =>
      rw [scanCells] at missing
      cases outcome : visit state head (clusterSlots vol head) with
      | found result => simp [outcome] at missing
      | stop => exact ⟨[], head :: tail, rfl, by simp, .inr ⟨head, tail, state, rfl, outcome⟩⟩
      | fault => simp [outcome] at missing
      | next state' =>
          rw [outcome] at missing
          obtain ⟨front, back, split, visited, stopped⟩ := ih missing
          refine ⟨head :: front, back, by rw [split, List.cons_append], fun cell member => ?_, stopped⟩
          rcases List.mem_cons.mp member with rfl | later
          · exact ⟨state, state', outcome⟩
          · exact visited cell later

/-- A scan whose visits never go wrong has an answer. -/
theorem scanCells_isSome {state : State} {cells : List Nat}
    (safe : ∀ state, ∀ cell ∈ cells, visit state cell (clusterSlots vol cell) ≠ .fault) :
    ∃ answer, scanCells visit vol state cells = some answer := by
  induction cells generalizing state with
  | nil => exact ⟨none, rfl⟩
  | cons head tail ih =>
      rw [scanCells]
      cases outcome : visit state head (clusterSlots vol head) with
      | found result => exact ⟨some result, rfl⟩
      | stop => exact ⟨none, rfl⟩
      | fault => exact absurd outcome (safe state head List.mem_cons_self)
      | next state' => exact ih fun state cell member => safe state cell (List.mem_cons_of_mem _ member)

end Scan

/-! ## Live slots -/

/-- The slot is neither free nor deleted nor part of a long name. -/
def Slot.InUse (slot : Slot) : Prop :=
  slot.firstByte ≠ 0 ∧ slot.firstByte ≠ deletedMark ∧ slot.attr ≠ attrLongName

instance (slot : Slot) : Decidable slot.InUse := inferInstanceAs (Decidable (_ ∧ _))

/-- The slot was never used or is deleted. -/
def Slot.IsFree (slot : Slot) : Prop := slot.firstByte = 0 ∨ slot.firstByte = deletedMark

instance (slot : Slot) : Decidable slot.IsFree := inferInstanceAs (Decidable (_ ∨ _))

/-- The slot is the entry of a directory. -/
def Slot.IsDirectory (slot : Slot) : Prop := slot.attr &&& attrDirectory ≠ 0

instance (slot : Slot) : Decidable slot.IsDirectory := inferInstanceAs (Decidable (_ ≠ _))

/-- Slot `index` of a cluster holds an entry. -/
def LiveAt (vol : Volume) (cluster index : Nat) (slot : Slot) : Prop :=
  (clusterSlots vol cluster)[index]? = some slot ∧ slot.InUse

/-- Behind a slot that was never used all slots are free. -/
def ZerosLastIn (slots : List Slot) : Prop :=
  ∀ (i j : Nat) (first second : Slot), slots[i]? = some first → first.firstByte = 0 →
    i ≤ j → slots[j]? = some second → second.IsFree

/-- In a cluster no slot in use follows one that was never used. -/
def ZerosLast (vol : Volume) (cluster : Nat) : Prop := ZerosLastIn (clusterSlots vol cluster)

theorem Slot.InUse.not_isFree {slot : Slot} (inUse : slot.InUse) : ¬ slot.IsFree := by
  rintro (zero | deleted)
  · exact inUse.1 zero
  · exact inUse.2.1 deleted

theorem Slot.IsDirectory.attr_ne {slot : Slot} (directory : slot.IsDirectory) : slot.attr ≠ attrLongName := by
  intro long
  rw [Slot.IsDirectory, long] at directory
  exact directory (by decide)

section Lookups

variable {vol : Volume} {dirCluster cluster : Nat} {cells : List Nat} {name : List UInt8}

/-! ### `fat32_find_dir` -/

theorem findDirVisit_ne_fault (name83 : List UInt8) (state : Unit) (curr : Nat) (slots : List Slot) :
    findDirVisit name83 state curr slots ≠ .fault := by
  induction slots with
  | nil => simp [findDirVisit]
  | cons slot rest ih =>
      rw [findDirVisit]
      split_ifs <;> simp [ih]

theorem findDirVisit_found {name83 : List UInt8} {state : Unit} {curr result : Nat} {slots : List Slot}
    (found : findDirVisit name83 state curr slots = .found result) :
    ∃ (index : Nat) (slot : Slot), slots[index]? = some slot ∧ slot.InUse ∧ slot.IsDirectory ∧
      slot.name = name83 ∧ slot.firstCluster = result := by
  induction slots with
  | nil => simp [findDirVisit] at found
  | cons slot rest ih =>
      rw [findDirVisit] at found
      split_ifs at found with zero deleted matched
      · obtain ⟨index, other, there, facts⟩ := ih found
        exact ⟨index + 1, other, by simpa using there, facts⟩
      · obtain rfl : slot.firstCluster = result := by simpa using found
        have directory : slot.IsDirectory := matched.1
        exact ⟨0, slot, rfl, ⟨zero, deleted, directory.attr_ne⟩, directory, matched.2, rfl⟩
      · obtain ⟨index, other, there, facts⟩ := ih found
        exact ⟨index + 1, other, by simpa using there, facts⟩

/-- `fat32_find_dir` comes back from every chain. -/
theorem fat32FindDir_isSome (name : List UInt8) (geometry : Geometry vol.bpb)
    (chain : ClusterChain vol dirCluster cells) : ∃ answer, fat32FindDir vol dirCluster name = some answer := by
  unfold fat32FindDir
  split_ifs
  · exact ⟨none, rfl⟩
  · rw [scanChain_eq () geometry chain]
    exact scanCells_isSome fun state cell _ => findDirVisit_ne_fault _ _ _ _

/-- What it finds is a live directory entry with the 8.3 form of the name. -/
theorem fat32FindDir_found {result : Nat} (geometry : Geometry vol.bpb)
    (chain : ClusterChain vol dirCluster cells)
    (found : fat32FindDir vol dirCluster name = some (some result)) :
    ∃ cell ∈ cells, ∃ index slot, LiveAt vol cell index slot ∧ slot.IsDirectory ∧
      slot.name = fat32Format83Name name ∧ slot.firstCluster = result := by
  unfold fat32FindDir at found
  split_ifs at found
  · simp at found
  · rw [scanChain_eq () geometry chain] at found
    obtain ⟨cell, member, state, visited⟩ := scanCells_found found
    obtain ⟨index, slot, there, inUse, facts⟩ := findDirVisit_found visited
    exact ⟨cell, member, index, slot, ⟨there, inUse⟩, facts⟩

/-! ### `fat32_find_file` -/

theorem findFileVisit_found {shortName longName : List UInt8} {curr start : Nat} {slots : List Slot}
    {result : FoundEntry} (found : findFileVisit name shortName longName curr start slots = .found result) :
    result.entryCluster = curr ∧ ∃ index, result.entryOffset = 32 * (start + index) ∧
      slots[index]? = some result.entry ∧ result.entry.InUse := by
  induction slots generalizing start longName with
  | nil => simp [findFileVisit] at found
  | cons slot rest ih =>
      have later : ∀ longName', findFileVisit name shortName longName' curr (start + 1) rest = .found result →
          result.entryCluster = curr ∧ ∃ index, result.entryOffset = 32 * (start + index) ∧
            (slot :: rest)[index]? = some result.entry ∧ result.entry.InUse := by
        intro longName' found'
        obtain ⟨here, index, offset, there, inUse⟩ := ih found'
        exact ⟨here, index + 1, by rw [offset]; omega, by simpa using there, inUse⟩
      rw [findFileVisit] at found
      split_ifs at found with zero deleted long matched
      · exact later longName found
      · cases stored : storeChars longName slot.order (slot.units.map UInt8.ofNat) with
        | none => simp [stored] at found
        | some longName' =>
            rw [stored] at found
            exact later longName' found
      · obtain rfl : ⟨slot, curr, 32 * start⟩ = result := by simpa using found
        exact ⟨rfl, 0, rfl, rfl, zero, deleted, long⟩
      · exact later emptyLongName found

/-- A cluster left without a result has no live slot with the 8.3 form of the name in front
of its first `0x00` slot. -/
theorem findFileVisit_next {shortName longName longName' : List UInt8} {curr start : Nat} {slots : List Slot}
    (missed : findFileVisit name shortName longName curr start slots = .next longName')
    {index : Nat} {slot : Slot} (there : slots[index]? = some slot) (inUse : slot.InUse)
    (before : ∀ (i : Nat) (other : Slot), i ≤ index → slots[i]? = some other → other.firstByte ≠ 0) :
    slot.name ≠ shortName := by
  induction slots generalizing start longName index with
  | nil => simp at there
  | cons head rest ih =>
      have positive : head.firstByte ≠ 0 := before 0 head (Nat.zero_le _) rfl
      rw [findFileVisit, if_neg positive] at missed
      have later : ∀ longName'' next, findFileVisit name shortName longName'' curr next rest = .next longName' →
          ∀ i, index = i + 1 → slot.name ≠ shortName := by
        rintro longName'' next missed' i rfl
        refine ih missed' (by simpa using there) fun j other small otherThere => ?_
        exact before (j + 1) other (by omega) (by simpa using otherThere)
      cases index with
      | zero =>
          obtain rfl : head = slot := by simpa using there
          rw [if_neg inUse.2.1, if_neg inUse.2.2] at missed
          split_ifs at missed with matched
          exact fun same => matched (.inr same)
      | succ index =>
          split_ifs at missed with deleted long matched
          · exact later _ _ missed index rfl
          · cases stored : storeChars longName head.order (head.units.map UInt8.ofNat) with
            | none => simp [stored] at missed
            | some longName'' =>
                rw [stored] at missed
                exact later _ _ missed index rfl
          · exact later _ _ missed index rfl

theorem findFileVisit_ne_stop (name shortName longName : List UInt8) (curr start : Nat) (slots : List Slot) :
    findFileVisit name shortName longName curr start slots ≠ .stop := by
  induction slots generalizing start longName with
  | nil => simp [findFileVisit]
  | cons slot rest ih =>
      rw [findFileVisit]
      split_ifs with zero deleted long matched
      · simp
      · exact ih _ _
      · cases storeChars longName slot.order (slot.units.map UInt8.ofNat) with
        | none => simp
        | some longName' => exact ih _ _
      · simp
      · exact ih _ _

/-- What `fat32_find_file` finds is a live entry of the directory. -/
theorem fat32FindFile_found {result : FoundEntry} (geometry : Geometry vol.bpb)
    (chain : ClusterChain vol dirCluster cells)
    (found : fat32FindFile vol dirCluster name = some (some result)) :
    ∃ cell ∈ cells, ∃ index, result.entryCluster = cell ∧ result.entryOffset = 32 * index ∧
      LiveAt vol cell index result.entry := by
  unfold fat32FindFile at found
  rw [scanChain_eq emptyLongName geometry chain] at found
  obtain ⟨cell, member, longName, visited⟩ := scanCells_found found
  obtain ⟨here, index, offset, there, inUse⟩ := findFileVisit_found visited
  exact ⟨cell, member, index, here, by rw [offset, Nat.zero_add], there, inUse⟩

/-- What it does not find has no live entry with the 8.3 form of the name. -/
theorem fat32FindFile_none (geometry : Geometry vol.bpb) (chain : ClusterChain vol dirCluster cells)
    (zeros : ∀ cell ∈ cells, ZerosLast vol cell)
    (missing : fat32FindFile vol dirCluster name = some none) {cell index : Nat} {slot : Slot}
    (member : cell ∈ cells) (live : LiveAt vol cell index slot) : slot.name ≠ fat32Format83Name name := by
  unfold fat32FindFile at missing
  rw [scanChain_eq emptyLongName geometry chain] at missing
  obtain ⟨front, back, rfl, visited, stopped⟩ := scanCells_none missing
  rcases stopped with rfl | ⟨stop, rest, longName, rfl, outcome⟩
  · obtain ⟨before, after, missed⟩ := visited cell (by simpa using member)
    refine findFileVisit_next missed live.1 live.2 fun i other small otherThere zero => ?_
    exact live.2.not_isFree (zeros cell member i index other slot otherThere zero small live.1)
  · exact absurd outcome (findFileVisit_ne_stop _ _ _ _ _ _)

/-! ### `fat32_dir_exists` -/

/-- No cluster of a directory in front of `cell` has a slot that was never used. Lookups that
end at the first such slot get as far as `cell`. -/
def NoGapBefore (vol : Volume) (cells : List Nat) (cell : Nat) : Prop :=
  ∀ front back, cells = front ++ cell :: back → ∀ earlier ∈ front, ∀ slot ∈ clusterSlots vol earlier,
    slot.firstByte ≠ 0

/-- A cluster left without a result has no live directory with the 8.3 form of the name in
front of its first `0x00` slot. -/
theorem dirExistsVisit_missed {shortName longName : List UInt8} {curr : Nat} {slots : List Slot}
    (missed : ∀ result, dirExistsVisit name shortName longName curr slots ≠ .found result)
    (safe : dirExistsVisit name shortName longName curr slots ≠ .fault)
    {index : Nat} {slot : Slot} (there : slots[index]? = some slot) (inUse : slot.InUse)
    (directory : slot.IsDirectory)
    (before : ∀ (i : Nat) (other : Slot), i ≤ index → slots[i]? = some other → other.firstByte ≠ 0) :
    slot.name ≠ shortName := by
  induction slots generalizing longName index with
  | nil => simp at there
  | cons head rest ih =>
      have positive : head.firstByte ≠ 0 := before 0 head (Nat.zero_le _) rfl
      rw [dirExistsVisit, if_neg positive] at missed safe
      have later : ∀ longName', (∀ result, dirExistsVisit name shortName longName' curr rest ≠ .found result) →
          dirExistsVisit name shortName longName' curr rest ≠ .fault →
          ∀ i, index = i + 1 → slot.name ≠ shortName := by
        rintro longName' missed' safe' i rfl
        refine ih missed' safe' (by simpa using there) fun j other small otherThere => ?_
        exact before (j + 1) other (by omega) (by simpa using otherThere)
      cases index with
      | zero =>
          obtain rfl : head = slot := by simpa using there
          rw [if_neg inUse.2.1, if_neg inUse.2.2] at missed
          intro same
          rw [if_pos ⟨directory, .inr same⟩] at missed
          exact missed () rfl
      | succ index =>
          split_ifs at missed safe with deleted long matched
          · exact later _ missed safe index rfl
          · cases stored : storeChars longName head.order (keptChars head) with
            | none => simp [stored] at safe
            | some longName' =>
                rw [stored] at missed safe
                exact later _ missed safe index rfl
          · exact absurd rfl (missed ())
          · exact later _ missed safe index rfl

/-- The scan stops only at a slot that was never used. -/
theorem dirExistsVisit_stop {shortName longName : List UInt8} {curr : Nat} {slots : List Slot}
    (stopped : dirExistsVisit name shortName longName curr slots = .stop) :
    ∃ slot ∈ slots, Slot.firstByte slot = 0 := by
  induction slots generalizing longName with
  | nil => simp [dirExistsVisit] at stopped
  | cons head rest ih =>
      have later : ∀ longName', dirExistsVisit name shortName longName' curr rest = .stop →
          ∃ slot ∈ head :: rest, Slot.firstByte slot = 0 := by
        intro longName' stopped'
        obtain ⟨slot, member, zero⟩ := ih stopped'
        exact ⟨slot, List.mem_cons_of_mem _ member, zero⟩
      rw [dirExistsVisit] at stopped
      split_ifs at stopped with zero deleted long matched
      · exact ⟨head, List.mem_cons_self, zero⟩
      · exact later _ stopped
      · cases stored : storeChars longName head.order (keptChars head) with
        | none => simp [stored] at stopped
        | some longName' =>
            rw [stored] at stopped
            exact later _ stopped
      · exact later _ stopped

/-- If `fat32_dir_exists` says no, there is no directory with the 8.3 form of the name among
the entries it gets to. -/
theorem fat32DirExists_false (geometry : Geometry vol.bpb) (chain : ClusterChain vol dirCluster cells)
    (zeros : ∀ cell ∈ cells, ZerosLast vol cell) (missing : fat32DirExists vol dirCluster name = some false)
    {cell index : Nat} {slot : Slot} (member : cell ∈ cells) (noGap : NoGapBefore vol cells cell)
    (live : LiveAt vol cell index slot) (directory : slot.IsDirectory) : slot.name ≠ fat32Format83Name name := by
  unfold fat32DirExists at missing
  rw [scanChain_eq emptyLongName geometry chain] at missing
  obtain ⟨answer, scanned, none⟩ := Option.map_eq_some_iff.mp missing
  obtain rfl : answer = Option.none := by simpa using none
  obtain ⟨front, back, rfl, visited, stopped⟩ := scanCells_none scanned
  have nonzero : ∀ (i : Nat) (other : Slot), i ≤ index → (clusterSlots vol cell)[i]? = some other →
      other.firstByte ≠ 0 := fun i other small otherThere zero =>
    live.2.not_isFree (zeros cell member i index other slot otherThere zero small live.1)
  have passed : ∀ longName outcome,
      dirExistsVisit name (fat32Format83Name name) longName cell (clusterSlots vol cell) = outcome →
      (∀ result, outcome ≠ .found result) → outcome ≠ .fault → slot.name ≠ fat32Format83Name name := by
    rintro longName _ rfl missed safe
    exact dirExistsVisit_missed missed safe live.1 live.2 directory nonzero
  rcases List.mem_append.mp member with early | late
  · obtain ⟨before, after, outcome⟩ := visited cell early
    exact passed before _ outcome (by simp) (by simp)
  · rcases stopped with rfl | ⟨stop, rest, longName, rfl, outcome⟩
    · simp at late
    · rcases List.mem_cons.mp late with rfl | behind
      · exact passed longName _ outcome (by simp) (by simp)
      · -- the scan ended at a cluster in front of the entry, so that cluster has a gap
        obtain ⟨gap, inside, zero⟩ := dirExistsVisit_stop outcome
        obtain ⟨between, tail, split⟩ := List.append_of_mem behind
        refine absurd zero (noGap (front ++ stop :: between) tail (by simp [split]) stop (by simp) gap inside)

end Lookups

end KeblaOS.Fat32
