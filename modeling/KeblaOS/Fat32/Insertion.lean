import KeblaOS.Fat32.DirectoryCalls

/-!
# Lookups after an insertion

`Inserted` is a directory with one more entry and its long-name slots, in free slots of one of
its clusters or in a cluster of its own. The entry may be rewritten later, so it is a
parameter. `fat32_find_file` gets to the entry if it did not find the name before; what
`fat32_find_dir` found before, it still finds.
-/

namespace KeblaOS.Fat32

open KeblaOS.Buffer

/-- The long-name slots `fat32_create_dir_entry` writes in front of the short entry. -/
def longSlots (name : List UInt8) : List Slot :=
  (List.range (lfnCount name)).map fun i =>
    lfnSlot name (fat32LfnChecksum (fat32Format83Name name)) (lfnCount name) (lfnCount name - i)

@[simp] theorem length_longSlots (name : List UInt8) : (longSlots name).length = lfnCount name := by
  simp [longSlots]

/-- Directory `dir` with clusters `cells` has got an entry with a name, at slot
`index + lfnCount name` of cluster `cell`. -/
structure Inserted (vol after : Volume) (dir : Nat) (cells cells' : List Nat) (cell index : Nat)
    (name : List UInt8) (entry : Slot) : Prop where
  chain : ClusterChain after dir cells'
  shape : (cells' = cells ∧ cell ∈ cells) ∨ cells' = cells ++ [cell] ∧ cell ∉ cells
  others : ∀ other ∈ cells, other ≠ cell → clusterSlots after other = clusterSlots vol other
  written : ∃ old, clusterSlots after cell = overwrite old index (longSlots name ++ [entry]) ∧
    FreeRun old index (lfnCount name + 1) ∧ (cell ∈ cells → old = clusterSlots vol cell) ∧
    (cell ∉ cells → ∀ slot ∈ old, Slot.firstByte slot = 0)

section LongSlots

variable {name : List UInt8} {slot : Slot}

theorem lfnOrd_toNat {count order : Nat} (small : order < 32) :
    (lfnOrd count order &&& 0x1F).toNat = order ∧ lfnOrd count order ≠ deletedMark := by
  have plain : ∀ order < 32, (UInt8.ofNat order &&& 0x1F).toNat = order ∧ UInt8.ofNat order ≠ deletedMark := by
    decide
  have marked : ∀ order < 32, ((UInt8.ofNat order ||| 0x40) &&& 0x1F).toNat = order ∧
      UInt8.ofNat order ||| 0x40 ≠ deletedMark := by
    decide
  unfold lfnOrd
  split_ifs
  · exact marked order small
  · exact plain order small

/-- The slots of a long name that fits the buffer of `fat32_find_file`. -/
theorem mem_longSlots (few : lfnCount name ≤ 19) (member : slot ∈ longSlots name) :
    slot.firstByte ≠ 0 ∧ slot.firstByte ≠ deletedMark ∧ slot.attr = attrLongName ∧
      0 < slot.order ∧ slot.order ≤ 19 ∧ slot.units.length = 13 := by
  obtain ⟨i, inside, rfl⟩ := List.mem_map.mp member
  rw [List.mem_range] at inside
  obtain ⟨order, notDeleted⟩ := @lfnOrd_toNat (lfnCount name) (lfnCount name - i) (by omega)
  rw [Slot.order, lfnSlot_firstByte, order, lfnSlot_units]
  refine ⟨lfnOrd_ne_zero (by omega) (by omega), notDeleted, lfnSlot_attr, by omega, by omega, by simp⟩

end LongSlots

/-! ## Visiting the slots of one cluster -/

section Visits

variable {name shortName longName : List UInt8} {curr start : Nat} {front back : List Slot} {entry : Slot}

/-- The state of the lookup behind slots that it passed does not depend on what follows. -/
theorem findFileVisit_passes {longName' : List UInt8} (nonzero : ∀ slot ∈ front, Slot.firstByte slot ≠ 0)
    (missed : findFileVisit name shortName longName curr start (front ++ back) = .next longName') :
    ∃ passed, ∀ back', findFileVisit name shortName longName curr start (front ++ back') =
      findFileVisit name shortName passed curr (start + front.length) back' := by
  induction front generalizing start longName with
  | nil => exact ⟨longName, fun back' => rfl⟩
  | cons slot rest ih =>
      have positive := nonzero slot List.mem_cons_self
      have later : ∀ longName'', findFileVisit name shortName longName'' curr (start + 1) (rest ++ back) =
          .next longName' → ∃ passed, ∀ back', findFileVisit name shortName longName'' curr (start + 1)
            (rest ++ back') = findFileVisit name shortName passed curr (start + (slot :: rest).length) back' := by
        intro longName'' missed'
        obtain ⟨passed, same⟩ := ih (fun other member => nonzero other (List.mem_cons_of_mem _ member)) missed'
        refine ⟨passed, fun back' => ?_⟩
        rw [same, List.length_cons]
        congr 1
        omega
      simp only [List.cons_append, findFileVisit, if_neg positive] at missed ⊢
      split_ifs at missed with deleted long matched
      · simp only [if_pos deleted]
        exact later _ missed
      · simp only [if_neg deleted, if_pos long]
        cases stored : storeChars longName slot.order (slot.units.map UInt8.ofNat) with
        | none => simp [stored] at missed
        | some longName'' =>
            rw [stored] at missed
            exact later _ missed
      · simp only [if_neg deleted, if_neg long, if_neg matched]
        exact later _ missed

/-- The lookup runs through long-name slots that fit its buffer up to a matching entry. -/
theorem findFileVisit_reaches {long : List Slot}
    (fits : ∀ slot ∈ long, Slot.firstByte slot ≠ 0 ∧ Slot.firstByte slot ≠ deletedMark ∧ Slot.attr slot = attrLongName ∧
      0 < Slot.order slot ∧ Slot.order slot ≤ 19 ∧ (Slot.units slot).length = 13)
    (inUse : entry.InUse) (named : entry.name = shortName) (back : List Slot) :
    findFileVisit name shortName longName curr start (long ++ entry :: back) =
      .found ⟨entry, curr, 32 * (start + long.length)⟩ := by
  induction long generalizing start longName with
  | nil =>
      rw [List.nil_append, findFileVisit, if_neg inUse.1, if_neg inUse.2.1, if_neg inUse.2.2, if_pos (.inr named)]
      rfl
  | cons slot rest ih =>
      obtain ⟨positive, notDeleted, isLong, lower, upper, full⟩ := fits slot List.mem_cons_self
      have room : storeChars longName slot.order (slot.units.map UInt8.ofNat) =
          some (overwrite longName ((slot.order - 1) * 13) (slot.units.map UInt8.ofNat)) := by
        rw [storeChars, if_neg (by rw [← List.length_eq_zero_iff, List.length_map]; omega), if_pos]
        rw [List.length_map, longFilenameSize]
        omega
      rw [List.cons_append, findFileVisit, if_neg positive, if_neg notDeleted, if_pos isLong, room]
      dsimp only
      rw [ih fun other member => fits other (List.mem_cons_of_mem _ member), List.length_cons]
      congr 3
      omega

/-- A slot that may stand in the place of another one without a change of what
`fat32_find_dir` finds behind it. -/
def Slot.Screens (old new : Slot) : Prop :=
  old = new ∨ (old.IsFree ∨ ¬ old.IsDirectory) ∧ new.firstByte ≠ 0 ∧ ¬ new.IsDirectory

theorem findDirVisit_screened {name83 : List UInt8} {state : Unit} {old new : List Slot}
    (screened : List.Forall₂ Slot.Screens old new) :
    (∀ result, findDirVisit name83 state curr old = .found result →
      findDirVisit name83 state curr new = .found result) ∧
    ∀ next, findDirVisit name83 state curr old = .next next → findDirVisit name83 state curr new = .next next := by
  induction screened with
  | nil => exact ⟨fun _ found => found, fun _ passed => passed⟩
  | @cons a b old new related _ ih =>
      rcases related with rfl | ⟨unlisted, nonzero, plain⟩
      · simp only [findDirVisit]
        split_ifs
        · exact ⟨fun _ found => found, fun _ passed => passed⟩
        · exact ih
        · exact ⟨fun _ found => found, fun _ passed => passed⟩
        · exact ih
      · have skipped : findDirVisit name83 state curr (b :: new) = findDirVisit name83 state curr new := by
          rw [findDirVisit, if_neg nonzero, if_neg (fun matched => plain matched.1 :
            ¬ (b.attr &&& attrDirectory ≠ 0 ∧ b.name = name83)), ite_self]
        rw [skipped, findDirVisit]
        split_ifs with zero deleted matched
        · exact ⟨fun _ => False.elim, fun _ => False.elim⟩
        · exact ih
        · rcases unlisted with free | file
          · exact absurd free (by rintro (isZero | isDeleted) <;> contradiction)
          · exact absurd matched.1 file
        · exact ih

end Visits

/-! ## Scanning the clusters -/

section Scans

variable {State Result : Type} {visit : State → Nat → List Slot → Scan State Result} {vol after : Volume}
  {state : State} {front back : List Nat}

/-- The same for clusters that were passed. -/
theorem scanCells_passes (noStop : ∀ state cell, visit state cell (clusterSlots vol cell) ≠ .stop)
    (missing : scanCells visit vol state (front ++ back) = some none) :
    ∃ passed, scanCells visit vol passed back = some none ∧
      ∀ after back', (∀ cell ∈ front, clusterSlots after cell = clusterSlots vol cell) →
        scanCells visit after state (front ++ back') = scanCells visit after passed back' := by
  induction front generalizing state with
  | nil => exact ⟨state, missing, fun after back' _ => rfl⟩
  | cons head tail ih =>
      rw [List.cons_append, scanCells] at missing
      cases outcome : visit state head (clusterSlots vol head) with
      | found result => simp [outcome] at missing
      | stop => exact absurd outcome (noStop state head)
      | fault => simp [outcome] at missing
      | next state' =>
          rw [outcome] at missing
          obtain ⟨passed, missing', same⟩ := ih missing
          refine ⟨passed, missing', fun after back' unchanged => ?_⟩
          rw [List.cons_append, scanCells, unchanged head List.mem_cons_self, outcome]
          exact same after back' fun cell member => unchanged cell (List.mem_cons_of_mem _ member)

/-- A result is found again if the visits of all clusters find what they found and pass where
they passed. -/
theorem scanCells_found_of_visits {cells : List Nat} {result : Result} (more : List Nat)
    (found : ∀ state, ∀ cell ∈ cells, ∀ result, visit state cell (clusterSlots vol cell) = .found result →
      visit state cell (clusterSlots after cell) = .found result)
    (passed : ∀ state, ∀ cell ∈ cells, ∀ next, visit state cell (clusterSlots vol cell) = .next next →
      visit state cell (clusterSlots after cell) = .next next)
    (scanned : scanCells visit vol state cells = some (some result)) :
    scanCells visit after state (cells ++ more) = some (some result) := by
  induction cells generalizing state with
  | nil => simp [scanCells] at scanned
  | cons head tail ih =>
      rw [scanCells] at scanned
      rw [List.cons_append, scanCells]
      cases outcome : visit state head (clusterSlots vol head) with
      | found other =>
          rw [outcome] at scanned
          rw [found state head List.mem_cons_self other outcome]
          exact scanned
      | stop => simp [outcome] at scanned
      | fault => simp [outcome] at scanned
      | next state' =>
          rw [outcome] at scanned
          rw [passed state head List.mem_cons_self state' outcome]
          exact ih (fun state cell member => found state cell (List.mem_cons_of_mem _ member))
            (fun state cell member => passed state cell (List.mem_cons_of_mem _ member)) scanned

/-- A scan of clusters that are the same. -/
theorem scanCells_congr {cells : List Nat}
    (same : ∀ cell ∈ cells, clusterSlots after cell = clusterSlots vol cell) :
    scanCells visit after state cells = scanCells visit vol state cells := by
  induction cells generalizing state with
  | nil => rfl
  | cons head tail ih =>
      rw [scanCells, scanCells, same head List.mem_cons_self]
      cases visit state head (clusterSlots vol head) with
      | found result => rfl
      | stop => rfl
      | fault => rfl
      | next state' => exact ih fun cell member => same cell (List.mem_cons_of_mem _ member)

end Scans

/-! ## The lookups -/

/-- The run of free slots starts in front of every slot that was never used. -/
theorem FreeRun.front_nonzero {slots : List Slot} {start needed : Nat} (run : FreeRun slots start needed)
    (zeros : ZerosLastIn slots) : ∀ slot ∈ slots.take start, Slot.firstByte slot ≠ 0 := by
  intro slot member zero
  obtain ⟨i, there⟩ := List.mem_iff_getElem?.mp member
  have before : i < start := by
    have inside := (List.getElem?_eq_some_iff.mp there).1
    rw [List.length_take] at inside
    omega
  rw [List.getElem?_take_of_lt before] at there
  obtain ⟨j, other, otherThere, lower, _, used⟩ := run.least i before
  exact used (zeros i j slot other there zero lower otherThere)

theorem zerosLastIn_of_zero {slots : List Slot} (zero : ∀ slot ∈ slots, Slot.firstByte slot = 0) :
    ZerosLastIn slots :=
  fun _ _ _ second _ _ _ there => .inl (zero second (List.mem_of_getElem? there))

/-- A lookup that passed the slots before an entry was written to them gets to the entry now. -/
theorem findFileVisit_written {name longName longName' : List UInt8} {curr index : Nat} {old : List Slot}
    {entry : Slot} (few : lfnCount name ≤ 19) (inUse : entry.InUse) (named : entry.name = fat32Format83Name name)
    (run : FreeRun old index (lfnCount name + 1)) (zeros : ZerosLastIn old)
    (missed : findFileVisit name (fat32Format83Name name) longName curr 0 old = .next longName') :
    findFileVisit name (fat32Format83Name name) longName curr 0 (overwrite old index (longSlots name ++ [entry])) =
      .found ⟨entry, curr, 32 * (index + lfnCount name)⟩ := by
  have inside := run.inside
  have length : (old.take index).length = index := by
    rw [List.length_take]
    omega
  rw [← List.take_append_drop index old] at missed
  obtain ⟨passed, same⟩ := findFileVisit_passes (run.front_nonzero zeros) missed
  rw [overwrite, List.append_assoc, same, length, List.append_assoc, List.singleton_append,
    findFileVisit_reaches (fun slot member => mem_longSlots few member) inUse named, length_longSlots, Nat.zero_add]

namespace Inserted

variable {vol after last : Volume} {dir cell index : Nat} {cells cells' : List Nat} {name : List UInt8} {entry : Slot}

/-- An entry that was just created. -/
theorem of_created {attr : UInt8} {first size : Nat}
    (created : Created vol after dir cells cells' cell index (entrySlots name attr first size))
    (chain : ClusterChain vol dir cells) :
    Inserted vol after dir cells cells' cell index name (newEntry name attr first size) := by
  refine ⟨created.chain, ?_, fun other inside different => ?_, ?_⟩
  · obtain ⟨tail, rfl⟩ := created.kept
    have nodup := created.chain.nodup
    rw [List.nodup_append] at nodup
    have single : ∀ other ∈ tail, other = cell := fun other inside =>
      (created.only other (List.mem_append_right _ inside)).resolve_left fun early =>
        nodup.2.2 other early other inside rfl
    match tail with
    | [] => exact .inl ⟨List.append_nil _, by simpa using created.member⟩
    | [other] =>
        obtain rfl := single other List.mem_cons_self
        exact .inr ⟨rfl, fun early => nodup.2.2 other early other List.mem_cons_self rfl⟩
    | other :: other' :: _ =>
        obtain rfl := single other List.mem_cons_self
        obtain rfl := single other' (by simp)
        exact absurd nodup.2.1 (by simp)
  · exact clusterSlots_congr created.same (chain.isCluster other inside) different
  · obtain ⟨old, slots, run, inside, outside⟩ := created.written
    rw [length_entrySlots] at run
    refine ⟨old, slots, run, inside, fun fresh slot member => ?_⟩
    rw [outside fresh] at member
    rw [List.eq_of_mem_replicate member]
    decide

/-- A change elsewhere does not matter. -/
theorem of_outside {entries data : Set Nat} (inserted : Inserted vol after dir cells cells' cell index name entry)
    (same : after.SameExcept last entries data) (outside : ∀ other ∈ cells', other ∉ entries ∧ other ∉ data) :
    Inserted vol last dir cells cells' cell index name entry := by
  have slots : ∀ other ∈ cells', clusterSlots last other = clusterSlots after other := fun other inside =>
    clusterSlots_congr same (inserted.chain.isCluster other inside) (outside other inside).2
  have member : cell ∈ cells' := by
    rcases inserted.shape with ⟨rfl, inside⟩ | ⟨rfl, _⟩
    · exact inside
    · simp
  have kept : ∀ other ∈ cells, other ∈ cells' := by
    rcases inserted.shape with ⟨rfl, _⟩ | ⟨rfl, _⟩
    · exact fun _ inside => inside
    · exact fun _ inside => List.mem_append_left _ inside
  refine ⟨inserted.chain.congr same fun other inside => (outside other inside).1, inserted.shape,
    fun other inside different => ?_, ?_⟩
  · rw [slots other (kept other inside), inserted.others other inside different]
  · rw [slots cell member]
    exact inserted.written

/-- `fat32_find_file` did not find the name before and finds the entry now. -/
theorem findFile (inserted : Inserted vol after dir cells cells' cell index name entry)
    (geometry : Geometry vol.bpb) (geometry' : Geometry after.bpb) (chain : ClusterChain vol dir cells)
    (zeros : ∀ cell ∈ cells, ZerosLast vol cell) (missing : fat32FindFile vol dir name = some none)
    (few : lfnCount name ≤ 19) (inUse : entry.InUse) (named : entry.name = fat32Format83Name name) :
    fat32FindFile after dir name = some (some ⟨entry, cell, 32 * (index + lfnCount name)⟩) := by
  unfold fat32FindFile at missing ⊢
  rw [scanChain_eq emptyLongName geometry chain] at missing
  rw [scanChain_eq emptyLongName geometry' inserted.chain]
  have noStop : ∀ (longName : List UInt8) (other : Nat), findFileVisit name (fat32Format83Name name) longName other 0
      (clusterSlots vol other) ≠ .stop := fun _ _ => findFileVisit_ne_stop _ _ _ _ _ _
  obtain ⟨old, slots, run, before, fresh⟩ := inserted.written
  rcases inserted.shape with ⟨rfl, member⟩ | ⟨rfl, outside⟩
  · obtain rfl := before member
    obtain ⟨front, back, rfl⟩ := List.append_of_mem member
    have apart : ∀ other ∈ front, other ≠ cell := by
      have nodup := chain.nodup
      rw [List.nodup_append] at nodup
      exact fun other early => nodup.2.2 other early cell List.mem_cons_self
    obtain ⟨passed, missing', same⟩ := scanCells_passes noStop missing
    rw [same after _ fun other early => inserted.others other (List.mem_append_left _ early) (apart other early),
      scanCells, slots]
    rw [scanCells] at missing'
    cases outcome : findFileVisit name (fat32Format83Name name) passed cell 0 (clusterSlots vol cell) with
    | found result => simp [outcome] at missing'
    | stop => exact absurd outcome (noStop passed cell)
    | fault => simp [outcome] at missing'
    | next longName => rw [findFileVisit_written few inUse named run (zeros cell member) outcome]
  · rw [← List.append_nil cells] at missing
    obtain ⟨passed, _, same⟩ := scanCells_passes noStop missing
    have untouched : ∀ other ∈ cells, clusterSlots after other = clusterSlots vol other := fun other early =>
      inserted.others other early fun equal => outside (equal ▸ early)
    have clear := zerosLastIn_of_zero (fresh outside)
    have missed : findFileVisit name (fat32Format83Name name) passed cell 0 old = .next passed := by
      cases old with
      | nil => rfl
      | cons slot rest => rw [findFileVisit, if_pos (fresh outside slot List.mem_cons_self)]
    rw [same after _ untouched, scanCells, slots, findFileVisit_written few inUse named run clear missed]

/-- The slots of the cluster that got the entry can stand for what they were before. -/
theorem screens (inserted : Inserted vol after dir cells cells' cell index name entry) (few : lfnCount name ≤ 19)
    (inUse : entry.InUse) (plain : ¬ entry.IsDirectory) {other : Nat} (member : other ∈ cells) :
    List.Forall₂ Slot.Screens (clusterSlots vol other) (clusterSlots after other) := by
  by_cases here : other = cell
  · subst here
    obtain ⟨old, slots, run, before, _⟩ := inserted.written
    obtain rfl := before member
    have length : (longSlots name ++ [entry]).length = lfnCount name + 1 := by simp
    have inside := run.inside
    rw [slots]
    refine forall₂_overwrite (fun _ => .inl rfl) (by omega) fun i before now lower there written => ?_
    have upper := (List.getElem?_eq_some_iff.mp written).1
    right
    refine ⟨.inl (run.free i before there lower (by omega)), ?_⟩
    rcases List.mem_append.mp (List.mem_of_getElem? written) with long | last
    · obtain ⟨nonzero, _, isLong, _⟩ := mem_longSlots few long
      refine ⟨nonzero, ?_⟩
      rw [Slot.IsDirectory, isLong]
      decide
    · rw [List.mem_singleton.mp last]
      exact ⟨inUse.1, plain⟩
  · rw [inserted.others other member here]
    exact List.forall₂_same.mpr fun _ _ => .inl rfl

/-- What `fat32_find_dir` found before, it finds now. -/
theorem findDir {result : Nat} {token : List UInt8}
    (inserted : Inserted vol after dir cells cells' cell index name entry) (geometry : Geometry vol.bpb)
    (bpb : after.bpb = vol.bpb) (chain : ClusterChain vol dir cells) (few : lfnCount name ≤ 19) (inUse : entry.InUse)
    (plain : ¬ entry.IsDirectory) (found : fat32FindDir vol dir token = some (some result)) :
    fat32FindDir after dir token = some (some result) := by
  unfold fat32FindDir at found ⊢
  rw [bpb]
  split_ifs at found ⊢ with invalid
  · simp at found
  · rw [scanChain_eq () geometry chain] at found
    rw [scanChain_eq () (by rwa [bpb]) inserted.chain]
    obtain ⟨more, rfl⟩ : ∃ more, cells' = cells ++ more := by
      rcases inserted.shape with ⟨rfl, _⟩ | ⟨rfl, _⟩
      · exact ⟨[], (List.append_nil _).symm⟩
      · exact ⟨[cell], rfl⟩
    exact scanCells_found_of_visits more
      (fun state other member result => (findDirVisit_screened (inserted.screens few inUse plain member)).1 result)
      (fun state other member next => (findDirVisit_screened (inserted.screens few inUse plain member)).2 next) found

/-- The entry is synchronised with a handle on it. -/
theorem sync {fp : Fat32File} (inserted : Inserted vol after dir cells cells' cell index name entry)
    (geometry : Geometry after.bpb) (located : fp.At (cell, index + lfnCount name)) :
    Inserted vol (fSync after fp) dir cells cells' cell index name (entry.withFile fp.firstCluster fp.size) := by
  obtain ⟨old, slots, run, before, fresh⟩ := inserted.written
  have inRange : IsCluster after.bpb cell := by
    rcases inserted.shape with ⟨rfl, member⟩ | ⟨rfl, _⟩
    · exact inserted.chain.isCluster cell member
    · exact inserted.chain.isCluster cell (by simp)
  have same : after.SameExcept (fSync after fp) ∅ {cell} := by
    rw [fSync, located.1]
    exact sameExcept_writeCluster _ geometry inRange
  have inside := run.inside
  have there : (clusterSlots after cell)[index + lfnCount name]? = some entry := by
    rw [slots, getElem?_overwrite (by simpa using inside), if_pos (by simp)]
    simp
  refine ⟨inserted.chain.congr same fun _ _ => Set.notMem_empty _, inserted.shape, fun other member different => ?_,
    old, ?_, run, before, fresh⟩
  · have otherInRange : IsCluster after.bpb other := by
      rcases inserted.shape with ⟨rfl, _⟩ | ⟨rfl, _⟩
      · exact inserted.chain.isCluster other member
      · exact inserted.chain.isCluster other (List.mem_append_left _ member)
    rw [clusterSlots_congr same otherInRange different, inserted.others other member different]
  · rw [clusterSlots_sync geometry inRange located.1 located.2 there, slots]
    have again := @overwrite_overwrite_last _ old (longSlots name) index entry
      (entry.withFile fp.firstCluster fp.size) (by omega)
    rwa [length_longSlots] at again

end Inserted

end KeblaOS.Fat32
