import KeblaOS.Fat32.Unlinking

/-!
# Entries that enumerations get to

`f_readdir`, `fat32_find_dir` and `fat32_dir_exists` end at the first slot that was never used,
wherever it is. `fat32_create_dir_entry` leaves such slots behind: an entry that does not fit the
rest of a cluster goes to a later one. A new entry is enumerated if no cluster with such a slot
lacks the room for it.
-/

namespace KeblaOS.Fat32

open KeblaOS.Buffer

/-! ## The slots an enumeration gets to -/

/-- The slots in front of the first one that was never used. -/
def reached (slots : List PlacedSlot) : List PlacedSlot := slots.takeWhile fun item => Slot.firstByte item.2 ≠ 0

/-- A slot that `f_readdir` returns. -/
def Slot.Shown (slot : Slot) : Prop := slot.InUse ∧ slot.attr &&& attrVolumeId = 0

instance (slot : Slot) : Decidable slot.Shown := inferInstanceAs (Decidable (_ ∧ _))

/-- What repeated `f_readdir` goes through. -/
def shown (slots : List PlacedSlot) : List PlacedSlot := (reached slots).filter fun item => Slot.Shown item.2

section Reached

variable {slots front back more : List PlacedSlot} {place : Nat × Nat} {slot : Slot} {cell index : Nat}

theorem reached_cons_of_ne (used : slot.firstByte ≠ 0) : reached ((place, slot) :: slots) = (place, slot) :: reached slots :=
  List.takeWhile_cons_of_pos (by simpa using used)

theorem reached_cons_of_eq (unused : slot.firstByte = 0) : reached ((place, slot) :: slots) = [] :=
  List.takeWhile_cons_of_neg (by simpa using unused)

theorem reached_append (used : ∀ item ∈ front, Slot.firstByte item.2 ≠ 0) : reached (front ++ back) = front ++ reached back :=
  List.takeWhile_append_of_pos fun item member => by simpa using used item member

theorem shown_cons_of_eq (unused : slot.firstByte = 0) : shown ((place, slot) :: slots) = [] := by
  rw [shown, reached_cons_of_eq unused, List.filter_nil]

theorem shown_cons_of_shown (isShown : slot.Shown) : shown ((place, slot) :: slots) = (place, slot) :: shown slots := by
  rw [shown, reached_cons_of_ne isShown.1.1, List.filter_cons_of_pos (by simpa using isShown), shown]

theorem shown_cons_of_hidden (used : slot.firstByte ≠ 0) (hidden : ¬ slot.Shown) :
    shown ((place, slot) :: slots) = shown slots := by
  rw [shown, reached_cons_of_ne used, List.filter_cons_of_neg (by simpa using hidden), shown]

/-- The slot loop of `f_readdir` returns the first shown slot of the cluster, stops where a slot was
never used, or passes slots that are not shown. -/
theorem readdirVisit_spec {slots : List Slot} (more : List PlacedSlot) :
    match readdirVisit (32 * index) slots with
    | .found (slot, pos) => ∃ passed rest, slots = passed ++ slot :: rest ∧ pos = 32 * (index + passed.length + 1) ∧
        shown (placed cell index slots ++ more) =
          ((cell, index + passed.length), slot) :: shown (placed cell (index + passed.length + 1) rest ++ more)
    | .stop => shown (placed cell index slots ++ more) = []
    | .next _ => shown (placed cell index slots ++ more) = shown more
    | .fault => False := by
  induction slots generalizing index with
  | nil => rfl
  | cons head tail ih =>
      have later := @ih (index + 1)
      rw [placed, List.cons_append, readdirVisit]
      by_cases unused : head.firstByte = 0
      · rw [if_pos unused]
        exact shown_cons_of_eq unused
      rw [if_neg unused]
      by_cases isShown : head.Shown
      · rw [if_neg isShown.1.2.1, if_neg isShown.1.2.2, if_neg (not_not.mpr isShown.2)]
        exact ⟨[], tail, rfl, rfl, shown_cons_of_shown isShown⟩
      · -- every other branch goes on with the next slot
        have skipped : (if head.firstByte = deletedMark then readdirVisit (32 * index + 32) tail
            else if head.attr = attrLongName then readdirVisit (32 * index + 32) tail
            else if head.attr &&& attrVolumeId ≠ 0 then readdirVisit (32 * index + 32) tail
            else .found (head, 32 * index + 32)) = readdirVisit (32 * (index + 1)) tail := by
          split_ifs with deleted long label
          · rfl
          · rfl
          · rfl
          · exact absurd ⟨⟨unused, deleted, long⟩, not_not.mp label⟩ isShown
        rw [skipped, shown_cons_of_hidden unused isShown]
        cases outcome : readdirVisit (32 * (index + 1)) tail with
        | found result =>
            rw [outcome] at later
            obtain ⟨passed, rest, rfl, position, shape⟩ := later
            refine ⟨head :: passed, rest, rfl, ?_, ?_⟩
            · rw [position, List.length_cons]
              omega
            · rw [shape, List.length_cons, Nat.add_right_comm index 1 passed.length, Nat.add_assoc index passed.length 1]
        | stop => rwa [outcome] at later
        | next state => rwa [outcome] at later
        | fault => rwa [outcome] at later

end Reached

/-! ## Enumeration -/

section Enumeration

variable {vol : Volume} {dp : Fat32Dir} {rest : List PlacedSlot} {fuel : Nat}

/-- The slots a directory handle has in front of it. -/
def Fat32Dir.Ahead (vol : Volume) (dp : Fat32Dir) (rest : List PlacedSlot) : Prop :=
  ∃ later index, ClusterChain vol dp.currentCluster (dp.currentCluster :: later) ∧ dp.pos = 32 * index ∧
    rest = placed dp.currentCluster index ((clusterSlots vol dp.currentCluster).drop index) ++ dirSlots vol later

/-- One round of the cluster loop of `f_readdir`. -/
theorem readdirLoop_visit {later : List Nat} {index : Nat} (fuel : Nat) (geometry : Geometry vol.bpb)
    (chain : ClusterChain vol dp.currentCluster (dp.currentCluster :: later)) (position : dp.pos = 32 * index)
    (ahead : rest = placed dp.currentCluster index ((clusterSlots vol dp.currentCluster).drop index) ++ dirSlots vol later) :
    (shown rest = [] ∧ readdirLoop vol (fuel + 1) dp = some none) ∨
      (∃ item rest' dp', shown rest = item :: shown rest' ∧
        readdirLoop vol (fuel + 1) dp = some (some (direntOf item.2, dp')) ∧ dp'.Ahead vol rest') ∨
      shown rest = shown (dirSlots vol later) ∧ readdirLoop vol (fuel + 1) dp =
        readdirLoop vol fuel { dp with currentCluster := fat32GetNextCluster vol dp.currentCluster, pos := 0 } := by
  have valid := geometry.fatArea.isValidCluster_of_isCluster chain.start_isCluster
  have slot : dp.pos / 32 = index := by omega
  have visit := @readdirVisit_spec dp.currentCluster index ((clusterSlots vol dp.currentCluster).drop index)
    (dirSlots vol later)
  rw [← ahead] at visit
  rw [readdirLoop, if_pos valid, slot, position, ← clusterSlots]
  cases outcome : readdirVisit (32 * index) ((clusterSlots vol dp.currentCluster).drop index) with
  | found result =>
      obtain ⟨entry, pos⟩ := result
      rw [outcome] at visit
      obtain ⟨passed, behind, split, rfl, shape⟩ := visit
      refine .inr (.inl ⟨_, _, _, shape, rfl, later, index + passed.length + 1, chain, rfl, ?_⟩)
      have behindIt : (clusterSlots vol dp.currentCluster).drop (index + passed.length + 1) = behind := by
        rw [Nat.add_assoc, ← List.drop_drop, split, List.drop_length_add_append, List.drop_one, List.tail_cons]
      rw [behindIt]
  | stop =>
      rw [outcome] at visit
      exact .inl ⟨visit, rfl⟩
  | fault =>
      rw [outcome] at visit
      exact visit.elim
  | next state =>
      rw [outcome] at visit
      exact .inr (.inr ⟨visit, rfl⟩)

theorem readdirLoop_spec {later : List Nat} {index : Nat} (geometry : Geometry vol.bpb)
    (chain : ClusterChain vol dp.currentCluster (dp.currentCluster :: later)) (position : dp.pos = 32 * index)
    (enough : later.length + 1 < fuel)
    (ahead : rest = placed dp.currentCluster index ((clusterSlots vol dp.currentCluster).drop index) ++ dirSlots vol later) :
    (shown rest = [] ∧ readdirLoop vol fuel dp = some none) ∨
      ∃ item rest' dp', shown rest = item :: shown rest' ∧
        readdirLoop vol fuel dp = some (some (direntOf item.2, dp')) ∧ dp'.Ahead vol rest' := by
  induction later generalizing fuel dp index rest with
  | nil =>
      obtain ⟨fuel, rfl⟩ : ∃ fuel', fuel = fuel' + 2 := ⟨fuel - 2, by rw [List.length_nil] at enough; omega⟩
      rcases readdirLoop_visit (fuel + 1) geometry chain position ahead with stopped | returned | ⟨passed, same⟩
      · exact .inl stopped
      · exact .inr returned
      · refine .inl ⟨passed.trans (by rfl), ?_⟩
        rw [same, readdirLoop, if_neg (not_isValidCluster_of_end chain.linked.stop_of_singleton.2)]
  | cons next others ih =>
      obtain ⟨fuel, rfl⟩ : ∃ fuel', fuel = fuel' + 1 := ⟨fuel - 1, by omega⟩
      rcases readdirLoop_visit fuel geometry chain position ahead with stopped | returned | ⟨passed, same⟩
      · exact .inl stopped
      · exact .inr returned
      · -- the handle goes to the next cluster
        obtain ⟨_, _, linked⟩ := chain.linked.tail_of_ne_nil (List.cons_ne_nil _ _)
        obtain ⟨_, shape⟩ := linked.eq_cons
        obtain rfl := (List.cons.inj shape).1
        rw [same, passed]
        refine @ih { dp with currentCluster := fat32GetNextCluster vol dp.currentCluster, pos := 0 } _ fuel 0
          ⟨linked, fun cell member => chain.isCluster cell (List.mem_cons_of_mem _ member)⟩ rfl ?_ ?_
        · rw [List.length_cons] at enough
          omega
        · rw [dirSlots_cons, List.drop_zero]

/-- `f_readdir` returns the next shown slot, or `false` when there is none. -/
theorem fReaddir_spec (geometry : Geometry vol.bpb) (ahead : dp.Ahead vol rest) :
    (shown rest = [] ∧ fReaddir vol dp = some none) ∨
      ∃ item rest' dp', shown rest = item :: shown rest' ∧
        fReaddir vol dp = some (some (direntOf item.2, dp')) ∧ dp'.Ahead vol rest' := by
  obtain ⟨later, index, chain, position, rfl⟩ := ahead
  have numbers := geometry.clusterNumbers
  have short := chain.length_le
  rw [List.length_cons] at short
  exact readdirLoop_spec geometry chain position (by simp only [chainFuel]; omega) rfl

/-- Repeated `f_readdir` returns all shown slots. -/
theorem enumerateFrom_eq (geometry : Geometry vol.bpb) (ahead : dp.Ahead vol rest) (enough : (shown rest).length < fuel) :
    enumerateFrom vol fuel dp = some ((shown rest).map fun item => direntOf item.2) := by
  induction fuel generalizing dp rest with
  | zero => omega
  | succ fuel ih =>
      rw [enumerateFrom]
      rcases fReaddir_spec geometry ahead with ⟨nothing, ended⟩ | ⟨item, rest', dp', shape, returned, ahead'⟩
      · rw [ended, nothing]
        rfl
      · rw [shape, List.length_cons] at enough
        rw [returned, shape]
        dsimp only
        rw [ih ahead' (by omega)]
        rfl

/-- The handle `f_opendir` returns for a directory has all its slots in front of it. -/
theorem fOpendir_ahead {path : List UInt8} {cells : List Nat} (opened : fOpendir vol path = some (some dp))
    (chain : ClusterChain vol dp.firstCluster cells) : dp.Ahead vol (dirSlots vol cells) := by
  unfold fOpendir at opened
  split_ifs at opened
  all_goals
    obtain ⟨answer, _, shape⟩ := Option.map_eq_some_iff.mp opened
    obtain ⟨cluster, rfl, rfl⟩ := Option.map_eq_some_iff.mp shape
    obtain ⟨later, rfl⟩ := chain.linked.eq_cons
    exact ⟨later, 0, chain, rfl, by rw [dirSlots_cons, List.drop_zero]⟩

/-- `f_opendir` and then `f_readdir` until it returns `false` list the shown slots of the directory,
each once and in the order on the disk. -/
theorem fReaddir_lists (vol : Volume) (path : List UInt8) (dp : Fat32Dir) (cells : List Nat)
    (geometry : Geometry vol.bpb) (opened : fOpendir vol path = some (some dp))
    (chain : ClusterChain vol dp.firstCluster cells) :
    ∀ fuel, (shown (dirSlots vol cells)).length < fuel →
      enumerateFrom vol fuel dp = some ((shown (dirSlots vol cells)).map fun item => direntOf item.2) :=
  fun _ enough => enumerateFrom_eq geometry (fOpendir_ahead opened chain) enough

/-- A root directory with a deleted entry, a label, a file and a directory. -/
def mixedVolume : Volume :=
  fat32WriteCluster emptyVolume 2 (overwrite (List.replicate 512 0) 0
    ((deletedMark :: List.replicate 31 0) ++ shortSlot (fat32Format83Name [0x56]) attrVolumeId 0 0 ++
      shortSlot (fat32Format83Name [0x41]) attrArchive 0x30004 7 ++
      shortSlot (fat32Format83Name [0x42]) attrDirectory 5 0))

/-- The file and the directory are listed. -/
theorem fReaddir_lists_mixed :
    enumerateFrom mixedVolume 17 ⟨2, 2, 0⟩ =
      some [⟨[0x41], attrArchive, 7, 0x30004⟩, ⟨[0x42], attrDirectory, 0, 5⟩] := by
  have bpb : mixedVolume.bpb = emptyVolume.bpb := fat32WriteCluster_bpb _ _ _
  have chain : ClusterChain mixedVolume 2 [2] := by
    refine ⟨.last (by decide +kernel), fun cell member => ?_⟩
    rw [bpb]
    exact emptyVolume_chain.isCluster cell member
  have opened : fOpendir mixedVolume [slash] = some (some ⟨2, 2, 0⟩) := by decide +kernel
  have few : (shown (dirSlots mixedVolume [2])).length < 17 := by decide +kernel
  have listing : ((shown (dirSlots mixedVolume [2])).map fun item => direntOf item.2) =
      [⟨[0x41], attrArchive, 7, 0x30004⟩, ⟨[0x42], attrDirectory, 0, 5⟩] := by decide +kernel
  have lists := fReaddir_lists mixedVolume [slash] ⟨2, 2, 0⟩ [2] (by rw [bpb]; exact emptyVolume_geometry) opened
    chain 17 few
  rwa [listing] at lists

end Enumeration

/-! ## `fat32_find_dir` and `fat32_dir_exists` -/

/-- The slot is what `fat32_find_dir` looks for. -/
def Slot.IsNamed (name83 : List UInt8) (slot : Slot) : Prop :=
  slot.firstByte ≠ deletedMark ∧ slot.IsDirectory ∧ slot.name = name83

instance (name83 : List UInt8) (slot : Slot) : Decidable (slot.IsNamed name83) :=
  inferInstanceAs (Decidable (_ ∧ _ ∧ _))

/-- The first directory with this short name that can be reached. -/
def namedIn (name83 : List UInt8) (slots : List PlacedSlot) : Option PlacedSlot :=
  (reached slots).find? fun item => Slot.IsNamed name83 item.2

section Lookups

variable {vol : Volume} {name83 : List UInt8} {cells : List Nat} {cell index dir : Nat} {more : List PlacedSlot}

/-- The slot loop of `fat32_find_dir`. -/
theorem namedIn_placed {slots : List Slot} {curr : Nat} :
    (namedIn name83 (placed cell index slots ++ more)).map (fun item => Slot.firstCluster item.2) =
      match findDirVisit name83 () curr slots with
      | .found result => some result
      | .stop => none
      | .next _ => (namedIn name83 more).map fun item => Slot.firstCluster item.2
      | .fault => none := by
  induction slots generalizing index with
  | nil => rfl
  | cons head tail ih =>
      rw [placed, List.cons_append, findDirVisit]
      by_cases unused : head.firstByte = 0
      · rw [if_pos unused, namedIn, reached_cons_of_eq unused]
        rfl
      rw [if_neg unused, namedIn, reached_cons_of_ne unused]
      by_cases named : head.IsNamed name83
      · rw [if_neg named.1, if_pos ⟨named.2.1, named.2.2⟩, List.find?_cons_of_pos (by simpa using named)]
        rfl
      · rw [List.find?_cons_of_neg (by simpa using named), ← namedIn, ih]
        congr 1
        split_ifs with deleted matched
        · rfl
        · exact absurd ⟨deleted, matched.1, matched.2⟩ named
        · rfl

theorem scanCells_findDirVisit : scanCells (findDirVisit name83) vol () cells =
    some ((namedIn name83 (dirSlots vol cells)).map fun item => Slot.firstCluster item.2) := by
  induction cells with
  | nil => rfl
  | cons head tail ih =>
      rw [scanCells, dirSlots_cons, @namedIn_placed name83 head 0 (dirSlots vol tail) (clusterSlots vol head) head]
      cases outcome : findDirVisit name83 () head (clusterSlots vol head) with
      | found result => rfl
      | stop => rfl
      | fault => exact absurd outcome (findDirVisit_ne_fault _ _ _ _)
      | next state => exact ih

/-- `fat32_find_dir` finds the first directory with the 8.3 form of the name that can be reached. -/
theorem fat32FindDir_eq {name : List UInt8} (geometry : Geometry vol.bpb) (chain : ClusterChain vol dir cells)
    (above : getRootDirCluster vol.bpb ≤ dir) :
    fat32FindDir vol dir name =
      some ((namedIn (fat32Format83Name name) (dirSlots vol cells)).map fun item => Slot.firstCluster item.2) := by
  have upper := chain.start_isCluster.2
  have numbers := geometry.clusterNumbers
  have word : u32 (getTotalClusters vol.bpb + 2) = getTotalClusters vol.bpb + 2 := u32_of_lt (by omega)
  rw [fat32FindDir, word, if_neg (by omega), scanChain_eq () geometry chain, scanCells_findDirVisit]

/-- Long-name slots that fit the buffer of the lookups. -/
def LongSlotsFit (slots : List PlacedSlot) : Prop :=
  ∀ item ∈ slots, ¬ Slot.IsFree item.2 → Slot.attr item.2 = attrLongName →
    1 ≤ Slot.order item.2 ∧ Slot.order item.2 ≤ 19 ∧ (Slot.units item.2).length ≤ 13

theorem dirExistsVisit_ne_fault {name shortName longName : List UInt8} {curr : Nat} {slots : List Slot}
    (fit : ∀ slot ∈ slots, ¬ Slot.IsFree slot → slot.attr = attrLongName →
      1 ≤ slot.order ∧ slot.order ≤ 19 ∧ slot.units.length ≤ 13) :
    dirExistsVisit name shortName longName curr slots ≠ .fault := by
  induction slots generalizing longName with
  | nil => simp [dirExistsVisit]
  | cons head tail ih =>
      have later := fun longName => @ih longName fun slot member => fit slot (List.mem_cons_of_mem _ member)
      rw [dirExistsVisit]
      split_ifs with unused deleted long matched
      · simp
      · exact later _
      · obtain ⟨lower, upper, few⟩ := fit head List.mem_cons_self (by rintro (zero | mark) <;> contradiction) long
        have kept : (keptChars head).length ≤ 13 := by
          rw [keptChars, List.length_map]
          exact (List.length_filter_le _ _).trans few
        have stored : ∃ longName', storeChars longName head.order (keptChars head) = some longName' := by
          rw [storeChars]
          split_ifs with empty fits
          · exact ⟨_, rfl⟩
          · exact ⟨_, rfl⟩
          · rw [longFilenameSize] at fits
            omega
        obtain ⟨longName', stored⟩ := stored
        rw [stored]
        exact later longName'
      · simp
      · exact later _

/-- `fat32_dir_exists` has an answer. -/
theorem fat32DirExists_isSome {name : List UInt8} (geometry : Geometry vol.bpb) (chain : ClusterChain vol dir cells)
    (fit : LongSlotsFit (dirSlots vol cells)) : ∃ answer, fat32DirExists vol dir name = some answer := by
  obtain ⟨answer, scanned⟩ := @scanCells_isSome _ _ (dirExistsVisit name (fat32Format83Name name)) vol emptyLongName cells
    fun longName cell member => dirExistsVisit_ne_fault fun slot inside => by
      obtain ⟨index, there⟩ := List.mem_iff_getElem?.mp inside
      exact fit ((cell, index), slot) (mem_dirSlots.mpr ⟨member, there⟩)
  exact ⟨answer.isSome, by rw [fat32DirExists, scanChain_eq emptyLongName geometry chain, scanned, Option.map_some]⟩

end Lookups

/-! ## A new entry -/

/-- Every cluster with a slot that was never used has room for the entry, or an earlier one has. -/
def NoGapFor (vol : Volume) (dir needed : Nat) : Prop :=
  ∀ cells front cell back, ClusterChain vol dir cells → cells = front ++ cell :: back →
    (∃ slot ∈ clusterSlots vol cell, Slot.firstByte slot = 0) →
    ∃ first ∈ front ++ [cell], ∃ index, FreeRun (clusterSlots vol first) index needed

/-- The condition under which a new entry is found: no gap is left in front of it, it is not taken
for a deleted slot or a volume label, and as a directory it is the only one with its name. -/
structure Reachable (vol : Volume) (dir : Nat) (name : List UInt8) (attr : UInt8) : Prop where
  noGap : NoGapFor vol dir (lfnCount name + 1)
  few : lfnCount name ≤ 19
  notDeleted : NotDeletedName name
  notLabel : attr &&& attrVolumeId = 0
  directory : attr &&& attrDirectory ≠ 0 →
    getRootDirCluster vol.bpb ≤ dir ∧ fat32FindDir vol dir name = some none

/-- The new entry is enumerated by `f_opendir` and `f_readdir`, and as a directory it is found by
`fat32_find_dir` and `fat32_dir_exists`. -/
structure FoundByReaders (vol after : Volume) (dir : Nat) (name : List UInt8) (attr : UInt8) (first size : Nat)
    (place : Nat × Nat) : Prop where
  vacant : ∀ slot, ¬ EntryAt vol dir place slot
  entry : EntryAt after dir place (newEntry name attr first size)
  enumerated : ∀ path dp, fOpendir after path = some (some dp) → dp.firstCluster = dir →
    ∃ cells fuel, ClusterChain after dir cells ∧
      enumerateFrom after fuel dp = some ((shown (dirSlots after cells)).map fun item => direntOf item.2) ∧
      (place, newEntry name attr first size) ∈ shown (dirSlots after cells)
  findDir : attr &&& attrDirectory ≠ 0 → fat32FindDir after dir name = some (some first)
  dirExists : attr &&& attrDirectory ≠ 0 → fat32DirExists after dir name = some true

section NewEntry

variable {vol after : Volume} {dirs : Set Nat} {dir first size cell index : Nat} {name : List UInt8} {attr : UInt8}
  {cells cells' earlier later : List Nat}

/-- Clusters without room in front of the entry have no slot that was never used. -/
theorem NoGapFor.earlier_used {needed : Nat} (noGap : NoGapFor vol dir needed) (chain : ClusterChain vol dir cells)
    (initial : earlier <+: cells) (full : NoRoom vol earlier needed) :
    ∀ other ∈ earlier, ∀ slot ∈ clusterSlots vol other, Slot.firstByte slot ≠ 0 := by
  intro other member slot inside unused
  obtain ⟨front, back, rfl⟩ := List.append_of_mem member
  obtain ⟨rest, rfl⟩ := initial
  obtain ⟨first, among, index, run⟩ := noGap _ front other (back ++ rest) chain (by simp) ⟨slot, inside, unused⟩
  refine full first ?_ index run
  rcases List.mem_append.mp among with before | here
  · exact List.mem_append_left _ before
  · rw [List.mem_singleton.mp here]
    simp

/-- The clusters in front of the one with the new entry belonged to the directory before. -/
theorem Inserted.earlier_prefix {entry : Slot} (inserted : Inserted vol after dir cells cells' cell index name entry)
    (split : cells' = earlier ++ cell :: later) : earlier <+: cells := by
  have here : earlier <+: cells' := ⟨cell :: later, split.symm⟩
  have lengths := congrArg List.length split
  rw [List.length_append, List.length_cons] at lengths
  rcases inserted.shape with ⟨rfl, _⟩ | ⟨rfl, _⟩
  · exact here
  · rw [List.length_append, List.length_singleton] at lengths
    exact List.prefix_of_prefix_length_le here (List.prefix_append _ _) (by omega)

theorem Inserted.noGapBefore {entry : Slot} (inserted : Inserted vol after dir cells cells' cell index name entry)
    (chain : ClusterChain vol dir cells) (noGap : NoGapFor vol dir (lfnCount name + 1))
    (split : cells' = earlier ++ cell :: later) (full : NoRoom vol earlier (lfnCount name + 1)) :
    NoGapBefore after cells' cell := by
  intro front back split' other member slot inside
  have nodup := inserted.chain.nodup
  rw [split, List.nodup_append, List.nodup_cons] at nodup
  have apart : ∀ other ∈ earlier, other ≠ cell := fun other among => nodup.2.2 other among cell List.mem_cons_self
  obtain ⟨rfl, _, _⟩ := (List.append_cons_inj_of_notMem (fun repeated => apart cell repeated rfl) nodup.2.1.1).mp
    (split.symm.trans split')
  have initial := inserted.earlier_prefix split
  rw [inserted.others other (initial.subset member) (apart other member)] at inside
  exact noGap.earlier_used chain initial full other member slot inside

/-- The slots in front of a new entry that leaves no gap. -/
theorem Inserted.front_used {entry : Slot} (inserted : Inserted vol after dir cells cells' cell index name entry)
    (chain : ClusterChain vol dir cells) (zeros : ∀ other ∈ cells, ZerosLast vol other)
    (noGap : NoGapFor vol dir (lfnCount name + 1)) (split : cells' = earlier ++ cell :: later)
    (full : NoRoom vol earlier (lfnCount name + 1)) :
    ∃ front run back extra, SlotsReplaced (dirSlots vol cells) (dirSlots after cells')
        (placed cell index (longSlots name ++ [entry])) front run back extra ∧
      ∀ item ∈ front, Slot.firstByte item.2 ≠ 0 := by
  obtain ⟨old, run, back, extra, freeRun, inside, outside, replaced⟩ := inserted.slotsReplaced_behind chain split
  have zerosLast : ZerosLastIn old := by
    by_cases member : cell ∈ cells
    · rw [inside member]
      exact zeros cell member
    · exact zerosLastIn_of_zero (outside member)
  refine ⟨_, run, back, extra, replaced, ?_⟩
  rintro ⟨place, slot⟩ among
  rcases List.mem_append.mp among with before | here
  · obtain ⟨member, there⟩ := mem_dirSlots.mp before
    exact noGap.earlier_used chain (inserted.earlier_prefix split) full place.1 member slot (List.mem_of_getElem? there)
  · exact freeRun.front_nonzero zerosLast slot (List.mem_of_getElem? (mem_placed.mp here).2.2)

section Slots

variable {entry : Slot} {slots front back extra : List PlacedSlot} {name83 : List UInt8}

theorem mem_placed_longSlots {item : PlacedSlot} (few : lfnCount name ≤ 19)
    (member : item ∈ placed cell index (longSlots name)) : Slot.firstByte item.2 ≠ 0 ∧ ¬ Slot.IsDirectory item.2 := by
  obtain ⟨place, slot⟩ := item
  obtain ⟨nonzero, _, long, _⟩ := mem_longSlots few (List.mem_of_getElem? (mem_placed.mp member).2.2)
  refine ⟨nonzero, fun directory => ?_⟩
  exact directory.attr_ne long

/-- What is reached of a directory with a new entry. -/
theorem reached_entry (few : lfnCount name ≤ 19) (used : ∀ item ∈ front, Slot.firstByte item.2 ≠ 0)
    (nonzero : entry.firstByte ≠ 0) :
    reached (front ++ (placed cell index (longSlots name ++ [entry]) ++ back)) =
      front ++ (placed cell index (longSlots name) ++ ((cell, index + lfnCount name), entry) :: reached back) := by
  rw [reached_append used, placed_entry, List.append_assoc, reached_append fun item member =>
    (mem_placed_longSlots few member).1, List.singleton_append, reached_cons_of_ne nonzero]

/-- Free slots behind a directory do not matter for `fat32_find_dir`. -/
theorem namedIn_append_free (free : ∀ item ∈ extra, Slot.IsFree item.2) :
    namedIn name83 (slots ++ extra) = namedIn name83 slots := by
  induction slots with
  | nil =>
      refine List.find?_eq_none.mpr fun item member => ?_
      have used := List.mem_takeWhile_imp member
      rcases free item (List.takeWhile_subset _ member) with zero | deleted
      · simp [zero] at used
      · exact fun named => (of_decide_eq_true named).1 deleted
  | cons head tail ih =>
      obtain ⟨place, slot⟩ := head
      rw [List.cons_append, namedIn, namedIn]
      by_cases unused : slot.firstByte = 0
      · rw [reached_cons_of_eq unused, reached_cons_of_eq unused]
      · rw [reached_cons_of_ne unused, reached_cons_of_ne unused, List.find?_cons, List.find?_cons, ← namedIn, ← namedIn, ih]

/-- The new entry is the first with its name if there was none before. -/
theorem SlotsReplaced.namedIn_entry {before later run : List PlacedSlot}
    (replaced : SlotsReplaced before later (placed cell index (longSlots name ++ [entry])) front run back extra)
    (used : ∀ item ∈ front, Slot.firstByte item.2 ≠ 0) (few : lfnCount name ≤ 19) (inUse : entry.InUse)
    (named : entry.IsNamed name83) (missing : namedIn name83 before = none) :
    namedIn name83 later = some ((cell, index + lfnCount name), entry) := by
  have whole := @namedIn_append_free before extra name83 replaced.clear
  rw [replaced.before, missing, namedIn, reached_append used, List.find?_append] at whole
  have front_missing := (Option.or_eq_none_iff.mp whole).1
  have long_missing : (placed cell index (longSlots name)).find? (fun item => Slot.IsNamed name83 item.2) = none :=
    List.find?_eq_none.mpr fun item member named => (mem_placed_longSlots few member).2 (of_decide_eq_true named).2.1
  rw [replaced.after, namedIn, reached_entry few used inUse.1, List.find?_append, front_missing, Option.none_or,
    List.find?_append, long_missing, Option.none_or, List.find?_cons_of_pos (by simpa using named)]

end Slots

theorem attr_ne_of_notLabel (notLabel : attr &&& attrVolumeId = 0) : attr ≠ attrLongName := by
  rintro rfl
  exact absurd notLabel (by decide)

end NewEntry

/-! ## Runs in which long names fit the buffer -/

section Fit

variable {slots before later front run back extra : List PlacedSlot} {name : List UInt8} {cell index : Nat}
  {entry slot : Slot} {place : Nat × Nat}

theorem LongSlotsFit.of_short (short : ∀ item ∈ slots, ¬ Slot.IsFree item.2 → Slot.attr item.2 ≠ attrLongName) :
    LongSlotsFit slots :=
  fun item member used long => absurd long (short item member used)

/-- The slots of a new entry fit as well. -/
theorem LongSlotsFit.replaced (fit : LongSlotsFit before)
    (replaced : SlotsReplaced before later (placed cell index (longSlots name ++ [entry])) front run back extra)
    (few : lfnCount name ≤ 19) (short : entry.attr ≠ attrLongName) : LongSlotsFit later := by
  have old : ∀ item ∈ front ++ (run ++ back), ¬ Slot.IsFree item.2 → Slot.attr item.2 = attrLongName →
      1 ≤ Slot.order item.2 ∧ Slot.order item.2 ≤ 19 ∧ (Slot.units item.2).length ≤ 13 := by
    rw [← replaced.before]
    intro item member used long
    rcases List.mem_append.mp member with before | clear
    · exact fit item before used long
    · exact absurd (replaced.clear item clear) used
  rw [replaced.after]
  rintro ⟨place, slot⟩ member used long
  rcases List.mem_append.mp member with here | behind
  · exact old _ (List.mem_append_left _ here) used long
  rcases List.mem_append.mp behind with new | here
  · rcases List.mem_append.mp (List.mem_of_getElem? (mem_placed.mp new).2.2) with isLong | last
    · obtain ⟨_, _, _, lower, upper, full⟩ := mem_longSlots few isLong
      exact ⟨lower, upper, full.le⟩
    · rw [List.mem_singleton] at last
      subst last
      exact absurd long short
  · exact old _ (List.mem_append_right _ (List.mem_append_right _ here)) used long

theorem LongSlotsFit.deleted (fit : LongSlotsFit (front ++ (place, slot) :: back)) :
    LongSlotsFit (front ++ (place, overwrite slot 0 [deletedMark]) :: back) := by
  intro item member used long
  rcases List.mem_append.mp member with here | behind
  · exact fit item (List.mem_append_left _ here) used long
  · rcases List.mem_cons.mp behind with rfl | here
    · exact absurd (.inr (firstByte_deleted slot)) used
    · exact fit item (List.mem_append_right _ (List.mem_cons_of_mem _ here)) used long

end Fit

/-- The condition on a call: a name it stores fits the buffer of the lookups, and it deletes no dot
entry. -/
def DirectoryCall.KeepsFit (vol : Volume) : DirectoryCall → Prop
  | .openFile path mode => mode &&& (faCreate ||| faCreateAlways) ≠ 0 → ∀ parent,
      parentCluster vol path = some (some parent) → fat32FindFile vol parent (lastComponent path) = some none →
      lfnCount (lastComponent path) ≤ 19
  | .mkdir path => ∀ parent, parentCluster vol path = some (some parent) →
      fat32DirExists vol parent (lastComponent path) = some false → lfnCount (lastComponent path) ≤ 19
  | .rename _ _ => False
  | .unlink path => AvoidsDots vol path

/-- A step that meets the condition. -/
def FitStep (vol : Volume) (call : DirectoryCall) (after : Volume) : Prop :=
  call.KeepsFit vol ∧ DirectoryStep vol call after

/-- The invariant of such runs. -/
structure FitVolume (vol : Volume) (dirs : Set Nat) : Prop extends Consistent vol dirs where
  fit : SlotsHold LongSlotsFit vol dirs

section Steps

variable {vol after : Volume} {dirs : Set Nat} {path : List UInt8}

theorem FitVolume.openFile {mode : Nat} {file : Option Fat32File} (fits : FitVolume vol dirs) (string : 0 ∉ path)
    (keeps : (DirectoryCall.openFile path mode).KeepsFit vol) (returned : fOpen vol path mode = some (file, after)) :
    FitVolume after dirs := by
  rcases fits.toListed.fOpen_slots returned with rfl | ⟨parent, cells, cells', cell, index, creation⟩
  · exact fits
  · have few := keeps creation.requested parent creation.resolved creation.missing
    obtain ⟨⟨place, created⟩, slots⟩ := creation.effect fits.toConsistent string (Nat.lt_of_le_of_lt few (by decide))
      fits.fit fun front run back extra replaced before =>
        before.replaced replaced few (by rw [newEntry_attr]; decide)
    exact ⟨created.consistent fits.toConsistent, slots⟩

theorem FitVolume.mkdir {ok : Bool} (fits : FitVolume vol dirs) (string : 0 ∉ path)
    (keeps : (DirectoryCall.mkdir path).KeepsFit vol) (returned : fMkdir vol path = some (ok, after)) :
    ∃ more, FitVolume after more := by
  rcases fits.toListed.fMkdir_slots returned with rfl | ⟨parent, new, middle, creation⟩
  · exact ⟨dirs, fits⟩
  · have few := keeps parent creation.resolved creation.missing
    rcases creation.effect fits.toConsistent string (Nat.lt_of_le_of_lt few (by decide)) fits.fit
        (.of_short creation.setUp.short) fun cells cells' cell index front run back extra replaced before =>
          before.replaced replaced few (by rw [newEntry_attr]; decide) with
      ⟨consistent, _, slots⟩ | ⟨⟨place, made⟩, slots⟩
    · exact ⟨dirs, consistent, slots⟩
    · exact ⟨insert new dirs, made.consistent fits.toConsistent, slots⟩

theorem FitVolume.unlink {ok : Bool} (fits : FitVolume vol dirs) (avoids : AvoidsDots vol path)
    (returned : fUnlink vol path = some (ok, after)) : ∃ fewer, FitVolume after fewer := by
  rcases fits.toConsistent.fUnlink_slots avoids returned with ⟨_, rfl⟩ | ⟨_, parent, found, place, middle, deletion⟩
  · exact ⟨dirs, fits⟩
  · obtain ⟨fewer, _, consistent, slots, _⟩ := deletion.effect fits.toConsistent fits.fit
      fun cells front back chain split before => by
        rw [split] at before
        exact before.deleted
    exact ⟨fewer, consistent, slots⟩

theorem FitVolume.step {call : DirectoryCall} (fits : ∃ dirs, FitVolume vol dirs) (taken : FitStep vol call after) :
    ∃ dirs, FitVolume after dirs := by
  obtain ⟨dirs, fits⟩ := fits
  obtain ⟨keeps, step⟩ := taken
  cases call with
  | openFile path mode =>
      obtain ⟨string, file, returned⟩ := step
      exact ⟨dirs, fits.openFile string keeps returned⟩
  | mkdir path =>
      obtain ⟨string, ok, returned⟩ := step
      exact fits.mkdir string keeps returned
  | rename oldpath newpath => exact keeps.elim
  | unlink path =>
      obtain ⟨_, ok, returned⟩ := step
      exact fits.unlink keeps returned

end Steps

theorem CleanRoot.fitVolume {vol : Volume} (clean : CleanRoot vol) : FitVolume vol {getRootDirCluster vol.bpb} where
  toConsistent := clean.toEmptyRoot.consistent
  fit := by
    rintro dir rfl cells chain
    exact .of_short (clean.short cells chain)

/-- A new entry that meets the condition is found by the readers. -/
theorem FitVolume.foundByReaders {vol after : Volume} {dirs : Set Nat} {dir first size : Nat} {name : List UInt8}
    {attr : UInt8} (fits : FitVolume vol dirs) (member : dir ∈ dirs) (string : 0 ∉ name) (bounded : first < 4294967296)
    (reachable : Reachable vol dir name attr)
    (returned : fat32CreateDirEntry vol dir name attr first size = some (true, after)) :
    ∃ place, FoundByReaders vol after dir name attr first size place := by
  obtain ⟨cells, chain⟩ := fits.chain dir member
  have zeros : ∀ other ∈ cells, ZerosLast vol other := fun other inside =>
    fits.zeros dir member other ((inDir_iff chain).mpr inside)
  rcases fat32CreateDirEntry_firstFit fits.geometry fits.hint chain returned with
    ⟨failed, _⟩ | ⟨_, cells', cell, index, created, _, earlier, later, split, full⟩
  · simp at failed
  have entered := created.entered fits.toDirectories member chain string (Nat.lt_of_le_of_lt reachable.few (by decide))
  have notLong := attr_ne_of_notLabel reachable.notLabel
  have inUse : (newEntry name attr first size).InUse := newEntry_inUse string reachable.notDeleted notLong
  have entry := (entered.entries dir member (cell, index + lfnCount name) _).mpr (.inr ⟨rfl, rfl, rfl, inUse⟩)
  have inserted := Inserted.of_created created chain
  obtain ⟨front, run, back, extra, replaced, used⟩ := inserted.front_used chain zeros reachable.noGap split full
  have geometry' := entered.directories.geometry
  refine ⟨(cell, index + lfnCount name), entered.vacant dir member, entry, fun path dp opened here => ?_,
    fun directory => ?_, fun directory => ?_⟩
  · subst here
    have ahead := fOpendir_ahead opened created.chain
    refine ⟨cells', (shown (dirSlots after cells')).length + 1, created.chain,
      enumerateFrom_eq geometry' ahead (Nat.lt_succ_self _), ?_⟩
    rw [replaced.after, shown, reached_entry reachable.few used inUse.1]
    refine List.mem_filter.mpr ⟨by simp, ?_⟩
    rw [decide_eq_true_eq]
    refine ⟨inUse, ?_⟩
    rw [newEntry_attr]
    exact reachable.notLabel
  · obtain ⟨above, missing⟩ := reachable.directory directory
    rw [fat32FindDir_eq fits.geometry chain above, Option.some.injEq, Option.map_eq_none_iff] at missing
    have named : (newEntry name attr first size).IsNamed (fat32Format83Name name) :=
      ⟨inUse.2.1, newEntry_isDirectory.mpr directory, newEntry_name⟩
    rw [fat32FindDir_eq geometry' created.chain (by rw [entered.bpb]; exact above),
      replaced.namedIn_entry used reachable.few inUse named missing, Option.map_some, newEntry_firstCluster bounded]
  · have slots : LongSlotsFit (dirSlots after cells') :=
      (fits.fit dir member cells chain).replaced replaced reachable.few (by rwa [newEntry_attr])
    obtain ⟨answer, lookup⟩ := @fat32DirExists_isSome after cells' dir name geometry' created.chain slots
    cases answer with
    | true => exact lookup
    | false =>
        have zeros' : ∀ other ∈ cells', ZerosLast after other := fun other inside =>
          entered.directories.zeros dir member other ((inDir_iff created.chain).mpr inside)
        have noGap := inserted.noGapBefore chain reachable.noGap split full
        exact absurd newEntry_name (fat32DirExists_false geometry' created.chain zeros' lookup created.member noGap
          entry.live (newEntry_isDirectory.mpr directory))

/-- In every directory that is reached from a clean root by a run whose steps meet their condition,
a new entry that meets its condition is found by the readers. -/
theorem fit_run_foundByReaders {start vol after : Volume} {trace : List DirectoryCall} {dir first size : Nat}
    {name : List UInt8} {attr : UInt8} (clean : CleanRoot start) (run : Run FitStep start trace vol)
    (directory : IsDirectoryOf vol dir) (string : 0 ∉ name) (bounded : first < 4294967296)
    (reachable : Reachable vol dir name attr)
    (returned : fat32CreateDirEntry vol dir name attr first size = some (true, after)) :
    ∃ place, FoundByReaders vol after dir name attr first size place := by
  obtain ⟨dirs, fits⟩ := run.invariant (fun vol => ∃ dirs, FitVolume vol dirs) ⟨_, clean.fitVolume⟩
    fun fits taken => FitVolume.step fits taken
  exact fits.foundByReaders (fits.toConsistent.mem_of_isDirectoryOf directory) string bounded reachable returned

/-- A directory `A` gets the first entry of an empty volume. -/
theorem fit_run_foundByReaders_a :
    ∃ after place, fat32CreateDirEntry emptyVolume 2 [0x41] attrDirectory 5 0 = some (true, after) ∧
      FoundByReaders emptyVolume after 2 [0x41] attrDirectory 5 0 place := by
  let after := ((fat32CreateDirEntry emptyVolume 2 [0x41] attrDirectory 5 0).getD (false, emptyVolume)).2
  have returned : fat32CreateDirEntry emptyVolume 2 [0x41] attrDirectory 5 0 = some (true, after) :=
    eq_some_of_map_fst (false, emptyVolume) (by decide +kernel)
  have room : FreeRun (clusterSlots emptyVolume 2) 0 (lfnCount [0x41] + 1) := by
    rw [emptyVolume_slots]
    exact freeRun_replicate (by decide)
  have noGap : NoGapFor emptyVolume 2 (lfnCount [0x41] + 1) := by
    intro cells front cell back chain split _
    obtain rfl := chain.unique emptyVolume_chain
    have here : cell ∈ [2] := by simp [split]
    rw [List.mem_singleton.mp here]
    exact ⟨2, by simp, 0, room⟩
  have reachable : Reachable emptyVolume 2 [0x41] attrDirectory :=
    ⟨noGap, by decide, by decide, by decide, fun _ => ⟨by decide +kernel, by decide +kernel⟩⟩
  have directory : IsDirectoryOf emptyVolume 2 := by
    have top := @IsDirectoryOf.root emptyVolume
    rwa [emptyVolume_root] at top
  obtain ⟨place, found⟩ := fit_run_foundByReaders emptyVolume_cleanRoot .nil directory (by decide) (by decide) reachable returned
  exact ⟨after, place, returned, found⟩

/-- `/` and 170 times `a`: the file takes 15 of the 16 slots of a cluster. -/
def longPath : List UInt8 := slash :: List.replicate 170 0x61

/-- Behind a file that leaves one slot of the first cluster unused, the directory `abc` goes to a
second cluster. The enumeration returns the file only, and `fat32_find_dir` finds nothing. -/
theorem gap_hides_new_directory :
    CleanRoot emptyVolume ∧ ∃ vol after, Run DirectoryStep emptyVolume [.openFile longPath faCreate] vol ∧
      IsDirectoryOf vol 2 ∧ fat32CreateDirEntry vol 2 [0x61, 0x62, 0x63] attrDirectory 9 0 = some (true, after) ∧
      fOpendir after [slash] = some (some ⟨2, 2, 0⟩) ∧
      (enumerateFrom after 2 ⟨2, 2, 0⟩).map (List.map Fat32Dirent.attr) = some [attrArchive] ∧
      ¬ ∃ place, FoundByReaders vol after 2 [0x61, 0x62, 0x63] attrDirectory 9 0 place := by
  have computed : (fOpen emptyVolume longPath faCreate).any (fun opened =>
      (fat32CreateDirEntry opened.2 2 [0x61, 0x62, 0x63] attrDirectory 9 0).any fun made => made.1 = true ∧
        getRootDirCluster opened.2.bpb = 2 ∧ fOpendir made.2 [slash] = some (some ⟨2, 2, 0⟩) ∧
        (enumerateFrom made.2 2 ⟨2, 2, 0⟩).map (List.map Fat32Dirent.attr) = some [attrArchive] ∧
        fat32FindDir made.2 2 [0x61, 0x62, 0x63] = some none) = true := by decide +kernel
  obtain ⟨opened, opens, computed⟩ := (Option.any_eq_true _ _).mp computed
  obtain ⟨⟨ok, after⟩, returned, computed⟩ := (Option.any_eq_true _ _).mp computed
  obtain ⟨rfl, top, opendir, listing, missing⟩ := of_decide_eq_true computed
  have run : Run DirectoryStep emptyVolume [.openFile longPath faCreate] opened.2 :=
    Run.snoc .nil ⟨by decide, _, opens⟩
  have directory : IsDirectoryOf opened.2 2 := by
    rw [← top]
    exact .root
  refine ⟨emptyVolume_cleanRoot, opened.2, after, run, directory, returned, opendir, listing, ?_⟩
  rintro ⟨place, found⟩
  have finds := found.findDir (by decide)
  rw [missing] at finds
  simp at finds

end KeblaOS.Fat32
