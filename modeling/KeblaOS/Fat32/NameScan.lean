import KeblaOS.Fat32.DirectoryCalls

/-!
# A lookup as one scan

In a directory in which no slot in use follows a slot that was never used, `fat32_find_file` is
one scan of all slots in the order of the clusters, and free slots do not count. Along the scan
the long name is collected. `Settled` directories have no part of a long name in front of a free
slot; there an entry may be added or taken away without a change of what is found elsewhere.
-/

namespace KeblaOS.Fat32

open KeblaOS.Buffer

/-- A slot with its cluster and its number. -/
abbrev PlacedSlot := (Nat × Nat) × Slot

/-- Slots of a cluster from a number on, with their places. -/
def placed (cell : Nat) : Nat → List Slot → List PlacedSlot
  | _, [] => []
  | index, slot :: rest => ((cell, index), slot) :: placed cell (index + 1) rest

/-- The slots of a directory with these clusters. -/
def dirSlots (vol : Volume) (cells : List Nat) : List PlacedSlot :=
  cells.flatMap fun cell => placed cell 0 (clusterSlots vol cell)

/-- The scan of `fat32_find_file`. -/
def lookupSlots (name shortName : List UInt8) : List UInt8 → List PlacedSlot → Scan (List UInt8) FoundEntry
  | longName, [] => .next longName
  | longName, (place, slot) :: rest =>
      if slot.IsFree then lookupSlots name shortName longName rest
      else if slot.attr = attrLongName then
        match storeChars longName slot.order (slot.units.map UInt8.ofNat) with
        | none => .fault
        | some longName => lookupSlots name shortName longName rest
      else if cString longName = name ∨ slot.name = shortName then .found ⟨slot, place.1, 32 * place.2⟩
      else lookupSlots name shortName emptyLongName rest

/-- The long name collected behind some slots, whatever name is looked for. -/
def collect : List UInt8 → List PlacedSlot → Option (List UInt8)
  | longName, [] => some longName
  | longName, (_, slot) :: rest =>
      if slot.IsFree then collect longName rest
      else if slot.attr = attrLongName then
        (storeChars longName slot.order (slot.units.map UInt8.ofNat)).bind fun longName => collect longName rest
      else collect emptyLongName rest

/-- What `fat32_find_file` makes of the end of its scan. -/
def Scan.answer {State Result : Type} : Scan State Result → Option (Option Result)
  | .found result => some (some result)
  | .stop => some none
  | .next _ => some none
  | .fault => none

section Placed

variable {cell index : Nat} {slots : List Slot}

theorem placed_append (front back : List Slot) :
    placed cell index (front ++ back) = placed cell index front ++ placed cell (index + front.length) back := by
  induction front generalizing index with
  | nil => rfl
  | cons slot rest ih =>
      rw [List.cons_append, placed, placed, ih, List.cons_append, List.length_cons, Nat.add_right_comm,
        Nat.add_assoc]

@[simp] theorem length_placed : (placed cell index slots).length = slots.length := by
  induction slots generalizing index with
  | nil => rfl
  | cons slot rest ih => rw [placed, List.length_cons, List.length_cons, ih]

theorem mem_placed {place : Nat × Nat} {slot : Slot} :
    (place, slot) ∈ placed cell index slots ↔ place.1 = cell ∧ index ≤ place.2 ∧ slots[place.2 - index]? = some slot := by
  induction slots generalizing index with
  | nil => simp [placed]
  | cons head rest ih =>
      rw [placed, List.mem_cons, ih]
      constructor
      · rintro (same | ⟨here, behind, there⟩)
        · obtain ⟨rfl, rfl⟩ := Prod.mk.inj same
          simp
        · refine ⟨here, by omega, ?_⟩
          have shift : place.2 - index = place.2 - (index + 1) + 1 := by omega
          rw [shift, List.getElem?_cons_succ]
          exact there
      · rintro ⟨here, behind, there⟩
        by_cases first : place.2 = index
        · left
          rw [first, Nat.sub_self, List.getElem?_cons_zero] at there
          exact Prod.ext (Prod.ext here first) (Option.some.inj there).symm
        · right
          have shift : place.2 - index = place.2 - (index + 1) + 1 := by omega
          rw [shift, List.getElem?_cons_succ] at there
          exact ⟨here, by omega, there⟩

theorem mem_dirSlots {vol : Volume} {cells : List Nat} {place : Nat × Nat} {slot : Slot} :
    (place, slot) ∈ dirSlots vol cells ↔ place.1 ∈ cells ∧ (clusterSlots vol place.1)[place.2]? = some slot := by
  simp only [dirSlots, List.mem_flatMap, mem_placed]
  constructor
  · rintro ⟨cell, member, rfl, _, there⟩
    exact ⟨member, there⟩
  · rintro ⟨member, there⟩
    exact ⟨place.1, member, rfl, Nat.zero_le _, there⟩

end Placed

/-! ## The scan -/

section Scan

variable {name shortName longName longName' : List UInt8} {front back slots : List PlacedSlot}

/-- A scan goes on where it passed the first slots. -/
theorem lookupSlots_append (passed : lookupSlots name shortName longName front = .next longName') :
    lookupSlots name shortName longName (front ++ back) = lookupSlots name shortName longName' back := by
  induction front generalizing longName with
  | nil =>
      obtain rfl : longName = longName' := by simpa [lookupSlots] using passed
      rfl
  | cons item rest ih =>
      obtain ⟨place, slot⟩ := item
      rw [lookupSlots] at passed
      rw [List.cons_append, lookupSlots]
      split_ifs at passed ⊢
      · exact ih passed
      · cases stored : storeChars longName slot.order (slot.units.map UInt8.ofNat) with
        | none => simp [stored] at passed
        | some next =>
            rw [stored] at passed
            exact ih passed
      · exact ih passed

theorem lookupSlots_append_found {result : FoundEntry}
    (found : lookupSlots name shortName longName front = .found result) :
    lookupSlots name shortName longName (front ++ back) = .found result := by
  induction front generalizing longName with
  | nil => simp [lookupSlots] at found
  | cons item rest ih =>
      obtain ⟨place, slot⟩ := item
      rw [lookupSlots] at found
      rw [List.cons_append, lookupSlots]
      split_ifs at found ⊢
      · exact ih found
      · cases stored : storeChars longName slot.order (slot.units.map UInt8.ofNat) with
        | none => simp [stored] at found
        | some next =>
            rw [stored] at found
            exact ih found
      · exact found
      · exact ih found

theorem lookupSlots_append_fault (failed : lookupSlots name shortName longName front = .fault) :
    lookupSlots name shortName longName (front ++ back) = .fault := by
  induction front generalizing longName with
  | nil => simp [lookupSlots] at failed
  | cons item rest ih =>
      obtain ⟨place, slot⟩ := item
      rw [lookupSlots] at failed
      rw [List.cons_append, lookupSlots]
      split_ifs at failed ⊢
      · exact ih failed
      · cases stored : storeChars longName slot.order (slot.units.map UInt8.ofNat) with
        | none => rfl
        | some next =>
            rw [stored] at failed
            exact ih failed
      · exact ih failed

theorem lookupSlots_ne_stop : lookupSlots name shortName longName slots ≠ .stop := by
  induction slots generalizing longName with
  | nil => simp [lookupSlots]
  | cons item rest ih =>
      obtain ⟨place, slot⟩ := item
      rw [lookupSlots]
      split_ifs
      · exact ih
      · cases storeChars longName slot.order (slot.units.map UInt8.ofNat) with
        | none => simp
        | some next => exact ih
      · simp
      · exact ih

/-- A scan that collects its long names safely finds something or passes all slots. -/
theorem lookupSlots_cases (collected : collect longName slots = some longName') :
    lookupSlots name shortName longName slots = .next longName' ∨
      ∃ result, lookupSlots name shortName longName slots = .found result := by
  induction slots generalizing longName with
  | nil =>
      left
      rw [collect] at collected
      rw [lookupSlots, Option.some.inj collected]
  | cons item rest ih =>
      obtain ⟨place, slot⟩ := item
      rw [collect] at collected
      rw [lookupSlots]
      split_ifs at collected ⊢
      · exact ih collected
      · cases stored : storeChars longName slot.order (slot.units.map UInt8.ofNat) with
        | none => simp [stored] at collected
        | some next =>
            rw [stored] at collected
            exact ih collected
      · exact .inr ⟨_, rfl⟩
      · exact ih collected

theorem collect_append : collect longName (front ++ back) = (collect longName front).bind fun next => collect next back := by
  induction front generalizing longName with
  | nil => rfl
  | cons item rest ih =>
      obtain ⟨place, slot⟩ := item
      rw [List.cons_append, collect, collect]
      split_ifs
      · exact ih
      · cases storeChars longName slot.order (slot.units.map UInt8.ofNat) with
        | none => rfl
        | some next => exact ih
      · exact ih

theorem collect_free (free : ∀ item ∈ slots, Slot.IsFree item.2) : collect longName slots = some longName := by
  induction slots with
  | nil => rfl
  | cons item rest ih =>
      obtain ⟨place, slot⟩ := item
      rw [collect, if_pos (free _ List.mem_cons_self)]
      exact ih fun other member => free other (List.mem_cons_of_mem _ member)

theorem lookupSlots_free (free : ∀ item ∈ slots, Slot.IsFree item.2) :
    lookupSlots name shortName longName slots = .next longName := by
  induction slots with
  | nil => rfl
  | cons item rest ih =>
      obtain ⟨place, slot⟩ := item
      rw [lookupSlots, if_pos (free _ List.mem_cons_self)]
      exact ih fun other member => free other (List.mem_cons_of_mem _ member)

/-- What a scan finds is an entry in use that has the long name in front of it or the short name. -/
theorem lookupSlots_found {result : FoundEntry} (found : lookupSlots name shortName longName slots = .found result) :
    ∃ front place back longName', slots = front ++ (place, result.entry) :: back ∧
      collect longName front = some longName' ∧ result.entry.InUse ∧
      result.entryCluster = place.1 ∧ result.entryOffset = 32 * place.2 ∧
      (cString longName' = name ∨ result.entry.name = shortName) := by
  induction slots generalizing longName with
  | nil => simp [lookupSlots] at found
  | cons item rest ih =>
      obtain ⟨place, slot⟩ := item
      rw [lookupSlots] at found
      split_ifs at found with free long matched
      · obtain ⟨front, place', back, longName', rfl, collected, facts⟩ := ih found
        refine ⟨(place, slot) :: front, place', back, longName', rfl, ?_, facts⟩
        rw [collect, if_pos free]
        exact collected
      · cases stored : storeChars longName slot.order (slot.units.map UInt8.ofNat) with
        | none => simp [stored] at found
        | some next =>
            rw [stored] at found
            obtain ⟨front, place', back, longName', rfl, collected, facts⟩ := ih found
            refine ⟨(place, slot) :: front, place', back, longName', rfl, ?_, facts⟩
            rw [collect, if_neg free, if_pos long, stored]
            exact collected
      · obtain rfl : ⟨slot, place.1, 32 * place.2⟩ = result := by simpa using found
        exact ⟨[], place, rest, longName, rfl, rfl, ⟨fun zero => free (.inl zero), fun mark => free (.inr mark), long⟩,
          rfl, rfl, matched⟩
      · obtain ⟨front, place', back, longName', rfl, collected, facts⟩ := ih found
        refine ⟨(place, slot) :: front, place', back, longName', rfl, ?_, facts⟩
        rw [collect, if_neg free, if_neg long]
        exact collected

/-- The slot loop of one cluster is the scan of its slots. -/
theorem findFileVisit_eq {curr index : Nat} {slots : List Slot} (zeros : ZerosLastIn slots) :
    findFileVisit name shortName longName curr index slots =
      lookupSlots name shortName longName (placed curr index slots) := by
  induction slots generalizing longName index with
  | nil => rfl
  | cons slot rest ih =>
      have later : ZerosLastIn rest := fun i j first second there zero ordered there' =>
        zeros (i + 1) (j + 1) first second (by simpa using there) zero (by omega) (by simpa using there')
      rw [findFileVisit, placed, lookupSlots]
      by_cases zero : slot.firstByte = 0
      · -- everything behind the slot is free as well
        have free : ∀ item ∈ placed curr (index + 1) rest, Slot.IsFree item.2 := by
          rintro ⟨place, other⟩ member
          obtain ⟨_, _, there⟩ := mem_placed.mp member
          exact zeros 0 (place.2 - (index + 1) + 1) slot other rfl zero (Nat.zero_le _) (by simpa using there)
        rw [if_pos zero, if_pos (.inl zero), lookupSlots_free free]
      · rw [if_neg zero]
        by_cases deleted : slot.firstByte = deletedMark
        · rw [if_pos deleted, if_pos (.inr deleted)]
          exact ih later
        · have used : ¬ slot.IsFree := by rintro (isZero | isDeleted) <;> contradiction
          rw [if_neg deleted, if_neg used]
          split_ifs
          · cases storeChars longName slot.order (slot.units.map UInt8.ofNat) with
            | none => rfl
            | some next => exact ih later
          · rfl
          · exact ih later

/-- A scan of clusters one after the other is a scan of all their slots. -/
theorem scanCells_findFileVisit {vol : Volume} {cells : List Nat} (zeros : ∀ cell ∈ cells, ZerosLast vol cell) :
    scanCells (fun longName curr slots => findFileVisit name shortName longName curr 0 slots) vol longName cells =
      (lookupSlots name shortName longName (dirSlots vol cells)).answer := by
  induction cells generalizing longName with
  | nil => rfl
  | cons head tail ih =>
      rw [scanCells, findFileVisit_eq (zeros head List.mem_cons_self), dirSlots, List.flatMap_cons, ← dirSlots]
      cases outcome : lookupSlots name shortName longName (placed head 0 (clusterSlots vol head)) with
      | found result =>
          rw [lookupSlots_append_found outcome]
          rfl
      | stop => exact absurd outcome lookupSlots_ne_stop
      | fault =>
          rw [lookupSlots_append_fault outcome]
          rfl
      | next passed =>
          rw [lookupSlots_append outcome]
          exact ih fun cell member => zeros cell (List.mem_cons_of_mem _ member)

end Scan

/-- `fat32_find_file` is a scan of all slots of the directory. -/
theorem fat32FindFile_eq_lookup {vol : Volume} {dir : Nat} {cells : List Nat} {name : List UInt8}
    (geometry : Geometry vol.bpb) (chain : ClusterChain vol dir cells) (zeros : ∀ cell ∈ cells, ZerosLast vol cell) :
    fat32FindFile vol dir name =
      (lookupSlots name (fat32Format83Name name) emptyLongName (dirSlots vol cells)).answer := by
  unfold fat32FindFile
  rw [scanChain_eq emptyLongName geometry chain]
  exact scanCells_findFileVisit zeros

/-! ## Settled directories -/

/-- No part of a long name stands in front of a free slot or at the end. -/
structure Settled (slots : List PlacedSlot) : Prop where
  free : ∀ front item back, slots = front ++ item :: back → Slot.IsFree item.2 →
    collect emptyLongName front = some emptyLongName
  ends : collect emptyLongName slots = some emptyLongName

/-- Every entry has the short form of the long name in front of it. -/
def LongNamesFit (slots : List PlacedSlot) : Prop :=
  ∀ front item back longName, slots = front ++ item :: back → Slot.InUse item.2 →
    collect emptyLongName front = some longName → cString longName ≠ [] →
    Slot.name item.2 = fat32Format83Name (cString longName)

section Settled

variable {front run new back extra slots : List PlacedSlot} {name shortName : List UInt8}

/-- Two ways to split a list at an element. -/
theorem split_cases {α : Type} {first second front back : List α} {item : α}
    (same : first ++ second = front ++ item :: back) :
    (∃ rest, first = front ++ item :: rest ∧ back = rest ++ second) ∨
      ∃ rest, front = first ++ rest ∧ second = rest ++ item :: back := by
  rcases List.append_eq_append_iff.mp same with ⟨rest, longer, shape⟩ | ⟨rest, longer, shape⟩
  · exact .inr ⟨rest, longer, shape⟩
  · cases rest with
    | nil => exact .inr ⟨[], by simpa using longer.symm, by simpa using shape.symm⟩
    | cons head tail =>
        obtain ⟨rfl, rfl⟩ := List.cons.inj shape
        exact .inl ⟨tail, longer, rfl⟩

/-- Free slots at the end change nothing. -/
theorem Settled.extend (settled : Settled slots) (free : ∀ item ∈ extra, Slot.IsFree item.2) :
    Settled (slots ++ extra) := by
  refine ⟨fun front item back split isFree => ?_, ?_⟩
  · rcases split_cases split with ⟨rest, rfl, rfl⟩ | ⟨rest, rfl, rfl⟩
    · exact settled.free front item rest rfl isFree
    · rw [collect_append, settled.ends]
      exact collect_free fun other member => free other (List.mem_append_left _ member)
  · rw [collect_append, settled.ends]
    exact collect_free free

theorem settled_of_free (free : ∀ item ∈ slots, Slot.IsFree item.2) : Settled slots :=
  ⟨fun _ _ _ split _ => collect_free fun other member => free other (by rw [split]; exact List.mem_append_left _ member),
    collect_free free⟩

/-- Where a run of free slots starts, nothing is collected. -/
theorem Settled.before_run (settled : Settled (front ++ (run ++ back))) (free : ∀ item ∈ run, Slot.IsFree item.2)
    (nonempty : run ≠ []) : collect emptyLongName front = some emptyLongName := by
  obtain ⟨item, rest, rfl⟩ := List.exists_cons_of_ne_nil nonempty
  exact settled.free front item (rest ++ back) rfl (free item List.mem_cons_self)

theorem collect_behind (before : collect emptyLongName front = some emptyLongName)
    (passed : collect emptyLongName run = some emptyLongName) (more : List PlacedSlot) :
    collect emptyLongName (front ++ (run ++ more)) = collect emptyLongName more := by
  rw [collect_append, before, Option.bind_some, collect_append, passed, Option.bind_some]

section Exchange

variable (before : collect emptyLongName front = some emptyLongName)
  (passed : collect emptyLongName run = some emptyLongName) (passed' : collect emptyLongName new = some emptyLongName)
include before passed passed'

/-- Slots between two long names are exchanged for others that are settled themselves. -/
theorem Settled.exchange (settled : Settled (front ++ (run ++ back)))
    (inner : ∀ front item back, new = front ++ item :: back → Slot.IsFree item.2 →
      collect emptyLongName front = some emptyLongName) : Settled (front ++ (new ++ back)) := by
  refine ⟨fun front' item back' split isFree => ?_, ?_⟩
  · rcases split_cases split with ⟨rest, rfl, rfl⟩ | ⟨rest, rfl, shape⟩
    · exact settled.free front' item (rest ++ (run ++ back)) (by simp) isFree
    · rcases split_cases shape with ⟨rest', rfl, _⟩ | ⟨rest', rfl, rfl⟩
      · rw [collect_append, before, Option.bind_some]
        exact inner rest item rest' rfl isFree
      · rw [collect_behind before passed', ← collect_behind before passed]
        exact settled.free _ item back' (by simp) isFree
  · rw [collect_behind before passed', ← collect_behind before passed]
    exact settled.ends

theorem LongNamesFit.exchange (fit : LongNamesFit (front ++ (run ++ back))) (inner : LongNamesFit new) :
    LongNamesFit (front ++ (new ++ back)) := by
  intro front' item back' longName split inUse collected nonempty
  rcases split_cases split with ⟨rest, rfl, rfl⟩ | ⟨rest, rfl, shape⟩
  · exact fit front' item (rest ++ (run ++ back)) longName (by simp) inUse collected nonempty
  · rcases split_cases shape with ⟨rest', rfl, _⟩ | ⟨rest', rfl, rfl⟩
    · rw [collect_append, before, Option.bind_some] at collected
      exact inner rest item rest' longName rfl inUse collected nonempty
    · rw [collect_behind before passed', ← collect_behind before passed] at collected
      exact fit _ item back' longName (by simp) inUse collected nonempty

end Exchange

/-- Free slots are replaced by slots of which none is free and that leave no part of a long name. -/
theorem Settled.replace (settled : Settled (front ++ (run ++ back))) (free : ∀ item ∈ run, Slot.IsFree item.2)
    (nonempty : run ≠ []) (used : ∀ item ∈ new, ¬ Slot.IsFree item.2)
    (passed : collect emptyLongName new = some emptyLongName) : Settled (front ++ (new ++ back)) := by
  refine settled.exchange (settled.before_run free nonempty) (collect_free free) passed fun front item back split isFree => ?_
  exact absurd isFree (used item (by rw [split]; simp))

/-- A scan that finds neither the old nor the new slots finds the same in both directories. -/
theorem lookupSlots_exchange (before : collect emptyLongName front = some emptyLongName)
    (missed : lookupSlots name shortName emptyLongName run = .next emptyLongName)
    (missed' : lookupSlots name shortName emptyLongName new = .next emptyLongName) :
    lookupSlots name shortName emptyLongName (front ++ (new ++ back)) =
      lookupSlots name shortName emptyLongName (front ++ (run ++ back)) := by
  rcases @lookupSlots_cases name shortName _ _ front before with passed | ⟨result, found⟩
  · rw [lookupSlots_append passed, lookupSlots_append passed, lookupSlots_append missed, lookupSlots_append missed']
  · rw [lookupSlots_append_found found, lookupSlots_append_found found]

end Settled

end KeblaOS.Fat32
