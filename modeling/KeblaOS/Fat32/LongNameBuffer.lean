import KeblaOS.Fat32.NameScan

/-!
# The buffer of the long name

`fat32_find_file` and `fat32_dir_exists` collect a long name in a buffer of 256 bytes. Where
a character goes is computed from the order field of its slot, which comes from the disk. This
module lists the accesses to the buffer in the order in which the code makes them and says for
which directories all of them are in order: every store inside the buffer, and a zero in it
whenever `strcmp` reads it.

The two functions differ in the characters they keep, in what they do at a deleted slot and in
when they compare; a `NameDecoder` is such a choice.
-/

namespace KeblaOS.Fat32

open KeblaOS.Buffer

/-- What is done with `long_name`. -/
inductive LongNameAccess where
  /-- a character is stored at an index -/
  | store (index : Int)
  /-- the buffer is compared with the name looked for -/
  | compare (longName : List UInt8)
deriving DecidableEq

/-- A store is inside the buffer, and a buffer that is compared is terminated. -/
def LongNameAccess.Safe : LongNameAccess → Prop
  | .store index => 0 ≤ index ∧ index < longFilenameSize
  | .compare longName => 0 ∈ longName

instance : DecidablePred LongNameAccess.Safe
  | .store _ => inferInstanceAs (Decidable (_ ∧ _))
  | .compare _ => inferInstanceAs (Decidable (_ ∈ _))

/-- The stores of one long-name slot: `pos` starts at `order * 13`, with `order` counted from
zero, and moves on by one with every character. -/
def storeAccesses (order : Nat) (chars : List UInt8) : List LongNameAccess :=
  (List.range chars.length).map fun (i : Nat) => .store (((order : Int) - 1) * 13 + i)

/-- How a lookup decodes long names. -/
structure NameDecoder where
  /-- the characters of a long-name slot that are stored -/
  chars : Slot → List UInt8
  /-- a slot has thirteen of them -/
  chars_length : ∀ slot, (chars slot).length ≤ 13
  /-- whether the long name is forgotten at a deleted slot -/
  deletedResets : Bool
  /-- whether the buffer is compared at an entry -/
  compares : Slot → List UInt8 → Bool
  /-- whether the search ends at an entry -/
  accepts : Slot → List UInt8 → Bool

/-- A slot has thirteen units. -/
theorem Slot.length_units (slot : Slot) : slot.units.length = 13 := by simp [Slot.units, Slot.unitsAt]

theorem length_keptChars (slot : Slot) : (keptChars slot).length ≤ 13 := by
  have few := List.length_filter_le (fun unit => decide (unit ≠ 0xFFFF ∧ unit ≠ 0)) slot.units
  rw [slot.length_units] at few
  rwa [keptChars, List.length_map]

/-- The decoding of `fat32_find_file`. -/
def findFileDecoder (name : List UInt8) : NameDecoder where
  chars slot := slot.units.map UInt8.ofNat
  chars_length slot := by rw [List.length_map, slot.length_units]
  deletedResets := false
  compares _ _ := true
  accepts slot longName := cString longName = name ∨ slot.name = fat32Format83Name name

/-- The decoding of `fat32_dir_exists`. -/
def dirExistsDecoder (name : List UInt8) : NameDecoder where
  chars := keptChars
  chars_length := length_keptChars
  deletedResets := true
  compares slot longName := slot.attr &&& attrDirectory ≠ 0 ∧ cString longName ≠ []
  accepts slot longName := slot.attr &&& attrDirectory ≠ 0 ∧
    (cString longName ≠ [] ∧ cString longName = name ∨ slot.name = fat32Format83Name name)

/-- The slot is part of a long name. -/
def Slot.IsLong (slot : Slot) : Prop := slot.firstByte ≠ deletedMark ∧ slot.attr = attrLongName

/-- The slot is the entry of a file, a directory or a volume label. -/
def Slot.IsEntry (slot : Slot) : Prop := slot.firstByte ≠ deletedMark ∧ slot.attr ≠ attrLongName

namespace NameDecoder

variable (decoder : NameDecoder)

/-- The accesses at one slot. -/
def slotAccesses (longName : List UInt8) (slot : Slot) : List LongNameAccess :=
  if slot.firstByte = deletedMark then []
  else if slot.attr = attrLongName then storeAccesses slot.order (decoder.chars slot)
  else if decoder.compares slot longName then [.compare longName] else []

/-- The buffer behind a slot; `none` when the search is over or a store was outside. -/
def step (longName : List UInt8) (slot : Slot) : Option (List UInt8) :=
  if slot.firstByte = deletedMark then some (if decoder.deletedResets then emptyLongName else longName)
  else if slot.attr = attrLongName then storeChars longName slot.order (decoder.chars slot)
  else if decoder.accepts slot longName then none else some emptyLongName

/-- The accesses at some slots, one after the other. -/
def accesses : List UInt8 → List Slot → List LongNameAccess
  | _, [] => []
  | longName, slot :: rest =>
      decoder.slotAccesses longName slot ++
        match decoder.step longName slot with
        | none => []
        | some longName => accesses longName rest

/-- The buffer behind some slots. -/
def run : List UInt8 → List Slot → Option (List UInt8)
  | longName, [] => some longName
  | longName, slot :: rest => (decoder.step longName slot).bind fun longName => run longName rest

end NameDecoder

/-- The slots up to the first one that was never used. -/
def usedSlots (slots : List Slot) : List Slot := slots.takeWhile fun slot => slot.firstByte ≠ 0

/-- The accesses of a lookup in its first rounds. -/
def scanAccesses {Result : Type} (decoder : NameDecoder) (visit : List UInt8 → Nat → List Slot → Scan (List UInt8) Result)
    (vol : Volume) : Nat → List UInt8 → Nat → List LongNameAccess
  | 0, _, _ => []
  | rounds + 1, longName, curr =>
      if isValidCluster curr then
        decoder.accesses longName (usedSlots (clusterSlots vol curr)) ++
          match visit longName curr (clusterSlots vol curr) with
          | .next longName =>
              let next := fat32GetNextCluster vol curr
              if isEndOfClusterChain next then [] else scanAccesses decoder visit vol rounds longName next
          | _ => []
      else []

/-- The accesses of `fat32_find_file`. -/
def fat32FindFileAccesses (vol : Volume) (rounds dirCluster : Nat) (name : List UInt8) : List LongNameAccess :=
  scanAccesses (findFileDecoder name)
    (fun longName curr slots => findFileVisit name (fat32Format83Name name) longName curr 0 slots) vol rounds
    emptyLongName dirCluster

/-- The accesses of `fat32_dir_exists`. -/
def fat32DirExistsAccesses (vol : Volume) (rounds dirCluster : Nat) (name : List UInt8) : List LongNameAccess :=
  scanAccesses (dirExistsDecoder name) (dirExistsVisit name (fat32Format83Name name)) vol rounds emptyLongName
    dirCluster

/-! ## What is in the buffer -/

namespace NameDecoder

variable (decoder : NameDecoder)

/-- The long-name slots that count behind a slot, the nearest first. -/
def pend (pending : List Slot) (slot : Slot) : List Slot :=
  if slot.firstByte = deletedMark then if decoder.deletedResets then [] else pending
  else if slot.attr = attrLongName then slot :: pending
  else []

/-- The long-name slots that count behind some slots. -/
def pending (front : List Slot) : List Slot := front.foldl decoder.pend []

/-- The character of a long name at a position: the slots with the number of the position that
have a character there, and of these the nearest. -/
def charAt (pending : List Slot) (pos : Nat) : UInt8 :=
  (pending.findSome? fun slot =>
    if slot.order = pos / 13 + 1 then (decoder.chars slot)[pos % 13]? else none).getD 0

/-- The buffer when these long-name slots count. -/
def spelled (pending : List Slot) : List UInt8 := (List.range longFilenameSize).map (decoder.charAt pending)

/-- The characters of a slot have their places in the buffer. -/
def Fits (slot : Slot) : Prop :=
  decoder.chars slot = [] ∨ 1 ≤ slot.order ∧ (slot.order - 1) * 13 + (decoder.chars slot).length ≤ longFilenameSize

/-- No entry of these slots ends the search. -/
def Passes (front : List Slot) : Prop :=
  ∀ before entry after, front = before ++ entry :: after → Slot.IsEntry entry →
    decoder.accepts entry (decoder.spelled (decoder.pending before)) = false

/-- The search gets to a slot. -/
structure Reached (slots front : List Slot) (slot : Slot) : Prop where
  split : ∃ back, slots = front ++ slot :: back
  passed : decoder.Passes front

/-- A slot does no harm: its characters fit, and where the buffer is compared it has a zero. -/
structure Harmless (front : List Slot) (slot : Slot) : Prop where
  fits : slot.IsLong → decoder.Fits slot
  terminated : slot.IsEntry → decoder.compares slot (decoder.spelled (decoder.pending front)) = true →
    ∃ pos < longFilenameSize, decoder.charAt (decoder.pending front) pos = 0

end NameDecoder

namespace NameDecoder

variable {decoder : NameDecoder} {front back pending slots : List Slot} {slot : Slot}

theorem pending_snoc : decoder.pending (front ++ [slot]) = decoder.pend (decoder.pending front) slot := by
  rw [NameDecoder.pending, List.foldl_append]
  rfl

/-- Without long-name slots the buffer is empty. -/
theorem spelled_nil : decoder.spelled [] = emptyLongName := by
  have chars : decoder.charAt [] = fun _ => 0 := rfl
  rw [spelled, chars, List.map_const', List.length_range]
  rfl

theorem mem_spelled : 0 ∈ decoder.spelled pending ↔ ∃ pos < longFilenameSize, decoder.charAt pending pos = 0 := by
  simp [spelled]

/-- A slot that fits is stored as one more long-name slot. -/
theorem storeChars_spelled (fits : decoder.Fits slot) :
    storeChars (decoder.spelled pending) slot.order (decoder.chars slot) = some (decoder.spelled (slot :: pending)) := by
  have few := decoder.chars_length slot
  have own : ∀ pos, decoder.charAt (slot :: pending) pos =
      if slot.order = pos / 13 + 1 ∧ pos % 13 < (decoder.chars slot).length then (decoder.chars slot).getD (pos % 13) 0
      else decoder.charAt pending pos := by
    intro pos
    rw [charAt, charAt, List.findSome?_cons, List.getD_eq_getElem?_getD]
    by_cases number : slot.order = pos / 13 + 1
    · rw [if_pos number]
      rcases Nat.lt_or_ge (pos % 13) (decoder.chars slot).length with inside | outside
      · rw [if_pos ⟨number, inside⟩, List.getElem?_eq_getElem inside]
      · rw [if_neg (by omega), List.getElem?_eq_none outside]
    · rw [if_neg number, if_neg fun both => number both.1]
  rw [storeChars]
  split_ifs with none there
  · congr 1
    apply List.map_congr_left
    intro pos _
    rw [own, if_neg (by rw [none]; simp)]
  · congr 1
    apply List.ext_getElem?
    intro pos
    rw [getElem?_overwrite (by rw [spelled, List.length_map, List.length_range]; exact there.2), spelled, spelled,
      List.getElem?_map, List.getElem?_map]
    rcases Nat.lt_or_ge pos longFilenameSize with inside | outside
    · rw [List.getElem?_range inside, Option.map_some, Option.map_some, own]
      by_cases here : (slot.order - 1) * 13 ≤ pos ∧ pos < (slot.order - 1) * 13 + (decoder.chars slot).length
      · have place : pos - (slot.order - 1) * 13 = pos % 13 := by omega
        have short : pos % 13 < (decoder.chars slot).length := by omega
        rw [if_pos here, if_pos ⟨by omega, short⟩, place, List.getD_eq_getElem?_getD, List.getElem?_eq_getElem short]
        rfl
      · rw [if_neg here, if_neg (by omega)]
    · rw [if_neg (by omega), List.getElem?_eq_none (by rw [List.length_range]; exact outside)]
      rfl
  · exact absurd fits (by rintro (empty | inside) <;> contradiction)

/-- The buffer behind a harmless slot that does not end the search. -/
theorem step_spelled (fits : slot.IsLong → decoder.Fits slot)
    (passed : slot.IsEntry → decoder.accepts slot (decoder.spelled (decoder.pending front)) = false) :
    decoder.step (decoder.spelled (decoder.pending front)) slot =
      some (decoder.spelled (decoder.pending (front ++ [slot]))) := by
  rw [pending_snoc, step, pend]
  split_ifs with deleted resets long ends
  · rw [spelled_nil]
  · rfl
  · exact storeChars_spelled (fits ⟨deleted, long⟩)
  · rw [passed ⟨deleted, long⟩] at ends
    contradiction
  · rw [spelled_nil]

/-- The stores of a slot are inside the buffer exactly when its characters fit. -/
theorem storeAccesses_safe : (∀ access ∈ storeAccesses slot.order (decoder.chars slot), access.Safe) ↔ decoder.Fits slot := by
  simp only [storeAccesses, List.mem_map, List.mem_range]
  constructor
  · intro safe
    by_cases empty : decoder.chars slot = []
    · exact .inl empty
    · right
      have some := List.length_pos_of_ne_nil empty
      have first : 0 ≤ ((slot.order : Int) - 1) * 13 + (0 : Nat) ∧ _ := safe _ ⟨0, some, rfl⟩
      have last : _ ∧ ((slot.order : Int) - 1) * 13 + ((decoder.chars slot).length - 1 : Nat) < longFilenameSize :=
        safe _ ⟨(decoder.chars slot).length - 1, by omega, rfl⟩
      have below := last.2
      omega
  · rintro (empty | fits) _ ⟨i, inside, rfl⟩
    · simp [empty] at inside
    · show (0 : Int) ≤ _ ∧ _ < (longFilenameSize : Int)
      omega

/-- The accesses at a slot are in order exactly when it is harmless. -/
theorem slotAccesses_safe :
    (∀ access ∈ decoder.slotAccesses (decoder.spelled (decoder.pending front)) slot, access.Safe) ↔
      decoder.Harmless front slot := by
  rw [slotAccesses]
  split_ifs with deleted long compared
  · exact ⟨fun _ => ⟨fun isLong => absurd deleted isLong.1, fun isEntry => absurd deleted isEntry.1⟩, fun _ => by simp⟩
  · rw [storeAccesses_safe]
    exact ⟨fun fits => ⟨fun _ => fits, fun isEntry => absurd long isEntry.2⟩, fun harmless => harmless.fits ⟨deleted, long⟩⟩
  · rw [List.forall_mem_singleton, LongNameAccess.Safe, mem_spelled]
    exact ⟨fun zero => ⟨fun isLong => absurd isLong.2 long, fun _ _ => zero⟩,
      fun harmless => harmless.terminated ⟨deleted, long⟩ compared⟩
  · exact ⟨fun _ => ⟨fun isLong => absurd isLong.2 long, fun _ compares => absurd compares compared⟩, fun _ => by simp⟩

theorem accesses_append {longName : List UInt8} :
    decoder.accesses longName (front ++ back) =
      decoder.accesses longName front ++
        match decoder.run longName front with
        | none => []
        | some longName => decoder.accesses longName back := by
  induction front generalizing longName with
  | nil => rfl
  | cons slot rest ih =>
      rw [List.cons_append, accesses, accesses, run]
      cases decoder.step longName slot with
      | none => simp
      | some next => simp [ih]

theorem passes_nil : decoder.Passes [] := by
  intro before entry after same
  simp at same

theorem passes_snoc : decoder.Passes (front ++ [slot]) ↔
    decoder.Passes front ∧
      (slot.IsEntry → decoder.accepts slot (decoder.spelled (decoder.pending front)) = false) := by
  constructor
  · intro passes
    exact ⟨fun before entry after same => passes before entry (after ++ [slot]) (by simp [same]),
      passes front slot [] rfl⟩
  · rintro ⟨passes, goes⟩ before entry after same isEntry
    rcases List.eq_nil_or_concat after with rfl | ⟨after', last, rfl⟩
    · obtain ⟨rfl, last⟩ := List.append_inj' same rfl
      obtain rfl : slot = entry := (List.cons.inj last).1
      exact goes isEntry
    · have inner : front ++ [slot] = (before ++ entry :: after') ++ [last] := by simpa using same
      exact passes before entry after' (List.append_inj' inner rfl).1 isEntry

/-- One slot of a search: it is harmless itself, and so is what is behind it if the search goes on. -/
theorem forall_reached_cons (split : slots = front ++ slot :: back) (passes : decoder.Passes front) :
    (∀ middle other, decoder.Reached slots (front ++ middle) other → decoder.Harmless (front ++ middle) other) ↔
      decoder.Harmless front slot ∧ (decoder.Passes (front ++ [slot]) →
        ∀ middle other, decoder.Reached slots (front ++ [slot] ++ middle) other →
          decoder.Harmless (front ++ [slot] ++ middle) other) := by
  constructor
  · intro harmless
    constructor
    · have own := harmless [] slot
      rw [List.append_nil] at own
      exact own ⟨⟨back, split⟩, passes⟩
    · intro _ middle other
      rw [List.append_assoc]
      exact harmless _ other
  · rintro ⟨own, behind⟩ middle other reached
    obtain ⟨rest, split'⟩ := reached.split
    rw [split, List.append_assoc, List.append_cancel_left_eq] at split'
    cases middle with
    | nil =>
        obtain rfl : slot = other := (List.cons.inj split').1
        rwa [List.append_nil]
    | cons head tail =>
        obtain rfl : slot = head := (List.cons.inj split').1
        have moved : front ++ slot :: tail = front ++ [slot] ++ tail := by simp
        rw [moved] at reached ⊢
        refine behind (fun before entry after same => ?_) tail other reached
        exact reached.passed before entry (after ++ tail) (by rw [same]; simp)

/-- The accesses of a search are in order exactly when every slot it gets to is harmless. -/
theorem accesses_safe :
    (∀ access ∈ decoder.accesses emptyLongName slots, access.Safe) ↔
      ∀ front slot, decoder.Reached slots front slot → decoder.Harmless front slot := by
  -- along the slots, with those in front fixed
  suffices along : ∀ back front, slots = front ++ back → decoder.Passes front →
      ((∀ access ∈ decoder.accesses (decoder.spelled (decoder.pending front)) back, access.Safe) ↔
        ∀ middle slot, decoder.Reached slots (front ++ middle) slot → decoder.Harmless (front ++ middle) slot) by
    have whole := along slots [] rfl passes_nil
    rwa [show decoder.pending [] = [] from rfl, spelled_nil] at whole
  intro back
  induction back with
  | nil =>
      rintro front rfl _
      constructor
      · intro _ middle slot reached
        obtain ⟨back, split⟩ := reached.split
        simp at split
      · intro _
        simp [accesses]
  | cons slot rest ih =>
      intro front split passes
      rw [accesses, List.forall_mem_append, slotAccesses_safe, forall_reached_cons split passes]
      apply and_congr_right
      intro harmless
      by_cases goes : slot.IsEntry → decoder.accepts slot (decoder.spelled (decoder.pending front)) = false
      · have passes' := passes_snoc.mpr ⟨passes, goes⟩
        rw [step_spelled harmless.fits goes]
        exact (ih (front ++ [slot]) (by rw [split, List.append_assoc]; rfl) passes').trans
          ⟨fun behind _ => behind, fun behind => behind passes'⟩
      · -- the search ends here
        have ended : decoder.step (decoder.spelled (decoder.pending front)) slot = none := by
          obtain ⟨isEntry, accepted⟩ := Classical.not_imp.mp goes
          rw [Bool.not_eq_false] at accepted
          rw [step, if_neg isEntry.1, if_neg isEntry.2, if_pos accepted]
        rw [ended]
        exact ⟨fun _ passes' => absurd (passes_snoc.mp passes').2 goes, fun _ => by simp⟩

end NameDecoder

/-! ## The slots of a search -/

/-- The clusters the loop of a lookup goes through in its first rounds when no visit ends it. -/
def walkCells (vol : Volume) : Nat → Nat → List Nat
  | 0, _ => []
  | rounds + 1, curr =>
      if isValidCluster curr then
        let next := fat32GetNextCluster vol curr
        curr :: if isEndOfClusterChain next then [] else walkCells vol rounds next
      else []

/-- The slots of `fat32_find_file`: a slot that was never used ends its cluster. -/
def findFileSlots (vol : Volume) (rounds dirCluster : Nat) : List Slot :=
  (walkCells vol rounds dirCluster).flatMap fun cell => usedSlots (clusterSlots vol cell)

/-- The slots of `fat32_dir_exists`: a slot that was never used ends the directory. -/
def dirExistsSlots (vol : Volume) (rounds dirCluster : Nat) : List Slot :=
  usedSlots ((walkCells vol rounds dirCluster).flatMap (clusterSlots vol))

/-- The state with which a scan goes on. -/
def Scan.next? {State Result : Type} : Scan State Result → Option State
  | .next state => some state
  | _ => none

section Slots

variable {vol : Volume} {name longName : List UInt8} {curr index rounds dirCluster : Nat} {slots front back : List Slot}
  {slot : Slot}

theorem usedSlots_cons_zero (zero : slot.firstByte = 0) : usedSlots (slot :: slots) = [] := by
  rw [usedSlots, List.takeWhile_cons_of_neg (by simpa using zero)]

theorem usedSlots_cons (used : slot.firstByte ≠ 0) : usedSlots (slot :: slots) = slot :: usedSlots slots := by
  rw [usedSlots, List.takeWhile_cons_of_pos (by simpa using used), usedSlots]

theorem usedSlots_append :
    usedSlots (front ++ back) = if usedSlots front = front then front ++ usedSlots back else usedSlots front := by
  have whole : (usedSlots front).length = front.length ↔ usedSlots front = front :=
    ⟨(List.takeWhile_prefix _).eq_of_length, congrArg List.length⟩
  unfold usedSlots at whole ⊢
  simp only [List.takeWhile_append, whole]

theorem findFileDecoder_step :
    (findFileDecoder name).step longName slot =
      if slot.firstByte = deletedMark then some longName
      else if slot.attr = attrLongName then storeChars longName slot.order (slot.units.map UInt8.ofNat)
      else if cString longName = name ∨ slot.name = fat32Format83Name name then none else some emptyLongName := by
  simp [NameDecoder.step, findFileDecoder]

theorem dirExistsDecoder_step :
    (dirExistsDecoder name).step longName slot =
      if slot.firstByte = deletedMark then some emptyLongName
      else if slot.attr = attrLongName then storeChars longName slot.order (keptChars slot)
      else if slot.attr &&& attrDirectory ≠ 0 ∧
          (cString longName ≠ [] ∧ cString longName = name ∨ slot.name = fat32Format83Name name) then none
      else some emptyLongName := by
  simp [NameDecoder.step, dirExistsDecoder]

/-- The slot loop of `fat32_find_file` goes on with the buffer of the decoding. -/
theorem findFileVisit_next? :
    (findFileVisit name (fat32Format83Name name) longName curr index slots).next? =
      (findFileDecoder name).run longName (usedSlots slots) := by
  induction slots generalizing longName index with
  | nil => rfl
  | cons slot rest ih =>
      rw [findFileVisit]
      by_cases zero : slot.firstByte = 0
      · rw [if_pos zero, usedSlots_cons_zero zero]
        rfl
      · rw [if_neg zero, usedSlots_cons zero, NameDecoder.run, findFileDecoder_step]
        split_ifs
        · exact ih
        · cases storeChars longName slot.order (slot.units.map UInt8.ofNat) with
          | none => rfl
          | some longName => exact ih
        · rfl
        · exact ih

/-- That of `fat32_dir_exists` does so when it is through with the cluster. -/
theorem dirExistsVisit_next? :
    (dirExistsVisit name (fat32Format83Name name) longName curr slots).next? =
      if usedSlots slots = slots then (dirExistsDecoder name).run longName slots else none := by
  induction slots generalizing longName with
  | nil => rfl
  | cons slot rest ih =>
      rw [dirExistsVisit]
      by_cases zero : slot.firstByte = 0
      · rw [if_pos zero, usedSlots_cons_zero zero, if_neg (by simp)]
        rfl
      · have same : (usedSlots (slot :: rest) = slot :: rest) = (usedSlots rest = rest) := by
          rw [usedSlots_cons zero, List.cons.injEq, eq_self, true_and]
        simp only [if_neg zero, same]
        rw [NameDecoder.run, dirExistsDecoder_step]
        have later : ∀ next, (dirExistsVisit name (fat32Format83Name name) next curr rest).next? =
            if usedSlots rest = rest then (some next).bind fun next => (dirExistsDecoder name).run next rest else none :=
          fun next => ih
        by_cases deleted : slot.firstByte = deletedMark
        · rw [if_pos deleted, if_pos deleted]
          exact later _
        · rw [if_neg deleted, if_neg deleted]
          by_cases long : slot.attr = attrLongName
          · rw [if_pos long, if_pos long]
            cases storeChars longName slot.order (keptChars slot) with
            | none => simp [Scan.next?]
            | some next => exact later _
          · rw [if_neg long, if_neg long]
            by_cases ends : slot.attr &&& attrDirectory ≠ 0 ∧
                (cString longName ≠ [] ∧ cString longName = name ∨ slot.name = fat32Format83Name name)
            · rw [if_pos ends, if_pos ends]
              simp [Scan.next?]
            · rw [if_neg ends, if_neg ends]
              exact later _

/-- What the loop of a lookup does with the buffer, by the state its visit goes on with. -/
theorem scanAccesses_succ {Result : Type} {decoder : NameDecoder}
    {visit : List UInt8 → Nat → List Slot → Scan (List UInt8) Result} (valid : isValidCluster curr = true) :
    scanAccesses decoder visit vol (rounds + 1) longName curr =
      decoder.accesses longName (usedSlots (clusterSlots vol curr)) ++
        match (visit longName curr (clusterSlots vol curr)).next? with
        | none => []
        | some longName =>
            if isEndOfClusterChain (fat32GetNextCluster vol curr) then []
            else scanAccesses decoder visit vol rounds longName (fat32GetNextCluster vol curr) := by
  rw [scanAccesses, if_pos valid]
  cases visit longName curr (clusterSlots vol curr) <;> rfl

theorem scanAccesses_findFile :
    scanAccesses (findFileDecoder name)
        (fun longName curr slots => findFileVisit name (fat32Format83Name name) longName curr 0 slots) vol rounds longName
        curr =
      (findFileDecoder name).accesses longName (findFileSlots vol rounds curr) := by
  induction rounds generalizing longName curr with
  | zero => rfl
  | succ rounds ih =>
      by_cases valid : isValidCluster curr = true
      · rw [scanAccesses_succ valid, findFileVisit_next?, findFileSlots, walkCells, if_pos valid, List.flatMap_cons,
          NameDecoder.accesses_append]
        cases (findFileDecoder name).run longName (usedSlots (clusterSlots vol curr)) with
        | none => rfl
        | some next =>
            dsimp only
            split_ifs
            · rfl
            · rw [ih, findFileSlots]
      · rw [scanAccesses, if_neg valid, findFileSlots, walkCells, if_neg valid]
        rfl

theorem scanAccesses_dirExists :
    scanAccesses (dirExistsDecoder name) (dirExistsVisit name (fat32Format83Name name)) vol rounds longName curr =
      (dirExistsDecoder name).accesses longName (dirExistsSlots vol rounds curr) := by
  induction rounds generalizing longName curr with
  | zero => rfl
  | succ rounds ih =>
      by_cases valid : isValidCluster curr = true
      · rw [scanAccesses_succ valid, dirExistsVisit_next?, dirExistsSlots, walkCells, if_pos valid, List.flatMap_cons,
          usedSlots_append]
        by_cases through : usedSlots (clusterSlots vol curr) = clusterSlots vol curr
        · rw [if_pos through, if_pos through, NameDecoder.accesses_append, through]
          cases (dirExistsDecoder name).run longName (clusterSlots vol curr) with
          | none => rfl
          | some next =>
              dsimp only
              split_ifs
              · rfl
              · rw [ih, dirExistsSlots]
        · rw [if_neg through, if_neg through, List.append_nil]
      · rw [scanAccesses, if_neg valid, dirExistsSlots, walkCells, if_neg valid]
        rfl

end Slots

/-! ## Directories that do no harm -/

/-- In all rounds of a search for `name` in a directory, by either function, the buffer is used in
order. -/
def LongNamesSafe (vol : Volume) (dirCluster : Nat) (name : List UInt8) : Prop :=
  (∀ rounds, ∀ access ∈ fat32FindFileAccesses vol rounds dirCluster name, access.Safe) ∧
    ∀ rounds, ∀ access ∈ fat32DirExistsAccesses vol rounds dirCluster name, access.Safe

/-- Every long-name slot that `fat32_find_file` gets to has one of the numbers 1 to 19. -/
def FindFileNumbered (vol : Volume) (dirCluster : Nat) (name : List UInt8) : Prop :=
  ∀ rounds front slot, (findFileDecoder name).Reached (findFileSlots vol rounds dirCluster) front slot →
    slot.IsLong → 1 ≤ slot.order ∧ slot.order ≤ 19

/-- Every long-name slot that `fat32_dir_exists` gets to has room for the characters kept of it,
and at no directory it gets to do the long-name slots in front fill all of the buffer. -/
def DirExistsRoom (vol : Volume) (dirCluster : Nat) (name : List UInt8) : Prop :=
  ∀ rounds front slot, (dirExistsDecoder name).Reached (dirExistsSlots vol rounds dirCluster) front slot →
    (slot.IsLong → keptChars slot = [] ∨
      1 ≤ slot.order ∧ (slot.order - 1) * 13 + (keptChars slot).length ≤ longFilenameSize) ∧
    (slot.IsEntry → slot.IsDirectory → ∃ pos < longFilenameSize,
      (dirExistsDecoder name).charAt ((dirExistsDecoder name).pending front) pos = 0)

section Exactly

variable {name : List UInt8} {slots front : List Slot} {slot : Slot}

theorem findFileDecoder_fits : (findFileDecoder name).Fits slot ↔ 1 ≤ slot.order ∧ slot.order ≤ 19 := by
  have thirteen : ((findFileDecoder name).chars slot).length = 13 := by
    show (slot.units.map UInt8.ofNat).length = 13
    rw [List.length_map, slot.length_units]
  have some : (findFileDecoder name).chars slot ≠ [] := by
    intro none
    simp [none] at thirteen
  rw [NameDecoder.Fits, thirteen, longFilenameSize]
  constructor
  · rintro (none | inside)
    · exact absurd none some
    · omega
  · intro number
    right
    omega

/-- The slots that count are long-name slots the search has passed. -/
theorem NameDecoder.mem_pending {decoder : NameDecoder} (member : slot ∈ decoder.pending front) :
    slot.IsLong ∧ ∃ before after, front = before ++ slot :: after := by
  induction front using List.reverseRecOn with
  | nil => simp [pending] at member
  | append_singleton front last ih =>
      have earlier : slot ∈ decoder.pending front → slot.IsLong ∧ ∃ before after, front ++ [last] = before ++ slot :: after := by
        intro member
        obtain ⟨isLong, before, after, rfl⟩ := ih member
        exact ⟨isLong, before, after ++ [last], by simp⟩
      rw [pending_snoc, pend] at member
      split_ifs at member with deleted resets long
      · simp at member
      · exact earlier member
      · rcases List.mem_cons.mp member with rfl | member
        · exact ⟨⟨deleted, long⟩, front, [], rfl⟩
        · exact earlier member
      · simp at member

theorem NameDecoder.Reached.earlier {decoder : NameDecoder} {before after : List Slot} {other : Slot}
    (reached : decoder.Reached slots front slot) (split : front = before ++ other :: after) :
    decoder.Reached slots before other := by
  obtain ⟨back, whole⟩ := reached.split
  refine ⟨⟨after ++ slot :: back, by rw [whole, split]; simp⟩, fun first entry middle same => ?_⟩
  exact reached.passed first entry (middle ++ other :: after) (by rw [split, same]; simp)

/-- With numbers up to 19 the end of the buffer is never written. -/
theorem findFile_harmless : (∀ front slot, (findFileDecoder name).Reached slots front slot →
      (findFileDecoder name).Harmless front slot) ↔
    ∀ front slot, (findFileDecoder name).Reached slots front slot → slot.IsLong → 1 ≤ slot.order ∧ slot.order ≤ 19 := by
  constructor
  · intro harmless front slot reached isLong
    exact findFileDecoder_fits.mp ((harmless front slot reached).fits isLong)
  · intro numbered front slot reached
    refine ⟨fun isLong => findFileDecoder_fits.mpr (numbered front slot reached isLong), fun _ _ => ⟨255, by decide, ?_⟩⟩
    have unwritten : ((findFileDecoder name).pending front).findSome? (fun slot =>
        if slot.order = 255 / 13 + 1 then ((findFileDecoder name).chars slot)[255 % 13]? else none) = none := by
      apply List.findSome?_eq_none_iff.mpr
      intro other member
      obtain ⟨isLong, before, after, split⟩ := NameDecoder.mem_pending member
      have number := numbered before other (reached.earlier split) isLong
      exact if_neg (by omega)
    rw [NameDecoder.charAt, unwritten]
    rfl

/-- Where nothing is compared the buffer starts with a zero. -/
theorem dirExists_harmless : (dirExistsDecoder name).Harmless front slot ↔
    (slot.IsLong → keptChars slot = [] ∨
      1 ≤ slot.order ∧ (slot.order - 1) * 13 + (keptChars slot).length ≤ longFilenameSize) ∧
    (slot.IsEntry → slot.IsDirectory → ∃ pos < longFilenameSize,
      (dirExistsDecoder name).charAt ((dirExistsDecoder name).pending front) pos = 0) := by
  have compares : ∀ longName, (dirExistsDecoder name).compares slot longName = true ↔
      slot.IsDirectory ∧ cString longName ≠ [] := fun longName => decide_eq_true_iff
  constructor
  · intro harmless
    refine ⟨harmless.fits, fun isEntry directory => ?_⟩
    by_cases empty : cString ((dirExistsDecoder name).spelled ((dirExistsDecoder name).pending front)) = []
    · refine ⟨0, by decide, ?_⟩
      have first : (dirExistsDecoder name).spelled ((dirExistsDecoder name).pending front) =
          (dirExistsDecoder name).charAt ((dirExistsDecoder name).pending front) 0 ::
            (List.range 255).map fun pos =>
              (dirExistsDecoder name).charAt ((dirExistsDecoder name).pending front) (pos + 1) := by
        rw [NameDecoder.spelled, longFilenameSize, List.range_succ_eq_map, List.map_cons, List.map_map]
        rfl
      by_contra nonzero
      rw [first, cString, List.takeWhile_cons_of_pos (by simpa using nonzero)] at empty
      simp at empty
    · exact harmless.terminated isEntry ((compares _).mpr ⟨directory, empty⟩)
  · rintro ⟨fits, terminated⟩
    exact ⟨fits, fun isEntry compared => terminated isEntry ((compares _).mp compared).1⟩

/-- The buffer is used in order exactly in directories with these numbers and this room. -/
theorem longNamesSafe_iff (vol : Volume) (dirCluster : Nat) (name : List UInt8) :
    LongNamesSafe vol dirCluster name ↔ FindFileNumbered vol dirCluster name ∧ DirExistsRoom vol dirCluster name := by
  apply and_congr
  · apply forall_congr'
    intro rounds
    rw [fat32FindFileAccesses, scanAccesses_findFile, NameDecoder.accesses_safe]
    exact findFile_harmless
  · apply forall_congr'
    intro rounds
    rw [fat32DirExistsAccesses, scanAccesses_dirExists, NameDecoder.accesses_safe]
    simp only [dirExists_harmless]

end Exactly

/-- A root directory with a long-name slot of number zero. -/
def unnumberedVolume : Volume :=
  fat32WriteCluster emptyVolume 2 (overwrite (List.replicate 512 0) 0
    (0x40 :: List.replicate 10 0x41 ++ [attrLongName] ++ List.replicate 20 0x41))

/-- Both functions store in front of the buffer there. -/
theorem longNamesSafe_unnumbered :
    .store (-13) ∈ fat32FindFileAccesses unnumberedVolume 1 2 [0x41] ∧
      .store (-13) ∈ fat32DirExistsAccesses unnumberedVolume 1 2 [0x41] ∧
      ¬ LongNamesSafe unnumberedVolume 2 [0x41] := by
  have stored : .store (-13) ∈ fat32FindFileAccesses unnumberedVolume 1 2 [0x41] := by decide +kernel
  refine ⟨stored, by decide +kernel, fun safe => ?_⟩
  exact absurd (safe.1 1 _ stored) (by decide)

end KeblaOS.Fat32
