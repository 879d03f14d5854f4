import KeblaOS.Lib.RecordWalk
import KeblaOS.Iso9660.Directory
import KeblaOS.Ext2.Directory

/-!
# Walks over directory records stay inside of their buffers

`iso9660_find_file` counts what it has processed in 32 bits and moves a pointer next to it;
`iso9660_readdir` adds its offset to the start of the buffer. Both test the length byte only for
zero. The rounds here say which bytes they touch of a buffer of `dir_size` bytes; a loop that
completes does what the walkers of `Iso9660.Directory` do. The last theorem is about these two and
the walks over ext2 directories.
-/

namespace KeblaOS.Iso9660

open KeblaOS.Fat32 (u32 u32_of_lt)

/-! ## The loops -/

/-- Number of bytes of the name that are read: behind a semicolon that is the last but one, the
last one is not. -/
def usedNameBytes (record : List UInt8) : Nat :=
  if 2 ≤ fileIdLength record ∧ record.getD (33 + fileIdLength record - 2) 0 = semicolon then fileIdLength record - 1
  else fileIdLength record

/-- What both loops add to the offset of a record. -/
def recordStep (record : List UInt8) (sectorSize processed : UInt32) : UInt32 :=
  if recordLength record = 0 then sectorSize - processed % sectorSize else UInt32.ofNat (recordLength record)

/-- A round of `iso9660_find_file`; its state is `ptr - buffer` and `processed`. -/
def findFileRound (buffer : List UInt8) (sectorSize dirSize : UInt32) (filename : List UInt8) (state : Nat × UInt32) :
    Round (Nat × UInt32) (Option IsoEntry) :=
  if state.2 < dirSize then
    if dirSize.toNat ≤ state.1 then .fault
    else
      let record := buffer.drop state.1
      let step := recordStep record sectorSize state.2
      if recordLength record = 0 then .goes (state.1 + step.toNat, state.2 + step)
      else if dirSize.toNat < state.1 + 33 + usedNameBytes record then .fault
      else if isDotRecord record then .goes (state.1 + step.toNat, state.2 + step)
      else if parseFilename record = filename then .ends (some (entryOf record))
      else .goes (state.1 + step.toNat, state.2 + step)
  else .ends none

/-- A round of `iso9660_readdir`. -/
def readdirRound (buffer : List UInt8) (size : UInt32) (offset : UInt32) : Round UInt32 ReaddirResult :=
  if offset < size then
    let record := buffer.drop offset.toNat
    let next := offset + recordStep record 2048 offset
    if recordLength record = 0 then .goes next
    else if size.toNat < offset.toNat + 33 + usedNameBytes record then .fault
    else if isDotRecord record then .goes next
    else .ends ⟨1, some (entryOf record), ⟨buffer, size.toNat, next.toNat⟩⟩
  else .ends ⟨0, none, ⟨buffer, size.toNat, offset.toNat⟩⟩

/-! ## When they stay inside -/

/-- The record lies in the buffer: its length byte, and unless that is zero its header and what is
read of its name. -/
structure RecordInside (buffer : List UInt8) (size : UInt32) (ptr : Nat) : Prop where
  length : ptr < size.toNat
  name : recordLength (buffer.drop ptr) ≠ 0 → ptr + 33 + usedNameBytes (buffer.drop ptr) ≤ size.toNat

/-- The record is passed over. -/
def PassedOver (buffer : List UInt8) (ptr : Nat) : Prop :=
  recordLength (buffer.drop ptr) = 0 ∨ isDotRecord (buffer.drop ptr) = true

/-- Every record `iso9660_find_file` gets to lies in the buffer. -/
def FindFileSound (buffer : List UInt8) (sectorSize dirSize : UInt32) (filename : List UInt8) : Prop :=
  ∀ state, Meets (fun state => state.2 < dirSize ∧ (PassedOver buffer state.1 ∨ parseFilename (buffer.drop state.1) ≠ filename))
      (fun state => (state.1 + (recordStep (buffer.drop state.1) sectorSize state.2).toNat,
        state.2 + recordStep (buffer.drop state.1) sectorSize state.2)) (0, 0) state →
    state.2 < dirSize → RecordInside buffer dirSize state.1

/-- Every record `iso9660_readdir` gets to lies in the buffer, and it comes back to none, which it
could only where the offset wraps. -/
def ReaddirSound (buffer : List UInt8) (size offset : UInt32) : Prop :=
  ∀ state, Meets (fun offset => offset < size ∧ PassedOver buffer offset.toNat)
      (fun offset => offset + recordStep (buffer.drop offset.toNat) 2048 offset) offset state →
    (state < size → RecordInside buffer size state.toNat) ∧
      ¬ Returns (fun offset => offset < size ∧ PassedOver buffer offset.toNat)
        (fun offset => offset + recordStep (buffer.drop offset.toNat) 2048 offset) state

section Walks

variable {buffer : List UInt8} {sectorSize dirSize size offset : UInt32} {filename : List UInt8}

/-- Both loops make progress. -/
theorem recordStep_positive (record : List UInt8) (processed : UInt32) (some : 0 < sectorSize) :
    0 < (recordStep record sectorSize processed).toNat := by
  unfold recordStep
  split_ifs with unused
  · have rest : processed % sectorSize < sectorSize := UInt32.mod_lt _ some
    have bound : (processed % sectorSize).toNat < sectorSize.toNat := UInt32.lt_iff_toNat_lt.mp rest
    rw [UInt32.toNat_sub_of_le _ _ (UInt32.le_of_lt rest)]
    omega
  · have bound : recordLength record < 256 := UInt8.toNat_lt _
    rw [UInt32.toNat_ofNat_of_lt' (bound.trans (by decide))]
    exact Nat.pos_of_ne_zero unused

theorem recordStep_le (record : List UInt8) (processed : UInt32) : (recordStep record 2048 processed).toNat ≤ 2048 := by
  unfold recordStep
  split_ifs
  · have rest : processed % 2048 < 2048 := UInt32.mod_lt _ (by decide)
    rw [UInt32.toNat_sub_of_le _ _ (UInt32.le_of_lt rest)]
    exact Nat.sub_le _ _
  · have bound : recordLength record < 256 := UInt8.toNat_lt _
    rw [UInt32.toNat_ofNat_of_lt' (bound.trans (by decide))]
    omega

theorem rounds_findFile : Rounds (findFileRound buffer sectorSize dirSize filename)
    (fun state => state.2 < dirSize ∧ (PassedOver buffer state.1 ∨ parseFilename (buffer.drop state.1) ≠ filename))
    (fun state => state.2 < dirSize → RecordInside buffer dirSize state.1)
    (fun state => (state.1 + (recordStep (buffer.drop state.1) sectorSize state.2).toNat,
      state.2 + recordStep (buffer.drop state.1) sectorSize state.2)) where
  goes state safe passed := by
    obtain ⟨more, through⟩ := passed
    have inside := safe more
    rw [findFileRound, if_pos more, if_neg (Nat.not_le.mpr inside.length)]
    dsimp only
    by_cases unused : recordLength (buffer.drop state.1) = 0
    · rw [if_pos unused]
    · rw [if_neg unused, if_neg (Nat.not_lt.mpr (inside.name unused))]
      by_cases dot : isDotRecord (buffer.drop state.1) = true
      · rw [if_pos dot]
      · rw [if_neg dot, if_neg (through.resolve_left fun over_ => over_.elim unused dot)]
  ends state safe stops := by
    by_cases more : state.2 < dirSize
    · have inside := safe more
      obtain ⟨used, matched⟩ := not_or.mp fun through => stops ⟨more, through⟩
      obtain ⟨some, ordinary⟩ := not_or.mp used
      refine ⟨Option.some (entryOf (buffer.drop state.1)), ?_⟩
      rw [findFileRound, if_pos more, if_neg (Nat.not_le.mpr inside.length)]
      dsimp only
      rw [if_neg some, if_neg (Nat.not_lt.mpr (inside.name some)), if_neg ordinary, if_pos (not_not.mp matched)]
    · exact ⟨none, if_neg more⟩
  fault state harmful := by
    obtain ⟨more, outside⟩ := Classical.not_imp.mp harmful
    rw [findFileRound, if_pos more]
    by_cases beyond : dirSize.toNat ≤ state.1
    · rw [if_pos beyond]
    · rw [if_neg beyond]
      dsimp only
      have name : ¬ (recordLength (buffer.drop state.1) ≠ 0 →
          state.1 + 33 + usedNameBytes (buffer.drop state.1) ≤ dirSize.toNat) := fun name =>
        outside ⟨Nat.not_le.mp beyond, name⟩
      obtain ⟨used, long⟩ := Classical.not_imp.mp name
      rw [if_neg used, if_pos (Nat.not_le.mp long)]

theorem rounds_readdir : Rounds (readdirRound buffer size)
    (fun offset => offset < size ∧ PassedOver buffer offset.toNat)
    (fun offset => offset < size → RecordInside buffer size offset.toNat)
    (fun offset => offset + recordStep (buffer.drop offset.toNat) 2048 offset) where
  goes offset safe passed := by
    obtain ⟨more, through⟩ := passed
    rw [readdirRound, if_pos more]
    dsimp only
    by_cases unused : recordLength (buffer.drop offset.toNat) = 0
    · rw [if_pos unused]
    · rw [if_neg unused, if_neg (Nat.not_lt.mpr ((safe more).name unused)), if_pos (through.resolve_left unused)]
  ends offset safe stops := by
    by_cases more : offset < size
    · obtain ⟨some, ordinary⟩ := not_or.mp fun through => stops ⟨more, through⟩
      rw [readdirRound, if_pos more]
      dsimp only
      rw [if_neg some, if_neg (Nat.not_lt.mpr ((safe more).name some)), if_neg ordinary]
      exact ⟨_, rfl⟩
    · exact ⟨_, if_neg more⟩
  fault offset harmful := by
    obtain ⟨more, outside⟩ := Classical.not_imp.mp harmful
    have name : ¬ (recordLength (buffer.drop offset.toNat) ≠ 0 →
        offset.toNat + 33 + usedNameBytes (buffer.drop offset.toNat) ≤ size.toNat) := fun name =>
      outside ⟨UInt32.lt_iff_toNat_lt.mp more, name⟩
    obtain ⟨used, long⟩ := Classical.not_imp.mp name
    rw [readdirRound, if_pos more]
    dsimp only
    rw [if_neg used, if_pos (Nat.not_le.mp long)]

/-- `iso9660_find_file` completes exactly when its records lie in the buffer. -/
theorem findFile_completes_iff (some : 0 < sectorSize) :
    Completes (findFileRound buffer sectorSize dirSize filename) (0, 0) ↔
      FindFileSound buffer sectorSize dirSize filename := by
  have walk := @Rounds.completes_iff_of_measure _ _ _ _ _ _ (0, 0) (fun _ => True)
    (fun state => dirSize.toNat - state.1) (@rounds_findFile buffer sectorSize dirSize filename)
    (fun state safe passed _ => by
      have inside := (safe passed.1).length
      have positive := recordStep_positive (buffer.drop state.1) state.2 some
      dsimp only
      omega)
    fun _ _ _ stuck => absurd trivial stuck
  refine walk.trans (forall₂_congr fun state _ => ?_)
  exact and_iff_left fun _ => trivial

instance finite_uint32 : Finite UInt32 :=
  Finite.of_injective (fun word : UInt32 => (⟨word.toNat, word.toNat_lt⟩ : Fin (2 ^ 32))) fun _ _ same =>
    UInt32.toNat_inj.mp (congrArg Fin.val same)

/-- `iso9660_readdir` completes exactly when its records lie in the buffer and it comes back to
none of them. -/
theorem readdir_completes_iff : Completes (readdirRound buffer size) offset ↔ ReaddirSound buffer size offset :=
  rounds_readdir.completes_iff

/-- On a directory that ends 2048 bytes below `2 ^ 32` `iso9660_readdir` never comes back. -/
theorem readdirSound_iff_of_small (small : size.toNat + 2048 ≤ 2 ^ 32) :
    ReaddirSound buffer size offset ↔
      ∀ state, Meets (fun offset => offset < size ∧ PassedOver buffer offset.toNat)
          (fun offset => offset + recordStep (buffer.drop offset.toNat) 2048 offset) offset state →
        state < size → RecordInside buffer size state.toNat := by
  have walk := @Rounds.completes_iff_of_measure _ _ _ _ _ _ offset (fun _ => True)
    (fun offset => size.toNat - offset.toNat) (@rounds_readdir buffer size)
    (fun offset _ passed _ => by
      have positive := @recordStep_positive 2048 (buffer.drop offset.toNat) offset (by decide)
      have short := recordStep_le (buffer.drop offset.toNat) offset
      have inside : offset.toNat < size.toNat := UInt32.lt_iff_toNat_lt.mp passed.1
      rw [UInt32.toNat_add, Nat.mod_eq_of_lt (by omega)]
      omega)
    fun _ _ _ stuck => absurd trivial stuck
  rw [← readdir_completes_iff, walk]
  exact forall₂_congr fun state _ => and_iff_left fun _ => trivial

/-! ## What they come to -/

/-- The offset behind a record, as `iso9660_readdir` and `iso9660_find_file` compute it. -/
theorem toNat_add_recordStep (record : List UInt8) (processed : UInt32) (some : 0 < sectorSize) :
    (processed + recordStep record sectorSize processed).toNat =
      u32 (processed.toNat + if recordLength record = 0 then sectorSize.toNat - processed.toNat % sectorSize.toNat
        else recordLength record) := by
  have step : (recordStep record sectorSize processed).toNat =
      if recordLength record = 0 then sectorSize.toNat - processed.toNat % sectorSize.toNat else recordLength record := by
    unfold recordStep
    split_ifs with unused
    · rw [UInt32.toNat_sub_of_le _ _ (UInt32.le_of_lt (UInt32.mod_lt _ some)), UInt32.toNat_mod]
    · have bound : recordLength record < 256 := UInt8.toNat_lt _
      exact UInt32.toNat_ofNat_of_lt' (bound.trans (by decide))
  rw [UInt32.toNat_add, step]
  simp only [u32, Nat.reducePow]

/-- A round of `iso9660_readdir` that does not leave the buffer is one of `readdirLoop`. -/
theorem readdirLoop_succ {fuel : Nat} (inside : readdirRound buffer size offset ≠ .fault) :
    readdirLoop (fuel + 1) ⟨buffer, size.toNat, offset.toNat⟩ =
      match readdirRound buffer size offset with
      | .ends result => some result
      | .goes next => readdirLoop fuel ⟨buffer, size.toNat, next.toNat⟩
      | .fault => none := by
  have next := @toNat_add_recordStep 2048 (buffer.drop offset.toNat) offset (by decide)
  change (offset + recordStep (buffer.drop offset.toNat) 2048 offset).toNat =
    u32 (offset.toNat + if _ then 2048 - offset.toNat % 2048 else _) at next
  rw [readdirLoop]
  dsimp only
  unfold readdirRound at inside ⊢
  dsimp only at inside ⊢
  by_cases more : offset < size
  · rw [if_pos more] at inside ⊢
    rw [if_pos (UInt32.lt_iff_toNat_lt.mp more)]
    by_cases unused : recordLength (buffer.drop offset.toNat) = 0
    · rw [if_pos unused] at next
      rw [if_pos unused, if_pos unused]
      dsimp only
      rw [next]
    · rw [if_neg unused] at inside next ⊢
      have name : ¬ size.toNat < offset.toNat + 33 + usedNameBytes (buffer.drop offset.toNat) := fun beyond =>
        inside (if_pos beyond)
      rw [if_neg unused, if_neg name]
      by_cases dot : isDotRecord (buffer.drop offset.toNat) = true
      · rw [if_pos dot, if_pos dot]
        dsimp only
        rw [next]
      · rw [if_neg dot, if_neg dot]
        dsimp only
        rw [next]
  · rw [if_neg more, if_neg fun less => more (UInt32.lt_iff_toNat_lt.mpr less)]

/-- If `iso9660_readdir` completes, it does what `readdirLoop` says. -/
theorem readdirLoop_of_rounds {fuel : Nat} {result : ReaddirResult}
    (ended : rounds (readdirRound buffer size) fuel offset = some (some result)) :
    readdirLoop fuel ⟨buffer, size.toNat, offset.toNat⟩ = some result := by
  induction fuel generalizing offset with
  | zero => simp [rounds] at ended
  | succ fuel ih =>
      cases taken : readdirRound buffer size offset with
      | ends other =>
          rw [rounds_ends taken] at ended
          rw [readdirLoop_succ (by simp [taken]), taken]
          exact Option.some.inj ended
      | goes next =>
          rw [rounds_goes taken] at ended
          rw [readdirLoop_succ (by simp [taken]), taken]
          exact ih ended
      | fault => simp [rounds_fault taken] at ended

/-- As long as `processed` has not wrapped, a round of `iso9660_find_file` that does not leave the
buffer is one of `findFileLoop`. -/
theorem findFileLoop_succ {fuel : Nat} {processed : UInt32} (some : 0 < sectorSize)
    (inside : findFileRound buffer sectorSize dirSize filename (processed.toNat, processed) ≠ .fault) :
    findFileLoop buffer sectorSize.toNat dirSize.toNat filename (fuel + 1) processed.toNat =
      match findFileRound buffer sectorSize dirSize filename (processed.toNat, processed) with
      | .ends result => Option.some result
      | .goes next => findFileLoop buffer sectorSize.toNat dirSize.toNat filename fuel next.2.toNat
      | .fault => none := by
  have next := toNat_add_recordStep (buffer.drop processed.toNat) processed some
  rw [findFileLoop]
  dsimp only
  unfold findFileRound at inside ⊢
  dsimp only at inside ⊢
  by_cases more : processed < dirSize
  · have before : processed.toNat < dirSize.toNat := UInt32.lt_iff_toNat_lt.mp more
    rw [if_pos more, if_neg (Nat.not_le.mpr before)] at inside ⊢
    rw [if_pos before]
    by_cases unused : recordLength (buffer.drop processed.toNat) = 0
    · rw [if_pos unused] at next
      rw [if_pos unused, if_pos unused]
      dsimp only
      rw [next]
    · rw [if_neg unused] at inside next ⊢
      have name : ¬ dirSize.toNat < processed.toNat + 33 + usedNameBytes (buffer.drop processed.toNat) := fun beyond =>
        inside (if_pos beyond)
      rw [if_neg unused, if_neg name]
      by_cases dot : isDotRecord (buffer.drop processed.toNat) = true
      · rw [if_pos dot, if_pos dot]
        dsimp only
        rw [next]
      · rw [if_neg dot, if_neg dot]
        by_cases matched : parseFilename (buffer.drop processed.toNat) = filename
        · rw [if_pos matched, if_pos matched]
        · rw [if_neg matched, if_neg matched]
          dsimp only
          rw [next]
  · rw [if_neg more, if_neg fun less => more (UInt32.lt_iff_toNat_lt.mpr less)]

/-- If `iso9660_find_file` completes, it does what `findFileLoop` says. -/
theorem findFileLoop_of_rounds {fuel : Nat} {processed : UInt32} {result : Option IsoEntry} (some : 0 < sectorSize)
    (ended : rounds (findFileRound buffer sectorSize dirSize filename) fuel (processed.toNat, processed) =
      Option.some (Option.some result)) :
    findFileLoop buffer sectorSize.toNat dirSize.toNat filename fuel processed.toNat = Option.some result := by
  induction fuel generalizing processed with
  | zero => simp [rounds] at ended
  | succ fuel ih =>
      cases taken : findFileRound buffer sectorSize dirSize filename (processed.toNat, processed) with
      | ends other =>
          rw [rounds_ends taken] at ended
          rw [findFileLoop_succ some (by simp [taken]), taken]
          exact Option.some.inj ended
      | goes next =>
          obtain ⟨_, ⟨more, _⟩, rfl⟩ := rounds_findFile.of_goes taken
          rw [rounds_goes taken] at ended
          rw [findFileLoop_succ some (by simp [taken]), taken]
          dsimp only at ended ⊢
          have before : processed.toNat < dirSize.toNat := UInt32.lt_iff_toNat_lt.mp more
          have bound := dirSize.toNat_lt
          have step := (recordStep (buffer.drop processed.toNat) sectorSize processed).toNat_lt
          have sum : (processed + recordStep (buffer.drop processed.toNat) sectorSize processed).toNat =
              (processed.toNat + (recordStep (buffer.drop processed.toNat) sectorSize processed).toNat) % 2 ^ 32 :=
            UInt32.toNat_add _ _
          by_cases wraps : processed.toNat + (recordStep (buffer.drop processed.toNat) sectorSize processed).toNat < 2 ^ 32
          · rw [Nat.mod_eq_of_lt wraps] at sum
            rw [← sum] at ended
            exact ih ended
          · -- the count starts again below the end, while the pointer is behind the buffer
            have again : processed + recordStep (buffer.drop processed.toNat) sectorSize processed < dirSize := by
              rw [UInt32.lt_iff_toNat_lt, sum]
              omega
            have described := @rounds_findFile buffer sectorSize dirSize filename
            have inside := ((described.step ⟨result, fuel, ended⟩).1 again).length
            dsimp only at inside
            omega
      | fault => simp [rounds_fault taken] at ended

end Walks

/-- The four walks over directory records complete exactly when every record that they get to lies
in its buffer, and none leads back: the records of an ext2 directory have a length, and the offset
of `iso9660_readdir` does not come back by wrapping. -/
theorem directoryWalks_complete_iff (fs : Ext2.Ext2Fs) (sized : fs.BlockSized) (sectorSize : UInt32)
    (some : 0 < sectorSize) :
    (∀ buf iSize, Completes (Ext2.listDirRound buf fs.blockSize iSize) 0 ↔
        Ext2.ListDirSound buf fs.blockSize iSize) ∧
      (∀ buf nameLen, Completes (Ext2.createDirRound buf fs.blockSize nameLen) 0 ↔
        Ext2.CreateDirSound buf fs.blockSize nameLen) ∧
      (∀ buffer dirSize filename, Completes (findFileRound buffer sectorSize dirSize filename) (0, 0) ↔
        FindFileSound buffer sectorSize dirSize filename) ∧
      (∀ buffer size offset, Completes (readdirRound buffer size) offset ↔ ReaddirSound buffer size offset) :=
  ⟨fun _ _ => Ext2.listDir_completes_iff sized.le, fun _ _ => Ext2.createDir_completes_iff sized.le,
    fun _ _ _ => findFile_completes_iff some, fun _ _ _ => readdir_completes_iff⟩

/-- A sector with the record of the directory itself only. -/
def dotSector : List UInt8 := 34 :: List.replicate 31 0 ++ 1 :: List.replicate 2015 0

theorem directoryWalks_complete_dots :
    Ext2.ListDirSound Ext2.rootBlock 4096 4096 ∧ Ext2.CreateDirSound Ext2.rootBlock 4096 3 ∧
      FindFileSound dotSector 2048 2048 [0x41] ∧ ReaddirSound dotSector 2048 0 := by
  obtain ⟨listDir, createDir, findFile, readdir⟩ := directoryWalks_complete_iff (Ext2.mountedFs 0 33554432 [])
    (by unfold Ext2.Ext2Fs.BlockSized; decide) 2048 (by decide)
  have listed : rounds (Ext2.listDirRound Ext2.rootBlock 4096 4096) 3 0 = some (some ()) := by decide +kernel
  have created : rounds (Ext2.createDirRound Ext2.rootBlock 4096 3) 2 0 = some (some (some 12)) := by decide +kernel
  have found : rounds (findFileRound dotSector 2048 2048 [0x41]) 3 (0, 0) = some (some none) := by decide +kernel
  have read : rounds (readdirRound dotSector 2048) 3 0 = some (some ⟨0, none, ⟨dotSector, 2048, 2048⟩⟩) := by
    decide +kernel
  exact ⟨(listDir _ _).mp ⟨(), 3, listed⟩, (createDir _ _).mp ⟨some 12, 2, created⟩,
    (findFile _ _ _).mp ⟨none, 3, found⟩, (readdir _ _ _).mp ⟨_, 3, read⟩⟩

/-- Blocks of one byte value on which none of the walks completes: records without a length, and
records whose header ends behind the buffer. -/
theorem directoryWalks_incomplete :
    ¬ Completes (Ext2.listDirRound (List.replicate 4096 0) 4096 4096) 0 ∧
      ¬ Completes (Ext2.createDirRound (List.replicate 4096 0) 4096 3) 0 ∧
      ¬ Completes (findFileRound (List.replicate 2048 0xFF) 2048 2048 [0x41]) (0, 0) ∧
      ¬ Completes (readdirRound (List.replicate 2048 0xFF) 2048) 2040 := by
  refine ⟨?_, ?_, ?_, ?_⟩
  · rw [Ext2.listDir_completes_iff (by decide)]
    intro sound
    exact absurd (sound 0 .refl (by decide)).2 (by decide +kernel)
  · rw [Ext2.createDir_completes_iff (by decide)]
    intro sound
    exact absurd (sound 0 .refl (by decide)).2 (by decide +kernel)
  · have ended : rounds (findFileRound (List.replicate 2048 0xFF) 2048 2048 [0x41]) 9 (0, 0) = some none := by
      decide +kernel
    exact not_completes_of_rounds ended
  · have ended : rounds (readdirRound (List.replicate 2048 0xFF) 2048) 1 2040 = some none := by decide +kernel
    exact not_completes_of_rounds ended

end KeblaOS.Iso9660
