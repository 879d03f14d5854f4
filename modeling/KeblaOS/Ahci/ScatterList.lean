import KeblaOS.Ahci.Completion
import KeblaOS.Lib.Tiling
import KeblaOS.Memory.Ranges

/-!
# The buffer of a command

`runCommand` describes the buffer page by page. The number of bytes has 32 bits, so that it wraps around for 2^23
sectors and more, and every address goes through `phys_to_vir` and `vir_to_phys`, which gives 0 for an address
behind the end of the address space.
-/

namespace KeblaOS.Ahci

open Memory (physToVir virToPhys)

/-! ## The command in memory -/

/-- The bytes that an entry describes. -/
def PrdtEntry.span (entry : PrdtEntry) : Span := ⟨(address entry.dba entry.dbau).toNat, entry.dbc.toNat + 1⟩

/-- A span inside one page. -/
def InPage (span : Span) : Prop := span.start / 4096 = (span.start + span.size - 1) / 4096

/-- The number of sectors that the FIS asks for. -/
def FisRegH2d.sectors (fis : FisRegH2d) : Nat :=
  if fis.countl.toNat + 256 * fis.counth.toNat = 0 then 65536 else fis.countl.toNat + 256 * fis.counth.toNat

/-- The entries stored, with their places. -/
def entriesOf (log : List Access) : List (UInt64 × PrdtEntry) :=
  log.filterMap fun
    | .prdt address entry => some (address, entry)
    | _ => none

/-- The lengths stored in command headers. -/
def lengthsOf (log : List Access) : List UInt16 :=
  log.filterMap fun
    | .prdtl _ length => some length
    | _ => none

/-- The FISes stored, with their places. -/
def fisesOf (log : List Access) : List (UInt64 × FisRegH2d) :=
  log.filterMap fun
    | .fis address fis => some (address, fis)
    | _ => none

/-- The command stored describes the buffer: its entries are stored one after the other behind the FIS, each of
them stays in one page, and they tile the bytes of the buffer; the header has their number and the FIS the number
of sectors. -/
structure DescribesBuffer (request : CommandRequest) (log : List Access) : Prop where
  placed : ∃ table, (fisesOf log).map Prod.fst = [table] ∧
    (entriesOf log).map Prod.fst =
      (List.range (entriesOf log).length).map fun i => table + 0x80 + 16 * UInt64.ofNat i
  tiles : Tiles request.physBuf.toNat ((entriesOf log).map fun stored => stored.2.span)
    (request.physBuf.toNat + 512 * request.count.toNat)
  inPage : ∀ stored ∈ entriesOf log, InPage stored.2.span
  length : (lengthsOf log).map UInt16.toNat = [(entriesOf log).length]
  sectors : (fisesOf log).map (fun stored => stored.2.sectors) = [request.count.toNat]

/-- The addresses described are those of the buffer, each one once and in order. -/
theorem DescribesBuffer.numbers_eq {request : CommandRequest} {log : List Access} (describes : DescribesBuffer request log) :
    ((entriesOf log).map fun stored => stored.2.span).flatMap Span.numbers =
      List.range' request.physBuf.toNat (512 * request.count.toNat) := by
  rw [describes.tiles.numbers_eq, Nat.add_sub_cancel_left]

/-! ## The loop -/

section Loop

variable {hhdm virt : UInt64}

theorem toNat_address_halves (phys : UInt64) : (address phys.toUInt32 (phys >>> 32).toUInt32).toNat = phys.toNat := by
  have bound := phys.toNat_lt
  have upper : ((phys >>> 32).toUInt32.toUInt64 <<< 32).toNat = phys.toNat / 2 ^ 32 * 2 ^ 32 := by
    simp only [UInt64.toNat_shiftLeft, UInt32.toNat_toUInt64, UInt64.toNat_toUInt32, UInt64.toNat_shiftRight,
      UInt64.reduceToNat, Nat.shiftLeft_eq, Nat.shiftRight_eq_div_pow, Nat.reduceMod]
    omega
  have lower : phys.toUInt32.toUInt64.toNat = phys.toNat % 2 ^ 32 := by
    simp only [UInt32.toNat_toUInt64, UInt64.toNat_toUInt32]
  have half : phys.toNat % 2 ^ 32 < 2 ^ 32 := Nat.mod_lt _ (by decide)
  rw [address, UInt64.toNat_or, upper, lower, ← Nat.shiftLeft_eq, ← Nat.shiftLeft_add_eq_or_of_lt half, Nat.shiftLeft_eq]
  exact Nat.div_add_mod' _ _

/-- Going to a virtual address and back keeps an address exactly when the virtual one is not behind the end of the
address space. -/
theorem virToPhys_iff (phys : UInt64) (offset : UInt32) :
    (virToPhys hhdm (physToVir hhdm phys + offset.toUInt64)).toNat = phys.toNat + offset.toNat ↔
      phys.toNat + offset.toNat + hhdm.toNat < 18446744073709551616 := by
  have bound := phys.toNat_lt
  have bound' := hhdm.toNat_lt
  have small := offset.toNat_lt
  have sum : (physToVir hhdm phys + offset.toUInt64).toNat =
      (phys.toNat + hhdm.toNat + offset.toNat) % 18446744073709551616 := by
    rw [physToVir, UInt64.toNat_add, UInt64.toNat_add, UInt32.toNat_toUInt64, Nat.mod_add_mod]
  unfold virToPhys
  generalize physToVir hhdm phys + offset.toUInt64 = va at sum
  by_cases null : va = 0
  · rw [if_pos null]
    rw [null] at sum
    simp only [UInt64.toNat_zero] at sum ⊢
    omega
  · rw [if_neg null]
    by_cases low : va ≤ hhdm
    · rw [if_pos low]
      rw [UInt64.le_iff_toNat_le] at low
      simp only [UInt64.toNat_zero]
      omega
    · rw [if_neg low]
      rw [UInt64.le_iff_toNat_le] at low
      rw [UInt64.toNat_sub_of_le _ _ (UInt64.le_iff_toNat_le.mpr (by omega))]
      omega

/-- The start of the last page of these bytes, or of the first one. -/
def lastStart (start total : Nat) : Nat := max start (4096 * ((start + total - 1) / 4096))

/-- One more page of a buffer. -/
theorem lastStart_step {start total top : Nat} (within : start + top < 18446744073709551616) :
    (total - min total (4096 - start % 4096) = 0 ∨
        lastStart (start + min total (4096 - start % 4096)) (total - min total (4096 - start % 4096)) + top <
          18446744073709551616) ↔
      lastStart start total + top < 18446744073709551616 := by
  unfold lastStart
  omega

/-- One turn of the loop: the part of the buffer in one page. -/
theorem prdtLoop_succ (virt : UInt64) (room : Nat) (offset total : UInt32) (some_byte : total ≠ 0) :
    ∃ entry chunk,
      prdtLoop hhdm virt (room + 1) offset total =
        (entry :: (prdtLoop hhdm virt room (offset + chunk) (total - chunk)).1,
          (prdtLoop hhdm virt room (offset + chunk) (total - chunk)).2) ∧
      chunk.toNat = min total.toNat (4096 - (virToPhys hhdm (virt + offset.toUInt64)).toNat % 4096) ∧
      entry.span = ⟨(virToPhys hhdm (virt + offset.toUInt64)).toNat, chunk.toNat⟩ := by
  have positive : total.toNat ≠ 0 := fun zero => some_byte (UInt32.toNat_inj.mp zero)
  rw [prdtLoop, if_neg some_byte]
  dsimp only
  generalize virToPhys hhdm (virt + offset.toUInt64) = phys
  have page : (4096 - (phys &&& 0xFFF).toUInt32).toNat = 4096 - phys.toNat % 4096 := by
    have low : (phys &&& 0xFFF).toUInt32.toNat = phys.toNat % 4096 := by
      rw [UInt64.toNat_toUInt32, UInt64.toNat_and, show (0xFFF : UInt64).toNat = 2 ^ 12 - 1 by decide,
        Nat.and_two_pow_sub_one_eq_mod]
      omega
    have below : (phys &&& 0xFFF).toUInt32 ≤ 4096 := by
      rw [UInt32.le_iff_toNat_le, low]
      simp only [UInt32.reduceToNat]
      omega
    rw [UInt32.toNat_sub_of_le _ _ below, low]
    rfl
  generalize sized : (if total < 4096 - (phys &&& 0xFFF).toUInt32 then total else 4096 - (phys &&& 0xFFF).toUInt32) =
    chunk
  have size : chunk.toNat = min total.toNat (4096 - phys.toNat % 4096) := by
    rw [← sized, ← page]
    split_ifs with less
    · rw [UInt32.lt_iff_toNat_lt] at less
      omega
    · rw [UInt32.lt_iff_toNat_lt] at less
      omega
  refine ⟨_, chunk, rfl, size, ?_⟩
  have count : ((chunk - 1) &&& 0x3FFFFF).toNat + 1 = chunk.toNat := by
    have one : (1 : UInt32) ≤ chunk := by
      rw [UInt32.le_iff_toNat_le]
      simp only [UInt32.reduceToNat]
      omega
    rw [UInt32.toNat_and, show (0x3FFFFF : UInt32).toNat = 2 ^ 22 - 1 by decide, Nat.and_two_pow_sub_one_eq_mod,
      UInt32.toNat_sub_of_le _ _ one]
    simp only [UInt32.reduceToNat]
    omega
  rw [PrdtEntry.span, toNat_address_halves, count]

/-- The entries describe these bytes of the buffer exactly when no page of them is behind the end of the virtual
addresses. -/
theorem prdtLoop_tiles_iff (phys : UInt64) {room : Nat} {offset total : UInt32}
    (complete : (prdtLoop hhdm (physToVir hhdm phys) room offset total).2 = true)
    (fits : offset.toNat + total.toNat < 4294967296) :
    (Tiles (phys.toNat + offset.toNat) ((prdtLoop hhdm (physToVir hhdm phys) room offset total).1.map PrdtEntry.span)
        (phys.toNat + offset.toNat + total.toNat) ∧
      ∀ entry ∈ (prdtLoop hhdm (physToVir hhdm phys) room offset total).1, InPage entry.span) ↔
      total.toNat = 0 ∨ lastStart (phys.toNat + offset.toNat) total.toNat + hhdm.toNat < 18446744073709551616 := by
  induction room generalizing offset total with
  | zero =>
      have nothing : total = 0 := of_decide_eq_true complete
      rw [nothing]
      exact iff_of_true ⟨.nil, fun _ impossible => absurd impossible List.not_mem_nil⟩ (.inl rfl)
  | succ room ih =>
      by_cases nothing : total = 0
      · rw [nothing]
        exact iff_of_true ⟨.nil, fun _ impossible => absurd impossible List.not_mem_nil⟩ (.inl rfl)
      · have positive : total.toNat ≠ 0 := fun zero => nothing (UInt32.toNat_inj.mp zero)
        obtain ⟨entry, chunk, turn, size, span⟩ := @prdtLoop_succ hhdm (physToVir hhdm phys) room offset total nothing
        have exact := @virToPhys_iff hhdm phys offset
        rw [turn] at complete ⊢
        generalize (virToPhys hhdm (physToVir hhdm phys + offset.toUInt64)).toNat = base at size span exact
        have place : (offset + chunk).toNat = offset.toNat + chunk.toNat := by
          rw [UInt32.toNat_add]
          omega
        have left : (total - chunk).toNat = total.toNat - chunk.toNat :=
          UInt32.toNat_sub_of_le _ _ (UInt32.le_iff_toNat_le.mpr (by omega))
        have rest := ih complete (by omega)
        rw [place, left] at rest
        have inPage : InPage entry.span := by
          rw [span, InPage]
          dsimp only
          omega
        have stop : phys.toNat + (offset.toNat + chunk.toNat) + (total.toNat - chunk.toNat) =
            phys.toNat + offset.toNat + total.toNat := by omega
        rw [stop, ← Nat.add_assoc] at rest
        dsimp only
        rw [List.map_cons, Tiles.cons_iff, List.forall_mem_cons, and_iff_right inPage, span]
        dsimp only
        rw [exact]
        constructor
        · rintro ⟨⟨starts, tiles⟩, pages⟩
          have same := exact.mpr starts
          rw [same] at size
          rw [size] at rest tiles
          exact .inr ((lastStart_step starts).mp (rest.mp ⟨tiles, pages⟩))
        · rintro (zero | within)
          · exact absurd zero positive
          · have starts : phys.toNat + offset.toNat + hhdm.toNat < 18446744073709551616 := by
              have first : phys.toNat + offset.toNat ≤ lastStart (phys.toNat + offset.toNat) total.toNat := Nat.le_max_left _ _
              omega
            have same := exact.mpr starts
            rw [same] at size
            rw [size] at rest ⊢
            obtain ⟨tiles, pages⟩ := rest.mpr ((lastStart_step starts).mpr within)
            exact ⟨⟨starts, tiles⟩, pages⟩

end Loop

/-! ## What is stored -/

section Stores

variable {hhdm : UInt64} {word : UInt64 → UInt32} {port : Port} {request : CommandRequest} {slot : Nat}

theorem entriesOf_append (log more : List Access) : entriesOf (log ++ more) = entriesOf log ++ entriesOf more :=
  List.filterMap_append

theorem lengthsOf_append (log more : List Access) : lengthsOf (log ++ more) = lengthsOf log ++ lengthsOf more :=
  List.filterMap_append

theorem fisesOf_append (log more : List Access) : fisesOf (log ++ more) = fisesOf log ++ fisesOf more :=
  List.filterMap_append

/-- Reads store nothing. -/
theorem OnlyReads.stores_nothing {registers : List Register} {polls : List Access} (reads : OnlyReads registers polls) :
    entriesOf polls = [] ∧ lengthsOf polls = [] ∧ fisesOf polls = [] := by
  refine ⟨?_, ?_, ?_⟩ <;>
  · refine List.filterMap_eq_nil_iff.mpr fun access there => ?_
    obtain ⟨_, _, _, rfl⟩ := reads access there
    rfl

theorem stored_prdtStores (table : UInt64) (entries : List PrdtEntry) :
    entriesOf (prdtStores table entries) =
        entries.mapIdx (fun i entry => (table + 0x80 + 16 * UInt64.ofNat i, entry)) ∧
      lengthsOf (prdtStores table entries) = [] ∧ fisesOf (prdtStores table entries) = [] := by
  unfold prdtStores entriesOf lengthsOf fisesOf
  rw [List.mapIdx_eq_zipIdx_map, List.mapIdx_eq_zipIdx_map]
  refine ⟨?_, ?_, ?_⟩
  · rw [List.filterMap_map, ← List.filterMap_eq_map]
    rfl
  · rw [List.filterMap_map]
    exact List.filterMap_eq_nil_iff.mpr fun _ _ => rfl
  · rw [List.filterMap_map]
    exact List.filterMap_eq_nil_iff.mpr fun _ _ => rfl

/-- The command that a call leaves in memory. -/
theorem stored_issuedLog {waits polls : List Access} (ready : OnlyReads [.tfd] waits) (reads : OnlyReads [.ci, .is] polls) :
    entriesOf (issuedLog hhdm word port request slot waits ++ polls) =
        (request.prdt hhdm).1.mapIdx
          (fun i entry => (commandTable hhdm word port slot + 0x80 + 16 * UInt64.ofNat i, entry)) ∧
      lengthsOf (issuedLog hhdm word port request slot waits ++ polls) =
        [UInt16.ofNat (request.prdt hhdm).1.length] ∧
      fisesOf (issuedLog hhdm word port request slot waits ++ polls) =
        [(commandTable hhdm word port slot, request.fis)] := by
  obtain ⟨noEntry, noLength, noFis⟩ := ready.stores_nothing
  obtain ⟨noEntry', noLength', noFis'⟩ := reads.stores_nothing
  obtain ⟨entries, lengths, fises⟩ :=
    stored_prdtStores (commandTable hhdm word port slot) (request.prdt hhdm).1
  simp only [issuedLog, preparation, entriesOf_append, lengthsOf_append, fisesOf_append, noEntry, noLength, noFis,
    noEntry', noLength', noFis', entries, lengths, fises]
  refine ⟨?_, rfl, rfl⟩
  simp [searchLog, entriesOf]

theorem sectors_fis (request : CommandRequest) :
    request.fis.sectors = if request.count.toNat % 65536 = 0 then 65536 else request.count.toNat % 65536 := by
  have low : request.fis.countl.toNat = request.count.toNat % 256 := by
    rw [CommandRequest.fis, UInt32.toNat_toUInt8, UInt32.toNat_and, show (0xFF : UInt32).toNat = 2 ^ 8 - 1 by decide,
      Nat.and_two_pow_sub_one_eq_mod]
    omega
  have high : request.fis.counth.toNat = request.count.toNat / 256 % 256 := by
    rw [CommandRequest.fis, UInt32.toNat_toUInt8, UInt32.toNat_and, show (0xFF : UInt32).toNat = 2 ^ 8 - 1 by decide,
      Nat.and_two_pow_sub_one_eq_mod, UInt32.toNat_shiftRight, Nat.shiftRight_eq_div_pow]
    simp only [UInt32.reduceToNat, Nat.reduceMod, Nat.reducePow]
    omega
  have both : request.count.toNat % 256 + 256 * (request.count.toNat / 256 % 256) = request.count.toNat % 65536 := by
    omega
  rw [FisRegH2d.sectors, low, high, both]

theorem entries_tiles_iff (room : (request.prdt hhdm).2 = true) :
    (Tiles request.physBuf.toNat ((request.prdt hhdm).1.map PrdtEntry.span)
        (request.physBuf.toNat + (request.count <<< 9).toNat) ∧
      ∀ entry ∈ (request.prdt hhdm).1, InPage entry.span) ↔
      (request.count <<< 9).toNat = 0 ∨
        lastStart request.physBuf.toNat (request.count <<< 9).toNat + hhdm.toNat < 18446744073709551616 := by
  have small := (request.count <<< 9).toNat_lt
  have loop := @prdtLoop_tiles_iff hhdm request.physBuf maxPrdtEntries 0 (request.count <<< 9) room
    (by rw [UInt32.toNat_zero, Nat.zero_add]; exact small)
  rwa [UInt32.toNat_zero, Nat.add_zero] at loop

/-- The entries do not describe more than 2048 sectors. -/
theorem tiles_bounded {total : Nat}
    (tiles : Tiles request.physBuf.toNat ((request.prdt hhdm).1.map PrdtEntry.span) (request.physBuf.toNat + total))
    (pages : ∀ entry ∈ (request.prdt hhdm).1, InPage entry.span) : total ≤ 1048576 := by
  have few : (request.prdt hhdm).1.length ≤ 256 := length_prdtLoop _ _ _ _
  have stop := @Tiles.stop_le _ _ _ 4096 tiles fun span there => by
    obtain ⟨entry, listed, rfl⟩ := List.mem_map.mp there
    have page := pages entry listed
    have some_byte : 1 ≤ entry.span.size := Nat.le_add_left 1 _
    unfold InPage at page
    omega
  rw [List.length_map] at stop
  omega

/-- The description of the buffer in terms of the entries. -/
theorem describesBuffer_entries {log : List Access} {table : UInt64} {entries : List PrdtEntry} {fis : FisRegH2d}
    (stored : entriesOf log = entries.mapIdx (fun i entry => (table + 0x80 + 16 * UInt64.ofNat i, entry)))
    (lengths : lengthsOf log = [UInt16.ofNat entries.length]) (fises : fisesOf log = [(table, fis)])
    (few : entries.length ≤ 256) :
    DescribesBuffer request log ↔
      (Tiles request.physBuf.toNat (entries.map PrdtEntry.span)
          (request.physBuf.toNat + 512 * request.count.toNat) ∧
        ∀ entry ∈ entries, InPage entry.span) ∧
      fis.sectors = request.count.toNat := by
  have spans : (entriesOf log).map (fun stored => stored.2.span) = entries.map PrdtEntry.span := by
    rw [stored, List.mapIdx_eq_zipIdx_map, List.map_map]
    conv_rhs => rw [← List.zipIdx_map_fst 0 entries, List.map_map]
    rfl
  have pages : (∀ stored ∈ entriesOf log, InPage stored.2.span) ↔ ∀ entry ∈ entries, InPage entry.span := by
    have listed : ∀ span, span ∈ (entriesOf log).map (fun stored => stored.2.span) ↔ span ∈ entries.map PrdtEntry.span :=
      fun span => by rw [spans]
    simp only [List.mem_map] at listed
    constructor
    · intro all entry there
      obtain ⟨place, at_place, same⟩ := (listed entry.span).mpr ⟨entry, there, rfl⟩
      exact same ▸ all place at_place
    · intro all place there
      obtain ⟨entry, at_entry, same⟩ := (listed place.2.span).mp ⟨place, there, rfl⟩
      exact same ▸ all entry at_entry
  have count : (entriesOf log).length = entries.length := by rw [stored, List.length_mapIdx]
  constructor
  · rintro ⟨_, tiles, inPage, _, sectors⟩
    rw [spans] at tiles
    rw [fises] at sectors
    exact ⟨⟨tiles, pages.mp inPage⟩, List.singleton_inj.mp sectors⟩
  · rintro ⟨⟨tiles, inPage⟩, sectors⟩
    refine ⟨⟨table, by rw [fises]; rfl, ?_⟩, by rwa [spans], pages.mpr inPage, ?_, ?_⟩
    · rw [count, stored, List.mapIdx_eq_zipIdx_map, List.map_map, List.range_eq_range', ← List.zipIdx_map_snd 0 entries,
        List.map_map]
      rfl
    · have below : entries.length < 65536 := by omega
      rw [lengths, count, List.map_singleton, UInt16.toNat_ofNat_of_lt' below]
    · rw [fises, List.map_singleton, sectors]

/-- A command sent describes its buffer exactly when the number of bytes has 32 bits and no page of the buffer is
behind the end of the virtual addresses. -/
theorem describesBuffer_iff {log : List Access} (positive : 1 ≤ request.count.toNat)
    (entries : entriesOf log = (request.prdt hhdm).1.mapIdx
      (fun i entry => (commandTable hhdm word port slot + 0x80 + 16 * UInt64.ofNat i, entry)))
    (lengths : lengthsOf log = [UInt16.ofNat (request.prdt hhdm).1.length])
    (fises : fisesOf log = [(commandTable hhdm word port slot, request.fis)])
    (room : (request.prdt hhdm).2 = true) :
    DescribesBuffer request log ↔ request.count.toNat < 8388608 ∧
      lastStart request.physBuf.toNat (512 * request.count.toNat) + hhdm.toNat < 18446744073709551616 := by
  have few : (request.prdt hhdm).1.length ≤ 256 := length_prdtLoop _ _ _ _
  have total : (request.count <<< 9).toNat = 512 * request.count.toNat % 4294967296 := by
    rw [UInt32.toNat_shiftLeft, Nat.shiftLeft_eq]
    simp only [UInt32.reduceToNat, Nat.reduceMod, Nat.reducePow]
    omega
  have tiled := @entries_tiles_iff hhdm request room
  rw [describesBuffer_entries entries lengths fises few]
  constructor
  · rintro ⟨⟨tiles, pages⟩, _⟩
    have short := tiles_bounded tiles pages
    have whole : (request.count <<< 9).toNat = 512 * request.count.toNat := by omega
    rw [whole] at tiled
    rcases tiled.mp ⟨tiles, pages⟩ with zero | inside
    · omega
    · exact ⟨by omega, inside⟩
  · rintro ⟨small, inside⟩
    have whole : (request.count <<< 9).toNat = 512 * request.count.toNat := by omega
    rw [whole] at tiled
    obtain ⟨tiles, pages⟩ := tiled.mpr (.inr inside)
    have short := tiles_bounded tiles pages
    refine ⟨⟨tiles, pages⟩, ?_⟩
    rw [sectors_fis, if_neg (by omega)]
    omega

end Stores

/-- Whenever a command for one sector or more is issued, it describes its buffer exactly when the number of bytes
has 32 bits and no page of the buffer is behind the end of the virtual addresses. -/
theorem runCommand_describesBuffer_iff (hhdm : UInt64) (word : UInt64 → UInt32) (port : Option Port)
    (request : CommandRequest) (positive : 1 ≤ request.count.toNat)
    (issued : Issues (runCommand hhdm word port request).2) :
    DescribesBuffer request (runCommand hhdm word port request).2 ↔ request.count.toNat < 8388608 ∧
      lastStart request.physBuf.toNat (512 * request.count.toNat) + hhdm.toNat < 18446744073709551616 := by
  cases port with
  | none =>
      obtain ⟨value, there⟩ := issued
      exact absurd there List.not_mem_nil
  | some port =>
      rcases runCommand_cases hhdm word port request with ⟨log, same, _, unissued, _⟩ | ⟨slot, _, sends, _⟩
      · rw [same] at issued
        exact absurd issued unissued
      · obtain ⟨answer, waits, polls, ready, reads, same, _⟩ := runCommand_sent sends
        obtain ⟨entries, lengths, fises⟩ := @stored_issuedLog hhdm word port request slot waits polls ready reads
        rw [same]
        exact describesBuffer_iff positive entries lengths fises sends.room

/-- Sixteen sectors from the middle of a page on. -/
theorem runCommand_describesBuffer_iff_pages :
    DescribesBuffer ⟨0x25, 0, 0, 0, 16, 0x1200⟩
      (runCommand 0xFFFF800000000000 (fun _ => 0) (some fun _ _ => 0) ⟨0x25, 0, 0, 0, 16, 0x1200⟩).2 :=
  (runCommand_describesBuffer_iff 0xFFFF800000000000 (fun _ => 0) (some fun _ _ => 0) ⟨0x25, 0, 0, 0, 16, 0x1200⟩
    (by decide) ⟨1, by decide +kernel⟩).mpr (by decide +kernel)

/-- For 2^23 sectors a command without any entry is issued. -/
theorem runCommand_describes_nothing :
    Issues (runCommand 0xFFFF800000000000 (fun _ => 0) (some fun _ _ => 0) ⟨0x35, 1, 0, 0, 0x800000, 0x1000⟩).2 ∧
      entriesOf (runCommand 0xFFFF800000000000 (fun _ => 0) (some fun _ _ => 0)
        ⟨0x35, 1, 0, 0, 0x800000, 0x1000⟩).2 = [] ∧
      ¬ DescribesBuffer ⟨0x35, 1, 0, 0, 0x800000, 0x1000⟩
        (runCommand 0xFFFF800000000000 (fun _ => 0) (some fun _ _ => 0) ⟨0x35, 1, 0, 0, 0x800000, 0x1000⟩).2 := by
  have nothing : entriesOf (runCommand 0xFFFF800000000000 (fun _ => 0) (some fun _ _ => 0)
      ⟨0x35, 1, 0, 0, 0x800000, 0x1000⟩).2 = [] := by decide +kernel
  refine ⟨⟨1, by decide +kernel⟩, nothing, fun describes => ?_⟩
  have tiles := describes.tiles
  rw [nothing, List.map_nil, Tiles.nil_iff] at tiles
  exact absurd tiles (by decide)

end KeblaOS.Ahci
