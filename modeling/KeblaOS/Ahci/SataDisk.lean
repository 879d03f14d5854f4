import Mathlib.Algebra.GroupWithZero.Nat
import KeblaOS.Ahci.ScatterList

/-!
# Sectors of a SATA disk

`sata_get_total_sectors`, `sata_read` and `sata_write` of `sata_disk.c`. A transfer first asks the disk for its size.
A read is split into commands of at most 32 sectors; a write is one command. The answers of `runCommand` are an
argument, and the calls of it are logged in order.
-/

namespace KeblaOS.Ahci

open Memory (virToPhys)

/-- `ATA_CMD_READ_DMA_EX`. -/
def readDmaEx : UInt32 := 0x25

/-- `ATA_CMD_WRITE_DMA_EX`. -/
def writeDmaEx : UInt32 := 0x35

/-- `ATA_CMD_IDENTIFY`. -/
def identifyDevice : UInt32 := 0xEC

/-- `MAX_SECTORS_PER_CMD`. -/
def maxSectorsPerCmd : UInt32 := 32

/-- The answer of each call of `runCommand`; the first call is number 0. -/
abbrev Answers := Nat → CommandRequest → Bool

/-- The size that the words of the identification give. -/
def identifiedSectors (word : Nat → UInt16) : UInt64 :=
  let lba48Supported := word 83 &&& 0x400 ≠ 0
  if lba48Supported then
    (word 103).toUInt64 <<< 48 ||| (word 102).toUInt64 <<< 32 ||| (word 101).toUInt64 <<< 16 ||| (word 100).toUInt64
  else ((word 61).toUInt32 <<< 16 ||| (word 60).toUInt32).toUInt64

/-- `sata_get_total_sectors`, with the buffer that `kheap_alloc` returns and the words that the disk stores there; 0
when the size is not known. -/
def sataGetTotalSectors (hhdm identifyBuf : UInt64) (word : Nat → UInt16) (answers : Answers) :
    UInt64 × List CommandRequest :=
  if identifyBuf = 0 then (0, [])
  else
    let request : CommandRequest := ⟨identifyDevice, 0, 0, 0, 1, virToPhys hhdm identifyBuf⟩
    if answers 0 request then (identifiedSectors word, [request]) else (0, [request])

/-- The number of sectors of the next command. -/
def chunkOf (count : UInt32) : UInt32 := if maxSectorsPerCmd < count then maxSectorsPerCmd else count

theorem toNat_chunkOf (count : UInt32) : (chunkOf count).toNat = min 32 count.toNat := by
  unfold chunkOf maxSectorsPerCmd
  split_ifs with more
  · rw [UInt32.lt_iff_toNat_lt] at more
    simp only [UInt32.reduceToNat] at more ⊢
    omega
  · rw [UInt32.lt_iff_toNat_lt] at more
    simp only [UInt32.reduceToNat] at more
    omega

theorem toNat_sub_chunkOf (count : UInt32) : (count - chunkOf count).toNat = count.toNat - min 32 count.toNat := by
  have chunk := toNat_chunkOf count
  rw [UInt32.toNat_sub_of_le _ _ (UInt32.le_iff_toNat_le.mpr (by omega)), chunk]

/-- A command for sectors at `lba`. -/
def sectorRequest (type : UInt32) (write : UInt8) (lba : UInt64) (count : UInt32) (physBuf : UInt64) : CommandRequest :=
  ⟨type, write, (lba &&& 0xFFFFFFFF).toUInt32, ((lba >>> 32) &&& 0xFFFFFFFF).toUInt32, count, physBuf⟩

/-- The loop of `sata_read`, with the number of the next call. -/
def sataReadLoop (answers : Answers) (call : Nat) (lba : UInt64) (count : UInt32) (physBuf : UInt64) :
    Bool × List CommandRequest :=
  if _more : count = 0 then (true, [])
  else
    let chunk := chunkOf count
    let request := sectorRequest readDmaEx 0 lba chunk physBuf
    if answers call request then
      let (answer, requests) :=
        sataReadLoop answers (call + 1) (lba + chunk.toUInt64) (count - chunk) (physBuf + chunk.toUInt64 * 512)
      (answer, request :: requests)
    else (false, [request])
termination_by count.toNat
decreasing_by
  have positive : count.toNat ≠ 0 := fun zero => _more (UInt32.toNat_inj.mp zero)
  have left := toNat_sub_chunkOf count
  omega

/-- `sata_read`. -/
def sataRead (hhdm identifyBuf : UInt64) (word : Nat → UInt16) (answers : Answers) (lba count physBuf : UInt64) :
    Bool × List CommandRequest :=
  let count := count.toUInt32
  let (totalSectors, identify) := sataGetTotalSectors hhdm identifyBuf word answers
  if totalSectors = 0 then (false, identify)
  else if totalSectors < lba + count.toUInt64 then (false, identify)
  else
    let (answer, requests) := sataReadLoop answers identify.length lba count physBuf
    (answer, identify ++ requests)

/-- `sata_write`. -/
def sataWrite (hhdm identifyBuf : UInt64) (word : Nat → UInt16) (answers : Answers) (lba count physBuf : UInt64) :
    Bool × List CommandRequest :=
  let count := count.toUInt32
  let (totalSectors, identify) := sataGetTotalSectors hhdm identifyBuf word answers
  if 0 < totalSectors ∧ totalSectors < lba + count.toUInt64 then (false, identify)
  else
    let request := sectorRequest writeDmaEx 1 lba count physBuf
    (answers identify.length request, identify ++ [request])

/-! ## Where the sectors are -/

/-- The first sector that the FIS asks for. -/
def FisRegH2d.sector (fis : FisRegH2d) : Nat :=
  fis.lba0.toNat + 256 * fis.lba1.toNat + 65536 * fis.lba2.toNat + 16777216 * fis.lba3.toNat +
    4294967296 * fis.lba4.toNat + 1099511627776 * fis.lba5.toNat

/-- The sectors of a command. -/
def CommandRequest.span (request : CommandRequest) : Span := ⟨request.fis.sector, request.fis.sectors⟩

theorem toNat_shiftRight_toUInt8 (value bits : UInt32) (few : bits.toNat < 32) :
    (value >>> bits).toUInt8.toNat = value.toNat / 2 ^ bits.toNat % 256 := by
  rw [UInt32.toNat_toUInt8, UInt32.toNat_shiftRight, Nat.mod_eq_of_lt few, Nat.shiftRight_eq_div_pow]

/-- Only 48 bits of the address reach the disk. -/
theorem sector_sectorRequest (type : UInt32) (write : UInt8) (lba : UInt64) (count : UInt32) (physBuf : UInt64) :
    (sectorRequest type write lba count physBuf).fis.sector = lba.toNat % 281474976710656 := by
  have lower : (lba &&& 0xFFFFFFFF).toUInt32.toNat = lba.toNat % 4294967296 := by
    rw [UInt64.toNat_toUInt32, UInt64.toNat_and, show (0xFFFFFFFF : UInt64).toNat = 2 ^ 32 - 1 by decide,
      Nat.and_two_pow_sub_one_eq_mod]
    omega
  have upper : ((lba >>> 32) &&& 0xFFFFFFFF).toUInt32.toNat = lba.toNat / 4294967296 := by
    have bound := lba.toNat_lt
    rw [UInt64.toNat_toUInt32, UInt64.toNat_and, show (0xFFFFFFFF : UInt64).toNat = 2 ^ 32 - 1 by decide,
      Nat.and_two_pow_sub_one_eq_mod, UInt64.toNat_shiftRight, Nat.shiftRight_eq_div_pow]
    simp only [UInt64.reduceToNat, Nat.reduceMod, Nat.reducePow]
    omega
  have bytes : ∀ value : UInt32, value.toUInt8.toNat = value.toNat % 256 := fun value => UInt32.toNat_toUInt8 value
  have second := fun value : UInt32 => toNat_shiftRight_toUInt8 value 8 (by decide)
  have third := fun value : UInt32 => toNat_shiftRight_toUInt8 value 16 (by decide)
  have fourth := fun value : UInt32 => toNat_shiftRight_toUInt8 value 24 (by decide)
  simp only [UInt32.reduceToNat, Nat.reducePow] at second third fourth
  dsimp only [FisRegH2d.sector, CommandRequest.fis, sectorRequest]
  rw [bytes, second, third, fourth, bytes, second, lower, upper]
  omega

/-! ## The commands of a read -/

/-- The commands of a read whose commands all succeed. -/
def readRequests (lba : UInt64) (count : UInt32) (physBuf : UInt64) : List CommandRequest :=
  (sataReadLoop (fun _ _ => true) 0 lba count physBuf).2

section Read

variable {answers : Answers} {lba physBuf : UInt64} {count : UInt32}

theorem sataReadLoop_zero (answers : Answers) (call : Nat) (lba physBuf : UInt64) :
    sataReadLoop answers call lba 0 physBuf = (true, []) := by
  rw [sataReadLoop, dif_pos rfl]

/-- One turn of the loop. -/
theorem sataReadLoop_turn (more : count ≠ 0) (answers : Answers) (call : Nat) :
    sataReadLoop answers call lba count physBuf =
      let request := sectorRequest readDmaEx 0 lba (chunkOf count) physBuf
      let rest := sataReadLoop answers (call + 1) (lba + (chunkOf count).toUInt64) (count - chunkOf count)
        (physBuf + (chunkOf count).toUInt64 * 512)
      if answers call request then (rest.1, request :: rest.2) else (false, [request]) := by
  rw [sataReadLoop, dif_neg more]

theorem sataReadLoop_all_calls (call call' : Nat) :
    sataReadLoop (fun _ _ => true) call lba count physBuf = sataReadLoop (fun _ _ => true) call' lba count physBuf := by
  induction size : count.toNat using Nat.strongRecOn generalizing call call' lba count physBuf with
  | _ size ih =>
      by_cases more : count = 0
      · rw [more, sataReadLoop_zero, sataReadLoop_zero]
      · have positive : count.toNat ≠ 0 := fun zero => more (UInt32.toNat_inj.mp zero)
        have left := toNat_sub_chunkOf count
        rw [sataReadLoop_turn more, sataReadLoop_turn more,
          ih (count - chunkOf count).toNat (by omega) (call + 1) (call' + 1) rfl]

theorem readRequests_zero (lba physBuf : UInt64) : readRequests lba 0 physBuf = [] := by
  rw [readRequests, sataReadLoop_zero]

theorem readRequests_turn (more : count ≠ 0) :
    readRequests lba count physBuf = sectorRequest readDmaEx 0 lba (chunkOf count) physBuf ::
      readRequests (lba + (chunkOf count).toUInt64) (count - chunkOf count)
        (physBuf + (chunkOf count).toUInt64 * 512) := by
  rw [readRequests, sataReadLoop_turn more, sataReadLoop_all_calls _ 0]
  rfl

/-- The loop stops behind the first command that fails. -/
theorem sataReadLoop_eq (answers : Answers) (call : Nat) (lba physBuf : UInt64) (count : UInt32) :
    ((∀ i request, (readRequests lba count physBuf)[i]? = some request → answers (call + i) request = true) →
        sataReadLoop answers call lba count physBuf = (true, readRequests lba count physBuf)) ∧
      ∀ i request, (readRequests lba count physBuf)[i]? = some request → answers (call + i) request = false →
        (∀ j < i, ∀ request, (readRequests lba count physBuf)[j]? = some request → answers (call + j) request = true) →
        sataReadLoop answers call lba count physBuf = (false, (readRequests lba count physBuf).take (i + 1)) := by
  induction size : count.toNat using Nat.strongRecOn generalizing call lba count physBuf with
  | _ size ih =>
      by_cases more : count = 0
      · rw [more, readRequests_zero, sataReadLoop_zero]
        exact ⟨fun _ => rfl, fun i request impossible => absurd impossible (Option.some_ne_none _).symm⟩
      · have positive : count.toNat ≠ 0 := fun zero => more (UInt32.toNat_inj.mp zero)
        have left := toNat_sub_chunkOf count
        obtain ⟨succeed, fails⟩ := ih (count - chunkOf count).toNat (by omega) (call + 1)
          (lba + (chunkOf count).toUInt64) (physBuf + (chunkOf count).toUInt64 * 512) (count - chunkOf count) rfl
        have shift : ∀ i, call + 1 + i = call + (i + 1) := fun i => by omega
        rw [sataReadLoop_turn more, readRequests_turn more]
        dsimp only
        constructor
        · intro all
          have first := all 0 _ rfl
          rw [Nat.add_zero] at first
          rw [if_pos first, succeed fun i request there => ?_]
          rw [shift]
          exact all (i + 1) request there
        · intro i request there failed before
          cases i with
          | zero =>
              obtain rfl := Option.some.inj there
              rw [Nat.add_zero] at failed
              rw [if_neg (by rw [failed]; exact Bool.false_ne_true), List.take_succ_cons, List.take_zero]
          | succ i =>
              have first := before 0 (Nat.succ_pos i) _ rfl
              rw [Nat.add_zero] at first
              have rest := fails i request there (by rw [shift]; exact failed) fun j earlier request there => by
                rw [shift]
                exact before (j + 1) (Nat.succ_lt_succ earlier) request there
              rw [if_pos first, rest, List.take_succ_cons]

/-- Commands that read these sectors into a buffer in order, each of them a part behind the parts before. -/
structure SplitsRead (lba : UInt64) (count : UInt32) (physBuf : UInt64) (requests : List CommandRequest) : Prop where
  reads : ∀ request ∈ requests, request.type = readDmaEx ∧ request.write = 0
  small : ∀ request ∈ requests, 1 ≤ request.fis.sectors ∧ request.fis.sectors ≤ 32 ∧
    request.count.toNat = request.fis.sectors
  tiles : Tiles lba.toNat (requests.map CommandRequest.span) (lba.toNat + count.toNat)
  buffers : ∀ i request, requests[i]? = some request →
    request.physBuf = physBuf + 512 * UInt64.ofNat ((requests.take i).map fun before => before.fis.sectors).sum

/-- Memory behind a transfer of sectors from a disk with this contents. -/
def transferred (disk : Nat → UInt8) (lba count : Nat) (physBuf : UInt64) (memory : UInt64 → UInt8) (a : UInt64) : UInt8 :=
  if (a - physBuf).toNat < 512 * count then disk (512 * lba + (a - physBuf).toNat) else memory a

/-- Memory behind a command. -/
def CommandRequest.transfer (disk : Nat → UInt8) (memory : UInt64 → UInt8) (request : CommandRequest) : UInt64 → UInt8 :=
  transferred disk request.fis.sector request.fis.sectors request.physBuf memory

theorem sectors_chunk (more : count ≠ 0) (type : UInt32) (write : UInt8) :
    (sectorRequest type write lba (chunkOf count) physBuf).fis.sectors = min 32 count.toNat := by
  have positive : count.toNat ≠ 0 := fun zero => more (UInt32.toNat_inj.mp zero)
  have chunk := toNat_chunkOf count
  rw [sectors_fis, sectorRequest]
  dsimp only
  rw [chunk, Nat.mod_eq_of_lt (by omega), if_neg (by omega)]

/-- The next part of a read begins behind the sectors of the command. -/
theorem next_part (within : lba.toNat + count.toNat < 281474976710656) :
    (lba + (chunkOf count).toUInt64).toNat = lba.toNat + min 32 count.toNat := by
  rw [UInt64.toNat_add, UInt32.toNat_toUInt64, toNat_chunkOf]
  omega

theorem splitsRead_readRequests (within : lba.toNat + count.toNat < 281474976710656) :
    SplitsRead lba count physBuf (readRequests lba count physBuf) := by
  induction size : count.toNat using Nat.strongRecOn generalizing lba count physBuf with
  | _ size ih =>
      by_cases more : count = 0
      · subst more
        rw [readRequests_zero]
        refine ⟨fun _ impossible => absurd impossible List.not_mem_nil,
          fun _ impossible => absurd impossible List.not_mem_nil, .nil,
          fun i request impossible => absurd impossible (Option.some_ne_none _).symm⟩
      · have positive : count.toNat ≠ 0 := fun zero => more (UInt32.toNat_inj.mp zero)
        have chunk := toNat_chunkOf count
        have left := toNat_sub_chunkOf count
        have next := next_part within
        have rest := @ih (count - chunkOf count).toNat (by omega) (lba + (chunkOf count).toUInt64)
          (physBuf + (chunkOf count).toUInt64 * 512) (count - chunkOf count) (by omega) rfl
        have sectors := @sectors_chunk lba physBuf count more readDmaEx 0
        have sector := sector_sectorRequest readDmaEx 0 lba (chunkOf count) physBuf
        rw [Nat.mod_eq_of_lt (by omega)] at sector
        rw [readRequests_turn more]
        constructor
        · rw [List.forall_mem_cons]
          exact ⟨⟨rfl, rfl⟩, rest.reads⟩
        · rw [List.forall_mem_cons, sectors]
          exact ⟨⟨by omega, by omega, chunk⟩, rest.small⟩
        · have tiles := rest.tiles
          have stop : lba.toNat + min 32 count.toNat + (count.toNat - min 32 count.toNat) = lba.toNat + count.toNat := by
            omega
          rw [next, left, stop] at tiles
          rw [List.map_cons, Tiles.cons_iff, CommandRequest.span, sector, sectors]
          exact ⟨rfl, tiles⟩
        · intro i request there
          cases i with
          | zero =>
              obtain rfl := Option.some.inj there
              simp [sectorRequest]
          | succ i =>
              have placed := rest.buffers i request there
              have whole : (chunkOf count).toUInt64 = UInt64.ofNat (min 32 count.toNat) := by
                apply UInt64.toNat_inj.mp
                rw [UInt32.toNat_toUInt64, chunk, UInt64.toNat_ofNat']
                omega
              rw [placed, List.take_succ_cons, List.map_cons, List.sum_cons, sectors, whole, UInt64.ofNat_add,
                UInt64.mul_add, UInt64.mul_comm _ 512, UInt64.add_assoc]

/-- Two transfers one behind the other are one. -/
theorem transferred_append (disk : Nat → UInt8) (lba first second : Nat) (physBuf : UInt64) (memory : UInt64 → UInt8)
    (small : 512 * (first + second) < 18446744073709551616) :
    transferred disk (lba + first) second (physBuf + 512 * UInt64.ofNat first)
        (transferred disk lba first physBuf memory) =
      transferred disk lba (first + second) physBuf memory := by
  funext a
  have bound := (a - physBuf).toNat_lt
  have offset : (512 * UInt64.ofNat first).toNat = 512 * first := by
    simp only [UInt64.toNat_mul, UInt64.toNat_ofNat', UInt64.reduceToNat]
    omega
  have behind : (a - (physBuf + 512 * UInt64.ofNat first)).toNat =
      (18446744073709551616 - 512 * first + (a - physBuf).toNat) % 18446744073709551616 := by
    have start := physBuf.toNat_lt
    rw [UInt64.toNat_sub, UInt64.toNat_sub, UInt64.toNat_add, offset]
    omega
  unfold transferred
  rw [behind]
  generalize (a - physBuf).toNat = distance at bound behind ⊢
  by_cases inFirst : distance < 512 * first
  · rw [if_neg (by omega), if_pos inFirst, if_pos (by omega)]
  · have same : (18446744073709551616 - 512 * first + distance) % 18446744073709551616 = distance - 512 * first := by
      omega
    rw [same, if_neg inFirst]
    by_cases inSecond : distance < 512 * (first + second)
    · rw [if_pos (by omega), if_pos inSecond]
      congr 1
      omega
    · rw [if_neg (by omega), if_neg inSecond]

/-- The commands do together what one transfer does. -/
theorem foldl_transfer_readRequests (within : lba.toNat + count.toNat < 281474976710656) (disk : Nat → UInt8)
    (memory : UInt64 → UInt8) :
    (readRequests lba count physBuf).foldl (CommandRequest.transfer disk) memory =
      transferred disk lba.toNat count.toNat physBuf memory := by
  induction size : count.toNat using Nat.strongRecOn generalizing lba count physBuf memory with
  | _ size ih =>
      by_cases more : count = 0
      · subst more
        rw [readRequests_zero, ← size]
        rfl
      · have positive : count.toNat ≠ 0 := fun zero => more (UInt32.toNat_inj.mp zero)
        have chunk := toNat_chunkOf count
        have left := toNat_sub_chunkOf count
        have next := next_part within
        have sectors := @sectors_chunk lba physBuf count more readDmaEx 0
        have sector := sector_sectorRequest readDmaEx 0 lba (chunkOf count) physBuf
        rw [Nat.mod_eq_of_lt (by omega)] at sector
        have whole : (chunkOf count).toUInt64 * 512 = 512 * UInt64.ofNat (min 32 count.toNat) := by
          rw [UInt64.mul_comm]
          congr 1
          apply UInt64.toNat_inj.mp
          rw [UInt32.toNat_toUInt64, chunk, UInt64.toNat_ofNat']
          omega
        rw [readRequests_turn more, List.foldl_cons, ih (count - chunkOf count).toNat (by omega) (by omega) _ rfl, next,
          left, whole, CommandRequest.transfer, sector, sectors]
        refine (transferred_append disk lba.toNat _ _ physBuf memory (by omega)).trans ?_
        rw [← size]
        congr 1
        omega

end Read

/-- Reads inside the disk: the sectors are split into commands that do together what one transfer does, the call
succeeds when they all do, and it stops behind the first one that fails. -/
theorem sataRead_splits (hhdm identifyBuf : UInt64) (word : Nat → UInt16) (answers : Answers) (lba physBuf : UInt64)
    (count : UInt32)
    (within : lba.toNat + count.toNat ≤ (sataGetTotalSectors hhdm identifyBuf word answers).1.toNat)
    (small : (sataGetTotalSectors hhdm identifyBuf word answers).1.toNat < 281474976710656) :
    ∃ requests, SplitsRead lba count physBuf requests ∧
      (∀ disk memory, requests.foldl (CommandRequest.transfer disk) memory =
        transferred disk lba.toNat count.toNat physBuf memory) ∧
      let (total, identify) := sataGetTotalSectors hhdm identifyBuf word answers
      let call := sataRead hhdm identifyBuf word answers lba count.toUInt64 physBuf
      (total ≠ 0 →
          (∀ i request, requests[i]? = some request → answers (identify.length + i) request = true) →
          call = (true, identify ++ requests)) ∧
        (∀ i request, requests[i]? = some request → answers (identify.length + i) request = false →
          (∀ j < i, ∀ request, requests[j]? = some request → answers (identify.length + j) request = true) →
          call = (false, identify ++ requests.take (i + 1))) ∧
        (total = 0 → requests = [] ∧ call = (false, identify)) := by
  refine ⟨readRequests lba count physBuf, splitsRead_readRequests (by omega),
    foldl_transfer_readRequests (by omega), ?_⟩
  generalize asked : sataGetTotalSectors hhdm identifyBuf word answers = answer at within small
  obtain ⟨total, identify⟩ := answer
  dsimp only at within small ⊢
  have inside : ¬ total < lba + count.toUInt64 := by
    rw [UInt64.lt_iff_toNat_lt, UInt64.toNat_add, UInt32.toNat_toUInt64]
    omega
  have counts : count.toUInt64.toUInt32 = count := UInt32.toUInt32_toUInt64 count
  obtain ⟨succeed, fails⟩ := sataReadLoop_eq answers identify.length lba physBuf count
  unfold sataRead
  rw [asked, counts]
  dsimp only
  rw [if_neg inside]
  refine ⟨fun known all => ?_, fun i request there failed before => ?_, fun unknown => ?_⟩
  · rw [if_neg known, succeed all]
  · have known : total ≠ 0 := by
      rintro rfl
      have nothing : count = 0 := by
        apply UInt32.toNat_inj.mp
        rw [UInt64.toNat_zero] at within
        rw [UInt32.toNat_zero]
        omega
      rw [nothing, readRequests_zero] at there
      exact absurd there (Option.some_ne_none _).symm
    rw [if_neg known, fails i request there failed before]
  · have nothing : count = 0 := by
      apply UInt32.toNat_inj.mp
      rw [unknown, UInt64.toNat_zero] at within
      rw [UInt32.toNat_zero]
      omega
    rw [if_pos unknown, nothing, readRequests_zero]
    exact ⟨rfl, rfl⟩

/-- The words of a disk with 1000 sectors. -/
def thousandSectors : Nat → UInt16
  | 83 => 0x400
  | 100 => 1000
  | _ => 0

/-- A read of 40 sectors at sector 10. -/
theorem sataRead_splits_forty :
    ∃ requests, SplitsRead 10 40 0x5000 requests ∧
      sataRead 0xFFFF800000000000 0xFFFF800000001000 thousandSectors (fun _ _ => true) 10 40 0x5000 =
        (true, ⟨identifyDevice, 0, 0, 0, 1, 0x1000⟩ :: requests) := by
  obtain ⟨requests, splits, _, whole, _⟩ := sataRead_splits 0xFFFF800000000000 0xFFFF800000001000 thousandSectors
    (fun _ _ => true) 10 0x5000 40 (by decide) (by decide)
  exact ⟨requests, splits, whole (by decide) fun _ _ _ => rfl⟩

end KeblaOS.Ahci
