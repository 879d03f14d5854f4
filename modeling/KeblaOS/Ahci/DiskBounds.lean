import KeblaOS.Ahci.SataDisk

/-!
# Requests behind the end of a disk

`kebla_disk_read` and `kebla_disk_write` of `disk.c`. All checks against the end of a disk compare the sum of the
first sector and the number of sectors, which has 64 bits and wraps around. A request that wraps around has a small
sum. A command reaches the disk only when `runCommand` sends it.
-/

namespace KeblaOS.Ahci

open Memory (virToPhys)

/-- `DiskType`. -/
inductive DiskType where
  | unknown
  | idePata
  | ahciSata
  | nvme
  | scsi
  | satapi
  | floppy
  | raid
  | sataCompat
  | sataVendor
  | sataGeneric
  | sas
  | ipi
deriving DecidableEq

/-- The fields of `Disk` that transfers read. -/
structure Disk where
  type : DiskType
  totalSectors : UInt64
  context : UInt64

/-- `disks` and `disk_count`. -/
structure DiskTable where
  disks : Option (Int32 → Disk)
  diskCount : Int32

/-- A call of `kebla_disk_read` or `kebla_disk_write`. -/
structure DiskCall where
  diskNo : Int32
  lba : UInt64
  count : UInt32
  buf : UInt64

/-- What the calls find: the HHDM offset, the buffer for the identification, the words that the disk stores there,
what the port and the memory show to each call of `runCommand`, and what a SATAPI disk does. -/
structure DiskWorld where
  hhdm : UInt64
  identifyBuf : UInt64
  word : Nat → UInt16
  port : Nat → Port
  memory : Nat → UInt64 → UInt32
  satapiRead : DiskCall → Bool
  satapiWrite : DiskCall → Bool

namespace DiskWorld

variable (world : DiskWorld)

/-- The call of `runCommand` with this number. -/
def command (number : Nat) (request : CommandRequest) : Bool × List Access :=
  runCommand world.hhdm (world.memory number) (some (world.port number)) request

def answers : Answers := fun number request => (world.command number request).1

end DiskWorld

/-- `kebla_disk_read`. -/
def keblaDiskRead (world : DiskWorld) (table : DiskTable) (call : DiskCall) : Bool × List CommandRequest :=
  if table.diskCount ≤ call.diskNo then (false, [])
  else
    match table.disks with
    | none => (false, [])
    | some disks =>
        if call.count = 0 then (false, [])
        else if call.buf = 0 then (false, [])
        else
          let disk := disks call.diskNo
          match disk.type with
          | .unknown => (false, [])
          | .ahciSata =>
              if disk.context = 0 then (false, [])
              else
                sataRead world.hhdm world.identifyBuf world.word world.answers call.lba call.count.toUInt64
                  (virToPhys world.hhdm call.buf)
          | .nvme => (false, [])
          | .satapi => if disk.context = 0 then (false, []) else (world.satapiRead call, [])
          | _ => (false, [])

/-- `kebla_disk_write`. -/
def keblaDiskWrite (world : DiskWorld) (table : DiskTable) (call : DiskCall) : Bool × List CommandRequest :=
  if table.diskCount ≤ call.diskNo then (false, [])
  else
    match table.disks with
    | none => (false, [])
    | some disks =>
        if call.count = 0 then (false, [])
        else if call.buf = 0 then (false, [])
        else
          let disk := disks call.diskNo
          if disk.totalSectors < call.lba + call.count.toUInt64 then (false, [])
          else
            match disk.type with
            | .unknown => (false, [])
            | .ahciSata =>
                if disk.context = 0 then (false, [])
                else
                  sataWrite world.hhdm world.identifyBuf world.word world.answers call.lba call.count.toUInt64
                    (virToPhys world.hhdm call.buf)
            | .satapi => if disk.context = 0 then (false, []) else (world.satapiWrite call, [])
            | _ => (false, [])

/-! ## The end of the disk -/

/-- A command that transfers sectors of the disk. -/
def CommandRequest.Transfers (request : CommandRequest) : Prop := request.type = readDmaEx ∨ request.type = writeDmaEx

/-- One of these calls of `runCommand` issues this command. -/
def DiskWorld.Issued (world : DiskWorld) (requests : List CommandRequest) (request : CommandRequest) : Prop :=
  ∃ number, requests[number]? = some request ∧ Issues (world.command number request).2

/-- The commands that a call issues transfer sectors in front of the end only. A call that asks for more returns
`false` and issues none. -/
structure StaysInside (world : DiskWorld) (sectors : Nat) (call : DiskCall) (outcome : Bool × List CommandRequest) :
    Prop where
  inside : ∀ request, world.Issued outcome.2 request → request.Transfers →
    request.span.start + request.span.size ≤ sectors
  refused : sectors < call.lba.toNat + call.count.toNat →
    outcome.1 = false ∧ ∀ request, world.Issued outcome.2 request → ¬ request.Transfers

/-- The table has this entry for a SATA disk, with the size that the disk gave, or none. -/
structure IsSataDisk (world : DiskWorld) (disk : Disk) : Prop where
  type : disk.type = .ahciSata
  recorded : disk.totalSectors = 0 ∨ disk.totalSectors = identifiedSectors world.word

/-- The size that the disk gives when it is asked, or 0. -/
def DiskWorld.reported (world : DiskWorld) : UInt64 :=
  (sataGetTotalSectors world.hhdm world.identifyBuf world.word world.answers).1

/-- The number of the first call of `runCommand` behind the identification. -/
def DiskWorld.firstTransfer (world : DiskWorld) : Nat := if world.identifyBuf = 0 then 0 else 1

/-- The port takes this command: it has a free slot, a command list and a table, there is room for the entries of
the buffer, and the port is ready in time. -/
def DiskWorld.Takes (world : DiskWorld) (number : Nat) (request : CommandRequest) : Prop :=
  ∃ slot, Sends world.hhdm (world.memory number) (world.port number) request slot

namespace DiskCall

variable (table : DiskTable) (call : DiskCall)

/-- The sum that is compared with the size of the disk. -/
def stop : UInt64 := call.lba + call.count.toUInt64

/-- The first command of a read. -/
def firstRead (hhdm : UInt64) : CommandRequest :=
  sectorRequest readDmaEx 0 call.lba (chunkOf call.count) (virToPhys hhdm call.buf)

/-- The command of a write. -/
def onlyWrite (hhdm : UInt64) : CommandRequest :=
  sectorRequest writeDmaEx 1 call.lba call.count (virToPhys hhdm call.buf)

/-- The checks of both calls before they look at the size of the disk. -/
structure Admitted (disk : Disk) : Prop where
  number : call.diskNo < table.diskCount
  listed : ∃ disks, table.disks = some disks ∧ disks call.diskNo = disk
  count : call.count ≠ 0
  buf : call.buf ≠ 0
  context : disk.context ≠ 0

end DiskCall

section Bounds

variable {world : DiskWorld} {table : DiskTable} {call : DiskCall} {disk : Disk} {answers : Answers}
  {hhdm identifyBuf lba physBuf : UInt64} {word : Nat → UInt16} {count : UInt32}

/-- The identification transfers no sectors. -/
theorem not_transfers_identify :
    ∀ request ∈ (sataGetTotalSectors hhdm identifyBuf word answers).2, ¬ request.Transfers := by
  have identify : ¬ (identifyDevice = readDmaEx ∨ identifyDevice = writeDmaEx) := by decide
  unfold sataGetTotalSectors
  dsimp only
  split_ifs
  · exact fun _ impossible => absurd impossible List.not_mem_nil
  · rw [List.forall_mem_singleton]
    exact identify
  · rw [List.forall_mem_singleton]
    exact identify

theorem reported_eq (known : (sataGetTotalSectors hhdm identifyBuf word answers).1 ≠ 0) :
    (sataGetTotalSectors hhdm identifyBuf word answers).1 = identifiedSectors word := by
  unfold sataGetTotalSectors at known ⊢
  dsimp only at known ⊢
  split_ifs at known ⊢
  · exact absurd rfl known
  · rfl
  · exact absurd rfl known

/-- A read whose end does not wrap around stays in front of its end. -/
theorem sataReadLoop_inside (call : Nat) (within : lba.toNat + count.toNat < 18446744073709551616) :
    ∀ request ∈ (sataReadLoop answers call lba count physBuf).2,
      request.span.start + request.span.size ≤ lba.toNat + count.toNat := by
  induction size : count.toNat using Nat.strongRecOn generalizing call lba count physBuf with
  | _ size ih =>
      by_cases more : count = 0
      · rw [more, sataReadLoop_zero]
        exact fun _ impossible => absurd impossible List.not_mem_nil
      · have positive : count.toNat ≠ 0 := fun zero => more (UInt32.toNat_inj.mp zero)
        have left := toNat_sub_chunkOf count
        have next : (lba + (chunkOf count).toUInt64).toNat = lba.toNat + min 32 count.toNat := by
          rw [UInt64.toNat_add, UInt32.toNat_toUInt64, toNat_chunkOf]
          omega
        have rest := @ih (count - chunkOf count).toNat (by omega) (lba + (chunkOf count).toUInt64)
          (physBuf + (chunkOf count).toUInt64 * 512) (count - chunkOf count) (call + 1) (by omega) rfl
        have first : (sectorRequest readDmaEx 0 lba (chunkOf count) physBuf).span.start +
            (sectorRequest readDmaEx 0 lba (chunkOf count) physBuf).span.size ≤ lba.toNat + count.toNat := by
          rw [CommandRequest.span, sector_sectorRequest, sectors_chunk more]
          dsimp only
          omega
        rw [sataReadLoop_turn more, ← size]
        dsimp only
        split_ifs
        · rw [List.forall_mem_cons]
          refine ⟨first, fun request there => ?_⟩
          have later := rest request there
          omega
        · rw [List.forall_mem_singleton]
          exact first

/-- A command is issued exactly when the port takes it. -/
theorem DiskWorld.issues_iff_takes (number : Nat) (request : CommandRequest) :
    Issues (world.command number request).2 ↔ world.Takes number request := by
  unfold DiskWorld.command
  constructor
  · intro issues
    rcases runCommand_cases world.hhdm (world.memory number) (world.port number) request with
      ⟨log, same, _, unissued, _⟩ | ⟨slot, _, sends, _⟩
    · rw [same] at issues
      exact absurd issues unissued
    · exact ⟨slot, sends⟩
  · rintro ⟨slot, sends⟩
    obtain ⟨answer, waits, polls, ready, _, same, _⟩ := runCommand_sent sends
    obtain ⟨before, _, split⟩ := @issuedLog_split world.hhdm (world.memory number) (world.port number) request slot
      waits ready polls
    rw [same, split]
    exact ⟨_, List.mem_append_right _ List.mem_cons_self⟩

/-- A command that the port does not take fails. -/
theorem DiskWorld.answers_of_not_takes {number : Nat} {request : CommandRequest}
    (refused : ¬ world.Takes number request) : world.answers number request = false := by
  rcases runCommand_cases world.hhdm (world.memory number) (world.port number) request with
    ⟨log, same, _⟩ | ⟨slot, _, sends, _⟩
  · rw [DiskWorld.answers, DiskWorld.command, same]
  · exact absurd ⟨slot, sends⟩ refused

theorem DiskWorld.length_identify :
    (sataGetTotalSectors world.hhdm world.identifyBuf world.word answers).2.length = world.firstTransfer := by
  unfold sataGetTotalSectors DiskWorld.firstTransfer
  dsimp only
  split_ifs <;> rfl

theorem DiskWorld.Issued.mem {requests : List CommandRequest} {request : CommandRequest}
    (issued : world.Issued requests request) : request ∈ requests := by
  obtain ⟨number, there, _⟩ := issued
  exact List.mem_of_getElem? there

/-- The command behind these is issued when the port takes it. -/
theorem DiskWorld.Takes.issued {asked : List CommandRequest} {request : CommandRequest}
    (takes : world.Takes asked.length request) (rest : List CommandRequest) :
    world.Issued (asked ++ request :: rest) request := by
  refine ⟨asked.length, ?_, (world.issues_iff_takes _ _).mpr takes⟩
  rw [List.getElem?_append_right (Nat.le_refl _), Nat.sub_self, List.getElem?_cons_zero]

/-- When the port does not take the last command, an earlier one is issued. -/
theorem DiskWorld.Issued.mem_of_not_takes {asked : List CommandRequest} {last request : CommandRequest}
    (refused : ¬ world.Takes asked.length last) (issued : world.Issued (asked ++ [last]) request) :
    request ∈ asked := by
  obtain ⟨number, there, issues⟩ := issued
  by_cases early : number < asked.length
  · rw [List.getElem?_append_left early] at there
    exact List.mem_of_getElem? there
  · rw [List.getElem?_append_right (Nat.not_lt.mp early)] at there
    obtain ⟨_, only⟩ := List.getElem?_eq_some_iff.mp there
    obtain ⟨here, _⟩ := List.getElem?_eq_some_iff.mp there
    rw [List.length_singleton] at here
    rw [List.getElem_singleton] at only
    obtain rfl : number = asked.length := by omega
    subst only
    exact absurd ((world.issues_iff_takes _ _).mp issues) refused

/-- A read that is not empty begins with a command, and stops there when the port does not take it. -/
theorem sataReadLoop_first (more : count ≠ 0) (number : Nat) :
    (∃ rest, (sataReadLoop world.answers number lba count physBuf).2 =
        sectorRequest readDmaEx 0 lba (chunkOf count) physBuf :: rest) ∧
      (¬ world.Takes number (sectorRequest readDmaEx 0 lba (chunkOf count) physBuf) →
        sataReadLoop world.answers number lba count physBuf =
          (false, [sectorRequest readDmaEx 0 lba (chunkOf count) physBuf])) := by
  rw [sataReadLoop_turn more]
  dsimp only
  constructor
  · split_ifs
    · exact ⟨_, rfl⟩
    · exact ⟨_, rfl⟩
  · intro refused
    rw [world.answers_of_not_takes refused, if_neg Bool.false_ne_true]

/-- A call that passes the first checks goes on with the SATA disk; every other one does nothing. -/
theorem keblaDiskRead_eq (sata : disk.type = .ahciSata)
    (entry : ∀ disks, table.disks = some disks → disks call.diskNo = disk) :
    (call.Admitted table disk ∧ keblaDiskRead world table call =
        sataRead world.hhdm world.identifyBuf world.word world.answers call.lba call.count.toUInt64
          (virToPhys world.hhdm call.buf)) ∨
      (¬ call.Admitted table disk ∧ keblaDiskRead world table call = (false, [])) := by
  unfold keblaDiskRead
  by_cases number : table.diskCount ≤ call.diskNo
  · rw [if_pos number]
    exact .inr ⟨fun admitted => Int32.not_le.mpr admitted.number number, rfl⟩
  · rw [if_neg number]
    cases listed : table.disks with
    | none =>
        refine .inr ⟨fun admitted => ?_, rfl⟩
        obtain ⟨disks, there, _⟩ := admitted.listed
        exact absurd (listed.symm.trans there) (Option.some_ne_none disks).symm
    | some disks =>
        obtain rfl := entry disks listed
        dsimp only
        rw [sata]
        dsimp only
        split_ifs with count buf context
        · exact .inr ⟨fun admitted => admitted.count count, rfl⟩
        · exact .inr ⟨fun admitted => admitted.buf buf, rfl⟩
        · exact .inr ⟨fun admitted => admitted.context context, rfl⟩
        · exact .inl ⟨⟨Int32.not_le.mp number, ⟨disks, listed, rfl⟩, count, buf, context⟩, rfl⟩

theorem keblaDiskWrite_eq (sata : disk.type = .ahciSata)
    (entry : ∀ disks, table.disks = some disks → disks call.diskNo = disk) :
    (call.Admitted table disk ∧ ¬ disk.totalSectors < call.stop ∧ keblaDiskWrite world table call =
        sataWrite world.hhdm world.identifyBuf world.word world.answers call.lba call.count.toUInt64
          (virToPhys world.hhdm call.buf)) ∨
      (¬ (call.Admitted table disk ∧ ¬ disk.totalSectors < call.stop) ∧
        keblaDiskWrite world table call = (false, [])) := by
  unfold keblaDiskWrite
  by_cases number : table.diskCount ≤ call.diskNo
  · rw [if_pos number]
    exact .inr ⟨fun admitted => Int32.not_le.mpr admitted.1.number number, rfl⟩
  · rw [if_neg number]
    cases listed : table.disks with
    | none =>
        refine .inr ⟨fun admitted => ?_, rfl⟩
        obtain ⟨disks, there, _⟩ := admitted.1.listed
        exact absurd (listed.symm.trans there) (Option.some_ne_none disks).symm
    | some disks =>
        obtain rfl := entry disks listed
        dsimp only
        rw [sata]
        dsimp only
        split_ifs with count buf beyond context
        · exact .inr ⟨fun admitted => admitted.1.count count, rfl⟩
        · exact .inr ⟨fun admitted => admitted.1.buf buf, rfl⟩
        · exact .inr ⟨fun admitted => admitted.2 beyond, rfl⟩
        · exact .inr ⟨fun admitted => admitted.1.context context, rfl⟩
        · exact .inl ⟨⟨Int32.not_le.mp number, ⟨disks, listed, rfl⟩, count, buf, context⟩, beyond, rfl⟩

/-- A refusal without transfers stays inside. -/
theorem StaysInside.of_refused {sectors : Nat} {requests : List CommandRequest}
    (none_transfers : ∀ request, world.Issued requests request → ¬ request.Transfers) :
    StaysInside world sectors call (false, requests) where
  inside request issued transfers := absurd transfers (none_transfers request issued)
  refused _ := ⟨rfl, none_transfers⟩

/-- Nor does a call that sends nothing. -/
theorem StaysInside.of_nil (sectors : Nat) : StaysInside world sectors call (false, []) :=
  .of_refused fun _ issued => absurd (DiskWorld.Issued.mem issued) List.not_mem_nil

/-- Nor does a call that asks for sectors of the disk and transfers no others. -/
theorem StaysInside.of_asked {sectors : Nat} {outcome : Bool × List CommandRequest}
    (enough : call.lba.toNat + call.count.toNat ≤ sectors)
    (spans : ∀ request ∈ outcome.2, request.Transfers →
      request.span.start + request.span.size ≤ call.lba.toNat + call.count.toNat) :
    StaysInside world sectors call outcome where
  inside request issued transfers := Nat.le_trans (spans request issued.mem transfers) enough
  refused more := absurd more (Nat.not_lt.mpr enough)

theorem toNat_stop (within : call.lba.toNat + call.count.toNat < 18446744073709551616) :
    call.stop.toNat = call.lba.toNat + call.count.toNat := by
  rw [DiskCall.stop, UInt64.toNat_add, UInt32.toNat_toUInt64, Nat.mod_eq_of_lt within]

/-- A read stays inside the disk exactly when its end does not wrap around, or one of the checks refuses it all the
same, or the port does not take its first command. -/
theorem keblaDiskRead_staysInside_iff (sata : IsSataDisk world disk)
    (entry : ∀ disks, table.disks = some disks → disks call.diskNo = disk) :
    StaysInside world (identifiedSectors world.word).toNat call (keblaDiskRead world table call) ↔
      call.lba.toNat + call.count.toNat < 18446744073709551616 ∨ ¬ call.Admitted table disk ∨
        world.reported = 0 ∨ world.reported < call.stop ∨
        ¬ world.Takes world.firstTransfer (call.firstRead world.hhdm) := by
  rcases @keblaDiskRead_eq world table call disk sata.type entry with ⟨admitted, same⟩ | ⟨refused, same⟩
  · have counts : call.count.toUInt64.toUInt32 = call.count := UInt32.toUInt32_toUInt64 call.count
    have size := @reported_eq world.answers world.hhdm world.identifyBuf world.word
    have identify := @not_transfers_identify world.answers world.hhdm world.identifyBuf world.word
    have asks := @DiskWorld.length_identify world world.answers
    rw [same, sataRead, counts, ← asks]
    unfold DiskWorld.reported
    generalize sataGetTotalSectors world.hhdm world.identifyBuf world.word world.answers = answer at size identify ⊢
    obtain ⟨total, asked⟩ := answer
    have sum : call.lba + call.count.toUInt64 = call.stop := rfl
    have quiet : ∀ request, world.Issued asked request → ¬ request.Transfers := fun request issued =>
      identify request issued.mem
    dsimp only at size identify ⊢
    rw [sum]
    by_cases unknown : total = 0
    · rw [if_pos unknown]
      exact iff_of_true (.of_refused quiet) (.inr (.inr (.inl unknown)))
    · rw [if_neg unknown]
      by_cases beyond : total < call.stop
      · rw [if_pos beyond]
        exact iff_of_true (.of_refused quiet) (.inr (.inr (.inr (.inl beyond))))
      · rw [if_neg beyond, ← size unknown]
        obtain ⟨⟨rest, begins⟩, stops⟩ := @sataReadLoop_first world call.lba (virToPhys world.hhdm call.buf) call.count
          admitted.count asked.length
        rw [UInt64.lt_iff_toNat_lt] at beyond
        constructor
        · intro inside
          by_contra wraps
          simp only [not_or, not_not] at wraps
          obtain ⟨wraps, _, _, _, takes⟩ := wraps
          have small := total.toNat_lt
          refine (inside.refused (by omega)).2 (call.firstRead world.hhdm) ?_ (.inl rfl)
          dsimp only
          rw [begins]
          exact takes.issued rest
        · rintro (within | refused | unknown' | beyond' | refused)
          · have stop := toNat_stop within
            refine .of_asked (by omega) fun request among transfers => ?_
            rcases List.mem_append.mp among with first | part
            · exact absurd transfers (identify request first)
            · exact sataReadLoop_inside asked.length within request part
          · exact absurd admitted refused
          · exact absurd unknown' unknown
          · rw [UInt64.lt_iff_toNat_lt] at beyond'
            exact absurd beyond' beyond
          · rw [stops refused]
            exact .of_refused fun request issued => identify request (issued.mem_of_not_takes refused)
  · rw [same]
    exact iff_of_true (.of_nil _) (.inr (.inl refused))

/-- A write stays inside the disk exactly when its end does not wrap around, or one of the checks refuses it all the
same, or the port does not take its command. -/
theorem keblaDiskWrite_staysInside_iff (sata : IsSataDisk world disk)
    (entry : ∀ disks, table.disks = some disks → disks call.diskNo = disk) :
    StaysInside world (identifiedSectors world.word).toNat call (keblaDiskWrite world table call) ↔
      call.lba.toNat + call.count.toNat < 18446744073709551616 ∨ ¬ call.Admitted table disk ∨
        disk.totalSectors < call.stop ∨ (0 < world.reported ∧ world.reported < call.stop) ∨
        ¬ world.Takes world.firstTransfer (call.onlyWrite world.hhdm) := by
  rcases @keblaDiskWrite_eq world table call disk sata.type entry with ⟨admitted, recorded, same⟩ | ⟨refused, same⟩
  · have counts : call.count.toUInt64.toUInt32 = call.count := UInt32.toUInt32_toUInt64 call.count
    have identify := @not_transfers_identify world.answers world.hhdm world.identifyBuf world.word
    have asks := @DiskWorld.length_identify world world.answers
    have positive : call.count.toNat ≠ 0 := fun zero => admitted.count (UInt32.toNat_inj.mp zero)
    rw [same, sataWrite, counts, ← asks]
    unfold DiskWorld.reported
    generalize sataGetTotalSectors world.hhdm world.identifyBuf world.word world.answers = answer at identify ⊢
    obtain ⟨total, asked⟩ := answer
    have sum : call.lba + call.count.toUInt64 = call.stop := rfl
    have write : sectorRequest writeDmaEx 1 call.lba call.count (virToPhys world.hhdm call.buf) =
      call.onlyWrite world.hhdm := rfl
    dsimp only at identify ⊢
    rw [sum, write]
    by_cases beyond : 0 < total ∧ total < call.stop
    · rw [if_pos beyond]
      exact iff_of_true (.of_refused fun request issued => identify request issued.mem)
        (.inr (.inr (.inr (.inl beyond))))
    · rw [if_neg beyond]
      have span : (call.onlyWrite world.hhdm).span.start + (call.onlyWrite world.hhdm).span.size ≤
          call.lba.toNat + call.count.toNat := by
        rw [← write, CommandRequest.span, sector_sectorRequest, sectors_fis, sectorRequest]
        dsimp only
        split_ifs with round
        · omega
        · omega
      constructor
      · intro inside
        by_contra wraps
        simp only [not_or, not_not] at wraps
        obtain ⟨wraps, _, _, _, takes⟩ := wraps
        have small := (identifiedSectors world.word).toNat_lt
        exact (inside.refused (by omega)).2 _ (takes.issued []) (.inr rfl)
      · rintro (within | refused | recorded' | beyond' | refused)
        · have stop := toNat_stop within
          have enough : call.lba.toNat + call.count.toNat ≤ (identifiedSectors world.word).toNat := by
            rw [UInt64.lt_iff_toNat_lt] at recorded
            rcases sata.recorded with unknown | size
            · rw [unknown, UInt64.toNat_zero] at recorded
              omega
            · rw [size] at recorded
              omega
          refine .of_asked enough fun request among transfers => ?_
          rcases List.mem_append.mp among with first | only
          · exact absurd transfers (identify request first)
          · obtain rfl := List.mem_singleton.mp only
            exact span
        · exact absurd admitted refused
        · exact absurd recorded' recorded
        · exact absurd beyond' beyond
        · rw [world.answers_of_not_takes refused]
          exact .of_refused fun request issued => identify request (issued.mem_of_not_takes refused)
  · rw [same]
    refine iff_of_true (.of_nil _) ?_
    by_cases admitted : call.Admitted table disk
    · exact .inr (.inr (.inl (not_not.mp fun recorded => refused ⟨admitted, recorded⟩)))
    · exact .inr (.inl admitted)

/-- Both calls stay inside the disk exactly when their end does not wrap around, or one of the checks refuses them all
the same, or the port does not take their first command. -/
theorem keblaDisk_staysInside_iff (sata : IsSataDisk world disk)
    (entry : ∀ disks, table.disks = some disks → disks call.diskNo = disk) :
    (StaysInside world (identifiedSectors world.word).toNat call (keblaDiskRead world table call) ↔
        call.lba.toNat + call.count.toNat < 18446744073709551616 ∨ ¬ call.Admitted table disk ∨
          world.reported = 0 ∨ world.reported < call.stop ∨
          ¬ world.Takes world.firstTransfer (call.firstRead world.hhdm)) ∧
      (StaysInside world (identifiedSectors world.word).toNat call (keblaDiskWrite world table call) ↔
        call.lba.toNat + call.count.toNat < 18446744073709551616 ∨ ¬ call.Admitted table disk ∨
          disk.totalSectors < call.stop ∨ (0 < world.reported ∧ world.reported < call.stop) ∨
          ¬ world.Takes world.firstTransfer (call.onlyWrite world.hhdm)) :=
  ⟨keblaDiskRead_staysInside_iff sata entry, keblaDiskWrite_staysInside_iff sata entry⟩

end Bounds

/-! ## A request that wraps around -/

/-- A disk with 1000 sectors at a port that is never busy. -/
def smallWorld : DiskWorld where
  hhdm := 0xFFFF800000000000
  identifyBuf := 0xFFFF800000001000
  word := thousandSectors
  port := fun _ _ _ => 0
  memory := fun _ _ => 0
  satapiRead := fun _ => false
  satapiWrite := fun _ => false

def smallDisk : Disk := ⟨.ahciSata, 1000, 0xFFFF8000FEBB0100⟩

def smallTable : DiskTable := ⟨some fun _ => smallDisk, 1⟩

/-- Two sectors from the last possible one on. -/
def wrappingCall : DiskCall := ⟨0, 0xFFFFFFFFFFFFFFFF, 2, 0xFFFF800000005000⟩

theorem takes_smallWorld (request : CommandRequest) (number : Nat)
    (room : (request.prdt 0xFFFF800000000000).2 = true) : smallWorld.Takes number request := by
  have sends : Sends 0xFFFF800000000000 (fun _ => 0) (fun _ _ => 0) request 0 :=
    ⟨by decide, by decide, by decide, room, 0, by decide, by decide⟩
  exact ⟨0, sends⟩

/-- A request for two sectors at the end of the address space is not refused: commands are issued for a sector far
behind the end of the disk, and both calls return `true`. -/
theorem keblaDisk_wraps_around :
    IsSataDisk smallWorld smallDisk ∧
      (∃ request, smallWorld.Issued (keblaDiskRead smallWorld smallTable wrappingCall).2 request ∧
        request.Transfers ∧ request.span.start = 281474976710655) ∧
      (∃ request, smallWorld.Issued (keblaDiskWrite smallWorld smallTable wrappingCall).2 request ∧
        request.Transfers ∧ request.span.start = 281474976710655) ∧
      ¬ StaysInside smallWorld 1000 wrappingCall (keblaDiskRead smallWorld smallTable wrappingCall) ∧
      ¬ StaysInside smallWorld 1000 wrappingCall (keblaDiskWrite smallWorld smallTable wrappingCall) := by
  have identified : smallWorld.answers 0 ⟨identifyDevice, 0, 0, 0, 1, 0x1000⟩ = true := by decide +kernel
  have asked : sataGetTotalSectors 0xFFFF800000000000 0xFFFF800000001000 thousandSectors smallWorld.answers =
      (1000, [⟨identifyDevice, 0, 0, 0, 1, 0x1000⟩]) := by
    unfold sataGetTotalSectors
    dsimp only
    rw [if_neg (by decide), show virToPhys 0xFFFF800000000000 0xFFFF800000001000 = 0x1000 by decide, if_pos identified]
    rfl
  have read : (keblaDiskRead smallWorld smallTable wrappingCall).2 = [⟨identifyDevice, 0, 0, 0, 1, 0x1000⟩] ++
      (sataReadLoop smallWorld.answers 1 0xFFFFFFFFFFFFFFFF 2 0x5000).2 := by
    have passes : keblaDiskRead smallWorld smallTable wrappingCall = sataRead 0xFFFF800000000000 0xFFFF800000001000
      thousandSectors smallWorld.answers 0xFFFFFFFFFFFFFFFF 2 0x5000 := by rfl
    rw [passes, sataRead, asked]
    rfl
  have written : (keblaDiskWrite smallWorld smallTable wrappingCall).2 =
      [⟨identifyDevice, 0, 0, 0, 1, 0x1000⟩] ++ [sectorRequest writeDmaEx 1 0xFFFFFFFFFFFFFFFF 2 0x5000] := by
    have passes : keblaDiskWrite smallWorld smallTable wrappingCall = sataWrite 0xFFFF800000000000 0xFFFF800000001000
      thousandSectors smallWorld.answers 0xFFFFFFFFFFFFFFFF 2 0x5000 := by rfl
    rw [passes, sataWrite, asked]
    rfl
  have reads : ∃ request, smallWorld.Issued (keblaDiskRead smallWorld smallTable wrappingCall).2 request ∧
      request.Transfers ∧ request.span.start = 281474976710655 := by
    obtain ⟨⟨rest, begins⟩, _⟩ := @sataReadLoop_first smallWorld 0xFFFFFFFFFFFFFFFF 0x5000 2 (by decide) 1
    rw [read, begins]
    exact ⟨_, (takes_smallWorld _ 1 (by decide +kernel)).issued rest, .inl rfl, by decide⟩
  have writes : ∃ request, smallWorld.Issued (keblaDiskWrite smallWorld smallTable wrappingCall).2 request ∧
      request.Transfers ∧ request.span.start = 281474976710655 := by
    rw [written]
    exact ⟨_, (takes_smallWorld _ 1 (by decide +kernel)).issued [], .inr rfl, by decide⟩
  refine ⟨⟨rfl, .inr (by decide)⟩, reads, writes, fun inside => ?_, fun inside => ?_⟩
  · obtain ⟨request, issued, transfers, _⟩ := reads
    exact (inside.refused (by decide)).2 request issued transfers
  · obtain ⟨request, issued, transfers, _⟩ := writes
    exact (inside.refused (by decide)).2 request issued transfers

/-- The last sector is read and written; a request for one more is refused. -/
theorem keblaDisk_staysInside_last :
    StaysInside smallWorld 1000 ⟨0, 999, 1, 0xFFFF800000005000⟩
        (keblaDiskRead smallWorld smallTable ⟨0, 999, 1, 0xFFFF800000005000⟩) ∧
      StaysInside smallWorld 1000 ⟨0, 999, 1, 0xFFFF800000005000⟩
        (keblaDiskWrite smallWorld smallTable ⟨0, 999, 1, 0xFFFF800000005000⟩) ∧
      (keblaDiskRead smallWorld smallTable ⟨0, 999, 2, 0xFFFF800000005000⟩).1 = false ∧
      (keblaDiskWrite smallWorld smallTable ⟨0, 999, 2, 0xFFFF800000005000⟩).1 = false := by
  have calls := fun count => @keblaDisk_staysInside_iff smallWorld smallTable ⟨0, 999, count, 0xFFFF800000005000⟩
    smallDisk ⟨rfl, .inr (by decide)⟩ (by rintro _ ⟨⟩; rfl)
  have one := calls 1
  have two := calls 2
  exact ⟨one.1.mpr (.inl (by decide)), one.2.mpr (.inl (by decide)),
    ((two.1.mpr (.inl (by decide))).refused (by decide)).1, ((two.2.mpr (.inl (by decide))).refused (by decide)).1⟩

end KeblaOS.Ahci
