import KeblaOS.Memory.Walk

/-!
# Commands to an AHCI port

`findCMDSlot` and `runCommand` of `ahci.c`. What a port shows at successive reads of a register is an
argument, and so are the words of memory. All that the functions do to the port and to the command list and
the command table is logged in order.
-/

namespace KeblaOS.Ahci

open Memory (physToVir virToPhys)

/-- The registers of `HBA_PORT_T` that are used. -/
inductive Register where
  | clb
  | clbu
  | is
  | tfd
  | sact
  | ci
deriving DecidableEq

/-- The value that each read of a register shows; the first read is number 0. -/
abbrev Port := Register → Nat → UInt32

/-- `HBA_PRDT_ENTRY_T`. -/
structure PrdtEntry where
  dba : UInt32
  dbau : UInt32
  dbc : UInt32
  i : UInt32
deriving DecidableEq

/-- `FIS_REG_H2D_T`. -/
structure FisRegH2d where
  fisType : UInt8
  pmport : UInt8
  c : UInt8
  command : UInt8
  featurel : UInt8
  lba0 : UInt8
  lba1 : UInt8
  lba2 : UInt8
  device : UInt8
  lba3 : UInt8
  lba4 : UInt8
  lba5 : UInt8
  featureh : UInt8
  countl : UInt8
  counth : UInt8
  icc : UInt8
  control : UInt8
deriving DecidableEq

/-- Reads and writes of registers, and stores at virtual addresses. -/
inductive Access where
  | read (register : Register) (value : UInt32)
  | write (register : Register) (value : UInt32)
  /-- The first byte of a command header. -/
  | flags (header : UInt64) (cfl w : UInt8)
  | clear (address : UInt64) (length : Nat)
  | prdt (address : UInt64) (entry : PrdtEntry)
  | prdtl (header : UInt64) (length : UInt16)
  | fis (address : UInt64) (fis : FisRegH2d)
deriving DecidableEq

/-- How often a register has been read. -/
def readsOf (register : Register) (log : List Access) : Nat :=
  log.countP fun
    | .read other _ => other = register
    | _ => false

def Port.read (port : Port) (log : List Access) (register : Register) : UInt32 × List Access :=
  let value := port register (readsOf register log)
  (value, log ++ [.read register value])

/-! ## Slots -/

/-- The loop of `findCMDSlot` from slot `i` on. -/
def freeSlot : UInt32 → Nat → Nat → Option Nat
  | _, _, 0 => none
  | slots, i, count + 1 => if slots &&& 1 = 0 then some i else freeSlot (slots >>> 1) (i + 1) count

/-- `findCMDSlot`; `none` for -1. -/
def findCMDSlot (port : Port) (cmdSlots : Nat) (log : List Access) : Option Nat × List Access :=
  let (sact, log) := port.read log .sact
  let (ci, log) := port.read log .ci
  (freeSlot (sact ||| ci) 0 cmdSlots, log)

/-- `1 << slot`. -/
def slotBit (slot : Nat) : UInt32 := 1 <<< UInt32.ofNat slot

/-! ## The command -/

/-- The arguments of `runCommand` besides the port. -/
structure CommandRequest where
  type : UInt32
  write : UInt8
  startL : UInt32
  startH : UInt32
  count : UInt32
  physBuf : UInt64

/-- `MAX_PRDT_ENTRIES`. -/
def maxPrdtEntries : Nat := 256

/-- The loop that fills the descriptor table, with room for so many entries; `false` when it overflows. -/
def prdtLoop (hhdm virt : UInt64) : Nat → UInt32 → UInt32 → List PrdtEntry × Bool
  | 0, _, totalBytes => ([], totalBytes = 0)
  | room + 1, offset, totalBytes =>
      if totalBytes = 0 then ([], true)
      else
        let phys := virToPhys hhdm (virt + offset.toUInt64)
        let pageOffset := (phys &&& 0xFFF).toUInt32
        let chunk := if totalBytes < 4096 - pageOffset then totalBytes else 4096 - pageOffset
        let (entries, complete) := prdtLoop hhdm virt room (offset + chunk) (totalBytes - chunk)
        -- `dbc` has 22 bits
        (⟨phys.toUInt32, (phys >>> 32).toUInt32, (chunk - 1) &&& 0x3FFFFF, 1⟩ :: entries, complete)

namespace CommandRequest

/-- The entries for the buffer, and whether they are all of them. -/
def prdt (request : CommandRequest) (hhdm : UInt64) : List PrdtEntry × Bool :=
  prdtLoop hhdm (physToVir hhdm request.physBuf) maxPrdtEntries 0 (request.count <<< 9)

/-- The FIS. -/
def fis (request : CommandRequest) : FisRegH2d where
  fisType := 0x27
  pmport := 0
  c := 1
  command := request.type.toUInt8
  featurel := 0
  lba0 := request.startL.toUInt8
  lba1 := (request.startL >>> 8).toUInt8
  lba2 := (request.startL >>> 16).toUInt8
  device := 0x40
  lba3 := (request.startL >>> 24).toUInt8
  lba4 := request.startH.toUInt8
  lba5 := (request.startH >>> 8).toUInt8
  featureh := 0
  countl := (request.count &&& 0xFF).toUInt8
  counth := ((request.count >>> 8) &&& 0xFF).toUInt8
  icc := 0
  control := 0

end CommandRequest

/-- An address from its lower and its upper half. -/
def address (lower upper : UInt32) : UInt64 := upper.toUInt64 <<< 32 ||| lower.toUInt64

/-- The header of a slot in the command list at `headers`. -/
def headerOf (headers : UInt64) (slot : Nat) : UInt64 := headers + 32 * UInt64.ofNat slot

/-- The address that a header has in `ctba` and `ctbau`. -/
def tablePhys (word : UInt64 → UInt32) (header : UInt64) : UInt64 := address (word (header + 8)) (word (header + 12))

/-- The stores of the entries. -/
def prdtStores (table : UInt64) (entries : List PrdtEntry) : List Access :=
  entries.mapIdx fun i entry => .prdt (table + 0x80 + 16 * UInt64.ofNat i) entry

/-- `runCommand` up to the FIS, for a free slot. -/
def prepareCommand (hhdm : UInt64) (word : UInt64 → UInt32) (port : Port) (request : CommandRequest) (slot : Nat)
    (log : List Access) : Bool × List Access :=
  let (clbu, log) := port.read log .clbu
  let (clb, log) := port.read log .clb
  let headers := physToVir hhdm (address clb clbu)
  if headers = 0 then (false, log)
  else
    let header := headerOf headers slot
    let log := log ++ [.flags header 5 (request.write &&& 1)]
    let table := physToVir hhdm (tablePhys word header)
    if table = 0 then (false, log)
    else
      let (entries, complete) := request.prdt hhdm
      let log := log ++ .clear table 4096 :: prdtStores table entries
      if complete = false then (false, log)
      else (true, log ++ [.prdtl header (UInt16.ofNat entries.length), .clear table 20, .fis table request.fis])

/-! ## The two waits -/

/-- The turns that both waits have. -/
def waitTurns : Nat := 1000000

/-- `ATA_DEV_BUSY | ATA_DEV_DRQ`. -/
def deviceBusy : UInt32 := 0x88

/-- `HBA_PxIS_TFES`. -/
def taskFileError : UInt32 := 0x40000000

/-- The wait until the port is not busy, with so many turns left: the value of `spin` behind it. -/
def waitReady (port : Port) : Nat → Nat → List Access → Nat × List Access
  | 0, spin, log => (spin, (port.read log .tfd).2)
  | turns + 1, spin, log =>
      let (tfd, log) := port.read log .tfd
      if tfd &&& deviceBusy ≠ 0 then waitReady port turns (spin + 1) log else (spin, log)

/-- The wait for completion with this value of `timeout`: its value behind the loop, unless the loop sees a
task file error. -/
def waitDone (port : Port) (bit : UInt32) : Nat → List Access → Option Int × List Access
  | 0, log =>
      let (ci, log) := port.read log .ci
      -- `timeout--` is evaluated only while the bit is set
      if ci &&& bit ≠ 0 then (some (-1), log) else (some 0, log)
  | timeout + 1, log =>
      let (ci, log) := port.read log .ci
      if ci &&& bit ≠ 0 then
        let (is, log) := port.read log .is
        if is &&& taskFileError ≠ 0 then (none, log) else waitDone port bit timeout log
      else (some (timeout + 1), log)

/-- `runCommand` behind the issue of the command. -/
def finishCommand (port : Port) (bit : UInt32) (log : List Access) : Bool × List Access :=
  match waitDone port bit waitTurns log with
  | (none, log) => (false, log)
  | (some timeout, log) =>
      if timeout = 0 then (false, log)
      else
        let (is, log) := port.read log .is
        (is &&& taskFileError = 0, log)

/-- `runCommand`. -/
def runCommand (hhdm : UInt64) (word : UInt64 → UInt32) (port : Option Port) (request : CommandRequest) :
    Bool × List Access :=
  match port with
  | none => (false, [])
  | some port =>
      match findCMDSlot port 32 [.write .is 0xFFFFFFFF] with
      | (none, log) => (false, log)
      | (some slot, log) =>
          match prepareCommand hhdm word port request slot log with
          | (false, log) => (false, log)
          | (true, log) =>
              let (spin, log) := waitReady port waitTurns 0 log
              if spin = waitTurns then (false, log)
              else
                let (ci, log) := port.read log .ci
                finishCommand port (slotBit slot) (log ++ [.write .ci (ci ||| slotBit slot)])

end KeblaOS.Ahci
