import KeblaOS.Ahci.ScatterList
import KeblaOS.Lib.Run
import KeblaOS.Lib.Stores

/-!
# The command tables of a port

`portRebase` puts the command list and the command tables of a port into a block of 64 KiB, with the tables of
the slots 256 bytes apart. `runCommand` clears 4096 bytes at the table of its slot, so that a command clears the
tables of the 15 slots behind its own as well.
-/

namespace KeblaOS.Ahci

open Memory (physToVir virToPhys)

/-! ## Bytes -/

/-- A word of 32 bits, the lowest byte first. -/
def wordBytes (value : UInt32) : List UInt8 :=
  [UInt8.ofNat value.toNat, UInt8.ofNat (value.toNat / 256), UInt8.ofNat (value.toNat / 65536),
    UInt8.ofNat (value.toNat / 16777216)]

/-- The word at an address. -/
def wordAt (memory : Nat → UInt8) (address : UInt64) : UInt32 :=
  UInt32.ofNat ((memory address.toNat).toNat + 256 * (memory (address.toNat + 1)).toNat +
    65536 * (memory (address.toNat + 2)).toNat + 16777216 * (memory (address.toNat + 3)).toNat)

/-- The bytes of a FIS in front of the reserved ones. -/
def FisRegH2d.bytes (fis : FisRegH2d) : List UInt8 :=
  [fis.fisType, fis.pmport ||| fis.c <<< 7, fis.command, fis.featurel, fis.lba0, fis.lba1, fis.lba2, fis.device,
    fis.lba3, fis.lba4, fis.lba5, fis.featureh, fis.countl, fis.counth, fis.icc, fis.control]

namespace Access

/-- The stores of an access. Fields of some bits keep the other bits of their byte or word. -/
def stores (memory : Nat → UInt8) : Access → List (Nat × List UInt8)
  | read _ _ => []
  | write _ _ => []
  | flags header cfl w =>
      let kept : UInt8 := memory header.toNat &&& 0xA0
      [(header.toNat, [kept ||| (cfl &&& 0x1F : UInt8) ||| (w &&& 1 : UInt8) <<< 6])]
  | clear address length => [(address.toNat, List.replicate length 0)]
  | prdt address entry =>
      let kept : UInt32 := wordAt memory (address + 12) &&& 0x7FC00000
      [(address.toNat, wordBytes entry.dba ++ wordBytes entry.dbau),
        (address.toNat + 12, wordBytes (kept ||| (entry.dbc &&& 0x3FFFFF : UInt32) ||| entry.i <<< 31))]
  | prdtl header length => [(header.toNat + 2, [UInt8.ofNat length.toNat, UInt8.ofNat (length.toNat / 256)])]
  | fis address command => [(address.toNat, command.bytes)]

/-- The addresses that an access stores to. -/
def spans : Access → List Span
  | read _ _ => []
  | write _ _ => []
  | flags header _ _ => [⟨header.toNat, 1⟩]
  | clear address length => [⟨address.toNat, length⟩]
  | prdt address _ => [⟨address.toNat, 8⟩, ⟨address.toNat + 12, 4⟩]
  | prdtl header _ => [⟨header.toNat + 2, 2⟩]
  | fis address _ => [⟨address.toNat, 16⟩]

end Access

/-- Memory behind the accesses. -/
def applyLog (memory : Nat → UInt8) (log : List Access) : Nat → UInt8 :=
  log.foldl (fun memory access => storeAll memory (access.stores memory)) memory

/-- One of the accesses stores to the address. -/
def Writes (log : List Access) (i : Nat) : Prop :=
  ∃ access ∈ log, ∃ span ∈ access.spans, span.start ≤ i ∧ i < span.start + span.size

theorem wordAt_congr {memory memory' : Nat → UInt8} {address : UInt64}
    (same : ∀ i, address.toNat ≤ i → i < address.toNat + 4 → memory i = memory' i) :
    wordAt memory address = wordAt memory' address := by
  unfold wordAt
  rw [same _ (by omega) (by omega), same _ (by omega) (by omega), same _ (by omega) (by omega),
    same _ (by omega) (by omega)]

theorem wordAt_of_wordBytes {memory : Nat → UInt8} {address : UInt64} {value : UInt32}
    (first : memory address.toNat = UInt8.ofNat value.toNat)
    (second : memory (address.toNat + 1) = UInt8.ofNat (value.toNat / 256))
    (third : memory (address.toNat + 2) = UInt8.ofNat (value.toNat / 65536))
    (fourth : memory (address.toNat + 3) = UInt8.ofNat (value.toNat / 16777216)) :
    wordAt memory address = value := by
  have small := value.toNat_lt
  apply UInt32.toNat_inj.mp
  unfold wordAt
  rw [first, second, third, fourth]
  simp only [UInt8.toNat_ofNat', UInt32.toNat_ofNat', Nat.reducePow] at small ⊢
  omega

/-- The spans are what the stores cover. -/
theorem Access.stores_spans (memory : Nat → UInt8) (access : Access) :
    (access.stores memory).map (fun item => Span.mk item.1 item.2.length) = access.spans := by
  cases access with
  | clear address length => simp [stores, spans]
  | _ => rfl

/-- An address that is not stored to keeps its byte. -/
theorem applyLog_of_not_writes {memory : Nat → UInt8} {log : List Access} {i : Nat} (unwritten : ¬ Writes log i) :
    applyLog memory log i = memory i := by
  induction log generalizing memory with
  | nil => rfl
  | cons access log ih =>
      have others : ¬ Writes log i := fun ⟨other, there, span, listed, covers⟩ =>
        unwritten ⟨other, List.mem_cons_of_mem _ there, span, listed, covers⟩
      rw [applyLog, List.foldl_cons]
      refine (ih others).trans (storeAll_of_not_covers fun item listed covers => unwritten ?_)
      refine ⟨access, List.mem_cons_self, ⟨item.1, item.2.length⟩, ?_, covers⟩
      rw [← access.stores_spans memory]
      exact List.mem_map.mpr ⟨item, listed, rfl⟩

theorem applyLog_append (memory : Nat → UInt8) (log more : List Access) :
    applyLog memory (log ++ more) = applyLog (applyLog memory log) more := List.foldl_append

/-! ## Setting up a port -/

/-- The registers of a port that name memory, and the memory. -/
structure PortMemory where
  clb : UInt32
  clbu : UInt32
  fb : UInt32
  fbu : UInt32
  memory : Nat → UInt8

/-- The table of a slot behind the start of the tables. -/
def tableOffset (slot : Nat) : UInt64 := UInt64.ofNat slot * 0x100

/-- What `portRebase` stores for the header of a slot and into its table. -/
def headerStores (base basePhys : UInt64) (slot : Nat) : List (Nat × List UInt8) :=
  let header := headerOf base slot
  let table := basePhys + 0x2000 + tableOffset slot
  [((header + 8).toNat, wordBytes table.toUInt32), ((header + 12).toNat, wordBytes (table >>> 32).toUInt32),
    ((header + 2).toNat, [8, 0]), ((base + 0x2000 + tableOffset slot).toNat, List.replicate 0x100 0)]

/-- The stores of `portRebase` for this block. -/
def rebaseStores (base basePhys : UInt64) : List (Nat × List UInt8) :=
  [(base.toNat, List.replicate 0x400 0), ((base + 0x1000).toNat, List.replicate 0x100 0),
      ((base + 0x2000).toNat, List.replicate 0x2000 0)] ++
    (List.range 32).flatMap (headerStores base basePhys)

/-- `portRebase`, with the block that `kheap_alloc` returns. -/
def portRebase (hhdm base : UInt64) (port : PortMemory) : PortMemory :=
  if base = 0 then port
  else
    let basePhys := virToPhys hhdm base
    if basePhys = 0 then port
    else
      let fbPhys := basePhys + 0x1000
      { clb := basePhys.toUInt32
        clbu := (basePhys >>> 32).toUInt32
        fb := fbPhys.toUInt32
        fbu := (fbPhys >>> 32).toUInt32
        memory := storeAll port.memory (rebaseStores base basePhys) }

/-- The port uses this block: the registers name its start and every header the table of its slot. -/
structure Rebased (hhdm base : UInt64) (port : PortMemory) : Prop where
  list : address port.clb port.clbu = virToPhys hhdm base
  table : ∀ slot < 32,
    tablePhys (wordAt port.memory) (headerOf base slot) = virToPhys hhdm base + 0x2000 + tableOffset slot

theorem address_halves (phys : UInt64) : address phys.toUInt32 (phys >>> 32).toUInt32 = phys :=
  UInt64.toNat_inj.mp (toNat_address_halves phys)

section Block

variable {hhdm base : UInt64} {slot : Nat}

/-- A block of 64 KiB does not reach behind the end of the address space. -/
def BlockFits (base : UInt64) : Prop := base.toNat + 65536 ≤ 18446744073709551616

theorem toNat_add_small {offset : UInt64} {bound : Nat} (fits : base.toNat + bound ≤ 18446744073709551616)
    (small : offset.toNat < bound) : (base + offset).toNat = base.toNat + offset.toNat := by
  rw [UInt64.toNat_add, Nat.mod_eq_of_lt]
  omega

theorem toNat_headerOf (fits : BlockFits base) (below : slot < 32) :
    (headerOf base slot).toNat = base.toNat + 32 * slot := by
  have offset : (32 * UInt64.ofNat slot).toNat = 32 * slot := by
    simp only [UInt64.toNat_mul, UInt64.toNat_ofNat', UInt64.reduceToNat]
    omega
  rw [headerOf, toNat_add_small fits (by omega), offset]

theorem toNat_headerOf_add {offset : UInt64} (fits : BlockFits base) (below : slot < 32) (small : offset.toNat < 32) :
    (headerOf base slot + offset).toNat = base.toNat + 32 * slot + offset.toNat := by
  have header := toNat_headerOf fits below
  unfold BlockFits at fits
  rw [UInt64.toNat_add, header, Nat.mod_eq_of_lt]
  omega

theorem toNat_tableOf (fits : BlockFits base) (below : slot < 32) :
    (base + 0x2000 + tableOffset slot).toNat = base.toNat + 0x2000 + 0x100 * slot := by
  unfold BlockFits at fits
  unfold tableOffset
  simp only [UInt64.toNat_add, UInt64.toNat_mul, UInt64.toNat_ofNat', UInt64.reduceToNat]
  omega

/-- What is stored for a header leaves the addresses of the tables in the other headers alone. -/
theorem headerStores_covers {basePhys : UInt64} {other i : Nat} {item : Nat × List UInt8} (fits : BlockFits base)
    (below : slot < 32) (below' : other < 32) (listed : item ∈ headerStores base basePhys other) (covers : Covers item i)
    (inside : base.toNat + 32 * slot + 8 ≤ i ∧ i < base.toNat + 32 * slot + 16) :
    let table := basePhys + 0x2000 + tableOffset slot
    item = ((headerOf base slot + 8).toNat, wordBytes table.toUInt32) ∧ i < base.toNat + 32 * slot + 12 ∨
      item = ((headerOf base slot + 12).toNat, wordBytes (table >>> 32).toUInt32) ∧
        base.toNat + 32 * slot + 12 ≤ i := by
  have ctba := @toNat_headerOf_add base other 8 fits below' (by decide)
  have ctbau := @toNat_headerOf_add base other 12 fits below' (by decide)
  have prdtl := @toNat_headerOf_add base other 2 fits below' (by decide)
  have table := toNat_tableOf fits below'
  simp only [UInt64.reduceToNat] at ctba ctbau prdtl
  simp only [headerStores, List.mem_cons, List.not_mem_nil, or_false] at listed
  rcases listed with rfl | rfl | rfl | rfl
  · obtain ⟨above, under⟩ := covers
    dsimp only [wordBytes, List.length_cons, List.length_nil] at above under
    obtain rfl : other = slot := by omega
    exact .inl ⟨rfl, by omega⟩
  · obtain ⟨above, under⟩ := covers
    dsimp only [wordBytes, List.length_cons, List.length_nil] at above under
    obtain rfl : other = slot := by omega
    exact .inr ⟨rfl, by omega⟩
  · obtain ⟨above, under⟩ := covers
    dsimp only [List.length_cons, List.length_nil] at above under
    omega
  · obtain ⟨above, under⟩ := covers
    dsimp only at above
    omega

/-- The table address of a header that has its two halves. -/
theorem tablePhys_of_bytes {memory : Nat → UInt8} {table : UInt64} (fits : BlockFits base) (below : slot < 32)
    (lower : ∀ i < 4, some (memory (base.toNat + 32 * slot + 8 + i)) = (wordBytes table.toUInt32)[i]?)
    (upper : ∀ i < 4, some (memory (base.toNat + 32 * slot + 12 + i)) = (wordBytes (table >>> 32).toUInt32)[i]?) :
    tablePhys (wordAt memory) (headerOf base slot) = table := by
  have ctba := @toNat_headerOf_add base slot 8 fits below (by decide)
  have ctbau := @toNat_headerOf_add base slot 12 fits below (by decide)
  simp only [UInt64.reduceToNat] at ctba ctbau
  have first : wordAt memory (headerOf base slot + 8) = table.toUInt32 := by
    apply wordAt_of_wordBytes <;> rw [ctba]
    · exact Option.some.inj (lower 0 (by decide))
    · exact Option.some.inj (lower 1 (by decide))
    · exact Option.some.inj (lower 2 (by decide))
    · exact Option.some.inj (lower 3 (by decide))
  have second : wordAt memory (headerOf base slot + 12) = (table >>> 32).toUInt32 := by
    apply wordAt_of_wordBytes <;> rw [ctbau]
    · exact Option.some.inj (upper 0 (by decide))
    · exact Option.some.inj (upper 1 (by decide))
    · exact Option.some.inj (upper 2 (by decide))
    · exact Option.some.inj (upper 3 (by decide))
  rw [tablePhys, first, second, address_halves]

theorem tablePhys_congr {memory memory' : Nat → UInt8} (fits : BlockFits base) (below : slot < 32)
    (same : ∀ i, base.toNat + 32 * slot + 8 ≤ i → i < base.toNat + 32 * slot + 16 → memory i = memory' i) :
    tablePhys (wordAt memory) (headerOf base slot) = tablePhys (wordAt memory') (headerOf base slot) := by
  have ctba := @toNat_headerOf_add base slot 8 fits below (by decide)
  have ctbau := @toNat_headerOf_add base slot 12 fits below (by decide)
  simp only [UInt64.reduceToNat] at ctba ctbau
  unfold tablePhys
  have lower : wordAt memory (headerOf base slot + 8) = wordAt memory' (headerOf base slot + 8) :=
    wordAt_congr fun i above under => same i (by omega) (by omega)
  have upper : wordAt memory (headerOf base slot + 12) = wordAt memory' (headerOf base slot + 12) :=
    wordAt_congr fun i above under => same i (by omega) (by omega)
  rw [lower, upper]

/-- `portRebase` sets the port up for its block. -/
theorem rebased_portRebase (port : PortMemory) (fits : BlockFits base) (mapped : virToPhys hhdm base ≠ 0) :
    Rebased hhdm base (portRebase hhdm base port) := by
  have nonzero : base ≠ 0 := by
    rintro rfl
    exact mapped rfl
  unfold portRebase
  rw [if_neg nonzero]
  dsimp only
  rw [if_neg mapped]
  refine ⟨address_halves _, fun slot below => ?_⟩
  dsimp only
  rw [rebaseStores, storeAll_append]
  have ctba := @toNat_headerOf_add base slot 8 fits below (by decide)
  have ctbau := @toNat_headerOf_add base slot 12 fits below (by decide)
  simp only [UInt64.reduceToNat] at ctba ctbau
  have listed : ∀ item ∈ headerStores base (virToPhys hhdm base) slot,
      item ∈ (List.range 32).flatMap (headerStores base (virToPhys hhdm base)) := fun item there =>
    List.mem_flatMap.mpr ⟨slot, List.mem_range.mpr below, there⟩
  apply tablePhys_of_bytes fits below
  · intro i small
    generalize bytes : wordBytes (virToPhys hhdm base + 0x2000 + tableOffset slot).toUInt32 = values
    have length : values.length = 4 := by rw [← bytes]; rfl
    rw [List.getElem?_eq_getElem (by omega)]
    refine congrArg some (storeAll_eq_of_agree ⟨_, listed _ List.mem_cons_self, ?_⟩ fun item there covers => ?_)
    · rw [Covers, bytes, ctba]
      dsimp only
      omega
    · obtain ⟨other, below', there⟩ := List.mem_flatMap.mp there
      rcases headerStores_covers fits below (List.mem_range.mp below') there covers (by omega) with
        ⟨rfl, _⟩ | ⟨rfl, above⟩
      · dsimp only
        rw [bytes, ctba, Nat.add_sub_cancel_left, List.getElem?_eq_getElem]
      · omega
  · intro i small
    generalize bytes : wordBytes ((virToPhys hhdm base + 0x2000 + tableOffset slot) >>> 32).toUInt32 = values
    have length : values.length = 4 := by rw [← bytes]; rfl
    rw [List.getElem?_eq_getElem (by omega)]
    refine congrArg some (storeAll_eq_of_agree
      ⟨_, listed _ (List.mem_cons_of_mem _ List.mem_cons_self), ?_⟩ fun item there covers => ?_)
    · rw [Covers, bytes, ctbau]
      dsimp only
      omega
    · obtain ⟨other, below', there⟩ := List.mem_flatMap.mp there
      rcases headerStores_covers fits below (List.mem_range.mp below') there covers (by omega) with
        ⟨rfl, under⟩ | ⟨rfl, _⟩
      · omega
      · dsimp only
        rw [bytes, ctbau, Nat.add_sub_cancel_left, List.getElem?_eq_getElem]

end Block

/-! ## What a command stores -/

section Command

variable {hhdm : UInt64} {word : UInt64 → UInt32} {port : Port} {request : CommandRequest} {slot i : Nat}
  {header table : UInt64}

/-- The accesses of a command with this header and this table. -/
inductive CommandAccess (header table : UInt64) : Access → Prop where
  | read (register : Register) (value : UInt32) : CommandAccess header table (.read register value)
  | write (register : Register) (value : UInt32) : CommandAccess header table (.write register value)
  | flags (cfl w : UInt8) : CommandAccess header table (.flags header cfl w)
  | clear {length : Nat} (within : length ≤ 4096) : CommandAccess header table (.clear table length)
  | prdt {i : Nat} (within : i < 256) (entry : PrdtEntry) :
      CommandAccess header table (.prdt (table + 0x80 + 16 * UInt64.ofNat i) entry)
  | prdtl (length : UInt16) : CommandAccess header table (.prdtl header length)
  | fis (fis : FisRegH2d) : CommandAccess header table (.fis table fis)

theorem OnlyReads.commandAccess {registers : List Register} {polls : List Access} (reads : OnlyReads registers polls) :
    ∀ access ∈ polls, CommandAccess header table access := by
  intro access there
  obtain ⟨register, _, value, rfl⟩ := reads access there
  exact .read register value

theorem mem_prdtStores {entries : List PrdtEntry} {access : Access} :
    access ∈ prdtStores table entries ↔
      ∃ i entry, entries[i]? = some entry ∧ access = .prdt (table + 0x80 + 16 * UInt64.ofNat i) entry := by
  rw [prdtStores, List.mem_mapIdx]
  constructor
  · rintro ⟨i, inside, rfl⟩
    exact ⟨i, _, List.getElem?_eq_getElem inside, rfl⟩
  · rintro ⟨i, entry, there, rfl⟩
    obtain ⟨inside, rfl⟩ := List.getElem?_eq_some_iff.mp there
    exact ⟨i, inside, rfl⟩

theorem prdtStores_commandAccess :
    ∀ access ∈ prdtStores table (request.prdt hhdm).1, CommandAccess header table access := by
  intro access there
  obtain ⟨i, entry, listed, rfl⟩ := mem_prdtStores.mp there
  obtain ⟨inside, _⟩ := List.getElem?_eq_some_iff.mp listed
  exact .prdt (Nat.lt_of_lt_of_le inside (length_prdtLoop _ _ _ _)) entry

theorem searchLog_commandAccess : ∀ access ∈ searchLog port, CommandAccess header table access := by
  intro access there
  simp only [searchLog, List.mem_cons, List.not_mem_nil, or_false] at there
  rcases there with rfl | rfl | rfl
  · exact .write _ _
  · exact .read _ _
  · exact .read _ _

theorem prepareCommand_commandAccess :
    ∀ access ∈ (prepareCommand hhdm word port request slot (searchLog port)).2,
      CommandAccess (headerOf (commandList hhdm port) slot) (commandTable hhdm word port slot) access := by
  rw [prepareCommand_searchLog]
  dsimp only
  split_ifs
  · simp only [List.forall_mem_append, List.forall_mem_singleton]
    exact ⟨⟨searchLog_commandAccess, .read _ _⟩, .read _ _⟩
  · simp only [List.forall_mem_append, List.forall_mem_singleton]
    exact ⟨⟨⟨searchLog_commandAccess, .read _ _⟩, .read _ _⟩, .flags _ _⟩
  · simp only [List.forall_mem_append, List.forall_mem_singleton, List.forall_mem_cons]
    exact ⟨⟨⟨⟨searchLog_commandAccess, .read _ _⟩, .read _ _⟩, .flags _ _⟩, .clear (Nat.le_refl _),
      prdtStores_commandAccess⟩
  · simp only [List.forall_mem_append, List.forall_mem_singleton, List.forall_mem_cons]
    exact ⟨⟨⟨⟨⟨searchLog_commandAccess, .read _ _⟩, .read _ _⟩, .flags _ _⟩, .clear (Nat.le_refl _),
      prdtStores_commandAccess⟩, .prdtl _, .clear (by decide), .fis _⟩

theorem freeSlot_lt {slots : UInt32} {first count : Nat} (free : freeSlot slots first count = some slot) :
    slot < first + count := by
  induction count generalizing slots first with
  | zero => exact absurd free (Option.some_ne_none slot).symm
  | succ count ih =>
      unfold freeSlot at free
      split_ifs at free
      · obtain rfl := Option.some.inj free
        omega
      · have later := ih free
        omega

/-- Every call stores only for one slot. -/
theorem runCommand_commandAccess (hhdm : UInt64) (word : UInt64 → UInt32) (port : Port) (request : CommandRequest) :
    ∃ slot < 32, ∀ access ∈ (runCommand hhdm word (some port) request).2,
      CommandAccess (headerOf (commandList hhdm port) slot) (commandTable hhdm word port slot) access := by
  unfold runCommand
  dsimp only
  rw [findCMDSlot_eq]
  cases free : freeSlot (port .sact 0 ||| port .ci 0) 0 32 with
  | none => exact ⟨0, by decide, searchLog_commandAccess⟩
  | some slot =>
      refine ⟨slot, by simpa using freeSlot_lt free, ?_⟩
      have prepared := @prepareCommand_commandAccess hhdm word port request slot
      dsimp only
      split
      · rename_i log same
        rwa [same] at prepared
      · rename_i log same
        rw [same] at prepared
        obtain ⟨waits, waited, ready, _, _⟩ := @waitReady_eq port waitTurns 0 log
        rw [waited]
        split_ifs
        · simp only [List.forall_mem_append]
          exact ⟨prepared, ready.commandAccess⟩
        · obtain ⟨answer, polls, finished, _, reads, _⟩ := @finishCommand_cases port (slotBit slot)
            (log ++ waits ++ [.read .ci (port .ci (readsOf .ci (log ++ waits)))] ++
              [.write .ci (port .ci (readsOf .ci (log ++ waits)) ||| slotBit slot)])
          dsimp only [Port.read]
          rw [finished]
          simp only [List.forall_mem_append, List.forall_mem_singleton]
          exact ⟨⟨⟨⟨prepared, ready.commandAccess⟩, .read _ _⟩, .write _ _⟩, reads.commandAccess⟩

theorem toNat_prdtPlace (fits : table.toNat + 4224 ≤ 18446744073709551616) (within : i < 256) :
    (table + 0x80 + 16 * UInt64.ofNat i).toNat = table.toNat + 0x80 + 16 * i := by
  simp only [UInt64.toNat_add, UInt64.toNat_mul, UInt64.toNat_ofNat', UInt64.reduceToNat]
  omega

/-- The bytes that a command can store to: four of its header and 4224 from its table on. -/
theorem CommandAccess.span_bounds {access : Access} {span : Span} (stores : CommandAccess header table access)
    (fits : table.toNat + 4224 ≤ 18446744073709551616) (listed : span ∈ access.spans) (covers : span.start ≤ i ∧ i < span.start + span.size) :
    header.toNat ≤ i ∧ i < header.toNat + 4 ∨ table.toNat ≤ i ∧ i < table.toNat + 4224 := by
  cases stores with
  | read | write => exact absurd listed List.not_mem_nil
  | flags =>
      obtain rfl := List.mem_singleton.mp listed
      dsimp only at covers
      omega
  | clear within =>
      obtain rfl := List.mem_singleton.mp listed
      dsimp only at covers
      omega
  | @prdt k within entry =>
      have place := toNat_prdtPlace fits within
      simp only [Access.spans, List.mem_cons, List.not_mem_nil, or_false] at listed
      rcases listed with rfl | rfl <;>
      · dsimp only at covers
        omega
  | prdtl =>
      obtain rfl := List.mem_singleton.mp listed
      dsimp only at covers
      omega
  | fis =>
      obtain rfl := List.mem_singleton.mp listed
      dsimp only at covers
      omega

end Command

/-! ## Runs of a port -/

inductive PortEvent where
  | command (port : Port) (request : CommandRequest)
  /-- A store of the device or of other code. -/
  | other (address : Nat) (values : List UInt8)

/-- What happens to a port behind `portRebase`: commands, and stores that leave the table addresses in its headers
alone. -/
inductive PortStep (hhdm base : UInt64) : PortMemory → PortEvent → PortMemory → Prop where
  | command {state : PortMemory} {port : Port} (request : CommandRequest) (clb : port .clb 0 = state.clb)
      (clbu : port .clbu 0 = state.clbu) :
      PortStep hhdm base state (.command port request)
        { state with
          memory := applyLog state.memory (runCommand hhdm (wordAt state.memory) (some port) request).2 }
  | other {state : PortMemory} {address : Nat} {values : List UInt8}
      (elsewhere : ∀ slot < 32, ∀ i, base.toNat + 32 * slot + 8 ≤ i → i < base.toNat + 32 * slot + 16 →
        ¬ Covers (address, values) i) :
      PortStep hhdm base state (.other address values) { state with memory := store state.memory address values }

section Runs

variable {hhdm base : UInt64} {state : PortMemory} {port : Port} {slot : Nat}

theorem physToVir_virToPhys (mapped : virToPhys hhdm base ≠ 0) : physToVir hhdm (virToPhys hhdm base) = base := by
  unfold virToPhys at mapped ⊢
  split_ifs at mapped ⊢
  · exact absurd rfl mapped
  · exact absurd rfl mapped
  · rw [physToVir, UInt64.sub_add_cancel]

theorem physToVir_add (phys offset : UInt64) : physToVir hhdm (phys + offset) = physToVir hhdm phys + offset := by
  rw [physToVir, physToVir, UInt64.add_assoc, UInt64.add_assoc, UInt64.add_comm offset hhdm]

theorem Rebased.commandList (rebased : Rebased hhdm base state) (mapped : virToPhys hhdm base ≠ 0)
    (clb : port .clb 0 = state.clb) (clbu : port .clbu 0 = state.clbu) : commandList hhdm port = base := by
  rw [Ahci.commandList, clb, clbu, rebased.list, physToVir_virToPhys mapped]

theorem Rebased.commandTable (rebased : Rebased hhdm base state) (mapped : virToPhys hhdm base ≠ 0)
    (clb : port .clb 0 = state.clb) (clbu : port .clbu 0 = state.clbu) (below : slot < 32) :
    commandTable hhdm (wordAt state.memory) port slot = base + 0x2000 + tableOffset slot := by
  rw [Ahci.commandTable, rebased.commandList mapped clb clbu, rebased.table slot below, physToVir_add, physToVir_add,
    physToVir_virToPhys mapped]

/-- The set-up of a port stays. -/
theorem Rebased.step {event : PortEvent} {next : PortMemory} (fits : BlockFits base) (mapped : virToPhys hhdm base ≠ 0)
    (rebased : Rebased hhdm base state) (taken : PortStep hhdm base state event next) : Rebased hhdm base next := by
  cases taken with
  | @command port request clb clbu =>
      refine ⟨rebased.list, fun slot below => ?_⟩
      rw [← rebased.table slot below]
      apply tablePhys_congr fits below
      intro i above under
      apply applyLog_of_not_writes
      rintro ⟨access, there, span, listed, covers⟩
      obtain ⟨own, below', accesses⟩ := runCommand_commandAccess hhdm (wordAt state.memory) port request
      have header := toNat_headerOf fits below'
      have table := toNat_tableOf fits below'
      have stores := accesses access there
      rw [rebased.commandList mapped clb clbu, rebased.commandTable mapped clb clbu below'] at stores
      unfold BlockFits at fits
      rcases stores.span_bounds (by omega) listed covers with inHeader | inTable
      · omega
      · omega
  | @other address values elsewhere =>
      refine ⟨rebased.list, fun slot below => ?_⟩
      rw [← rebased.table slot below]
      apply tablePhys_congr fits below
      intro i above under
      exact store_of_not_covers (elsewhere slot below i above under)

theorem rebased_of_run {start : PortMemory} {trace : List PortEvent} (fits : BlockFits base)
    (mapped : virToPhys hhdm base ≠ 0) (run : Run (PortStep hhdm base) (portRebase hhdm base start) trace state) :
    Rebased hhdm base state :=
  run.invariant (Rebased hhdm base) (rebased_portRebase start fits mapped) fun rebased taken =>
    rebased.step fits mapped taken

end Runs

/-! ## Isolation -/

/-- The bytes of the header of a slot. -/
def InHeader (base : UInt64) (slot i : Nat) : Prop := base.toNat + 32 * slot ≤ i ∧ i < base.toNat + 32 * slot + 32

/-- The bytes of the table of a slot. -/
def InTable (base : UInt64) (slot i : Nat) : Prop :=
  base.toNat + 0x2000 + 0x100 * slot ≤ i ∧ i < base.toNat + 0x2000 + 0x100 * slot + 0x100

/-- A command stores to its own header and its own table only. -/
def Isolated (base : UInt64) (slot : Nat) (log : List Access) : Prop :=
  ∀ i, Writes log i → InHeader base slot i ∨ InTable base slot i

theorem inTable_start {base : UInt64} (slot : Nat) : InTable base slot (base.toNat + 0x2000 + 0x100 * slot) := by
  unfold InTable
  omega

section Isolation

variable {hhdm base : UInt64} {word : UInt64 → UInt32} {port : Port} {request : CommandRequest} {slot i : Nat}
  {header table : UInt64}

theorem writes_append (log more : List Access) : Writes (log ++ more) i ↔ Writes log i ∨ Writes more i := by
  simp only [Writes, List.mem_append, or_and_right, exists_or]

theorem OnlyReads.not_writes {registers : List Register} {polls : List Access} (reads : OnlyReads registers polls) :
    ¬ Writes polls i := by
  rintro ⟨access, there, span, listed, _⟩
  obtain ⟨_, _, _, rfl⟩ := reads access there
  exact absurd listed List.not_mem_nil

/-- The bytes that a command stores to when it is sent. -/
theorem writes_issuedLog {waits polls : List Access} (ready : OnlyReads [.tfd] waits)
    (reads : OnlyReads [.ci, .is] polls) :
    Writes (issuedLog hhdm word port request slot waits ++ polls) i ↔
      Writes (preparation hhdm word port request slot) i := by
  have search : ¬ Writes (searchLog port) i := by
    rintro ⟨access, there, span, listed, _⟩
    simp only [searchLog, List.mem_cons, List.not_mem_nil, or_false] at there
    rcases there with rfl | rfl | rfl <;> exact absurd listed List.not_mem_nil
  have poll : ∀ value, ¬ Writes [Access.read .ci value] i := fun value => (OnlyReads.singleton value).not_writes
  have issue : ∀ value, ¬ Writes [Access.write .ci value] i := by
    rintro value ⟨access, there, span, listed, _⟩
    obtain rfl := List.mem_singleton.mp there
    exact absurd listed List.not_mem_nil
  rw [issuedLog, writes_append, writes_append, writes_append, writes_append, writes_append]
  simp only [search, ready.not_writes, reads.not_writes, poll, issue, or_false, false_or]

/-- A command clears 4096 bytes, and it stores as many entries as its buffer needs. -/
theorem writes_preparation (fits : (commandTable hhdm word port slot).toNat + 4224 ≤ 18446744073709551616)
    (behind : (headerOf (commandList hhdm port) slot).toNat + 4 ≤ i) :
    Writes (preparation hhdm word port request slot) i ↔
      (commandTable hhdm word port slot).toNat ≤ i ∧
        (i < (commandTable hhdm word port slot).toNat + 4096 ∨ ∃ k < (request.prdt hhdm).1.length,
          ∃ byte < 16, (byte < 8 ∨ 12 ≤ byte) ∧ i = (commandTable hhdm word port slot).toNat + 0x80 + 16 * k + byte) := by
  have few : (request.prdt hhdm).1.length ≤ 256 := length_prdtLoop _ _ _ _
  unfold preparation
  dsimp only
  generalize headerOf (commandList hhdm port) slot = header at behind
  generalize commandTable hhdm word port slot = table at fits
  rw [writes_append, writes_append]
  constructor
  · rintro ((⟨access, there, span, listed, covers⟩ | ⟨access, there, span, listed, covers⟩) |
      ⟨access, there, span, listed, covers⟩)
    · simp only [List.mem_cons, List.not_mem_nil, or_false] at there
      rcases there with rfl | rfl | rfl | rfl
      · exact absurd listed List.not_mem_nil
      · exact absurd listed List.not_mem_nil
      · obtain rfl := List.mem_singleton.mp listed
        dsimp only at covers
        omega
      · obtain rfl := List.mem_singleton.mp listed
        exact ⟨covers.1, .inl covers.2⟩
    · obtain ⟨k, entry, inside, rfl⟩ := mem_prdtStores.mp there
      obtain ⟨below, _⟩ := List.getElem?_eq_some_iff.mp inside
      have place := toNat_prdtPlace fits (Nat.lt_of_lt_of_le below few)
      simp only [Access.spans, List.mem_cons, List.not_mem_nil, or_false] at listed
      rcases listed with rfl | rfl
      · dsimp only at covers
        exact ⟨by omega, .inr ⟨k, below, i - (table.toNat + 0x80 + 16 * k), by omega, by omega, by omega⟩⟩
      · dsimp only at covers
        exact ⟨by omega, .inr ⟨k, below, i - (table.toNat + 0x80 + 16 * k), by omega, by omega, by omega⟩⟩
    · simp only [List.mem_cons, List.not_mem_nil, or_false] at there
      rcases there with rfl | rfl | rfl
      · obtain rfl := List.mem_singleton.mp listed
        dsimp only at covers
        omega
      · obtain rfl := List.mem_singleton.mp listed
        dsimp only at covers
        exact ⟨by omega, .inl (by omega)⟩
      · obtain rfl := List.mem_singleton.mp listed
        dsimp only at covers
        exact ⟨by omega, .inl (by omega)⟩
  · rintro ⟨above, cleared | ⟨k, below, byte, small, kept, rfl⟩⟩
    · refine .inl (.inl ⟨.clear table 4096, ?_, ⟨table.toNat, 4096⟩, List.mem_singleton_self _, above, cleared⟩)
      exact List.mem_cons_of_mem _ (List.mem_cons_of_mem _ (List.mem_cons_of_mem _ List.mem_cons_self))
    · have place := toNat_prdtPlace fits (Nat.lt_of_lt_of_le below few)
      refine .inl (.inr ⟨_, mem_prdtStores.mpr ⟨k, _, List.getElem?_eq_getElem below, rfl⟩, ?_⟩)
      rcases kept with low | high
      · refine ⟨_, List.mem_cons_self, ?_⟩
        dsimp only
        omega
      · refine ⟨_, List.mem_cons_of_mem _ List.mem_cons_self, ?_⟩
        dsimp only
        omega

variable {state : PortMemory}

/-- The tables that a command stores to besides its own: those of the 15 slots behind, and the one behind them when
it has more than 248 entries. -/
theorem Rebased.sent_writes (fits : BlockFits base) (mapped : virToPhys hhdm base ≠ 0) (rebased : Rebased hhdm base state)
    (clb : port .clb 0 = state.clb) (clbu : port .clbu 0 = state.clbu)
    (sends : Sends hhdm (wordAt state.memory) port request slot) :
    ¬ Isolated base slot (runCommand hhdm (wordAt state.memory) (some port) request).2 ∧
      ∀ other < 32, other ≠ slot →
        ((∃ i, InTable base other i ∧ Writes (runCommand hhdm (wordAt state.memory) (some port) request).2 i) ↔
          slot < other ∧ (other < slot + 16 ∨ other = slot + 16 ∧ 248 < (request.prdt hhdm).1.length)) := by
  have below : slot < 32 := by simpa using freeSlot_lt sends.free
  have header := toNat_headerOf fits below
  have table := toNat_tableOf fits below
  have few : (request.prdt hhdm).1.length ≤ 256 := length_prdtLoop _ _ _ _
  obtain ⟨answer, waits, polls, ready, reads, same, _⟩ := runCommand_sent sends
  have writes := @writes_preparation hhdm (wordAt state.memory) port request slot
  rw [rebased.commandList mapped clb clbu, rebased.commandTable mapped clb clbu below, header, table] at writes
  rw [same]
  unfold BlockFits at fits
  constructor
  · intro isolated
    have stores := (writes_issuedLog ready reads).mpr
      ((@writes (base.toNat + 0x2000 + 0x100 * slot + 0x100) (by omega) (by omega)).mpr ⟨by omega, .inl (by omega)⟩)
    rcases isolated _ stores with inHeader | inTable
    · unfold InHeader at inHeader
      omega
    · unfold InTable at inTable
      omega
  · intro other below' different
    constructor
    · rintro ⟨i, inTable, stores⟩
      unfold InTable at inTable
      rcases (writes (by omega) (by omega)).mp ((writes_issuedLog ready reads).mp stores) with
        ⟨above, cleared | ⟨k, inside, byte, small, _, rfl⟩⟩
      · omega
      · omega
    · rintro ⟨later, near | ⟨rfl, many⟩⟩
      · refine ⟨_, inTable_start other, (writes_issuedLog ready reads).mpr ?_⟩
        exact (writes (by omega) (by omega)).mpr ⟨by omega, .inl (by omega)⟩
      · refine ⟨_, inTable_start (slot + 16), (writes_issuedLog ready reads).mpr ?_⟩
        exact (writes (by omega) (by omega)).mpr ⟨by omega, .inr ⟨248, many, 0, by omega, by omega, by omega⟩⟩

/-! ## A pending command -/

theorem OnlyReads.applyLog_eq {registers : List Register} {polls : List Access} (reads : OnlyReads registers polls)
    (memory : Nat → UInt8) : applyLog memory polls = memory :=
  funext fun _ => applyLog_of_not_writes reads.not_writes

/-- What is left in memory by a command that is sent is left by its preparation. -/
theorem applyLog_issuedLog {waits polls : List Access} (ready : OnlyReads [.tfd] waits)
    (reads : OnlyReads [.ci, .is] polls) (memory : Nat → UInt8) :
    applyLog memory (issuedLog hhdm word port request slot waits ++ polls) =
      applyLog memory (preparation hhdm word port request slot) := by
  have search : applyLog memory (searchLog port) = memory := rfl
  have issue : ∀ memory first second, applyLog (applyLog memory [.read .ci first]) [.write .ci second] = memory :=
    fun _ _ _ => rfl
  rw [issuedLog, applyLog_append, applyLog_append, applyLog_append, applyLog_append, applyLog_append, search, issue,
    ready.applyLog_eq, reads.applyLog_eq]

/-- The table of a command that is sent begins with its FIS. -/
theorem applyLog_table (memory : Nat → UInt8) :
    applyLog memory (preparation hhdm word port request slot) (commandTable hhdm word port slot).toNat =
      request.fis.fisType := by
  unfold preparation
  dsimp only
  generalize commandTable hhdm word port slot = table
  have covers : Covers (table.toNat, request.fis.bytes) table.toNat :=
    ⟨Nat.le_refl _, Nat.lt_add_of_pos_right (Nat.succ_pos 15)⟩
  rw [applyLog_append]
  refine Option.some.inj ((store_of_covers covers).trans ?_)
  rw [Nat.sub_self]
  rfl

/-- Bytes of the tables behind are zero when a command is sent that has no entries for them. -/
theorem applyLog_behind {memory : Nat → UInt8}
    (fits : (commandTable hhdm word port slot).toNat + 4224 ≤ 18446744073709551616)
    (header : (headerOf (commandList hhdm port) slot).toNat + 4 ≤ i)
    (above : (commandTable hhdm word port slot).toNat + 0x80 + 16 * (request.prdt hhdm).1.length ≤ i)
    (below : i < (commandTable hhdm word port slot).toNat + 4096) :
    applyLog memory (preparation hhdm word port request slot) i = 0 := by
  have few : (request.prdt hhdm).1.length ≤ 256 := length_prdtLoop _ _ _ _
  unfold preparation
  dsimp only
  generalize headerOf (commandList hhdm port) slot = header at header
  generalize commandTable hhdm word port slot = table at fits above below
  rw [List.append_assoc, applyLog_append]
  refine (applyLog_of_not_writes ?_).trans ?_
  · rintro ⟨access, there, span, listed, covers⟩
    rcases List.mem_append.mp there with entry | later
    · obtain ⟨k, entry, inside, rfl⟩ := mem_prdtStores.mp entry
      obtain ⟨within, _⟩ := List.getElem?_eq_some_iff.mp inside
      have place := toNat_prdtPlace fits (Nat.lt_of_lt_of_le within few)
      simp only [Access.spans, List.mem_cons, List.not_mem_nil, or_false] at listed
      rcases listed with rfl | rfl <;>
      · dsimp only at covers
        omega
    · simp only [List.mem_cons, List.not_mem_nil, or_false] at later
      rcases later with rfl | rfl | rfl <;>
      · obtain rfl := List.mem_singleton.mp listed
        dsimp only at covers
        omega
  · have zeros : (List.replicate 4096 (0 : UInt8))[i - table.toNat]? = some 0 :=
      List.getElem?_replicate_of_lt (by omega)
    have covers : Covers (table.toNat, List.replicate 4096 (0 : UInt8)) i := by
      rw [Covers, List.length_replicate]
      exact ⟨by dsimp only; omega, below⟩
    exact Option.some.inj ((store_of_covers covers).trans zeros)

/-- The table of the slot begins with the type of the FIS. -/
theorem Rebased.sent_fis (fits : BlockFits base) (mapped : virToPhys hhdm base ≠ 0) (rebased : Rebased hhdm base state)
    (clb : port .clb 0 = state.clb) (clbu : port .clbu 0 = state.clbu)
    (sends : Sends hhdm (wordAt state.memory) port request slot) :
    applyLog state.memory (runCommand hhdm (wordAt state.memory) (some port) request).2
      (base.toNat + 0x2000 + 0x100 * slot) = 0x27 := by
  have below : slot < 32 := by simpa using freeSlot_lt sends.free
  have table := toNat_tableOf fits below
  obtain ⟨answer, waits, polls, ready, reads, same, _⟩ := runCommand_sent sends
  have begins := @applyLog_table hhdm (wordAt state.memory) port request slot state.memory
  rw [rebased.commandTable mapped clb clbu below, table] at begins
  rw [same, applyLog_issuedLog ready reads, begins]
  rfl

/-- A command with a few entries clears the tables of the slots behind. -/
theorem Rebased.sent_clears (fits : BlockFits base) (mapped : virToPhys hhdm base ≠ 0)
    (rebased : Rebased hhdm base state) (clb : port .clb 0 = state.clb) (clbu : port .clbu 0 = state.clbu)
    (sends : Sends hhdm (wordAt state.memory) port request slot) (few : (request.prdt hhdm).1.length ≤ 8) {other : Nat}
    (later : slot < other ∧ other < slot + 16) (inTable : InTable base other i) :
    applyLog state.memory (runCommand hhdm (wordAt state.memory) (some port) request).2 i = 0 := by
  have below : slot < 32 := by simpa using freeSlot_lt sends.free
  have header := toNat_headerOf fits below
  have table := toNat_tableOf fits below
  obtain ⟨answer, waits, polls, ready, reads, same, _⟩ := runCommand_sent sends
  have zero := @applyLog_behind hhdm (wordAt state.memory) port request slot i state.memory
  rw [rebased.commandList mapped clb clbu, rebased.commandTable mapped clb clbu below, header, table] at zero
  rw [same, applyLog_issuedLog ready reads]
  unfold BlockFits at fits
  unfold InTable at inTable
  exact zero (by omega) (by omega) (by omega) (by omega)

/-- No command that is sent behind `portRebase` is isolated: besides its own table it clears those of the 15 slots
behind, and it stores entries into the one behind them when it has more than 248. -/
theorem runCommand_not_isolated {start : PortMemory} {trace : List PortEvent} (fits : BlockFits base)
    (mapped : virToPhys hhdm base ≠ 0) (run : Run (PortStep hhdm base) (portRebase hhdm base start) trace state)
    (clb : port .clb 0 = state.clb) (clbu : port .clbu 0 = state.clbu)
    (sends : Sends hhdm (wordAt state.memory) port request slot) :
    ¬ Isolated base slot (runCommand hhdm (wordAt state.memory) (some port) request).2 ∧
      ∀ other < 32, other ≠ slot →
        ((∃ i, InTable base other i ∧ Writes (runCommand hhdm (wordAt state.memory) (some port) request).2 i) ↔
          slot < other ∧ (other < slot + 16 ∨ other = slot + 16 ∧ 248 < (request.prdt hhdm).1.length)) :=
  (rebased_of_run fits mapped run).sent_writes fits mapped clb clbu sends

end Isolation

/-- A port that shows these slots as busy and is ready. -/
def busyPort (slots : UInt32) : Port
  | .clb, _ => 0x100000
  | .ci, _ => slots
  | _, _ => 0

/-- A port before `portRebase`. -/
def freshPort : PortMemory := ⟨0, 0, 0, 0, fun _ => 0⟩

/-- The port behind `portRebase` with its block at 0x100000. -/
def rebasedPort : PortMemory := portRebase 0xFFFF800000000000 0xFFFF800000100000 freshPort

theorem rebased_rebasedPort : Rebased 0xFFFF800000000000 0xFFFF800000100000 rebasedPort :=
  rebased_portRebase freshPort (by unfold BlockFits; decide) (by decide)

theorem sends_busyPort {state : PortMemory} {slots : UInt32} {slot : Nat} (below : slot < 32)
    (rebased : Rebased 0xFFFF800000000000 0xFFFF800000100000 state) (clb : state.clb = 0x100000) (clbu : state.clbu = 0)
    (free : freeSlot slots 0 32 = some slot) :
    Sends 0xFFFF800000000000 (wordAt state.memory) (busyPort slots) oneSector slot where
  free := by
    rw [← free]
    exact congrArg (freeSlot · 0 32) (UInt32.zero_or)
  list := by
    rw [rebased.commandList (by decide) clb.symm clbu.symm]
    decide
  table := by
    have table := @toNat_tableOf 0xFFFF800000100000 slot (by unfold BlockFits; decide) below
    rw [rebased.commandTable (by decide) clb.symm clbu.symm below]
    intro null
    rw [null] at table
    exact absurd table (by simp only [UInt64.reduceToNat]; omega)
  room := by decide +kernel
  ready := ⟨0, by decide, by show (0 : UInt32) &&& deviceBusy = 0; decide⟩

/-- A command is sent in slot 1. While it is pending, one is sent in slot 0: that clears the FIS of slot 1. -/
theorem runCommand_clears_pending_table :
    ∃ first second,
      Run (PortStep 0xFFFF800000000000 0xFFFF800000100000) rebasedPort [.command (busyPort 1) oneSector] first ∧
      PortStep 0xFFFF800000000000 0xFFFF800000100000 first (.command (busyPort 2) oneSector) second ∧
      Sends 0xFFFF800000000000 (wordAt first.memory) (busyPort 2) oneSector 0 ∧
      InTable 0xFFFF800000100000 1 0xFFFF800000102100 ∧
      first.memory 0xFFFF800000102100 = 0x27 ∧ second.memory 0xFFFF800000102100 = 0 ∧
      ¬ Isolated 0xFFFF800000100000 0
        (runCommand 0xFFFF800000000000 (wordAt first.memory) (some (busyPort 2)) oneSector).2 := by
  have fits : BlockFits 0xFFFF800000100000 := by
    unfold BlockFits
    decide
  have mapped : virToPhys 0xFFFF800000000000 0xFFFF800000100000 ≠ 0 := by decide
  have clb : rebasedPort.clb = 0x100000 := by decide
  have clbu : rebasedPort.clbu = 0 := by decide
  have sends := @sends_busyPort rebasedPort 1 1 (by decide) rebased_rebasedPort clb clbu (by decide)
  have place : (0xFFFF800000100000 : UInt64).toNat + 0x2000 + 0x100 * 1 = 0xFFFF800000102100 := by decide
  have fis := rebased_rebasedPort.sent_fis fits mapped clb.symm clbu.symm sends
  rw [place] at fis
  have step := @PortStep.command 0xFFFF800000000000 0xFFFF800000100000 rebasedPort (busyPort 1) oneSector clb.symm clbu.symm
  have rebased := rebased_rebasedPort.step fits mapped step
  have sends' := @sends_busyPort _ 2 0 (by decide) rebased clb clbu (by decide)
  have table : InTable 0xFFFF800000100000 1 0xFFFF800000102100 := by
    unfold InTable
    decide
  have cleared := rebased.sent_clears fits mapped clb.symm clbu.symm sends' (by decide +kernel) ⟨by decide, by decide⟩ table
  refine ⟨_, _, Run.nil.snoc step, .command oneSector clb.symm clbu.symm, sends', table, fis, ?_, ?_⟩
  · dsimp only at cleared ⊢
    exact cleared
  · exact (rebased.sent_writes fits mapped clb.symm clbu.symm sends').1

/-- The first command behind `portRebase`. -/
theorem runCommand_not_isolated_at_first :
    ¬ Isolated 0xFFFF800000100000 1
      (runCommand 0xFFFF800000000000 (wordAt rebasedPort.memory) (some (busyPort 1)) oneSector).2 :=
  (runCommand_not_isolated (by unfold BlockFits; decide) (by decide) (.nil : Run _ (portRebase _ _ freshPort) [] _)
    (by decide) (by decide)
    (@sends_busyPort rebasedPort 1 1 (by decide) rebased_rebasedPort (by decide) (by decide) (by decide))).1

end KeblaOS.Ahci
