import KeblaOS.Fat32.Volume

/-!
# Transfers of several sectors

What `disk_read` finds where `disk_write` wrote. The formatters and the partition tables
place their structures by sector numbers, so their proofs reason about sectors directly.
-/

namespace KeblaOS.Fat32

open KeblaOS.Buffer

theorem sectorAt_zero {buffer : List UInt8} (full : buffer.length = 512) : sectorAt buffer 0 = buffer := by
  rw [sectorAt_of_le (by omega), Nat.mul_zero, slice_whole full]

theorem sector_write (disk : Disk) (lba count : Nat) (buffer : List UInt8) (x : Nat) :
    (disk.write lba count buffer).sector x =
      if lba ≤ x ∧ x < lba + count then sectorAt buffer (x - lba) else disk.sector x := rfl

/-- One full sector written. -/
theorem sector_write_one {disk : Disk} {lba : Nat} {buffer : List UInt8} (full : buffer.length = 512) (x : Nat) :
    (disk.write lba 1 buffer).sector x = if x = lba then buffer else disk.sector x := by
  rw [sector_write]
  by_cases here : x = lba
  · rw [if_pos (by omega), if_pos here, here, Nat.sub_self, sectorAt_zero full]
  · rw [if_neg (by omega), if_neg here]

theorem Disk.ext_sector {disk disk' : Disk} (same : ∀ x, disk.sector x = disk'.sector x) : disk = disk' := by
  obtain ⟨sector, _⟩ := disk
  obtain ⟨sector', _⟩ := disk'
  obtain rfl : sector = sector' := funext same
  rfl

/-- `disk_read`: the bytes it leaves in the buffer. -/
def Disk.read (disk : Disk) (lba count : Nat) : List UInt8 :=
  (List.range count).flatMap fun i => disk.sector (lba + i)

section Read

variable {disk disk' : Disk} {lba count : Nat}

theorem Disk.read_eq_flatten (disk : Disk) (lba count : Nat) :
    disk.read lba count = ((List.range count).map fun i => disk.sector (lba + i)).flatten :=
  List.flatMap_def

theorem Disk.length_of_mem_sectors :
    ∀ record ∈ (List.range count).map (fun i => disk.sector (lba + i)), record.length = 512 := by
  intro record member
  obtain ⟨i, _, rfl⟩ := List.mem_map.mp member
  exact disk.length_sector _

@[simp] theorem Disk.length_read (disk : Disk) (lba count : Nat) : (disk.read lba count).length = 512 * count := by
  rw [Disk.read_eq_flatten, length_flatten_of_forall Disk.length_of_mem_sectors, List.length_map,
    List.length_range]

/-- The sectors a read buffer consists of. -/
theorem Disk.chunks_read (disk : Disk) (lba count : Nat) :
    chunks 512 (disk.read lba count) = (List.range count).map fun i => disk.sector (lba + i) := by
  rw [Disk.read_eq_flatten]
  exact chunks_flatten (by decide) Disk.length_of_mem_sectors

theorem Disk.slice_read {i : Nat} (inside : i < count) :
    slice (disk.read lba count) (512 * i) 512 = disk.sector (lba + i) := by
  have there : (chunks 512 (disk.read lba count))[i]? = some (disk.sector (lba + i)) := by
    rw [Disk.chunks_read, List.getElem?_map, List.getElem?_range inside, Option.map_some]
  exact (chunks_getElem? there).2.symm

/-- Two disks agree on a range exactly when the sectors of the range do. -/
theorem Disk.read_eq_read_iff {lba' : Nat} :
    disk.read lba count = disk'.read lba' count ↔
      ∀ i < count, disk.sector (lba + i) = disk'.sector (lba' + i) := by
  constructor
  · intro same i inside
    rw [← Disk.slice_read inside, same, Disk.slice_read inside]
  · intro same
    refine List.flatMap_congr fun i member => ?_
    exact same i (List.mem_range.mp member)

/-- Reading back what was written. -/
theorem Disk.read_write {buffer : List UInt8} (whole : buffer.length = 512 * count) :
    (disk.write lba count buffer).read lba count = buffer := by
  have sectors : ∀ i < count, (disk.write lba count buffer).sector (lba + i) = slice buffer (512 * i) 512 := by
    intro i inside
    rw [sector_write, if_pos (by omega), Nat.add_sub_cancel_left, sectorAt_of_le (by omega)]
  have parts : chunks 512 buffer = (List.range count).map fun i => slice buffer (512 * i) 512 := by
    rw [chunks, whole, Nat.mul_div_cancel_left _ (by decide)]
  rw [Disk.read_eq_flatten, List.map_congr_left fun i member => sectors i (List.mem_range.mp member), ← parts]
  exact flatten_chunks (by decide) ⟨count, whole⟩

/-- A read does not notice a write to other sectors. -/
theorem Disk.read_write_of_disjoint {buffer : List UInt8} {lba' count' : Nat}
    (disjoint : lba + count ≤ lba' ∨ lba' + count' ≤ lba) :
    (disk.write lba' count' buffer).read lba count = disk.read lba count := by
  rw [Disk.read_eq_read_iff]
  intro i inside
  rw [sector_write, if_neg (by omega)]

end Read

end KeblaOS.Fat32
