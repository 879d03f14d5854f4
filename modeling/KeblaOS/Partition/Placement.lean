import KeblaOS.Partition.PartitionManager

/-!
# Where the backup structures go

The layout in `gpt.c` puts the backup header in the last sector of the disk and the usable
range in front of the backup array. `create_partition` computes both from the size of the
partition it creates. The range is as long as that partition at most, from the beginning
of the disk, so the partition ends behind it; the backup structures of a partition that
starts low enough lie inside it.
-/

namespace KeblaOS.Partition

open KeblaOS.Fat32 (Disk)

/-- The layout of `gpt.c` on a disk of `size` sectors: every partition in the usable range,
the backup header in the last sector, and no backup structure inside a partition. -/
structure Placed (size : Nat) (disk : Disk) (requests : List CreateRequest) : Prop where
  usable : ∀ request ∈ requests,
    (primaryOf disk).firstUsableLba.toNat ≤ request.startLba.toNat ∧
      request.entry.endLba.toNat ≤ (primaryOf disk).lastUsableLba.toNat
  last : (primaryOf disk).backupLba.toNat = size - 1
  apart : ∀ request ∈ requests, ∀ lba, request.startLba.toNat ≤ lba → lba ≤ request.entry.endLba.toNat →
    lba ≠ (primaryOf disk).backupLba.toNat ∧
      (lba < (backupOf disk).entriesLba.toNat ∨
        (backupOf disk).entriesLba.toNat + totalEntriesSectors ≤ lba)

theorem toNat_endLba {request : CreateRequest} (inside : request.startLba.toNat + request.sectors.toNat < 2 ^ 64)
    (nonempty : 1 ≤ request.sectors.toNat) :
    request.entry.endLba.toNat = request.startLba.toNat + request.sectors.toNat - 1 := by
  have sum : (request.startLba + request.sectors).toNat = request.startLba.toNat + request.sectors.toNat := by
    rw [UInt64.toNat_add]
    exact Nat.mod_eq_of_lt inside
  show (request.startLba + request.sectors - 1).toNat = _
  rw [UInt64.toNat_sub_of_le _ _ (by rw [UInt64.le_iff_toNat_le, sum]; simp; omega), sum]
  rfl

/-- A partition ends behind the usable range of the header written for it. -/
theorem lastUsableLba_lt_endLba {manager next : PartitionManager} {request : CreateRequest}
    (inside : request.startLba.toNat + request.sectors.toNat < 2 ^ 64)
    (step : PartitionStep manager (.create request) next) :
    (primaryOf next.disk).lastUsableLba.toNat < request.entry.endLba.toNat := by
  have returned : manager.createPartition request = (true, next) := step
  rcases manager.createPartition_cases request with failed | ⟨after, created, large, _, primary, _⟩
  · rw [returned] at failed
    exact absurd failed (by simp)
  · obtain rfl := (Prod.mk.inj (created.symm.trans returned)).2
    obtain ⟨bound, _, _, usable⟩ := PartitionManager.toNat_totalSectors_sub large
    rw [primary, toNat_endLba inside (by omega)]
    show (request.sectors - 32 - 2).toNat < _
    omega

/-- After any sequence of successful creations inside a disk, the partition created last
violates the layout. -/
theorem created_run_not_placed {start manager : PartitionManager} {size : Nat} (addressable : size < 2 ^ 64)
    {requests : List CreateRequest}
    (inside : ∀ request ∈ requests, request.startLba.toNat + request.sectors.toNat ≤ size)
    (run : Run PartitionStep start (requests.map .create) manager) (nonempty : requests ≠ []) :
    ¬ Placed size manager.disk requests := by
  intro placed
  rcases List.eq_nil_or_concat requests with rfl | ⟨front, request, rfl⟩
  · exact nonempty rfl
  · rw [List.concat_eq_append] at run inside placed
    rw [List.map_append, List.map_singleton] at run
    obtain ⟨before, _, step⟩ := run.snoc_inv
    have member : request ∈ front ++ [request] := by simp
    have fits := inside request member
    have behind := lastUsableLba_lt_endLba (by omega) step
    have usable := (placed.usable request member).2
    omega

/-- One partition of 4000 sectors, created on a disk of 4096. -/
theorem created_run_not_placed_plain :
    ∃ manager, Run PartitionStep blankManager ([plainRequest].map .create) manager ∧
      ¬ Placed 4096 manager.disk [plainRequest] := by
  have run : Run PartitionStep blankManager ([plainRequest].map .create)
      (blankManager.createPartition plainRequest).2 :=
    Run.nil.snoc (createPartition_succeeds (by decide) (by decide))
  exact ⟨_, run, created_run_not_placed (by decide) (by decide) run (by simp)⟩

/-- The partition at LBA 34 with 4000 sectors on a disk of 4096 sectors: the header ends the
usable range at 3966, before the partition's last sector 4033, and the backup header goes
to sector 3999, inside the partition. -/
theorem plain_partition_misplaced :
    ∃ manager, Run PartitionStep blankManager ([plainRequest].map .create) manager ∧
      plainRequest.startLba.toNat + plainRequest.sectors.toNat ≤ 4096 ∧
      plainRequest.entry.endLba = 4033 ∧ (primaryOf manager.disk).lastUsableLba = 3966 ∧
      (primaryOf manager.disk).backupLba = 3999 ∧ ¬ Placed 4096 manager.disk [plainRequest] := by
  have step : PartitionStep blankManager (.create plainRequest) (blankManager.createPartition plainRequest).2 :=
    createPartition_succeeds (by decide) (by decide)
  refine ⟨_, Run.nil.snoc step, by decide, by decide, ?_⟩
  rcases blankManager.createPartition_cases plainRequest with failed | ⟨after, created, _, _, primary, _⟩
  · rw [show blankManager.createPartition plainRequest = (true, _) from step] at failed
    exact absurd failed (by simp)
  · rw [created]
    have backup : (primaryOf after).backupLba = 3999 := by rw [primary]; rfl
    refine ⟨by rw [primary]; rfl, backup, fun placed => ?_⟩
    have last := placed.last
    rw [backup] at last
    exact absurd last (by decide)

end KeblaOS.Partition
