import KeblaOS.Fat32.DirectoryCalls

/-!
# Runs of free slots

What `fat32_find_contiguous_free_entries` owes its callers, who write `needed` slots at
the place it returns. A run found in the directory is inside its cluster. When there is
none the function hangs a fresh cluster behind the directory and returns its start
without a look at its size, so a run longer than a cluster is handed out as well.
-/

namespace KeblaOS.Fat32

/-- A place for `needed` slots in the directory `dir`, found or made. -/
structure RunFound (vol after : Volume) (dir : Nat) (cells : List Nat) (needed cell offset : Nat) : Prop where
  member : ∃ cells', ClusterChain after dir cells' ∧ cell ∈ cells'
  fits : offset + 32 * needed ≤ getClusterSizeBytes vol.bpb
  aligned : 32 ∣ offset
  free : ∀ i < needed, ∃ slot, (clusterSlots after cell)[offset / 32 + i]? = some slot ∧ slot.IsFree
  kept : ∀ other ∈ cells, ∀ (index : Nat) (slot : Slot), (clusterSlots vol other)[index]? = some slot →
    ¬ slot.IsFree → (clusterSlots after other)[index]? = some slot

/-- `fat32_find_contiguous_free_entries` returns, and what it returns is a place for the
slots. -/
def FindsFreeRuns (vol : Volume) (dir : Nat) (cells : List Nat) (needed : Nat) : Prop :=
  ∃ result after, fat32FindContiguousFreeEntries vol dir needed = some (result, after) ∧
    ∀ cell offset, result = some (cell, offset) → RunFound vol after dir cells needed cell offset

section Runs

variable {vol after : Volume} {dir needed cell index : Nat} {cells : List Nat}

/-- The slots of a run are slots of the cluster. -/
theorem FreeRun.slot {slots : List Slot} {start i : Nat} (run : FreeRun slots start needed) (inside : i < needed) :
    ∃ slot, slots[start + i]? = some slot ∧ slot.IsFree := by
  have fits := run.inside
  have there := List.getElem?_eq_getElem (show start + i < slots.length by omega)
  exact ⟨_, there, run.free _ _ there (by omega) (by omega)⟩

/-- A run of free slots of a cluster is a place for them. -/
theorem runFound_in_place (geometry : Geometry vol.bpb) (chain : ClusterChain vol dir cells)
    (member : cell ∈ cells) (run : FreeRun (clusterSlots vol cell) index needed) :
    RunFound vol vol dir cells needed cell (32 * index) := by
  have inside := run.inside
  have size := geometry.getClusterSizeBytes_eq
  rw [length_clusterSlots] at inside
  have slot : 32 * index / 32 = index := by omega
  refine ⟨⟨cells, chain, member⟩, by omega, Nat.dvd_mul_right _ _, fun i below => ?_, fun _ _ _ _ there _ => there⟩
  rw [slot]
  exact run.slot below

/-- A fresh cluster behind the directory is a place for as many slots as it has. -/
theorem ClusterHung.runFound (hung : ClusterHung vol after dir cells cell) (geometry : Geometry vol.bpb)
    (chain : ClusterChain vol dir cells) (fits : 32 * needed ≤ getClusterSizeBytes vol.bpb) :
    RunFound vol after dir cells needed cell 0 := by
  have size := geometry.getClusterSizeBytes_eq
  refine ⟨⟨cells ++ [cell], hung.chain, by simp⟩, by omega, Nat.dvd_zero 32, fun i below => ?_, ?_⟩
  · have run := @freeRun_replicate (16 * getSectorsPerCluster vol.bpb) needed (by omega)
    rw [hung.slots, Nat.zero_div]
    exact run.slot below
  · intro other member index slot there _
    have different : other ≠ cell := by
      rintro rfl
      exact chain.next_ne_zero member hung.free
    rwa [clusterSlots_congr hung.same (chain.isCluster other member) different]

/-- The search hands out places that fit exactly when the run is no longer than a cluster, or no
cluster can be hung behind the directory. -/
theorem fat32FindContiguousFreeEntries_fits_iff (vol : Volume) (dir : Nat) (cells : List Nat) (needed : Nat)
    (geometry : Geometry vol.bpb) (hint : 2 ≤ vol.freeClusterNo) (chain : ClusterChain vol dir cells)
    (wanted : 1 ≤ needed) :
    FindsFreeRuns vol dir cells needed ↔
      32 * needed ≤ getClusterSizeBytes vol.bpb ∨ freeClusterCount vol = 0 := by
  rcases fat32FindContiguousFreeEntries_cases geometry hint chain wanted with ⟨failed, exhausted, _⟩ |
      ⟨front, cell, back, index, rfl, _, run, found⟩ | ⟨cell, after, hung, _, count, found⟩
  · exact ⟨fun _ => .inr exhausted.freeClusterCount_eq, fun _ => ⟨none, vol, failed, nofun⟩⟩
  · have place := runFound_in_place geometry chain (by simp) run
    have fits := place.fits
    constructor
    · intro _
      left
      omega
    · intro _
      refine ⟨_, vol, found, fun other offset same => ?_⟩
      obtain ⟨rfl, rfl⟩ := Prod.mk.inj (Option.some.inj same)
      exact place
  · constructor
    · rintro ⟨result, last, returned, places⟩
      obtain ⟨rfl, rfl⟩ := Prod.mk.inj (Option.some.inj (found.symm.trans returned))
      have fits := (places cell 0 rfl).fits
      left
      omega
    · rintro (fits | none)
      · refine ⟨_, after, found, fun other offset same => ?_⟩
        obtain ⟨rfl, rfl⟩ := Prod.mk.inj (Option.some.inj same)
        exact hung.runFound geometry chain fits
      · omega

/-- Sixteen slots fit the empty root directory. -/
theorem fat32FindContiguousFreeEntries_fits_iff_empty :
    32 * 16 ≤ getClusterSizeBytes emptyVolume.bpb ∧ FindsFreeRuns emptyVolume 2 [2] 16 := by
  have fits : 32 * 16 ≤ getClusterSizeBytes emptyVolume.bpb := by decide +kernel
  exact ⟨fits, (fat32FindContiguousFreeEntries_fits_iff emptyVolume 2 [2] 16 emptyVolume_geometry
    (by decide +kernel) emptyVolume_chain (by decide)).mpr (.inl fits)⟩

/-- For seventeen a cluster of sixteen is returned. -/
theorem fat32FindContiguousFreeEntries_overruns :
    Geometry emptyVolume.bpb ∧ 2 ≤ emptyVolume.freeClusterNo ∧ ClusterChain emptyVolume 2 [2] ∧
      ¬ FindsFreeRuns emptyVolume 2 [2] 17 := by
  refine ⟨emptyVolume_geometry, by decide +kernel, emptyVolume_chain, ?_⟩
  rintro ⟨result, after, returned, places⟩
  have place : (fat32FindContiguousFreeEntries emptyVolume 2 17).map Prod.fst = some (some (3, 0)) := by
    decide +kernel
  rw [returned] at place
  have fits := (places 3 0 (Option.some.inj place)).fits
  have size : getClusterSizeBytes emptyVolume.bpb = 512 := by decide +kernel
  omega

end Runs

end KeblaOS.Fat32
