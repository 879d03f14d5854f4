import KeblaOS.Fat32.Cluster
import KeblaOS.Lib.Run

/-!
# Runs of the cluster allocator

`fat32_allocate_cluster` looks at the clusters from `fat32_free_cluster_no` up to
`get_total_clusters()`. Nothing ever moves the hint back, and the last cluster of the
volume is behind the bound. So what it finds is right, and that it finds nothing says
nothing about the clusters below the hint and the last one.
-/

namespace KeblaOS.Fat32

/-- The operations that change FAT entries. -/
inductive AllocatorCall where
  | allocate
  | append (startCluster : Nat)
  | free (startCluster : Nat)

/-- One call, on a well-formed chain where it takes one. -/
inductive AllocatorStep (vol : Volume) : AllocatorCall → Volume → Prop where
  | allocate {reply next} (returned : fat32AllocateCluster vol = (reply, next)) :
      AllocatorStep vol .allocate next
  | append {start cells reply next} (chain : ClusterChain vol start cells)
      (returned : fat32AppendCluster vol start = some (reply, next)) :
      AllocatorStep vol (.append start) next
  | free {start cells reply next} (chain : ClusterChain vol start cells)
      (returned : fat32FreeClusterChain vol start = some (reply, next)) :
      AllocatorStep vol (.free start) next

/-- What the allocator owes its caller in a given state: `false` only on a full volume,
otherwise a free cluster of the volume, whose entry is the only one that changes. -/
def AllocatesCorrectly (vol : Volume) : Prop :=
  ((fat32AllocateCluster vol).1 = none →
      ∀ cluster, IsCluster vol.bpb cluster → fat32GetNextCluster vol cluster ≠ 0) ∧
    ∀ cluster, (fat32AllocateCluster vol).1 = some cluster →
      IsCluster vol.bpb cluster ∧ fat32GetNextCluster vol cluster = 0 ∧
        fat32GetNextCluster (fat32AllocateCluster vol).2 cluster ≠ 0 ∧
        vol.SameExcept (fat32AllocateCluster vol).2 {cluster} ∅

/-- The search has a free cluster before it, or there is none on the volume. -/
def SearchComplete (vol : Volume) : Prop :=
  (∃ cluster, vol.freeClusterNo ≤ cluster ∧ cluster ≤ getTotalClusters vol.bpb ∧ fat32GetNextCluster vol cluster = 0) ∨
    ∀ cluster, IsCluster vol.bpb cluster → fat32GetNextCluster vol cluster ≠ 0

/-- The state in which the allocator works. -/
structure AllocatorReady (vol : Volume) : Prop where
  geometry : Geometry vol.bpb
  hint : 2 ≤ vol.freeClusterNo

section Steps

variable {vol : Volume}

/-- A search that finds a cluster keeps its promise; one that finds nothing does if there is nothing. -/
theorem AllocatorReady.allocatesCorrectly_iff (ready : AllocatorReady vol) :
    AllocatesCorrectly vol ↔ SearchComplete vol := by
  unfold AllocatesCorrectly
  rcases fat32AllocateCluster_cases ready.geometry ready.hint with ⟨failed, exhausted⟩ |
      ⟨cluster, after, found, allocated⟩
  · rw [failed]
    constructor
    · rintro ⟨none, _⟩
      exact .inr (none rfl)
    · rintro (⟨cluster, lower, upper, free⟩ | none)
      · exact absurd free (exhausted cluster lower upper)
      · exact ⟨fun _ => none, fun cluster impossible => absurd impossible (by simp)⟩
  · rw [found]
    refine iff_of_true ⟨fun impossible => absurd impossible (by simp), fun other same => ?_⟩ (.inl ?_)
    · obtain rfl : cluster = other := Option.some.inj same
      refine ⟨allocated.isCluster, allocated.free, ?_, allocated.same⟩
      rw [allocated.ends]
      decide
    · exact ⟨cluster, allocated.from_hint, allocated.le_total, allocated.free⟩

theorem AllocatorReady.of_sameExcept {after : Volume} {entries sectors : Set Nat} (ready : AllocatorReady vol)
    (same : vol.SameExcept after entries sectors) : AllocatorReady after :=
  ⟨by rw [same.bpb]; exact ready.geometry, ready.hint.trans same.hint⟩

theorem AllocatorReady.step {call : AllocatorCall} {next : Volume} (ready : AllocatorReady vol)
    (taken : AllocatorStep vol call next) : AllocatorReady next := by
  cases taken with
  | allocate returned =>
      rcases fat32AllocateCluster_cases ready.geometry ready.hint with ⟨failed, _⟩ |
          ⟨cluster, after, found, allocated⟩
      · obtain ⟨_, rfl⟩ := Prod.mk.inj (returned.symm.trans failed)
        exact ready
      · obtain ⟨_, rfl⟩ := Prod.mk.inj (returned.symm.trans found)
        exact ready.of_sameExcept allocated.same
  | @append start cells _ _ chain returned =>
      obtain ⟨front, last, rfl⟩ : ∃ front last, cells = front ++ [last] :=
        ⟨cells.dropLast, cells.getLast chain.linked.ne_nil, (List.dropLast_append_getLast _).symm⟩
      rcases fat32AppendCluster_cases ready.geometry ready.hint chain with ⟨failed, _⟩ |
          ⟨cluster, after, found, appended⟩
      · obtain ⟨_, rfl⟩ := Prod.mk.inj (Option.some.inj (returned.symm.trans failed))
        exact ready
      · obtain ⟨_, rfl⟩ := Prod.mk.inj (Option.some.inj (returned.symm.trans found))
        exact ready.of_sameExcept appended.same
  | @free start cells _ _ chain returned =>
      obtain ⟨after, freed, result⟩ := fat32FreeClusterChain_eq ready.geometry chain
      obtain ⟨_, rfl⟩ := Prod.mk.inj (Option.some.inj (returned.symm.trans freed))
      exact ready.of_sameExcept result.same

end Steps

/-! ## A small volume -/

/-- Three clusters behind one reserved sector and one FAT sector. -/
def smallBpb : Bpb :=
  { volumeBpb 0 4096 with rsvdSecCnt := 1, numFATs := 1, fatSz32 := 1, totSec32 := 5 }

/-- The small volume with a root directory of one cluster and nothing else. -/
def smallVolume : Volume :=
  (fat32SetNextCluster ⟨smallBpb, blankDisk, 2, 2⟩ 2 clusterEndOfChain).2

theorem smallBpb_geometry : Geometry smallBpb := by
  refine ⟨⟨?_, ?_, ?_, ?_⟩, ?_, ?_, ?_⟩ <;> decide +kernel

theorem smallVolume_bpb : smallVolume.bpb = smallBpb := by
  have inRange : IsCluster (⟨smallBpb, blankDisk, 2, 2⟩ : Volume).bpb 2 := by decide +kernel
  exact fat32SetNextCluster_bpb clusterEndOfChain smallBpb_geometry.fatArea inRange

/-- In every state that a run reaches, an allocation does what it owes exactly if the search has a free
cluster before it, or there is none on the volume. -/
theorem allocator_run_allocatesCorrectly {start vol : Volume} {trace : List AllocatorCall}
    (geometry : Geometry start.bpb) (hint : 2 ≤ start.freeClusterNo) (run : Run AllocatorStep start trace vol) :
    AllocatesCorrectly vol ↔ SearchComplete vol :=
  (run.invariant AllocatorReady ⟨geometry, hint⟩ fun ready step => ready.step step).allocatesCorrectly_iff

/-- A fresh volume of four clusters, the root directory in the first one. -/
def freshVolume : Volume :=
  (fat32SetNextCluster ⟨{ smallBpb with totSec32 := 6 }, blankDisk, 2, 2⟩ 2 clusterEndOfChain).2

theorem freshVolume_geometry : Geometry freshVolume.bpb := by
  have small : Geometry { smallBpb with totSec32 := 6 } := by
    refine ⟨⟨?_, ?_, ?_, ?_⟩, ?_, ?_, ?_⟩ <;> decide +kernel
  have inRange : IsCluster (⟨{ smallBpb with totSec32 := 6 }, blankDisk, 2, 2⟩ : Volume).bpb 2 := by decide +kernel
  have bpb : freshVolume.bpb = { smallBpb with totSec32 := 6 } :=
    fat32SetNextCluster_bpb clusterEndOfChain small.fatArea inRange
  rw [bpb]
  exact small

/-- The second allocation on it takes cluster 4. -/
theorem allocator_run_allocatesCorrectly_small :
    let vol := (fat32AllocateCluster freshVolume).2
    (fat32AllocateCluster freshVolume).1 = some 3 ∧ (fat32AllocateCluster vol).1 = some 4 ∧ AllocatesCorrectly vol := by
  intro vol
  have run : Run AllocatorStep freshVolume [.allocate] vol := Run.snoc .nil (.allocate rfl)
  have complete : SearchComplete vol := .inl ⟨4, by decide +kernel, by decide +kernel, by decide +kernel⟩
  exact ⟨by decide +kernel, by decide +kernel,
    (allocator_run_allocatesCorrectly freshVolume_geometry (by decide +kernel) run).mpr complete⟩

/-- Cluster 3 is allocated and freed again; the next allocation fails although clusters
3 and 4 are free. -/
theorem allocator_misses_freed_cluster :
    Geometry smallVolume.bpb ∧ smallVolume.freeClusterNo = 2 ∧
      ∃ vol, Run AllocatorStep smallVolume [.allocate, .free 3] vol ∧ ¬ AllocatesCorrectly vol := by
  let middle := (fat32AllocateCluster smallVolume).2
  have returns : (fat32FreeClusterChain middle 3).isSome = true := by decide +kernel
  let result := (fat32FreeClusterChain middle 3).getD (false, middle)
  have chain : ClusterChain middle 3 [3] := by
    refine ⟨.last (by decide +kernel), fun cell member => ?_⟩
    rw [List.mem_singleton.mp member]
    decide +kernel
  have returned : fat32FreeClusterChain middle 3 = some (result.1, result.2) := by
    obtain ⟨value, found⟩ := Option.isSome_iff_exists.mp returns
    show _ = some ((fat32FreeClusterChain middle 3).getD (false, middle))
    rw [found, Option.getD_some]
  have run : Run AllocatorStep smallVolume [.allocate, .free 3] result.2 :=
    Run.snoc (Run.snoc .nil (.allocate rfl)) (.free chain returned)
  refine ⟨by rw [smallVolume_bpb]; exact smallBpb_geometry, by decide +kernel, result.2, run, ?_⟩
  intro correct
  have failed : (fat32AllocateCluster result.2).1 = none := by decide +kernel
  have inRange : IsCluster result.2.bpb 3 := by decide +kernel
  have free : fat32GetNextCluster result.2 3 = 0 := by decide +kernel
  exact correct.1 failed 3 inRange free

end KeblaOS.Fat32
