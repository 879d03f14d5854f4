import KeblaOS.Fat32.FatEffect
import KeblaOS.Fat32.Resize

/-!
# Calls on whole chains

Appending to a chain, allocating a new one, and writing a buffer to a new chain and
reading it back. The append is exact on every chain. The allocation of several
clusters is exact when it succeeds; when the free clusters run out on the way it keeps
those it has taken. The chain a buffer is written to holds the buffer padded with
zeroes to whole clusters, which is what the read delivers.
-/

namespace KeblaOS.Fat32

open KeblaOS.Buffer

section Calls

variable {vol : Volume}

/-! ## Appending -/

/-- `fat32_append_cluster` on a chain: a free cluster becomes its last one and no other
entry changes, or nothing does. -/
theorem fat32AppendCluster_exact (vol : Volume) (start last : Nat) (front : List Nat)
    (geometry : Geometry vol.bpb) (hint : 2 ≤ vol.freeClusterNo)
    (chain : ClusterChain vol start (front ++ [last])) :
    ∃ result after, fat32AppendCluster vol start = some (result, after) ∧
      (∀ cluster, result = some cluster →
        ClusterChain after start (front ++ [last] ++ [cluster]) ∧ fat32GetNextCluster vol cluster = 0 ∧
          IsCluster vol.bpb cluster ∧ vol.FatExcept after {last, cluster}) ∧
      (result = none → after = vol) := by
  rcases fat32AppendCluster_cases geometry hint chain with ⟨failed, _⟩ | ⟨cluster, after, found, appended⟩
  · exact ⟨none, vol, failed, nofun, fun _ => rfl⟩
  · have frame := fat32AppendCluster_frame geometry hint chain found
    refine ⟨some cluster, after, found, ?_, nofun⟩
    intro other same
    obtain rfl := Option.some.inj same
    constructor
    · exact appended.chain_concat geometry chain
    · exact ⟨appended.free, appended.isCluster, frame.fatExcept geometry.fatArea appended.same⟩

/-- Cluster 4 is hung behind cluster 3 of the volume with a spare cluster. -/
theorem fat32AppendCluster_exact_spare :
    ∃ after, fat32AppendCluster spareVolume 3 = some (some 4, after) ∧
      ClusterChain after 3 [3, 4] ∧ spareVolume.FatExcept after {3, 4} := by
  have inRange : IsCluster (⟨spareBpb, blankDisk, 2, 3⟩ : Volume).bpb 3 := by decide +kernel
  have bpb : spareVolume.bpb = spareBpb :=
    fat32SetNextCluster_bpb clusterEndOfChain spareBpb_geometry.fatArea inRange
  have geometry : Geometry spareVolume.bpb := by
    rw [bpb]
    exact spareBpb_geometry
  have chain : ClusterChain spareVolume 3 ([] ++ [3]) := by
    refine ⟨.last (by decide +kernel), fun cell member => ?_⟩
    rw [List.mem_singleton.mp member, bpb]
    exact inRange
  obtain ⟨result, after, returned, appended, _⟩ :=
    fat32AppendCluster_exact spareVolume 3 3 [] geometry (by decide +kernel) chain
  have four : (fat32AppendCluster spareVolume 3).map Prod.fst = some (some 4) := by decide +kernel
  rw [returned, Option.map_some] at four
  obtain rfl : result = some 4 := Option.some.inj four
  obtain ⟨longer, _, _, kept⟩ := appended 4 rfl
  exact ⟨after, returned, longer, kept⟩

/-! ## Allocating a chain -/

/-- The loop of the allocation stores to entries of clusters only. -/
theorem allocateChainLoop_frame {first prev : Nat} (count : Nat) (geometry : Geometry vol.bpb)
    (hint : 2 ≤ vol.freeClusterNo) (previous : prev = 0 ∨ IsCluster vol.bpb prev) :
    FatFrame vol (allocateChainLoop count vol first prev).vol ∧
      ((allocateChainLoop count vol first prev).prevCluster = 0 ∨
        IsCluster vol.bpb (allocateChainLoop count vol first prev).prevCluster) := by
  induction count generalizing vol first prev with
  | zero => exact ⟨.refl vol, previous⟩
  | succ count ih =>
      have frame := fat32AllocateCluster_frame geometry hint
      rw [allocateChainLoop]
      rcases fat32AllocateCluster_cases geometry hint with ⟨failed, _⟩ |
          ⟨cluster, middle, found, allocated⟩
      · rw [failed]
        exact ⟨.refl vol, previous⟩
      · rw [found] at frame ⊢
        dsimp only at frame ⊢
        have geometry' : Geometry middle.bpb := by rwa [frame.bpb]
        have hint' : 2 ≤ middle.freeClusterNo := hint.trans allocated.same.hint
        have fresh : IsCluster middle.bpb cluster := by
          rw [frame.bpb]
          exact allocated.isCluster
        by_cases none : prev = 0
        · obtain ⟨onward, last⟩ := @ih middle cluster cluster geometry' hint' (.inr fresh)
          rw [if_pos none]
          rw [frame.bpb] at last
          exact ⟨frame.trans onward, last⟩
        · have inRange : IsCluster middle.bpb prev := by
            rw [frame.bpb]
            exact previous.resolve_left none
          have returned : fat32SetNextCluster middle prev cluster =
              (true, (fat32SetNextCluster middle prev cluster).2) :=
            Prod.ext (fat32SetNextCluster_fst cluster geometry'.fatArea inRange) rfl
          have linked := fatFrame_setNext cluster geometry'.fatArea inRange
          have scanned := fat32SetNextCluster_freeClusterNo cluster geometry'.fatArea inRange
          have bpb := linked.bpb.trans frame.bpb
          rw [if_neg none, returned]
          dsimp only
          obtain ⟨onward, last⟩ := @ih (fat32SetNextCluster middle prev cluster).2 first cluster
            (by rwa [bpb]) (by rwa [scanned]) (.inr (by rwa [linked.bpb]))
          rw [bpb] at last
          exact ⟨(frame.trans linked).trans onward, last⟩

theorem fat32AllocateClusterChain_frame {count : Nat} (geometry : Geometry vol.bpb)
    (hint : 2 ≤ vol.freeClusterNo) : FatFrame vol (fat32AllocateClusterChain vol count).2.2 := by
  obtain ⟨frame, last⟩ := @allocateChainLoop_frame vol 0 0 count geometry hint (.inl rfl)
  unfold fat32AllocateClusterChain
  dsimp only
  split
  · rcases last with zero | inRange
    · have invalid : ¬ isValidCluster 0 = true := by decide
      rw [zero, fat32SetNextCluster, if_neg invalid]
      exact frame
    · apply frame.trans
      apply fatFrame_setNext
      · rw [frame.bpb]
        exact geometry.fatArea
      · rwa [frame.bpb]
  · exact frame

/-- What `fat32_allocate_cluster_chain` owes: a success delivers a chain of so many clusters
that were free, a failure leaves the FAT as it was. -/
structure AllocatesChain (vol : Volume) (count : Nat) : Prop where
  success : ∀ first after, fat32AllocateClusterChain vol count = (true, first, after) →
    ∃ cells, ClusterChain after first cells ∧ cells.length = count ∧ cells.Nodup ∧
      (∀ cell ∈ cells, IsCluster vol.bpb cell ∧ fat32GetNextCluster vol cell = 0) ∧
      vol.FatExcept after {cell | cell ∈ cells}
  failure : ∀ first after, fat32AllocateClusterChain vol count = (false, first, after) →
    vol.FatExcept after ∅

/-- The allocation does what it owes when the free clusters are enough, and when there are
none. -/
theorem fat32AllocateClusterChain_correct_iff (vol : Volume) (count : Nat) (geometry : Geometry vol.bpb)
    (hint : 2 ≤ vol.freeClusterNo) (wanted : 1 ≤ count) :
    AllocatesChain vol count ↔ count ≤ freeClusterCount vol ∨ freeClusterCount vol = 0 := by
  obtain ⟨first, after, added, returned, allocation⟩ := fat32AllocateClusterChain_eq geometry hint wanted
  have frame := @fat32AllocateClusterChain_frame vol count geometry hint
  rw [returned] at frame
  dsimp only at frame
  have same : vol.SameExcept after {cell | cell ∈ added} ∅ :=
    allocation.grown.same.mono (by simp) subset_rfl
  have kept := frame.fatExcept geometry.fatArea same
  constructor
  · intro owed
    by_contra failing
    rw [not_or] at failing
    obtain ⟨tooMany, some⟩ := failing
    rw [decide_eq_false tooMany] at returned
    have length := allocation.length
    obtain ⟨cell, member⟩ := List.exists_mem_of_length_pos (show 0 < added.length by omega)
    have inRange := allocation.grown.isCluster cell member
    -- The entry of a cluster that was taken has changed.
    have entry := (owed.failure first after returned).entry cell (geometry.fatArea.fatIndex_lt inRange)
      (Set.notMem_empty _)
    have same : fat32GetNextCluster after cell = fat32GetNextCluster vol cell := by
      rw [fat32GetNextCluster_eq_copyEntry (by rw [frame.bpb]; exact geometry.fatArea) (by rwa [frame.bpb]),
        entry, fat32GetNextCluster_eq_copyEntry geometry.fatArea inRange]
    rcases allocation.chain with ⟨_, nothing⟩ | chain
    · rw [nothing] at member
      exact List.not_mem_nil member
    · apply chain.next_ne_zero member
      rw [same, allocation.grown.free cell member]
  · intro safe
    constructor
    · intro first' after' succeeded
      obtain ⟨ok, rfl, rfl⟩ := Prod.mk.inj (returned.symm.trans succeeded) |>.imp id Prod.mk.inj
      have enough := of_decide_eq_true ok
      rcases allocation.chain with ⟨_, nothing⟩ | chain
      · have length := allocation.length
        rw [nothing, List.length_nil] at length
        omega
      · refine ⟨added, chain, ?_, chain.nodup, fun cell member => ?_, kept⟩
        · rw [allocation.length, Nat.min_eq_left enough]
        · exact ⟨allocation.grown.isCluster cell member, allocation.grown.free cell member⟩
    · intro first' after' failed
      obtain ⟨ok, rfl, rfl⟩ := Prod.mk.inj (returned.symm.trans failed) |>.imp id Prod.mk.inj
      have tooMany := of_decide_eq_false ok
      have none : added = [] := by
        rw [← List.length_eq_zero_iff, allocation.length]
        omega
      exact kept.mono (by simp [none])

/-- The small volume has one cluster for one. -/
theorem fat32AllocateClusterChain_correct_iff_small :
    1 ≤ freeClusterCount smallVolume ∧ AllocatesChain smallVolume 1 := by
  have enough : 1 ≤ freeClusterCount smallVolume := by decide +kernel
  refine ⟨enough, (fat32AllocateClusterChain_correct_iff smallVolume 1 ?_ ?_ le_rfl).mpr (.inl enough)⟩
  · rw [smallVolume_bpb]
    exact smallBpb_geometry
  · decide +kernel

/-- Asked for two it fails and keeps the one. -/
theorem fat32AllocateClusterChain_leaks :
    Geometry smallVolume.bpb ∧ 2 ≤ smallVolume.freeClusterNo ∧ ¬ AllocatesChain smallVolume 2 := by
  have failed : (fat32AllocateClusterChain smallVolume 2).1 = false := by decide +kernel
  have leaked : copyEntry (fat32AllocateClusterChain smallVolume 2).2.2 0 3 ≠ copyEntry smallVolume 0 3 := by
    decide +kernel
  refine ⟨by rw [smallVolume_bpb]; exact smallBpb_geometry, by decide +kernel, fun owed => leaked ?_⟩
  have kept := owed.failure (fat32AllocateClusterChain smallVolume 2).2.1
    (fat32AllocateClusterChain smallVolume 2).2.2 (Prod.ext failed rfl)
  exact kept.entry 3 (by decide +kernel) (Set.notMem_empty _)

end Calls

/-! ## Writing a buffer to a new chain -/

/-- The loop of `fat32_write_cluster_chain`. -/
def writeChainLoop (buf : List UInt8) : Nat → Volume → Nat → Nat → Nat → Option ChainProgress
  | 0, _, _, _, _ => none
  | fuel + 1, vol, written, firstCluster, prevCluster =>
      if written < buf.length then
        match fat32AllocateCluster vol with
        | (none, vol) => some ⟨false, firstCluster, prevCluster, vol⟩
        | (some currCluster, vol) =>
            let clusterSize := getClusterSizeBytes vol.bpb
            let vol := if prevCluster ≠ 0 then (fat32SetNextCluster vol prevCluster currCluster).2 else vol
            let firstCluster := if prevCluster ≠ 0 then firstCluster else currCluster
            let toWrite := if clusterSize < buf.length - written then clusterSize else buf.length - written
            let temp :=
              if toWrite = clusterSize then slice buf written clusterSize
              else overwrite (List.replicate clusterSize 0) 0 (slice buf written toWrite)
            writeChainLoop buf fuel (fat32WriteCluster vol currCluster temp) (written + toWrite) firstCluster
              currCluster
      else some ⟨true, firstCluster, prevCluster, vol⟩

/-- `fat32_write_cluster_chain`: success, `*first_cluster` and the volume. -/
def fat32WriteClusterChain (vol : Volume) (buf : List UInt8) (firstCluster : Nat) :
    Option (Bool × Nat × Volume) :=
  (writeChainLoop buf (buf.length + 1) vol 0 firstCluster 0).map fun progress =>
    if progress.ok then
      (true, progress.firstCluster,
        (fat32SetNextCluster progress.vol progress.prevCluster clusterEndOfChain).2)
    else (false, progress.firstCluster, progress.vol)

/-- The loop of `fat32_read_cluster_chain`. -/
def readChainLoop (vol : Volume) (maxBytes : Nat) : Nat → List UInt8 → Nat → Nat → Option (Bool × List UInt8)
  | 0, _, _, _ => none
  | fuel + 1, buf, bytesRead, current =>
      if isValidCluster current then
        let bytesAfter := u32 (bytesRead + getClusterSizeBytes vol.bpb)
        if maxBytes < bytesAfter then some (false, buf)
        else
          let buf := overwrite buf bytesRead (fat32ReadCluster vol current)
          let next := fat32GetNextCluster vol current
          if isEndOfClusterChain next then some (true, buf)
          else readChainLoop vol maxBytes fuel buf bytesAfter next
      else some (true, buf)

/-- `fat32_read_cluster_chain`: success, and the buffer afterwards. A bad start is only
reported. -/
def fat32ReadClusterChain (vol : Volume) (startCluster : Nat) (buf : List UInt8) (maxBytes : Nat) :
    Option (Bool × List UInt8) :=
  readChainLoop vol maxBytes (chainFuel + 1) buf 0 startCluster

/-- A buffer padded with zeroes to whole clusters. -/
def paddedToClusters (bpb : Bpb) (data : List UInt8) : List UInt8 :=
  data ++ List.replicate (clustersFor bpb data.length * getClusterSizeBytes bpb - data.length) 0

section Padding

variable {bpb : Bpb}

theorem clustersFor_step {bytes : Nat} (positive : 0 < getClusterSizeBytes bpb) (more : 0 < bytes) :
    clustersFor bpb bytes = clustersFor bpb (bytes - getClusterSizeBytes bpb) + 1 := by
  have shifted : bytes + getClusterSizeBytes bpb - 1 = bytes - 1 + getClusterSizeBytes bpb := by omega
  rw [clustersFor, clustersFor, shifted, Nat.add_div_right _ positive]
  congr 1
  rcases Nat.lt_or_ge bytes (getClusterSizeBytes bpb) with short | long
  · rw [Nat.div_eq_of_lt (by omega), Nat.div_eq_of_lt (by omega)]
  · congr 1
    omega

theorem clustersFor_zero (positive : 0 < getClusterSizeBytes bpb) : clustersFor bpb 0 = 0 := by
  rw [clustersFor, Nat.div_eq_of_lt (by omega)]

theorem paddedToClusters_nil (positive : 0 < getClusterSizeBytes bpb) : paddedToClusters bpb [] = [] := by
  rw [paddedToClusters, List.length_nil, clustersFor_zero positive, Nat.zero_mul]
  rfl

/-- The first cluster of a padded buffer, and the rest. -/
theorem paddedToClusters_step {data : List UInt8} (positive : 0 < getClusterSizeBytes bpb)
    (more : 0 < data.length) :
    paddedToClusters bpb data = data.take (getClusterSizeBytes bpb) ++
      List.replicate (getClusterSizeBytes bpb - data.length) 0 ++
        paddedToClusters bpb (data.drop (getClusterSizeBytes bpb)) := by
  have step := clustersFor_step positive more
  unfold paddedToClusters
  rw [step, List.length_drop, Nat.succ_mul]
  rcases Nat.lt_or_ge (getClusterSizeBytes bpb) data.length with long | short
  · have full : getClusterSizeBytes bpb - data.length = 0 := by omega
    rw [full, List.replicate_zero, List.append_nil, ← List.append_assoc, List.take_append_drop]
    congr 2
    omega
  · have none : data.length - getClusterSizeBytes bpb = 0 := by omega
    rw [none, clustersFor_zero positive, List.take_of_length_le short, List.drop_of_length_le short]
    simp

theorem length_paddedToClusters {data : List UInt8} (positive : 0 < getClusterSizeBytes bpb) :
    (paddedToClusters bpb data).length = clustersFor bpb data.length * getClusterSizeBytes bpb := by
  have enough : data.length ≤ clustersFor bpb data.length * getClusterSizeBytes bpb := by
    have bound := Nat.lt_succ_self (clustersFor bpb data.length)
    conv_lhs at bound => rw [clustersFor]
    rw [Nat.div_lt_iff_lt_mul positive, Nat.succ_mul] at bound
    omega
  rw [paddedToClusters, List.length_append, List.length_replicate]
  omega

end Padding

section Writing

variable {vol : Volume} {cluster : Nat}

/-- The contents of one cluster replaced. -/
theorem grown_putCluster {cells buffer : List _} (geometry : Geometry vol.bpb) (hint : 2 ≤ vol.freeClusterNo)
    (inRange : IsCluster vol.bpb cluster) (full : buffer.length = getClusterSizeBytes vol.bpb) :
    Grown vol (fat32WriteCluster vol cluster buffer) cells [] {cluster} ∧
      fat32ReadCluster (fat32WriteCluster vol cluster buffer) cluster = buffer ∧
      ∀ start chained, ClusterChain vol start chained →
        ClusterChain (fat32WriteCluster vol cluster buffer) start chained := by
  have same := sameExcept_writeCluster buffer geometry inRange
  refine ⟨⟨same.mono (Set.empty_subset _) subset_rfl, by simp, by simp, ?_⟩, ?_, fun start chained chain => ?_⟩
  · exact (freeClusterCount_writeCluster buffer geometry hint inRange).symm
  · apply fat32ReadCluster_write_self geometry.toLayout inRange
    rw [full, geometry.getClusterSizeBytes_eq]
  · exact chain.congr same fun _ _ => Set.notMem_empty _

/-- What a round of the loop writes: the next bytes of the buffer, padded at its end. -/
def nextChunk (bpb : Bpb) (buf : List UInt8) (written : Nat) : List UInt8 :=
  (buf.drop written).take (getClusterSizeBytes bpb) ++
    List.replicate (getClusterSizeBytes bpb - (buf.length - written)) 0

theorem length_nextChunk (bpb : Bpb) (buf : List UInt8) (written : Nat) :
    (nextChunk bpb buf written).length = getClusterSizeBytes bpb := by
  rw [nextChunk, List.length_append, List.length_take, List.length_drop, List.length_replicate]
  omega

/-- The rest of a padded buffer is its next chunk and what is left then. -/
theorem paddedToClusters_drop {bpb : Bpb} {buf : List UInt8} {written : Nat}
    (positive : 0 < getClusterSizeBytes bpb) (more : written < buf.length) :
    paddedToClusters bpb (buf.drop written) = nextChunk bpb buf written ++
      paddedToClusters bpb (buf.drop (written + min (getClusterSizeBytes bpb) (buf.length - written))) := by
  have onward : (buf.drop written).drop (getClusterSizeBytes bpb) =
      buf.drop (written + min (getClusterSizeBytes bpb) (buf.length - written)) := by
    rw [List.drop_drop]
    rcases Nat.lt_or_ge (buf.length - written) (getClusterSizeBytes bpb) with short | long
    · rw [List.drop_of_length_le (by omega), List.drop_of_length_le (by omega)]
    · rw [Nat.min_eq_left long]
  have step := @paddedToClusters_step bpb (buf.drop written) positive (by rw [List.length_drop]; omega)
  rwa [onward, List.length_drop] at step

/-- Clusters filled behind one that has been filled. -/
theorem Grown.after_put {filled after : Volume} {start : Nat} {front added : List Nat}
    (put : Grown vol filled (front ++ [cluster]) [] {cluster})
    (chain : ClusterChain filled start (front ++ [cluster]))
    (filling : Grown filled after (front ++ [cluster]) added {cell | cell ∈ added}) :
    Grown vol after (front ++ [cluster]) added {cell | cell ∈ cluster :: added} ∧
      chainBytes after (cluster :: added) = fat32ReadCluster filled cluster ++ chainBytes after added := by
  have member : cluster ∈ front ++ [cluster] := by simp
  constructor
  · have put' : Grown vol filled (front ++ [cluster]) [] {cell | cell ∈ cluster :: added} :=
      put.mono (fun _ member => member) (by simp)
    apply put'.after_write chain
    exact filling.mono (fun _ member => member) fun cell later => List.mem_cons_of_mem _ later
  · have untouched : cluster ∉ added := fun again =>
      chain.next_ne_zero member (filling.free cluster again)
    rw [chainBytes_cons, filling.same.bytes cluster (chain.isCluster cluster member) untouched]

/-- A round of the loop once its cluster is allocated. -/
theorem writeChainLoop_round {buf : List UInt8} {fuel written first prev : Nat} {middle : Volume}
    (more : written < buf.length) (found : fat32AllocateCluster vol = (some cluster, middle))
    (bpb : middle.bpb = vol.bpb) :
    writeChainLoop buf (fuel + 1) vol written first prev =
      writeChainLoop buf fuel
        (fat32WriteCluster (if prev ≠ 0 then (fat32SetNextCluster middle prev cluster).2 else middle) cluster
          (nextChunk vol.bpb buf written))
        (written + min (getClusterSizeBytes vol.bpb) (buf.length - written))
        (if prev ≠ 0 then first else cluster) cluster := by
  have toWrite : (if getClusterSizeBytes vol.bpb < buf.length - written then getClusterSizeBytes vol.bpb
      else buf.length - written) = min (getClusterSizeBytes vol.bpb) (buf.length - written) := by
    split_ifs <;> omega
  rw [writeChainLoop, if_pos more, found]
  dsimp only
  rw [bpb, toWrite]
  congr 2
  rcases Nat.lt_or_ge (buf.length - written) (getClusterSizeBytes vol.bpb) with short | long
  · have all : slice buf written (buf.length - written) = buf.drop written := by
      rw [slice, List.take_of_length_le (by rw [List.length_drop])]
    rw [Nat.min_eq_right (by omega), if_neg (by omega), all, nextChunk,
      List.take_of_length_le (by rw [List.length_drop]; omega), overwrite, List.take_zero, List.nil_append,
      List.drop_replicate, List.length_drop, Nat.zero_add]
  · have none : getClusterSizeBytes vol.bpb - (buf.length - written) = 0 := by omega
    rw [Nat.min_eq_left long, if_pos rfl, nextChunk, none, List.replicate_zero, List.append_nil, slice]

/-- The loop behind a chain: with enough free clusters the rest of the buffer goes, padded,
into clusters hung behind the chain. -/
theorem writeChainLoop_eq {buf : List UInt8} {fuel written start prev : Nat} {front : List Nat}
    (geometry : Geometry vol.bpb) (hint : 2 ≤ vol.freeClusterNo)
    (chain : ClusterChain vol start (front ++ [prev])) (bounded : written ≤ buf.length)
    (enough : buf.length - written < fuel)
    (available : clustersFor vol.bpb (buf.length - written) ≤ freeClusterCount vol) :
    ∃ added front' last after,
      writeChainLoop buf fuel vol written start prev = some ⟨true, start, last, after⟩ ∧
      front ++ [prev] ++ added = front' ++ [last] ∧
      Grown vol after (front ++ [prev]) added {cell | cell ∈ added} ∧
      ClusterChain after start (front' ++ [last]) ∧
      chainBytes after added = paddedToClusters vol.bpb (buf.drop written) := by
  have positive := geometry.clusterSize_pos
  induction fuel generalizing vol written front prev with
  | zero => omega
  | succ fuel ih =>
      by_cases finished : buf.length ≤ written
      · rw [writeChainLoop, if_neg (by omega)]
        refine ⟨[], front, prev, vol, rfl, by rw [List.append_nil], .refl vol _ _, chain, ?_⟩
        rw [List.drop_of_length_le finished, chainBytes_nil, paddedToClusters_nil positive]
      have more : written < buf.length := by omega
      have nonnull : prev ≠ 0 := by
        have lower := (chain.isCluster prev (by simp)).1
        omega
      have rest : buf.length - written - getClusterSizeBytes vol.bpb =
          buf.length - (written + min (getClusterSizeBytes vol.bpb) (buf.length - written)) := by omega
      have step := clustersFor_step positive (show 0 < buf.length - written by omega)
      rcases fat32AllocateCluster_cases geometry hint with ⟨_, exhausted⟩ |
          ⟨cluster, middle, found, allocated⟩
      · rw [exhausted.freeClusterCount_eq] at available
        omega
      obtain ⟨linked, stored, appended⟩ := allocated.link geometry chain
      obtain ⟨grown, longer⟩ := appended.grown_concat geometry chain
      have geometry' : Geometry linked.bpb := by rwa [appended.same.bpb]
      have hint' : 2 ≤ linked.freeClusterNo := hint.trans appended.same.hint
      have inRange : IsCluster linked.bpb cluster := longer.isCluster cluster (by simp)
      have full : (nextChunk vol.bpb buf written).length = getClusterSizeBytes linked.bpb := by
        rw [length_nextChunk, appended.same.bpb]
      obtain ⟨put, reads, chains⟩ := @grown_putCluster linked cluster (front ++ [prev] ++ [cluster])
        (nextChunk vol.bpb buf written) geometry' hint' inRange full
      have round := @writeChainLoop_round vol cluster buf fuel written start prev middle more found
        allocated.same.bpb
      rw [if_pos nonnull, if_pos nonnull, stored] at round
      dsimp only at round
      generalize fat32WriteCluster linked cluster (nextChunk vol.bpb buf written) = filled at put reads chains round
      have filledChain := chains start _ longer
      have bpb : filled.bpb = vol.bpb := put.same.bpb.trans appended.same.bpb
      have joined := grown.count
      have unchanged := put.count
      rw [List.length_singleton] at joined
      rw [List.length_nil, Nat.add_zero] at unchanged
      obtain ⟨added, front', last, after, looped, shape, filling, whole, bytes⟩ :=
        ih (show Geometry filled.bpb by rwa [bpb]) (hint'.trans put.same.hint) filledChain
          (show written + min (getClusterSizeBytes vol.bpb) (buf.length - written) ≤ buf.length by omega)
          (by omega) (by rw [bpb, ← rest]; omega) (by rwa [bpb])
      obtain ⟨onward, behind⟩ := put.after_put filledChain filling
      have total := (grown.mono (fun _ member => member) (Set.empty_subset _)).trans onward fun cell member =>
        longer.next_ne_zero member
      refine ⟨cluster :: added, front', last, after, round.trans looped, ?_, total, whole, ?_⟩
      · rw [← shape, List.append_assoc _ [cluster], List.singleton_append]
      · rw [behind, reads, bytes, bpb, paddedToClusters_drop positive more]

/-- A buffer written to a new chain: its clusters were free and hold the buffer, padded. -/
theorem fat32WriteClusterChain_eq {buf : List UInt8} (firstCluster : Nat) (geometry : Geometry vol.bpb)
    (hint : 2 ≤ vol.freeClusterNo) (nonempty : buf ≠ [])
    (available : clustersFor vol.bpb buf.length ≤ freeClusterCount vol) :
    ∃ first after cells, fat32WriteClusterChain vol buf firstCluster = some (true, first, after) ∧
      ClusterChain after first cells ∧ Grown vol after [] cells {cell | cell ∈ cells} ∧
      chainBytes after cells = paddedToClusters vol.bpb buf := by
  have positive := geometry.clusterSize_pos
  have more : 0 < buf.length := List.length_pos_of_ne_nil nonempty
  have step := clustersFor_step positive more
  rcases fat32AllocateCluster_cases geometry hint with ⟨_, exhausted⟩ |
      ⟨cluster, middle, found, allocated⟩
  · rw [exhausted.freeClusterCount_eq] at available
    omega
  have geometry' : Geometry middle.bpb := by rwa [allocated.same.bpb]
  have hint' : 2 ≤ middle.freeClusterNo := hint.trans allocated.same.hint
  have inRange : IsCluster middle.bpb cluster := allocated.chain.start_isCluster
  have full : (nextChunk vol.bpb buf 0).length = getClusterSizeBytes middle.bpb := by
    rw [length_nextChunk, allocated.same.bpb]
  obtain ⟨put, reads, chains⟩ := @grown_putCluster middle cluster [cluster] (nextChunk vol.bpb buf 0)
    geometry' hint' inRange full
  have round := @writeChainLoop_round vol cluster buf buf.length 0 firstCluster 0 middle more found
    allocated.same.bpb
  rw [if_neg (by decide), if_neg (by decide), Nat.zero_add, Nat.sub_zero] at round
  generalize fat32WriteCluster middle cluster (nextChunk vol.bpb buf 0) = filled at put reads chains round
  have filledChain : ClusterChain filled cluster ([] ++ [cluster]) := chains _ _ allocated.chain
  have bpb : filled.bpb = vol.bpb := put.same.bpb.trans allocated.same.bpb
  have geometry'' : Geometry filled.bpb := by rwa [bpb]
  have joined := allocated.freeClusterCount_eq
  have unchanged := put.count
  rw [List.length_nil, Nat.add_zero] at unchanged
  have rest : buf.length - min (getClusterSizeBytes vol.bpb) buf.length =
      buf.length - getClusterSizeBytes vol.bpb := by omega
  obtain ⟨added, front, last, after, looped, shape, filling, whole, bytes⟩ :=
    @writeChainLoop_eq filled buf buf.length (min (getClusterSizeBytes vol.bpb) buf.length) cluster cluster []
      geometry'' (hint'.trans put.same.hint) filledChain (by omega) (by omega) (by rw [bpb, rest]; omega)
  obtain ⟨onward, behind⟩ := @Grown.after_put middle cluster filled after cluster [] added put filledChain filling
  have total := (allocated.grown.mono (fun _ member => member) (Set.empty_subset _)).trans onward fun cell member =>
    allocated.chain.next_ne_zero member
  have contents := paddedToClusters_drop positive more
  rw [List.drop_zero, Nat.zero_add, Nat.sub_zero] at contents
  -- The last store finds an end mark and writes it again.
  have geometryEnd : Geometry after.bpb := by rwa [filling.same.bpb]
  obtain ⟨marked, remains⟩ := markEnd_grown geometryEnd
    ((hint'.trans put.same.hint).trans filling.same.hint) whole
  have cells : [cluster] ++ added = front ++ [last] := shape
  rw [← cells] at marked remains whole
  have final := total.trans (marked.mono (fun _ member => member) (Set.empty_subset _)) fun cell member =>
    whole.next_ne_zero member
  rw [List.append_nil] at final
  refine ⟨cluster, _, [cluster] ++ added, ?_, remains, final, ?_⟩
  · rw [fat32WriteClusterChain, round, looped]
    rfl
  · rw [chainBytes_congr marked.same whole.isCluster (fun _ _ => Set.notMem_empty _), List.singleton_append,
      behind, reads, bytes, bpb, contents]

/-- Reading a chain into a buffer with room for it copies its clusters end to end. -/
theorem readChainLoop_eq {maxBytes fuel bytesRead start : Nat} {buf : List UInt8} {cells : List Nat}
    (geometry : Geometry vol.bpb) (chain : ClusterChain vol start cells) (enough : cells.length < fuel)
    (bounded : maxBytes < 4294967296) (sized : buf.length = maxBytes)
    (room : bytesRead + cells.length * getClusterSizeBytes vol.bpb ≤ maxBytes) :
    readChainLoop vol maxBytes fuel buf bytesRead start =
      some (true, overwrite buf bytesRead (chainBytes vol cells)) := by
  induction cells generalizing fuel start bytesRead buf with
  | nil => exact absurd rfl chain.linked.ne_nil
  | cons head tail ih =>
      obtain ⟨fuel, rfl⟩ := Nat.exists_eq_succ_of_ne_zero (Nat.ne_of_gt (Nat.zero_lt_of_lt enough))
      obtain ⟨_, shape⟩ := chain.linked.eq_cons
      obtain rfl : head = start := (List.cons.inj shape).1
      have valid := geometry.fatArea.isValidCluster_of_isCluster chain.start_isCluster
      have length := length_readCluster geometry head
      rw [List.length_cons, Nat.succ_mul] at room
      have advance : u32 (bytesRead + getClusterSizeBytes vol.bpb) =
          bytesRead + getClusterSizeBytes vol.bpb := u32_of_lt (by omega)
      rw [readChainLoop, if_pos valid]
      dsimp only
      rw [advance, if_neg (by omega)]
      by_cases last : tail = []
      · subst last
        rw [if_pos chain.linked.stop_of_singleton.2, chainBytes_cons, chainBytes_nil, List.append_nil]
      · obtain ⟨_, continues, linked⟩ := chain.linked.tail_of_ne_nil last
        have tailChain : ClusterChain vol (fat32GetNextCluster vol head) tail :=
          ⟨linked, fun cell member => chain.isCluster cell (List.mem_cons_of_mem _ member)⟩
        have sized' : (overwrite buf bytesRead (fat32ReadCluster vol head)).length = maxBytes := by
          rw [length_overwrite (by omega), sized]
        rw [if_neg continues, ih tailChain (Nat.lt_of_succ_lt_succ enough) sized' (by omega), chainBytes_cons,
          ← length, overwrite_overwrite_append (by omega)]

/-- Writing a buffer to a new chain and reading the chain delivers the buffer, padded with
zeroes to whole clusters, and no cluster that was in use has changed. -/
theorem fat32WriteClusterChain_read (vol : Volume) (data buf : List UInt8) (maxBytes firstCluster : Nat)
    (geometry : Geometry vol.bpb) (hint : 2 ≤ vol.freeClusterNo) (nonempty : data ≠ [])
    (available : clustersFor vol.bpb data.length ≤ freeClusterCount vol)
    (room : clustersFor vol.bpb data.length * getClusterSizeBytes vol.bpb ≤ maxBytes)
    (bounded : maxBytes < 4294967296) (sized : buf.length = maxBytes) :
    ∃ first after, fat32WriteClusterChain vol data firstCluster = some (true, first, after) ∧
      fat32ReadClusterChain after first buf maxBytes =
        some (true, paddedToClusters vol.bpb data ++
          buf.drop (clustersFor vol.bpb data.length * getClusterSizeBytes vol.bpb)) ∧
      ∀ cluster, IsCluster vol.bpb cluster → fat32GetNextCluster vol cluster ≠ 0 →
        fat32GetNextCluster after cluster = fat32GetNextCluster vol cluster ∧
          fat32ReadCluster after cluster = fat32ReadCluster vol cluster := by
  have positive := geometry.clusterSize_pos
  obtain ⟨first, after, cells, written, chain, grown, bytes⟩ :=
    fat32WriteClusterChain_eq firstCluster geometry hint nonempty available
  have bpb := grown.same.bpb
  have geometry' : Geometry after.bpb := by rwa [bpb]
  have length := length_chainBytes geometry' cells
  rw [bytes, length_paddedToClusters positive, bpb] at length
  have numbers := geometry'.clusterNumbers
  have short := chain.length_le
  have enough : cells.length < chainFuel + 1 := by
    simp only [chainFuel]
    omega
  refine ⟨first, after, written, ?_, fun cluster inRange used => ?_⟩
  · have reads := @readChainLoop_eq after maxBytes (chainFuel + 1) 0 first buf cells geometry' chain enough
      bounded sized (by rw [bpb, ← length]; omega)
    rw [fat32ReadClusterChain, reads, bytes, overwrite, length_paddedToClusters positive]
    simp
  · have untouched : cluster ∉ cells := fun member => used (grown.free cluster member)
    exact ⟨grown.same.next cluster inRange (by simpa using untouched),
      grown.same.bytes cluster inRange untouched⟩

/-- Three bytes written to the small volume and read into a buffer of one cluster. -/
theorem fat32WriteClusterChain_read_small :
    ∃ first after, fat32WriteClusterChain smallVolume [7, 8, 9] 0 = some (true, first, after) ∧
      fat32ReadClusterChain after first (List.replicate 512 1) 512 =
        some (true, [7, 8, 9] ++ List.replicate 509 0) := by
  have geometry : Geometry smallVolume.bpb := by
    rw [smallVolume_bpb]
    exact smallBpb_geometry
  have needed : clustersFor smallVolume.bpb ([7, 8, 9] : List UInt8).length = 1 := by decide +kernel
  have size : getClusterSizeBytes smallVolume.bpb = 512 := by decide +kernel
  have one : 1 ≤ freeClusterCount smallVolume := by decide +kernel
  obtain ⟨first, after, written, reads, _⟩ := fat32WriteClusterChain_read smallVolume [7, 8, 9]
    (List.replicate 512 1) 512 0 geometry (by decide +kernel) (by decide) (by rwa [needed])
    (by rw [needed, size]) (by decide) List.length_replicate
  refine ⟨first, after, written, ?_⟩
  have padding : 1 * 512 - ([7, 8, 9] : List UInt8).length = 509 := by decide
  have whole : (List.replicate 512 1 : List UInt8).length ≤ 1 * 512 := by
    rw [List.length_replicate]
  rw [reads, paddedToClusters, needed, size, padding, List.drop_of_length_le whole, List.append_nil]

end Writing

end KeblaOS.Fat32
