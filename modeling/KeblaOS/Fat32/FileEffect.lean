import KeblaOS.Fat32.File

/-!
# What the file operations read and write

`chainBytes` lays the clusters of a chain end to end. Walking and reading are
described as positions in that byte string; writing grows the chain (`Grown`) and
overwrites a range of it. The loops are followed cell by cell along the chain, so
every induction below is on the list of cells or on the bytes left to copy.
-/

namespace KeblaOS.Fat32

open KeblaOS.Buffer

/-- The bytes of a chain's clusters, end to end. -/
def chainBytes (vol : Volume) (cells : List Nat) : List UInt8 :=
  cells.flatMap (fat32ReadCluster vol)

@[simp] theorem chainBytes_nil (vol : Volume) : chainBytes vol [] = [] := rfl

@[simp] theorem chainBytes_cons (vol : Volume) (cell : Nat) (cells : List Nat) :
    chainBytes vol (cell :: cells) = fat32ReadCluster vol cell ++ chainBytes vol cells := by
  simp [chainBytes]

@[simp] theorem chainBytes_append (vol : Volume) (front back : List Nat) :
    chainBytes vol (front ++ back) = chainBytes vol front ++ chainBytes vol back := by
  simp [chainBytes]

/-- Contents of a chain none of whose clusters was written. -/
theorem chainBytes_congr {before after : Volume} {entries data : Set Nat} {cells : List Nat}
    (same : before.SameExcept after entries data) (inRange : ∀ cell ∈ cells, IsCluster before.bpb cell)
    (apart : ∀ cell ∈ cells, cell ∉ data) : chainBytes after cells = chainBytes before cells := by
  unfold chainBytes
  exact List.flatMap_congr fun cell member => same.bytes cell (inRange cell member) (apart cell member)

section Geometry

variable {vol : Volume} (geometry : Geometry vol.bpb)
include geometry

theorem length_readCluster (cell : Nat) :
    (fat32ReadCluster vol cell).length = getClusterSizeBytes vol.bpb := by
  rw [length_fat32ReadCluster, geometry.getClusterSizeBytes_eq]

theorem length_chainBytes (cells : List Nat) :
    (chainBytes vol cells).length = cells.length * getClusterSizeBytes vol.bpb := by
  induction cells with
  | nil => simp
  | cons cell rest ih =>
      rw [chainBytes_cons, List.length_append, length_readCluster geometry, ih, List.length_cons,
        Nat.succ_mul, Nat.add_comm]

/-! ## Walking and reading -/

/-- The walk ends for every start: each round consumes one cluster of the offset. -/
theorem walkChain_isSome {fuel offset : Nat} (cluster : Nat) (enough : offset < fuel) :
    ∃ rest stop, walkChain vol fuel offset cluster = some (rest, stop) ∧
      (rest < getClusterSizeBytes vol.bpb ∨ stop = 0) := by
  have positive := geometry.clusterSize_pos
  induction fuel generalizing offset cluster with
  | zero => omega
  | succ fuel ih =>
      rw [walkChain]
      by_cases walking : getClusterSizeBytes vol.bpb ≤ offset ∧ cluster ≠ 0
      · rw [if_pos walking]
        exact ih _ (by omega)
      · rw [if_neg walking]
        exact ⟨offset, cluster, rfl, by omega⟩

/-- Along a chain that reaches the offset the walk finds the cell that holds it. -/
theorem walkChain_eq {fuel offset start : Nat} {cells : List Nat} (chain : ClusterChain vol start cells)
    (enough : offset < fuel) (inside : offset < cells.length * getClusterSizeBytes vol.bpb) :
    ∃ front cell rest, cells = front ++ cell :: rest ∧
      walkChain vol fuel offset start = some (offset % getClusterSizeBytes vol.bpb, cell) ∧
      offset = front.length * getClusterSizeBytes vol.bpb + offset % getClusterSizeBytes vol.bpb := by
  have positive := geometry.clusterSize_pos
  induction cells generalizing fuel offset start with
  | nil => simp at inside
  | cons head tail ih =>
      obtain ⟨fuel, rfl⟩ := Nat.exists_eq_succ_of_ne_zero (Nat.ne_of_gt (Nat.zero_lt_of_lt enough))
      obtain ⟨_, shape⟩ := chain.linked.eq_cons
      obtain rfl : head = start := (List.cons.inj shape).1
      rw [Nat.succ_eq_add_one, walkChain]
      by_cases here : offset < getClusterSizeBytes vol.bpb
      · rw [if_neg (by omega)]
        exact ⟨[], head, tail, rfl, by rw [Nat.mod_eq_of_lt here], by rw [Nat.mod_eq_of_lt here]; simp⟩
      · rw [if_pos ⟨by omega, chain.start_ne_zero⟩]
        rw [List.length_cons, Nat.succ_mul] at inside
        have more : tail ≠ [] := by
          rintro rfl
          simp only [List.length_nil, Nat.zero_mul] at inside
          omega
        obtain ⟨_, _, tailLinked⟩ := chain.linked.tail_of_ne_nil more
        have tailChain : ClusterChain vol (fat32GetNextCluster vol head) tail :=
          ⟨tailLinked, fun cell member => chain.isCluster cell (List.mem_cons_of_mem _ member)⟩
        obtain ⟨front, cell, rest, split, found, position⟩ :=
          ih tailChain (show offset - getClusterSizeBytes vol.bpb < fuel by omega) (by omega)
        have reduced : (offset - getClusterSizeBytes vol.bpb) % getClusterSizeBytes vol.bpb =
            offset % getClusterSizeBytes vol.bpb := (Nat.mod_eq_sub_mod (by omega)).symm
        rw [reduced] at found position
        refine ⟨head :: front, cell, rest, by rw [split, List.cons_append], found, ?_⟩
        rw [List.length_cons, Nat.succ_mul]
        omega

/-- Reading ends for every start: each round copies at least one byte. -/
theorem readLoop_isSome {btr fuel offset : Nat} {out : List UInt8} (cluster : Nat)
    (enough : btr - out.length < fuel) (inside : offset < getClusterSizeBytes vol.bpb ∨ cluster = 0) :
    ∃ bytes, readLoop vol btr fuel out offset cluster = some bytes := by
  have positive := geometry.clusterSize_pos
  induction fuel generalizing out offset cluster with
  | zero => omega
  | succ fuel ih =>
      rw [readLoop]
      by_cases copying : out.length < btr ∧ cluster ≠ 0
      · rw [if_pos copying]
        refine ih _ ?_ (.inl positive)
        rw [List.length_append, length_slice, length_readCluster geometry]
        omega
      · rw [if_neg copying]
        exact ⟨out, rfl⟩

/-- Along a chain that holds enough bytes the loop appends exactly the bytes wanted. -/
theorem readLoop_eq {btr fuel offset start : Nat} {out : List UInt8} {cells : List Nat}
    (chain : ClusterChain vol start cells) (enough : btr - out.length < fuel)
    (inside : offset < getClusterSizeBytes vol.bpb)
    (available : offset + (btr - out.length) ≤ cells.length * getClusterSizeBytes vol.bpb) :
    readLoop vol btr fuel out offset start =
      some (out ++ slice (chainBytes vol cells) offset (btr - out.length)) := by
  have positive := geometry.clusterSize_pos
  induction cells generalizing fuel offset start out with
  | nil => exact absurd rfl chain.linked.ne_nil
  | cons head tail ih =>
      obtain ⟨fuel, rfl⟩ := Nat.exists_eq_succ_of_ne_zero (Nat.ne_of_gt (Nat.zero_lt_of_lt enough))
      obtain ⟨_, shape⟩ := chain.linked.eq_cons
      obtain rfl : head = start := (List.cons.inj shape).1
      have length := length_readCluster geometry head
      rw [Nat.succ_eq_add_one, readLoop]
      by_cases finished : btr ≤ out.length
      · have none : btr - out.length = 0 := by omega
        rw [if_neg (by omega), none]
        simp [slice]
      · rw [if_pos ⟨by omega, chain.start_ne_zero⟩]
        dsimp only
        by_cases last : btr - out.length ≤ getClusterSizeBytes vol.bpb - offset
        · -- The head cluster holds all that is left.
          rw [Nat.min_eq_right last]
          have stop : readLoop vol btr fuel (out ++ slice (fat32ReadCluster vol head) offset
              (btr - out.length)) 0 (fat32GetNextCluster vol head) =
                some (out ++ slice (fat32ReadCluster vol head) offset (btr - out.length)) := by
            obtain ⟨fuel, rfl⟩ : ∃ more, fuel = more + 1 := ⟨fuel - 1, by omega⟩
            rw [readLoop, if_neg]
            rw [List.length_append, length_slice_of_le (by omega)]
            omega
          rw [stop, chainBytes_cons, slice, slice, List.drop_append_of_le_length (by omega),
            List.take_append_of_le_length (by rw [List.length_drop]; omega)]
        · rw [Nat.min_eq_left (by omega)]
          rw [List.length_cons, Nat.succ_mul] at available
          have more : tail ≠ [] := by
            rintro rfl
            simp only [List.length_nil, Nat.zero_mul] at available
            omega
          obtain ⟨_, _, tailLinked⟩ := chain.linked.tail_of_ne_nil more
          have tailChain : ClusterChain vol (fat32GetNextCluster vol head) tail :=
            ⟨tailLinked, fun cell member => chain.isCluster cell (List.mem_cons_of_mem _ member)⟩
          have copied : (slice (fat32ReadCluster vol head) offset
              (getClusterSizeBytes vol.bpb - offset)).length = getClusterSizeBytes vol.bpb - offset :=
            length_slice_of_le (by omega)
          have left : btr - (out ++ slice (fat32ReadCluster vol head) offset
              (getClusterSizeBytes vol.bpb - offset)).length =
                btr - out.length - (getClusterSizeBytes vol.bpb - offset) := by
            rw [List.length_append, copied]
            omega
          rw [ih tailChain (by rw [left]; omega) positive (by rw [left]; omega), left,
            List.append_assoc, chainBytes_cons]
          congr 2
          have whole : slice (fat32ReadCluster vol head) offset (getClusterSizeBytes vol.bpb - offset) =
              (fat32ReadCluster vol head).drop offset := by
            rw [slice, List.take_of_length_le (by rw [List.length_drop]; omega)]
          have front : ((fat32ReadCluster vol head).drop offset).take (btr - out.length) =
              (fat32ReadCluster vol head).drop offset :=
            List.take_of_length_le (by rw [List.length_drop]; omega)
          rw [whole, slice, slice, List.drop_append_of_le_length (by omega), List.drop_zero,
            List.take_append, List.length_drop, length, front]

end Geometry

/-! ## Growing a chain -/

/-- The effect of writing through a chain: the free clusters `added` are taken from
the allocator, and only the FAT entries of the old and new cells and the contents of
`data` change. -/
structure Grown (before after : Volume) (cells added : List Nat) (data : Set Nat) : Prop where
  same : before.SameExcept after {cell | cell ∈ cells ++ added} data
  isCluster : ∀ cell ∈ added, IsCluster before.bpb cell
  free : ∀ cell ∈ added, fat32GetNextCluster before cell = 0
  count : freeClusterCount before = freeClusterCount after + added.length

namespace Grown

variable {before middle after : Volume} {cells added more : List Nat} {data data' : Set Nat}

theorem refl (vol : Volume) (cells : List Nat) (data : Set Nat) : Grown vol vol cells [] data where
  same := .refl vol _ _
  isCluster _ member := absurd member List.not_mem_nil
  free _ member := absurd member List.not_mem_nil
  count := rfl

theorem mono {cells' : List Nat} (grown : Grown before after cells added data)
    (moreCells : ∀ cell ∈ cells, cell ∈ cells') (moreData : data ⊆ data') :
    Grown before after cells' added data' where
  same := by
    refine grown.same.mono (fun cell member => ?_) moreData
    rcases List.mem_append.mp member with old | new
    · exact List.mem_append_left _ (moreCells cell old)
    · exact List.mem_append_right _ new
  isCluster := grown.isCluster
  free := grown.free
  count := grown.count

/-- The clusters touched belong to no chain that does not meet the grown one. -/
theorem apart {start : Nat} {others : List Nat} (grown : Grown before after cells added data)
    (owned : OwnedChain before start others) (disjoint : ∀ cell ∈ others, cell ∉ cells) :
    ∀ cell ∈ others, cell ∉ cells ++ added := by
  intro cell member touched
  rcases List.mem_append.mp touched with old | new
  · exact disjoint cell member old
  · exact owned.next_ne_zero member (grown.free cell new)

/-- Clusters taken later were free from the beginning, because the cells the first
part touched are occupied after it. -/
theorem trans (first : Grown before middle cells added data)
    (second : Grown middle after (cells ++ added) more data)
    (occupied : ∀ cell ∈ cells ++ added, fat32GetNextCluster middle cell ≠ 0) :
    Grown before after cells (added ++ more) data where
  same := by
    rw [← List.append_assoc]
    refine (first.same.mono (fun cell member => ?_) subset_rfl).trans second.same
    exact List.mem_append_left _ member
  isCluster cell member := by
    rcases List.mem_append.mp member with old | new
    · exact first.isCluster cell old
    · have inRange := second.isCluster cell new
      rwa [first.same.bpb] at inRange
  free cell member := by
    rcases List.mem_append.mp member with old | new
    · exact first.free cell old
    · have inRange := second.isCluster cell new
      rw [first.same.bpb] at inRange
      have untouched : cell ∉ cells ++ added := fun touched =>
        occupied cell touched (second.free cell new)
      rw [← first.same.next cell inRange untouched]
      exact second.free cell new
  count := by
    rw [first.count, second.count, List.length_append]
    omega

end Grown

section Write

variable {vol : Volume} {cluster : Nat} {rest : List Nat}

/-- A successful append seen as the growth of a chain by one cell. -/
theorem Appended.grown {after : Volume} {next : Nat} (appended : Appended vol cluster next after)
    (occupied : fat32GetNextCluster vol cluster ≠ 0) : Grown vol after [cluster] [next] ∅ where
  same := appended.same.mono (fun cell member => by simpa using member) subset_rfl
  isCluster cell member := by
    rw [List.mem_singleton.mp member]
    exact appended.isCluster
  free cell member := by
    rw [List.mem_singleton.mp member]
    exact appended.free
  count := appended.freeClusterCount_eq occupied

/-- Stepping to the next cell of a chain, which appends a cluster behind the last
cell, or fails there on an exhausted volume. -/
theorem nextOrAppend_cases (geometry : Geometry vol.bpb) (hint : 2 ≤ vol.freeClusterNo)
    (chain : ClusterChain vol cluster (cluster :: rest)) :
    (nextOrAppend vol cluster = some (none, vol) ∧ vol.Exhausted ∧ rest = []) ∨
      ∃ next tail added after, nextOrAppend vol cluster = some (some next, after) ∧
        rest ++ added = next :: tail ∧ Grown vol after (cluster :: rest) added ∅ ∧
        ClusterChain after cluster ([cluster] ++ next :: tail) := by
  unfold nextOrAppend
  cases rest with
  | nil =>
      obtain ⟨_, ends⟩ := chain.linked.stop_of_singleton
      have last : 0x0FFFFFF8 ≤ fat32GetNextCluster vol cluster := by
        simpa [isEndOfClusterChain] using ends
      rw [if_pos last]
      have single : ClusterChain vol cluster ([] ++ [cluster]) := chain
      rcases fat32AppendCluster_cases geometry hint single with ⟨failed, exhausted⟩ |
          ⟨next, after, found, appended⟩
      · exact .inl ⟨failed, exhausted, rfl⟩
      · have occupied := chain.next_ne_zero (List.mem_singleton_self cluster)
        have inRange : IsCluster after.bpb cluster := by
          rw [appended.same.bpb]
          exact chain.start_isCluster
        refine .inr ⟨next, [], [next], after, found, rfl, appended.grown occupied, ?_⟩
        exact appended.chain.cons (by rwa [appended.same.bpb]) inRange appended.links
  | cons next tail =>
      obtain ⟨_, continues, linked⟩ := chain.linked.tail_of_ne_nil (List.cons_ne_nil next tail)
      have inner : ¬ 0x0FFFFFF8 ≤ fat32GetNextCluster vol cluster := by
        simpa [isEndOfClusterChain] using continues
      obtain ⟨_, shape⟩ := linked.eq_cons
      obtain rfl := (List.cons.inj shape).1
      rw [if_neg inner]
      refine .inr ⟨_, tail, [], vol, rfl, by rw [List.append_nil], .refl vol _ _, chain⟩

/-- Growth of the back part of a chain does not reach its front part, whose cells are
neither behind themselves nor free. -/
theorem Grown.not_mem {after : Volume} {start cell : Nat} {front cells more : List Nat} {data : Set Nat}
    (grown : Grown vol after cells more data) (chain : ClusterChain vol start (front ++ cells))
    (member : cell ∈ front) : cell ∉ cells ++ more := by
  intro reached
  rcases List.mem_append.mp reached with old | new
  · exact (List.nodup_append.mp chain.nodup).2.2 cell member cell old rfl
  · exact chain.next_ne_zero (List.mem_append_left _ member) (grown.free cell new)

/-- Growth of the back part of a chain grows the chain. -/
theorem Grown.chain_append {after : Volume} {start : Nat} {front more : List Nat} {data : Set Nat}
    (grown : Grown vol after (cluster :: rest) more data)
    (chain : ClusterChain vol start (front ++ cluster :: rest))
    (chain' : ClusterChain after cluster (cluster :: rest ++ more)) :
    ClusterChain after start (front ++ cluster :: rest ++ more) := by
  rw [List.append_assoc]
  refine ⟨chain.linked.replace_tail (fun earlier member => ?_) chain'.linked, fun cell member => ?_⟩
  · exact grown.same.next earlier (chain.isCluster earlier (List.mem_append_left _ member))
      (grown.not_mem chain member)
  · rcases List.mem_append.mp member with old | new
    · rw [grown.same.bpb]
      exact chain.isCluster cell (List.mem_append_left _ old)
    · exact chain'.isCluster cell new

/-- Growth after a change of contents only. -/
theorem Grown.after_write {middle after : Volume} {start : Nat} {cells added : List Nat} {data : Set Nat}
    (written : Grown vol middle cells [] data) (chain : ClusterChain middle start cells)
    (grown : Grown middle after cells added data) : Grown vol after cells added data := by
  have grown' : Grown middle after (cells ++ []) added data := by rwa [List.append_nil]
  refine written.trans grown' ?_
  rw [List.append_nil]
  exact fun cell member => chain.next_ne_zero member

/-- Stepping to the next cell and growing the chain from there is growth of the chain. -/
theorem Grown.after_step {middle after : Volume} {next : Nat} {tail added more : List Nat} {data : Set Nat}
    (shape : rest ++ added = next :: tail) (first : Grown vol middle (cluster :: rest) added data)
    (chain : ClusterChain middle cluster ([cluster] ++ next :: tail))
    (second : Grown middle after (next :: tail) more data)
    (grown : ClusterChain after next (next :: tail ++ more)) :
    Grown vol after (cluster :: rest) (added ++ more) data ∧
      ClusterChain after cluster (cluster :: rest ++ (added ++ more)) := by
  have cells : cluster :: rest ++ added = [cluster] ++ next :: tail := by
    rw [List.cons_append, shape, List.singleton_append]
  constructor
  · refine first.trans (second.mono (fun cell member => ?_) subset_rfl) fun cell member => ?_
    · rw [cells]
      exact List.mem_append_right _ member
    · rw [cells] at member
      exact chain.next_ne_zero member
  · rw [← List.append_assoc, cells]
    exact second.chain_append chain grown

/-- The walk of `f_write` stops at the cell that holds the position, extending a chain
that is too short; it gives up only on an exhausted volume. -/
theorem writeWalk_cases {fuel offset : Nat} (geometry : Geometry vol.bpb)
    (hint : 2 ≤ vol.freeClusterNo) (chain : ClusterChain vol cluster (cluster :: rest))
    (enough : offset < fuel) :
    ∃ outcome after added, writeWalk fuel vol offset cluster = some (outcome, after) ∧
      Grown vol after (cluster :: rest) added ∅ ∧
      ClusterChain after cluster (cluster :: rest ++ added) ∧
      ((outcome = none ∧ after.Exhausted ∧
          (cluster :: rest ++ added).length * getClusterSizeBytes vol.bpb ≤ offset) ∨
        ∃ front cell back, outcome = some (offset % getClusterSizeBytes vol.bpb, cell) ∧
          cluster :: rest ++ added = front ++ cell :: back ∧
          offset = front.length * getClusterSizeBytes vol.bpb +
            offset % getClusterSizeBytes vol.bpb) := by
  have positive := geometry.clusterSize_pos
  induction fuel generalizing vol offset cluster rest with
  | zero => omega
  | succ fuel ih =>
      rw [writeWalk]
      by_cases here : offset < getClusterSizeBytes vol.bpb
      · rw [if_neg (by omega)]
        refine ⟨_, vol, [], rfl, .refl vol _ _, by rwa [List.append_nil], .inr ?_⟩
        rw [Nat.mod_eq_of_lt here]
        exact ⟨[], cluster, rest, rfl, by simp, by simp⟩
      · rw [if_pos ⟨by omega, chain.start_ne_zero⟩]
        rcases nextOrAppend_cases geometry hint chain with ⟨failed, exhausted, rfl⟩ |
            ⟨next, tail, added, middle, found, shape, step, linked⟩
        · rw [failed]
          refine ⟨none, vol, [], rfl, .refl vol _ _, chain, .inl ⟨rfl, exhausted, ?_⟩⟩
          simp only [List.append_nil, List.length_singleton, Nat.one_mul]
          omega
        · rw [found]
          dsimp only
          have bpb := step.same.bpb
          have tailChain : ClusterChain middle next (next :: tail) := linked.drop
          obtain ⟨outcome, after, more, walked, grown, chain', result⟩ :=
            ih (show Geometry middle.bpb by rwa [bpb]) (hint.trans step.same.hint) tailChain
              (show offset - getClusterSizeBytes middle.bpb < fuel by rw [bpb]; omega) (by rwa [bpb])
          obtain ⟨whole, wholeChain⟩ := Grown.after_step shape step linked grown chain'
          refine ⟨outcome, after, added ++ more, walked, whole, wholeChain, ?_⟩
          have cells : cluster :: rest ++ (added ++ more) = cluster :: (next :: tail ++ more) := by
            rw [← List.append_assoc, List.cons_append, shape, List.cons_append]
          rw [cells]
          rw [bpb] at result
          rcases result with ⟨failed, exhausted, full⟩ | ⟨front, cell, back, stopped, split, position⟩
          · refine .inl ⟨failed, exhausted, ?_⟩
            rw [List.length_cons, Nat.succ_mul]
            omega
          · have reduced : (offset - getClusterSizeBytes vol.bpb) % getClusterSizeBytes vol.bpb =
                offset % getClusterSizeBytes vol.bpb := (Nat.mod_eq_sub_mod (by omega)).symm
            rw [reduced] at stopped position
            refine .inr ⟨cluster :: front, cell, back, stopped, by rw [split, List.cons_append], ?_⟩
            rw [List.length_cons, Nat.succ_mul]
            omega

/-- Rewriting a range of a chain's first cluster. -/
theorem grown_writeCluster {offset : Nat} {data : List UInt8} (geometry : Geometry vol.bpb)
    (hint : 2 ≤ vol.freeClusterNo) (chain : ClusterChain vol cluster (cluster :: rest))
    (fits : offset + data.length ≤ getClusterSizeBytes vol.bpb) :
    let after := fat32WriteCluster vol cluster (overwrite (fat32ReadCluster vol cluster) offset data)
    Grown vol after (cluster :: rest) [] {cluster} ∧ ClusterChain after cluster (cluster :: rest) ∧
      fat32ReadCluster after cluster = overwrite (fat32ReadCluster vol cluster) offset data ∧
      chainBytes after rest = chainBytes vol rest := by
  intro after
  have same : vol.SameExcept after ∅ {cluster} :=
    sameExcept_writeCluster _ geometry chain.start_isCluster
  have outside : ∀ cell ∈ rest, cell ∉ ({cluster} : Set Nat) := by
    intro cell member equal
    rw [Set.mem_singleton_iff.mp equal] at member
    exact (List.nodup_cons.mp chain.nodup).1 member
  refine ⟨⟨same.mono (Set.empty_subset _) subset_rfl, by simp, by simp, ?_⟩,
    chain.congr same fun _ _ => Set.notMem_empty _, ?_, ?_⟩
  · exact (freeClusterCount_writeCluster _ geometry hint chain.start_isCluster).symm
  · refine fat32ReadCluster_write_self geometry.toLayout chain.start_isCluster ?_
    have length := length_readCluster geometry cluster
    rw [length_overwrite (by omega), length_fat32ReadCluster]
  · exact chainBytes_congr same
      (fun cell member => chain.isCluster cell (List.mem_cons_of_mem _ member)) outside

/-- The copy loop of `f_write` splices the rest of the buffer into the chain, extending
it as needed; it gives up only on an exhausted volume. -/
theorem writeLoop_cases {buff : List UInt8} {fuel bw offset : Nat} (geometry : Geometry vol.bpb)
    (hint : 2 ≤ vol.freeClusterNo) (chain : ClusterChain vol cluster (cluster :: rest))
    (inside : offset < getClusterSizeBytes vol.bpb) (bounded : bw ≤ buff.length)
    (enough : buff.length - bw < fuel) :
    ∃ outcome after added, writeLoop buff fuel vol bw offset cluster = some (outcome, after) ∧
      Grown vol after (cluster :: rest) added {cell | cell ∈ cluster :: rest ++ added} ∧
      ClusterChain after cluster (cluster :: rest ++ added) ∧
      ((outcome.ok = false ∧ after.Exhausted ∧
          (cluster :: rest ++ added).length * getClusterSizeBytes vol.bpb <
            offset + (buff.length - bw)) ∨
        (outcome.ok = true ∧ outcome.bw = buff.length ∧
          Spliced (chainBytes vol (cluster :: rest)) offset (buff.drop bw)
            (chainBytes after (cluster :: rest ++ added)))) := by
  have positive := geometry.clusterSize_pos
  induction fuel generalizing vol bw offset cluster rest with
  | zero => omega
  | succ fuel ih =>
      rw [writeLoop]
      by_cases finished : buff.length ≤ bw
      · rw [if_neg (by omega)]
        refine ⟨_, vol, [], rfl, .refl vol _ _, by rwa [List.append_nil],
          .inr ⟨rfl, Nat.le_antisymm bounded finished, ?_⟩⟩
        rw [List.drop_of_length_le finished, List.append_nil]
        exact .nil _ _
      · rw [if_pos (by omega)]
        dsimp only
        generalize chunk : min (getClusterSizeBytes vol.bpb - offset) (buff.length - bw) = writeBytes
        have length := length_readCluster geometry cluster
        have chunkLength : (slice buff bw writeBytes).length = writeBytes :=
          length_slice_of_le (by omega)
        have fits : offset + (slice buff bw writeBytes).length ≤ getClusterSizeBytes vol.bpb := by
          omega
        obtain ⟨written, writtenChain, here, behind⟩ := grown_writeCluster geometry hint chain fits
        generalize hmiddle : fat32WriteCluster vol cluster
          (overwrite (fat32ReadCluster vol cluster) offset (slice buff bw writeBytes)) = middle at *
        have bpb := written.same.bpb
        by_cases last : buff.length ≤ bw + writeBytes
        · rw [if_pos last]
          have all : slice buff bw writeBytes = buff.drop bw := by
            rw [slice, List.take_of_length_le (by rw [List.length_drop]; omega)]
          refine ⟨_, middle, [], rfl, written.mono (fun _ member => member) (by simp),
            by rwa [List.append_nil], .inr ⟨rfl, by simp only; omega, ?_⟩⟩
          rw [List.append_nil, chainBytes_cons, chainBytes_cons, here, behind, ← all]
          exact .overwrite_append _ _ _ _ (by omega)
        · rw [if_neg last]
          -- The chunk fills the cluster to its end.
          have filled : offset + writeBytes = getClusterSizeBytes vol.bpb := by omega
          rcases nextOrAppend_cases (show Geometry middle.bpb by rwa [bpb])
              (hint.trans written.same.hint) writtenChain with ⟨failed, exhausted, rfl⟩ |
            ⟨next, tail, added, stepped, found, shape, step, linked⟩
          · rw [failed]
            refine ⟨_, middle, [], rfl, written.mono (fun _ member => member) (by simp),
              by rwa [List.append_nil], .inl ⟨rfl, exhausted, ?_⟩⟩
            simp only [List.append_nil, List.length_singleton, Nat.one_mul]
            omega
          · rw [found]
            dsimp only
            have bpb' : stepped.bpb = vol.bpb := step.same.bpb.trans bpb
            have tailChain : ClusterChain stepped next (next :: tail) := linked.drop
            obtain ⟨outcome, after, more, looped, grown, chain', result⟩ :=
              ih (show Geometry stepped.bpb by rwa [bpb'])
                ((hint.trans written.same.hint).trans step.same.hint) tailChain
                (show 0 < getClusterSizeBytes stepped.bpb by rwa [bpb'])
                (show bw + writeBytes ≤ buff.length by omega) (by omega) (by rwa [bpb'])
            have cells : cluster :: rest ++ (added ++ more) = cluster :: (next :: tail ++ more) := by
              rw [← List.append_assoc, List.cons_append, shape, List.cons_append]
            have outside := grown.not_mem linked (List.mem_singleton_self cluster)
            have moreData : {cell | cell ∈ next :: tail ++ more} ⊆
                {cell | cell ∈ cluster :: rest ++ (added ++ more)} := by
              intro cell member
              rw [cells]
              exact List.mem_cons_of_mem _ member
            obtain ⟨whole, wholeChain⟩ := Grown.after_step shape
              (step.mono (fun _ member => member) (Set.empty_subset _)) linked
              (grown.mono (fun _ member => member) moreData) chain'
            have joined := (written.mono (fun _ member => member) (by simp)).after_write writtenChain whole
            refine ⟨outcome, after, added ++ more, looped, joined, wholeChain, ?_⟩
            rw [cells]
            rw [bpb'] at result
            rcases result with ⟨failed, exhausted, full⟩ | ⟨succeeded, all, spliced⟩
            · refine .inl ⟨failed, exhausted, ?_⟩
              rw [List.length_cons, Nat.succ_mul]
              omega
            · refine .inr ⟨succeeded, all, ?_⟩
              have head : fat32ReadCluster after cluster =
                  overwrite (fat32ReadCluster vol cluster) offset (slice buff bw writeBytes) := by
                rw [grown.same.bytes cluster linked.start_isCluster outside,
                  step.same.bytes cluster writtenChain.start_isCluster (Set.notMem_empty _), here]
              have keeps : chainBytes vol rest <+: chainBytes stepped (next :: tail) := by
                rw [← shape, chainBytes_append, chainBytes_congr step.same
                  (fun cell member => writtenChain.isCluster cell (List.mem_cons_of_mem _ member))
                  (fun _ _ => Set.notMem_empty _), behind]
                exact List.prefix_append _ _
              have data : buff.drop bw = slice buff bw writeBytes ++ buff.drop (bw + writeBytes) := by
                rw [slice, ← List.drop_drop, List.take_append_drop]
              rw [chainBytes_cons, chainBytes_cons, head, data]
              exact .overwrite_continue (by omega) keeps spliced

/-- Allocating a first cluster, seen as the growth of a file without clusters. -/
theorem Allocated.grown {after : Volume} (allocated : Allocated vol cluster after) :
    Grown vol after [] [cluster] ∅ where
  same := allocated.same.mono (fun cell member => by simpa using member) subset_rfl
  isCluster cell member := by
    rw [List.mem_singleton.mp member]
    exact allocated.isCluster
  free cell member := by
    rw [List.mem_singleton.mp member]
    exact allocated.free
  count := allocated.freeClusterCount_eq

end Write

/-! ## The calls -/

/-- Two states of one handle: they refer to the same directory entry. -/
structure Fat32File.SameEntry (before after : Fat32File) : Prop where
  parentCluster : after.parentCluster = before.parentCluster
  dirEntryCluster : after.dirEntryCluster = before.dirEntryCluster
  dirEntryOffset : after.dirEntryOffset = before.dirEntryOffset
  name : after.name = before.name
  mode : after.mode = before.mode

theorem Fat32File.SameEntry.refl (fp : Fat32File) : fp.SameEntry fp := ⟨rfl, rfl, rfl, rfl, rfl⟩

/-- What a call of `f_write` did to a file with the clusters `cells`: it took `added`
from the allocator, and either ran out of clusters or spliced the whole buffer in. -/
structure Wrote (vol : Volume) (fp : Fat32File) (buff : List UInt8) (cells added : List Nat)
    (result : WriteResult) : Prop where
  grown : Grown vol result.vol cells added {cell | cell ∈ cells ++ added}
  owned : OwnedChain result.vol result.fp.firstCluster (cells ++ added)
  sameEntry : fp.SameEntry result.fp
  sameFirst : fp.firstCluster ≠ 0 → result.fp.firstCluster = fp.firstCluster
  outcome : (result.ok = false ∧ result.fp.pos = fp.pos ∧ result.fp.size = fp.size ∧
      result.vol.Exhausted ∧
      (cells ++ added).length * getClusterSizeBytes vol.bpb < fp.pos + max 1 buff.length) ∨
    (result.ok = true ∧ result.bw = buff.length ∧ result.fp.pos = u32 (fp.pos + buff.length) ∧
      result.fp.size = max fp.size (u32 (fp.pos + buff.length)) ∧
      (fp.pos ≤ cells.length * getClusterSizeBytes vol.bpb →
        Spliced (chainBytes vol cells) fp.pos buff (chainBytes result.vol (cells ++ added))))

section Calls

variable {vol : Volume} {fp : Fat32File} {cells : List Nat}

theorem writeFrom_cases (buff : List UInt8) (geometry : Geometry vol.bpb)
    (hint : 2 ≤ vol.freeClusterNo) (chain : ClusterChain vol fp.firstCluster cells) :
    ∃ result added, writeFrom vol fp buff = some result ∧ Wrote vol fp buff cells added result := by
  have positive := geometry.clusterSize_pos
  obtain ⟨rest, rfl⟩ := chain.linked.eq_cons
  obtain ⟨outcome, middle, added, walked, grown, walkedChain, result⟩ :=
    writeWalk_cases geometry hint chain (Nat.lt_succ_self fp.pos)
  have bpb := grown.same.bpb
  unfold writeFrom
  rw [walked]
  rcases result with ⟨rfl, exhausted, full⟩ | ⟨front, cell, back, rfl, split, position⟩
  · refine ⟨_, added, rfl, grown.mono (fun _ member => member) (Set.empty_subset _), .inr walkedChain,
      .refl fp, fun _ => rfl, .inl ⟨rfl, rfl, rfl, exhausted, ?_⟩⟩
    omega
  · dsimp only
    rw [split] at walkedChain
    have inside : fp.pos % getClusterSizeBytes vol.bpb < getClusterSizeBytes middle.bpb := by
      rw [bpb]
      exact Nat.mod_lt _ positive
    have enough : buff.length - 0 < buff.length + 1 := Nat.lt_succ_self _
    obtain ⟨outcome, after, more, looped, grown', chain', result⟩ :=
      writeLoop_cases (show Geometry middle.bpb by rwa [bpb]) (hint.trans grown.same.hint)
        walkedChain.drop inside (Nat.zero_le _) enough
    rw [looped, Option.map_some]
    have cells : fp.firstCluster :: rest ++ (added ++ more) = front ++ cell :: back ++ more := by
      rw [← List.append_assoc, split]
    have wholeChain := grown'.chain_append walkedChain chain'
    have whole : Grown vol after (fp.firstCluster :: rest) (added ++ more)
        {other | other ∈ fp.firstCluster :: rest ++ (added ++ more)} := by
      refine (grown.mono (fun _ member => member) (Set.empty_subset _)).trans
        (grown'.mono (fun other member => ?_) fun other member => ?_) fun other member => ?_
      · rw [split]
        exact List.mem_append_right _ member
      · rw [Set.mem_ofPred_eq, cells, List.append_assoc]
        exact List.mem_append_right _ member
      · rw [split] at member
        exact walkedChain.next_ne_zero member
    rw [← cells] at wholeChain
    rw [bpb] at result
    rcases result with ⟨failed, exhausted, full⟩ | ⟨succeeded, all, spliced⟩
    · rw [if_neg (by simp [failed])]
      refine ⟨_, added ++ more, rfl, whole, .inr wholeChain, .refl fp, fun _ => rfl,
        .inl ⟨rfl, rfl, rfl, exhausted, ?_⟩⟩
      rw [cells, List.append_assoc, List.length_append, Nat.add_mul]
      omega
    · rw [if_pos succeeded, all]
      refine ⟨_, added ++ more, rfl, whole, .inr wholeChain, ⟨rfl, rfl, rfl, rfl, rfl⟩, fun _ => rfl,
        .inr ⟨rfl, rfl, rfl, rfl, fun short => ?_⟩⟩
      have untouched : chainBytes after front = chainBytes middle front :=
        chainBytes_congr grown'.same
          (fun other member => walkedChain.isCluster other (List.mem_append_left _ member))
          (fun other member => grown'.not_mem walkedChain member)
      have before : chainBytes middle (front ++ cell :: back) =
          chainBytes vol (fp.firstCluster :: rest ++ added) := by
        rw [← split]
        refine chainBytes_congr grown.same (fun other member => ?_) fun _ _ => Set.notMem_empty _
        have inRange := walkedChain.isCluster other (split ▸ member)
        rwa [bpb] at inRange
      have joined := spliced.append_left (chainBytes middle front)
      rw [← chainBytes_append, before, length_chainBytes (show Geometry middle.bpb by rwa [bpb]), bpb,
        ← position, ← untouched, ← chainBytes_append, ← List.append_assoc, ← cells, List.drop_zero,
        chainBytes_append] at joined
      exact joined.of_append (by rwa [length_chainBytes geometry])

/-- `f_write` returns for every file whose clusters form a chain. -/
theorem fWrite_cases (buff : List UInt8) (geometry : Geometry vol.bpb) (hint : 2 ≤ vol.freeClusterNo)
    (owned : OwnedChain vol fp.firstCluster cells) :
    ∃ result added, fWrite vol fp buff = some result ∧ Wrote vol fp buff cells added result := by
  unfold fWrite
  rcases owned with ⟨empty, rfl⟩ | chain
  · rw [if_pos empty]
    rcases fat32AllocateCluster_cases geometry hint with ⟨failed, exhausted⟩ |
        ⟨cluster, middle, found, allocated⟩
    · rw [failed]
      refine ⟨_, [], rfl, .refl vol _ _, .inl ⟨empty, rfl⟩, .refl fp, fun _ => rfl,
        .inl ⟨rfl, rfl, rfl, exhausted, ?_⟩⟩
      simp only [List.append_nil, List.length_nil, Nat.zero_mul]
      omega
    · rw [found]
      dsimp only
      have bpb := allocated.same.bpb
      have chain : ClusterChain middle
          { fp with firstCluster := cluster, currentCluster := cluster }.firstCluster [cluster] :=
        allocated.chain
      obtain ⟨result, added, returned, wrote⟩ :=
        writeFrom_cases buff (by rwa [bpb]) (hint.trans allocated.same.hint) chain
      refine ⟨result, cluster :: added, returned, ?_, wrote.owned, ?_, ?_, ?_⟩
      · refine Grown.trans (allocated.grown.mono (fun _ member => member) (Set.empty_subset _))
          wrote.grown fun cell member => ?_
        rw [List.mem_singleton.mp member, allocated.ends]
        decide
      · exact ⟨wrote.sameEntry.parentCluster, wrote.sameEntry.dirEntryCluster,
          wrote.sameEntry.dirEntryOffset, wrote.sameEntry.name, wrote.sameEntry.mode⟩
      · exact fun nonempty => absurd empty nonempty
      · have outcome := wrote.outcome
        rw [bpb] at outcome
        refine outcome.imp id fun ⟨succeeded, all, pos, size, spliced⟩ =>
          ⟨succeeded, all, pos, size, fun short => ?_⟩
        have start : fp.pos = 0 := by simpa using short
        have whole : Spliced ([] ++ chainBytes middle [cluster]) fp.pos buff
            (chainBytes result.vol ([cluster] ++ added)) := spliced (by simp [start])
        rw [chainBytes_nil]
        exact whole.of_append (by simp [start])
  · rw [if_neg chain.start_ne_zero]
    exact writeFrom_cases buff geometry hint chain

/-- `f_read` returns on every handle; it moves only the position. -/
theorem fRead_isSome (fp : Fat32File) (btr : Nat) (geometry : Geometry vol.bpb) :
    ∃ bytes pos, fRead vol fp btr = some (bytes, { fp with pos := pos }) := by
  unfold fRead
  by_cases atEnd : fp.size ≤ fp.pos
  · rw [if_pos atEnd]
    exact ⟨[], fp.pos, rfl⟩
  · rw [if_neg atEnd]
    obtain ⟨offset, cluster, walked, inside⟩ :=
      walkChain_isSome geometry fp.firstCluster (Nat.lt_succ_self fp.pos)
    have enough : min btr (fp.size - fp.pos) - ([] : List UInt8).length <
        min btr (fp.size - fp.pos) + 1 := Nat.lt_succ_self _
    obtain ⟨bytes, copied⟩ := readLoop_isSome geometry cluster enough inside
    rw [walked]
    dsimp only
    rw [copied]
    exact ⟨bytes, _, rfl⟩

/-- In front of the end of the file, the walk to the position stops in the cluster that holds
it, and the clusters from there on hold the rest of the file. -/
theorem walkChain_position (geometry : Geometry vol.bpb) (owned : OwnedChain vol fp.firstCluster cells)
    (filled : fp.size ≤ cells.length * getClusterSizeBytes vol.bpb) (before : fp.pos < fp.size) :
    ∃ offset cell rest, walkChain vol (fp.pos + 1) fp.pos fp.firstCluster = some (offset, cell) ∧
      ClusterChain vol cell rest ∧ offset < getClusterSizeBytes vol.bpb ∧
      ∀ count, fp.pos + count ≤ fp.size → offset + count ≤ rest.length * getClusterSizeBytes vol.bpb ∧
        slice (chainBytes vol rest) offset count = slice ((chainBytes vol cells).take fp.size) fp.pos count := by
  have positive := geometry.clusterSize_pos
  rcases owned with ⟨_, rfl⟩ | chain
  · simp only [List.length_nil, Nat.zero_mul] at filled
    omega
  · obtain ⟨front, cell, rest, rfl, walked, position⟩ :=
      walkChain_eq geometry chain (Nat.lt_succ_self fp.pos) (by omega)
    have frontLength := length_chainBytes geometry front
    rw [List.length_append, Nat.add_mul] at filled
    have skipped : (chainBytes vol (front ++ cell :: rest)).drop fp.pos =
        (chainBytes vol (cell :: rest)).drop (fp.pos % getClusterSizeBytes vol.bpb) := by
      conv_lhs => rw [position, ← frontLength, chainBytes_append, List.drop_length_add_append]
    refine ⟨_, cell, cell :: rest, walked, chain.drop, Nat.mod_lt _ positive, fun count fits => ⟨by omega, ?_⟩⟩
    rw [slice, slice, List.drop_take, List.take_take, skipped, Nat.min_eq_left (by omega)]

/-- On a file whose clusters hold its size `f_read` returns the bytes from the position
on, as far as wanted and there. -/
theorem fRead_eq (btr : Nat) (geometry : Geometry vol.bpb) (owned : OwnedChain vol fp.firstCluster cells)
    (filled : fp.size ≤ cells.length * getClusterSizeBytes vol.bpb) (sized : fp.size < 4294967296)
    (inside : fp.pos ≤ fp.size) :
    let bytes := slice ((chainBytes vol cells).take fp.size) fp.pos btr
    fRead vol fp btr = some (bytes, { fp with pos := fp.pos + bytes.length }) := by
  have total := length_chainBytes geometry cells
  intro bytes
  have length : bytes.length = min btr (fp.size - fp.pos) := by
    rw [length_slice, List.length_take, total]
    omega
  unfold fRead
  by_cases atEnd : fp.size ≤ fp.pos
  · have empty : bytes = [] := List.length_eq_zero_iff.mp (by rw [length]; omega)
    rw [if_pos atEnd, empty]
    rfl
  · rw [if_neg atEnd]
    obtain ⟨offset, cell, rest, walked, chain, within, ahead⟩ :=
      walkChain_position geometry owned filled (Nat.lt_of_not_le atEnd)
    obtain ⟨available, same⟩ := ahead (min btr (fp.size - fp.pos)) (by omega)
    have size : ((chainBytes vol cells).take fp.size).length = fp.size := by
      rw [List.length_take, total]
      exact Nat.min_eq_left filled
    have clipped : slice ((chainBytes vol cells).take fp.size) fp.pos (min btr (fp.size - fp.pos)) = bytes := by
      have whole := slice_min ((chainBytes vol cells).take fp.size) fp.pos btr
      rwa [size] at whole
    have enough : min btr (fp.size - fp.pos) - ([] : List UInt8).length < min btr (fp.size - fp.pos) + 1 :=
      Nat.lt_succ_self _
    rw [walked]
    dsimp only
    rw [readLoop_eq geometry chain enough within available, Option.map_some, List.nil_append, List.length_nil,
      Nat.sub_zero, same, clipped, u32_of_lt (by rw [length]; omega)]

/-- `f_lseek` returns on every handle and clamps the position to the size. -/
theorem fLseek_eq (fp : Fat32File) (ofs : Nat) (geometry : Geometry vol.bpb) :
    ∃ cluster, fLseek vol fp ofs =
      some { fp with pos := min ofs fp.size, currentCluster := cluster } := by
  obtain ⟨offset, cluster, walked, _⟩ :=
    walkChain_isSome geometry fp.firstCluster (Nat.lt_succ_self (min ofs fp.size))
  unfold fLseek
  dsimp only
  rw [walked]
  exact ⟨cluster, rfl⟩

end Calls

end KeblaOS.Fat32
