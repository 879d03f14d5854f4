import Mathlib.Order.Interval.Finset.Nat
import KeblaOS.Fat32.Volume
import KeblaOS.Lib.Chain

/-!
# Cluster chains

The chain functions of `cluster_manager.c`: allocation through the shared hint,
appending to a chain and freeing one. A `while` loop over a chain takes fuel; the
entries are 28-bit numbers, so a walk of `chainFuel` steps that has not ended has
met a cluster twice and never ends. A loop that never ends is `none`.

`ClusterChain` is a chain whose cells are clusters of the volume, and
`Volume.SameExcept` says what an operation leaves alone. Each operation has one
lemma that gives its result in these terms.
-/

namespace KeblaOS.Fat32

open KeblaOS.Buffer

/-- `CLUSTER_END_OF_CHAIN`. -/
def clusterEndOfChain : Nat := 0x0FFFFFFF

/-- Bound on the length of a walk along 28-bit cluster numbers that ends. -/
def chainFuel : Nat := 0x10000000

/-- `fat32_allocate_cluster`: the cluster found, if any, and the volume afterwards. -/
def fat32AllocateCluster (vol : Volume) : Option Nat × Volume :=
  let candidates := List.range' vol.freeClusterNo
    (u32 (getTotalClusters vol.bpb + 1) - vol.freeClusterNo)
  -- The loop inlines the read of `fat32_get_next_cluster`.
  match candidates.find? fun cluster => fatEntry vol cluster &&& 0x0FFFFFFF == 0 with
  | some cluster =>
      (some cluster, (fat32SetNextCluster vol cluster clusterEndOfChain).2.setFreeClusterNo
        (u32 (cluster + 1)))
  | none => (none, vol)

/-- The first loop of `fat32_append_cluster`: the last cluster of a chain. -/
def lastOfChain (vol : Volume) : Nat → Nat → Option Nat
  | 0, _ => none
  | fuel + 1, curr =>
      let next := fat32GetNextCluster vol curr
      if isEndOfClusterChain next then some curr else lastOfChain vol fuel next

/-- `fat32_append_cluster`: the new last cluster, unless allocation fails. -/
def fat32AppendCluster (vol : Volume) (startCluster : Nat) : Option (Option Nat × Volume) :=
  (lastOfChain vol chainFuel startCluster).map fun curr =>
    match fat32AllocateCluster vol with
    | (none, vol) => (none, vol)
    | (some newCluster, vol) =>
        let vol := (fat32SetNextCluster vol curr newCluster).2
        let vol := (fat32SetNextCluster vol newCluster clusterEndOfChain).2
        (some newCluster, vol)

/-- The loop of `fat32_free_cluster_chain`. -/
def freeChainLoop : Nat → Volume → Nat → Option (Bool × Volume)
  | 0, _, _ => none
  | fuel + 1, vol, currentCluster =>
      if isValidCluster currentCluster then
        let nextCluster := fat32GetNextCluster vol currentCluster
        if nextCluster = 0 then some (false, vol)
        else match fat32SetNextCluster vol currentCluster 0 with
          | (false, vol) => some (false, vol)
          | (true, vol) =>
              if isEndOfClusterChain nextCluster then some (true, vol)
              else freeChainLoop fuel vol nextCluster
      else some (true, vol)

/-- `fat32_free_cluster_chain`. -/
def fat32FreeClusterChain (vol : Volume) (startCluster : Nat) : Option (Bool × Volume) :=
  freeChainLoop (chainFuel + 1) vol startCluster

/-! ## Chains of a volume -/

/-- A chain that starts at `start` and stays among the clusters of the volume. -/
structure ClusterChain (vol : Volume) (start : Nat) (cells : List Nat) : Prop where
  linked : Linked (fat32GetNextCluster vol) (fun value => isEndOfClusterChain value = true) start cells
  isCluster : ∀ cell ∈ cells, IsCluster vol.bpb cell

/-- The clusters owned through a first-cluster field: none when the field is zero,
otherwise the chain it starts. -/
def OwnedChain (vol : Volume) (first : Nat) (cells : List Nat) : Prop :=
  (first = 0 ∧ cells = []) ∨ ClusterChain vol first cells

/-- `after` differs from `before` at most in the FAT entries of `entries` and the
contents of `data`. -/
structure Volume.SameExcept (before after : Volume) (entries data : Set Nat) : Prop where
  bpb : after.bpb = before.bpb
  cwdCluster : after.cwdCluster = before.cwdCluster
  next : ∀ cell, IsCluster before.bpb cell → cell ∉ entries →
    fat32GetNextCluster after cell = fat32GetNextCluster before cell
  bytes : ∀ cell, IsCluster before.bpb cell → cell ∉ data →
    fat32ReadCluster after cell = fat32ReadCluster before cell
  copies : FatCopiesEqual before → FatCopiesEqual after
  hint : before.freeClusterNo ≤ after.freeClusterNo

namespace Volume.SameExcept

variable {before middle after : Volume} {entries data entries' data' : Set Nat}

theorem refl (vol : Volume) (entries data : Set Nat) : vol.SameExcept vol entries data :=
  ⟨rfl, rfl, fun _ _ _ => rfl, fun _ _ _ => rfl, id, le_rfl⟩

theorem trans (first : before.SameExcept middle entries data)
    (second : middle.SameExcept after entries data) : before.SameExcept after entries data where
  bpb := second.bpb.trans first.bpb
  cwdCluster := second.cwdCluster.trans first.cwdCluster
  next cell inRange outside :=
    (second.next cell (by rwa [first.bpb]) outside).trans (first.next cell inRange outside)
  bytes cell inRange outside :=
    (second.bytes cell (by rwa [first.bpb]) outside).trans (first.bytes cell inRange outside)
  copies equal := second.copies (first.copies equal)
  hint := first.hint.trans second.hint

theorem mono (same : before.SameExcept after entries data) (moreEntries : entries ⊆ entries')
    (moreData : data ⊆ data') : before.SameExcept after entries' data' where
  bpb := same.bpb
  cwdCluster := same.cwdCluster
  next cell inRange outside := same.next cell inRange fun member => outside (moreEntries member)
  bytes cell inRange outside := same.bytes cell inRange fun member => outside (moreData member)
  copies := same.copies
  hint := same.hint

end Volume.SameExcept

namespace ClusterChain

variable {vol after : Volume} {start : Nat} {cells : List Nat}

theorem start_isCluster (chain : ClusterChain vol start cells) : IsCluster vol.bpb start :=
  chain.isCluster start chain.linked.start_mem

theorem start_ne_zero (chain : ClusterChain vol start cells) : start ≠ 0 := by
  have lower := chain.start_isCluster.1
  omega

theorem nodup (chain : ClusterChain vol start cells) : cells.Nodup := chain.linked.nodup

theorem unique {other : List Nat} (chain : ClusterChain vol start cells)
    (chain' : ClusterChain vol start other) : cells = other := chain.linked.unique chain'.linked

/-- No cluster of a chain is free. -/
theorem next_ne_zero (chain : ClusterChain vol start cells) {cell : Nat} (member : cell ∈ cells) :
    fat32GetNextCluster vol cell ≠ 0 := by
  rcases chain.linked.next_mem_or_stop member with later | ends
  · have lower := (chain.isCluster _ later).1
    omega
  · intro zero
    rw [zero] at ends
    exact absurd ends (by decide)

/-- A chain has at most one cell for each cluster of the volume. -/
theorem length_le (chain : ClusterChain vol start cells) :
    cells.length ≤ getTotalClusters vol.bpb := by
  have subset : cells.toFinset ⊆ Finset.Icc 2 (getTotalClusters vol.bpb + 1) := by
    intro cell member
    rw [Finset.mem_Icc]
    exact chain.isCluster cell (List.mem_toFinset.mp member)
  have card := Finset.card_le_card subset
  rw [List.toFinset_card_of_nodup chain.nodup, Nat.card_Icc] at card
  omega

/-- An operation that leaves the entries of a chain alone leaves the chain alone. -/
theorem congr {entries data : Set Nat} (chain : ClusterChain vol start cells)
    (same : vol.SameExcept after entries data) (apart : ∀ cell ∈ cells, cell ∉ entries) :
    ClusterChain after start cells where
  linked := chain.linked.congr fun cell member =>
    same.next cell (chain.isCluster cell member) (apart cell member)
  isCluster cell member := by
    rw [same.bpb]
    exact chain.isCluster cell member

theorem drop {front rest : List Nat} {cell : Nat} (chain : ClusterChain vol start (front ++ cell :: rest)) :
    ClusterChain vol cell (cell :: rest) where
  linked := chain.linked.drop
  isCluster other member := chain.isCluster other (List.mem_append_right front member)

end ClusterChain

section OwnedChains

variable {vol after : Volume} {first : Nat} {cells cells' : List Nat}

theorem OwnedChain.unique (owned : OwnedChain vol first cells) (owned' : OwnedChain vol first cells') :
    cells = cells' := by
  rcases owned with ⟨rfl, rfl⟩ | chain
  · rcases owned' with ⟨_, rfl⟩ | chain'
    · rfl
    · exact absurd rfl chain'.start_ne_zero
  · rcases owned' with ⟨rfl, _⟩ | chain'
    · exact absurd rfl chain.start_ne_zero
    · exact chain.unique chain'

theorem OwnedChain.next_ne_zero (owned : OwnedChain vol first cells) {cell : Nat} (member : cell ∈ cells) :
    fat32GetNextCluster vol cell ≠ 0 := by
  rcases owned with ⟨_, rfl⟩ | chain
  · exact absurd member List.not_mem_nil
  · exact chain.next_ne_zero member

theorem OwnedChain.congr {entries data : Set Nat} (owned : OwnedChain vol first cells)
    (same : vol.SameExcept after entries data) (apart : ∀ cell ∈ cells, cell ∉ entries) :
    OwnedChain after first cells :=
  owned.imp id fun chain => chain.congr same apart

theorem OwnedChain.isCluster (owned : OwnedChain vol first cells) {cell : Nat} (member : cell ∈ cells) :
    IsCluster vol.bpb cell := by
  rcases owned with ⟨_, rfl⟩ | chain
  · exact absurd member List.not_mem_nil
  · exact chain.isCluster cell member

theorem OwnedChain.first_lt (owned : OwnedChain vol first cells) (geometry : Geometry vol.bpb) :
    first < 4294967296 := by
  rcases owned with ⟨rfl, _⟩ | chain
  · decide
  · have numbers := geometry.clusterNumbers
    have upper := chain.start_isCluster.2
    omega

end OwnedChains

/-! ## Effects of the operations -/

section Effects

variable {vol : Volume} {cluster : Nat}

theorem sameExcept_setNext (nextCluster : Nat) (geometry : Geometry vol.bpb)
    (inRange : IsCluster vol.bpb cluster) :
    vol.SameExcept (fat32SetNextCluster vol cluster nextCluster).2 {cluster} ∅ where
  bpb := fat32SetNextCluster_bpb nextCluster geometry.fatArea inRange
  cwdCluster := fat32SetNextCluster_cwdCluster nextCluster geometry.fatArea inRange
  next _ inRange' outside :=
    fat32GetNextCluster_setNext_of_ne nextCluster geometry.fatArea inRange inRange' outside
  bytes _ inRange' _ := fat32ReadCluster_setNext nextCluster geometry inRange inRange'
  copies := fatCopiesEqual_setNext nextCluster geometry.fatArea inRange
  hint := (fat32SetNextCluster_freeClusterNo nextCluster geometry.fatArea inRange).ge

theorem sameExcept_writeCluster (buffer : List UInt8) (geometry : Geometry vol.bpb)
    (inRange : IsCluster vol.bpb cluster) :
    vol.SameExcept (fat32WriteCluster vol cluster buffer) ∅ {cluster} where
  bpb := fat32WriteCluster_bpb vol cluster buffer
  cwdCluster := fat32WriteCluster_cwdCluster vol cluster buffer
  next _ inRange' _ := fat32GetNextCluster_write geometry inRange inRange'
  bytes _ inRange' outside := fat32ReadCluster_write_of_ne geometry inRange inRange' outside
  copies := fatCopiesEqual_write geometry inRange
  hint := (fat32WriteCluster_freeClusterNo vol cluster buffer).ge

/-- The cluster an allocation picks: the first free one from the hint on. -/
structure Picks (before : Volume) (cluster : Nat) (after : Volume) : Prop where
  isCluster : IsCluster before.bpb cluster
  le_total : cluster ≤ getTotalClusters before.bpb
  from_hint : before.freeClusterNo ≤ cluster
  free : fat32GetNextCluster before cluster = 0
  least : ∀ other, before.freeClusterNo ≤ other → other < cluster →
    fat32GetNextCluster before other ≠ 0
  hint : after.freeClusterNo = cluster + 1

/-- A successful `fat32_allocate_cluster`. -/
structure Allocated (before : Volume) (cluster : Nat) (after : Volume) : Prop
    extends Picks before cluster after where
  same : before.SameExcept after {cluster} ∅
  ends : fat32GetNextCluster after cluster = clusterEndOfChain

/-- A successful `fat32_append_cluster` on a chain that ends in `last`. -/
structure Appended (before : Volume) (last cluster : Nat) (after : Volume) : Prop
    extends Picks before cluster after where
  same : before.SameExcept after {last, cluster} ∅
  links : fat32GetNextCluster after last = cluster
  ends : fat32GetNextCluster after cluster = clusterEndOfChain

/-- No cluster the allocator still looks at is free. -/
def Volume.Exhausted (vol : Volume) : Prop :=
  ∀ cluster, vol.freeClusterNo ≤ cluster → cluster ≤ getTotalClusters vol.bpb →
    fat32GetNextCluster vol cluster ≠ 0

/-- Allocation either finds a free cluster or leaves an exhausted volume alone. -/
theorem fat32AllocateCluster_cases (geometry : Geometry vol.bpb) (hint : 2 ≤ vol.freeClusterNo) :
    (fat32AllocateCluster vol = (none, vol) ∧ vol.Exhausted) ∨
      ∃ cluster after, fat32AllocateCluster vol = (some cluster, after) ∧
        Allocated vol cluster after := by
  have numbers := geometry.clusterNumbers
  have bound : u32 (getTotalClusters vol.bpb + 1) = getTotalClusters vol.bpb + 1 :=
    u32_of_lt (by omega)
  have test : (fun cluster => fatEntry vol cluster &&& 0x0FFFFFFF == 0) =
      fun cluster => fat32GetNextCluster vol cluster == 0 := by
    funext cluster
    rw [fat32GetNextCluster]
  unfold fat32AllocateCluster
  rw [bound, test]
  dsimp only
  generalize search : (List.range' vol.freeClusterNo
    (getTotalClusters vol.bpb + 1 - vol.freeClusterNo)).find?
      (fun cluster => fat32GetNextCluster vol cluster == 0) = found
  cases found with
  | none =>
      left
      refine ⟨rfl, fun cluster lower upper => ?_⟩
      have unmatched := List.find?_eq_none.mp search cluster
        (List.mem_range'_1.mpr ⟨lower, by omega⟩)
      simpa using unmatched
  | some cluster =>
      right
      obtain ⟨matched, index, below, atIndex, unmatched⟩ := List.find?_eq_some_iff_getElem.mp search
      rw [List.getElem_range'] at atIndex
      rw [List.length_range'] at below
      have inRange : IsCluster vol.bpb cluster := ⟨by omega, by omega⟩
      have next : u32 (cluster + 1) = cluster + 1 := u32_of_lt (by omega)
      have same := sameExcept_setNext clusterEndOfChain geometry inRange
      refine ⟨cluster, _, rfl, ⟨⟨inRange, by omega, by omega, ?_, ?_, ?_⟩, ?_, ?_⟩⟩
      · simpa using matched
      · intro other fromHint earlier
        have untaken := unmatched (other - vol.freeClusterNo) (by omega)
        rw [List.getElem_range', Nat.one_mul, Nat.add_sub_of_le fromHint] at untaken
        simpa using untaken
      · rw [setFreeClusterNo_freeClusterNo, next]
      · refine ⟨same.bpb, same.cwdCluster, fun cell inside outside => ?_,
          fun cell inside outside => ?_, fun copies => ?_, ?_⟩
        · rw [fat32GetNextCluster_setFreeClusterNo]
          exact same.next cell inside outside
        · rw [fat32ReadCluster_setFreeClusterNo]
          exact same.bytes cell inside outside
        · rw [fatCopiesEqual_setFreeClusterNo]
          exact same.copies copies
        · rw [setFreeClusterNo_freeClusterNo, next]
          omega
      · rw [fat32GetNextCluster_setFreeClusterNo,
          fat32GetNextCluster_setNext_self clusterEndOfChain geometry.fatArea inRange, clusterEndOfChain]

/-- Walking a chain with fuel for its length ends at its last cell. -/
theorem lastOfChain_eq {start last fuel : Nat} {front : List Nat}
    (linked : Linked (fat32GetNextCluster vol) (fun value => isEndOfClusterChain value = true) start
      (front ++ [last])) (enough : front.length < fuel) :
    lastOfChain vol fuel start = some last := by
  induction front generalizing start fuel with
  | nil =>
      obtain ⟨rfl, ends⟩ := linked.stop_of_singleton
      obtain ⟨fuel, rfl⟩ := Nat.exists_eq_succ_of_ne_zero (Nat.ne_of_gt enough)
      simp [lastOfChain, ends]
  | cons head tail ih =>
      obtain ⟨rfl, continues, rest⟩ := linked.tail_of_ne_nil (by simp)
      obtain ⟨fuel, rfl⟩ := Nat.exists_eq_succ_of_ne_zero (Nat.ne_of_gt (Nat.zero_lt_of_lt enough))
      rw [lastOfChain, if_neg continues]
      exact ih rest (by simpa using enough)

/-- Appending to a chain either links a free cluster behind its last cell or
leaves an exhausted volume alone. -/
theorem fat32AppendCluster_cases {start last : Nat} {front : List Nat} (geometry : Geometry vol.bpb)
    (hint : 2 ≤ vol.freeClusterNo) (chain : ClusterChain vol start (front ++ [last])) :
    (fat32AppendCluster vol start = some (none, vol) ∧ vol.Exhausted) ∨
      ∃ cluster after, fat32AppendCluster vol start = some (some cluster, after) ∧
        Appended vol last cluster after := by
  have numbers := geometry.clusterNumbers
  have short := chain.length_le
  have walk : lastOfChain vol chainFuel start = some last :=
    lastOfChain_eq chain.linked (by rw [List.length_append] at short; simp [chainFuel]; omega)
  have lastInRange : IsCluster vol.bpb last := chain.isCluster last (by simp)
  unfold fat32AppendCluster
  rw [walk, Option.map_some]
  rcases fat32AllocateCluster_cases geometry hint with ⟨failed, exhausted⟩ |
      ⟨cluster, middle, found, allocated⟩
  · rw [failed]
    exact .inl ⟨rfl, exhausted⟩
  · rw [found]
    right
    -- The picked cluster is free, so it is not the chain's last cell.
    have different : cluster ≠ last := by
      rintro rfl
      exact chain.next_ne_zero (by simp) allocated.free
    have geometry' : Geometry middle.bpb := by rwa [allocated.same.bpb]
    have lastInRange' : IsCluster middle.bpb last := by rwa [allocated.same.bpb]
    have linkSame := sameExcept_setNext cluster geometry' lastInRange'
    have geometry'' : Geometry (fat32SetNextCluster middle last cluster).2.bpb := by rwa [linkSame.bpb]
    have inRange : IsCluster (fat32SetNextCluster middle last cluster).2.bpb cluster := by
      rw [linkSame.bpb, allocated.same.bpb]
      exact allocated.isCluster
    have endSame := sameExcept_setNext clusterEndOfChain geometry'' inRange
    have bounded : cluster % 0x10000000 = cluster := by
      have upper := allocated.isCluster.2
      exact Nat.mod_eq_of_lt (by omega)
    refine ⟨cluster, _, rfl, ⟨⟨allocated.isCluster, allocated.le_total, allocated.from_hint,
      allocated.free, allocated.least, ?_⟩, ?_, ?_, ?_⟩⟩
    · rw [fat32SetNextCluster_freeClusterNo _ geometry''.fatArea inRange,
        fat32SetNextCluster_freeClusterNo _ geometry'.fatArea lastInRange', allocated.hint]
    · have first : vol.SameExcept middle {last, cluster} ∅ := allocated.same.mono (by simp) subset_rfl
      have second : middle.SameExcept _ {last, cluster} ∅ := linkSame.mono (by simp) subset_rfl
      exact (first.trans second).trans (endSame.mono (by simp) subset_rfl)
    · rw [endSame.next last (by rwa [linkSame.bpb]) (by simpa using different.symm),
        fat32GetNextCluster_setNext_self cluster geometry'.fatArea lastInRange', bounded]
    · rw [fat32GetNextCluster_setNext_self _ geometry''.fatArea inRange, clusterEndOfChain]

/-- A freshly allocated cluster is a chain of its own. -/
theorem Allocated.chain {after : Volume} (allocated : Allocated vol cluster after) :
    ClusterChain after cluster [cluster] where
  linked := .last (by rw [allocated.ends]; decide)
  isCluster cell member := by
    rw [List.mem_singleton] at member
    rw [member, allocated.same.bpb]
    exact allocated.isCluster

/-- Likewise for the cluster an append hangs behind a chain. -/
theorem Appended.chain {after : Volume} {last : Nat} (appended : Appended vol last cluster after) :
    ClusterChain after cluster [cluster] where
  linked := .last (by rw [appended.ends]; decide)
  isCluster cell member := by
    rw [List.mem_singleton] at member
    rw [member, appended.same.bpb]
    exact appended.isCluster

/-- A cluster in front of a chain that starts at its successor. -/
theorem ClusterChain.cons {next : Nat} {rest : List Nat} (geometry : Geometry vol.bpb)
    (chain : ClusterChain vol next rest) (inRange : IsCluster vol.bpb cluster)
    (links : fat32GetNextCluster vol cluster = next) : ClusterChain vol cluster (cluster :: rest) where
  linked := by
    refine .cons ?_ ?_
    · rw [links, geometry.isEndOfClusterChain_of_isCluster chain.start_isCluster]
      decide
    · rw [links]
      exact chain.linked
  isCluster cell member := by
    rcases List.mem_cons.mp member with rfl | later
    · exact inRange
    · exact chain.isCluster cell later

/-- A cluster hung behind the last one of a chain prolongs it. -/
theorem Appended.chain_concat {after : Volume} {start last : Nat} {front : List Nat} (geometry : Geometry vol.bpb)
    (chain : ClusterChain vol start (front ++ [last])) (appended : Appended vol last cluster after) :
    ClusterChain after start (front ++ [last] ++ [cluster]) := by
  have nodup := chain.nodup
  rw [List.nodup_append] at nodup
  have geometry' : Geometry after.bpb := by rwa [appended.same.bpb]
  have lastInRange : IsCluster after.bpb last := by
    rw [appended.same.bpb]
    exact chain.isCluster last (by simp)
  have tail := appended.chain.cons geometry' lastInRange appended.links
  rw [List.append_assoc]
  refine ⟨chain.linked.replace_tail (fun other member => ?_) tail.linked, fun other member => ?_⟩
  · refine appended.same.next other (chain.isCluster other (List.mem_append_left _ member)) ?_
    rintro (rfl | rfl)
    · exact nodup.2.2 other member other List.mem_cons_self rfl
    · exact chain.next_ne_zero (List.mem_append_left _ member) appended.free
  · rcases List.mem_append.mp member with early | late
    · rw [appended.same.bpb]
      exact chain.isCluster other (List.mem_append_left _ early)
    · exact tail.isCluster other late

/-- The result of freeing a chain: its entries are zero and nothing else changed. -/
structure Freed (before after : Volume) (cells : List Nat) : Prop where
  same : before.SameExcept after {cell | cell ∈ cells} ∅
  zero : ∀ cell ∈ cells, fat32GetNextCluster after cell = 0
  hint : after.freeClusterNo = before.freeClusterNo

/-- The loop zeroes the entries of a chain one after the other. Each round reads the
successor before it clears the entry, and the cells behind are not touched. -/
theorem freeChainLoop_eq {fuel start : Nat} {cells : List Nat} (geometry : Geometry vol.bpb)
    (chain : ClusterChain vol start cells) (enough : cells.length < fuel) :
    ∃ after, freeChainLoop fuel vol start = some (true, after) ∧ Freed vol after cells := by
  induction cells generalizing fuel start vol with
  | nil => exact absurd rfl chain.linked.ne_nil
  | cons head tail ih =>
      obtain ⟨fuel, rfl⟩ := Nat.exists_eq_succ_of_ne_zero (Nat.ne_of_gt (Nat.zero_lt_of_lt enough))
      obtain ⟨_, shape⟩ := chain.linked.eq_cons
      obtain rfl : head = start := (List.cons.inj shape).1
      have inRange := chain.start_isCluster
      have valid := geometry.fatArea.isValidCluster_of_isCluster inRange
      have occupied := chain.next_ne_zero List.mem_cons_self
      have same := sameExcept_setNext 0 geometry inRange
      have cleared := fat32GetNextCluster_setNext_self 0 geometry.fatArea inRange
      have hint := fat32SetNextCluster_freeClusterNo 0 geometry.fatArea inRange
      have returned : fat32SetNextCluster vol head 0 = (true, (fat32SetNextCluster vol head 0).2) :=
        Prod.ext (fat32SetNextCluster_fst 0 geometry.fatArea inRange) rfl
      rw [freeChainLoop, if_pos valid]
      dsimp only
      rw [if_neg occupied, returned]
      generalize (fat32SetNextCluster vol head 0).2 = middle at same cleared hint ⊢
      dsimp only
      by_cases last : tail = []
      · subst last
        obtain ⟨_, ends⟩ := chain.linked.stop_of_singleton
        rw [if_pos ends]
        refine ⟨middle, rfl, same.mono (by simp) subset_rfl, fun cell member => ?_, hint⟩
        rw [List.mem_singleton.mp member]
        exact cleared
      · obtain ⟨_, continues, linked⟩ := chain.linked.tail_of_ne_nil last
        have outside : head ∉ tail := (List.nodup_cons.mp chain.nodup).1
        have tailChain : ClusterChain vol (fat32GetNextCluster vol head) tail :=
          ⟨linked, fun cell member => chain.isCluster cell (List.mem_cons_of_mem _ member)⟩
        have apart : ∀ cell ∈ tail, cell ∉ ({head} : Set Nat) := by
          rintro cell member rfl
          exact outside member
        rw [if_neg continues]
        obtain ⟨after, freed, result⟩ := ih (show Geometry middle.bpb by rwa [same.bpb])
          (tailChain.congr same apart) (Nat.lt_of_succ_lt_succ enough)
        refine ⟨after, freed, ?_, fun cell member => ?_, result.hint.trans hint⟩
        · exact (same.mono (by simp) subset_rfl).trans
            (result.same.mono (fun cell member => List.mem_cons_of_mem _ member) subset_rfl)
        · rcases List.mem_cons.mp member with rfl | later
          · rw [result.same.next cell (by rwa [same.bpb]) outside, cleared]
          · exact result.zero cell later

theorem fat32FreeClusterChain_eq {start : Nat} {cells : List Nat} (geometry : Geometry vol.bpb)
    (chain : ClusterChain vol start cells) :
    ∃ after, fat32FreeClusterChain vol start = some (true, after) ∧ Freed vol after cells := by
  have numbers := geometry.clusterNumbers
  have short := chain.length_le
  exact freeChainLoop_eq geometry chain (by simp only [chainFuel]; omega)

/-! ## Counting the clusters the allocator can still hand out -/

/-- Number of free clusters from the hint to the allocator's upper bound. -/
def freeClusterCount (vol : Volume) : Nat :=
  (List.range' vol.freeClusterNo (getTotalClusters vol.bpb + 1 - vol.freeClusterNo)).countP
    fun cluster => fat32GetNextCluster vol cluster == 0

theorem Volume.Exhausted.freeClusterCount_eq (exhausted : vol.Exhausted) : freeClusterCount vol = 0 := by
  unfold freeClusterCount
  rw [List.countP_eq_zero]
  intro other member
  obtain ⟨lower, upper⟩ := List.mem_range'_1.mp member
  simpa using exhausted other lower (by omega)

/-- Handing out a cluster uses up exactly one of the free ones. -/
theorem Picks.freeClusterCount_eq {after : Volume} (picks : Picks vol cluster after)
    (bpb : after.bpb = vol.bpb)
    (others : ∀ other, IsCluster vol.bpb other → cluster < other →
      (fat32GetNextCluster after other = 0 ↔ fat32GetNextCluster vol other = 0)) :
    freeClusterCount vol = freeClusterCount after + 1 := by
  have lower := picks.isCluster.1
  have upper := picks.le_total
  have fromHint := picks.from_hint
  -- The scanned range falls into the occupied part, the picked cluster and the rest.
  have split : List.range' vol.freeClusterNo (getTotalClusters vol.bpb + 1 - vol.freeClusterNo) =
      List.range' vol.freeClusterNo (cluster - vol.freeClusterNo) ++
        cluster :: List.range' (cluster + 1) (getTotalClusters vol.bpb - cluster) := by
    have joined := @List.range'_append vol.freeClusterNo (cluster - vol.freeClusterNo)
      (getTotalClusters vol.bpb - cluster + 1) 1
    rw [Nat.one_mul, Nat.add_sub_of_le fromHint, List.range'_succ] at joined
    rw [joined]
    congr 1
    omega
  have front : (List.range' vol.freeClusterNo (cluster - vol.freeClusterNo)).countP
      (fun other => fat32GetNextCluster vol other == 0) = 0 := by
    rw [List.countP_eq_zero]
    intro other member
    obtain ⟨above, below⟩ := List.mem_range'_1.mp member
    simpa using picks.least other above (by omega)
  have back : (List.range' (cluster + 1) (getTotalClusters vol.bpb - cluster)).countP
        (fun other => fat32GetNextCluster vol other == 0) =
      (List.range' (cluster + 1) (getTotalClusters vol.bpb - cluster)).countP
        (fun other => fat32GetNextCluster after other == 0) := by
    refine List.countP_congr fun other member => ?_
    obtain ⟨above, below⟩ := List.mem_range'_1.mp member
    have same := others other ⟨by omega, by omega⟩ (by omega)
    simpa using same.symm
  unfold freeClusterCount
  rw [split, List.countP_append, List.countP_cons, front, back, picks.hint, bpb, picks.free,
    Nat.succ_sub_succ]
  simp

theorem Allocated.freeClusterCount_eq {after : Volume} (allocated : Allocated vol cluster after) :
    freeClusterCount vol = freeClusterCount after + 1 := by
  refine allocated.toPicks.freeClusterCount_eq allocated.same.bpb fun other inRange above => ?_
  rw [allocated.same.next other inRange (by simp; omega)]

theorem Appended.freeClusterCount_eq {after : Volume} {last : Nat}
    (appended : Appended vol last cluster after) (occupied : fat32GetNextCluster vol last ≠ 0) :
    freeClusterCount vol = freeClusterCount after + 1 := by
  refine appended.toPicks.freeClusterCount_eq appended.same.bpb fun other inRange above => ?_
  by_cases same : other = last
  · have positive := appended.isCluster.1
    rw [same, appended.links]
    constructor
    · intro zero
      omega
    · intro zero
      exact absurd zero occupied
  · rw [appended.same.next other inRange (by simp; omega)]

/-- Writing the contents of a cluster takes none of them. -/
theorem freeClusterCount_writeCluster (buffer : List UInt8) (geometry : Geometry vol.bpb)
    (hint : 2 ≤ vol.freeClusterNo) (inRange : IsCluster vol.bpb cluster) :
    freeClusterCount (fat32WriteCluster vol cluster buffer) = freeClusterCount vol := by
  unfold freeClusterCount
  rw [fat32WriteCluster_bpb, fat32WriteCluster_freeClusterNo]
  refine List.countP_congr fun other member => ?_
  obtain ⟨lower, upper⟩ := List.mem_range'_1.mp member
  rw [fat32GetNextCluster_write geometry inRange ⟨by omega, by omega⟩]

end Effects

end KeblaOS.Fat32
