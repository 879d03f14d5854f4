import Mathlib.Order.Interval.Finset.Nat
import KeblaOS.Fat32.FatEffect
import KeblaOS.Fat32.Resize

/-!
# Walking an arbitrary FAT

The FAT is read from the disk and may be any graph. `fat32_free_cluster_chain` clears
each entry it passes, so it ends on every FAT whose links lead somewhere: the number
of occupied entries goes down. The other loops of `cluster_manager.c` change nothing
while they walk, and end exactly when the links from the start lead to an end mark or,
for those that look, to a number that is no cluster.
-/

namespace KeblaOS.Fat32

/-! ## Freeing -/

instance (bpb : Bpb) (cluster : Nat) : Decidable (HasEntry bpb cluster) :=
  inferInstanceAs (Decidable (_ ∧ _))

theorem HasEntry.two_le {bpb : Bpb} {cluster : Nat} (entry : HasEntry bpb cluster) : 2 ≤ cluster := by
  have valid := entry.1
  simp only [isValidCluster, Bool.and_eq_true, decide_eq_true_eq] at valid
  exact valid.1

/-- Every entry of the FAT is free, an end mark, or names a cluster with an entry. -/
def ClosedFat (vol : Volume) : Prop :=
  ∀ cluster, HasEntry vol.bpb cluster →
    fat32GetNextCluster vol cluster = 0 ∨ isEndOfClusterChain (fat32GetNextCluster vol cluster) = true ∨
      HasEntry vol.bpb (fat32GetNextCluster vol cluster)

/-- The clusters whose entry is not free. -/
def occupiedClusters (vol : Volume) : Finset Nat :=
  (Finset.Icc 2 0x0FFFFFEF).filter fun cluster =>
    HasEntry vol.bpb cluster ∧ fat32GetNextCluster vol cluster ≠ 0

section Freeing

variable {vol : Volume} {start : Nat}

theorem mem_occupiedClusters {cluster : Nat} : cluster ∈ occupiedClusters vol ↔
    HasEntry vol.bpb cluster ∧ fat32GetNextCluster vol cluster ≠ 0 := by
  rw [occupiedClusters, Finset.mem_filter, Finset.mem_Icc]
  exact ⟨And.right, fun both => ⟨⟨both.1.two_le, both.1.le⟩, both⟩⟩

theorem card_occupiedClusters_le (vol : Volume) : (occupiedClusters vol).card ≤ 0x0FFFFFEE := by
  refine (Finset.card_filter_le _ _).trans ?_
  rw [Nat.card_Icc]

theorem ClosedFat.clear (closed : ClosedFat vol) (area : FatArea vol.bpb) (entry : HasEntry vol.bpb start) :
    ClosedFat (fat32SetNextCluster vol start 0).2 := by
  have bpb := (entry.setNext_sectors 0 area).2.1
  intro cluster there
  rw [bpb] at there ⊢
  by_cases same : cluster = start
  · rw [same]
    exact .inl (entry.next_setNext_self 0 area)
  · rw [entry.next_setNext_of_ne 0 area there same]
    exact closed cluster there

/-- Clearing an occupied entry leaves one occupied entry less. -/
theorem card_occupiedClusters_clear (area : FatArea vol.bpb) (entry : HasEntry vol.bpb start)
    (occupied : fat32GetNextCluster vol start ≠ 0) :
    (occupiedClusters (fat32SetNextCluster vol start 0).2).card < (occupiedClusters vol).card := by
  have bpb := (entry.setNext_sectors 0 area).2.1
  refine Finset.card_lt_card ⟨fun cluster member => ?_, fun subset => ?_⟩
  · obtain ⟨there, nonzero⟩ := mem_occupiedClusters.mp member
    rw [bpb] at there
    have different : cluster ≠ start := by
      rintro rfl
      exact nonzero (entry.next_setNext_self 0 area)
    rw [entry.next_setNext_of_ne 0 area there different] at nonzero
    exact mem_occupiedClusters.mpr ⟨there, nonzero⟩
  · have still := subset (mem_occupiedClusters.mpr ⟨entry, occupied⟩)
    exact (mem_occupiedClusters.mp still).2 (entry.next_setNext_self 0 area)

/-- Freeing ends on every closed FAT, cycles or not. -/
theorem freeChainLoop_ends {fuel : Nat} (area : FatArea vol.bpb) (closed : ClosedFat vol)
    (entry : HasEntry vol.bpb start) (enough : (occupiedClusters vol).card < fuel) :
    ∃ ok after, freeChainLoop fuel vol start = some (ok, after) := by
  induction fuel generalizing vol start with
  | zero => omega
  | succ fuel ih =>
      have returned : fat32SetNextCluster vol start 0 = (true, (fat32SetNextCluster vol start 0).2) :=
        Prod.ext (entry.setNext_sectors 0 area).1 rfl
      rw [freeChainLoop, if_pos entry.1]
      dsimp only
      by_cases free : fat32GetNextCluster vol start = 0
      · rw [if_pos free]
        exact ⟨false, vol, rfl⟩
      rw [if_neg free, returned]
      dsimp only
      by_cases ends : isEndOfClusterChain (fat32GetNextCluster vol start) = true
      · rw [if_pos ends]
        exact ⟨true, _, rfl⟩
      rw [if_neg ends]
      have next : HasEntry vol.bpb (fat32GetNextCluster vol start) := by
        rcases closed start entry with zero | mark | there
        · exact absurd zero free
        · exact absurd mark ends
        · exact there
      have bpb := (entry.setNext_sectors 0 area).2.1
      have fewer := card_occupiedClusters_clear area entry free
      exact ih (by rwa [bpb]) (closed.clear area entry) (by rwa [bpb]) (by omega)

/-- On a chain that ends in an end mark, freeing clears the entries of the chain. -/
theorem freeChainLoop_clears {fuel : Nat} {cells : List Nat} (area : FatArea vol.bpb)
    (linked : Linked (fat32GetNextCluster vol) (fun value => isEndOfClusterChain value = true) start cells)
    (inFat : ∀ cell ∈ cells, HasEntry vol.bpb cell) (enough : cells.length < fuel) :
    ∃ after, freeChainLoop fuel vol start = some (true, after) ∧
      vol.FatExcept after {cell | cell ∈ cells} ∧ ∀ cell ∈ cells, fat32GetNextCluster after cell = 0 := by
  induction cells generalizing fuel start vol with
  | nil => exact absurd rfl linked.ne_nil
  | cons head tail ih =>
      obtain ⟨fuel, rfl⟩ := Nat.exists_eq_succ_of_ne_zero (Nat.ne_of_gt (Nat.zero_lt_of_lt enough))
      obtain ⟨_, shape⟩ := linked.eq_cons
      obtain rfl : head = start := (List.cons.inj shape).1
      have entry := inFat head List.mem_cons_self
      have returned : fat32SetNextCluster vol head 0 = (true, (fat32SetNextCluster vol head 0).2) :=
        Prod.ext (entry.setNext_sectors 0 area).1 rfl
      have occupied : fat32GetNextCluster vol head ≠ 0 := by
        intro zero
        rcases linked.next_mem_or_stop List.mem_cons_self with later | ends
        · have lower := (inFat _ later).two_le
          omega
        · rw [zero] at ends
          exact absurd ends (by decide)
      have kept := entry.fatExcept_setNext 0 area
      have cleared := entry.next_setNext_self 0 area
      have others : ∀ cell, HasEntry vol.bpb cell → cell ≠ head →
          fat32GetNextCluster (fat32SetNextCluster vol head 0).2 cell = fat32GetNextCluster vol cell :=
        fun cell there different => entry.next_setNext_of_ne 0 area there different
      rw [freeChainLoop, if_pos entry.1]
      dsimp only
      rw [if_neg occupied, returned]
      generalize (fat32SetNextCluster vol head 0).2 = middle at kept cleared others ⊢
      dsimp only
      by_cases last : tail = []
      · subst last
        rw [if_pos linked.stop_of_singleton.2]
        refine ⟨middle, rfl, kept.mono (by simp), fun cell member => ?_⟩
        rw [List.mem_singleton.mp member]
        exact cleared
      · obtain ⟨_, continues, rest⟩ := linked.tail_of_ne_nil last
        have outside : head ∉ tail := (List.nodup_cons.mp linked.nodup).1
        have tailInFat : ∀ cell ∈ tail, HasEntry vol.bpb cell := fun cell member =>
          inFat cell (List.mem_cons_of_mem _ member)
        have rest' : Linked (fat32GetNextCluster middle) (fun value => isEndOfClusterChain value = true)
            (fat32GetNextCluster vol head) tail := rest.congr fun cell member => by
          refine others cell (tailInFat cell member) ?_
          rintro rfl
          exact outside member
        rw [if_neg continues]
        obtain ⟨after, freed, kept', zero⟩ := ih (show FatArea middle.bpb by rwa [kept.bpb]) rest'
          (by rwa [kept.bpb]) (Nat.lt_of_succ_lt_succ enough)
        refine ⟨after, freed, ?_, fun cell member => ?_⟩
        · exact (kept.mono (by simp)).trans
            (kept'.mono fun cell member => List.mem_cons_of_mem _ member)
        · rcases List.mem_cons.mp member with rfl | later
          · have area' : FatArea middle.bpb := by rwa [kept.bpb]
            have entry' : HasEntry middle.bpb cell := by rwa [kept.bpb]
            have entry'' : HasEntry after.bpb cell := by rwa [kept'.bpb]
            rw [entry''.next_eq_copyEntry (by rwa [kept'.bpb]), kept'.entry cell entry'.2 outside,
              ← entry'.next_eq_copyEntry area', cleared]
          · exact zero cell later

/-- The cells of a chain are no more than there are cluster numbers. -/
theorem length_le_of_hasEntry {bpb : Bpb} {cells : List Nat} (nodup : cells.Nodup)
    (inFat : ∀ cell ∈ cells, HasEntry bpb cell) : cells.length ≤ 0x0FFFFFEE := by
  have subset : cells.toFinset ⊆ Finset.Icc 2 0x0FFFFFEF := by
    intro cell member
    have entry := inFat cell (List.mem_toFinset.mp member)
    exact Finset.mem_Icc.mpr ⟨entry.two_le, entry.le⟩
  have card := Finset.card_le_card subset
  rwa [List.toFinset_card_of_nodup nodup, Nat.card_Icc] at card

/-- `fat32_free_cluster_chain` ends on every closed FAT. Where the start heads a chain, the
call succeeds and clears the entries of the chain, and only these, in every copy. -/
theorem fat32FreeClusterChain_exact (vol : Volume) (start : Nat) (area : FatArea vol.bpb)
    (copies : FatCopiesEqual vol) (closed : ClosedFat vol) (entry : HasEntry vol.bpb start) :
    ∃ ok after, fat32FreeClusterChain vol start = some (ok, after) ∧
      ∀ cells, Linked (fat32GetNextCluster vol) (fun value => isEndOfClusterChain value = true) start cells →
        (∀ cell ∈ cells, HasEntry vol.bpb cell) →
        ok = true ∧ ∀ copy < vol.bpb.numFATs.toNat,
          (∀ cell ∈ cells, copyEntry after copy cell &&& 0x0FFFFFFF = 0) ∧
          ∀ index, index * 4 / 512 < vol.bpb.fatSz32.toNat → index ∉ cells →
            copyEntry after copy index = copyEntry vol copy index := by
  have few := card_occupiedClusters_le vol
  obtain ⟨ok, after, freed⟩ := freeChainLoop_ends area closed entry
    (show (occupiedClusters vol).card < chainFuel + 1 by simp only [chainFuel]; omega)
  refine ⟨ok, after, freed, fun cells linked inFat => ?_⟩
  have short := length_le_of_hasEntry linked.nodup inFat
  obtain ⟨after', freed', kept, zero⟩ := freeChainLoop_clears area linked inFat
    (show cells.length < chainFuel + 1 by simp only [chainFuel]; omega)
  obtain ⟨rfl, rfl⟩ := Prod.mk.inj (Option.some.inj (freed.symm.trans freed'))
  refine ⟨rfl, fun copy below => ⟨fun cell member => ?_, fun index inside outside => ?_⟩⟩
  · have entry' : HasEntry after.bpb cell := by
      rw [kept.bpb]
      exact inFat cell member
    rw [(kept.copies copies).copyEntry_eq (by rwa [kept.bpb]) entry'.2,
      ← entry'.next_eq_copyEntry (by rwa [kept.bpb])]
    exact zero cell member
  · exact kept.copyEntry_eq copies below inside outside

/-- The two clusters of a file are freed, the root directory's stays. -/
theorem fat32FreeClusterChain_exact_two :
    ClosedFat twoClusterVolume ∧ ∃ ok after, fat32FreeClusterChain twoClusterVolume 3 = some (ok, after) ∧
      ok = true ∧ copyEntry after 0 3 &&& 0x0FFFFFFF = 0 ∧ copyEntry after 0 4 &&& 0x0FFFFFFF = 0 ∧
      copyEntry after 0 2 = copyEntry twoClusterVolume 0 2 := by
  have area := twoClusterVolume_geometry.fatArea
  have copies : FatCopiesEqual twoClusterVolume := fatCopiesEqual_of_single (by decide +kernel)
  have closed : ClosedFat twoClusterVolume := by
    have oneSector : twoClusterVolume.bpb.fatSz32.toNat = 1 := by decide +kernel
    have all : ∀ cluster < 128, fat32GetNextCluster twoClusterVolume cluster = 0 ∨
        isEndOfClusterChain (fat32GetNextCluster twoClusterVolume cluster) = true ∨
        HasEntry twoClusterVolume.bpb (fat32GetNextCluster twoClusterVolume cluster) := by decide +kernel
    intro cluster entry
    have inFat := entry.2
    exact all cluster (by omega)
  have cells : ∀ cell ∈ [3, 4], HasEntry twoClusterVolume.bpb cell := fun cell member =>
    area.hasEntry (twoClusterVolume_chain.isCluster cell member)
  obtain ⟨ok, after, freed, exact⟩ := fat32FreeClusterChain_exact twoClusterVolume 3 area copies closed
    (cells 3 (by decide))
  obtain ⟨succeeded, everywhere⟩ := exact [3, 4] twoClusterVolume_chain.linked cells
  obtain ⟨zero, kept⟩ := everywhere 0 area.numFATs
  exact ⟨closed, ok, after, freed, succeeded, zero 3 (by decide), zero 4 (by decide),
    kept 2 (by decide +kernel) (by decide)⟩

end Freeing

/-! ## Loops that only look -/

/-- The loop of `fat32_validate_cluster_chain`. -/
def validateChainLoop (vol : Volume) : Nat → Nat → Option Bool
  | 0, _ => none
  | fuel + 1, curr =>
      if isValidCluster curr then
        let next := fat32GetNextCluster vol curr
        if next = 0 then some false
        else if isEndOfClusterChain next then some true
        else validateChainLoop vol fuel next
      else some false

/-- `fat32_validate_cluster_chain`. -/
def fat32ValidateClusterChain (vol : Volume) (startCluster : Nat) : Option Bool :=
  validateChainLoop vol (chainFuel + 1) startCluster

/-- Following the links from `start` passes through `cells` and meets an end mark. -/
def WalksThrough (vol : Volume) (start : Nat) (cells : List Nat) : Prop :=
  Linked (fat32GetNextCluster vol) (fun value => isEndOfClusterChain value = true) start cells

/-- Following the links from `start` leads to an end-of-chain mark. -/
def ReachesEnd (vol : Volume) (start : Nat) : Prop := ∃ cells, WalksThrough vol start cells

/-- The three loops end, and the validation accepts the chains that consist of valid
cluster numbers. -/
structure WalksEnd (vol : Volume) (start : Nat) : Prop where
  validate : (fat32ValidateClusterChain vol start).isSome = true
  count : (fat32CountClusterChain vol start).isSome = true
  append : (fat32AppendCluster vol start).isSome = true
  accepts : fat32ValidateClusterChain vol start = some true ↔
    ∃ cells, WalksThrough vol start cells ∧ ∀ cell ∈ cells, isValidCluster cell = true

section Looking

variable {vol : Volume} {start : Nat} {cells : List Nat}

/-- A walk that ends is shorter than the fuel of the loops, since it repeats no cell. -/
theorem WalksThrough.length_le (walk : WalksThrough vol start cells) : cells.length ≤ chainFuel := by
  have subset : cells.tail.toFinset ⊆ Finset.range 0x0FFFFFF8 := by
    intro cell member
    obtain ⟨_, _, inner⟩ := Linked.next_of_mem_tail walk (List.mem_toFinset.mp member)
    rw [Finset.mem_range]
    simpa [isEndOfClusterChain] using inner
  have card := Finset.card_le_card subset
  rw [List.toFinset_card_of_nodup walk.nodup.tail, Finset.card_range, List.length_tail] at card
  simp only [chainFuel]
  omega

/-- A search for the last cluster that returns has walked to an end mark. -/
theorem walksThrough_of_lastOfChain {fuel last : Nat} (found : lastOfChain vol fuel start = some last) :
    ∃ front, WalksThrough vol start (front ++ [last]) := by
  induction fuel generalizing start with
  | zero => simp [lastOfChain] at found
  | succ fuel ih =>
      rw [lastOfChain] at found
      split_ifs at found with ends
      · obtain rfl := Option.some.inj found
        exact ⟨[], .last ends⟩
      · obtain ⟨front, walk⟩ := ih found
        exact ⟨start :: front, .cons ends walk⟩

theorem fat32AppendCluster_isSome_iff :
    (fat32AppendCluster vol start).isSome = true ↔ ReachesEnd vol start := by
  rw [fat32AppendCluster, Option.isSome_map, Option.isSome_iff_exists]
  constructor
  · rintro ⟨last, found⟩
    obtain ⟨front, walk⟩ := walksThrough_of_lastOfChain found
    exact ⟨_, walk⟩
  · rintro ⟨cells, walk⟩
    have short := walk.length_le
    obtain ⟨front, last, rfl⟩ : ∃ front last, cells = front ++ [last] :=
      ⟨_, _, (List.dropLast_append_getLast (Linked.ne_nil walk)).symm⟩
    rw [List.length_append, List.length_singleton] at short
    exact ⟨last, lastOfChain_eq walk (by omega)⟩

/-- Where the append gives up its search, no number of rounds would have been enough. -/
theorem lastOfChain_never (never : fat32AppendCluster vol start = none) (fuel : Nat) :
    lastOfChain vol fuel start = none := by
  by_contra found
  obtain ⟨last, found⟩ := Option.ne_none_iff_exists'.mp found
  obtain ⟨front, walk⟩ := walksThrough_of_lastOfChain found
  have returns := fat32AppendCluster_isSome_iff.mpr ⟨_, walk⟩
  rw [never] at returns
  exact absurd returns (by decide)

/-- Along a walk to an end mark the validation says whether all cells are valid. -/
theorem validateChainLoop_eq {fuel : Nat} (walk : WalksThrough vol start cells) (enough : cells.length < fuel) :
    validateChainLoop vol fuel start = some (decide (∀ cell ∈ cells, isValidCluster cell = true)) := by
  unfold WalksThrough at walk
  induction walk generalizing fuel with
  | @last cell ends =>
      obtain ⟨fuel, rfl⟩ := Nat.exists_eq_succ_of_ne_zero (Nat.ne_of_gt (Nat.zero_lt_of_lt enough))
      have occupied : fat32GetNextCluster vol cell ≠ 0 := by
        intro zero
        rw [zero] at ends
        exact absurd ends (by decide)
      rw [validateChainLoop]
      dsimp only
      rw [if_neg occupied, if_pos ends]
      by_cases valid : isValidCluster cell = true <;> simp [valid]
  | @cons cell rest continues tail ih =>
      obtain ⟨fuel, rfl⟩ := Nat.exists_eq_succ_of_ne_zero (Nat.ne_of_gt (Nat.zero_lt_of_lt enough))
      have onward := ih (Nat.lt_of_succ_lt_succ enough)
      rw [validateChainLoop]
      dsimp only
      by_cases valid : isValidCluster cell = true
      swap
      · simp [valid]
      rw [if_pos valid]
      by_cases zero : fat32GetNextCluster vol cell = 0
      · -- The walk goes on at entry 0, which is no cluster.
        have member := tail.start_mem
        rw [zero] at member
        have invalid : ¬ ∀ other ∈ cell :: rest, isValidCluster other = true := fun all =>
          absurd (all 0 (List.mem_cons_of_mem _ member)) (by decide)
        rw [if_pos zero, decide_eq_false invalid]
      · rw [if_neg zero, if_neg continues, onward]
        simp [valid]

/-- Along a walk to an end mark the count ends. -/
theorem countChainLoop_isSome {fuel count : Nat} (walk : WalksThrough vol start cells)
    (enough : cells.length < fuel) : (countChainLoop vol fuel count start).isSome = true := by
  unfold WalksThrough at walk
  induction walk generalizing fuel count with
  | @last cell ends =>
      obtain ⟨fuel, rfl⟩ := Nat.exists_eq_succ_of_ne_zero (Nat.ne_of_gt (Nat.zero_lt_of_lt enough))
      rw [countChainLoop]
      dsimp only
      rw [if_pos ends]
      split_ifs <;> rfl
  | @cons cell rest continues tail ih =>
      obtain ⟨fuel, rfl⟩ := Nat.exists_eq_succ_of_ne_zero (Nat.ne_of_gt (Nat.zero_lt_of_lt enough))
      rw [countChainLoop]
      dsimp only
      split_ifs
      · exact ih (Nat.lt_of_succ_lt_succ enough)
      · rfl

/-- The loops do what they owe exactly where the links from the start lead to an end mark. -/
theorem walksEnd_iff (vol : Volume) (start : Nat) : WalksEnd vol start ↔ ReachesEnd vol start := by
  constructor
  · intro ends
    exact fat32AppendCluster_isSome_iff.mp ends.append
  · rintro ⟨cells, walk⟩
    have short := walk.length_le
    have enough : cells.length < chainFuel + 1 := by omega
    have validated : fat32ValidateClusterChain vol start =
        some (decide (∀ cell ∈ cells, isValidCluster cell = true)) := validateChainLoop_eq walk enough
    constructor
    · rw [validated]
      rfl
    · exact countChainLoop_isSome walk enough
    · exact fat32AppendCluster_isSome_iff.mpr ⟨cells, walk⟩
    · rw [validated]
      constructor
      · intro accepted
        exact ⟨cells, walk, by simpa using accepted⟩
      · rintro ⟨other, walk', valid⟩
        rw [Linked.unique walk walk', decide_eq_true valid]

/-- No link from a cluster that names itself leads to an end mark. -/
theorem not_reachesEnd_of_self (self : fat32GetNextCluster vol start = start)
    (inner : isEndOfClusterChain start = false) : ¬ ReachesEnd vol start := by
  rintro ⟨cells, walk⟩
  induction cells with
  | nil => exact Linked.ne_nil walk rfl
  | cons head tail ih =>
      obtain ⟨_, shape⟩ := Linked.eq_cons walk
      obtain rfl : head = start := (List.cons.inj shape).1
      by_cases last : tail = []
      · subst last
        have ends := (Linked.stop_of_singleton walk).2
        rw [self, inner] at ends
        exact absurd ends (by decide)
      · obtain ⟨_, _, rest⟩ := Linked.tail_of_ne_nil walk last
        rw [self] at rest
        exact ih rest

/-- The small volume with a cluster that names itself. -/
def loopVolume : Volume := (fat32SetNextCluster smallVolume 3 3).2

/-- None of the loops leaves a cluster that names itself. -/
theorem walks_loop_forever :
    (∀ fuel, validateChainLoop loopVolume fuel 3 = none) ∧
      (∀ fuel count, countChainLoop loopVolume fuel count 3 = none) ∧
      (∀ fuel, lastOfChain loopVolume fuel 3 = none) ∧ ¬ WalksEnd loopVolume 3 := by
  have self : fat32GetNextCluster loopVolume 3 = 3 := by decide +kernel
  have never : ¬ ReachesEnd loopVolume 3 := not_reachesEnd_of_self self (by decide)
  have append : fat32AppendCluster loopVolume 3 = none := by
    rwa [← fat32AppendCluster_isSome_iff, Option.not_isSome_iff_eq_none] at never
  refine ⟨fun fuel => ?_, fun fuel count => ?_, lastOfChain_never append, fun ends => ?_⟩
  · induction fuel with
    | zero => rfl
    | succ fuel ih =>
        rw [validateChainLoop, self]
        exact ih
  · induction fuel generalizing count with
    | zero => rfl
    | succ fuel ih =>
        rw [countChainLoop, self]
        exact ih (count + 1)
  · exact never (fat32AppendCluster_isSome_iff.mp ends.append)

end Looking

end KeblaOS.Fat32
