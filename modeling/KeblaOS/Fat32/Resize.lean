import KeblaOS.Fat32.Allocator
import KeblaOS.Fat32.FileEffect

/-!
# Truncating and expanding a file

`f_truncate` and `f_expand` of `file_manager.c` with the chain functions only they
use. Both look for a place in the file's chain with a loop of their own that stops at
a zero entry, not at an end mark. `f_truncate` leaves the chain through its end mark
when the position is the capacity of the whole chain, and keeps a cluster too many at
every other cluster boundary. `f_expand` always leaves the chain: it hangs the new
clusters behind whatever free entry the stray walk meets, never behind the file.
-/

namespace KeblaOS.Fat32

/-- What `f_truncate` and `f_expand` return, with the handle and the volume afterwards. -/
structure ResizeResult where
  ok : Bool
  fp : Fat32File
  vol : Volume

/-- `f_truncate`. -/
def fTruncate (vol : Volume) (fp : Fat32File) : Option ResizeResult :=
  if fp.pos = 0 then
    let emptied := { fp with firstCluster := 0, currentCluster := 0, size := 0 }
    if fp.firstCluster = 0 then some ⟨true, emptied, vol⟩
    else (fat32FreeClusterChain vol fp.firstCluster).map fun freed => ⟨true, emptied, freed.2⟩
  else
    match walkChain vol (fp.pos + 1) fp.pos fp.firstCluster with
    | none => none
    | some (_, cluster) =>
        if cluster = 0 then some ⟨false, fp, vol⟩
        else
          let next := fat32GetNextCluster vol cluster
          -- The result is not looked at: an end mark in place of a cluster goes unnoticed.
          let vol := (fat32SetNextCluster vol cluster 0x0FFFFFFF).2
          let cut := { fp with size := fp.pos, currentCluster := cluster }
          if next = 0 then some ⟨true, cut, vol⟩
          else (fat32FreeClusterChain vol next).map fun freed => ⟨true, cut, freed.2⟩

/-- The loop of `fat32_count_cluster_chain`. -/
def countChainLoop (vol : Volume) : Nat → Nat → Nat → Option Nat
  | 0, _, _ => none
  | fuel + 1, count, curr =>
      if isValidCluster curr then
        let next := fat32GetNextCluster vol curr
        if isEndOfClusterChain next then some (count + 1) else countChainLoop vol fuel (count + 1) next
      else some count

/-- `fat32_count_cluster_chain`. -/
def fat32CountClusterChain (vol : Volume) (startCluster : Nat) : Option Nat :=
  countChainLoop vol (chainFuel + 1) 0 startCluster

/-- What `fat32_allocate_cluster_chain` has reached: whether it goes on, `*first_cluster`,
`prev_cluster` and the volume. -/
structure ChainProgress where
  ok : Bool
  firstCluster : Nat
  prevCluster : Nat
  vol : Volume

/-- The loop of `fat32_allocate_cluster_chain`. -/
def allocateChainLoop : Nat → Volume → Nat → Nat → ChainProgress
  | 0, vol, firstCluster, prevCluster => ⟨true, firstCluster, prevCluster, vol⟩
  | count + 1, vol, firstCluster, prevCluster =>
      match fat32AllocateCluster vol with
      | (none, vol) => ⟨false, firstCluster, prevCluster, vol⟩
      | (some newCluster, vol) =>
          if prevCluster = 0 then allocateChainLoop count vol newCluster newCluster
          else match fat32SetNextCluster vol prevCluster newCluster with
            | (false, vol) => ⟨false, firstCluster, prevCluster, vol⟩
            | (true, vol) => allocateChainLoop count vol firstCluster newCluster

/-- `fat32_allocate_cluster_chain`: success, `*first_cluster` and the volume. -/
def fat32AllocateClusterChain (vol : Volume) (count : Nat) : Bool × Nat × Volume :=
  let progress := allocateChainLoop count vol 0 0
  if progress.ok then
    let (ok, vol) := fat32SetNextCluster progress.vol progress.prevCluster clusterEndOfChain
    (ok, progress.firstCluster, vol)
  else (false, progress.firstCluster, progress.vol)

/-- The loop `while (fat32_get_next_cluster(last))` of `f_expand`. -/
def freeEntryBehind (vol : Volume) : Nat → Nat → Option Nat
  | 0, _ => none
  | fuel + 1, last =>
      if fat32GetNextCluster vol last = 0 then some last
      else freeEntryBehind vol fuel (fat32GetNextCluster vol last)

/-- `f_expand`. -/
def fExpand (vol : Volume) (fp : Fat32File) (size : Nat) : Option ResizeResult :=
  let clusterSize := getClusterSizeBytes vol.bpb
  let needed := u32 (size + clusterSize - 1) / clusterSize
  let counted := if fp.firstCluster = 0 then some 0 else fat32CountClusterChain vol fp.firstCluster
  match counted with
  | none => none
  | some current =>
      if needed ≤ current then some ⟨true, fp, vol⟩
      else
        match fat32AllocateClusterChain vol (needed - current) with
        | (false, _, vol) => some ⟨false, fp, vol⟩
        | (true, firstNew, vol) =>
            if fp.firstCluster = 0 then
              some ⟨true, { fp with firstCluster := firstNew, currentCluster := firstNew }, vol⟩
            else (freeEntryBehind vol (chainFuel + 1) fp.firstCluster).map fun last =>
              ⟨true, fp, (fat32SetNextCluster vol last firstNew).2⟩

/-- Number of clusters that hold a number of bytes. -/
def clustersFor (bpb : Bpb) (bytes : Nat) : Nat :=
  (bytes + getClusterSizeBytes bpb - 1) / getClusterSizeBytes bpb

/-! ## What the calls owe -/

/-- The chain of a file cut to the clusters its position needs. -/
structure Truncated (vol : Volume) (fp : Fat32File) (cells : List Nat) (result : ResizeResult) : Prop where
  size : result.fp.size = fp.pos
  chain : OwnedChain result.vol result.fp.firstCluster (cells.take (clustersFor vol.bpb fp.pos))
  freed : ∀ cell ∈ cells.drop (clustersFor vol.bpb fp.pos), fat32GetNextCluster result.vol cell = 0
  others : ∀ cell, IsCluster vol.bpb cell → cell ∉ cells →
    fat32GetNextCluster result.vol cell = fat32GetNextCluster vol cell

/-- `f_truncate` returns, and a success cuts the file to its position. -/
def TruncatesCorrectly (vol : Volume) (fp : Fat32File) (cells : List Nat) : Prop :=
  ∃ result, fTruncate vol fp = some result ∧ (result.ok = true → Truncated vol fp cells result)

/-- The chain of a file with enough free clusters behind it to hold `size` bytes. -/
structure Expanded (vol : Volume) (cells : List Nat) (size : Nat) (result : ResizeResult)
    (added : List Nat) : Prop where
  chain : OwnedChain result.vol result.fp.firstCluster (cells ++ added)
  free : ∀ cell ∈ added, IsCluster vol.bpb cell ∧ fat32GetNextCluster vol cell = 0
  length : (cells ++ added).length = max cells.length (clustersFor vol.bpb size)
  others : ∀ cell, IsCluster vol.bpb cell → cell ∉ cells ++ added →
    fat32GetNextCluster result.vol cell = fat32GetNextCluster vol cell

/-- `f_expand` returns, a success expands the file and a failure leaves the FAT alone. -/
def ExpandsCorrectly (vol : Volume) (fp : Fat32File) (cells : List Nat) (size : Nat) : Prop :=
  ∃ result, fExpand vol fp size = some result ∧
    (result.ok = true → ∃ added, Expanded vol cells size result added) ∧
    (result.ok = false → ∀ cell, IsCluster vol.bpb cell →
      fat32GetNextCluster result.vol cell = fat32GetNextCluster vol cell)

/-! ## Truncation -/

section Truncation

variable {vol : Volume} {fp : Fat32File} {cells : List Nat}

/-- An end mark is no cluster number: its entry cannot be stored to. -/
theorem fat32SetNextCluster_end {mark : Nat} (value : Nat) (ends : isEndOfClusterChain mark = true) :
    fat32SetNextCluster vol mark value = (false, vol) := by
  rw [fat32SetNextCluster, if_neg (not_isValidCluster_of_end ends)]

/-- Freeing a chain that does not start at an occupied entry changes nothing. -/
theorem fat32FreeClusterChain_idle {start : Nat}
    (idle : isValidCluster start = false ∨ fat32GetNextCluster vol start = 0) :
    ∃ ok, fat32FreeClusterChain vol start = some (ok, vol) := by
  rw [fat32FreeClusterChain, freeChainLoop]
  by_cases valid : isValidCluster start = true
  · have free : fat32GetNextCluster vol start = 0 := by simpa [valid] using idle
    rw [if_pos valid]
    dsimp only
    rw [if_pos free]
    exact ⟨false, rfl⟩
  · rw [if_neg valid]
    exact ⟨true, rfl⟩

/-- A walk as far as the whole chain steps onto its end mark. -/
theorem walkChain_past_end {fuel start last : Nat} {front : List Nat} (geometry : Geometry vol.bpb)
    (chain : ClusterChain vol start (front ++ [last]))
    (enough : (front ++ [last]).length * getClusterSizeBytes vol.bpb < fuel) :
    walkChain vol fuel ((front ++ [last]).length * getClusterSizeBytes vol.bpb) start =
      some (0, fat32GetNextCluster vol last) := by
  have positive := geometry.clusterSize_pos
  induction front generalizing fuel start with
  | nil =>
      obtain ⟨rfl, _⟩ := chain.linked.stop_of_singleton
      simp only [List.nil_append, List.length_singleton, Nat.one_mul] at enough ⊢
      obtain ⟨fuel, rfl⟩ := Nat.exists_eq_add_of_lt enough
      have step : walkChain vol (getClusterSizeBytes vol.bpb + fuel + 1) (getClusterSizeBytes vol.bpb) start =
          walkChain vol (getClusterSizeBytes vol.bpb + fuel) 0 (fat32GetNextCluster vol start) := by
        rw [walkChain, if_pos ⟨le_rfl, chain.start_ne_zero⟩, Nat.sub_self]
      have more : getClusterSizeBytes vol.bpb + fuel = getClusterSizeBytes vol.bpb + fuel - 1 + 1 := by omega
      rw [step, more, walkChain, if_neg (by omega)]
  | cons head tail ih =>
      obtain ⟨rfl, _, tailLinked⟩ := chain.linked.tail_of_ne_nil (by simp)
      have tailChain : ClusterChain vol (fat32GetNextCluster vol start) (tail ++ [last]) :=
        ⟨tailLinked, fun cell member => chain.isCluster cell (List.mem_cons_of_mem _ member)⟩
      simp only [List.cons_append, List.length_cons, Nat.succ_mul] at enough ⊢
      obtain ⟨fuel, rfl⟩ := Nat.exists_eq_succ_of_ne_zero (Nat.ne_of_gt (Nat.zero_lt_of_lt enough))
      rw [walkChain, if_pos ⟨by omega, chain.start_ne_zero⟩, Nat.add_sub_cancel]
      exact ih tailChain (by omega)

/-- Number of clusters that hold so many whole clusters and a rest. -/
theorem clustersFor_eq {bpb : Bpb} {whole rest : Nat} (positive : 0 < getClusterSizeBytes bpb)
    (fraction : rest < getClusterSizeBytes bpb) :
    clustersFor bpb (whole * getClusterSizeBytes bpb + rest) = if rest = 0 then whole else whole + 1 := by
  unfold clustersFor
  split_ifs with none
  · rw [none, Nat.div_eq_iff positive]
    omega
  · rw [Nat.div_eq_iff positive, Nat.succ_mul]
    omega

theorem clustersFor_mul {bpb : Bpb} {whole : Nat} (positive : 0 < getClusterSizeBytes bpb) :
    clustersFor bpb (whole * getClusterSizeBytes bpb) = whole := by
  have exact := @clustersFor_eq bpb whole 0 positive positive
  rwa [if_pos rfl, Nat.add_zero] at exact

/-- What `f_truncate` does inside the chain: the cell that holds the position becomes the
last one, and the cells behind it are freed. -/
theorem fTruncate_inside (geometry : Geometry vol.bpb) (chain : ClusterChain vol fp.firstCluster cells)
    (nonzero : fp.pos ≠ 0) (inside : fp.pos < cells.length * getClusterSizeBytes vol.bpb) :
    ∃ front cell rest after, cells = front ++ cell :: rest ∧
      fp.pos = front.length * getClusterSizeBytes vol.bpb + fp.pos % getClusterSizeBytes vol.bpb ∧
      fTruncate vol fp = some ⟨true, { fp with size := fp.pos, currentCluster := cell }, after⟩ ∧
      ClusterChain after fp.firstCluster (front ++ [cell]) ∧
      (∀ other ∈ rest, fat32GetNextCluster after other = 0) ∧
      ∀ other, IsCluster vol.bpb other → other ∉ cells →
        fat32GetNextCluster after other = fat32GetNextCluster vol other := by
  obtain ⟨front, cell, rest, rfl, walked, position⟩ :=
    walkChain_eq geometry chain (Nat.lt_succ_self fp.pos) inside
  have member : cell ∈ front ++ cell :: rest := by simp
  have inRange := chain.isCluster cell member
  have occupied := chain.next_ne_zero member
  have same := sameExcept_setNext 0x0FFFFFFF geometry inRange
  have ended := fat32GetNextCluster_setNext_self 0x0FFFFFFF geometry.fatArea inRange
  have nonnull : cell ≠ 0 := by
    have lower := inRange.1
    omega
  unfold fTruncate
  rw [if_neg nonzero, walked]
  dsimp only
  rw [if_neg nonnull, if_neg occupied]
  generalize (fat32SetNextCluster vol cell 0x0FFFFFFF).2 = middle at same ended ⊢
  have nodup := List.nodup_append.mp chain.nodup
  have notBehind : cell ∉ rest := (List.nodup_cons.mp nodup.2.1).1
  -- The cells behind the cut are a chain of their own, or there are none.
  obtain ⟨ok, after, freed, result⟩ : ∃ ok after,
      fat32FreeClusterChain middle (fat32GetNextCluster vol cell) = some (ok, after) ∧
        Freed middle after rest := by
    cases rest with
    | nil =>
        obtain ⟨_, ends⟩ := chain.drop.linked.stop_of_singleton
        have invalid : isValidCluster (fat32GetNextCluster vol cell) = false := by
          simp only [isEndOfClusterChain, decide_eq_true_eq] at ends
          simp only [isValidCluster, Bool.and_eq_false_iff, decide_eq_false_iff_not]
          omega
        obtain ⟨ok, unchanged⟩ := @fat32FreeClusterChain_idle middle _ (.inl invalid)
        exact ⟨ok, middle, unchanged, .refl middle _ _, fun _ none => absurd none List.not_mem_nil, rfl⟩
    | cons second others =>
        obtain ⟨_, _, linked⟩ := chain.drop.linked.tail_of_ne_nil (List.cons_ne_nil second others)
        have behind : ClusterChain vol (fat32GetNextCluster vol cell) (second :: others) :=
          ⟨linked, fun other later => chain.isCluster other (by simp [List.mem_cons.mp later])⟩
        have apart : ∀ other ∈ second :: others, other ∉ ({cell} : Set Nat) := by
          rintro other later rfl
          exact notBehind later
        obtain ⟨after, freed, result⟩ :=
          fat32FreeClusterChain_eq (by rwa [same.bpb]) (behind.congr same apart)
        exact ⟨true, after, freed, result⟩
  have kept : ∀ other, IsCluster vol.bpb other → other ≠ cell → other ∉ rest →
      fat32GetNextCluster after other = fat32GetNextCluster vol other := by
    intro other inside different outside
    rw [result.same.next other (by rwa [same.bpb]) outside, same.next other inside different]
  have last : ClusterChain after cell [cell] := by
    refine ⟨.last ?_, fun other single => ?_⟩
    · rw [result.same.next cell (by rwa [same.bpb]) notBehind, ended]
      decide
    · rw [List.mem_singleton.mp single, result.same.bpb, same.bpb]
      exact inRange
  refine ⟨front, cell, rest, after, rfl, position, by rw [freed]; rfl, ?_, result.zero,
    fun other inside outside => ?_⟩
  · refine ⟨chain.linked.replace_tail (fun earlier early => ?_) last.linked, fun other chained => ?_⟩
    · have apart := nodup.2.2 earlier early
      exact kept earlier (chain.isCluster earlier (List.mem_append_left _ early))
        (apart cell List.mem_cons_self) fun later => apart earlier (List.mem_cons_of_mem _ later) rfl
    · rw [result.same.bpb, same.bpb]
      exact chain.isCluster other (by simp at chained ⊢; tauto)
  · simp only [List.mem_append, List.mem_cons, not_or] at outside
    exact kept other inside outside.2.1 outside.2.2

/-- At position zero the whole chain is freed. -/
theorem fTruncate_empty (geometry : Geometry vol.bpb) (owned : OwnedChain vol fp.firstCluster cells)
    (zero : fp.pos = 0) : TruncatesCorrectly vol fp cells := by
  have none : clustersFor vol.bpb 0 = 0 := by
    have positive := geometry.clusterSize_pos
    rw [clustersFor, Nat.zero_add]
    exact Nat.div_eq_of_lt (by omega)
  unfold TruncatesCorrectly fTruncate
  rw [if_pos zero]
  dsimp only
  rcases owned with ⟨nothing, rfl⟩ | chain
  · rw [if_pos nothing]
    refine ⟨_, rfl, fun _ => ⟨zero.symm, .inl ⟨rfl, List.take_nil⟩, ?_, fun _ _ _ => rfl⟩⟩
    rw [List.drop_nil]
    exact fun _ absent => absurd absent List.not_mem_nil
  · obtain ⟨after, freed, result⟩ := fat32FreeClusterChain_eq geometry chain
    rw [if_neg chain.start_ne_zero, freed]
    refine ⟨_, rfl, fun _ => ⟨zero.symm, .inl ⟨rfl, ?_⟩, ?_, ?_⟩⟩
    · rw [zero, none, List.take_zero]
    · rw [zero, none, List.drop_zero]
      exact result.zero
    · exact fun cell inRange outside => result.same.next cell inRange outside

/-- The word `f_truncate` takes for the successor of the end mark of a chain. -/
def wordPastEnd (vol : Volume) (cells : List Nat) : Nat :=
  fat32GetNextCluster vol (fat32GetNextCluster vol (cells.getLastD 0))

/-- What `f_truncate` does at the capacity of the whole chain: it frees whatever chain the
word past the end mark names. -/
theorem fTruncate_whole (geometry : Geometry vol.bpb) (chain : ClusterChain vol fp.firstCluster cells)
    (whole : fp.pos = cells.length * getClusterSizeBytes vol.bpb) :
    ∃ cut : Fat32File, cut.size = fp.pos ∧ cut.firstCluster = fp.firstCluster ∧
      fTruncate vol fp =
        if wordPastEnd vol cells = 0 then some ⟨true, cut, vol⟩
        else (fat32FreeClusterChain vol (wordPastEnd vol cells)).map fun freed => ⟨true, cut, freed.2⟩ := by
  have positive := geometry.clusterSize_pos
  obtain ⟨front, last, rfl⟩ : ∃ front last, cells = front ++ [last] :=
    ⟨_, _, (List.dropLast_append_getLast chain.linked.ne_nil).symm⟩
  have nonzero : fp.pos ≠ 0 := by
    rw [whole, List.length_append, List.length_singleton, Nat.succ_mul]
    omega
  have ends := chain.drop.linked.stop_of_singleton.2
  have occupied := chain.next_ne_zero (List.mem_append_right front (List.mem_singleton_self last))
  have walked := @walkChain_past_end vol (fp.pos + 1) fp.firstCluster last front geometry chain (by omega)
  rw [← whole] at walked
  have word : wordPastEnd vol (front ++ [last]) =
      fat32GetNextCluster vol (fat32GetNextCluster vol last) := by
    rw [wordPastEnd, List.getLastD_concat]
  refine ⟨{ fp with size := fp.pos, currentCluster := fat32GetNextCluster vol last }, rfl, rfl, ?_⟩
  unfold fTruncate
  rw [if_neg nonzero, walked]
  dsimp only
  rw [if_neg occupied, fat32SetNextCluster_end _ ends, word]

/-- Where `f_truncate` cuts at the right place: at zero, inside a cluster, and at the
capacity of the whole chain provided the word past the end mark names nothing occupied. -/
def CutsInsideCluster (vol : Volume) (fp : Fat32File) (cells : List Nat) : Prop :=
  fp.pos = 0 ∨ fp.pos % getClusterSizeBytes vol.bpb ≠ 0 ∨
    (fp.pos = cells.length * getClusterSizeBytes vol.bpb ∧
      (isValidCluster (wordPastEnd vol cells) = false ∨
        fat32GetNextCluster vol (wordPastEnd vol cells) = 0))

/-- Inside a cluster the cut is right. -/
theorem truncates_of_fraction (geometry : Geometry vol.bpb) (chain : ClusterChain vol fp.firstCluster cells)
    (fraction : fp.pos % getClusterSizeBytes vol.bpb ≠ 0)
    (inside : fp.pos < cells.length * getClusterSizeBytes vol.bpb) : TruncatesCorrectly vol fp cells := by
  have positive := geometry.clusterSize_pos
  have nonzero : fp.pos ≠ 0 := by
    intro zero
    rw [zero, Nat.zero_mod] at fraction
    exact fraction rfl
  obtain ⟨front, cell, rest, after, rfl, position, returned, cut, freed, others⟩ :=
    fTruncate_inside geometry chain nonzero inside
  have kept : clustersFor vol.bpb fp.pos = (front ++ [cell]).length := by
    rw [position, clustersFor_eq positive (Nat.mod_lt _ positive), if_neg fraction, List.length_append,
      List.length_singleton]
  have split : front ++ cell :: rest = (front ++ [cell]) ++ rest := by
    rw [List.append_assoc, List.singleton_append]
  refine ⟨_, returned, fun _ => ⟨rfl, .inr ?_, ?_, others⟩⟩
  · rw [kept, split, List.take_left]
    exact cut
  · rw [kept, split, List.drop_left]
    exact freed

/-- At an inner cluster boundary the cluster behind the cut stays in the chain. -/
theorem not_truncates_of_boundary (geometry : Geometry vol.bpb)
    (chain : ClusterChain vol fp.firstCluster cells) (nonzero : fp.pos ≠ 0)
    (boundary : fp.pos % getClusterSizeBytes vol.bpb = 0)
    (inside : fp.pos < cells.length * getClusterSizeBytes vol.bpb) : ¬ TruncatesCorrectly vol fp cells := by
  have positive := geometry.clusterSize_pos
  obtain ⟨front, cell, rest, after, rfl, position, returned, cut, _, _⟩ :=
    fTruncate_inside geometry chain nonzero inside
  have kept : clustersFor vol.bpb fp.pos = front.length := by
    rw [position, clustersFor_eq positive (Nat.mod_lt _ positive), if_pos boundary]
  rintro ⟨result, returned', correct⟩
  obtain rfl := Option.some.inj (returned.symm.trans returned')
  have free := (correct rfl).freed cell (by rw [kept, List.drop_left]; exact List.mem_cons_self)
  exact cut.next_ne_zero (by simp) free

/-- At the capacity of the whole chain nothing has to change, and nothing does if the word
past the end mark names nothing occupied. -/
theorem truncates_of_whole (geometry : Geometry vol.bpb) (chain : ClusterChain vol fp.firstCluster cells)
    (whole : fp.pos = cells.length * getClusterSizeBytes vol.bpb)
    (idle : isValidCluster (wordPastEnd vol cells) = false ∨
      fat32GetNextCluster vol (wordPastEnd vol cells) = 0) : TruncatesCorrectly vol fp cells := by
  have kept : clustersFor vol.bpb fp.pos = cells.length := by
    rw [whole, clustersFor_mul geometry.clusterSize_pos]
  obtain ⟨cut, size, first, returned⟩ := fTruncate_whole geometry chain whole
  have unchanged : fTruncate vol fp = some ⟨true, cut, vol⟩ := by
    obtain ⟨ok, freed⟩ := fat32FreeClusterChain_idle idle
    rw [returned, freed]
    split_ifs <;> rfl
  refine ⟨_, unchanged, fun _ => ⟨size, .inr ?_, ?_, fun _ _ _ => rfl⟩⟩
  · rw [kept, List.take_length, first]
    exact chain
  · rw [kept, List.drop_length]
    exact fun _ absent => absurd absent List.not_mem_nil

/-- A chain the word past the end mark names is lost. -/
theorem not_truncates_of_stray {strays : List Nat} (geometry : Geometry vol.bpb)
    (chain : ClusterChain vol fp.firstCluster cells)
    (whole : fp.pos = cells.length * getClusterSizeBytes vol.bpb)
    (stray : ClusterChain vol (wordPastEnd vol cells) strays) : ¬ TruncatesCorrectly vol fp cells := by
  have kept : clustersFor vol.bpb fp.pos = cells.length := by
    rw [whole, clustersFor_mul geometry.clusterSize_pos]
  obtain ⟨cut, _, _, returned⟩ := fTruncate_whole geometry chain whole
  obtain ⟨after, freed, lost⟩ := fat32FreeClusterChain_eq geometry stray
  rw [if_neg stray.start_ne_zero, freed, Option.map_some] at returned
  have zero := lost.zero _ stray.linked.start_mem
  rintro ⟨result, returned', correct⟩
  obtain rfl := Option.some.inj (returned.symm.trans returned')
  have truncated := correct rfl
  by_cases own : wordPastEnd vol cells ∈ cells
  · have remains := truncated.chain
    rw [kept, List.take_length] at remains
    rcases remains with ⟨_, none⟩ | remains
    · exact chain.linked.ne_nil none
    · exact remains.next_ne_zero own zero
  · have same := truncated.others _ stray.start_isCluster own
    exact stray.next_ne_zero stray.linked.start_mem (same.symm.trans zero)

/-- `f_truncate` does what it owes when it cuts inside a cluster, and only then, unless the
word past the end mark names something that is no chain of the volume. -/
theorem fTruncate_correct (vol : Volume) (fp : Fat32File) (cells : List Nat) (geometry : Geometry vol.bpb)
    (owned : OwnedChain vol fp.firstCluster cells) (enough : clustersFor vol.bpb fp.size ≤ cells.length)
    (inside : fp.pos ≤ fp.size) :
    (CutsInsideCluster vol fp cells → TruncatesCorrectly vol fp cells) ∧
      (TruncatesCorrectly vol fp cells → CutsInsideCluster vol fp cells ∨
        (fp.pos = cells.length * getClusterSizeBytes vol.bpb ∧
          ¬ ∃ strays, ClusterChain vol (wordPastEnd vol cells) strays)) := by
  have positive := geometry.clusterSize_pos
  have filled : fp.pos ≤ cells.length * getClusterSizeBytes vol.bpb := by
    have bound := Nat.lt_succ_of_le enough
    rw [clustersFor, Nat.div_lt_iff_lt_mul positive, Nat.succ_mul] at bound
    omega
  by_cases zero : fp.pos = 0
  · exact ⟨fun _ => fTruncate_empty geometry owned zero, fun _ => .inl (.inl zero)⟩
  have chain : ClusterChain vol fp.firstCluster cells := by
    rcases owned with ⟨_, rfl⟩ | chain
    · rw [List.length_nil, Nat.zero_mul] at filled
      omega
    · exact chain
  by_cases boundary : fp.pos % getClusterSizeBytes vol.bpb = 0
  swap
  · have inner : fp.pos < cells.length * getClusterSizeBytes vol.bpb := by
      refine lt_of_le_of_ne filled fun whole => boundary ?_
      rw [whole, Nat.mul_mod_left]
    exact ⟨fun _ => truncates_of_fraction geometry chain boundary inner, fun _ => .inl (.inr (.inl boundary))⟩
  by_cases whole : fp.pos = cells.length * getClusterSizeBytes vol.bpb
  · constructor
    · rintro (absurdZero | fraction | ⟨_, idle⟩)
      · exact absurd absurdZero zero
      · exact absurd boundary fraction
      · exact truncates_of_whole geometry chain whole idle
    · intro correct
      refine .inr ⟨whole, ?_⟩
      rintro ⟨strays, stray⟩
      exact not_truncates_of_stray geometry chain whole stray correct
  · have inner := lt_of_le_of_ne filled whole
    constructor
    · rintro (absurdZero | fraction | ⟨atEnd, _⟩)
      · exact absurd absurdZero zero
      · exact absurd boundary fraction
      · exact absurd atEnd whole
    · exact fun correct => absurd correct (not_truncates_of_boundary geometry chain zero boundary inner)

/-- A file of two clusters on the small volume. -/
def twoClusterVolume : Volume :=
  (fat32SetNextCluster (fat32SetNextCluster smallVolume 3 4).2 4 clusterEndOfChain).2

/-- A handle on the file of two clusters, at a position. -/
def twoClusterFile (pos : Nat) : Fat32File :=
  { closedFile with firstCluster := 3, currentCluster := 3, size := 1024, pos := pos }

theorem twoClusterVolume_geometry : Geometry twoClusterVolume.bpb := by
  have bpb : twoClusterVolume.bpb = smallBpb := by
    have three : IsCluster smallVolume.bpb 3 := by decide +kernel
    have four : IsCluster (fat32SetNextCluster smallVolume 3 4).2.bpb 4 := by decide +kernel
    have area : FatArea smallVolume.bpb := by
      rw [smallVolume_bpb]
      exact smallBpb_geometry.fatArea
    have first := fat32SetNextCluster_bpb 4 area three
    exact (fat32SetNextCluster_bpb clusterEndOfChain (by rwa [first]) four).trans (first.trans smallVolume_bpb)
  rw [bpb]
  exact smallBpb_geometry

theorem twoClusterVolume_chain : ClusterChain twoClusterVolume 3 [3, 4] := by
  have next : fat32GetNextCluster twoClusterVolume 3 = 4 := by decide +kernel
  have last : isEndOfClusterChain (fat32GetNextCluster twoClusterVolume 4) = true := by decide +kernel
  have inRange : IsCluster twoClusterVolume.bpb 3 ∧ IsCluster twoClusterVolume.bpb 4 := by decide +kernel
  refine ⟨.cons (by rw [next]; decide) ?_, ?_⟩
  · rw [next]
    exact .last last
  · simpa using inRange

/-- Cut in its second cluster, the file of two clusters keeps both. -/
theorem fTruncate_correct_700 :
    CutsInsideCluster twoClusterVolume (twoClusterFile 700) [3, 4] ∧
      TruncatesCorrectly twoClusterVolume (twoClusterFile 700) [3, 4] := by
  have cuts : CutsInsideCluster twoClusterVolume (twoClusterFile 700) [3, 4] :=
    .inr (.inl (by decide +kernel))
  refine ⟨cuts, (fTruncate_correct twoClusterVolume (twoClusterFile 700) [3, 4] twoClusterVolume_geometry
    (.inr twoClusterVolume_chain) ?_ ?_).1 cuts⟩
  · decide +kernel
  · decide

/-- Cut at its first cluster boundary it keeps both as well. -/
theorem fTruncate_keeps_cluster :
    Geometry twoClusterVolume.bpb ∧ OwnedChain twoClusterVolume (twoClusterFile 512).firstCluster [3, 4] ∧
      ∃ result, fTruncate twoClusterVolume (twoClusterFile 512) = some result ∧ result.ok = true ∧
        ¬ Truncated twoClusterVolume (twoClusterFile 512) [3, 4] result := by
  have evaluated : (fTruncate twoClusterVolume (twoClusterFile 512)).any (fun result =>
      result.ok ∧ fat32GetNextCluster result.vol 4 ≠ 0 ∧
        clustersFor twoClusterVolume.bpb 512 = 1) = true := by decide +kernel
  obtain ⟨result, returned, facts⟩ := (Option.any_eq_true _ _).mp evaluated
  obtain ⟨ok, occupied, kept⟩ := of_decide_eq_true facts
  refine ⟨twoClusterVolume_geometry, .inr twoClusterVolume_chain, result, returned, ok, fun truncated => ?_⟩
  refine occupied (truncated.freed 4 ?_)
  show 4 ∈ [3, 4].drop (clustersFor twoClusterVolume.bpb 512)
  rw [kept]
  decide

end Truncation

/-! ## Expansion -/

section Expansion

variable {vol : Volume} {fp : Fat32File} {cells : List Nat}

/-- Counting a chain with fuel for its length gives its length. -/
theorem countChainLoop_eq {fuel count start : Nat} (geometry : Geometry vol.bpb)
    (chain : ClusterChain vol start cells) (enough : cells.length < fuel) :
    countChainLoop vol fuel count start = some (count + cells.length) := by
  induction cells generalizing fuel count start with
  | nil => exact absurd rfl chain.linked.ne_nil
  | cons head tail ih =>
      obtain ⟨fuel, rfl⟩ := Nat.exists_eq_succ_of_ne_zero (Nat.ne_of_gt (Nat.zero_lt_of_lt enough))
      obtain ⟨_, shape⟩ := chain.linked.eq_cons
      obtain rfl : head = start := (List.cons.inj shape).1
      have valid := geometry.fatArea.isValidCluster_of_isCluster chain.start_isCluster
      rw [countChainLoop, if_pos valid]
      dsimp only
      by_cases last : tail = []
      · subst last
        rw [if_pos chain.linked.stop_of_singleton.2, List.length_singleton]
      · obtain ⟨_, continues, linked⟩ := chain.linked.tail_of_ne_nil last
        have tailChain : ClusterChain vol (fat32GetNextCluster vol head) tail :=
          ⟨linked, fun cell member => chain.isCluster cell (List.mem_cons_of_mem _ member)⟩
        rw [if_neg continues, ih tailChain (Nat.lt_of_succ_lt_succ enough), List.length_cons]
        congr 1
        omega

theorem fat32CountClusterChain_eq {start : Nat} (geometry : Geometry vol.bpb)
    (chain : ClusterChain vol start cells) : fat32CountClusterChain vol start = some cells.length := by
  have numbers := geometry.clusterNumbers
  have short := chain.length_le
  rw [fat32CountClusterChain, countChainLoop_eq geometry chain (by simp only [chainFuel]; omega), Nat.zero_add]

/-- One round of the allocation behind a chain: the new cluster is hung behind its last
cell. -/
theorem Allocated.link {middle : Volume} {start last cluster : Nat} {front : List Nat}
    (geometry : Geometry vol.bpb) (allocated : Allocated vol cluster middle)
    (chain : ClusterChain vol start (front ++ [last])) :
    ∃ after, fat32SetNextCluster middle last cluster = (true, after) ∧
      Appended vol last cluster after := by
  have numbers := geometry.clusterNumbers
  have geometry' : Geometry middle.bpb := by rwa [allocated.same.bpb]
  have member : last ∈ front ++ [last] := by simp
  have inRange : IsCluster middle.bpb last := by
    rw [allocated.same.bpb]
    exact chain.isCluster last member
  have different : cluster ≠ last := by
    rintro rfl
    exact chain.next_ne_zero member allocated.free
  have same := sameExcept_setNext cluster geometry' inRange
  have bounded : cluster % 0x10000000 = cluster := by
    have upper := allocated.isCluster.2
    exact Nat.mod_eq_of_lt (by omega)
  refine ⟨_, Prod.ext (fat32SetNextCluster_fst cluster geometry'.fatArea inRange) rfl,
    ⟨allocated.isCluster, allocated.le_total, allocated.from_hint, allocated.free, allocated.least, ?_⟩,
    ?_, ?_, ?_⟩
  · rw [fat32SetNextCluster_freeClusterNo _ geometry'.fatArea inRange, allocated.hint]
  · exact (allocated.same.mono (by simp) subset_rfl).trans (same.mono (by simp) subset_rfl)
  · rw [fat32GetNextCluster_setNext_self cluster geometry'.fatArea inRange, bounded]
  · have inRange' : IsCluster middle.bpb cluster := by
      rw [allocated.same.bpb]
      exact allocated.isCluster
    rw [same.next cluster inRange' (by simpa using different), allocated.ends]

/-- A chain with a cluster hung behind its last cell. -/
theorem Appended.grown_concat {after : Volume} {start last cluster : Nat} {front : List Nat}
    (geometry : Geometry vol.bpb) (chain : ClusterChain vol start (front ++ [last]))
    (appended : Appended vol last cluster after) :
    Grown vol after (front ++ [last]) [cluster] ∅ ∧ ClusterChain after start (front ++ [last] ++ [cluster]) := by
  have grown := appended.grown (chain.next_ne_zero (by simp))
  exact ⟨grown.mono (by simp) subset_rfl, appended.chain_concat geometry chain⟩

/-- Behind a chain the allocation takes the wanted number of clusters or all there are, and
succeeds when there are enough. -/
theorem allocateChainLoop_eq {start prev : Nat} {front : List Nat} (count : Nat)
    (geometry : Geometry vol.bpb) (hint : 2 ≤ vol.freeClusterNo)
    (chain : ClusterChain vol start (front ++ [prev])) :
    ∃ added front' last after,
      allocateChainLoop count vol start prev = ⟨decide (count ≤ freeClusterCount vol), start, last, after⟩ ∧
      front ++ [prev] ++ added = front' ++ [last] ∧ added.length = min count (freeClusterCount vol) ∧
      Grown vol after (front ++ [prev]) added ∅ ∧ ClusterChain after start (front' ++ [last]) := by
  induction count generalizing vol front prev with
  | zero =>
      refine ⟨[], front, prev, vol, ?_, by rw [List.append_nil], ?_, .refl vol _ _, chain⟩
      · rw [allocateChainLoop, decide_eq_true (Nat.zero_le _)]
      · rw [Nat.zero_min, List.length_nil]
  | succ count ih =>
      have nonnull : prev ≠ 0 := by
        have lower := (chain.isCluster prev (by simp)).1
        omega
      rw [allocateChainLoop]
      rcases fat32AllocateCluster_cases geometry hint with ⟨failed, exhausted⟩ |
          ⟨cluster, middle, found, allocated⟩
      · have none := exhausted.freeClusterCount_eq
        rw [failed]
        refine ⟨[], front, prev, vol, ?_, by rw [List.append_nil], ?_, .refl vol _ _, chain⟩
        · rw [none, decide_eq_false (by omega)]
        · rw [none, Nat.min_zero, List.length_nil]
      · obtain ⟨linked, stored, appended⟩ := allocated.link geometry chain
        obtain ⟨grown, longer⟩ := appended.grown_concat geometry chain
        have geometry' : Geometry linked.bpb := by rwa [appended.same.bpb]
        have hint' : 2 ≤ linked.freeClusterNo := hint.trans appended.same.hint
        obtain ⟨added, front', last, after, looped, shape, length, more, whole⟩ := ih geometry' hint' longer
        have fewer := grown.count
        rw [List.length_singleton] at fewer
        rw [found]
        dsimp only
        rw [if_neg nonnull, stored]
        dsimp only
        refine ⟨cluster :: added, front', last, after, ?_, ?_, ?_, ?_, whole⟩
        · rw [looped, fewer]
          simp only [Nat.add_le_add_iff_right]
        · rw [← shape, List.append_assoc _ [cluster], List.singleton_append]
        · rw [List.length_cons, length, fewer]
          omega
        · exact grown.trans more fun cell member => longer.next_ne_zero member

/-- Writing an end mark at the end of a chain changes nothing that matters. -/
theorem markEnd_grown {start last : Nat} {front : List Nat} (geometry : Geometry vol.bpb)
    (hint : 2 ≤ vol.freeClusterNo) (chain : ClusterChain vol start (front ++ [last])) :
    Grown vol (fat32SetNextCluster vol last clusterEndOfChain).2 (front ++ [last]) [] ∅ ∧
      ClusterChain (fat32SetNextCluster vol last clusterEndOfChain).2 start (front ++ [last]) := by
  have member : last ∈ front ++ [last] := by simp
  have inRange := chain.isCluster last member
  have same := sameExcept_setNext clusterEndOfChain geometry inRange
  have ended := fat32GetNextCluster_setNext_self clusterEndOfChain geometry.fatArea inRange
  have scanned := fat32SetNextCluster_freeClusterNo clusterEndOfChain geometry.fatArea inRange
  generalize (fat32SetNextCluster vol last clusterEndOfChain).2 = after at same ended scanned ⊢
  have count : freeClusterCount after = freeClusterCount vol := by
    unfold freeClusterCount
    rw [same.bpb, scanned]
    refine List.countP_congr fun other within => ?_
    obtain ⟨lower, upper⟩ := List.mem_range'_1.mp within
    by_cases isLast : other = last
    · have occupied := chain.next_ne_zero member
      simp [isLast, ended, occupied, clusterEndOfChain]
    · rw [same.next other ⟨by omega, by omega⟩ isLast]
  have single : ClusterChain after last [last] := by
    refine ⟨.last (by rw [ended]; decide), fun cell only => ?_⟩
    rw [List.mem_singleton.mp only, same.bpb]
    exact inRange
  refine ⟨⟨same.mono (by simp) subset_rfl, by simp, by simp, count.symm⟩,
    chain.linked.replace_tail (fun earlier early => ?_) single.linked, fun cell chained => ?_⟩
  · have apart := (List.nodup_append.mp chain.nodup).2.2 earlier early last List.mem_cons_self
    exact same.next earlier (chain.isCluster earlier (List.mem_append_left _ early)) apart
  · rw [same.bpb]
    exact chain.isCluster cell chained

/-- What `fat32_allocate_cluster_chain` does for a positive count. -/
structure ChainAllocation (before : Volume) (count first : Nat) (after : Volume) (added : List Nat) : Prop where
  length : added.length = min count (freeClusterCount before)
  grown : Grown before after [] added ∅
  chain : OwnedChain after first added

theorem fat32AllocateClusterChain_eq {count : Nat} (geometry : Geometry vol.bpb)
    (hint : 2 ≤ vol.freeClusterNo) (wanted : 0 < count) :
    ∃ first after added,
      fat32AllocateClusterChain vol count = (decide (count ≤ freeClusterCount vol), first, after) ∧
        ChainAllocation vol count first after added := by
  obtain ⟨count, rfl⟩ := Nat.exists_eq_succ_of_ne_zero (Nat.ne_of_gt wanted)
  unfold fat32AllocateClusterChain
  rw [Nat.succ_eq_add_one, allocateChainLoop]
  rcases fat32AllocateCluster_cases geometry hint with ⟨failed, exhausted⟩ |
      ⟨cluster, middle, found, allocated⟩
  · have none := exhausted.freeClusterCount_eq
    rw [failed, none, decide_eq_false (by omega)]
    refine ⟨0, vol, [], rfl, ?_, .refl vol _ _, .inl ⟨rfl, rfl⟩⟩
    rw [none, Nat.min_zero, List.length_nil]
  · have geometry' : Geometry middle.bpb := by rwa [allocated.same.bpb]
    have hint' : 2 ≤ middle.freeClusterNo := hint.trans allocated.same.hint
    have single : ClusterChain middle cluster ([] ++ [cluster]) := allocated.chain
    have first : Grown vol middle [] [cluster] ∅ := by
      refine ⟨allocated.same.mono (by simp) subset_rfl, ?_, ?_, allocated.freeClusterCount_eq⟩
      · intro cell member
        rw [List.mem_singleton.mp member]
        exact allocated.isCluster
      · intro cell member
        rw [List.mem_singleton.mp member]
        exact allocated.free
    obtain ⟨added, front, last, after, looped, shape, length, more, whole⟩ :=
      allocateChainLoop_eq count geometry' hint' single
    have grown := first.trans more fun cell member => single.next_ne_zero member
    have fewer := first.count
    rw [List.length_singleton] at fewer
    have enough : (count ≤ freeClusterCount middle) = (count + 1 ≤ freeClusterCount vol) := by
      rw [fewer, Nat.add_le_add_iff_right]
    have size : ([cluster] ++ added).length = min (count + 1) (freeClusterCount vol) := by
      rw [List.length_append, List.length_singleton, length, fewer]
      omega
    rw [found]
    dsimp only
    rw [if_pos rfl, looped]
    dsimp only
    simp only [enough]
    split_ifs with complete
    · -- The last store finds an end mark and writes it again.
      have geometry'' : Geometry after.bpb := by rwa [grown.same.bpb]
      have inRange : IsCluster after.bpb last := whole.isCluster last (by simp)
      obtain ⟨marked, remains⟩ := markEnd_grown geometry'' (hint.trans grown.same.hint) whole
      have joined : [] ++ ([cluster] ++ added) = front ++ [last] := shape
      rw [← joined] at marked
      have total := grown.trans marked fun cell member => whole.next_ne_zero (by rwa [← joined])
      rw [List.append_nil] at total
      refine ⟨cluster, _, [cluster] ++ added, ?_, size, total, .inr ?_⟩
      · rw [fat32SetNextCluster_fst clusterEndOfChain geometry''.fatArea inRange, complete]
      · rw [show [cluster] ++ added = front ++ [last] from shape]
        exact remains
    · exact ⟨cluster, after, [cluster] ++ added, by rw [Bool.not_eq_true] at complete; rw [complete], size,
        grown, .inr (by rw [show [cluster] ++ added = front ++ [last] from shape]; exact whole)⟩

/-- The course of `f_expand` on a file whose chain is `cells`. -/
theorem fExpand_cases {size : Nat} (geometry : Geometry vol.bpb) (hint : 2 ≤ vol.freeClusterNo)
    (owned : OwnedChain vol fp.firstCluster cells) (fits : size + getClusterSizeBytes vol.bpb < 4294967296) :
    (clustersFor vol.bpb size ≤ cells.length ∧ fExpand vol fp size = some ⟨true, fp, vol⟩) ∨
      (cells.length < clustersFor vol.bpb size ∧ ∃ first after added,
        ChainAllocation vol (clustersFor vol.bpb size - cells.length) first after added ∧
        fExpand vol fp size =
          if clustersFor vol.bpb size - cells.length ≤ freeClusterCount vol then
            if fp.firstCluster = 0 then
              some ⟨true, { fp with firstCluster := first, currentCluster := first }, after⟩
            else (freeEntryBehind after (chainFuel + 1) fp.firstCluster).map fun last =>
              ⟨true, fp, (fat32SetNextCluster after last first).2⟩
          else some ⟨false, fp, after⟩) := by
  have counted : (if fp.firstCluster = 0 then some 0 else fat32CountClusterChain vol fp.firstCluster) =
      some cells.length := by
    rcases owned with ⟨nothing, rfl⟩ | chain
    · rw [if_pos nothing, List.length_nil]
    · rw [if_neg chain.start_ne_zero, fat32CountClusterChain_eq geometry chain]
  have needed : u32 (size + getClusterSizeBytes vol.bpb - 1) / getClusterSizeBytes vol.bpb =
      clustersFor vol.bpb size := by
    rw [u32_of_lt (by omega), clustersFor]
  unfold fExpand
  dsimp only
  rw [counted, needed]
  dsimp only
  rcases Nat.lt_or_ge cells.length (clustersFor vol.bpb size) with more | enough
  · obtain ⟨first, after, added, allocated, allocation⟩ :=
      fat32AllocateClusterChain_eq geometry hint (Nat.sub_pos_of_lt more)
    refine .inr ⟨more, first, after, added, allocation, ?_⟩
    rw [if_neg (Nat.not_le_of_gt more), allocated]
    by_cases possible : clustersFor vol.bpb size - cells.length ≤ freeClusterCount vol
    · rw [if_pos possible, decide_eq_true possible]
    · rw [if_neg possible, decide_eq_false possible]
  · exact .inl ⟨enough, if_pos enough⟩

/-- When `f_expand` does what it owes: nothing is missing, nothing is free, or the file is
empty and everything it needs is free. -/
def ExpandsSafely (vol : Volume) (cells : List Nat) (size : Nat) : Prop :=
  clustersFor vol.bpb size ≤ cells.length ∨ freeClusterCount vol = 0 ∨
    (cells = [] ∧ clustersFor vol.bpb size ≤ freeClusterCount vol)

/-- A chain with another one hung anywhere but behind its last cell is as long as before. -/
theorem chain_kept_by_splice {after : Volume} {start stop first : Nat} {added : List Nat}
    (geometry : Geometry vol.bpb) (chain : ClusterChain vol start cells)
    (free : fat32GetNextCluster vol stop = 0)
    (spliced : after = (fat32SetNextCluster vol stop first).2)
    (longer : OwnedChain after start (cells ++ added)) : added = [] := by
  have kept : Linked (fat32GetNextCluster after) (fun value => isEndOfClusterChain value = true) start cells := by
    refine chain.linked.congr fun cell member => ?_
    have different : cell ≠ stop := by
      rintro rfl
      exact chain.next_ne_zero member free
    rw [spliced]
    exact fat32GetNextCluster_setNext_stray first geometry.fatArea (chain.isCluster cell member) different
  rcases longer with ⟨nothing, _⟩ | whole
  · exact absurd nothing chain.start_ne_zero
  · simpa using whole.linked.unique kept

/-- Where the walk of `f_expand` stops, the entry is zero. -/
theorem freeEntryBehind_free {fuel start stop : Nat} (found : freeEntryBehind vol fuel start = some stop) :
    fat32GetNextCluster vol stop = 0 := by
  induction fuel generalizing start with
  | zero => simp [freeEntryBehind] at found
  | succ fuel ih =>
      rw [freeEntryBehind] at found
      split_ifs at found with free
      · rwa [← Option.some.inj found]
      · exact ih found

/-- A file with a chain never gets longer. -/
theorem not_expands_of_chain {size : Nat} (geometry : Geometry vol.bpb) (hint : 2 ≤ vol.freeClusterNo)
    (chain : ClusterChain vol fp.firstCluster cells) (fits : size + getClusterSizeBytes vol.bpb < 4294967296)
    (missing : cells.length < clustersFor vol.bpb size)
    (possible : clustersFor vol.bpb size - cells.length ≤ freeClusterCount vol) :
    ¬ ExpandsCorrectly vol fp cells size := by
  rcases fExpand_cases geometry hint (.inr chain) fits with ⟨enough, _⟩ |
      ⟨_, first, after, added, allocation, course⟩
  · omega
  rw [if_pos possible, if_neg chain.start_ne_zero] at course
  rintro ⟨result, returned, succeeds, _⟩
  rw [course, Option.map_eq_some_iff] at returned
  obtain ⟨stop, found, rfl⟩ := returned
  obtain ⟨more, expanded⟩ := succeeds rfl
  have chain' : ClusterChain after fp.firstCluster cells :=
    chain.congr allocation.grown.same fun cell member new =>
      chain.next_ne_zero member (allocation.grown.free cell new)
  have geometry' : Geometry after.bpb := by rwa [allocation.grown.same.bpb]
  have none := chain_kept_by_splice geometry' chain' (freeEntryBehind_free found) rfl expanded.chain
  have length := expanded.length
  rw [none, List.append_nil] at length
  omega

/-- When the free clusters run out on the way, those already taken stay marked. -/
theorem not_expands_of_exhaustion {size : Nat} (geometry : Geometry vol.bpb) (hint : 2 ≤ vol.freeClusterNo)
    (owned : OwnedChain vol fp.firstCluster cells) (fits : size + getClusterSizeBytes vol.bpb < 4294967296)
    (available : 0 < freeClusterCount vol)
    (tooFew : freeClusterCount vol < clustersFor vol.bpb size - cells.length) :
    ¬ ExpandsCorrectly vol fp cells size := by
  rcases fExpand_cases geometry hint owned fits with ⟨enough, _⟩ |
      ⟨_, first, after, added, allocation, course⟩
  · omega
  rw [if_neg (Nat.not_le_of_gt tooFew)] at course
  rintro ⟨result, returned, _, unchanged⟩
  obtain rfl := Option.some.inj (course.symm.trans returned)
  have length := allocation.length
  rw [Nat.min_eq_right (Nat.le_of_lt tooFew)] at length
  obtain ⟨cell, member⟩ := List.exists_mem_of_length_pos (length ▸ available)
  rcases allocation.chain with ⟨_, none⟩ | chain
  · rw [none] at member
    exact List.not_mem_nil member
  · refine chain.next_ne_zero member ?_
    rw [unchanged rfl cell (allocation.grown.isCluster cell member), allocation.grown.free cell member]

/-- `f_expand` does what it owes exactly in the three safe cases. -/
theorem fExpand_correct_iff (vol : Volume) (fp : Fat32File) (cells : List Nat) (size : Nat)
    (geometry : Geometry vol.bpb) (hint : 2 ≤ vol.freeClusterNo)
    (owned : OwnedChain vol fp.firstCluster cells)
    (fits : size < 4294967296 - getClusterSizeBytes vol.bpb) :
    ExpandsCorrectly vol fp cells size ↔ ExpandsSafely vol cells size := by
  have fits' : size + getClusterSizeBytes vol.bpb < 4294967296 := by omega
  constructor
  · intro correct
    by_contra failing
    simp only [ExpandsSafely, not_or, not_and] at failing
    obtain ⟨missing, available, filled⟩ := failing
    by_cases possible : clustersFor vol.bpb size - cells.length ≤ freeClusterCount vol
    · rcases owned with ⟨_, rfl⟩ | chain
      · exact filled rfl possible
      · exact not_expands_of_chain geometry hint chain fits' (by omega) possible correct
    · exact not_expands_of_exhaustion geometry hint owned fits' (by omega) (by omega) correct
  · intro safe
    rcases fExpand_cases geometry hint owned fits' with ⟨enough, course⟩ |
        ⟨missing, first, after, added, allocation, course⟩
    · refine ⟨_, course, fun _ => ⟨[], ?_, by simp, ?_, fun _ _ _ => rfl⟩, nofun⟩
      · rwa [List.append_nil]
      · rw [List.append_nil, Nat.max_eq_left enough]
    · rcases safe with enough | none | ⟨rfl, possible⟩
      · omega
      · rw [if_neg (by omega)] at course
        have empty : added = [] := by
          rw [← List.length_eq_zero_iff, allocation.length, none, Nat.min_zero]
        refine ⟨_, course, nofun, fun _ cell inRange => ?_⟩
        exact allocation.grown.same.next cell inRange (by simp [empty])
      · have first_zero : fp.firstCluster = 0 := by
          rcases owned with ⟨zero, _⟩ | chain
          · exact zero
          · exact absurd rfl chain.linked.ne_nil
        rw [List.length_nil, Nat.sub_zero] at course allocation
        rw [if_pos possible, if_pos first_zero] at course
        refine ⟨_, course, fun _ => ⟨added, ?_, fun cell member => ?_, ?_, ?_⟩, nofun⟩
        · rw [List.nil_append]
          exact allocation.chain
        · exact ⟨allocation.grown.isCluster cell member, allocation.grown.free cell member⟩
        · rw [List.nil_append, allocation.length, Nat.min_eq_left possible, List.length_nil, Nat.zero_max]
        · exact fun cell inRange outside => allocation.grown.same.next cell inRange outside

/-- The empty file of the small volume takes its only free cluster. -/
theorem fExpand_correct_iff_small :
    ExpandsSafely smallVolume [] 300 ∧ ExpandsCorrectly smallVolume { closedFile with mode := 1 } [] 300 := by
  have safe : ExpandsSafely smallVolume [] 300 := .inr (.inr ⟨rfl, by decide +kernel⟩)
  refine ⟨safe, (fExpand_correct_iff smallVolume { closedFile with mode := 1 } [] 300 ?_ ?_
    (.inl ⟨rfl, rfl⟩) ?_).mpr safe⟩
  · rw [smallVolume_bpb]
    exact smallBpb_geometry
  · decide +kernel
  · decide +kernel

/-- Five clusters behind one reserved sector and one FAT sector. -/
def spareBpb : Bpb := { smallBpb with totSec32 := 7 }

theorem spareBpb_geometry : Geometry spareBpb := by
  refine ⟨⟨?_, ?_, ?_, ?_⟩, ?_, ?_, ?_⟩ <;> decide +kernel

/-- A volume with a file of one cluster and free clusters behind it. -/
def spareVolume : Volume := (fat32SetNextCluster ⟨spareBpb, blankDisk, 2, 3⟩ 3 clusterEndOfChain).2

/-- The file of one cluster stays as it is when it is to hold a byte more, and the call
reports success. -/
theorem fExpand_loses_clusters :
    let fp := { closedFile with firstCluster := 3, currentCluster := 3, size := 512 }
    Geometry spareVolume.bpb ∧ 2 ≤ spareVolume.freeClusterNo ∧
      OwnedChain spareVolume fp.firstCluster [3] ∧ 513 < 4294967296 - getClusterSizeBytes spareVolume.bpb ∧
      ∃ result, fExpand spareVolume fp 513 = some result ∧ result.ok = true ∧
        ¬ ∃ added, Expanded spareVolume [3] 513 result added := by
  intro fp
  have inRange : IsCluster (⟨spareBpb, blankDisk, 2, 3⟩ : Volume).bpb 3 := by decide +kernel
  have bpb : spareVolume.bpb = spareBpb :=
    fat32SetNextCluster_bpb clusterEndOfChain spareBpb_geometry.fatArea inRange
  have geometry : Geometry spareVolume.bpb := by
    rw [bpb]
    exact spareBpb_geometry
  have hint : 2 ≤ spareVolume.freeClusterNo := by decide +kernel
  have chain : ClusterChain spareVolume 3 [3] := by
    refine ⟨.last (by decide +kernel), fun cell member => ?_⟩
    rw [List.mem_singleton.mp member, bpb]
    exact inRange
  have evaluated : (fExpand spareVolume fp 513).any (fun result => result.ok ∧
      513 < 4294967296 - getClusterSizeBytes spareVolume.bpb ∧
      clustersFor spareVolume.bpb 513 = 2 ∧ 1 ≤ freeClusterCount spareVolume) = true := by decide +kernel
  obtain ⟨result, returned, facts⟩ := (Option.any_eq_true _ _).mp evaluated
  obtain ⟨ok, fits, needed, available⟩ := of_decide_eq_true facts
  refine ⟨geometry, hint, .inr chain, fits, result, returned, ok, fun expanded => ?_⟩
  refine not_expands_of_chain geometry hint chain (by omega) ?_ ?_
    ⟨result, returned, fun _ => expanded, fun failed => absurd (failed.symm.trans ok) Bool.false_ne_true⟩
  · rw [needed]
    decide
  · rw [needed]
    exact available

end Expansion

end KeblaOS.Fat32
