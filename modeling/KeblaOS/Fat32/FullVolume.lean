import KeblaOS.Fat32.FileRefinement
import KeblaOS.Fat32.Resize
import KeblaOS.Fat32.Session

/-!
# Writing on a full volume

`f_write` can run out of clusters before it has written anything, on its way to the position,
and behind any number of clusters it has filled. The clusters it got stay with the file and the
position and size do not move; what was in front of the position is still there, and nothing
outside the file has changed.
-/

namespace KeblaOS.Fat32

open KeblaOS.Buffer

section Front

variable {vol after : Volume} {fp : Fat32File} {cluster : Nat} {rest cells : List Nat} {buff : List UInt8}

/-- The copy loop leaves alone what is in front of its offset in the first cluster. -/
theorem writeLoop_take {fuel bw offset : Nat} {outcome : WriteOutcome} (geometry : Geometry vol.bpb)
    (hint : 2 ≤ vol.freeClusterNo) (chain : ClusterChain vol cluster (cluster :: rest))
    (inside : offset < getClusterSizeBytes vol.bpb) (enough : buff.length - bw < fuel)
    (looped : writeLoop buff fuel vol bw offset cluster = some (outcome, after)) :
    (fat32ReadCluster after cluster).take offset = (fat32ReadCluster vol cluster).take offset := by
  obtain ⟨fuel, rfl⟩ := Nat.exists_eq_succ_of_ne_zero (Nat.ne_of_gt (Nat.zero_lt_of_lt enough))
  have length := length_readCluster geometry cluster
  rw [Nat.succ_eq_add_one, writeLoop] at looped
  by_cases finished : bw < buff.length
  swap
  · rw [if_neg finished] at looped
    obtain ⟨_, rfl⟩ := Prod.mk.inj (Option.some.inj looped)
    rfl
  rw [if_pos finished] at looped
  dsimp only at looped
  generalize size : min (getClusterSizeBytes vol.bpb - offset) (buff.length - bw) = writeBytes at looped
  have data : (slice buff bw writeBytes).length = writeBytes := length_slice_of_le (by omega)
  obtain ⟨written, writtenChain, here, _⟩ := grown_writeCluster geometry hint chain
    (show offset + (slice buff bw writeBytes).length ≤ getClusterSizeBytes vol.bpb by omega)
  generalize fat32WriteCluster vol cluster (overwrite (fat32ReadCluster vol cluster) offset (slice buff bw writeBytes)) =
    middle at looped written writtenChain here
  have front : (fat32ReadCluster middle cluster).take offset = (fat32ReadCluster vol cluster).take offset := by
    rw [here, take_overwrite (by omega)]
  have bpb := written.same.bpb
  split_ifs at looped with done
  · obtain ⟨_, rfl⟩ := Prod.mk.inj (Option.some.inj looped)
    exact front
  · rcases nextOrAppend_cases (show Geometry middle.bpb by rwa [bpb]) (hint.trans written.same.hint) writtenChain with
        ⟨failed, -, -⟩ | ⟨next, tail, added, stepped, found, -, step, linked⟩
    · rw [failed] at looped
      obtain ⟨_, rfl⟩ := Prod.mk.inj (Option.some.inj looped)
      exact front
    · -- the rest of the loop does not come back to the cluster
      rw [found] at looped
      dsimp only at looped
      have bpb' : stepped.bpb = vol.bpb := step.same.bpb.trans bpb
      obtain ⟨_, _, more, looped', grown, _⟩ := @writeLoop_cases stepped next tail buff fuel (bw + writeBytes) 0
        (show Geometry stepped.bpb by rwa [bpb']) ((hint.trans written.same.hint).trans step.same.hint) linked.drop
        (show 0 < getClusterSizeBytes stepped.bpb by rw [bpb']; exact geometry.clusterSize_pos) (by omega)
        (show buff.length - (bw + writeBytes) < fuel by omega)
      obtain ⟨_, rfl⟩ := Prod.mk.inj (Option.some.inj (looped'.symm.trans looped))
      rw [grown.same.bytes cluster linked.start_isCluster (grown.not_mem linked (List.mem_singleton_self cluster)),
        step.same.bytes cluster writtenChain.start_isCluster (Set.notMem_empty _)]
      exact front

/-- Cells of a chain that hold `pos` bytes and the cells up to the position have the same first
`pos` bytes, on any volume. -/
theorem chainBytes_take (geometry : Geometry vol.bpb) {added front back : List Nat} {cell pos offset : Nat}
    (split : cells ++ added = front ++ cell :: back) (filled : pos ≤ cells.length * getClusterSizeBytes vol.bpb)
    (position : pos = front.length * getClusterSizeBytes vol.bpb + offset)
    (inside : offset < getClusterSizeBytes vol.bpb) :
    (chainBytes vol cells).take pos = chainBytes vol front ++ (fat32ReadCluster vol cell).take offset := by
  have total := length_chainBytes geometry cells
  have before := length_chainBytes geometry front
  have length := length_readCluster geometry cell
  calc (chainBytes vol cells).take pos
      = (chainBytes vol (cells ++ added)).take pos := by
        rw [chainBytes_append, List.take_append_of_le_length (by omega)]
    _ = (chainBytes vol front ++ (fat32ReadCluster vol cell ++ chainBytes vol back)).take
          ((chainBytes vol front).length + offset) := by
        rw [split, chainBytes_append, chainBytes_cons, before, position]
    _ = chainBytes vol front ++ (fat32ReadCluster vol cell).take offset := by
        rw [List.take_length_add_append, List.take_append_of_le_length (by omega)]

/-- The bytes in front of the position are not written. -/
theorem writeFrom_take {result : WriteResult} (geometry : Geometry vol.bpb) (hint : 2 ≤ vol.freeClusterNo)
    (chain : ClusterChain vol fp.firstCluster cells) (filled : fp.pos ≤ cells.length * getClusterSizeBytes vol.bpb)
    (returned : writeFrom vol fp buff = some result) :
    (chainBytes result.vol cells).take fp.pos = (chainBytes vol cells).take fp.pos := by
  obtain ⟨rest, rfl⟩ := chain.linked.eq_cons
  obtain ⟨outcome, middle, added, walked, grown, walkedChain, outcomes⟩ :=
    writeWalk_cases geometry hint chain (Nat.lt_succ_self fp.pos)
  have bpb := grown.same.bpb
  have walkedBytes : chainBytes middle (fp.firstCluster :: rest) = chainBytes vol (fp.firstCluster :: rest) :=
    chainBytes_congr grown.same chain.isCluster fun _ _ => Set.notMem_empty _
  unfold writeFrom at returned
  rw [walked] at returned
  rcases outcomes with ⟨rfl, -, -⟩ | ⟨front, cell, back, rfl, split, position⟩
  · obtain rfl := Option.some.inj returned
    rw [walkedBytes]
  · dsimp only at returned
    obtain ⟨⟨outcome, after⟩, looped, made⟩ := Option.map_eq_some_iff.mp returned
    have last : result.vol = after := by
      subst made
      dsimp only
      split_ifs <;> rfl
    have linked := split ▸ walkedChain
    have geometry' : Geometry middle.bpb := by rwa [bpb]
    have inside : fp.pos % getClusterSizeBytes vol.bpb < getClusterSizeBytes middle.bpb := by
      rw [bpb]
      exact Nat.mod_lt _ geometry.clusterSize_pos
    obtain ⟨_, _, more, looped', grown', _⟩ := @writeLoop_cases middle cell back buff (buff.length + 1) 0
      (fp.pos % getClusterSizeBytes vol.bpb) geometry' (hint.trans grown.same.hint) linked.drop inside (Nat.zero_le _)
      (Nat.lt_succ_self _)
    obtain ⟨_, rfl⟩ := Prod.mk.inj (Option.some.inj (looped'.symm.trans looped))
    have head := writeLoop_take geometry' (hint.trans grown.same.hint) linked.drop inside (Nat.lt_succ_self _) looped
    have before : chainBytes result.vol front = chainBytes middle front := by
      rw [last]
      exact chainBytes_congr grown'.same (fun other member => linked.isCluster other (List.mem_append_left _ member))
        fun other member => grown'.not_mem linked member
    have bpb' : result.vol.bpb = vol.bpb := by
      rw [last]
      exact grown'.same.bpb.trans bpb
    have geometry'' : Geometry result.vol.bpb := by rwa [bpb']
    have now := @chainBytes_take result.vol (fp.firstCluster :: rest) geometry'' added front back cell fp.pos
      (fp.pos % getClusterSizeBytes vol.bpb)
    have then' := @chainBytes_take middle (fp.firstCluster :: rest) geometry' added front back cell fp.pos
      (fp.pos % getClusterSizeBytes vol.bpb)
    rw [bpb'] at now
    rw [bpb] at then' inside
    rw [← walkedBytes, now split filled position inside, then' split filled position inside, before, last, head]

/-- `f_write` keeps what is in front of the position, whether it succeeds or not. -/
theorem fWrite_take {result : WriteResult} (geometry : Geometry vol.bpb) (hint : 2 ≤ vol.freeClusterNo)
    (owned : OwnedChain vol fp.firstCluster cells) (filled : fp.pos ≤ cells.length * getClusterSizeBytes vol.bpb)
    (returned : fWrite vol fp buff = some result) :
    (chainBytes result.vol cells).take fp.pos = (chainBytes vol cells).take fp.pos := by
  rcases owned with ⟨_, rfl⟩ | chain
  · rfl
  · rw [fWrite, if_neg chain.start_ne_zero] at returned
    exact writeFrom_take geometry hint chain filled returned

end Front

/-- What a write that found no cluster leaves behind: the handle where it was, a chain that starts
with the old one, the same bytes in front of the position, and all other chains as they were. -/
structure FailedWrite (file : OpenFile) (cells : List Nat) (result : WriteResult) : Prop where
  exhausted : result.vol.Exhausted
  pos : result.fp.pos = file.fp.pos
  size : result.fp.size = file.fp.size
  sameEntry : file.fp.SameEntry result.fp
  chain : ∃ added abstract', OwnedChain result.vol result.fp.firstCluster (cells ++ added) ∧
    (⟨result.vol, result.fp⟩ : OpenFile).Represents abstract' (cells ++ added) ∧
    abstract'.content.take file.fp.pos = ((chainBytes file.vol cells).take file.fp.size).take file.fp.pos
  others : ∀ start other, OwnedChain file.vol start other → (∀ cell ∈ other, cell ∉ cells) →
    OwnedChain result.vol start other ∧ chainBytes result.vol other = chainBytes file.vol other

/-- Whenever it fails, `f_write` leaves a file that can be used and changes no other. -/
theorem fWrite_failed (file : OpenFile) (abstract : File) (cells : List Nat) (buff : List UInt8) (result : WriteResult)
    (represents : file.Represents abstract cells) (returned : fWrite file.vol file.fp buff = some result)
    (failed : result.ok = false) : FailedWrite file cells result := by
  obtain ⟨result', added, returned', wrote⟩ := fWrite_cases buff represents.geometry represents.hint represents.owned
  obtain rfl : result' = result := Option.some.inj (returned'.symm.trans returned)
  have inside := represents.pos_le
  have filled := represents.filled
  have bpb := wrote.grown.same.bpb
  have geometry : Geometry result'.vol.bpb := by
    rw [bpb]
    exact represents.geometry
  rcases wrote.outcome with ⟨-, pos, size, exhausted, -⟩ | ⟨ok, -⟩
  swap
  · rw [failed] at ok
    contradiction
  have kept := fWrite_take represents.geometry represents.hint represents.owned (inside.trans filled) returned
  have old := length_chainBytes geometry cells
  have total := length_chainBytes geometry (cells ++ added)
  rw [List.length_append, Nat.add_mul] at total
  rw [bpb] at old total
  have front : ((chainBytes result'.vol (cells ++ added)).take file.fp.size).take file.fp.pos =
      ((chainBytes file.vol cells).take file.fp.size).take file.fp.pos := by
    rw [List.take_take, List.take_take, Nat.min_eq_left inside, chainBytes_append,
      List.take_append_of_le_length (by omega), kept]
  let abstract' : File :=
    ⟨(chainBytes result'.vol (cells ++ added)).take file.fp.size, file.fp.pos, by
      rw [List.length_take]
      omega⟩
  constructor
  · exact exhausted
  · exact pos
  · exact size
  · exact wrote.sameEntry
  · refine ⟨added, abstract', wrote.owned, ?_, front⟩
    exact ⟨geometry, wrote.grown.same.copies represents.copies, represents.hint.trans wrote.grown.same.hint, wrote.owned,
      by
        dsimp only
        rw [bpb, size, List.length_append, Nat.add_mul]
        omega,
      size ▸ represents.sized, by rw [size], pos.symm⟩
  · intro start other owned apart
    have free := wrote.grown.apart owned apart
    exact ⟨owned.congr wrote.grown.same free,
      chainBytes_congr wrote.grown.same (fun cell member => owned.isCluster member) free⟩

/-- The handle on the file of two clusters represents their contents. -/
theorem twoClusterFile_represents {pos : Nat} (inside : pos ≤ ((chainBytes twoClusterVolume [3, 4]).take 1024).length) :
    (⟨twoClusterVolume, twoClusterFile pos⟩ : OpenFile).Represents
      ⟨(chainBytes twoClusterVolume [3, 4]).take 1024, pos, inside⟩ [3, 4] where
  geometry := twoClusterVolume_geometry
  copies := by
    show FatCopiesEqual twoClusterVolume
    exact fatCopiesEqual_of_single (by decide +kernel)
  hint := by
    show 2 ≤ twoClusterVolume.freeClusterNo
    decide +kernel
  owned := .inr twoClusterVolume_chain
  filled := by
    show 1024 ≤ 2 * getClusterSizeBytes twoClusterVolume.bpb
    decide +kernel
  sized := by
    show 1024 < 4294967296
    decide
  content := rfl
  pos := rfl

/-- A hundred bytes at position 1000 of a file of two clusters, with no third cluster left. -/
theorem fWrite_failed_two :
    ∃ result, fWrite twoClusterVolume (twoClusterFile 1000) (List.replicate 100 7) = some result ∧ result.ok = false ∧
      result.bw = 24 ∧ FailedWrite ⟨twoClusterVolume, twoClusterFile 1000⟩ [3, 4] result := by
  have evaluated : (fWrite twoClusterVolume (twoClusterFile 1000) (List.replicate 100 7)).any (fun result =>
      result.ok = false ∧ result.bw = 24) = true := by decide +kernel
  obtain ⟨result, returned, facts⟩ := (Option.any_eq_true _ _).mp evaluated
  obtain ⟨failed, bw⟩ := of_decide_eq_true facts
  have length : ((chainBytes twoClusterVolume [3, 4]).take 1024).length = 1024 := by
    rw [List.length_take, length_chainBytes twoClusterVolume_geometry]
    decide +kernel
  have represents := @twoClusterFile_represents 1000 (by omega)
  exact ⟨result, returned, failed, bw, fWrite_failed _ _ _ _ _ represents returned failed⟩

end KeblaOS.Fat32
