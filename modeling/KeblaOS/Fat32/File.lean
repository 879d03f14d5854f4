import KeblaOS.Fat32.Cluster

/-!
# Operations on an open file

`f_read`, `f_write`, `f_lseek`, `f_sync` and `f_close` of `file_manager.c`. The
disk is reliable and `malloc` succeeds, so a `false` result can only come from a
full volume. Loops over byte offsets take fuel as well: the cluster size of a
mounted volume is positive, so an offset decreases with every round and its
value bounds the number of rounds.
-/

namespace KeblaOS.Fat32

open KeblaOS.Buffer

/-- `FAT32_FILE`. -/
structure Fat32File where
  firstCluster : Nat
  currentCluster : Nat
  size : Nat
  pos : Nat
  parentCluster : Nat
  dirEntryCluster : Nat
  dirEntryOffset : Nat
  name : List UInt8
  mode : Nat
deriving DecidableEq

/-- The loop `while (offset >= cluster_size && cluster)` that `f_read` and
`f_lseek` use to find the cluster of a position. -/
def walkChain (vol : Volume) : Nat → Nat → Nat → Option (Nat × Nat)
  | 0, _, _ => none
  | fuel + 1, offset, cluster =>
      if getClusterSizeBytes vol.bpb ≤ offset ∧ cluster ≠ 0 then
        walkChain vol fuel (offset - getClusterSizeBytes vol.bpb) (fat32GetNextCluster vol cluster)
      else some (offset, cluster)

/-- The copy loop of `f_read`; `out` holds the `*br` bytes read so far. -/
def readLoop (vol : Volume) (btr : Nat) : Nat → List UInt8 → Nat → Nat → Option (List UInt8)
  | 0, _, _, _ => none
  | fuel + 1, out, offset, cluster =>
      if out.length < btr ∧ cluster ≠ 0 then
        let clusterBuf := fat32ReadCluster vol cluster
        let copySize := min (getClusterSizeBytes vol.bpb - offset) (btr - out.length)
        readLoop vol btr fuel (out ++ slice clusterBuf offset copySize) 0
          (fat32GetNextCluster vol cluster)
      else some out

/-- `f_read`: the bytes stored in the caller's buffer and the handle afterwards. -/
def fRead (vol : Volume) (fp : Fat32File) (btr : Nat) : Option (List UInt8 × Fat32File) :=
  if fp.size ≤ fp.pos then some ([], fp)
  else
    let btr := min btr (fp.size - fp.pos)
    match walkChain vol (fp.pos + 1) fp.pos fp.firstCluster with
    | none => none
    | some (offset, cluster) =>
        (readLoop vol btr (btr + 1) [] offset cluster).map fun out =>
          (out, { fp with pos := u32 (fp.pos + out.length) })

/-- `f_lseek`. -/
def fLseek (vol : Volume) (fp : Fat32File) (ofs : Nat) : Option Fat32File :=
  let ofs := min ofs fp.size
  (walkChain vol (ofs + 1) ofs fp.firstCluster).map fun (_, cluster) =>
    { fp with pos := ofs, currentCluster := cluster }

/-- The successor of a cluster in `f_write`, appending a cluster at the end of the
chain. -/
def nextOrAppend (vol : Volume) (cluster : Nat) : Option (Option Nat × Volume) :=
  let next := fat32GetNextCluster vol cluster
  if 0x0FFFFFF8 ≤ next then fat32AppendCluster vol cluster else some (some next, vol)

/-- The loop of `f_write` that walks to the cluster of the position. -/
def writeWalk : Nat → Volume → Nat → Nat → Option (Option (Nat × Nat) × Volume)
  | 0, _, _, _ => none
  | fuel + 1, vol, offset, cluster =>
      if getClusterSizeBytes vol.bpb ≤ offset ∧ cluster ≠ 0 then
        match nextOrAppend vol cluster with
        | none => none
        | some (none, vol) => some (none, vol)
        | some (some next, vol) => writeWalk fuel vol (offset - getClusterSizeBytes vol.bpb) next
      else some (some (offset, cluster), vol)

/-- What a write loop reports: success, `*bw`, the cluster it stopped at. -/
structure WriteOutcome where
  ok : Bool
  bw : Nat
  cluster : Nat
deriving DecidableEq

/-- The copy loop of `f_write`. -/
def writeLoop (buff : List UInt8) : Nat → Volume → Nat → Nat → Nat → Option (WriteOutcome × Volume)
  | 0, _, _, _, _ => none
  | fuel + 1, vol, bw, offset, cluster =>
      if bw < buff.length then
        let clusterBuf := fat32ReadCluster vol cluster
        let writeBytes := min (getClusterSizeBytes vol.bpb - offset) (buff.length - bw)
        let vol := fat32WriteCluster vol cluster
          (overwrite clusterBuf offset (slice buff bw writeBytes))
        let bw := bw + writeBytes
        if buff.length ≤ bw then some (⟨true, bw, cluster⟩, vol)
        else match nextOrAppend vol cluster with
          | none => none
          | some (none, vol) => some (⟨false, bw, cluster⟩, vol)
          | some (some next, vol) => writeLoop buff fuel vol bw 0 next
      else some (⟨true, bw, cluster⟩, vol)

/-- Result of `f_write`. -/
structure WriteResult where
  ok : Bool
  bw : Nat
  fp : Fat32File
  vol : Volume

/-- The part of `f_write` behind the allocation of a first cluster. -/
def writeFrom (vol : Volume) (fp : Fat32File) (buff : List UInt8) : Option WriteResult :=
  match writeWalk (fp.pos + 1) vol fp.pos fp.firstCluster with
  | none => none
  | some (none, vol) => some ⟨false, 0, fp, vol⟩
  | some (some (offset, cluster), vol) =>
      (writeLoop buff (buff.length + 1) vol 0 offset cluster).map fun (outcome, vol) =>
        if outcome.ok then
          let pos := u32 (fp.pos + outcome.bw)
          ⟨true, outcome.bw,
            { fp with pos := pos, size := max fp.size pos, currentCluster := outcome.cluster }, vol⟩
        else ⟨false, outcome.bw, fp, vol⟩

/-- `f_write`. -/
def fWrite (vol : Volume) (fp : Fat32File) (buff : List UInt8) : Option WriteResult :=
  if fp.firstCluster = 0 then
    match fat32AllocateCluster vol with
    | (none, vol) => some ⟨false, 0, fp, vol⟩
    | (some cluster, vol) =>
        writeFrom vol { fp with firstCluster := cluster, currentCluster := cluster } buff
  else writeFrom vol fp buff

/-- The directory cluster image with the size and first-cluster fields of one
entry taken from a handle, as `f_sync` and `f_close` build it. -/
def updatedEntryCluster (clusterBuf : List UInt8) (fp : Fat32File) : List UInt8 :=
  let clusterBuf := overwrite clusterBuf (fp.dirEntryOffset + 28) (leBytes 4 fp.size)
  let clusterBuf := overwrite clusterBuf (fp.dirEntryOffset + 20)
    (leBytes 2 (fp.firstCluster >>> 16 &&& 0xFFFF))
  overwrite clusterBuf (fp.dirEntryOffset + 26) (leBytes 2 (fp.firstCluster &&& 0xFFFF))

/-- `f_sync`. -/
def fSync (vol : Volume) (fp : Fat32File) : Volume :=
  fat32WriteCluster vol fp.dirEntryCluster
    (updatedEntryCluster (fat32ReadCluster vol fp.dirEntryCluster) fp)

/-- The handle `f_close` leaves behind. -/
def closedFile : Fat32File where
  firstCluster := 0
  currentCluster := 0
  size := 0
  pos := 0
  parentCluster := 0
  dirEntryCluster := 0
  dirEntryOffset := 0
  name := []
  mode := 0

/-- `f_close`: the volume and the reset handle. -/
def fClose (vol : Volume) (fp : Fat32File) : Volume × Fat32File :=
  (fat32WriteCluster vol fp.dirEntryCluster
    (updatedEntryCluster (fat32ReadCluster vol fp.dirEntryCluster) fp), closedFile)

end KeblaOS.Fat32
