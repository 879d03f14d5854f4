import KeblaOS.Fat32.Enumeration
import KeblaOS.Fat32.Resize
import KeblaOS.Iso9660.Paths

/-!
# Reading through the VFS

`vfs_read` and `vfs_readdir` over their two backends, FAT32 on a SATA disk and ISO 9660 on
a SATAPI disk. `f_read` moves the position of the handle and its wrapper returns 0;
`iso9660_read` has no position and returns the number of bytes it stored. The two
`readdir` calls report an entry and the end of a directory with different codes.
-/

namespace KeblaOS.Vfs

open KeblaOS.Buffer
open KeblaOS.Fat32 (Volume Fat32File Fat32Dir Fat32Dirent Geometry OwnedChain chainBytes fRead fRead_eq fReaddir
  fReaddir_spec getClusterSizeBytes u32 u32_of_lt length_chainBytes shown)
open KeblaOS.Iso9660 (IsoDisk IsoDir IsoEntry IsoFile iso9660Readdir Reads)

/-! ## Files -/

/-- The loop of `iso9660_read`: the bytes stored and `total_read`. -/
def isoReadLoop (disk : IsoDisk) : Nat → List UInt8 → Nat → Nat → Nat → Option (List UInt8 × Nat)
  | 0, _, _, _, _ => none
  | fuel + 1, buff, totalRead, remaining, curSector =>
      if 0 < remaining then
        match Iso9660.keblaDiskRead disk curSector 1 with
        | none => some (buff, totalRead)
        | some sectorBuf =>
            let copy := if remaining < disk.bytesPerSector then remaining else disk.bytesPerSector
            isoReadLoop disk fuel (buff ++ sectorBuf.take copy) (totalRead + copy) (remaining - copy)
              (u32 (curSector + 1))
      else some (buff, totalRead)

/-- `iso9660_read` for a positive size: what it returns and the bytes it stores. -/
def iso9660Read (disk : IsoDisk) (file : IsoFile) (size : Nat) : Option (Int × List UInt8) :=
  let size := if file.size < size then file.size else size
  (isoReadLoop disk (size + 1) [] 0 size file.sector).map fun (buff, totalRead) => (totalRead, buff)

/-- A file opened through the VFS, with the disk it is on. -/
inductive VfsFile where
  | fat32 (vol : Volume) (fp : Fat32File)
  | iso9660 (disk : IsoDisk) (file : IsoFile)

/-- What a call of `vfs_read` returns, the bytes it stores and the file afterwards. -/
structure ReadCall where
  code : Int
  stored : List UInt8
  file : VfsFile

/-- `vfs_read` for a positive size. -/
def vfsRead : VfsFile → Nat → Option ReadCall
  | .fat32 vol fp, size => (fRead vol fp size).map fun (stored, fp) => ⟨0, stored, .fat32 vol fp⟩
  | .iso9660 disk file, size =>
      (iso9660Read disk file size).map fun (code, stored) => ⟨code, stored, .iso9660 disk file⟩

/-- Successive calls of `vfs_read` with the given sizes. -/
def readCalls : VfsFile → List Nat → Option (List ReadCall)
  | _, [] => some []
  | file, size :: sizes =>
      match vfsRead file size with
      | none => none
      | some call => (readCalls call.file sizes).map (call :: ·)

/-- The bytes stored by a sequence of calls. -/
def storedBytes (calls : List ReadCall) : List UInt8 := calls.flatMap ReadCall.stored

/-- Every sequence of calls with positive sizes reads the content from the start: each call
returns the number of bytes it stored, and returns 0 only at the end. -/
def ReadsFromStart (file : VfsFile) (content : List UInt8) : Prop :=
  ∀ sizes : List Nat, (∀ size ∈ sizes, 0 < size ∧ size < 2147483648) →
    ∃ calls, readCalls file sizes = some calls ∧ (∀ call ∈ calls, call.code = call.stored.length) ∧
      storedBytes calls <+: content ∧
      ∀ front call back, calls = front ++ call :: back → call.code = 0 → storedBytes front = content

/-- The content of a file of an image. -/
def isoContent (disk : IsoDisk) (file : IsoFile) : List UInt8 :=
  (disk.sectors file.sector ((file.size + 2047) / 2048)).take file.size

/-! ## Directories -/

/-- A directory opened through the VFS. -/
inductive VfsDir where
  | fat32 (vol : Volume) (dp : Fat32Dir)
  | iso9660 (dirp : IsoDir)

/-- The record a call stores, in the format of its backend. -/
inductive VfsEntry where
  | fat32 (dirent : Fat32Dirent)
  | iso9660 (entry : IsoEntry)

/-- What a call of `vfs_readdir` returns, the entry it stores and the directory afterwards. -/
structure ReaddirCall where
  code : Int
  entry : Option VfsEntry
  dir : VfsDir

/-- `vfs_readdir`. -/
def vfsReaddir : VfsDir → Option ReaddirCall
  | .fat32 vol dp => (fReaddir vol dp).map fun
      | some (dirent, dp) => ⟨0, some (.fat32 dirent), .fat32 vol dp⟩
      | none => ⟨-1, none, .fat32 vol dp⟩
  | .iso9660 dirp => (iso9660Readdir dirp).map fun result =>
      ⟨result.code, result.entry.map .iso9660, .iso9660 result.dir⟩

/-- The calls made when `vfs_readdir` is repeated on a directory. -/
inductive Called : VfsDir → ReaddirCall → Prop where
  | first {dir call} (returned : vfsReaddir dir = some call) : Called dir call
  | later {dir call after} (returned : vfsReaddir dir = some call) (rest : Called call.dir after) :
      Called dir after

/-- Two directories report an entry with the same code, and the end with the same code. -/
def SameCodes (dir dir' : VfsDir) : Prop :=
  ∀ call call', Called dir call → Called dir' call' → call.entry.isSome = call'.entry.isSome →
    call.code = call'.code

/-! ## Reading files -/

section Files

variable {vol : Volume} {fp : Fat32File} {cells : List Nat} {disk : IsoDisk} {file : IsoFile}

theorem sectors_succ (disk : IsoDisk) (lba count : Nat) :
    disk.sectors lba (count + 1) = disk.sector lba ++ disk.sectors (lba + 1) count := by
  unfold IsoDisk.sectors
  rw [List.range_succ_eq_map, List.flatMap_cons, List.flatMap_map]
  simp only [Nat.add_zero, Nat.add_assoc, Nat.add_comm 1]

/-- The loop reads the sectors one after the other, the last one in part. -/
theorem isoReadLoop_eq (blockSize : disk.bytesPerSector = 2048) {fuel remaining curSector : Nat} (count : Nat)
    (buff : List UInt8) (totalRead : Nat) (enough : remaining < fuel) (covers : remaining ≤ 2048 * count)
    (inside : curSector + count ≤ 4294967296) :
    isoReadLoop disk fuel buff totalRead remaining curSector =
      some (buff ++ (disk.sectors curSector count).take remaining, totalRead + remaining) := by
  induction count generalizing fuel buff totalRead remaining curSector with
  | zero =>
      obtain rfl : remaining = 0 := by omega
      obtain ⟨fuel, rfl⟩ := Nat.exists_eq_succ_of_ne_zero (Nat.ne_of_gt enough)
      rw [isoReadLoop, if_neg (Nat.lt_irrefl 0), List.take_zero, List.append_nil, Nat.add_zero]
  | succ count ih =>
      obtain ⟨fuel, rfl⟩ := Nat.exists_eq_succ_of_ne_zero (Nat.ne_of_gt (Nat.zero_lt_of_lt enough))
      rw [isoReadLoop]
      by_cases more : 0 < remaining
      · have single : Iso9660.keblaDiskRead disk curSector 1 = some (disk.sector curSector) := by
          rw [Iso9660.keblaDiskRead, if_neg Nat.one_ne_zero, sectors_succ, IsoDisk.sectors, List.range_zero,
            List.flatMap_nil, List.append_nil]
        have length := disk.length_sector curSector
        have copy : (if remaining < 2048 then remaining else 2048) = min remaining 2048 := by
          split_ifs <;> omega
        have later : disk.sectors (u32 (curSector + 1)) count = disk.sectors (curSector + 1) count := by
          rcases Nat.eq_zero_or_pos count with rfl | positive
          · rfl
          · rw [u32_of_lt (by omega)]
        have bounded : u32 (curSector + 1) + count ≤ 4294967296 := by
          rcases Nat.eq_zero_or_pos count with rfl | positive
          · exact (Nat.le_of_lt (Fat32.u32_lt _))
          · rw [u32_of_lt (by omega)]
            omega
        rw [if_pos more, single, blockSize]
        dsimp only
        rw [copy, ih _ _ (by omega) (by omega) bounded, later, sectors_succ, List.take_append, length,
          List.append_assoc]
        have front : (disk.sector curSector).take (min remaining 2048) = (disk.sector curSector).take remaining := by
          rw [List.take_eq_take_iff, length]
          omega
        have total : totalRead + min remaining 2048 + (remaining - min remaining 2048) = totalRead + remaining := by
          omega
        have back : remaining - min remaining 2048 = remaining - 2048 := by omega
        rw [total, front, back]
      · obtain rfl : remaining = 0 := by omega
        rw [if_neg more, List.take_zero, List.append_nil, Nat.add_zero]

theorem length_sectors (disk : IsoDisk) (lba count : Nat) : (disk.sectors lba count).length = 2048 * count := by
  induction count generalizing lba with
  | zero => rfl
  | succ count ih =>
      rw [sectors_succ, List.length_append, disk.length_sector, ih]
      omega

theorem length_isoContent (disk : IsoDisk) (file : IsoFile) : (isoContent disk file).length = file.size := by
  rw [isoContent, List.length_take, length_sectors]
  omega

/-- `iso9660_read` stores the bytes at the start of the file, whatever was read before. -/
theorem vfsRead_iso9660 (size : Nat) (blockSize : disk.bytesPerSector = 2048)
    (inside : file.sector + (file.size + 2047) / 2048 ≤ 4294967296) :
    vfsRead (.iso9660 disk file) size =
      some ⟨((isoContent disk file).take size).length, (isoContent disk file).take size, .iso9660 disk file⟩ := by
  have clamped : (if file.size < size then file.size else size) = min size file.size := by
    split_ifs <;> omega
  have looped := isoReadLoop_eq blockSize ((file.size + 2047) / 2048) [] 0 (Nat.lt_succ_self (min size file.size))
    (by omega) inside
  have bytes : (disk.sectors file.sector ((file.size + 2047) / 2048)).take (min size file.size) =
      (isoContent disk file).take size := by
    rw [isoContent, List.take_take]
  rw [List.nil_append, Nat.zero_add, bytes] at looped
  rw [vfsRead, iso9660Read, clamped]
  dsimp only
  rw [looped, List.length_take, length_isoContent]
  rfl

/-- Calls that leave the file as it is all have the same outcome. -/
theorem readCalls_replicate {opened : VfsFile} {size : Nat} {call : ReadCall}
    (returned : vfsRead opened size = some call) (same : call.file = opened) (count : Nat) :
    readCalls opened (List.replicate count size) = some (List.replicate count call) := by
  induction count with
  | zero => rfl
  | succ count ih =>
      rw [List.replicate_succ, readCalls, returned]
      dsimp only
      rw [same, ih]
      rfl

theorem readCalls_empty {opened : VfsFile} (reads : ∀ size, vfsRead opened size = some ⟨0, [], opened⟩)
    (sizes : List Nat) : readCalls opened sizes = some (sizes.map fun _ => ⟨0, [], opened⟩) := by
  induction sizes with
  | nil => rfl
  | cons size sizes ih =>
      rw [readCalls, reads]
      dsimp only
      rw [ih]
      rfl

/-- Reading an empty file from the start. -/
theorem readsFromStart_empty {opened : VfsFile}
    (reads : ∀ size, vfsRead opened size = some ⟨0, [], opened⟩) : ReadsFromStart opened [] := by
  intro sizes _
  have nothing : ∀ calls : List ReadCall, (∀ call ∈ calls, call.stored = []) → storedBytes calls = [] :=
    fun calls empty => List.flatMap_eq_nil_iff.mpr empty
  have stored : ∀ call ∈ sizes.map (fun _ => (⟨0, [], opened⟩ : ReadCall)), call = ⟨0, [], opened⟩ := by
    intro call member
    obtain ⟨_, _, rfl⟩ := List.mem_map.mp member
    rfl
  refine ⟨_, readCalls_empty reads sizes, fun call member => ?_, ?_, fun front call back shape _ => ?_⟩
  · rw [stored call member]
    rfl
  · rw [nothing _ fun call member => by rw [stored call member]]
  · refine nothing front fun earlier member => ?_
    rw [stored earlier (by rw [shape]; exact List.mem_append_left _ member)]

/-- An ISO 9660 file is read as it should be only if it is empty: with one byte a call, the
first byte is delivered again and again. -/
theorem readsFromStart_iso9660_iff (blockSize : disk.bytesPerSector = 2048)
    (inside : file.sector + (file.size + 2047) / 2048 ≤ 4294967296) :
    ReadsFromStart (.iso9660 disk file) (isoContent disk file) ↔ file.size = 0 := by
  have length := length_isoContent disk file
  constructor
  · intro reads
    by_contra some
    obtain ⟨calls, returned, _, front, _⟩ := reads (List.replicate (file.size + 1) 1) (by
      intro size member
      rw [(List.mem_replicate.mp member).2]
      decide)
    rw [readCalls_replicate (vfsRead_iso9660 1 blockSize inside) rfl] at returned
    obtain rfl := Option.some.inj returned
    have total := front.length_le
    rw [storedBytes, List.length_flatMap, List.map_replicate, List.sum_replicate_nat, List.length_take,
      length, Nat.min_eq_left (Nat.one_le_iff_ne_zero.mpr some), Nat.mul_one] at total
    omega
  · intro empty
    have none : isoContent disk file = [] := List.length_eq_zero_iff.mp (length.trans empty)
    rw [none]
    refine readsFromStart_empty fun size => ?_
    rw [vfsRead_iso9660 size blockSize inside, none, List.take_nil]
    rfl

/-- A FAT32 file is read as it should be only if it is empty: the call that stores its first
byte returns 0. -/
theorem readsFromStart_fat32_iff (geometry : Geometry vol.bpb) (owned : OwnedChain vol fp.firstCluster cells)
    (filled : fp.size ≤ cells.length * getClusterSizeBytes vol.bpb) (sized : fp.size < 4294967296)
    (start : fp.pos = 0) :
    ReadsFromStart (.fat32 vol fp) ((chainBytes vol cells).take fp.size) ↔ fp.size = 0 := by
  have length : ((chainBytes vol cells).take fp.size).length = fp.size := by
    rw [List.length_take, length_chainBytes geometry cells]
    omega
  have reads := fun size => fRead_eq size geometry owned filled sized (by omega)
  constructor
  · intro uniform
    by_contra some
    obtain ⟨calls, returned, counts, _, _⟩ := uniform [1] (by simp)
    rw [readCalls, vfsRead, reads 1] at returned
    obtain rfl := Option.some.inj returned
    have code := counts _ List.mem_cons_self
    dsimp only at code
    rw [length_slice, length, start] at code
    omega
  · intro empty
    have none : (chainBytes vol cells).take fp.size = [] := List.length_eq_zero_iff.mp (length.trans empty)
    rw [none]
    refine readsFromStart_empty fun size => ?_
    have same : { fp with pos := 0 } = fp := by rw [← start]
    rw [vfsRead, reads size, none, start]
    simp [slice, same]

end Files

/-! ## Reading directories -/

/-- `iso9660_readdir` returns 1 with an entry and 0 without one. -/
theorem iso9660_readdirLoop_code {fuel : Nat} {dirp : IsoDir} {result : Iso9660.ReaddirResult}
    (returned : Iso9660.readdirLoop fuel dirp = some result) :
    result.code = if result.entry.isSome then 1 else 0 := by
  induction fuel generalizing dirp with
  | zero => simp [Iso9660.readdirLoop] at returned
  | succ fuel ih =>
      rw [Iso9660.readdirLoop] at returned
      dsimp only at returned
      split_ifs at returned
      · exact ih returned
      · exact ih returned
      · obtain rfl := Option.some.inj returned
        rfl
      · obtain rfl := Option.some.inj returned
        rfl

/-- The codes of the two backends. -/
theorem vfsReaddir_code {dir : VfsDir} {call : ReaddirCall} (returned : vfsReaddir dir = some call) :
    match dir, call.dir with
    | .fat32 _ _, .fat32 _ _ => call.code = if call.entry.isSome then 0 else -1
    | .iso9660 _, .iso9660 _ => call.code = if call.entry.isSome then 1 else 0
    | _, _ => False := by
  cases dir with
  | fat32 vol dp =>
      obtain ⟨answer, _, rfl⟩ := Option.map_eq_some_iff.mp returned
      cases answer with
      | none => rfl
      | some produced => rfl
  | iso9660 dirp =>
      obtain ⟨result, called, rfl⟩ := Option.map_eq_some_iff.mp returned
      have code := iso9660_readdirLoop_code called
      dsimp only
      rw [code, Option.isSome_map]

theorem Called.fat32_code {vol : Volume} {dp : Fat32Dir} {call : ReaddirCall} (called : Called (.fat32 vol dp) call) :
    call.code = if call.entry.isSome then 0 else -1 := by
  generalize begun : VfsDir.fat32 vol dp = dir at called
  induction called generalizing dp with
  | @first dir call returned =>
      subst begun
      have code := vfsReaddir_code returned
      cases shape : call.dir with
      | fat32 => simpa only [shape] using code
      | iso9660 => simp only [shape] at code
  | @later dir call after returned rest ih =>
      subst begun
      obtain ⟨answer, _, rfl⟩ := Option.map_eq_some_iff.mp returned
      cases answer with
      | none => exact ih rfl
      | some produced => exact ih rfl

theorem Called.iso9660_code {dirp : IsoDir} {call : ReaddirCall} (called : Called (.iso9660 dirp) call) :
    call.code = if call.entry.isSome then 1 else 0 := by
  generalize begun : VfsDir.iso9660 dirp = dir at called
  induction called generalizing dirp with
  | @first dir call returned =>
      subst begun
      have code := vfsReaddir_code returned
      cases shape : call.dir with
      | fat32 => simp only [shape] at code
      | iso9660 => simpa only [shape] using code
  | @later dir call after returned rest ih =>
      subst begun
      obtain ⟨result, _, rfl⟩ := Option.map_eq_some_iff.mp returned
      exact ih rfl

/-- Repeating `f_readdir` comes to the end of the directory. -/
theorem exists_called_end_fat32 {vol : Volume} {dp : Fat32Dir} {rest : List ((Nat × Nat) × Fat32.Slot)}
    (geometry : Geometry vol.bpb) (ahead : dp.Ahead vol rest) :
    ∃ call, Called (.fat32 vol dp) call ∧ call.entry = none := by
  generalize count : (shown rest).length = left
  induction left generalizing dp rest with
  | zero =>
      rcases fReaddir_spec geometry ahead with ⟨_, ended⟩ | ⟨item, rest', dp', shape, _⟩
      · refine ⟨⟨-1, none, .fat32 vol dp⟩, .first ?_, rfl⟩
        rw [vfsReaddir, ended]
        rfl
      · rw [shape] at count
        simp at count
  | succ left ih =>
      rcases fReaddir_spec geometry ahead with ⟨none, _⟩ | ⟨item, rest', dp', shape, returned, ahead'⟩
      · rw [none] at count
        simp at count
      · rw [shape, List.length_cons] at count
        obtain ⟨call, called, ended⟩ := ih ahead' (Nat.succ.inj count)
        have first : vfsReaddir (.fat32 vol dp) =
            some ⟨0, some (.fat32 (Fat32.direntOf item.2)), .fat32 vol dp'⟩ := by
          rw [vfsReaddir, returned]
          rfl
        exact ⟨call, .later first called, ended⟩

/-- Repeating `iso9660_readdir` comes to the end of the directory. -/
theorem exists_called_end_iso9660 {dirp : IsoDir} {entries : List IsoEntry} (reads : Reads dirp entries) :
    ∃ call, Called (.iso9660 dirp) call ∧ call.entry = none := by
  induction reads with
  | @nil dirp result returned ends =>
      have code := iso9660_readdirLoop_code returned
      refine ⟨_, .first (by rw [vfsReaddir, returned]; rfl), ?_⟩
      cases produced : result.entry with
      | none => exact (congrArg (Option.map _) produced)
      | some entry =>
          rw [produced, ends] at code
          exact absurd code (by simp)
  | cons returned _ _ _ ih =>
      obtain ⟨call, called, ended⟩ := ih
      exact ⟨call, .later (by rw [vfsReaddir, returned]; rfl) called, ended⟩

/-- The two backends never report the end of a directory with the same code. -/
theorem not_sameCodes {vol : Volume} {dp : Fat32Dir} {rest : List ((Nat × Nat) × Fat32.Slot)} {dirp : IsoDir}
    {entries : List IsoEntry} (geometry : Geometry vol.bpb) (ahead : dp.Ahead vol rest)
    (reads : Reads dirp entries) : ¬ SameCodes (.fat32 vol dp) (.iso9660 dirp) := by
  obtain ⟨call, called, ended⟩ := exists_called_end_fat32 geometry ahead
  obtain ⟨call', called', ended'⟩ := exists_called_end_iso9660 reads
  intro same
  have codes := same call call' called called' (by rw [ended, ended'])
  rw [called.fat32_code, called'.iso9660_code, ended, ended'] at codes
  exact absurd codes (by decide)

/-- The read interface is uniform for empty files only, and for no directories. -/
theorem vfs_backends_differ (vol : Volume) (fp : Fat32File) (cells : List Nat) (disk : IsoDisk) (file : IsoFile)
    (dp : Fat32Dir) (rest : List ((Nat × Nat) × Fat32.Slot)) (dirSector dirSize : Nat)
    (extent : List Iso9660.DirSector) (geometry : Geometry vol.bpb)
    (owned : OwnedChain vol fp.firstCluster cells)
    (filled : fp.size ≤ cells.length * getClusterSizeBytes vol.bpb) (sized : fp.size < 4294967296)
    (start : fp.pos = 0) (blockSize : disk.bytesPerSector = 2048)
    (inside : file.sector + (file.size + 2047) / 2048 ≤ 4294967296) (ahead : dp.Ahead vol rest)
    (stored : Iso9660.Stored disk dirSector dirSize extent) :
    (ReadsFromStart (.fat32 vol fp) ((chainBytes vol cells).take fp.size) ↔ fp.size = 0) ∧
      (ReadsFromStart (.iso9660 disk file) (isoContent disk file) ↔ file.size = 0) ∧
      ¬ SameCodes (.fat32 vol dp) (.iso9660 (Iso9660.openedDir disk dirSector dirSize)) :=
  ⟨readsFromStart_fat32_iff geometry owned filled sized start, readsFromStart_iso9660_iff blockSize inside,
    not_sameCodes geometry ahead ((stored.reads_iff _).mpr rfl)⟩

/-- Two files with content, the root directory of the small volume and that of the small disk. -/
theorem vfs_backends_differ_small :
    let fp := Fat32.twoClusterFile 0
    let file : IsoFile := ⟨⟨[0x41], 22, 5, false⟩, 0⟩
    (ReadsFromStart (.fat32 Fat32.twoClusterVolume fp) ((chainBytes Fat32.twoClusterVolume [3, 4]).take fp.size) ↔
        fp.size = 0) ∧
      (ReadsFromStart (.iso9660 Iso9660.smallDisk file) (isoContent Iso9660.smallDisk file) ↔ file.size = 0) ∧
      ¬ SameCodes (.fat32 Fat32.twoClusterVolume ⟨2, 2, 0⟩)
        (.iso9660 (Iso9660.openedDir Iso9660.smallDisk 20 2048)) := by
  have root : Fat32.ClusterChain Fat32.twoClusterVolume 2 [2] := by
    refine ⟨.last (by decide +kernel), fun cell member => ?_⟩
    rw [List.mem_singleton.mp member]
    decide +kernel
  exact vfs_backends_differ Fat32.twoClusterVolume (Fat32.twoClusterFile 0) [3, 4] Iso9660.smallDisk
    ⟨⟨[0x41], 22, 5, false⟩, 0⟩ ⟨2, 2, 0⟩ (Fat32.dirSlots Fat32.twoClusterVolume [2]) 20 2048 [Iso9660.smallRoot]
    Fat32.twoClusterVolume_geometry (.inr Fat32.twoClusterVolume_chain) (by decide +kernel) (by decide) rfl rfl
    (by decide) ⟨[], 0, root, rfl, by rw [Fat32.dirSlots_cons, List.drop_zero]⟩ Iso9660.smallDisk_root

/-- A call that stores three bytes of a FAT32 file returns 0. On an ISO 9660 file of five
bytes, two calls for three bytes store six. -/
theorem vfs_reads_differ :
    ((vfsRead (.fat32 Fat32.twoClusterVolume (Fat32.twoClusterFile 0)) 3).map fun call =>
        (call.code, call.stored.length)) = some (0, 3) ∧
      Iso9660.iso9660Open Iso9660.smallDisk [0x41] = some (some ⟨⟨[0x41], 22, 5, false⟩, 0⟩) ∧
      ((readCalls (.iso9660 Iso9660.smallDisk ⟨⟨[0x41], 22, 5, false⟩, 0⟩) [3, 3]).map storedBytes).map List.length =
        some 6 ∧
      (isoContent Iso9660.smallDisk ⟨⟨[0x41], 22, 5, false⟩, 0⟩).length = 5 := by
  refine ⟨?_, ?_, ?_, ?_⟩ <;> decide +kernel

end KeblaOS.Vfs
