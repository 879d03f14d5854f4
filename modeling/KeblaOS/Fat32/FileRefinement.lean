import KeblaOS.Fat32.FileEffect
import KeblaOS.Lib.Run

/-!
# An open file is a byte array with a position

`File` says what an open file is for: contents and a position in them. A handle on a
volume represents a file when its chain holds the contents; `f_write`, `f_read` and
`f_lseek` on such a handle behave like the operations of the file it represents, call
after call. A write fails only beyond the end of the file and on a full volume; it may have changed
the contents up to the old size, and nothing else.
-/

namespace KeblaOS.Fat32

open KeblaOS.Buffer

/-- A file as its user sees it. -/
structure File where
  content : List UInt8
  pos : Nat
  inside : pos ≤ content.length

/-- Calls on an open handle. -/
inductive FileCall where
  | write (buff : List UInt8)
  | read (btr : Nat)
  | lseek (ofs : Nat)

/-- What a call reports: success and `*bw`, the `*br` bytes read, or nothing. -/
inductive FileReply where
  | written (ok : Bool) (bw : Nat)
  | bytes (buff : List UInt8)
  | positioned

/-- A call with its reply, and the volume that is left. -/
structure FileEvent where
  call : FileCall
  reply : FileReply
  vol : Volume

/-- The operations of a file. -/
inductive File.Step (file : File) : FileEvent → File → Prop where
  | written {buff vol next}
      (content : next.content = file.content.take file.pos ++ buff ++
        file.content.drop (file.pos + buff.length))
      (pos : next.pos = file.pos + buff.length) :
      File.Step file ⟨.write buff, .written true buff.length, vol⟩ next
  | volumeFull {buff bw vol next} (full : vol.Exhausted)
      (beyond : file.content.length < file.pos + max 1 buff.length)
      (content : next.content.length = file.content.length) (pos : next.pos = file.pos) :
      File.Step file ⟨.write buff, .written false bw, vol⟩ next
  | read {btr vol next} (content : next.content = file.content)
      (pos : next.pos = min (file.pos + btr) file.content.length) :
      File.Step file ⟨.read btr, .bytes (slice file.content file.pos btr), vol⟩ next
  | sought {ofs vol next} (content : next.content = file.content)
      (pos : next.pos = min ofs file.content.length) :
      File.Step file ⟨.lseek ofs, .positioned, vol⟩ next

/-- An open handle and the volume it is on. -/
structure OpenFile where
  vol : Volume
  fp : Fat32File

/-- One call on the handle. -/
def OpenFile.call (file : OpenFile) : FileCall → Option (FileReply × OpenFile)
  | .write buff =>
      (fWrite file.vol file.fp buff).map fun result =>
        (.written result.ok result.bw, ⟨result.vol, result.fp⟩)
  | .read btr =>
      (fRead file.vol file.fp btr).map fun (buff, fp) => (.bytes buff, ⟨file.vol, fp⟩)
  | .lseek ofs => (fLseek file.vol file.fp ofs).map fun fp => (.positioned, ⟨file.vol, fp⟩)

/-- Writes stay below the largest file size. -/
def FileCall.InRange (fp : Fat32File) : FileCall → Prop
  | .write buff => fp.pos + buff.length < 4294967296
  | .read _ => True
  | .lseek _ => True

/-- A call in range, with its reply. -/
def OpenFile.Step (file : OpenFile) (event : FileEvent) (next : OpenFile) : Prop :=
  event.call.InRange file.fp ∧ file.call event.call = some (event.reply, next) ∧ event.vol = next.vol

/-- The handle represents the file: its clusters form a chain that holds the contents. -/
structure OpenFile.Represents (file : OpenFile) (abstract : File) (cells : List Nat) : Prop where
  geometry : Geometry file.vol.bpb
  copies : FatCopiesEqual file.vol
  hint : 2 ≤ file.vol.freeClusterNo
  owned : OwnedChain file.vol file.fp.firstCluster cells
  filled : file.fp.size ≤ cells.length * getClusterSizeBytes file.vol.bpb
  sized : file.fp.size < 4294967296
  content : abstract.content = (chainBytes file.vol cells).take file.fp.size
  pos : abstract.pos = file.fp.pos

namespace OpenFile.Represents

variable {file : OpenFile} {abstract : File} {cells : List Nat}

theorem length_content (represents : file.Represents abstract cells) :
    abstract.content.length = file.fp.size := by
  rw [represents.content, List.length_take, length_chainBytes represents.geometry]
  exact Nat.min_eq_left represents.filled

theorem pos_le (represents : file.Represents abstract cells) : file.fp.pos ≤ file.fp.size := by
  rw [← represents.pos, ← represents.length_content]
  exact abstract.inside

/-- `f_write` returns and writes like the file, or finds the volume full. -/
theorem write (represents : file.Represents abstract cells) (buff : List UInt8)
    (inRange : file.fp.pos + buff.length < 4294967296) :
    ∃ reply next abstract' cells', file.call (.write buff) = some (reply, next) ∧
      abstract.Step ⟨.write buff, reply, next.vol⟩ abstract' ∧ next.Represents abstract' cells' := by
  have inside := represents.pos_le
  have filled := represents.filled
  obtain ⟨result, added, returned, wrote⟩ :=
    fWrite_cases buff represents.geometry represents.hint represents.owned
  have bpb := wrote.grown.same.bpb
  have geometry : Geometry result.vol.bpb := by
    rw [bpb]
    exact represents.geometry
  have copies := wrote.grown.same.copies represents.copies
  have hint := represents.hint.trans wrote.grown.same.hint
  have capacity : cells.length * getClusterSizeBytes file.vol.bpb ≤
      (cells ++ added).length * getClusterSizeBytes result.vol.bpb := by
    rw [bpb, List.length_append]
    exact Nat.mul_le_mul_right _ (Nat.le_add_right _ _)
  have length := length_chainBytes geometry (cells ++ added)
  have returns : file.call (.write buff) =
      some (.written result.ok result.bw, ⟨result.vol, result.fp⟩) := by
    rw [OpenFile.call, returned, Option.map_some]
  rcases wrote.outcome with ⟨failed, pos, size, exhausted, short⟩ | ⟨succeeded, all, pos, size, spliced⟩
  · have filled' : result.fp.size ≤ (cells ++ added).length * getClusterSizeBytes result.vol.bpb := by
      omega
    have sized : result.fp.size < 4294967296 := size ▸ represents.sized
    let abstract' : File :=
      ⟨(chainBytes result.vol (cells ++ added)).take file.fp.size, file.fp.pos, by
        rw [List.length_take, length]
        omega⟩
    refine ⟨_, _, abstract', cells ++ added, returns, ?_, ?_⟩
    · rw [failed]
      have beyond : abstract.content.length < abstract.pos + max 1 buff.length := by
        rw [represents.length_content, represents.pos]
        rw [bpb] at capacity
        omega
      refine .volumeFull exhausted beyond ?_ represents.pos.symm
      rw [represents.length_content, List.length_take, length]
      omega
    · exact ⟨geometry, copies, hint, wrote.owned, filled', sized, by rw [size], pos.symm⟩
  · have inWord : u32 (file.fp.pos + buff.length) = file.fp.pos + buff.length := u32_of_lt inRange
    rw [inWord] at pos size
    have old := length_chainBytes represents.geometry cells
    have spliced := spliced (inside.trans filled)
    have written := spliced.length_le (by omega)
    have filled' : result.fp.size ≤ (cells ++ added).length * getClusterSizeBytes result.vol.bpb := by
      omega
    have sized : result.fp.size < 4294967296 := by
      have before := represents.sized
      omega
    let abstract' : File :=
      ⟨(chainBytes result.vol (cells ++ added)).take result.fp.size, result.fp.pos, by
        rw [List.length_take, pos, size]
        omega⟩
    refine ⟨_, _, abstract', cells ++ added, returns, ?_, ?_⟩
    · rw [succeeded, all]
      refine .written ?_ (by rw [represents.pos]; exact pos)
      rw [represents.content, represents.pos, ← spliced.take_eq inside (by omega), ← size]
    · exact ⟨geometry, copies, hint, wrote.owned, filled', sized, rfl, rfl⟩

/-- `f_read` returns the bytes of the file. -/
theorem read (represents : file.Represents abstract cells) (btr : Nat) :
    ∃ reply next abstract' cells', file.call (.read btr) = some (reply, next) ∧
      abstract.Step ⟨.read btr, reply, next.vol⟩ abstract' ∧ next.Represents abstract' cells' := by
  have inside := represents.pos_le
  have length := represents.length_content
  have returned := fRead_eq btr represents.geometry represents.owned represents.filled represents.sized
    inside
  dsimp only at returned
  rw [← represents.content, ← represents.pos] at returned
  have read : (slice abstract.content abstract.pos btr).length =
      min btr (abstract.content.length - abstract.pos) := length_slice _ _ _
  have pos := represents.pos
  let abstract' : File := ⟨abstract.content, min (abstract.pos + btr) abstract.content.length, by omega⟩
  refine ⟨_, _, abstract', cells, by rw [OpenFile.call, returned, Option.map_some], .read rfl rfl, ?_⟩
  exact ⟨represents.geometry, represents.copies, represents.hint, represents.owned, represents.filled,
    represents.sized, represents.content, by simp only [abstract', read]; omega⟩

/-- `f_lseek` moves the position. -/
theorem lseek (represents : file.Represents abstract cells) (ofs : Nat) :
    ∃ reply next abstract' cells', file.call (.lseek ofs) = some (reply, next) ∧
      abstract.Step ⟨.lseek ofs, reply, next.vol⟩ abstract' ∧ next.Represents abstract' cells' := by
  obtain ⟨cluster, returned⟩ := fLseek_eq file.fp ofs represents.geometry
  let abstract' : File := ⟨abstract.content, min ofs abstract.content.length, Nat.min_le_right _ _⟩
  refine ⟨_, _, abstract', cells, by rw [OpenFile.call, returned, Option.map_some], .sought rfl rfl, ?_⟩
  exact ⟨represents.geometry, represents.copies, represents.hint, represents.owned, represents.filled,
    represents.sized, represents.content, by simp only [abstract', represents.length_content]⟩

/-- Every call in range returns and does what the file does. -/
theorem call (represents : file.Represents abstract cells) {call : FileCall}
    (inRange : call.InRange file.fp) :
    ∃ reply next abstract' cells', file.call call = some (reply, next) ∧
      abstract.Step ⟨call, reply, next.vol⟩ abstract' ∧ next.Represents abstract' cells' := by
  cases call with
  | write buff => exact represents.write buff inRange
  | read btr => exact represents.read btr
  | lseek ofs => exact represents.lseek ofs

/-- A step of the handle is one of the file, with the same reply. -/
theorem step (represents : file.Represents abstract cells) {event : FileEvent} {next : OpenFile}
    (taken : file.Step event next) :
    ∃ abstract', abstract.Step event abstract' ∧ ∃ cells', next.Represents abstract' cells' := by
  obtain ⟨call, reply, vol⟩ := event
  obtain ⟨inRange, returned, rfl⟩ := taken
  obtain ⟨reply', next', abstract', cells', returned', step, represents'⟩ := represents.call inRange
  obtain ⟨rfl, rfl⟩ := Prod.mk.inj (Option.some.inj (returned.symm.trans returned'))
  exact ⟨abstract', step, cells', represents'⟩

end OpenFile.Represents

/-- Every run of calls on a handle that represents a file is a run of that file, with
the same replies, and the next call returns as well. -/
theorem openFile_run_refines_file {start : OpenFile} {abstract : File} {cells : List Nat}
    (represents : start.Represents abstract cells) {trace : List FileEvent}
    {finish : OpenFile} (run : Run OpenFile.Step start trace finish) :
    ∃ abstract' cells', Run File.Step abstract trace abstract' ∧
      finish.Represents abstract' cells' ∧
      ∀ call : FileCall, call.InRange finish.fp → ∃ reply next, finish.call call = some (reply, next) := by
  obtain ⟨abstract', run', cells', represents'⟩ :=
    run.simulation (fun file abstract => ∃ cells, file.Represents abstract cells)
      ⟨cells, represents⟩ fun ⟨_, represents⟩ taken => represents.step taken
  refine ⟨abstract', cells', run', represents', fun call inRange => ?_⟩
  obtain ⟨reply, next, _, _, returned, _⟩ := represents'.call inRange
  exact ⟨reply, next, returned⟩

/-- A handle on an empty file of a blank volume: three bytes are written, and the run
is the one of the empty byte array. -/
theorem openFile_run_refines_file_blank :
    let start : OpenFile := ⟨blankVolume, closedFile⟩
    ∃ finish abstract' cells',
      Run OpenFile.Step start [⟨.write [1, 2, 3], .written true 3, finish.vol⟩] finish ∧
        Run File.Step ⟨[], 0, Nat.le_refl 0⟩ [⟨.write [1, 2, 3], .written true 3, finish.vol⟩] abstract' ∧
          finish.Represents abstract' cells' := by
  intro start
  have represents : start.Represents ⟨[], 0, Nat.le_refl 0⟩ [] :=
    ⟨blankVolume_geometry, blankVolume_fatCopiesEqual, by decide, .inl ⟨rfl, rfl⟩, by decide, by decide,
      rfl, rfl⟩
  have inRange : (FileCall.write [1, 2, 3]).InRange start.fp := by
    show closedFile.pos + 3 < 4294967296
    decide
  have wrote : (fWrite blankVolume closedFile [1, 2, 3]).map (fun result => (result.ok, result.bw)) =
      some (true, 3) := by decide +kernel
  obtain ⟨result, returned, reply⟩ := Option.map_eq_some_iff.mp wrote
  obtain ⟨ok, bw⟩ := Prod.mk.inj reply
  have call : start.call (.write [1, 2, 3]) = some (.written true 3, ⟨result.vol, result.fp⟩) := by
    rw [OpenFile.call, returned, Option.map_some, ok, bw]
  have run : Run OpenFile.Step start [⟨.write [1, 2, 3], .written true 3, result.vol⟩] ⟨result.vol, result.fp⟩ :=
    Run.snoc .nil ⟨inRange, call, rfl⟩
  obtain ⟨abstract', cells', run', represents', -⟩ := openFile_run_refines_file represents run
  exact ⟨_, abstract', cells', run, run', represents'⟩

end KeblaOS.Fat32
