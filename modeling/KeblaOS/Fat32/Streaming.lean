import KeblaOS.Lib.Streams
import KeblaOS.Fat32.FullVolume

/-!
# Reading a file as a stream

`f_forward` walks the chain like `f_read` and hands each piece to a callback that may take
less than it is offered. `f_gets` reads a line byte by byte. Both are reads of the file that
the handle represents.
-/

namespace KeblaOS.Fat32

open KeblaOS.Buffer

/-! ## `f_forward` -/

/-- What a call of `f_forward` leaves: `*bf`, the pieces it offered and the state of the
callback. -/
structure Forwarded (σ : Type*) where
  bf : Nat
  offers : List (Offer UInt8)
  sink : σ

section Forward

variable {σ : Type*} (func : σ → List UInt8 → Nat × σ)

/-- The loop of `f_forward`. The callback is a function of its own state and the piece. -/
def forwardLoop (vol : Volume) (btf : Nat) : Nat → Nat → σ → Nat → Nat → Option (Forwarded σ)
  | 0, _, _, _, _ => none
  | fuel + 1, bf, sink, offset, cluster =>
      if bf < btf ∧ cluster ≠ 0 then
        let clusterBuf := fat32ReadCluster vol cluster
        let forwardSize := min (getClusterSizeBytes vol.bpb - offset) (btf - bf)
        let piece := slice clusterBuf offset forwardSize
        let (sent, sink) := func sink piece
        let bf := u32 (bf + sent)
        if sent < forwardSize then some ⟨bf, [⟨piece, sent⟩], sink⟩
        else
          (forwardLoop vol btf fuel bf sink 0 (fat32GetNextCluster vol cluster)).map fun result =>
            { result with offers := ⟨piece, sent⟩ :: result.offers }
      else some ⟨bf, [], sink⟩

/-- `f_forward`. -/
def fForward (vol : Volume) (fp : Fat32File) (sink : σ) (btf : Nat) : Option (Forwarded σ × Fat32File) :=
  if fp.size ≤ fp.pos then some (⟨0, [], sink⟩, fp)
  else
    let btf := min btf (fp.size - fp.pos)
    match walkChain vol (fp.pos + 1) fp.pos fp.firstCluster with
    | none => none
    | some (offset, cluster) =>
        (forwardLoop func vol btf (btf + 1) 0 sink offset cluster).map fun result =>
          (result, { fp with pos := u32 (fp.pos + result.bf) })

variable {func} {vol : Volume}

/-- The loop delivers what is left to forward, cluster by cluster. -/
theorem forwardLoop_delivered {btf fuel bf offset start : Nat} {sink : σ} {cells : List Nat}
    (geometry : Geometry vol.bpb) (accepts : ∀ sink piece, (func sink piece).1 ≤ piece.length)
    (chain : ClusterChain vol start cells) (small : btf < 4294967296) (before : bf ≤ btf) (enough : btf - bf < fuel)
    (inside : offset < getClusterSizeBytes vol.bpb)
    (available : offset + (btf - bf) ≤ cells.length * getClusterSizeBytes vol.bpb) :
    ∃ result, forwardLoop func vol btf fuel bf sink offset start = some result ∧
      Delivered (slice (chainBytes vol cells) offset (btf - bf)) result.offers ∧
      result.bf = bf + totalSent result.offers ∧
      ∀ offer ∈ result.offers, ∃ sink, offer.sent = (func sink offer.piece).1 := by
  have positive := geometry.clusterSize_pos
  induction cells generalizing fuel bf offset start sink with
  | nil => exact absurd rfl chain.linked.ne_nil
  | cons head tail ih =>
      obtain ⟨fuel, rfl⟩ := Nat.exists_eq_succ_of_ne_zero (Nat.ne_of_gt (Nat.zero_lt_of_lt enough))
      obtain ⟨_, shape⟩ := chain.linked.eq_cons
      obtain rfl : head = start := (List.cons.inj shape).1
      have length := length_readCluster geometry head
      rw [Nat.succ_eq_add_one, forwardLoop, chainBytes_cons, slice_append_split (by omega), length]
      by_cases finished : btf ≤ bf
      · have none : btf - bf = 0 := by omega
        rw [if_neg (by omega), none]
        exact ⟨_, rfl, by simpa [slice] using Delivered.finished, by simp [totalSent], by simp⟩
      · rw [if_pos ⟨by omega, chain.start_ne_zero⟩]
        dsimp only
        generalize size : min (getClusterSizeBytes vol.bpb - offset) (btf - bf) = forwardSize
        generalize bytes : slice (fat32ReadCluster vol head) offset forwardSize = piece
        have pieceLength : piece.length = forwardSize := by
          rw [← bytes]
          exact length_slice_of_le (by omega)
        have nonempty : piece ≠ [] := List.ne_nil_of_length_pos (by omega)
        have taken := accepts sink piece
        rw [u32_of_lt (by omega)]
        by_cases short : (func sink piece).1 < forwardSize
        · rw [if_pos short]
          refine ⟨_, rfl, .stopped (by omega), by simp [totalSent], fun offer member => ⟨sink, ?_⟩⟩
          rw [List.mem_singleton.mp member]
        · rw [if_neg short]
          have all : (func sink piece).1 = piece.length := by omega
          have later : ∃ result, forwardLoop func vol btf fuel (bf + (func sink piece).1) (func sink piece).2 0
              (fat32GetNextCluster vol head) = some result ∧
                Delivered (slice (chainBytes vol tail) 0 (btf - bf - forwardSize)) result.offers ∧
                result.bf = bf + (func sink piece).1 + totalSent result.offers ∧
                ∀ offer ∈ result.offers, ∃ sink, offer.sent = (func sink offer.piece).1 := by
            by_cases last : btf - bf ≤ getClusterSizeBytes vol.bpb - offset
            · -- the head cluster holds all that is left
              obtain ⟨fuel, rfl⟩ : ∃ more, fuel = more + 1 := ⟨fuel - 1, by omega⟩
              rw [forwardLoop, if_neg (by omega), show btf - bf - forwardSize = 0 by omega]
              exact ⟨_, rfl, by simpa [slice] using Delivered.finished, by simp [totalSent], by simp⟩
            · rw [List.length_cons, Nat.succ_mul] at available
              have more : tail ≠ [] := by
                rintro rfl
                simp only [List.length_nil, Nat.zero_mul] at available
                omega
              obtain ⟨_, _, tailLinked⟩ := chain.linked.tail_of_ne_nil more
              have tailChain : ClusterChain vol (fat32GetNextCluster vol head) tail :=
                ⟨tailLinked, fun cell member => chain.isCluster cell (List.mem_cons_of_mem _ member)⟩
              have left : btf - bf - forwardSize = btf - (bf + (func sink piece).1) := by omega
              rw [left]
              exact ih tailChain (by omega) (by omega) positive (by omega)
          obtain ⟨result, returned, delivered, total, answers⟩ := later
          rw [returned, all]
          refine ⟨_, rfl, .passed nonempty delivered, ?_, ?_⟩
          · simp only [totalSent, List.map_cons, List.sum_cons] at total ⊢
            omega
          · intro offer member
            rcases List.mem_cons.mp member with rfl | member
            · exact ⟨sink, all.symm⟩
            · exact answers offer member

/-- What `f_forward` does on a file: it offers the bytes from the position on, as far as wanted
and there, and leaves the position behind the accepted ones. -/
structure Forwards (file : File) (fp : Fat32File) (btf : Nat) (result : Forwarded σ × Fat32File) : Prop where
  delivered : Delivered (slice file.content file.pos btf) result.1.offers
  bf : result.1.bf = totalSent result.1.offers
  fp : result.2 = { fp with pos := fp.pos + result.1.bf }

/-- `f_forward` returns, and delivers the file from the position on. -/
theorem fForward_forwards {file : OpenFile} {abstract : File} {cells : List Nat} (btf : Nat) (sink : σ)
    (represents : file.Represents abstract cells) (accepts : ∀ sink piece, (func sink piece).1 ≤ piece.length) :
    ∃ result, fForward func file.vol file.fp sink btf = some result ∧ Forwards abstract file.fp btf result ∧
      ∀ offer ∈ result.1.offers, ∃ sink, offer.sent = (func sink offer.piece).1 := by
  have length := represents.length_content
  have sized := represents.sized
  have position := represents.pos
  rw [fForward]
  by_cases atEnd : file.fp.size ≤ file.fp.pos
  · rw [if_pos atEnd]
    refine ⟨_, rfl, ⟨?_, rfl, rfl⟩, fun offer member => absurd member List.not_mem_nil⟩
    have empty : slice abstract.content abstract.pos btf = [] := by
      rw [slice, List.drop_of_length_le (by omega), List.take_nil]
    rw [empty]
    exact .finished
  · rw [if_neg atEnd]
    obtain ⟨offset, cell, rest, walked, chain, within, ahead⟩ :=
      walkChain_position represents.geometry represents.owned represents.filled (Nat.lt_of_not_le atEnd)
    obtain ⟨available, same⟩ := ahead (min btf (file.fp.size - file.fp.pos)) (by omega)
    have enough : min btf (file.fp.size - file.fp.pos) - 0 < min btf (file.fp.size - file.fp.pos) + 1 :=
      Nat.lt_succ_self _
    obtain ⟨result, returned, delivered, bf, answers⟩ :=
      @forwardLoop_delivered σ func file.vol _ _ 0 offset cell sink rest represents.geometry accepts chain
        (by omega) (Nat.zero_le _) enough within available
    have stream : slice abstract.content abstract.pos btf =
        slice (chainBytes file.vol rest) offset (min btf (file.fp.size - file.fp.pos) - 0) := by
      rw [Nat.sub_zero, same, ← represents.content, ← slice_min, length, position]
    have most := delivered.totalSent_le
    rw [← stream, length_slice] at most
    rw [Nat.zero_add] at bf
    dsimp only
    rw [walked]
    dsimp only
    rw [returned]
    refine ⟨_, rfl, ⟨?_, bf, ?_⟩, answers⟩
    · rw [stream]
      exact delivered
    · dsimp only
      rw [u32_of_lt (by omega)]

namespace Forwards

variable {abstract : File} {fp : Fat32File} {btf : Nat} {result : Forwarded σ × Fat32File}

theorem bf_le (forwards : Forwards abstract fp btf result) :
    result.1.bf ≤ min btf (abstract.content.length - abstract.pos) := by
  rw [forwards.bf, ← length_slice]
  exact forwards.delivered.totalSent_le

/-- What the callback accepted are the bytes from the position on. -/
theorem accepted_eq (forwards : Forwards abstract fp btf result) :
    result.1.offers.flatMap Offer.accepted = slice abstract.content abstract.pos result.1.bf := by
  have most := forwards.bf_le
  rw [forwards.delivered.accepted_eq, ← forwards.bf, slice, slice, List.take_take, Nat.min_eq_left (by omega)]

/-- The pieces follow one another in the file. -/
theorem piece_eq (forwards : Forwards abstract fp btf result) {front back : List (Offer UInt8)} {offer : Offer UInt8}
    (split : result.1.offers = front ++ offer :: back) :
    offer.piece = slice abstract.content (abstract.pos + totalSent front) offer.piece.length := by
  have place := forwards.delivered.piece_eq split
  rw [slice, List.drop_take, List.drop_drop, List.take_take] at place
  have shorter : offer.piece.length ≤ btf - totalSent front := by
    rw [place, List.length_take]
    omega
  rw [Nat.min_eq_left shorter] at place
  exact place

end Forwards

/-- For every handle that represents a file and every callback that takes at most what it is
offered: the pieces are consecutive, the accepted bytes are those from the position on, the
first piece that is not accepted as a whole is the last one, and the position advances by the
accepted bytes. A callback that takes everything gets what `f_read` reads. -/
theorem fForward_streams_file {file : OpenFile} {abstract : File} {cells : List Nat} (btf : Nat) (sink : σ)
    (represents : file.Represents abstract cells) (accepts : ∀ sink piece, (func sink piece).1 ≤ piece.length) :
    ∃ result fp, fForward func file.vol file.fp sink btf = some (result, fp) ∧
      (∀ front offer back, result.offers = front ++ offer :: back →
        offer.piece = slice abstract.content (file.fp.pos + totalSent front) offer.piece.length ∧
        (∃ sink, offer.sent = (func sink offer.piece).1) ∧ (offer.sent < offer.piece.length → back = [])) ∧
      result.offers.flatMap Offer.accepted = slice abstract.content file.fp.pos result.bf ∧
      result.bf ≤ min btf (file.fp.size - file.fp.pos) ∧
      ((∀ offer ∈ result.offers, offer.sent = offer.piece.length) →
        result.bf = min btf (file.fp.size - file.fp.pos)) ∧
      fp = { file.fp with pos := file.fp.pos + result.bf } ∧
      ((∀ sink piece, (func sink piece).1 = piece.length) →
        fRead file.vol file.fp btf = some (result.offers.flatMap Offer.accepted, fp) ∧
          result.bf = (result.offers.flatMap Offer.accepted).length) := by
  obtain ⟨⟨result, fp⟩, returned, forwards, answers⟩ := fForward_forwards btf sink represents accepts
  have most := forwards.bf_le
  have accepted := forwards.accepted_eq
  have position := represents.pos
  have length := represents.length_content
  have whole : (∀ offer ∈ result.offers, offer.sent = offer.piece.length) →
      result.bf = min btf (abstract.content.length - abstract.pos) := by
    intro all
    rw [forwards.bf, forwards.delivered.totalSent_eq all, length_slice]
  rw [length, position] at most whole
  rw [position] at accepted
  refine ⟨result, fp, returned, fun front offer back split => ⟨?_, ?_, ?_⟩, accepted, most, whole, forwards.fp,
    fun all => ?_⟩
  · rw [← position]
    exact forwards.piece_eq split
  · apply answers
    rw [split]
    exact List.mem_append_right _ List.mem_cons_self
  · exact forwards.delivered.last_of_short split
  · have bf : result.bf = min btf (file.fp.size - file.fp.pos) := by
      apply whole
      intro offer member
      obtain ⟨sink, answer⟩ := answers offer member
      rw [answer, all]
    have bytes : slice abstract.content file.fp.pos result.bf = slice abstract.content file.fp.pos btf := by
      rw [bf, ← length, slice_min]
    have count : (slice abstract.content file.fp.pos btf).length = result.bf := by
      rw [length_slice, length, bf]
    have read := fRead_eq btf represents.geometry represents.owned represents.filled represents.sized represents.pos_le
    dsimp only at read
    rw [← represents.content, count] at read
    have left : fp = { file.fp with pos := file.fp.pos + result.bf } := forwards.fp
    rw [accepted, bytes, count, left]
    exact ⟨read, rfl⟩

end Forward

/-- A callback that takes two bytes and then nothing, in the middle of a file of two clusters: it is offered
the last 12 bytes of the first cluster, and the position moves behind two of them. -/
theorem fForward_streams_file_two :
    ∃ result fp, fForward (fun (taken : Bool) piece => (if taken then 0 else min 2 piece.length, true)) twoClusterVolume
        (twoClusterFile 500) false 100 = some (result, fp) ∧
      result.bf = 2 ∧ result.offers = [⟨List.replicate 12 0, 2⟩] ∧ fp = twoClusterFile 502 := by
  have accepts : ∀ (taken : Bool) (piece : List UInt8),
      (if taken then 0 else min 2 piece.length, true).1 ≤ piece.length := by
    intro taken piece
    dsimp only
    split_ifs
    · exact Nat.zero_le _
    · exact Nat.min_le_right _ _
  have length : ((chainBytes twoClusterVolume [3, 4]).take 1024).length = 1024 := by
    rw [List.length_take, length_chainBytes twoClusterVolume_geometry]
    decide +kernel
  obtain ⟨result, fp, returned, _, _, _, _, moved, _⟩ :=
    fForward_streams_file 100 false (@twoClusterFile_represents 500 (by omega)) accepts
  have offered : (fForward (fun (taken : Bool) piece => (if taken then 0 else min 2 piece.length, true))
      twoClusterVolume (twoClusterFile 500) false 100).map (fun outcome => (outcome.1.bf, outcome.1.offers)) =
        some (2, [⟨List.replicate 12 0, 2⟩]) := by decide +kernel
  rw [returned] at offered
  obtain ⟨bf, offers⟩ := Prod.mk.inj (Option.some.inj offered)
  refine ⟨result, fp, returned, bf, offers, ?_⟩
  rw [moved, show result.bf = 2 from bf]
  rfl

/-! ## `f_gets` -/

/-- `'\n'`. -/
def newline : UInt8 := 0x0A

/-- The loop of `f_gets`; `out` holds the `i` bytes stored so far, and `room` is `len - 1`. -/
def getsLoop (vol : Volume) (room : Nat) : Nat → List UInt8 → Fat32File → Option (Option (List UInt8) × Fat32File)
  | 0, _, _ => none
  | fuel + 1, out, fp =>
      if out.length < room then
        match fRead vol fp 1 with
        | none => none
        | some ([], fp) => some (if out = [] then none else some out, fp)
        | some (c :: _, fp) =>
            if c = newline then some (some (out ++ [c]), fp) else getsLoop vol room fuel (out ++ [c]) fp
      else some (some out, fp)

/-- `f_gets`: the bytes in the caller's buffer up to the final zero, or `NULL`. -/
def fGets (vol : Volume) (len : Int) (fp : Fat32File) : Option (Option (List UInt8) × Fat32File) :=
  if len ≤ 0 then some (none, fp)
  else
    (getsLoop vol (len - 1).toNat (len.toNat) [] fp).map fun (out, fp) => (out.map (· ++ [0]), fp)

/-- Calls of `f_gets` with these lengths until one returns `NULL`, with the strings returned. -/
inductive GetsRun (vol : Volume) : (Nat → Int) → Fat32File → List (List UInt8) → Fat32File → Prop where
  | eof {lens fp after} (returned : fGets vol (lens 0) fp = some (none, after)) : GetsRun vol lens fp [] after
  | line {lens fp middle after buffer lines} (returned : fGets vol (lens 0) fp = some (some buffer, middle))
      (rest : GetsRun vol (fun i => lens (i + 1)) middle lines after) :
      GetsRun vol lens fp (cString buffer :: lines) after

section Gets

variable {vol : Volume} {fp : Fat32File} {abstract : File} {cells : List Nat}

/-- The handle moved on by some bytes represents the file at the later position. -/
theorem OpenFile.Represents.advance {count : Nat} (represents : OpenFile.Represents ⟨vol, fp⟩ abstract cells)
    (inside : abstract.pos + count ≤ abstract.content.length) :
    OpenFile.Represents ⟨vol, { fp with pos := fp.pos + count }⟩ ⟨abstract.content, abstract.pos + count, inside⟩ cells :=
  ⟨represents.geometry, represents.copies, represents.hint, represents.owned, represents.filled, represents.sized,
    represents.content, congrArg (· + count) represents.pos⟩

/-- A read of one byte gets the next one, or nothing at the end. -/
theorem fRead_byte (represents : OpenFile.Represents ⟨vol, fp⟩ abstract cells) :
    (abstract.content.drop abstract.pos = [] ∧ fRead vol fp 1 = some ([], fp)) ∨
      ∃ c rest, abstract.content.drop abstract.pos = c :: rest ∧
        fRead vol fp 1 = some ([c], { fp with pos := fp.pos + 1 }) := by
  have read := fRead_eq 1 represents.geometry represents.owned represents.filled represents.sized represents.pos_le
  dsimp only at read
  rw [← represents.content, ← represents.pos, slice] at read
  cases rest : abstract.content.drop abstract.pos with
  | nil =>
      left
      rw [rest] at read
      exact ⟨rfl, by simpa [represents.pos] using read⟩
  | cons c rest' =>
      right
      rw [rest] at read
      exact ⟨c, rest', rfl, by simpa [represents.pos] using read⟩

/-- The loop reads the next line behind what it has, unless there is nothing at all. -/
theorem getsLoop_eq {room fuel : Nat} {out : List UInt8} (represents : OpenFile.Represents ⟨vol, fp⟩ abstract cells)
    (positive : 0 < room) (enough : room - out.length < fuel) :
    let line := lineOf newline (room - out.length) (abstract.content.drop abstract.pos)
    getsLoop vol room fuel out fp =
      some (if out ++ line = [] then none else some (out ++ line), { fp with pos := fp.pos + line.length }) := by
  induction fuel generalizing out fp abstract with
  | zero => exact absurd enough (Nat.not_lt_zero _)
  | succ fuel ih =>
      intro line
      rw [getsLoop]
      by_cases more : out.length < room
      · rw [if_pos more]
        obtain ⟨left, room'⟩ : ∃ left, room - out.length = left + 1 := ⟨room - out.length - 1, by omega⟩
        rcases fRead_byte represents with ⟨atEnd, read⟩ | ⟨c, rest, ahead, read⟩
        · have empty : line = [] := by
            unfold line
            rw [atEnd, room', lineOf]
          rw [read, empty, List.append_nil]
          rfl
        · rw [read]
          dsimp only
          by_cases isNewline : c = newline
          · have single : line = [c] := by
              unfold line
              rw [ahead, room', lineOf, if_pos isNewline]
            rw [if_pos isNewline, single, if_neg (by simp)]
            rfl
          · have inside : abstract.pos + 1 ≤ abstract.content.length := by
              have length := congrArg List.length ahead
              rw [List.length_drop, List.length_cons] at length
              omega
            have behind : abstract.content.drop (abstract.pos + 1) = rest := by
              rw [← List.drop_drop, ahead, List.drop_one, List.tail_cons]
            have length : (out ++ [c]).length = out.length + 1 := by simp
            have later := @ih _ _ (out ++ [c]) (represents.advance inside) (by omega)
            have whole : line = c :: lineOf newline (room - (out ++ [c]).length) rest := by
              unfold line
              rw [ahead, room', lineOf, if_neg isNewline, show room - (out ++ [c]).length = left by omega]
            dsimp only at later
            rw [behind] at later
            rw [if_neg isNewline, later, whole, if_neg (by simp), if_neg (by simp), List.append_assoc]
            simp only [List.singleton_append, List.length_cons, Nat.add_assoc, Nat.add_comm 1]
      · have none : room - out.length = 0 := by omega
        have some : out ≠ [] := List.ne_nil_of_length_pos (by omega)
        have empty : line = [] := by
          unfold line
          rw [none, lineOf]
        rw [if_neg more, empty, List.append_nil, if_neg some]
        rfl

/-- `f_gets` with room for a character returns the next line, or `NULL` at the end. -/
theorem fGets_eq {len : Int} (represents : OpenFile.Represents ⟨vol, fp⟩ abstract cells) (roomy : 2 ≤ len) :
    let line := lineOf newline (len - 1).toNat (abstract.content.drop abstract.pos)
    fGets vol len fp =
      some (if line = [] then none else some (line ++ [0]), { fp with pos := fp.pos + line.length }) := by
  intro line
  have looped := @getsLoop_eq vol fp abstract cells (len - 1).toNat len.toNat [] represents (by omega)
    (by simp only [List.length_nil]; omega)
  dsimp only at looped
  rw [List.length_nil, Nat.sub_zero, List.nil_append] at looped
  rw [fGets, if_neg (by omega), looped, Option.map_some]
  congr 2
  by_cases empty : line = []
  · rw [if_pos empty, if_pos empty]
    rfl
  · rw [if_neg empty, if_neg empty]
    rfl

/-- What the strings of a run of `f_gets` are: they make up the rest of the file, each is as
long as its length allows, has a newline only at its end, and is shorter without one only when
it ends the file. -/
structure ReadsLines (lens : Nat → Int) (stream : List UInt8) (lines : List (List UInt8)) : Prop where
  flatten : lines.flatten = stream
  fits : ∀ i line, lines[i]? = some line → (line.length : Int) ≤ lens i - 1
  single : ∀ line ∈ lines, newline ∉ line.dropLast
  last : ∀ i line, lines[i]? = some line → (line.length : Int) < lens i - 1 → line.getLast? ≠ some newline →
    (lines.take (i + 1)).flatten = stream

/-- One line and the lines of the rest. -/
theorem ReadsLines.cons {lens : Nat → Int} {stream : List UInt8} {lines : List (List UInt8)} (roomy : 2 ≤ lens 0)
    (later : ReadsLines (fun i => lens (i + 1))
      (stream.drop (lineOf newline (lens 0 - 1).toNat stream).length) lines) :
    ReadsLines lens stream (lineOf newline (lens 0 - 1).toNat stream :: lines) := by
  have fits := length_lineOf_le newline (lens 0 - 1).toNat stream
  have front := List.prefix_iff_eq_append.mp (lineOf_isPrefix newline (lens 0 - 1).toNat stream)
  generalize whole : lineOf newline (lens 0 - 1).toNat stream = line at later fits front ⊢
  constructor
  · rw [List.flatten_cons, later.flatten, front]
  · intro i other there
    cases i with
    | zero =>
        obtain rfl : line = other := by simpa using there
        omega
    | succ i => exact later.fits i other there
  · intro other member
    rcases List.mem_cons.mp member with rfl | member
    · rw [← whole]
      exact stop_notMem_dropLast_lineOf newline _ stream
    · exact later.single other member
  · intro i other there short unended
    cases i with
    | zero =>
        obtain rfl : line = other := by simpa using there
        rw [← whole] at short unended ⊢
        simpa using lineOf_eq_self (by omega) unended
    | succ i =>
        rw [List.take_succ_cons, List.flatten_cons, later.last i other there short unended, front]

/-- A call of `f_gets` either returns `NULL` at the end of the file, or the next line. -/
theorem fGets_cases {len : Int} (represents : OpenFile.Represents ⟨vol, fp⟩ abstract cells) (roomy : 2 ≤ len)
    (text : 0 ∉ abstract.content.drop abstract.pos) :
    (abstract.content.drop abstract.pos = [] ∧ ∃ after, fGets vol len fp = some (none, after)) ∨
      ∃ buffer after abstract', fGets vol len fp = some (some buffer, after) ∧
        cString buffer = lineOf newline (len - 1).toNat (abstract.content.drop abstract.pos) ∧ cString buffer ≠ [] ∧
        OpenFile.Represents ⟨vol, after⟩ abstract' cells ∧ abstract'.content = abstract.content ∧
        abstract'.pos = abstract.pos + (cString buffer).length := by
  have returned := fGets_eq represents roomy
  dsimp only at returned
  generalize whole : lineOf newline (len - 1).toNat (abstract.content.drop abstract.pos) = line at returned
  by_cases empty : line = []
  · left
    rw [if_pos empty] at returned
    refine ⟨?_, _, returned⟩
    by_contra more
    obtain ⟨room, positive⟩ : ∃ room, (len - 1).toNat = room + 1 := ⟨(len - 1).toNat - 1, by omega⟩
    rw [positive] at whole
    exact lineOf_ne_nil more (whole.trans empty)
  · right
    rw [if_neg empty] at returned
    have front := lineOf_isPrefix newline (len - 1).toNat (abstract.content.drop abstract.pos)
    rw [whole] at front
    have string : cString (line ++ [0]) = line := cString_append_zero fun member => text (front.subset member)
    have inside : abstract.pos + line.length ≤ abstract.content.length := by
      have length := front.length_le
      have nonempty := List.length_pos_iff.mpr empty
      rw [List.length_drop] at length
      omega
    exact ⟨_, _, _, returned, string, by rwa [string], represents.advance inside, rfl, by rw [string]⟩

/-- Every run of `f_gets` reads the rest of the file in lines. -/
theorem GetsRun.readsLines {lens : Nat → Int} {lines : List (List UInt8)} {after : Fat32File}
    (run : GetsRun vol lens fp lines after) (represents : OpenFile.Represents ⟨vol, fp⟩ abstract cells)
    (roomy : ∀ i, 2 ≤ lens i) (text : 0 ∉ abstract.content.drop abstract.pos) :
    ReadsLines lens (abstract.content.drop abstract.pos) lines := by
  induction run generalizing abstract with
  | eof returned =>
      rcases fGets_cases represents (roomy 0) text with ⟨atEnd, _⟩ | ⟨_, _, _, returned', _⟩
      · rw [atEnd]
        exact ⟨rfl, by simp, by simp, by simp⟩
      · rw [returned] at returned'
        simp at returned'
  | @line lens fp middle after buffer lines returned _ ih =>
      rcases fGets_cases represents (roomy 0) text with ⟨_, _, returned'⟩ | ⟨buffer', middle', abstract', returned',
        whole, _, represents', content, pos⟩
      · rw [returned] at returned'
        simp at returned'
      · rw [returned] at returned'
        obtain ⟨rfl, rfl⟩ : buffer = buffer' ∧ middle = middle' := by simpa using returned'
        have rest : abstract'.content.drop abstract'.pos = (abstract.content.drop abstract.pos).drop
            (lineOf newline (lens 0 - 1).toNat (abstract.content.drop abstract.pos)).length := by
          rw [content, pos, List.drop_drop, whole]
        have later := ih represents' (fun i => roomy (i + 1)) (by
          rw [rest]
          exact fun member => text (List.mem_of_mem_drop member))
        rw [rest] at later
        rw [whole]
        exact .cons (roomy 0) later

/-- Every sequence of calls comes to the end of the file. -/
theorem exists_getsRun {lens : Nat → Int} (represents : OpenFile.Represents ⟨vol, fp⟩ abstract cells)
    (roomy : ∀ i, 2 ≤ lens i) (text : 0 ∉ abstract.content.drop abstract.pos) :
    ∃ lines after, GetsRun vol lens fp lines after := by
  induction left : (abstract.content.drop abstract.pos).length using Nat.strong_induction_on generalizing lens fp
    abstract with
  | _ left' ih =>
      rcases fGets_cases represents (roomy 0) text with ⟨_, after, returned⟩ | ⟨buffer, middle, abstract', returned,
        whole, nonempty, represents', content, pos⟩
      · exact ⟨[], after, .eof returned⟩
      · have rest : abstract'.content.drop abstract'.pos =
            (abstract.content.drop abstract.pos).drop (cString buffer).length := by
          rw [content, pos, List.drop_drop]
        have some := List.length_pos_iff.mpr nonempty
        have front := (lineOf_isPrefix newline (lens 0 - 1).toNat (abstract.content.drop abstract.pos)).length_le
        rw [← whole] at front
        obtain ⟨lines, after, run⟩ := ih _ (by rw [rest, List.length_drop]; omega) represents'
          (fun i => roomy (i + 1)) (by
            rw [rest]
            exact fun member => text (List.mem_of_mem_drop member)) rfl
        exact ⟨_, after, .line returned run⟩

/-- For every handle that represents a file without a zero byte ahead and every sequence of
lengths with room for a character, calling `f_gets` comes to `NULL`, and the strings returned
before that are the lines of the rest of the file. -/
theorem fGets_reads_lines {file : OpenFile} {lens : Nat → Int} (represents : file.Represents abstract cells)
    (roomy : ∀ i, 2 ≤ lens i) (text : 0 ∉ abstract.content.drop file.fp.pos) :
    (∃ lines after, GetsRun file.vol lens file.fp lines after) ∧
      ∀ lines after, GetsRun file.vol lens file.fp lines after →
        ReadsLines lens (abstract.content.drop file.fp.pos) lines := by
  rw [← represents.pos] at text ⊢
  exact ⟨exists_getsRun represents roomy text, fun lines after run => run.readsLines represents roomy text⟩


end Gets

/-- The file of two clusters with the text `AB`, newline, `C` at its start. -/
def linesVolume : Volume :=
  fat32WriteCluster twoClusterVolume 3 ([0x41, 0x42, newline, 0x43] ++ List.replicate 508 0)

/-- A handle on that text. -/
def linesFile : Fat32File := { twoClusterFile 0 with size := 4 }

theorem linesFile_represents :
    (⟨linesVolume, linesFile⟩ : OpenFile).Represents ⟨[0x41, 0x42, newline, 0x43], 0, Nat.zero_le _⟩ [3, 4] := by
  have chain : ClusterChain linesVolume 3 [3, 4] := by
    have next : fat32GetNextCluster linesVolume 3 = 4 := by decide +kernel
    have last : isEndOfClusterChain (fat32GetNextCluster linesVolume 4) = true := by decide +kernel
    have inRange : IsCluster linesVolume.bpb 3 ∧ IsCluster linesVolume.bpb 4 := by decide +kernel
    refine ⟨.cons (by rw [next]; decide) ?_, by simpa using inRange⟩
    rw [next]
    exact .last last
  refine ⟨?_, ?_, ?_, .inr chain, ?_, ?_, ?_, rfl⟩
  · show Geometry linesVolume.bpb
    rw [linesVolume, fat32WriteCluster_bpb]
    exact twoClusterVolume_geometry
  · show FatCopiesEqual linesVolume
    exact fatCopiesEqual_of_single (by decide +kernel)
  all_goals decide +kernel

/-- The text in lines of at most nine characters. -/
theorem fGets_reads_lines_two :
    ∃ lines after, GetsRun linesVolume (fun _ => 10) linesFile lines after ∧
      ReadsLines (fun _ => 10) [0x41, 0x42, newline, 0x43] lines := by
  obtain ⟨⟨lines, after, run⟩, reads⟩ := @fGets_reads_lines _ _ _ (fun _ => 10) linesFile_represents
    (fun _ => by decide) (by decide)
  exact ⟨lines, after, run, reads lines after run⟩

end KeblaOS.Fat32
