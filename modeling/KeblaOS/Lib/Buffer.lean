import Mathlib.Data.List.Basic
import Mathlib.Data.Nat.Digits.Lemmas

/-!
# Byte buffers

Copies into and out of fixed buffers, and little-endian integers stored in them.
A buffer is a list; `overwrite` is the effect of a `memcpy` into its middle and
`slice` the bytes a later `memcpy` out of it would see. The `slice_overwrite`
lemmas say which reads notice which writes.
-/

namespace KeblaOS.Buffer

variable {α : Type*}

/-- The `len` elements of `buffer` from `pos` on. -/
def slice (buffer : List α) (pos len : Nat) : List α := (buffer.drop pos).take len

/-- `buffer` with the elements from `pos` on replaced by `data`. -/
def overwrite (buffer : List α) (pos : Nat) (data : List α) : List α :=
  buffer.take pos ++ data ++ buffer.drop (pos + data.length)

@[simp] theorem overwrite_nil (buffer : List α) (pos : Nat) : overwrite buffer pos [] = buffer := by
  simp [overwrite]

@[simp] theorem slice_zero_length (buffer : List α) : slice buffer 0 buffer.length = buffer := by
  simp [slice]

theorem length_slice (buffer : List α) (pos len : Nat) :
    (slice buffer pos len).length = min len (buffer.length - pos) := by
  simp [slice]

theorem length_slice_of_le {buffer : List α} {pos len : Nat} (fits : pos + len ≤ buffer.length) :
    (slice buffer pos len).length = len := by
  rw [length_slice]
  omega

/-- A slice ends where the buffer ends. -/
theorem slice_min (buffer : List α) (pos len : Nat) :
    slice buffer pos (min len (buffer.length - pos)) = slice buffer pos len := by
  rw [slice, slice, List.take_eq_take_iff, List.length_drop]
  omega

/-- A copy that stays inside the buffer keeps its length. -/
theorem length_overwrite {buffer data : List α} {pos : Nat}
    (fits : pos + data.length ≤ buffer.length) :
    (overwrite buffer pos data).length = buffer.length := by
  simp only [overwrite, List.length_append, List.length_take, List.length_drop]
  omega

/-- Reading back the range just written. -/
theorem slice_overwrite_self {buffer : List α} {pos : Nat} (data : List α)
    (inside : pos ≤ buffer.length) :
    slice (overwrite buffer pos data) pos data.length = data := by
  have front : (buffer.take pos).length = pos := by simp [inside]
  unfold slice overwrite
  rw [List.append_assoc, List.drop_append_of_le_length (by omega),
    List.drop_of_length_le (by omega), List.nil_append, List.take_left']
  rfl

/-- A read that ends before the written range does not notice the write. -/
theorem slice_overwrite_before {buffer data : List α} {pos start len : Nat}
    (inside : pos ≤ buffer.length) (before : start + len ≤ pos) :
    slice (overwrite buffer pos data) start len = slice buffer start len := by
  have front : (buffer.take pos).length = pos := by simp [inside]
  unfold slice overwrite
  rw [List.append_assoc, List.drop_append_of_le_length (by omega),
    List.take_append_of_le_length (by simp only [List.length_drop]; omega), List.drop_take,
    List.take_take]
  congr 1
  omega

/-- A read that starts behind the written range does not notice the write. -/
theorem slice_overwrite_after {buffer data : List α} {pos start len : Nat}
    (inside : pos ≤ buffer.length) (after : pos + data.length ≤ start) :
    slice (overwrite buffer pos data) start len = slice buffer start len := by
  have front : (buffer.take pos ++ data).length = pos + data.length := by simp [inside]
  unfold slice overwrite
  rw [List.drop_append, List.drop_of_length_le (by omega), List.nil_append, List.drop_drop, front]
  congr 2
  omega

/-- The elements of an overwritten buffer. -/
theorem getElem?_overwrite {buffer data : List α} {pos : Nat} (fits : pos + data.length ≤ buffer.length)
    (i : Nat) :
    (overwrite buffer pos data)[i]? =
      if pos ≤ i ∧ i < pos + data.length then data[i - pos]? else buffer[i]? := by
  have front : (buffer.take pos).length = pos := by
    rw [List.length_take]
    omega
  unfold overwrite
  by_cases before : i < pos
  · rw [if_neg (by omega), List.append_assoc, List.getElem?_append_left (by omega),
      List.getElem?_take_of_lt before]
  · by_cases inside : i < pos + data.length
    · rw [if_pos (by omega), List.append_assoc, List.getElem?_append_right (by omega), front,
        List.getElem?_append_left (by omega)]
    · rw [if_neg (by omega), List.getElem?_append_right (by rw [List.length_append]; omega),
        List.getElem?_drop, List.length_append, front]
      congr 1
      omega

/-- Elements of which each is related to what is written over it. -/
theorem forall₂_overwrite {R : α → α → Prop} {old new : List α} {index : Nat} (refl : ∀ a, R a a)
    (fits : index + new.length ≤ old.length)
    (related : ∀ i a b, index ≤ i → old[i]? = some a → new[i - index]? = some b → R a b) :
    List.Forall₂ R old (overwrite old index new) := by
  rw [List.forall₂_iff_get]
  refine ⟨(length_overwrite fits).symm, fun i there there' => ?_⟩
  have written := @getElem?_overwrite _ old new index fits i
  rw [List.getElem?_eq_getElem there'] at written
  simp only [List.get_eq_getElem]
  split_ifs at written with replaced
  · exact related i _ _ replaced.1 (List.getElem?_eq_getElem there) written.symm
  · rw [List.getElem?_eq_getElem there] at written
    rw [Option.some.inj written]
    exact refl _

theorem overwrite_overwrite_self {buffer data data' : List α} {pos : Nat} (fits : pos + data.length ≤ buffer.length)
    (same : data'.length = data.length) : overwrite (overwrite buffer pos data) pos data' = overwrite buffer pos data' := by
  refine List.ext_getElem? fun i => ?_
  rw [getElem?_overwrite (by rw [length_overwrite fits]; omega), getElem?_overwrite fits,
    getElem?_overwrite (by omega), same]
  split_ifs <;> rfl

/-- A part of a buffer written over. -/
theorem overwrite_middle {front old data rest : List α} (same : old.length = data.length) :
    overwrite (front ++ (old ++ rest)) front.length data = front ++ (data ++ rest) := by
  rw [overwrite, List.take_left, List.drop_length_add_append, ← same, List.drop_left, List.append_assoc]

/-- A copy to the beginning. -/
theorem overwrite_zero (buffer data : List α) : overwrite buffer 0 data = data ++ buffer.drop data.length := by
  rw [overwrite, List.take_zero, List.nil_append, Nat.zero_add]

/-- A copy behind the first of two pieces. -/
theorem overwrite_append_right (front rest data : List α) (pos : Nat) :
    overwrite (front ++ rest) (front.length + pos) data = front ++ overwrite rest pos data := by
  simp only [overwrite, Nat.add_assoc, List.take_length_add_append, List.drop_length_add_append, List.append_assoc]

/-- A copy inside the first of two pieces. -/
theorem overwrite_append_left {front data : List α} {pos : Nat} (rest : List α) (fits : pos + data.length ≤ front.length) :
    overwrite (front ++ rest) pos data = overwrite front pos data ++ rest := by
  rw [overwrite, overwrite, List.take_append_of_le_length (by omega), List.drop_append_of_le_length fits,
    List.append_assoc, List.append_assoc, List.append_assoc]

/-- What is in front of a copy stays. -/
theorem take_overwrite {buffer data : List α} {pos : Nat} (inside : pos ≤ buffer.length) :
    (overwrite buffer pos data).take pos = buffer.take pos := by
  have front : (buffer.take pos).length = pos := by
    rw [List.length_take]
    omega
  rw [overwrite, List.append_assoc, List.take_left' front]

/-- Two copies, the second right behind the first. -/
theorem overwrite_overwrite_append {buffer data data' : List α} {pos : Nat} (inside : pos ≤ buffer.length) :
    overwrite (overwrite buffer pos data) (pos + data.length) data' = overwrite buffer pos (data ++ data') := by
  have front : (buffer.take pos ++ data).length = pos + data.length := by
    rw [List.length_append, List.length_take, Nat.min_eq_left inside]
  rw [overwrite, overwrite, List.take_left' front, ← List.drop_drop, List.drop_left' front, List.drop_drop,
    overwrite, List.length_append, ← List.append_assoc, Nat.add_assoc]

/-- The last of the elements just written, written again. -/
theorem overwrite_overwrite_last {buffer front : List α} {pos : Nat} (value value' : α)
    (inside : pos ≤ buffer.length) :
    overwrite (overwrite buffer pos (front ++ [value])) (pos + front.length) [value'] =
      overwrite buffer pos (front ++ [value']) := by
  have before : (buffer.take pos ++ front).length = pos + front.length := by
    rw [List.length_append, List.length_take, Nat.min_eq_left inside]
  have split : ∀ value : α, overwrite buffer pos (front ++ [value]) =
      buffer.take pos ++ front ++ value :: buffer.drop (pos + front.length + 1) := by
    intro value
    simp [overwrite, Nat.add_assoc]
  rw [split, split, overwrite, ← before, List.take_left, List.length_singleton, List.drop_length_add_append]
  simp

theorem slice_append_left {front rest : List α} {pos len : Nat} (inside : pos + len ≤ front.length) :
    slice (front ++ rest) pos len = slice front pos len := by
  unfold slice
  rw [List.drop_append_of_le_length (by omega), List.take_append_of_le_length (by simp; omega)]

theorem slice_append_right {front rest : List α} {pos len : Nat} (behind : front.length ≤ pos) :
    slice (front ++ rest) pos len = slice rest (pos - front.length) len := by
  unfold slice
  rw [List.drop_append, List.drop_of_length_le behind, List.nil_append]

/-- A slice across the end of the first of two pieces. -/
theorem slice_append_split {front back : List α} {pos len : Nat} (inside : pos ≤ front.length) :
    slice (front ++ back) pos len = slice front pos (min (front.length - pos) len) ++
      slice back 0 (len - min (front.length - pos) len) := by
  rw [slice, slice, slice, List.drop_append_of_le_length inside, List.take_append, List.drop_zero, List.length_drop]
  rcases Nat.le_total len (front.length - pos) with within | across
  · rw [Nat.min_eq_right within, Nat.sub_self, Nat.sub_eq_zero_of_le within]
  · have whole : (front.drop pos).length = front.length - pos := List.length_drop
    rw [Nat.min_eq_left across, List.take_of_length_le (whole.trans_le across), List.take_of_length_le whole.le]

/-- A part of a part. -/
theorem slice_slice {buffer : List α} {pos len start inner : Nat} (inside : start + inner ≤ len) :
    slice (slice buffer pos len) start inner = slice buffer (pos + start) inner := by
  rw [slice, slice, slice, List.drop_take, List.drop_drop, List.take_take, Nat.min_eq_left (by omega)]

theorem slice_whole {buffer : List α} {len : Nat} (whole : buffer.length = len) :
    slice buffer 0 len = buffer := by
  rw [← whole, slice_zero_length]

/-- Little-endian value of a byte string. -/
def leNat : List UInt8 → Nat
  | [] => 0
  | byte :: rest => byte.toNat + 256 * leNat rest

/-- The low `width` little-endian bytes of a number. -/
def leBytes : Nat → Nat → List UInt8
  | 0, _ => []
  | width + 1, value => UInt8.ofNat value :: leBytes width (value / 256)

@[simp] theorem length_leBytes (width value : Nat) : (leBytes width value).length = width := by
  induction width generalizing value with
  | zero => rfl
  | succ width ih => simp [leBytes, ih]

theorem leNat_lt (bytes : List UInt8) : leNat bytes < 256 ^ bytes.length := by
  induction bytes with
  | nil => simp [leNat]
  | cons byte rest ih =>
      have small := byte.toNat_lt
      simp only [leNat, List.length_cons, pow_succ]
      omega

/-- Storing a number in `width` bytes and loading it keeps it modulo `256 ^ width`. -/
theorem leNat_leBytes (width value : Nat) : leNat (leBytes width value) = value % 256 ^ width := by
  induction width generalizing value with
  | zero => simp [leBytes, leNat, Nat.mod_one]
  | succ width ih =>
      have split : value % 256 ^ (width + 1) = value % 256 + 256 * (value / 256 % 256 ^ width) := by
        rw [pow_succ', Nat.mod_mul]
      simp only [leBytes, leNat, ih, UInt8.toNat_ofNat', split]

theorem leNat_leBytes_of_lt {width value : Nat} (bounded : value < 256 ^ width) :
    leNat (leBytes width value) = value := by
  rw [leNat_leBytes, Nat.mod_eq_of_lt bounded]

/-! ## Buffers of fixed-size records -/

/-- The records of `size` elements a buffer consists of. -/
def chunks (size : Nat) (buffer : List α) : List (List α) :=
  (List.range (buffer.length / size)).map fun i => slice buffer (size * i) size

section Chunks

variable {size : Nat}

@[simp] theorem length_chunks (buffer : List α) : (chunks size buffer).length = buffer.length / size := by
  simp [chunks]

theorem length_flatten_of_forall {records : List (List α)} (sized : ∀ record ∈ records, record.length = size) :
    records.flatten.length = size * records.length := by
  induction records with
  | nil => simp
  | cons record rest ih =>
      rw [List.flatten_cons, List.length_append, sized record List.mem_cons_self,
        ih fun other member => sized other (List.mem_cons_of_mem _ member), List.length_cons, Nat.mul_succ,
        Nat.add_comm]

theorem length_of_mem_chunks {buffer record : List α} (member : record ∈ chunks size buffer) :
    record.length = size := by
  obtain ⟨i, inside, rfl⟩ := List.mem_map.mp member
  rw [List.mem_range] at inside
  refine length_slice_of_le ?_
  have room := Nat.mul_le_mul_left size (Nat.succ_le_of_lt inside)
  have whole := Nat.mul_div_le buffer.length size
  rw [Nat.mul_succ] at room
  omega

/-- A record in front of a buffer. -/
theorem chunks_cons {record : List α} (buffer : List α) (positive : 0 < size) (sized : record.length = size) :
    chunks size (record ++ buffer) = record :: chunks size buffer := by
  have count : (record ++ buffer).length / size = buffer.length / size + 1 := by
    rw [List.length_append, sized, Nat.add_div_left _ positive]
  unfold chunks
  rw [count, List.range_succ_eq_map, List.map_cons, List.map_map]
  congr 1
  · rw [Nat.mul_zero, slice_append_left (by omega), slice_whole sized]
  · refine List.map_congr_left fun i _ => ?_
    show slice (record ++ buffer) (size * (i + 1)) size = slice buffer (size * i) size
    rw [Nat.mul_succ, slice_append_right (by omega), sized, Nat.add_sub_cancel]

/-- Records laid end to end are read back. -/
theorem chunks_flatten {records : List (List α)} (positive : 0 < size)
    (sized : ∀ record ∈ records, record.length = size) : chunks size records.flatten = records := by
  induction records with
  | nil => simp [chunks]
  | cons record rest ih =>
      rw [List.flatten_cons, chunks_cons _ positive (sized record List.mem_cons_self),
        ih fun other member => sized other (List.mem_cons_of_mem _ member)]

/-- A buffer of whole records is the sequence of its records. -/
theorem flatten_chunks {buffer : List α} (positive : 0 < size) (whole : size ∣ buffer.length) :
    (chunks size buffer).flatten = buffer := by
  obtain ⟨count, length⟩ := whole
  induction count generalizing buffer with
  | zero =>
      obtain rfl := List.length_eq_zero_iff.mp (by simpa using length)
      simp [chunks]
  | succ count ih =>
      rw [Nat.mul_succ] at length
      have front : (buffer.take size).length = size := by
        rw [List.length_take]
        omega
      have rest : (buffer.drop size).length = size * count := by
        rw [List.length_drop]
        omega
      have shape := chunks_cons (buffer.drop size) positive front
      rw [List.take_append_drop] at shape
      rw [shape, List.flatten_cons, ih rest, List.take_append_drop]

theorem take_flatten {records : List (List α)} (sized : ∀ record ∈ records, record.length = size) (count : Nat) :
    records.flatten.take (size * count) = (records.take count).flatten := by
  induction records generalizing count with
  | nil => simp
  | cons record rest ih =>
      have first := sized record List.mem_cons_self
      cases count with
      | zero => simp
      | succ count =>
          rw [List.flatten_cons, List.take_succ_cons, List.flatten_cons, Nat.mul_succ, Nat.add_comm, ← first,
            List.take_length_add_append, first, ih fun other member => sized other (List.mem_cons_of_mem _ member)]

theorem drop_flatten {records : List (List α)} (sized : ∀ record ∈ records, record.length = size) (count : Nat) :
    records.flatten.drop (size * count) = (records.drop count).flatten := by
  induction records generalizing count with
  | nil => simp
  | cons record rest ih =>
      have first := sized record List.mem_cons_self
      cases count with
      | zero => simp
      | succ count =>
          rw [List.flatten_cons, List.drop_succ_cons, Nat.mul_succ, Nat.add_comm, ← first,
            List.drop_length_add_append, first, ih fun other member => sized other (List.mem_cons_of_mem _ member)]

/-- Overwriting whole records, seen on the bytes and seen on the records. -/
theorem chunks_overwrite {buffer : List α} {records : List (List α)} (index : Nat) (positive : 0 < size)
    (whole : size ∣ buffer.length) (sized : ∀ record ∈ records, record.length = size) :
    chunks size (overwrite buffer (size * index) records.flatten) =
      overwrite (chunks size buffer) index records := by
  have old : ∀ record ∈ chunks size buffer, record.length = size := fun _ => length_of_mem_chunks
  have bytes : overwrite buffer (size * index) records.flatten =
      (overwrite (chunks size buffer) index records).flatten := by
    have split := flatten_chunks positive whole
    generalize chunks size buffer = parts at old split ⊢
    subst split
    unfold overwrite
    rw [length_flatten_of_forall sized, ← Nat.mul_add, take_flatten old, drop_flatten old, List.flatten_append,
      List.flatten_append]
  rw [bytes]
  refine chunks_flatten positive fun record member => ?_
  rw [overwrite, List.mem_append, List.mem_append] at member
  rcases member with (front | new) | back
  · exact old record (List.mem_of_mem_take front)
  · exact sized record new
  · exact old record (List.mem_of_mem_drop back)

theorem chunks_getElem? {buffer record : List α} {index : Nat} (there : (chunks size buffer)[index]? = some record) :
    index < buffer.length / size ∧ record = slice buffer (size * index) size := by
  rw [chunks, List.getElem?_map, Option.map_eq_some_iff] at there
  obtain ⟨i, inRange, rfl⟩ := there
  obtain ⟨inside, rfl⟩ := List.getElem?_eq_some_iff.mp inRange
  rw [List.length_range] at inside
  rw [List.getElem_range]
  exact ⟨inside, rfl⟩

/-- Overwriting a part of one record. -/
theorem chunks_overwrite_within {buffer record data : List α} {index offset : Nat} (positive : 0 < size)
    (whole : size ∣ buffer.length) (there : (chunks size buffer)[index]? = some record)
    (fits : offset + data.length ≤ size) :
    chunks size (overwrite buffer (size * index + offset) data) =
      overwrite (chunks size buffer) index [overwrite record offset data] := by
  obtain ⟨inside, rfl⟩ := chunks_getElem? there
  have room : size * index + size ≤ buffer.length := by
    have rows := Nat.mul_le_mul_left size (Nat.succ_le_of_lt inside)
    have all := Nat.mul_div_le buffer.length size
    rw [Nat.mul_succ] at rows
    omega
  have old : (slice buffer (size * index) size).length = size := length_slice_of_le room
  have new : (overwrite (slice buffer (size * index) size) offset data).length = size := by
    rw [length_overwrite (by omega), old]
  have bytes : overwrite buffer (size * index + offset) data =
      overwrite buffer (size * index) [overwrite (slice buffer (size * index) size) offset data].flatten := by
    rw [List.flatten_singleton]
    refine List.ext_getElem? fun i => ?_
    rw [getElem?_overwrite (by omega), getElem?_overwrite (by omega), getElem?_overwrite (by omega), new, slice,
      List.getElem?_take, List.getElem?_drop]
    split_ifs with written record written' written' row
    · congr 1
      omega
    all_goals first
      | omega
      | congr 1
        omega
      | rfl
  rw [bytes, chunks_overwrite index positive whole fun other member => by rw [List.mem_singleton.mp member, new]]

/-- Overwriting several parts of one record, one after the other. -/
theorem chunks_edits {buffer record : List α} {index : Nat} (edits : List (Nat × List α)) (positive : 0 < size)
    (whole : size ∣ buffer.length) (there : (chunks size buffer)[index]? = some record)
    (fits : ∀ edit ∈ edits, edit.1 + edit.2.length ≤ size) :
    chunks size (edits.foldl (fun bytes edit => overwrite bytes (size * index + edit.1) edit.2) buffer) =
      overwrite (chunks size buffer) index [edits.foldl (fun bytes edit => overwrite bytes edit.1 edit.2) record] := by
  induction edits generalizing buffer record with
  | nil =>
      have room : index + [record].length ≤ (chunks size buffer).length := (List.getElem?_eq_some_iff.mp there).1
      refine List.ext_getElem? fun i => ?_
      rw [List.foldl_nil, List.foldl_nil, getElem?_overwrite room]
      split_ifs with here
      · obtain rfl : i = index := by simpa using Nat.le_antisymm (Nat.le_of_lt_succ here.2) here.1
        simpa using there
      · rfl
  | cons edit rest ih =>
      have inside := (List.getElem?_eq_some_iff.mp there).1
      have room : index + [overwrite record edit.1 edit.2].length ≤ (chunks size buffer).length := inside
      have first := fits edit List.mem_cons_self
      have step := chunks_overwrite_within positive whole there first
      have later : (chunks size (overwrite buffer (size * index + edit.1) edit.2))[index]? =
          some (overwrite record edit.1 edit.2) := by
        rw [step, getElem?_overwrite room, if_pos (by simp)]
        simp
      have bytes : size * index + edit.1 + edit.2.length ≤ buffer.length := by
        rw [length_chunks] at inside
        have rows := Nat.mul_le_mul_left size (Nat.succ_le_of_lt inside)
        have all := Nat.mul_div_le buffer.length size
        rw [Nat.mul_succ] at rows
        omega
      rw [List.foldl_cons, List.foldl_cons, ih (by rwa [length_overwrite bytes]) later
        (fun other member => fits other (List.mem_cons_of_mem _ member)), step]
      exact overwrite_overwrite_self room rfl

theorem chunks_replicate (positive : 0 < size) (count : Nat) (value : α) :
    chunks size (List.replicate (size * count) value) = List.replicate count (List.replicate size value) := by
  have bytes : List.replicate (size * count) value =
      (List.replicate count (List.replicate size value)).flatten := by
    rw [List.flatten_replicate_replicate, Nat.mul_comm]
  rw [bytes]
  refine chunks_flatten positive fun record member => ?_
  rw [List.eq_of_mem_replicate member, List.length_replicate]

end Chunks

/-! ## Overwriting that may extend the buffer -/

/-- `new` is `old` with `data` written at `pos`; behind the written range it keeps the
elements of `old` and may have more. -/
def Spliced (old : List α) (pos : Nat) (data new : List α) : Prop :=
  ∃ tail, new = old.take pos ++ data ++ tail ∧ old.drop (pos + data.length) <+: tail

namespace Spliced

variable {old data new : List α} {pos : Nat}

theorem nil (old : List α) (pos : Nat) : Spliced old pos [] old :=
  ⟨old.drop pos, by simp, by simp⟩

/-- Writing inside the first of two buffers. -/
theorem overwrite_append (old : List α) (pos : Nat) (data rest : List α)
    (fits : pos + data.length ≤ old.length) :
    Spliced (old ++ rest) pos data (overwrite old pos data ++ rest) := by
  refine ⟨old.drop (pos + data.length) ++ rest, ?_, ?_⟩
  · rw [overwrite, List.take_append_of_le_length (by omega), List.append_assoc]
  · rw [List.drop_append_of_le_length fits]

/-- A write that runs to the end of the first buffer and goes on in the second. -/
theorem overwrite_continue {rest rest' next more : List α} (fits : pos + data.length = old.length)
    (keeps : rest <+: rest') (continues : Spliced rest' 0 more next) :
    Spliced (old ++ rest) pos (data ++ more) (overwrite old pos data ++ next) := by
  obtain ⟨tail, rfl, behind⟩ := continues
  refine ⟨tail, ?_, ?_⟩
  · rw [overwrite, List.take_append_of_le_length (by omega), List.drop_of_length_le (by omega)]
    simp
  · rw [List.length_append, ← Nat.add_assoc, fits, List.drop_append, List.drop_of_length_le (by omega),
      List.nil_append, Nat.add_sub_cancel_left]
    rw [Nat.zero_add] at behind
    exact (keeps.drop more.length).trans behind

/-- Writing behind an untouched front part. -/
theorem append_left (front : List α) (spliced : Spliced old pos data new) :
    Spliced (front ++ old) (front.length + pos) data (front ++ new) := by
  obtain ⟨tail, rfl, behind⟩ := spliced
  refine ⟨tail, ?_, ?_⟩
  · rw [List.take_length_add_append]
    simp only [List.append_assoc]
  · rwa [Nat.add_assoc, List.drop_length_add_append]

/-- What follows the old contents may be left out of them. -/
theorem of_append {extra : List α} (spliced : Spliced (old ++ extra) pos data new)
    (inside : pos ≤ old.length) : Spliced old pos data new := by
  obtain ⟨tail, rfl, behind⟩ := spliced
  refine ⟨tail, by rw [List.take_append_of_le_length inside], ?_⟩
  exact ((List.prefix_append old extra).drop (pos + data.length)).trans behind

theorem length_le (spliced : Spliced old pos data new) (inside : pos ≤ old.length) :
    pos + data.length ≤ new.length := by
  obtain ⟨tail, rfl, -⟩ := spliced
  simp only [List.length_append, List.length_take]
  omega

/-- The first elements of both buffers, when the old one counts `size` of them: the
written range is replaced and the contents are extended at their end only. -/
theorem take_eq {size : Nat} (spliced : Spliced old pos data new) (inside : pos ≤ size)
    (filled : size ≤ old.length) :
    new.take (max size (pos + data.length)) =
      (old.take size).take pos ++ data ++ (old.take size).drop (pos + data.length) := by
  obtain ⟨tail, rfl, more, rfl⟩ := spliced
  have front : (old.take pos).length = pos := by rw [List.length_take]; omega
  have written : (old.take pos ++ data).length = pos + data.length := by
    rw [List.length_append, front]
  obtain ⟨more', past⟩ : ∃ more', max size (pos + data.length) = (old.take pos ++ data).length + more' :=
    ⟨size - (pos + data.length), by omega⟩
  rw [past, List.take_length_add_append, List.take_take, Nat.min_eq_left inside, List.drop_take]
  congr 1
  rw [List.take_append_of_le_length (by rw [List.length_drop]; omega)]
  congr 1
  omega

/-- The written range of the new contents. -/
theorem slice_eq (spliced : Spliced old pos data new) (inside : pos ≤ old.length) :
    slice new pos data.length = data := by
  obtain ⟨tail, rfl, -⟩ := spliced
  have front : (old.take pos).length = pos := by rw [List.length_take]; omega
  rw [slice, List.append_assoc, List.drop_append_of_le_length (by omega),
    List.drop_of_length_le (by omega), List.nil_append, List.take_left']
  rfl

end Spliced

end KeblaOS.Buffer
