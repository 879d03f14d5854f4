import KeblaOS.Lib.Run
import KeblaOS.Memory.FrameSearch
import KeblaOS.Memory.TableLevels

/-!
# Frames and the pages that refer to them

The bitmap says which frames are taken, the page entries say which frames are in use.
`Accounted` is the agreement of the two: a frame is marked exactly when one present page
refers to it, and no two pages do. The run theorem at the end covers the calls that keep
it; `vm_alloc` does not, since `get_page` has already given the page a frame when
`vm_alloc` takes another one.
-/

namespace KeblaOS.Memory

/-! ## Bits of the bitmap -/

/-- What the memory map promises: whole frames from a page boundary above address zero,
within the 52 bits of a physical address. -/
structure Managed (pmm : Pmm) : Prop where
  aligned : pmm.usableStart.toNat % 4096 = 0
  positive : 0 < pmm.usableStart.toNat
  inside : pmm.usableStart.toNat + 4096 * pmm.nframes.toNat ≤ pmm.usableEnd.toNat
  physical : pmm.usableEnd.toNat ≤ 4503599627370496

/-- The parameters of the memory manager that no call changes. -/
structure SameLayout (before after : Pmm) : Prop where
  start : after.usableStart = before.usableStart
  stop : after.usableEnd = before.usableEnd
  nframes : after.nframes = before.nframes

/-- The memory has less than `2 ^ 52` frames. -/
theorem Managed.few {pmm : Pmm} (managed : Managed pmm) : pmm.nframes.toNat < 2 ^ 52 := by
  have inside := managed.inside
  have physical := managed.physical
  omega

theorem Managed.congr {before after : Pmm} (managed : Managed before) (same : SameLayout before after) :
    Managed after := by
  refine ⟨?_, ?_, ?_, ?_⟩
  · rw [same.start]
    exact managed.aligned
  · rw [same.start]
    exact managed.positive
  · rw [same.start, same.stop, same.nframes]
    exact managed.inside
  · rw [same.stop]
    exact managed.physical

section Bits

variable {pmm after : Pmm} {bitNo : UInt64}

/-- The words of the bitmap that hold a given bit and another one. -/
theorem word_eq_iff (bitNo : UInt64) (other : Nat) :
    other / 64 = (bitNo / bitmapSize).toNat ∧ other % 64 = (bitNo % bitmapSize).toNat ↔
      other = bitNo.toNat := by
  have quotient : (bitNo / bitmapSize).toNat = bitNo.toNat / 64 := UInt64.toNat_div _ _
  have remainder : (bitNo % bitmapSize).toNat = bitNo.toNat % 64 := UInt64.toNat_mod _ _
  rw [quotient, remainder]
  omega

/-- Below position 31 the shifted `int` is the word with that bit. -/
theorem intOneShifted_eq {off : UInt64} (low : off.toNat < 31) :
    intOneShifted off = (1 : UInt64) <<< off := by
  have reduced : off % 32 = off := by
    apply UInt64.toNat_inj.mp
    rw [UInt64.toNat_mod]
    exact Nat.mod_eq_of_lt (by show off.toNat < 32; omega)
  have notLast : off ≠ 31 := by
    rintro rfl
    exact absurd low (by decide)
  rw [intOneShifted, reduced, if_neg notLast]

/-- The bits of a bitmap with one word exchanged. -/
theorem frameBit_update {word : UInt64} (idx : Nat) (other : Nat)
    (bitmap : after.bitmap = Function.update pmm.bitmap idx word) :
    frameBit after other =
      if other / 64 = idx then word.toNat.testBit (other % 64) else frameBit pmm other := by
  rw [frameBit, bitmap, Function.update_apply]
  split_ifs with same
  · rfl
  · rfl

/-- The shifted `int` at positions up to 31: at position 31 the sign fills the word above. -/
theorem testBit_intOneShifted {off : UInt64} {i : Nat}
    (low : off.toNat < 31 ∨ off.toNat = 31 ∧ i < 32) :
    (intOneShifted off).toNat.testBit i = decide (i = off.toNat) := by
  rcases low with low | ⟨last, small⟩
  · rw [intOneShifted_eq low, testBit_one_shiftLeft (by omega)]
  · obtain rfl : off = 31 := UInt64.toNat_inj.mp last
    exact (by decide : ∀ i < 32, (intOneShifted 31).toNat.testBit i = decide (i = 31)) i small

/-- When `set_frame` marks no other frame than the one asked for: below position 31 of a
word, or at position 31 if this is the last frame. -/
def SetsOneFrame (pmm : Pmm) (bitNo : UInt64) : Prop :=
  bitNo.toNat % 64 < 31 ∨ bitNo.toNat % 64 = 31 ∧ pmm.nframes.toNat ≤ bitNo.toNat + 1

theorem frameBit_setFrame (one : SetsOneFrame pmm bitNo) (set : setFrame pmm bitNo = some after)
    {other : Nat} (below : other < pmm.nframes.toNat) :
    frameBit after other = (frameBit pmm other || decide (other = bitNo.toNat)) := by
  have position : (bitNo % bitmapSize).toNat = bitNo.toNat % 64 := UInt64.toNat_mod _ _
  have quotient : (bitNo / bitmapSize).toNat = bitNo.toNat / 64 := UInt64.toNat_div _ _
  have same := word_eq_iff bitNo other
  unfold setFrame at set
  split_ifs at set
  obtain rfl := Option.some.inj set
  rw [frameBit_update _ other rfl]
  split_ifs with word
  · have low : (bitNo % bitmapSize).toNat < 31 ∨ (bitNo % bitmapSize).toNat = 31 ∧ other % 64 < 32 := by
      rcases one with low | ⟨last, final⟩
      · omega
      · exact .inr (by omega)
    rw [UInt64.toNat_or, Nat.testBit_or, testBit_intOneShifted low, ← word, frameBit]
    congr 1
    exact decide_eq_decide.mpr (by rw [← same]; simp [word])
  · have different : other ≠ bitNo.toNat := fun equal => word (same.mpr equal).1
    simp [different]

theorem frameBit_clearFrame (clear : clearFrame pmm bitNo = some after) (other : Nat) :
    frameBit after other = (frameBit pmm other && decide (other ≠ bitNo.toNat)) := by
  have position : (bitNo % bitmapSize).toNat = bitNo.toNat % 64 := UInt64.toNat_mod _ _
  have complement : ∀ (word : UInt64) (i : Nat), i < 64 →
      (~~~word).toNat.testBit i = !word.toNat.testBit i := by
    intro word i below
    have size : UInt64.size - 1 - word.toNat = 2 ^ 64 - (word.toNat + 1) := by
      show 18446744073709551616 - 1 - word.toNat = 18446744073709551616 - (word.toNat + 1)
      omega
    rw [UInt64.toNat_not, size, Nat.testBit_two_pow_sub_succ word.toNat_lt]
    simp [below]
  unfold clearFrame at clear
  split_ifs at clear
  obtain rfl := Option.some.inj clear
  rw [frameBit_update _ other rfl, UInt64.toNat_and, Nat.testBit_and, complement _ _ (Nat.mod_lt _ (by decide)),
    testBit_one_shiftLeft (by omega)]
  have same := word_eq_iff bitNo other
  split_ifs with word
  · rw [← word, frameBit, ← decide_not]
    congr 1
    exact decide_eq_decide.mpr (by rw [Ne, ← same]; simp [word])
  · have different : other ≠ bitNo.toNat := fun equal => word (same.mpr equal).1
    simp [different]

theorem setFrame_sameLayout (set : setFrame pmm bitNo = some after) : SameLayout pmm after := by
  unfold setFrame at set
  split_ifs at set
  obtain rfl := Option.some.inj set
  exact ⟨rfl, rfl, rfl⟩

theorem clearFrame_sameLayout (clear : clearFrame pmm bitNo = some after) : SameLayout pmm after := by
  unfold clearFrame at clear
  split_ifs at clear
  obtain rfl := Option.some.inj clear
  exact ⟨rfl, rfl, rfl⟩

end Bits

/-! ## Pages and frames -/

/-- A present page refers to frame number `frame` of the managed memory. -/
def Entry.Refers (pmm : Pmm) (entry : Entry) (frame : Nat) : Prop :=
  entry.present = true ∧ (entry.frame <<< 12).toNat = pmm.usableStart.toNat + 4096 * frame

/-- Bitmap and pages agree, and no frame has two pages. -/
structure Accounted (machine : Machine) (pages : Set UInt64) : Prop where
  marked : ∀ frame < machine.pmm.nframes.toNat, frameBit machine.pmm frame = true ↔
    ∃ slot ∈ pages, (machine.slots slot).Refers machine.pmm frame
  unshared : ∀ frame < machine.pmm.nframes.toNat, ∀ slot ∈ pages, ∀ other ∈ pages,
    (machine.slots slot).Refers machine.pmm frame →
      (machine.slots other).Refers machine.pmm frame → slot = other

section Entries

variable {pmm after : Pmm} {page page' : Entry}

theorem Entry.Refers.unique {frame frame' : Nat} (refers : page.Refers pmm frame)
    (refers' : page.Refers pmm frame') : frame = frame' := by
  have first := refers.2
  have second := refers'.2
  omega

theorem Entry.Refers.congr (same : SameLayout pmm after) {frame : Nat} :
    page.Refers after frame ↔ page.Refers pmm frame := by
  rw [Entry.Refers, Entry.Refers, same.start]

/-- `alloc_frame` marks a frame that was not taken and lets the page refer to it. -/
theorem allocFrame_cases {user isWriteable : Bool} (managed : Managed pmm)
    (returned : allocFrame pmm page user isWriteable = some (page', after)) :
    ∃ bitNo, freeFrameBitNo pmm = some bitNo ∧ setFrame pmm bitNo = some after ∧
      page'.Refers pmm bitNo.toNat ∧ page'.frame ≠ 0 := by
  rw [allocFrame_eq] at returned
  generalize search : freeFrameBitNo pmm = found at returned
  cases found with
  | none => simp at returned
  | some bitNo =>
      obtain ⟨marked, set, pair⟩ := Option.map_eq_some_iff.mp returned
      obtain ⟨rfl, rfl⟩ := Prod.mk.inj pair
      obtain ⟨below, _⟩ := freeFrameBitNo_cases managed.few search
      have same := setFrame_sameLayout set
      have aligned := managed.aligned
      have positive := managed.positive
      have inside := managed.inside
      have physical := managed.physical
      have product : (bitNo * frameSize).toNat = bitNo.toNat * 4096 := by
        rw [UInt64.toNat_mul]
        exact Nat.mod_eq_of_lt (by show bitNo.toNat * 4096 < 18446744073709551616; omega)
      have address : (pmm.usableStart + bitNo * frameSize).toNat =
          pmm.usableStart.toNat + bitNo.toNat * 4096 := by
        rw [UInt64.toNat_add, product]
        exact Nat.mod_eq_of_lt (by omega)
      have number : (field40 ((pmm.usableStart + bitNo * frameSize) >>> 12)).toNat =
          pmm.usableStart.toNat / 4096 + bitNo.toNat := by
        have shifted : (pmm.usableStart.toNat + bitNo.toNat * 4096) >>> 12 =
            (pmm.usableStart.toNat + bitNo.toNat * 4096) / 4096 := Nat.shiftRight_eq_div_pow _ _
        rw [field40, UInt64.toNat_and, UInt64.toNat_shiftRight, address]
        show (pmm.usableStart.toNat + bitNo.toNat * 4096) >>> 12 &&& (2 ^ 40 - 1) = _
        rw [Nat.and_two_pow_sub_one_eq_mod, shifted]
        omega
      refine ⟨bitNo, rfl, set, ⟨rfl, ?_⟩, fun zero => ?_⟩
      · dsimp only
        rw [same.start, toNat_frame_shiftLeft (by omega), number]
        omega
      · have value := congrArg UInt64.toNat zero
        dsimp only at value
        rw [same.start, number, UInt64.toNat_zero] at value
        omega

/-- What `free_frame` needs to leave other pages' frames alone: the page has no frame, or
one the manager ignores, or its bit is clear anyway, or the page is present and its frame
is a managed one. -/
def Freeable (pmm : Pmm) (page : Entry) : Prop :=
  page.frame = 0 ∨ pmm.usableEnd ≤ page.frame <<< 12 ∨
    frameBit pmm (physAddrToBitNo pmm (page.frame <<< 12)).toNat = false ∨
      page.present = true ∧ pmm.usableStart ≤ page.frame <<< 12

/-- The bit of a frame address from the start of the managed memory on. -/
theorem physAddrToBitNo_toNat {address : UInt64}
    (above : pmm.usableStart ≤ address) :
    (physAddrToBitNo pmm address).toNat = (address.toNat - pmm.usableStart.toNat) / 4096 := by
  rw [UInt64.le_iff_toNat_le] at above
  unfold physAddrToBitNo
  split_ifs with least
  · rw [UInt64.le_iff_toNat_le] at least
    rw [UInt64.toNat_zero]
    omega
  · rw [UInt64.toNat_div, UInt64.toNat_sub_of_le _ _ (UInt64.le_iff_toNat_le.mpr above)]
    rfl

theorem frame_shiftLeft_aligned (frame : UInt64) : (frame <<< 12).toNat % 4096 = 0 := by
  have shifted : frame.toNat <<< 12 = frame.toNat * 4096 := Nat.shiftLeft_eq _ _
  rw [UInt64.toNat_shiftLeft]
  show frame.toNat <<< 12 % 18446744073709551616 % 4096 = 0
  rw [shifted]
  omega

/-- `free_frame` takes away the mark of the frame the page refers to and of no other one,
and leaves the page without a frame. -/
theorem freeFrame_cases (managed : Managed pmm) (freeable : Freeable pmm page)
    (returned : freeFrame pmm page = some (page', after)) :
    SameLayout pmm after ∧ page'.frame = 0 ∧
      ∀ frame < pmm.nframes.toNat, frameBit after frame = true ↔
        frameBit pmm frame = true ∧ ¬ page.Refers pmm frame := by
  have aligned := managed.aligned
  have positive := managed.positive
  have inside := managed.inside
  have whole := frame_shiftLeft_aligned page.frame
  unfold freeFrame at returned
  dsimp only at returned
  split_ifs at returned with noFrame ignored
  · -- not managed: the bitmap stays and no managed frame was referred to
    obtain ⟨rfl, rfl⟩ := Prod.mk.inj (Option.some.inj returned)
    refine ⟨⟨rfl, rfl, rfl⟩, rfl, fun frame below => (and_iff_left ?_).symm⟩
    rintro ⟨_, address⟩
    rw [UInt64.le_iff_toNat_le] at ignored
    omega
  · obtain ⟨cleared, clear, pair⟩ := Option.map_eq_some_iff.mp returned
    obtain ⟨rfl, rfl⟩ := Prod.mk.inj pair
    refine ⟨clearFrame_sameLayout clear, rfl, fun frame below => ?_⟩
    rw [frameBit_clearFrame clear, Bool.and_eq_true, decide_eq_true_iff]
    refine and_congr_right fun set => not_congr ⟨?_, ?_⟩
    · rintro rfl
      rcases freeable with zero | outside | unset | ⟨present, above⟩
      · exact absurd zero noFrame
      · exact absurd outside ignored
      · rw [unset] at set
        exact absurd set (by decide)
      · refine ⟨present, ?_⟩
        rw [physAddrToBitNo_toNat above]
        rw [UInt64.le_iff_toNat_le] at above
        omega
    · rintro ⟨_, address⟩
      have above : pmm.usableStart ≤ page.frame <<< 12 := UInt64.le_iff_toNat_le.mpr (by omega)
      rw [physAddrToBitNo_toNat above]
      omega
  · -- no frame at all; address zero lies below the managed memory
    obtain ⟨rfl, rfl⟩ := Prod.mk.inj (Option.some.inj returned)
    have zero : page.frame = 0 := not_not.mp noFrame
    refine ⟨⟨rfl, rfl, rfl⟩, zero, fun frame below => (and_iff_left ?_).symm⟩
    rintro ⟨_, address⟩
    rw [zero] at address
    have none : ((0 : UInt64) <<< 12).toNat = 0 := rfl
    omega

end Entries

/-! ## Attaching and detaching frames -/

section Accounting

variable {machine after : Machine} {pages : Set UInt64} {slot : UInt64}

/-- The pages other than `slot` are the same in two machines. -/
def SamePagesExcept (machine after : Machine) (pages : Set UInt64) (slot : UInt64) : Prop :=
  ∀ other ∈ pages, other ≠ slot → ∀ frame,
    (after.slots other).Refers machine.pmm frame ↔ (machine.slots other).Refers machine.pmm frame

/-- A page without a managed frame gets one that was not taken. -/
theorem Accounted.attach {frame : Nat} (accounted : Accounted machine pages) (page : slot ∈ pages)
    (layout : SameLayout machine.pmm after.pmm)
    (others : SamePagesExcept machine after pages slot)
    (unattached : ∀ other < machine.pmm.nframes.toNat, ¬ (machine.slots slot).Refers machine.pmm other)
    (free : frameBit machine.pmm frame = false)
    (marked : ∀ other < machine.pmm.nframes.toNat,
      frameBit after.pmm other = (frameBit machine.pmm other || decide (other = frame)))
    (attached : (after.slots slot).Refers machine.pmm frame) : Accounted after pages := by
  -- a page that refers to an old frame is another page
  have elsewhere : ∀ number < machine.pmm.nframes.toNat, ∀ other ∈ pages, other ≠ slot →
      (after.slots other).Refers machine.pmm number → number ≠ frame := by
    rintro number below other member different refers rfl
    have set := (accounted.marked number below).mpr ⟨other, member, (others other member different number).mp refers⟩
    rw [free] at set
    exact absurd set (by decide)
  constructor
  · intro number below
    rw [layout.nframes] at below
    simp only [Entry.Refers.congr layout]
    rw [marked number below, Bool.or_eq_true, decide_eq_true_iff, accounted.marked number below]
    constructor
    · rintro (⟨other, member, refers⟩ | rfl)
      · have different : other ≠ slot := by
          rintro rfl
          exact unattached number below refers
        exact ⟨other, member, (others other member different number).mpr refers⟩
      · exact ⟨slot, page, attached⟩
    · rintro ⟨other, member, refers⟩
      by_cases same : other = slot
      · subst same
        exact .inr (refers.unique attached)
      · exact .inl ⟨other, member, (others other member same number).mp refers⟩
  · intro number below first firstPage second secondPage refers refers'
    rw [layout.nframes] at below
    rw [Entry.Refers.congr layout] at refers refers'
    by_cases same : first = slot
    · by_cases same' : second = slot
      · rw [same, same']
      · subst same
        exact absurd (refers.unique attached) (elsewhere number below second secondPage same' refers')
    · by_cases same' : second = slot
      · subst same'
        exact absurd (refers'.unique attached) (elsewhere number below first firstPage same refers)
      · exact accounted.unshared number below first firstPage second secondPage
          ((others first firstPage same number).mp refers) ((others second secondPage same' number).mp refers')

/-- A page gives up its frame, if it had one. -/
theorem Accounted.detach (accounted : Accounted machine pages) (page : slot ∈ pages)
    (layout : SameLayout machine.pmm after.pmm)
    (others : SamePagesExcept machine after pages slot)
    (marked : ∀ frame < machine.pmm.nframes.toNat, frameBit after.pmm frame = true ↔
      frameBit machine.pmm frame = true ∧ ¬ (machine.slots slot).Refers machine.pmm frame)
    (detached : ∀ frame, ¬ (after.slots slot).Refers machine.pmm frame) : Accounted after pages := by
  have differs : ∀ {frame other}, (after.slots other).Refers machine.pmm frame → other ≠ slot := by
    rintro frame other refers rfl
    exact detached frame refers
  constructor
  · intro number below
    rw [layout.nframes] at below
    simp only [Entry.Refers.congr layout]
    rw [marked number below, accounted.marked number below]
    constructor
    · rintro ⟨⟨other, member, refers⟩, unattached⟩
      have different : other ≠ slot := by
        rintro rfl
        exact unattached refers
      exact ⟨other, member, (others other member different number).mpr refers⟩
    · rintro ⟨other, member, refers⟩
      have before := (others other member (differs refers) number).mp refers
      refine ⟨⟨other, member, before⟩, fun refers' => differs refers ?_⟩
      exact accounted.unshared number below other member slot page before refers'
  · intro number below first firstPage second secondPage refers refers'
    rw [layout.nframes] at below
    rw [Entry.Refers.congr layout] at refers refers'
    exact accounted.unshared number below first firstPage second secondPage
      ((others first firstPage (differs refers) number).mp refers)
      ((others second secondPage (differs refers') number).mp refers')

end Accounting

section Kept

variable {before after : Machine} {pages : Set UInt64}

/-- Bitmap and pages that stay the same stay in agreement. -/
theorem Accounted.congr (accounted : Accounted before pages) (layout : SameLayout before.pmm after.pmm)
    (bitmap : after.pmm.bitmap = before.pmm.bitmap)
    (same : ∀ slot ∈ pages, (after.slots slot).present = (before.slots slot).present ∧
      (after.slots slot).frame = (before.slots slot).frame) : Accounted after pages := by
  have refers : ∀ slot ∈ pages, ∀ frame,
      (after.slots slot).Refers after.pmm frame ↔ (before.slots slot).Refers before.pmm frame := by
    intro slot member frame
    obtain ⟨present, number⟩ := same slot member
    rw [Entry.Refers.congr layout, Entry.Refers, Entry.Refers, present, number]
  constructor
  · intro frame below
    rw [layout.nframes] at below
    rw [frameBit, bitmap]
    refine (accounted.marked frame below).trans (exists_congr fun slot => and_congr_right fun member => ?_)
    exact (refers slot member frame).symm
  · intro frame below slot member other member' first second
    rw [layout.nframes] at below
    exact accounted.unshared frame below slot member other member' ((refers slot member frame).mp first)
      ((refers other member' frame).mp second)

theorem SameFrames.accounted (same : SameFrames before after) (accounted : Accounted before pages) :
    Accounted after pages :=
  accounted.congr (by rw [same.pmm]; exact ⟨rfl, rfl, rfl⟩) (by rw [same.pmm]) fun slot _ =>
    ⟨same.present slot, same.frame slot⟩

theorem SameFrames.refers (same : SameFrames before after) {slot : UInt64} {pmm : Pmm} {frame : Nat} :
    (after.slots slot).Refers pmm frame ↔ (before.slots slot).Refers pmm frame := by
  rw [Entry.Refers, Entry.Refers, same.present, same.frame]

end Kept

/-! ## Runs -/

/-- The calls that take and give back frames. -/
inductive FrameCall where
  | allocFrame (slot : UInt64) (user isWriteable : Bool)
  | freeFrame (slot : UInt64)
  | vmAlloc (va : UInt64) (type : AllocationType)
  | vmFree (ptr : UInt64)
deriving DecidableEq

/-- One call; `none` when the kernel halts. -/
def Machine.frameCall (machine : Machine) : FrameCall → Option Machine
  | .allocFrame slot user isWriteable =>
      (allocFrame machine.pmm (machine.slots slot) user isWriteable).map fun (page, pmm) =>
        { machine with pmm := pmm }.setSlot slot page
  | .freeFrame slot =>
      (freeFrame machine.pmm (machine.slots slot)).map fun (page, pmm) =>
        { machine with pmm := pmm }.setSlot slot page
  | .vmAlloc va type => vmAlloc machine va type
  | .vmFree ptr => vmFree machine ptr

/-- The page refers to no managed frame, so that a new one replaces none. -/
def Unattached (machine : Machine) (slot : UInt64) : Prop :=
  ∀ frame < machine.pmm.nframes.toNat, ¬ (machine.slots slot).Refers machine.pmm frame

/-- The frame found next is marked without marking another one. -/
def NextSetsOne (machine : Machine) : Prop :=
  ∀ bitNo, freeFrameBitNo machine.pmm = some bitNo → SetsOneFrame machine.pmm bitNo

/-- The calls that keep bitmap and pages in agreement. `vm_alloc` is among them only if there is no
top table, or the memory for tables runs out, or if the page is present with a frame the manager
does not manage: otherwise the frame it had, or just got from `get_page`, is lost. -/
def FrameCall.Balanced (machine : Machine) (pages : Set UInt64) : FrameCall → Prop
  | .allocFrame slot _ _ => slot ∈ pages ∧ Unattached machine slot ∧ NextSetsOne machine
  | .freeFrame slot => slot ∈ pages ∧ Freeable machine.pmm (machine.slots slot)
  | .vmAlloc va _ =>
      machine.cr3 = 0 ∨ machine.RunsOut pages machine.cr3 va directoryShifts ∨
        ∃ slot, machine.pageSlot va = some slot ∧ (machine.slots slot).present = true ∧
          Unattached machine slot ∧ NextSetsOne machine
  | .vmFree ptr => ∀ slot, machine.pageSlot ptr = some slot →
      if (machine.slots slot).present then Freeable machine.pmm (machine.slots slot)
      else NextSetsOne machine

/-- A call that does what it should. -/
def BalancedStep (pages : Set UInt64) (before : Machine) (call : FrameCall) (after : Machine) : Prop :=
  call.Balanced before pages ∧ before.frameCall call = some after

/-- Any call. -/
def FrameStep (before : Machine) (call : FrameCall) (after : Machine) : Prop :=
  before.frameCall call = some after

/-- What the balanced calls preserve. -/
structure Consistent (machine : Machine) (pages : Set UInt64) : Prop where
  managed : Managed machine.pmm
  tables : Tables machine pages
  accounted : Accounted machine pages

section Steps

variable {machine : Machine} {pages : Set UInt64} {slot : UInt64} {page entry : Entry} {pmm : Pmm}

theorem SameFrames.consistent {walked : Machine} (same : SameFrames machine walked)
    (consistent : Consistent machine pages) : Consistent walked pages := by
  refine ⟨?_, ?_, same.accounted consistent.accounted⟩
  · rw [same.pmm]
    exact consistent.managed
  · exact consistent.tables.congr same.cr3 fun slot _ => same.tableBelow slot

theorem samePagesExcept_setSlot :
    SamePagesExcept machine ({ machine with pmm := pmm }.setSlot slot entry) pages slot := by
  intro other _ different frame
  simp only [Machine.setSlot, Function.update_of_ne different]

theorem Tables.setSlot (tables : Tables machine pages) (member : slot ∈ pages) :
    Tables ({ machine with pmm := pmm }.setSlot slot entry) pages := by
  refine tables.congr rfl fun other outside => ?_
  have different : other ≠ slot := by
    rintro rfl
    exact outside member
  simp only [Machine.tableBelow, Machine.setSlot, Function.update_of_ne different]

/-- A page without a managed frame after `alloc_frame`; the caller may set other bits of the
entry before it is stored. -/
theorem Consistent.attach {user isWriteable : Bool} (consistent : Consistent machine pages)
    (member : slot ∈ pages) (unattached : Unattached machine slot) (one : NextSetsOne machine)
    (returned : allocFrame machine.pmm (machine.slots slot) user isWriteable = some (page, pmm))
    (present : entry.present = page.present) (frame : entry.frame = page.frame) :
    Consistent ({ machine with pmm := pmm }.setSlot slot entry) pages := by
  obtain ⟨bitNo, found, set, refers, _⟩ := allocFrame_cases consistent.managed returned
  have layout := setFrame_sameLayout set
  refine ⟨consistent.managed.congr layout, consistent.tables.setSlot member, ?_⟩
  refine consistent.accounted.attach member layout samePagesExcept_setSlot unattached
    (freeFrameBitNo_cases consistent.managed.few found).2 (fun other below => frameBit_setFrame (one bitNo found) set below) ?_
  simp only [Machine.setSlot, Function.update_self]
  rwa [Entry.Refers, present, frame]

/-- A page after `free_frame`. -/
theorem Consistent.detach (consistent : Consistent machine pages) (member : slot ∈ pages)
    (freeable : Freeable machine.pmm (machine.slots slot))
    (returned : freeFrame machine.pmm (machine.slots slot) = some (page, pmm)) (frame : entry.frame = 0) :
    Consistent ({ machine with pmm := pmm }.setSlot slot entry) pages := by
  obtain ⟨layout, _, bits⟩ := freeFrame_cases consistent.managed freeable returned
  refine ⟨consistent.managed.congr layout, consistent.tables.setSlot member, ?_⟩
  refine consistent.accounted.detach member layout samePagesExcept_setSlot bits fun number refers => ?_
  have address := refers.2
  have positive := consistent.managed.positive
  simp only [Machine.setSlot, Function.update_self, frame] at address
  have none : ((0 : UInt64) <<< 12).toNat = 0 := rfl
  omega

/-- The leaf of a walk: a missing page gets a frame, which it then refers to. -/
theorem Consistent.leafPage {user : Bool} {reached : Option UInt64} {after : Machine}
    (consistent : Consistent machine pages) (member : slot ∈ pages)
    (one : (machine.slots slot).present = false → NextSetsOne machine)
    (returned : KeblaOS.Memory.leafPage machine slot user = some (reached, after)) :
    reached = some slot ∧ Consistent after pages ∧
      (after = machine ∧ (machine.slots slot).present = true ∨
        ∃ frame, (after.slots slot).Refers after.pmm frame) := by
  unfold KeblaOS.Memory.leafPage at returned
  dsimp only at returned
  split_ifs at returned with present
  · obtain ⟨rfl, rfl⟩ := Prod.mk.inj (Option.some.inj returned)
    exact ⟨rfl, consistent, .inl ⟨rfl, present⟩⟩
  · obtain ⟨⟨page, pmm⟩, allocated, pair⟩ := Option.map_eq_some_iff.mp returned
    obtain ⟨bitNo, _, set, refers, frame⟩ := allocFrame_cases consistent.managed allocated
    dsimp only at pair
    rw [if_neg frame] at pair
    obtain ⟨rfl, rfl⟩ := Prod.mk.inj pair
    have absent : (machine.slots slot).present = false := Bool.eq_false_iff.mpr present
    refine ⟨rfl, ?_, .inr ⟨bitNo.toNat, ?_⟩⟩
    · exact consistent.attach member (fun _ _ refers => present refers.1) (one absent) allocated rfl rfl
    · rw [← Entry.Refers.congr (setFrame_sameLayout set)] at refers
      simpa only [Machine.setSlot, Function.update_self] using refers

theorem Consistent.vmFree {ptr : UInt64} {after : Machine} (consistent : Consistent machine pages)
    (balanced : (FrameCall.vmFree ptr).Balanced machine pages)
    (returned : KeblaOS.Memory.vmFree machine ptr = some after) : Consistent after pages := by
  obtain ⟨walked, same, walk⟩ := @getPage_eq machine ptr false (.inl rfl)
  have walkedConsistent := same.consistent consistent
  unfold KeblaOS.Memory.vmFree at returned
  rw [walk] at returned
  split_ifs at returned
  · obtain rfl := Option.some.inj returned
    exact consistent
  cases reach : machine.pageSlot ptr with
  | none =>
      rw [reach] at returned
      obtain rfl := Option.some.inj returned
      exact walkedConsistent
  | some slot =>
      have sound := balanced slot reach
      have member := consistent.tables.pageSlot_mem reach
      rw [reach] at returned
      dsimp only at returned
      cases leaf : KeblaOS.Memory.leafPage walked slot (decide (ptr < higherHalfStart)) with
      | none => simp [leaf] at returned
      | some result =>
          obtain ⟨reached, finish⟩ := result
          rw [leaf] at returned
          obtain ⟨rfl, consistent', taken⟩ := walkedConsistent.leafPage member (fun absent => by
            rw [same.present] at absent
            rw [if_neg (by simp [absent])] at sound
            rwa [NextSetsOne, same.pmm]) leaf
          -- the frame to be freed is the page's own, whether it was there or came from the walk
          have freeable : Freeable finish.pmm (finish.slots slot) := by
            rcases taken with ⟨rfl, present⟩ | ⟨frame, refers⟩
            · rw [same.present] at present
              rw [if_pos present] at sound
              rwa [Freeable, same.pmm, same.frame, same.present]
            · refine .inr (.inr (.inr ⟨refers.1, UInt64.le_iff_toNat_le.mpr ?_⟩))
              rw [refers.2]
              omega
          dsimp only at returned
          split_ifs at returned
          · obtain ⟨⟨page, pmm⟩, freed, rfl⟩ := Option.map_eq_some_iff.mp returned
            exact consistent'.detach member freeable freed rfl
          · obtain rfl := Option.some.inj returned
            exact consistent'

/-- Only the head of the memory manager has moved. -/
theorem Consistent.head (consistent : Consistent machine pages) (head : UInt64) :
    Consistent { machine with pmm := { machine.pmm with physMemHead := head } } pages where
  managed := consistent.managed.congr ⟨rfl, rfl, rfl⟩
  tables := consistent.tables.congr rfl fun _ _ => rfl
  accounted := consistent.accounted.congr ⟨rfl, rfl, rfl⟩ rfl fun _ _ => ⟨rfl, rfl⟩

/-- A directory made on the way. -/
theorem Consistent.hung {after : Machine} {table : UInt64} {level : Nat} (consistent : Consistent machine pages)
    (hung : Hung machine after slot table) (unused : machine.Unused pages table)
    (one : ∀ level' < 3, slot ∈ machine.levelSlots level' → level' = level) (directory : level + 1 < 3)
    (outside : slot ∉ pages) (head : ∃ head, after.pmm = { machine.pmm with physMemHead := head }) :
    Consistent after pages := by
  obtain ⟨head, pmm⟩ := head
  have layout : SameLayout machine.pmm after.pmm := by
    rw [pmm]
    exact ⟨rfl, rfl, rfl⟩
  refine ⟨consistent.managed.congr layout, hung.tables consistent.tables unused one directory,
    consistent.accounted.congr layout (by rw [pmm]) fun other member => ?_⟩
  have different : other ≠ slot := by
    rintro rfl
    exact outside member
  rw [hung.elsewhere other different (unused.pages other member)]
  exact ⟨rfl, rfl⟩

/-- A walk that runs out of memory for tables leaves directories without pages behind. -/
theorem Consistent.runsOut {base va : UInt64} {user : Bool} {shifts : List UInt64} {level : Nat}
    (consistent : Consistent machine pages) (member : base ∈ machine.levelBases level)
    (depth : level + shifts.length = 3) (out : machine.RunsOut pages base va shifts) :
    ∃ after, descendAll (some base, machine) va true user shifts = (none, after) ∧ Consistent after pages := by
  induction shifts generalizing machine base level with
  | nil =>
      obtain ⟨slot, wanted, missing, -⟩ := out
      cases missing
  | cons shift shifts ih =>
      rw [List.length_cons] at depth
      rw [descendAll_cons]
      have inside := tableSlot_mem member va shift
      by_cases present : (machine.slots (tableSlot base va shift)).present = true
      · -- one level further down, with the same entries
        obtain ⟨first, same⟩ := nextTable_eq user (.inl present)
        have below : machine.tableBelow (tableSlot base va shift) = some (tableAddress (machine.slots (tableSlot base va shift)).frame) :=
          if_pos present
        have rest := same.runsOut (out.behind below)
        generalize nextTable machine (tableSlot base va shift) true user = state at first same rest ⊢
        obtain ⟨found, next⟩ := state
        dsimp only at first same rest ⊢
        rw [first, below]
        have deeper : tableAddress (machine.slots (tableSlot base va shift)).frame ∈ next.levelBases (level + 1) := by
          rw [same.levelBases]
          exact tableBelow_mem inside below
        exact ih (same.consistent consistent) deeper (by omega) rest
      · have absent : machine.tableBelow (tableSlot base va shift) = none := if_neg present
        obtain ⟨head, moved⟩ := kmallocA_head machine.pmm 4096 1
        by_cases null : (kmallocA machine.pmm 4096 1).1 = 0
        · refine ⟨{ machine with pmm := (kmallocA machine.pmm 4096 1).2 }, ?_, ?_⟩
          · rw [nextTable]
            dsimp only
            rw [if_neg present, if_pos rfl, null, if_pos rfl, descendAll_none]
          · rw [moved]
            exact consistent.head head
        · obtain ⟨unused, single, more⟩ := out.first absent null
          have outside := consistent.tables.directory level (by omega) _ inside
          have one : ∀ level' < 3, tableSlot base va shift ∈ machine.levelSlots level' → level' = level :=
            fun level' shallow there => single level' shallow level (by omega) there inside
          obtain ⟨after, taken, pmm, hung⟩ := nextTable_hung user (Bool.eq_false_iff.mpr present) null unused.physical
            (unused.directories level (by omega) _ inside)
          have next := consistent.hung hung unused one (by omega) outside ⟨head, pmm.trans moved⟩
          have deeper := tableBelow_mem (tableSlot_mem (hung.levelBases_mono unused absent (by omega) member) va shift)
            hung.named
          rw [taken]
          exact ih next deeper (by omega) (hung.runsOut pmm null one absent out)

theorem Consistent.vmAlloc {va : UInt64} {type : AllocationType} {after : Machine}
    (consistent : Consistent machine pages) (balanced : (FrameCall.vmAlloc va type).Balanced machine pages)
    (returned : KeblaOS.Memory.vmAlloc machine va type = some after) : Consistent after pages := by
  unfold KeblaOS.Memory.vmAlloc at returned
  by_cases null : machine.cr3 = 0
  · rw [getPage, if_pos null] at returned
    obtain rfl := Option.some.inj returned
    exact consistent
  rcases balanced with none | out | ⟨slot, reach, present, unattached, one⟩
  · exact absurd none null
  · obtain ⟨walked, walk, kept⟩ := @Consistent.runsOut machine pages machine.cr3 va (decide (va < higherHalfStart)) _ 0
      consistent ⟨rfl, null⟩ rfl out
    rw [getPage_eq_directories, if_neg null, directories, walk] at returned
    obtain rfl := Option.some.inj returned
    exact kept
  · obtain ⟨walked, same, walk⟩ := @getPage_eq machine va true (.inr (by rw [reach]; rfl))
    have member := consistent.tables.pageSlot_mem reach
    have present' : (walked.slots slot).present = true := (same.present slot).trans present
    rw [walk, reach] at returned
    simp only [KeblaOS.Memory.leafPage, present', if_true] at returned
    obtain ⟨⟨page, pmm⟩, allocated, stored⟩ := Option.map_eq_some_iff.mp returned
    have unattached' : Unattached walked slot := by
      intro frame below
      rw [same.pmm] at below ⊢
      rw [same.refers]
      exact unattached frame below
    have one' : NextSetsOne walked := by rwa [NextSetsOne, same.pmm]
    cases type <;> obtain rfl := stored <;>
      exact (same.consistent consistent).attach member unattached' one' allocated rfl rfl

/-- One call that does what it should keeps everything in agreement. -/
theorem Consistent.step {call : FrameCall} {after : Machine} (consistent : Consistent machine pages)
    (taken : BalancedStep pages machine call after) : Consistent after pages := by
  obtain ⟨balanced, returned⟩ := taken
  cases call with
  | allocFrame slot user isWriteable =>
      obtain ⟨member, unattached, one⟩ := balanced
      obtain ⟨⟨page, pmm⟩, allocated, rfl⟩ := Option.map_eq_some_iff.mp returned
      exact consistent.attach member unattached one allocated rfl rfl
  | freeFrame slot =>
      obtain ⟨member, freeable⟩ := balanced
      obtain ⟨⟨page, pmm⟩, freed, rfl⟩ := Option.map_eq_some_iff.mp returned
      exact consistent.detach member freeable freed
        (freeFrame_cases consistent.managed freeable freed).2.1
  | vmAlloc va type => exact consistent.vmAlloc balanced returned
  | vmFree ptr => exact consistent.vmFree balanced returned

end Steps

/-- From a bitmap without a mark and tables without a managed page, every run of balanced
calls keeps a frame marked exactly as long as one page refers to it, and never lets two
pages share a frame. -/
theorem balanced_run_accounted {start finish : Machine} {pages : Set UInt64} {calls : List FrameCall}
    (managed : Managed start.pmm) (tables : Tables start pages)
    (unmarked : ∀ frame < start.pmm.nframes.toNat, frameBit start.pmm frame = false)
    (unmapped : ∀ slot ∈ pages, Unattached start slot)
    (run : Run (BalancedStep pages) start calls finish) : Accounted finish pages := by
  have initial : Accounted start pages := by
    refine ⟨fun frame below => ?_, fun frame below slot member _ _ refers => ?_⟩
    · rw [unmarked frame below]
      refine ⟨fun marked => absurd marked (by decide), ?_⟩
      rintro ⟨slot, member, refers⟩
      exact absurd refers (unmapped slot member frame below)
    · exact absurd refers (unmapped slot member frame below)
  have invariant := run.invariant (Consistent · pages) ⟨managed, tables, initial⟩
    fun consistent taken => consistent.step taken
  exact invariant.accounted

/-- Sixteen managed frames, and a page table without pages at `0x4000` under the address
range that starts at zero. -/
def pagedMachine : Machine where
  pmm := { bootPmm with nframes := 16, physMemHead := 0x108000 }
  slots slot :=
    if slot = 0x1000 then ⟨true, true, true, 2, false⟩
    else if slot = 0x2000 then ⟨true, true, true, 3, false⟩
    else if slot = 0x3000 then ⟨true, true, true, 4, false⟩
    else zeroEntry
  cr3 := 0x1000

/-- The entries of the page table. -/
def pagedSlots : Set UInt64 := { slot | ∃ i < 512, slot = 0x4000 + 8 * UInt64.ofNat i }

instance (pmm : Pmm) (entry : Entry) (frame : Nat) : Decidable (entry.Refers pmm frame) :=
  inferInstanceAs (Decidable (_ ∧ _))

theorem pagedMachine_managed : Managed pagedMachine.pmm := ⟨by decide, by decide, by decide, by decide⟩

/-- The three directories have one present entry each. -/
theorem pagedMachine_present {slot : UInt64} (present : (pagedMachine.slots slot).present = true) :
    slot = 0x1000 ∨ slot = 0x2000 ∨ slot = 0x3000 := by
  by_contra other
  obtain ⟨first, second, third⟩ : slot ≠ 0x1000 ∧ slot ≠ 0x2000 ∧ slot ≠ 0x3000 := by simpa [not_or] using other
  have zero : pagedMachine.slots slot = zeroEntry := by
    simp only [pagedMachine, if_neg first, if_neg second, if_neg third]
  rw [zero] at present
  cases present

/-- An entry at the start of a page is the first one of the table there. -/
theorem base_of_entry {base page : UInt64} {i : Nat} (aligned : base.toNat % 4096 = 0)
    (small : i < 512) (entry : base + 8 * UInt64.ofNat i = page) (start : page.toNat % 4096 = 0) : base = page := by
  have place := toNat_tableEntry aligned small
  rw [entry] at place
  exact UInt64.toNat_inj.mp (by omega)

section Paged

variable {machine : Machine} {level : Nat}

/-- The tables lie one behind the other, one on each level. -/
theorem paged_levelBases (slots : machine.slots = pagedMachine.slots) (cr3 : machine.cr3 = pagedMachine.cr3)
    (shallow : level ≤ 3) {base : UInt64} (member : base ∈ machine.levelBases level) :
    base = UInt64.ofNat (4096 * (level + 1)) := by
  induction level generalizing base with
  | zero => exact member.1.trans cr3
  | succ level ih =>
      obtain ⟨above, reached, i, small, below⟩ := member
      have place := ih (by omega) reached
      have present : (pagedMachine.slots (above + 8 * UInt64.ofNat i)).present = true := by
        by_contra absent
        rw [Machine.tableBelow, slots, if_neg absent] at below
        cases below
      rw [Machine.tableBelow, slots, if_pos present] at below
      have aligned : above.toNat % 4096 = 0 := by
        rw [place, UInt64.toNat_ofNat']
        omega
      have next : ∀ level < 3, ∀ entry : UInt64, entry = UInt64.ofNat (4096 * (level + 1)) →
          tableAddress (pagedMachine.slots entry).frame = UInt64.ofNat (4096 * (level + 1 + 1)) := by
        rintro level three entry rfl
        exact (by decide : ∀ level < 3, tableAddress (pagedMachine.slots (UInt64.ofNat (4096 * (level + 1)))).frame =
          UInt64.ofNat (4096 * (level + 1 + 1))) level three
      have first : above + 8 * UInt64.ofNat i = above := by
        rcases pagedMachine_present present with entry | entry | entry
        all_goals exact entry.trans (base_of_entry aligned small entry (by decide)).symm
      rw [first] at below
      exact (Option.some.inj below).symm.trans (next level (by omega) above place)

theorem paged_levelSlots (slots : machine.slots = pagedMachine.slots) (cr3 : machine.cr3 = pagedMachine.cr3)
    (shallow : level ≤ 3) {slot : UInt64} (member : slot ∈ machine.levelSlots level) :
    ∃ i < 512, slot = UInt64.ofNat (4096 * (level + 1)) + 8 * UInt64.ofNat i := by
  obtain ⟨base, reached, i, small, rfl⟩ := member
  exact ⟨i, small, by rw [paged_levelBases slots cr3 shallow reached]⟩

theorem paged_page (slots : machine.slots = pagedMachine.slots) (cr3 : machine.cr3 = pagedMachine.cr3)
    (shallow : level ≤ 3) {slot : UInt64} (member : slot ∈ machine.levelSlots level) :
    slot.toNat / 4096 = level + 1 := by
  obtain ⟨i, small, rfl⟩ := paged_levelSlots slots cr3 shallow member
  have base : (UInt64.ofNat (4096 * (level + 1))).toNat = 4096 * (level + 1) := by
    rw [UInt64.toNat_ofNat']
    omega
  rw [toNat_tableEntry (by omega) small, base]
  omega

theorem pagedSlots_page {slot : UInt64} (member : slot ∈ pagedSlots) : slot.toNat / 4096 = 4 := by
  obtain ⟨i, small, rfl⟩ := member
  rw [toNat_tableEntry (by decide) small]
  simp only [UInt64.reduceToNat]
  omega

theorem paged_tables (slots : machine.slots = pagedMachine.slots) (cr3 : machine.cr3 = pagedMachine.cr3) :
    Tables machine pagedSlots := by
  constructor
  · intro level shallow slot member page
    have directory := paged_page slots cr3 (Nat.le_of_lt shallow) member
    have leaf := pagedSlots_page page
    omega
  · intro slot member
    exact paged_levelSlots slots cr3 (Nat.le_refl 3) member

theorem paged_unattached (slots : machine.slots = pagedMachine.slots) : ∀ slot ∈ pagedSlots, Unattached machine slot := by
  rintro slot ⟨i, small, rfl⟩ frame _ refers
  have present := refers.1
  rw [slots] at present
  rcases pagedMachine_present present with entry | entry | entry
  all_goals exact absurd (base_of_entry (by decide) small entry (by decide)) (by decide)

end Paged

/-- Memory for one more table only. -/
def scarceMachine : Machine := { pagedMachine with pmm := { pagedMachine.pmm with physMemHead := 0x10F000 } }

/-- The table that `kmalloc_a` has left, above all others. -/
theorem scarceMachine_unused : scarceMachine.Unused pagedSlots 0x10F000 := by
  refine ⟨by decide, fun slot member inside => ?_, fun level shallow slot member inside => ?_⟩
  · have page := pagedSlots_page member
    rw [sub_table_lt_iff (by decide), page] at inside
    exact absurd inside (by decide)
  · have page := @paged_page scarceMachine level rfl rfl (Nat.le_of_lt shallow) slot member
    rw [sub_table_lt_iff (by decide), page] at inside
    simp only [UInt64.reduceToNat] at inside
    omega

theorem pagedMachine_unmarked : ∀ frame < pagedMachine.pmm.nframes.toNat, frameBit pagedMachine.pmm frame = false := by
  decide +kernel

/-- A page directory pointer table takes the last memory; then a page gets a frame and loses it again
through `vm_free`. -/
theorem balanced_run_accounted_paged :
    ∃ finish, Run (BalancedStep pagedSlots) scarceMachine
        [.vmAlloc 0x8000000000 .data, .allocFrame 0x4008 true true, .vmFree 0x1000] finish ∧
      finish.tableBelow 0x1008 = some 0x10F000 ∧ Accounted finish pagedSlots := by
  let first := (scarceMachine.frameCall (.vmAlloc 0x8000000000 .data)).getD scarceMachine
  let second := (first.frameCall (.allocFrame 0x4008 true true)).getD first
  let third := (second.frameCall (.vmFree 0x1000)).getD second
  have firstStep : BalancedStep pagedSlots scarceMachine (.vmAlloc 0x8000000000 .data) first := by
    refine ⟨.inr (.inl ⟨0x1008, 3, by decide +kernel, 1, by decide, by decide +kernel, fun i below => ?_⟩),
      eq_some_getD_of_isSome _ (by decide +kernel)⟩
    obtain rfl : i = 0 := by omega
    have table : nthTable scarceMachine.pmm 0 = 0x10F000 := by decide +kernel
    rw [table]
    refine ⟨by decide, scarceMachine_unused, fun level shallow level' shallow' member member' => ?_⟩
    have page := @paged_page scarceMachine level rfl rfl (Nat.le_of_lt shallow) 0x1008 member
    have page' := @paged_page scarceMachine level' rfl rfl (Nat.le_of_lt shallow') 0x1008 member'
    omega
  have secondStep : BalancedStep pagedSlots first (.allocFrame 0x4008 true true) second := by
    refine ⟨⟨⟨1, by decide, by decide⟩, fun frame _ refers => ?_, ?_⟩, eq_some_getD_of_isSome _ (by decide +kernel)⟩
    · exact absurd refers.1 (by decide +kernel)
    · intro bitNo found
      have zero : freeFrameBitNo first.pmm = some 0 := by decide +kernel
      obtain rfl := Option.some.inj (zero.symm.trans found)
      exact .inl (by decide)
  have thirdStep : BalancedStep pagedSlots second (.vmFree 0x1000) third := by
    refine ⟨fun slot found => ?_, eq_some_getD_of_isSome _ (by decide +kernel)⟩
    have leaf : second.pageSlot 0x1000 = some 0x4008 := by decide +kernel
    obtain rfl := Option.some.inj (leaf.symm.trans found)
    rw [if_pos (by decide +kernel)]
    exact .inr (.inr (.inr (by decide +kernel)))
  have run : Run (BalancedStep pagedSlots) scarceMachine
      [.vmAlloc 0x8000000000 .data, .allocFrame 0x4008 true true, .vmFree 0x1000] third :=
    Run.snoc (Run.snoc (Run.snoc .nil firstStep) secondStep) thirdStep
  have tables : Tables scarceMachine pagedSlots := paged_tables rfl rfl
  have unmarked : ∀ frame < scarceMachine.pmm.nframes.toNat, frameBit scarceMachine.pmm frame = false :=
    pagedMachine_unmarked
  exact ⟨third, run, by decide +kernel, balanced_run_accounted ⟨by decide, by decide, by decide, by decide⟩
    tables unmarked (paged_unattached rfl) run⟩

/-- `vm_alloc` of an unmapped page marks two frames and lets the page refer to the second. -/
theorem vmAlloc_leaks_frame :
    Managed pagedMachine.pmm ∧ Tables pagedMachine pagedSlots ∧
      (∀ frame < pagedMachine.pmm.nframes.toNat, frameBit pagedMachine.pmm frame = false) ∧
      (∀ slot ∈ pagedSlots, Unattached pagedMachine slot) ∧
      ∃ finish, Run FrameStep pagedMachine [.vmAlloc 0x1000 .data] finish ∧ ¬ Accounted finish pagedSlots := by
  let finish := (pagedMachine.frameCall (.vmAlloc 0x1000 .data)).getD pagedMachine
  have run : Run FrameStep pagedMachine [.vmAlloc 0x1000 .data] finish :=
    Run.snoc .nil (eq_some_getD_of_isSome _ (by decide +kernel))
  refine ⟨pagedMachine_managed, paged_tables rfl rfl, pagedMachine_unmarked, paged_unattached rfl,
    finish, run, fun accounted => ?_⟩
  obtain ⟨slot, ⟨i, small, rfl⟩, refers⟩ := (accounted.marked 0 (by decide +kernel)).mp (by decide +kernel)
  have none : ∀ i < 512, ¬ (finish.slots (0x4000 + 8 * UInt64.ofNat i)).Refers finish.pmm 0 := by
    decide +kernel
  exact none i small refers

end KeblaOS.Memory
