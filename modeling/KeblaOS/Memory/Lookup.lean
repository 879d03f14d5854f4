import KeblaOS.Memory.PageTree

/-!
# `get_page` as a lookup

With `make` zero `get_page` makes no table. It still writes the user bit of every directory entry on
its way, and gives a page that is not present a frame: it changes nothing exactly when the bits are
those it writes and it does not get as far as a missing page. Its way is the one of the processor as
long as the tables lie below 1 TiB.
-/

namespace KeblaOS.Memory

/-! ## The way through the directories -/

/-- The present directory entries on the way of `get_page` have this user bit. -/
def UserBits (machine : Machine) (user : Bool) (base va : UInt64) : List UInt64 → Prop
  | [] => True
  | shift :: shifts =>
      ∀ next, machine.tableBelow (tableSlot base va shift) = some next →
        (machine.slots (tableSlot base va shift)).user = user ∧ UserBits machine user next va shifts

/-- The table behind the directories, each found at its full address, if all are present. -/
def presentTable (machine : Machine) (base va : UInt64) : List UInt64 → Option UInt64
  | [] => some base
  | shift :: shifts =>
      let entry := machine.slots (tableSlot base va shift)
      if entry.present then presentTable machine (entry.frame <<< 12) va shifts else none

/-- The present directory entries on the way of `get_page` name tables below 1 TiB. -/
def LowWay (machine : Machine) (base va : UInt64) : List UInt64 → Prop
  | [] => True
  | shift :: shifts =>
      ∀ next, machine.tableBelow (tableSlot base va shift) = some next →
        (machine.slots (tableSlot base va shift)).frame.toNat < 268435456 ∧ LowWay machine next va shifts

/-- The page table of an address, if its three directory levels are present. -/
def pageTable (machine : Machine) (va pml4 : UInt64) : Option UInt64 :=
  if pml4 = 0 then none else presentTable machine pml4 va directoryShifts

/-- No page is present at the address. -/
def PageMissing (machine : Machine) (va pml4 : UInt64) : Prop :=
  ∀ pt, pageTable machine va pml4 = some pt → (machine.slots (tableSlot pt va 12)).present = false

/-- `get_page` without `make` changes nothing and returns an entry when there is a page table for it;
and `vm_free` of an address without a page changes nothing. -/
structure PureLookup (machine : Machine) (va pml4 : UInt64) : Prop where
  lookup : ∃ answer, getPage machine va false pml4 = some (answer, machine) ∧
    (answer ≠ none ↔ pageTable machine va pml4 ≠ none)
  free : pml4 = machine.cr3 → PageMissing machine va pml4 → vmFree machine va = some machine

/-- On the way of `get_page` the user bits are those of the half of the address, and if the way has a
page table, its page is present. -/
structure WayFits (machine : Machine) (va pml4 : UInt64) : Prop where
  bits : UserBits machine (va < higherHalfStart) pml4 va directoryShifts
  present : ∀ pt, tableBehind machine pml4 va directoryShifts = some pt →
    (machine.slots (tableSlot pt va 12)).present = true

/-- The way of `get_page`, with addresses cut to 40 bits, leads to a page table exactly if the full
addresses do; and for `vm_free` the full addresses lead to no missing page. -/
structure WayComplete (machine : Machine) (va pml4 : UInt64) : Prop where
  found : tableBehind machine pml4 va directoryShifts ≠ none ↔ pageTable machine va pml4 ≠ none
  page : pml4 = machine.cr3 → va ≠ 0 → ∀ pt, pageTable machine va pml4 = some pt →
    (machine.slots (tableSlot pt va 12)).present = true

def LookupFits (machine : Machine) (va pml4 : UInt64) : Prop :=
  pml4 = 0 ∨ WayFits machine va pml4 ∧ WayComplete machine va pml4

section Levels

variable {machine : Machine} {base va slot : UInt64} {user : Bool}

/-- Below 1 TiB the way of `get_page` is the one of the full addresses. -/
theorem presentTable_eq {shifts : List UInt64} (low : LowWay machine base va shifts) :
    presentTable machine base va shifts = tableBehind machine base va shifts := by
  induction shifts generalizing base with
  | nil => rfl
  | cons shift shifts ih =>
      rw [presentTable, tableBehind]
      by_cases present : (machine.slots (tableSlot base va shift)).present = true
      · have below : machine.tableBelow (tableSlot base va shift) =
            some (tableAddress (machine.slots (tableSlot base va shift)).frame) := if_pos present
        obtain ⟨small, rest⟩ := low _ below
        rw [if_pos present, below, Option.bind_some, ← tableAddress_eq small, ih rest]
      · have absent : machine.tableBelow (tableSlot base va shift) = none := if_neg present
        rw [if_neg present, absent, Option.bind_none]

/-- Tables below 1 TiB make a way that fits complete. -/
theorem WayFits.complete {pml4 : UInt64} (fits : WayFits machine va pml4) (nonnull : pml4 ≠ 0)
    (low : LowWay machine pml4 va directoryShifts) : WayComplete machine va pml4 := by
  have same : pageTable machine va pml4 = tableBehind machine pml4 va directoryShifts := by
    rw [pageTable, if_neg nonnull, presentTable_eq low]
  refine ⟨by rw [same], fun _ _ pt found => fits.present pt ?_⟩
  rw [← same, found]

/-- A level whose entry is missing or has the right bit changes nothing. -/
theorem nextTable_of_right
    (right : ∀ next, machine.tableBelow slot = some next → (machine.slots slot).user = user) :
    nextTable machine slot false user = (machine.tableBelow slot, machine) := by
  cases below : machine.tableBelow slot with
  | some next => exact nextTable_of_user below (right next below)
  | none =>
      have absent : ¬ (machine.slots slot).present = true := by
        intro present
        rw [Machine.tableBelow, if_pos present] at below
        cases below
      unfold nextTable
      dsimp only
      rw [if_neg absent, if_neg Bool.false_ne_true]

/-- With the right bits the way through the directories changes nothing. -/
theorem descendAll_of_right {shifts : List UInt64} (right : UserBits machine user base va shifts) :
    descendAll (some base, machine) va false user shifts = (tableBehind machine base va shifts, machine) := by
  induction shifts generalizing base with
  | nil => rfl
  | cons shift shifts ih =>
      rw [descendAll_cons, nextTable_of_right fun next below => (right next below).1, tableBehind]
      cases below : machine.tableBelow (tableSlot base va shift) with
      | none => exact descendAll_none machine va false user shifts
      | some next => exact ih (right next below).2

/-- A level leaves a bit that it would write itself. -/
theorem nextTable_user {other : UInt64} (marked : (machine.slots slot).user = user) :
    ((nextTable machine other false user).2.slots slot).user = user := by
  unfold nextTable
  dsimp only
  by_cases present : (machine.slots other).present = true
  · rw [if_pos present]
    show (Function.update machine.slots other _ slot).user = user
    by_cases here : slot = other
    · rw [here, Function.update_self]
    · rwa [Function.update_of_ne here]
  · rw [if_neg present, if_neg Bool.false_ne_true]
    exact marked

theorem descendAll_user {state : Option UInt64 × Machine} {shifts : List UInt64}
    (marked : (state.2.slots slot).user = user) :
    ((descendAll state va false user shifts).2.slots slot).user = user := by
  induction shifts generalizing state with
  | nil => exact marked
  | cons shift shifts ih =>
      apply ih
      obtain ⟨_ | base, machine⟩ := state
      · exact marked
      · exact nextTable_user marked

/-- A wrong bit on the way is written. -/
theorem descendAll_of_wrong {shifts : List UInt64} (wrong : ¬ UserBits machine user base va shifts) :
    ∃ slot, (machine.slots slot).user ≠ user ∧
      ((descendAll (some base, machine) va false user shifts).2.slots slot).user = user := by
  induction shifts generalizing base with
  | nil => exact absurd trivial wrong
  | cons shift shifts ih =>
      obtain ⟨next, bits⟩ := not_forall.mp wrong
      obtain ⟨below, bits⟩ := Classical.not_imp.mp bits
      rw [descendAll_cons]
      by_cases right : (machine.slots (tableSlot base va shift)).user = user
      · rw [nextTable_of_user below right]
        exact ih fun rest => bits ⟨right, rest⟩
      · have present : (machine.slots (tableSlot base va shift)).present = true := by
          by_contra absent
          rw [Machine.tableBelow, if_neg absent] at below
          cases below
        refine ⟨tableSlot base va shift, right, descendAll_user ?_⟩
        rw [nextTable]
        dsimp only
        rw [if_pos present]
        show (Function.update machine.slots _ _ _).user = user
        rw [Function.update_self]

/-- The page entry that gets a frame keeps a bit that its own would replace. -/
theorem leafPage_user {other : UInt64} {answer : Option UInt64} {after : Machine}
    (marked : (machine.slots slot).user = user) (left : leafPage machine other user = some (answer, after)) :
    (after.slots slot).user = user := by
  unfold leafPage at left
  dsimp only at left
  by_cases present : (machine.slots other).present = true
  · rw [if_pos present] at left
    obtain ⟨-, rfl⟩ := Prod.mk.inj (Option.some.inj left)
    exact marked
  · rw [if_neg present] at left
    obtain ⟨⟨page, pmm⟩, allocated, pair⟩ := Option.map_eq_some_iff.mp left
    obtain ⟨_, _, _, entry⟩ := allocFrame_entry allocated
    have written : after.slots = Function.update machine.slots other page := by
      dsimp only at pair
      split_ifs at pair
      · rw [← (Prod.mk.inj pair).2]
        rfl
      · rw [← (Prod.mk.inj pair).2]
        rfl
    rw [written]
    by_cases here : slot = other
    · rw [here, Function.update_self, entry]
    · rwa [Function.update_of_ne here]

/-- A frame for a missing page moves `phys_mem_head`. -/
theorem leafPage_of_missing {answer : Option UInt64} {after : Machine}
    (missing : (machine.slots slot).present = false) (left : leafPage machine slot user = some (answer, after)) :
    after.pmm.physMemHead = machine.pmm.physMemHead + frameSize := by
  unfold leafPage at left
  dsimp only at left
  rw [missing, if_neg Bool.false_ne_true] at left
  obtain ⟨⟨page, pmm⟩, allocated, pair⟩ := Option.map_eq_some_iff.mp left
  obtain ⟨bitNo, _, set, _⟩ := allocFrame_entry allocated
  have moved : after.pmm = pmm := by
    dsimp only at pair
    split_ifs at pair
    · rw [← (Prod.mk.inj pair).2]
      rfl
    · rw [← (Prod.mk.inj pair).2]
      rfl
  unfold setFrame at set
  split_ifs at set
  rw [moved, ← Option.some.inj set]

end Levels

/-! ## The call -/

section Lookup

variable {machine : Machine} {va pml4 : UInt64}

/-- A lookup on a way that fits finds the entry of the page, if the way has a page table. -/
theorem getPage_of_fits (nonnull : pml4 ≠ 0) (fits : WayFits machine va pml4) :
    getPage machine va false pml4 =
      some ((tableBehind machine pml4 va directoryShifts).map fun pt => tableSlot pt va 12, machine) := by
  rw [getPage_eq_directories, if_neg nonnull, directories, descendAll_of_right fits.bits]
  cases behind : tableBehind machine pml4 va directoryShifts with
  | none => rfl
  | some pt =>
      show leafPage machine (tableSlot pt va 12) _ = _
      rw [leafPage]
      dsimp only
      rw [if_pos (fits.present pt behind)]
      rfl

/-- The way of a lookup that changes nothing fits. -/
theorem fits_of_getPage {answer : Option UInt64} (nonnull : pml4 ≠ 0)
    (got : getPage machine va false pml4 = some (answer, machine)) : WayFits machine va pml4 := by
  rw [getPage_eq_directories, if_neg nonnull, directories] at got
  have right : UserBits machine (va < higherHalfStart) pml4 va directoryShifts := by
    by_contra wrong
    obtain ⟨slot, before, marked⟩ := descendAll_of_wrong wrong
    generalize descendAll (some pml4, machine) va false (va < higherHalfStart) directoryShifts = state at got marked
    obtain ⟨_ | pt, after⟩ := state
    · obtain ⟨-, rfl⟩ := Prod.mk.inj (Option.some.inj got)
      exact before marked
    · exact before (leafPage_user marked got)
  rw [descendAll_of_right right] at got
  refine ⟨right, fun pt found => ?_⟩
  rw [found] at got
  by_contra missing
  have moved := leafPage_of_missing (by simpa using missing) got
  have zero : frameSize = 0 := by simpa using moved
  exact absurd zero (by decide)

/-- `vm_free` of a page that `get_page` finds does not leave the machine as it was. -/
theorem vmFree_changes {slot : UInt64} (nonnull : va ≠ 0)
    (found : getPage machine va false machine.cr3 = some (some slot, machine))
    (present : (machine.slots slot).present = true) : vmFree machine va ≠ some machine := by
  intro same
  unfold vmFree at same
  rw [if_neg nonnull, found] at same
  dsimp only at same
  rw [if_pos present] at same
  obtain ⟨⟨page, pmm⟩, -, written⟩ := Option.map_eq_some_iff.mp same
  have entry := congrArg (fun machine : Machine => (machine.slots slot).present) written
  simp only [Machine.setSlot, Function.update_self, present] at entry
  cases entry

end Lookup

/-- `get_page` without `make` is a lookup exactly when its way fits and is complete. -/
theorem pureLookup_iff (machine : Machine) (va pml4 : UInt64) : PureLookup machine va pml4 ↔ LookupFits machine va pml4 := by
  by_cases null : pml4 = 0
  · -- no top table
    subst null
    have nothing : getPage machine va false 0 = some (none, machine) := by rw [getPage, if_pos rfl]
    refine iff_of_true ⟨⟨none, nothing, ?_⟩, fun current _ => ?_⟩ (.inl rfl)
    · rw [pageTable, if_pos rfl]
    · unfold vmFree
      by_cases zero : va = 0
      · rw [if_pos zero]
      · rw [if_neg zero, ← current, nothing]
  constructor
  · rintro ⟨⟨answer, got, whole⟩, free⟩
    have fits := fits_of_getPage null got
    rw [getPage_of_fits null fits] at got
    obtain ⟨rfl, -⟩ := Prod.mk.inj (Option.some.inj got)
    rw [Ne, Ne, Option.map_eq_none_iff] at whole
    refine .inr ⟨fits, whole, fun current nonzero pt found => ?_⟩
    by_contra missing
    have none : PageMissing machine va pml4 := by
      intro pt' found'
      obtain rfl := Option.some.inj (found.symm.trans found')
      simpa using missing
    obtain ⟨pt', behind⟩ := Option.ne_none_iff_exists'.mp (whole.mpr (by simp [found]))
    have walk := getPage_of_fits null fits
    rw [behind, Option.map_some, current] at walk
    exact vmFree_changes nonzero walk (fits.present pt' behind) (free current none)
  · rintro (zero | ⟨fits, complete⟩)
    · exact absurd zero null
    refine ⟨⟨_, getPage_of_fits null fits, ?_⟩, fun current missing => ?_⟩
    · rw [Ne, Option.map_eq_none_iff]
      exact complete.found
    · unfold vmFree
      by_cases zero : va = 0
      · rw [if_pos zero]
      · have nowhere : pageTable machine va pml4 = none := by
          cases found : pageTable machine va pml4 with
          | none => rfl
          | some pt => exact absurd ((complete.page current zero pt found).symm.trans (missing pt found)) (by decide)
        have behind : tableBehind machine pml4 va directoryShifts = none := by
          by_contra some
          exact complete.found.mp some nowhere
        have walk := getPage_of_fits null fits
        rw [behind] at walk
        rw [if_neg zero, ← current, walk]
        rfl

/-- In an address space with one page table and no page, the lookup of address 0x1000 takes a frame, and
`vm_free` of it moves `phys_mem_head`. -/
theorem getPage_takes_frame :
    (getPage pagedMachine 0x1000 false 0x1000).map (fun result => (result.1, result.2.pmm.physMemHead)) =
        some (some 0x4008, 0x109000) ∧
      (vmFree pagedMachine 0x1000).map (fun after => after.pmm.physMemHead) = some 0x109000 ∧
      PageMissing pagedMachine 0x1000 0x1000 ∧ ¬ PureLookup pagedMachine 0x1000 0x1000 := by
  have table : pageTable pagedMachine 0x1000 0x1000 = some 0x4000 := by decide +kernel
  have behind : tableBehind pagedMachine 0x1000 0x1000 directoryShifts = some 0x4000 := by decide +kernel
  have missing : (pagedMachine.slots (tableSlot 0x4000 0x1000 12)).present = false := by decide +kernel
  refine ⟨by decide +kernel, by decide +kernel, fun pt found => ?_, fun lookup => ?_⟩
  · obtain rfl := Option.some.inj (table.symm.trans found)
    exact missing
  · obtain ⟨answer, got, -⟩ := lookup.lookup
    have fits := fits_of_getPage (by decide) got
    exact absurd ((fits.present _ behind).symm.trans missing) (by decide)

end KeblaOS.Memory
