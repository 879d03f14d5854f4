import KeblaOS.Lib.BinarySearch
import KeblaOS.Lib.BubbleSort
import KeblaOS.Lib.Moves

/-!
# Sorting and searching arrays

`qsort` of `stdlib.c` is a bubble sort of elements of any size, which it exchanges byte by byte;
`bsearch` halves the part of a sorted array in which the key can be. The comparison function sees the
bytes of the elements.
-/

namespace KeblaOS.Stdlib

/-- The bytes of an element. -/
def Element (size : Nat) : Type := { bytes : List UInt8 // bytes.length = size }

/-- The element at an address. -/
def elementAt (memory : Nat → UInt8) (pos size : Nat) : Element size := ⟨region memory pos size, length_region memory pos size⟩

/-- The innermost loop of `qsort`. -/
def swapBytes (memory : Nat → UInt8) (a b size : Nat) : Nat → UInt8 :=
  (List.range size).foldl (fun memory k => exchange memory (a + k) (b + k)) memory

section Model

variable {size : Nat} (compar : Element size → Element size → Int32)

/-- A round of the inner loop of `qsort`. -/
def qsortRound (base : Nat) (memory : Nat → UInt8) (j : Nat) : Nat → UInt8 :=
  let a := base + j * size
  let b := base + (j + 1) * size
  if 0 < compar (elementAt memory a size) (elementAt memory b size) then swapBytes memory a b size else memory

/-- `qsort`. Without an element there is no round whose `nmemb - 1` could wrap. -/
def qsort (memory : Nat → UInt8) (base nmemb : Nat) : Nat → UInt8 :=
  (List.range nmemb).foldl (fun memory _ => (List.range (nmemb - 1)).foldl (qsortRound compar base) memory) memory

/-- A round of `bsearch`, whose sum of two bounds is one of 64 bits. Looking at an element that the array does not have
is a fault. -/
def bsearchRound (key : Element size) (memory : Nat → UInt8) (base nmemb : Nat) (bounds : Nat × Nat) :
    Round (Nat × Nat) (Option Nat) :=
  let (low, high) := bounds
  if low < high then
    let mid := (low + high) % 2 ^ 64 / 2
    if mid < nmemb then
      let elem := base + mid * size
      let cmp := compar key (elementAt memory elem size)
      if cmp < 0 then .goes (low, mid)
      else if 0 < cmp then .goes (mid + 1, high)
      else .ends (some elem)
    else .fault
  else .ends none

/-- `bsearch` returns a pointer, or `NULL`. -/
def Bsearch (key : Element size) (memory : Nat → UInt8) (base nmemb : Nat) (result : Option Nat) : Prop :=
  EndsWith (bsearchRound compar key memory base nmemb) (0, nmemb) result

/-- The comparison function orders all elements, some of which it may take for equal. -/
structure IsTotalPreorder : Prop where
  opposite : ∀ a b, 0 < compar a b ↔ compar b a < 0
  trans : ∀ a b c, compar a b ≤ 0 → compar b c ≤ 0 → compar a c ≤ 0

end Model

/-- The elements of an array. -/
def elements (memory : Nat → UInt8) (base nmemb size : Nat) : List (Element size) :=
  (List.range nmemb).map fun j => elementAt memory (base + j * size) size

/-! ## Exchanges of elements -/

section Exchanges

variable {memory : Nat → UInt8} {base nmemb size : Nat} {compar : Element size → Element size → Int32}

/-- Elements that do not overlap trade places. -/
theorem swapBytes_apply {a b : Nat} (apart : a + size ≤ b) (pos : Nat) : swapBytes memory a b size pos =
    if a ≤ pos ∧ pos < a + size then memory (b + (pos - a))
    else if b ≤ pos ∧ pos < b + size then memory (a + (pos - b)) else memory pos := by
  induction size generalizing pos with
  | zero =>
      rw [if_neg (by omega), if_neg (by omega)]
      rfl
  | succ size ih =>
      have before := ih (by omega)
      rw [swapBytes, List.range_succ, List.foldl_append, List.foldl_cons, List.foldl_nil, ← swapBytes]
      unfold exchange
      by_cases first : pos = a + size
      · rw [if_pos first, before, if_neg (by omega), if_neg (by omega), if_pos (by omega)]
        congr 1
        omega
      by_cases second : pos = b + size
      · rw [if_neg first, if_pos second, before, if_neg (by omega), if_neg (by omega), if_neg (by omega), if_pos (by omega)]
        congr 1
        omega
      · rw [if_neg first, if_neg second, before]
        apply if_congr (by omega) rfl
        exact if_congr (by omega) rfl rfl

theorem elementAt_congr {memory memory' : Nat → UInt8} {pos pos' size : Nat}
    (same : ∀ k < size, memory' (pos + k) = memory (pos' + k)) : elementAt memory' pos size = elementAt memory pos' size := by
  apply Subtype.ext
  apply List.map_congr_left
  intro k member
  exact same k (List.mem_range.mp member)

/-- Exchanging neighbours byte by byte exchanges them as elements. -/
theorem elementAt_swapBytes (memory : Nat → UInt8) (base size j : Nat) :
    (fun i => elementAt (swapBytes memory (base + j * size) (base + (j + 1) * size) size) (base + i * size) size) =
      exchange (fun i => elementAt memory (base + i * size) size) j (j + 1) := by
  have next : (j + 1) * size = j * size + size := Nat.succ_mul j size
  have swapped := @swapBytes_apply memory size (base + j * size) (base + (j + 1) * size) (by omega)
  obtain ⟨first, second, others⟩ := exchange_neighbours (fun i => elementAt memory (base + i * size) size) j
  funext i
  by_cases here : i = j
  · subst here
    rw [first]
    apply elementAt_congr
    intro k inside
    rw [swapped, if_pos (by omega), Nat.add_sub_cancel_left]
  by_cases behind : i = j + 1
  · subst behind
    rw [second]
    apply elementAt_congr
    intro k inside
    rw [swapped, if_neg (by omega), if_pos (by omega), Nat.add_sub_cancel_left]
  · rw [others i here behind]
    apply elementAt_congr
    intro k inside
    have apart : i * size + size ≤ j * size ∨ j * size + size + size ≤ i * size := by
      rcases Nat.lt_or_ge i j with less | more
      · left
        rw [← Nat.succ_mul]
        exact Nat.mul_le_mul_right size less
      · right
        rw [← next, ← Nat.succ_mul]
        exact Nat.mul_le_mul_right size (show j + 1 + 1 ≤ i by omega)
    rw [swapped, if_neg (by omega), if_neg (by omega)]

/-- On the elements, `qsort` is bubble sort. -/
theorem elementAt_qsort (compar : Element size → Element size → Int32) (memory : Nat → UInt8) (base nmemb : Nat) :
    (fun i => elementAt (qsort compar memory base nmemb) (base + i * size) size) =
      bubbleSort (fun a b => 0 < compar a b) nmemb fun i => elementAt memory (base + i * size) size := by
  have round : ∀ memory j, (fun i => elementAt (qsortRound compar base memory j) (base + i * size) size) =
      bubbleStep (fun a b => 0 < compar a b) (fun i => elementAt memory (base + i * size) size) j := by
    intro memory j
    unfold qsortRound bubbleStep
    dsimp only
    split_ifs
    · exact elementAt_swapBytes memory base size j
    · rfl
  have pass : ∀ memory, (fun i => elementAt ((List.range (nmemb - 1)).foldl (qsortRound compar base) memory)
      (base + i * size) size) =
      bubblePass (fun a b => 0 < compar a b) nmemb fun i => elementAt memory (base + i * size) size := by
    intro memory
    exact (List.foldl_hom (fun memory i => elementAt memory (base + i * size) size) fun memory j => (round memory j).symm).symm
  exact (List.foldl_hom (fun memory i => elementAt memory (base + i * size) size) fun memory _ => (pass memory).symm).symm

/-- Nothing outside of the array changes. -/
theorem qsort_outside (compar : Element size → Element size → Int32) (memory : Nat → UInt8) {base nmemb pos : Nat}
    (outside : ¬ (base ≤ pos ∧ pos < base + nmemb * size)) : qsort compar memory base nmemb pos = memory pos := by
  have round : ∀ memory j, j + 1 < nmemb → qsortRound compar base memory j pos = memory pos := by
    intro memory j inside
    have next : (j + 1) * size = j * size + size := Nat.succ_mul j size
    have last : (j + 1) * size + size ≤ nmemb * size := by
      rw [← Nat.succ_mul]
      exact Nat.mul_le_mul_right size inside
    unfold qsortRound
    split_ifs
    · rw [swapBytes_apply (by omega), if_neg (by omega), if_neg (by omega)]
    · rfl
  have pass : ∀ rounds < nmemb, ∀ memory, (List.range rounds).foldl (qsortRound compar base) memory pos = memory pos := by
    intro rounds
    induction rounds with
    | zero => exact fun _ _ => rfl
    | succ rounds ih =>
        intro inside memory
        rw [List.range_succ, List.foldl_append, List.foldl_cons, List.foldl_nil, round _ rounds inside, ih (by omega)]
  have passes : ∀ count, (List.range count).foldl
      (fun memory _ => (List.range (nmemb - 1)).foldl (qsortRound compar base) memory) memory pos = memory pos := by
    intro count
    induction count with
    | zero => rfl
    | succ count ih =>
        rw [List.range_succ, List.foldl_append, List.foldl_cons, List.foldl_nil]
        rcases Nat.eq_zero_or_pos nmemb with rfl | some
        · exact ih
        · rw [pass (nmemb - 1) (by omega), ih]
  exact passes nmemb

end Exchanges

/-! ## Order -/

section Order

variable {size : Nat} {compar : Element size → Element size → Int32} {memory : Nat → UInt8} {base nmemb : Nat}

namespace IsTotalPreorder

theorem asymm (preorder : IsTotalPreorder compar) (a b : Element size) (greater : 0 < compar a b) : ¬ 0 < compar b a := by
  have less := (preorder.opposite a b).mp greater
  exact Int32.not_lt.mpr (Int32.le_of_lt less)

theorem le_of_not_lt (preorder : IsTotalPreorder compar) {a b : Element size} (not_less : ¬ compar a b < 0) :
    compar b a ≤ 0 := by
  rw [← preorder.opposite] at not_less
  exact Int32.not_lt.mp not_less

theorem not_greater_trans (preorder : IsTotalPreorder compar) (a b c : Element size) (first : ¬ 0 < compar a b)
    (second : ¬ 0 < compar b c) : ¬ 0 < compar a c :=
  Int32.not_lt.mpr (preorder.trans a b c (Int32.not_lt.mp first) (Int32.not_lt.mp second))

end IsTotalPreorder

/-- The elements of a sorted array do not decrease. -/
theorem compar_le_of_sorted (preorder : IsTotalPreorder compar) (memory : Nat → UInt8) (base : Nat) {i j : Nat}
    (before : i ≤ j) (inside : j < nmemb) :
    compar (elementAt (qsort compar memory base nmemb) (base + i * size) size)
      (elementAt (qsort compar memory base nmemb) (base + j * size) size) ≤ 0 := by
  have dominates := dominates_bubbleSort preorder.asymm preorder.not_greater_trans nmemb
    (fun i => elementAt memory (base + i * size) size) inside i before
  rw [← elementAt_qsort] at dominates
  exact Int32.not_lt.mp dominates

/-- How a key compares with an element. -/
def orderOf (cmp : Int32) : Ordering := if cmp < 0 then .lt else if 0 < cmp then .gt else .eq

theorem orderOf_eq_lt {cmp : Int32} : orderOf cmp = .lt ↔ cmp < 0 := by
  unfold orderOf
  split_ifs with less greater
  · exact ⟨fun _ => less, fun _ => rfl⟩
  · exact ⟨fun impossible => (nomatch impossible), fun less' => absurd less' less⟩
  · exact ⟨fun impossible => (nomatch impossible), fun less' => absurd less' less⟩

theorem orderOf_eq_gt {cmp : Int32} : orderOf cmp = .gt ↔ 0 < cmp := by
  unfold orderOf
  split_ifs with less greater
  · exact ⟨fun impossible => (nomatch impossible), fun greater => absurd (Int32.lt_trans less greater) Int32.lt_irrefl⟩
  · exact ⟨fun _ => greater, fun _ => rfl⟩
  · exact ⟨fun impossible => (nomatch impossible), fun greater' => absurd greater' greater⟩

theorem orderOf_eq_eq {cmp : Int32} : orderOf cmp = .eq ↔ cmp = 0 := by
  unfold orderOf
  split_ifs with less greater
  · exact ⟨fun impossible => (nomatch impossible), fun zero => absurd less (by rw [zero]; exact Int32.lt_irrefl)⟩
  · exact ⟨fun impossible => (nomatch impossible), fun zero => absurd greater (by rw [zero]; exact Int32.lt_irrefl)⟩
  · exact ⟨fun _ => Int32.le_antisymm (Int32.not_lt.mp greater) (Int32.not_lt.mp less), fun _ => rfl⟩

/-- A key divides an array whose elements do not decrease. -/
theorem bisected_of_sorted (preorder : IsTotalPreorder compar) (key : Element size)
    (sorted : ∀ i j, i ≤ j → j < nmemb →
      compar (elementAt memory (base + i * size) size) (elementAt memory (base + j * size) size) ≤ 0) :
    Bisected (fun i => orderOf (compar key (elementAt memory (base + i * size) size))) nmemb where
  less i j before inside first := by
    rw [orderOf_eq_lt] at first ⊢
    by_contra second
    have back := preorder.trans _ _ _ (sorted i j before inside) (preorder.le_of_not_lt second)
    rw [← preorder.opposite] at first
    exact Int32.not_lt.mpr back first
  greater i j before inside second := by
    rw [orderOf_eq_gt] at second ⊢
    by_contra first
    exact Int32.not_lt.mpr (preorder.trans _ _ _ (Int32.not_lt.mp first) (sorted i j before inside)) second

/-- A round of `bsearch` looks at an element between its bounds. -/
theorem halves_bsearchRound (key : Element size) (memory : Nat → UInt8) (base : Nat) (few : nmemb ≤ 2 ^ 63) :
    Halves (fun i => orderOf (compar key (elementAt memory (base + i * size) size))) nmemb (fun i => base + i * size)
      (bsearchRound compar key memory base nmemb) := by
  intro low high inside
  refine ⟨fun ended => if_neg ended, fun more => ⟨(low + high) / 2, by omega, by omega, ?_⟩⟩
  have whole : (low + high) % 2 ^ 64 = low + high := Nat.mod_eq_of_lt (by omega)
  rw [bsearchRound]
  dsimp only
  rw [if_pos more, whole, if_pos (by omega)]
  unfold orderOf
  split_ifs <;> rfl

/-- `qsort` sorts an array stably and leaves the memory around it alone. In the sorted array `bsearch` only looks at
elements; it returns one that is equal to the key, or `NULL` if there is none. No array has more than `2 ^ 63` elements:
it would be larger than half of the address space. -/
theorem qsort_bsearch (preorder : IsTotalPreorder compar) (few : nmemb ≤ 2 ^ 63)
    (memory : Nat → UInt8) (base : Nat) :
    let sorted := qsort compar memory base nmemb
    (elements sorted base nmemb size).Pairwise (fun a b => compar a b ≤ 0) ∧
      (elements sorted base nmemb size).Perm (elements memory base nmemb size) ∧
      (∀ a, (elements sorted base nmemb size).filter (fun b => compar a b = 0) =
        (elements memory base nmemb size).filter fun b => compar a b = 0) ∧
      (∀ pos, ¬ (base ≤ pos ∧ pos < base + nmemb * size) → sorted pos = memory pos) ∧
      ∀ key, ∃ result, Bsearch compar key sorted base nmemb result ∧
        (∀ place, result = some place → ∃ i < nmemb, place = base + i * size ∧ compar key (elementAt sorted place size) = 0) ∧
        (result = none ↔ ∀ b ∈ elements sorted base nmemb size, compar key b ≠ 0) := by
  have refined := elementAt_qsort compar memory base nmemb
  refine ⟨?_, ?_, fun a => ?_, fun pos outside => qsort_outside compar memory outside, fun key => ?_⟩
  · rw [elements, List.pairwise_map]
    apply List.Pairwise.imp_of_mem _ List.pairwise_lt_range
    intro i j _ member before
    exact compar_le_of_sorted preorder memory base (Nat.le_of_lt before) (List.mem_range.mp member)
  · rw [elements, elements, refined]
    exact bubbleSort_perm _ nmemb _
  · rw [elements, elements, refined]
    apply bubbleSort_stable
    intro b c first second
    have zero : compar a b = 0 := of_decide_eq_true first
    have zero' : compar a c = 0 := of_decide_eq_true second
    have before : compar b a ≤ 0 := preorder.le_of_not_lt (by rw [zero]; exact Int32.lt_irrefl)
    exact Int32.not_lt.mpr (preorder.trans b a c before (by rw [zero']; exact Int32.le_refl 0))
  · have sorted : ∀ i j, i ≤ j → j < nmemb → compar (elementAt (qsort compar memory base nmemb) (base + i * size) size)
        (elementAt (qsort compar memory base nmemb) (base + j * size) size) ≤ 0 := fun i j before inside =>
      compar_le_of_sorted preorder memory base before inside
    obtain ⟨result, ended, found, missed⟩ :=
      search_ends (halves_bsearchRound key _ base few) (bisected_of_sorted preorder key sorted)
    refine ⟨result, ended, ?_, ?_, fun none_equal => ?_⟩
    · intro place here
      obtain ⟨i, inside, equal, rfl⟩ := found place here
      exact ⟨i, inside, rfl, orderOf_eq_eq.mp equal⟩
    · intro none b member
      obtain ⟨i, inside, rfl⟩ := List.mem_map.mp member
      exact fun zero => missed none i (List.mem_range.mp inside) (orderOf_eq_eq.mpr zero)
    · cases result with
      | none => rfl
      | some place =>
          obtain ⟨i, inside, equal, rfl⟩ := found place rfl
          exact absurd (orderOf_eq_eq.mp equal) (none_equal _ (List.mem_map_of_mem (List.mem_range.mpr inside)))

/-- Elements of two bytes that are compared by their first byte. -/
def compareFirst (a b : Element 2) : Int32 :=
  if a.1.headD 0 < b.1.headD 0 then -1 else if b.1.headD 0 < a.1.headD 0 then 1 else 0

theorem compareFirst_le {a b : Element 2} : compareFirst a b ≤ 0 ↔ a.1.headD 0 ≤ b.1.headD 0 := by
  unfold compareFirst
  split_ifs with less greater
  · exact ⟨fun _ => UInt8.le_of_lt less, fun _ => by decide⟩
  · exact ⟨fun impossible => absurd impossible (by decide), fun le => absurd greater (UInt8.not_lt.mpr le)⟩
  · exact ⟨fun _ => UInt8.not_lt.mp greater, fun _ => by decide⟩

theorem isTotalPreorder_compareFirst : IsTotalPreorder compareFirst where
  opposite a b := by
    unfold compareFirst
    split_ifs with less greater greater
    · exact absurd greater (UInt8.lt_asymm less)
    · decide
    · decide
    · decide
  trans a b c first second := by
    rw [compareFirst_le] at first second ⊢
    exact UInt8.le_trans first second

/-- Among three elements, one with the first byte of the key is found after sorting. -/
theorem qsort_bsearch_three : ∃ result, Bsearch compareFirst ⟨[3, 7], rfl⟩
    (qsort compareFirst (fun pos => [3, 0, 1, 0, 3, 1].getD pos 0) 0 3) 0 3 result ∧ result ≠ none := by
  obtain ⟨-, perm, -, -, search⟩ := @qsort_bsearch 2 compareFirst 3 isTotalPreorder_compareFirst (by decide)
    (fun pos => [3, 0, 1, 0, 3, 1].getD pos 0) 0
  obtain ⟨result, searched, -, missed⟩ := search ⟨[3, 7], rfl⟩
  refine ⟨result, searched, fun none => ?_⟩
  have member : (⟨[3, 0], rfl⟩ : Element 2) ∈ elements (fun pos => [3, 0, 1, 0, 3, 1].getD pos 0) 0 3 2 :=
    List.mem_map.mpr ⟨0, by decide, rfl⟩
  exact missed.mp none _ (perm.mem_iff.mpr member) (by decide)

end Order

end KeblaOS.Stdlib
