import Mathlib.Data.List.Basic

/-!
# Maximal runs between separators

Positions below a bound, some of which separate. The positions between two separators, if there are
any, are a maximal run; `runsFrom` collects the runs from left to right.
-/

namespace KeblaOS

/-- The positions from `run.1` up to `run.2` do not separate, and there is no longer run of this kind. -/
structure MaximalRun (separates : Nat → Prop) (bound : Nat) (run : Nat × Nat) : Prop where
  nonempty : run.1 < run.2
  inside : run.2 ≤ bound
  free : ∀ i, run.1 ≤ i → i < run.2 → ¬ separates i
  left : run.1 = 0 ∨ separates (run.1 - 1)
  right : run.2 = bound ∨ separates run.2

/-- The run that ends at a position, if it is not empty. -/
def closedRun (start pos : Nat) : List (Nat × Nat) := if start < pos then [(start, pos)] else []

/-- The runs of the next `count` positions, behind an open run from `start` on. -/
def runsFrom (separates : Nat → Prop) [DecidablePred separates] : Nat → Nat → Nat → List (Nat × Nat)
  | 0, start, pos => closedRun start pos
  | count + 1, start, pos =>
      if separates pos then closedRun start pos ++ runsFrom separates count (pos + 1) (pos + 1)
      else runsFrom separates count start (pos + 1)

theorem mem_closedRun {start pos : Nat} {run : Nat × Nat} : run ∈ closedRun start pos ↔ start < pos ∧ run = (start, pos) := by
  unfold closedRun
  split_ifs with nonempty
  · rw [List.mem_singleton]
    exact ⟨fun same => ⟨nonempty, same⟩, fun both => both.2⟩
  · exact ⟨fun member => absurd member List.not_mem_nil, fun both => absurd both.1 nonempty⟩

section Runs

variable {separates : Nat → Prop} {bound count start pos : Nat}

/-- What lies between two separators, or the ends, is the only run that starts there. -/
theorem maximalRun_closed_iff (inside : pos ≤ bound)
    (free : ∀ i, start ≤ i → i < pos → ¬ separates i) (left : start = 0 ∨ separates (start - 1))
    (right : pos = bound ∨ separates pos) {run : Nat × Nat} (from_start : start ≤ run.1) (until_pos : run.1 ≤ pos) :
    MaximalRun separates bound run ↔ run ∈ closedRun start pos := by
  rw [mem_closedRun]
  constructor
  · rintro ⟨nonempty, inside', free', left', right'⟩
    have first : run.1 = start := by
      rcases left' with zero | separated
      · omega
      · by_contra later
        exact free (run.1 - 1) (by omega) (by omega) separated
    have last : run.2 = pos := by
      by_contra other
      rcases Nat.lt_or_gt_of_ne other with less | more
      · rcases right' with whole | separated
        · omega
        · exact free run.2 (by omega) less separated
      · rcases right with whole | separated
        · omega
        · exact free' pos until_pos more separated
    exact ⟨by omega, Prod.ext first last⟩
  · rintro ⟨nonempty, rfl⟩
    exact ⟨nonempty, inside, free, left, right⟩

variable [DecidablePred separates]

/-- The collected runs are those that start at the open run or behind it. -/
theorem mem_runsFrom (before : start ≤ pos) (whole : pos + count = bound)
    (free : ∀ i, start ≤ i → i < pos → ¬ separates i) (left : start = 0 ∨ separates (start - 1)) (run : Nat × Nat) :
    run ∈ runsFrom separates count start pos ↔ MaximalRun separates bound run ∧ start ≤ run.1 := by
  induction count generalizing start pos with
  | zero =>
      rw [runsFrom]
      constructor
      · intro member
        obtain ⟨-, rfl⟩ := mem_closedRun.mp member
        exact ⟨(maximalRun_closed_iff (by omega) free left (.inl (by omega)) (Nat.le_refl _) before).mpr member,
          Nat.le_refl _⟩
      · rintro ⟨maximal, behind⟩
        have inside := maximal.inside
        have nonempty := maximal.nonempty
        exact (maximalRun_closed_iff (by omega) free left (.inl (by omega)) behind (by omega)).mp maximal
  | succ count ih =>
      rw [runsFrom]
      split_ifs with separated
      · have rest : run ∈ runsFrom separates count (pos + 1) (pos + 1) ↔ MaximalRun separates bound run ∧ pos + 1 ≤ run.1 :=
          ih (Nat.le_refl _) (by omega) (fun i low high => by omega) (.inr separated)
        rw [List.mem_append, rest]
        constructor
        · rintro (member | ⟨maximal, behind⟩)
          · obtain ⟨-, rfl⟩ := mem_closedRun.mp member
            exact ⟨(maximalRun_closed_iff (by omega) free left (.inr separated) (Nat.le_refl _) before).mpr member,
              Nat.le_refl _⟩
          · exact ⟨maximal, by omega⟩
        · rintro ⟨maximal, behind⟩
          by_cases later : pos + 1 ≤ run.1
          · exact .inr ⟨maximal, later⟩
          · exact .inl ((maximalRun_closed_iff (by omega) free left (.inr separated) behind (by omega)).mp maximal)
      · apply ih (by omega) (by omega) _ left
        intro i low high
        rcases Nat.lt_or_ge i pos with less | same
        · exact free i low less
        · rwa [Nat.le_antisymm (by omega) same]

theorem le_of_mem_runsFrom {run : Nat × Nat} (before : start ≤ pos) (member : run ∈ runsFrom separates count start pos) :
    start ≤ run.1 := by
  induction count generalizing start pos with
  | zero =>
      obtain ⟨-, rfl⟩ := mem_closedRun.mp member
      exact Nat.le_refl _
  | succ count ih =>
      rw [runsFrom] at member
      split_ifs at member
      · rcases List.mem_append.mp member with here | later
        · obtain ⟨-, rfl⟩ := mem_closedRun.mp here
          exact Nat.le_refl _
        · have behind := ih (Nat.le_refl _) later
          omega
      · exact ih (by omega) member

/-- The runs come from left to right. -/
theorem pairwise_runsFrom (before : start ≤ pos) :
    (runsFrom separates count start pos).Pairwise fun run next => run.2 < next.1 := by
  induction count generalizing start pos with
  | zero =>
      rw [runsFrom, closedRun]
      split_ifs
      · exact List.pairwise_singleton _ _
      · exact .nil
  | succ count ih =>
      rw [runsFrom]
      split_ifs
      · apply List.pairwise_append.mpr ⟨?_, ih (Nat.le_refl _), ?_⟩
        · rw [closedRun]
          split_ifs
          · exact List.pairwise_singleton _ _
          · exact .nil
        · intro run here next later
          obtain ⟨-, rfl⟩ := mem_closedRun.mp here
          have behind := le_of_mem_runsFrom (Nat.le_refl _) later
          dsimp only
          omega
      · exact ih (by omega)

/-- Separators in front of a run are skipped. -/
theorem runsFrom_skip {stop : Nat} (before : pos ≤ stop) (inside : stop ≤ bound)
    (separated : ∀ i, pos ≤ i → i < stop → separates i) :
    runsFrom separates (bound - pos) pos pos = runsFrom separates (bound - stop) stop stop := by
  obtain ⟨skipped, rfl⟩ := Nat.exists_eq_add_of_le before
  induction skipped generalizing pos with
  | zero => rfl
  | succ skipped ih =>
      have more : bound - pos = bound - (pos + 1) + 1 := by omega
      have next : pos + (skipped + 1) = pos + 1 + skipped := by omega
      rw [more, runsFrom, if_pos (separated pos (Nat.le_refl _) (by omega)), closedRun, if_neg (Nat.lt_irrefl _),
        List.nil_append, next]
      exact ih (by omega) (by omega) fun i low high => separated i (by omega) (by omega)

/-- A run is collected at the separator behind it. -/
theorem runsFrom_word {stop : Nat} (opened : start < stop) (before : pos ≤ stop) (inside : stop ≤ bound)
    (free : ∀ i, pos ≤ i → i < stop → ¬ separates i) (right : stop = bound ∨ separates stop) :
    runsFrom separates (bound - pos) start pos =
      (start, stop) :: runsFrom separates (bound - (stop + 1)) (stop + 1) (stop + 1) := by
  obtain ⟨length, rfl⟩ := Nat.exists_eq_add_of_le before
  induction length generalizing pos with
  | zero =>
      rw [Nat.add_zero] at *
      by_cases whole : pos = bound
      · have none : bound - pos = 0 := by omega
        have none' : bound - (pos + 1) = 0 := by omega
        rw [none, none', runsFrom, runsFrom, closedRun, closedRun, if_pos opened, if_neg (Nat.lt_irrefl _)]
      · have more : bound - pos = bound - (pos + 1) + 1 := by omega
        rw [more, runsFrom, if_pos (right.resolve_left whole), closedRun, if_pos opened]
        rfl
  | succ length ih =>
      have more : bound - pos = bound - (pos + 1) + 1 := by omega
      have next : pos + (length + 1) = pos + 1 + length := by omega
      rw [more, runsFrom, if_neg (free pos (Nat.le_refl _) (by omega)), next]
      rw [next] at opened inside right
      exact ih opened (by omega) inside (fun i low high => free i (by omega) (by omega)) right

end Runs

/-! ## The runs of a text -/

section Texts

variable {α : Type*} {separates : Nat → Prop} [DecidablePred separates] {separator : α → Bool} {text : List α}

/-- The text of an open run. -/
theorem extract_open {before word rest : List α} (whole : text = before ++ word ++ rest) :
    text.extract before.length (before.length + word.length) = word := by
  rw [whole, List.extract_eq_take_drop, List.append_assoc, List.drop_left, Nat.add_sub_cancel_left, List.take_left]

/-- The text of a run that is closed, unless it is empty. -/
theorem map_extract_closedRun [DecidableEq α] {before word rest : List α} (whole : text = before ++ word ++ rest) :
    (closedRun before.length (before.length + word.length)).map (fun run => text.extract run.1 run.2) =
      [word].filter (· ≠ []) := by
  rw [closedRun]
  cases word with
  | nil => simp
  | cons first others =>
      rw [if_pos (by simp), List.map_singleton, extract_open whole]
      simp

/-- The texts of the runs are the parts a text is split into at its separators, without the empty ones. -/
theorem map_extract_runsFrom [DecidableEq α] (agrees : ∀ i x, text[i]? = some x → (separates i ↔ separator x = true))
    {before word rest : List α} (whole : text = before ++ word ++ rest) :
    (runsFrom separates rest.length before.length (before.length + word.length)).map
        (fun run => text.extract run.1 run.2) =
      ((rest.splitOnP separator).modifyHead (word ++ ·)).filter (· ≠ []) := by
  induction rest generalizing before word with
  | nil =>
      rw [List.length_nil, runsFrom, map_extract_closedRun whole, List.splitOnP_nil, List.modifyHead_cons, List.append_nil]
  | cons x rest ih =>
      have here : text[before.length + word.length]? = some x := by
        rw [whole, List.getElem?_append_right (by simp)]
        simp
      rw [List.length_cons, runsFrom, List.splitOnP_cons_eq_if_modifyHead]
      by_cases separated : separator x = true
      · have next := @ih (before ++ word ++ [x]) [] (by rw [whole]; simp)
        have length : (before ++ word ++ [x]).length = before.length + word.length + 1 := by
          simp [Nat.add_assoc]
        have same : (rest.splitOnP separator).modifyHead ([] ++ ·) = rest.splitOnP separator :=
          congrFun List.modifyHead_id _
        have split : (word :: rest.splitOnP separator).filter (· ≠ []) =
            [word].filter (· ≠ []) ++ (rest.splitOnP separator).filter (· ≠ []) := List.filter_append [word] _
        rw [length, List.length_nil, Nat.add_zero, same] at next
        rw [if_pos ((agrees _ x here).mpr separated), if_pos separated, List.map_append, map_extract_closedRun whole,
          List.modifyHead_cons, List.append_nil, split, next]
      · have next := @ih before (word ++ [x]) (by rw [whole]; simp)
        have added : (fun part => word ++ [x] ++ part) = (word ++ ·) ∘ List.cons x := by
          funext part
          exact List.append_assoc word [x] part
        rw [List.length_append, List.length_singleton, ← Nat.add_assoc, added] at next
        rw [if_neg (mt (agrees _ x here).mp separated), if_neg separated, List.modifyHead_modifyHead, next]

end Texts

end KeblaOS
