import KeblaOS.Lib.Glob
import KeblaOS.Fat32.DirEntry

/-!
# Name patterns

`fat32_match_pattern` tries a star on every rest of the name that is not empty, and behind
the end of the name it drops one star of the pattern. Two stars at the end of a pattern
therefore need a character of the name where the first of them begins.
-/

namespace KeblaOS.Fat32

open Glob

/-- `'*'`. -/
def star : UInt8 := 0x2A

/-- `'?'`. -/
def question : UInt8 := 0x3F

/-- `tolower`. -/
def toLower (c : UInt8) : UInt8 := if 0x41 ≤ c ∧ c ≤ 0x5A then c + 0x20 else c

/-- `fat32_match_pattern`. The inner loop calls it on the name and on its rests as long as a
character is left. -/
def fat32MatchPattern : List UInt8 → List UInt8 → Bool
  | [], name => name = []
  | c :: pattern, [] => c = star ∧ pattern = []
  | c :: pattern, d :: name =>
      if c = star then
        if pattern = [] then true
        else (d :: name).tails.any fun rest => rest ≠ [] && fat32MatchPattern pattern rest
      else if c ≠ question ∧ toLower c ≠ toLower d then false
      else fat32MatchPattern pattern name

/-- What a character of a pattern stands for. -/
def symbolOf (c : UInt8) : Symbol UInt8 :=
  if c = star then .many else if c = question then .one else .literal c

/-- The name matches the pattern as a glob, without regard to case. -/
def MatchesGlob (pattern name : List UInt8) : Prop :=
  Matches (fun c d => toLower c = toLower d) (pattern.map symbolOf) name

/-- The pattern ends in two stars and, without the stars at its end, matches the whole name and
no shorter beginning of it: the stars are left with nothing. -/
def StarsGetNothing (pattern name : List UInt8) : Prop :=
  [star, star] <:+ pattern ∧ MatchesGlob (pattern.rdropWhile (· = star)) name ∧
    ∀ front, front <+: name → front ≠ name → ¬ MatchesGlob (pattern.rdropWhile (· = star)) front

variable {pattern name : List UInt8} {c d : UInt8}

/-! ## The matcher, case by case -/

theorem fat32MatchPattern_star (more : pattern ≠ []) :
    fat32MatchPattern (star :: pattern) name = true ↔
      ∃ rest, rest <:+ name ∧ rest ≠ [] ∧ fat32MatchPattern pattern rest = true := by
  cases name with
  | nil => simp [fat32MatchPattern, more]
  | cons d name => simp only [fat32MatchPattern, if_true, if_neg more, List.any_eq_true, List.mem_tails,
      Bool.and_eq_true, decide_eq_true_eq, ne_eq]

theorem fat32MatchPattern_char (other : c ≠ star) :
    fat32MatchPattern (c :: pattern) (d :: name) = true ↔
      (c = question ∨ toLower c = toLower d) ∧ fat32MatchPattern pattern name = true := by
  rw [fat32MatchPattern, if_neg other]
  by_cases wild : c = question
  · simp [wild]
  · by_cases equal : toLower c = toLower d
    · simp [equal]
    · simp [wild, equal]

theorem matchesGlob_nil : MatchesGlob [] name ↔ name = [] := Matches.nil_iff

theorem matchesGlob_star : MatchesGlob (star :: pattern) name ↔ ∃ rest, rest <:+ name ∧ MatchesGlob pattern rest :=
  Matches.many_iff

theorem matchesGlob_char (other : c ≠ star) :
    MatchesGlob (c :: pattern) (d :: name) ↔
      (c = question ∨ toLower c = toLower d) ∧ MatchesGlob pattern name := by
  unfold MatchesGlob
  rw [List.map_cons, symbolOf, if_neg other]
  by_cases wild : c = question
  · rw [if_pos wild, Matches.one_iff]
    simp [wild]
  · rw [if_neg wild, Matches.literal_iff]
    simp [wild]

/-- Only stars match the empty name. -/
theorem matchesGlob_empty : MatchesGlob pattern [] ↔ ∀ c ∈ pattern, c = star := by
  unfold MatchesGlob
  rw [Matches.empty_iff, List.forall_mem_map]
  have onlyStar : ∀ c : UInt8, symbolOf c = .many ↔ c = star := by
    intro c
    unfold symbolOf
    split_ifs with isStar wild <;> simp [isStar]
  simp only [onlyStar]

theorem matchesGlob_append {front rest : List UInt8} : MatchesGlob (front ++ rest) name ↔
    ∃ first second, name = first ++ second ∧ MatchesGlob front first ∧ MatchesGlob rest second := by
  unfold MatchesGlob
  rw [List.map_append, Matches.append_iff]

theorem matchesGlob_stars (stars : ∀ c ∈ pattern, c = star) (some : pattern ≠ []) : MatchesGlob pattern name := by
  apply Matches.stars
  · rw [List.forall_mem_map]
    intro c member
    rw [stars c member]
    rfl
  · simpa using some

/-! ## Where the matcher and the globs agree -/

/-- A star in front of a pattern with another character is not the start of two last stars. -/
theorem not_suffix_of_cons (apart : ¬ [star, star] <:+ c :: pattern) : ¬ [star, star] <:+ pattern :=
  fun suffix => apart (suffix.trans (List.suffix_cons c pattern))

/-- Stars alone that do not end in two stars are at most one. -/
theorem eq_singleton_of_stars (apart : ¬ [star, star] <:+ pattern) (stars : ∀ c ∈ pattern, c = star) :
    pattern = [] ∨ pattern = [star] := by
  rcases List.eq_nil_or_concat pattern with rfl | ⟨front, last, rfl⟩
  · exact .inl rfl
  · rcases List.eq_nil_or_concat front with rfl | ⟨front', last', rfl⟩
    · right
      rw [stars last (by simp)]
      rfl
    · exfalso
      apply apart
      rw [stars last (by simp), stars last' (by simp)]
      exact ⟨front', by simp⟩

/-- What the matcher accepts is a match. -/
theorem matchesGlob_of_fat32MatchPattern (accepted : fat32MatchPattern pattern name = true) :
    MatchesGlob pattern name := by
  induction pattern generalizing name with
  | nil => exact matchesGlob_nil.mpr (by simpa [fat32MatchPattern] using accepted)
  | cons c pattern ih =>
      by_cases isStar : c = star
      · subst isStar
        by_cases more : pattern = []
        · subst more
          exact matchesGlob_stars (by simp) (by simp)
        · obtain ⟨rest, suffix, _, later⟩ := (fat32MatchPattern_star more).mp accepted
          exact matchesGlob_star.mpr ⟨rest, suffix, ih later⟩
      · cases name with
        | nil => simp [fat32MatchPattern, isStar] at accepted
        | cons d name =>
            obtain ⟨first, later⟩ := (fat32MatchPattern_char isStar).mp accepted
            exact (matchesGlob_char isStar).mpr ⟨first, ih later⟩

/-- A pattern that does not end in two stars is matched as a glob. -/
theorem fat32MatchPattern_of_matchesGlob (apart : ¬ [star, star] <:+ pattern) (found : MatchesGlob pattern name) :
    fat32MatchPattern pattern name = true := by
  induction pattern generalizing name with
  | nil => simpa [fat32MatchPattern] using matchesGlob_nil.mp found
  | cons c pattern ih =>
      have later := not_suffix_of_cons apart
      by_cases isStar : c = star
      · subst isStar
        by_cases more : pattern = []
        · subst more
          cases name <;> simp [fat32MatchPattern]
        · obtain ⟨rest, suffix, inRest⟩ := matchesGlob_star.mp found
          refine (fat32MatchPattern_star more).mpr ⟨rest, suffix, ?_, ih later inRest⟩
          -- stars alone would be left for an empty rest
          rintro rfl
          rcases eq_singleton_of_stars later (matchesGlob_empty.mp inRest) with rfl | rfl
          · exact more rfl
          · exact apart List.suffix_rfl
      · cases name with
        | nil => exact absurd (matchesGlob_empty.mp found c List.mem_cons_self) isStar
        | cons d name =>
            obtain ⟨first, inRest⟩ := (matchesGlob_char isStar).mp found
            exact (fat32MatchPattern_char isStar).mpr ⟨first, ih later inRest⟩

/-- With two stars at the end the matcher asks for a character behind the rest of the pattern. -/
theorem fat32MatchPattern_append_stars (front : List UInt8) (count : Nat) :
    fat32MatchPattern (front ++ List.replicate (count + 2) star) name = true ↔
      ∃ first second, name = first ++ second ∧ second ≠ [] ∧ MatchesGlob front first := by
  induction front generalizing name with
  | nil =>
      have single : ∀ count name, name ≠ [] → fat32MatchPattern (List.replicate (count + 1) star) name = true := by
        intro count
        induction count with
        | zero =>
            intro name some
            cases name <;> simp [fat32MatchPattern]
        | succ count ih =>
            intro name some
            rw [List.replicate_succ, fat32MatchPattern_star (by simp)]
            exact ⟨name, List.suffix_rfl, some, ih name some⟩
      rw [List.nil_append, List.replicate_succ, fat32MatchPattern_star (by simp)]
      constructor
      · rintro ⟨rest, suffix, some, _⟩
        refine ⟨[], name, rfl, ?_, matchesGlob_nil.mpr rfl⟩
        rintro rfl
        exact some (List.suffix_nil.mp suffix)
      · rintro ⟨first, second, rfl, some, _⟩
        exact ⟨second, List.suffix_append _ _, some, single _ _ some⟩
  | cons c front ih =>
      rw [List.cons_append]
      by_cases isStar : c = star
      · subst isStar
        rw [fat32MatchPattern_star (by simp)]
        constructor
        · rintro ⟨rest, ⟨covered, rfl⟩, _, accepted⟩
          obtain ⟨first, second, rfl, some, inFront⟩ := ih.mp accepted
          refine ⟨covered ++ first, second, by rw [List.append_assoc], some, ?_⟩
          exact matchesGlob_star.mpr ⟨first, List.suffix_append _ _, inFront⟩
        · rintro ⟨first, second, rfl, some, found⟩
          obtain ⟨rest, ⟨covered, rfl⟩, inFront⟩ := matchesGlob_star.mp found
          refine ⟨rest ++ second, ⟨covered, by rw [List.append_assoc]⟩, by simp [some], ?_⟩
          exact ih.mpr ⟨rest, second, rfl, some, inFront⟩
      · cases name with
        | nil =>
            constructor
            · intro accepted
              simp [fat32MatchPattern, isStar] at accepted
            · rintro ⟨first, second, empty, some, _⟩
              exact absurd (List.append_eq_nil_iff.mp empty.symm).2 some
        | cons d name =>
            rw [fat32MatchPattern_char isStar, ih]
            constructor
            · rintro ⟨equal, first, second, rfl, some, inFront⟩
              exact ⟨d :: first, second, rfl, some, (matchesGlob_char isStar).mpr ⟨equal, inFront⟩⟩
            · rintro ⟨first, second, split, some, found⟩
              cases first with
              | nil => exact absurd (matchesGlob_empty.mp found c List.mem_cons_self) isStar
              | cons d' first =>
                  obtain ⟨rfl, rfl⟩ := List.cons.inj split
                  obtain ⟨equal, inFront⟩ := (matchesGlob_char isStar).mp found
                  exact ⟨equal, first, second, rfl, some, inFront⟩

/-- A pattern that ends in two stars, cut in front of the stars at its end. -/
theorem exists_stars_of_suffix (ends : [star, star] <:+ pattern) :
    ∃ count, pattern = pattern.rdropWhile (· = star) ++ List.replicate (count + 2) star := by
  obtain ⟨front, rfl⟩ := ends
  have cut : (front ++ [star, star]).rdropWhile (· = star) = front.rdropWhile (· = star) := by
    rw [show front ++ [star, star] = front ++ [star] ++ [star] by simp, List.rdropWhile_concat_pos _ _ _ (by simp),
      List.rdropWhile_concat_pos _ _ _ (by simp)]
  have stars : front.rtakeWhile (· = star) = List.replicate (front.rtakeWhile (· = star)).length star := by
    apply List.eq_replicate_of_mem
    intro c member
    simpa using List.mem_rtakeWhile_imp member
  refine ⟨(front.rtakeWhile (· = star)).length, ?_⟩
  rw [cut, List.replicate_add, ← stars, ← List.append_assoc, List.rdropWhile_append_rtakeWhile]
  rfl

/-- The matcher decides whether a name matches a pattern as a glob, except when two stars at
the end of the pattern are left with nothing. -/
theorem fat32MatchPattern_iff_matchesGlob (pattern name : List UInt8) :
    (fat32MatchPattern pattern name = true ↔ MatchesGlob pattern name) ↔ ¬ StarsGetNothing pattern name := by
  by_cases ends : [star, star] <:+ pattern
  · obtain ⟨count, split⟩ := exists_stars_of_suffix ends
    generalize stem : pattern.rdropWhile (· = star) = front at split
    have accepted := @fat32MatchPattern_append_stars name front count
    have found : MatchesGlob pattern name ↔ ∃ first second, name = first ++ second ∧ MatchesGlob front first := by
      rw [split, matchesGlob_append]
      refine exists_congr fun first => exists_congr fun second => and_congr_right fun _ => ?_
      have rest : MatchesGlob (List.replicate (count + 2) star) second :=
        matchesGlob_stars (fun c member => (List.mem_replicate.mp member).2) (by simp)
      exact and_iff_left rest
    rw [← split] at accepted
    rw [accepted, found, StarsGetNothing, stem]
    constructor
    · rintro agree ⟨_, whole, shorter⟩
      obtain ⟨first, second, rfl, some, inFront⟩ := agree.mpr ⟨name, [], by simp, whole⟩
      apply shorter first (List.prefix_append _ _) _ inFront
      simpa using some
    · intro left
      constructor
      · rintro ⟨first, second, same, _, inFront⟩
        exact ⟨first, second, same, inFront⟩
      · rintro ⟨first, second, rfl, inFront⟩
        by_contra none
        apply left
        have empty : second = [] := by
          by_contra some
          exact none ⟨first, second, rfl, some, inFront⟩
        subst empty
        rw [List.append_nil] at none ⊢
        refine ⟨ends, inFront, fun shorter ⟨rest, same⟩ different inShorter => ?_⟩
        refine none ⟨shorter, rest, same.symm, ?_, inShorter⟩
        rintro rfl
        exact different (by simpa using same)
  · constructor
    · exact fun _ nothing => ends nothing.1
    · exact fun _ => ⟨matchesGlob_of_fat32MatchPattern, fat32MatchPattern_of_matchesGlob ends⟩

/-- `A**` does not find the file `A`. -/
theorem fat32MatchPattern_misses_last_stars :
    ¬ (fat32MatchPattern [0x41, star, star] [0x41] = true ↔ MatchesGlob [0x41, star, star] [0x41]) := by
  have found : MatchesGlob [0x41, star, star] [0x41] := .literal rfl (.skip (.skip .nil))
  have rejected : fat32MatchPattern [0x41, star, star] [0x41] = false := by decide
  rw [rejected]
  simp [found]

/-- The shortest name of a pattern: a letter for each question mark, nothing for a star. -/
def shortestName (pattern : List UInt8) : List UInt8 :=
  (pattern.filter (· ≠ star)).map fun c => if c = question then 0x41 else c

theorem matchesGlob_shortestName (pattern : List UInt8) : MatchesGlob pattern (shortestName pattern) := by
  induction pattern with
  | nil => exact matchesGlob_nil.mpr rfl
  | cons c pattern ih =>
      by_cases isStar : c = star
      · subst isStar
        exact matchesGlob_star.mpr ⟨_, List.suffix_rfl, ih⟩
      · rw [shortestName, List.filter_cons_of_pos (by simpa using isStar), List.map_cons]
        apply (matchesGlob_char isStar).mpr
        refine ⟨?_, ih⟩
        by_cases wild : c = question
        · exact .inl wild
        · right
          rw [if_neg wild]

theorem length_shortestName_le (found : MatchesGlob pattern name) : (shortestName pattern).length ≤ name.length := by
  induction pattern generalizing name with
  | nil => exact Nat.zero_le _
  | cons c pattern ih =>
      by_cases isStar : c = star
      · subst isStar
        obtain ⟨rest, suffix, inRest⟩ := matchesGlob_star.mp found
        exact (ih inRest).trans suffix.length_le
      · cases name with
        | nil => exact absurd (matchesGlob_empty.mp found c List.mem_cons_self) isStar
        | cons d name =>
            rw [shortestName, List.filter_cons_of_pos (by simpa using isStar), List.map_cons, List.length_cons,
              List.length_cons]
            exact Nat.succ_le_succ (ih ((matchesGlob_char isStar).mp found).2)

/-- A pattern is matched right with every name exactly when it does not end in two stars. -/
theorem fat32MatchPattern_forall_iff (pattern : List UInt8) :
    (∀ name, fat32MatchPattern pattern name = true ↔ MatchesGlob pattern name) ↔ ¬ [star, star] <:+ pattern := by
  constructor
  · intro agree ends
    let stem := pattern.rdropWhile (· = star)
    apply (fat32MatchPattern_iff_matchesGlob pattern (shortestName stem)).mp (agree _)
    refine ⟨ends, matchesGlob_shortestName stem, fun front before different inFront => ?_⟩
    exact different (before.eq_of_length_le (length_shortestName_le inFront))
  · exact fun apart name => ⟨matchesGlob_of_fat32MatchPattern, fat32MatchPattern_of_matchesGlob apart⟩

end KeblaOS.Fat32
