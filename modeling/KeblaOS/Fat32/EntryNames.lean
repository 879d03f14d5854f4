import KeblaOS.Fat32.Directory

/-!
# Names without a long entry

Three pieces of code decide what becomes of such a name: `fat32_needs_lfn` looks at its
length, its letters and its blanks, `fat32_format_83_name` cuts it at its first dot, and
`f_readdir` puts a dot between the two parts again. The first does not look at what the
second leaves out.
-/

namespace KeblaOS.Fat32

/-- The part of a name in front of its first dot. -/
def baseOf (name : List UInt8) : List UInt8 := name.takeWhile (· ≠ dot)

/-- The part behind its first dot. -/
def extensionOf (name : List UInt8) : List UInt8 := (name.dropWhile (· ≠ dot)).drop 1

/-- The name fits a short entry: at most eight characters in front of the first dot, and one to
three behind it if there is one. -/
structure FitsShortName (name : List UInt8) : Prop where
  base : (baseOf name).length ≤ 8
  extension : dot ∈ name → extensionOf name ≠ [] ∧ (extensionOf name).length ≤ 3

/-- The names agree in the first eight characters in front of the first dot and in the first
three behind it. -/
def SameShortForm (name other : List UInt8) : Prop :=
  (baseOf name).take 8 = (baseOf other).take 8 ∧ (extensionOf name).take 3 = (extensionOf other).take 3

section Padding

variable {chars others rest : List UInt8}

/-- The blanks behind a field without blanks can be taken away again. -/
theorem trimmed_blankPadded (width : Nat) (solid : space ∉ chars) : trimmed (blankPadded width chars) = chars := by
  have blanks : ∀ count, trimmed (chars ++ List.replicate count space) = trimmed chars := by
    intro count
    induction count with
    | zero => simp
    | succ count ih =>
        rw [List.replicate_succ', ← List.append_assoc, trimmed, List.rdropWhile_concat_pos _ _ _ (by simp)]
        exact ih
  rw [blankPadded, blanks, trimmed, List.rdropWhile_eq_self_iff]
  intro some last
  apply solid
  rw [← of_decide_eq_true last]
  exact List.getLast_mem some

theorem blankPadded_injective {width : Nat} (solid : space ∉ chars) (solid' : space ∉ others)
    (same : blankPadded width chars = blankPadded width others) : chars = others := by
  rw [← trimmed_blankPadded width solid, same, trimmed_blankPadded width solid']

/-- A field starts with a blank exactly when nothing is stored in it. -/
theorem head?_blankPadded {width : Nat} (positive : 0 < width) (solid : space ∉ chars) :
    (blankPadded width chars).head? = some space ↔ chars = [] := by
  obtain ⟨width, rfl⟩ := Nat.exists_eq_succ_of_ne_zero positive.ne'
  cases chars with
  | nil => simp [blankPadded, List.replicate_succ]
  | cons c chars =>
      have different : c ≠ space := by
        rintro rfl
        exact solid List.mem_cons_self
      simp [blankPadded, different]

end Padding

variable {name other : List UInt8}

/-! ## The two parts of a name -/

/-- A name is its base, and a dot with its extension if it has a dot. -/
theorem eq_base_append (name : List UInt8) :
    name = baseOf name ++ if dot ∈ name then dot :: extensionOf name else [] := by
  induction name with
  | nil => rfl
  | cons c name ih =>
      by_cases isDot : c = dot
      · simp [baseOf, extensionOf, isDot]
      · have more : dot ∈ c :: name ↔ dot ∈ name := by simp [Ne.symm isDot]
        have base : baseOf (c :: name) = c :: baseOf name := by simp [baseOf, isDot]
        have extension : extensionOf (c :: name) = extensionOf name := by simp [extensionOf, isDot]
        rw [base, extension, List.cons_append]
        simp only [more, ← ih]

theorem dot_notMem_baseOf (name : List UInt8) : dot ∉ baseOf name := by
  intro member
  simpa using List.mem_takeWhile_imp member

theorem mem_of_mem_baseOf {c : UInt8} (member : c ∈ baseOf name) : c ∈ name :=
  List.takeWhile_sublist _ |>.subset member

theorem mem_of_mem_extensionOf {c : UInt8} (member : c ∈ extensionOf name) : c ∈ name :=
  (List.dropWhile_sublist _).subset (List.mem_of_mem_drop member)

/-- Without a dot there is no extension. -/
theorem extensionOf_eq_nil (plain : dot ∉ name) : extensionOf name = [] := by
  have whole : name.dropWhile (· ≠ dot) = [] := by
    rw [List.dropWhile_eq_nil_iff]
    intro c member
    apply decide_eq_true
    rintro rfl
    exact plain member
  rw [extensionOf, whole, List.drop_nil]

/-- The two parts behind a first dot determine each other. -/
theorem append_dot_inj {front front' rest rest' : List UInt8} (plain : dot ∉ front) (plain' : dot ∉ front') :
    front ++ dot :: rest = front' ++ dot :: rest' ↔ front = front' ∧ rest = rest' := by
  constructor
  · intro same
    have cut : ∀ {front rest : List UInt8}, dot ∉ front → (front ++ dot :: rest).takeWhile (· ≠ dot) = front := by
      intro front rest plain
      rw [List.takeWhile_append_of_pos, List.takeWhile_cons_of_neg (by simp), List.append_nil]
      intro c member
      apply decide_eq_true
      rintro rfl
      exact plain member
    have fronts : front = front' := by rw [← cut plain, same, cut plain']
    subst fronts
    exact ⟨rfl, by simpa using List.append_cancel_left same⟩
  · rintro ⟨rfl, rfl⟩
    rfl

/-! ## What is stored of a name that needs no long entry -/

/-- Such a name has no blanks, and `toupper` keeps its characters. -/
theorem chars_of_not_needsLfn (short : fat32NeedsLfn name = false) :
    space ∉ name ∧ ∀ c ∈ name, toUpper c = c := by
  rw [fat32NeedsLfn, Bool.or_eq_false_iff, List.any_eq_false] at short
  constructor
  · intro member
    exact short.2 space member (by decide)
  · intro c member
    have plain := short.2 c member
    rw [Bool.or_eq_true, not_or] at plain
    rw [toUpper, if_neg plain.1]

theorem fat32Format83Name_of_not_needsLfn (short : fat32NeedsLfn name = false) :
    fat32Format83Name name =
      blankPadded 8 ((baseOf name).take 8) ++ blankPadded 3 ((extensionOf name).take 3) := by
  obtain ⟨_, kept⟩ := chars_of_not_needsLfn short
  have capital : ∀ chars : List UInt8, (∀ c ∈ chars, c ∈ name) → chars.map toUpper = chars := by
    intro chars inside
    rw [List.map_congr_left fun c member => kept c (inside c member), List.map_id'']
    exact fun _ => rfl
  have base := capital ((baseOf name).take 8) fun c member => mem_of_mem_baseOf (List.mem_of_mem_take member)
  have extension := capital ((extensionOf name).take 3) fun c member =>
    mem_of_mem_extensionOf (List.mem_of_mem_take member)
  unfold baseOf at base ⊢
  unfold extensionOf at extension ⊢
  rw [fat32Format83Name, base, extension]

/-- The name `f_readdir` makes of the short entry. -/
theorem direntName_of_not_needsLfn (string : 0 ∉ name) (short : fat32NeedsLfn name = false) :
    direntName (fat32Format83Name name) = (baseOf name).take 8 ++
      if (extensionOf name).take 3 = [] then [] else dot :: (extensionOf name).take 3 := by
  obtain ⟨solid, _⟩ := chars_of_not_needsLfn short
  generalize baseChars : (baseOf name).take 8 = base
  generalize extensionChars : (extensionOf name).take 3 = extension
  have inBase : ∀ c ∈ base, c ∈ name := by
    intro c member
    rw [← baseChars] at member
    exact mem_of_mem_baseOf (List.mem_of_mem_take member)
  have inExtension : ∀ c ∈ extension, c ∈ name := by
    intro c member
    rw [← extensionChars] at member
    exact mem_of_mem_extensionOf (List.mem_of_mem_take member)
  have width : (blankPadded 8 base).length = 8 := by
    apply length_blankPadded
    rw [← baseChars]
    exact List.length_take_le 8 _
  rw [fat32Format83Name_of_not_needsLfn short, baseChars, extensionChars, direntName]
  rw [List.take_left' width, List.drop_left' width, trimmed_blankPadded 8 fun member => solid (inBase _ member),
    trimmed_blankPadded 3 fun member => solid (inExtension _ member),
    cString_eq_self fun member => string (inBase _ member),
    cString_eq_self fun member => string (inExtension _ member)]
  simp only [head?_blankPadded (show 0 < 3 by decide) fun member => solid (inExtension _ member)]
  split_ifs with empty
  · rw [List.append_nil]
  · rw [List.append_assoc]
    rfl

/-- The name comes back exactly when it fits a short entry. -/
theorem direntName_eq_iff (string : 0 ∉ name) (short : fat32NeedsLfn name = false) :
    direntName (fat32Format83Name name) = name ↔ FitsShortName name := by
  rw [direntName_of_not_needsLfn string short]
  have plain : dot ∉ (baseOf name).take 8 := fun member => dot_notMem_baseOf name (List.mem_of_mem_take member)
  by_cases dotted : dot ∈ name
  · have split := eq_base_append name
    rw [if_pos dotted] at split
    by_cases empty : extensionOf name = []
    · rw [empty, List.take_nil, if_pos rfl, List.append_nil]
      constructor
      · intro same
        rw [same] at plain
        exact absurd dotted plain
      · exact fun fits => absurd empty (fits.extension dotted).1
    · have stored : (extensionOf name).take 3 ≠ [] := by simpa using empty
      rw [if_neg stored]
      constructor
      · intro same
        obtain ⟨base, extension⟩ := (append_dot_inj plain (dot_notMem_baseOf name)).mp (same.trans split)
        exact ⟨List.take_eq_self_iff _ |>.mp base, fun _ => ⟨empty, List.take_eq_self_iff _ |>.mp extension⟩⟩
      · intro fits
        rw [List.take_of_length_le fits.base, List.take_of_length_le (fits.extension dotted).2, ← split]
  · have split := eq_base_append name
    rw [if_neg dotted, List.append_nil] at split
    rw [extensionOf_eq_nil dotted, List.take_nil, if_pos rfl, List.append_nil]
    constructor
    · intro same
      refine ⟨?_, fun member => absurd member dotted⟩
      rw [← split, ← same]
      exact List.length_take_le 8 _
    · intro fits
      rw [List.take_of_length_le fits.base, ← split]

/-- Two names share a short entry exactly when they agree in what it has room for. -/
theorem fat32Format83Name_eq_iff (short : fat32NeedsLfn name = false) (short' : fat32NeedsLfn other = false) :
    fat32Format83Name name = fat32Format83Name other ↔ SameShortForm name other := by
  obtain ⟨solid, _⟩ := chars_of_not_needsLfn short
  obtain ⟨solid', _⟩ := chars_of_not_needsLfn short'
  rw [fat32Format83Name_of_not_needsLfn short, fat32Format83Name_of_not_needsLfn short']
  constructor
  · intro same
    have width : ∀ chars : List UInt8, (blankPadded 8 (chars.take 8)).length = 8 := fun chars =>
      length_blankPadded (List.length_take_le 8 chars)
    obtain ⟨base, extension⟩ := List.append_inj same (by rw [width, width])
    constructor
    · apply blankPadded_injective _ _ base
      · exact fun member => solid (mem_of_mem_baseOf (List.mem_of_mem_take member))
      · exact fun member => solid' (mem_of_mem_baseOf (List.mem_of_mem_take member))
    · apply blankPadded_injective _ _ extension
      · exact fun member => solid (mem_of_mem_extensionOf (List.mem_of_mem_take member))
      · exact fun member => solid' (mem_of_mem_extensionOf (List.mem_of_mem_take member))
  · rintro ⟨base, extension⟩
    rw [base, extension]

/-- Names that fit a short entry are told apart by it. -/
theorem FitsShortName.eq_of_sameShortForm (fits : FitsShortName name) (fits' : FitsShortName other)
    (string : 0 ∉ name) (string' : 0 ∉ other) (short : fat32NeedsLfn name = false)
    (short' : fat32NeedsLfn other = false) (same : SameShortForm name other) : name = other := by
  have stored := (fat32Format83Name_eq_iff short short').mpr same
  rw [← (direntName_eq_iff string short).mpr fits, stored, (direntName_eq_iff string' short').mpr fits']

/-- A name that gets no long entry comes back exactly when it fits a short one, and two such
names share a short entry exactly when they agree in what it has room for. Names that fit are
never confused. -/
theorem shortEntry_roundTrip_iff (name other : List UInt8) (string : 0 ∉ name) (string' : 0 ∉ other)
    (short : fat32NeedsLfn name = false) (short' : fat32NeedsLfn other = false) :
    (direntName (fat32Format83Name name) = name ↔ FitsShortName name) ∧
      (fat32Format83Name name = fat32Format83Name other ↔ SameShortForm name other) ∧
      (FitsShortName name → FitsShortName other → fat32Format83Name name = fat32Format83Name other → name = other) :=
  ⟨direntName_eq_iff string short, fat32Format83Name_eq_iff short short', fun fits fits' same =>
    fits.eq_of_sameShortForm fits' string string' short short' ((fat32Format83Name_eq_iff short short').mp same)⟩

/-- `A.B` and `A`. -/
theorem shortEntry_roundTrip_two :
    direntName (fat32Format83Name [0x41, dot, 0x42]) = [0x41, dot, 0x42] ∧
      fat32Format83Name [0x41, dot, 0x42] ≠ fat32Format83Name [0x41] := by
  have both := shortEntry_roundTrip_iff [0x41, dot, 0x42] [0x41] (by decide) (by decide) (by decide) (by decide)
  have fits : FitsShortName [0x41, dot, 0x42] := ⟨by decide, fun _ => by decide⟩
  refine ⟨both.1.mpr fits, fun same => ?_⟩
  have agree := both.2.1.mp same
  exact absurd agree.2 (by decide)

/-- `ABCDEFGHI` and `ABCDEFGHJ` need no long entry, get one short entry, and come back as
`ABCDEFGH`. -/
theorem shortEntry_not_unique :
    let name : List UInt8 := [0x41, 0x42, 0x43, 0x44, 0x45, 0x46, 0x47, 0x48, 0x49]
    let other : List UInt8 := [0x41, 0x42, 0x43, 0x44, 0x45, 0x46, 0x47, 0x48, 0x4A]
    fat32NeedsLfn name = false ∧ fat32NeedsLfn other = false ∧ name ≠ other ∧
      direntName (fat32Format83Name name) ≠ name ∧ fat32Format83Name name = fat32Format83Name other := by
  decide

end KeblaOS.Fat32
