import KeblaOS.Fat32.ShortNames
import KeblaOS.Strings.Tokens

/-!
# Paths with `..`

`fat32_init_directory` stores two dots and blanks as the name of the parent entry, while
`fat32_path_to_cluster` looks for the 8.3 form of `..`, in which the second dot stands in the
extension. So no `..` is ever resolved in a tree of directories with valid names, and a path
resolves like its lexically normalised form only if it has none.
-/

namespace KeblaOS.Fat32

open KeblaOS.Buffer

/-- A name of up to eight characters, then possibly a dot and up to three more, without
blanks and slashes. -/
def ValidShortName (name : List UInt8) : Prop :=
  let base := name.takeWhile (· ≠ dot)
  let extension := (name.dropWhile (· ≠ dot)).drop 1
  (0 < base.length ∧ base.length ≤ 8) ∧ (extension.length ≤ 3 ∧ dot ∉ extension) ∧
    ∀ c ∈ name, c ≠ slash ∧ c ≠ space ∧ c ≠ 0

instance (name : List UInt8) : Decidable (ValidShortName name) := inferInstanceAs (Decidable (_ ∧ _))

/-- A successful `f_mkdir` with a valid 8.3 name. -/
def MkdirStep (vol : Volume) (path : List UInt8) (after : Volume) : Prop :=
  0 ∉ path ∧ ValidShortName (lastComponent path) ∧ fMkdir vol path = some (true, after)

/-- One component of a path in its lexical normalisation. -/
def normaliseStep (stack : List (List UInt8)) (token : List UInt8) : List (List UInt8) :=
  if token = [dot] then stack else if token = [dot, dot] then stack.dropLast else stack ++ [token]

/-- The components without `.`, and without `..` and what it goes back from. -/
def normalTokens (tokens : List (List UInt8)) : List (List UInt8) := tokens.foldl normaliseStep []

/-- The lexically normalised form of an absolute path. -/
def normalisedPath (path : List UInt8) : List UInt8 :=
  slash :: [slash].intercalate (normalTokens (pathTokens path))

/-! ## Tokens -/

section Tokens

variable {path : List UInt8} {token : List UInt8} {tokens : List (List UInt8)}

theorem slash_notMem_splitOn (member : token ∈ path.splitOn slash) : slash ∉ token := by
  induction path generalizing token with
  | nil =>
      rw [List.splitOn_nil, List.mem_singleton] at member
      rw [member]
      exact List.not_mem_nil
  | cons c rest ih =>
      rw [List.splitOn_cons_eq_if_modifyHead] at member
      split_ifs at member with separator
      · rcases List.mem_cons.mp member with rfl | later
        · exact List.not_mem_nil
        · exact ih later
      · obtain ⟨first, others, split⟩ := List.exists_cons_of_ne_nil (List.splitOn_ne_nil slash rest)
        rw [split, List.modifyHead_cons, List.mem_cons] at member
        rw [split] at ih
        rcases member with rfl | later
        · rw [List.mem_cons, not_or]
          refine ⟨fun same => separator (by simp [← same]), ih List.mem_cons_self⟩
        · exact ih (List.mem_cons_of_mem _ later)

/-- The tokens of a path are what `strtok` takes it apart into. -/
theorem pathTokens_eq_tokenRuns (path : List UInt8) :
    pathTokens path = (Strings.tokenRuns path [slash]).map fun run => path.extract run.1 run.2 := by
  have agrees : ∀ i c, path[i]? = some c → (Strings.IsDelimiter path [slash] i ↔ (c == slash) = true) := by
    intro i c there
    rw [beq_iff_eq]
    constructor
    · rintro ⟨d, member, same⟩
      rw [← List.mem_singleton.mp member]
      exact Option.some.inj (there.symm.trans same)
    · rintro rfl
      exact ⟨slash, List.mem_singleton_self slash, there⟩
  have texts := @map_extract_runsFrom UInt8 (Strings.IsDelimiter path [slash]) _ (· == slash) path _ agrees [] [] path rfl
  have same : (path.splitOnP (· == slash)).modifyHead ([] ++ ·) = path.splitOn slash := congrFun List.modifyHead_id _
  rw [same] at texts
  exact texts.symm

theorem pathTokens_append_dots (path : List UInt8) :
    pathTokens (path ++ [slash, dot, dot]) = pathTokens path ++ [[dot, dot]] := by
  have last : [dot, dot].splitOn slash = [[dot, dot]] := by decide
  rw [pathTokens, List.splitOn_append_cons_self, List.filter_append, last]
  rfl

theorem mem_normalTokens (member : token ∈ normalTokens tokens) : token ∈ tokens := by
  have step : ∀ (rest stack : List (List UInt8)) (other : List UInt8),
      other ∈ rest.foldl normaliseStep stack → other ∈ stack ∨ other ∈ rest := by
    intro rest
    induction rest with
    | nil => exact fun stack other inside => .inl inside
    | cons head tail ih =>
        intro stack other inside
        rcases ih _ other inside with early | late
        · unfold normaliseStep at early
          split_ifs at early
          · exact .inl early
          · exact .inl (List.mem_of_mem_dropLast early)
          · rcases List.mem_append.mp early with old | new
            · exact .inl old
            · rw [List.mem_singleton.mp new]
              exact .inr List.mem_cons_self
        · exact .inr (List.mem_cons_of_mem _ late)
  exact (step tokens [] token member).resolve_left List.not_mem_nil

/-- The normalised path has the normalised tokens. -/
theorem pathTokens_normalisedPath (path : List UInt8) :
    pathTokens (normalisedPath path) = normalTokens (pathTokens path) := by
  have nonempty : ∀ token ∈ normalTokens (pathTokens path), token ≠ [] ∧ slash ∉ token := by
    intro token member
    obtain ⟨split, filled⟩ := List.mem_filter.mp (mem_normalTokens member)
    exact ⟨by simpa using filled, slash_notMem_splitOn split⟩
  have front : (normalisedPath path).splitOn slash =
      [] :: ([slash].intercalate (normalTokens (pathTokens path))).splitOn slash :=
    List.splitOn_append_cons_self [] _
  rw [pathTokens, front]
  generalize normalTokens (pathTokens path) = tokens at nonempty
  by_cases none : tokens = []
  · subst none
    decide
  · rw [List.splitOn_intercalate slash (fun token member => (nonempty token member).2) none,
      List.filter_cons_of_neg (by simp), List.filter_eq_self]
    exact fun token member => by simpa using (nonempty token member).1

/-- Without `..` only the dots go. -/
theorem normalTokens_eq_filter (plain : [dot, dot] ∉ tokens) : normalTokens tokens = tokens.filter (· ≠ [dot]) := by
  have step : ∀ (rest stack : List (List UInt8)), [dot, dot] ∉ rest →
      rest.foldl normaliseStep stack = stack ++ rest.filter (· ≠ [dot]) := by
    intro rest
    induction rest with
    | nil => exact fun stack _ => by simp
    | cons head tail ih =>
        intro stack absent
        rw [List.mem_cons, not_or] at absent
        rw [List.foldl_cons, ih _ absent.2, normaliseStep]
        by_cases here : head = [dot]
        · rw [if_pos here, List.filter_cons_of_neg (by simp [here])]
        · rw [if_neg here, if_neg (Ne.symm absent.1), List.filter_cons_of_pos (by simp [here]), List.append_assoc]
          rfl
  rw [normalTokens, step tokens [] plain, List.nil_append]

/-- A component `.` stays where it is. -/
theorem pathLoop_filter_dot (vol : Volume) (cluster : Nat) (tokens : List (List UInt8)) :
    pathLoop vol cluster (tokens.filter (· ≠ [dot])) = pathLoop vol cluster tokens := by
  induction tokens generalizing cluster with
  | nil => rfl
  | cons head tail ih =>
      by_cases here : head = [dot]
      · rw [List.filter_cons_of_neg (by simp [here]), ih, pathLoop, pathStep, if_pos here]
      · rw [List.filter_cons_of_pos (by simp [here]), pathLoop, pathLoop]
        cases pathStep vol cluster head with
        | none => rfl
        | some answer =>
            cases answer with
            | none => rfl
            | some next => exact ih next

end Tokens

/-! ## Trees of validly named directories -/

/-- No directory of the graph is listed under a name that starts with a blank. -/
def NamedTree (vol : Volume) : Prop :=
  ∃ dirs, Consistent vol dirs ∧ ∀ dir ∈ dirs, ∀ place slot, EntryAt vol dir place slot → slot.ListsDirectory →
    slot.firstByte ≠ space

section Resolution

variable {vol after : Volume} {dirs : Set Nat} {dir : Nat} {name path : List UInt8} {tokens : List (List UInt8)}

theorem ValidShortName.firstByte (valid : ValidShortName name) : (fat32Format83Name name).getD 0 0 ≠ space := by
  obtain ⟨⟨positive, _⟩, _, characters⟩ := valid
  cases front : name.takeWhile (· ≠ dot) with
  | nil =>
      rw [front] at positive
      exact absurd positive (by decide)
  | cons c rest =>
      have member : c ∈ name.takeWhile (· ≠ dot) := by
        rw [front]
        exact List.mem_cons_self
      have first : (fat32Format83Name name).getD 0 0 = toUpper c := by
        unfold fat32Format83Name
        dsimp only
        rw [front]
        simp [blankPadded]
      rw [first]
      exact toUpper_ne (characters c (List.takeWhile_sublist _ |>.subset member)).2.1 (by decide)

theorem NamedTree.mkdir (named : NamedTree vol) (taken : MkdirStep vol path after) : NamedTree after := by
  obtain ⟨dirs, consistent, names⟩ := named
  obtain ⟨string, valid, returned⟩ := taken
  rcases consistent.fMkdir_cases string returned with ⟨failed, _⟩ | ⟨_, parent, new, place, made⟩
  · simp at failed
  · obtain ⟨middle, founded, entered⟩ := made.effect
    refine ⟨_, made.consistent consistent, fun dir member other slot entry lists => ?_⟩
    rcases (entered.entries dir member other slot).mp entry with old | ⟨_, _, rfl, _⟩
    · rcases founded.entryAt_cases member old with ⟨member', entry'⟩ | ⟨_, _, dots⟩
      · exact names dir member' other slot entry' lists
      · exact absurd dots lists.2
    · rw [newEntry_firstByte]
      exact valid.firstByte

theorem EmptyRoot.namedTree (empty : EmptyRoot vol) : NamedTree vol := by
  refine ⟨_, empty.consistent, ?_⟩
  rintro dir rfl place slot entry lists
  exact absurd lists.1 (empty.plain entry)

/-- In such a tree `..` is found nowhere. -/
theorem findDir_dots (consistent : Consistent vol dirs) (member : dir ∈ dirs)
    (names : ∀ dir ∈ dirs, ∀ place slot, EntryAt vol dir place slot → slot.ListsDirectory → slot.firstByte ≠ space) :
    fat32FindDir vol dir [dot, dot] = some none := by
  obtain ⟨answer, returned⟩ := @Chained.findDir_isSome vol dirs dir [dot, dot] consistent.toChained member
  cases answer with
  | none => exact returned
  | some result =>
      obtain ⟨place, slot, entry, lists, name, _⟩ := consistent.toDirectories.findDir_found member returned
      refine absurd ?_ (names dir member place slot entry lists)
      have byte : slot.firstByte = slot.name.getD 0 0 := by
        rw [Slot.firstByte, Slot.name]
        simp
      rw [byte, name]
      decide

/-- A path with `..` does not resolve. -/
theorem pathLoop_dots (consistent : Consistent vol dirs) (member : dir ∈ dirs)
    (names : ∀ dir ∈ dirs, ∀ place slot, EntryAt vol dir place slot → slot.ListsDirectory → slot.firstByte ≠ space)
    (dots : [dot, dot] ∈ tokens) : pathLoop vol dir tokens = some none := by
  induction tokens generalizing dir with
  | nil => exact absurd dots List.not_mem_nil
  | cons token rest ih =>
      rw [pathLoop]
      by_cases here : token = [dot, dot]
      · rw [here, pathStep, if_neg (by decide), if_pos rfl, findDir_dots consistent member names]
      · obtain ⟨answer, stepped⟩ := @pathStep_isSome vol dirs dir token consistent.toChained member
        rw [stepped]
        cases answer with
        | none => rfl
        | some next =>
            exact ih (consistent.walkable.pathStep_mem member stepped)
              ((List.mem_cons.mp dots).resolve_left fun same => here same.symm)

theorem NamedTree.resolve_dots (named : NamedTree vol) (dots : [dot, dot] ∈ pathTokens path) :
    fat32PathToCluster vol path = some none := by
  obtain ⟨dirs, consistent, names⟩ := named
  exact pathLoop_dots consistent (consistent.walkable.pathStart_mem path) names dots

/-- Without `..` an absolute path resolves like its normalised form. -/
theorem resolve_normalised (absolute : path.head? = some slash) (plain : [dot, dot] ∉ pathTokens path) :
    fat32PathToCluster vol path = fat32PathToCluster vol (normalisedPath path) := by
  have start : pathStart vol (normalisedPath path) = pathStart vol path := by
    rw [pathStart, pathStart, absolute]
    rfl
  rw [fat32PathToCluster, fat32PathToCluster, start, pathTokens_normalisedPath, normalTokens_eq_filter plain,
    pathLoop_filter_dot]

end Resolution

/-- In every tree made by `f_mkdir` with valid 8.3 names: `P/..` resolves for no absolute path
`P`, and a path resolves like its normalised form exactly if it has no `..`, or if the
normalised form does not resolve either. -/
theorem mkdir_run_parent_paths {start vol : Volume} {trace : List (List UInt8)} (empty : EmptyRoot start)
    (run : Run MkdirStep start trace vol) (path : List UInt8) (absolute : path.head? = some slash) :
    fat32PathToCluster vol (path ++ [slash, dot, dot]) = some none ∧
      (fat32PathToCluster vol path = fat32PathToCluster vol (normalisedPath path) ↔
        [dot, dot] ∉ pathTokens path ∨ fat32PathToCluster vol (normalisedPath path) = some none) := by
  have named : NamedTree vol := run.invariant NamedTree empty.namedTree fun named taken => named.mkdir taken
  refine ⟨named.resolve_dots (by rw [pathTokens_append_dots]; simp), ?_⟩
  by_cases dots : [dot, dot] ∈ pathTokens path
  · rw [named.resolve_dots dots]
    constructor
    · exact fun same => .inr same.symm
    · exact fun same => (same.resolve_left fun plain => plain dots).symm
  · exact ⟨fun _ => .inl dots, fun _ => resolve_normalised absolute dots⟩

/-- The path `/A/.` after `f_mkdir("/A")`. -/
theorem mkdir_run_parent_paths_one :
    ∃ vol, Run MkdirStep emptyVolume [[slash, 0x41]] vol ∧
      fat32PathToCluster vol [slash, 0x41, slash, dot] =
        fat32PathToCluster vol (normalisedPath [slash, 0x41, slash, dot]) := by
  let vol := ((fMkdir emptyVolume [slash, 0x41]).getD (false, emptyVolume)).2
  have made : fMkdir emptyVolume [slash, 0x41] = some (true, vol) :=
    eq_some_of_map_fst (false, emptyVolume) (by decide +kernel)
  have run : Run MkdirStep emptyVolume [[slash, 0x41]] vol := Run.snoc .nil ⟨by decide, by decide +kernel, made⟩
  exact ⟨vol, run, ((mkdir_run_parent_paths emptyVolume_emptyRoot run [slash, 0x41, slash, dot] rfl).2).mpr
    (.inl (by decide))⟩

/-- After `f_mkdir("/A")` the root lists the new directory, `/A` resolves to it, but `/A/..`
does not resolve to the root. -/
theorem parent_path_not_resolved :
    EmptyRoot emptyVolume ∧ ∃ vol, Run MkdirStep emptyVolume [[slash, 0x41]] vol ∧
      fat32PathToCluster vol [slash, 0x41] = some (some 3) ∧
      (∃ slot, EntryAt vol (getRootDirCluster vol.bpb) (2, 0) slot ∧ slot.ListsDirectory ∧ slot.firstCluster = 3) ∧
      fat32PathToCluster vol [slash, 0x41, slash, dot, dot] ≠ some (some (getRootDirCluster vol.bpb)) ∧
      fat32PathToCluster vol [slash, 0x41, slash, dot, dot] ≠
        fat32PathToCluster vol (normalisedPath [slash, 0x41, slash, dot, dot]) := by
  let vol := ((fMkdir emptyVolume [slash, 0x41]).getD (false, emptyVolume)).2
  have made : fMkdir emptyVolume [slash, 0x41] = some (true, vol) :=
    eq_some_of_map_fst (false, emptyVolume) (by decide +kernel)
  have run : Run MkdirStep emptyVolume [[slash, 0x41]] vol := Run.snoc .nil ⟨by decide, by decide +kernel, made⟩
  have root : getRootDirCluster vol.bpb = 2 := by decide +kernel
  have chain : ClusterChain vol 2 [2] := by
    refine ⟨.last (by decide +kernel), fun cell member => ?_⟩
    rw [List.mem_singleton.mp member]
    decide +kernel
  refine ⟨emptyVolume_emptyRoot, vol, run, by decide +kernel, ?_, by decide +kernel, by decide +kernel⟩
  rw [root]
  exact ⟨newEntry [0x41] attrDirectory 3 0, ⟨⟨[2], chain, List.mem_singleton.mpr rfl⟩, by decide +kernel,
    by decide +kernel⟩, ⟨by decide +kernel, by decide +kernel⟩, by decide +kernel⟩

end KeblaOS.Fat32
