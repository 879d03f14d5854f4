import KeblaOS.Fat32.Directory

/-!
# The two ways to change the directory

`f_cwd` and `f_chdir` walk a path with the same lookups but treat two things differently.
`f_cwd` passes over a `..` that is not found, where `f_chdir` fails, and `f_chdir` refuses
to end at cluster 0. This module says exactly on which paths the two agree.
-/

namespace KeblaOS.Fat32

/-- The same answer, the same current directory, and no change with the answer `false`.
Calls that do not return have no answer. -/
structure ChangesAgree (vol : Volume) (path : List UInt8) : Prop where
  answer : (fCwd vol path).map Prod.fst = (fChdir vol path).map Prod.fst
  cwdCluster : (fCwd vol path).map (·.2.cwdCluster) = (fChdir vol path).map (·.2.cwdCluster)
  cwdFails : ∀ after, fCwd vol path = some (false, after) → after.cwdCluster = vol.cwdCluster
  chdirFails : ∀ after, fChdir vol path = some (false, after) → after.cwdCluster = vol.cwdCluster

/-- On the way from `cluster` along the tokens some component other than `..` is missing. A
missing `..` is passed over. -/
def ComponentMissing (vol : Volume) : Nat → List (List UInt8) → Prop
  | _, [] => False
  | cluster, token :: rest =>
      if token = [dot] then ComponentMissing vol cluster rest
      else
        match fat32FindDir vol cluster token with
        | none => False
        | some (some next) => ComponentMissing vol next rest
        | some none => if token = [dot, dot] then ComponentMissing vol cluster rest else True

/-- Every `..` on the way is found unless another component is missing, and the way does
not end at cluster 0. A lookup in an endless directory keeps both calls from returning. -/
def ParentsFound (vol : Volume) : Nat → List (List UInt8) → Prop
  | cluster, [] => cluster ≠ 0
  | cluster, token :: rest =>
      if token = [dot] then ParentsFound vol cluster rest
      else
        match fat32FindDir vol cluster token with
        | none => True
        | some (some next) => ParentsFound vol next rest
        | some none => if token = [dot, dot] then ComponentMissing vol cluster rest else True

section Walks

variable {vol : Volume}

theorem componentMissing_iff (cluster : Nat) (tokens : List (List UInt8)) :
    ComponentMissing vol cluster tokens ↔ cwdLoop vol cluster tokens = some none := by
  induction tokens generalizing cluster with
  | nil => simp [ComponentMissing, cwdLoop]
  | cons token rest ih =>
      rw [ComponentMissing, cwdLoop]
      by_cases here : token = [dot]
      · rw [if_pos here, if_pos here]
        exact ih cluster
      · rw [if_neg here, if_neg here]
        by_cases up : token = [dot, dot]
        · rw [if_pos up, up]
          cases fat32FindDir vol cluster [dot, dot] with
          | none => simp
          | some result =>
              cases result with
              | none => exact ih cluster
              | some next => exact ih next
        · simp only [if_neg up]
          cases fat32FindDir vol cluster token with
          | none => simp
          | some result =>
              cases result with
              | none => simp
              | some next => exact ih next

/-- What `f_cwd` makes of the end of its walk. -/
def cwdOutcome (vol : Volume) : Option Nat → Bool × Volume
  | none => (false, vol)
  | some cluster => (true, { vol with cwdCluster := cluster })

/-- What `f_chdir` makes of the end of its walk. -/
def chdirOutcome (vol : Volume) : Option Nat → Bool × Volume
  | none => (false, vol)
  | some cluster => if cluster = 0 then (false, vol) else (true, { vol with cwdCluster := cluster })

/-- After a missing `..` the walk of `f_cwd` must come to nothing. -/
theorem cwdOutcome_eq_none_iff (ends : Option (Option Nat)) :
    ends.map (cwdOutcome vol) = some (false, vol) ↔ ends = some none := by
  cases ends with
  | none => simp
  | some result => cases result <;> simp [cwdOutcome]

/-- The two walks from a cluster along the same tokens have the same outcome exactly when
all parents are found. -/
theorem parentsFound_iff (cluster : Nat) (tokens : List (List UInt8)) :
    ParentsFound vol cluster tokens ↔
      (cwdLoop vol cluster tokens).map (cwdOutcome vol) =
        (pathLoop vol cluster tokens).map (chdirOutcome vol) := by
  induction tokens generalizing cluster with
  | nil =>
      by_cases zero : cluster = 0
      · simp [ParentsFound, cwdLoop, pathLoop, cwdOutcome, chdirOutcome, zero]
      · simp [ParentsFound, cwdLoop, pathLoop, cwdOutcome, chdirOutcome, zero]
  | cons token rest ih =>
      rw [ParentsFound, cwdLoop, pathLoop, pathStep]
      by_cases here : token = [dot]
      · rw [if_pos here, if_pos here, if_pos here]
        exact ih cluster
      · rw [if_neg here, if_neg here, if_neg here]
        by_cases up : token = [dot, dot]
        · rw [if_pos up, if_pos up, up]
          cases fat32FindDir vol cluster [dot, dot] with
          | none => simp
          | some result =>
              cases result with
              | none =>
                  -- `f_chdir` gives up here, `f_cwd` goes on from the same cluster
                  simp only [if_true, Option.map_some, chdirOutcome, cwdOutcome_eq_none_iff]
                  exact componentMissing_iff cluster rest
              | some next => exact ih next
        · simp only [if_neg up]
          cases fat32FindDir vol cluster token with
          | none => simp
          | some result =>
              cases result with
              | none => simp [cwdOutcome, chdirOutcome]
              | some next => exact ih next

end Walks

section Calls

variable {vol : Volume} {path : List UInt8}

theorem fChdir_eq : fChdir vol path =
    (pathLoop vol (pathStart vol path) (pathTokens path)).map (chdirOutcome vol) := by
  unfold fChdir fat32PathToCluster
  congr 1

theorem fCwd_eq (nonempty : path ≠ []) (short : path.length < 256) :
    fCwd vol path = (cwdLoop vol (pathStart vol path) (pathTokens path)).map (cwdOutcome vol) := by
  unfold fCwd
  rw [if_neg nonempty]
  by_cases root : path = [slash]
  · subst root
    rfl
  · rw [if_neg root, if_neg (by simp only [pathBufferSize]; omega)]
    congr 1

/-- An outcome is given by its answer and its current directory. -/
theorem cwdOutcome_snd (result : Option Nat) :
    (cwdOutcome vol result).2 = { vol with cwdCluster := (cwdOutcome vol result).2.cwdCluster } := by
  cases result <;> rfl

theorem chdirOutcome_snd (result : Option Nat) :
    (chdirOutcome vol result).2 = { vol with cwdCluster := (chdirOutcome vol result).2.cwdCluster } := by
  cases result with
  | none => rfl
  | some cluster =>
      rw [chdirOutcome]
      split_ifs <;> rfl

/-- With the answer `false` neither call has changed the volume. -/
theorem cwdOutcome_false {result : Option Nat} {after : Volume}
    (failed : cwdOutcome vol result = (false, after)) : after = vol := by
  cases result with
  | none => exact (Prod.mk.inj failed).2.symm
  | some cluster => simp [cwdOutcome] at failed

theorem chdirOutcome_false {result : Option Nat} {after : Volume}
    (failed : chdirOutcome vol result = (false, after)) : after = vol := by
  cases result with
  | none => exact (Prod.mk.inj failed).2.symm
  | some cluster =>
      rw [chdirOutcome] at failed
      split_ifs at failed
      · exact (Prod.mk.inj failed).2.symm
      · simp at failed

/-- Neither call changes anything but the current directory, so agreement is equality of
the outcomes. -/
theorem changesAgree_iff_eq (nonempty : path ≠ []) (short : path.length < 256) :
    ChangesAgree vol path ↔ fCwd vol path = fChdir vol path := by
  have cwd := @fCwd_eq vol path nonempty short
  have chdir := @fChdir_eq vol path
  generalize cwdLoop vol (pathStart vol path) (pathTokens path) = ends at cwd
  generalize pathLoop vol (pathStart vol path) (pathTokens path) = ends' at chdir
  constructor
  · rintro ⟨answer, cluster, -, -⟩
    rw [cwd, chdir] at answer cluster ⊢
    cases ends with
    | none => cases ends' <;> simp at answer ⊢
    | some result =>
        cases ends' with
        | none => simp at answer
        | some result' =>
            have sameAnswer := Option.some.inj answer
            have sameCluster := Option.some.inj cluster
            dsimp only at sameAnswer sameCluster
            rw [Option.map_some, Option.map_some]
            congr 1
            refine Prod.ext sameAnswer ?_
            rw [cwdOutcome_snd, chdirOutcome_snd, sameCluster]
  · intro same
    refine ⟨by rw [same], by rw [same], fun after failed => ?_, fun after failed => ?_⟩
    · rw [cwd] at failed
      obtain ⟨result, _, outcome⟩ := Option.map_eq_some_iff.mp failed
      rw [cwdOutcome_false outcome]
    · rw [chdir] at failed
      obtain ⟨result, _, outcome⟩ := Option.map_eq_some_iff.mp failed
      rw [chdirOutcome_false outcome]

end Calls

/-- On which paths the two calls agree. -/
theorem changesAgree_iff (vol : Volume) (path : List UInt8) (nonempty : path ≠ [])
    (short : path.length < 256) :
    ChangesAgree vol path ↔ ParentsFound vol (pathStart vol path) (pathTokens path) := by
  rw [changesAgree_iff_eq nonempty short, parentsFound_iff, fCwd_eq nonempty short, fChdir_eq]

/-- A blank volume with one directory, `/D`. -/
def oneDirectoryVolume : Volume :=
  let vol := (fat32SetNextCluster blankVolume 2 clusterEndOfChain).2
  ((fMkdir vol [slash, 0x44]).getD (false, vol)).2

/-- The way along `/D/../X` finds `D` and passes over the `..`; then `X` is missing, and both calls fail. -/
theorem changesAgree_missing :
    let path := [slash, 0x44, slash, dot, dot, slash, 0x58]
    ChangesAgree oneDirectoryVolume path ∧ (fChdir oneDirectoryVolume path).map Prod.fst = some false ∧
      (fChdir oneDirectoryVolume [slash, 0x44]).map (·.2.cwdCluster) = some 3 := by
  intro path
  have tokens : pathTokens path = [[0x44], [dot, dot], [0x58]] := by decide +kernel
  have start : pathStart oneDirectoryVolume path = 2 := by decide +kernel
  have directory : fat32FindDir oneDirectoryVolume 2 [0x44] = some (some 3) := by decide +kernel
  have parent : fat32FindDir oneDirectoryVolume 3 [dot, dot] = some none := by decide +kernel
  have missing : fat32FindDir oneDirectoryVolume 3 [0x58] = some none := by decide +kernel
  have lost : ComponentMissing oneDirectoryVolume 3 [[0x58]] := by
    rw [ComponentMissing, if_neg (by decide), missing]
    show if ([0x58] : List UInt8) = [dot, dot] then _ else True
    rw [if_neg (by decide)]
    trivial
  have found : ParentsFound oneDirectoryVolume 2 [[0x44], [dot, dot], [0x58]] := by
    rw [ParentsFound, if_neg (by decide), directory]
    show ParentsFound oneDirectoryVolume 3 [[dot, dot], [0x58]]
    rw [ParentsFound, if_neg (by decide), parent]
    show if [dot, dot] = [dot, dot] then ComponentMissing oneDirectoryVolume 3 [[0x58]] else True
    rw [if_pos rfl]
    exact lost
  have agree := (changesAgree_iff oneDirectoryVolume path (by decide) (by decide)).mpr (by rwa [tokens, start])
  exact ⟨agree, by decide +kernel, by decide +kernel⟩

/-- In the root of an empty volume `f_cwd("..")` succeeds and stays there, `f_chdir("..")`
fails. -/
theorem changes_disagree_on_parent :
    ([dot, dot] : List UInt8) ≠ [] ∧ ([dot, dot] : List UInt8).length < 256 ∧
      ¬ ChangesAgree blankVolume [dot, dot] := by
  refine ⟨by decide, by decide, fun agree => ?_⟩
  have cwd : (fCwd blankVolume [dot, dot]).map Prod.fst = some true := by decide +kernel
  have chdir : (fChdir blankVolume [dot, dot]).map Prod.fst = some false := by decide +kernel
  have answers := agree.answer
  rw [cwd, chdir] at answers
  exact absurd answers (by decide)

end KeblaOS.Fat32
