import Mathlib.Data.Fintype.Card
import Mathlib.Logic.Relation

/-!
# Loops over records

A loop whose rounds may end it, go on at another state or touch something outside of an array.
`Completes` says that it ends, and without a round of the last kind. `Rounds` describes a round by
the data: where it goes on, from which states and when it is safe. A loop completes exactly when
it is safe in all states that it meets and comes back to none of them.
-/

namespace KeblaOS

variable {State Result : Type*}

/-- What a round of a loop does. -/
inductive Round (State Result : Type*) where
  | ends (result : Result)
  | goes (next : State)
  | fault
deriving DecidableEq

/-- The loop with a bound on its rounds: `none` if they do not suffice, `some none` for a fault. -/
def rounds (round : State → Round State Result) : Nat → State → Option (Option Result)
  | 0, _ => none
  | fuel + 1, state =>
      match round state with
      | .ends result => some (some result)
      | .goes next => rounds round fuel next
      | .fault => some none

/-- The loop ends with a result. -/
def EndsWith (round : State → Round State Result) (state : State) (result : Result) : Prop :=
  ∃ fuel, rounds round fuel state = some (some result)

/-- The loop ends, and no round touches anything outside. -/
def Completes (round : State → Round State Result) (state : State) : Prop := ∃ result, EndsWith round state result

/-- A loop goes on from a state that it passes to the next one. -/
def Follows (passed : State → Prop) (next : State → State) (state after : State) : Prop :=
  passed state ∧ after = next state

/-- The states a loop meets. -/
abbrev Meets (passed : State → Prop) (next : State → State) : State → State → Prop :=
  Relation.ReflTransGen (Follows passed next)

/-- A loop comes back to a state. -/
def Returns (passed : State → Prop) (next : State → State) (state : State) : Prop :=
  Relation.TransGen (Follows passed next) state state

/-- What the rounds of a loop do: in a safe state that is passed it goes on, in one that is not
passed it ends. -/
structure Rounds (round : State → Round State Result) (passed safe : State → Prop) (next : State → State) : Prop where
  goes : ∀ state, safe state → passed state → round state = .goes (next state)
  ends : ∀ state, safe state → ¬ passed state → ∃ result, round state = .ends result
  fault : ∀ state, ¬ safe state → round state = .fault

section Loops

variable {round : State → Round State Result} {state next : State} {result : Result} {fuel : Nat}

theorem rounds_ends (ends : round state = .ends result) : rounds round (fuel + 1) state = some (some result) := by
  rw [rounds, ends]

theorem rounds_goes (goes : round state = .goes next) : rounds round (fuel + 1) state = rounds round fuel next := by
  rw [rounds, goes]

theorem rounds_fault (fault : round state = .fault) : rounds round (fuel + 1) state = some none := by
  rw [rounds, fault]

/-- More rounds do not change what the loop has come to. -/
theorem rounds_mono {outcome : Option Result} {more : Nat} (ended : rounds round fuel state = some outcome)
    (enough : fuel ≤ more) : rounds round more state = some outcome := by
  induction fuel generalizing state more with
  | zero => simp [rounds] at ended
  | succ fuel ih =>
      obtain ⟨more, rfl⟩ := Nat.exists_eq_succ_of_ne_zero (Nat.ne_of_gt (Nat.zero_lt_of_lt enough))
      cases taken : round state with
      | ends result => rwa [rounds_ends taken] at ended ⊢
      | goes next =>
          rw [rounds_goes taken] at ended ⊢
          exact ih ended (Nat.le_of_succ_le_succ enough)
      | fault => rwa [rounds_fault taken] at ended ⊢

/-- A loop comes to one result. -/
theorem EndsWith.unique {other : Result} (ended : EndsWith round state result) (ended' : EndsWith round state other) :
    result = other := by
  obtain ⟨fuel, here⟩ := ended
  obtain ⟨fuel', there⟩ := ended'
  have first := rounds_mono here (Nat.le_max_left fuel fuel')
  have second := rounds_mono there (Nat.le_max_right fuel fuel')
  exact Option.some.inj (Option.some.inj (first.symm.trans second))

theorem endsWith_of_ends (ends : round state = .ends result) : EndsWith round state result := ⟨1, rounds_ends ends⟩

theorem endsWith_iff_of_goes (goes : round state = .goes next) :
    EndsWith round state result ↔ EndsWith round next result := by
  constructor
  · rintro ⟨fuel, ended⟩
    cases fuel with
    | zero => simp [rounds] at ended
    | succ fuel => exact ⟨fuel, rounds_goes goes ▸ ended⟩
  · rintro ⟨fuel, ended⟩
    exact ⟨fuel + 1, rounds_goes goes ▸ ended⟩

/-- A loop that has come to a fault does not complete. -/
theorem not_completes_of_rounds (ended : rounds round fuel state = some none) : ¬ Completes round state := by
  rintro ⟨result, fuel', ended'⟩
  have first := rounds_mono ended (Nat.le_max_left fuel fuel')
  have second := rounds_mono ended' (Nat.le_max_right fuel fuel')
  simp [first] at second

theorem not_completes_of_fault (fault : round state = .fault) : ¬ Completes round state :=
  @not_completes_of_rounds _ _ _ _ 1 (rounds_fault fault)

theorem completes_iff_of_goes (goes : round state = .goes next) : Completes round state ↔ Completes round next :=
  exists_congr fun _ => endsWith_iff_of_goes goes

/-- A loop does not complete from states that it never leaves but by a fault. -/
theorem not_completes_of_stuck (trap : State → Prop)
    (stays : ∀ state, trap state → round state = .fault ∨ ∃ next, round state = .goes next ∧ trap next)
    (trapped : trap state) : ¬ Completes round state := by
  rintro ⟨result, fuel, ended⟩
  induction fuel generalizing state with
  | zero => simp [rounds] at ended
  | succ fuel ih =>
      rcases stays state trapped with fault | ⟨next, goes, inside⟩
      · rw [rounds_fault fault] at ended
        cases ended
      · exact ih inside (rounds_goes goes ▸ ended)

end Loops

section Described

variable {round : State → Round State Result} {passed safe : State → Prop} {next : State → State}
  {start state : State}

/-- A loop that completes is safe where it starts, and completes from where it goes on. -/
theorem Rounds.step (described : Rounds round passed safe next) (completes : Completes round state) :
    safe state ∧ (passed state → Completes round (next state)) := by
  have harmless : safe state := by
    by_contra harmful
    exact not_completes_of_fault (described.fault state harmful) completes
  refine ⟨harmless, fun through => ?_⟩
  obtain ⟨result, ended⟩ := completes
  exact ⟨result, (endsWith_iff_of_goes (described.goes state harmless through)).mp ended⟩

/-- A round that goes on is one of a safe state that is passed. -/
theorem Rounds.of_goes {after : State} (described : Rounds round passed safe next) (goes : round state = .goes after) :
    safe state ∧ passed state ∧ after = next state := by
  by_cases harmless : safe state
  · by_cases through : passed state
    · exact ⟨harmless, through, Round.goes.inj (goes.symm.trans (described.goes state harmless through))⟩
    · obtain ⟨result, ended⟩ := described.ends state harmless through
      simp [ended] at goes
  · simp [described.fault state harmless] at goes

theorem Rounds.completes_of_meets (described : Rounds round passed safe next) (completes : Completes round start)
    (meets : Meets passed next start state) : Completes round state := by
  induction meets with
  | refl => exact completes
  | tail _ follows ih =>
      obtain ⟨through, rfl⟩ := follows
      exact (described.step ih).2 through

/-- Behind a state that it passes, a loop needs fewer rounds. -/
theorem Rounds.fewer_rounds {fuel : Nat} {after : State} {result : Result} (described : Rounds round passed safe next)
    (later : Relation.TransGen (Follows passed next) state after)
    (ended : rounds round (fuel + 1) state = some (some result)) : rounds round fuel after = some (some result) := by
  have once : ∀ {fuel : Nat} {state after : State}, Follows passed next state after →
      rounds round (fuel + 1) state = some (some result) → rounds round fuel after = some (some result) := by
    rintro fuel state after ⟨through, rfl⟩ ended
    have harmless := (described.step ⟨result, _, ended⟩).1
    rwa [rounds_goes (described.goes state harmless through)] at ended
  induction later with
  | single follows => exact once follows ended
  | tail _ follows ih => exact once follows (rounds_mono ih (Nat.le_succ fuel))

/-- A loop that completes does not come back to its state. -/
theorem Rounds.not_returns (described : Rounds round passed safe next) (completes : Completes round state) :
    ¬ Returns passed next state := by
  rintro returns
  obtain ⟨result, fuel, ended⟩ := completes
  induction fuel with
  | zero => simp [rounds] at ended
  | succ fuel ih => exact ih (described.fewer_rounds returns ended)

/-- A loop completes if it is safe in all states that it meets and descends. -/
theorem Rounds.completes_of_descends {before : State → State → Prop} (described : Rounds round passed safe next)
    (wellFounded : WellFounded before) (harmless : ∀ state, Meets passed next start state → safe state)
    (descends : ∀ state, Meets passed next start state → passed state → before (next state) state) :
    Completes round start := by
  have every : ∀ state, Meets passed next start state → Completes round state := by
    intro state
    induction state using wellFounded.induction with
    | _ state ih =>
        intro meets
        have unharmed := harmless state meets
        by_cases through : passed state
        · have completes := ih _ (descends state meets through) (meets.tail ⟨through, rfl⟩)
          obtain ⟨result, ended⟩ := completes
          exact ⟨result, (endsWith_iff_of_goes (described.goes state unharmed through)).mpr ended⟩
        · obtain ⟨result, ended⟩ := described.ends state unharmed through
          exact ⟨result, endsWith_of_ends ended⟩
  exact every start .refl

/-- A loop over finitely many states completes exactly when it is safe in all states that it meets
and comes back to none. -/
theorem Rounds.completes_iff [Finite State] (described : Rounds round passed safe next) :
    Completes round start ↔ ∀ state, Meets passed next start state → safe state ∧ ¬ Returns passed next state := by
  constructor
  · intro completes state meets
    have later := described.completes_of_meets completes meets
    exact ⟨(described.step later).1, described.not_returns later⟩
  · intro sound
    let before : State → State → Prop := fun after state =>
      Meets passed next start state ∧ Relation.TransGen (Follows passed next) state after
    have trans : IsTrans State before := ⟨fun _ _ _ second first => ⟨first.1, first.2.trans second.2⟩⟩
    have irrefl : Std.Irrefl before := ⟨fun state both => (sound state both.1).2 both.2⟩
    refine described.completes_of_descends (Finite.wellFounded_of_trans_of_irrefl before)
      (fun state meets => (sound state meets).1) fun state meets through => ?_
    exact ⟨meets, .single ⟨through, rfl⟩⟩

/-- A loop that gets closer to a bound, or else stays where it is, completes exactly when it is
safe and gets closer in all states that it meets. -/
theorem Rounds.completes_iff_of_measure {closer : State → Prop} (measure : State → Nat)
    (described : Rounds round passed safe next)
    (descends : ∀ state, safe state → passed state → closer state → measure (next state) < measure state)
    (stays : ∀ state, safe state → passed state → ¬ closer state → next state = state) :
    Completes round start ↔
      ∀ state, Meets passed next start state → safe state ∧ (passed state → closer state) := by
  constructor
  · intro completes state meets
    have later := described.completes_of_meets completes meets
    have harmless := (described.step later).1
    refine ⟨harmless, fun through => ?_⟩
    by_contra stuck
    have back : Follows passed next state state := ⟨through, (stays state harmless through stuck).symm⟩
    exact described.not_returns later (.single back)
  · intro sound
    refine described.completes_of_descends (InvImage.wf measure Nat.lt_wfRel.wf) (fun state meets => (sound state meets).1)
      fun state meets through => ?_
    exact descends state (sound state meets).1 through ((sound state meets).2 through)

end Described

end KeblaOS
