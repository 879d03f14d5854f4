import Mathlib.Logic.Basic

/-!
# Finite runs

A system is a step relation labelled with events. `Run` collects the events of a
finite run in order. Invariants and simulations are proved for one step and carried
over to runs here; nothing below depends on what the events are.
-/

namespace KeblaOS

variable {State Abstract Event : Type*}

/-- A finite run from `start`, with the events in the order they happened. -/
inductive Run (step : State → Event → State → Prop) (start : State) : List Event → State → Prop where
  | nil : Run step start [] start
  | snoc {trace state event next} (prior : Run step start trace state)
      (taken : step state event next) : Run step start (trace ++ [event]) next

namespace Run

variable {step : State → Event → State → Prop} {start state : State} {trace : List Event}

/-- What every step preserves holds at the end of a run. -/
theorem invariant (run : Run step start trace state) (invariant : State → Prop)
    (initial : invariant start)
    (preserved : ∀ {before event after}, invariant before → step before event after → invariant after) :
    invariant state := by
  induction run with
  | nil => exact initial
  | snoc _ taken ih => exact preserved ih taken

/-- A step-by-step simulation maps runs to runs with the same events. -/
theorem simulation {abstractStep : Abstract → Event → Abstract → Prop}
    {abstractStart : Abstract} (run : Run step start trace state) (related : State → Abstract → Prop)
    (initial : related start abstractStart)
    (simulates : ∀ {before event after abstract}, related before abstract → step before event after →
      ∃ abstract', abstractStep abstract event abstract' ∧ related after abstract') :
    ∃ abstractState, Run abstractStep abstractStart trace abstractState ∧
      related state abstractState := by
  induction run with
  | nil => exact ⟨abstractStart, .nil, initial⟩
  | snoc _ taken ih =>
      obtain ⟨abstract, prior, relates⟩ := ih
      obtain ⟨abstract', taken', relates'⟩ := simulates relates taken
      exact ⟨abstract', prior.snoc taken', relates'⟩

/-- Steps that are also steps of another system in every state with an invariant make a run of it. -/
theorem imp {step' : State → Event → State → Prop} (run : Run step start trace state) (invariant : State → Prop)
    (initial : invariant start)
    (preserved : ∀ {before event after}, invariant before → step before event after → invariant after)
    (also : ∀ {before event after}, invariant before → step before event after → step' before event after) :
    Run step' start trace state := by
  induction run with
  | nil => exact .nil
  | snoc prior taken ih => exact ih.snoc (also (prior.invariant invariant initial preserved) taken)

theorem eq_of_nil (run : Run step start [] state) : state = start := by
  generalize none : [] = trace at run
  cases run with
  | nil => rfl
  | snoc => simp at none

/-- The last step of a run. -/
theorem snoc_inv {event : Event} (run : Run step start (trace ++ [event]) state) :
    ∃ before, Run step start trace before ∧ step before event state := by
  generalize whole : trace ++ [event] = events at run
  cases run with
  | nil => simp at whole
  | snoc prior taken =>
      obtain ⟨rfl, same⟩ := List.append_inj' whole rfl
      obtain rfl := List.singleton_inj.mp same
      exact ⟨_, prior, taken⟩

/-- The first step of a run. -/
theorem cons_inv {event : Event} {rest : List Event} (run : Run step start (event :: rest) state) :
    ∃ middle, step start event middle ∧ Run step middle rest state := by
  generalize whole : event :: rest = trace at run
  induction run generalizing rest with
  | nil => simp at whole
  | @snoc trace before last after prior taken ih =>
      cases trace with
      | nil =>
          obtain ⟨rfl, rfl⟩ := List.cons.inj whole
          obtain rfl := prior.eq_of_nil
          exact ⟨after, taken, .nil⟩
      | cons first others =>
          obtain ⟨rfl, rfl⟩ := List.cons.inj whole
          obtain ⟨middle, begun, later⟩ := ih rfl
          exact ⟨middle, begun, later.snoc taken⟩

end Run

/-- A step function's reply is enough to name its outcome; the state is whatever it
returned. -/
theorem eq_some_of_map_fst {Reply : Type*} {outcome : Option (Reply × State)} {reply : Reply}
    (other : Reply × State) (replied : outcome.map Prod.fst = some reply) :
    outcome = some (reply, (outcome.getD other).2) := by
  cases outcome with
  | none => simp at replied
  | some result =>
      obtain rfl : result.1 = reply := by simpa using replied
      rfl

/-- The outcome of a step that succeeds, written without the proof that it does. -/
theorem eq_some_getD_of_isSome {outcome : Option State} (other : State) (taken : outcome.isSome = true) :
    outcome = some (outcome.getD other) := by
  cases outcome with
  | none => simp at taken
  | some state => rfl

end KeblaOS
