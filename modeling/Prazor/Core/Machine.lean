import Prazor.Core.ArraySizes

/-!
# Machines that answer every input

A component of the simulated platform answers one transaction at a time and
keeps a state between two transactions.  This file fixes what a run of such a
component is, the invariant rule for its runs, and the simulation rule by which
two components are shown to give the same answers to the same inputs.
-/

namespace Prazor.Machine

variable {State State' Input Output : Type*}

/-- The state a component is left in by a list of inputs. -/
def run (step : State → Input → State × Output) : State → List Input → State
  | state, [] => state
  | state, input :: rest => run step (step state input).1 rest

/-- The answers a component gives to a list of inputs, in order. -/
def outputs (step : State → Input → State × Output) :
    State → List Input → List Output
  | _, [] => []
  | state, input :: rest =>
      (step state input).2 :: outputs step (step state input).1 rest

@[simp]
theorem run_nil (step : State → Input → State × Output) (state : State) :
    run step state [] = state := rfl

@[simp]
theorem run_cons (step : State → Input → State × Output) (state : State)
    (input : Input) (rest : List Input) :
    run step state (input :: rest) = run step (step state input).1 rest := rfl

@[simp]
theorem outputs_nil (step : State → Input → State × Output) (state : State) :
    outputs step state [] = [] := rfl

@[simp]
theorem outputs_cons (step : State → Input → State × Output) (state : State)
    (input : Input) (rest : List Input) :
    outputs step state (input :: rest) =
      (step state input).2 :: outputs step (step state input).1 rest := rfl

/-- A property that every step keeps holds after every run. -/
theorem run_invariant (step : State → Input → State × Output)
    {Inv : State → Prop}
    (hstep : ∀ state input, Inv state → Inv (step state input).1)
    {state : State} (hstart : Inv state) (inputs : List Input) :
    Inv (run step state inputs) := by
  induction inputs generalizing state with
  | nil => exact hstart
  | cons input rest ih => exact ih (hstep state input hstart)

section Simulation

variable {step : State → Input → State × Output}
variable {step' : State' → Input → State' × Output}
variable {Related : State → State' → Prop}

/-- Two components whose related states give equal answers and stay related
answer every list of inputs alike. -/
theorem outputs_eq_of_simulation
    (hstep : ∀ state state' input, Related state state' →
      Related (step state input).1 (step' state' input).1)
    (houtput : ∀ state state' input, Related state state' →
      (step state input).2 = (step' state' input).2)
    {state : State} {state' : State'} (hstart : Related state state')
    (inputs : List Input) :
    outputs step state inputs = outputs step' state' inputs := by
  induction inputs generalizing state state' with
  | nil => rfl
  | cons input rest ih =>
      rw [outputs_cons, outputs_cons, houtput state state' input hstart,
        ih (hstep state state' input hstart)]

end Simulation

end Prazor.Machine
