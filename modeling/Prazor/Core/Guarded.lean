import Prazor.Core.Machine

/-!
# Runs that can stop, and runs under a guard

A step of the simulator may fail an assertion or wait for an event that never
comes; the run then ends.  Such a step is a partial function.  A guard is a
condition on the state before a step and on the step's input, and a run is
guarded when all its steps meet the guard.
-/

namespace Prazor.Guarded

variable {State State' Input : Type*}

/-- The state after a list of inputs, `none` once a step has stopped. -/
def exec (step : State → Input → Option State) : State → List Input → Option State
  | state, [] => some state
  | state, input :: rest => (step state input).bind fun next => exec step next rest

/-- Every step the run takes meets the guard. -/
def Meets (step : State → Input → Option State) (guard : State → Input → Prop) :
    State → List Input → Prop
  | _, [] => True
  | state, input :: rest =>
      guard state input ∧ ∀ next, step state input = some next →
        Meets step guard next rest

variable {step : State → Input → Option State} {guard : State → Input → Prop}

@[simp]
theorem exec_nil (state : State) : exec step state [] = some state := rfl

theorem exec_cons (state : State) (input : Input) (rest : List Input) :
    exec step state (input :: rest) =
      (step state input).bind fun next => exec step next rest := rfl

theorem exec_cons_eq_some {state final : State} {input : Input}
    {rest : List Input} :
    exec step state (input :: rest) = some final ↔
      ∃ next, step state input = some next ∧ exec step next rest = some final := by
  rw [exec_cons, Option.bind_eq_some_iff]

theorem exec_append (state : State) (first second : List Input) :
    exec step state (first ++ second) =
      (exec step state first).bind fun next => exec step next second := by
  induction first generalizing state with
  | nil => rfl
  | cons input rest ih =>
      rw [List.cons_append, exec_cons, exec_cons]
      cases step state input with
      | none => rfl
      | some next => exact ih next

/-- A run meets the guard when its first step and the rest do. -/
theorem meets_cons {state next : State} {input : Input} {rest : List Input}
    (hstep : step state input = some next) (hguard : guard state input)
    (hrest : Meets step guard next rest) :
    Meets step guard state (input :: rest) := by
  refine ⟨hguard, fun other hother => ?_⟩
  rw [hstep, Option.some.injEq] at hother
  exact hother ▸ hrest

theorem meets_and {guard' : State → Input → Prop} {state : State} {inputs : List Input}
    (hguard : Meets step guard state inputs) (hguard' : Meets step guard' state inputs) :
    Meets step (fun state input => guard state input ∧ guard' state input) state
      inputs := by
  induction inputs generalizing state with
  | nil => trivial
  | cons input rest ih =>
      exact ⟨⟨hguard.1, hguard'.1⟩, fun next hnext =>
        ih (hguard.2 next hnext) (hguard'.2 next hnext)⟩

/-- A guard that follows from the guard of a run is met. -/
theorem meets_mono {guard' : State → Input → Prop} {inputs : List Input}
    (hfollows : ∀ state, ∀ input ∈ inputs, guard state input → guard' state input)
    {state : State} (hguard : Meets step guard state inputs) :
    Meets step guard' state inputs := by
  induction inputs generalizing state with
  | nil => trivial
  | cons input rest ih =>
      constructor
      · exact hfollows state input List.mem_cons_self hguard.1
      · intro next hnext
        have hrest (state : State) (other : Input) (hother : other ∈ rest) :=
          hfollows state other (List.mem_cons_of_mem input hother)
        exact ih hrest (hguard.2 next hnext)

/-- Guards that say the same of the inputs are met by the same runs. -/
theorem meets_congr {guard' : State → Input → Prop} {inputs : List Input}
    (hiff : ∀ state, ∀ input ∈ inputs, guard state input ↔ guard' state input)
    (state : State) : Meets step guard state inputs ↔ Meets step guard' state inputs := by
  constructor
  · exact meets_mono fun state input hinput => (hiff state input hinput).mp
  · exact meets_mono fun state input hinput => (hiff state input hinput).mpr

/-- The first part of a guarded run is guarded, and so is the rest from there. -/
theorem meets_append {state : State} {first second : List Input}
    (hguard : Meets step guard state (first ++ second)) :
    Meets step guard state first ∧
      ∀ mid, exec step state first = some mid → Meets step guard mid second := by
  induction first generalizing state with
  | nil =>
      refine ⟨trivial, fun mid hmid => ?_⟩
      rw [exec_nil, Option.some.injEq] at hmid
      exact hmid ▸ hguard
  | cons input rest ih =>
      refine ⟨⟨hguard.1, fun next hnext => (ih (hguard.2 next hnext)).1⟩, fun mid hmid => ?_⟩
      obtain ⟨next, hnext, hrest⟩ := exec_cons_eq_some.mp hmid
      exact (ih (hguard.2 next hnext)).2 mid hrest

/-- Two guarded runs, one from where the other ends, are one guarded run. -/
theorem meets_append_of {state mid : State} {first second : List Input}
    (hfirst : Meets step guard state first) (hrun : exec step state first = some mid)
    (hsecond : Meets step guard mid second) :
    Meets step guard state (first ++ second) := by
  induction first generalizing state with
  | nil =>
      rw [exec_nil, Option.some.injEq] at hrun
      exact hrun ▸ hsecond
  | cons input rest ih =>
      obtain ⟨next, hnext, hrest⟩ := exec_cons_eq_some.mp hrun
      exact meets_cons hnext hfirst.1 (ih (hfirst.2 next hnext) hrest)

/-- A guard that can be checked can be checked along a run. -/
instance decidableMeets [∀ state input, Decidable (guard state input)] :
    ∀ (state : State) (inputs : List Input), Decidable (Meets step guard state inputs)
  | _, [] => .isTrue trivial
  | state, input :: rest =>
      match hnext : step state input with
      | none => decidable_of_iff (guard state input) (by simp [Meets, hnext])
      | some next =>
          have := decidableMeets next rest
          decidable_of_iff (guard state input ∧ Meets step guard next rest)
            (by simp [Meets, hnext])

/-- What guarded steps keep holds in every state a guarded run reaches. -/
theorem exec_invariant {Inv : State → Prop}
    (hstep : ∀ state input next, Inv state → guard state input →
      step state input = some next → Inv next)
    {state final : State} (hstart : Inv state) {inputs : List Input}
    (hguard : Meets step guard state inputs)
    (hrun : exec step state inputs = some final) : Inv final := by
  induction inputs generalizing state with
  | nil =>
      rw [exec_nil, Option.some.injEq] at hrun
      exact hrun ▸ hstart
  | cons input rest ih =>
      obtain ⟨next, hnext, hrest⟩ := exec_cons_eq_some.mp hrun
      exact ih (hstep state input next hstart hguard.1 hnext)
        (hguard.2 next hnext) hrest

/-- A run under a guard whose steps keep an invariant is under both. -/
theorem meets_invariant {Inv : State → Prop}
    (hstep : ∀ state input next, Inv state → guard state input →
      step state input = some next → Inv next)
    {state : State} (hstart : Inv state) {inputs : List Input}
    (hguard : Meets step guard state inputs) :
    Meets step (fun state input => Inv state ∧ guard state input) state inputs := by
  induction inputs generalizing state with
  | nil => trivial
  | cons input rest ih =>
      refine ⟨⟨hstart, hguard.1⟩, fun next hnext => ?_⟩
      exact ih (hstep state input next hstart hguard.1 hnext) (hguard.2 next hnext)

/-- If guarded steps never stop then guarded runs do not either. -/
theorem exec_total {Inv : State → Prop}
    (hstep : ∀ state input, Inv state → guard state input →
      ∃ next, step state input = some next ∧ Inv next)
    {state : State} (hstart : Inv state) {inputs : List Input}
    (hguard : Meets step guard state inputs) :
    ∃ final, exec step state inputs = some final ∧ Inv final := by
  induction inputs generalizing state with
  | nil => exact ⟨state, rfl, hstart⟩
  | cons input rest ih =>
      obtain ⟨next, hnext, hinv⟩ := hstep state input hstart hguard.1
      obtain ⟨final, hfinal, hinv'⟩ := ih hinv (hguard.2 next hnext)
      exact ⟨final, exec_cons_eq_some.mpr ⟨next, hnext, hfinal⟩, hinv'⟩

/-- What every step keeps holds in every state a run reaches. -/
theorem exec_keeps {Inv : State → Prop}
    (hstep : ∀ state input next, Inv state → step state input = some next →
      Inv next)
    {state final : State} (hstart : Inv state) {inputs : List Input}
    (hrun : exec step state inputs = some final) : Inv final := by
  induction inputs generalizing state with
  | nil =>
      rw [exec_nil, Option.some.injEq] at hrun
      exact hrun ▸ hstart
  | cons input rest ih =>
      obtain ⟨next, hnext, hrest⟩ := exec_cons_eq_some.mp hrun
      exact ih (hstep state input next hstart hnext) hrest

section Latest

variable {Value Result : Type*}

/-- The value of the last input that has one. -/
def latest (value : Input → Option Value) : List Input → Option Value
  | [] => none
  | input :: rest => (latest value rest).or (value input)

theorem exists_of_latest {value : Input → Option Value} {inputs : List Input}
    {last : Value} (hlatest : latest value inputs = some last) :
    ∃ input ∈ inputs, value input = some last := by
  induction inputs with
  | nil => cases hlatest
  | cons input rest ih =>
      rcases Option.or_eq_some_iff.mp hlatest with hrest | ⟨-, hinput⟩
      · obtain ⟨other, hother, hvalue⟩ := ih hrest
        exact ⟨other, List.mem_cons_of_mem input hother, hvalue⟩
      · exact ⟨input, List.mem_cons_self, hinput⟩

/-- What only inputs with a value change, and change to that value, is after a
guarded run the value of the last such input. -/
theorem exec_latest {view : State → Result} {value : Input → Option Value}
    {put : Value → Result}
    (hstep : ∀ state input next, guard state input → step state input = some next →
      view next = (value input).elim (view state) put)
    {state final : State} {inputs : List Input}
    (hguard : Meets step guard state inputs)
    (hrun : exec step state inputs = some final) :
    view final = (latest value inputs).elim (view state) put := by
  induction inputs generalizing state with
  | nil =>
      rw [exec_nil, Option.some.injEq] at hrun
      rw [hrun]
      rfl
  | cons input rest ih =>
      obtain ⟨next, hnext, hrest⟩ := exec_cons_eq_some.mp hrun
      rw [ih (hguard.2 next hnext) hrest, latest]
      cases latest value rest with
      | some last => rfl
      | none => exact hstep state input next hguard.1 hnext

end Latest

section Serving

variable {Output : Type*}

/-- The state a component is left in by a list of inputs and the answers it
gives to them, `none` once a step has stopped. -/
def serve (step : State → Input → Option (State × Output)) :
    State → List Input → Option (State × List Output)
  | state, [] => some (state, [])
  | state, input :: rest =>
      (step state input).bind fun served =>
        (serve step served.1 rest).map fun final =>
          (final.1, served.2 :: final.2)

/-- The state part of a step with an answer. -/
def advance (step : State → Input → Option (State × Output)) (state : State)
    (input : Input) : Option State :=
  (step state input).map Prod.fst

/-- A guard on the inputs alone is met when all inputs meet it. -/
theorem meets_of_forall {accepts : Input → Prop} (state : State)
    {inputs : List Input} (haccepts : ∀ input ∈ inputs, accepts input) :
    Meets step (fun _ input => accepts input) state inputs := by
  induction inputs generalizing state with
  | nil => trivial
  | cons input rest ih =>
      exact ⟨haccepts input List.mem_cons_self, fun next _ =>
        ih next fun other hother => haccepts other (List.mem_cons_of_mem input hother)⟩

/-- A component whose guarded steps answer as a machine that always answers,
and stay related to it, gives the machine's answers along guarded runs. -/
theorem serve_refines {step : State → Input → Option (State × Output)}
    {spec : State' → Input → State' × Output} {Related : State → State' → Prop}
    (hstep : ∀ state state' input, Related state state' → guard state input →
      ∃ next, step state input = some (next, (spec state' input).2) ∧
        Related next (spec state' input).1)
    {state : State} {state' : State'} (hstart : Related state state')
    {inputs : List Input} (hguard : Meets (advance step) guard state inputs) :
    ∃ final, serve step state inputs =
        some (final, Machine.outputs spec state' inputs) ∧
      Related final (Machine.run spec state' inputs) := by
  induction inputs generalizing state state' with
  | nil => exact ⟨state, rfl, hstart⟩
  | cons input rest ih =>
      obtain ⟨next, hnext, hrelated⟩ := hstep state state' input hstart hguard.1
      have hadvance : advance step state input = some next := by
        rw [advance, hnext, Option.map_some]
      obtain ⟨final, hfinal, hlast⟩ := ih hrelated (hguard.2 next hadvance)
      refine ⟨final, ?_, hlast⟩
      rw [serve, hnext, Option.bind_some, hfinal]
      rfl

end Serving

/-- A sweep through places, each step of which settles the marks of its place
and unsettles none, settles the marks of all the places. -/
theorem foldlM_settles {Place Mark : Type*} {step : State → Place → Option State}
    {Inv : State → Prop} {Settled : State → Mark → Prop} {marks : Place → Mark → Prop}
    {places : List Place}
    (hstep : ∀ state place, place ∈ places → Inv state →
      ∃ next, step state place = some next ∧ Inv next ∧
        (∀ mark, marks place mark → Settled next mark) ∧
        ∀ mark, Settled state mark → Settled next mark)
    {state : State} (hstart : Inv state) :
    ∃ final, places.foldlM step state = some final ∧ Inv final ∧
      (∀ place ∈ places, ∀ mark, marks place mark → Settled final mark) ∧
      ∀ mark, Settled state mark → Settled final mark := by
  induction places generalizing state with
  | nil => exact ⟨state, rfl, hstart, by simp, fun _ hsettled => hsettled⟩
  | cons place rest ih =>
      obtain ⟨next, hnext, hinv, hplace, hkeeps⟩ :=
        hstep state place List.mem_cons_self hstart
      obtain ⟨final, hfinal, hinv', hrest, hkeeps'⟩ :=
        ih (fun state other hother => hstep state other (List.mem_cons_of_mem _ hother))
          hinv
      refine ⟨final, ?_, hinv', fun other hother mark hmark => ?_,
        fun mark hsettled => hkeeps' mark (hkeeps mark hsettled)⟩
      · rw [List.foldlM_cons, hnext]
        exact hfinal
      · rcases List.mem_cons.mp hother with rfl | hother
        · exact hkeeps' mark (hplace mark hmark)
        · exact hrest other hother mark hmark

/-- What every step of a sweep through places keeps. -/
theorem foldlM_keeps {Place : Type*} {step : State → Place → Option State}
    {Inv : State → Prop} {places : List Place}
    (hstep : ∀ state place next, place ∈ places → Inv state →
      step state place = some next → Inv next)
    {state final : State} (hstart : Inv state)
    (hrun : places.foldlM step state = some final) : Inv final := by
  induction places generalizing state with
  | nil =>
      rw [List.foldlM_nil] at hrun
      cases hrun
      exact hstart
  | cons place rest ih =>
      rw [List.foldlM_cons] at hrun
      obtain ⟨next, hnext, hrest⟩ := Option.bind_eq_some_iff.mp hrun
      exact ih (fun state other next hother => hstep state other next
          (List.mem_cons_of_mem _ hother))
        (hstep state place next List.mem_cons_self hstart hnext) hrest

end Prazor.Guarded
