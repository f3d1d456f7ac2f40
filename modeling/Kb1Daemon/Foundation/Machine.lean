import Mathlib.Data.List.Basic

/-! # Partial machines and their guarded runs

A machine is a partial step function on states and labels. A run is a list of
labels all of whose steps are enabled; a guarded run is one whose every step
also meets a condition on the state before it. Runs are checked by evaluation
(`Machine.evaluate_sound`), an invariant kept by every guarded step holds at the
end of every guarded run (`Machine.Run.invariant`), and a quantity that every
guarded step updates as a function of its label is the fold of that function
over the labels of the run (`Machine.Run.foldl_eq`).
-/

universe u v w

/-- A partial step function on states and labels. -/
structure Machine (State : Type u) (Label : Type v) where
  step : State → Label → Option State

namespace Machine

variable {State : Type u} {Label : Type v} (M : Machine State Label)

/-- The labels lead from one state to another, and every step meets the guard
in the state before it. -/
inductive Run (guard : State → Label → Prop) : State → List Label → State → Prop where
  | nil (state : State) : Run guard state [] state
  | cons {source middle target : State} {label : Label} {labels : List Label} :
      guard source label → M.step source label = some middle →
        Run guard middle labels target → Run guard source (label :: labels) target

/-- Execute a list of labels, stopping at the first step that is not enabled or
does not meet the guard. -/
def evaluate (guard : State → Label → Prop) [∀ state label, Decidable (guard state label)] :
    State → List Label → Option State
  | state, [] => some state
  | state, label :: labels =>
      if guard state label then
        (M.step state label).bind fun next => evaluate guard next labels
      else none

/-- The costs of the steps along a list of labels. -/
def totalCost (cost : State → Label → Nat) : State → List Label → Nat
  | _, [] => 0
  | state, label :: labels =>
      cost state label + (M.step state label).elim 0 fun next => totalCost cost next labels

variable {M} {guard : State → Label → Prop} {source target : State} {labels : List Label}

/-- Every evaluated list of labels is a guarded run. -/
theorem evaluate_sound [∀ state label, Decidable (guard state label)]
    (evaluated : M.evaluate guard source labels = some target) :
    M.Run guard source labels target := by
  induction labels generalizing source with
  | nil =>
      obtain rfl := Option.some.inj evaluated
      exact .nil _
  | cons label labels ih =>
      unfold evaluate at evaluated
      split at evaluated
      · rename_i allowed
        obtain ⟨middle, stepped, rest⟩ := Option.bind_eq_some_iff.mp evaluated
        exact .cons allowed stepped (ih rest)
      · cases evaluated

/-- A list of labels whose evaluation can be seen to end in a value of a view is a
guarded run to a state with that view. -/
theorem evaluate_view [∀ state label, Decidable (guard state label)] {View : Type w}
    {view : State → View} {value : View}
    (evaluated : (M.evaluate guard source labels).map view = some value) :
    ∃ target, M.Run guard source labels target ∧ view target = value := by
  obtain ⟨target, reached, seen⟩ := Option.map_eq_some_iff.mp evaluated
  exact ⟨target, evaluate_sound reached, seen⟩

namespace Run

/-- A run under a stronger guard is a run under a weaker one. -/
theorem mono {weaker : State → Label → Prop}
    (weaken : ∀ state label, guard state label → weaker state label)
    (run : M.Run guard source labels target) : M.Run weaker source labels target := by
  induction run with
  | nil state => exact .nil state
  | cons allowed stepped _ ih => exact .cons (weaken _ _ allowed) stepped ih

/-- Guarded runs compose. -/
theorem append {middle : State} {rest : List Label}
    (first : M.Run guard source labels middle) (second : M.Run guard middle rest target) :
    M.Run guard source (labels ++ rest) target := by
  induction first with
  | nil state => exact second
  | cons allowed stepped _ ih => exact .cons allowed stepped (ih second)

/-- The last step of a guarded run. -/
theorem last {label : Label} (run : M.Run guard source (labels ++ [label]) target) :
    ∃ middle, M.Run guard source labels middle ∧ guard middle label ∧
      M.step middle label = some target := by
  induction labels generalizing source with
  | nil =>
      cases run with
      | cons allowed stepped rest =>
          cases rest
          exact ⟨source, .nil source, allowed, stepped⟩
  | cons first labels ih =>
      cases run with
      | cons allowed stepped rest =>
          obtain ⟨middle, reached, facts⟩ := ih rest
          exact ⟨middle, .cons allowed stepped reached, facts⟩

/-- An invariant kept by every guarded step holds at the end of a guarded run. -/
theorem invariant {predicate : State → Prop}
    (keep : ∀ state label next, guard state label → M.step state label = some next →
      predicate state → predicate next)
    (run : M.Run guard source labels target) (initial : predicate source) :
    predicate target := by
  induction run with
  | nil state => exact initial
  | cons allowed stepped _ ih => exact ih (keep _ _ _ allowed stepped initial)

/-- A quantity that every guarded step updates by its label is, at the end of a
run, the fold of the updates over the labels. The steps may rely on an
invariant. -/
theorem foldl_eq {Value : Type w} {predicate : State → Prop} {value : State → Value}
    {update : Value → Label → Value}
    (keep : ∀ state label next, guard state label → M.step state label = some next →
      predicate state → predicate next)
    (follow : ∀ state label next, guard state label → M.step state label = some next →
      predicate state → value next = update (value state) label)
    (run : M.Run guard source labels target) (initial : predicate source) :
    value target = labels.foldl update (value source) := by
  induction run with
  | nil state => rfl
  | cons allowed stepped _ ih =>
      rw [ih (keep _ _ _ allowed stepped initial), List.foldl_cons,
        follow _ _ _ allowed stepped initial]

/-- A quantity that exceeds its allowance by no more than the costs of the steps, exceeds it at the
end of a run by no more than their total. The steps may rely on an invariant. -/
theorem le_totalCost {predicate : State → Prop} {cost : State → Label → Nat}
    {value allowance : State → Nat}
    (keep : ∀ state label next, guard state label → M.step state label = some next →
      predicate state → predicate next)
    (grow : ∀ state label next, guard state label → M.step state label = some next →
      predicate state → value next + allowance state ≤
        value state + allowance next + cost state label)
    (run : M.Run guard source labels target) (initial : predicate source) :
    value target + allowance source ≤
      value source + allowance target + M.totalCost cost source labels := by
  induction run with
  | nil state => exact Nat.le_refl _
  | cons allowed stepped _ ih =>
      have rest := ih (keep _ _ _ allowed stepped initial)
      have first := grow _ _ _ allowed stepped initial
      rw [Machine.totalCost, stepped, Option.elim_some]
      omega

end Run

end Machine
