import Mathlib.Data.List.Infix

/-! # Runs that stop at a failure

The calls of a run are made one after another, up to the first one that fails; a call may depend
on its number. A run is specified by what holds before it, what holds after it when no call fails,
and what holds, with the number of the call, when one does (`StoppingRun.Establishes`). The
specifications compose along the list of calls, and along a loop whose invariant speaks of the
items that are done (`StoppingRun.Establishes.forEach`).
-/

universe u v w

namespace StoppingRun

/-- The state, the calls that are made, and the failure of the last one. -/
structure Result (State : Type u) (Call : Type v) (Failure : Type w) where
  state : State
  calls : List Call
  failure : Option Failure

variable {State : Type u} {Call : Type v} {Failure : Type w}
  (perform : Nat → State → Call → State × Option Failure)

def run : Nat → State → List Call → Result State Call Failure
  | _, state, [] => ⟨state, [], none⟩
  | index, state, call :: rest =>
      match perform index state call with
      | (next, some failure) => ⟨next, [call], some failure⟩
      | (next, none) =>
          let later := run (index + 1) next rest
          ⟨later.state, call :: later.calls, later.failure⟩

/-- What a run establishes: a property of the last state, or one of the number of the call that
fails and the state it leaves. -/
def Establishes (before : State → Prop) (calls : List Call) (after : State → Prop)
    (failed : Nat → State → Prop) : Prop :=
  ∀ index state, before state →
    ((run perform index state calls).failure = none → after (run perform index state calls).state) ∧
      ((run perform index state calls).failure ≠ none →
        failed (index + (run perform index state calls).calls.length - 1)
          (run perform index state calls).state)

variable {perform} {before middle after : State → Prop} {failed : Nat → State → Prop}
  {index : Nat} {state : State} {calls rest : List Call}

theorem calls_run_front (index : Nat) (state : State) (calls : List Call) :
    (run perform index state calls).calls <+: calls := by
  induction calls generalizing index state with
  | nil => exact List.prefix_refl _
  | cons call rest ih =>
      rw [run]
      split
      · exact List.cons_prefix_cons.mpr ⟨rfl, List.nil_prefix⟩
      · exact List.cons_prefix_cons.mpr ⟨rfl, ih _ _⟩

theorem run_append (index : Nat) (state : State) (calls rest : List Call) :
    run perform index state (calls ++ rest) =
      match (run perform index state calls).failure with
      | some _ => run perform index state calls
      | none =>
          let later := run perform (index + calls.length) (run perform index state calls).state rest
          ⟨later.state, calls ++ later.calls, later.failure⟩ := by
  induction calls generalizing index state with
  | nil => rfl
  | cons call calls ih =>
      rw [List.cons_append, run, run]
      split
      · rfl
      · rename_i next performed
        rw [ih]
        dsimp only
        cases found : (run perform (index + 1) next calls).failure with
        | some failure => rw [found]
        | none =>
            dsimp only
            rw [List.length_cons, Nat.add_comm calls.length 1, ← Nat.add_assoc]
            rfl

namespace Establishes

theorem weaken {stronger : State → Prop} {weaker : State → Prop} {other : Nat → State → Prop}
    (specified : Establishes perform before calls after failed)
    (entry : ∀ state, stronger state → before state) (exit : ∀ state, after state → weaker state)
    (stop : ∀ index state, failed index state → other index state) :
    Establishes perform stronger calls weaker other := by
  intro index state holds
  obtain ⟨done, stopped⟩ := specified index state (entry state holds)
  exact ⟨fun finished => exit _ (done finished), fun failure => stop _ _ (stopped failure)⟩

/-- A fact that does not depend on the state stays. -/
theorem withFact (specified : Establishes perform before calls after failed) (fact : Prop) :
    Establishes perform (fun state => before state ∧ fact) calls (fun state => after state ∧ fact)
      (fun index state => failed index state ∧ fact) := by
  rintro index state ⟨holds, isFact⟩
  obtain ⟨done, stopped⟩ := specified index state holds
  exact ⟨fun finished => ⟨done finished, isFact⟩, fun failure => ⟨stopped failure, isFact⟩⟩

theorem nil (kept : ∀ state, before state → after state) :
    Establishes perform before [] after failed :=
  fun _ state holds => ⟨fun _ => kept state holds, fun stopped => absurd rfl stopped⟩

/-- One call. -/
theorem single {call : Call}
    (done : ∀ index state next, before state → perform index state call = (next, none) →
      after next)
    (stopped : ∀ index state next failure, before state →
      perform index state call = (next, some failure) → failed index next) :
    Establishes perform before [call] after failed := by
  intro index state holds
  rw [run]
  split
  · rename_i next failure performed
    exact ⟨nofun, fun _ => stopped index state next failure holds performed⟩
  · rename_i next performed
    exact ⟨fun _ => done index state next holds performed, fun stopped => absurd rfl stopped⟩

theorem append (first : Establishes perform before calls middle failed)
    (second : Establishes perform middle rest after failed) :
    Establishes perform before (calls ++ rest) after failed := by
  intro index state holds
  obtain ⟨done, stopped⟩ := first index state holds
  rw [run_append]
  cases found : (run perform index state calls).failure with
  | some failure =>
      have unfinished : (run perform index state calls).failure ≠ none := by
        rw [found]
        exact Option.some_ne_none failure
      exact ⟨fun finished => absurd finished unfinished, fun _ => stopped unfinished⟩
  | none =>
      obtain ⟨later, failing⟩ := second (index + calls.length) _ (done found)
      refine ⟨later, fun failure => ?_⟩
      have position := failing failure
      dsimp only
      rwa [List.length_append, ← Nat.add_assoc]

theorem cons {call : Call} (first : Establishes perform before [call] middle failed)
    (second : Establishes perform middle rest after failed) :
    Establishes perform before (call :: rest) after failed :=
  first.append second

/-- A loop: its invariant speaks of the items that are done. -/
theorem forEach {Item : Type*} {body : Item → List Call} {items : List Item}
    {invariant : List Item → State → Prop}
    (step : ∀ done item rest, items = done ++ item :: rest →
      Establishes perform (invariant done) (body item) (invariant (done ++ [item])) failed) :
    Establishes perform (invariant []) (items.flatMap body) (invariant items) failed := by
  have loop : ∀ done rest, items = done ++ rest →
      Establishes perform (invariant done) (rest.flatMap body) (invariant items) failed := by
    intro done rest
    induction rest generalizing done with
    | nil =>
        intro same
        rw [List.append_nil] at same
        subst same
        exact nil fun _ holds => holds
    | cons item rest ih =>
        intro same
        rw [List.flatMap_cons]
        exact (step done item rest same).append (ih (done ++ [item]) (by rw [same]; simp))
  exact loop [] items rfl

end Establishes

end StoppingRun
