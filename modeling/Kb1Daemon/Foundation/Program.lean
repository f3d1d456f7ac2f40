/-! # Programs that call a system

A program ends with a value, throws, or makes a call and goes on with the answer; what the calls
do is left to the system. `Program.Meets` says what every call of a program satisfies and every
value it ends with, for all answers; it is kept by sequencing and by handlers
(`Program.Meets.bind`, `Program.Meets.handle`). On a system with a state and with others at work
between the calls, `Program.Secure` says what holds at the end of every run (`Program.Secure.bind`,
`Program.Secure.handle`); without others, these are the runs of `Program.Runs`. What a program
that only looks ends with is given by `Program.Gives`.
-/

universe u

/-- A computation that ends, throws, or calls and goes on with the answer. -/
inductive Program (Call : Type → Type) (Failure : Type) (Value : Type) : Type 1 where
  | done (value : Value)
  | thrown (failure : Failure)
  | call {Answer : Type} (request : Call Answer) (next : Answer → Program Call Failure Value)

namespace Program

variable {Call : Type → Type} {Failure Value Other : Type}

/-- One program after another; the second is left out when the first throws. -/
def bind (next : Value → Program Call Failure Other) :
    Program Call Failure Value → Program Call Failure Other
  | .done value => next value
  | .thrown failure => .thrown failure
  | .call request rest => .call request fun answer => bind next (rest answer)

instance : Monad (Program Call Failure) where
  pure := .done
  bind program next := program.bind next

@[simp]
theorem done_bind (value : Value) (next : Value → Program Call Failure Other) :
    (Program.done value >>= next) = next value := rfl

/-- `try` and `catch`. -/
def handle (handler : Failure → Program Call Failure Value) :
    Program Call Failure Value → Program Call Failure Value
  | .done value => .done value
  | .thrown failure => handler failure
  | .call request rest => .call request fun answer => handle handler (rest answer)

/-- Every call is allowed, whatever was answered before it, and so is every value at the end. -/
def Meets (allowed : ∀ {Answer : Type}, Call Answer → Prop) (ends : Value → Prop) :
    Program Call Failure Value → Prop
  | .done value => ends value
  | .thrown _ => True
  | .call request next => allowed request ∧ ∀ answer, Meets allowed ends (next answer)

namespace Meets

variable {allowed : ∀ {Answer : Type}, Call Answer → Prop} {ends : Value → Prop}
  {program : Program Call Failure Value}

theorem weaken {weaker : Value → Prop} (meets : program.Meets allowed ends)
    (weaken : ∀ value, ends value → weaker value) : program.Meets allowed weaker := by
  induction program with
  | done value => exact weaken value meets
  | thrown failure => trivial
  | call request next ih => exact ⟨meets.1, fun answer => ih answer (meets.2 answer)⟩

theorem bind {next : Value → Program Call Failure Other} {goal : Other → Prop}
    (first : program.Meets allowed ends)
    (rest : ∀ value, ends value → (next value).Meets allowed goal) :
    (program >>= next).Meets allowed goal := by
  change (Program.bind next program).Meets allowed goal
  induction program with
  | done value => exact rest value first
  | thrown failure => trivial
  | call request later ih => exact ⟨first.1, fun answer => ih answer (first.2 answer)⟩

/-- What meets the rule after another program lets that one meet it. -/
theorem of_bind {next : Value → Program Call Failure Other} {goal : Other → Prop}
    (meets : (program >>= next).Meets allowed goal) :
    program.Meets allowed fun value => (next value).Meets allowed goal := by
  change (Program.bind next program).Meets allowed goal at meets
  induction program with
  | done value => exact meets
  | thrown failure => trivial
  | call request later ih => exact ⟨meets.1, fun answer => ih answer (meets.2 answer)⟩

theorem handle {handler : Failure → Program Call Failure Value}
    (first : program.Meets allowed ends)
    (caught : ∀ failure, (handler failure).Meets allowed ends) :
    (program.handle handler).Meets allowed ends := by
  induction program with
  | done value => exact first
  | thrown failure => exact caught failure
  | call request next ih => exact ⟨first.1, fun answer => ih answer (first.2 answer)⟩

theorem of_handle {handler : Failure → Program Call Failure Value}
    (meets : (program.handle handler).Meets allowed ends) : program.Meets allowed ends := by
  induction program with
  | done value => exact meets
  | thrown failure => trivial
  | call request next ih => exact ⟨meets.1, fun answer => ih answer (meets.2 answer)⟩

end Meets

section System

variable {State : Type u}

/-- Whatever others do between the calls within what is relied upon, the calls being answered as
the system may, a value at the end and the state then satisfy `ends`, and a failure `fails`. -/
def Secure (rely : State → State → Prop)
    (answers : ∀ {Answer : Type}, Call Answer → State → Answer → State → Prop)
    (ends : Value → State → Prop) (fails : Failure → State → Prop) :
    Program Call Failure Value → State → Prop
  | .done value, state => ∀ later, rely state later → ends value later
  | .thrown failure, state => ∀ later, rely state later → fails failure later
  | .call request next, state => ∀ later, rely state later → ∀ answer after,
      answers request later answer after → Secure rely answers ends fails (next answer) after

/-- A run of the program alone, from a state to an outcome and a state. -/
inductive Runs (answers : ∀ {Answer : Type}, Call Answer → State → Answer → State → Prop) :
    Program Call Failure Value → State → Except Failure Value → State → Prop where
  | done (value : Value) (state : State) : Runs answers (.done value) state (.ok value) state
  | thrown (failure : Failure) (state : State) :
      Runs answers (.thrown failure) state (.error failure) state
  | call {Answer : Type} {request : Call Answer} {next : Answer → Program Call Failure Value}
      {state after last : State} {answer : Answer} {outcome : Except Failure Value} :
      answers request state answer after → Runs answers (next answer) after outcome last →
        Runs answers (.call request next) state outcome last

/-- Run a program on a system that performs its calls. -/
def run (perform : ∀ {Answer : Type}, Call Answer → State → Answer × State) :
    Program Call Failure Value → State → Except Failure Value × State
  | .done value, state => (.ok value, state)
  | .thrown failure, state => (.error failure, state)
  | .call request next, state =>
      run perform (next (perform request state).1) (perform request state).2

/-- Every call that is performed is as it should be in the state in which it is performed. -/
def runCheck (perform : ∀ {Answer : Type}, Call Answer → State → Answer × State)
    (good : ∀ {Answer : Type}, Call Answer → State → Bool) :
    Program Call Failure Value → State → Bool
  | .done _, _ => true
  | .thrown _, _ => true
  | .call request next, state => good request state &&
      runCheck perform good (next (perform request state).1) (perform request state).2

/-- What is performed is a run. -/
theorem runs_run {answers : ∀ {Answer : Type}, Call Answer → State → Answer → State → Prop}
    {perform : ∀ {Answer : Type}, Call Answer → State → Answer × State}
    {good : ∀ {Answer : Type}, Call Answer → State → Bool}
    (performs : ∀ {Answer : Type} (request : Call Answer) state, good request state = true →
      answers request state (perform request state).1 (perform request state).2)
    (program : Program Call Failure Value) (state : State)
    (checked : program.runCheck perform good state = true) :
    program.Runs answers state (program.run perform state).1 (program.run perform state).2 := by
  induction program generalizing state with
  | done value => exact .done value state
  | thrown failure => exact .thrown failure state
  | call request next ih =>
      obtain ⟨first, rest⟩ := Bool.and_eq_true_iff.mp checked
      exact .call (performs request state first) (ih _ _ rest)

/-- A run of one program after another goes on where the first ended. -/
theorem run_bind (perform : ∀ {Answer : Type}, Call Answer → State → Answer × State)
    (program : Program Call Failure Value) (next : Value → Program Call Failure Other)
    (state : State) :
    (program >>= next).run perform state =
      match program.run perform state with
      | (.ok value, after) => (next value).run perform after
      | (.error failure, after) => (.error failure, after) := by
  change (Program.bind next program).run perform state = _
  induction program generalizing state with
  | done value => rfl
  | thrown failure => rfl
  | call request rest ih => exact ih _ _

theorem run_handle (perform : ∀ {Answer : Type}, Call Answer → State → Answer × State)
    (program : Program Call Failure Value) (handler : Failure → Program Call Failure Value)
    (state : State) :
    (program.handle handler).run perform state =
      match program.run perform state with
      | (.ok value, after) => (.ok value, after)
      | (.error failure, after) => (handler failure).run perform after := by
  induction program generalizing state with
  | done value => rfl
  | thrown failure => rfl
  | call request rest ih => exact ih _ _

/-- The run of a program from a state ends with an outcome and leaves the state as it was. -/
def Gives (perform : ∀ {Answer : Type}, Call Answer → State → Answer × State) (state : State)
    (program : Program Call Failure Value) (outcome : Except Failure Value) : Prop :=
  program.run perform state = (outcome, state)

namespace Gives

variable {perform : ∀ {Answer : Type}, Call Answer → State → Answer × State} {state : State}
  {program : Program Call Failure Value} {outcome : Except Failure Value} {value : Value}
  {failure : Failure}

/-- A program that is done gives its value. -/
theorem done (value : Value) : Gives perform state (.done value : Program Call Failure Value)
    (.ok value) := rfl

/-- A failure is given as it is. -/
theorem thrown (failure : Failure) :
    Gives perform state (.thrown failure : Program Call Failure Value) (.error failure) := rfl

/-- A call that leaves the state as it is. -/
theorem call {Answer : Type} {request : Call Answer} {answer : Answer}
    {next : Answer → Program Call Failure Value}
    (answered : perform request state = (answer, state))
    (rest : Gives perform state (next answer) outcome) :
    Gives perform state (.call request next) outcome := by
  change run perform (next (perform request state).1) (perform request state).2 = (outcome, state)
  rw [answered]
  exact rest

theorem bind {next : Value → Program Call Failure Other} {last : Except Failure Other}
    (first : Gives perform state program (.ok value))
    (rest : Gives perform state (next value) last) :
    Gives perform state (program >>= next) last := by
  unfold Gives at first ⊢
  rw [run_bind, first]
  exact rest

/-- What follows a failure is not run. -/
theorem bind_error (next : Value → Program Call Failure Other)
    (first : Gives perform state program (.error failure)) :
    Gives perform state (program >>= next) (.error failure) := by
  unfold Gives at first ⊢
  rw [run_bind, first]

theorem handle {handler : Failure → Program Call Failure Value}
    (first : Gives perform state program (.ok value)) :
    Gives perform state (program.handle handler) (.ok value) := by
  unfold Gives at first ⊢
  rw [run_handle, first]

/-- A failure is handed to the handler. -/
theorem handle_error {handler : Failure → Program Call Failure Value}
    (first : Gives perform state program (.error failure))
    (rest : Gives perform state (handler failure) outcome) :
    Gives perform state (program.handle handler) outcome := by
  unfold Gives at first ⊢
  rw [run_handle, first]
  exact rest

end Gives

namespace Secure

variable {rely : State → State → Prop}
  {answers : ∀ {Answer : Type}, Call Answer → State → Answer → State → Prop}
  {ends : Value → State → Prop} {fails : Failure → State → Prop}
  {program : Program Call Failure Value} {state : State}

theorem weaken {weaker : Value → State → Prop} {milder : Failure → State → Prop}
    (secure : program.Secure rely answers ends fails state)
    (weaken : ∀ value state, ends value state → weaker value state)
    (soften : ∀ failure state, fails failure state → milder failure state) :
    program.Secure rely answers weaker milder state := by
  induction program generalizing state with
  | done value => exact fun later kept => weaken value later (secure later kept)
  | thrown failure => exact fun later kept => soften failure later (secure later kept)
  | call request next ih =>
      exact fun later kept answer after given => ih answer (secure later kept answer after given)

/-- Two bounds of a program hold together. -/
theorem and {other : Value → State → Prop} {milder : Failure → State → Prop}
    (secure : program.Secure rely answers ends fails state)
    (also : program.Secure rely answers other milder state) :
    program.Secure rely answers (fun value state => ends value state ∧ other value state)
      (fun failure state => fails failure state ∧ milder failure state) state := by
  induction program generalizing state with
  | done value => exact fun later kept => ⟨secure later kept, also later kept⟩
  | thrown failure => exact fun later kept => ⟨secure later kept, also later kept⟩
  | call request next ih =>
      exact fun later kept answer after given =>
        ih answer (secure later kept answer after given) (also later kept answer after given)

/-- What is known of every value at the end holds with what is secure. -/
theorem meets {allowed : ∀ {Answer : Type}, Call Answer → Prop} {known : Value → Prop}
    (secure : program.Secure rely answers ends fails state) (meets : program.Meets allowed known) :
    program.Secure rely answers (fun value state => ends value state ∧ known value) fails state := by
  induction program generalizing state with
  | done value => exact fun later kept => ⟨secure later kept, meets⟩
  | thrown failure => exact secure
  | call request next ih =>
      exact fun later kept answer after given =>
        ih answer (secure later kept answer after given) (meets.2 answer)

/-- What is secure stays secure while others are at work. -/
theorem stable (trans : ∀ {first second third}, rely first second → rely second third →
      rely first third)
    (secure : program.Secure rely answers ends fails state) {later : State}
    (kept : rely state later) : program.Secure rely answers ends fails later := by
  cases program with
  | done value => exact fun last next => secure last (trans kept next)
  | thrown failure => exact fun last next => secure last (trans kept next)
  | call request next => exact fun last again => secure last (trans kept again)

theorem bind {next : Value → Program Call Failure Other} {goal : Other → State → Prop}
    (refl : ∀ state, rely state state)
    (first : program.Secure rely answers ends fails state)
    (rest : ∀ value state, ends value state → (next value).Secure rely answers goal fails state) :
    (program >>= next).Secure rely answers goal fails state := by
  change (Program.bind next program).Secure rely answers goal fails state
  induction program generalizing state with
  | done value => exact rest value state (first state (refl state))
  | thrown failure => exact first
  | call request later ih =>
      exact fun last kept answer after given => ih answer (first last kept answer after given)

theorem handle {handler : Failure → Program Call Failure Value}
    {raised : Failure → State → Prop} (refl : ∀ state, rely state state)
    (first : program.Secure rely answers ends raised state)
    (caught : ∀ failure state, raised failure state →
      (handler failure).Secure rely answers ends fails state) :
    (program.handle handler).Secure rely answers ends fails state := by
  induction program generalizing state with
  | done value => exact first
  | thrown failure => exact caught failure state (first state (refl state))
  | call request next ih =>
      exact fun later kept answer after given => ih answer (first later kept answer after given)

/-- Every run of a secure program alone ends as it should. -/
theorem runs (refl : ∀ state, rely state state)
    (secure : program.Secure rely answers ends fails state) {outcome : Except Failure Value}
    {last : State} (run : program.Runs answers state outcome last) :
    (∀ value, outcome = .ok value → ends value last) ∧
      ∀ failure, outcome = .error failure → fails failure last := by
  induction run with
  | done value state =>
      refine ⟨?_, by rintro _ ⟨⟩⟩
      rintro _ ⟨⟩
      exact secure state (refl state)
  | thrown failure state =>
      refine ⟨by rintro _ ⟨⟩, ?_⟩
      rintro _ ⟨⟩
      exact secure state (refl state)
  | call given _ ih => exact ih (secure _ (refl _) _ _ given)

end Secure

end System

end Program
