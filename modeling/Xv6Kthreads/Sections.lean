import Mathlib.Algebra.BigOperators.Group.Finset.Basic
import Xv6Kthreads.LabelledRun

/-!
# Programs cut into atomic sections

A section is a function on a shared state that returns a value and the next
state, or stops: it panics, or it has to wait.  A program is a tree of
sections, each of which is chosen from the values that the earlier ones
returned.  For single sections and for programs that run alone, from their
first section to their last, there is a calculus of weakest preconditions.
-/

namespace Xv6Kthreads

namespace Sections

variable {State Stop α β : Type}

inductive Outcome (State Stop α : Type) where
  | done (value : α) (state : State)
  | stopped (reason : Stop)

/-- A section of code that no other thread interrupts. -/
def Act (State Stop α : Type) :=
  State → Outcome State Stop α

namespace Act

instance : Monad (Act State Stop) where
  pure value := fun state => .done value state
  bind act next := fun state =>
    match act state with
    | .done value after => next value after
    | .stopped reason => .stopped reason

def read (view : State → α) : Act State Stop α :=
  fun state => .done (view state) state

def modify (change : State → State) : Act State Stop Unit :=
  fun state => .done () (change state)

def stop (reason : Stop) : Act State Stop α :=
  fun _ => .stopped reason

def forEach (list : List α) (body : α → Act State Stop Unit) : Act State Stop Unit :=
  match list with
  | [] => pure ()
  | first :: rest => do
    body first
    forEach rest body

/-- The section ends in a value and state that satisfy `post`, or it stops for
an allowed reason. -/
def wp (act : Act State Stop α) (state : State) (allowed : Stop → Prop)
    (post : α → State → Prop) : Prop :=
  match act state with
  | .done value after => post value after
  | .stopped reason => allowed reason

variable {allowed : Stop → Prop} {state after : State}
variable {post weaker : α → State → Prop}

@[simp]
theorem wp_pure (value : α) : (pure value : Act State Stop α).wp state allowed post ↔
      post value state :=
  Iff.rfl

@[simp]
theorem wp_bind (act : Act State Stop β) (next : β → Act State Stop α) :
    (act >>= next).wp state allowed post ↔ act.wp state allowed fun value middle =>
        (next value).wp middle allowed post := by
  simp only [wp, bind]
  cases act state <;> rfl

@[simp]
theorem wp_read (view : State → α) : (read view : Act State Stop α).wp state allowed post ↔
      post (view state) state :=
  Iff.rfl

@[simp]
theorem wp_modify {post : Unit → State → Prop} (change : State → State) :
    (modify change : Act State Stop Unit).wp state allowed post ↔ post () (change state) :=
  Iff.rfl

@[simp]
theorem wp_stop (reason : Stop) : (stop reason : Act State Stop α).wp state allowed post ↔
      allowed reason :=
  Iff.rfl

variable {act : Act State Stop α}

theorem wp_mono (holds : act.wp state allowed post)
    (weaken : ∀ value after, post value after → weaker value after) :
    act.wp state allowed weaker := by
  unfold wp at holds ⊢
  cases result : act state with
  | done value after =>
    rw [result] at holds
    exact weaken value after holds
  | stopped reason =>
    rw [result] at holds
    exact holds

theorem wp_of_done {value : α} (holds : act.wp state allowed post)
    (result : act state = .done value after) : post value after := by
  unfold wp at holds
  rwa [result] at holds

theorem wp_iff_of_done {value : α} (result : act state = .done value after) :
    act.wp state allowed post ↔ post value after := by
  unfold wp
  rw [result]

theorem wp_of_stopped {reason : Stop} (holds : act.wp state allowed post)
    (result : act state = .stopped reason) : allowed reason := by
  unfold wp at holds
  rwa [result] at holds

theorem exists_done_of (cannot : ∀ reason, ¬ allowed reason) (holds : act.wp state allowed post) :
    ∃ value after, act state = .done value after ∧ post value after := by
  cases result : act state with
  | done value after => exact ⟨value, after, rfl, wp_of_done holds result⟩
  | stopped reason => exact absurd (wp_of_stopped holds result) (cannot reason)

theorem exists_done (holds : act.wp state (fun _ => False) post) :
    ∃ value after, act state = .done value after ∧ post value after :=
  exists_done_of (fun _ => id) holds

theorem eq_done {value : α} (holds : act.wp state (fun _ => False)
      fun returned final => returned = value ∧ final = after) :
    act state = .done value after := by
  obtain ⟨_, _, result, rfl, rfl⟩ := exists_done holds
  exact result

theorem bind_eq_done_iff {following : α → Act State Stop β} {value : β} :
    (act >>= following) state = .done value after ↔
      ∃ between middle, act state = .done between middle ∧
        following between middle = .done value after := by
  change (match act state with
    | .done between middle => following between middle
    | .stopped reason => .stopped reason) = _ ↔ _
  cases act state with
  | done between middle => simp
  | stopped reason => simp

theorem forEach_concat {list : List α} {last : α} {body : α → Act State Stop Unit}
    (result : forEach (list ++ [last]) body state = .done () after) :
    ∃ middle, forEach list body state = .done () middle ∧ body last middle = .done () after := by
  induction list generalizing state with
  | nil =>
    obtain ⟨_, middle, isMiddle, ended⟩ := bind_eq_done_iff.mp result
    cases ended
    exact ⟨state, rfl, isMiddle⟩
  | cons first rest ih =>
    obtain ⟨_, middle, isMiddle, result⟩ := bind_eq_done_iff.mp result
    obtain ⟨final, isFinal, ended⟩ := ih result
    exact ⟨final, bind_eq_done_iff.mpr ⟨_, middle, isMiddle, isFinal⟩, ended⟩

theorem wp_of_forall (stops : ∀ reason, allowed reason) (ends : ∀ value final, post value final) :
    act.wp state allowed post := by
  unfold wp
  cases act state with
  | done value final => exact ends value final
  | stopped reason => exact stops reason

end Act

/-- A program: a value, or a section and what follows it. -/
inductive Prog (State Stop α : Type) : Type 1 where
  | pure (value : α)
  | step {β : Type} (act : Act State Stop β) (next : β → Prog State Stop α)

namespace Prog

def bind : Prog State Stop α → (α → Prog State Stop β) → Prog State Stop β
  | .pure value, following => following value
  | .step act next, following => .step act fun value => (next value).bind following

instance : Monad (Prog State Stop) where
  pure := Prog.pure
  bind := Prog.bind

def atomic (act : Act State Stop α) : Prog State Stop α :=
  .step act .pure

def run : Prog State Stop α → Act State Stop α
  | .pure value => fun state => .done value state
  | .step act next => fun state =>
    match act state with
    | .done value after => (next value).run after
    | .stopped reason => .stopped reason

/-- The program, run alone, ends in a value and state that satisfy `post`, or
it stops for an allowed reason. -/
def wp (program : Prog State Stop α) (state : State) (allowed : Stop → Prop)
    (post : α → State → Prop) : Prop :=
  program.run.wp state allowed post

variable {allowed : Stop → Prop} {state : State}
variable {post weaker : α → State → Prop}

theorem wp_step (act : Act State Stop β) (next : β → Prog State Stop α) :
    (Prog.step act next).wp state allowed post ↔ act.wp state allowed fun value after =>
        (next value).wp after allowed post := by
  simp only [wp, Act.wp, run]
  cases act state <;> rfl

@[simp]
theorem wp_atomic (act : Act State Stop α) :
    (atomic act).wp state allowed post ↔ act.wp state allowed post := by
  rw [atomic, wp_step]
  rfl

@[simp]
theorem wp_bind (program : Prog State Stop β) (following : β → Prog State Stop α) :
    (program >>= following).wp state allowed post ↔ program.wp state allowed fun value after =>
        (following value).wp after allowed post := by
  induction program generalizing state with
  | pure value => exact Iff.rfl
  | step act next ih =>
    change (Prog.step act fun value => (next value).bind following).wp state allowed post ↔ _
    rw [wp_step, wp_step]
    constructor
    · intro holds
      exact Act.wp_mono holds fun value after rest => (ih value).mp rest
    · intro holds
      exact Act.wp_mono holds fun value after rest => (ih value).mpr rest

end Prog

end Sections

end Xv6Kthreads
