/-
Module: TextEditing.Format.Editing
Purpose: A document at work: it is edited, formatted and guarded, in any order.
Main exports: Editing.Action, Editing.Report, Editing.Transition, Editing.step, Editing.trace,
  Editing.run
-/
import TextEditing.Buffer.Document
import TextEditing.Edit.Operation
import TextEditing.Format.Session

namespace TextEditing

/-!
The document of a formatting session is changed in other ways as well: by single operations, and by
setting and lifting its guard.
-/

namespace Editing

/-- What may happen next to the document. -/
inductive Action where
  | operate (operation : Operation)
  /-- A step of the formatting session. -/
  | format (action : Session.Action)
  | setReadOnly (on : Bool)

/-- What is answered to an action. -/
inductive Report where
  | operated (answer : Answer)
  | formatted (answer : Option (Except FormatError Delta))
  | guarded

/-- One step: the session before and after it, and what was answered. -/
structure Transition (σ : Type) where
  before : Session σ Document
  action : Action
  report : Report
  after : Session σ Document

variable {σ : Type} [FormatService σ]

/-- The step that an action makes. -/
def step (session : Session σ Document) (action : Action) : Transition σ :=
  match action with
  | .operate operation =>
      let performed := operation.perform session.buffer
      ⟨session, action, .operated performed.1, { session with buffer := performed.2 }⟩
  | .format formatting =>
      let made := session.step formatting
      ⟨session, action, .formatted made.answer, made.after⟩
  | .setReadOnly on =>
      ⟨session, action, .guarded, { session with buffer := session.buffer.setReadOnly on }⟩

theorem before_step (session : Session σ Document) (action : Action) :
    (step session action).before = session := by
  cases action <;> rfl

theorem action_step (session : Session σ Document) (action : Action) :
    (step session action).action = action := by
  cases action <;> rfl

/-- The steps that the actions make, one after the other. -/
def trace (session : Session σ Document) : List Action → List (Transition σ)
  | [] => []
  | action :: rest => step session action :: trace (step session action).after rest

/-- The session after the actions. -/
def run (session : Session σ Document) : List Action → Session σ Document
  | [] => session
  | action :: rest => run (step session action).after rest

theorem run_append (session : Session σ Document) (first second : List Action) :
    run session (first ++ second) = run (run session first) second := by
  induction first generalizing session with
  | nil => rfl
  | cons action rest ih => exact ih (step session action).after

end Editing

end TextEditing
