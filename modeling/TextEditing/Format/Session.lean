/-
Module: TextEditing.Format.Session
Purpose: A formatter at work: requests are written down, and steps follow one another.
Main exports: Recorded, Session, Session.Action, Session.Transition, Session.step, Session.trace,
  Session.run
-/
import TextEditing.Format.Formatter

namespace TextEditing

/-!
The text and the preferences change while a formatter is used: each formatting step leaves the
buffer for the next one, and preferences may be changed in any way between two steps.
-/

/-- A service that writes down what it is asked. -/
structure Recorded (σ : Type) where
  service : σ
  /-- The requests so far, in this order. -/
  requests : List FormatRequest

instance {σ : Type} [FormatService σ] : FormatService (Recorded σ) where
  ask recorded request :=
    let (reply, service) := FormatService.ask recorded.service request
    (reply, ⟨service, recorded.requests ++ [request]⟩)

/-- A formatter with its service and the buffer it works on. -/
structure Session (σ β : Type) where
  formatter : Formatter
  service : Recorded σ
  buffer : β

namespace Session

/-- What may happen next. -/
inductive Action where
  | format (mode : FormatMode) (region : Span)
  | formatAll (mode : FormatMode)
  | prefer (change : Preferences → Preferences)

/-- One step: the session before and after it, and the answer if something was to be formatted. -/
structure Transition (σ β : Type) where
  before : Session σ β
  action : Action
  answer : Option (Except FormatError Delta)
  after : Session σ β

variable {σ β : Type} [FormatService σ] [TextBuffer β]

/-- The region to be formatted, if there is one. -/
def Transition.region? (transition : Transition σ β) : Option Span :=
  match transition.action with
  | .format _ region => some region
  | .formatAll _ => some ⟨0, TextBuffer.length transition.before.buffer⟩
  | .prefer _ => none

/-- The step that ends with an attempt to format. -/
def formatted (session : Session σ β) (action : Action)
    (attempt : Formatting β × Recorded σ) : Transition σ β where
  before := session
  action := action
  answer := some attempt.1.outcome.result
  after := { session with buffer := attempt.1.outcome.buffer, service := attempt.2 }

/-- The step that an action makes. -/
def step (session : Session σ β) (action : Action) : Transition σ β :=
  match action with
  | .format mode region =>
      session.formatted action
        (session.formatter.format mode session.service session.buffer region)
  | .formatAll mode =>
      session.formatted action (session.formatter.formatAll mode session.service session.buffer)
  | .prefer change =>
      { before := session
        action
        answer := none
        after :=
          { session with
            formatter :=
              { session.formatter with
                preferences := change session.formatter.preferences } } }

theorem before_step (session : Session σ β) (action : Action) :
    (session.step action).before = session := by
  cases action <;> rfl

/-- The steps that the actions make, one after the other. -/
def trace (session : Session σ β) : List Action → List (Transition σ β)
  | [] => []
  | action :: rest => session.step action :: trace (session.step action).after rest

/-- The session after the actions. -/
def run (session : Session σ β) : List Action → Session σ β
  | [] => session
  | action :: rest => run (session.step action).after rest

end Session

end TextEditing
