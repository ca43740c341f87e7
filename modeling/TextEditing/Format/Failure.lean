/-
Module: TextEditing.Format.Failure
Purpose: Why a text could not be formatted.
Main exports: FormatError, FormatError.message
-/
import TextEditing.Edit.Failure
import TextEditing.Options.Failure

namespace TextEditing

/-- Why a text could not be formatted. -/
inductive FormatError where
  /-- The preferences cannot be turned into options. -/
  | options (cause : OptionsError)
  /-- The region, in characters, does not lie inside the text. -/
  | region (region : Span) (length : Nat)
  /-- The service had no changes to offer. -/
  | service (reason : String)
  /-- The changes could not be applied; the text is as before. -/
  | apply (cause : ApplyError)
  /-- The changes could not all be applied; some of them may have been made. -/
  | interrupted (cause : Interruption)
deriving Repr, Inhabited, DecidableEq

/-- The wording of the error. -/
def FormatError.message : FormatError → String
  | options cause => "invalid formatting options: " ++ cause.message
  | region span length =>
      "region " ++ span.text ++ " is outside the document (length " ++ toString length ++ ")"
  | service reason => "formatting service failed: " ++ reason
  | apply cause => "failed to apply formatting edits: " ++ cause.message
  | interrupted cause => "formatting stopped: " ++ cause.message

end TextEditing
