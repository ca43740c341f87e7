/-
Module: TextEditing.Options.Failure
Purpose: Why preferences cannot be turned into options.
Main exports: OptionsError, OptionsError.message
-/
import TextEditing.Numeric.Integer

namespace TextEditing

/-- Why preferences cannot be turned into options. -/
inductive OptionsError where
  /-- The text names none of the alternatives of a choice; `title` says what is chosen. -/
  | unknownValue (title value : String)
  /-- A number of columns must lie between 0 and `2 ^ 32 - 1`. -/
  | invalidNumber (key : String) (value : Int64)
deriving Repr, Inhabited, DecidableEq

/-- The wording of the error. -/
def OptionsError.message : OptionsError → String
  | .unknownValue title value => "unknown " ++ title ++ " value '" ++ value ++ "'"
  | .invalidNumber key value =>
      "preference '" ++ key ++ "' must be a non-negative 32-bit integer, got "
        ++ Integer.text value.toInt

end TextEditing
