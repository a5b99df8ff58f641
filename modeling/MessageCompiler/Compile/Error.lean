/-
What can go wrong when a message is compiled.
-/
import MessageCompiler.Message.Parser
import MessageCompiler.Message.Region

namespace MessageCompiler

open Message (IcuError RegionError ScopeError)

/-- What is wrong with a placeholder. -/
inductive PlaceholderError where
  /-- Its slot is none of the declared ones. -/
  | outside (name : String)
  /-- Its slot is the one of the message itself. -/
  | ownSlot (name : String)
  /-- It closes something else than the innermost open placeholder. -/
  | unexpectedClosing (name : String)
  /-- Its slot holds something else than a placeholder. -/
  | slotInUse (name : String) (slot : Int)
  | neverClosed (slot : Int)
  deriving DecidableEq, Repr

def PlaceholderError.message : PlaceholderError → String
  | .outside name => Text.quote name ++ " references a slot outside of the template"
  | .ownSlot name => Text.quote name ++ " references the i18n block itself"
  | .unexpectedClosing name => "unexpected closing " ++ Text.quote name
  | .slotInUse name slot =>
    Text.quote name ++ " references slot " ++ Text.showInt slot ++ ", which is already in use"
  | .neverClosed slot => "placeholder for slot " ++ Text.showInt slot ++ " is never closed"

def RegionError.message : RegionError → String
  | .unclosed tag => "no closing marker for " ++ Text.quote (String.ofList tag)
  | .absent child => "sub-template " ++ Text.showInt child ++ " not found"
  | .unfinished child => "sub-template " ++ Text.showInt child ++ " is not closed"

/-- Why a message was refused. -/
inductive Cause where
  | malformedIcu (e : IcuError)
  | unresolvableRegion (e : RegionError)
  | icuInAttribute
  | invalidPlaceholder (e : PlaceholderError)
  /-- The markup of an ICU case could not be read. -/
  | markup (label reason : String)
  deriving DecidableEq, Repr

def Cause.message : Cause → String
  | .malformedIcu e => "malformed ICU expression: " ++ e.message
  | .unresolvableRegion e => "unresolvable sub-template: " ++ RegionError.message e
  | .icuInAttribute => "ICU expressions are not supported in attributes"
  | .invalidPlaceholder e => "invalid placeholder: " ++ e.message
  | .markup label reason => "ICU case " ++ Text.quote label ++ ": " ++ reason

/-- A failure to compile. -/
inductive CompileError where
  /-- The slot for a message is not in the view. -/
  | outsideView (index : Int)
  /-- The slot for bound attributes is not in the view. -/
  | attributesOutsideView (index : Int)
  /-- Names and messages do not come in pairs. -/
  | oddPairs (count : Nat)
  /-- A message was refused; it is named so that it can be found. -/
  | refused (message : String) (cause : Cause)
  deriving DecidableEq, Repr

namespace CompileError

def message : CompileError → String
  | .outsideView index => "i18n index " ++ Text.showInt index ++ " is outside of the view"
  | .attributesOutsideView index =>
    "i18n attributes index " ++ Text.showInt index ++ " is outside of the view"
  | .oddPairs count =>
    "i18n attributes need name/message pairs, got " ++ Text.showInt count ++ " values"
  | .refused message cause =>
    match cause with
    | .malformedIcu _ =>
      "Unable to parse ICU expression in " ++ Text.quote message ++ " message: " ++ cause.message
    | .unresolvableRegion _ =>
      "Tag mismatch: unable to find the end of the sub-template in the translation " ++
        Text.quote message ++ ": " ++ cause.message
    | .icuInAttribute =>
      "ICU expressions are not supported in attributes. Message: " ++ Text.quote message ++ "."
    | _ => "unable to compile " ++ Text.quote message ++ " message: " ++ cause.message

def ofScope (e : ScopeError) : CompileError :=
  .refused (String.ofList e.text) (.unresolvableRegion e.cause)

end CompileError

end MessageCompiler
