/-
Why a command fails.
-/
import MessageCompiler.Artifact.Store
import MessageCompiler.Catalogue.Load
import MessageCompiler.Command.Assignment
import MessageCompiler.Command.Flag
import MessageCompiler.Compile.Error
import MessageCompiler.Live.Apply
import MessageCompiler.Markup.Render

namespace MessageCompiler.Command

/-- How many arguments a command takes. -/
inductive Arity where
  | exactlyOne
  | atMostOne
  deriving DecidableEq, Repr

/-- Why a command fails. -/
inductive Failure where
  | unknownVerb (text : String)
  | flag (e : FlagError)
  | arity (expected : Arity) (received : Nat)
  | unknownLevel (name : String)
  | noMessage
  | noIdentifier
  | load (e : LoadError)
  | catalogue (e : CatalogueError)
  | malformedIcu (e : Message.IcuError)
  | badDecls (count : Int)
  | compile (e : CompileError)
  | store (e : StoreError)
  | assignment (name : String) (e : AssignmentError)
  | locale (tag : String) (e : LocaleError)
  | attach (e : Live.AttachError)
  | live (e : Fault)
  | render (e : Markup.RenderError)

def Failure.message : Failure → String
  | .unknownVerb text => text
  | .flag e => e.message
  | .arity .exactlyOne received => "accepts 1 arg(s), received " ++ Text.showInt received
  | .arity .atMostOne received => "accepts at most 1 arg(s), received " ++ Text.showInt received
  | .unknownLevel name => Level.unknown name
  | .noMessage => "a message or --bundle and --id are required"
  | .noIdentifier => "--id is required with --bundle"
  | .load e => e.message
  | .catalogue e => e.message
  | .malformedIcu e => (Cause.malformedIcu e).message
  | .badDecls count => "invalid declaration count " ++ Text.showInt count
  | .compile e => e.message
  | .store e => e.message
  | .assignment name e => name ++ ": " ++ e.message
  | .locale tag e => "invalid locale " ++ Text.quote tag ++ ": " ++ e.message
  | .attach e => e.message
  | .live _ => "the view cannot be updated"
  | .render e => e.message

end MessageCompiler.Command
