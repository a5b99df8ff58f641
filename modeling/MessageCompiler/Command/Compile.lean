/-
Compiling a message on its own.

* **`compileMessage`** — compiles a message into the first slot of a new view.
* **`compileText`** — the text that is printed for a message, with or without a store of artifacts.
-/
import MessageCompiler.Artifact.Digest
import MessageCompiler.Command.Failure
import MessageCompiler.Command.Setting
import MessageCompiler.Compile.Message
import MessageCompiler.Compile.Standard

namespace MessageCompiler.Command

open Message (Scope)

/-- A message compiled on its own. -/
structure Compiled where
  view : TemplateView
  block : Block

/-- Compiles a message into the first slot of a new view. -/
def compileMessage (s : Settings) (message : String) (sub : Int) : Reported Failure Compiled :=
  if s.decls < 0 then .fail (.badDecls s.decls)
  else
    let t := TemplateView.new s.decls 0
    let o := t.compile .standard ⟨s.parent, TemplateView.header⟩ message (.ofInt sub)
    ⟨o.log,
      match o.result with
      | .ok h => .ok ⟨o.view, h.block⟩
      | .error e => .error (.compile e)⟩

/-- The instructions of a compiled message, as statements. -/
def Compiled.listing (c : Compiled) : String :=
  "create:\n" ++ Text.indent (CreateOp.listingAll c.block.create) ++ "\nupdate:\n" ++
    Text.indent (UpdateOp.listingAll c.block.update) ++ "\n" ++
    String.join (c.view.icus.map fun (slot, icu) =>
      "icu " ++ Text.showInt slot ++ ":\n" ++ Text.indent icu.listing ++ "\n")

def Compiled.artifact (c : Compiled) (message : String) : Artifact :=
  .ofBlock (Digest.messageId message "") c.block c.view

/-- What compiling prints, and the store afterwards. -/
structure CompileResult where
  store : Option Store
  log : List Entry
  result : Except Failure String

def compileListing (s : Settings) (message : String) (sub : Int) : Reported Failure String := do
  return (← compileMessage s message sub).listing

/-- Compiles a message to an artifact and puts it into the store. -/
def compileAndStore (store : Option Store) (s : Settings) (key message : String) (sub : Int) :
    CompileResult :=
  let compiled := compileMessage s message sub
  match compiled.result with
  | .error e => ⟨store, compiled.log, .error e⟩
  | .ok c =>
    let artifact := c.artifact message
    match store with
    | none => ⟨none, compiled.log, .ok artifact.text⟩
    | some rows =>
      ⟨some (rows.put key artifact),
        compiled.log ++ [⟨.debug, "cached artifact", [("key", .text key)]⟩], .ok artifact.text⟩

/-- The text for a message: an artifact if the format is `json`, and statements otherwise. Artifacts come
from the store if it has them. -/
def compileText (store : Option Store) (s : Settings) (message : String) (sub : Int) : CompileResult :=
  if s.format != "json" then
    let warnings : List Entry :=
      if store.isSome then [⟨.warning, "the cache only serves json output, ignoring it", []⟩] else []
    let listing := compileListing s message sub
    ⟨store, warnings ++ listing.log, listing.result⟩
  else
    let key := Digest.key message sub s.decls s.parent
    match store.map fun (rows : Store) => rows.get key with
    | none | some (.error .notFound) => compileAndStore store s key message sub
    | some (.error e) => ⟨store, [], .error (.store e)⟩
    | some (.ok artifact) =>
      ⟨store, [⟨.debug, "cache hit", [("key", .text key)]⟩], .ok artifact.text⟩

end MessageCompiler.Command
