/-
Which command a command line is for.

The first argument names the command. To find it, the values of flags in front of it have to be told
from arguments, although it is not yet known which flags there are: every flag counts as one with a
value, unless the value is written into it.

* **`Choice.find`** — the command and the rest of the line.
-/
import MessageCompiler.Command.Flag
import MessageCompiler.Text.Case

namespace MessageCompiler.Command

/-- What can be done with messages. -/
inductive Verb where
  | compile
  | parse
  | render
  | help
  deriving DecidableEq, Repr

namespace Verb

def name : Verb → String
  | .compile => "compile"
  | .parse => "parse"
  | .render => "render"
  | .help => "help"

def all : List Verb := [.compile, .parse, .render, .help]

def ofName? (s : String) : Option Verb := all.find? (·.name == s)

/-- The commands that are suggested for a misspelt one. -/
def suggested : List Verb := [.compile, .parse, .render]

def flags : Verb → List Flag
  | .compile =>
    [⟨"bundle", none, .text⟩, ⟨"id", none, .text⟩, ⟨"sub", none, .int⟩, ⟨"cache", none, .text⟩,
      ⟨"format", none, .text⟩]
  | .render =>
    [⟨"bundle", none, .text⟩, ⟨"id", none, .text⟩, ⟨"sub", none, .int⟩, ⟨"bind", none, .texts⟩,
      ⟨"element", none, .texts⟩]
  | .parse => []
  | .help => []

end Verb

def globalFlags : List Flag :=
  [⟨"config", none, .text⟩, ⟨"loglevel", some 'l', .text⟩, ⟨"locale", none, .text⟩,
    ⟨"decls", none, .int⟩, ⟨"parent", none, .int⟩, ⟨"marker", none, .text⟩, ⟨"help", some 'h', .switch⟩]

namespace Choice

/-- Whether an argument is a flag whose value is the next argument. -/
def takesNext (s : String) : Bool :=
  let cs := s.toList
  !cs.contains '=' && ("--".toList.isPrefixOf cs || (cs.length == 2 && cs.head? == some '-'))

/-- The arguments that are neither flags nor values of flags. A flag at the last place but one has no
value to skip, and ends the search. -/
def positional : List String → List String
  | [] => []
  | s :: rest =>
    if s == "--" then []
    else if takesNext s then
      match rest with
      | _ :: next :: more => positional (next :: more)
      | _ => []
    else if s.isEmpty || "-".toList.isPrefixOf s.toList then positional rest
    else s :: positional rest
termination_by args => args.length

/-- The distance between two texts: the least number of bytes that have to be inserted, removed or
replaced. `row` are the distances of the beginnings of `t` to what was read of the other text. -/
def nextRow (b : UInt8) (t : List UInt8) (row : List Nat) : List Nat :=
  match row with
  | [] => []
  | first :: rest =>
    let step (acc : List Nat × Nat × Nat) (p : UInt8 × Nat) : List Nat × Nat × Nat :=
      let (done, left, diagonal) := acc
      let (c, above) := p
      let best :=
        if c = b then diagonal else min (min (above + 1) (left + 1)) (diagonal + 1)
      (done ++ [best], best, above)
    (first + 1) :: ((t.zip rest).foldl step ([], first + 1, first)).1

def distance (s t : String) : Nat :=
  let t := (Text.lower t).toUTF8.toList
  let row := (Text.lower s).toUTF8.toList.foldl (fun row b => nextRow b t row)
    (List.range (t.length + 1))
  row.getLastD 0

def suggestions (name : String) : List String :=
  (Verb.suggested.map Verb.name).filter fun known =>
    distance name known ≤ 2 || (Text.lower name).toList.isPrefixOf known.toList

def unknown (name : String) : String :=
  "unknown command " ++ Text.quote name ++ " for \"ngc-i18n\"" ++
    match suggestions name with
    | [] => ""
    | names => "\n\nDid you mean this?\n" ++ String.join (names.map fun n => "\t" ++ n ++ "\n")

/-- The command of a line with the rest of the line, or nothing if it names none. -/
def find (line : List String) : Except String (Option (Verb × List String)) :=
  match positional line with
  | [] => .ok none
  | name :: _ =>
    match Verb.ofName? name with
    | some verb => .ok (some (verb, line.erase name))
    | none => .error (unknown name)

end Choice

end MessageCompiler.Command
