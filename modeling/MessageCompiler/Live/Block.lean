/-
Running messages.

A running message remembers the last value of every binding, so that an update touches only what has
changed.
-/
import MessageCompiler.Live.Apply

namespace MessageCompiler

/-- The last values of the bindings. -/
structure Bindings where
  values : List String
  /-- Whether values were ever bound. -/
  bound : Bool
  deriving DecidableEq, Repr

namespace Bindings

def new : Bindings := ⟨[], false⟩

/-- The bits of the bindings whose value differs, from binding `i` on. -/
def changes : (i : Nat) → (old new : List String) → Mask
  | _, _, [] => 0#32
  | i, [], _ :: new => Mask.ofBinding i ||| changes (i + 1) [] new
  | i, o :: old, n :: new =>
    (if o = n then 0#32 else Mask.ofBinding i) ||| changes (i + 1) old new

/-- Binds values from the first binding on; values that are not mentioned stay. Returns the mask of what
changed, which is everything the first time. -/
def bind (b : Bindings) (values : List String) : Mask × Bindings :=
  (if b.bound then changes 0 b.values values else Mask.all,
    ⟨values ++ b.values.drop values.length, true⟩)

end Bindings

/-- A running message. -/
structure LiveBlock where
  block : Block
  bindings : Bindings

namespace LiveBlock

def start (block : Block) : LiveM LiveBlock := do
  Live.applyCreate block.create
  return ⟨block, .new⟩

def update (t : TemplateView) (b : LiveBlock) (values : List String) : LiveM LiveBlock := do
  let (mask, bindings) := b.bindings.bind values
  if mask != 0#32 then Live.applyUpdates t b.block.update bindings.values mask
  return { b with bindings }

end LiveBlock

end MessageCompiler
