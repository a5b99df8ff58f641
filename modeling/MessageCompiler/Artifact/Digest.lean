/-
Digests of messages.

A message is known by a 63-bit number, printed in decimal. It is made of two 32-bit hashes of the UTF-8
bytes, from different seeds; a second text, if there is one, is mixed in.
-/
import MessageCompiler.Text.Decimal
import MessageCompiler.Text.Quoted

namespace MessageCompiler.Digest

abbrev Word := BitVec 32

/-- The state of a hash. -/
structure State where
  a : Word
  b : Word
  c : Word
  deriving DecidableEq, Repr

/-- One of the nine steps of mixing: `x` is changed by the two others. -/
def blend (x y z shifted : Word) : Word := (x - y - z) ^^^ shifted

def mix (s : State) : State :=
  let a := blend s.a s.b s.c (s.c >>> 13)
  let b := blend s.b s.c a (a <<< 8)
  let c := blend s.c a b (b >>> 13)
  let a := blend a b c (c >>> 12)
  let b := blend b c a (a <<< 16)
  let c := blend c a b (b >>> 5)
  let a := blend a b c (c >>> 3)
  let b := blend b c a (a <<< 10)
  let c := blend c a b (b >>> 15)
  ⟨a, b, c⟩

def byte (b : UInt8) : Word := BitVec.ofNat 32 b.toNat

def word (b₀ b₁ b₂ b₃ : UInt8) : Word :=
  byte b₀ ||| byte b₁ <<< 8 ||| byte b₂ <<< 16 ||| byte b₃ <<< 24

/-- Adds byte number `i` of the last, incomplete block; `place` is its place in the word. The lowest byte
of `c` is kept for the length. -/
def addByte (s : State) (i place : Nat) (b : UInt8) : State :=
  if i < 4 then { s with a := s.a + byte b <<< (8 * place) }
  else if i < 8 then { s with b := s.b + byte b <<< (8 * place) }
  else { s with c := s.c + byte b <<< (8 * (place + 1)) }

/-- Adds the bytes of the last block from number `i` on. -/
def addBytes : State → (i place : Nat) → List UInt8 → State
  | s, _, _, [] => s
  | s, i, place, b :: rest => addBytes (addByte s i place b) (i + 1) ((place + 1) % 4) rest

/-- The last block: the length of the whole text counts too. -/
def finish (s : State) (length : Nat) (rest : List UInt8) : Word :=
  (mix (addBytes { s with c := s.c + BitVec.ofNat 32 length } 0 0 rest)).c

def hashFrom (length : Nat) : State → List UInt8 → Word
  | s, b₀ :: b₁ :: b₂ :: b₃ :: b₄ :: b₅ :: b₆ :: b₇ :: b₈ :: b₉ :: b₁₀ :: b₁₁ :: rest =>
    hashFrom length
      (mix ⟨s.a + word b₀ b₁ b₂ b₃, s.b + word b₄ b₅ b₆ b₇, s.c + word b₈ b₉ b₁₀ b₁₁⟩) rest
  | s, rest => finish s length rest

def hash32 (bytes : List UInt8) (seed : Word) : Word :=
  hashFrom bytes.length ⟨0x9e3779b9#32, 0x9e3779b9#32, seed⟩ bytes

/-- The fingerprint of a text; two values that would look like no fingerprint are avoided. -/
def fingerprint (text : String) : BitVec 64 :=
  let bytes := text.toUTF8.toList
  let high := hash32 bytes 0#32
  let low := hash32 bytes 102072#32
  if high = 0#32 && (low = 0#32 || low = 1#32) then
    (high ^^^ 0x130f9bef#32) ++ (low ^^^ 0x6b5f56d8#32)
  else high ++ low

def fingerprintText (text : String) : String := Text.hex 16 (fingerprint text).toNat

/-- The number of a message with a meaning, as text. -/
def messageId (message meaning : String) : String :=
  let f := fingerprint message
  let f := if meaning.isEmpty then f else f.rotateLeft 1 + fingerprint meaning
  Text.showInt (f &&& 0x7fffffffffffffff#64).toNat

/-- The key under which the compilation of a message for a template is stored. -/
def key (message : String) (scope decls parent : Int) : String :=
  messageId message
    ("scope:" ++ Text.showInt scope ++ ";decls:" ++ Text.showInt decls ++ ";parent:" ++
      Text.showInt parent)

end MessageCompiler.Digest
