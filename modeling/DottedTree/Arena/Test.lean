import DottedTree.Arena.Compare
import DottedTree.Arena.Lookup
import DottedTree.Criterion

namespace DottedTree

/-!
Tests of nodes in stores.

A test starts from a reference to a node and follows the links from there.  It may hold a
reference to another node as well, of whatever store.  The children of a node are looked for
by their keys, or they are tested one after the other until one of them passes.

The key of an element is checked by its bytes.  In UTF-8 every blank and every digit is a
byte of its own, and no byte of a longer character is one of them.
-/

namespace ElementKey

/-- The bytes of some characters in UTF-8. -/
def bytes (text : List Char) : List UInt8 := text.flatMap String.utf8EncodeChar

/-- The blanks that the name of an element must not contain, as bytes. -/
def isBlankByte (byte : UInt8) : Bool :=
  byte == 0x20 || byte == 0x09 || byte == 0x0a || byte == 0x0b || byte == 0x0c || byte == 0x0d

def isDigitByte (byte : UInt8) : Bool := decide (0x30 ≤ byte) && decide (byte ≤ 0x39)

/-- Whether a key is a name without blanks and an index in brackets, which has digits only
and may have none. -/
def accepts (key : String) : Bool :=
  match Criterion.nameAndIndex? key.toList with
  | some (name, index) =>
      !name.isEmpty && !(bytes name).any isBlankByte && (bytes index).all isDigitByte
  | none => false

end ElementKey

variable {σ τ : Type} [Slots σ] [Slots τ]

namespace Test

def keyIs (key : String) : Test σ := fun node => do
  let cell <- node.look
  return cell.key == key

def isLeaf : Test σ := fun node => do
  let cell <- node.look
  return cell.value?.isSome

def isElement : Test σ := fun node => do
  let cell <- node.look
  return ElementKey.accepts cell.key

def hasChild (key : String) : Test σ := fun node => do
  let child <- Slots.childUnder node.slots node.slot key
  return child.isSome

/-- The node agrees by itself with another one, of whatever store. -/
def alike (other : Reference τ) : Test σ := fun node => do
  let cell <- node.look
  let facing <- other.look
  return cell.alike facing

/-- Some child agrees by itself with another node, of whatever store.  The children behind
that one are not looked at. -/
def hasChildAlike (other : Reference τ) : Test σ := fun node => do
  let cell <- node.look
  (cell.children.map (Reference.mk node.slots)).anyM (alike other)

/-- The child under a key is a leaf with a value. -/
def hasLeaf (key : String) (value : Scalar) : Test σ := fun node => do
  let child <- Slots.childUnder node.slots node.slot key
  let found <- Slots.valueOf? node.slots child
  return found.any (·.equal value)

/-- The second test is made only if the first one is passed. -/
def both (first second : Test σ) : Test σ := fun node => do
  if <- first node then second node else return false

/-- The second test is made only if the first one is not passed. -/
def either (first second : Test σ) : Test σ := fun node => do
  if <- first node then return true else second node

def negated (test : Test σ) : Test σ := fun node => do
  let passed <- test node
  return !passed

end Test
end DottedTree
