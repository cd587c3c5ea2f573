import DottedTree.Tree.Place

namespace DottedTree

/-!
Tests of nodes.

A criterion is any test of a node where it stands, so it may look at the node,
above it and below it.  Those given here look at keys, at values and at children,
and combine.
-/

/-- A test of a node where it stands. -/
abbrev Criterion := Place -> Bool

namespace Criterion

def keyIs (key : String) : Criterion := fun place => place.key == key

/-- The key begins with a text. -/
def keyBegins (start : String) : Criterion := fun place =>
  start.toList.isPrefixOf place.key.toList

def isLeaf : Criterion := Place.isLeaf

/-- The blanks that the name of an element must not contain.  Blanks beyond these
six may stand in it. -/
def isBlank (c : Char) : Bool :=
  c == ' ' || c == '\t' || c == '\n' || c == '\x0b' || c == '\x0c' || c == '\r'

/-- The name and the index of a key such as `name[12]`: what stands before the
last opening bracket, and what stands between it and a closing one at the
end. -/
def nameAndIndex? (key : List Char) : Option (List Char × List Char) :=
  match key.reverse with
  | ']' :: rest =>
      match rest.dropWhile (· != '[') with
      | _ :: name => some (name.reverse, (rest.takeWhile (· != '[')).reverse)
      | [] => none
  | _ => none

/-- Whether a key is a name without blanks and an index in brackets, which has
digits only and may have none. -/
def isElementKey (key : String) : Bool :=
  match nameAndIndex? key.toList with
  | some (name, index) => !name.isEmpty && !name.any isBlank && index.all Char.isDigit
  | none => false

def isElement : Criterion := fun place => isElementKey place.key

def hasChild (key : String) : Criterion := (·.hasChild key)

/-- Some child agrees by itself with another node, of whatever tree. -/
def hasChildAlike (other : Place) : Criterion := (·.hasChildAlike other)

/-- The child under a key is a leaf with a value. -/
def hasLeaf (key : String) (value : Scalar) : Criterion := fun place =>
  ((place.child? key).bind Place.value?).any (·.equal value)

/-- The node agrees by itself with another one, of whatever tree. -/
def alike (other : Place) : Criterion := (·.alike other)

def both (first second : Criterion) : Criterion := fun place => first place && second place

def either (first second : Criterion) : Criterion := fun place => first place || second place

def negated (criterion : Criterion) : Criterion := fun place => !criterion place

end Criterion
end DottedTree
