namespace DottedTree

/-!
Outlines: text for inspection before it is laid out.

An outline is a word, a record with named fields, a list, or an outline wrapped
in a name.  One layout keeps it on one line.  The other gives every field, every
member and every wrapped content a line of its own, four spaces deeper than what
holds it, with a comma behind.  Both are written from front to back behind a text
that is handed on, so that no part is copied once for every outline around it.
-/

/-- The parts of a text for inspection. -/
inductive Outline
  | word (text : String)
  | record (name : String) (fields : List (String × Outline))
  | list (members : List Outline)
  | wrapped (name : String) (content : Outline)

namespace Outline

mutual

/-- The outline on one line, behind what is written already. -/
def lineOnto (written : String) : Outline -> String
  | .word text => written ++ text
  | .record name fields => fieldsLineOnto (written ++ name ++ " \x7b ") fields ++ " \x7d"
  | .list members => membersLineOnto (written ++ "[") members ++ "]"
  | .wrapped name content => lineOnto (written ++ name ++ "(") content ++ ")"

def fieldsLineOnto (written : String) : List (String × Outline) -> String
  | [] => written
  | [(name, content)] => lineOnto (written ++ name ++ ": ") content
  | (name, content) :: field :: fields =>
      fieldsLineOnto (lineOnto (written ++ name ++ ": ") content ++ ", ") (field :: fields)

def membersLineOnto (written : String) : List Outline -> String
  | [] => written
  | [member] => lineOnto written member
  | member :: other :: others =>
      membersLineOnto (lineOnto written member ++ ", ") (other :: others)

end

/-- The outline on one line. -/
def line (outline : Outline) : String := outline.lineOnto ""

/-- The beginning of a line at a depth. -/
def indentation (depth : Nat) : String := "".pushn ' ' (4 * depth)

mutual

/-- The outline over several lines, behind what is written already, its first
line begun. -/
def blockOnto (written : String) (depth : Nat) : Outline -> String
  | .word text => written ++ text
  | .record name fields =>
      fieldsBlockOnto (written ++ name ++ " \x7b\n") (depth + 1) fields ++
        indentation depth ++ "\x7d"
  | .list [] => written ++ "[]"
  | .list (member :: members) =>
      membersBlockOnto (written ++ "[\n") (depth + 1) (member :: members) ++
        indentation depth ++ "]"
  | .wrapped name content =>
      blockOnto (written ++ name ++ "(\n" ++ indentation (depth + 1)) (depth + 1) content ++
        ",\n" ++ indentation depth ++ ")"

def fieldsBlockOnto (written : String) (depth : Nat) : List (String × Outline) -> String
  | [] => written
  | (name, content) :: fields =>
      fieldsBlockOnto
        (blockOnto (written ++ indentation depth ++ name ++ ": ") depth content ++ ",\n")
        depth fields

def membersBlockOnto (written : String) (depth : Nat) : List Outline -> String
  | [] => written
  | member :: members =>
      membersBlockOnto (blockOnto (written ++ indentation depth) depth member ++ ",\n")
        depth members

end

/-- The outline over several lines. -/
def block (outline : Outline) : String := outline.blockOnto "" 0

end Outline

end DottedTree
