import DottedTree.Text.Quoted

namespace DottedTree

/-!
Dotted paths.

Any text splits into segments at its dots, and joining the segments with dots
gives the text back.  A path is a text all of whose segments are nonempty.  The
empty text is refused on its own grounds, although it splits into one empty
segment as well.
-/

/-- What is wrong with a text as a path. -/
inductive PathFault
  | empty
  | emptySegment
  | severalSegments
deriving DecidableEq, Repr

namespace PathFault

def reason : PathFault -> String
  | .empty => "the path is empty"
  | .emptySegment => "the path has an empty segment"
  | .severalSegments => "a root key must be a single segment"

end PathFault

/-- A refused path, exactly as it was given. -/
structure PathError where
  path : String
  fault : PathFault
deriving DecidableEq, Repr

namespace PathError

def message (error : PathError) : String :=
  "invalid path " ++ Text.quoted error.path ++ ": " ++ error.fault.reason

end PathError

namespace Path

/-- The pieces of a text between its dots, at least one. -/
def splitChars : List Char -> List (List Char)
  | [] => [[]]
  | c :: rest => if c = '.' then [] :: splitChars rest else (splitChars rest).modifyHead (c :: ·)

/-- The segments of a text. -/
def split (text : String) : List String := (splitChars text.toList).map String.ofList

/-- Segments with dots between them. -/
def join : List String -> String
  | [] => ""
  | first :: rest => rest.foldl (fun text segment => text ++ "." ++ segment) first

/-- The segments of a path. -/
def parse (text : String) : Except PathError (List String) :=
  if text = "" then .error ⟨text, .empty⟩
  else if (split text).any String.isEmpty then .error ⟨text, .emptySegment⟩
  else .ok (split text)

/-- A path of one segment, as the key of a root has to be. -/
def parseKey (text : String) : Except PathError String :=
  match parse text with
  | .error error => .error error
  | .ok [key] => .ok key
  | .ok _ => .error ⟨text, .severalSegments⟩

/-- A text without one dot in front of it. -/
def withoutLeadingDot (text : String) : String :=
  match text.toList with
  | '.' :: rest => String.ofList rest
  | _ => text

theorem splitChars_ne_nil (text : List Char) : splitChars text ≠ [] := by
  induction text with
  | nil => simp [splitChars]
  | cons c rest ih =>
      by_cases dot : c = '.'
      · simp [splitChars, dot]
      · cases pieces : splitChars rest with
        | nil => exact absurd pieces ih
        | cons first others => simp [splitChars, dot, pieces]

end Path
end DottedTree
