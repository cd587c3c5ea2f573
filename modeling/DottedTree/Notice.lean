import DottedTree.Scalar.Text

namespace DottedTree

/-!
Reports of what an operation decided.

Operations that settle a conflict, drop a value, or take a tree apart say so in
notices.  A notice is a fact with its data; its level and its text follow from
the fact.
-/

/-- How much a notice matters. -/
inductive Level
  | warning
  | debug
  | trace
deriving DecidableEq, Repr

def Level.label : Level -> String
  | .warning => "WARN"
  | .debug => "DEBUG"
  | .trace => "TRACE"

/-- One reported decision. -/
inductive Notice
  /-- A named root and a new top-level key now stand side by side. -/
  | widened (key rootKey : String)
  /-- A leaf became an inner node and lost its value. -/
  | promoted (key : String) (dropped : Scalar)
  /-- A value was not stored, since its node has children. -/
  | discarded (key : String) (value : Scalar)
  /-- A subtree took the place of a sibling with its key. -/
  | replaced (key : String)
  /-- Properties below a base path were loaded. -/
  | loaded (count : Nat) (base : String)
  /-- A child was handed over as a block of its own. -/
  | handedOver (key blockKey : String)
  /-- Some nodes of a tree were kept for their names. -/
  | filtered (kept total : Nat) (name : String)
deriving DecidableEq

namespace Notice

def level : Notice -> Level
  | .discarded .. => .warning
  | .widened .. | .promoted .. | .replaced .. | .loaded .. => .debug
  | .handedOver .. | .filtered .. => .trace

def message : Notice -> String
  | .widened key rootKey =>
      "top-level key " ++ Text.quoted key ++ " differs from root " ++ Text.quoted rootKey ++
        ", placing both under a transparent root"
  | .promoted key dropped =>
      "promoting leaf " ++ Text.quoted key ++ " to an inner node, dropping value " ++
        dropped.text
  | .discarded key value =>
      "discarding value " ++ value.text ++ " for " ++ Text.quoted key ++
        ": the node has children"
  | .replaced key => "replacing existing child " ++ Text.quoted key
  | .loaded count base =>
      "loaded " ++ toString count ++ " properties under " ++ Text.quoted base
  | .handedOver key blockKey =>
      "consuming " ++ Text.quoted key ++ " as group Some(" ++ Text.quoted blockKey ++ ")"
  | .filtered kept total name =>
      "filtered " ++ toString kept ++ " of " ++ toString total ++ " nodes by " ++
        Text.quoted name

/-- The notice as a line of a report. -/
def line (notice : Notice) : String := notice.level.label ++ ": " ++ notice.message

end Notice

/-- A result together with what was reported on the way to it. -/
structure Noted (α : Type) where
  value : α
  notices : List Notice

end DottedTree
