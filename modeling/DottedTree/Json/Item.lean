import DottedTree.Json.Token

namespace DottedTree
namespace Json

/-!
Values of JSON text, as far as they matter to a map of scalars.

A value of one token is kept.  Of an object or an array only its end is sought,
since nothing in it can be of use; but it has to be well formed up to there, and
nesting is bounded.  The search needs no recursion: it is a run over the tokens
that remembers the open enclosures and what may come next.
-/

/-- A value, without what is inside an object or an array. -/
inductive Item
  | null
  | boolean (flag : Bool)
  | number (numeral : Numeral)
  | string (text : String)
  | composite
deriving DecidableEq

/-- An object or an array that has been opened. -/
inductive Enclosure
  | object
  | array
deriving DecidableEq

/-- What may come next inside the innermost enclosure.  The forms with `OrEnd`
stand directly behind its opening mark. -/
inductive Expectation
  | value
  | valueOrEnd
  | key
  | keyOrEnd
  | colon
  | separator
deriving DecidableEq

/-- Where a run over an object or an array stands: inside some enclosures, the
innermost first, or behind the last of them. -/
inductive Progress
  | inside (enclosures : List Enclosure) (expected : Expectation)
  | ended
deriving DecidableEq

/-- So many enclosures may not be open at once. -/
def depthLimit : Nat := 128

namespace Progress

/-- Into one more enclosure, with `outside` of them around those of the run. -/
def enter (outside : Nat) (enclosures : List Enclosure) (enclosure : Enclosure) :
    Option Progress :=
  if outside + enclosures.length + 1 < depthLimit then
    some (.inside (enclosure :: enclosures) <| match enclosure with
      | .object => .keyOrEnd
      | .array => .valueOrEnd)
  else none

/-- Out of the innermost enclosure. -/
def leave : List Enclosure -> Progress
  | _ :: outer :: others => .inside (outer :: others) .separator
  | _ => .ended

/-- Past a value. -/
def value (outside : Nat) (enclosures : List Enclosure) : Token -> Option Progress
  | .openObject => enter outside enclosures .object
  | .openArray => enter outside enclosures .array
  | .null | .boolean _ | .number _ | .string _ => some (.inside enclosures .separator)
  | _ => none

/-- Past one token, if it is one that may come next. -/
def step (outside : Nat) (enclosures : List Enclosure) :
    Expectation -> Token -> Option Progress
  | .valueOrEnd, .closeArray => some (leave enclosures)
  | .valueOrEnd, token => value outside enclosures token
  | .value, token => value outside enclosures token
  | .keyOrEnd, .closeObject => some (leave enclosures)
  | .keyOrEnd, .string _ => some (.inside enclosures .colon)
  | .key, .string _ => some (.inside enclosures .colon)
  | .colon, .colon => some (.inside enclosures .value)
  | .separator, token =>
      match enclosures, token with
      | .object :: _, .comma => some (.inside enclosures .key)
      | .array :: _, .comma => some (.inside enclosures .value)
      | .object :: _, .closeObject => some (leave enclosures)
      | .array :: _, .closeArray => some (leave enclosures)
      | _, _ => none
  | _, _ => none

/-- What follows the end of a run. -/
def finish (outside : Nat) : Progress -> List Token -> Option (List Token)
  | .ended, tokens => some tokens
  | .inside _ _, [] => none
  | .inside enclosures expected, token :: tokens =>
      (step outside enclosures expected token).bind fun next => finish outside next tokens

theorem finish_length {outside : Nat} {progress : Progress} {tokens rest : List Token}
    (found : progress.finish outside tokens = some rest) : rest.length <= tokens.length := by
  induction tokens generalizing progress with
  | nil =>
      cases progress with
      | ended => simp_all [finish]
      | inside _ _ => simp [finish] at found
  | cons token tokens ih =>
      cases progress with
      | ended => simp_all [finish]
      | inside enclosures expected =>
          simp only [finish, Option.bind_eq_some_iff] at found
          obtain ⟨next, _, behind⟩ := found
          exact Nat.le_succ_of_le (ih behind)

end Progress

namespace Item

/-- The value at the beginning of some tokens, with `outside` enclosures open
around it, and what follows it. -/
def read (outside : Nat) : List Token -> Option (Item × List Token)
  | [] => none
  | token :: rest =>
      match token with
      | .null => some (.null, rest)
      | .boolean flag => some (.boolean flag, rest)
      | .number numeral => some (.number numeral, rest)
      | .string text => some (.string text, rest)
      | token =>
          ((Progress.value outside [] token).bind fun progress =>
            progress.finish outside rest).map fun rest => (.composite, rest)

theorem read_length {outside : Nat} {tokens rest : List Token} {item : Item}
    (found : read outside tokens = some (item, rest)) : rest.length < tokens.length := by
  unfold read at found
  split at found
  · simp at found
  · next token behind =>
      split at found
      case h_5 =>
        obtain ⟨last, finished, same⟩ := Option.map_eq_some_iff.mp found
        obtain ⟨progress, _, finished⟩ := Option.bind_eq_some_iff.mp finished
        have shorter := Progress.finish_length finished
        simp only [Prod.mk.injEq] at same
        rw [← same.2]
        simp only [List.length_cons]
        omega
      all_goals
        simp only [Option.some.injEq, Prod.mk.injEq] at found
        rw [← found.2]
        simp

end Item
end Json
end DottedTree
