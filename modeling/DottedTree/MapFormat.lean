import DottedTree.Path
import DottedTree.Scalar

namespace DottedTree

/-!
Flat maps of scalars in a text format.

A format writes data of four basic types and maps of written data, and it reads texts.  A
value that is read need not be of any basic type, and it can be taken for more than one: a
whole number also stands for a number with a point.  So a text is read to contents first,
and each basic type has a reader of its own, which accepts a content or does not.  A scalar
is made by the first of its variants that accepts, in the order in which they are declared.

The format itself is left open.  `MapFormat` has its operations, and `LawfulMapFormat` says
what is promised of them: flags, whole numbers and strings are read as they were written,
and so are finite numbers with a point, which are never read as whole ones.  Any other
number with a point is written as null, which is of no basic type.

A map is read entry by entry, and the first problem in the order of the text decides.  So
the entries in front of the first fault of a text come with this fault, and whoever uses
the entries meets a bad one before it.
-/

/-- The entries of a map in front of the first fault, and this fault if there is one. -/
structure MapEntries (κ ε : Type) where
  entries : List (String × κ)
  fault? : Option ε

/-- The same entries with another fault behind them. -/
def MapEntries.mapFault {κ ε φ : Type} (change : ε -> φ) (map : MapEntries κ ε) :
    MapEntries κ φ :=
  ⟨map.entries, map.fault?.map change⟩

/-- A format with its contents and the faults of its texts. -/
class MapFormat (κ : Type) (ε : outParam Type) where
  nullText : String
  booleanText : Bool -> String
  integerText : Int64 -> String
  floatText : Binary64 -> String
  stringText : String -> String
  /-- A map of keys and values, which are written already. -/
  mapText : List (String × String) -> String
  /-- The content at the beginning of a text, and the fault behind it if there is one. -/
  readValue : String -> Except ε (κ × Option ε)
  /-- The map that a text is.  If it is none, the fault tells what was expected. -/
  readMap (expected : String) : String -> MapEntries κ ε
  boolean? : κ -> Option Bool
  integer? : κ -> Option Int64
  float? : κ -> Option Binary64
  string? : κ -> Option String

/-- Why a text was not read. -/
inductive ReadError (ε : Type)
  | format (fault : ε)
  /-- No variant of a scalar accepts the content. -/
  | notScalar
  | path (error : PathError)
deriving DecidableEq

/-- An error with the fault of the format replaced by another one. -/
def ReadError.map {ε φ : Type} (change : ε -> φ) : ReadError ε -> ReadError φ
  | .format fault => .format (change fault)
  | .notScalar => .notScalar
  | .path error => .path error

/-- The text of an error, with the words of the format for its own faults. -/
def ReadError.message {ε : Type} (describe : ε -> String) : ReadError ε -> String
  | .format fault => describe fault
  | .notScalar => "data did not match any variant of untagged enum Scalar"
  | .path error => error.message

section

variable {κ ε : Type} [MapFormat κ ε]

namespace Scalar

/-- The text of the datum that a scalar carries.  Its kind leaves no trace. -/
def toText (κ : Type) {ε : Type} [MapFormat κ ε] : Scalar -> String
  | .boolean flag => MapFormat.booleanText κ flag
  | .integer number => MapFormat.integerText κ number
  | .float number => MapFormat.floatText κ number
  | .string text => MapFormat.stringText κ text

/-- A map of scalars as a text, in the order of the entries. -/
def mapText (κ : Type) {ε : Type} [MapFormat κ ε] (entries : List (String × Scalar)) : String :=
  MapFormat.mapText κ (entries.map fun entry => (entry.1, entry.2.toText κ))

/-- What each variant makes of a content, in the order of their declaration. -/
def variants : List (κ -> Option Scalar) :=
  [fun content => (MapFormat.boolean? content).map .boolean,
    fun content => (MapFormat.integer? content).map .integer,
    fun content => (MapFormat.float? content).map .float,
    fun content => (MapFormat.string? content).map .string]

/-- The scalar that a content is, by the first variant that accepts it. -/
def ofContent? (content : κ) : Option Scalar := variants.findSome? fun variant => variant content

/-- The scalar that a text is. -/
def ofText (κ : Type) {ε : Type} [MapFormat κ ε] (text : String) :
    Except (ReadError ε) Scalar :=
  match MapFormat.readValue (κ := κ) text with
  | .error fault => .error (.format fault)
  | .ok (content, fault?) =>
      match ofContent? content with
      | none => .error .notScalar
      | some value =>
          match fault? with
          | some fault => .error (.format fault)
          | none => .ok value

end Scalar

namespace MapEntries

/-- The scalars under some keys, up to the first content that is none.  Behind the last
comes the fault. -/
def scalarsBefore (fault? : Option ε) : List (String × κ) -> MapEntries Scalar (ReadError ε)
  | [] => ⟨[], fault?.map .format⟩
  | (key, content) :: others =>
      match Scalar.ofContent? content with
      | none => ⟨[], some .notScalar⟩
      | some value =>
          let later := scalarsBefore fault? others
          ⟨(key, value) :: later.entries, later.fault?⟩

/-- The map of scalars that a text is. -/
def ofText (κ : Type) {ε : Type} [MapFormat κ ε] (expected text : String) :
    MapEntries Scalar (ReadError ε) :=
  let map := MapFormat.readMap (κ := κ) expected text
  scalarsBefore map.fault? map.entries

/-- What was made of all entries, unless a fault stands behind them.  A bad path comes
before it. -/
def finish {α : Type} (map : MapEntries κ (ReadError ε)) :
    Except PathError α -> Except (ReadError ε) α
  | .error error => .error (.path error)
  | .ok made =>
      match map.fault? with
      | some fault => .error fault
      | none => .ok made

/-- A sorted map with one value stored.  The value of a key that is there already
gives way. -/
def store (key : String) (value : Scalar) : List (String × Scalar) -> List (String × Scalar)
  | [] => [(key, value)]
  | (other, held) :: rest =>
      if key < other then (key, value) :: (other, held) :: rest
      else if key = other then (key, value) :: rest
      else (other, held) :: store key value rest

/-- The entries sorted by the code points of their keys, which need not be paths.  The last
value of a key stays. -/
def sorted (map : MapEntries Scalar (ReadError ε)) :
    Except (ReadError ε) (List (String × Scalar)) :=
  map.finish (.ok (map.entries.foldl (fun sorted entry => store entry.1 entry.2 sorted) []))

end MapEntries

end

/-- What a format promises. -/
class LawfulMapFormat (κ : Type) {ε : outParam Type} [MapFormat κ ε] : Prop where
  read_nullText : Exists fun content : κ =>
    MapFormat.readValue (MapFormat.nullText κ) = .ok (content, none) ∧
      MapFormat.boolean? content = none ∧ MapFormat.integer? content = none ∧
      MapFormat.float? content = none ∧ MapFormat.string? content = none
  read_booleanText : forall flag, Exists fun content : κ =>
    MapFormat.readValue (MapFormat.booleanText κ flag) = .ok (content, none) ∧
      MapFormat.boolean? content = some flag
  read_integerText : forall number, Exists fun content : κ =>
    MapFormat.readValue (MapFormat.integerText κ number) = .ok (content, none) ∧
      MapFormat.boolean? content = none ∧ MapFormat.integer? content = some number
  read_floatText : forall number : Binary64, number.isFinite = true -> Exists fun content : κ =>
    MapFormat.readValue (MapFormat.floatText κ number) = .ok (content, none) ∧
      MapFormat.boolean? content = none ∧ MapFormat.integer? content = none ∧
      MapFormat.float? content = some number
  floatText_of_not_finite : forall number : Binary64, number.isFinite = false ->
    MapFormat.floatText κ number = MapFormat.nullText κ
  read_stringText : forall text, Exists fun content : κ =>
    MapFormat.readValue (MapFormat.stringText κ text) = .ok (content, none) ∧
      MapFormat.boolean? content = none ∧ MapFormat.integer? content = none ∧
      MapFormat.float? content = none ∧ MapFormat.string? content = some text
  /-- The keys of a map are read as they were written, and each value as it is read on its
  own. -/
  readMap_mapText : forall expected entries, Exists fun contents : List (String × κ) =>
      MapFormat.readMap expected (Scalar.mapText κ entries) = ⟨contents, none⟩ ∧
      contents.map (fun read => (read.1, .ok (read.2, none))) =
        entries.map fun entry => (entry.1, MapFormat.readValue (entry.2.toText κ))

end DottedTree
