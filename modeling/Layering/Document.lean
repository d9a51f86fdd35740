import Layering.Entries
import Layering.Number.Shortest

/-!
# Documents

Values as configuration files and reports hold them. The keys of a map are scalars and keep the
order in which they first appeared.
-/

namespace Layering

/-- A value without parts. -/
inductive Scalar where
  | null
  | bool (b : Bool)
  | int (n : Int)
  | float (x : Binary64)
  | text (t : Text)
deriving DecidableEq, Repr

/-- A value. -/
inductive Document where
  | scalar (s : Scalar)
  | list (items : List Document)
  | map (entries : List (Scalar × Document))
deriving Repr

namespace Scalar

/-- The spelling of a scalar in running text. -/
def spelling : Scalar → Text
  | .null => "None"
  | .bool true => "True"
  | .bool false => "False"
  | .int n => Text.ofInt n
  | .float x => x.text
  | .text t => t

/-- Scalars of one numeric value are the same key: truth counts as one and falsehood as zero. -/
def keyForm : Scalar → Scalar
  | .bool b => .int (if b then 1 else 0)
  | .float x => match x.toInt? with
    | some n => .int n
    | none => .float x
  | s => s

/-- The scalar is a number that is none, which is never the same as another. -/
def isNotANumber : Scalar → Bool
  | .float x => x.isNotANumber
  | _ => false

/-- Two scalars are the same key. -/
def sameKey (s t : Scalar) : Bool := s.keyForm = t.keyForm && !s.isNotANumber

end Scalar

instance : Inhabited Document := ⟨.scalar .null⟩

namespace Document

/-- No value. -/
def null : Document := .scalar .null

/-- A truth value. -/
def bool (b : Bool) : Document := .scalar (.bool b)

/-- A whole number. -/
def int (n : Int) : Document := .scalar (.int n)

/-- A text. -/
def text (t : Text) : Document := .scalar (.text t)

/-- A list of texts. -/
def texts (ts : List Text) : Document := .list (ts.map text)

/-- A map with texts for keys. -/
def record (fields : List (Text × Document)) : Document :=
  .map (fields.map fun (name, value) => (.text name, value))

/-- Puts a value under a key. -/
def insert (key : Scalar) (value : Document) (entries : List (Scalar × Document)) :
    List (Scalar × Document) :=
  Entries.putWhere (·.sameKey key) key value entries

/-- The entries of a map; other values have none. -/
def entries : Document → List (Scalar × Document)
  | .map entries => entries
  | _ => []

/-- The value under a text in a map. -/
def get? (name : Text) (d : Document) : Option Document := Entries.get? (.text name) d.entries

/-- The text that a value is, if it is one. -/
def text? : Document → Option Text
  | .scalar (.text t) => some t
  | _ => none

/-- The whole number that a value is, if it is one. A truth value is none. -/
def int? : Document → Option Int
  | .scalar (.int n) => some n
  | _ => none

/-- The value is a map. -/
def isMap : Document → Bool
  | .map _ => true
  | _ => false

/-- Whether a value counts as true: null, false, zero and what is empty do not. -/
def isTruthy : Document → Bool
  | .scalar .null => false
  | .scalar (.bool b) => b
  | .scalar (.int n) => n ≠ 0
  | .scalar (.float x) => !x.isZero
  | .scalar (.text t) => t ≠ []
  | .list items => !items.isEmpty
  | .map entries => !entries.isEmpty

end Document

end Layering
