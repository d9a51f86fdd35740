import Layering.Reporting

/-!
# Display

Notices as plain lines, for a terminal without styles.
-/

namespace Layering.Display

/-- The styles that notices and console lines have. -/
def styles : List Text :=
  ["bold red", "bold cyan", "bold", "red", "yellow", "blue", "green", "cyan", "dim"]

/-- The marks that start and end a style. -/
def marks : List Text :=
  styles.flatMap fun style => [("[" : Text) ++ style ++ "]", ("[/" : Text) ++ style ++ "]"]

/-- The text without one mark at its front, if one stands there. -/
def dropMark? (t : Text) : Option Text := marks.firstM fun mark => Text.dropStart? mark t

/-- The text without marks. At most so many characters are looked at. -/
def unmarked : Nat → Text → Text
  | 0, t => t
  | _, [] => []
  | n + 1, c :: rest =>
    match dropMark? (c :: rest) with
    | some rest => unmarked n rest
    | none => c :: unmarked n rest

/-- The text without marks. -/
def plain (t : Text) : Text := unmarked t.length t

/-- Cells in one line. -/
def row (cells : List Text) : Text := List.intercalate " | ".toList (cells.map plain)

/-- The lines of a notice. -/
def lines : Notice → List Text
  | .line t => [plain t]
  | .table t => plain t.title :: row (t.columns.map (·.header)) :: t.rows.map row

end Layering.Display
