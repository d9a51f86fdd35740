import Layering.Java.Signature

/-!
# Imports

After a return type has changed, the file has to import the type of the contract, and the import of
the core class may have become idle. Both edits touch import lines only. Import and package lines
are found by their text: they start a line and reach from the keyword to the end of the line on which
their semicolon stands.
-/

namespace Layering.Java

/-- What follows a keyword, and some blanks, at the start of a line. -/
def afterKeyword? (keyword t : Text) : Option Text :=
  (Text.dropStart? keyword (t.dropWhile fun c => c = ' ' || c = '\t')).bind Text.dropBlanks?

/-- What follows a semicolon, perhaps after blanks. -/
def afterSemicolon? (t : Text) : Option Text :=
  match t.dropWhile Text.isBlank with
  | ';' :: rest => some rest
  | _ => none

/-- What follows the line on which a statement ends. -/
def afterStatement? (t : Text) : Option Text :=
  (afterSemicolon? t).map fun rest => (rest.dropWhile (· ≠ '\n')).tail

/-- The characters of a qualified name. -/
def isQualifiedPart (c : Char) : Bool := Text.isWordChar c || c = '.'

/-- What follows an imported name, or all names of a package, and the end of the statement. -/
def afterImported? (t : Text) : Option Text :=
  let name := t.takeWhile isQualifiedPart
  match t.dropWhile isQualifiedPart with
  | '*' :: rest =>
    if name.length > 1 && name.getLast? = some '.' then afterStatement? rest else none
  | rest => if name = [] then none else afterStatement? rest

/-- What follows the import line at the front of a text. -/
def afterImportLine? (t : Text) : Option Text := do
  let rest ← afterKeyword? "import" t
  let static := (Text.dropStart? "static" rest).bind Text.dropBlanks?
  (static.bind afterImported?).or (afterImported? rest)

/-- The name of the package in the package line at the front of a text, and what follows it. -/
def packageLine? (t : Text) : Option (Text × Text) := do
  let rest ← afterKeyword? "package" t
  let name := rest.takeWhile isQualifiedPart
  if name = [] then none
  else (afterStatement? (rest.dropWhile isQualifiedPart)).map fun rest => (name, rest)

/-- The package of a source, empty if it has none. -/
def packageOf (source : Text) : Text :=
  ((Text.atFirstLine? packageLine? true source).map fun (_, name, _) => name).getD []

/-- A source imports a type, by its name or with its whole package. -/
def importsType (type source : Text) : Bool :=
  let found (t : Text) : Option Text := do
    let rest ← afterKeyword? "import" t
    ((Text.dropStart? type rest).bind afterSemicolon?).or
      ((Text.dropStart? (TypeMapping.packageName type ++ ".*") rest).bind afterSemicolon?)
  (Text.atFirstLine? found true source).isSome

/-- What follows the import line of the core class at the front of a text. A core class without a
package may come from any package. -/
def afterCoreImport? (mapping : TypeMapping) (t : Text) : Option Text := do
  let rest ← afterKeyword? "import" t
  if mapping.core.contains '.' then (Text.dropStart? mapping.core rest).bind afterStatement?
  else
    let longest := (rest.takeWhile isQualifiedPart).length
    ((List.range longest).reverse.map (· + 1)).findSome? fun length =>
      (Text.dropStart? ('.' :: mapping.coreName) (rest.drop length)).bind afterStatement?

/-- A line goes between two parts of a source, of which the first is brought to an end of line. -/
def insertLine (before line after : Text) : Text :=
  let before := if before = [] || before.getLast? = some '\n' then before else before ++ ['\n']
  before ++ line ++ '\n' :: after

/-- The part of a source before one of its ends. -/
def partBefore (source after : Text) : Text := source.take (source.length - after.length)

/-- The import line for a type. -/
def importStatement (type : Text) : Text := "import " ++ type ++ ";"

/-- The file has to import the type of the contract: it has a package, which is not that of the
file, and is not imported yet. -/
def needsImport (mapping : TypeMapping) (source : Text) : Bool :=
  mapping.apiPackage ≠ [] && mapping.apiPackage ≠ packageOf source
    && !importsType mapping.api source

/-- An import goes below the last import, or else below the package line and an empty line, or else
to the top. -/
def addImport (type source : Text) : Text :=
  let statement := importStatement type
  match Text.atLastLine? afterImportLine? true source with
  | some (_, after) => insertLine (partBefore source after) statement after
  | none =>
    match Text.atFirstLine? packageLine? true source with
    | some (_, _, after) => insertLine (partBefore source after) ('\n' :: statement) after
    | none => statement ++ "\n\n" ++ source

/-- The source without the import line of the core class, and that line, unless the class is still
mentioned. -/
def dropCoreImport? (mapping : TypeMapping) (source : Text) : Option (Text × Text) := do
  let (before, after) ← Text.atFirstLine? (afterCoreImport? mapping) true source
  if Text.occursAsWord mapping.coreName none (before ++ after) then none
  else some (before ++ after, (partBefore source after).drop before.length)

/-- A changed text, and a line for every change. -/
structure Edit where
  text : Text
  diffs : List Text := []
deriving DecidableEq, Repr

/-- Imports the type of the contract where needed, and drops the import of the core class once
nothing mentions it. -/
def reconcileImports (mapping : TypeMapping) (source : Text) : Edit :=
  let added : Edit :=
    if needsImport mapping source then
      ⟨addImport mapping.api source, ["+ " ++ importStatement mapping.api]⟩
    else ⟨source, []⟩
  match dropCoreImport? mapping added.text with
  | some (text, line) => ⟨text, added.diffs ++ ["- " ++ Text.trim line]⟩
  | none => added

/-- Rewrites signatures, with a line for every change. -/
def patchSignatures (mapping : TypeMapping) (source : Text) : Edit :=
  ⟨rewriteSignatures mapping source, signatureDiffs mapping source⟩

end Layering.Java
