import Layering.Entries
import Layering.Text.Search

/-!
# Type mappings

A facade should return the type of the contract and not the class behind it. A mapping names both;
where the table has none, the names of core classes follow a convention.
-/

namespace Layering

/-- A core class and the type of the contract that stands in for it. -/
structure TypeMapping where
  core : Text
  api : Text
  /-- The mapping was guessed from the name of the class. -/
  inferred : Bool := false
deriving DecidableEq, Repr

namespace TypeMapping

/-- The last part of a qualified name. -/
def simpleName (qualified : Text) : Text := Text.afterLast '.' qualified

/-- A qualified name without its last part. -/
def packageName (qualified : Text) : Text := (Text.beforeLast? '.' qualified).getD []

/-- The simple name of the core class. -/
def coreName (m : TypeMapping) : Text := simpleName m.core

/-- The simple name of the type of the contract. -/
def apiName (m : TypeMapping) : Text := simpleName m.api

/-- The package of the type of the contract. -/
def apiPackage (m : TypeMapping) : Text := packageName m.api

end TypeMapping

/-- Mappings by the simple name of the core class. -/
abbrev TypeTable := List (Text × TypeMapping)

/-- The mappings that every project starts with. -/
def TypeTable.standard : TypeTable :=
  [("DefaultAgentRegistry", {
      core := "dev.engineeringlab.agent.core.DefaultAgentRegistry"
      api := "dev.engineeringlab.agent.registry.AgentRegistry" }),
   ("DefaultAgentManager", {
      core := "dev.engineeringlab.agent.core.DefaultAgentManager"
      api := "dev.engineeringlab.agent.orchestration.AgentManager" }),
   ("DefaultCommunicationManager", {
      core := "dev.engineeringlab.agent.coordination.DefaultCommunicationManager"
      api := "dev.engineeringlab.agent.communication.CommunicationManager" })]

/-- The name of a core class starts with this. -/
def corePrefix : Text := "Default"

/-- Or it ends with this. -/
def coreSuffix : Text := "Impl"

/-- The contract that the name of a core class promises. -/
def contractName? (core : Text) : Option Text :=
  if corePrefix.isPrefixOf core && core.length > corePrefix.length then
    some (core.drop corePrefix.length)
  else if coreSuffix.isSuffixOf core && core.length > coreSuffix.length then
    some (core.take (core.length - coreSuffix.length))
  else none

/-- The mapping for a core class: that of the table, or else one that its name promises. -/
def TypeTable.resolve? (core : Text) (table : TypeTable) : Option TypeMapping :=
  match Entries.get? core table with
  | some mapping => some mapping
  | none => (contractName? core).map fun api => ⟨core, api, true⟩

/-- A name is that of a core class: it is a single word and follows the convention. A line break at
its end does not count. -/
def followsCoreNaming (name : Text) : Bool :=
  let word := if name.getLast? = some '\n' then name.dropLast else name
  word.all Text.isWordChar && (contractName? word).isSome

/-- The core classes are those of the list and those whose names follow the convention. -/
def isCoreType (listed : List Text) (name : Text) : Bool :=
  listed.contains name || followsCoreNaming name

/-- The name of a core class at the front of a text: a word that starts with the prefix, or else the
longest beginning of a word that ends with the suffix, in any case. -/
def coreNameAt? (t : Text) : Option Text :=
  let word := t.takeWhile Text.isWordChar
  if (Text.dropAnyCase? "default" word).any (· ≠ []) then some word
  else
    ((List.range (word.length + 1)).reverse.map word.take).find? fun start =>
      start.length > coreSuffix.length
        && (Text.dropAnyCase? "impl" (start.drop (start.length - coreSuffix.length))).isSome

/-- The core class that a phrase such as `returns DefaultFoo` or `return type FooImpl` names at the
front of a text. -/
def returnedAt? (t : Text) : Option Text :=
  let named (rest : Option Text) : Option Text := (rest.bind Text.dropBlanks?).bind coreNameAt?
  match named ((Text.dropAnyCase? "returns" t).or (Text.dropAnyCase? "return" t)) with
  | some name => some name
  | none => named (Text.dropAnyCase? "return type" t)

/-- The core class that a message names: one that it says is returned, or else the first of the
table that it mentions. -/
def TypeTable.mentioned? (message : Text) (table : TypeTable) : Option Text :=
  match Text.firstSuffix? returnedAt? message with
  | some name => some name
  | none => (table.find? fun (name, _) => Text.occursAsWord name none message).map (·.1)

end Layering
