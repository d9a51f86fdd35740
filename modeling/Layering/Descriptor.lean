import Layering.Text.Search

/-!
# Project descriptors

The few values that matter in the descriptor of a project, read from its text, and the list of its
modules, edited as text so that everything else stays as it was. A value counts only where it is
declared for the project itself; comments and the sections that reuse the same tags are left out.
-/

namespace Layering.Descriptor

/-- A part of a descriptor that is found by its opening and ends at the next closing. -/
inductive Block where
  | comment
  /-- An element whose opening tag is bare. -/
  | element (name : Text)
  /-- An element whose opening tag may have attributes. -/
  | attributed (name : Text)
deriving DecidableEq, Repr

/-- What follows the opening of a block, if the text starts with one. -/
def Block.afterOpening? (t : Text) : Block → Option Text
  | .comment => Text.dropStart? "<!--" t
  | .element name => Text.dropStart? ('<' :: name ++ ['>']) t
  | .attributed name => do
    match ← Text.dropStart? ('<' :: name) t with
    | '>' :: rest => some rest
    | c :: rest =>
      if Text.isBlank c then
        match rest.dropWhile (· ≠ '>') with
        | '>' :: rest => some rest
        | _ => none
      else none
    | [] => none

/-- The end of a block. -/
def Block.closing : Block → Text
  | .comment => "-->"
  | .element name => '<' :: '/' :: name ++ ['>']
  | .attributed name => '<' :: '/' :: name ++ ['>']

theorem Block.closing_ne_nil (b : Block) : b.closing ≠ [] := by
  cases b <;> simp [closing]

/-- What stands before the first opening of a block, and what follows that opening. -/
def Block.cutOpening? (b : Block) : Text → Option (Text × Text)
  | [] => none
  | c :: rest =>
    match b.afterOpening? (c :: rest) with
    | some inside => some ([], inside)
    | none => (b.cutOpening? rest).map fun (before, inside) => (c :: before, inside)

/-- What stands before and after the first block. A block that never ends is none. -/
def Block.cut? (b : Block) (t : Text) : Option (Text × Text) := do
  let (before, inside) ← b.cutOpening? t
  let (_, after) ← Text.cut? b.closing inside
  some (before, after)

private theorem Block.length_of_afterOpening {b : Block} {t rest : Text}
    (h : b.afterOpening? t = some rest) : rest.length ≤ t.length := by
  cases b with
  | comment => grind [afterOpening?, Text.dropStart?_eq_some]
  | element name => grind [afterOpening?, Text.dropStart?_eq_some]
  | attributed name =>
    simp only [afterOpening?, Option.bind_eq_bind, Option.bind_eq_some_iff,
      Text.dropStart?_eq_some] at h
    obtain ⟨inside, rfl, h⟩ := h
    split at h
    · cases h; simp; omega
    · rename_i inner _
      split at h
      · split at h
        · rename_i hd
          have := (List.dropWhile_sublist (l := inner) (· ≠ '>')).length_le
          rw [hd] at this
          cases h
          simp at *
          omega
        · contradiction
      · contradiction
    · contradiction

private theorem Block.length_of_cutOpening {b : Block} {t before inside : Text}
    (h : b.cutOpening? t = some (before, inside)) : inside.length ≤ t.length := by
  induction t generalizing before with
  | nil => simp [cutOpening?] at h
  | cons c t ih =>
    simp only [cutOpening?] at h
    split at h
    · rename_i ha
      cases h
      exact length_of_afterOpening ha
    · obtain ⟨⟨x, y⟩, hx, he⟩ := Option.map_eq_some_iff.1 h
      cases he
      have := ih hx
      simp only [List.length_cons]
      exact Nat.le_succ_of_le this

private theorem Block.length_of_cut {b : Block} {t before after : Text}
    (h : b.cut? t = some (before, after)) : after.length < t.length := by
  simp only [cut?, Option.bind_eq_bind, Option.bind_eq_some_iff] at h
  obtain ⟨⟨x, inside⟩, ho, ⟨y, z⟩, hc, he⟩ := h
  cases he
  have h₁ := length_of_cutOpening ho
  have h₂ := congrArg List.length (Text.cut?_eq_some hc)
  have h₃ := List.length_pos_iff.mpr b.closing_ne_nil
  simp only [List.length_append] at h₂ ⊢
  omega

/-- A text without the blocks of one form. -/
def without (b : Block) (t : Text) : Text :=
  match h : b.cut? t with
  | none => t
  | some (before, after) =>
    have := Block.length_of_cut h
    before ++ without b after
termination_by t.length

/-- The reference to the descriptor that a project inherits from. -/
def parentBlock : Block := .element "parent"

/-- The sections that reuse the tags of the project, in the order in which they are left out. -/
def nestedSections : List Block :=
  [.attributed "profiles", .attributed "dependencyManagement", .attributed "dependencies",
   .attributed "build", .attributed "reporting", .attributed "properties",
   .attributed "repositories", .attributed "pluginRepositories",
   .attributed "distributionManagement", .attributed "scm", .attributed "organization",
   .attributed "licenses", .attributed "developers", .attributed "contributors"]

/-- The first parent reference, with its tags. -/
def parent? (descriptor : Text) : Option Text :=
  let text := without .comment descriptor
  (parentBlock.cut? text).map fun (before, after) =>
    (text.drop before.length).take (text.length - before.length - after.length)

/-- What a descriptor declares for the project itself. -/
def ownLevel (descriptor : Text) : Text :=
  let text := without .comment descriptor
  let text := match parentBlock.cut? text with
    | some (before, after) => before ++ after
    | none => text
  nestedSections.foldl (fun text b => without b text) text

/-- The rest of a text that starts like a pattern, in which a point stands for any character but a
line break. -/
def dropPattern? : Text → Text → Option Text
  | [], t => some t
  | _ :: _, [] => none
  | p :: pattern, c :: t =>
    if p = c || (p = '.' && c ≠ '\n') then dropPattern? pattern t else none

/-- The value of the element at the front of a text: what stands between its tags, without the
blanks around it. Of a value that is blank, the last character remains. -/
def valueAt? (tag t : Text) : Option Text := do
  let rest ← dropPattern? ('<' :: tag ++ ['>']) t
  let inner := rest.takeWhile (· ≠ '<')
  let _ ← dropPattern? ('<' :: '/' :: tag ++ ['>']) (rest.dropWhile (· ≠ '<'))
  let last ← inner.getLast?
  let value := Text.trim inner
  some (if value = [] then [last] else value)

/-- The value of a tag: that of the project itself, or else that of its parent reference. -/
def value? (tag descriptor : Text) : Option Text :=
  (Text.firstSuffix? (valueAt? tag) (ownLevel descriptor)).or
    ((parent? descriptor).bind (Text.firstSuffix? (valueAt? tag)))

/-- How the project is packaged. -/
def packaging (descriptor : Text) : Text := (value? "packaging" descriptor).getD "jar"

/-- The project only holds other projects together. -/
def isAggregator (descriptor : Text) : Bool := packaging descriptor = "pom"

/-- The text starts with an empty path to the parent. -/
def startsEmptyPath (t : Text) : Bool :=
  ((Text.dropStart? "<relativePath" t).any fun rest =>
    (Text.dropStart? "/>" (rest.dropWhile Text.isBlank)).isSome)
  || ((Text.dropStart? "<relativePath>" t).any fun rest =>
    (Text.dropStart? "</relativePath>" (rest.dropWhile Text.isBlank)).isSome)

/-- The project has no parent, or looks for it nowhere in the tree. -/
def isRoot (descriptor : Text) : Bool :=
  let text := without .comment descriptor
  (parentBlock.cut? text).isNone
    || (Text.firstSuffix? (fun t => if startsEmptyPath t then some () else none) text).isSome

/-- The name in the module element at the front of a text. -/
def moduleAt? (t : Text) : Option Text := do
  let rest ← Text.dropStart? "<module>" t
  let name := rest.takeWhile (· ≠ '<')
  if name ≠ [] && ("</module>" : Text).isPrefixOf (rest.dropWhile (· ≠ '<')) then
    some (Text.trim name)
  else none

/-- The declared modules, in order. -/
def modules : Text → List Text
  | [] => []
  | c :: rest => (moduleAt? (c :: rest)).toList ++ modules rest

/-- The indentation of a line that starts with the end of the module list. -/
def closingIndent? (t : Text) : Option Text :=
  let isIndent (c : Char) : Bool := c = ' ' || c = '\t'
  if ("</modules>" : Text).isPrefixOf (t.dropWhile isIndent) then some (t.takeWhile isIndent)
  else none

/-- The line for a module. -/
def moduleLine (indent name : Text) : Text :=
  indent ++ "<module>" ++ name ++ "</module>\n"

/-- Declares one more module. It goes to the end of the module list; without a list one is started,
before the end of the project or at the end of the text. -/
def addModule (name descriptor : Text) : Text :=
  if (modules descriptor).contains name then descriptor
  else match Text.atFirstLine? closingIndent? true descriptor with
  | some (before, indent) =>
    before ++ moduleLine (indent ++ "    ") name ++ descriptor.drop before.length
  | none =>
    let list : Text := "    <modules>\n" ++ moduleLine "        " name ++ "    </modules>\n"
    match Text.cut? "</project>" descriptor with
    | some (before, _) => before ++ list ++ descriptor.drop before.length
    | none => descriptor ++ list

end Layering.Descriptor
