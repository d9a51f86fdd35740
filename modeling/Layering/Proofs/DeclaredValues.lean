import Layering.Proofs.Markup

/-!
# Declared values

What a descriptor declares for its project is what its elements at the top hold, and what its
reference to a parent holds: comments and sections make no difference.
-/

namespace Layering

open Descriptor

namespace Markup

/-- The elements at the top of a row are of some kind. Between them are blanks and comments. -/
inductive Items (fits : Text → Text → Markup → Prop) : Markup → Prop
  | nil : Items fits nil
  | blank {t : Text} {rest : Markup} (blank : ∀ c ∈ t, Text.isBlank c = true)
    (items : Items fits rest) : Items fits (text t rest)
  | comment {t : Text} {rest : Markup} (closed : ¬"-->".toList <:+: t) (items : Items fits rest) :
    Items fits (comment t rest)
  | element {name attributes : Text} {inside rest : Markup} (fit : fits name attributes inside)
    (items : Items fits rest) : Items fits (element name attributes inside rest)

/-- An element with a value: a text that is not blank, and nothing else. -/
inductive IsLeaf : Text → Text → Markup → Prop
  | mk {name t : Text} (word : ∀ c ∈ name, Text.isWordChar c = true) (plain : '<' ∉ t)
    (inhabited : Text.trim t ≠ []) : IsLeaf name [] (text t nil)

/-- The names of the sections that reuse the tags of the project. -/
def sectionNames : List Text :=
  ["profiles", "dependencyManagement", "dependencies", "build", "reporting", "properties",
   "repositories", "pluginRepositories", "distributionManagement", "scm", "organization",
   "licenses", "developers", "contributors"]

/-- The name of the reference to a parent. -/
def parentName : Text := "parent"

/-- What stands at the top of a project: values, the reference to a parent, the list of modules, and
sections, which hold anything but such references, and no section of the same name. -/
inductive IsChild : Text → Text → Markup → Prop
  | leaf {name attributes : Text} {inside : Markup} (leaf : IsLeaf name attributes inside)
    (other : name ≠ parentName) : IsChild name attributes inside
  | parent {inside : Markup} (leaves : inside.Items IsLeaf) (single : parentName ∉ inside.names) :
    IsChild parentName [] inside
  | modules {inside : Markup} (listed : inside.Items fun name attributes inside =>
      name = "module".toList ∧ IsLeaf name attributes inside) : IsChild "modules" [] inside
  | nested {name attributes : Text} {inside : Markup} (known : name ∈ sectionNames)
    (tag : IsTag name attributes) (wellFormed : inside.WellFormed)
    (apart : ∀ s ∈ sectionNames, (element name attributes inside nil).Apart s)
    (orphan : parentName ∉ inside.names) : IsChild name attributes inside

/-- The values at the top of a row. -/
def declared : Markup → List (Text × Text)
  | nil => []
  | text _ rest => rest.declared
  | comment _ rest => rest.declared
  | element name _ (text t nil) rest => (name, Text.trim t) :: rest.declared
  | element _ _ _ rest => rest.declared

/-- The values in the reference to a parent. -/
def inherited : Markup → List (Text × Text)
  | nil => []
  | text _ rest => rest.inherited
  | comment _ rest => rest.inherited
  | element name _ inside rest =>
    if name = parentName then inside.declared else rest.inherited

/-- What is left of a row without comments and some elements. -/
def kept (dropped : List Text) (m : Markup) : Markup := m.uncommented.elided dropped

section

variable {name attributes : Text} {inside rest : Markup} {dropped : List Text}

theorem kept_of_mem (member : name ∈ dropped) :
    (element name attributes inside rest).kept dropped = rest.kept dropped := by
  rw [kept, uncommented, elided, if_pos member]
  rfl

theorem kept_of_not_mem (other : name ∉ dropped) :
    (element name attributes inside rest).kept dropped =
      element name attributes (inside.kept dropped) (rest.kept dropped) := by
  rw [kept, uncommented, elided, if_neg other]
  rfl

theorem kept_of_missing {m : Markup} (missing : ∀ s ∈ dropped, s ∉ m.names) :
    m.kept dropped = m.uncommented :=
  elided_of_not_mem (by simpa only [names_uncommented] using missing)

theorem render_element (name attributes : Text) (inside rest : Markup) :
    (element name attributes inside rest).render =
      (element name attributes inside nil).render ++ rest.render := by
  simp only [render, List.append_assoc, List.nil_append]

theorem render_kept_element (name attributes : Text) (inside rest : Markup) :
    ((element name attributes inside rest).kept dropped).render =
      ((element name attributes inside nil).kept dropped).render ++ (rest.kept dropped).render := by
  by_cases member : name ∈ dropped
  · rw [kept_of_mem member, kept_of_mem member]
    rfl
  · rw [kept_of_not_mem member, kept_of_not_mem member, render_element]
    rfl

theorem declared_element (name attributes : Text) (inside rest : Markup) :
    (element name attributes inside rest).declared =
      (element name attributes inside nil).declared ++ rest.declared := by
  cases inside with
  | text t more => cases more <;> rfl
  | _ => rfl

theorem lookup_declared_of_ne {tag : Text} (other : tag ≠ name) :
    (element name attributes inside rest).declared.lookup tag = rest.declared.lookup tag := by
  have unequal : (tag == name) = false := by simpa using other
  cases inside with
  | text t more => cases more <;> simp [declared, List.lookup_cons, unequal]
  | _ => rfl

theorem Items.imp {fits fits' : Text → Text → Markup → Prop} {m : Markup}
    (imp : ∀ name attributes inside, fits name attributes inside → fits' name attributes inside)
    (items : m.Items fits) : m.Items fits' := by
  induction items with
  | nil => exact .nil
  | blank blank _ ih => exact .blank blank ih
  | comment closed _ ih => exact .comment closed ih
  | element fit _ ih => exact .element (imp _ _ _ fit) ih

theorem Items.wellFormed {fits : Text → Text → Markup → Prop} {m : Markup}
    (proper : ∀ name attributes inside, fits name attributes inside →
      IsTag name attributes ∧ inside.WellFormed) (items : m.Items fits) : m.WellFormed := by
  induction items with
  | nil => trivial
  | blank blank _ ih =>
    exact ⟨fun member => absurd (blank _ member) (by decide), ih⟩
  | comment closed _ ih => exact ⟨closed, ih⟩
  | element fit _ ih => exact ⟨(proper _ _ _ fit).1, (proper _ _ _ fit).2, ih⟩

theorem Items.names_eq_nil {m : Markup} (none : m.Items fun _ _ _ => False) : m.names = [] := by
  induction none with
  | nil => rfl
  | blank _ _ ih => exact ih
  | comment _ _ ih => exact ih
  | element fit => exact fit.elim

theorem isNameChar_of_isWordChar {c : Char} (word : Text.isWordChar c = true) :
    isNameChar c = true := by
  have other (d : Char) (no : Text.isWordChar d = false) : c ≠ d := by
    rintro rfl
    exact absurd word (by simp [no])
  have blank : Text.isBlank c = false := by
    by_contra blank
    rw [Text.isWordChar_of_isBlank (by simpa using blank)] at word
    contradiction
  simp [isNameChar, blank, other '<' (by decide), other '>' (by decide),
    other '/' (by decide), other '!' (by decide), other '?' (by decide)]

theorem IsTag.of_named (named : Named name) : IsTag name [] := ⟨named, by simp, by simp⟩

theorem IsLeaf.proper (leaf : IsLeaf name attributes inside) :
    IsTag name attributes ∧ inside.WellFormed := by
  cases leaf with
  | mk word plain =>
    exact ⟨.of_named fun c member => isNameChar_of_isWordChar (word c member), plain, trivial⟩

theorem IsChild.proper (child : IsChild name attributes inside) :
    IsTag name attributes ∧ inside.WellFormed := by
  cases child with
  | leaf leaf => exact leaf.proper
  | parent leaves =>
    exact ⟨.of_named (by decide), leaves.wellFormed fun _ _ _ => IsLeaf.proper⟩
  | modules listed =>
    exact ⟨.of_named (by decide), listed.wellFormed fun _ _ _ leaf => leaf.2.proper⟩
  | nested _ tag wellFormed => exact ⟨tag, wellFormed⟩

/-- A list of modules holds nothing else. -/
theorem names_of_listed (listed : inside.Items fun name attributes inside =>
    name = "module".toList ∧ IsLeaf name attributes inside) :
    ∀ s ∈ inside.names, s = "module".toList := by
  -- Along the items: a blank and a comment name nothing.
  induction listed with
  | nil => exact fun _ member => nomatch member
  | blank _ _ ih => exact ih
  | comment _ _ ih => exact ih
  | element fit _ ih =>
    obtain ⟨rfl, leaf⟩ := fit
    cases leaf with
    | mk => exact List.forall_mem_cons.mpr ⟨rfl, ih⟩

/-- Values are in nothing else. -/
theorem Items.apart_of_leaves {m : Markup} (leaves : m.Items IsLeaf) (s : Text) : m.Apart s := by
  induction leaves with
  | nil => trivial
  | blank _ _ ih => exact ih
  | comment _ _ ih => exact ih
  | element fit _ ih =>
    cases fit with
    | mk => exact ⟨fun _ => List.not_mem_nil, trivial, ih⟩

/-- An element that is no reference to a parent holds none. -/
theorem IsChild.parent_or (child : IsChild name attributes inside) :
    (name = parentName ∧ attributes = [] ∧ inside.Items IsLeaf ∧
      parentName ∉ inside.names) ∨
    parentName ∉ (element name attributes inside nil).names := by
  -- Only the parent element has the name, and by hypothesis no other child holds one.
  cases child with
  | leaf leaf other =>
    cases leaf with
    | mk => exact .inr (by simpa [names] using Ne.symm other)
  | parent leaves single => exact .inl ⟨rfl, rfl, leaves, single⟩
  | modules listed =>
    refine .inr ?_
    have none : parentName ∉ inside.names := fun member =>
      absurd (names_of_listed listed _ member) (by decide)
    simp only [names, List.append_nil]
    exact List.not_mem_cons_of_ne_of_not_mem (by decide) none
  | nested known tag wellFormed apart orphan =>
    refine .inr ?_
    have other : parentName ≠ name := by
      rintro rfl
      exact absurd known (by decide)
    simp only [names, List.append_nil]
    exact List.not_mem_cons_of_ne_of_not_mem other orphan

theorem inherited_of_missing {m : Markup} (missing : parentName ∉ m.names) : m.inherited = [] := by
  induction m with
  | nil => rfl
  | text t m ih => exact ih missing
  | comment t m ih => exact ih missing
  | element name attributes inside m _ ih =>
    obtain ⟨other, missing⟩ := List.ne_and_not_mem_of_not_mem_cons missing
    rw [inherited, if_neg (Ne.symm other), ih fun member => missing (List.mem_append_right _ member)]

/-- No section is in a section of the same name. -/
theorem IsChild.apart (child : IsChild name attributes inside) :
    ∀ s ∈ sectionNames, (element name attributes inside nil).Apart s := by
  cases child with
  | leaf leaf => cases leaf with
    | mk => exact fun s _ => ⟨fun _ => List.not_mem_nil, trivial, trivial⟩
  | parent leaves =>
    intro s member
    have other : parentName ≠ s := by
      rintro rfl
      exact absurd member (by decide)
    exact ⟨fun same => absurd same other, leaves.apart_of_leaves s, trivial⟩
  | modules listed =>
    intro s member
    have other : "modules".toList ≠ s := by
      rintro rfl
      exact absurd member (by decide)
    exact ⟨fun same => absurd same other,
      (listed.imp fun _ _ _ leaf => leaf.2).apart_of_leaves s, trivial⟩
  | nested _ _ _ apart => exact apart

theorem Items.apart {m : Markup} (items : m.Items IsChild) : ∀ s ∈ sectionNames, m.Apart s := by
  intro s member
  induction items with
  | nil => trivial
  | blank _ _ ih => exact ih
  | comment _ _ ih => exact ih
  | element fit _ ih =>
    obtain ⟨outermost, inner, _⟩ := fit.apart s member
    exact ⟨outermost, inner, ih⟩

/-- Where there is a reference to a parent: it stands at the top, between things that hold none. -/
theorem Items.exists_parent {m : Markup} (items : m.Items IsChild)
    (single : m.names.count parentName ≤ 1) (some : parentName ∈ m.names) :
    ∃ (before : Text) (inside : Markup) (after : Text), m.uncommented.render =
        before ++ (opening parentName [] ++ (inside.uncommented.render ++
          (closing parentName ++ after))) ∧
      parentBlock.Skips before ∧ (m.kept [parentName]).render = before ++ after ∧
      inside.Items IsLeaf ∧ parentName ∉ inside.names ∧ m.inherited = inside.declared := by
  induction items with
  | nil => simp [names] at some
  | @blank t rest blank items ih =>
    obtain ⟨before, inside, after, split, skips, joined, known⟩ := ih single some
    have plain : '<' ∉ t := fun member => absurd (blank _ member) (by decide)
    refine ⟨t ++ before, inside, after, ?_, (skips_text _ plain).append skips, ?_, known⟩
    · rw [uncommented, render, split, List.append_assoc]
    · rw [List.append_assoc, ← joined]
      rfl
  | comment closed items ih => exact ih single some
  | @element name attributes inside rest fit items ih =>
    have proper := fit.proper
    -- This element is the parent itself, or the parent is in the rest and this element holds none.
    rcases fit.parent_or with ⟨rfl, rfl, leaves, none⟩ | none
    · have later : parentName ∉ rest.names := by
        intro member
        have more := List.count_pos_iff.mpr member
        simp only [names, List.count_cons_self, List.count_append] at single
        omega
      refine ⟨[], inside, rest.uncommented.render, rfl, .nil, ?_, leaves, none, by simp [inherited]⟩
      rw [kept_of_mem List.mem_cons_self, kept_of_missing (List.forall_mem_singleton.mpr later)]
      rfl
    · simp only [names, List.append_nil] at none
      obtain ⟨other, none'⟩ := List.ne_and_not_mem_of_not_mem_cons none
      have some' : parentName ∈ rest.names := by simpa [names, other, none'] using some
      have single' : rest.names.count parentName ≤ 1 := by
        refine Nat.le_trans ?_ single
        simp only [names, List.count_cons, List.count_append]
        omega
      obtain ⟨before, inside', after, split, skips, joined, leaves, alone, same⟩ := ih single' some'
      refine ⟨(Markup.element name attributes inside .nil).uncommented.render ++ before, inside',
        after, ?_, .append ?_ skips, ?_, leaves, alone, ?_⟩
      · rw [uncommented, render_element, split, List.append_assoc]
        rfl
      · have wellFormed : (Markup.element name attributes inside .nil).WellFormed :=
          ⟨proper.1, proper.2, trivial⟩
        refine skips_render (s := parentName) (.inl rfl) (by decide)
          (wellFormed_uncommented wellFormed) (silent_uncommented _) ?_
        simpa only [names_uncommented, names, List.append_nil] using none
      · rw [kept_of_not_mem (by simpa using Ne.symm other), render_element, joined,
          kept_of_missing (List.forall_mem_singleton.mpr none'), List.append_assoc]
        rfl
      · rw [inherited, if_neg (Ne.symm other), same]

/-! ### Searching for a value -/

/-- The marks that patterns read in their own way. -/
def patternMarks : Text := ".^$*+?[](\x7b\x7d)|\\"

/-- A name that a pattern reads as it is. -/
def IsPlain (name : Text) : Prop := ∀ c ∈ name, isNameChar c = true ∧ c ∉ patternMarks

instance (name : Text) : Decidable (IsPlain name) :=
  decidable_of_iff (name.all fun c => isNameChar c && !patternMarks.contains c) (by
    simp [IsPlain])

/-- The value that is found first. -/
abbrev find? (tag t : Text) : Option Text := Text.firstSuffix? (valueAt? tag) t

variable {tag : Text} (plain : IsPlain tag)
include plain

theorem IsPlain.point_not_mem : '.' ∉ tag := fun member =>
  (plain _ member).2 (by decide)

theorem IsPlain.named : Named tag := fun c member => (plain c member).1

theorem find?_append {t : Text} (skips : (Block.element tag).Skips t) (rest : Text) :
    find? tag (t ++ rest) = find? tag rest :=
  firstSuffix?_append (skips.valueAt? plain.point_not_mem) rest

theorem find?_leaf (leaf : IsLeaf name attributes inside) (rest : Text) :
    find? tag ((element name attributes inside nil).render ++ rest) =
      ((element name attributes inside nil).declared.lookup tag).or (find? tag rest) := by
  obtain ⟨isTag, wellFormed⟩ := leaf.proper
  cases leaf with
  | @mk t named untagged inhabited =>
    -- The element is either the one that is asked for or has no opening of it anywhere.
    by_cases same : name = tag
    · subst same
      have here := valueAt?_element name untagged inhabited rest
      have split : (element name [] (text t nil) nil).render ++ rest =
          '<' :: name ++ ['>'] ++ (t ++ ('<' :: '/' :: name ++ ['>'] ++ rest)) := by
        simp [render, opening, closing]
      rw [split]
      rw [List.cons_append, List.cons_append] at here ⊢
      rw [find?, Text.firstSuffix?, here]
      simp [declared]
    · rw [lookup_declared_of_ne (Ne.symm same), find?_append plain]
      · rfl
      · refine skips_render (.inl rfl) plain.named (m := .element name [] (.text t .nil) .nil)
          ⟨isTag, wellFormed, trivial⟩ ⟨trivial, trivial⟩ ?_
        simpa [names] using Ne.symm same

/-- The first value in a row is that of the first element of the name. -/
theorem find?_items {fits : Text → Text → Markup → Prop} {m : Markup} (items : m.Items fits)
    (each : ∀ name attributes inside, fits name attributes inside → ∀ rest,
      find? tag (((element name attributes inside nil).kept dropped).render ++ rest) =
        ((element name attributes inside nil).declared.lookup tag).or (find? tag rest)) (rest : Text) :
    find? tag ((m.kept dropped).render ++ rest) = (m.declared.lookup tag).or (find? tag rest) := by
  -- Item by item: a blank and a comment have no tag, and the first element that declares the
  -- name answers.
  induction items with
  | nil => rfl
  | @blank t m blank _ ih =>
    have untagged : '<' ∉ t := fun member => absurd (blank _ member) (by decide)
    have split : ((text t m).kept dropped).render = t ++ (m.kept dropped).render := rfl
    rw [split, List.append_assoc, find?_append plain (skips_text _ untagged), ih]
    rfl
  | comment _ _ ih => exact ih
  | @element name attributes inside m fit _ ih =>
    rw [render_kept_element, List.append_assoc, each _ _ _ fit, ih,
      declared_element name attributes inside m, List.lookup_append, Option.or_assoc]

/-- The first value in the reference to a parent. -/
theorem find?_leaves {m : Markup} (leaves : m.Items IsLeaf) (rest : Text) :
    find? tag (m.uncommented.render ++ rest) = (m.declared.lookup tag).or (find? tag rest) := by
  have each (name attributes : Text) (inside : Markup) (leaf : IsLeaf name attributes inside)
      (rest : Text) : find? tag (((element name attributes inside nil).kept []).render ++ rest) =
        ((element name attributes inside nil).declared.lookup tag).or (find? tag rest) := by
    rw [kept_of_missing (by simp), ← find?_leaf plain leaf]
    cases leaf with
    | mk => rfl
  have found := find?_items plain leaves each rest
  rwa [kept_of_missing (by simp)] at found

/-- The elements that are looked into for other values than those of the project. -/
def otherNames : List Text := parentName :: "modules" :: "module" :: sectionNames

/-- The first value at the top of a project, when the reference to a parent and the sections are left
out. -/
theorem find?_children {m : Markup} (other : tag ∉ otherNames) (children : m.Items IsChild)
    (rest : Text) : find? tag ((m.kept (parentName :: sectionNames)).render ++ rest) =
      (m.declared.lookup tag).or (find? tag rest) := by
  obtain ⟨notParent, other⟩ := List.ne_and_not_mem_of_not_mem_cons other
  obtain ⟨notModules, other⟩ := List.ne_and_not_mem_of_not_mem_cons other
  obtain ⟨notModule, notSection⟩ := List.ne_and_not_mem_of_not_mem_cons other
  refine find?_items plain children (fun name attributes inside child rest => ?_) rest
  -- An element that is left out declares a tag other than the one sought.
  have left (dropped : name ∈ parentName :: sectionNames) :
      find? tag (((element name attributes inside nil).kept (parentName :: sectionNames)).render ++
          rest) = ((element name attributes inside nil).declared.lookup tag).or (find? tag rest) := by
    have differ : tag ≠ name := by
      rintro rfl
      exact List.not_mem_cons_of_ne_of_not_mem notParent notSection dropped
    rw [kept_of_mem dropped, lookup_declared_of_ne differ]
    rfl
  cases child with
  | leaf leaf =>
    by_cases dropped : name ∈ parentName :: sectionNames
    · exact left dropped
    · rw [kept_of_not_mem dropped, ← find?_leaf plain leaf]
      cases leaf with
      | mk => rfl
  | parent leaves => exact left List.mem_cons_self
  | nested known => exact left (List.mem_cons_of_mem _ known)
  | modules listed =>
    have stays : "modules".toList ∉ parentName :: sectionNames := by decide
    have proper := (IsChild.modules listed).proper
    have wellFormed : (element "modules" [] inside nil).WellFormed := ⟨proper.1, proper.2, trivial⟩
    have missing : tag ∉ (element "modules" [] inside nil).names := by
      simp only [names, List.append_nil]
      exact List.not_mem_cons_of_ne_of_not_mem notModules fun member =>
        notModule (names_of_listed listed _ member)
    rw [lookup_declared_of_ne notModules, find?_append plain]
    · rfl
    · refine skips_render (.inl rfl) plain.named
        (wellFormed_elided (wellFormed_uncommented wellFormed)) (silent_elided (silent_uncommented _))
        fun member => missing ?_
      have outer := names_elided_subset member
      rwa [names_uncommented] at outer

end

end Markup

/-! ### Descriptors -/

/-- The text of a descriptor, by its parts: the element of the project, and what may stand before and
after it. -/
structure Pom where
  heading : Text := []
  before : Markup := .nil
  attributes : Text := []
  children : Markup
  after : Markup := .nil

namespace Pom

open Markup

def projectName : Text := "project"

def render (p : Pom) : Text :=
  p.heading ++ (p.before.render ++
    (Markup.element projectName p.attributes p.children p.after).render)

/-- There are comments and blanks before and after the element of the project, and one reference to a
parent at most. -/
structure Proper (p : Pom) : Prop where
  heading : p.heading = [] ∨ ∃ t, p.heading = '<' :: ('?' :: t) ∧ '<' ∉ t
  before : p.before.Items fun _ _ _ => False
  tag : IsTag projectName p.attributes
  children : p.children.Items IsChild
  single : p.children.names.count parentName ≤ 1
  after : p.after.Items fun _ _ _ => False

/-- What stands before the children, without comments. -/
def front (p : Pom) : Text :=
  p.heading ++ (p.before.uncommented.render ++ opening projectName p.attributes)

/-- What stands after the children, without comments. -/
def tail (p : Pom) : Text := closing projectName ++ p.after.uncommented.render

section

variable {p : Pom}

namespace Proper

variable (proper : p.Proper)
include proper

theorem wellFormed_before : p.before.WellFormed := proper.before.wellFormed nofun

theorem wellFormed_root :
    (Markup.element projectName p.attributes p.children p.after).WellFormed :=
  ⟨proper.tag, proper.children.wellFormed fun _ _ _ => IsChild.proper, proper.after.wellFormed nofun⟩

theorem skips_front {b : Block} {s : Text} (isOf : b.IsOf s) (named : Named s)
    (root : b.Skips (opening projectName p.attributes)) : b.Skips p.front := by
  have heading : b.Skips p.heading := by
    rcases proper.heading with none | ⟨t, some, plain⟩
    · rw [none]
      exact .nil
    · rw [some]
      exact skips_heading isOf named plain
  refine heading.append (.append ?_ root)
  refine skips_render isOf named (wellFormed_uncommented proper.wellFormed_before)
    (silent_uncommented _) ?_
  rw [names_uncommented, proper.before.names_eq_nil]
  exact List.not_mem_nil

theorem skips_tail {b : Block} {s : Text} (isOf : b.IsOf s) (named : Named s) : b.Skips p.tail := by
  refine (skips_closing isOf named proper.tag.named).append ?_
  refine skips_render isOf named (wellFormed_uncommented (proper.after.wellFormed nofun))
    (silent_uncommented _) ?_
  rw [names_uncommented, proper.after.names_eq_nil]
  exact List.not_mem_nil

theorem without_comment_render :
    without .comment p.render = p.front ++ (p.children.uncommented.render ++ p.tail) := by
  have heading : Block.comment.Skips p.heading := by
    rcases proper.heading with none | ⟨t, some, plain⟩
    · rw [none]
      exact .nil
    · rw [some]
      exact skips_comment_heading plain
  have root := without_comment proper.wellFormed_root []
  rw [List.append_nil, without_nil, List.append_nil] at root
  rw [render, without_append heading, without_comment proper.wellFormed_before, root]
  simp only [front, tail, uncommented, Markup.render, List.append_assoc]

theorem skips_parent_front : parentBlock.Skips p.front :=
  proper.skips_front (s := parentName) (.inl rfl) (by decide)
    (skips_opening (s := parentName) (.inl rfl) (by decide) proper.tag (by decide))

theorem skips_parent_tail : parentBlock.Skips p.tail :=
  proper.skips_tail (s := parentName) (.inl rfl) (by decide)

/-- There is no reference to a parent, or it is cut out. -/
theorem cut_parent :
    (parentName ∉ p.children.names ∧ parentBlock.cut? (without .comment p.render) = none) ∨
    ∃ (before : Text) (inside : Markup) (after : Text), p.children.uncommented.render =
        before ++ (opening parentName [] ++ (inside.uncommented.render ++
          (closing parentName ++ after))) ∧
      (p.children.kept [parentName]).render = before ++ after ∧ inside.Items IsLeaf ∧
      p.children.inherited = inside.declared ∧
      parentBlock.cut? (without .comment p.render) = some (p.front ++ before, after ++ p.tail) := by
  rw [proper.without_comment_render]
  -- With a parent the text is cut at its opening and its first closing. Without one there is no
  -- place to cut.
  by_cases some : parentName ∈ p.children.names
  · obtain ⟨before, inside, after, split, skips, joined, leaves, single, same⟩ :=
      proper.children.exists_parent proper.single some
    refine .inr ⟨before, inside, after, split, joined, leaves, same, ?_⟩
    have wellFormed := wellFormed_uncommented (leaves.wellFormed fun _ _ _ => IsLeaf.proper)
    have avoids : Avoids (closing parentName) inside.uncommented.render :=
      avoids_closing (by decide) wellFormed (silent_uncommented _)
        (by rwa [names_uncommented])
    have cut : parentBlock.cut? (opening parentName [] ++ (inside.uncommented.render ++
        (closing parentName ++ (after ++ p.tail)))) = Option.some ([], after ++ p.tail) := by
      refine Block.cut?_of_opening inside.uncommented.render (Text.dropStart?_eq_some.mpr rfl)
        (by simp [opening]) ?_
      exact fun early late split some => avoids early late split some _
    have whole : p.front ++ (p.children.uncommented.render ++ p.tail) =
        (p.front ++ before) ++ (opening parentName [] ++ (inside.uncommented.render ++
          (closing parentName ++ (after ++ p.tail)))) := by
      simp only [split, List.append_assoc]
    rw [whole, Block.cut?_append (proper.skips_parent_front.append skips), cut]
    exact congrArg (fun before => Option.some (before, after ++ p.tail)) (List.append_nil _)
  · refine .inl ⟨some, Block.cut?_eq_none (proper.skips_parent_front.append
      (.append ?_ proper.skips_parent_tail))⟩
    refine skips_render (s := parentName) (.inl rfl) (by decide)
      (wellFormed_uncommented proper.wellFormed_root.2.1) (silent_uncommented _) ?_
    rwa [names_uncommented]

theorem foldl_sections : nestedSections.foldl (fun text b => without b text)
      (p.front ++ ((p.children.kept [parentName]).render ++ p.tail)) =
    p.front ++ ((p.children.kept (parentName :: sectionNames)).render ++ p.tail) := by
  have listed : nestedSections = sectionNames.map Block.attributed := rfl
  have named : ∀ s ∈ sectionNames, Named s := by decide
  have other : ∀ s ∈ sectionNames, projectName ≠ s := by decide
  have wellFormed := proper.wellFormed_root.2.1
  have front : ∀ b ∈ nestedSections, b.Skips p.front := fun b member => by
    obtain ⟨s, known, rfl⟩ := List.mem_map.mp (listed ▸ member)
    exact proper.skips_front (.inr rfl) (named s known)
      (skips_opening (.inr rfl) (named s known) proper.tag (other s known))
  have tail : ∀ b ∈ nestedSections, b.Skips p.tail := fun b member => by
    obtain ⟨s, known, rfl⟩ := List.mem_map.mp (listed ▸ member)
    exact proper.skips_tail (.inr rfl) (named s known)
  have ended := foldl_without_append tail []
  rw [foldl_without_nil, List.append_nil] at ended
  have cut := foldl_without_sections named (m := p.children.kept [parentName])
    (fun s member => apart_elided (apart_uncommented (proper.children.apart s member)))
    (wellFormed_elided (wellFormed_uncommented wellFormed)) (silent_elided (silent_uncommented _))
    p.tail
  -- The sections are cut from the children only, since neither the front nor the tail opens
  -- one.
  rw [← listed, ended, kept, elided_elided] at cut
  rw [foldl_without_append front]
  exact congrArg (p.front ++ ·) cut

/-- What is left of the text at the level of the project. -/
theorem ownLevel_render : ownLevel p.render =
    p.front ++ ((p.children.kept (parentName :: sectionNames)).render ++ p.tail) := by
  rw [← proper.foldl_sections]
  unfold ownLevel
  refine congrArg (nestedSections.foldl fun text b => without b text) ?_
  rcases proper.cut_parent with ⟨missing, cut⟩ | ⟨before, inside, after, split, joined, _, _, cut⟩
  · simp only [cut]
    rw [proper.without_comment_render, kept_of_missing (List.forall_mem_singleton.mpr missing)]
  · simp only [cut]
    rw [joined]
    simp only [List.append_assoc]

theorem parent?_render : (parent? p.render = none ∧ p.children.inherited = []) ∨
    ∃ inside : Markup, inside.Items IsLeaf ∧ p.children.inherited = inside.declared ∧
      parent? p.render =
        some (opening parentName [] ++ (inside.uncommented.render ++ closing parentName)) := by
  unfold parent?
  rcases proper.cut_parent with ⟨missing, cut⟩ | ⟨before, inside, after, split, _, leaves, same, cut⟩
  · refine .inl ⟨?_, inherited_of_missing missing⟩
    simp only [cut, Option.map_none]
  · refine .inr ⟨inside, leaves, same, ?_⟩
    simp only [cut, Option.map_some, Option.some.injEq]
    rw [proper.without_comment_render]
    have whole : p.front ++ (p.children.uncommented.render ++ p.tail) =
        (p.front ++ before) ++ ((opening parentName [] ++ (inside.uncommented.render ++
          closing parentName)) ++ (after ++ p.tail)) := by
      simp only [split, List.append_assoc]
    rw [whole, List.drop_left]
    refine List.take_left' ?_
    simp only [List.length_append]
    omega

end Proper

/-- A value that a descriptor declares is that of the first element of its name at the top of the
project, or else that of the first one in the reference to a parent. -/
theorem value?_render (proper : p.Proper) {tag : Text} (plain : IsPlain tag)
    (other : tag ∉ otherNames) (root : tag ≠ projectName ∨ p.attributes ≠ []) :
    value? tag p.render =
      (p.children.declared.lookup tag).or (p.children.inherited.lookup tag) := by
  have named := plain.named
  have front : (Block.element tag).Skips p.front :=
    proper.skips_front (.inl rfl) named
      (skips_opening_element named proper.tag (root.imp_left Ne.symm))
  have tail : find? tag p.tail = none := by
    have found := find?_append plain (proper.skips_tail (.inl rfl) named) []
    rwa [List.append_nil] at found
  -- What the project declares itself answers first, and then what its parent does.
  have own : find? tag (ownLevel p.render) = p.children.declared.lookup tag := by
    rw [proper.ownLevel_render, find?_append plain front, find?_children plain other proper.children,
      tail, Option.or_none]
  have parent : (parent? p.render).bind (find? tag) = p.children.inherited.lookup tag := by
    rcases proper.parent?_render with ⟨none, nothing⟩ | ⟨inside, leaves, same, some⟩
    · rw [none, nothing]
      rfl
    · obtain ⟨notParent, _⟩ := List.ne_and_not_mem_of_not_mem_cons other
      have parentNamed : Named parentName := by decide
      have opens := skips_opening (b := .element tag) (.inl rfl) named (.of_named parentNamed)
        notParent.symm
      have closes := find?_append plain (skips_closing (.inl rfl) named parentNamed) []
      rw [List.append_nil] at closes
      rw [some, Option.bind_some, same, find?_append plain opens, find?_leaves plain leaves, closes]
      exact Option.or_none
  rw [value?, ← own, ← parent]

end

/-- A descriptor in which a value stands in the reference to the parent and, with another meaning, in
a section and in a comment. -/
def inheriting : Pom where
  children :=
    .comment "<groupId>c</groupId>" <|
    .element "dependencies" []
      (.element "dependency" [] (.element "groupId" [] (.text "d" .nil) .nil) .nil) <|
    .element parentName [] (.element "groupId" [] (.text " g " .nil) .nil) .nil

/-- A descriptor without a value of some name, but with one whose name is alike. -/
def alike : Pom where
  children := .element "java_version" [] (.text "17" .nil) .nil

/-- A descriptor of a project that declares nothing. -/
def blank : Pom where
  children := .text " " .nil

theorem inheriting_proper : inheriting.Proper where
  heading := .inl rfl
  before := .nil
  tag := .of_named (by decide)
  children := by
    refine .comment (by decide) (.element (.nested (by decide) ?_ ?_ ?_ ?_)
      (.element (.parent (.element ?_ .nil) ?_) .nil))
    · exact .of_named (by decide)
    · exact ⟨.of_named (by decide),
        ⟨.of_named (by decide), ⟨by decide, trivial⟩, trivial⟩, trivial⟩
    · decide
    · decide
    · exact .mk (List.all_eq_true.mp (by decide)) (by decide) (by decide)
    · decide
  single := by decide
  after := .nil

theorem alike_proper : alike.Proper where
  heading := .inl rfl
  before := .nil
  tag := .of_named (by decide)
  children := .element (.leaf (.mk (List.all_eq_true.mp (by decide)) (by decide)
    (by decide)) (by decide)) .nil
  single := by decide
  after := .nil

theorem blank_proper : blank.Proper where
  heading := .inl rfl
  before := .nil
  tag := .of_named (by decide)
  children := .blank (List.all_eq_true.mp (by decide)) .nil
  single := by decide
  after := .nil

/-- The value of the parent counts, and neither that of the dependency nor that in the comment. -/
theorem value?_inheriting : value? "groupId" inheriting.render = some "g" := by
  have plain : IsPlain "groupId" := by decide
  have found := value?_render inheriting_proper plain (by decide) (.inl (by decide))
  exact found.trans (by decide)

/-- A point in a name stands for any character, and the element of the project itself is taken for a
value where there is nothing in it. -/
theorem value?_undeclared :
    (alike.Proper ∧ value? "java.version" alike.render = some "17" ∧
      (alike.children.declared.lookup "java.version".toList).or
        (alike.children.inherited.lookup "java.version".toList) = none) ∧
    blank.Proper ∧ value? projectName blank.render = some " " ∧
      (blank.children.declared.lookup projectName).or
        (blank.children.inherited.lookup projectName) = none :=
  ⟨⟨alike_proper, by decide +kernel, by decide +kernel⟩, blank_proper, by decide +kernel,
    by decide⟩

end Pom

end Layering
