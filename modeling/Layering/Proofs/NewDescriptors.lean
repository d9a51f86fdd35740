import Layering.Proofs.Blocks
import Layering.Scaffold

/-!
# The descriptors of new modules

A new module is packaged as a library, so that it gains no modules of its own and needs no build
wrapper. What is filled in cannot change this as long as no tag begins in it.
-/

namespace Layering

namespace Text

theorem unifyBreaks_append_of_not_mem {t : Text} (plain : '\r' ∉ t) (rest : Text) :
    unifyBreaks (t ++ rest) = t ++ unifyBreaks rest := by
  induction t with
  | nil => rfl
  | cons c t ih =>
    rw [List.mem_cons, not_or] at plain
    have step : unifyBreaks (c :: (t ++ rest)) = c :: unifyBreaks (t ++ rest) := by
      rw [unifyBreaks]
      · rintro _ rfl
        exact absurd rfl plain.1
      · rintro rfl
        exact absurd rfl plain.1
    rw [List.cons_append, step, ih plain.2, List.cons_append]

/-- What starts with a tag keeps its line breaks, whatever stands before it. -/
theorem unifyBreaks_append_tag {tag : Text} (first : tag.head? = some '<') (plain : '\r' ∉ tag)
    (t rest : Text) : unifyBreaks (t ++ (tag ++ rest)) = unifyBreaks t ++ (tag ++ unifyBreaks rest) := by
  obtain ⟨more, rfl⟩ := List.head?_eq_some_iff.mp first
  rw [List.mem_cons, not_or] at plain
  rw [List.cons_append, unifyBreaks_append_cons (by decide) (by decide),
    unifyBreaks_append_of_not_mem plain.2, List.cons_append]

end Text

namespace Descriptor

/-- A value stands in the project itself or in its parent reference. -/
theorem exists_valueAt? {tag descriptor value : Text} (found : value? tag descriptor = some value) :
    ∃ t, valueAt? tag t = some value := by
  rcases Option.or_eq_some_iff.mp found with own | ⟨_, inherited⟩
  · obtain ⟨t, _, here⟩ := Text.firstSuffix?_eq_some own
    exact ⟨t, here⟩
  · obtain ⟨_, _, inherited⟩ := Option.bind_eq_some_iff.mp inherited
    obtain ⟨t, _, here⟩ := Text.firstSuffix?_eq_some inherited
    exact ⟨t, here⟩

/-- No tag begins in a value. -/
theorem not_mem_of_value? {tag descriptor value : Text} (found : value? tag descriptor = some value) :
    '<' ∉ value := by
  obtain ⟨t, here⟩ := exists_valueAt? found
  simp only [valueAt?, Option.bind_eq_bind, Option.bind_eq_some_iff, Option.some.injEq] at here
  obtain ⟨rest, _, _, _, last, ends, rfl⟩ := here
  intro member
  have inner {c : Char} (inside : c ∈ rest.takeWhile (· ≠ '<')) : c ≠ '<' := by
    simpa using List.mem_takeWhile_imp inside
  split at member
  · rw [← List.mem_singleton.mp member] at ends
    exact inner (List.mem_of_getLast? ends) rfl
  · refine inner ?_ rfl
    unfold Text.trim Text.trimRight at member
    exact List.dropWhile_subset _ (List.mem_reverse.mp
      (List.dropWhile_subset _ (List.mem_reverse.mp member)))

/-! ### What is packaged as a library -/

/-- A descriptor up to the name of its project. -/
structure Front where
  group : Text
  parent : Text
  version : Text
  name : Text

namespace Front

/-- What stands before the parent reference. -/
def opening : Text :=
  "<?xml version=\"1.0\" encoding=\"UTF-8\"?>\n"
    ++ "<project xmlns=\"http://maven.apache.org/POM/4.0.0\"\n"
    ++ "         xmlns:xsi=\"http://www.w3.org/2001/XMLSchema-instance\"\n"
    ++ "         xsi:schemaLocation=\"http://maven.apache.org/POM/4.0.0 "
    ++ "http://maven.apache.org/xsd/maven-4.0.0.xsd\">\n"
    ++ "    <modelVersion>4.0.0</modelVersion>\n\n    "

/-- What stands in the parent reference. -/
def reference (f : Front) : Text :=
  "\n        <groupId>" ++ f.group ++ "</groupId>\n        <artifactId>" ++ f.parent
    ++ "</artifactId>\n        <version>" ++ f.version ++ "</version>\n    "

/-- What stands between the parent reference and the packaging. -/
def identity (f : Front) : Text := "\n\n    <artifactId>" ++ f.name ++ "</artifactId>\n    "

/-- The packaging of a library. -/
def packaged : Text := "<packaging>jar</packaging>"

/-- The descriptor with something behind the packaging. -/
def text (f : Front) (rest : Text) : Text :=
  opening ++ ("<parent>" ++ (f.reference ++ ("</parent>" ++ (f.identity ++ (packaged ++ rest)))))

/-- No tag begins in what is filled in. -/
structure Plain (f : Front) : Prop where
  group : '<' ∉ f.group
  parent : '<' ∉ f.parent
  version : '<' ∉ f.version
  name : '<' ∉ f.name

variable {f : Front}

/-- The blocks that are left out. -/
def leftOut : List Block := .comment :: nestedSections

/-- The words that are looked for, each of which starts a tag. -/
def sought : List Text :=
  "<packaging>".toList :: "</parent>".toList :: parentBlock.start :: leftOut.map Block.start

theorem avoids_literals : ∀ word ∈ sought, ∀ t ∈ [opening, "\n        <groupId>".toList,
    "</groupId>\n        <artifactId>".toList, "</artifactId>\n        <version>".toList,
    "</version>\n    ".toList, "\n\n    <artifactId>".toList, "</artifactId>\n    ".toList],
    avoids word t = true := by decide +kernel

theorem avoids_tags : ∀ word ∈ leftOut.map Block.start,
    ∀ t ∈ ["<parent>".toList, "</parent>".toList, packaged], avoids word t = true := by
  decide

theorem tag_of_sought : ∀ word ∈ sought, ∃ more, word = '<' :: more := by
  have all : ∀ word ∈ sought, word.head? = some '<' := by decide
  intro word member
  exact List.head?_eq_some_iff.mp (all word member)

section

variable (plain : f.Plain) {word : Text} (listed : word ∈ sought)
include listed

theorem avoids_opening : Avoids word opening := avoids_sound (avoids_literals word listed _ (by simp))

include plain

theorem avoids_reference : Avoids word f.reference := by
  obtain ⟨more, tag⟩ := tag_of_sought word listed
  have filled {t : Text} (plain : '<' ∉ t) : Avoids word t :=
    nowhere_of_not_mem (fun _ part => head?_of_prefix (tag ▸ part)) plain
  have literal := avoids_literals word listed
  exact ((((((avoids_sound (literal _ (by simp))).append (filled plain.group)).append
    (avoids_sound (literal _ (by simp)))).append (filled plain.parent)).append
      (avoids_sound (literal _ (by simp)))).append (filled plain.version)).append
        (avoids_sound (literal _ (by simp)))

theorem avoids_identity : Avoids word f.identity := by
  obtain ⟨more, tag⟩ := tag_of_sought word listed
  have filled {t : Text} (plain : '<' ∉ t) : Avoids word t :=
    nowhere_of_not_mem (fun _ part => head?_of_prefix (tag ▸ part)) plain
  have literal := avoids_literals word listed
  exact ((avoids_sound (literal _ (by simp))).append (filled plain.name)).append
    (avoids_sound (literal _ (by simp)))

end

theorem mem_sought_of_leftOut {b : Block} (listed : b ∈ leftOut) : b.start ∈ sought := by
  unfold sought
  exact List.mem_cons_of_mem _ (List.mem_cons_of_mem _
    (List.mem_cons_of_mem _ (List.mem_map_of_mem listed)))

/-- The front of a descriptor without its parent reference. -/
def own (f : Front) : Text := opening ++ (f.identity ++ packaged)

theorem avoids_own (plain : f.Plain) {b : Block} (listed : b ∈ leftOut) : Avoids b.start f.own := by
  have tags := avoids_tags _ (List.mem_map_of_mem listed)
  exact (avoids_opening (mem_sought_of_leftOut listed)).append
    ((avoids_identity plain (mem_sought_of_leftOut listed)).append
      (avoids_sound (tags packaged (by simp))))

/-- Comments behind the packaging do not matter. -/
theorem without_comment_text (plain : f.Plain) (rest : Text) :
    without .comment (f.text rest) = f.text (without .comment rest) := by
  have listed : Block.comment ∈ leftOut := List.mem_cons_self
  have member := mem_sought_of_leftOut listed
  have tags := avoids_tags _ (List.mem_map_of_mem listed)
  rw [text, without_append (avoids_opening member).skips,
    without_append (avoids_sound (tags "<parent>".toList (by simp))).skips,
    without_append (avoids_reference plain member).skips,
    without_append (avoids_sound (tags "</parent>".toList (by simp))).skips,
    without_append (avoids_identity plain member).skips,
    without_append (avoids_sound (tags packaged (by simp))).skips]
  rfl

theorem cut?_parentBlock_text (plain : f.Plain) (rest : Text) :
    parentBlock.cut? (f.text rest) = some (opening, f.identity ++ (packaged ++ rest)) := by
  have opened : parentBlock.cutOpening? (f.text rest) = some (opening,
      f.reference ++ ("</parent>".toList ++ (f.identity ++ (packaged ++ rest)))) := by
    rw [text, cutOpening?_append (avoids_opening (by simp [sought])).skips]
    have first (t : Text) : parentBlock.cutOpening? ("<parent>".toList ++ t) = some ([], t) := rfl
    rw [first]
    simp
  have some : "</parent>".toList ≠ [] := by decide
  have closed := (avoids_reference plain (by simp [sought])).cut? some
    (f.identity ++ (packaged ++ rest))
  unfold Block.cut?
  rw [opened]
  simp only [Option.bind_eq_bind, Option.bind_some]
  change (Text.cut? "</parent>".toList _).bind _ = _
  rw [closed]
  rfl

/-- What is filled into a descriptor, and what stands behind the packaging, does not change it. -/
theorem packaging_text (plain : f.Plain) (rest : Text) : packaging (f.text rest) = "jar" := by
  have own (rest : Text) : opening ++ (f.identity ++ (packaged ++ rest)) = f.own ++ rest := by
    simp [Front.own]
  obtain ⟨rest', level⟩ : ∃ rest', ownLevel (f.text rest) = f.own ++ rest' := by
    unfold ownLevel
    simp only [without_comment_text plain, cut?_parentBlock_text plain]
    rw [own, foldl_without_append fun b listed =>
      (avoids_own plain (List.mem_cons_of_mem _ listed)).skips]
    exact ⟨_, rfl⟩
  have here (t : Text) : Text.firstSuffix? (valueAt? "packaging") (packaged ++ t) =
      some "jar".toList := rfl
  have valued : (Block.element "packaging").Skips opening :=
    Avoids.skips (avoids_opening (by simp [sought, Block.start]))
  have named : (Block.element "packaging").Skips f.identity :=
    Avoids.skips (avoids_identity plain (by simp [sought, Block.start]))
  have found : Text.firstSuffix? (valueAt? "packaging") (ownLevel (f.text rest)) =
      some "jar".toList := by
    rw [level, Front.own, List.append_assoc, List.append_assoc,
      firstSuffix?_append (valued.valueAt? (by decide)), firstSuffix?_append (named.valueAt? (by decide)),
      here]
  rw [packaging, value?, found]
  rfl

theorem unifyBreaks_text (f : Front) (rest : Text) :
    Text.unifyBreaks (f.text rest) = ({
      group := Text.unifyBreaks f.group
      parent := Text.unifyBreaks f.parent
      version := Text.unifyBreaks f.version
      name := Text.unifyBreaks f.name } : Front).text (Text.unifyBreaks rest) := by
  have opened : '\r' ∉ opening ++ "<parent>".toList ++ "\n        <groupId>".toList := by
    decide
  have closed : '\r' ∉ "</version>\n    ".toList ++ "</parent>".toList ++
      "\n\n    <artifactId>".toList := by decide
  have ended : '\r' ∉ "</artifactId>\n    ".toList ++ packaged := by decide
  have whole (f : Front) (rest : Text) : f.text rest =
      (opening ++ "<parent>".toList ++ "\n        <groupId>".toList) ++ (f.group ++
      ("</groupId>\n        <artifactId>".toList ++ (f.parent ++
      ("</artifactId>\n        <version>".toList ++ (f.version ++
      (("</version>\n    ".toList ++ "</parent>".toList ++ "\n\n    <artifactId>".toList) ++ (f.name ++
      (("</artifactId>\n    ".toList ++ packaged) ++ rest)))))))) := by
    unfold text reference identity
    simp only [List.append_assoc]
  rw [whole, whole, Text.unifyBreaks_append_of_not_mem opened,
    Text.unifyBreaks_append_tag rfl (by decide), Text.unifyBreaks_append_tag rfl (by decide),
    Text.unifyBreaks_append_tag rfl closed, Text.unifyBreaks_append_tag rfl ended]

end Front

end Descriptor

namespace Scaffold

/-- The front of the descriptor for a new module. -/
def front (parent directory name : Text) : Descriptor.Front where
  group := (Descriptor.value? "groupId" parent).getD defaultGroup
  parent := (Descriptor.value? "artifactId" parent).getD directory
  version := (Descriptor.value? "version" parent).getD defaultVersion
  name := name

/-- What stands between the packaging of a new module and what it depends on. -/
def labels (component layer : Text) : List Text :=
  ["\n\n    <name>", pascalCase component ++ " " ++ Layer.label layer, "</name>\n    <description>",
    moduleDescription component layer, "</description>\n"]

/-- A descriptor for a new module is packaged as a library. -/
theorem descriptor_eq (parent directory name component layer : Text) :
    descriptor parent directory name component layer = (front parent directory name).text
      ((labels component layer).flatten ++
        (dependencies (front parent directory name).group component layer ++ "</project>\n")) := by
  have opened : "    <modelVersion>4.0.0</modelVersion>\n\n    <parent>\n        <groupId>".toList =
      "    <modelVersion>4.0.0</modelVersion>\n\n    ".toList ++ "<parent>".toList ++
        "\n        <groupId>".toList := by decide
  have closed : "</version>\n    </parent>\n\n    <artifactId>".toList =
      "</version>\n    ".toList ++ "</parent>".toList ++ "\n\n    <artifactId>".toList := by
    decide
  have ended : "</artifactId>\n    <packaging>jar</packaging>\n\n    <name>".toList =
      "</artifactId>\n    ".toList ++ "<packaging>jar</packaging>".toList ++
        "\n\n    <name>".toList := by decide
  unfold descriptor front labels Descriptor.Front.text Descriptor.Front.opening
    Descriptor.Front.reference Descriptor.Front.identity Descriptor.Front.packaged
  simp only [List.append_assoc, List.flatten_cons, List.flatten_nil, List.nil_append, opened, closed,
    ended]

/-- What a new module is packaged as, read from its file, as long as no tag begins in the names of
the directories. -/
theorem packaging_descriptor {parent directory name : Text} (plain : '<' ∉ directory)
    (plain' : '<' ∉ name) (component layer : Text) :
    Descriptor.packaging (Text.unifyBreaks (descriptor parent directory name component layer)) =
      "jar" := by
  have filled {tag default_ : Text} (plain : '<' ∉ default_) :
      '<' ∉ Text.unifyBreaks ((Descriptor.value? tag parent).getD default_) := by
    intro member
    have inside := Text.mem_of_mem_unifyBreaks member (by decide)
    cases found : Descriptor.value? tag parent with
    | none => exact plain (by simpa [found] using inside)
    | some value => exact Descriptor.not_mem_of_value? found (by simpa [found] using inside)
  rw [descriptor_eq, Descriptor.Front.unifyBreaks_text]
  refine Descriptor.Front.packaging_text ⟨filled (by decide), filled plain, filled (by decide), ?_⟩ _
  exact fun member => plain' (Text.mem_of_mem_unifyBreaks member (by decide))

end Scaffold

end Layering
