import Layering.Proofs.Blocks

/-!
# Markup

The text of a descriptor as a row of texts, comments and elements. Leaving out the comments, or the
sections of some name, leaves the text of the row without them.
-/

namespace Layering

open Descriptor

/-- A row of texts, comments and elements, in which there are further rows. -/
inductive Markup where
  | nil
  | text (t : Text) (rest : Markup)
  | comment (t : Text) (rest : Markup)
  | element (name attributes : Text) (inside rest : Markup)

namespace Markup

/-- A character of a name: not one that ends a name or that a tag does not start with. -/
def isNameChar (c : Char) : Bool :=
  !Text.isBlank c && c ≠ '<' && c ≠ '>' && c ≠ '/' && c ≠ '!' && c ≠ '?'

/-- A text of which a name may consist. -/
def Named (name : Text) : Prop := ∀ c ∈ name, isNameChar c = true

instance (name : Text) : Decidable (Named name) :=
  decidable_of_iff (name.all isNameChar = true) List.all_eq_true

/-- What may stand in an opening tag. What follows the name is set off from it. -/
structure IsTag (name attributes : Text) : Prop where
  named : Named name
  plain : '<' ∉ attributes
  apart : ∀ c, attributes.head? = some c → Text.isBlank c = true

def opening (name attributes : Text) : Text := '<' :: (name ++ attributes ++ ['>'])

def closing (name : Text) : Text := '<' :: ('/' :: (name ++ ['>']))

/-- The text of a row. -/
def render : Markup → Text
  | nil => []
  | text t rest => t ++ rest.render
  | comment t rest => "<!--" ++ (t ++ ("-->" ++ rest.render))
  | element name attributes inside rest =>
    opening name attributes ++ (inside.render ++ (closing name ++ rest.render))

/-- Texts hold no tags, comments do not end early, and tags hold nothing but names and what follows
them. -/
def WellFormed : Markup → Prop
  | nil => True
  | text t rest => '<' ∉ t ∧ rest.WellFormed
  | comment t rest => ¬"-->".toList <:+: t ∧ rest.WellFormed
  | element name attributes inside rest =>
    IsTag name attributes ∧ inside.WellFormed ∧ rest.WellFormed

/-- There are no comments. -/
def Silent : Markup → Prop
  | nil => True
  | text _ rest => rest.Silent
  | comment _ _ => False
  | element _ _ inside rest => inside.Silent ∧ rest.Silent

/-- The names of all elements. -/
def names : Markup → List Text
  | nil => []
  | text _ rest => rest.names
  | comment _ rest => rest.names
  | element name _ inside rest => name :: (inside.names ++ rest.names)

/-- No element of some name is in another one of that name. -/
def Apart (name : Text) : Markup → Prop
  | nil => True
  | text _ rest => rest.Apart name
  | comment _ rest => rest.Apart name
  | element other _ inside rest =>
    (other = name → name ∉ inside.names) ∧ inside.Apart name ∧ rest.Apart name

instance decidableApart (name : Text) : (m : Markup) → Decidable (m.Apart name)
  | nil => .isTrue trivial
  | text _ rest => decidableApart name rest
  | comment _ rest => decidableApart name rest
  | element other _ inside rest =>
    have := decidableApart name inside
    have := decidableApart name rest
    inferInstanceAs (Decidable ((other = name → name ∉ inside.names) ∧ _ ∧ _))

/-- The row without comments. -/
def uncommented : Markup → Markup
  | nil => nil
  | text t rest => text t rest.uncommented
  | comment _ rest => rest.uncommented
  | element name attributes inside rest =>
    element name attributes inside.uncommented rest.uncommented

/-- The row without the elements of some names. -/
def elided (dropped : List Text) : Markup → Markup
  | nil => nil
  | text t rest => text t (rest.elided dropped)
  | comment t rest => comment t (rest.elided dropped)
  | element name attributes inside rest =>
    if name ∈ dropped then rest.elided dropped
    else element name attributes (inside.elided dropped) (rest.elided dropped)

/-! ### Tags -/

theorem Named.not_mem {name : Text} (named : Named name) {c : Char} (other : isNameChar c = false) :
    c ∉ name := fun member => by simp [named c member] at other

/-- Where a name ends. -/
theorem Named.eq_of_append {s n u v : Text} (named : Named s) (named' : Named n) {x y : Char}
    (other : isNameChar x = false) (other' : isNameChar y = false)
    (same : s ++ x :: u = n ++ y :: v) : s = n ∧ x :: u = y :: v := by
  induction s generalizing n with
  | nil =>
    cases n with
    | nil => exact ⟨rfl, same⟩
    | cons d n =>
      obtain ⟨rfl, _⟩ := List.cons.inj same
      exact absurd List.mem_cons_self (named'.not_mem other)
  | cons c s ih =>
    cases n with
    | nil =>
      obtain ⟨rfl, _⟩ := List.cons.inj same
      exact absurd List.mem_cons_self (named.not_mem other')
    | cons d n =>
      obtain ⟨rfl, same'⟩ := List.cons.inj same
      obtain ⟨rfl, tail⟩ := ih (List.forall_mem_cons.mp named).2
        (List.forall_mem_cons.mp named').2 same'
      exact ⟨rfl, tail⟩

theorem isNameChar_of_isBlank {c : Char} (blank : Text.isBlank c = true) : isNameChar c = false := by
  rw [isNameChar, blank]
  rfl

/-- What ends a name in a tag is no part of one. -/
theorem isNameChar_of_end {c : Char} (ends : Text.isBlank c = true ∨ c = '>') :
    isNameChar c = false := by
  rcases ends with blank | rfl
  · exact isNameChar_of_isBlank blank
  · decide

namespace IsTag

variable {name attributes : Text} (tag : IsTag name attributes)
include tag

/-- After the name of a tag comes a blank or the end of the tag. -/
theorem split (rest : Text) : ∃ c more, attributes ++ '>' :: rest = c :: more ∧
    (Text.isBlank c = true ∨ c = '>') := by
  cases split : attributes with
  | nil => exact ⟨'>', rest, rfl, .inr rfl⟩
  | cons c more => exact ⟨c, more ++ '>' :: rest, rfl, .inl (tag.apart c (by rw [split]; rfl))⟩

theorem not_mem : '<' ∉ name ++ attributes ++ ['>'] := by
  simp [tag.named.not_mem (show isNameChar '<' = false by decide), tag.plain]

/-- A tag starts with a character of its name, with a blank, or is at its end. -/
theorem first_ne {c : Char} (other : isNameChar c = false) (blank : Text.isBlank c = false)
    (last : c ≠ '>') (rest more : Text) : name ++ attributes ++ ['>'] ++ rest ≠ c :: more := by
  intro same
  rw [List.append_assoc, List.append_assoc, List.singleton_append] at same
  obtain ⟨d, tail, split, ends⟩ := tag.split rest
  rw [split] at same
  cases name with
  | nil =>
    obtain ⟨rfl, _⟩ := List.cons.inj same
    rcases ends with blank' | rfl
    · exact absurd blank' (by simp [blank])
    · exact last rfl
  | cons e name =>
    obtain ⟨rfl, _⟩ := List.cons.inj same
    exact tag.named.not_mem other List.mem_cons_self

end IsTag

theorem not_mem_closing {name : Text} (named : Named name) : '<' ∉ '/' :: (name ++ ['>']) := by
  simp [named.not_mem (show isNameChar '<' = false by decide)]

end Markup

/-- A block consists of elements of some name. -/
def Descriptor.Block.IsOf (b : Block) (name : Text) : Prop :=
  b = .element name ∨ b = .attributed name

namespace Markup

section

variable {b : Block} {s name attributes : Text} (isOf : b.IsOf s) (named : Named s)
include isOf

/-- Where an element opens, its name ends. -/
theorem exists_of_opens {t : Text} (opens : b.Opens t) :
    ∃ c more, t = '<' :: (s ++ c :: more) ∧ (Text.isBlank c = true ∨ c = '>') := by
  obtain ⟨rest, found⟩ := Option.isSome_iff_exists.mp opens
  rcases isOf with rfl | rfl
  · have split := Text.dropStart?_eq_some.mp found
    exact ⟨'>', rest, by simpa using split, .inr rfl⟩
  · obtain ⟨inside, dropped, found⟩ := Option.bind_eq_some_iff.mp found
    have split := Text.dropStart?_eq_some.mp dropped
    split at found
    next rest' => exact ⟨'>', rest', by simpa using split, .inr rfl⟩
    next c rest' _ =>
      split at found
      next blank => exact ⟨c, rest', by simpa using split, .inl blank⟩
      next => cases found
    next => cases found

include named

theorem skips_opening (tag : IsTag name attributes) (other : name ≠ s) :
    b.Skips (opening name attributes) := by
  refine nowhere_tag (fun _ => Block.Opens.head?) tag.not_mem fun rest opens => other ?_
  obtain ⟨c, more, split, ends⟩ := exists_of_opens isOf opens
  obtain ⟨d, more', apart, ends'⟩ := tag.split rest
  have same : name ++ d :: more' = s ++ c :: more := by
    rw [← apart]
    simpa using (List.cons.inj split).2
  exact (tag.named.eq_of_append named (isNameChar_of_end ends') (isNameChar_of_end ends) same).1

/-- What starts with a mark that is in no name opens no section. -/
theorem not_opens_of_mark {c : Char} (mark : isNameChar c = false)
    (unended : ¬(Text.isBlank c = true ∨ c = '>')) (rest : Text) :
    ¬b.Opens ('<' :: c :: rest) := by
  intro opens
  obtain ⟨d, more, split, ends⟩ := exists_of_opens isOf opens
  cases s with
  | nil =>
    obtain ⟨rfl, _⟩ := List.cons.inj (List.cons.inj split).2
    exact unended ends
  | cons d s =>
    obtain ⟨rfl, _⟩ := List.cons.inj (List.cons.inj split).2
    exact named.not_mem mark List.mem_cons_self

theorem skips_heading {t : Text} (plain : '<' ∉ t) : b.Skips ('<' :: ('?' :: t)) :=
  nowhere_tag (fun _ => Block.Opens.head?) (by simpa using plain) fun rest =>
    not_opens_of_mark isOf named (by decide) (by decide) (t ++ rest)

theorem skips_closing (named' : Named name) : b.Skips (closing name) :=
  nowhere_tag (fun _ => Block.Opens.head?) (not_mem_closing named') fun rest =>
    not_opens_of_mark isOf named (by decide) (by decide) (name ++ ['>'] ++ rest)

end

/-- A bare tag is neither one of another name nor one with attributes. -/
theorem skips_opening_element {s name attributes : Text} (named : Named s)
    (tag : IsTag name attributes) (other : name ≠ s ∨ attributes ≠ []) :
    (Block.element s).Skips (opening name attributes) := by
  refine nowhere_tag (fun _ => Block.Opens.head?) tag.not_mem fun rest opens => ?_
  obtain ⟨more, same⟩ := opens.start_prefix
  obtain ⟨c, more', apart, ends⟩ := tag.split rest
  have same' : s ++ '>' :: more = name ++ c :: more' := by
    rw [← apart]
    simpa [Block.start] using same
  obtain ⟨rfl, rest'⟩ := named.eq_of_append tag.named (by decide) (isNameChar_of_end ends) same'
  refine other.elim (fun differ => differ rfl) fun some => ?_
  obtain ⟨d, tail, rfl⟩ := List.exists_cons_of_ne_nil some
  obtain ⟨rfl, _⟩ := List.cons.inj (rest'.trans apart.symm)
  exact absurd (tag.apart '>' rfl) (by decide)

/-- No block opens in a text. -/
theorem skips_text (b : Block) {t : Text} (plain : '<' ∉ t) : b.Skips t :=
  nowhere_of_not_mem (fun _ => Block.Opens.head?) plain

/-! ### Comments -/

theorem skips_comment_opening {name attributes : Text} (tag : IsTag name attributes) :
    Block.comment.Skips (opening name attributes) := by
  refine nowhere_tag (fun _ => Block.Opens.head?) tag.not_mem fun rest opens => ?_
  obtain ⟨more, same⟩ := opens.start_prefix
  exact tag.first_ne (by decide) (by decide) (by decide) rest _ (List.cons.inj same).2.symm

theorem skips_comment_closing {name : Text} (named : Named name) :
    Block.comment.Skips (closing name) := by
  refine nowhere_tag (fun _ => Block.Opens.head?) (not_mem_closing named) fun rest opens => ?_
  obtain ⟨more, same⟩ := opens.start_prefix
  exact absurd (List.cons.inj (List.cons.inj same).2).1 (by decide)

theorem skips_comment_heading {t : Text} (plain : '<' ∉ t) :
    Block.comment.Skips ('<' :: ('?' :: t)) := by
  refine nowhere_tag (fun _ => Block.Opens.head?) (by simpa using plain) fun rest opens => ?_
  obtain ⟨more, same⟩ := opens.start_prefix
  exact absurd (List.cons.inj (List.cons.inj same).2).1 (by decide)

/-- A comment ends at its end, also where that follows a dash. -/
theorem not_prefix_of_comment {t : Text} (closed : ¬"-->".toList <:+: t) (early late : Text)
    (split : t = early ++ late) (some : late ≠ []) (rest : Text) :
    ¬"-->".toList <+: late ++ ("-->".toList ++ rest) := by
  have literal : "-->".toList = ['-', '-', '>'] := rfl
  rw [literal] at closed ⊢
  rintro ⟨more, same⟩
  match late, some with
  | [a], _ => simp at same
  | [a, b], _ => simp at same
  | a :: b :: c :: late, _ =>
    simp only [List.cons_append, List.nil_append, List.cons.injEq] at same
    obtain ⟨rfl, rfl, rfl, _⟩ := same
    exact closed ⟨early, late, by simp [split]⟩

/-- Leaving out the comments of a text. -/
theorem without_comment {m : Markup} (wellFormed : m.WellFormed) (rest : Text) :
    without .comment (m.render ++ rest) = m.uncommented.render ++ without .comment rest := by
  induction m generalizing rest with
  | nil => rfl
  | text t m ih =>
    obtain ⟨plain, wellFormed⟩ := wellFormed
    rw [render, List.append_assoc, without_append (skips_text .comment plain), ih wellFormed,
      uncommented, render, List.append_assoc]
  | comment t m ih =>
    obtain ⟨closed, wellFormed⟩ := wellFormed
    have cut : Block.comment.cut? ((comment t m).render ++ rest) = some ([], m.render ++ rest) := by
      rw [render, List.append_assoc, List.append_assoc, List.append_assoc]
      refine Block.cut?_of_opening _ (Text.dropStart?_eq_some.mpr rfl) (by simp) ?_
      exact fun early late split some => not_prefix_of_comment closed early late split some _
    rw [without_of_cut? cut, List.nil_append, ih wellFormed, uncommented]
  | element name attributes inside m ihInside ih =>
    obtain ⟨tag, inner, wellFormed⟩ := wellFormed
    rw [render, List.append_assoc, List.append_assoc, List.append_assoc,
      without_append (skips_comment_opening tag), ihInside inner,
      without_append (skips_comment_closing tag.named), ih wellFormed, uncommented, render]
    simp only [List.append_assoc]

/-! ### Sections -/

/-- Where no element of a name is, none of that name ends. -/
theorem avoids_closing {s : Text} (named : Named s) {m : Markup} (wellFormed : m.WellFormed)
    (silent : m.Silent) (missing : s ∉ m.names) : Avoids (closing s) m.render := by
  have begins (t : Text) (part : closing s <+: t) : t.head? = some '<' := head?_of_prefix part
  induction m with
  | nil => exact .nil
  | text t m ih =>
    exact (nowhere_of_not_mem begins wellFormed.1).append (ih wellFormed.2 silent missing)
  | comment t m ih => exact silent.elim
  | element name attributes inside m ihInside ih =>
    obtain ⟨tag, inner, wellFormed⟩ := wellFormed
    obtain ⟨other, missing⟩ := List.ne_and_not_mem_of_not_mem_cons missing
    obtain ⟨missing, missing'⟩ := not_or.mp (mt List.mem_append.mpr missing)
    refine Nowhere.append (nowhere_tag begins tag.not_mem ?_)
      (.append (ihInside inner silent.1 missing)
        (.append (nowhere_tag begins (not_mem_closing tag.named) ?_)
          (ih wellFormed silent.2 missing')))
    · rintro rest ⟨more, same⟩
      exact tag.first_ne (by decide) (by decide) (by decide) rest _ (List.cons.inj same).2.symm
    · rintro rest ⟨more, same⟩
      have same' : s ++ '>' :: more = name ++ '>' :: rest := by simpa [closing] using same
      exact other (named.eq_of_append tag.named (by decide) (by decide) same').1

/-- Where no element of a name is, none of that name opens. -/
theorem skips_render {b : Block} {s : Text} (isOf : b.IsOf s) (named : Named s)
    {m : Markup} (wellFormed : m.WellFormed) (silent : m.Silent) (missing : s ∉ m.names) :
    b.Skips m.render := by
  induction m with
  | nil => exact .nil
  | text t m ih => exact (skips_text b wellFormed.1).append (ih wellFormed.2 silent missing)
  | comment t m ih => exact silent.elim
  | element name attributes inside m ihInside ih =>
    obtain ⟨tag, inner, wellFormed⟩ := wellFormed
    obtain ⟨other, missing⟩ := List.ne_and_not_mem_of_not_mem_cons missing
    obtain ⟨missing, missing'⟩ := not_or.mp (mt List.mem_append.mpr missing)
    exact (skips_opening isOf named tag (Ne.symm other)).append
      ((ihInside inner silent.1 missing).append
        ((skips_closing isOf named tag.named).append (ih wellFormed silent.2 missing')))

/-- What follows the opening of a section: perhaps the end of its opening tag, and what is inside. -/
theorem afterOpening?_opening {s attributes : Text} (tag : IsTag s attributes) (rest : Text) :
    ∃ u, '<' ∉ u ∧
      (Block.attributed s).afterOpening? (opening s attributes ++ rest) = some (u ++ rest) := by
  have dropped : Text.dropStart? ('<' :: s) (opening s attributes ++ rest) =
      some (attributes ++ '>' :: rest) := Text.dropStart?_eq_some.mpr (by simp [opening])
  simp only [Block.afterOpening?, dropped, Option.bind_eq_bind, Option.bind_some]
  cases split : attributes with
  | nil => exact ⟨[], by simp, rfl⟩
  | cons c more =>
    have blank : Text.isBlank c = true := tag.apart c (by rw [split]; rfl)
    have plain : '<' ∉ more := fun member =>
      tag.plain (by rw [split]; exact List.mem_cons_of_mem _ member)
    have other : c ≠ '>' := by
      rintro rfl
      exact absurd blank (by decide)
    -- A mark that ends the tag may also stand in it.
    have ended : ∃ u, '<' ∉ u ∧ (more ++ '>' :: rest).dropWhile (· ≠ '>') = '>' :: (u ++ rest) := by
      rw [List.dropWhile_append]
      cases behind : more.dropWhile (· ≠ '>') with
      | nil => exact ⟨[], by simp, by simp⟩
      | cons d u =>
        have mark := List.head?_dropWhile_not (fun c => decide (c ≠ '>')) more
        rw [behind] at mark
        obtain rfl : d = '>' := by simpa using mark
        have inside : u ⊆ more := fun x member =>
          List.dropWhile_subset _ (behind ▸ List.mem_cons_of_mem _ member)
        exact ⟨u ++ ['>'], by simpa using fun member => plain (inside member), by simp⟩
    obtain ⟨u, plain', ended⟩ := ended
    refine ⟨u, plain', ?_⟩
    rw [List.cons_append]
    split
    next same => exact absurd (List.cons.inj same).1 other
    next same =>
      obtain ⟨rfl, rfl⟩ := List.cons.inj same
      rw [if_pos blank, ended]
      rfl
    next none => cases none

/-- Leaving out the sections of a name, which are not in each other. -/
theorem without_section {s : Text} (named : Named s) {m : Markup} (wellFormed : m.WellFormed)
    (silent : m.Silent) (apart : m.Apart s) (rest : Text) :
    without (.attributed s) (m.render ++ rest) =
      (m.elided [s]).render ++ without (.attributed s) rest := by
  induction m generalizing rest with
  | nil => rfl
  | text t m ih =>
    rw [render, List.append_assoc, without_append (skips_text _ wellFormed.1),
      ih wellFormed.2 silent apart, elided, render, List.append_assoc]
  | comment t m ih => exact silent.elim
  | element name attributes inside m ihInside ih =>
    obtain ⟨tag, inner, wellFormed⟩ := wellFormed
    obtain ⟨outermost, apartInside, apart⟩ := apart
    rw [elided]
    split
    next same =>
      obtain rfl : name = s := List.mem_singleton.mp same
      have cut : (Block.attributed name).cut? ((element name attributes inside m).render ++ rest) =
          some ([], m.render ++ rest) := by
        obtain ⟨u, plain, opens⟩ := afterOpening?_opening tag
          (inside.render ++ (closing name ++ (m.render ++ rest)))
        -- The first closing tag is the one of this element, as none of its kind stands inside it.
        have avoids : Avoids (closing name) (u ++ inside.render) :=
          (nowhere_of_not_mem (fun _ => head?_of_prefix) plain).append
            (avoids_closing named inner silent.1 (outermost rfl))
        simp only [render, List.append_assoc]
        refine Block.cut?_of_opening (u ++ inside.render) ?_ (by simp [opening]) ?_
        · rw [opens, List.append_assoc]
          rfl
        · exact fun early late split some => avoids early late split some _
      rw [without_of_cut? cut, List.nil_append, ih wellFormed silent.2 apart]
    next other =>
      have other : name ≠ s := fun same => other (List.mem_singleton.mpr same)
      rw [render, List.append_assoc, List.append_assoc, List.append_assoc,
        without_append (skips_opening (.inr rfl) named tag other),
        ihInside inner silent.1 apartInside,
        without_append (skips_closing (.inr rfl) named tag.named),
        ih wellFormed silent.2 apart, render]
      simp only [List.append_assoc]

/-! ### Rows without some elements -/

section

variable {m : Markup} {dropped : List Text}

theorem wellFormed_elided (wellFormed : m.WellFormed) : (m.elided dropped).WellFormed := by
  induction m with
  | nil => trivial
  | text t m ih => exact ⟨wellFormed.1, ih wellFormed.2⟩
  | comment t m ih => exact ⟨wellFormed.1, ih wellFormed.2⟩
  | element name attributes inside m ihInside ih =>
    rw [elided]
    split
    · exact ih wellFormed.2.2
    · exact ⟨wellFormed.1, ihInside wellFormed.2.1, ih wellFormed.2.2⟩

theorem silent_elided (silent : m.Silent) : (m.elided dropped).Silent := by
  induction m with
  | nil => trivial
  | text t m ih => exact ih silent
  | comment t m ih => exact silent
  | element name attributes inside m ihInside ih =>
    rw [elided]
    split
    · exact ih silent.2
    · exact ⟨ihInside silent.1, ih silent.2⟩

theorem names_elided_subset : (m.elided dropped).names ⊆ m.names := by
  induction m with
  | nil => exact List.Subset.refl _
  | text t m ih => exact ih
  | comment t m ih => exact ih
  | element name attributes inside m ihInside ih =>
    rw [elided]
    split
    · exact List.subset_cons_of_subset _ (List.subset_append_of_subset_right _ ih)
    · exact List.cons_subset_cons _ (List.append_subset.mpr
        ⟨List.subset_append_of_subset_left _ ihInside, List.subset_append_of_subset_right _ ih⟩)

theorem apart_elided {s : Text} (apart : m.Apart s) : (m.elided dropped).Apart s := by
  induction m with
  | nil => trivial
  | text t m ih => exact ih apart
  | comment t m ih => exact ih apart
  | element name attributes inside m ihInside ih =>
    obtain ⟨outermost, apartInside, apart⟩ := apart
    rw [elided]
    split
    · exact ih apart
    · exact ⟨fun same member => outermost same (names_elided_subset member), ihInside apartInside,
        ih apart⟩

theorem elided_of_not_mem (missing : ∀ s ∈ dropped, s ∉ m.names) : m.elided dropped = m := by
  induction m with
  | nil => rfl
  | text t m ih => rw [elided, ih missing]
  | comment t m ih => rw [elided, ih missing]
  | element name attributes inside m ihInside ih =>
    have other : name ∉ dropped := fun member => missing name member List.mem_cons_self
    rw [elided, if_neg other,
      ihInside fun s member inside =>
        missing s member (List.mem_cons_of_mem _ (List.mem_append_left _ inside)),
      ih fun s member inside =>
        missing s member (List.mem_cons_of_mem _ (List.mem_append_right _ inside))]

theorem elided_elided (dropped' : List Text) :
    (m.elided dropped).elided dropped' = m.elided (dropped ++ dropped') := by
  induction m with
  | nil => rfl
  | text t m ih => simp only [elided, ih]
  | comment t m ih => simp only [elided, ih]
  | element name attributes inside m ihInside ih =>
    by_cases first : name ∈ dropped
    · simp only [elided, first, List.mem_append, true_or, if_true, ih]
    · by_cases second : name ∈ dropped'
      · simp only [elided, first, second, List.mem_append, or_true, if_true, if_false, ih]
      · simp only [elided, first, second, List.mem_append, or_self, if_false, ih, ihInside]

theorem wellFormed_uncommented (wellFormed : m.WellFormed) : m.uncommented.WellFormed := by
  induction m with
  | nil => trivial
  | text t m ih => exact ⟨wellFormed.1, ih wellFormed.2⟩
  | comment t m ih => exact ih wellFormed.2
  | element name attributes inside m ihInside ih =>
    exact ⟨wellFormed.1, ihInside wellFormed.2.1, ih wellFormed.2.2⟩

theorem silent_uncommented (m : Markup) : m.uncommented.Silent := by
  induction m with
  | nil => trivial
  | text t m ih => exact ih
  | comment t m ih => exact ih
  | element name attributes inside m ihInside ih => exact ⟨ihInside, ih⟩

@[simp] theorem names_uncommented (m : Markup) : m.uncommented.names = m.names := by
  induction m with
  | nil => rfl
  | text t m ih => exact ih
  | comment t m ih => exact ih
  | element name attributes inside m ihInside ih => simp only [uncommented, names, ihInside, ih]

theorem apart_uncommented {s : Text} (apart : m.Apart s) : m.uncommented.Apart s := by
  induction m with
  | nil => trivial
  | text t m ih => exact ih apart
  | comment t m ih => exact ih apart
  | element name attributes inside m ihInside ih =>
    obtain ⟨outermost, apartInside, apart⟩ := apart
    exact ⟨by rwa [names_uncommented], ihInside apartInside, ih apart⟩

end

/-- Leaving out the sections of some names, one name after the other. -/
theorem foldl_without_sections {sections : List Text} {m : Markup}
    (named : ∀ s ∈ sections, Named s) (apart : ∀ s ∈ sections, m.Apart s)
    (wellFormed : m.WellFormed) (silent : m.Silent) (rest : Text) :
    (sections.map Block.attributed).foldl (fun text b => without b text) (m.render ++ rest) =
      (m.elided sections).render ++
        (sections.map Block.attributed).foldl (fun text b => without b text) rest := by
  induction sections generalizing m rest with
  | nil =>
    rw [elided_of_not_mem (by simp)]
    rfl
  | cons s sections ih =>
    obtain ⟨first, named⟩ := List.forall_mem_cons.mp named
    obtain ⟨outermost, apart⟩ := List.forall_mem_cons.mp apart
    rw [List.map_cons, List.foldl_cons, List.foldl_cons,
      without_section first wellFormed silent outermost,
      ih named (fun s' member => apart_elided (apart s' member)) (wellFormed_elided wellFormed)
        (silent_elided silent), elided_elided]
    rfl

end Markup

end Layering
