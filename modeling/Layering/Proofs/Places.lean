import Layering.Proofs.Blocks

/-!
# Places in descriptors

Something is put into a descriptor at some place, and then blocks are left out of it. A block that
covers the place takes what was put there with it; otherwise the place stays, and what was put there is
left over. This holds as long as neither side of the place breaks a tag of a block, and what was put
there starts and ends none (`Gap`).
-/

namespace Layering.Descriptor

/-! ### Seams -/

/-- The text does not go on with what was begun before it: it starts with a blank or with a tag. -/
def AtSeam (t : Text) : Prop := ∀ c, t.head? = some c → c = '<' ∨ Text.isBlank c = true

/-- A word in which no seam can be. -/
def Solid (word : Text) : Prop := ∀ c ∈ word.tail, c ≠ '<' ∧ Text.isBlank c = false

instance (word : Text) : Decidable (Solid word) := List.decidableBAll _ _

section

variable {word s u : Text} (solid : Solid word) (seam : AtSeam u)
include solid seam

theorem prefix_append_seam (some : s ≠ []) : word <+: s ++ u ↔ word <+: s := by
  constructor
  · intro begins
    rcases List.prefix_or_prefix_of_prefix begins (List.prefix_append s u) with inside | ⟨more, rfl⟩
    · exact inside
    · -- Only the rest of the word could stand behind the seam.
      have behind : more <+: u := (List.prefix_append_right_inj s).mp begins
      cases more with
      | nil => simp
      | cons c more =>
        obtain ⟨d, s, rfl⟩ := List.exists_cons_of_ne_nil some
        have inner := solid c (by simp)
        have next : u.head? = Option.some c := head?_of_prefix behind
        rcases seam c next with tag | blank
        · exact absurd tag inner.1
        · exact absurd blank (by simp [inner.2])
  · exact fun begins => begins.trans (List.prefix_append s u)

theorem dropStart?_append_seam (some : s ≠ []) :
    Text.dropStart? word (s ++ u) = (Text.dropStart? word s).map (· ++ u) := by
  by_cases begins : word <+: s
  · obtain ⟨rest, rfl⟩ := begins
    have here : Text.dropStart? word (word ++ rest) = .some rest := Text.dropStart?_eq_some.mpr rfl
    have there : Text.dropStart? word (word ++ rest ++ u) = .some (rest ++ u) :=
      Text.dropStart?_eq_some.mpr (List.append_assoc ..)
    rw [here, there, Option.map_some]
  · have others := mt (prefix_append_seam solid seam some).mp begins
    rw [Text.dropStart?, if_neg (mt List.isPrefixOf_iff_prefix.mp others), Text.dropStart?,
      if_neg (mt List.isPrefixOf_iff_prefix.mp begins), Option.map_none]

theorem cut?_append_seam (inhabited : word ≠ []) : Text.cut? word (s ++ u) =
    match Text.cut? word s with
    | some (before, after) => some (before, after ++ u)
    | none => (Text.cut? word u).map fun (before, after) => (s ++ before, after) := by
  induction s with
  | nil =>
    have none : Text.cut? word [] = none := if_neg inhabited
    rw [none]
    simp
  | cons c s ih =>
    have same := prefix_append_seam solid seam (s := c :: s) (by simp)
    rw [List.cons_append] at same ⊢
    rw [Text.cut?, Text.cut?]
    by_cases begins : word <+: c :: s
    · rw [if_pos (List.isPrefixOf_iff_prefix.mpr begins),
        if_pos (List.isPrefixOf_iff_prefix.mpr (same.mpr begins)), ← List.cons_append,
        List.drop_append_of_le_length begins.length_le]
    · rw [if_neg (mt List.isPrefixOf_iff_prefix.mp begins),
        if_neg (mt List.isPrefixOf_iff_prefix.mp (mt same.mp begins)), ih]
      cases Text.cut? word s with
      | none => cases Text.cut? word u <;> rfl
      | some parts => rfl

end

/-! ### Openings across a seam -/

/-- What follows the end of the first tag. -/
def afterTag? (t : Text) : Option Text :=
  match t.dropWhile (· ≠ '>') with
  | '>' :: rest => some rest
  | _ => none

theorem afterTag?_append_of_not_mem {s : Text} (open_ : '>' ∉ s) (u : Text) :
    afterTag? (s ++ u) = afterTag? u := by
  have inside : ∀ c ∈ s, decide (c ≠ '>') = true := fun c member =>
    decide_eq_true fun same => open_ (same ▸ member)
  rw [afterTag?, List.dropWhile_append_of_pos inside]
  rfl

theorem afterTag?_split {s : Text} (open_ : '>' ∉ s) (u : Text) :
    afterTag? (s ++ '>' :: u) = some u := by
  rw [afterTag?_append_of_not_mem open_]
  rfl

theorem exists_split_of_mem {c : Char} {t : Text} (member : c ∈ t) :
    ∃ s u, t = s ++ c :: u ∧ c ∉ s := by
  induction t with
  | nil => cases member
  | cons d t ih =>
    by_cases same : d = c
    · exact ⟨[], t, by rw [same]; rfl, by simp⟩
    · obtain ⟨s, u, rfl, first⟩ := ih (List.mem_of_ne_of_mem (Ne.symm same) member)
      exact ⟨d :: s, u, rfl, by simp [Ne.symm same, first]⟩

theorem afterTag?_eq_none {t : Text} (open_ : '>' ∉ t) : afterTag? t = none := by
  have whole := afterTag?_append_of_not_mem open_ []
  rw [List.append_nil] at whole
  exact whole

/-- What follows an opening tag that may have attributes, given what follows its name. -/
def afterName? : Text → Option Text
  | '>' :: rest => some rest
  | c :: rest => if Text.isBlank c then afterTag? rest else none
  | [] => none

theorem afterName?_of_blank {c : Char} (blank : Text.isBlank c = true) (t : Text) :
    afterName? (c :: t) = afterTag? t := by
  have other : c ≠ '>' := by
    rintro rfl
    exact absurd blank (by decide)
  rw [afterName?, if_pos blank]
  rintro rfl
  exact other rfl

theorem afterName?_of_visible {c : Char} (other : c ≠ '>') (visible : ¬ Text.isBlank c = true)
    (t : Text) : afterName? (c :: t) = none := by
  rw [afterName?, if_neg visible]
  rintro rfl
  exact other rfl

theorem afterTag?_of_blank {c : Char} (blank : Text.isBlank c = true) (t : Text) :
    afterTag? (c :: t) = afterTag? t := by
  have other : '>' ≠ c := by
    rintro rfl
    exact absurd blank (by decide)
  exact afterTag?_append_of_not_mem (s := [c]) (by simpa using other) t

theorem afterOpening?_attributed (name t : Text) :
    (Block.attributed name).afterOpening? ('<' :: name ++ t) = afterName? t := by
  have dropped : Text.dropStart? ('<' :: name) ('<' :: name ++ t) = some t :=
    Text.dropStart?_eq_some.mpr rfl
  simp only [Block.afterOpening?, dropped, Option.bind_eq_bind, Option.bind_some]
  rfl

namespace Block

/-- Where an opening tag may have attributes, and is broken off behind its name, only a blank can
follow. -/
def Unbroken (b : Block) (s u : Text) : Prop :=
  ∀ name, b = .attributed name → '<' :: name <:+ s → ∀ c, u.head? = some c → Text.isBlank c = true

/-- Neither the opening nor the closing of the block can hold a seam. -/
structure Regular (b : Block) : Prop where
  start : Solid b.start
  closing : Solid b.closing
  bare : ∀ name, b = .attributed name → '>' ∉ name

/-- An opening that is one word starts with all of it. -/
theorem afterOpening?_append_word {b : Block} {s word : Text} (some : s ≠ []) (solid : Solid word)
    (inhabited : word ≠ []) (same : ∀ t, b.afterOpening? t = Text.dropStart? word t) :
    (∀ u, AtSeam u → b.Unbroken s u → b.afterOpening? (s ++ u) = none) ∨
    (∃ opened rest, opened ≠ [] ∧ s = opened ++ rest ∧
      ∀ u, AtSeam u → b.Unbroken s u → b.afterOpening? (s ++ u) = .some (rest ++ u)) := by
  cases found : Text.dropStart? word s with
  | none =>
    left
    intro u seam _
    rw [same, dropStart?_append_seam solid seam some, found, Option.map_none]
  | some rest =>
    right
    refine ⟨word, rest, inhabited, Text.dropStart?_eq_some.mp found, fun u seam _ => ?_⟩
    rw [same, dropStart?_append_seam solid seam some, found, Option.map_some]

/-- Behind its name an opening with attributes is complete, goes on up to the next tag, or is none. -/
theorem afterOpening?_append_name {name t : Text} (regular : (attributed name).Regular) :
    (∀ u, AtSeam u → (attributed name).Unbroken ('<' :: name ++ t) u →
      (attributed name).afterOpening? ('<' :: name ++ t ++ u) = none) ∨
    (∃ opened rest, opened ≠ [] ∧ '<' :: name ++ t = opened ++ rest ∧
      ∀ u, AtSeam u → (attributed name).Unbroken ('<' :: name ++ t) u →
        (attributed name).afterOpening? ('<' :: name ++ t ++ u) = .some (rest ++ u)) ∨
    '>' ∉ '<' :: name ++ t ∧ ∀ u, AtSeam u → (attributed name).Unbroken ('<' :: name ++ t) u →
      (attributed name).afterOpening? ('<' :: name ++ t ++ u) = afterTag? u := by
  simp only [List.append_assoc, afterOpening?_attributed]
  cases t with
  | nil =>
    refine .inr (.inr ⟨?_, fun u _ unbroken => ?_⟩)
    · simpa using regular.bare name rfl
    · have next := unbroken name rfl (by simp)
      cases u with
      | nil => rfl
      | cons c more =>
        rw [List.nil_append, afterName?_of_blank (next c rfl), afterTag?_of_blank (next c rfl)]
  | cons c t =>
    by_cases last : c = '>'
    · subst last
      exact .inr (.inl ⟨'<' :: name ++ ['>'], t, by simp, by simp, fun u _ _ => rfl⟩)
    · by_cases blank : Text.isBlank c = true
      · simp only [List.cons_append, afterName?_of_blank blank]
        by_cases closed : '>' ∈ t
        · -- The tag ends before the seam.
          obtain ⟨a, r, rfl, first⟩ := exists_split_of_mem closed
          refine .inr (.inl ⟨'<' :: name ++ c :: (a ++ ['>']), r, by simp, by simp, ?_⟩)
          intro u _ _
          rw [List.append_assoc, List.cons_append]
          exact afterTag?_split first (r ++ u)
        · refine .inr (.inr ⟨?_, fun u _ _ => afterTag?_append_of_not_mem closed u⟩)
          simp [regular.bare name rfl, Ne.symm last, closed]
      · left
        intro u _ _
        exact afterName?_of_visible last blank (t ++ u)

/-- An opening whose start is complete before a seam is complete there as well, or it ends with the
next tag. -/
theorem afterOpening?_append {b : Block} (regular : b.Regular) {s : Text} (some : s ≠ []) :
    (∀ u, AtSeam u → b.Unbroken s u → b.afterOpening? (s ++ u) = none) ∨
    (∃ opened rest, opened ≠ [] ∧ s = opened ++ rest ∧
      ∀ u, AtSeam u → b.Unbroken s u → b.afterOpening? (s ++ u) = .some (rest ++ u)) ∨
    '>' ∉ s ∧ (∃ name, b = .attributed name) ∧
      ∀ u, AtSeam u → b.Unbroken s u → b.afterOpening? (s ++ u) = afterTag? u := by
  cases b with
  | comment =>
    exact (afterOpening?_append_word some regular.start (by decide) fun _ => rfl).imp_right .inl
  | element name =>
    exact (afterOpening?_append_word some regular.start (by simp [start]) fun _ => rfl).imp_right
      .inl
  | attributed name =>
    cases found : Text.dropStart? ('<' :: name) s with
    | none =>
      left
      intro u seam _
      have dropped := dropStart?_append_seam (s := s) regular.start seam some
      simp only [start] at dropped
      simp only [afterOpening?, dropped, found]
      rfl
    | some t =>
      obtain rfl := Text.dropStart?_eq_some.mp found
      rcases afterOpening?_append_name regular with none | complete | ⟨open_, across⟩
      · exact .inl none
      · exact .inr (.inl complete)
      · exact .inr (.inr ⟨open_, ⟨name, rfl⟩, across⟩)

theorem Unbroken.tail {b : Block} {c : Char} {s u : Text} (unbroken : b.Unbroken (c :: s) u) :
    b.Unbroken s u :=
  fun name same ends => unbroken name same (ends.trans (List.suffix_cons c s))

theorem Unbroken.of_append {b : Block} {s s' u : Text} (unbroken : b.Unbroken (s ++ s') u) :
    b.Unbroken s' u :=
  fun name same ends => unbroken name same (ends.trans (List.suffix_append s s'))

/-- An opening that may have attributes ends with a tag. -/
theorem mem_of_afterOpening? {name t rest : Text}
    (found : (attributed name).afterOpening? t = some rest) : '>' ∈ t := by
  obtain ⟨more, dropped, _⟩ := Option.bind_eq_some_iff.mp found
  obtain rfl := Text.dropStart?_eq_some.mp dropped
  have after : afterName? more = some rest := (afterOpening?_attributed name more).symm.trans found
  apply List.mem_append_right
  cases more with
  | nil => cases after
  | cons c more =>
    by_cases last : c = '>'
    · exact last ▸ List.mem_cons_self
    · by_cases blank : Text.isBlank c = true
      · rw [afterName?_of_blank blank] at after
        by_contra open_
        rw [afterTag?_eq_none (List.not_mem_of_not_mem_cons open_)] at after
        cases after
      · rw [afterName?_of_visible last blank] at after
        cases after

theorem cutOpening?_of_not_mem {name t : Text} (open_ : '>' ∉ t) :
    (attributed name).cutOpening? t = none := by
  induction t with
  | nil => rfl
  | cons c t ih =>
    have none : (attributed name).afterOpening? (c :: t) = none := by
      rw [Option.eq_none_iff_forall_ne_some]
      exact fun rest found => open_ (mem_of_afterOpening? found)
    rw [cutOpening?, none, ih (List.not_mem_of_not_mem_cons open_)]
    rfl

/-- The first opening that starts before a seam is complete there, or ends with the next tag. -/
theorem cutOpening?_append_seam {b : Block} (regular : b.Regular) (s : Text) :
    (∀ u, AtSeam u → b.Unbroken s u → b.cutOpening? (s ++ u) =
      (b.cutOpening? u).map fun (before, inside) => (s ++ before, inside)) ∨
    (∃ before opened rest, opened ≠ [] ∧ s = before ++ (opened ++ rest) ∧
      ∀ u, AtSeam u → b.Unbroken s u → b.cutOpening? (s ++ u) = some (before, rest ++ u)) ∨
    ∃ before more, more ≠ [] ∧ s = before ++ more ∧ ∀ u, AtSeam u → b.Unbroken s u →
      b.cutOpening? (s ++ u) = (afterTag? u).map fun rest => (before, rest) := by
  induction s with
  | nil =>
    left
    intro u _ _
    simp
  | cons c s ih =>
    rcases afterOpening?_append regular (List.cons_ne_nil c s) with
      none | ⟨opened, rest, inhabited, split, found⟩ | ⟨open_, ⟨name, rfl⟩, across⟩
    · have step (u : Text) (seam : AtSeam u) (unbroken : b.Unbroken (c :: s) u) :
          b.cutOpening? (c :: s ++ u) =
            (b.cutOpening? (s ++ u)).map fun (before, inside) => (c :: before, inside) := by
        have here := none u seam unbroken
        rw [List.cons_append] at here ⊢
        rw [cutOpening?, here]
      rcases ih with later | ⟨before, opened, rest, inhabited, rfl, found⟩ |
        ⟨before, more, inhabited, rfl, across⟩
      · left
        intro u seam unbroken
        rw [step u seam unbroken, later u seam unbroken.tail, Option.map_map]
        rfl
      · refine .inr (.inl ⟨c :: before, opened, rest, inhabited, rfl, fun u seam unbroken => ?_⟩)
        rw [step u seam unbroken, found u seam unbroken.tail, Option.map_some]
      · refine .inr (.inr ⟨c :: before, more, inhabited, rfl, fun u seam unbroken => ?_⟩)
        rw [step u seam unbroken, across u seam unbroken.tail, Option.map_map]
        rfl
    · refine .inr (.inl ⟨[], opened, rest, inhabited, split, fun u seam unbroken => ?_⟩)
      have here := found u seam unbroken
      rw [List.cons_append] at here ⊢
      rw [cutOpening?, here]
    · refine .inr (.inr ⟨[], c :: s, by simp, rfl, fun u seam unbroken => ?_⟩)
      have here := across u seam unbroken
      rw [List.cons_append] at here ⊢
      rw [cutOpening?, here]
      cases ended : afterTag? u with
      | some rest => rfl
      | none =>
        -- Without the end of a tag nothing opens further on.
        have open' : '>' ∉ u := by
          intro member
          obtain ⟨a, r, rfl, first⟩ := exists_split_of_mem member
          rw [afterTag?_split first] at ended
          cases ended
        have nowhere : '>' ∉ s ++ u := by
          simp only [List.mem_append, not_or]
          exact ⟨List.not_mem_of_not_mem_cons open_, open'⟩
        rw [cutOpening?_of_not_mem nowhere]
        rfl

end Block

/-! ### Gaps -/

theorem Nowhere.of_append {here : Text → Prop} {s t : Text} (nowhere : Nowhere here (s ++ t)) :
    Nowhere here t := by
  intro early late split
  exact nowhere (s ++ early) late (by rw [split, List.append_assoc])

theorem cut?_append_of_avoids {word t : Text} (avoids : Avoids word t) (u : Text) :
    Text.cut? word (t ++ u) = (Text.cut? word u).map fun (before, after) => (t ++ before, after) := by
  induction t with
  | nil => simp
  | cons c t ih =>
    have here : ¬ word.isPrefixOf (c :: (t ++ u)) = true :=
      mt List.isPrefixOf_iff_prefix.mp (avoids.head u)
    rw [List.cons_append, Text.cut?, if_neg here, ih avoids.tail, Option.map_map]
    rfl

/-- A block neither starts nor ends in a text, whatever follows. -/
structure Block.Quiet (b : Block) (t : Text) : Prop where
  opens : b.Skips t
  closes : Avoids b.closing t

theorem afterTag?_suffix {t rest : Text} (found : afterTag? t = some rest) : rest <:+ t := by
  have member : '>' ∈ t := by
    by_contra open_
    rw [afterTag?_eq_none open_] at found
    cases found
  obtain ⟨s, u, rfl, first⟩ := exists_split_of_mem member
  rw [afterTag?_split first] at found
  cases found
  exact ⟨s ++ ['>'], by simp⟩

theorem Block.suffix_of_afterOpening {b : Block} {t rest : Text}
    (found : b.afterOpening? t = some rest) : rest <:+ t := by
  cases b with
  | comment => exact ⟨_, (Text.dropStart?_eq_some.mp found).symm⟩
  | element name => exact ⟨_, (Text.dropStart?_eq_some.mp found).symm⟩
  | attributed name =>
    obtain ⟨more, dropped, _⟩ := Option.bind_eq_some_iff.mp found
    obtain rfl := Text.dropStart?_eq_some.mp dropped
    rw [afterOpening?_attributed] at found
    refine List.IsSuffix.trans ?_ (List.suffix_append _ more)
    cases more with
    | nil => cases found
    | cons c more =>
      by_cases last : c = '>'
      · rw [last] at found ⊢
        cases found
        exact List.suffix_cons _ _
      · by_cases blank : Text.isBlank c = true
        · rw [afterName?_of_blank blank] at found
          exact (afterTag?_suffix found).trans (List.suffix_cons _ _)
        · rw [afterName?_of_visible last blank] at found
          cases found

theorem Block.exists_of_cutOpening {b : Block} {t before inside : Text}
    (opened : b.cutOpening? t = some (before, inside)) :
    ∃ front, t = before ++ (front ++ inside) := by
  induction t generalizing before with
  | nil => cases opened
  | cons c t ih =>
    rw [cutOpening?] at opened
    split at opened
    next found =>
      cases opened
      obtain ⟨front, split⟩ := suffix_of_afterOpening found
      exact ⟨front, split.symm⟩
    next =>
      obtain ⟨⟨_, _⟩, later, same⟩ := Option.map_eq_some_iff.mp opened
      cases same
      obtain ⟨front, split⟩ := ih later
      exact ⟨front, by rw [split, List.cons_append]⟩

/-- A block that is cut out ends with its closing. -/
theorem Block.exists_of_cut? {b : Block} {t before rest : Text}
    (cut : b.cut? t = some (before, rest)) :
    ∃ block, t = before ++ (block ++ b.closing ++ rest) := by
  obtain ⟨⟨_, inside⟩, opened, closed⟩ := Option.bind_eq_some_iff.mp cut
  obtain ⟨⟨inner, _⟩, closed, same⟩ := Option.bind_eq_some_iff.mp closed
  cases same
  obtain ⟨front, rfl⟩ := exists_of_cutOpening opened
  rw [Text.cut?_eq_some closed]
  exact ⟨front ++ inner, by simp⟩

/-- The blocks that are left out on the level of a project. -/
def leftBlocks : List Block := .comment :: parentBlock :: nestedSections

/-- What is put into a descriptor, and the tag that stands behind it unless nothing does. No block
starts or ends in them. -/
structure Gap (piece tag : Text) : Prop where
  blank : ∃ c more, piece = c :: more ∧ Text.isBlank c = true
  tagged : '>' ∈ piece
  quiet : ∀ b ∈ leftBlocks, b.Quiet piece
  tag : tag = [] ∨ AtSeam tag ∧ (∃ t, tag = t ++ ['>'] ∧ '>' ∉ t) ∧ ∀ b ∈ leftBlocks, b.Quiet tag

/-- What stands behind a gap: the tag first, or nothing at all. -/
def Leads (tag ahead : Text) : Prop := tag = [] ∧ ahead = [] ∨ tag ≠ [] ∧ tag <+: ahead

/-- How the first block lies to a gap behind `s`. -/
inductive Lies (b : Block) (piece s ahead : Text) : Prop
  | nowhere (cut : b.cut? (s ++ ahead) = none) (cut' : b.cut? (s ++ (piece ++ ahead)) = none)
  | behind {before rest : Text} (first : b.cut? ahead = some (before, rest))
      (cut : b.cut? (s ++ ahead) = some (s ++ before, rest))
      (cut' : b.cut? (s ++ (piece ++ ahead)) = some (s ++ (piece ++ before), rest))
  | before {before block after : Text} (inhabited : block ≠ [])
      (split : s = before ++ (block ++ after))
      (cut : b.cut? (s ++ ahead) = some (before, after ++ ahead))
      (cut' : b.cut? (s ++ (piece ++ ahead)) = some (before, after ++ (piece ++ ahead)))
  | around {before inner outer rest : Text} (inhabited : inner ≠ []) (closed : b.closing <:+ outer)
      (split : s = before ++ inner) (split' : ahead = outer ++ rest)
      (cut : b.cut? (s ++ ahead) = some (before, rest))
      (cut' : b.cut? (s ++ (piece ++ ahead)) = some (before, rest))

section

variable {piece tag : Text} (gap : Gap piece tag)
include gap

theorem Gap.seam {ahead : Text} (leads : Leads tag ahead) : AtSeam ahead := by
  rcases leads with ⟨_, rfl⟩ | ⟨some, rest, rfl⟩
  · nofun
  · rcases gap.tag with none | ⟨seam, _⟩
    · exact absurd none some
    · obtain ⟨c, more, rfl⟩ := List.exists_cons_of_ne_nil some
      exact seam

theorem Gap.seam' (ahead : Text) : AtSeam (piece ++ ahead) := by
  obtain ⟨c, more, rfl, blank⟩ := gap.blank
  intro d head
  cases head
  exact .inr blank

theorem Gap.unbroken' (b : Block) (s ahead : Text) : b.Unbroken s (piece ++ ahead) := by
  obtain ⟨c, more, rfl, blank⟩ := gap.blank
  intro _ _ _ d head
  cases head
  exact blank

/-- What follows the first tag, if that stands in the gap. -/
theorem Gap.exists_afterTag {b : Block} (listed : b ∈ leftBlocks) (ahead : Text) :
    ∃ tail, afterTag? (piece ++ ahead) = some (tail ++ ahead) ∧ Avoids b.closing tail := by
  obtain ⟨s, tail, rfl, first⟩ := exists_split_of_mem gap.tagged
  refine ⟨tail, ?_, ?_⟩
  · rw [List.append_assoc, List.cons_append, afterTag?_split first]
  · have closes := (gap.quiet b listed).closes
    exact (Nowhere.of_append closes).tail

variable {b : Block} (listed : b ∈ leftBlocks) {ahead : Text}
include listed

/-- A block that opens behind the gap lies there. -/
theorem Gap.lies_of_later {s : Text}
    (opened : b.cutOpening? (s ++ ahead) =
      (b.cutOpening? ahead).map fun (before, inside) => (s ++ before, inside))
    (opened' : b.cutOpening? (s ++ (piece ++ ahead)) =
      (b.cutOpening? (piece ++ ahead)).map fun (before, inside) => (s ++ before, inside)) :
    Lies b piece s ahead := by
  have cut := Block.cut?_of_later opened
  have cut' := Block.cut?_of_later opened'
  rw [Block.cut?_append (gap.quiet b listed).opens] at cut'
  cases first : b.cut? ahead with
  | none =>
    rw [first] at cut cut'
    exact .nowhere cut cut'
  | some parts =>
    rw [first] at cut cut'
    exact .behind first cut cut'

variable (leads : Leads tag ahead)
include leads

/-- A block that opens before the gap ends before it or goes round it. -/
theorem Gap.lies_of_opening (regular : b.Regular) {before opened rest : Text}
    (inhabited : opened ≠ [])
    (cut : b.cutOpening? (before ++ (opened ++ rest) ++ ahead) = some (before, rest ++ ahead))
    (cut' : b.cutOpening? (before ++ (opened ++ rest) ++ (piece ++ ahead)) =
      some (before, rest ++ (piece ++ ahead))) :
    Lies b piece (before ++ (opened ++ rest)) ahead := by
  have later : Text.cut? b.closing (piece ++ ahead) =
      (Text.cut? b.closing ahead).map fun (before, after) => (piece ++ before, after) :=
    cut?_append_of_avoids (gap.quiet b listed).closes ahead
  have cut := Block.cut?_of_cutOpening cut
  have cut' := Block.cut?_of_cutOpening cut'
  rw [cut?_append_seam regular.closing (gap.seam leads) b.closing_ne_nil] at cut
  rw [cut?_append_seam regular.closing (gap.seam' ahead) b.closing_ne_nil, later] at cut'
  cases closed : Text.cut? b.closing rest with
  | some parts =>
    obtain ⟨inner, after⟩ := parts
    rw [closed] at cut cut'
    have split : opened ++ rest = opened ++ (inner ++ b.closing) ++ after := by
      rw [Text.cut?_eq_some closed, List.append_assoc opened]
    have some : opened ++ (inner ++ b.closing) ≠ [] := by simp [inhabited]
    refine .before some ?_ cut cut'
    rw [split]
  | none =>
    rw [closed] at cut cut'
    cases ended : Text.cut? b.closing ahead with
    | none =>
      rw [ended] at cut cut'
      exact .nowhere cut cut'
    | some parts =>
      obtain ⟨inner, after⟩ := parts
      rw [ended] at cut cut'
      have some : opened ++ rest ≠ [] := by simp [inhabited]
      have closed : b.closing <:+ inner ++ b.closing := List.suffix_append _ _
      exact .around some closed rfl (Text.cut?_eq_some ended) cut cut'

/-- An opening that goes on up to the next tag finds one in the gap, and the one behind it without
the gap. -/
theorem Gap.lies_of_across {before more : Text} (inhabited : more ≠ [])
    (opened : b.cutOpening? (before ++ more ++ ahead) = (afterTag? ahead).map (before, ·))
    (opened' : b.cutOpening? (before ++ more ++ (piece ++ ahead)) =
      (afterTag? (piece ++ ahead)).map (before, ·)) :
    Lies b piece (before ++ more) ahead := by
  obtain ⟨tail, after', avoids⟩ := gap.exists_afterTag listed ahead
  rw [after', Option.map_some] at opened'
  have cut' := Block.cut?_of_cutOpening opened'
  rw [cut?_append_of_avoids avoids, Option.map_map] at cut'
  rcases leads with ⟨_, rfl⟩ | ⟨some, rest, rfl⟩
  · have none : b.cut? (before ++ more ++ []) = none := by
      unfold Block.cut?
      rw [opened]
      rfl
    have open_ : Text.cut? b.closing [] = Option.none := if_neg b.closing_ne_nil
    rw [open_] at cut'
    exact .nowhere none cut'
  · rcases gap.tag with none | ⟨_, ⟨t, rfl, first⟩, quiet'⟩
    · exact absurd none some
    · have ended : afterTag? (t ++ ['>'] ++ rest) = Option.some rest := by
        rw [List.append_assoc, List.singleton_append, afterTag?_split first]
      rw [ended, Option.map_some] at opened
      have cut := Block.cut?_of_cutOpening opened
      rw [cut?_append_of_avoids (quiet' b listed).closes, Option.map_map] at cut'
      cases closed : Text.cut? b.closing rest with
      | none =>
        rw [closed] at cut cut'
        exact .nowhere cut cut'
      | some parts =>
        obtain ⟨inner, after⟩ := parts
        rw [closed] at cut cut'
        have ends : b.closing <:+ t ++ ['>'] ++ (inner ++ b.closing) :=
          (List.suffix_append inner _).trans (List.suffix_append _ _)
        refine .around inhabited ends rfl ?_ cut cut'
        rw [Text.cut?_eq_some closed, List.append_assoc (t ++ ['>'])]

theorem Gap.lies (regular : b.Regular) {s : Text} (unbroken : b.Unbroken s ahead) :
    Lies b piece s ahead := by
  have seam := gap.seam leads
  have seam' := gap.seam' ahead
  have unbroken' := gap.unbroken' b s ahead
  rcases Block.cutOpening?_append_seam regular s with opened |
    ⟨before, opened, rest, inhabited, rfl, found⟩ | ⟨before, more, inhabited, rfl, across⟩
  · exact gap.lies_of_later listed (opened ahead seam unbroken)
      (opened (piece ++ ahead) seam' unbroken')
  · exact gap.lies_of_opening listed leads regular inhabited (found ahead seam unbroken)
      (found (piece ++ ahead) seam' unbroken')
  · exact gap.lies_of_across listed leads inhabited (across ahead seam unbroken)
      (across (piece ++ ahead) seam' unbroken')

end

/-! ### Places that stay -/

/-- The place between two texts is in no block that is left out; then it lies between what is left of
them. -/
inductive Stays (b : Block) : Text → Text → Text → Text → Prop
  | clear {s u : Text} (none : b.cut? (s ++ u) = none) : Stays b s u s u
  | behind {s u before rest : Text} (cut : b.cut? (s ++ u) = some (s ++ before, rest)) :
      Stays b s u s (before ++ without b rest)
  | before {before block after u x y : Text} (inhabited : block ≠ [])
      (cut : b.cut? (before ++ (block ++ after) ++ u) = some (before, after ++ u))
      (stays : Stays b after u x y) : Stays b (before ++ (block ++ after)) u (before ++ x) y

theorem Stays.without_eq {b : Block} {s u x y : Text} (stays : Stays b s u x y) :
    without b (s ++ u) = x ++ y := by
  induction stays with
  | clear none => exact without_of_none none
  | behind cut => rw [without_of_cut? cut, List.append_assoc]
  | before _ cut _ ih => rw [without_of_cut? cut, ih, List.append_assoc]

/-- The text without the first of the blocks of one form. -/
def firstOut (b : Block) (t : Text) : Text :=
  match b.cut? t with
  | some (before, after) => before ++ after
  | none => t

/-- The place between two texts is not in the first block. -/
inductive StaysOnce (b : Block) : Text → Text → Text → Text → Prop
  | clear {s u : Text} (none : b.cut? (s ++ u) = none) : StaysOnce b s u s u
  | behind {s u before rest : Text} (cut : b.cut? (s ++ u) = some (s ++ before, rest)) :
      StaysOnce b s u s (before ++ rest)
  | before {before block after u : Text} (inhabited : block ≠ [])
      (cut : b.cut? (before ++ (block ++ after) ++ u) = some (before, after ++ u)) :
      StaysOnce b (before ++ (block ++ after)) u (before ++ after) u

theorem StaysOnce.firstOut_eq {b : Block} {s u x y : Text} (stays : StaysOnce b s u x y) :
    firstOut b (s ++ u) = x ++ y := by
  unfold firstOut
  cases stays with
  | clear none => rw [none]
  | behind cut => simp only [cut, List.append_assoc]
  | before _ cut =>
    simp only [cut]
    rw [List.append_assoc]

/-- The place stays while blocks are left out, one form after the other. -/
inductive StaysAll : List Block → Text → Text → Text → Text → Prop
  | nil {s u : Text} : StaysAll [] s u s u
  | cons {b : Block} {blocks : List Block} {s u x y x' y' : Text} (first : Stays b s u x y)
      (others : StaysAll blocks x y x' y') : StaysAll (b :: blocks) s u x' y'

theorem StaysAll.foldl_eq {blocks : List Block} {s u x y : Text} (stays : StaysAll blocks s u x y) :
    blocks.foldl (fun text b => without b text) (s ++ u) = x ++ y := by
  induction stays with
  | nil => rfl
  | cons first _ ih => rw [List.foldl_cons, first.without_eq, ih]

/-- The place between two texts is on the level of the project: in no comment, not in the parent
reference and in no section that is left out. -/
def OwnPlace (s u x y : Text) : Prop := ∃ a a' c c', Stays .comment s u a a' ∧
  StaysOnce parentBlock a a' c c' ∧ StaysAll nestedSections c c' x y

theorem ownLevel_eq (t : Text) : ownLevel t = nestedSections.foldl (fun text b => without b text)
    (firstOut parentBlock (without .comment t)) := rfl

theorem OwnPlace.ownLevel_eq {s u x y : Text} (place : OwnPlace s u x y) :
    ownLevel (s ++ u) = x ++ y := by
  obtain ⟨a, a', c, c', comments, parent, sections⟩ := place
  rw [Descriptor.ownLevel_eq, comments.without_eq, parent.firstOut_eq, sections.foldl_eq]

theorem staysAll_of_none {blocks : List Block} {s u : Text}
    (none : ∀ b ∈ blocks, b.cut? (s ++ u) = none) : StaysAll blocks s u s u := by
  induction blocks with
  | nil => exact .nil
  | cons b blocks ih =>
    obtain ⟨here, others⟩ := List.forall_mem_cons.mp none
    exact .cons (.clear here) (ih others)

/-- In a descriptor with nothing to leave out every place is on the level of the project. -/
theorem ownPlace_of_none {s u : Text} (none : ∀ b ∈ leftBlocks, b.cut? (s ++ u) = none) :
    OwnPlace s u s u := by
  obtain ⟨comments, parent, sections⟩ : Block.comment.cut? (s ++ u) = Option.none ∧
      parentBlock.cut? (s ++ u) = Option.none ∧ ∀ b ∈ nestedSections, b.cut? (s ++ u) = Option.none := by
    simpa only [leftBlocks, List.forall_mem_cons] using none
  exact ⟨s, u, s, u, .clear comments, .clear parent, staysAll_of_none sections⟩

/-! ### Starts of lines -/

/-- A line starts behind the text. -/
def LineStart (t : Text) : Prop := t = [] ∨ t.getLast? = some '\n'

theorem Block.closing_getLast? (b : Block) : b.closing.getLast? = some '>' := by
  cases b with
  | comment => rfl
  | element name => exact List.getLast?_concat (l := '<' :: '/' :: name)
  | attributed name => exact List.getLast?_concat (l := '<' :: '/' :: name)

theorem lineStart_of_cut? {b : Block} {before block after u : Text} (inhabited : block ≠ [])
    (cut : b.cut? (before ++ (block ++ after) ++ u) = some (before, after ++ u))
    (start : LineStart (before ++ (block ++ after))) : after.getLast? = some '\n' := by
  have ends : block.getLast? = some '>' := by
    obtain ⟨inner, split⟩ := Block.exists_of_cut? cut
    have same : block = inner ++ b.closing := by
      simp only [List.append_assoc, List.append_cancel_left_eq] at split
      rw [← List.append_assoc, ← List.append_assoc] at split
      have split : block ++ (after ++ u) = inner ++ b.closing ++ (after ++ u) := by simpa using split
      exact List.append_cancel_right split
    rw [same, List.getLast?_append, b.closing_getLast?]
    rfl
  rcases start with none | break_
  · simp [inhabited] at none
  · rw [List.getLast?_append, List.getLast?_append, ends] at break_
    cases last : after.getLast? with
    | none => simp [last] at break_
    | some c => simpa [last] using break_

theorem Stays.lineStart {b : Block} {s u x y : Text} (stays : Stays b s u x y) :
    (s = [] → x = []) ∧ (s.getLast? = some '\n' → x.getLast? = some '\n') := by
  induction stays with
  | clear => exact ⟨id, id⟩
  | behind => exact ⟨id, id⟩
  | @before before block after u x y inhabited cut _ ih =>
    constructor
    · intro none
      simp [inhabited] at none
    · intro break_
      have after := ih.2 (lineStart_of_cut? inhabited cut (.inr break_))
      rw [List.getLast?_append, after]
      rfl

theorem StaysOnce.lineStart {b : Block} {s u x y : Text} (stays : StaysOnce b s u x y)
    (start : LineStart s) : LineStart x := by
  cases stays with
  | clear => exact start
  | behind => exact start
  | @before before block after _ inhabited cut =>
    right
    rw [List.getLast?_append, lineStart_of_cut? inhabited cut start]
    rfl

theorem LineStart.stays {b : Block} {s u x y : Text} (start : LineStart s)
    (stays : Stays b s u x y) : LineStart x :=
  start.imp stays.lineStart.1 stays.lineStart.2

/-! ### What is left of a gap -/

section

variable {piece tag : Text} (gap : Gap piece tag) {b : Block}
include gap

theorem Gap.leads_behind (listed : b ∈ leftBlocks) {ahead before rest : Text}
    (leads : Leads tag ahead) (cut : b.cut? ahead = some (before, rest)) (rest' : Text) :
    Leads tag (before ++ rest') := by
  rcases leads with ⟨_, rfl⟩ | ⟨inhabited, more, rfl⟩
  · cases cut
  · rcases gap.tag with none | ⟨_, _, quiet⟩
    · exact absurd none inhabited
    · rw [Block.cut?_append (quiet b listed).opens] at cut
      obtain ⟨⟨early, _⟩, _, same⟩ := Option.map_eq_some_iff.mp cut
      cases same
      exact .inr ⟨inhabited, early ++ rest', by simp⟩

variable (regular : b.Regular) (listed : b ∈ leftBlocks)
include regular listed

theorem Gap.cut?_clear {s ahead : Text} (leads : Leads tag ahead) (unbroken : b.Unbroken s ahead)
    (none : b.cut? (s ++ ahead) = none) : b.cut? (s ++ (piece ++ ahead)) = Option.none := by
  cases gap.lies listed leads regular unbroken with
  | nowhere _ cut' => exact cut'
  | behind _ cut => cases none.symm.trans cut
  | before _ _ cut => cases none.symm.trans cut
  | around _ _ _ _ cut => cases none.symm.trans cut

theorem Gap.cut?_behind {s ahead before rest : Text} (leads : Leads tag ahead)
    (unbroken : b.Unbroken s ahead) (cut : b.cut? (s ++ ahead) = some (s ++ before, rest)) :
    b.cut? ahead = some (before, rest) ∧
      b.cut? (s ++ (piece ++ ahead)) = some (s ++ (piece ++ before), rest) := by
  -- A block that starts before the place leaves less of the text in front.
  have shorter {front inner : Text} (inhabited : inner ≠ []) (split : s = front ++ inner)
      {rest' : Text} (cut' : b.cut? (s ++ ahead) = some (front, rest')) : False := by
    obtain ⟨same, _⟩ := Prod.mk.inj (Option.some.inj (cut'.symm.trans cut))
    have size := congrArg List.length split
    rw [same] at size
    have := List.length_pos_iff.mpr inhabited
    simp only [List.length_append] at size
    omega
  cases gap.lies listed leads regular unbroken with
  | nowhere cut' => cases cut'.symm.trans cut
  | behind first cut₁ cut' =>
    obtain ⟨same, rfl⟩ := Prod.mk.inj (Option.some.inj (cut₁.symm.trans cut))
    obtain rfl := List.append_cancel_left same
    exact ⟨first, cut'⟩
  | before inhabited split cut₁ => exact (shorter (by simp [inhabited]) split cut₁).elim
  | around inhabited _ split _ cut₁ => exact (shorter inhabited split cut₁).elim

theorem Gap.cut?_before {before block after ahead : Text} (inhabited : block ≠ [])
    (leads : Leads tag ahead) (unbroken : b.Unbroken (before ++ (block ++ after)) ahead)
    (cut : b.cut? (before ++ (block ++ after) ++ ahead) = some (before, after ++ ahead)) :
    b.cut? (before ++ (block ++ after) ++ (piece ++ ahead)) =
      some (before, after ++ (piece ++ ahead)) := by
  cases gap.lies listed leads regular unbroken with
  | nowhere cut₁ => cases cut₁.symm.trans cut
  | behind _ cut₁ =>
    obtain ⟨same, _⟩ := Prod.mk.inj (Option.some.inj (cut₁.symm.trans cut))
    have size := congrArg List.length same
    have := List.length_pos_iff.mpr inhabited
    simp only [List.length_append] at size
    omega
  | before _ _ cut₁ cut' =>
    obtain ⟨rfl, same⟩ := Prod.mk.inj (Option.some.inj (cut₁.symm.trans cut))
    rw [cut', List.append_cancel_right same]
  | around _ closed _ split' cut₁ =>
    -- Such a block would end behind the place.
    obtain ⟨_, same⟩ := Prod.mk.inj (Option.some.inj (cut₁.symm.trans cut))
    have size := congrArg List.length split'
    rw [same] at size
    have := List.length_pos_iff.mpr b.closing_ne_nil
    have := closed.length_le
    simp only [List.length_append] at size
    omega

theorem Gap.stays {s ahead x y : Text} (stays : Stays b s ahead x y) (leads : Leads tag ahead)
    (unbroken : b.Unbroken s ahead) :
    without b (s ++ (piece ++ ahead)) = x ++ (piece ++ y) ∧ Leads tag y := by
  induction stays with
  | clear none =>
    exact ⟨without_of_none (gap.cut?_clear regular listed leads unbroken none), leads⟩
  | behind cut =>
    obtain ⟨first, cut'⟩ := gap.cut?_behind regular listed leads unbroken cut
    constructor
    · rw [without_of_cut? cut']
      simp only [List.append_assoc]
    · exact gap.leads_behind listed leads first _
  | @before before block after u x y inhabited cut _ ih =>
    have inner : b.Unbroken after u := by
      rw [← List.append_assoc] at unbroken
      exact unbroken.of_append
    obtain ⟨left, leads'⟩ := ih leads inner
    refine ⟨?_, leads'⟩
    rw [without_of_cut? (gap.cut?_before regular listed inhabited leads unbroken cut), left,
      List.append_assoc]

/-- A block that covers the place takes with it what was put there. -/
theorem Gap.stays_or {s ahead : Text} (leads : Leads tag ahead) (unbroken : b.Unbroken s ahead) :
    (∃ x y, Stays b s ahead x y) ∨ without b (s ++ (piece ++ ahead)) = without b (s ++ ahead) := by
  induction size : s.length using Nat.strong_induction_on generalizing s with
  | _ n ih =>
  cases gap.lies listed leads regular unbroken with
  | nowhere cut => exact .inl ⟨s, ahead, .clear cut⟩
  | behind _ cut => exact .inl ⟨s, _, .behind cut⟩
  | @before before block after inhabited split cut cut' =>
    subst split
    have shorter : after.length < n := by
      have := List.length_pos_iff.mpr inhabited
      simp only [List.length_append] at size
      omega
    have inner : b.Unbroken after ahead := by
      rw [← List.append_assoc] at unbroken
      exact unbroken.of_append
    rcases ih _ shorter inner rfl with ⟨x, y, stays⟩ | same
    · exact .inl ⟨before ++ x, y, .before inhabited cut stays⟩
    · right
      rw [without_of_cut? cut, without_of_cut? cut', same]
  | around _ _ _ _ cut cut' =>
    right
    rw [without_of_cut? cut, without_of_cut? cut']

theorem Gap.staysOnce {s ahead x y : Text} (stays : StaysOnce b s ahead x y) (leads : Leads tag ahead)
    (unbroken : b.Unbroken s ahead) :
    firstOut b (s ++ (piece ++ ahead)) = x ++ (piece ++ y) ∧ Leads tag y := by
  unfold firstOut
  cases stays with
  | clear none =>
    rw [gap.cut?_clear regular listed leads unbroken none]
    exact ⟨rfl, leads⟩
  | behind cut =>
    obtain ⟨first, cut'⟩ := gap.cut?_behind regular listed leads unbroken cut
    rw [cut']
    exact ⟨by simp only [List.append_assoc], gap.leads_behind listed leads first _⟩
  | before inhabited cut =>
    rw [gap.cut?_before regular listed inhabited leads unbroken cut]
    exact ⟨by simp only [List.append_assoc], leads⟩

theorem Gap.staysOnce_or {s ahead : Text} (leads : Leads tag ahead) (unbroken : b.Unbroken s ahead) :
    (∃ x y, StaysOnce b s ahead x y) ∨ firstOut b (s ++ (piece ++ ahead)) = firstOut b (s ++ ahead) := by
  unfold firstOut
  cases gap.lies listed leads regular unbroken with
  | nowhere cut => exact .inl ⟨s, ahead, .clear cut⟩
  | behind _ cut => exact .inl ⟨s, _, .behind cut⟩
  | before inhabited split cut =>
    subst split
    exact .inl ⟨_, ahead, .before inhabited cut⟩
  | around _ _ _ _ cut cut' =>
    right
    rw [cut, cut']

end

/-! ### The level of the project -/

theorem regular_of_mem : ∀ b ∈ leftBlocks, b.Regular := by
  have solid : ∀ b ∈ leftBlocks, Solid b.start ∧ Solid b.closing := by decide
  have bare : ∀ b ∈ nestedSections, '>' ∉ b.start := by decide
  intro b listed
  refine ⟨(solid b listed).1, (solid b listed).2, ?_⟩
  rintro name rfl
  rcases List.mem_cons.mp listed with comment | listed
  · cases comment
  rcases List.mem_cons.mp listed with parent | listed
  · cases parent
  exact fun member => bare _ listed (List.mem_cons_of_mem _ member)

/-- No opening tag of a section is broken off at the place, as long as it stays while the sections are
left out. -/
def Whole : List Block → Text → Text → Prop
  | [], _, _ => True
  | b :: blocks, s, u => b.Unbroken s u ∧ ∀ x y, Stays b s u x y → Whole blocks x y

/-- On the level of the project, no opening tag of a section is broken off at the place. -/
def WholeLevel (s u : Text) : Prop := ∀ a a' c c', Stays .comment s u a a' →
  StaysOnce parentBlock a a' c c' → Whole nestedSections c c'

theorem LineStart.unbroken {b : Block} {s : Text} (start : LineStart s) (regular : b.Regular)
    (u : Text) : b.Unbroken s u := by
  rintro name rfl ends
  -- The line break would be part of the name.
  rcases start with rfl | break_
  · simp at ends
  · obtain ⟨front, rfl⟩ := ends
    have last : ('<' :: name).getLast? = some '\n' := by
      rw [List.getLast?_append] at break_
      simpa using break_
    have member : '\n' ∈ name := by
      rcases List.mem_cons.mp (List.mem_of_getLast? last) with other | member
      · cases other
      · exact member
    have visible := (regular.start '\n' member).2
    exact absurd visible (by decide)

theorem LineStart.whole {blocks : List Block} (regular : ∀ b ∈ blocks, b.Regular) {s : Text}
    (start : LineStart s) (u : Text) : Whole blocks s u := by
  induction blocks generalizing s u with
  | nil => trivial
  | cons b blocks ih =>
    obtain ⟨here, others⟩ := List.forall_mem_cons.mp regular
    exact ⟨start.unbroken here u, fun x y stays => ih others (start.stays stays) y⟩

theorem Stays.nil {b : Block} {s u x y : Text} (stays : Stays b s u x y) (none : u = []) : y = [] := by
  induction stays with
  | clear => exact none
  | @behind s u before rest cut =>
    -- A block that starts behind the end would not even fit.
    subst none
    obtain ⟨block, split⟩ := Block.exists_of_cut? cut
    have size := congrArg List.length split
    have := List.length_pos_iff.mpr b.closing_ne_nil
    simp only [List.append_nil, List.length_append] at size
    omega
  | before _ _ _ ih => exact ih none

theorem whole_nil (blocks : List Block) (s : Text) : Whole blocks s [] := by
  induction blocks generalizing s with
  | nil => trivial
  | cons b blocks ih =>
    constructor
    · nofun
    · intro x y stays
      rw [stays.nil rfl]
      exact ih x

section

variable {piece tag : Text} (gap : Gap piece tag)
include gap

theorem Gap.staysAll {blocks : List Block} (listed : blocks ⊆ leftBlocks) {s ahead x y : Text}
    (stays : StaysAll blocks s ahead x y) (leads : Leads tag ahead) (whole : Whole blocks s ahead) :
    blocks.foldl (fun text b => without b text) (s ++ (piece ++ ahead)) = x ++ (piece ++ y) ∧
      Leads tag y := by
  induction stays with
  | nil => exact ⟨rfl, leads⟩
  | @cons b blocks s u x y x' y' first _ ih =>
    obtain ⟨here, others⟩ := List.cons_subset.mp listed
    obtain ⟨unbroken, later⟩ := whole
    obtain ⟨left, leads'⟩ := gap.stays (regular_of_mem b here) here first leads unbroken
    rw [List.foldl_cons, left]
    exact ih others leads' (later x y first)

theorem Gap.staysAll_or {blocks : List Block} (listed : blocks ⊆ leftBlocks) {s ahead : Text}
    (leads : Leads tag ahead) (whole : Whole blocks s ahead) :
    (∃ x y, StaysAll blocks s ahead x y) ∨
      blocks.foldl (fun text b => without b text) (s ++ (piece ++ ahead)) =
        blocks.foldl (fun text b => without b text) (s ++ ahead) := by
  induction blocks generalizing s ahead with
  | nil => exact .inl ⟨s, ahead, .nil⟩
  | cons b blocks ih =>
    obtain ⟨here, others⟩ := List.cons_subset.mp listed
    obtain ⟨unbroken, later⟩ := whole
    have regular := regular_of_mem b here
    rw [List.foldl_cons, List.foldl_cons]
    rcases gap.stays_or regular here leads unbroken with ⟨x, y, first⟩ | same
    · obtain ⟨left, leads'⟩ := gap.stays regular here first leads unbroken
      rw [left, first.without_eq]
      rcases ih others leads' (later x y first) with ⟨x', y', stays⟩ | same
      · exact .inl ⟨x', y', .cons first stays⟩
      · exact .inr same
    · rw [same]
      exact .inr rfl

end

/-- At the start of a line no tag is broken off. -/
theorem LineStart.wholeLevel {s : Text} (start : LineStart s) (u : Text) : WholeLevel s u := by
  intro a a' c c' comments parent
  have regular : ∀ b ∈ nestedSections, b.Regular := fun b listed =>
    regular_of_mem b (List.mem_cons_of_mem _ (List.mem_cons_of_mem _ listed))
  exact (parent.lineStart (start.stays comments)).whole regular c'

/-- Where nothing follows, what is put there is left over or left out as a whole. -/
theorem wholeLevel_nil (s : Text) : WholeLevel s [] := by
  intro a a' c c' comments parent
  have none := comments.nil rfl
  subst none
  have none' : c' = [] := by
    cases parent with
    | clear => rfl
    | behind cut =>
      obtain ⟨block, split⟩ := Block.exists_of_cut? cut
      have size := congrArg List.length split
      have := List.length_pos_iff.mpr parentBlock.closing_ne_nil
      simp only [List.append_nil, List.length_append] at size
      omega
    | before => rfl
  rw [none']
  exact whole_nil nestedSections c

/-- Only in the middle of a line, with something behind it, a tag can be broken off. -/
theorem wholeLevel_of_middle {s u : Text} (middle : ¬ LineStart s → u ≠ [] → WholeLevel s u) :
    WholeLevel s u := by
  by_cases start : LineStart s
  · exact start.wholeLevel u
  · by_cases nothing : u = []
    · rw [nothing]
      exact wholeLevel_nil s
    · exact middle start nothing

theorem unbroken_of_bare {b : Block} (bare : ∀ name, b ≠ .attributed name) (s u : Text) :
    b.Unbroken s u :=
  fun name same => absurd same (bare name)

theorem nestedSections_subset : nestedSections ⊆ leftBlocks := fun _ listed =>
  List.mem_cons_of_mem _ (List.mem_cons_of_mem _ listed)

section

variable {piece tag : Text} (gap : Gap piece tag)
include gap

theorem Gap.comments_of_stays {s ahead a a' : Text} (stays : Stays .comment s ahead a a')
    (leads : Leads tag ahead) :
    without .comment (s ++ (piece ++ ahead)) = a ++ (piece ++ a') ∧ Leads tag a' :=
  gap.stays (regular_of_mem _ List.mem_cons_self) List.mem_cons_self stays leads
    (unbroken_of_bare (by simp) _ _)

theorem Gap.comments_or {s ahead : Text} (leads : Leads tag ahead) :
    (∃ a a', Stays .comment s ahead a a') ∨
      without .comment (s ++ (piece ++ ahead)) = without .comment (s ++ ahead) :=
  gap.stays_or (regular_of_mem _ List.mem_cons_self) List.mem_cons_self leads
    (unbroken_of_bare (by simp) _ _)

theorem Gap.parent_lies {s ahead : Text} (leads : Leads tag ahead) :
    Lies parentBlock piece s ahead := by
  have listed : parentBlock ∈ leftBlocks := List.mem_cons_of_mem _ List.mem_cons_self
  have bare := unbroken_of_bare (b := parentBlock) (by simp [parentBlock]) s ahead
  exact gap.lies listed leads (regular_of_mem _ listed) bare

/-- What is put on the level of the project is left over there. -/
theorem Gap.ownLevel_of_place {s ahead x y : Text} (place : OwnPlace s ahead x y)
    (leads : Leads tag ahead) (whole : WholeLevel s ahead) :
    ownLevel (s ++ (piece ++ ahead)) = x ++ (piece ++ y) ∧ Leads tag y := by
  obtain ⟨a, a', c, c', comments, parent, sections⟩ := place
  have listed : parentBlock ∈ leftBlocks := List.mem_cons_of_mem _ List.mem_cons_self
  obtain ⟨outside, leads⟩ := gap.comments_of_stays comments leads
  obtain ⟨own, leads⟩ := gap.staysOnce (regular_of_mem _ listed) listed parent leads
    (unbroken_of_bare (by simp [parentBlock]) a a')
  rw [Descriptor.ownLevel_eq, outside, own]
  exact gap.staysAll nestedSections_subset sections leads (whole a a' c c' comments parent)

/-- What is put anywhere else is left out. -/
theorem Gap.ownLevel_or {s ahead : Text} (leads : Leads tag ahead) (whole : WholeLevel s ahead) :
    (∃ x y, OwnPlace s ahead x y) ∨ ownLevel (s ++ (piece ++ ahead)) = ownLevel (s ++ ahead) := by
  rw [Descriptor.ownLevel_eq, Descriptor.ownLevel_eq]
  rcases gap.comments_or (s := s) leads with ⟨a, a', comments⟩ | same
  · obtain ⟨outside, leads'⟩ := gap.comments_of_stays comments leads
    have listed : parentBlock ∈ leftBlocks := List.mem_cons_of_mem _ List.mem_cons_self
    have bare := unbroken_of_bare (b := parentBlock) (by simp [parentBlock]) a a'
    rw [outside, comments.without_eq]
    rcases gap.staysOnce_or (regular_of_mem _ listed) listed leads' bare with ⟨c, c', parent⟩ | same
    · obtain ⟨own, leads''⟩ := gap.staysOnce (regular_of_mem _ listed) listed parent leads' bare
      rw [own, parent.firstOut_eq]
      rcases gap.staysAll_or nestedSections_subset leads'' (whole a a' c c' comments parent) with
        ⟨x, y, sections⟩ | same
      · exact .inl ⟨x, y, a, a', c, c', comments, parent, sections⟩
      · exact .inr same
    · rw [same]
      exact .inr rfl
  · rw [same]
    exact .inr rfl

end

/-! ### The parent reference -/

theorem parent?_of_cut? {t before block rest : Text}
    (cut : parentBlock.cut? (without .comment t) = some (before, rest))
    (split : without .comment t = before ++ (block ++ rest)) : parent? t = some block := by
  have inner : (before ++ (block ++ rest)).length - before.length - rest.length = block.length := by
    simp only [List.length_append]
    omega
  unfold parent?
  simp only [cut, Option.map_some]
  rw [split, inner, List.drop_left, List.take_left]

theorem parent?_of_none {t : Text} (none : parentBlock.cut? (without .comment t) = Option.none) :
    parent? t = Option.none := by
  unfold parent?
  simp only [none, Option.map_none]

/-- What is put into the parent reference stands there before the tag that follows; otherwise the
reference stays as it is. -/
theorem Gap.parent_or {piece tag : Text} (gap : Gap piece tag) {s ahead : Text}
    (leads : Leads tag ahead) :
    parent? (s ++ (piece ++ ahead)) = parent? (s ++ ahead) ∨ ∃ inner outer, inner ≠ [] ∧
      parent? (s ++ ahead) = some (inner ++ outer) ∧
      parent? (s ++ (piece ++ ahead)) = some (inner ++ (piece ++ outer)) ∧ Leads tag outer := by
  rcases gap.comments_or (s := s) leads with ⟨a, a', comments⟩ | same
  · obtain ⟨outside, leads'⟩ := gap.comments_of_stays comments leads
    have outside' := comments.without_eq
    cases gap.parent_lies (s := a) leads' with
    | nowhere none none' =>
      left
      rw [← outside] at none'
      rw [← outside'] at none
      rw [parent?_of_none none, parent?_of_none none']
    | @behind before rest first cut cut' =>
      left
      obtain ⟨block, rfl⟩ := Block.exists_of_cut? first
      rw [← outside] at cut'
      rw [← outside'] at cut
      have split' := outside
      have split := outside'
      rw [← List.append_assoc a] at split
      rw [← List.append_assoc piece, ← List.append_assoc a] at split'
      rw [parent?_of_cut? cut split, parent?_of_cut? cut' split']
    | @before before block after inhabited split cut cut' =>
      left
      subst split
      rw [← outside] at cut'
      rw [← outside'] at cut
      rw [List.append_assoc, List.append_assoc] at outside outside'
      rw [parent?_of_cut? cut outside', parent?_of_cut? cut' outside]
    | @around before inner outer rest inhabited closed split split' cut cut' =>
      right
      subst split split'
      rw [← outside] at cut'
      rw [← outside'] at cut
      refine ⟨inner, outer, inhabited, parent?_of_cut? cut ?_, parent?_of_cut? cut' ?_, ?_⟩
      · rw [outside']
        simp only [List.append_assoc]
      · rw [outside]
        simp only [List.append_assoc]
      · rcases leads' with ⟨_, nothing⟩ | ⟨some, leads'⟩
        · have none := (List.append_eq_nil_iff.mp nothing).1
          rw [none, List.suffix_nil] at closed
          exact absurd closed parentBlock.closing_ne_nil
        · -- The reference ends behind the tag, of which its closing is no part.
          rcases List.prefix_or_prefix_of_prefix leads' (List.prefix_append outer rest) with
            inside | ⟨more, rfl⟩
          · exact .inr ⟨some, inside⟩
          · obtain ⟨front, rfl⟩ := closed
            rcases gap.tag with none | ⟨_, _, quiet⟩
            · exact absurd none some
            · have closes := (quiet parentBlock (List.mem_cons_of_mem _ List.mem_cons_self)).closes
              refine (closes front (parentBlock.closing ++ more) (by simp) ?_ [] ?_).elim
              · exact List.append_ne_nil_of_left_ne_nil parentBlock.closing_ne_nil more
              · rw [List.append_nil]
                exact List.prefix_append _ more
  · left
    unfold parent?
    simp only [same]

end Layering.Descriptor
