import Layering.Proofs.Edits

/-!
# Blocks in texts

A search passes over a text in which nothing that it looks for begins. Whether something begins
somewhere may depend on what follows the text, so that this is said for whatever follows.
-/

namespace Layering.Descriptor

/-- Something begins nowhere in a text, whatever follows. -/
def Nowhere (here : Text → Prop) (t : Text) : Prop :=
  ∀ early late, t = early ++ late → late ≠ [] → ∀ rest, ¬here (late ++ rest)

section

variable {here : Text → Prop} {t u : Text}

theorem Nowhere.nil : Nowhere here [] := fun _ _ split some =>
  absurd (List.append_eq_nil_iff.mp split.symm).2 some

theorem Nowhere.append (first : Nowhere here t) (second : Nowhere here u) :
    Nowhere here (t ++ u) := by
  intro early late split some rest
  rcases List.append_eq_append_iff.mp split with ⟨z, rfl, tail⟩ | ⟨z, head, rfl⟩
  · exact second z late tail some rest
  · by_cases none : z = []
    · subst none
      exact second [] u rfl some rest
    · rw [List.append_assoc]
      exact first early z head none _

theorem Nowhere.tail {c : Char} (nowhere : Nowhere here (c :: t)) : Nowhere here t :=
  fun early late split => nowhere (c :: early) late (by rw [split]; rfl)

theorem Nowhere.head {c : Char} (nowhere : Nowhere here (c :: t)) (rest : Text) :
    ¬here (c :: (t ++ rest)) :=
  nowhere [] (c :: t) rfl (by simp) rest

variable (tagged : ∀ t, here t → t.head? = some '<')
include tagged

/-- What begins with a tag begins in no text that holds none. -/
theorem nowhere_of_not_mem (plain : '<' ∉ t) : Nowhere here t := by
  intro early late split some rest begins
  obtain ⟨d, more, rfl⟩ := List.exists_cons_of_ne_nil some
  have same : d = '<' := Option.some.inj (tagged _ begins)
  exact plain (by simp [split, same])

/-- What begins with a tag, but not with this one, does not begin in it. -/
theorem nowhere_tag (plain : '<' ∉ t) (other : ∀ rest, ¬here ('<' :: (t ++ rest))) :
    Nowhere here ('<' :: t) := by
  intro early late split some rest
  cases early with
  | nil =>
    rw [List.nil_append] at split
    rw [← split]
    exact other rest
  | cons d early =>
    exact nowhere_of_not_mem tagged plain early late (List.cons.inj split).2 some rest

end

/-! ### Words -/

/-- A word does not begin in a text. -/
def Avoids (word : Text) : Text → Prop := Nowhere (word <+: ·)

theorem head?_of_prefix {c : Char} {word t : Text} (part : c :: word <+: t) : t.head? = some c := by
  obtain ⟨rest, rfl⟩ := part
  rfl

/-- A word does not begin in a text of which no end agrees with it as far as both go. -/
def avoids (word t : Text) : Bool :=
  t.tails.all fun late => late.isEmpty || !word.isPrefixOf late && !late.isPrefixOf word

theorem avoids_sound {word t : Text} (checked : avoids word t = true) : Avoids word t := by
  intro early late split some rest part
  have listed : late ∈ t.tails := (List.mem_tails _ _).mpr ⟨early, split.symm⟩
  have apart := List.all_eq_true.mp checked late listed
  simp only [List.isEmpty_iff, some, Bool.or_eq_true, Bool.and_eq_true, Bool.not_eq_true',
    ← Bool.not_eq_true, List.isPrefixOf_iff_prefix, false_or] at apart
  rcases List.prefix_or_prefix_of_prefix part (List.prefix_append late rest) with shorter | longer
  · exact apart.1 shorter
  · exact apart.2 longer

/-- A word that starts a tag does not begin in a text that is put together from literals that avoid it
and from parts without tags. -/
theorem avoids_flatten {word : Text} (tag : word.head? = some '<') {parts : List Text}
    (each : ∀ part ∈ parts, '<' ∉ part ∨ avoids word part = true) : Avoids word parts.flatten := by
  have starts {t : Text} (begins : word <+: t) : t.head? = some '<' := by
    obtain ⟨more, rfl⟩ := List.head?_eq_some_iff.mp tag
    exact head?_of_prefix begins
  -- A piece is either without an opening mark or was checked on its own. A word that begins
  -- with the mark cannot straddle two of them.
  induction parts with
  | nil => exact .nil
  | cons part parts ih =>
    obtain ⟨first, others⟩ := List.forall_mem_cons.mp each
    rw [List.flatten_cons]
    apply Nowhere.append _ (ih others)
    rcases first with plain | checked
    · exact nowhere_of_not_mem (fun _ => starts) plain
    · exact avoids_sound checked

/-- A text is cut at the first place where a pattern begins. -/
theorem cut?_append {pattern t : Text} (some : pattern ≠ []) (rest : Text)
    (first : ∀ early late, t = early ++ late → late ≠ [] → ¬pattern <+: late ++ (pattern ++ rest)) :
    Text.cut? pattern (t ++ (pattern ++ rest)) = Option.some (t, rest) := by
  -- Along the text in front: no place in it begins the pattern, so the cut falls behind all of
  -- it.
  induction t with
  | nil =>
    obtain ⟨c, more, rfl⟩ := List.exists_cons_of_ne_nil some
    have starts : (c :: more).isPrefixOf (c :: (more ++ rest)) = true :=
      List.isPrefixOf_iff_prefix.mpr ⟨rest, rfl⟩
    rw [List.nil_append, List.cons_append, Text.cut?, if_pos starts]
    exact congrArg (fun after => Option.some ([], after)) List.drop_left
  | cons c t ih =>
    have later := ih fun early late split => first (c :: early) late (by rw [split]; rfl)
    have other : ¬pattern.isPrefixOf (c :: (t ++ (pattern ++ rest))) = true := fun starts =>
      first [] (c :: t) rfl (by simp) (List.isPrefixOf_iff_prefix.mp starts)
    rw [List.cons_append, Text.cut?, if_neg other, later]
    rfl

theorem Avoids.cut? {pattern t : Text} (some : pattern ≠ []) (avoids : Avoids pattern t)
    (rest : Text) : Text.cut? pattern (t ++ (pattern ++ rest)) = Option.some (t, rest) :=
  cut?_append some rest fun early late split some => avoids early late split some _

/-! ### Openings -/

/-- What every opening of a block starts with. -/
def Block.start : Block → Text
  | .comment => "<!--"
  | .element name => '<' :: name ++ ['>']
  | .attributed name => '<' :: name

theorem Block.start_of_afterOpening {b : Block} {t rest : Text} (h : b.afterOpening? t = some rest) :
    b.start <+: t := by
  cases b with
  | comment => exact ⟨rest, (Text.dropStart?_eq_some.mp h).symm⟩
  | element name => exact ⟨rest, (Text.dropStart?_eq_some.mp h).symm⟩
  | attributed name =>
    obtain ⟨inside, dropped, _⟩ := Option.bind_eq_some_iff.mp h
    exact ⟨inside, (Text.dropStart?_eq_some.mp dropped).symm⟩

/-- A block opens at the front of a text. -/
def Block.Opens (b : Block) (t : Text) : Prop := (b.afterOpening? t).isSome

theorem Block.Opens.start_prefix {b : Block} {t : Text} (opens : b.Opens t) : b.start <+: t :=
  start_of_afterOpening (Option.eq_some_of_isSome opens)

theorem Block.Opens.head? {b : Block} {t : Text} (opens : b.Opens t) : t.head? = some '<' := by
  have part := opens.start_prefix
  cases b <;> exact head?_of_prefix part

/-- No block opens in a text. -/
def Block.Skips (b : Block) : Text → Prop := Nowhere b.Opens

theorem Avoids.skips {b : Block} {t : Text} (avoids : Avoids b.start t) : b.Skips t :=
  fun early late split some rest opens => avoids early late split some rest opens.start_prefix

theorem Block.cut?_of_cutOpening {b : Block} {t before inside : Text}
    (opened : b.cutOpening? t = some (before, inside)) :
    b.cut? t = (Text.cut? b.closing inside).map fun (_, after) => (before, after) := by
  unfold Block.cut?
  rw [opened]
  simp only [Option.bind_eq_bind, Option.bind_some]
  cases Text.cut? b.closing inside <;> rfl

/-- What is found behind a text that it does not depend on. -/
theorem Block.cut?_of_later {b : Block} {s u : Text} (opened : b.cutOpening? (s ++ u) =
    (b.cutOpening? u).map fun (before, inside) => (s ++ before, inside)) :
    b.cut? (s ++ u) = (b.cut? u).map fun (before, after) => (s ++ before, after) := by
  unfold Block.cut?
  rw [opened]
  cases b.cutOpening? u with
  | none => rfl
  | some parts =>
    obtain ⟨before, inside⟩ := parts
    simp only [Option.map_some, Option.bind_eq_bind, Option.bind_some]
    cases Text.cut? b.closing inside <;> rfl

/-- A block that is cut out is left out, and so are those behind it. -/
theorem without_of_cut? {b : Block} {t before rest : Text} (cut : b.cut? t = some (before, rest)) :
    without b t = before ++ without b rest := by
  rw [without.eq_def]
  split
  next none => cases none.symm.trans cut
  next found =>
    cases found.symm.trans cut
    rfl

theorem without_of_none {b : Block} {t : Text} (none : b.cut? t = none) : without b t = t := by
  rw [without.eq_def]
  split
  next => rfl
  next found => cases none.symm.trans found

section

variable {b : Block} {t : Text} (skips : b.Skips t)
include skips

theorem cutOpening?_append (rest : Text) :
    b.cutOpening? (t ++ rest) = (b.cutOpening? rest).map fun (before, inside) =>
      (t ++ before, inside) := by
  induction t with
  | nil => simp
  | cons c t ih =>
    have none : b.afterOpening? (c :: (t ++ rest)) = none :=
      Option.not_isSome_iff_eq_none.mp (skips.head rest)
    rw [List.cons_append, Block.cutOpening?, none]
    simp only [ih skips.tail, Option.map_map]
    rfl

/-- What stands before a block does not matter for what is cut out. -/
theorem Block.cut?_append (rest : Text) :
    b.cut? (t ++ rest) = (b.cut? rest).map fun (before, after) => (t ++ before, after) :=
  Block.cut?_of_later (cutOpening?_append skips rest)

/-- A text in which no block opens stays in front. -/
theorem without_append (rest : Text) : without b (t ++ rest) = t ++ without b rest := by
  have cut := Block.cut?_append skips rest
  cases found : b.cut? rest with
  | none =>
    rw [found, Option.map_none] at cut
    rw [without_of_none cut, without_of_none found]
  | some parts =>
    rw [found, Option.map_some] at cut
    rw [without_of_cut? cut, without_of_cut? found, List.append_assoc]

theorem Block.cut?_eq_none : b.cut? t = none := by
  have cut := Block.cut?_append skips []
  rwa [List.append_nil] at cut

end

theorem Block.cut?_of_opening {b : Block} {t rest : Text} (inside : Text)
    (opens : b.afterOpening? t = some (inside ++ (b.closing ++ rest))) (inhabited : t ≠ [])
    (first : ∀ early late, inside = early ++ late → late ≠ [] →
      ¬b.closing <+: late ++ (b.closing ++ rest)) : b.cut? t = some ([], rest) := by
  obtain ⟨c, more, rfl⟩ := List.exists_cons_of_ne_nil inhabited
  unfold Block.cut? Block.cutOpening?
  rw [opens]
  simp only [Option.bind_eq_bind, Option.bind_some]
  rw [Layering.Descriptor.cut?_append b.closing_ne_nil rest first]
  rfl

theorem without_nil (b : Block) : without b [] = [] := by
  rw [without.eq_def]
  rfl

theorem foldl_without_nil (blocks : List Block) :
    blocks.foldl (fun text b => without b text) [] = [] := by
  induction blocks with
  | nil => rfl
  | cons b blocks ih => rw [List.foldl_cons, without_nil, ih]

theorem foldl_without_of_none {blocks : List Block} {t : Text} (none : ∀ b ∈ blocks, b.cut? t = none) :
    blocks.foldl (fun text b => without b text) t = t := by
  induction blocks with
  | nil => rfl
  | cons b blocks ih =>
    obtain ⟨here, others⟩ := List.forall_mem_cons.mp none
    rw [List.foldl_cons, without_of_none here, ih others]

theorem foldl_without_append {t : Text} {blocks : List Block} (skips : ∀ b ∈ blocks, b.Skips t)
    (rest : Text) : blocks.foldl (fun text b => without b text) (t ++ rest) =
      t ++ blocks.foldl (fun text b => without b text) rest := by
  induction blocks generalizing rest with
  | nil => rfl
  | cons b blocks ih =>
    obtain ⟨first, skips⟩ := List.forall_mem_cons.mp skips
    rw [List.foldl_cons, List.foldl_cons, without_append first, ih skips]

/-! ### Values -/

theorem firstSuffix?_append {α : Type} {find : Text → Option α} {t : Text}
    (nowhere : Nowhere (fun t => (find t).isSome) t) (rest : Text) :
    Text.firstSuffix? find (t ++ rest) = Text.firstSuffix? find rest := by
  induction t with
  | nil => rfl
  | cons c t ih =>
    have none : find (c :: (t ++ rest)) = none :=
      Option.not_isSome_iff_eq_none.mp (nowhere.head rest)
    rw [List.cons_append, Text.firstSuffix?, none, Option.none_or, ih nowhere.tail]

theorem prefix_of_dropPattern? {pattern t rest : Text} (plain : '.' ∉ pattern)
    (dropped : dropPattern? pattern t = some rest) : pattern <+: t := by
  induction pattern generalizing t with
  | nil => exact List.nil_prefix
  | cons c pattern ih =>
    cases t with
    | nil => cases dropped
    | cons d t =>
      -- A letter of the pattern that is not a point has to match itself.
      rw [List.mem_cons, not_or] at plain
      rw [dropPattern?] at dropped
      split at dropped
      next same =>
        have same : c = d := by simpa [Ne.symm plain.1] using same
        rw [same]
        exact List.cons_prefix_cons.mpr ⟨rfl, ih plain.2 dropped⟩
      next => cases dropped

/-- A value is found where its element opens. -/
theorem Block.Skips.valueAt? {tag t : Text} (plain : '.' ∉ tag)
    (skips : (Block.element tag).Skips t) :
    Nowhere (fun t => (Descriptor.valueAt? tag t).isSome) t := by
  intro early late split some rest found
  obtain ⟨inside, dropped, _⟩ := Option.bind_eq_some_iff.mp (Option.eq_some_of_isSome found)
  obtain ⟨more, same⟩ := prefix_of_dropPattern? (by simp [plain]) dropped
  exact skips early late split some rest
    (Option.isSome_iff_exists.mpr ⟨more, Text.dropStart?_eq_some.mpr same.symm⟩)

theorem dropPattern?_append (pattern rest : Text) :
    dropPattern? pattern (pattern ++ rest) = some rest := by
  induction pattern with
  | nil => rfl
  | cons c pattern ih => rw [List.cons_append, dropPattern?, if_pos (by simp), ih]

/-- The value of an element at the front of a text: of one that is blank, the last character. -/
theorem valueAt?_inhabited (tag : Text) {t : Text} (plain : '<' ∉ t) (inhabited : t ≠ [])
    (rest : Text) : valueAt? tag ('<' :: tag ++ ['>'] ++ (t ++ ('<' :: '/' :: tag ++ ['>'] ++ rest))) =
      some (if Text.trim t = [] then [t.getLast inhabited] else Text.trim t) := by
  have before : ∀ c ∈ t, decide (c ≠ '<') = true := fun c member =>
    decide_eq_true fun same => plain (same ▸ member)
  have inner : (t ++ ('<' :: '/' :: tag ++ ['>'] ++ rest)).takeWhile (· ≠ '<') = t := by
    rw [List.takeWhile_append_of_pos before]
    simp
  have outer : (t ++ ('<' :: '/' :: tag ++ ['>'] ++ rest)).dropWhile (· ≠ '<') =
      '<' :: '/' :: tag ++ ['>'] ++ rest := by
    rw [List.dropWhile_append_of_pos before]
    simp
  unfold valueAt?
  rw [dropPattern?_append]
  simp only [Option.bind_eq_bind, Option.bind_some, inner, outer, dropPattern?_append,
    List.getLast?_eq_some_getLast inhabited]

theorem valueAt?_element (tag : Text) {t : Text} (plain : '<' ∉ t) (inhabited : Text.trim t ≠ [])
    (rest : Text) : valueAt? tag ('<' :: tag ++ ['>'] ++ (t ++ ('<' :: '/' :: tag ++ ['>'] ++ rest))) =
      some (Text.trim t) := by
  have some' : t ≠ [] := by
    rintro rfl
    exact inhabited rfl
  rw [valueAt?_inhabited tag plain some', if_neg inhabited]

end Layering.Descriptor
