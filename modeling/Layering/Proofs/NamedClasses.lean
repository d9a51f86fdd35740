import Layering.Inspection.Rules
import Layering.Proofs.Blocks
import Layering.Proofs.Repetition
import Layering.Proofs.Templates

/-!
# Classes named in messages

The message about a method of a facade says which core class the method returns, and the repair
reads the class back from it. What is read back is the longest beginning of the name that looks like
that of a core class; a name with no such beginning is looked for among those of the table.
-/

namespace Layering

/-- A word is written like another one in small letters, whatever its case. -/
def WrittenLike (small word : Text) : Prop :=
  List.Forall₂ (fun a c => Text.isFormOf a c = true) small word

/-- The verb of the phrase that names a class, in any case. -/
def IsVerb (word : Text) : Prop := WrittenLike "return" word ∨ WrittenLike "returns" word

/-- A single word that looks like the name of a core class, in any case. -/
structure LooksCore (name : Text) : Prop where
  word : ∀ c ∈ name, Text.isWordChar c = true
  naming : (∃ start rest, name = start ++ rest ∧ WrittenLike "default" start ∧ rest ≠ []) ∨
    ∃ rest ending, name = rest ++ ending ∧ WrittenLike "impl" ending ∧ rest ≠ []

/-- The first name of a table that a message mentions as a word. -/
def FirstMentioned (table : TypeTable) (message name : Text) : Prop :=
  ∃ before mapping after, table = before ++ (name, mapping) :: after ∧
    Text.occursAsWord name none message = true ∧
    ∀ entry ∈ before, Text.occursAsWord entry.1 none message = false

/-! ### Words in any case -/

theorem dropAnyCase?_eq_some {small t rest : Text} :
    Text.dropAnyCase? small t = some rest ↔ ∃ word, t = word ++ rest ∧ WrittenLike small word := by
  induction small generalizing t with
  | nil => exact ⟨fun dropped => ⟨[], Option.some.inj dropped, .nil⟩, fun ⟨_, split, .nil⟩ =>
      congrArg some split⟩
  | cons a small ih =>
    cases t with
    | nil =>
      refine ⟨fun dropped => (by cases dropped), fun ⟨word, split, like⟩ => ?_⟩
      obtain ⟨rfl, _⟩ := List.append_eq_nil_iff.mp split.symm
      cases like
    | cons c t =>
      rw [Text.dropAnyCase?]
      constructor
      · intro dropped
        split at dropped
        next form =>
          obtain ⟨word, rfl, like⟩ := ih.mp dropped
          exact ⟨c :: word, rfl, .cons form like⟩
        · cases dropped
      · rintro ⟨word, split, like⟩
        cases like with
        | cons form like =>
        obtain ⟨rfl, rfl⟩ := List.cons.inj split
        rw [if_pos form]
        exact ih.mpr ⟨_, rfl, like⟩

theorem isBlank_of_isFormOf {a c : Char} (form : Text.isFormOf a c = true)
    (small : Text.isBlank a = false) (capital : Text.isBlank a.toUpper = false) :
    Text.isBlank c = false := by
  simp only [Text.isFormOf, Bool.or_eq_true, Bool.and_eq_true, decide_eq_true_eq] at form
  rcases form with ((rfl | rfl) | ⟨_, rfl⟩) | ⟨_, rfl | rfl⟩
  · exact small
  · exact capital
  · decide
  · decide
  · decide

theorem WrittenLike.nonblank {small word : Text} (like : WrittenLike small word)
    (plain : (small.all fun a => !Text.isBlank a && !Text.isBlank a.toUpper) = true) :
    ∀ c ∈ word, Text.isBlank c = false := by
  induction like with
  | nil => simp
  | cons form _ ih =>
    rw [List.all_cons, Bool.and_eq_true, Bool.and_eq_true, Bool.not_eq_true', Bool.not_eq_true']
      at plain
    obtain ⟨⟨letter, capital⟩, later⟩ := plain
    exact List.forall_mem_cons.mpr ⟨isBlank_of_isFormOf form letter capital, ih later⟩

/-- The last letters correspond. -/
theorem WrittenLike.last {small word : Text} {a : Char} (like : WrittenLike (small ++ [a]) word) :
    ∃ start c, word = start ++ [c] ∧ Text.isFormOf a c = true := by
  have back := List.rel_reverse like
  rw [List.reverse_append, List.reverse_singleton, List.singleton_append] at back
  obtain ⟨c, start, form, _, split⟩ := List.forall₂_cons_left_iff.mp back
  refine ⟨start.reverse, c, ?_, form⟩
  rw [← List.reverse_reverse word, split, List.reverse_cons]

theorem WrittenLike.length_eq {small word : Text} (like : WrittenLike small word) :
    word.length = small.length := (List.Forall₂.length_eq like).symm

/-! ### Names of core classes -/

theorem looksCore_of_coreNameAt? {t name : Text} (found : coreNameAt? t = some name) :
    LooksCore name ∧ name <+: t.takeWhile Text.isWordChar := by
  have word {part : Text} (beginning : part <+: t.takeWhile Text.isWordChar) :
      ∀ c ∈ part, Text.isWordChar c = true :=
    fun c member => List.mem_takeWhile_imp (beginning.subset member)
  unfold coreNameAt? at found
  simp only at found
  split at found
  next default =>
    obtain rfl := Option.some.inj found
    obtain ⟨rest, dropped, some⟩ := (Option.any_eq_true _ _).mp default
    obtain ⟨start, split, like⟩ := dropAnyCase?_eq_some.mp dropped
    exact ⟨⟨word List.prefix_rfl, .inl ⟨start, rest, split, like, of_decide_eq_true some⟩⟩,
      List.prefix_rfl⟩
  next =>
    obtain ⟨length, _, rfl⟩ := List.mem_map.mp (List.mem_of_find?_eq_some found)
    have ends := List.find?_some found
    simp only [Bool.and_eq_true, decide_eq_true_eq] at ends
    obtain ⟨rest, dropped⟩ := Option.isSome_iff_exists.mp ends.2
    obtain ⟨ending, split, like⟩ := dropAnyCase?_eq_some.mp dropped
    have part := List.take_prefix length (t.takeWhile Text.isWordChar)
    generalize (t.takeWhile Text.isWordChar).take length = start at *
    -- The word goes on for four letters only, so nothing is left behind the ending.
    have size : ending.length = 4 := like.length_eq
    have sizes := congrArg List.length split
    have long : start.length > 4 := ends.1
    simp only [List.length_drop, List.length_append, coreSuffix] at sizes
    have rest_nil : rest = [] := List.eq_nil_of_length_eq_zero (by simp at sizes; omega)
    rw [rest_nil, List.append_nil] at split
    refine ⟨⟨word part, .inr ⟨start.take (start.length - coreSuffix.length), ending, ?_, like, ?_⟩⟩,
      part⟩
    · rw [← split, List.take_append_drop]
    · rw [ne_eq, List.take_eq_nil_iff]
      rintro (none | rfl)
      · have none : start.length - 4 = 0 := none
        omega
      · cases long

theorem endsWith_of_ending {start ending : Text} (like : WrittenLike "impl" ending)
    (some : start ≠ []) : ((start ++ ending).length > coreSuffix.length
      && (Text.dropAnyCase? "impl" ((start ++ ending).drop
        ((start ++ ending).length - coreSuffix.length))).isSome) = true := by
  have size : ending.length = coreSuffix.length := like.length_eq
  have long := List.length_pos_of_ne_nil some
  have cut : (start ++ ending).drop ((start ++ ending).length - coreSuffix.length) = ending := by
    rw [List.length_append, size, Nat.add_sub_cancel]
    exact List.drop_left
  rw [cut, dropAnyCase?_eq_some.mpr ⟨ending, (List.append_nil _).symm, like⟩]
  simp only [List.length_append, size, Option.isSome_some, Bool.and_true, decide_eq_true_eq]
  exact Nat.lt_add_of_pos_left long

theorem coreNameAt?_of_looksCore {name right : Text} (looks : LooksCore name)
    (last : right.head?.any Text.isWordChar = false) : coreNameAt? (name ++ right) = some name := by
  have first : right.takeWhile Text.isWordChar = [] := by
    cases right with
    | nil => rfl
    | cons c right => exact List.takeWhile_cons_of_neg (Bool.eq_false_iff.mp last)
  have word : (name ++ right).takeWhile Text.isWordChar = name := by
    rw [List.takeWhile_append_of_pos looks.word, first, List.append_nil]
  unfold coreNameAt?
  simp only [word]
  split
  next => rfl
  next other =>
    obtain ⟨start, rest, rfl, like, some⟩ | ⟨start, ending, rfl, like, some⟩ := looks.naming
    · rw [dropAnyCase?_eq_some.mpr ⟨start, rfl, like⟩] at other
      exact absurd (decide_eq_true some) other
    · -- The whole word is the first beginning that is tried.
      rw [List.range_succ, List.reverse_append, List.reverse_singleton, List.singleton_append,
        List.map_cons, List.take_length]
      exact List.find?_cons_of_pos (endsWith_of_ending like some)

theorem coreNameAt?_ne_none {part t : Text} (looks : LooksCore part) (starts : part <+: t) :
    coreNameAt? t ≠ none := by
  intro none
  obtain ⟨right, rfl⟩ := starts
  unfold coreNameAt? at none
  simp only [List.takeWhile_append_of_pos looks.word] at none
  generalize right.takeWhile Text.isWordChar = more at none
  split at none
  next => cases none
  next other =>
    obtain ⟨start, rest, rfl, like, some⟩ | ⟨start, ending, rfl, like, some⟩ := looks.naming
    · rw [dropAnyCase?_eq_some.mpr ⟨start, List.append_assoc start rest more, like⟩] at other
      exact other (decide_eq_true fun empty => some (List.append_eq_nil_iff.mp empty).1)
    · have tried : start ++ ending ∈
          (List.range ((start ++ ending ++ more).length + 1)).reverse.map
            (start ++ ending ++ more).take := by
        refine List.mem_map.mpr ⟨(start ++ ending).length, ?_, List.take_left⟩
        rw [List.mem_reverse, List.mem_range, Nat.lt_succ_iff]
        exact (List.prefix_append _ more).length_le
      exact List.find?_eq_none.mp none _ tried (endsWith_of_ending like some)

/-! ### Phrases -/

theorem WrittenLike.split {first second word : Text} (like : WrittenLike (first ++ second) word) :
    ∃ start rest, word = start ++ rest ∧ WrittenLike first start ∧ WrittenLike second rest := by
  induction first generalizing word with
  | nil => exact ⟨[], word, rfl, .nil, like⟩
  | cons a first ih =>
    obtain ⟨c, word, form, later, rfl⟩ := List.forall₂_cons_left_iff.mp like
    obtain ⟨start, rest, rfl, starts, rests⟩ := ih later
    exact ⟨c :: start, rest, rfl, .cons form starts, rests⟩

theorem of_dropBlanks? {t rest : Text} (dropped : Text.dropBlanks? t = some rest) :
    ∃ c more, t = c :: more ∧ Text.isBlank c = true ∧ rest <:+ more := by
  unfold Text.dropBlanks? at dropped
  split at dropped
  next blank =>
    obtain rfl := Option.some.inj dropped
    cases t with
    | nil => cases blank
    | cons c more =>
      have blank : Text.isBlank c = true := blank
      refine ⟨c, more, rfl, blank, ?_⟩
      rw [List.dropWhile_cons_of_pos blank]
      exact List.dropWhile_suffix _
  · cases dropped

theorem of_returnedAt? {t name : Text} (found : returnedAt? t = some name) :
    ∃ word c rest, t = word ++ c :: rest ∧ Text.isBlank c = true ∧
      IsVerb word ∧ ∃ u, u <:+ rest ∧ coreNameAt? u = some name := by
  have named {opening : Option Text}
      (found : (opening.bind Text.dropBlanks?).bind coreNameAt? = some name) :
      ∃ c rest u, opening = some (c :: rest) ∧ Text.isBlank c = true ∧ u <:+ rest ∧
        coreNameAt? u = some name := by
    obtain ⟨u, dropped, named⟩ := Option.bind_eq_some_iff.mp found
    obtain ⟨after, rfl, dropped⟩ := Option.bind_eq_some_iff.mp dropped
    obtain ⟨c, rest, rfl, blank, part⟩ := of_dropBlanks? dropped
    exact ⟨c, rest, u, rfl, blank, part, named⟩
  unfold returnedAt? at found
  simp only at found
  split at found
  next found' =>
    obtain rfl := Option.some.inj found
    obtain ⟨c, rest, u, opening, blank, part, found⟩ := named found'
    rcases Option.or_eq_some_iff.mp opening with opening | ⟨_, opening⟩
    · obtain ⟨word, rfl, like⟩ := dropAnyCase?_eq_some.mp opening
      exact ⟨word, c, rest, rfl, blank, .inr like, u, part, found⟩
    · obtain ⟨word, rfl, like⟩ := dropAnyCase?_eq_some.mp opening
      exact ⟨word, c, rest, rfl, blank, .inl like, u, part, found⟩
  next =>
    obtain ⟨c, rest, u, opening, blank, part, here⟩ := named found
    obtain ⟨phrase, rfl, like⟩ := dropAnyCase?_eq_some.mp opening
    have parts : "return type".toList = "return".toList ++ ' ' :: "type".toList := rfl
    rw [parts] at like
    obtain ⟨word, more, rfl, verb, blanks⟩ := like.split
    obtain ⟨b, kind, form, _, rfl⟩ := List.forall₂_cons_left_iff.mp blanks
    obtain rfl : b = ' ' := by simpa [Text.isFormOf] using form
    exact ⟨word, ' ', kind ++ c :: rest, by simp, rfl, .inl verb, u,
      part.trans (List.suffix_append_of_suffix (List.suffix_cons c rest)), here⟩

/-- A text in which no phrase begins, whatever follows. -/
def Unphrased : Text → Prop := Descriptor.Nowhere fun t => (returnedAt? t).isSome

theorem IsVerb.nonblank {word : Text} (verb : IsVerb word) :
    ∀ c ∈ word, Text.isBlank c = false := by
  rcases verb with like | like
  · exact like.nonblank (by decide)
  · exact like.nonblank (by decide)

theorem eq_of_first_blank {start word t u : Text} {c d : Char}
    (same : start ++ c :: t = word ++ d :: u) (nonblank : ∀ a ∈ start, Text.isBlank a = false)
    (plain : ∀ a ∈ word, Text.isBlank a = false) (cBlank : Text.isBlank c = true)
    (dBlank : Text.isBlank d = true) : start = word := by
  rcases List.append_eq_append_iff.mp same with ⟨z, rfl, after⟩ | ⟨z, rfl, after⟩
  · cases z with
    | nil => exact (List.append_nil _).symm
    | cons a z =>
      obtain ⟨rfl, _⟩ := List.cons.inj after
      cases cBlank.symm.trans (plain c (by simp))
  · cases z with
    | nil => exact List.append_nil _
    | cons a z =>
      obtain ⟨rfl, _⟩ := List.cons.inj after
      cases dBlank.symm.trans (nonblank d (by simp))

/-- In a word and the blank after it there is no phrase if no end of the word is the verb. -/
theorem nowhere_returned {word : Text} {blank : Char}
    (nonblank : (word.all fun c => !Text.isBlank c) = true) (isBlank : Text.isBlank blank = true)
    (other : ∀ late, late <:+ word → ¬IsVerb late) :
    Unphrased (word ++ [blank]) := by
  intro early late split some rest found
  obtain ⟨name, found⟩ := Option.isSome_iff_exists.mp found
  obtain ⟨word', c, after, same, cBlank, verb, _⟩ := of_returnedAt? found
  rcases List.suffix_concat_iff.mp ⟨early, split.symm⟩ with rfl | ⟨start, rfl, part⟩
  · exact some rfl
  · rw [List.append_assoc, List.singleton_append] at same
    have plain (a : Char) (member : a ∈ start) : Text.isBlank a = false :=
      Bool.eq_false_of_not_eq_true' (List.all_eq_true.mp nonblank a (part.subset member))
    obtain rfl := eq_of_first_blank same plain verb.nonblank isBlank cBlank
    exact other start part verb

/-- What ends with another letter than the verb is not the verb. -/
theorem not_isVerb_of_last {word : Text} {last : Char} (noN : Text.isFormOf 'n' last = false)
    (noS : Text.isFormOf 's' last = false) : ∀ late, late <:+ word ++ [last] → ¬IsVerb late := by
  have ends {late : Text} (small : Text) {a : Char} (part : late <:+ word ++ [last])
      (like : WrittenLike (small ++ [a]) late) : Text.isFormOf a last = true := by
    obtain ⟨start, c, rfl, form⟩ := like.last
    rcases List.suffix_concat_iff.mp part with none | ⟨_, same, _⟩
    · exact absurd none (by simp)
    · obtain ⟨_, same⟩ := List.append_inj' same rfl
      obtain ⟨rfl, _⟩ := List.cons.inj same
      exact form
  rintro late part (like | like)
  · cases noN.symm.trans (ends "retur" part like)
  · cases noS.symm.trans (ends "return" part like)

/-- A word of which no end starts like the verb. -/
theorem not_isVerb_of_drop {word : Text}
    (other : ∀ late ∈ word.tails, Text.dropAnyCase? "return" late = none) :
    ∀ late, late <:+ word → ¬IsVerb late := by
  intro late part verb
  have none := other late ((List.mem_tails _ _).mpr part)
  rcases verb with like | like
  · cases none.symm.trans (dropAnyCase?_eq_some.mpr ⟨late, (List.append_nil _).symm, like⟩)
  · have verb : "returns".toList = "return".toList ++ ['s'] := rfl
    rw [verb] at like
    obtain ⟨start, rest, same, starts, _⟩ := like.split
    cases none.symm.trans (dropAnyCase?_eq_some.mpr ⟨start, same, starts⟩)

/-- What the phrases are followed by in the message. -/
theorem coreNameAt?_ending {t : Text} (part : t <:+ "instead of its API interface".toList) :
    coreNameAt? t = none := by
  have all : ∀ t ∈ ("instead of its API interface".toList : Text).tails, coreNameAt? t = none := by
    decide
  exact all t ((List.mem_tails _ _).mpr part)

section

variable {core : Text} (nonblank : ∀ c ∈ core, Text.isBlank c = false)
include nonblank

/-- Once the phrase is read, the rest of the message has none. -/
theorem returnedAt?_class {t : Text} (part : t <:+ core ++ " instead of its API interface".toList) :
    returnedAt? t = none := by
  rw [Option.eq_none_iff_forall_ne_some]
  intro name found
  obtain ⟨word, c, rest, rfl, blank, _, u, ends, here⟩ := of_returnedAt? found
  have phrase : " instead of its API interface".toList =
      ' ' :: "instead of its API interface".toList := rfl
  have after : c :: rest <:+ core ++ ' ' :: "instead of its API interface".toList :=
    phrase ▸ (List.suffix_append word _).trans part
  have inside : rest <:+ "instead of its API interface".toList := by
    obtain ⟨early, same⟩ := after
    rcases List.append_eq_append_iff.mp same with ⟨z, rfl, tail⟩ | ⟨z, rfl, tail⟩
    · cases z with
      | nil => exact (List.cons.inj tail).2 ▸ List.suffix_rfl
      | cons a z =>
        obtain ⟨rfl, _⟩ := List.cons.inj tail
        cases blank.symm.trans (nonblank c (by simp))
    · cases z with
      | nil => exact (List.cons.inj tail).2 ▸ List.suffix_rfl
      | cons a z => exact ⟨z ++ [c], by simpa using (List.cons.inj tail).2.symm⟩
  cases here.symm.trans (coreNameAt?_ending (ends.trans inside))

theorem firstSuffix?_class : Text.firstSuffix? returnedAt?
    (core ++ " instead of its API interface".toList) = none := by
  rw [Option.eq_none_iff_forall_ne_some]
  intro name found
  obtain ⟨t, part, here⟩ := Text.firstSuffix?_eq_some found
  exact absurd (here.symm.trans (returnedAt?_class nonblank part)) (Option.some_ne_none name)

variable (inhabited : core ≠ [])
include inhabited

/-- What the message says of a class is read from its name. -/
theorem firstSuffix?_phrase : Text.firstSuffix? returnedAt?
    ("returns ".toList ++ (core ++ " instead of its API interface".toList)) =
      coreNameAt? (core ++ " instead of its API interface".toList) := by
  obtain ⟨c, more, rfl⟩ := List.exists_cons_of_ne_nil inhabited
  have first : Text.isBlank c = false := nonblank c List.mem_cons_self
  generalize phrase : (c :: more) ++ " instead of its API interface".toList = t
  have blanks : Text.dropBlanks? (' ' :: t) = some t := by
    have plain : t.dropWhile Text.isBlank = t := by
      rw [← phrase, List.cons_append, List.dropWhile_cons_of_neg (Bool.eq_false_iff.mp first)]
    exact congrArg some plain
  have here : returnedAt? ('r' :: ("eturns ".toList ++ t)) = coreNameAt? t := by
    have verb : Text.dropAnyCase? "returns" ('r' :: ("eturns ".toList ++ t)) =
        some (' ' :: t) := rfl
    have other : Text.dropAnyCase? "return type" ('r' :: ("eturns ".toList ++ t)) = none := rfl
    unfold returnedAt?
    simp only [verb, other, Option.some_or, Option.bind_some, blanks, Option.bind_none]
    cases coreNameAt? t <;> rfl
  have later : Text.firstSuffix? returnedAt? ("eturns ".toList ++ t) = none := by
    have nowhere : Unphrased ("eturns".toList ++ [' ']) :=
      nowhere_returned (by decide) rfl (not_isVerb_of_drop (by decide))
    rw [← phrase]
    exact (Descriptor.firstSuffix?_append nowhere _).trans (firstSuffix?_class nonblank)
  have start : "returns ".toList ++ t = 'r' :: ("eturns ".toList ++ t) := rfl
  rw [start, Text.firstSuffix?, here, later, Option.or_none]

end

variable {file : Path} {type : Text} {method : Java.Method}

theorem firstSuffix?_message (file : Path) (isType : Java.IsName type) (isMethod : Java.IsName method.name)
    (isCore : Java.IsName method.returnTypeName) :
    Text.firstSuffix? returnedAt? (Detector.coreReturnType file type method).message =
      coreNameAt? (method.returnTypeName ++ " instead of its API interface".toList) := by
  have plain {name : Text} (isName : Java.IsName name) : ∀ c ∈ name, Text.isBlank c = false :=
    fun c member => Java.isBlank_of_isNamePart (isName.part c member)
  have nonblank {name : Text} (isName : Java.IsName name) :
      (name.all fun c => !Text.isBlank c) = true :=
    List.all_eq_true.mpr fun c member => congrArg Bool.not (plain isName c member)
  have inhabited : method.returnTypeName ≠ [] := by
    obtain ⟨c, tail, split, _⟩ := isCore
    simp [split]
  have parts : (Detector.coreReturnType file type method).message =
      ("Facade".toList ++ [' ']) ++ (("method".toList ++ [' ']) ++
        ((((type ++ ['.'] ++ method.name ++ ['(']) ++ [')']) ++ [' ']) ++
          ("returns ".toList ++
            (method.returnTypeName ++ " instead of its API interface".toList)))) := by
    have opening : "Facade method ".toList =
        "Facade".toList ++ ([' '] ++ ("method".toList ++ [' '])) := rfl
    have verb : "() returns ".toList = ['('] ++ ([')'] ++ ([' '] ++ "returns ".toList)) := rfl
    simp only [Detector.coreReturnType, opening, verb, List.append_assoc]
    rfl
  have facade : Unphrased ("Facade".toList ++ [' ']) :=
    nowhere_returned (by decide) rfl (not_isVerb_of_drop (by decide))
  have noun : Unphrased ("method".toList ++ [' ']) :=
    nowhere_returned (by decide) rfl (not_isVerb_of_drop (by decide))
  have call : Unphrased
      (((type ++ ['.'] ++ method.name ++ ['(']) ++ [')']) ++ [' ']) := by
    refine nowhere_returned ?_ rfl (not_isVerb_of_last (by decide) (by decide))
    simp only [List.all_append, Bool.and_eq_true]
    exact ⟨⟨⟨⟨nonblank isType, rfl⟩, nonblank isMethod⟩, rfl⟩, rfl⟩
  rw [parts, Descriptor.firstSuffix?_append facade, Descriptor.firstSuffix?_append noun,
    Descriptor.firstSuffix?_append call, firstSuffix?_phrase (plain isCore) inhabited]

/-! ### Reading back -/

theorem mentioned?_of_coreNameAt? {table : TypeTable} (isType : Java.IsName type)
    (isMethod : Java.IsName method.name) (isCore : Java.IsName method.returnTypeName) {name : Text}
    (found : coreNameAt? (method.returnTypeName ++ " instead of its API interface".toList) =
      some name) :
    table.mentioned? (Detector.coreReturnType file type method).message = some name := by
  unfold TypeTable.mentioned?
  rw [firstSuffix?_message file isType isMethod isCore, found]

/-- Without a phrase the table decides. -/
theorem mentioned?_eq_some_of_none {table : TypeTable} {message name : Text}
    (none : Text.firstSuffix? returnedAt? message = none) :
    table.mentioned? message = some name ↔ FirstMentioned table message name := by
  unfold TypeTable.mentioned?
  rw [none]
  change (table.find? fun entry => Text.occursAsWord entry.1 Option.none message).map (·.1) =
    some name ↔ _
  constructor
  · intro found
    obtain ⟨entry, first, rfl⟩ := Option.map_eq_some_iff.mp found
    obtain ⟨mentioned, before, after, split, others⟩ := List.find?_eq_some_iff_append.mp first
    exact ⟨before, entry.2, after, split, mentioned, fun entry member =>
      Bool.eq_false_of_not_eq_true' (others entry member)⟩
  · rintro ⟨before, mapping, after, split, mentioned, others⟩
    refine Option.map_eq_some_iff.mpr ⟨(name, mapping), ?_, rfl⟩
    exact List.find?_eq_some_iff_append.mpr ⟨mentioned, before, after, split, fun entry member =>
      congrArg Bool.not (others entry member)⟩

/-- What follows the convention is a word that promises a contract. -/
theorem of_follows {core : Text} (isName : Java.IsName core)
    (follows : followsCoreNaming core = true) :
    (∀ c ∈ core, Text.isWordChar c = true) ∧ (contractName? core).isSome := by
  have ends : core.getLast? ≠ some '\n' := fun last =>
    isName.not_mem (c := '\n') (by decide) (List.mem_of_getLast? last)
  unfold followsCoreNaming at follows
  simp only [if_neg ends, Bool.and_eq_true] at follows
  exact ⟨List.all_eq_true.mp follows.1, follows.2⟩

theorem looksCore_of_follows {core : Text} (isName : Java.IsName core)
    (follows : followsCoreNaming core = true) : LooksCore core := by
  obtain ⟨word, promised⟩ := of_follows isName follows
  have spelled {small capital : Text}
      (dropped : Text.dropAnyCase? small (capital ++ []) = some []) :
      WrittenLike small capital := by
    obtain ⟨word, split, like⟩ := dropAnyCase?_eq_some.mp dropped
    exact List.append_cancel_right split ▸ like
  refine ⟨word, ?_⟩
  unfold contractName? at promised
  split at promised
  next starts =>
    rw [Bool.and_eq_true, decide_eq_true_eq] at starts
    obtain ⟨⟨rest, rfl⟩, long⟩ := starts.imp_left List.isPrefixOf_iff_prefix.mp
    refine .inl ⟨corePrefix, rest, rfl, spelled rfl, ?_⟩
    rintro rfl
    simp at long
  next =>
    split at promised
    next ends =>
      rw [Bool.and_eq_true, decide_eq_true_eq] at ends
      obtain ⟨⟨rest, rfl⟩, long⟩ := ends.imp_left List.isSuffixOf_iff_suffix.mp
      refine .inr ⟨rest, coreSuffix, rfl, spelled rfl, ?_⟩
      rintro rfl
      simp at long
    next => cases promised

theorem resolve?_isSome {table : TypeTable} {core : Text} (isName : Java.IsName core)
    (isCore : isCoreType (table.map (·.1)) core = true) : (table.resolve? core).isSome := by
  unfold TypeTable.resolve?
  split
  · rfl
  next missing =>
    rw [Option.isSome_map]
    rcases (Bool.or_eq_true _ _).mp isCore with listed | follows
    · obtain ⟨entry, member, rfl⟩ := List.mem_map.mp (List.contains_iff_mem.mp listed)
      cases missing ▸ TypeTable.get?_isSome_of_mem member
    · exact (of_follows isName follows).2

theorem prefix_of_looksCore {name core : Text} (looks : LooksCore name)
    (part : name <+: core ++ " instead of its API interface".toList) : name <+: core := by
  rcases List.prefix_or_prefix_of_prefix part (List.prefix_append _ _) with shorter | ⟨z, rfl⟩
  · exact shorter
  · have inside := (List.prefix_append_right_inj core).mp part
    cases z with
    | nil => rw [List.append_nil]
    | cons c z =>
      obtain rfl : c = ' ' := (List.cons_prefix_cons.mp inside).1
      exact absurd (looks.word ' ' (by simp)) (by decide)

/-- A core class is always resolved. It is read back from the message about a method that returns it
if it looks like a core class, or if no beginning of its name does and the message mentions no name
that is listed before it. -/
theorem class_read_back {table : TypeTable} (isType : Java.IsName type)
    (isMethod : Java.IsName method.name) (isName : Java.IsName method.returnTypeName)
    (isCore : isCoreType (table.map (·.1)) method.returnTypeName = true) :
    (table.resolve? method.returnTypeName).isSome ∧
    (table.mentioned? (Detector.coreReturnType file type method).message =
        some method.returnTypeName ↔
      LooksCore method.returnTypeName ∨
        (∀ part, part <+: method.returnTypeName → ¬LooksCore part) ∧
          FirstMentioned table (Detector.coreReturnType file type method).message
            method.returnTypeName) := by
  refine ⟨resolve?_isSome isName isCore, ?_⟩
  have here := firstSuffix?_message file isType isMethod isName
  cases found : coreNameAt? (method.returnTypeName ++ " instead of its API interface".toList) with
  | some name =>
    obtain ⟨looks, part⟩ := looksCore_of_coreNameAt? found
    rw [mentioned?_of_coreNameAt? isType isMethod isName found, Option.some.injEq]
    constructor
    · rintro rfl
      exact .inl looks
    · rintro (core | ⟨others, _⟩)
      · exact Option.some.inj (found.symm.trans (coreNameAt?_of_looksCore core rfl))
      · have inside := prefix_of_looksCore looks (part.trans (List.takeWhile_prefix _))
        exact absurd looks (others name inside)
  | none =>
    rw [mentioned?_eq_some_of_none (here.trans found)]
    have others (part : Text) (inside : part <+: method.returnTypeName) : ¬LooksCore part :=
      fun looks => coreNameAt?_ne_none looks (inside.trans (List.prefix_append _ _)) found
    exact ⟨fun first => .inr ⟨others, first⟩, fun kinds =>
      kinds.elim (fun looks => absurd looks (others _ List.prefix_rfl)) (·.2)⟩

theorem isName_of_all {c : Char} {tail : Text} (start : Java.isNameStart c = true)
    (parts : tail.all Java.isNamePart = true) : Java.IsName (c :: tail) :=
  ⟨c, tail, rfl, start, List.all_eq_true.mp parts⟩

/-- `DefaultEntry get()` of the class `Store`. -/
theorem default_read_back : TypeTable.mentioned?
    (Detector.coreReturnType {} "Store"
      { name := "get", arity := 0, line := 1, returnType := "DefaultEntry" }).message [] =
        some "DefaultEntry".toList := by
  let method : Java.Method := { name := "get", arity := 0, line := 1, returnType := "DefaultEntry" }
  have isName : Java.IsName method.returnTypeName := isName_of_all (by decide) (by decide)
  have isCore : isCoreType (([] : TypeTable).map (·.1)) method.returnTypeName = true := rfl
  exact (class_read_back (isName_of_all rfl rfl) (isName_of_all rfl rfl) isName isCore).2.mpr
    (.inl (looksCore_of_follows isName rfl))

/-- Of a listed class only the beginning of its name is read back where that looks like a core
class. -/
theorem beginning_read_back :
    let table : TypeTable := [("FooImplBar", ⟨"a.FooImplBar", "b.Foo", false⟩)]
    let method : Java.Method := { name := "get", arity := 0, line := 1, returnType := "FooImplBar" }
    (Java.IsName "F".toList ∧ Java.IsName method.name ∧ Java.IsName method.returnTypeName) ∧
      isCoreType (table.map (·.1)) method.returnTypeName = true ∧
      table.mentioned? (Detector.coreReturnType {} "F" method).message = some "FooImpl".toList := by
  intro table method
  exact ⟨⟨isName_of_all rfl rfl, isName_of_all rfl rfl, isName_of_all rfl rfl⟩, rfl, by decide⟩

end Layering
