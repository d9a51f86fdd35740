import Layering.Proofs.Signatures

/-!
# Import lines and signatures

A new import goes right behind the line of another statement, or before everything else. Where only
blanks follow the semicolon of such a line, no signature is on its way there, so that the signatures
are the same with the import and without it. Then nothing is left to rewrite in a text after its
signatures were rewritten and its imports followed.
-/

namespace Layering

namespace Text

theorem takeWhile_append_cons {p : Char → Bool} {c : Char} (stop : p c = false) (head rest : Text) :
    (head ++ c :: rest).takeWhile p = head.takeWhile p := by
  induction head with
  | nil => simp [stop]
  | cons d head ih => cases here : p d <;> simp [here, ih]

theorem dropWhile_append_cons {p : Char → Bool} {c : Char} (stop : p c = false) (head rest : Text) :
    (head ++ c :: rest).dropWhile p = head.dropWhile p ++ c :: rest := by
  induction head with
  | nil => simp [stop]
  | cons d head ih => cases here : p d <;> simp [here, ih]

theorem dropStart?_append_cons {c : Char} {start : Text} (other : c ∉ start) (head rest : Text) :
    dropStart? start (head ++ c :: rest) = (dropStart? start head).map (· ++ c :: rest) := by
  cases found : dropStart? start head with
  | some after =>
    rw [dropStart?_eq_some.mp found, List.append_assoc, Option.map_some]
    exact dropStart?_eq_some.mpr rfl
  | none =>
    rw [Option.map_none]
    by_contra here
    obtain ⟨after, here⟩ := Option.ne_none_iff_exists'.mp here
    obtain ⟨z, split, _⟩ := exists_of_append_eq other (dropStart?_eq_some.mp here).symm
    rw [dropStart?_eq_some.mpr split] at found
    cases found

end Text

namespace Java

/-! ### Statements -/

/-- A reader of the start of a statement: it takes neither a semicolon nor a parenthesis, and it does
not look beyond the next semicolon. -/
structure Opening (read : Text → Option Text) : Prop where
  append : ∀ {head : Text}, ';' ∉ head → ∀ rest,
    read (head ++ ';' :: rest) = (read head).map (· ++ ';' :: rest)
  taken : ∀ {t after : Text}, read t = some after →
    ∃ front, t = front ++ after ∧ ';' ∉ front ∧ '(' ∉ front

/-- What follows the end of a line. -/
def afterLine (t : Text) : Text := (t.dropWhile (· ≠ '\n')).tail

/-- A reader of a statement, and of what follows on its line. It depends on what stands before the
semicolon only. -/
structure Statement (read : Text → Option Text) : Prop where
  append : ∀ {head : Text}, ';' ∉ head →
    (∀ rest, read (head ++ ';' :: rest) = none) ∨
      ∀ rest, read (head ++ ';' :: rest) = some (afterLine rest)
  ends : ∀ {t after : Text}, read t = some after →
    ∃ head rest, t = head ++ ';' :: rest ∧ ';' ∉ head ∧ '(' ∉ head

theorem Opening.bind {read next : Text → Option Text} (first : Opening read)
    (second : Opening next) : Opening fun t => (read t).bind next where
  append {head} free rest := by
    rw [first.append free]
    cases found : read head with
    | none => rfl
    | some after =>
      obtain ⟨front, rfl, _⟩ := first.taken found
      have free : ';' ∉ after := fun member => free (List.mem_append_right _ member)
      simp [second.append free]
  taken {t after} found := by
    obtain ⟨middle, found, next⟩ := Option.bind_eq_some_iff.mp found
    obtain ⟨front, rfl, free⟩ := first.taken found
    obtain ⟨more, rfl, free'⟩ := second.taken next
    refine ⟨front ++ more, (List.append_assoc ..).symm, ?_⟩
    simp [free, free']

theorem Opening.statement {read next : Text → Option Text} (first : Opening read)
    (second : Statement next) : Statement fun t => (read t).bind next where
  append {head} free := by
    simp only [first.append free]
    cases found : read head with
    | none => exact .inl fun _ => rfl
    | some after =>
      obtain ⟨front, rfl, _⟩ := first.taken found
      exact second.append fun member => free (List.mem_append_right _ member)
  ends {t after} found := by
    obtain ⟨middle, found, next⟩ := Option.bind_eq_some_iff.mp found
    obtain ⟨front, rfl, free⟩ := first.taken found
    obtain ⟨head, rest, rfl, free'⟩ := second.ends next
    refine ⟨front ++ head, rest, (List.append_assoc ..).symm, ?_⟩
    simp [free, free']

theorem Statement.or {read other : Text → Option Text} (first : Statement read)
    (second : Statement other) : Statement fun t => (read t).or (other t) where
  append {head} free := by
    rcases first.append free with none | found
    · rcases second.append free with none' | found
      · exact .inl fun rest => by simp [none, none']
      · exact .inr fun rest => by simp [none, found]
    · exact .inr fun rest => by simp [found]
  ends {t after} found := by
    rcases Option.or_eq_some_iff.mp found with here | ⟨_, there⟩
    · exact first.ends here
    · exact second.ends there

theorem opening_dropStart? {start : Text} (free : ';' ∉ start ∧ '(' ∉ start) :
    Opening (Text.dropStart? start) where
  append _ rest := Text.dropStart?_append_cons free.1 _ rest
  taken found := ⟨start, Text.dropStart?_eq_some.mp found, free⟩

/-- A reader of all characters of a kind. -/
theorem opening_dropWhile {p : Char → Bool} (stop : p ';' = false) (stop' : p '(' = false) :
    Opening fun t => some (t.dropWhile p) where
  append _ rest := congrArg some (Text.dropWhile_append_cons stop _ rest)
  taken {t after} found := by
    obtain rfl := Option.some.inj found
    refine ⟨t.takeWhile p, List.takeWhile_append_dropWhile.symm, fun member => ?_, fun member => ?_⟩
    · cases stop.symm.trans (List.mem_takeWhile_imp member)
    · cases stop'.symm.trans (List.mem_takeWhile_imp member)

theorem isBlank_marks : Text.isBlank ';' = false ∧ Text.isBlank '(' = false := by decide

theorem isQualifiedPart_marks : isQualifiedPart ';' = false ∧ isQualifiedPart '(' = false := by
  decide

theorem opening_dropBlanks? : Opening Text.dropBlanks? where
  append {head} free rest := by
    unfold Text.dropBlanks?
    cases head with
    | nil => simp [isBlank_marks.1]
    | cons c head =>
      have dropped := Text.dropWhile_append_cons isBlank_marks.1 (c :: head) rest
      cases blank : Text.isBlank c with
      | false => simp [blank]
      | true =>
        rw [dropped]
        simp [blank]
  taken {t after} found := by
    unfold Text.dropBlanks? at found
    split at found
    · exact (opening_dropWhile isBlank_marks.1 isBlank_marks.2).taken found
    · cases found

theorem opening_afterKeyword? {keyword : Text} (free : ';' ∉ keyword ∧ '(' ∉ keyword) :
    Opening (afterKeyword? keyword) :=
  (opening_dropWhile (p := fun c => c = ' ' || c = '\t') rfl rfl).bind
    ((opening_dropStart? free).bind opening_dropBlanks?)

theorem statement_afterStatement? : Statement afterStatement? where
  append {head} free := by
    unfold afterStatement? afterSemicolon?
    simp only [Text.dropWhile_append_cons isBlank_marks.1]
    -- The first letter that is no blank decides: a semicolon ends the statement, and anything
    -- else refuses it whatever follows.
    cases rest : head.dropWhile Text.isBlank with
    | nil => exact .inr fun _ => rfl
    | cons c more =>
      refine .inl fun _ => ?_
      have other : c ≠ ';' := by
        rintro rfl
        exact free ((List.dropWhile_suffix _).subset (rest ▸ List.mem_cons_self))
      simp only [List.cons_append]
      split
      next same => exact absurd (List.cons.inj same).1 other
      next => rfl
  ends {t after} found := by
    obtain ⟨rest, semicolon, rfl⟩ := Option.map_eq_some_iff.mp found
    unfold afterSemicolon? at semicolon
    split at semicolon
    next same =>
      cases semicolon
      obtain ⟨front, split, free⟩ :=
        (opening_dropWhile isBlank_marks.1 isBlank_marks.2).taken (congrArg some same)
      exact ⟨front, rest, split, free⟩
    next => cases semicolon

/-- What follows a qualified name. -/
def afterName? (t : Text) : Option Text :=
  if t.takeWhile isQualifiedPart = [] then none else some (t.dropWhile isQualifiedPart)

/-- What follows a qualified name or all names of a package. -/
def afterNames? (t : Text) : Option Text :=
  match t.dropWhile isQualifiedPart with
  | '*' :: rest =>
    if (t.takeWhile isQualifiedPart).length > 1 && (t.takeWhile isQualifiedPart).getLast? = some '.'
    then some rest else none
  | _ => afterName? t

theorem opening_afterName? : Opening afterName? where
  append {head} _ rest := by
    unfold afterName?
    rw [Text.takeWhile_append_cons isQualifiedPart_marks.1,
      Text.dropWhile_append_cons isQualifiedPart_marks.1]
    split <;> rfl
  taken found := by
    unfold afterName? at found
    split at found
    · cases found
    · exact (opening_dropWhile isQualifiedPart_marks.1 isQualifiedPart_marks.2).taken found

theorem opening_afterNames? : Opening afterNames? where
  append {head} free rest := by
    unfold afterNames?
    rw [opening_afterName?.append free, Text.takeWhile_append_cons isQualifiedPart_marks.1,
      Text.dropWhile_append_cons isQualifiedPart_marks.1]
    cases head.dropWhile isQualifiedPart with
    | nil => rfl
    | cons c more =>
      -- A star ends the names, and only one that directly follows them does.
      by_cases star : c = '*'
      · subst star
        simp only [List.cons_append]
        split <;> rfl
      · simp [star]
  taken {t after} found := by
    unfold afterNames? at found
    split at found
    next rest star =>
      split at found
      · cases found
        obtain ⟨front, rfl, free⟩ := (opening_dropWhile isQualifiedPart_marks.1
          isQualifiedPart_marks.2).taken (congrArg some star)
        exact ⟨front ++ ['*'], by simp, by simpa using free⟩
      · cases found
    next => exact opening_afterName?.taken found

theorem afterImported?_eq : afterImported? = fun t => (afterNames? t).bind afterStatement? := by
  funext t
  unfold afterImported? afterNames? afterName?
  generalize t.takeWhile isQualifiedPart = name
  generalize t.dropWhile isQualifiedPart = rest
  simp only
  split
  next => split <;> rfl
  next => split <;> simp

theorem statement_afterImportLine? : Statement afterImportLine? := by
  have imported : Statement afterImported? :=
    afterImported?_eq ▸ opening_afterNames?.statement statement_afterStatement?
  have free : ';' ∉ "static".toList ∧ '(' ∉ "static".toList := by decide
  have static := ((opening_dropStart? free).bind opening_dropBlanks?).statement imported
  exact (opening_afterKeyword? (by decide)).statement (static.or imported)

theorem statement_packageLine? : Statement fun t => (packageLine? t).map (·.2) := by
  have same : (fun t => (packageLine? t).map (·.2)) = fun t => (afterKeyword? "package" t).bind
      fun rest => (afterName? rest).bind afterStatement? := by
    funext t
    unfold packageLine? afterName?
    cases afterKeyword? "package" t with
    | none => rfl
    | some rest =>
      simp only [Option.bind_eq_bind, Option.bind_some]
      split
      · rfl
      · rw [Option.bind_some]
        cases afterStatement? (rest.dropWhile isQualifiedPart) <;> rfl
  rw [same]
  exact (opening_afterKeyword? (by decide)).statement
    (opening_afterName?.statement statement_afterStatement?)

/-- A package or an import line at the front of a text. -/
def declaration? (t : Text) : Option Text :=
  (afterImportLine? t).or ((packageLine? t).map (·.2))

theorem statement_declaration? : Statement declaration? :=
  statement_afterImportLine?.or statement_packageLine?

/-- Only blanks follow the semicolon on the line of a package or an import. -/
def Tidy (source : Text) : Prop :=
  ∀ before line, before ++ line = source → Text.LineStart before →
    ((packageLine? line).isSome ∨ (afterImportLine? line).isSome) →
    ∀ c ∈ (line.dropWhile (· ≠ ';')).tail.takeWhile (· ≠ '\n'), Text.isBlank c = true

theorem declaration?_isSome {line : Text} :
    (declaration? line).isSome ↔ (packageLine? line).isSome ∨ (afterImportLine? line).isSome := by
  simp [declaration?, or_comm]

theorem tidy_iff {source : Text} : Tidy source ↔
    ∀ before head rest, before ++ (head ++ ';' :: rest) = source → Text.LineStart before →
      ';' ∉ head → (declaration? (head ++ ';' :: rest)).isSome →
      ∀ c ∈ rest.takeWhile (· ≠ '\n'), Text.isBlank c = true := by
  have tail {head : Text} (free : ';' ∉ head) (rest : Text) :
      ((head ++ ';' :: rest).dropWhile (· ≠ ';')).tail = rest := by
    have other : ∀ c ∈ head, decide (c ≠ ';') = true := by
      intro c member
      rw [decide_eq_true_eq]
      rintro rfl
      exact free member
    rw [List.dropWhile_append_of_pos other, List.dropWhile_cons_of_neg (by simp)]
    rfl
  -- A declaration is read up to its semicolon, and the line has to be blank behind that one.
  constructor
  · intro tidy before head rest whole start free found
    have blank := tidy before _ whole start (declaration?_isSome.mp found)
    rwa [tail free] at blank
  · intro tidy before line whole start found
    have found := declaration?_isSome.mpr found
    obtain ⟨after, found'⟩ := Option.isSome_iff_exists.mp found
    obtain ⟨head, rest, rfl, free, _⟩ := statement_declaration?.ends found'
    rw [tail free]
    exact tidy before head rest whole start free found

/-- Nothing is declared where parameters open before the next semicolon. -/
theorem declaration?_parameters {front : Text} (free : ';' ∉ front) (rest : Text) :
    declaration? (front ++ '(' :: rest) = none := by
  by_contra found
  obtain ⟨after, found⟩ := Option.ne_none_iff_exists'.mp found
  obtain ⟨head, rest', split, _, plain⟩ := statement_declaration?.ends found
  obtain ⟨z, rfl, tail⟩ := Text.exists_of_append_eq free split
  cases z with
  | nil => exact absurd (List.cons.inj tail).1 (by decide)
  | cons c z =>
    obtain ⟨rfl, _⟩ := List.cons.inj tail
    simp at plain

/-- Where the rest of a line is blank, the line ends before the next word. -/
theorem break_mem_of_blank {front word rest : Text} (inhabited : word ≠ [])
    (letters : ∀ c ∈ word, Text.isWordChar c = true)
    (blank : ∀ c ∈ (front ++ (word ++ rest)).takeWhile (· ≠ '\n'), Text.isBlank c = true) :
    '\n' ∈ front := by
  -- A word on the line behind the semicolon would not be blank.
  by_contra none
  obtain ⟨c, more, rfl⟩ := List.exists_cons_of_ne_nil inhabited
  have letter := letters c List.mem_cons_self
  have other : ∀ d ∈ front, decide (d ≠ '\n') = true := by
    intro d member
    rw [decide_eq_true_eq]
    rintro rfl
    exact none member
  have here : c ≠ '\n' := by
    rintro rfl
    exact absurd letter (by decide)
  have member : c ∈ (front ++ (c :: more ++ rest)).takeWhile (· ≠ '\n') := by
    rw [List.takeWhile_append_of_pos other, List.cons_append,
      List.takeWhile_cons_of_pos (by simpa using here)]
    simp
  have := Text.isWordChar_of_isBlank (blank c member)
  rw [letter] at this
  cases this

/-- Another word before the parameters of a signature leaves a text tidy. -/
theorem Tidy.replace {left word word' between right : Text}
    (inhabited : word ≠ []) (letters : ∀ c ∈ word, Text.isWordChar c = true)
    (inhabited' : word' ≠ []) (letters' : ∀ c ∈ word', Text.isWordChar c = true)
    (free : ';' ∉ between) (tidy : Tidy (left ++ (word ++ (between ++ '(' :: right)))) :
    Tidy (left ++ (word' ++ (between ++ '(' :: right))) := by
  have marks : Text.isWordChar ';' = false ∧ Text.isWordChar '\n' = false := by decide
  have free' : ';' ∉ word' := fun member => by cases marks.1.symm.trans (letters' _ member)
  rw [tidy_iff] at tidy ⊢
  intro before head rest whole start single found
  have notBefore {x : Text} (free : ';' ∉ x)
      (same : head ++ ';' :: rest = x ++ '(' :: right) : False := by
    rw [same, declaration?_parameters free] at found
    cases found
  rcases List.append_eq_append_iff.mp whole with ⟨z, split, tail⟩ | ⟨z, rfl, tail⟩
  · -- The line starts before the word.
    by_cases inside : ';' ∈ z
    swap
    · refine (notBefore (x := z ++ word' ++ between) ?_ (by simpa using tail)).elim
      simp only [List.mem_append]
      tauto
    obtain ⟨y, rfl, rfl⟩ : ∃ y, z = head ++ ';' :: y ∧
        rest = y ++ (word' ++ (between ++ '(' :: right)) := by
      rcases List.append_eq_append_iff.mp tail with ⟨y, rfl, same⟩ | ⟨y, rfl, same⟩
      · cases y with
        | nil => exact absurd (by simpa using inside) single
        | cons c y =>
          obtain ⟨rfl, rfl⟩ := List.cons.inj same
          exact ⟨y, rfl, rfl⟩
      · exact absurd (List.mem_append_left _ inside) single
    have found' : (declaration? (head ++ ';' :: (y ++ (word ++ (between ++ '(' :: right))))).isSome := by
      rcases statement_declaration?.append single with none | every
      · rw [none] at found
        cases found
      · rw [every]
        rfl
    have blank := tidy before head _ (by simp [split]) start single found'
    obtain ⟨first, second, rfl, _⟩ :=
      List.eq_append_cons_of_mem (break_mem_of_blank inhabited letters blank)
    rw [List.append_assoc, List.cons_append, Text.takeWhile_append_cons (by simp)] at blank ⊢
    exact blank
  · -- The line starts within the word or behind it.
    rcases List.append_eq_append_iff.mp tail with ⟨y, rfl, back⟩ | ⟨y, rfl, back⟩
    · refine tidy (left ++ (word ++ y)) head rest (by simp [back]) ?_ single found
      rcases List.eq_nil_or_concat y with rfl | ⟨y, c, rfl⟩
      · exfalso
        rcases start with none | ends
        · simp [inhabited'] at none
        · rw [List.append_nil, List.getLast?_append_of_ne_nil _ inhabited'] at ends
          cases marks.2.symm.trans (letters' _ (List.mem_of_getLast? ends))
      · rcases start with none | ends
        · simp at none
        · refine .inr ?_
          simpa [← List.append_assoc] using ends
    · refine (notBefore (x := y ++ between) ?_ (by simpa using back)).elim
      simp only [List.mem_append] at free' ⊢
      tauto

variable {mapping : TypeMapping}

/-- Rewriting leaves a text tidy. -/
theorem Tidy.rewriteSignatures (inhabited : mapping.apiName ≠ [])
    (letters : ∀ c ∈ mapping.apiName, Text.isWordChar c = true) {front t : Text}
    (tidy : Tidy (front ++ t)) : Tidy (front ++ rewriteSignatures mapping t) := by
  unfold Java.rewriteSignatures
  -- Piece by piece, with what was rewritten so far kept in front.
  fun_induction pieces t generalizing front with
  | case1 => exact tidy
  | case2 c rest s after found _ ih =>
    obtain ⟨f, rfl, whole⟩ := splitSignature_eq_some.mp found
    have rewritten : Tidy ((front ++ (f.signature.rewrite mapping).spelling) ++ after) := by
      rw [← whole] at tidy
      unfold Signature.rewrite
      split
      · have parts (type : Text) : front ++ ({ f.signature with returnType := type }).spelling ++
            after = (front ++ f.signature.start) ++ (type ++ ((f.name.spelling ++ f.gap) ++ '(' ::
              (f.parameters ++ f.close ++ after))) := by
          simp [Signature.spelling, Form.signature, Form.close]
        have word := f.parted f.type (by simp)
        have free : ';' ∉ f.name.spelling ++ f.gap := fun member =>
          (f.open_not_mem_head ';' (by
            simp only [Form.head, Form.words, List.flatMap_append, List.mem_append,
              List.flatMap_cons] at member ⊢
            tauto)).2.2 rfl
        rw [parts]
        refine Tidy.replace word.word.1 word.word.2 inhabited letters free ?_
        rw [← parts, List.append_assoc]
        exact tidy
      · simpa using tidy
    have later := ih rewritten
    simpa [Piece.rewrite, Piece.spelling] using later
  | case3 c rest none ih =>
    have later := @ih (front ++ [c]) (by simpa using tidy)
    simpa [Piece.rewrite, Piece.spelling] using later

/-! ### New imports -/

theorem splitSignature_start {t : Text} (some : (splitSignature t).isSome) :
    ∃ more, t = 'p' :: 'u' :: more ∨ t = 'p' :: 'r' :: more := by
  obtain ⟨⟨s, rest⟩, found⟩ := Option.isSome_iff_exists.mp some
  obtain ⟨f, rfl, rfl⟩ := splitSignature_eq_some.mp found
  obtain ⟨more, start⟩ := f.start_cases
  refine ⟨more ++ f.words.flatMap (·.spelling) ++ f.gap ++ '(' :: f.parameters ++ f.close ++ rest,
    start.imp (fun same => ?_) fun same => ?_⟩ <;> simp [f.spelling_eq, Form.head, same]

/-- A blank is in a signature before any semicolon. -/
theorem splitSignature_of_unspaced {front : Text} (whole : ∀ c ∈ front, Text.isBlank c = false)
    (rest : Text) : splitSignature (front ++ ';' :: rest) = none := by
  by_contra found
  obtain ⟨⟨s, after⟩, found⟩ := Option.ne_none_iff_exists'.mp found
  obtain ⟨f, rfl, same⟩ := splitSignature_eq_some.mp found
  have plain : ';' ∉ f.visibility := fun member =>
    (f.open_not_mem_head ';' (by simp [Form.head, member])).2.2 rfl
  -- A signature has a blank behind its visibility, and there is none before the semicolon.
  obtain ⟨c, space, blank, tail⟩ : ∃ c more, Text.isBlank c = true ∧
      f.signature.spelling ++ after = f.visibility ++ c :: more := by
    obtain ⟨w, words, listed⟩ := List.exists_cons_of_ne_nil (l := f.words) (by simp [Form.words])
    have parted := f.parted w (show w ∈ f.words by simp [listed])
    obtain ⟨c, space, spaced⟩ := List.exists_cons_of_ne_nil parted.space.1
    refine ⟨c, space ++ w.word ++ words.flatMap (·.spelling) ++ f.gap ++ '(' :: f.parameters ++
      f.close ++ after, parted.space.2 c (by simp [spaced]), ?_⟩
    simp [f.spelling_eq, Form.head, listed, SpacedWord.spelling, spaced]
  obtain ⟨z, rfl, split⟩ := Text.exists_of_append_eq plain (tail.symm.trans same)
  cases z with
  | nil =>
    obtain ⟨rfl, _⟩ := List.cons.inj split
    cases isBlank_marks.1.symm.trans blank
  | cons d z =>
    obtain ⟨rfl, _⟩ := List.cons.inj split
    cases (whole c (by simp)).symm.trans blank

theorem Inert.append {line more : Text} (first : Inert line) (second : Inert more) :
    Inert (line ++ more) := by
  refine ⟨List.not_mem_append first.1 second.1, fun early late split some rest => ?_⟩
  rcases List.append_eq_append_iff.mp split with ⟨z, rfl, tail⟩ | ⟨z, head, rfl⟩
  · exact second.2 z late tail some rest
  · by_cases none : z = []
    · subst none
      exact second.2 [] more rfl some rest
    · rw [List.append_assoc]
      exact first.2 early z head none _

/-- No signature begins with a blank. -/
theorem inert_of_blank {space : Text} (blank : ∀ c ∈ space, Text.isBlank c = true) : Inert space := by
  have marks : Text.isBlank ')' = false ∧ Text.isBlank 'p' = false := by decide
  refine ⟨fun member => absurd (blank _ member) (by simp [marks]), fun early late split some rest => ?_⟩
  by_contra found
  obtain ⟨c, more, rfl⟩ := List.exists_cons_of_ne_nil some
  obtain ⟨_, start⟩ := splitSignature_start (Option.isSome_iff_ne_none.mpr found)
  have first : c = 'p' := by rcases start with start | start <;> exact (List.cons.inj start).1
  cases marks.2.symm.trans (blank 'p' (by simp [split, first]))

/-- No signature begins in an import. -/
theorem inert_importStatement {type : Text} (plain : ∀ c ∈ type, isQualifiedPart c = true) :
    Inert (importStatement type) := by
  have keyword : Inert "import " := by
    refine ⟨by decide, fun early late split some rest => ?_⟩
    by_contra found
    obtain ⟨more, start⟩ := splitSignature_start (Option.isSome_iff_ne_none.mpr found)
    have part : late ∈ ("import ".toList).tails := (List.mem_tails _ _).mpr ⟨early, split.symm⟩
    have tails : "import ".toList.tails =
        ["import ".toList, "mport ".toList, "port ".toList, "ort ".toList, "rt ".toList, "t ".toList,
          " ".toList, []] := by decide
    -- The keyword is checked letter by letter: no signature starts at any of them.
    rw [tails] at part
    simp only [List.mem_cons, List.not_mem_nil, or_false] at part
    rcases part with rfl | rfl | rfl | rfl | rfl | rfl | rfl | rfl
    all_goals first
      | exact some rfl
      | simp at start
  have name : Inert (type ++ [';']) := by
    have blank : ∀ c, isQualifiedPart c = true → Text.isBlank c = false := by
      intro c part
      by_contra blank
      have word := Text.isWordChar_of_isBlank (Bool.not_eq_false _ ▸ blank)
      simp only [isQualifiedPart, word, Bool.false_or, decide_eq_true_eq] at part
      subst part
      exact blank (by decide)
    refine ⟨fun member => ?_, fun early late split some rest => ?_⟩
    · rcases List.mem_append.mp member with inside | last
      · exact absurd (plain _ inside) (by decide)
      · simp at last
    · rcases List.eq_nil_or_concat late with rfl | ⟨name, c, rfl⟩
      · exact absurd rfl some
      · rw [List.concat_eq_append, ← List.append_assoc] at split
        obtain ⟨rfl, last⟩ := List.append_inj' split rfl
        obtain rfl := List.singleton_inj.mp last
        rw [List.concat_eq_append, List.append_assoc, List.singleton_append]
        exact splitSignature_of_unspaced (fun c member => blank c (plain c (by simp [member]))) rest
  have whole : importStatement type = "import ".toList ++ (type ++ [';']) := List.append_assoc ..
  exact whole ▸ keyword.append name

/-- A declaration found at the start of a line of a tidy text ends at a severed place. -/
theorem Tidy.severed {read : Text → Option Text} (statement : Statement read)
    {source before line after : Text} (tidy : Tidy source) (whole : before ++ line = source)
    (start : Text.LineStart before) (found : read line = some after)
    (declared : (packageLine? line).isSome ∨ (afterImportLine? line).isSome) :
    Severed (partBefore source after) ∧ partBefore source after ++ after = source := by
  obtain ⟨head, rest, rfl, free, _⟩ := statement.ends found
  have blank := tidy_iff.mp tidy before head rest whole start free (declaration?_isSome.mpr declared)
  obtain rfl : afterLine rest = after := by
    rcases statement.append free with none | every
    · cases (none rest).symm.trans found
    · exact Option.some.inj ((every rest).symm.trans found)
  have part : afterLine rest <:+ source := by
    refine whole ▸ List.IsSuffix.trans ?_ (List.suffix_append before _)
    exact (List.tail_suffix _).trans ((List.dropWhile_suffix _).trans
      ((List.suffix_cons ..).trans (List.suffix_append ..)))
  have parts := partBefore_append part
  refine ⟨?_, parts⟩
  -- Behind the statement comes the rest of its line, with the break if there is one.
  obtain ⟨line, split, blank'⟩ : ∃ line, rest.dropWhile (· ≠ '\n') = line ++ afterLine rest ∧
      ∀ c ∈ line, Text.isBlank c = true := by
    unfold afterLine
    cases dropped : rest.dropWhile (· ≠ '\n') with
    | nil => exact ⟨[], rfl, nofun⟩
    | cons c more =>
      refine ⟨[c], rfl, fun d member => ?_⟩
      have here := List.head?_dropWhile_not (· ≠ '\n') rest
      rw [dropped] at here
      have same : c = '\n' := by simpa using here
      rw [List.mem_singleton.mp member, same]
      decide
  have whole' : partBefore source (afterLine rest) =
      (before ++ head ++ [';']) ++ (rest.takeWhile (· ≠ '\n') ++ line) := by
    refine List.append_cancel_right (parts.trans ?_)
    conv_lhs => rw [← whole, ← List.takeWhile_append_dropWhile (p := (· ≠ '\n')) (l := rest), split]
    simp
  refine ⟨_, _, whole', fun c member => ?_, .inr (by simp)⟩
  exact (List.mem_append.mp member).elim (blank c) (blank' c)

theorem inert_break : Inert ['\n'] := by
  refine inert_of_blank fun c member => ?_
  rw [List.mem_singleton.mp member]
  decide

theorem returnTypes_insertLine {front line : Text} (severed : Severed front) (inert : Inert line)
    (back : Text) : returnTypes (insertLine front line back) = returnTypes (front ++ back) := by
  unfold insertLine
  split
  · have wider := returnTypes_insert severed (inert.append inert_break) back
    simpa using wider
  · have wider := returnTypes_insert severed (inert_break.append (inert.append inert_break)) back
    simpa using wider

/-- A new import changes no return types. -/
theorem returnTypes_addImport {type source : Text} (plain : ∀ c ∈ type, isQualifiedPart c = true)
    (tidy : Tidy source) : returnTypes (addImport type source) = returnTypes source := by
  have statement := inert_importStatement plain
  have new := newImport_addImport type source
  generalize addImport type source = text at new ⊢
  cases new with
  | @belowImports before line after start split found =>
    obtain ⟨severed, parts⟩ := tidy.severed statement_afterImportLine? split.symm start found
      (.inr (by simp [found]))
    rw [returnTypes_insertLine severed statement, parts]
  | @belowPackage before line name after start split found =>
    obtain ⟨severed, parts⟩ := tidy.severed statement_packageLine? split.symm start
      (congrArg (Option.map (·.2)) found) (.inl (by simp [found]))
    have wider := returnTypes_insertLine severed (inert_break.append statement) after
    rwa [parts] at wider
  | above =>
    have top : Severed [] := ⟨[], [], rfl, nofun, .inl rfl⟩
    have wider := returnTypes_insert top (statement.append (inert_break.append inert_break)) source
    simpa using wider

/-! ### Nothing is left to rewrite -/

/-- A text in which no signature returns the core class stays as it is. -/
theorem rewriteSignatures_of_not_mem {source : Text}
    (none : mapping.coreName ∉ returnTypes source) : rewriteSignatures mapping source = source := by
  refine rewriteSignatures_of_forall fun s member => if_neg fun same => none ?_
  exact List.mem_filterMap.mpr ⟨_, member, congrArg some same⟩

/-- No signature returns the core class after rewriting. -/
theorem not_mem_returnTypes_rewriteSignatures (inhabited : mapping.apiName ≠ [])
    (letters : ∀ c ∈ mapping.apiName, Text.isWordChar c = true)
    (other : mapping.apiName ≠ mapping.coreName) (source : Text) :
    mapping.coreName ∉ returnTypes (rewriteSignatures mapping source) := by
  intro member
  rw [returnTypes, pieces_rewriteSignatures inhabited letters] at member
  obtain ⟨piece, listed, returned⟩ := List.mem_filterMap.mp member
  obtain ⟨piece, _, rfl⟩ := List.mem_map.mp listed
  cases piece with
  | char c => cases returned
  | signature s =>
    have returned : (s.rewrite mapping).returnType = mapping.coreName := Option.some.inj returned
    unfold Signature.rewrite at returned
    split at returned
    next => exact other returned
    next kept => exact kept returned

/-- After a tidy text was rewritten and its imports followed, there is nothing left to rewrite. -/
theorem rewriteSignatures_reconcileImports {source : Text}
    (plain : ∀ c ∈ mapping.api, isQualifiedPart c = true) (inhabited : mapping.apiName ≠ [])
    (letters : ∀ c ∈ mapping.apiName, Text.isWordChar c = true) (tidy : Tidy source)
    (changed : rewriteSignatures mapping source ≠ source) :
    rewriteSignatures mapping (reconcileImports mapping (rewriteSignatures mapping source)).text =
      (reconcileImports mapping (rewriteSignatures mapping source)).text := by
  have other : mapping.apiName ≠ mapping.coreName := by
    intro same
    refine changed (rewriteSignatures_of_forall fun s _ => ?_)
    unfold Signature.rewrite
    split
    next returned => rw [same, ← returned]
    next => rfl
  have tidy' : Tidy (rewriteSignatures mapping source) :=
    Tidy.rewriteSignatures inhabited letters (show Tidy ([] ++ source) from tidy)
  have none := not_mem_returnTypes_rewriteSignatures inhabited letters other source
  rcases reconcileImports_cases mapping (rewriteSignatures mapping source) with same | ⟨absent, _⟩
  · refine rewriteSignatures_of_not_mem ?_
    rw [same, withImport]
    split
    · rwa [returnTypes_addImport plain tidy']
    · exact none
  · -- The core class is not mentioned any more.
    by_contra more
    rw [occursAsWord_of_rewriteSignatures more] at absent
    cases absent

end Java

end Layering
