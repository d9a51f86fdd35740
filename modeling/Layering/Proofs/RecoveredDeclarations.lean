import Layering.Proofs.MemberReading

/-!
# Recovered declarations

Reading the tokens of a declaration leaves the braces that were open as they were, and adds what the
declaration declares: a method to the type that it stands in, a type to the outline. So the outline of
a source of the grammar is what the source declares.
-/

namespace Layering.Java

variable {contract : FixerContract} {stack : List Frame} {header rest : List Token} {o : Outline}
  {p : Bool} {t : Token}

/-! ### Types -/

/-- The keyword of a type is recognized, unless a point stands before it. -/
theorem declaredKind?_word {kind : TypeKind} (other : kind ≠ .annotationType)
    (word : t.isWord kind.name = true) {name : Token} (named : name.isName = true)
    (record : kind = .record → rest.head?.any (·.isOpening) = true) :
    declaredKind? false (t :: name :: rest) = some kind := by
  have unsigned : t.isSymbol "@" = false :=
    Token.isSymbol_of_isIdentifier (Token.isIdentifier_of_isWord word) _
  have class_ (different : kind.name ≠ "class") := Token.isWord_other word different
  have interface (different : kind.name ≠ "interface") := Token.isWord_other word different
  have enum (different : kind.name ≠ "enum") := Token.isWord_other word different
  rw [declaredKind?]
  simp only [unsigned, Token.isIdentifier_of_isName named, Bool.false_and, Bool.false_eq_true,
    if_false, Bool.not_true, Bool.or_self]
  cases kind with
  | annotationType => exact absurd rfl other
  | «class» => rw [show t.isWord "class" = true from word, if_pos rfl]
  | interface =>
    rw [class_ (by decide), show t.isWord "interface" = true from word]
    rfl
  | enum =>
    rw [class_ (by decide), interface (by decide), show t.isWord "enum" = true from word]
    rfl
  | record =>
    rw [class_ (by decide), interface (by decide), enum (by decide),
      show t.isWord "record" = true from word, record rfl]
    rfl

/-- Opening a type puts it on the stack. -/
theorem reaches_typeHeader {tokens : List Token} {type : TypeDeclaration}
    (declared : TypeHeader contract tokens type) {opening : Token}
    (opens : opening.isSymbol "\x7b" = true) :
    Reaches contract ⟨stack, header, o, false⟩ (tokens ++ opening :: rest)
      ⟨.type type (type.kind = .enum) :: stack, [], o, false⟩ rest := by
  obtain @⟨keyword, own, components, clauses, name, kind, line, entries, starts, named, generic,
    record, other, listed⟩ := declared
  have parts : Optional (Enclosed "(" ")" (Nested Token.isOpening Token.isClosing)) components := by
    by_cases same : kind = .record
    · exact .inr (record same)
    · exact .inl (other same)
  obtain ⟨outside, split, read⟩ := splitBody_header generic parts listed opens rest
  -- Behind the name of a record a bracket opens: that of its type parameters or its components.
  have first : kind = .record →
      (own ++ components ++ clauses ++ opening :: rest).head?.any (·.isOpening) = true := by
    intro same
    rcases generic with rfl | @⟨_, _, _, open_, _, _⟩
    · obtain @⟨_, _, _, open_, _, _⟩ := record same
      exact Bool.or_eq_true_iff.mpr (.inr open_)
    · exact Bool.or_eq_true_iff.mpr (.inl open_)
  have opened (t : Token) : Reading.openType contract kind t
      (name :: (own ++ components ++ clauses ++ opening :: rest)) ⟨stack, header, o, false⟩ =
      .ok (⟨.type {
        name := name.text
        kind
        line := t.position.line
        bases := namesOf "extends" entries
        interfaces := namesOf "implements" entries
        role := contract.role kind (namesOf "extends" entries) (namesOf "implements" entries) }
        (kind = .enum) :: stack, [], o, false⟩, rest) := by
    simp only [Reading.openType, List.tail_cons, split, read]
    rfl
  have whole : keyword ++ name :: (own ++ components ++ clauses) ++ opening :: rest =
      keyword ++ name :: (own ++ components ++ clauses ++ opening :: rest) := by simp
  rw [whole]
  cases starts with
  | @word t kind other word =>
    rw [List.singleton_append]
    apply Reaches.of_step
    rw [← opened t]
    unfold Reading.step
    rw [declaredKind?_word other word named first]
    cases kind with
    | annotationType => exact absurd rfl other
    | _ => rfl
  | @atInterface sign t signed word =>
    rw [List.cons_append, List.singleton_append]
    apply Reaches.of_step
    rw [← opened sign]
    unfold Reading.step
    rw [declaredKind?, signed, word]
    rfl

/-- Behind the constants of an enumeration its members start. -/
theorem reaches_constants {kind : TypeKind} {constants : List Token}
    (listed : Constants kind constants) {declared : TypeDeclaration} :
    Reaches contract ⟨.type declared (kind = .enum) :: stack, [], o, false⟩ (constants ++ rest)
      ⟨.type declared false :: stack, [], o, false⟩ rest := by
  cases listed with
  | none other =>
    rw [decide_eq_false other]
    exact .start
  | @enum tokens headers semicolon listed ends =>
    have inConstants : decide (TypeKind.enum = .enum) = true := rfl
    obtain ⟨q, header, _, reaches⟩ := reaches_pieces contract rest o false listed (.inl inConstants)
      (Token.ends_header ends (by decide))
    rw [List.append_assoc, List.singleton_append]
    exact reaches.trans (reaches_semicolon ends .type rfl)

/-- A brace closes a type. -/
theorem reaches_closeType {declared : TypeDeclaration} {inConstants : Bool} {closing : Token}
    (closes : closing.isSymbol "\x7d" = true) :
    Reaches contract ⟨.type declared inConstants :: stack, header, o, p⟩ (closing :: rest)
      ⟨stack, [], { o with types := o.types ++ [declared] }, false⟩ rest := by
  have unended : closing.isSymbol ";" = false := Token.isSymbol_other closes (by decide)
  have unopened : closing.isSymbol "\x7b" = false := Token.isSymbol_other closes (by decide)
  have closed : Reading.member closing ⟨.type declared inConstants :: stack, header, o, p⟩ =
      .ok ⟨stack, [], { o with types := o.types ++ [declared] }, p⟩ := by
    simp only [Reading.member, unended, unopened, closes, Bool.false_eq_true, if_false, if_true]
    rfl
  exact reaches_symbol closes (by decide) (by decide) .type closed

/-! ### Declarations -/

/-- The methods are added to the type on top of the stack. -/
def addMethods (methods : List Method) (stack : List Frame) : List Frame :=
  methods.foldl (fun stack m => addMethod m stack) stack

theorem addMethods_type (methods : List Method) (declared : TypeDeclaration) (inConstants : Bool)
    (stack : List Frame) :
    addMethods methods (.type declared inConstants :: stack) =
      .type { declared with methods := declared.methods ++ methods } inConstants :: stack := by
  induction methods generalizing declared with
  | nil => rw [List.append_nil]; rfl
  | cons m methods ih =>
    refine (ih { declared with methods := declared.methods ++ [m] }).trans ?_
    rw [List.append_assoc, List.singleton_append]

/-- The stack is that among the members of a type, or outside every type. -/
inductive Place : Bool → List Frame → Prop
  | inside {declared : TypeDeclaration} {below : List Frame} :
      Place true (.type declared false :: below)
  | outside : Place false []

theorem Place.members {inType : Bool} (place : Place inType stack) : AtMembers stack := by
  cases place <;> rfl

theorem Place.past {inType : Bool} (place : Place inType stack) (declared : TypeDeclaration)
    (below : List Frame) : stack ≠ .type declared true :: below := by
  cases place <;> exact nofun

theorem Place.addMethod {inType : Bool} (place : Place inType stack) (m : Method) :
    Place inType (addMethod m stack) := by
  cases place with
  | inside => exact .inside
  | outside => exact .outside

theorem Token.outside_of_isTypeModifier (modifier : t.isTypeModifier = true) :
    t.isOneOf ["package", "import"] = false ∧ t.isSymbol "." = false := by
  rcases Bool.or_eq_true_iff.mp modifier with modifier | hyphen
  · rcases Bool.or_eq_true_iff.mp modifier with modifier | word
    · exact ⟨isOneOf_other modifier (by decide),
        isSymbol_of_isIdentifier (isIdentifier_of_isOneOf modifier) _⟩
    · rw [isOneOf_of_isWord word]
      exact ⟨by decide, isSymbol_of_isIdentifier (isIdentifier_of_isWord word) _⟩
  · exact ⟨isOneOf_of_isSymbol hyphen _, isSymbol_other hyphen (by decide)⟩

theorem TypeHeader.exists_cons {tokens : List Token} {type : TypeDeclaration}
    (declared : TypeHeader contract tokens type) :
    ∃ t rest, tokens = t :: rest ∧ t.isSymbol "(" = false ∧ t.isSymbol "." = false := by
  obtain ⟨starts, _, _, _, _, _⟩ := declared
  cases starts with
  | @word t _ _ word =>
    have symbol := Token.isSymbol_of_isIdentifier (Token.isIdentifier_of_isWord word)
    exact ⟨t, _, rfl, symbol _, symbol _⟩
  | @atInterface sign _ signed _ =>
    exact ⟨sign, _, rfl, Token.isSymbol_other signed (by decide),
      Token.isSymbol_other signed (by decide)⟩

/-- The front of a type puts it on the stack. -/
theorem TypeStart.reaches {tokens : List Token} {type : TypeDeclaration}
    (started : TypeStart contract tokens type) (members : AtMembers stack) :
    Reaches contract ⟨stack, [], o, false⟩ (tokens ++ rest)
      ⟨.type type (type.kind = .enum) :: stack, [], o, false⟩ rest := by
  obtain @⟨marks, modifiers, header, opening, type, marked, modified, declared, opens⟩ := started
  obtain ⟨first, later, rfl, ends⟩ := declared.exists_cons
  obtain ⟨q, point, reaches⟩ := reaches_annotated contract [] (later ++ opening :: rest) o false
    marked members (fun _ t member => (Token.outside_of_isTypeModifier (modified t member)).1) ends
  -- No point stands before the keyword, which would make it part of an expression.
  obtain rfl : q = false := by
    by_contra pointed
    rcases point (by simpa using pointed) with start | ⟨t, member, symbol⟩
    · cases start
    · have other := (Token.outside_of_isTypeModifier (modified t member)).2
      exact Bool.noConfusion (symbol.symm.trans other)
  have read : marks ++ first :: later ++ [opening] ++ rest =
      marks ++ first :: (later ++ opening :: rest) := by simp
  rw [read]
  exact reaches.trans (reaches_typeHeader declared opens)

/-- Behind the front of a type its members start. -/
theorem TypeFront.reaches {tokens : List Token} {type : TypeDeclaration}
    (opened : TypeFront contract tokens type) (members : AtMembers stack) :
    Reaches contract ⟨stack, [], o, false⟩ (tokens ++ rest) ⟨.type type false :: stack, [], o, false⟩
      rest := by
  obtain ⟨started, listed⟩ := opened
  rw [List.append_assoc]
  exact (started.reaches members).trans (reaches_constants listed)

theorem TypeStart.methods_eq {tokens : List Token} {type : TypeDeclaration}
    (started : TypeStart contract tokens type) : type.methods = [] := by
  obtain ⟨_, _, declared, _⟩ := started
  cases declared
  rfl

theorem MethodHeader.returns_eq {m : Method} (declared : MethodHeader header m) :
    m.returns = [] := by
  cases declared
  rfl

variable (contract rest o) in
/-- A member header is read between members. -/
theorem reaches_header {tokens : List Token} (marked : Annotated tokens header)
    (place : Place true stack) (ends : t.isSymbol "(" = false ∧ t.isSymbol "." = false) :
    ∃ q, Reaches contract ⟨stack, [], o, false⟩ (tokens ++ t :: rest) ⟨stack, header, o, q⟩
      (t :: rest) := by
  have inside : stack ≠ [] := by
    rintro rfl
    cases place
  obtain ⟨q, _, reaches⟩ := reaches_annotated contract [] rest o false marked place.members
    (fun empty => absurd empty inside) ends
  exact ⟨q, reaches⟩

/-- The second method is read for the first one: only of a constructor with type parameters of its own
the return type can be another. -/
def Method.ReadAs (m m' : Method) : Prop :=
  ∃ type, m' = { m with returnType := type } ∧ (m.Typed → type = m.returnType)

/-- The second type is read for the first one. -/
def TypeDeclaration.ReadAs (type type' : TypeDeclaration) : Prop :=
  ∃ methods, type' = { type with methods } ∧ List.Forall₂ Method.ReadAs type.methods methods

/-- Reading the tokens adds the methods to the type around them and the types to the outline, as they
are read. -/
def Recovers (contract : FixerContract) (inType : Bool) (tokens : List Token) (methods : List Method)
    (types : List TypeDeclaration) : Prop :=
  ∃ methods' types', List.Forall₂ Method.ReadAs methods methods' ∧
    List.Forall₂ TypeDeclaration.ReadAs types types' ∧
    ∀ {stack : List Frame} {rest : List Token} {o : Outline}, Place inType stack →
      Reaches contract ⟨stack, [], o, false⟩ (tokens ++ rest)
        ⟨addMethods methods' stack, [], { o with types := o.types ++ types' }, false⟩ rest

namespace Recovers

variable {inType : Bool} {tokens more : List Token} {methods : List Method}
  {types : List TypeDeclaration}

theorem nil : Recovers contract inType [] [] [] := by
  refine ⟨[], [], .nil, .nil, fun _ => ?_⟩
  rw [List.append_nil]
  exact .start

/-- A member in front that is no method changes nothing. -/
theorem skip (recovers : Recovers contract inType more methods types)
    (reads : ∀ {stack : List Frame} {rest : List Token} {o : Outline}, Place inType stack →
      Reaches contract ⟨stack, [], o, false⟩ (tokens ++ rest) ⟨stack, [], o, false⟩ rest) :
    Recovers contract inType (tokens ++ more) methods types := by
  obtain ⟨methods', types', read, read', readsMore⟩ := recovers
  refine ⟨methods', types', read, read', fun place => ?_⟩
  rw [List.append_assoc]
  exact (reads place).trans (readsMore place)

/-- A method in front is the first one that is added. -/
theorem prependMethod {m m' : Method} (recovers : Recovers contract inType more methods types)
    (readAs : m.ReadAs m')
    (reads : ∀ {stack : List Frame} {rest : List Token} {o : Outline}, Place inType stack →
      Reaches contract ⟨stack, [], o, false⟩ (tokens ++ rest) ⟨addMethod m' stack, [], o, false⟩
        rest) :
    Recovers contract inType (tokens ++ more) (m :: methods) types := by
  obtain ⟨methods', types', read, read', readsMore⟩ := recovers
  refine ⟨m' :: methods', types', .cons readAs read, read', fun place => ?_⟩
  rw [List.append_assoc]
  exact (reads place).trans (readsMore (place.addMethod m'))

/-- Types in front are the first ones that are added. -/
theorem prependTypes {first first' : List TypeDeclaration}
    (recovers : Recovers contract inType more methods types)
    (readAs : List.Forall₂ TypeDeclaration.ReadAs first first')
    (reads : ∀ {stack : List Frame} {rest : List Token} {o : Outline}, Place inType stack →
      Reaches contract ⟨stack, [], o, false⟩ (tokens ++ rest)
        ⟨stack, [], { o with types := o.types ++ first' }, false⟩ rest) :
    Recovers contract inType (tokens ++ more) methods (first ++ types) := by
  obtain ⟨methods', types', read, read', readsMore⟩ := recovers
  refine ⟨methods', first' ++ types', read, List.rel_append readAs read',
    fun {stack rest o} place => ?_⟩
  rw [List.append_assoc, ← List.append_assoc o.types]
  exact (reads place).trans (readsMore place)

end Recovers

/-- A member that ends in a semicolon and is no method changes nothing. -/
theorem reaches_field {tokens : List Token} {semicolon : Token} (marked : Annotated tokens header)
    (methodless : methodHeader? header = none) (ends : semicolon.isSymbol ";" = true)
    (place : Place true stack) :
    Reaches contract ⟨stack, [], o, false⟩ (tokens ++ [semicolon] ++ rest) ⟨stack, [], o, false⟩
      rest := by
  obtain ⟨q, reaches⟩ := reaches_header contract rest o marked place
    (Token.ends_header ends (by decide))
  rw [List.append_assoc, List.singleton_append]
  exact reaches.trans (reaches_memberless ends place.members methodless place.past)

/-- A method without a body is added when its semicolon is read. -/
theorem reaches_abstract {tokens : List Token} {semicolon : Token} {m : Method}
    (marked : Annotated tokens header) (found : methodHeader? header = some m)
    (ends : semicolon.isSymbol ";" = true) (place : Place true stack) :
    Reaches contract ⟨stack, [], o, false⟩ (tokens ++ [semicolon] ++ rest)
      ⟨addMethod { m with hasBody := false } stack, [], o, false⟩ rest := by
  obtain ⟨q, reaches⟩ := reaches_header contract rest o marked place
    (Token.ends_header ends (by decide))
  rw [List.append_assoc, List.singleton_append]
  refine reaches.trans ?_
  cases place with
  | inside =>
    apply reaches_semicolon ends .type
    simp only [Reading.endMember, found]

/-- A header is read up to the body behind it. -/
theorem reaches_braced {tokens inner : List Token} {opening closing : Token} {s : Reading}
    (marked : Annotated tokens header) (opens : opening.isSymbol "\x7b" = true)
    (place : Place true stack)
    (reads : ∀ q, Reaches contract ⟨stack, header, o, q⟩ (opening :: (inner ++ closing :: rest)) s
      rest) :
    Reaches contract ⟨stack, [], o, false⟩ (tokens ++ opening :: (inner ++ [closing]) ++ rest) s
      rest := by
  obtain ⟨q, reaches⟩ := reaches_header contract (inner ++ closing :: rest) o marked place
    (Token.ends_header opens (by decide))
  have whole : tokens ++ opening :: (inner ++ [closing]) ++ rest =
      tokens ++ opening :: (inner ++ closing :: rest) := by simp
  rw [whole]
  exact reaches.trans (reads q)

/-- A type whose members are read is added behind the types declared in it. -/
theorem reaches_type {front inner : List Token} {closing : Token} {type : TypeDeclaration}
    {own : List Method} {nested : List TypeDeclaration} (opened : TypeFront contract front type)
    (closes : closing.isSymbol "\x7d" = true)
    (reads : ∀ {stack : List Frame} {rest : List Token} {o : Outline}, Place true stack →
      Reaches contract ⟨stack, [], o, false⟩ (inner ++ rest)
        ⟨addMethods own stack, [], { o with types := o.types ++ nested }, false⟩ rest)
    (members : AtMembers stack) :
    Reaches contract ⟨stack, [], o, false⟩ (front ++ inner ++ [closing] ++ rest)
      ⟨stack, [], { o with types := o.types ++ (nested ++ [{ type with methods := own }]) }, false⟩
      rest := by
  have whole : front ++ inner ++ [closing] ++ rest = front ++ (inner ++ closing :: rest) := by simp
  rw [whole, ← List.append_assoc o.types]
  refine .trans (opened.reaches members) (.trans (reads .inside) ?_)
  obtain ⟨started, _⟩ := opened
  rw [addMethods_type, started.methods_eq, List.nil_append]
  exact reaches_closeType closes

/-- An enumeration that ends with its constants is added as it started. -/
theorem reaches_enumeration {tokens constants : List Token} {headers : List (List Token)}
    {closing : Token} {type : TypeDeclaration} (started : TypeStart contract tokens type)
    (kind : type.kind = .enum) (listed : Pieces constants headers)
    (closes : closing.isSymbol "\x7d" = true) (members : AtMembers stack) :
    Reaches contract ⟨stack, [], o, false⟩ (tokens ++ constants ++ [closing] ++ rest)
      ⟨stack, [], { o with types := o.types ++ [type] }, false⟩ rest := by
  have inConstants : decide (type.kind = .enum) = true := decide_eq_true kind
  obtain ⟨q, last, _, reaches⟩ := reaches_pieces contract rest o false listed (.inl inConstants)
    (Token.ends_header closes (by decide))
  have whole : tokens ++ constants ++ [closing] ++ rest =
      tokens ++ (constants ++ closing :: rest) := by simp
  rw [whole]
  exact .trans (started.reaches members) (.trans reaches (reaches_closeType closes))

/-- Reading declarations adds what they declare to the type around them and to the outline. -/
theorem reaches_declarations {inType : Bool} {tokens : List Token} {methods : List Method}
    {types : List TypeDeclaration} (declared : Declarations contract inType tokens methods types) :
    Recovers contract inType tokens methods types := by
  -- The induction is on the declarations: what stands in front is read, and then the others are.
  induction declared with
  | nil => exact .nil
  | empty ends _ ih =>
    rw [← List.singleton_append]
    exact ih.skip fun place => reaches_memberless ends place.members rfl place.past
  | field marked declared ends _ ih =>
    rw [List.append_cons]
    exact ih.skip (reaches_field marked declared.methodHeader?_eq ends)
  | initialized marked declared assigned ends _ ih =>
    rw [List.append_cons]
    exact ih.skip (reaches_field marked (declared.methodHeader?_initialized assigned) ends)
  | abstract marked declared ends _ ih =>
    obtain ⟨type, found, typed⟩ := declared.exists_methodHeader?
    rw [List.append_cons]
    exact ih.prependMethod ⟨type, rfl, typed⟩ (reaches_abstract marked found ends)
  | @method tokens header inner more opening closing method returns _ _ marked declared opens body
      closes _ ih =>
    obtain ⟨type, found, typed⟩ := declared.exists_methodHeader?
    have readAs : Method.ReadAs { method with returns } { method with returnType := type, returns } :=
      ⟨type, rfl, typed⟩
    have same : returns = method.returns ++ returns := by
      rw [declared.returns_eq, List.nil_append]
    have whole : tokens ++ opening :: (inner ++ closing :: more) =
        tokens ++ opening :: (inner ++ [closing]) ++ more := by simp
    rw [whole]
    refine ih.prependMethod readAs fun place => reaches_braced marked opens place fun q => ?_
    cases place with
    | inside =>
      rw [same]
      exact reaches_method found opens body closes
  | @initializer tokens modifiers inner more opening closing _ _ _ marked modified opens body closes _
      ih =>
    have whole : tokens ++ opening :: (inner ++ closing :: more) =
        tokens ++ opening :: (inner ++ [closing]) ++ more := by simp
    rw [whole]
    refine ih.skip fun place => reaches_braced marked opens place fun q => ?_
    cases place with
    | inside => exact reaches_block (.inr (methodHeader?_modifiers modified)) opens body closes
  | @type inType front inner more closing type own _ nested types opened _ closes _ ihInner ihMore =>
    obtain ⟨own', nested', readOwn, readNested, reads⟩ := ihInner
    have readAs : List.Forall₂ TypeDeclaration.ReadAs (nested ++ [{ type with methods := own }])
        (nested' ++ [{ type with methods := own' }]) :=
      List.rel_append readNested (.cons ⟨own', rfl, readOwn⟩ .nil)
    rw [List.append_cons, List.append_cons nested]
    exact ihMore.prependTypes readAs fun place => reaches_type opened closes reads place.members
  | @enumeration inType tokens constants more headers closing type _ types started kind listed closes _
      ih =>
    have same : { type with methods := [] } = type := by
      rw [← started.methods_eq]
    have none : List.Forall₂ Method.ReadAs type.methods [] := by
      rw [started.methods_eq]
      exact .nil
    rw [List.append_cons]
    exact ih.prependTypes (.cons ⟨[], same.symm, none⟩ .nil)
      fun place => reaches_enumeration started kind listed closes place.members

/-! ### Sources -/

theorem QualifiedName.unended {name : List Token} (named : QualifiedName name) :
    ∀ t ∈ name, t.isSymbol ";" = false ∧ t.isWord "static" = false := by
  have word {t : Token} (named : t.isName = true) :
      t.isSymbol ";" = false ∧ t.isWord "static" = false :=
    ⟨Token.isSymbol_of_isIdentifier (Token.isIdentifier_of_isName named) _,
      Token.isWord_of_isName named (by decide)⟩
  induction named with
  | simple named => exact List.forall_mem_singleton.mpr (word named)
  | qualified named pointed _ ih =>
    have point := And.intro (Token.isSymbol_other pointed (b := ";") (by decide))
      (Token.isWord_of_isSymbol pointed "static")
    exact List.forall_mem_cons.mpr ⟨word named, List.forall_mem_cons.mpr ⟨point, ih⟩⟩

theorem ImportedName.unended {name : List Token} (named : ImportedName name) :
    ∀ t ∈ name, t.isSymbol ";" = false ∧ t.isWord "static" = false := by
  cases named with
  | single named => exact named.unended
  | all named pointed starred =>
    have point := And.intro (Token.isSymbol_other pointed (b := ";") (by decide))
      (Token.isWord_of_isSymbol pointed "static")
    have star := And.intro (Token.isSymbol_other starred (b := ";") (by decide))
      (Token.isWord_of_isSymbol starred "static")
    exact List.forall_mem_append.mpr ⟨named.unended,
      List.forall_mem_cons.mpr ⟨point, List.forall_mem_singleton.mpr star⟩⟩

/-- A declaration outside every type is read up to its semicolon. -/
theorem reaches_directive {keyword semicolon : Token} {word : Text} {static name : List Token}
    (same : keyword.isWord word = true) (known : word = "package" ∨ word = "import")
    (members : static = [] ∨ ∃ t, static = [t] ∧ t.isWord "static" = true)
    (unended : ∀ t ∈ name, t.isSymbol ";" = false ∧ t.isWord "static" = false)
    (ends : semicolon.isSymbol ";" = true) :
    Reaches contract ⟨[], [], o, p⟩ (keyword :: (static ++ name ++ semicolon :: rest))
      ⟨[], [], Reading.declare word (spelling name) o, false⟩ rest := by
  have identifier := Token.isIdentifier_of_isWord same
  have text : keyword.text = word := by
    unfold Token.isWord at same
    exact of_decide_eq_true (Bool.and_eq_true _ _ ▸ same).2
  have typeless : keyword.isOneOf typeWords = false := by
    rw [Token.isOneOf_of_isWord same]
    rcases known with rfl | rfl <;> decide
  have directive : keyword.isOneOf ["package", "import"] = true := by
    rw [Token.isOneOf_of_isWord same]
    rcases known with rfl | rfl <;> decide
  have kind : declaredKind? p (keyword :: (static ++ name ++ semicolon :: rest)) = none := by
    apply declaredKind?_of_typeless typeless
    exact fun sign =>
      Bool.noConfusion (sign.symm.trans (Token.isSymbol_of_isIdentifier identifier _))
  have parts : ∀ t ∈ static ++ name, (!t.isSymbol ";") = true := by
    intro t member
    rcases List.mem_append.mp member with here | here
    · rcases members with rfl | ⟨u, rfl, word⟩
      · cases here
      · obtain rfl := List.mem_singleton.mp here
        rw [Token.isSymbol_of_isIdentifier (Token.isIdentifier_of_isWord word)]
        rfl
    · rw [(unended t here).1]
      rfl
  -- The word for a static import is read over and is no part of the name.
  have kept : (static ++ name).filter (fun t => !t.isWord "static") = name := by
    have dropped : static.filter (fun t => !t.isWord "static") = [] := by
      rcases members with rfl | ⟨u, rfl, word⟩
      · rfl
      · rw [List.filter_singleton, word]
        rfl
    rw [List.filter_append, dropped, List.nil_append]
    exact List.filter_eq_self.mpr fun t member => by rw [(unended t member).2]; rfl
  apply Reaches.of_step
  unfold Reading.step
  simp only [kind, directive, decide_true, Bool.and_self, if_true]
  unfold Reading.directive
  simp only [List.takeWhile_append_of_pos parts, List.dropWhile_append_of_pos parts,
    List.takeWhile_cons, List.dropWhile_cons, ends, Bool.not_true, Bool.false_eq_true, if_false,
    List.append_nil, kept, text, reduceCtorEq, List.tail_cons]

theorem reaches_package {tokens : List Token} {package : Text}
    (packaged : PackageDeclaration tokens package) :
    Reaches contract ⟨[], [], {}, false⟩ (tokens ++ rest) ⟨[], [], { package }, false⟩ rest := by
  cases packaged with
  | none => exact .start
  | @declared marks name keyword semicolon marked word named ends =>
    have symbol := Token.isSymbol_of_isIdentifier (Token.isIdentifier_of_isWord word)
    obtain ⟨q, _, reaches⟩ := reaches_annotated contract [] ([] ++ name ++ semicolon :: rest) {} false
      marked (rfl : AtMembers []) (by simp) ⟨symbol _, symbol _⟩
    have read : marks ++ keyword :: (name ++ [semicolon]) ++ rest =
        marks ++ keyword :: ([] ++ name ++ semicolon :: rest) := by simp
    rw [read]
    exact reaches.trans (reaches_directive word (.inl rfl) (.inl rfl) named.unended ends)

theorem reaches_imports {tokens : List Token} {names : List Text} (imported : Imports tokens names) :
    Reaches contract ⟨[], [], o, false⟩ (tokens ++ rest)
      ⟨[], [], { o with imports := o.imports ++ names }, false⟩ rest := by
  induction imported generalizing o with
  | none =>
    rw [List.append_nil]
    exact .start
  | @more keyword semicolon static name later names word members named ends _ ih =>
    have read : keyword :: (static ++ name ++ semicolon :: later) ++ rest =
        keyword :: (static ++ name ++ semicolon :: (later ++ rest)) := by simp
    have order : o.imports ++ spelling name :: names = o.imports ++ [spelling name] ++ names := by
      simp
    rw [read, order]
    exact (reaches_directive word (.inr rfl) members named.unended ends).trans ih

theorem Annotated.of_plain {tokens : List Token} (plain : tokens.all Token.isPlain = true) :
    Annotated tokens tokens := by
  induction tokens with
  | nil => exact .nil
  | cons t tokens ih =>
    rw [List.all_cons, Bool.and_eq_true] at plain
    exact .token plain.1 (ih plain.2)

/-- The second outline is read for the first one. -/
def Outline.ReadAs (o o' : Outline) : Prop :=
  ∃ types, o' = { o with types } ∧ List.Forall₂ TypeDeclaration.ReadAs o.types types

theorem forall₂_eq {α : Type} {R : α → α → Prop} {x y : List α} (pairs : List.Forall₂ R x y)
    (same : ∀ a ∈ x, ∀ b, R a b → b = a) : y = x := by
  induction pairs with
  | nil => rfl
  | cons pair _ ih =>
    obtain ⟨first, others⟩ := List.forall_mem_cons.mp same
    rw [first _ pair, ih others]

theorem Outline.ReadAs.eq {o o' : Outline} (read : o.ReadAs o')
    (typed : ∀ type ∈ o.types, ∀ m ∈ type.methods, m.Typed) : o' = o := by
  obtain ⟨types, rfl, pairs⟩ := read
  have same : types = o.types := by
    refine forall₂_eq pairs fun type member type' read => ?_
    obtain ⟨methods, rfl, pairs⟩ := read
    have same : methods = type.methods := by
      refine forall₂_eq pairs fun m member' m' read => ?_
      obtain ⟨returnType, rfl, declared⟩ := read
      rw [declared (typed type member m member')]
    rw [same]
  rw [same]

/-- A source of the grammar is read, and its outline is what it declares, but for the return types of
constructors that have type parameters of their own. -/
theorem declarations_recovered {source : Text} {lexed : Tokenization}
    (tokens : tokenize source = .ok lexed) (unit : CompilationUnit contract lexed.tokens o) :
    ∃ o', outline contract source = .ok o' ∧ o.ReadAs o' ∧
      ((∀ type ∈ o.types, ∀ m ∈ type.methods, m.Typed) → o' = o) := by
  unfold outline
  rw [tokens]
  obtain ⟨ahead, stop⟩ := lexed
  cases unit with
  | @intro first second third package imports types packaged imported declared =>
    obtain ⟨_, types', ⟨⟩, read, reads⟩ := reaches_declarations declared
    have reaches : Reaches contract ⟨[], [], {}, false⟩ (first ++ (second ++ (third ++ [])))
        ⟨[], [], { package, imports, types := types' }, false⟩ [] :=
      .trans (reaches_package packaged) (.trans (reaches_imports imported) (reads .outside))
    rw [List.append_nil, ← List.append_assoc] at reaches
    have readAs : Outline.ReadAs { package, imports, types } { package, imports, types := types' } :=
      ⟨types', rfl, read⟩
    refine ⟨{ package, imports, types := types' }, ?_, readAs, readAs.eq⟩
    refine (readOutline_of_reaches reaches stop).trans ?_
    rw [readOutline, if_pos rfl]

namespace Sample

/-- A name or keyword on the first line. -/
def word (text : Text) (column : Nat) : Token := ⟨.identifier, text, ⟨1, column⟩⟩

/-- A symbol on the first line. -/
def symbol (text : Text) (column : Nat) : Token := ⟨.symbol, text, ⟨1, column⟩⟩

theorem isType {t : Token} (named : t.isName = true) :
    Optional (fun type => ∃ simple, IsType type simple) [t] :=
  .inr ⟨_, .name named⟩

theorem parameter {type name : Token} (typed : type.isName = true) (named : name.isName = true) :
    Parameter [type, name] :=
  @Parameter.intro [] [type] [] [] _ name nofun (.name typed) (.inl rfl) named .none

/-- A fixer with a constructor and a method that returns null. -/
def fixer : Text :=
  "class A implements Fixer\x7bA(int x)\x7b\x7d R fix(V v,C c)\x7breturn null;\x7d\x7d"

def fixerHeader : List Token := [word "class" 1, word "A" 7, word "implements" 9, word "Fixer" 20]

def constructorHeader : List Token :=
  [word "A" 26, symbol "(" 27, word "int" 28, word "x" 32, symbol ")" 33]

def methodHeader : List Token :=
  [word "R" 37, word "fix" 39, symbol "(" 42, word "V" 43, word "v" 45, symbol "," 46, word "C" 47,
   word "c" 49, symbol ")" 50]

def methodBody : List Token := [word "return" 52, word "null" 59, symbol ";" 63]

def fixerMembers : List Token :=
  constructorHeader ++ symbol "\x7b" 34 :: ([] ++ symbol "\x7d" 35 ::
    (methodHeader ++ symbol "\x7b" 51 :: (methodBody ++ symbol "\x7d" 64 :: [])))

def fixerTokens : List Token :=
  [] ++ fixerHeader ++ [symbol "\x7b" 25] ++ [] ++ fixerMembers ++ symbol "\x7d" 65 :: []

def fixerOutline : Outline where
  types := [{
    name := "A"
    kind := .«class»
    line := 1
    interfaces := ["Fixer"]
    methods := [
      { name := "A", arity := 1, line := 1 },
      { name := "fix", arity := 2, line := 1, returnType := "R", returns := [⟨1, true⟩] }]
    role := .implementsCapability }]

theorem tokenize_fixer : tokenize fixer = .ok ⟨fixerTokens, ⟨1, 66⟩⟩ := by
  decide +kernel

theorem declares_constructor :
    MethodHeader constructorHeader { name := "A", arity := 1, line := 1 } :=
  @MethodHeader.intro [] [] [] [word "int" 28, word "x" 32] [] (word "A" 26) (symbol "(" 27)
    (symbol ")" 33) 1 nofun (.inl rfl) (.inl rfl) rfl rfl (.last (parameter rfl rfl)) rfl

theorem declares_method :
    MethodHeader methodHeader { name := "fix", arity := 2, line := 1, returnType := "R" } :=
  @MethodHeader.intro [] [] [word "R" 37]
    ([word "V" 43, word "v" 45] ++ symbol "," 46 :: [word "C" 47, word "c" 49]) [] (word "fix" 39)
    (symbol "(" 42) (symbol ")" 50) 2 nofun (.inl rfl) (isType rfl) rfl rfl
    (.more (parameter rfl rfl) rfl (.last (parameter rfl rfl))) rfl

theorem body_method : Body methodBody [⟨1, true⟩] :=
  .leave rfl ⟨fun _ => ⟨[word "null" 59], symbol ";" 63, [], rfl, .null rfl, rfl⟩, fun _ => rfl⟩
    (.token rfl rfl rfl (.token rfl rfl rfl .nil))

theorem unit_fixer : CompilationUnit {} fixerTokens fixerOutline := by
  have clauses : Clauses [word "implements" 9, word "Fixer" 20] [("implements", "Fixer")] :=
    @Clauses.clause (word "implements" 9) [word "Fixer" 20] [] ["Fixer"] [] rfl
      (.last (@IsType.name (word "Fixer" 20) rfl)) .none
  have header : TypeHeader {} fixerHeader _ :=
    @TypeHeader.intro {} [word "class" 1] [] [] [word "implements" 9, word "Fixer" 20] (word "A" 7)
      .«class» 1 _ (.word (by decide) rfl) rfl (.inl rfl) nofun (fun _ => rfl) clauses
  have front : TypeFront {} ([] ++ fixerHeader ++ [symbol "\x7b" 25] ++ []) _ :=
    .intro (.intro .nil nofun header rfl) (.none (by decide))
  have members : Declarations {} true fixerMembers _ [] :=
    .method (.of_plain rfl) declares_constructor rfl .nil rfl
      (.method (.of_plain rfl) declares_method rfl body_method rfl .nil)
  exact @CompilationUnit.intro {} [] [] fixerTokens [] [] _ .none .none
    (.type front members rfl .nil)

theorem typed_fixer : ∀ type ∈ fixerOutline.types, ∀ m ∈ type.methods, m.Typed := by
  simp [fixerOutline, Method.Typed]

/-- A class with a constructor that has type parameters of its own. -/
def generic : Text := "class A\x7b<T>A(T x)\x7b\x7d\x7d"

def genericHeader : List Token :=
  [symbol "<" 9, word "T" 10, symbol ">" 11, word "A" 12, symbol "(" 13, word "T" 14, word "x" 16,
   symbol ")" 17]

def genericTokens : List Token :=
  [] ++ [word "class" 1, word "A" 7] ++ [symbol "\x7b" 8] ++ [] ++
    (genericHeader ++ symbol "\x7b" 18 :: ([] ++ symbol "\x7d" 19 :: [])) ++ symbol "\x7d" 20 :: []

def genericOutline : Outline where
  types := [{
    name := "A"
    kind := .«class»
    line := 1
    methods := [{ name := "A", arity := 1, line := 1, generic := true }] }]

theorem unit_generic : CompilationUnit {} genericTokens genericOutline := by
  have own : TypeArguments [symbol "<" 9, word "T" 10, symbol ">" 11] :=
    @Enclosed.intro "<" ">" _ (symbol "<" 9) (symbol ">" 11) [word "T" 10] rfl rfl
      ⟨.token rfl rfl .nil, List.forall_mem_singleton.mpr ⟨rfl, rfl⟩⟩
  have declared : MethodHeader genericHeader { name := "A", arity := 1, line := 1, generic := true } :=
    @MethodHeader.intro [] [symbol "<" 9, word "T" 10, symbol ">" 11] [] [word "T" 14, word "x" 16] []
      (word "A" 12) (symbol "(" 13) (symbol ")" 17) 1 nofun (.inr own) (.inl rfl) rfl rfl
      (.last (parameter rfl rfl)) rfl
  have header : TypeHeader {} [word "class" 1, word "A" 7] _ :=
    @TypeHeader.intro {} [word "class" 1] [] [] [] (word "A" 7) .«class» 1 [] (.word (by decide) rfl)
      rfl (.inl rfl) nofun (fun _ => rfl) .none
  have front : TypeFront {} ([] ++ [word "class" 1, word "A" 7] ++ [symbol "\x7b" 8] ++ []) _ :=
    .intro (.intro .nil nofun header rfl) (.none (by decide))
  exact @CompilationUnit.intro {} [] [] genericTokens [] [] _ .none .none
    (.type front (.method (.of_plain rfl) declared rfl .nil rfl .nil) rfl .nil)

end Sample

/-- The fixer is read as it is declared. -/
theorem recovered_fixer : outline {} Sample.fixer = .ok Sample.fixerOutline := by
  obtain ⟨o', read, _, same⟩ := declarations_recovered Sample.tokenize_fixer Sample.unit_fixer
  rw [read, same Sample.typed_fixer]

/-- Where a constructor has type parameters of its own, they are read as its return type. -/
theorem generic_constructor_mistaken :
    tokenize Sample.generic = .ok ⟨Sample.genericTokens, ⟨1, 21⟩⟩ ∧
      CompilationUnit {} Sample.genericTokens Sample.genericOutline ∧
      outline {} Sample.generic ≠ .ok Sample.genericOutline :=
  ⟨by decide +kernel, Sample.unit_generic, by decide +kernel⟩

end Layering.Java
