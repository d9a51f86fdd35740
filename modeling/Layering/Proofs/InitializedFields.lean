import Layering.Proofs.Printing
import Layering.Proofs.RecoveredDeclarations

/-!
# Initialized fields

The initializer of a field can hold bodies: those of lambdas and anonymous classes, and the elements of
arrays. What follows such a body is read as a header of its own. Where none of these headers is that of
a method, a source reads as if the field did not stand in it.
-/

namespace Layering.Java

variable {contract : FixerContract}

/-- A field with an initializer, and the headers behind the bodies in it. -/
inductive InitializedField : List Token → List (List Token) → Prop
  | intro {tokens header value : List Token} {headers : List (List Token)} {equals semicolon : Token}
      (pieces : Pieces tokens ((header ++ equals :: value) :: headers))
      (declared : FieldHeader header) (assigned : equals.isSymbol "=" = true)
      (ends : semicolon.isSymbol ";" = true) : InitializedField (tokens ++ [semicolon]) headers

/-- The front of a source up to a place among the members of a type. -/
inductive UpToMember (contract : FixerContract) : List Token → Prop
  | outer {first second third front members : List Token} {package : Text} {imports : List Text}
      {types nested : List TypeDeclaration} {type : TypeDeclaration} {methods : List Method}
      (packaged : PackageDeclaration first package) (imported : Imports second imports)
      (before : Declarations contract false third [] types) (opened : TypeFront contract front type)
      (declared : Declarations contract true members methods nested) :
      UpToMember contract (first ++ second ++ third ++ front ++ members)
  | nested {before front members : List Token} {types : List TypeDeclaration}
      {type : TypeDeclaration} {methods : List Method} (around : UpToMember contract before)
      (opened : TypeFront contract front type)
      (declared : Declarations contract true members methods types) :
      UpToMember contract (before ++ front ++ members)

/-- Among the members of a type no header is begun. -/
theorem UpToMember.reaches {before : List Token} (place : UpToMember contract before) :
    ∃ stack o, Place true stack ∧ ∀ rest,
      Reaches contract ⟨[], [], {}, false⟩ (before ++ rest) ⟨stack, [], o, false⟩ rest := by
  -- The members of a type put the methods to it.
  have members {front members : List Token} {methods : List Method} {type : TypeDeclaration}
      {types : List TypeDeclaration} {stack : List Frame} {o : Outline} (around : AtMembers stack)
      (opened : TypeFront contract front type)
      (declared : Declarations contract true members methods types) :
      ∃ stack' o', Place true stack' ∧ ∀ rest,
        Reaches contract ⟨stack, [], o, false⟩ (front ++ (members ++ rest)) ⟨stack', [], o', false⟩
          rest := by
    obtain ⟨methods', types', _, _, reads⟩ := reaches_declarations declared
    refine ⟨_, { o with types := o.types ++ types' }, ?_, fun rest =>
      .trans (opened.reaches around) (reads .inside)⟩
    rw [addMethods_type]
    exact .inside
  induction place with
  | @outer first second third front inner package imports _ _ _ _ packaged imported before opened
      declared =>
    obtain ⟨_, types', ⟨⟩, _, reads⟩ := reaches_declarations before
    obtain ⟨stack, o, place, reaches⟩ := @members _ _ _ _ _ []
      { package, imports, types := types' } rfl opened declared
    refine ⟨stack, o, place, fun rest => ?_⟩
    have whole : first ++ second ++ third ++ front ++ inner ++ rest =
        first ++ (second ++ (third ++ (front ++ (inner ++ rest)))) := by simp
    rw [whole]
    exact .trans (reaches_package packaged) (.trans (reaches_imports imported)
      (.trans (reads .outside) (reaches rest)))
  | @nested before front inner _ _ _ _ opened declared ih =>
    obtain ⟨stack, o, place, reaches⟩ := ih
    obtain ⟨stack', o', place', reaches'⟩ := members place.members opened declared
    refine ⟨stack', o', place', fun rest => ?_⟩
    have whole : before ++ front ++ inner ++ rest = before ++ (front ++ (inner ++ rest)) := by simp
    rw [whole]
    exact (reaches _).trans (reaches' rest)

/-- A field whose initializer holds no method header leaves a reading among members as it was. -/
theorem InitializedField.reaches {field rest : List Token} {headers : List (List Token)}
    {stack : List Frame} {o : Outline} (initialized : InitializedField field headers)
    (methodless : ∀ header ∈ headers, methodHeader? header = none) (place : Place true stack) :
    Reaches contract ⟨stack, [], o, false⟩ (field ++ rest) ⟨stack, [], o, false⟩ rest := by
  obtain @⟨tokens, header, value, headers, equals, semicolon, pieces, declared, assigned, ends⟩ :=
    initialized
  cases place with
  | inside =>
    have none : ∀ more ∈ (header ++ equals :: value) :: headers, methodHeader? more = none :=
      List.forall_mem_cons.mpr ⟨declared.methodHeader?_initialized assigned, methodless⟩
    obtain ⟨q, last, member, reaches⟩ := reaches_pieces contract rest o false pieces (.inr none)
      (Token.ends_header ends (by decide))
    rw [List.append_assoc, List.singleton_append]
    exact reaches.trans (reaches_memberless ends .type (none last member) nofun)

/-- A source reads as if a field of a type did not stand in it, if nothing behind a body in the
initializer of the field is the header of a method. Where the tokens around the field keep their places,
nothing differs; otherwise lines do, and the places of errors. -/
theorem outline_without_field {source source' : Text} {before field after : List Token}
    {headers : List (List Token)} {stop : Position} {y : Tokenization}
    (place : UpToMember contract before) (initialized : InitializedField field headers)
    (methodless : ∀ header ∈ headers, methodHeader? header = none)
    (tokens : tokenize source = .ok ⟨before ++ field ++ after, stop⟩)
    (tokens' : tokenize source' = .ok y) (pairs : List.Forall₂ Moved (before ++ after) y.tokens) :
    Outcomes (SyntaxError.SameToken ⟨before ++ after, stop⟩ y) Outline.SameUnplaced
        (outline contract source) (outline contract source') ∧
      (y = ⟨before ++ after, stop⟩ → outline contract source = outline contract source') := by
  obtain ⟨stack, o, among, reaches⟩ := place.reaches
  -- The field leaves the reader where it found it.
  have with_ : Reaches contract ⟨[], [], {}, false⟩ (before ++ field ++ after)
      ⟨stack, [], o, false⟩ after := by
    rw [List.append_assoc]
    exact (reaches _).trans (initialized.reaches methodless among)
  have same := (readOutline_of_reaches with_ stop).trans
    (readOutline_of_reaches (reaches after) stop).symm
  rw [outline_of_tokenize tokens, outline_of_tokenize tokens']
  change readOutline contract stop {} (before ++ field ++ after) = _ at same
  rw [same]
  constructor
  · exact readOutline_of_moved (x := ⟨before ++ after, stop⟩) pairs contract
  · rintro rfl
    rfl

namespace Sample

/-- The front of a class. -/
def classFront : List Token := [word "class" 1, word "A" 7, symbol "\x7b" 8]

theorem upToMember_class : UpToMember {} classFront := by
  have header : TypeHeader {} [word "class" 1, word "A" 7] _ :=
    @TypeHeader.intro {} [word "class" 1] [] [] [] (word "A" 7) .«class» 1 [] (.word (by decide) rfl)
      rfl (.inl rfl) nofun (fun _ => rfl) .none
  have front : TypeFront {} ([] ++ [word "class" 1, word "A" 7] ++ [symbol "\x7b" 8] ++ []) _ :=
    .intro (.intro .nil nofun header rfl) (.none (by decide))
  exact @UpToMember.outer {} [] [] [] _ [] [] [] [] [] _ [] .none .none .nil front .nil

/-- The start of a field, up to a lambda in its initializer. -/
def fieldStart : List Token :=
  [word "R" 9, word "r" 11] ++ symbol "=" 12 ::
    [word "f" 13, symbol "(" 14, symbol "(" 15, symbol ")" 16, symbol "->" 17]

/-- The whole field: `more` stands behind the lambda. -/
def lambdaField (more : List Token) (column : Nat) : List Token :=
  fieldStart ++ symbol "\x7b" 19 :: ([] ++ symbol "\x7d" 20 :: more) ++ [symbol ";" column]

theorem initializedField {more : List Token} (plain : more.all Token.isPlain = true) (column : Nat) :
    InitializedField (lambdaField more column) [more] := by
  have declared : FieldHeader ([] ++ [word "R" 9] ++ [word "r" 11]) :=
    .intro nofun (.name rfl) (@Declarators.last _ [] rfl .none)
  exact .intro (.block (.of_plain rfl) rfl .nil rfl (.last (.of_plain plain))) declared rfl rfl

end Sample

/-- A lambda in an initializer leaves no trace. -/
theorem outline_without_lambda :
    Outcomes (SyntaxError.SameToken
        ⟨Sample.classFront ++ [Sample.symbol "\x7d" 23], ⟨1, 24⟩⟩
        ⟨Sample.classFront ++ [Sample.symbol "\x7d" 9], ⟨1, 10⟩⟩) Outline.SameUnplaced
      (outline {} "class A\x7bR r=f(()->\x7b\x7d);\x7d") (outline {} "class A\x7b\x7d") := by
  have tokens : tokenize "class A\x7bR r=f(()->\x7b\x7d);\x7d" =
      .ok ⟨Sample.classFront ++ Sample.lambdaField [Sample.symbol ")" 21] 22 ++
        [Sample.symbol "\x7d" 23], ⟨1, 24⟩⟩ := by decide +kernel
  have tokens' : tokenize "class A\x7b\x7d" =
      .ok ⟨Sample.classFront ++ [Sample.symbol "\x7d" 9], ⟨1, 10⟩⟩ := by decide +kernel
  have methodless : ∀ header ∈ [[Sample.symbol ")" 21]], methodHeader? header = none := by decide
  have pairs : List.Forall₂ Moved (Sample.classFront ++ [Sample.symbol "\x7d" 23])
      (Sample.classFront ++ [Sample.symbol "\x7d" 9]) :=
    .cons ⟨rfl, rfl⟩ (.cons ⟨rfl, rfl⟩ (.cons ⟨rfl, rfl⟩ (.cons ⟨rfl, rfl⟩ .nil)))
  exact (outline_without_field Sample.upToMember_class (Sample.initializedField rfl 22) methodless
    tokens tokens' pairs).1

/-- What follows a lambda in an initializer can be taken for the header of a method. -/
theorem argument_taken_for_method :
    (∃ field after headers, UpToMember {} Sample.classFront ∧ InitializedField field headers ∧
        tokenize "class A\x7bR r=f(()->\x7b\x7d,fix(a,b));\x7d" =
          .ok ⟨Sample.classFront ++ field ++ after, ⟨1, 33⟩⟩) ∧
      (outline {} "class A\x7bR r=f(()->\x7b\x7d,fix(a,b));\x7d").toOption.map
          (·.types.map (·.methods.map fun m => (m.name, m.arity))) = some [[(("fix" : Text), 2)]] ∧
      (outline {} "class A\x7b\x7d").toOption.map
          (·.types.map (·.methods.map fun m => (m.name, m.arity))) = some [[]] := by
  refine ⟨⟨Sample.lambdaField [Sample.symbol "," 21, Sample.word "fix" 22, Sample.symbol "(" 25,
    Sample.word "a" 26, Sample.symbol "," 27, Sample.word "b" 28, Sample.symbol ")" 29,
    Sample.symbol ")" 30] 31, [Sample.symbol "\x7d" 32], _, Sample.upToMember_class,
    Sample.initializedField rfl 31, ?_⟩, ?_, ?_⟩
  · decide +kernel
  · decide +kernel
  · decide +kernel

end Layering.Java
