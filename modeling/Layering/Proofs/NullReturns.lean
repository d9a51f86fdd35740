import Layering.Inspection.Rules
import Mathlib

/-!
# Fixers that return null

Of every source that can be read and is well formed, the detector reports the fixers whose contract
method returns null. It looks at the first method of that name and number of parameters only.
-/

namespace Layering.Detector

variable {s : Site} {m : Module} {file : Path} {t : Java.TypeDeclaration}

/-- The method has the name and the number of parameters of the contract. -/
def isContract (method : Java.Method) : Bool :=
  method.name = fixMethod.1 && method.arity = fixMethod.2

/-- What is to be reported of a method: the first of its returns that is null. -/
def offence? (file : Path) (fixer : Text) (method : Java.Method) : Option Violation :=
  method.firstNull?.map (nullResult file fixer)

/-- What is to be reported of a type: each contract method of a fixer that returns null. -/
def offences (file : Path) (t : Java.TypeDeclaration) : List Violation :=
  if t.role.isFixer then (t.methods.filter isContract).filterMap (offence? file t.name) else []

/-- What is to be reported of a source: nothing if it cannot be read or is malformed. -/
def sourceOffences (s : Site) (file : Path) : List Violation :=
  match outline s file with
  | .ok o => o.concrete.flatMap (offences file)
  | .error _ => []

/-- No contract method after the first returns null. -/
def FirstOnly (t : Java.TypeDeclaration) : Prop :=
  ∀ method ∈ (t.methods.filter isContract).tail, method.firstNull? = none

/-- What is reported of a type. -/
def reported (file : Path) (t : Java.TypeDeclaration) : List Violation :=
  if t.role.isFixer then ((t.methods.filter isContract).take 1).filterMap (offence? file t.name)
  else []

/-- What is reported of a source. -/
def sourceReported (s : Site) (file : Path) : List Violation :=
  match outline s file with
  | .ok o => o.concrete.flatMap (reported file)
  | .error _ => []

theorem nullResultsIn_eq (file : Path) (o : Java.Outline) :
    nullResultsIn file o = o.concrete.flatMap (reported file) := by
  unfold nullResultsIn
  rw [List.filterMap_eq_flatMap_toList]
  refine List.flatMap_congr fun t _ => ?_
  have first : t.method? fixMethod.1 fixMethod.2 = (t.methods.filter isContract).head? :=
    (List.head?_filter ..).symm
  rw [first]
  unfold reported offence?
  cases t.methods.filter isContract with
  | nil => split <;> rfl
  | cons method later =>
    rw [List.head?_cons, List.take_succ_cons, List.take_zero, List.filterMap_cons, List.filterMap_nil]
    split
    · simp only [Option.bind_some]
      cases method.firstNull? <;> rfl
    · rfl

theorem detect_nullResults (several : m.hasLayers = true) {files : List Path}
    (listed : m.sourceFiles s = .ok files) :
    nullResults.detect s m = .ok (files.flatMap (sourceReported s)) := by
  have outlined : outlines s m = .ok (files.filterMap fun file =>
      match outline s file with
      | .ok o => some (file, o)
      | .error _ => none) := by
    unfold outlines
    rw [listed]
    rfl
  unfold nullResults orNothing
  simp only [several, outlined, if_true, bind, Except.bind, pure, Except.pure]
  rw [List.filterMap_eq_flatMap_toList, List.flatMap_assoc]
  refine congrArg Except.ok (List.flatMap_congr fun file _ => ?_)
  unfold sourceReported
  cases outline s file with
  | ok o =>
    rw [Option.toList_some, List.flatMap_singleton]
    exact nullResultsIn_eq file o
  | error e => rfl

theorem reported_sublist (file : Path) (t : Java.TypeDeclaration) :
    (reported file t).Sublist (offences file t) := by
  unfold reported offences
  split
  · exact (List.take_sublist 1 _).filterMap _
  · exact .slnil

theorem reported_eq (first : FirstOnly t) : reported file t = offences file t := by
  have none : (t.methods.filter isContract).tail.filterMap (offence? file t.name) = [] := by
    refine List.filterMap_eq_nil_iff.mpr fun method later => ?_
    rw [offence?, first method later, Option.map_none]
  unfold reported offences
  split
  · conv_rhs => rw [← List.take_append_drop 1 (t.methods.filter isContract)]
    rw [List.filterMap_append, List.drop_one, none, List.append_nil]
  · rfl

/-- Of a module with layers the detector reports, source by source, fixers whose contract method
returns null, each method once: all of them, but for a method that stands after one of the same name
and number of parameters. A source that cannot be read or is malformed does not affect the others. -/
theorem nullResults_complete (several : m.hasLayers = true) {files : List Path}
    (listed : m.sourceFiles s = .ok files) :
    ∃ found, nullResults.detect s m = .ok found ∧
      found.Sublist (files.flatMap (sourceOffences s)) ∧
      ((∀ file ∈ files, ∀ o, outline s file = .ok o → ∀ t ∈ o.concrete, t.role.isFixer = true →
        FirstOnly t) → found = files.flatMap (sourceOffences s)) := by
  refine ⟨_, detect_nullResults several listed, ?_, fun first => ?_⟩
  · refine List.Sublist.flatMap_right _ fun file _ => ?_
    unfold sourceReported sourceOffences
    cases outline s file with
    | error e => exact .slnil
    | ok o => exact List.Sublist.flatMap_right _ fun t _ => reported_sublist file t
  · refine List.flatMap_congr fun file member => ?_
    unfold sourceReported sourceOffences
    cases outlined : outline s file with
    | error e => rfl
    | ok o =>
      refine List.flatMap_congr fun t concrete => ?_
      by_cases fixer : t.role.isFixer = true
      · exact reported_eq (first file member o outlined t concrete fixer)
      · rw [reported, offences, if_neg fixer, if_neg fixer]

/-- A module with a core layer that has one source. -/
def moduleOfSource (text : Text) : Site where
  tree := ((((((∅ : Tree).insert ["p".toList] .directory).insert ["p".toList, "p-core".toList]
    .directory).insert ["p".toList, "p-core".toList, "src".toList] .directory).insert
    ["p".toList, "p-core".toList, "src".toList, "main".toList] .directory).insert
    ["p".toList, "p-core".toList, "src".toList, "main".toList, "java".toList] .directory).insert
    ["p".toList, "p-core".toList, "src".toList, "main".toList, "java".toList, "A.java".toList]
    (.file (Utf8.encode text) 0o644)

def onlyModule : Module := ⟨"p".toList, "/p", [.core]⟩

def onlySource : Path := "/p/p-core/src/main/java/A.java"

/-- A fixer that may return null. -/
def nullFixer : Text := "class A implements Fixer\x7bR fix(V v,C c)\x7bif(v)return r;\nreturn null;\x7d\x7d"

/-- The null is reported at its line. -/
theorem nullResults_complete_nullFixer :
    onlyModule.hasLayers = true ∧ onlyModule.sourceFiles (moduleOfSource nullFixer) = .ok [onlySource] ∧
      nullResults.detect (moduleOfSource nullFixer) onlyModule =
        .ok [nullResult onlySource "A".toList ⟨2, true⟩] := by
  have several : onlyModule.hasLayers = true := by decide
  have listed : onlyModule.sourceFiles (moduleOfSource nullFixer) = .ok [onlySource] := by
    decide
  have first : ∀ file ∈ [onlySource], ∀ o, outline (moduleOfSource nullFixer) file = .ok o →
      ∀ t ∈ o.concrete, t.role.isFixer = true → FirstOnly t := by
    have single : (outline (moduleOfSource nullFixer) onlySource).toOption.map
        (fun o => o.types.all fun t => t.methods.length = 1) = some true := by decide +kernel
    intro file member o outlined t concrete _ method later
    obtain rfl := List.mem_singleton.mp member
    rw [outlined] at single
    have one := List.all_eq_true.mp (Option.some.inj single) t (List.mem_of_mem_filter concrete)
    have bound := (List.length_filter_le isContract t.methods).trans_eq (of_decide_eq_true one)
    have some := List.length_pos_of_mem later
    rw [List.length_tail] at some
    omega
  have due : [onlySource].flatMap (sourceOffences (moduleOfSource nullFixer)) =
      [nullResult onlySource "A".toList ⟨2, true⟩] := by decide +kernel
  obtain ⟨found, run, _, complete⟩ := nullResults_complete several listed
  rw [complete first, due] at run
  exact ⟨several, listed, run⟩

/-- A fixer with another method of the name and number of parameters of the contract. -/
def overloadedFixer : Text :=
  "class A implements Fixer\x7bR fix(S s,int n)\x7breturn r;\x7d\nR fix(V v,C c)\x7breturn null;\x7d\x7d"

/-- The null of the contract method is not reported. -/
theorem nullResults_misses_overload :
    onlyModule.hasLayers = true ∧
      onlyModule.sourceFiles (moduleOfSource overloadedFixer) = .ok [onlySource] ∧
      sourceOffences (moduleOfSource overloadedFixer) onlySource =
        [nullResult onlySource "A".toList ⟨2, true⟩] ∧
      nullResults.detect (moduleOfSource overloadedFixer) onlyModule = .ok [] := by
  have several : onlyModule.hasLayers = true := by decide
  have listed : onlyModule.sourceFiles (moduleOfSource overloadedFixer) = .ok [onlySource] := by
    decide
  have none : [onlySource].flatMap (sourceReported (moduleOfSource overloadedFixer)) = [] := by
    decide +kernel
  refine ⟨several, listed, by decide +kernel, ?_⟩
  rw [detect_nullResults several listed, none]

end Layering.Detector
