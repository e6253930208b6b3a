import SymbolAtlas.Proofs.Source.Visit
import SymbolAtlas.Source.Reader

/-!
# Declared names and their kinds

A declarator is a name with shapes around it, or a form without a name. What is declared depends on
the shape next to the name; what is recorded depends on the shapes seen from the outside.

- **Shapes** (`Declarator.shapes`): the shapes of a declarator, outermost first. Every declarator is
  put together from its shapes (`Declarator.shape_induction`).
- **The name** (`name?_eq`): it is seen unless one of the shapes hides it: a reference, an
  attribute, or parentheses with something in front of the declarator.
- **The kind** (`isFunction_iff`): a declarator counts as that of a function if its outermost shape,
  pointers apart, is a function. A function is declared if the shape next to the name, parentheses
  and attributes apart, is one (`Declarator.DeclaresFunction`).
- **One declarator of a declaration** (`Declarator.recorded`): it adds its own symbols, whatever
  stands around it (`symbols_declaration`).
-/

namespace SymbolAtlas.Source

/-! ## Shapes -/

/-- What a declarator puts around another one. -/
inductive Shape where
  | pointer
  | reference
  | array
  | function
  | parenthesized
  | obscured
  | attributed
  | initialized
  deriving DecidableEq, Repr

namespace Shape

/-- The declarator with one more shape around it. -/
def around : Shape → Declarator → Declarator
  | .pointer => .pointer
  | .reference => .reference
  | .array => .array
  | .function => .function
  | .parenthesized => .parenthesized
  | .obscured => .obscured
  | .attributed => .attributed
  | .initialized => .initialized

/-- No name is seen behind the shape. -/
def hides : Shape → Bool
  | .reference | .obscured | .attributed => true
  | .pointer | .array | .function | .parenthesized | .initialized => false

/-- The shape does not bear on what is declared. -/
def isFrame : Shape → Bool
  | .parenthesized | .obscured | .attributed => true
  | .pointer | .reference | .array | .function | .initialized => false

end Shape

namespace Declarator

/-- The shapes around the name, outermost first. -/
def shapes : Declarator → List Shape
  | .name _ | .unnamed => []
  | .pointer inner => .pointer :: inner.shapes
  | .reference inner => .reference :: inner.shapes
  | .array inner => .array :: inner.shapes
  | .function inner => .function :: inner.shapes
  | .parenthesized inner => .parenthesized :: inner.shapes
  | .obscured inner => .obscured :: inner.shapes
  | .attributed inner => .attributed :: inner.shapes
  | .initialized inner => .initialized :: inner.shapes

/-- The name that the shapes are around. -/
def core? : Declarator → Option String
  | .name text => some text
  | .unnamed => none
  | .pointer inner | .reference inner | .array inner | .function inner | .parenthesized inner
  | .obscured inner | .attributed inner | .initialized inner => inner.core?

/-- What holds of the forms without shapes, and of a declarator with one more shape whenever it
holds without that shape, holds of every declarator. -/
theorem shape_induction {motive : Declarator → Prop} (name : ∀ text, motive (.name text))
    (unnamed : motive .unnamed)
    (around : ∀ (shape : Shape) (inner : Declarator), motive inner → motive (shape.around inner))
    (d : Declarator) : motive d := by
  induction d with
  | name text => exact name text
  | unnamed => exact unnamed
  | pointer inner ih => exact around .pointer inner ih
  | reference inner ih => exact around .reference inner ih
  | array inner ih => exact around .array inner ih
  | function inner ih => exact around .function inner ih
  | parenthesized inner ih => exact around .parenthesized inner ih
  | obscured inner ih => exact around .obscured inner ih
  | attributed inner ih => exact around .attributed inner ih
  | initialized inner ih => exact around .initialized inner ih

section

variable (shape : Shape) (d : Declarator)

@[simp] theorem shapes_around : (shape.around d).shapes = shape :: d.shapes := by
  cases shape <;> rfl

@[simp] theorem core?_around : (shape.around d).core? = d.core? := by
  cases shape <;> rfl

theorem name?_around : (shape.around d).name? = if shape.hides then none else d.name? := by
  cases shape <;> rfl

theorem isFunction_around : (shape.around d).isFunction =
    (shape == .function || (shape == .pointer && d.isFunction)) := by
  cases shape <;> rfl

end

/-! ## The name and the kind -/

/-- No shape hides the name. -/
def IsShown (d : Declarator) : Prop := ∀ shape ∈ d.shapes, shape.hides = false

instance (d : Declarator) : Decidable d.IsShown :=
  inferInstanceAs (Decidable (∀ shape ∈ d.shapes, shape.hides = false))

/-- The outermost shape, pointers apart. -/
def outermost? (d : Declarator) : Option Shape := (d.shapes.dropWhile (· == .pointer)).head?

/-- The shape next to the name, parentheses and attributes apart. -/
def innermost? (d : Declarator) : Option Shape := (d.shapes.filter (!·.isFrame)).getLast?

/-- The declared name is that of a function. -/
def DeclaresFunction (d : Declarator) : Prop := d.innermost? = some .function

instance (d : Declarator) : Decidable d.DeclaresFunction :=
  inferInstanceAs (Decidable (d.innermost? = some .function))

theorem isShown_around (shape : Shape) (d : Declarator) :
    (shape.around d).IsShown ↔ shape.hides = false ∧ d.IsShown := by
  simp [IsShown]

theorem name?_eq (d : Declarator) : d.name? = if d.IsShown then d.core? else none := by
  induction d using shape_induction with
  | name text => rfl
  | unnamed => rfl
  | around shape inner ih =>
    rw [name?_around, ih, core?_around]
    by_cases hhides : shape.hides = true
    · simp [isShown_around, hhides]
    · simp [isShown_around, hhides]

theorem isFunction_iff (d : Declarator) : d.isFunction = true ↔ d.outermost? = some .function := by
  induction d using shape_induction with
  | name text => simp [isFunction, outermost?, shapes]
  | unnamed => simp [isFunction, outermost?, shapes]
  | around shape inner ih =>
    rw [isFunction_around]
    by_cases hpointer : shape = .pointer
    · subst hpointer
      simpa [outermost?] using ih
    · simp [outermost?, hpointer]

/-! ## One declarator of a declaration -/

/-- The symbols that a declarator of a declaration adds, seen from the scope `scope`. -/
def recorded (scope : List String) (inClass isExternal : Bool) (d : Declarator) : List Found :=
  (Visitor.recordDeclared inClass isExternal ⟨scope, .empty⟩ d).found.symbols

/-- The role of a variable. -/
def variableRole (isExternal : Bool) : SymbolRole := if isExternal then .declaration else .definition

/-- What is recorded for a declared name. -/
theorem recorded_eq {d : Declarator} {text : String} (hcore : d.core? = some text)
    (htext : text ≠ "") (scope : List String) (inClass isExternal : Bool) :
    d.recorded scope inClass isExternal =
      if ¬ d.IsShown then []
      else if d.outermost? = some .function then
        [⟨qualify scope text, .function, .declaration⟩]
      else if inClass then []
      else [⟨qualify scope text, .variable, variableRole isExternal⟩] := by
  unfold recorded Visitor.recordDeclared
  rw [name?_eq, hcore]
  by_cases hshown : d.IsShown
  · by_cases hfunction : d.outermost? = some .function
    · simp [hshown, hfunction, (isFunction_iff d).mpr hfunction, Visitor.record, htext,
        Extraction.empty]
    · have hother : d.isFunction = false :=
        Bool.eq_false_iff.mpr fun h => hfunction ((isFunction_iff d).mp h)
      cases inClass with
      | true => simp [hshown, hfunction, hother, Extraction.empty]
      | false =>
        simp [hshown, hfunction, hother, Visitor.record, htext, Extraction.empty, variableRole]
  · simp [hshown, Extraction.empty]

theorem mem_recorded_iff {d : Declarator} {text : String} (hcore : d.core? = some text)
    (htext : text ≠ "") {scope : List String} {inClass isExternal : Bool} {found : Found} :
    found ∈ d.recorded scope inClass isExternal ↔ d.IsShown ∧
      (d.outermost? = some .function ∧ found = ⟨qualify scope text, .function, .declaration⟩ ∨
        d.outermost? ≠ some .function ∧ inClass = false ∧
          found = ⟨qualify scope text, .variable, variableRole isExternal⟩) := by
  rw [recorded_eq hcore htext]
  by_cases hshown : d.IsShown
  · by_cases hfunction : d.outermost? = some .function
    · simp [hshown, hfunction]
    · cases inClass <;> simp [hshown, hfunction]
  · simp [hshown]

theorem recorded_eq_finds (scope : List String) (inClass isExternal : Bool) (d : Declarator) :
    d.recorded scope inClass isExternal =
      (d.declared? inClass isExternal).toList.flatMap fun found =>
        (Part.finds scope (.symbol found)).symbols := by
  rw [recorded, Visitor.recordDeclared_eq, Visitor.plus, Extraction.empty_append,
    Extraction.symbols_concat, List.flatMap_map]

end Declarator

/-- A declaration that is not passed over adds the symbols of its type and then those of its
declarators. -/
theorem symbols_declaration (scope : List String) {inClass isStatic : Bool}
    (hkept : inClass = true ∨ isStatic = false) (t : TypeItem) (isExternal : Bool)
    (declarators : List Declarator) :
    (finds scope inClass (.declaration t isStatic isExternal declarators)).symbols =
      (finds scope inClass (.type t)).symbols ++
        declarators.flatMap (Declarator.recorded scope inClass isExternal) := by
  have hshown : (!inClass && isStatic) = false := by
    rcases hkept with rfl | rfl <;> simp
  have hsymbols : (declarators.filterMap (Declarator.declared? inClass isExternal)).flatMap
      (fun found => (Part.finds scope (.symbol found)).symbols) =
        declarators.flatMap (Declarator.recorded scope inClass isExternal) := by
    rw [List.filterMap_eq_flatMap_toList, List.flatMap_assoc]
    exact List.flatMap_congr fun d _ => (d.recorded_eq_finds scope inClass isExternal).symm
  rw [finds_eq, Extraction.symbols_concat, ← hsymbols]
  simp [Item.parts, hshown, Part.finds, List.flatMap_map]

/-- A declarator adds its own symbols, whatever stands before and after it. -/
theorem symbols_declaration_middle (scope : List String) {inClass isStatic : Bool}
    (hkept : inClass = true ∨ isStatic = false) (t : TypeItem) (isExternal : Bool)
    (before : List Declarator) (d : Declarator) (after : List Declarator) :
    (finds scope inClass (.declaration t isStatic isExternal (before ++ d :: after))).symbols =
      (finds scope inClass (.declaration t isStatic isExternal before)).symbols ++
        d.recorded scope inClass isExternal ++
          after.flatMap (Declarator.recorded scope inClass isExternal) := by
  rw [symbols_declaration scope hkept, symbols_declaration scope hkept, List.flatMap_append,
    List.flatMap_cons, List.append_assoc, List.append_assoc]

/-- A function definition that is not passed over adds its declared name if that is seen. -/
theorem finds_function (scope : List String) {inClass isStatic : Bool}
    (hkept : inClass = true ∨ isStatic = false) {d : Declarator} {text : String}
    (hcore : d.core? = some text) (htext : text ≠ "") (body : Tokens) :
    finds scope inClass (.function isStatic d body) =
      ⟨[], if d.IsShown then [⟨qualify scope text, .function, .definition⟩] else []⟩ := by
  have hparts : (!inClass && isStatic) = false := by
    rcases hkept with rfl | rfl <;> simp
  rw [finds_eq]
  by_cases hshown : d.IsShown
  · simp [Item.parts, hparts, d.name?_eq, hshown, hcore, Part.finds, htext]
  · simp [Item.parts, hparts, d.name?_eq, hshown, Extraction.empty]

/-! ## Kinds -/

/-- When the recorded kind is right.

Each declarator of a declaration adds its own symbols. A name that is seen is recorded as that of a
function if the outermost shape of its declarator, pointers apart, is a function; otherwise it is
recorded as a variable, and left out inside a class. So a name is recorded as what it is exactly if
the outermost shape, pointers apart, is a function whenever the shape next to the name, parentheses
and attributes apart, is one, and the other way round. An initial value makes the name a variable:
it changes the kind of all that is recorded as a function. -/
theorem recorded_kind_right_iff {d : Declarator} {text : String} (hcore : d.core? = some text)
    (htext : text ≠ "") (scope : List String) (inClass isExternal : Bool) :
    (∀ t isStatic before after, inClass = true ∨ isStatic = false →
      (finds scope inClass (.declaration t isStatic isExternal (before ++ d :: after))).symbols =
        (finds scope inClass (.declaration t isStatic isExternal before)).symbols ++
          d.recorded scope inClass isExternal ++
            after.flatMap (Declarator.recorded scope inClass isExternal)) ∧
    (d.recorded scope inClass isExternal = [] ↔
      ¬ d.IsShown ∨ inClass = true ∧ d.outermost? ≠ some .function) ∧
    (∀ found ∈ d.recorded scope inClass isExternal,
      found.name = qualify scope text ∧ (found.kind = .function ∨ found.kind = .variable) ∧
      ((found.kind = .function ↔ d.DeclaresFunction) ↔
        (d.outermost? = some .function ↔ d.DeclaresFunction)) ∧
      ∀ valued ∈ (Declarator.initialized d).recorded scope inClass isExternal,
        valued.kind = found.kind ↔ d.outermost? ≠ some .function) := by
  have hvalued : (Declarator.initialized d).outermost? ≠ some .function := by
    simp [Declarator.outermost?, Declarator.shapes]
  have hkind : ∀ valued ∈ (Declarator.initialized d).recorded scope inClass isExternal,
      valued.kind = .variable := by
    intro valued hmem
    obtain ⟨-, ⟨hfunction, -⟩ | ⟨-, -, rfl⟩⟩ :=
      (Declarator.mem_recorded_iff (d := .initialized d) hcore htext).mp hmem
    · exact absurd hfunction hvalued
    · rfl
  refine ⟨fun t isStatic before after hkept =>
    symbols_declaration_middle scope hkept t isExternal before d after, ?_, ?_⟩
  · rw [Declarator.recorded_eq hcore htext]
    by_cases hshown : d.IsShown
    · by_cases hfunction : d.outermost? = some .function
      · simp [hshown, hfunction]
      · cases inClass <;> simp [hshown, hfunction]
    · simp [hshown]
  · intro found hfound
    obtain ⟨-, ⟨hfunction, rfl⟩ | ⟨hfunction, -, rfl⟩⟩ :=
      (Declarator.mem_recorded_iff hcore htext).mp hfound
    · refine ⟨rfl, .inl rfl, by simp [hfunction], fun valued hmem => ?_⟩
      simp [hkind valued hmem, hfunction]
    · refine ⟨rfl, .inr rfl, by simp [hfunction], fun valued hmem => ?_⟩
      simp [hkind valued hmem, hfunction]

/-- A function that returns a pointer to an array, in a class: its name stands in a function, but
the outermost shape is the array. -/
theorem recorded_kind_right_iff_returnedArray :
    let d : Declarator := .array (.parenthesized (.pointer (.function (.name "f"))))
    d.core? = some "f" ∧ d.DeclaresFunction ∧ d.recorded ["S"] true false = [] ∧
      ∀ found ∈ d.recorded ["S"] false false, found.kind = .variable := by
  intro d
  have hright := recorded_kind_right_iff (d := d) rfl (by decide)
  refine ⟨rfl, by decide, (hright ["S"] true false).2.1.mpr (.inr ⟨rfl, by decide⟩), ?_⟩
  intro found hfound
  obtain ⟨-, hkind, hiff, -⟩ := (hright ["S"] false false).2.2 found hfound
  refine hkind.resolve_left fun hfunction => ?_
  have hwrong : ¬ (d.outermost? = some .function ↔ d.DeclaresFunction) := by decide
  exact hwrong (hiff.mp (iff_of_true hfunction (by decide)))

/-- A pointer to a function is recorded as a function unless it has an initial value, also as a
member of a class. -/
theorem functionPointer_recorded_as_function :
    let d : Declarator := .function (.parenthesized (.pointer (.name "fp")))
    (declarator? .plain (Lexer.tokens "(*fp)(int)")).map Prod.fst = some d ∧
      ¬ d.DeclaresFunction ∧
      extract "int (*fp)(int);" = ⟨[], [⟨"fp", .function, .declaration⟩]⟩ ∧
      extract "int (*fp)(int) = 0;" = ⟨[], [⟨"fp", .variable, .definition⟩]⟩ ∧
      extract "struct S \x7b int (*fp)(int); \x7d;" =
        ⟨[], [⟨"S", .type, .definition⟩, ⟨"S::fp", .function, .declaration⟩]⟩ ∧
      ¬ ∀ (d : Declarator) (inClass : Bool), ∀ found ∈ d.recorded [] inClass false,
        found.kind = .function ↔ d.DeclaresFunction := by
  intro d
  refine ⟨by decide +kernel, by decide, by decide +kernel, by decide +kernel, by decide +kernel, ?_⟩
  intro hall
  have hfound : ⟨"fp", .function, .declaration⟩ ∈ d.recorded [] false false := by decide
  exact absurd ((hall d false _ hfound).mp rfl) (by decide)

/-! ## Names -/

/-- When a declared name is recorded.

The name inside a declarator is reached exactly if none of its shapes hides it. A function
definition, and a declaration outside of classes, then records it under that name, and otherwise
does not record it; this holds for each declarator, whatever stands before and after it. Static ones
outside of classes are left out by themselves. -/
theorem declared_name_recorded_if_shown {d : Declarator} {text : String} (hcore : d.core? = some text)
    (htext : text ≠ "") (scope : List String) :
    d.name? = (if d.IsShown then some text else none) ∧
    (∀ inClass isStatic body, inClass = true ∨ isStatic = false →
      finds scope inClass (.function isStatic d body) =
        ⟨[], if d.IsShown then [⟨qualify scope text, .function, .definition⟩] else []⟩) ∧
    (∀ t isExternal before after, ∃ kind role,
      (finds scope false (.declaration t false isExternal (before ++ d :: after))).symbols =
        (finds scope false (.declaration t false isExternal before)).symbols ++
          (if d.IsShown then [⟨qualify scope text, kind, role⟩] else []) ++
            after.flatMap (Declarator.recorded scope false isExternal)) := by
  refine ⟨?_, fun inClass isStatic body hkept => finds_function scope hkept hcore htext body, ?_⟩
  · rw [Declarator.name?_eq, hcore]
  · intro t isExternal before after
    have hkept : false = true ∨ false = false := .inr rfl
    have hmiddle := symbols_declaration_middle scope hkept t isExternal before d after
    rw [Declarator.recorded_eq hcore htext] at hmiddle
    by_cases hfunction : d.outermost? = some .function
    · refine ⟨.function, .declaration, ?_⟩
      simpa [hfunction] using hmiddle
    · refine ⟨.variable, Declarator.variableRole isExternal, ?_⟩
      simpa [hfunction] using hmiddle

/-- A function that returns a pointer to a function is recorded, one that returns a reference to a
function is not. -/
theorem declared_name_recorded_if_shown_returned :
    let shown : Declarator := .function (.parenthesized (.pointer (.function (.name "N::f"))))
    let hidden : Declarator := .function (.parenthesized (.reference (.function (.name "N::f"))))
    shown.core? = some "N::f" ∧ hidden.core? = some "N::f" ∧
      finds ["M"] false (.function false shown []) =
        ⟨[], [⟨"M::N::f", .function, .definition⟩]⟩ ∧
      finds ["M"] false (.function false hidden []) = ⟨[], []⟩ := by
  intro shown hidden
  have hcore : shown.core? = some "N::f" := rfl
  have hcore' : hidden.core? = some "N::f" := rfl
  obtain ⟨-, hshown, -⟩ := declared_name_recorded_if_shown hcore (by decide) ["M"]
  obtain ⟨-, hhidden, -⟩ := declared_name_recorded_if_shown hcore' (by decide) ["M"]
  refine ⟨hcore, hcore', (hshown false false [] (.inr rfl)).trans ?_,
    (hhidden false false [] (.inr rfl)).trans ?_⟩
  · decide
  · decide

/-- A function that returns a reference, a reference, a variable with an attribute and a function
with a calling convention in its parentheses are not recorded. -/
theorem referenceFunction_not_recorded :
    let d : Declarator := .reference (.function (.name "f"))
    (declarator? .plain (Lexer.tokens "&f()")).map Prod.fst = some d ∧ d.core? = some "f" ∧
      extract "int &f(); int &r = n; int m [[used]]; int (__cdecl g)(int);" = .empty ∧
      ¬ ∀ (d : Declarator) (text : String), d.core? = some text → d.name? = some text := by
  intro d
  refine ⟨by decide +kernel, rfl, by decide +kernel, ?_⟩
  intro hall
  exact absurd (hall d "f" rfl) (by decide)

end SymbolAtlas.Source
