import Mathlib.Data.List.Basic
import SymbolAtlas.Source.Extraction

/-!
# What a visit finds

A visit leaves the open scopes as they were and adds to what was found. What it adds is put together
from what the parts of the item add.

- **Parts** (`Item.parts`): the include directives and the symbols that an item gives itself, and
  the items in it that are visited, in order, each with the scopes that are opened for it.
- **One visit** (`visit_eq_parts`): an item adds the finds of its parts, one after the other. The
  items among the parts are smaller (`Item.parts_induction`), so that what holds of an item whenever
  it holds of these holds of every item.
- **Scopes** (`finds_append`): more scopes around an item only put their names in front of the names
  that are found. Include directives do not depend on scopes (`includes_finds`).
- **What is never recorded** (`Item.trim`): the bodies that are passed over, and what is static
  outside of classes. Without it the same is found (`finds_trim`). A class that is defined in a
  static declaration is no such thing: its members are recorded.
-/

namespace SymbolAtlas.Source

/-! ## Extractions -/

namespace Extraction

variable (a b c : Extraction)

@[simp] theorem includes_append : (a ++ b).includes = a.includes ++ b.includes := rfl

@[simp] theorem symbols_append : (a ++ b).symbols = a.symbols ++ b.symbols := rfl

theorem mk_append (xs : List Include) (ys : List Found) :
    a ++ ⟨xs, ys⟩ = ⟨a.includes ++ xs, a.symbols ++ ys⟩ := rfl

@[simp] theorem empty_append : empty ++ a = a := rfl

@[simp] theorem append_empty : a ++ empty = a := by
  change Extraction.mk (a.includes ++ []) (a.symbols ++ []) = a
  rw [List.append_nil, List.append_nil]

theorem append_assoc : a ++ b ++ c = a ++ (b ++ c) := by
  change Extraction.mk (a.includes ++ b.includes ++ c.includes) _ = Extraction.mk _ _
  rw [List.append_assoc, symbols_append, List.append_assoc]
  rfl

/-- Extractions one after the other. -/
def concat (found : List Extraction) : Extraction := found.foldr (· ++ ·) empty

@[simp] theorem concat_nil : concat [] = empty := rfl

@[simp] theorem concat_cons (found : List Extraction) : concat (a :: found) = a ++ concat found :=
  rfl

theorem includes_concat (found : List Extraction) :
    (concat found).includes = found.flatMap Extraction.includes := by
  induction found with
  | nil => rfl
  | cons a found ih => rw [concat_cons, includes_append, ih, List.flatMap_cons]

theorem symbols_concat (found : List Extraction) :
    (concat found).symbols = found.flatMap Extraction.symbols := by
  induction found with
  | nil => rfl
  | cons a found ih => rw [concat_cons, symbols_append, ih, List.flatMap_cons]

end Extraction

open Extraction (concat)

/-! ## Parts of an item -/

/-- A part of an item. -/
inductive Part where
  /-- an include directive -/
  | inclusion (found : Include)
  /-- a symbol that the item gives itself, by its name inside the open scopes -/
  | symbol (found : Found)
  /-- an item inside, the scopes that are opened for it, and whether it stands in a class body -/
  | item (opened : List String) (inClass : Bool) (inner : Item)

/-- The symbol that a declarator of a declaration gives. -/
def Declarator.declared? (inClass isExternal : Bool) (d : Declarator) : Option Found :=
  d.name?.bind fun name =>
    if d.isFunction then some ⟨name, .function, .declaration⟩
    else if inClass then none
    else some ⟨name, .variable, if isExternal then .declaration else .definition⟩

/-- The symbol that a declarator of a type definition gives. -/
def Declarator.typeName? (d : Declarator) : Option Found :=
  d.name?.map fun name => ⟨name, .type, .definition⟩

/-- The parts of a type. -/
def TypeItem.parts : TypeItem → List Part
  | .plain | .record none _ _ | .enumeration none _ => []
  | .record (some name) hasBody items =>
    .symbol ⟨name, .type, typeRole hasBody⟩ ::
      if hasBody then items.map (.item [name] true) else []
  | .enumeration (some name) body => [.symbol ⟨name, .type, typeRole body.isSome⟩]

/-- The parts of an item that are visited, in order. -/
def Item.parts (inClass : Bool) : Item → List Part
  | .inclusion path system => [.inclusion ⟨path, system⟩]
  | .group items => items.map (.item [] inClass)
  | .scope none _ => []
  | .scope (some name) items => items.map (.item (scopesOf name) false)
  | .type t => t.parts
  | .function isStatic declarator _ =>
    if !inClass && isStatic then []
    else declarator.name?.toList.map fun name => .symbol ⟨name, .function, .definition⟩
  | .declaration t isStatic isExternal declarators =>
    .item [] inClass (.type t) ::
      if !inClass && isStatic then []
      else (declarators.filterMap (Declarator.declared? inClass isExternal)).map .symbol
  | .typeNames t declarators =>
    .item [] inClass (.type t) ::
      (declarators.filterMap Declarator.typeName?).map .symbol
  | .typeAlias name => [.symbol ⟨name, .type, .definition⟩]
  | .other => []

theorem sizeOf_lt_of_mem_items {items : List Item} {inner : Item} {opened opened' : List String}
    {inClass inClass' : Bool}
    (h : Part.item opened' inClass' inner ∈ items.map (.item opened inClass)) :
    sizeOf inner < sizeOf items := by
  obtain ⟨item, hmem, heq⟩ := List.mem_map.mp h
  cases heq
  exact List.sizeOf_lt_of_mem hmem

theorem TypeItem.sizeOf_part_lt {t : TypeItem} {inner : Item} {inClass : Bool}
    {opened : List String} (h : Part.item opened inClass inner ∈ t.parts) :
    sizeOf inner < sizeOf t := by
  cases t with
  | plain => cases h
  | enumeration name body => cases name <;> simp [TypeItem.parts] at h
  | record name hasBody items =>
    cases name with
    | none => cases h
    | some name =>
      cases hasBody with
      | false => simp [TypeItem.parts] at h
      | true =>
        have hlt : sizeOf inner < sizeOf items :=
          sizeOf_lt_of_mem_items ((List.mem_cons.mp h).resolve_left (by simp))
        simp only [TypeItem.record.sizeOf_spec]
        omega

/-- The items inside an item are smaller. -/
theorem Item.sizeOf_part_lt {item inner : Item} {inClass inClass' : Bool} {opened : List String}
    (h : Part.item opened inClass' inner ∈ item.parts inClass) : sizeOf inner < sizeOf item := by
  cases item with
  | group items =>
    have hlt := sizeOf_lt_of_mem_items h
    simp only [Item.group.sizeOf_spec]
    omega
  | scope name items =>
    cases name with
    | none => cases h
    | some name =>
      have hlt := sizeOf_lt_of_mem_items h
      simp only [Item.scope.sizeOf_spec]
      omega
  | type t =>
    have hlt := TypeItem.sizeOf_part_lt h
    simp only [Item.type.sizeOf_spec]
    omega
  | declaration t isStatic isExternal declarators =>
    rcases List.mem_cons.mp h with heq | h
    · cases heq
      have hpos : 0 < sizeOf isStatic := by cases isStatic <;> decide
      simp only [Item.type.sizeOf_spec, Item.declaration.sizeOf_spec]
      omega
    · split at h <;> simp at h
  | typeNames t declarators =>
    rcases List.mem_cons.mp h with heq | h
    · cases heq
      have hpos : 0 < sizeOf declarators := by
        cases declarators with
        | nil => decide
        | cons =>
          rw [List.cons.sizeOf_spec]
          omega
      simp only [Item.type.sizeOf_spec, Item.typeNames.sizeOf_spec]
      omega
    · simp at h
  | function isStatic declarator body =>
    simp only [Item.parts] at h
    split at h <;> simp at h
  | inclusion path system | typeAlias name | other => simp [Item.parts] at h

/-- What holds of an item whenever it holds of the items inside holds of every item. -/
theorem Item.parts_induction {motive : Item → Prop}
    (step : ∀ item, (∀ inClass opened inClass' inner,
      Part.item opened inClass' inner ∈ item.parts inClass → motive inner) → motive item)
    (item : Item) : motive item :=
  step item fun _ _ _ inner _ => parts_induction step inner
termination_by sizeOf item
decreasing_by exact Item.sizeOf_part_lt (by assumption)

/-! ## One visit -/

/-- What an item adds, seen from the scope `scope`. -/
def finds (scope : List String) (inClass : Bool) (item : Item) : Extraction :=
  (visit inClass ⟨scope, .empty⟩ item).found

/-- What a part adds. -/
def Part.finds (scope : List String) : Part → Extraction
  | .inclusion found => ⟨[found], []⟩
  | .symbol found =>
    if found.name.isEmpty then .empty else ⟨[], [{ found with name := qualify scope found.name }]⟩
  | .item opened inClass inner => Source.finds (scope ++ opened) inClass inner

namespace Visitor

variable (v : Visitor)

/-- The visitor after it has found more. -/
def plus (found : Extraction) : Visitor := ⟨v.scope, v.found ++ found⟩

@[simp] theorem plus_empty : v.plus .empty = v := by
  simp [plus]

@[simp] theorem plus_plus (a b : Extraction) : (v.plus a).plus b = v.plus (a ++ b) := by
  simp [plus, Extraction.append_assoc]

@[simp] theorem scope_plus (found : Extraction) : (v.plus found).scope = v.scope := rfl

@[simp] theorem scope_enter (names : List String) : (v.enter names).scope = v.scope ++ names := rfl

/-- Scopes that were opened are closed again. -/
theorem leave_plus_enter (names : List String) (found : Extraction) :
    ((v.enter names).plus found).leave names.length = v.plus found := by
  simp [plus, enter, leave]

theorem recordInclude_eq (path : String) (system : Bool) :
    v.recordInclude path system = v.plus (Part.finds v.scope (.inclusion ⟨path, system⟩)) := by
  simp [recordInclude, plus, Part.finds, Extraction.mk_append]

theorem record_eq (name : String) (kind : SymbolKind) (role : SymbolRole) :
    v.record name kind role = v.plus (Part.finds v.scope (.symbol ⟨name, kind, role⟩)) := by
  by_cases hname : name.isEmpty
  · simp [record, Part.finds, hname]
  · simp [record, Part.finds, hname, plus, Extraction.mk_append]

/-- Declarators are gone through one by one. -/
theorem foldl_declarators {step : Visitor → Declarator → Visitor}
    {gives : Declarator → Option Found}
    (hstep : ∀ v d, step v d =
      v.plus (concat ((gives d).toList.map fun found => Part.finds v.scope (.symbol found))))
    (declarators : List Declarator) :
    declarators.foldl step v = v.plus (concat ((declarators.filterMap gives).map fun found =>
      Part.finds v.scope (.symbol found))) := by
  induction declarators generalizing v with
  | nil => simp
  | cons d declarators ih =>
    rw [List.foldl_cons, ih, hstep, plus_plus, scope_plus, List.filterMap_cons]
    cases gives d <;> simp

theorem recordDeclared_eq (inClass isExternal : Bool) (d : Declarator) :
    recordDeclared inClass isExternal v d = v.plus (concat
      ((d.declared? inClass isExternal).toList.map fun found =>
        Part.finds v.scope (.symbol found))) := by
  unfold recordDeclared Declarator.declared?
  cases d.name? with
  | none => simp
  | some name =>
    cases d.isFunction with
    | true => simp [record_eq]
    | false => cases inClass <;> simp [record_eq]

theorem recordTypeName_eq (d : Declarator) :
    recordTypeName v d = v.plus (concat
      (d.typeName?.toList.map fun found => Part.finds v.scope (.symbol found))) := by
  unfold recordTypeName Declarator.typeName?
  cases d.name? <;> simp [record_eq]

end Visitor

theorem visitAll_eq {inClass : Bool} {items : List Item}
    (h : ∀ item ∈ items, ∀ v, visit inClass v item = v.plus (finds v.scope inClass item))
    (v : Visitor) :
    visitAll inClass v items = v.plus (concat (items.map (finds v.scope inClass))) := by
  induction items generalizing v with
  | nil => simp [visitAll]
  | cons item items ih =>
    rw [visitAll, ih fun item' hmem => h item' (.tail _ hmem), h item (.head _)]
    simp

/-- Items that are visited with more scopes open. -/
theorem leave_visitAll_enter {inClass : Bool} {items : List Item}
    (h : ∀ item ∈ items, ∀ v, visit inClass v item = v.plus (finds v.scope inClass item))
    (v : Visitor) (names : List String) :
    (visitAll inClass (v.enter names) items).leave names.length =
      v.plus (concat ((items.map (.item names inClass)).map (Part.finds v.scope))) := by
  rw [visitAll_eq h, Visitor.leave_plus_enter, List.map_map]
  rfl

/-- A visit adds the finds of the parts, one after the other, and leaves the scopes as they are. -/
theorem visit_eq_parts (item : Item) : ∀ (inClass : Bool) (v : Visitor), visit inClass v item =
    v.plus (concat ((item.parts inClass).map (Part.finds v.scope))) := by
  induction item using Item.parts_induction with
  | step item ih =>
    intro inClass v
    have hinner : ∀ {opened inClass' inner}, Part.item opened inClass' inner ∈ item.parts inClass →
        ∀ v, visit inClass' v inner = v.plus (finds v.scope inClass' inner) := by
      intro opened inClass' inner hmem v
      have heq := ih inClass opened inClass' inner hmem inClass'
      rw [finds, heq v, heq ⟨v.scope, .empty⟩]
      simp [Visitor.plus]
    cases item with
    | inclusion path system => simp [visit, Item.parts, Visitor.recordInclude_eq]
    | group items =>
      rw [visit, visitAll_eq fun item hmem => hinner (List.mem_map_of_mem hmem)]
      simp [Item.parts, Part.finds, Function.comp_def]
    | scope name items =>
      cases name with
      | none => simp [visit, Item.parts]
      | some name =>
        exact leave_visitAll_enter (fun item hmem => hinner (List.mem_map_of_mem hmem)) v _
    | type t =>
      cases t with
      | plain => simp [visit, visitType, Item.parts, TypeItem.parts]
      | enumeration name body =>
        cases name <;> simp [visit, visitType, Item.parts, TypeItem.parts, Visitor.record_eq]
      | record name hasBody items =>
        cases name with
        | none => simp [visit, visitType, Item.parts, TypeItem.parts]
        | some name =>
          cases hasBody with
          | false => simp [visit, visitType, Item.parts, TypeItem.parts, Visitor.record_eq]
          | true =>
            have hbody := leave_visitAll_enter
              (fun item hmem => hinner (List.mem_cons_of_mem _ (List.mem_map_of_mem hmem)))
              (v.record name .type (typeRole true)) [name]
            rw [List.length_singleton, Visitor.record_eq] at hbody
            simp [visit, visitType, Item.parts, TypeItem.parts, Visitor.record_eq, hbody]
    | function isStatic declarator body =>
      simp only [visit, Item.parts]
      split
      · simp
      · cases declarator.name? <;> simp [Visitor.record_eq]
    | declaration t isStatic isExternal declarators =>
      have htype : visitType v t = v.plus (finds v.scope inClass (.type t)) := by
        have := hinner (.head _) v
        rwa [visit] at this
      simp only [visit, Item.parts, htype]
      split
      · simp [Part.finds]
      · rw [Visitor.foldl_declarators _ fun v d => v.recordDeclared_eq inClass isExternal d]
        simp [Part.finds, Function.comp_def]
    | typeNames t declarators =>
      have htype : visitType v t = v.plus (finds v.scope inClass (.type t)) := by
        have := hinner (.head _) v
        rwa [visit] at this
      rw [visit, htype, Visitor.foldl_declarators _ Visitor.recordTypeName_eq]
      simp [Item.parts, Part.finds, Function.comp_def]
    | typeAlias name => simp [visit, Item.parts, Visitor.record_eq]
    | other => simp [visit, Item.parts]

theorem finds_eq (scope : List String) (inClass : Bool) (item : Item) :
    finds scope inClass item = concat ((item.parts inClass).map (Part.finds scope)) := by
  rw [finds, visit_eq_parts, Visitor.plus]
  rfl

theorem visit_eq (inClass : Bool) (v : Visitor) (item : Item) :
    visit inClass v item = v.plus (finds v.scope inClass item) := by
  rw [visit_eq_parts, finds_eq]

/-! ## Scopes -/

theorem includes_finds (item : Item) : ∀ (inClass : Bool) (scope scope' : List String),
    (finds scope inClass item).includes = (finds scope' inClass item).includes := by
  induction item using Item.parts_induction with
  | step item ih =>
    intro inClass scope scope'
    simp only [finds_eq, Extraction.includes_concat, List.flatMap_map]
    refine List.flatMap_congr fun part hpart => ?_
    cases part with
    | inclusion found => rfl
    | symbol found =>
      by_cases hname : found.name.isEmpty <;> simp [Part.finds, hname, Extraction.empty]
    | item opened inClass' inner => exact ih inClass opened inClass' inner hpart inClass' _ _

/-- What is found when more scopes are put around a source. -/
def Extraction.within (outer : List String) (e : Extraction) : Extraction :=
  { e with symbols := e.symbols.map fun found =>
      { found with name := "::".intercalate outer ++ "::" ++ found.name } }

theorem Extraction.within_concat (outer : List String) (found : List Extraction) :
    (concat found).within outer = concat (found.map (Extraction.within outer)) := by
  induction found with
  | nil => rfl
  | cons a found ih =>
    rw [List.map_cons, concat_cons, concat_cons, ← ih]
    simp [within, mk_append]

theorem qualify_append {outer : List String} (houter : outer ≠ []) (scope : List String)
    (name : String) :
    qualify (outer ++ scope) name = "::".intercalate outer ++ "::" ++ qualify scope name := by
  unfold qualify
  by_cases hscope : scope = []
  · simp [hscope, houter]
  · simp [hscope, houter, String.intercalate_append_of_ne_nil houter hscope, String.append_assoc]

theorem finds_append {outer : List String} (houter : outer ≠ []) (item : Item) :
    ∀ (inClass : Bool) (scope : List String),
      finds (outer ++ scope) inClass item = (finds scope inClass item).within outer := by
  induction item using Item.parts_induction with
  | step item ih =>
    intro inClass scope
    rw [finds_eq, finds_eq, Extraction.within_concat, List.map_map]
    refine congrArg concat (List.map_congr_left fun part hpart => ?_)
    cases part with
    | inclusion found => rfl
    | symbol found =>
      by_cases hname : found.name.isEmpty
      · simp [Part.finds, hname, Extraction.within, Extraction.empty]
      · simp [Part.finds, hname, Extraction.within, qualify_append houter]
    | item opened inClass' inner =>
      have hinner := ih inClass opened inClass' inner hpart inClass' (scope ++ opened)
      simpa [Part.finds] using hinner

/-! ## What is never recorded -/

mutual

/-- The item without what is never recorded: what stands in a namespace without a name and in a
function body, and the declarators of static functions and declarations outside of classes. -/
def Item.trim (inClass : Bool) : Item → Item
  | .inclusion path system => .inclusion path system
  | .group items => .group (trimAll inClass items)
  | .scope none _ => .scope none []
  | .scope (some name) items => .scope (some name) (trimAll false items)
  | .type t => .type t.trim
  | .function isStatic declarator _ =>
    if !inClass && isStatic then .other else .function isStatic declarator []
  | .declaration t isStatic isExternal declarators =>
    if !inClass && isStatic then .type t.trim
    else .declaration t.trim isStatic isExternal declarators
  | .typeNames t declarators => .typeNames t.trim declarators
  | .typeAlias name => .typeAlias name
  | .other => .other

/-- The type without what is never recorded: the body of a class without a name, and the body of an
enumeration. -/
def TypeItem.trim : TypeItem → TypeItem
  | .plain => .plain
  | .record none hasBody _ => .record none hasBody []
  | .record (some name) hasBody items => .record (some name) hasBody (trimAll true items)
  | .enumeration name body => .enumeration name (body.map fun _ => [])

/-- The items without what is never recorded. -/
def trimAll (inClass : Bool) : List Item → List Item
  | [] => []
  | item :: items => item.trim inClass :: trimAll inClass items

end

theorem trimAll_eq_map (inClass : Bool) (items : List Item) :
    trimAll inClass items = items.map (Item.trim inClass) := by
  induction items with
  | nil => rfl
  | cons item items ih => rw [trimAll, ih, List.map_cons]

/-- The part without what is never recorded. -/
def Part.trim : Part → Part
  | .inclusion found => .inclusion found
  | .symbol found => .symbol found
  | .item opened inClass inner => .item opened inClass (inner.trim inClass)

theorem TypeItem.parts_trim (t : TypeItem) : t.trim.parts = t.parts.map Part.trim := by
  cases t with
  | plain => rfl
  | enumeration name body => cases name <;> cases body <;> rfl
  | record name hasBody items =>
    cases name with
    | none => rfl
    | some name =>
      cases hasBody <;>
        simp [TypeItem.trim, TypeItem.parts, Part.trim, trimAll_eq_map, Function.comp_def]

/-- Trimming keeps the parts of an item, unless it is a static declaration outside of classes. -/
theorem Item.parts_trim {item : Item} {inClass : Bool}
    (h : ∀ t isExternal declarators, inClass = false →
      item ≠ .declaration t true isExternal declarators) :
    (item.trim inClass).parts inClass = (item.parts inClass).map Part.trim := by
  cases item with
  | inclusion path system | typeAlias name | other => rfl
  | group items => simp [Item.trim, Item.parts, Part.trim, trimAll_eq_map, Function.comp_def]
  | scope name items =>
    cases name <;> simp [Item.trim, Item.parts, Part.trim, trimAll_eq_map, Function.comp_def]
  | type t => exact t.parts_trim
  | function isStatic declarator body =>
    by_cases hidden : (!inClass && isStatic) = true
    · simp [Item.trim, Item.parts, hidden]
    · cases hname : declarator.name? <;> simp [Item.trim, Item.parts, hidden, Part.trim, hname]
  | declaration t isStatic isExternal declarators =>
    have hshown : (!inClass && isStatic) = false := by
      refine Bool.eq_false_iff.mpr fun hidden => ?_
      simp only [Bool.and_eq_true, Bool.not_eq_true'] at hidden
      exact h t isExternal declarators hidden.1 (by rw [hidden.2])
    simp [Item.trim, Item.parts, hshown, Part.trim, Function.comp_def]
  | typeNames t declarators => simp [Item.trim, Item.parts, Part.trim, Function.comp_def]

/-- A static declaration outside of classes adds what its type adds. -/
theorem finds_static_declaration (scope : List String) (t : TypeItem) (isExternal : Bool)
    (declarators : List Declarator) :
    finds scope false (.declaration t true isExternal declarators) =
      finds scope false (.type t) := by
  rw [finds_eq]
  simp [Item.parts, Part.finds]

theorem finds_trim (item : Item) : ∀ (inClass : Bool) (scope : List String),
    finds scope inClass (item.trim inClass) = finds scope inClass item := by
  induction item using Item.parts_induction with
  | step item ih =>
    intro inClass scope
    by_cases hidden : inClass = false ∧ ∃ t isExternal declarators,
        item = .declaration t true isExternal declarators
    · obtain ⟨rfl, t, isExternal, declarators, rfl⟩ := hidden
      have htype : Part.item [] false (.type t) ∈
          (Item.declaration t true isExternal declarators).parts false := .head _
      rw [finds_static_declaration]
      exact ih false [] false (.type t) htype false scope
    · rw [finds_eq, finds_eq, Item.parts_trim fun t isExternal declarators hclass heq =>
        hidden ⟨hclass, t, isExternal, declarators, heq⟩, List.map_map]
      refine congrArg concat (List.map_congr_left fun part hpart => ?_)
      cases part with
      | inclusion found => rfl
      | symbol found => rfl
      | item opened inClass' inner => exact ih inClass opened inClass' inner hpart inClass' _

/-- A visit leaves the open scopes as they were and only adds to what was found. What it adds is
put together from what the parts of the item add, in order. The include directives do not depend on
the scopes, and scopes around all others only put their names in front. What stands in a namespace
or a class without a name, in an enumeration or in a function body adds nothing, and neither do the
declarators of static functions and declarations outside of classes. -/
theorem visit_compositional (item : Item) (inClass : Bool) (v : Visitor) :
    (visit inClass v item).scope = v.scope ∧
    (visit inClass v item).found = v.found ++ finds v.scope inClass item ∧
    finds v.scope inClass item = concat ((item.parts inClass).map (Part.finds v.scope)) ∧
    (∀ scope, (finds scope inClass item).includes = (finds v.scope inClass item).includes) ∧
    (∀ outer, outer ≠ [] →
      finds (outer ++ v.scope) inClass item = (finds v.scope inClass item).within outer) ∧
    finds v.scope inClass (item.trim inClass) = finds v.scope inClass item := by
  refine ⟨?_, ?_, finds_eq _ _ _, fun scope => includes_finds item inClass _ _, fun outer houter =>
    finds_append houter item inClass _, finds_trim item inClass _⟩
  · rw [visit_eq]
    rfl
  · rw [visit_eq]
    rfl

/-- In a scope `o`, a namespace `a::b` with a namespace without a name, a static function, and a
static variable of a class type that is defined with it. -/
theorem visit_compositional_nested :
    ["o"] ≠ [] ∧
      (visit false ⟨["o"], .empty⟩ (.scope (some "a::b") [.inclusion "h.h" false,
        .scope none [.declaration .plain false false [.name "hidden"]],
        .function true (.function (.name "local")) [],
        .declaration (.record (some "S") true [.declaration .plain false false
          [.function (.name "f")]]) true false [.name "s"]])).found =
      ⟨[⟨"h.h", false⟩], [⟨"o::a::b::S", .type, .definition⟩,
        ⟨"o::a::b::S::f", .function, .declaration⟩]⟩ := by
  obtain ⟨-, -, -, -, houter, -⟩ := visit_compositional (.scope (some "a::b")
    [.inclusion "h.h" false, .scope none [.declaration .plain false false [.name "hidden"]],
      .function true (.function (.name "local")) [],
      .declaration (.record (some "S") true [.declaration .plain false false
        [.function (.name "f")]]) true false [.name "s"]]) false .start
  refine ⟨by decide, ?_⟩
  have hfinds := houter ["o"] (by decide)
  rw [finds] at hfinds
  exact hfinds.trans (by decide)

end SymbolAtlas.Source
