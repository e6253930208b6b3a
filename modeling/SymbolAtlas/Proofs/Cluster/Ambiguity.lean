import SymbolAtlas.Cluster.Ambiguity
import SymbolAtlas.Proofs.Ascending

/-!
# Which files are of concern

The rule behind the markers, in terms of the rows of the symbol table.

- **Occurrences** (`Store.Occurs`): a row says that a file defines or declares a hash in some kind.
  The numbers that a marker tests are numbers of such files (`two_le_length_holders`).
- **The rule** (`Store.Ambiguous`): a hash is ambiguous in a kind that two files define it in. In
  the kinds of functions and variables it is so as well if no file defines it and two declare it.
  A marker finds just the hashes that are ambiguous in its kind (`mem_ambiguous`).
- **Concern** (`concerned_by_rule`): with all markers, the files of concern are those that hold an
  ambiguous hash in whatever kind. Only the set of combinations in the table matters
  (`concerned_congr`), not the order of its rows nor how often one is repeated.
-/

namespace SymbolAtlas

open Ascending (Lists)

/-! ## Counting files -/

/-- A list without repeats has two members just when it has two different ones. -/
theorem Ascending.Lists.two_le_length {xs : List Int} {s : Set Int} (h : Lists xs s) :
    2 ≤ xs.length ↔ ∃ x y, x ≠ y ∧ x ∈ s ∧ y ∈ s := by
  constructor
  · intro hlength
    match xs, hlength, h with
    | x :: y :: _, _, h =>
      have hlt : x < y := List.rel_of_pairwise_cons h.ascending (.head _)
      exact ⟨x, y, hlt.ne, (h.mem_iff x).mp (.head _), (h.mem_iff y).mp (.tail _ (.head _))⟩
  · rintro ⟨x, y, hne, hx, hy⟩
    have hx := (h.mem_iff x).mpr hx
    have hy := (h.mem_iff y).mpr hy
    match xs, hx, hy with
    | [_], hx, hy =>
      obtain rfl := List.mem_singleton.mp hx
      exact absurd (List.mem_singleton.mp hy).symm hne
    | _ :: _ :: _, _, _ => simp

/-- What a row of the symbol table says, apart from the name. -/
def SymbolRow.combination (row : SymbolRow) : Int × String × String × Int :=
  (row.hash, row.kind, row.role, row.file)

namespace Store

variable {store store' : Store} {hash : Int} {kind : SymbolKind} {role : SymbolRole} {file : Int}

/-- The table has a row for the hash in the kind, the role and the file. -/
def Occurs (store : Store) (hash : Int) (kind : SymbolKind) (role : SymbolRole) (file : Int) :
    Prop :=
  ∃ row ∈ store.symbols, row.hash = hash ∧ row.kind = Worded.word kind ∧
    row.role = Worded.word role ∧ row.file = file

theorem lists_holders (store : Store) (hash : Int) (kind : SymbolKind) (role : SymbolRole) :
    Lists (store.holders hash kind role) {file | store.Occurs hash kind role file} := by
  refine (Ascending.lists_ofList _).congr fun file => ?_
  simp [Occurs, and_assoc]

theorem two_le_length_holders :
    2 ≤ (store.holders hash kind role).length ↔
      ∃ f g, f ≠ g ∧ store.Occurs hash kind role f ∧ store.Occurs hash kind role g :=
  (lists_holders store hash kind role).two_le_length

theorem length_holders_eq_zero :
    (store.holders hash kind role).length = 0 ↔ ∀ f, ¬ store.Occurs hash kind role f := by
  rw [List.length_eq_zero_iff, List.eq_nil_iff_forall_not_mem]
  exact forall_congr' fun f => not_congr ((lists_holders store hash kind role).mem_iff f)

/-! ## The rule -/

/-- Two files define the hash in the kind, or, unless it is the kind of types, none defines it and
two declare it. -/
def Ambiguous (store : Store) (hash : Int) (kind : SymbolKind) : Prop :=
  (∃ f g, f ≠ g ∧ store.Occurs hash kind .definition f ∧ store.Occurs hash kind .definition g) ∨
  ((kind = .function ∨ kind = .variable) ∧ (∀ f, ¬ store.Occurs hash kind .definition f) ∧
    ∃ f g, f ≠ g ∧ store.Occurs hash kind .declaration f ∧ store.Occurs hash kind .declaration g)

/-- The test of a marker on the two numbers of files. -/
theorem not_unique_iff (marker : Marker) (definitions declarations : Nat) :
    (!marker.unique definitions declarations) = true ↔
      2 ≤ definitions ∨ (marker.kind = .function ∨ marker.kind = .variable) ∧
        definitions = 0 ∧ 2 ≤ declarations := by
  cases marker <;> simp [Marker.unique, Marker.kind] <;> omega

theorem failsMarker_iff (marker : Marker) :
    store.failsMarker marker hash = true ↔ store.Ambiguous hash marker.kind := by
  rw [failsMarker, not_unique_iff, two_le_length_holders, two_le_length_holders,
    length_holders_eq_zero, Ambiguous]

/-- An ambiguous hash has a row in its kind. -/
theorem Ambiguous.exists_row (h : store.Ambiguous hash kind) :
    ∃ row ∈ store.symbols, row.hash = hash ∧ row.kind = Worded.word kind := by
  rcases h with ⟨_, _, -, ⟨row, hrow, hhash, hkind, -⟩, -⟩ |
    ⟨-, -, _, _, -, ⟨row, hrow, hhash, hkind, -⟩, -⟩
  · exact ⟨row, hrow, hhash, hkind⟩
  · exact ⟨row, hrow, hhash, hkind⟩

theorem mem_ambiguous (marker : Marker) :
    hash ∈ store.ambiguous marker ↔ store.Ambiguous hash marker.kind := by
  simp only [ambiguous, Ascending.mem_ofList, List.mem_filter, List.mem_map, decide_eq_true_eq,
    failsMarker_iff]
  refine ⟨And.right, fun h => ⟨?_, h⟩⟩
  obtain ⟨row, hrow, hhash, hkind⟩ := h.exists_row
  exact ⟨row, ⟨hrow, hkind⟩, hhash⟩

/-! ## Concern -/

/-- The files that hold a hash which is ambiguous in the kind of one of the markers. -/
theorem lists_concerned (store : Store) (markers : List Marker) :
    Lists (store.concerned markers) {file | ∃ row ∈ store.symbols, row.file = file ∧
      ∃ marker ∈ markers, store.Ambiguous row.hash marker.kind} := by
  refine (Ascending.lists_ofList _).congr fun file => ?_
  simp only [concernedBy, Set.mem_ofPred_eq, List.mem_flatMap, Ascending.mem_ofList, List.mem_map,
    List.mem_filter, List.contains_iff_mem, mem_ambiguous]
  constructor
  · rintro ⟨marker, hmarker, row, ⟨hrow, hambiguous⟩, hfile⟩
    exact ⟨row, hrow, hfile, marker, hmarker, hambiguous⟩
  · rintro ⟨row, hrow, hfile, marker, hmarker, hambiguous⟩
    exact ⟨marker, hmarker, row, ⟨hrow, hambiguous⟩, hfile⟩

theorem occurs_iff :
    store.Occurs hash kind role file ↔
      (hash, Worded.word kind, Worded.word role, file) ∈
        store.symbols.map SymbolRow.combination := by
  simp only [Occurs, List.mem_map, SymbolRow.combination, Prod.mk.injEq]

/-- The files of concern depend on the set of combinations in the table only. -/
theorem concerned_congr (markers : List Marker)
    (h : ∀ c, c ∈ store'.symbols.map SymbolRow.combination ↔
      c ∈ store.symbols.map SymbolRow.combination) :
    store'.concerned markers = store.concerned markers := by
  have hambiguous : ∀ hash kind, store'.Ambiguous hash kind ↔ store.Ambiguous hash kind := by
    intro hash kind
    simp only [Ambiguous, occurs_iff, h]
  have hfiles : ∀ (store : Store) (P : Int → Prop) (file : Int),
      (∃ row ∈ store.symbols, row.file = file ∧ P row.hash) ↔
        ∃ c ∈ store.symbols.map SymbolRow.combination, c.2.2.2 = file ∧ P c.1 := by
    intro store P file
    simp [SymbolRow.combination]
  refine (lists_concerned store' markers).unique
    ((lists_concerned store markers).congr fun file => ?_)
  simp only [Set.mem_ofPred_eq, hambiguous]
  rw [hfiles store fun hash => ∃ marker ∈ markers, store.Ambiguous hash marker.kind,
    hfiles store' fun hash => ∃ marker ∈ markers, store.Ambiguous hash marker.kind]
  simp only [h]

/-- With all markers, the files of concern are those that hold a hash which is ambiguous in some
kind, whatever the order of the rows and however often a combination is repeated. -/
theorem concerned_by_rule (store : Store) :
    Lists (store.concerned Worded.all) {file | ∃ row ∈ store.symbols, row.file = file ∧
      ∃ kind, store.Ambiguous row.hash kind} ∧
    (∀ store' : Store, store'.symbols.Perm store.symbols →
      store'.concerned Worded.all = store.concerned Worded.all) ∧
    ∀ row ∈ store.symbols, ∀ again : SymbolRow, again.combination = row.combination →
      (store.addSymbolRow again).concerned Worded.all = store.concerned Worded.all := by
  have hkinds : ∀ P : SymbolKind → Prop,
      (∃ marker ∈ (Worded.all : List Marker), P marker.kind) ↔ ∃ kind, P kind := by
    intro P
    constructor
    · rintro ⟨marker, -, h⟩
      exact ⟨marker.kind, h⟩
    · rintro ⟨kind, h⟩
      cases kind with
      | function => exact ⟨.functions, by decide, h⟩
      | type => exact ⟨.types, by decide, h⟩
      | «variable» => exact ⟨.variables, by decide, h⟩
  refine ⟨(lists_concerned store _).congr fun file => ?_, fun store' hperm => ?_,
    fun row hrow again hagain => ?_⟩
  · simp only [Set.mem_ofPred_eq, hkinds]
  · exact concerned_congr _ fun c => (hperm.map _).mem_iff
  · refine concerned_congr _ fun c => ?_
    have hmem : again.combination ∈ store.symbols.map SymbolRow.combination := by
      rw [hagain]
      exact List.mem_map_of_mem hrow
    simp only [addSymbolRow, List.map_append, List.mem_append, List.map_cons, List.map_nil,
      List.mem_singleton]
    constructor
    · rintro (hc | rfl)
      · exact hc
      · exact hmem
    · exact .inl

end Store

end SymbolAtlas
