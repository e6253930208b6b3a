import SymbolAtlas.Ascending
import SymbolAtlas.Store.Files

/-!
# The build graph in the store

Actions with their sources and targets.

* `Store.insertAction`, `Store.addSource`, `Store.addTarget`: recording a build.
* `Store.nextOutstanding`, `Store.setState`: working through the actions that are still created.
* `Store.actionSuccessors`: one hop along the products of actions.
-/

namespace SymbolAtlas

/-- The action that a row stands for. -/
def ActionRow.read (row : ActionRow) : Except Fault BuildAction :=
  match Worded.parse? row.kind with
  | none => .error (.unknownActionKind row.kind row.id)
  | some kind =>
    match Worded.parse? row.state with
    | none => .error (.unknownActionState row.state row.id)
    | some state => .ok ⟨row.id, kind, state, row.label, row.project⟩

namespace Store

/-- The word of the state in which an action is outstanding. -/
def createdWord : String := Worded.word ActionState.created

/-- Add a row, whatever its words. -/
def insertActionRow (kind state label project : String) (store : Store) : Int × Store :=
  let row : ActionRow := ⟨store.nextAction, kind, state, label, project⟩
  (row.id, { store with actions := store.actions ++ [row], nextAction := store.nextAction + 1 })

/-- Record a new action. -/
def insertAction (kind : ActionKind) (label project : String) (store : Store) :
    BuildAction × Store :=
  let (id, store) := store.insertActionRow (Worded.word kind) createdWord label project
  (⟨id, kind, .created, label, project⟩, store)

/-- The row with an identity. -/
def actionRow? (store : Store) (id : Int) : Option ActionRow :=
  store.actions.find? fun row => row.id = id

/-- The action with an identity. -/
def action? (store : Store) (id : Int) : Except Fault (Option BuildAction) :=
  (store.actionRow? id).mapM ActionRow.read

/-- The first outstanding action after the given one. -/
def nextOutstanding (store : Store) (after : Option Int) : Except Fault (Option BuildAction) :=
  (store.actions.find? fun row =>
    row.state = createdWord && after.all fun id => id < row.id).mapM ActionRow.read

/-- The last place that a link can have. -/
def ordinalMax : Int := 2147483647

/-- A link can have this place. -/
def ordinalFits (ordinal : Int) : Bool := -ordinalMax ≤ ordinal + 1 && ordinal ≤ ordinalMax

/-- Make a file a source of an action. -/
def addSource (action file ordinal : Int) (store : Store) : Except Fault Store :=
  if ordinalFits ordinal then
    .ok { store with sources := store.sources ++ [⟨action, file, ordinal⟩] }
  else .error (.sourceNotAdded action)

/-- Make a file a target of an action. -/
def addTarget (action file ordinal : Int) (store : Store) : Except Fault Store :=
  if ordinalFits ordinal then
    .ok { store with targets := store.targets ++ [⟨action, file, ordinal⟩] }
  else .error (.targetNotAdded action)

/-- The links of an action by their places. -/
def linksOf (links : List Link) (action : Int) : List Link :=
  (links.filter fun link => link.action = action).mergeSort fun a b => a.ordinal ≤ b.ordinal

/-- The sources of an action in order; one whose row is gone is missing. -/
def sourcesOf (store : Store) (action : Int) : List (Option File) :=
  (linksOf store.sources action).map fun link => store.file? link.file

/-- The targets of an action in order; one whose row is gone is missing. -/
def targetsOf (store : Store) (action : Int) : List (Option File) :=
  (linksOf store.targets action).map fun link => store.file? link.file

/-- The actions of the given kind, label and project. -/
def actionsLike (store : Store) (kind : ActionKind) (label project : String) : List Int :=
  (store.actions.filter fun row =>
    row.kind = Worded.word kind && row.label = label && row.project = project).map ActionRow.id

/-- The first action of the given kind, label and project. -/
def findAction? (store : Store) (kind : ActionKind) (label project : String) : Option Int :=
  (store.actionsLike kind label project).head?

/-- The files are there and have these paths, in order. -/
def havePaths (files : List (Option File)) (paths : List String) : Bool :=
  files.map (Option.map File.path) = paths.map some

/-- The first action of the given kind, label and project that links the given paths. -/
def findIdentical? (store : Store) (kind : ActionKind) (label project : String)
    (sources targets : List String) : Option Int :=
  (store.actionsLike kind label project).find? fun id =>
    havePaths (store.sourcesOf id) sources && havePaths (store.targetsOf id) targets

/-- Move an outstanding action to a final state, and whether it was outstanding. -/
def setState (action : Int) (state : ActionState) (store : Store) : Except Fault (Bool × Store) :=
  if ActionState.created.allows state then
    let moves := fun (row : ActionRow) => row.id = action && row.state = createdWord
    .ok (store.actions.any moves,
      { store with
        actions := store.actions.map fun row =>
          if moves row then { row with state := Worded.word state } else row })
  else .error (.movedToCreated action)

/-- The number of sources of outstanding actions. -/
def outstandingSources (store : Store) : Nat :=
  (store.sources.flatMap fun link =>
    store.actions.filter fun row => row.id = link.action && row.state = createdWord).length

/-- The number of actions in each state that some action is in; a word that is no state is not
counted. -/
def countByState (store : Store) : List (ActionState × Nat) :=
  (Worded.all : List ActionState).filterMap fun state =>
    match store.actions.countP fun row => Worded.parse? row.state == some state with
    | 0 => none
    | n => some (state, n)

/-- The actions that a file is a source of, ascending. -/
def actionsWithSource (store : Store) (file : Int) : List Int :=
  Ascending.ofList ((store.sources.filter fun link => link.file = file).map Link.action)

/-- The other actions that a target of an action is a source of. -/
def consumers (store : Store) (target : Link) : List Int :=
  (store.sources.filter fun source =>
    source.file = target.file && source.action ≠ target.action).map Link.action

/-- One hop from a frontier of actions to those that consume their products: ascending rows without
repeats, and first a row without a successor for an action with a product that nobody consumes. -/
def actionSuccessors (store : Store) (frontier : List Int) : List (Int × Option Int) :=
  (Ascending.ofList frontier).flatMap fun action =>
    let products := store.targets.filter fun link => link.action = action
    let unused := products.any fun target => (store.consumers target).isEmpty
    (if unused then [(action, none)] else []) ++
      (Ascending.ofList (products.flatMap store.consumers)).map fun next => (action, some next)

end Store

end SymbolAtlas
