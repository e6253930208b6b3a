import SymbolAtlas.Command.Options
import SymbolAtlas.Dispatch.Tally
import SymbolAtlas.Language
import SymbolAtlas.Store.Call

/-!
# Parsers

A parser takes the sources of actions. One is built in, the indexer of the C family of languages;
others can be plugged in.

* `Plugin`: a parser from outside. It goes by what plugins remember and by the tables. What it
  answers to a source is a `Reply`, and it may record symbols and includes at once.
* `Parser`: a plugin or the indexer.
* `Registry`: parsers in order, some of them disabled; the first one that accepts a path is taken.
-/

namespace SymbolAtlas

/-- What a plugin answers. -/
inductive Reply where
  /-- the outcome is there at once -/
  | ready (outcome : Outcome)
  /-- a job is started, which ends with an outcome or crashes -/
  | started (result : Option Outcome)
  /-- the outcome will come through a channel, whose producer is outside -/
  | channel
  /-- the outcome is that of a channel whose producer has gone away -/
  | abandoned
  /-- the outcome has been taken before -/
  | taken
  /-- the outcome is the joint one of several answers -/
  | joined (replies : List Reply)
  deriving Inhabited

/-- What a plugin goes by when it is called. -/
structure Plugin.View where
  /-- what the plugins remember -/
  memory : String
  store : Store

/-- What a plugin leaves behind when it is called. -/
structure Plugin.Effects where
  /-- what the plugins remember from now on -/
  memory : String
  /-- what it records; the build graph is not for plugins to change -/
  records : List { call : StoreCall // call.isBeside = true } := []

/-- The tables with what a plugin records. -/
def Plugin.Effects.record (effects : Plugin.Effects) (store : Store) : Store :=
  effects.records.foldl (fun store call => call.val.after store) store

/-- A parser from outside. All of them share one memory, in which each may keep what it needs. -/
structure Plugin where
  name : String
  /-- the paths it takes -/
  accepts : String → Bool
  /-- what it does with a source of an action and the target made from it; it crashes if there is
  no reply -/
  parse : Plugin.View → BuildAction → File → Option File → Command.Options →
    Option Reply × Plugin.Effects
  /-- what it does with a whole command, if that is not one parse for every pair -/
  command : Option (Plugin.View → BuildAction → List FilePair → Command.Options →
    Option Reply × Plugin.Effects) := none
  /-- what it does when all results are there, and whether that succeeds -/
  afterParse : Plugin.View → Tally → Bool × Plugin.Effects :=
    fun view _ => (true, { memory := view.memory })

/-- A parser. -/
inductive Parser where
  /-- the built-in parser -/
  | indexer
  | plugin (plugin : Plugin)

namespace Parser

/-- The languages that the indexer takes. -/
def indexedLanguages : List String := ["c", "c-header", "cpp", "cpp-header"]

/-- The name of a parser. -/
def name : Parser → String
  | .indexer => "cpp"
  | .plugin p => p.name

/-- The parser takes the path. -/
def accepts : Parser → String → Bool
  | .indexer, path => (Language.detect? path).any indexedLanguages.contains
  | .plugin p, path => p.accepts path

end Parser

/-- The parsers of a run. -/
structure Registry where
  parsers : List Parser := []
  /-- names of parsers that are not used -/
  disabled : List String := []

namespace Registry

/-- The built-in parser alone. -/
def builtIn : Registry := { parsers := [.indexer] }

/-- The parsers that are used, in order. -/
def enabled (registry : Registry) : List Parser :=
  registry.parsers.filter fun parser => !registry.disabled.contains parser.name

/-- The first parser that takes the path. -/
def resolve? (registry : Registry) (path : String) : Option Parser :=
  registry.enabled.find? fun parser => parser.accepts path

end Registry

/-- A call to a plugin. -/
inductive Call where
  | parse (plugin : String) (action : Int) (source : String) (target : Option String)
      (options : Command.Options)
  | command (plugin : String) (action : Int) (pairs : List FilePair)
  | afterParse (plugin : String)
  deriving DecidableEq, Repr

end SymbolAtlas
