/-!
# The arguments of the command line

Arguments are read from left to right. An option may be given once, and so may the workspace root.
The value of a long option stands behind an equals sign or in the next argument; that of a short one
may also follow at once, and short flags may be written together. After two dashes everything names
a root.

* `Arguments`: what a run is asked to do.
* `Request`: a run, or one of the two texts about the program.
* `Request.parse`: what arguments ask for, or that they are wrong.
-/

namespace SymbolAtlas.CommandLine

/-- Options without a value. -/
inductive Flag where
  | noCluster
  | wholeCommand
  | verbose
  | quiet
  | json
  deriving DecidableEq, Repr

/-- Options with a value. -/
inductive Setting where
  | database
  | buildLog
  | jobs
  | config
  deriving DecidableEq, Repr

/-- What stands behind the dashes of an option. -/
inductive Name where
  | flag (flag : Flag)
  | setting (setting : Setting)
  | help
  | version
  deriving DecidableEq, Repr

/-- The long names. -/
def longNames : List (String × Name) :=
  [("database", .setting .database), ("build-log", .setting .buildLog), ("jobs", .setting .jobs),
   ("config", .setting .config), ("no-cluster", .flag .noCluster),
   ("whole-command", .flag .wholeCommand), ("verbose", .flag .verbose), ("quiet", .flag .quiet),
   ("json", .flag .json), ("help", .help), ("version", .version)]

/-- The short names. -/
def shortNames : List (Char × Name) :=
  [('j', .setting .jobs), ('v', .flag .verbose), ('q', .flag .quiet), ('h', .help),
   ('V', .version)]

/-- What has been read so far. -/
structure Given where
  flags : List Flag := []
  settings : List (Setting × String) := []
  root : Option String := none
  deriving DecidableEq, Repr

/-- What ends the reading of arguments. -/
inductive Stop where
  /-- the arguments are wrong -/
  | usage
  | help
  | version
  deriving DecidableEq, Repr

/-- A number of workers: digits, possibly after a plus sign, of at most 64 bits. -/
def jobs? (text : String) : Option Nat :=
  let digits := match text.toList with
    | '+' :: rest => rest
    | cs => cs
  if digits.isEmpty || !digits.all Char.isDigit then none
  else
    let n := digits.foldl (fun n c => 10 * n + (c.toNat - '0'.toNat)) 0
    if n < UInt64.size then some n else none

/-- The value can be given to the setting: paths are not empty, and the number of workers is a
number. -/
def Setting.takes : Setting → String → Bool
  | .jobs, value => (jobs? value).isSome
  | _, value => !value.isEmpty

namespace Given

/-- Give a flag. -/
def addFlag (flag : Flag) (given : Given) : Except Stop Given :=
  if given.flags.contains flag then .error .usage
  else .ok { given with flags := given.flags ++ [flag] }

/-- Give a value to a setting. -/
def addSetting (setting : Setting) (value : String) (given : Given) : Except Stop Given :=
  if (given.settings.lookup setting).isSome || !setting.takes value then .error .usage
  else .ok { given with settings := given.settings ++ [(setting, value)] }

/-- Name a root. -/
def addRoot (value : String) (given : Given) : Except Stop Given :=
  if given.root.isSome || value.isEmpty then .error .usage
  else .ok { given with root := some value }

end Given

/-- The argument is an option and no value. -/
def isOption (arg : String) : Bool := arg.toList.head? = some '-' && arg ≠ "-"

/-- What to do after an argument: go on with the next one, or take it as the value of a setting. -/
inductive Next where
  | argument
  | value (setting : Setting)
  deriving DecidableEq, Repr

/-- Use the name of an option. -/
def useName (name : Name) (value : Option String) (given : Given) :
    Except Stop (Given × Next) :=
  match name, value with
  | .setting setting, some value => do return (← given.addSetting setting value, .argument)
  | .setting setting, none => .ok (given, .value setting)
  | _, some _ => .error .usage
  | .flag flag, none => do return (← given.addFlag flag, .argument)
  | .help, none => .error .help
  | .version, none => .error .version

/-- A long option, without its dashes. -/
def readLong (body : List Char) (given : Given) : Except Stop (Given × Next) :=
  let name := body.takeWhile (· ≠ '=')
  let value := (body.dropWhile (· ≠ '=')).tail?.map String.ofList
  match longNames.lookup (String.ofList name) with
  | some name => useName name value given
  | none => .error .usage

/-- The value that follows a short option at once, without an equals sign before it. -/
def attached? : List Char → Option String
  | [] => none
  | '=' :: rest => some (String.ofList rest)
  | rest => some (String.ofList rest)

/-- Short options that are written together, without their dash. -/
def readShort : List Char → Given → Except Stop (Given × Next)
  | [], given => .ok (given, .argument)
  | c :: rest, given =>
    match shortNames.lookup c with
    | some (.setting setting) => useName (.setting setting) (attached? rest) given
    | some name => do
      let (given, _) ← useName name none given
      readShort rest given
    | none => .error .usage

/-- One argument that may be an option. -/
def readArgument (arg : String) (given : Given) : Except Stop (Given × Next) :=
  match arg.toList with
  | '-' :: '-' :: body => readLong body given
  | ['-'] => do return (← given.addRoot arg, .argument)
  | '-' :: body => readShort body given
  | _ => do return (← given.addRoot arg, .argument)

/-- All arguments, given what to do with the first one. -/
def readArguments : Next → List String → Given → Except Stop Given
  | .argument, [], given => .ok given
  | .value _, [], _ => .error .usage
  | .value setting, arg :: rest, given =>
    if isOption arg then .error .usage
    else do readArguments .argument rest (← given.addSetting setting arg)
  | .argument, arg :: rest, given =>
    if arg = "--" then rest.foldlM (fun given arg => given.addRoot arg) given
    else do
      let (given, next) ← readArgument arg given
      readArguments next rest given

/-- What a run is asked to do. -/
structure Arguments where
  root : String := "."
  database : Option String := none
  buildLog : Option String := none
  jobs : Option Nat := none
  config : Option String := none
  flags : List Flag := []
  deriving DecidableEq, Repr

/-- What arguments ask for. -/
inductive Request where
  | run (arguments : Arguments)
  | help
  | version
  deriving DecidableEq, Repr

/-- The arguments as they were given, with the database of the environment if none was given. -/
def Given.arguments (environment : Option String) (given : Given) : Except Stop Arguments := do
  let given ← match given.settings.lookup .database, environment with
    | none, some path => given.addSetting .database path
    | _, _ => pure given
  if given.flags.contains .verbose && given.flags.contains .quiet then throw .usage
  return { root := given.root.getD "."
           database := given.settings.lookup .database
           buildLog := given.settings.lookup .buildLog
           jobs := (given.settings.lookup .jobs).bind jobs?
           config := given.settings.lookup .config
           flags := given.flags }

/-- What arguments ask for; nothing if they are wrong. -/
def Request.parse (environment : Option String) (args : List String) : Option Request :=
  match readArguments .argument args {} >>= Given.arguments environment with
  | .ok arguments => some (.run arguments)
  | .error .help => some .help
  | .error .version => some .version
  | .error .usage => none

end SymbolAtlas.CommandLine
