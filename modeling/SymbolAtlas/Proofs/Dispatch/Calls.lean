import Mathlib.Logic.Relation
import SymbolAtlas.Dispatch.Pass
import SymbolAtlas.Proofs.Store.Database

/-!
# Calls to parsers

What dispatching a task to parsers does to the bench.

- **What plugins record** (`Plugin.Acts`, `Registry.Acts`): the change of the tables by one call.
- **Calls** (`Bench.Called`, `Work.Calls`): parsers are called for one action. Plugins may record
  what they find; the counts, the collector and the cursor stay as they are, also when a plugin
  crashes. Whatever a task is made of does no more than that (`calls_results`).
- **Answers** (`Parser.Answers`, `Work.Gives`): if no plugin crashes, a task has one result for each
  of its sources, or one for the whole command (`gives_results`).
-/

namespace SymbolAtlas

variable {α β : Type}

/-- The action that a call is about, if it is about one. -/
def Call.action? : Call → Option Int
  | .parse _ action _ _ _ | .command _ action _ => some action
  | .afterParse _ => none

/-! ## What plugins record -/

/-- What a plugin does to the tables when it is called, whatever plugins remember then. -/
inductive Plugin.Acts (p : Plugin) (before : Store) : Store → Prop where
  | parse (memory : String) (action : BuildAction) (source : File) (target : Option File)
      (options : Command.Options) :
      Acts p before ((p.parse ⟨memory, before⟩ action source target options).2.record before)
  | command {command : View → BuildAction → List FilePair → Command.Options →
        Option Reply × Effects} (hcommand : p.command = some command) (memory : String)
      (action : BuildAction) (pairs : List FilePair) (options : Command.Options) :
      Acts p before ((command ⟨memory, before⟩ action pairs options).2.record before)
  | afterParse (memory : String) (tally : Tally) :
      Acts p before ((p.afterParse ⟨memory, before⟩ tally).2.record before)

/-- What a parser does to the tables when it is called; the indexer does nothing at once. -/
def Parser.Acts : Parser → Store → Store → Prop
  | .indexer, _, _ => False
  | .plugin p, before, after => p.Acts before after

/-- One of the parsers that are used does this to the tables when it is called. -/
def Registry.Acts (registry : Registry) (before after : Store) : Prop :=
  ∃ parser ∈ registry.enabled, parser.Acts before after

/-- What plugins do to the tables is to record what they find, with calls that leave the build graph
alone. -/
theorem Registry.Acts.records {registry : Registry} {before after : Store}
    (h : registry.Acts before after) :
    ∃ effects : Plugin.Effects, after = effects.record before := by
  obtain ⟨parser, -, hacts⟩ := h
  cases parser with
  | indexer => exact hacts.elim
  | plugin p => cases hacts <;> exact ⟨_, rfl⟩

/-! ## Calls -/

/-- Plugins were called for an action and for no other. -/
def Bench.CallsFor (action : Int) (before after : Bench) : Prop :=
  ∃ new, after.calls = before.calls ++ new ∧ ∀ call ∈ new, call.action? = some action

/-- Parsers were called for an action, and did so to the tables. Nothing else was done that the
scheduler or the collector can see. -/
structure Bench.Called (acts : Store → Store → Prop) (action : Int) (before after : Bench) :
    Prop where
  database : after.database = { before.database with store := after.database.store }
  store : Relation.ReflTransGen acts before.database.store after.database.store
  collector : after.collector = before.collector
  tally : after.tally = before.tally
  cursor : after.cursor = before.cursor
  calls : CallsFor action before after

namespace Bench.Called

variable {acts acts' : Store → Store → Prop} {action : Int} {before between after : Bench}

theorem refl (acts : Store → Store → Prop) (action : Int) (bench : Bench) :
    Called acts action bench bench :=
  ⟨rfl, .refl, rfl, rfl, rfl, [], by simp, by simp⟩

theorem trans (h : Called acts action before between) (h' : Called acts action between after) :
    Called acts action before after := by
  obtain ⟨new, hcalls, hnew⟩ := h.calls
  obtain ⟨new', hcalls', hnew'⟩ := h'.calls
  refine ⟨?_, h.store.trans h'.store, h'.collector.trans h.collector, h'.tally.trans h.tally,
    h'.cursor.trans h.cursor, new ++ new', by rw [hcalls', hcalls, List.append_assoc], ?_⟩
  · rw [h'.database, h.database]
  · intro call hcall
    exact (List.mem_append.mp hcall).elim (hnew call) (hnew' call)

theorem mono (h : Called acts action before after)
    (hacts : ∀ store store', acts store store' → acts' store store') :
    Called acts' action before after :=
  { h with store := Relation.ReflTransGen.mono hacts _ _ h.store }

theorem refuses (h : Called acts action before after) :
    after.database.refuses = before.database.refuses := by
  rw [h.database]
  rfl

end Bench.Called

/-- The work does nothing but call parsers for an action. -/
def Work.Calls (acts : Store → Store → Prop) (action : Int) (work : Work α) : Prop :=
  ∀ bench, Bench.Called acts action bench (work.run.run bench).2

/-- While the database takes statements, the work succeeds with a result of which `P` holds. -/
def Work.Gives (P : α → Prop) (work : Work α) : Prop :=
  ∀ bench, bench.database.refuses = false → ∃ a after, work.run.run bench = (.ok a, after) ∧
    after.database.refuses = false ∧ P a

namespace Work

variable {acts acts' : Store → Store → Prop} {action : Int} {work : Work α} {next : α → Work β}
  {P : α → Prop} {Q : β → Prop}

theorem Calls.pure (acts : Store → Store → Prop) (action : Int) (a : α) :
    Calls acts action (pure a : Work α) :=
  fun bench => .refl acts action bench

theorem Calls.bind (h : Calls acts action work) (hnext : ∀ a, Calls acts action (next a)) :
    Calls acts action (work >>= next) := by
  intro bench
  have hfirst := h bench
  rw [run_run_bind]
  rcases hrun : work.run.run bench with ⟨_ | a, between⟩
  · rw [hrun] at hfirst
    exact hfirst
  · rw [hrun] at hfirst
    exact hfirst.trans (hnext a between)

theorem Calls.mono (h : Calls acts action work)
    (hacts : ∀ store store', acts store store' → acts' store store') :
    Calls acts' action work := fun bench => (h bench).mono hacts

theorem Calls.mapM {f : α → Work β} (h : ∀ a, Calls acts action (f a)) (as : List α) :
    Calls acts action (as.mapM f) := by
  induction as with
  | nil => exact .pure acts action []
  | cons a as ih =>
    rw [List.mapM_cons]
    exact (h a).bind fun b => ih.bind fun bs => .pure acts action (b :: bs)

theorem Gives.pure {a : α} (h : P a) : Gives P (pure a : Work α) :=
  fun bench hbench => ⟨a, bench, rfl, hbench, h⟩

theorem Gives.bind (h : Gives P work) (hnext : ∀ a, P a → Gives Q (next a)) :
    Gives Q (work >>= next) := by
  intro bench hbench
  obtain ⟨a, between, hrun, hbetween, ha⟩ := h bench hbench
  obtain ⟨b, after, hrun', hafter⟩ := hnext a ha between hbetween
  exact ⟨b, after, by rw [run_run_bind, hrun]; exact hrun', hafter⟩

theorem Gives.mapM {f : α → Work β} (h : ∀ a, Gives (fun _ => True) (f a)) (as : List α) :
    Gives (fun bs => bs.length = as.length) (as.mapM f) := by
  induction as with
  | nil => exact .pure rfl
  | cons a as ih =>
    rw [List.mapM_cons]
    exact (h a).bind fun b _ => ih.bind fun bs hbs => .pure (by simp [hbs])

end Work

/-! ## Calling parsers -/

theorem Work.run_onDatabase (work : Tx α) (bench : Bench) :
    (Work.onDatabase work).run.run bench =
      ((work.run.run bench.database).1,
        { bench with database := (work.run.run bench.database).2 }) := rfl

/-- A new channel is nothing that the scheduler or the collector sees. -/
theorem calls_newChannel (acts : Store → Store → Prop) (action : Int) (state : Channel) :
    (modifyGet (Bench.newChannel state) : Work Nat).Calls acts action :=
  fun bench => ⟨rfl, .refl, rfl, rfl, rfl, [], (List.append_nil bench.calls).symm, by simp⟩

theorem calls_outside (acts : Store → Store → Prop) (action : Int) (id : Nat) :
    (modify fun bench => { bench with producers := bench.producers ++ [id] } :
      Work Unit).Calls acts action :=
  fun bench => ⟨rfl, .refl, rfl, rfl, rfl, [], (List.append_nil bench.calls).symm, by simp⟩

/-- Work that makes channels, and does nothing else. -/
inductive Work.Channelling : {α : Type} → Work α → Prop where
  | pure {α : Type} (a : α) : Channelling (pure a : Work α)
  | bind {α β : Type} {work : Work α} {next : α → Work β} : Channelling work →
      (∀ a, Channelling (next a)) → Channelling (work >>= next)
  | new (state : Channel) : Channelling (modifyGet (Bench.newChannel state) : Work Nat)
  | outside (id : Nat) : Channelling
      (modify fun bench => { bench with producers := bench.producers ++ [id] } : Work Unit)

-- a reply may hold others, so its handle is spoken of together with theirs
mutual

theorem Reply.channelling_handle (reply : Reply) : reply.handle.Channelling := by
  unfold Reply.handle
  match reply with
  | .ready _ | .taken => exact .pure _
  | .started (some _) | .started none | .abandoned => exact (.bind (.new _) fun _ => .pure _)
  | .channel => exact .bind (.new _) fun id => .bind (.outside id) fun _ => .pure _
  | .joined replies => exact .bind (channelling_handles replies) fun _ => .pure _

theorem Reply.channelling_handles (replies : List Reply) : (Reply.handles replies).Channelling := by
  unfold Reply.handles
  match replies with
  | [] => exact .pure _
  | reply :: rest =>
    exact .bind (channelling_handle reply) fun _ =>
      .bind (channelling_handles rest) fun _ => .pure _

end

theorem Work.Channelling.calls {α : Type} {work : Work α} (h : work.Channelling)
    (acts : Store → Store → Prop) (action : Int) : work.Calls acts action := by
  induction h with
  | pure a => exact .pure acts action a
  | bind _ _ ih ihnext => exact ih.bind ihnext
  | new state => exact calls_newChannel acts action state
  | outside id => exact calls_outside acts action id

theorem Work.Channelling.gives {α : Type} {work : Work α} (h : work.Channelling) :
    work.Gives fun _ => True := by
  induction h with
  | pure a => exact .pure trivial
  | bind _ _ ih ihnext => exact ih.bind fun a _ => ihnext a
  | new state => exact fun _ hbench => ⟨_, _, rfl, hbench, trivial⟩
  | outside id => exact fun _ hbench => ⟨_, _, rfl, hbench, trivial⟩

section

variable {acts : Store → Store → Prop} {action : Int}
  {act : Plugin.View → Option Reply × Plugin.Effects}

/-- Where the database takes statements, what a plugin records is recorded, and then its reply
counts. Elsewhere, the plugin is called all the same. -/
theorem Plugin.run_respond (act : View → Option Reply × Effects) (bench : Bench) :
    (respond act).run.run bench =
      if bench.database.refuses then
        (.error .engine,
          { bench with memory := (act ⟨bench.memory, bench.database.store⟩).2.memory })
      else
        (match (act ⟨bench.memory, bench.database.store⟩).1 with
          | some reply => reply.handle
          | none => throw Fault.crashed).run.run
          { bench with
            memory := (act ⟨bench.memory, bench.database.store⟩).2.memory
            database := { bench.database with
              store := (act ⟨bench.memory, bench.database.store⟩).2.record bench.database.store } } := by
  have hget : (get : Work Bench).run.run bench = (.ok bench, bench) := rfl
  unfold respond
  rw [run_run_bind, hget]
  dsimp only
  generalize act ⟨bench.memory, bench.database.store⟩ = answer
  obtain ⟨reply, effects⟩ := answer
  have hmodify : (modify fun bench => { bench with memory := effects.memory } :
      Work Unit).run.run bench = (.ok (), { bench with memory := effects.memory }) := rfl
  dsimp only
  rw [run_run_bind, hmodify]
  dsimp only
  rw [run_run_bind, Work.run_onDatabase]
  cases hdb : bench.database.refuses with
  | true => rw [Tx.run_write_of_refuses hdb]; rfl
  | false => rw [Tx.run_write hdb]; cases reply <;> rfl

theorem Plugin.calls_respond (hacts : ∀ memory store,
    acts store ((act ⟨memory, store⟩).2.record store)) :
    (Plugin.respond act).Calls acts action := by
  intro bench
  rw [run_respond]
  split
  · exact ⟨rfl, .refl, rfl, rfl, rfl, [], by simp, by simp⟩
  · have hrecorded : Bench.Called acts action bench { bench with
        memory := (act ⟨bench.memory, bench.database.store⟩).2.memory
        database := { bench.database with
          store := (act ⟨bench.memory, bench.database.store⟩).2.record bench.database.store } } :=
      ⟨rfl, .single (hacts _ _), rfl, rfl, rfl, [], by simp, by simp⟩
    cases (act ⟨bench.memory, bench.database.store⟩).1 with
    | none => exact hrecorded
    | some reply => exact hrecorded.trans (reply.channelling_handle.calls acts action _)

theorem Plugin.gives_respond (hacts : ∀ view, (act view).1.isSome) :
    (Plugin.respond act).Gives fun _ => True := by
  intro bench hbench
  obtain ⟨reply, hreply⟩ := Option.isSome_iff_exists.mp (hacts ⟨bench.memory, bench.database.store⟩)
  rw [run_respond, hbench, hreply]
  exact reply.channelling_handle.gives _ hbench

end

theorem calls_recordCall {acts : Store → Store → Prop} {action : Int} {call : Call}
    (h : call.action? = some action) : (recordCall call).Calls acts action :=
  fun _ => ⟨rfl, .refl, rfl, rfl, rfl, [call], rfl, by simpa using h⟩

theorem gives_recordCall (call : Call) : (recordCall call).Gives fun _ => True :=
  fun _ hbench => ⟨_, _, rfl, hbench, trivial⟩

namespace Parser

/-- Whatever it is given, the parser answers with a handle. -/
def Answers : Parser → Prop
  | .indexer => True
  | .plugin p =>
    (∀ view action source target options, (p.parse view action source target options).1.isSome) ∧
      ∀ command ∈ p.command, ∀ view action pairs options,
        (command view action pairs options).1.isSome

variable (parser : Parser) (action : BuildAction) (options : Command.Options)

theorem calls_parse (source : File) (target : Option File) :
    (parser.parse action options source target).Calls parser.Acts action.id := by
  cases parser with
  | indexer =>
    exact fun bench => ⟨rfl, .refl, rfl, rfl, rfl, [], (List.append_nil bench.calls).symm, by simp⟩
  | plugin p =>
    exact (calls_recordCall rfl).bind fun _ => Plugin.calls_respond fun _ _ => .parse ..

theorem calls_parseEach (pairs : List FilePair) :
    (parser.parseEach action options pairs).Calls parser.Acts action.id := by
  refine Work.Calls.mapM (fun pair => ?_) pairs
  cases pair.source with
  | some source => exact parser.calls_parse action options source pair.target
  | none => exact .pure _ _ _

theorem calls_parseCommand (pairs : List FilePair) :
    (parser.parseCommand action options pairs).Calls parser.Acts action.id := by
  have heach := (parser.calls_parseEach action options pairs).bind fun handles =>
    .pure parser.Acts action.id (Handle.join handles)
  cases parser with
  | indexer => exact heach
  | plugin p =>
    refine (calls_recordCall rfl).bind fun _ => ?_
    cases hcommand : p.command with
    | some command => exact Plugin.calls_respond fun _ _ => .command hcommand ..
    | none => exact heach

variable {parser}

theorem gives_parse (h : parser.Answers) (source : File) (target : Option File) :
    (parser.parse action options source target).Gives fun _ => True := by
  cases parser with
  | indexer => exact fun bench hbench => ⟨_, _, rfl, hbench, trivial⟩
  | plugin p =>
    exact (gives_recordCall _).bind fun _ _ => Plugin.gives_respond fun _ => h.1 ..

theorem gives_parseEach (h : parser.Answers) (pairs : List FilePair) :
    (parser.parseEach action options pairs).Gives fun handles =>
      handles.length = pairs.length := by
  refine Work.Gives.mapM (fun pair => ?_) pairs
  cases pair.source with
  | some source => exact gives_parse action options h source pair.target
  | none => exact .pure trivial

theorem gives_parseCommand (h : parser.Answers) (pairs : List FilePair) :
    (parser.parseCommand action options pairs).Gives fun _ => True := by
  have heach := (gives_parseEach action options h pairs).bind (Q := fun _ => True)
    fun handles _ => .pure (a := Handle.join handles) trivial
  cases parser with
  | indexer => exact heach
  | plugin p =>
    refine (gives_recordCall _).bind fun _ _ => ?_
    obtain ⟨-, hanswers⟩ := h
    cases hcommand : p.command with
    | some command => exact Plugin.gives_respond fun _ => hanswers command hcommand ..
    | none => exact heach

end Parser

section

variable (settings : DispatchSettings) (task : Task)

/-- The parsers that are used answer with handles. -/
def Registry.Answers (registry : Registry) : Prop :=
  ∀ parser ∈ registry.enabled, parser.Answers

theorem Registry.Answers.resolve {registry : Registry} (h : registry.Answers) {path : String}
    {parser : Parser} (hresolve : registry.resolve? path = some parser) : parser.Answers :=
  h parser (List.mem_of_find?_eq_some hresolve)

theorem Registry.acts_of_resolve {registry : Registry} {path : String} {parser : Parser}
    (hresolve : registry.resolve? path = some parser) (before after : Store)
    (h : parser.Acts before after) : registry.Acts before after :=
  ⟨parser, List.mem_of_find?_eq_some hresolve, h⟩

/-- The results of a task. -/
def Task.results : Work (List PendingResult) :=
  if task.wholeCommand then dispatchWhole settings task else dispatchEach settings task

theorem calls_dispatchSource (source : File) (target : Option File) :
    (dispatchSource settings task source target).Calls settings.registry.Acts task.action.id := by
  unfold dispatchSource
  cases hresolve : settings.registry.resolve? source.path with
  | some parser =>
    exact ((parser.calls_parse task.action task.options source target).mono
      (Registry.acts_of_resolve hresolve)).bind fun _ => .pure _ _ _
  | none => exact .pure _ _ _

theorem calls_results :
    (task.results settings).Calls settings.registry.Acts task.action.id := by
  unfold Task.results
  split
  · dsimp only [dispatchWhole]
    cases hfirst : (task.pairs.head?.bind FilePair.source).bind fun file =>
        settings.registry.resolve? file.path with
    | some parser =>
      obtain ⟨file, -, hresolve⟩ := Option.bind_eq_some_iff.mp hfirst
      exact ((parser.calls_parseCommand task.action task.options task.pairs).mono
        (Registry.acts_of_resolve hresolve)).bind fun _ => .pure _ _ _
    | none => exact .pure _ _ _
  · exact .mapM (fun ⟨source, target⟩ => calls_dispatchSource settings task source target) _

/-- How many results the task has if parsers answer. -/
def Task.resultCount : Nat := if task.wholeCommand then 1 else task.pairs.length

variable {settings}

theorem gives_dispatchSource (h : settings.registry.Answers) (source : File)
    (target : Option File) :
    (dispatchSource settings task source target).Gives fun _ => True := by
  unfold dispatchSource
  cases hr : settings.registry.resolve? source.path with
  | some parser =>
    exact (Parser.gives_parse task.action task.options (h.resolve hr) source target).bind
      fun _ _ => .pure trivial
  | none => exact .pure trivial

theorem gives_results (h : settings.registry.Answers)
    (hsources : (task.pairs.any fun pair => pair.source.isNone) = false) :
    (task.results settings).Gives fun results => results.length = task.resultCount := by
  unfold Task.results Task.resultCount
  split
  · dsimp only [dispatchWhole]
    cases hr : (task.pairs.head?.bind FilePair.source).bind fun file =>
        settings.registry.resolve? file.path with
    | some parser =>
      obtain ⟨file, -, hresolve⟩ := Option.bind_eq_some_iff.mp hr
      exact (Parser.gives_parseCommand task.action task.options (h.resolve hresolve)
        task.pairs).bind fun _ _ => .pure rfl
    | none => exact .pure rfl
  · have hlength : (task.pairs.filterMap fun pair =>
        pair.source.map fun source => (source, pair.target)).length = task.pairs.length := by
      rw [List.filterMap_length_eq_length]
      intro pair hpair
      have := List.any_eq_false.mp hsources pair hpair
      simpa [Option.isSome_iff_ne_none] using this
    rw [← hlength]
    exact .mapM (fun ⟨source, target⟩ => gives_dispatchSource task h source target) _

end

end SymbolAtlas
