import SymbolAtlas.Model.Outcome

/-!
# Handles to outcomes

A parser answers with a handle to its outcome. The outcome may be there already, may come through
a channel from another party, or may be the joint outcome of several handles.

* `Channel`: what has become of a channel; its producer sends at most once or goes away.
* `Handle.poll`: ask for the outcome without waiting.
* `Handle.wait`: wait for the outcome, which blocks as long as a producer has done nothing.

An outcome can be taken once. A join counts a child that errs as failed, asks every child until it
has answered, and keeps the answers in between.
-/

namespace SymbolAtlas

/-- The state of a channel. -/
inductive Channel where
  /-- the producer has done nothing yet -/
  | waiting
  | sent (outcome : Outcome)
  /-- the producer went away without sending -/
  | dropped
  deriving DecidableEq, Repr, Inhabited

/-- The channels of a run, by number. -/
abbrev Channels := List Channel

namespace Channels

/-- The state of a channel; one that does not exist has no producer. -/
def state (channels : Channels) (id : Nat) : Channel := channels[id]?.getD .dropped

/-- Send through a channel, if its producer is still there. -/
def send (channels : Channels) (id : Nat) (outcome : Outcome) : Channels :=
  if channels.state id = .waiting then channels.set id (.sent outcome) else channels

/-- The producer of a channel goes away. -/
def drop (channels : Channels) (id : Nat) : Channels :=
  if channels.state id = .waiting then channels.set id .dropped else channels

/-- All producers go away. -/
def dropAll (channels : Channels) : Channels :=
  channels.map fun c => if c = .waiting then .dropped else c

end Channels

/-- Why there is no outcome. -/
inductive HandleError where
  /-- the producer went away without sending -/
  | abandoned
  /-- the outcome was taken before -/
  | consumed
  deriving DecidableEq, Repr

/-- The text of an error. -/
def HandleError.message : HandleError → String
  | .abandoned => "parse outcome was abandoned before completion"
  | .consumed => "parse outcome was already taken"

/-- A handle to an outcome. -/
inductive Handle where
  | ready (outcome : Outcome)
  /-- the outcome comes through a channel -/
  | pending (channel : Nat)
  /-- the joint outcome of children, with the outcome of those that have answered -/
  | joined (children : List (Handle × Option Outcome))
  | taken
  deriving Repr, Inhabited

namespace Handle

/-- What polling finds. -/
inductive Poll where
  | pending
  | done (result : Except HandleError Outcome)

/-- A join of handles; of none, success. -/
def join (handles : List Handle) : Handle :=
  if handles.isEmpty then .ready .success else .joined (handles.map fun h => (h, none))

/-- The worst of the outcomes, if all children have answered. -/
def joint? (children : List (Handle × Option Outcome)) : Option Outcome :=
  (children.mapM Prod.snd).map Outcome.worstOf

/-- What a child that was polled adds to its join. -/
def Poll.childOutcome : Poll → Option Outcome
  | .pending => none
  | .done (.ok outcome) => some outcome
  | .done (.error _) => some .fail

mutual

/-- Ask for the outcome, and the handle afterwards. -/
def poll (channels : Channels) : Handle → Handle × Poll
  | .ready outcome => (.taken, .done (.ok outcome))
  | .pending id =>
    match channels.state id with
    | .waiting => (.pending id, .pending)
    | .sent outcome => (.taken, .done (.ok outcome))
    | .dropped => (.taken, .done (.error .abandoned))
  | .joined children =>
    let children := pollChildren channels children
    match joint? children with
    | some outcome => (.taken, .done (.ok outcome))
    | none => (.joined children, .pending)
  | .taken => (.taken, .done (.error .consumed))

/-- Poll the children that have not answered. -/
def pollChildren (channels : Channels) :
    List (Handle × Option Outcome) → List (Handle × Option Outcome)
  | [] => []
  | (handle, some outcome) :: rest => (handle, some outcome) :: pollChildren channels rest
  | (handle, none) :: rest =>
    let (handle, found) := poll channels handle
    (handle, found.childOutcome) :: pollChildren channels rest

end

mutual

/-- Wait for the outcome; none as long as that blocks. -/
def wait (channels : Channels) : Handle → Option (Except HandleError Outcome)
  | .ready outcome => some (.ok outcome)
  | .pending id =>
    match channels.state id with
    | .waiting => none
    | .sent outcome => some (.ok outcome)
    | .dropped => some (.error .abandoned)
  | .joined children => (waitChildren channels children).map fun found => .ok (.worstOf found)
  | .taken => some (.error .consumed)

/-- Wait for the outcomes of the children of a join, one after the other. -/
def waitChildren (channels : Channels) :
    List (Handle × Option Outcome) → Option (List Outcome)
  | [] => some []
  | (_, some outcome) :: rest => (waitChildren channels rest).map (outcome :: ·)
  | (handle, none) :: rest => do
    let found ← wait channels handle
    let others ← waitChildren channels rest
    return (match found with
      | .ok outcome => outcome
      | .error _ => .fail) :: others

end

end Handle

end SymbolAtlas
