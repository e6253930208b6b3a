import SymbolAtlas.Proofs.Outcome.Handle

/-!
# Asking for an outcome again and again

A handle is asked at any time and any number of times, while producers send or go away.

- **Promises** (`Promise`): what a handle is made of, however deep. `Promise.value` is the outcome
  that it stands for, told from what the channels hold, and `Promise.Waits` says that a channel in
  it has neither sent nor been given up.
- **Handles keep their promise** (`Promise.Keeps`): from some channels on, a handle waits for the
  same channels as the promise and has its value. It does so when it is made (`keeps_handle`), while
  producers go on (`Keeps.leads`), and after every poll that comes too early (`Keeps.poll_pending`).
- **Histories** (`Watch`): after any events, the answers so far are of one shape: pending, as often
  as it was asked too early, then the value once, then that it was taken (`Watch.Shape.run`).
-/

namespace SymbolAtlas

/-- The worst of several outcomes: failed if one has failed, else deferred if one was deferred. -/
def Outcome.worstAmong (outcomes : List Outcome) : Outcome :=
  if .fail ∈ outcomes then .fail else if .deferred ∈ outcomes then .deferred else .success

theorem Outcome.foldl_worst (first : Outcome) (outcomes : List Outcome) :
    outcomes.foldl worst first = worstAmong (first :: outcomes) := by
  induction outcomes generalizing first with
  | nil => cases first <;> rfl
  | cons outcome rest ih =>
    rw [List.foldl_cons, ih]
    cases first <;> cases outcome <;> simp [worstAmong, worst, badness]

theorem Outcome.worstOf_eq (outcomes : List Outcome) : worstOf outcomes = worstAmong outcomes := by
  rw [worstOf, foldl_worst]
  simp [worstAmong]

/-- What a handle is made of. -/
inductive Promise where
  | ready (outcome : Outcome)
  /-- a channel, whose producer may be a job that was started -/
  | channel (id : Nat)
  | join (parts : List Promise)
  /-- a handle whose outcome was taken before -/
  | consumed

namespace Promise

mutual

/-- The handle of a promise. -/
def handle : Promise → Handle
  | .ready outcome => .ready outcome
  | .channel id => .pending id
  | .join parts => .join (handles parts)
  | .consumed => .taken

/-- The handles of several promises. -/
def handles : List Promise → List Handle
  | [] => []
  | part :: rest => part.handle :: handles rest

end

mutual

/-- The channels in a promise. -/
def channelIds : Promise → List Nat
  | .ready _ | .consumed => []
  | .channel id => [id]
  | .join parts => allChannelIds parts

/-- The channels in several promises. -/
def allChannelIds : List Promise → List Nat
  | [] => []
  | part :: rest => part.channelIds ++ allChannelIds rest

end

mutual

/-- The outcome that a promise stands for, once none of its channels waits. -/
def value (channels : Channels) : Promise → Except HandleError Outcome
  | .ready outcome => .ok outcome
  | .channel id =>
    match channels.state id with
    | .sent outcome => .ok outcome
    | .waiting | .dropped => .error .abandoned
  | .join parts => .ok (Outcome.worstAmong (partOutcomes channels parts))
  | .consumed => .error .consumed

/-- The outcomes of the parts of a join, where one that errs has failed. -/
def partOutcomes (channels : Channels) : List Promise → List Outcome
  | [] => []
  | part :: rest =>
    (match part.value channels with
    | .ok outcome => outcome
    | .error _ => .fail) :: partOutcomes channels rest

end

/-- A channel in the promise has neither sent nor been given up. -/
def Waits (promise : Promise) (channels : Channels) : Prop :=
  ∃ id ∈ promise.channelIds, channels.state id = .waiting

/-! ## Handles keep their promise -/

mutual

theorem value_handle (channels : Channels) :
    ∀ promise : Promise, promise.handle.value channels = promise.value channels
  | .ready _ | .consumed => by simp [handle, value, Handle.value]
  | .channel id => by
    cases hstate : channels.state id <;> simp [handle, value, Handle.value, hstate]
  | .join [] => rfl
  | .join (part :: rest) => by
    have hparts := valueChildren_handles channels (part :: rest)
    simp only [handles, List.map_cons] at hparts
    simp [handle, value, Handle.join, handles, Handle.value, Outcome.worstOf_eq, hparts]

theorem valueChildren_handles (channels : Channels) : ∀ parts : List Promise,
    Handle.valueChildren channels ((handles parts).map fun h => (h, none)) =
      partOutcomes channels parts
  | [] => rfl
  | part :: rest => by
    have hpart := value_handle channels part
    have hrest := valueChildren_handles channels rest
    cases hvalue : part.value channels <;>
      simp [handles, Handle.valueChildren, partOutcomes, hpart, hrest, hvalue]

end

mutual

theorem resolved_handle (channels : Channels) : ∀ promise : Promise,
    promise.handle.resolved channels = true ↔
      ∀ id ∈ promise.channelIds, channels.state id ≠ .waiting
  | .ready _ | .consumed => by simp [handle, channelIds, Handle.resolved]
  | .channel id => by simp [handle, channelIds, Handle.resolved]
  | .join [] => by simp [handle, handles, channelIds, allChannelIds, Handle.join, Handle.resolved]
  | .join (part :: rest) => by
    have hparts := resolvedChildren_handles channels (part :: rest)
    simp only [handles, List.map_cons] at hparts
    simpa [handle, channelIds, Handle.join, handles, Handle.resolved] using hparts

theorem resolvedChildren_handles (channels : Channels) : ∀ parts : List Promise,
    Handle.resolvedChildren channels ((handles parts).map fun h => (h, none)) = true ↔
      ∀ id ∈ allChannelIds parts, channels.state id ≠ .waiting
  | [] => by simp [handles, allChannelIds, Handle.resolvedChildren]
  | part :: rest => by
    simp only [handles, List.map_cons, Handle.resolvedChildren, allChannelIds, Bool.and_eq_true,
      List.forall_mem_append]
    rw [resolved_handle channels part, resolvedChildren_handles channels rest]

end

/-- From these channels on, the handle waits for the channels of the promise and has its value. -/
structure Keeps (promise : Promise) (channels : Channels) (h : Handle) : Prop where
  value : ∀ later, channels.Leads later → h.value later = promise.value later
  resolved : ∀ later, channels.Leads later → (h.resolved later = true ↔ ¬ promise.Waits later)

variable {promise : Promise} {channels later : Channels} {h h' : Handle}

theorem keeps_handle (promise : Promise) (channels : Channels) :
    promise.Keeps channels promise.handle := by
  refine ⟨fun later _ => value_handle later promise, fun later _ => ?_⟩
  rw [resolved_handle]
  simp [Waits]

theorem Keeps.leads (hkeeps : promise.Keeps channels h) (hleads : channels.Leads later) :
    promise.Keeps later h :=
  ⟨fun after hafter => hkeeps.value after (hleads.trans hafter),
    fun after hafter => hkeeps.resolved after (hleads.trans hafter)⟩

/-- Waiting blocks while a channel waits. -/
theorem Keeps.wait_eq_none (hkeeps : promise.Keeps channels h) (hwaits : promise.Waits channels) :
    h.wait channels = none := by
  rw [Handle.wait_eq, if_neg]
  exact fun hres => (hkeeps.resolved channels (.refl _)).mp hres hwaits

/-- Waiting gives the value once no channel waits. -/
theorem Keeps.wait_eq_some (hkeeps : promise.Keeps channels h)
    (hsettled : ¬ promise.Waits channels) : h.wait channels = some (promise.value channels) := by
  rw [Handle.wait_eq, if_pos ((hkeeps.resolved channels (.refl _)).mpr hsettled),
    hkeeps.value channels (.refl _)]

/-- A poll that finds nothing was too early, and the handle it leaves is as good. -/
theorem Keeps.poll_pending (hkeeps : promise.Keeps channels h)
    (hp : h.poll channels = (h', .pending)) :
    promise.Waits channels ∧ promise.Keeps channels h' := by
  obtain ⟨hres, hstands⟩ := Handle.poll_pending_spec hp
  have hwaits : promise.Waits channels := by
    by_contra hnot
    rw [(hkeeps.resolved channels (.refl _)).mpr hnot] at hres
    cases hres
  refine ⟨hwaits, fun later hl => ?_, fun later hl => ?_⟩
  · rw [hstands.value later hl, hkeeps.value later hl]
  · rw [hstands.resolved later hl, hkeeps.resolved later hl]

/-- A poll that finds something finds the value of the promise. -/
theorem Keeps.poll_done (hkeeps : promise.Keeps channels h)
    {result : Except HandleError Outcome} (hp : h.poll channels = (h', .done result)) :
    ¬ promise.Waits channels ∧ result = promise.value channels := by
  obtain ⟨hres, hvalue⟩ := Handle.poll_done_spec hp
  exact ⟨(hkeeps.resolved channels (.refl _)).mp hres,
    hvalue.symm.trans (hkeeps.value channels (.refl _))⟩

/-- Once no channel waits, nothing about a promise changes any more. -/
theorem settled_of_leads (hleads : channels.Leads later) (hsettled : ¬ promise.Waits channels) :
    ¬ promise.Waits later ∧ promise.value later = promise.value channels := by
  have hres : promise.handle.resolved channels = true :=
    ((keeps_handle promise channels).resolved channels (.refl _)).mpr hsettled
  obtain ⟨hlater, hvalue⟩ := Handle.resolved_spec hleads _ hres
  rw [value_handle, value_handle] at hvalue
  exact ⟨((keeps_handle promise channels).resolved later hleads).mp hlater, hvalue⟩

end Promise

/-- A poll that finds something takes it. -/
theorem Handle.poll_done_taken {channels : Channels} {h h' : Handle}
    {result : Except HandleError Outcome} (hp : h.poll channels = (h', .done result)) :
    h' = .taken := by
  cases h with
  | ready outcome => simp_all [poll]
  | taken => simp_all [poll]
  | pending id =>
    simp only [poll] at hp
    cases hstate : channels.state id <;> simp_all
  | joined children =>
    simp only [poll] at hp
    cases hjoint : joint? (pollChildren channels children) <;> simp_all

/-! ## Histories -/

/-- A handle that is being asked, the channels, and the answers so far. -/
structure Watch where
  channels : Channels
  handle : Handle
  answers : List Handle.Poll

namespace Watch

/-- What can happen. -/
inductive Event where
  | send (id : Nat) (outcome : Outcome)
  | drop (id : Nat)
  | poll

/-- One event. -/
def step (w : Watch) : Event → Watch
  | .send id outcome => { w with channels := w.channels.send id outcome }
  | .drop id => { w with channels := w.channels.drop id }
  | .poll =>
    { w with
      handle := (w.handle.poll w.channels).1
      answers := w.answers ++ [(w.handle.poll w.channels).2] }

/-- Events in order. -/
def run (w : Watch) (events : List Event) : Watch := events.foldl step w

/-- The answer that the outcome was taken. -/
def takenBefore : Handle.Poll := .done (.error .consumed)

/-- Where a watch for a promise can stand. -/
inductive Shape (promise : Promise) (w : Watch) : Prop where
  /-- whenever it was asked, it was too early -/
  | early (k : Nat) (hanswers : w.answers = List.replicate k .pending)
      (hkeeps : promise.Keeps w.channels w.handle)
  /-- the value was given, and nothing but that it was taken ever since -/
  | given (k m : Nat) (htaken : w.handle = .taken) (hsettled : ¬ promise.Waits w.channels)
      (hanswers : w.answers = List.replicate k .pending ++
        .done (promise.value w.channels) :: List.replicate m takenBefore)

variable {promise : Promise} {w : Watch}

/-- Producers go on. -/
theorem Shape.leads (hshape : w.Shape promise) {channels : Channels}
    (hleads : w.channels.Leads channels) : Shape promise { w with channels } := by
  cases hshape with
  | early k hanswers hkeeps => exact .early k hanswers (hkeeps.leads hleads)
  | given k m htaken hsettled hanswers =>
    obtain ⟨hsettled', hvalue⟩ := Promise.settled_of_leads hleads hsettled
    exact .given k m htaken hsettled' (by rw [hanswers, hvalue])

/-- One more poll. -/
theorem Shape.poll (hshape : w.Shape promise) : (w.step .poll).Shape promise := by
  cases hshape with
  | early k hanswers hkeeps =>
    rcases hp : w.handle.poll w.channels with ⟨h', _ | result⟩
    · refine .early (k + 1) ?_ ?_
      · simp [step, hp, hanswers, List.replicate_succ']
      · simpa [step, hp] using (hkeeps.poll_pending hp).2
    · obtain ⟨hsettled, rfl⟩ := hkeeps.poll_done hp
      refine .given k 0 ?_ hsettled ?_
      · simpa [step, hp] using Handle.poll_done_taken hp
      · simp [step, hp, hanswers]
  | given k m htaken hsettled hanswers =>
    refine .given k (m + 1) ?_ hsettled ?_
    · simp [step, htaken, Handle.poll]
    · simp [step, htaken, Handle.poll, hanswers, List.replicate_succ', takenBefore]

theorem Shape.step (hshape : w.Shape promise) (event : Event) : (w.step event).Shape promise := by
  cases event with
  | send id outcome => exact hshape.leads (Channels.leads_send _ id outcome)
  | drop id => exact hshape.leads (Channels.leads_drop _ id)
  | poll => exact hshape.poll

theorem Shape.run (hshape : w.Shape promise) (events : List Event) :
    (w.run events).Shape promise := by
  induction events generalizing w with
  | nil => exact hshape
  | cons event rest ih => exact ih (hshape.step event)

/-- A handle is asked while its producers go on, in any order.

Asked once more, it answers that it is pending just when a channel in it still waits. The answers so
far were that it is pending, as often as it was asked too early; then, if a poll found it, the value
of the promise; then that it was taken, and this is what every further poll answers. As long as no
poll has found the value, waiting blocks while a channel waits, and then gives the value, and so
does a poll. -/
theorem polled_answers (promise : Promise) (channels : Channels) (events : List Event) :
    let w := run ⟨channels, promise.handle, []⟩ events
    ((w.handle.poll w.channels).2 = .pending ↔ promise.Waits w.channels) ∧
    ((∃ k, w.answers = List.replicate k .pending ∧
        (promise.Waits w.channels → w.handle.wait w.channels = none) ∧
        (¬ promise.Waits w.channels →
          w.handle.wait w.channels = some (promise.value w.channels) ∧
          (w.handle.poll w.channels).2 = .done (promise.value w.channels))) ∨
      ∃ k m, w.answers = List.replicate k .pending ++
          .done (promise.value w.channels) :: List.replicate m (.done (.error .consumed)) ∧
        ¬ promise.Waits w.channels ∧
        (w.handle.poll w.channels).2 = .done (.error .consumed)) := by
  intro w
  have hstart : Shape promise ⟨channels, promise.handle, []⟩ :=
    .early 0 rfl (promise.keeps_handle channels)
  have hshape : w.Shape promise := hstart.run events
  cases hshape with
  | early k hanswers hkeeps =>
    rcases hp : w.handle.poll w.channels with ⟨h', _ | result⟩
    · obtain ⟨hwaits, -⟩ := hkeeps.poll_pending hp
      exact ⟨by simpa using hwaits, .inl ⟨k, hanswers, fun _ => hkeeps.wait_eq_none hwaits,
        fun hnot => absurd hwaits hnot⟩⟩
    · obtain ⟨hsettled, rfl⟩ := hkeeps.poll_done hp
      exact ⟨by simpa using hsettled, .inl ⟨k, hanswers, fun hwaits => absurd hwaits hsettled,
        fun _ => ⟨hkeeps.wait_eq_some hsettled, rfl⟩⟩⟩
  | given k m htaken hsettled hanswers =>
    have hpoll : (w.handle.poll w.channels).2 = .done (.error .consumed) := by
      rw [htaken]
      simp [Handle.poll]
    exact ⟨by simpa [hpoll] using hsettled, .inr ⟨k, m, hanswers, hsettled, hpoll⟩⟩

/-- The inner join is asked again until its own channel has sent, and counts as failed for the part
that was taken before. -/
example :
    (run ⟨[.waiting, .waiting],
        (Promise.join [.channel 0, .join [.channel 1, .consumed]]).handle, []⟩
      [.poll, .send 0 .deferred, .poll, .drop 1, .poll, .poll]).answers =
    [.pending, .pending, .done (.ok .fail), .done (.error .consumed)] := by
  rfl

end Watch

end SymbolAtlas
