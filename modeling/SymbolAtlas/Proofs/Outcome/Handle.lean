import Mathlib.Data.List.Basic
import SymbolAtlas.Outcome.Handle

/-!
# Polling and waiting

What becomes of a handle while producers go on.

- **Channels** (`Channels.Leads`): a producer that has sent or gone away does nothing any more.
  Every event of a producer leads on (`leads_send`, `leads_drop`).
- **Resolved handles** (`Handle.resolved`): no channel that the handle asks is still waiting. A
  handle stays resolved (`resolved_of_leads`), and what it comes to (`Handle.value`) is the same
  from then on (`value_eq_of_resolved`). Until then waiting blocks (`wait_eq`).
- **Polls** (`poll_pending_spec`, `poll_done_spec`): a poll finds the outcome just when the handle
  is resolved, and then it is what the handle comes to. A handle that was asked too early stands
  for the one it was (`StandsFor`): what a join has kept of its children is what these would still
  answer.
-/

namespace SymbolAtlas

namespace Channels

variable {before later after : Channels} {channels : Channels} {id : Nat}

/-- Producers that have sent or gone away do nothing any more. -/
def Leads (before after : Channels) : Prop :=
  ∀ id, before.state id ≠ .waiting → after.state id = before.state id

theorem Leads.refl (channels : Channels) : channels.Leads channels := fun _ _ => rfl

theorem Leads.trans (h : before.Leads later) (h' : later.Leads after) : before.Leads after := by
  intro id hid
  have hlater := h id hid
  rw [h' id (by rwa [hlater]), hlater]

theorem state_set (hid : channels.state id = .waiting) (c : Channel) (other : Nat) :
    state (channels.set id c) other = if other = id then c else channels.state other := by
  have hlt : id < channels.length := by
    by_contra hge
    rw [state, List.getElem?_eq_none (by omega)] at hid
    cases hid
  rw [state, List.getElem?_set]
  by_cases h : id = other
  · subst h
    simp [hlt]
  · simp [h, Ne.symm h, state]

theorem leads_set (hid : channels.state id = .waiting) (c : Channel) :
    channels.Leads (channels.set id c) := by
  intro other hother
  rw [state_set hid, if_neg]
  rintro rfl
  exact hother hid

theorem leads_send (channels : Channels) (id : Nat) (outcome : Outcome) :
    channels.Leads (channels.send id outcome) := by
  unfold send
  split
  · rename_i hid
    exact leads_set hid _
  · exact .refl _

theorem leads_drop (channels : Channels) (id : Nat) : channels.Leads (channels.drop id) := by
  unfold drop
  split
  · rename_i hid
    exact leads_set hid _
  · exact .refl _

theorem state_dropAll (channels : Channels) (id : Nat) :
    channels.dropAll.state id =
      if channels.state id = .waiting then .dropped else channels.state id := by
  unfold dropAll state
  rw [List.getElem?_map]
  cases channels[id]? <;> simp

theorem leads_dropAll (channels : Channels) : channels.Leads channels.dropAll := by
  intro id hid
  rw [state_dropAll, if_neg hid]

/-- No producer is left that could still do something. -/
def NoneWaiting (channels : Channels) : Prop := ∀ id, channels.state id ≠ .waiting

theorem noneWaiting_dropAll (channels : Channels) : channels.dropAll.NoneWaiting := by
  intro id
  rw [state_dropAll]
  split
  · decide
  · assumption

end Channels

namespace Handle

variable {channels before later : Channels} {h : Handle}

/-! ## Resolved handles -/

mutual

/-- No channel that the handle asks is still waiting. -/
def resolved (channels : Channels) : Handle → Bool
  | .ready _ | .taken => true
  | .pending id => channels.state id ≠ .waiting
  | .joined children => resolvedChildren channels children

/-- The same of the children of a join that have not answered. -/
def resolvedChildren (channels : Channels) : List (Handle × Option Outcome) → Bool
  | [] => true
  | (_, some _) :: rest => resolvedChildren channels rest
  | (handle, none) :: rest => handle.resolved channels && resolvedChildren channels rest

end

mutual

/-- The outcome that the handle comes to, if no producer sends any more. -/
def value (channels : Channels) : Handle → Except HandleError Outcome
  | .ready outcome => .ok outcome
  | .pending id =>
    match channels.state id with
    | .sent outcome => .ok outcome
    | .waiting | .dropped => .error .abandoned
  | .joined children => .ok (.worstOf (valueChildren channels children))
  | .taken => .error .consumed

/-- The outcomes that the children of a join come to. -/
def valueChildren (channels : Channels) : List (Handle × Option Outcome) → List Outcome
  | [] => []
  | (_, some outcome) :: rest => outcome :: valueChildren channels rest
  | (handle, none) :: rest =>
    (match value channels handle with
    | .ok outcome => outcome
    | .error _ => .fail) :: valueChildren channels rest

end

mutual

/-- Waiting blocks as long as the handle is not resolved, and then gives what it comes to. -/
theorem wait_eq (channels : Channels) : ∀ h : Handle,
    h.wait channels = if h.resolved channels then some (h.value channels) else none
  | .ready _ | .taken => by simp [wait, resolved, value]
  | .pending id => by cases hid : channels.state id <;> simp [wait, resolved, value, hid]
  | .joined children => by
    have hchildren := waitChildren_eq channels children
    cases hres : resolvedChildren channels children <;>
      simp [wait, resolved, value, hchildren, hres]

theorem waitChildren_eq (channels : Channels) : ∀ children : List (Handle × Option Outcome),
    waitChildren channels children =
      if resolvedChildren channels children then some (valueChildren channels children) else none
  | [] => by simp [waitChildren, resolvedChildren, valueChildren]
  | (_, some _) :: rest => by
    have hrest := waitChildren_eq channels rest
    cases hres : resolvedChildren channels rest <;>
      simp [waitChildren, resolvedChildren, valueChildren, hrest, hres]
  | (handle, none) :: rest => by
    have hhandle := wait_eq channels handle
    have hrest := waitChildren_eq channels rest
    cases hres : handle.resolved channels <;> cases hres' : resolvedChildren channels rest <;>
      cases hvalue : handle.value channels <;>
        simp [waitChildren, resolvedChildren, valueChildren, hhandle, hrest, hres, hres', hvalue]

end

mutual

/-- A handle that is resolved stays so, and its outcome does not change. -/
theorem resolved_spec (hl : before.Leads later) :
    ∀ h : Handle, h.resolved before = true →
      h.resolved later = true ∧ h.value later = h.value before
  | .ready _, _ | .taken, _ => ⟨by simp [resolved], by simp [value]⟩
  | .pending id, h => by
    have hid : before.state id ≠ .waiting := by simpa [resolved] using h
    simp [resolved, value, hl id hid, hid]
  | .joined children, h => by
    simp only [resolved] at h
    obtain ⟨hres, hvalue⟩ := resolvedChildren_spec hl children h
    simp [resolved, value, hres, hvalue]

theorem resolvedChildren_spec (hl : before.Leads later) :
    ∀ children, resolvedChildren before children = true →
      resolvedChildren later children = true ∧
        valueChildren later children = valueChildren before children
  | [], _ => by simp [resolvedChildren, valueChildren]
  | (_, some _) :: rest, h => by
    simp only [resolvedChildren] at h
    obtain ⟨hres, hvalue⟩ := resolvedChildren_spec hl rest h
    simp [resolvedChildren, valueChildren, hres, hvalue]
  | (handle, none) :: rest, h => by
    simp only [resolvedChildren, Bool.and_eq_true] at h
    obtain ⟨hres, hvalue⟩ := resolved_spec hl handle h.1
    obtain ⟨hres', hvalue'⟩ := resolvedChildren_spec hl rest h.2
    simp [resolvedChildren, valueChildren, hres, hvalue, hres', hvalue']

end

theorem resolved_of_leads (hl : before.Leads later) (h : Handle) (hr : h.resolved before = true) :
    h.resolved later = true :=
  (resolved_spec hl h hr).1

mutual

theorem resolved_of_noneWaiting (hnone : channels.NoneWaiting) :
    ∀ h : Handle, h.resolved channels = true
  | .ready _ | .taken => by simp [resolved]
  | .pending id => by simpa [resolved] using hnone id
  | .joined children => by
    rw [resolved]
    exact resolvedChildren_of_noneWaiting hnone children

theorem resolvedChildren_of_noneWaiting (hnone : channels.NoneWaiting) :
    ∀ children, resolvedChildren channels children = true
  | [] => by simp [resolvedChildren]
  | (_, some _) :: rest => by
    rw [resolvedChildren]
    exact resolvedChildren_of_noneWaiting hnone rest
  | (handle, none) :: rest => by
    rw [resolvedChildren, resolved_of_noneWaiting hnone handle,
      resolvedChildren_of_noneWaiting hnone rest, Bool.and_self]

end

theorem value_eq_of_resolved (hl : before.Leads later) (h : Handle)
    (hr : h.resolved before = true) : h.value later = h.value before :=
  (resolved_spec hl h hr).2

/-! ## Joins -/

theorem valueChildren_cons_none (channels : Channels) (handle : Handle)
    (rest : List (Handle × Option Outcome)) :
    valueChildren channels ((handle, none) :: rest) =
      (Poll.done (handle.value channels)).childOutcome.getD .fail ::
        valueChildren channels rest := by
  rw [valueChildren]
  cases handle.value channels <;> rfl

/-- What the children of a join have answered is what they come to. -/
theorem valueChildren_of_answers (channels : Channels) {children : List (Handle × Option Outcome)}
    {answers : List Outcome} (h : children.mapM Prod.snd = some answers) :
    valueChildren channels children = answers := by
  induction children generalizing answers with
  | nil => simpa [valueChildren] using h
  | cons child rest ih =>
    obtain ⟨handle, answer⟩ := child
    simp only [List.mapM_cons, Option.bind_eq_bind, Option.bind_eq_some_iff, Option.pure_def,
      Option.some.injEq] at h
    obtain ⟨outcome, rfl, others, hothers, rfl⟩ := h
    rw [valueChildren, ih hothers]

theorem joint?_eq_some {children : List (Handle × Option Outcome)} {outcome : Outcome}
    (h : joint? children = some outcome) (channels : Channels) :
    Outcome.worstOf (valueChildren channels children) = outcome := by
  obtain ⟨answers, hanswers, rfl⟩ := Option.map_eq_some_iff.mp h
  rw [valueChildren_of_answers channels hanswers]

@[simp] theorem isSome_joint? (children : List (Handle × Option Outcome)) :
    (joint? children).isSome = children.all fun child => child.2.isSome := by
  rw [joint?, Option.isSome_map]
  induction children with
  | nil => rfl
  | cons child rest ih =>
    obtain ⟨handle, answer⟩ := child
    rw [List.mapM_cons, List.all_cons, ← ih]
    cases answer with
    | none => rfl
    | some outcome => cases rest.mapM Prod.snd <;> rfl

/-! ## Polls -/

/-- From these channels on, the second handle is as good as the first. -/
structure StandsFor (channels : Channels) (h h' : Handle) : Prop where
  value : ∀ later, channels.Leads later → h'.value later = h.value later
  resolved : ∀ later, channels.Leads later → h'.resolved later = h.resolved later

mutual

/-- What a poll finds and what it leaves. -/
theorem poll_spec (channels : Channels) : ∀ h : Handle,
    match h.poll channels with
    | (h', .pending) => h.resolved channels = false ∧ StandsFor channels h h'
    | (_, .done result) => h.resolved channels = true ∧ h.value channels = result
  | .ready outcome => by simp [poll, resolved, value]
  | .taken => by simp [poll, resolved, value]
  | .pending id => by
    cases hid : channels.state id with
    | waiting => simpa [poll, resolved, hid] using ⟨fun _ _ => rfl, fun _ _ => rfl⟩
    | sent outcome => simp [poll, resolved, value, hid]
    | dropped => simp [poll, resolved, value, hid]
  | .joined children => by
    obtain ⟨hchildren, hall⟩ := pollChildren_spec channels children
    rw [← isSome_joint?] at hall
    simp only [poll]
    cases hjoint : joint? (pollChildren channels children) with
    | none =>
      refine ⟨by simpa [resolved, hjoint] using hall.symm, fun later hl => ?_, fun later hl => ?_⟩
      · rw [value, value, (hchildren later hl).1]
      · rw [resolved, resolved, (hchildren later hl).2]
    | some outcome =>
      refine ⟨by simpa [resolved, hjoint] using hall.symm, ?_⟩
      rw [value, ← (hchildren channels (.refl _)).1, joint?_eq_some hjoint]

theorem pollChildren_spec (channels : Channels) : ∀ children : List (Handle × Option Outcome),
    (∀ later, channels.Leads later →
      valueChildren later (pollChildren channels children) = valueChildren later children ∧
      resolvedChildren later (pollChildren channels children) =
        resolvedChildren later children) ∧
    ((pollChildren channels children).all fun child => child.2.isSome) =
      resolvedChildren channels children
  | [] => by simp [pollChildren, valueChildren, resolvedChildren]
  | (handle, some outcome) :: rest => by
    obtain ⟨hrest, hall⟩ := pollChildren_spec channels rest
    simp only [pollChildren, valueChildren, resolvedChildren, List.all_cons, hall]
    exact ⟨fun later hl => ⟨by rw [(hrest later hl).1], (hrest later hl).2⟩, by simp⟩
  | (handle, none) :: rest => by
    obtain ⟨hrest, hall⟩ := pollChildren_spec channels rest
    have hhandle := poll_spec channels handle
    simp only [pollChildren]
    match hpoll : poll channels handle with
    | (handle', .pending) =>
      rw [hpoll] at hhandle
      obtain ⟨hres, hstands⟩ := hhandle
      simp only [Poll.childOutcome, valueChildren, resolvedChildren, List.all_cons, hall, hres]
      refine ⟨fun later hl => ?_, by simp⟩
      rw [hstands.value later hl, hstands.resolved later hl, (hrest later hl).1,
        (hrest later hl).2]
      exact ⟨rfl, rfl⟩
    | (handle', .done result) =>
      -- the child has answered what it comes to, now and later
      rw [hpoll] at hhandle
      obtain ⟨hres, hvalue⟩ := hhandle
      obtain ⟨outcome, houtcome⟩ : ∃ outcome, (Poll.done result).childOutcome = some outcome := by
        cases result <;> exact ⟨_, rfl⟩
      simp only [houtcome, resolvedChildren, List.all_cons, hall, hres]
      refine ⟨fun later hl => ?_, by simp⟩
      obtain ⟨hres', hvalue'⟩ := resolved_spec hl handle hres
      rw [valueChildren, valueChildren_cons_none, hres', hvalue', hvalue, houtcome, Option.getD_some,
        (hrest later hl).1, (hrest later hl).2]
      exact ⟨rfl, by simp⟩

end

/-- A poll that finds nothing leaves a handle that stands for the one before. -/
theorem poll_pending_spec {h' : Handle} (hp : h.poll channels = (h', .pending)) :
    h.resolved channels = false ∧ StandsFor channels h h' := by
  have := poll_spec channels h
  rwa [hp] at this

/-- A poll that finds something finds what the handle comes to. -/
theorem poll_done_spec {h' : Handle} {result : Except HandleError Outcome}
    (hp : h.poll channels = (h', .done result)) :
    h.resolved channels = true ∧ h.value channels = result := by
  have := poll_spec channels h
  rwa [hp] at this

end Handle

end SymbolAtlas
