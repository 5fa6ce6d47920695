import CexRs.Demux

/-!
# Correlation

A reply goes to the call whose identifier it carries, whatever comes from the queue. That a call leaves
nothing behind in the map of pending calls is the listener's doing, which removes the sender when it uses
it; a call that fails between the insertion and the wait never comes to that.
-/

namespace CexRs

open OrderedMap

def DemuxAction.Succeeds : DemuxAction → Prop
  | .serialize _ succeeds | .publish _ succeeds => succeeds = true
  | _ => True

namespace Demux

variable {R : Type} (format : ReplyFormat R) (identifier : Nat → String)

/-- Senders lead to calls that have been sent nothing yet, what was sent carries the identifier of the
call and was sent to no other, and what a call returns is what it was sent. -/
structure Sound (d : Demux R) : Prop where
  pending : ∀ id call, d.pending[id]? = some call →
    id = identifier call ∧ d.calls[call]? ≠ none ∧ d.channels[call]? = none
  sent : ∀ call n data, d.channels[call]? = some (n, data) →
    format.identifierOf data = some (identifier call) ∧ n < d.received ∧ d.calls[call]? ≠ none
  once : ∀ (call call' n : Nat) (data data' : String), d.channels[call]? = some (n, data) →
    d.channels[call']? = some (n, data') → call = call'
  replied : ∀ call reply, d.calls[call]? = some (.returned (.ok reply)) →
    ∃ n data, d.channels[call]? = some (n, data) ∧ format.decode call data = some reply

def Attended (d : Demux R) : Prop :=
  ∀ call, d.calls[call]? ≠ none →
    d.channels[call]? ≠ none ∨ d.pending[identifier call]? = some call ∧ d.hasReturned call = false

variable {format identifier} {d : Demux R} {call : Nat}

/-! ### A call goes on -/

section Enter

variable {phase : CallPhase R}

theorem calls_enter_ne_none {call' : Nat} (h : d.calls[call']? ≠ none) :
    (d.enter call phase).calls[call']? ≠ none := by
  simp only [enter, get_insert]
  split
  · simp
  · exact h

theorem Sound.enter (h : d.Sound format identifier)
    (hreplied : ∀ reply, phase = .returned (.ok reply) →
      ∃ n data, d.channels[call]? = some (n, data) ∧ format.decode call data = some reply) :
    (d.enter call phase).Sound format identifier where
  pending id call' hget := by
    obtain ⟨hid, hcall, hchannel⟩ := h.pending id call' hget
    exact ⟨hid, calls_enter_ne_none hcall, hchannel⟩
  sent call' n data hget := by
    obtain ⟨hid, hn, hcall⟩ := h.sent call' n data hget
    exact ⟨hid, hn, calls_enter_ne_none hcall⟩
  once := h.once
  replied call' reply hget := by
    simp only [Demux.enter, get_insert] at hget
    by_cases hsame : call = call'
    · subst hsame
      rw [if_pos rfl] at hget
      exact hreplied reply (Option.some.inj hget)
    · rw [if_neg hsame] at hget
      exact h.replied call' reply hget

theorem Attended.enter (h : d.Attended identifier) (hcall : d.calls[call]? ≠ none)
    (hphase : phase.isReturned = false ∨ d.channels[call]? ≠ none) :
    (d.enter call phase).Attended identifier := by
  intro call' hcall'
  by_cases hsame : call = call'
  · subst hsame
    rcases h call hcall with hsent | ⟨hpending, _⟩
    · exact .inl hsent
    · rcases hphase with hphase | hsent
      · refine .inr ⟨hpending, ?_⟩
        simp [Demux.enter, hasReturned, hphase]
      · exact .inl hsent
  · have hother : (d.enter call phase).calls[call']? = d.calls[call']? := get_insert_of_ne hsame
    rw [hother] at hcall'
    have hreturned : (d.enter call phase).hasReturned call' = d.hasReturned call' := by
      simp only [hasReturned, hother]
    rw [hreturned]
    exact h call' hcall'

end Enter

/-! ### A call is made -/

theorem Sound.start (h : d.Sound format identifier) (call : Nat) :
    (d.step format identifier (.start call)).Sound format identifier := by
  simp only [step]
  cases hcall : d.calls[call]? with
  | some phase => exact h
  | none =>
      have hchannel : d.channels[call]? = none := by
        cases hsent : d.channels[call]? with
        | none => rfl
        | some reply => exact absurd hcall (h.sent call reply.1 reply.2 hsent).2.2
      have hcalls : ∀ call', d.calls[call']? ≠ none → (d.calls.insert call .inserted)[call']? ≠ none :=
        fun call' hne => calls_enter_ne_none hne
      constructor
      · intro id call' hget
        change (d.pending.insert (identifier call) call)[id]? = some call' at hget
        rw [get_insert] at hget
        split at hget
        · next hid =>
            cases hget
            exact ⟨hid.symm, by simp, hchannel⟩
        · obtain ⟨hid, hne, hnone⟩ := h.pending id call' hget
          exact ⟨hid, hcalls call' hne, hnone⟩
      · intro call' n data hget
        obtain ⟨hid, hn, hne⟩ := h.sent call' n data hget
        exact ⟨hid, hn, hcalls call' hne⟩
      · exact h.once
      · intro call' reply hget
        change (d.calls.insert call .inserted)[call']? = _ at hget
        rw [get_insert] at hget
        split at hget
        · cases hget
        · exact h.replied call' reply hget

theorem Attended.start (hdistinct : Function.Injective identifier) (h : d.Attended identifier)
    (call : Nat) : (d.step format identifier (.start call)).Attended identifier := by
  simp only [step]
  cases hcall : d.calls[call]? with
  | some phase => exact h
  | none =>
      intro call' hcall'
      change d.channels[call']? ≠ none ∨
        (d.pending.insert (identifier call) call)[identifier call']? = some call' ∧
          ((d.calls.insert call .inserted)[call']?.any CallPhase.isReturned) = false
      change (d.calls.insert call .inserted)[call']? ≠ none at hcall'
      by_cases hsame : call = call'
      · subst hsame
        rw [get_insert_self, get_insert_self]
        exact .inr ⟨rfl, rfl⟩
      · rw [get_insert_of_ne hsame] at hcall' ⊢
        rw [get_insert_of_ne (hdistinct.ne hsame)]
        exact h call' hcall'

/-! ### A reply is delivered -/

/-- The listener passes a reply over, or it uses the sender that the reply's identifier names. -/
theorem deliver_cases (format : ReplyFormat R) (d : Demux R) (data : String) :
    d.deliver format data = { d with received := d.received + 1 } ∨
    ∃ id call, format.identifierOf data = some id ∧ d.pending[id]? = some call ∧
      d.deliver format data =
        { d with
          received := d.received + 1
          pending := d.pending.erase id
          channels := if d.hasReturned call then d.channels
            else d.channels.insert call (d.received, data) } := by
  unfold deliver
  cases hid : format.identifierOf data with
  | none => exact .inl rfl
  | some id =>
      cases hpending : d.pending[id]? with
      | none => exact .inl (by simp [hpending])
      | some call => exact .inr ⟨id, call, rfl, hpending, by simp [hpending]⟩

section Channels

variable {channels : Std.ExtTreeMap Nat (Nat × String)} {returned : Bool} {call' n number : Nat}
  {data data' : String}

theorem get_channels_ne (hne : call ≠ call') :
    (if returned then channels else channels.insert call (number, data))[call']? = channels[call']? := by
  split
  · rfl
  · rw [get_insert_of_ne hne]

theorem get_channels_cases
    (hget : (if returned then channels else channels.insert call (number, data))[call']?
      = some (n, data')) :
    channels[call']? = some (n, data') ∨ call' = call ∧ n = number ∧ data' = data := by
  split at hget
  · exact .inl hget
  · rw [get_insert] at hget
    split at hget
    · next hsame =>
        cases hget
        exact .inr ⟨hsame.symm, rfl, rfl⟩
    · exact .inl hget

end Channels

theorem Sound.listen (h : d.Sound format identifier) (data : String) :
    (d.deliver format data).Sound format identifier := by
  rcases deliver_cases format d data with hpass | ⟨id, call, hid, hpending, hsend⟩
  · rw [hpass]
    refine ⟨h.pending, fun call n data hget => ?_, h.once, h.replied⟩
    obtain ⟨hid, hn, hcall⟩ := h.sent call n data hget
    exact ⟨hid, Nat.lt_succ_of_lt hn, hcall⟩
  · obtain ⟨rfl, hcall, hchannel⟩ := h.pending id call hpending
    rw [hsend]
    constructor
    · intro id' call' hget
      rw [get_erase] at hget
      split at hget
      · cases hget
      · next hne =>
          obtain ⟨rfl, hcall', hchannel'⟩ := h.pending id' call' hget
          have hother : call ≠ call' := fun heq => hne (congrArg identifier heq)
          exact ⟨rfl, hcall', by rw [get_channels_ne hother, hchannel']⟩
    · intro call' n data' hget
      rcases get_channels_cases hget with hget | ⟨rfl, rfl, rfl⟩
      · obtain ⟨hid', hn, hcall'⟩ := h.sent call' n data' hget
        exact ⟨hid', Nat.lt_succ_of_lt hn, hcall'⟩
      · exact ⟨hid, Nat.lt_succ_self _, hcall⟩
    · intro call₁ call₂ n data₁ data₂ hget₁ hget₂
      -- the number of the new reply is past those of the replies sent before
      rcases get_channels_cases hget₁ with hget₁ | ⟨rfl, rfl, _⟩
      · rcases get_channels_cases hget₂ with hget₂ | ⟨_, rfl, _⟩
        · exact h.once call₁ call₂ n data₁ data₂ hget₁ hget₂
        · exact absurd (h.sent call₁ _ data₁ hget₁).2.1 (lt_irrefl _)
      · rcases get_channels_cases hget₂ with hget₂ | ⟨rfl, _, _⟩
        · exact absurd (h.sent call₂ _ data₂ hget₂).2.1 (lt_irrefl _)
        · rfl
    · intro call' reply hget
      obtain ⟨n, data', hsent, hdecode⟩ := h.replied call' reply hget
      have hother : call ≠ call' := by
        rintro rfl
        rw [hchannel] at hsent
        cases hsent
      exact ⟨n, data', by rw [get_channels_ne hother, hsent], hdecode⟩

theorem Attended.listen (hdistinct : Function.Injective identifier)
    (hsound : d.Sound format identifier) (h : d.Attended identifier) (data : String) :
    (d.deliver format data).Attended identifier := by
  rcases deliver_cases format d data with hpass | ⟨id, call, hid, hpending, hsend⟩
  · rw [hpass]
    exact h
  · obtain ⟨rfl, hcall, hchannel⟩ := hsound.pending id call hpending
    have hopen : d.hasReturned call = false := by
      rcases h call hcall with hsent | ⟨_, hopen⟩
      · exact absurd hchannel hsent
      · exact hopen
    rw [hsend]
    intro call' hcall'
    by_cases hsame : call = call'
    · subst hsame
      refine .inl ?_
      simp [hopen]
    · rcases h call' hcall' with hsent | ⟨hpending', hopen'⟩
      · refine .inl ?_
        simp only [hopen, Bool.false_eq_true, if_false]
        rw [get_insert_of_ne hsame]
        exact hsent
      · refine .inr ⟨?_, hopen'⟩
        rw [get_erase_of_ne (hdistinct.ne hsame)]
        exact hpending'

/-! ### Runs -/

theorem hasReturned_of_get {phase : CallPhase R} (hget : d.calls[call]? = some phase) :
    d.hasReturned call = phase.isReturned := by
  simp [hasReturned, hget]

theorem Sound.step (h : d.Sound format identifier) (action : DemuxAction) :
    (d.step format identifier action).Sound format identifier := by
  cases action with
  | start call => exact h.start call
  | serialize call succeeds =>
      simp only [Demux.step]
      split
      · refine h.enter fun reply hphase => ?_
        cases succeeds <;> simp at hphase
      · exact h
  | publish call succeeds =>
      simp only [Demux.step]
      split
      · refine h.enter fun reply hphase => ?_
        cases succeeds <;> simp at hphase
      · exact h
  | wait call =>
      simp only [Demux.step]
      split
      · unfold receive
        split
        · next n data hsent =>
            refine h.enter fun reply hphase => ⟨n, data, hsent, ?_⟩
            cases hdecode : format.decode call data with
            | none => simp [hdecode] at hphase
            | some value =>
                simp only [hdecode, Option.elim_some, CallPhase.returned.injEq,
                  Except.ok.injEq] at hphase
                rw [hphase]
        · split
          · exact h
          · exact h.enter fun reply hphase => by simp at hphase
      · exact h
  | listen data => exact h.listen data

theorem Attended.step (hdistinct : Function.Injective identifier)
    (hsound : d.Sound format identifier) (h : d.Attended identifier) {action : DemuxAction}
    (hsucceeds : action.Succeeds) : (d.step format identifier action).Attended identifier := by
  cases action with
  | start call => exact h.start hdistinct call
  | serialize call succeeds =>
      have hsucceeds : succeeds = true := hsucceeds
      simp only [Demux.step, hsucceeds, if_true]
      split
      · next hget => exact h.enter (by simp [hget]) (.inl rfl)
      · exact h
  | publish call succeeds =>
      have hsucceeds : succeeds = true := hsucceeds
      simp only [Demux.step, hsucceeds, if_true]
      split
      · next hget => exact h.enter (by simp [hget]) (.inl rfl)
      · exact h
  | wait call =>
      simp only [Demux.step]
      split
      · next hget =>
          have hcall : d.calls[call]? ≠ none := by simp [hget]
          unfold receive
          split
          · next n data hsent => exact h.enter hcall (.inr (by simp [hsent]))
          · next hnone =>
              rcases h call hcall with hsent | ⟨hpending, _⟩
              · exact absurd hnone hsent
              · rw [if_pos hpending]
                exact h
      · exact h
  | listen data => exact h.listen hdistinct hsound data

theorem Sound.run (h : d.Sound format identifier) (actions : List DemuxAction) :
    (d.run format identifier actions).Sound format identifier := by
  induction actions generalizing d with
  | nil => exact h
  | cons action actions ih => exact ih (h.step action)

theorem Attended.run (hdistinct : Function.Injective identifier)
    (hsound : d.Sound format identifier) (h : d.Attended identifier) {actions : List DemuxAction}
    (hsucceed : ∀ action ∈ actions, action.Succeeds) :
    (d.run format identifier actions).Attended identifier := by
  induction actions generalizing d with
  | nil => exact h
  | cons action actions ih =>
      exact ih (hsound.step action)
        (h.step hdistinct hsound (hsucceed action (List.mem_cons_self ..)))
        fun action' hmem => hsucceed action' (List.mem_cons_of_mem _ hmem)

theorem sound_init : (init : Demux R).Sound format identifier := by
  constructor <;> simp [init]

theorem attended_init : (init : Demux R).Attended identifier := by
  simp [Attended, init]

/-- A call that has been sent a reply has no sender in the map. -/
theorem Sound.pending_of_sent (hdistinct : Function.Injective identifier)
    (h : d.Sound format identifier) (hsent : d.channels[call]? ≠ none) :
    d.pending[identifier call]? = none := by
  cases hpending : d.pending[identifier call]? with
  | none => rfl
  | some call' =>
      obtain ⟨hid, _, hnone⟩ := h.pending _ call' hpending
      rw [← hdistinct hid] at hnone
      exact absurd hnone hsent

end Demux

/-- A call that has returned a reply was sent it, and it carries the call's identifier; no reply was
sent to two calls; and a call that has returned, with a reply or without, has left no sender behind. -/
structure Correlated {R : Type} (format : ReplyFormat R) (identifier : Nat → String) (d : Demux R) :
    Prop where
  own : ∀ call reply, d.calls[call]? = some (.returned (.ok reply)) →
    ∃ n data, d.channels[call]? = some (n, data) ∧
      format.identifierOf data = some (identifier call) ∧ format.decode call data = some reply
  once : ∀ (call call' n : Nat) (data data' : String), d.channels[call]? = some (n, data) →
    d.channels[call']? = some (n, data') → call = call'
  cleared : ∀ call result, d.calls[call]? = some (.returned result) →
    d.pending[identifier call]? = none

/-- **Replies find their calls, and calls clean up unless they fail early.** Whatever the replies are
and however the calls interleave with the listener: in a run in which no serialization and no `XADD`
fails, a call returns the reply that carries its identifier and leaves nothing behind. -/
theorem run_correlated {R : Type} (format : ReplyFormat R) (identifier : Nat → String)
    (hdistinct : Function.Injective identifier) (actions : List DemuxAction)
    (hsucceed : ∀ action ∈ actions, action.Succeeds) :
    Correlated format identifier (Demux.init.run format identifier actions) := by
  have hsound : (Demux.init.run format identifier actions).Sound format identifier :=
    Demux.sound_init.run actions
  have hattended : (Demux.init.run format identifier actions).Attended identifier :=
    Demux.attended_init.run hdistinct Demux.sound_init hsucceed
  constructor
  · intro call reply hget
    obtain ⟨n, data, hsent, hdecode⟩ := hsound.replied call reply hget
    exact ⟨n, data, hsent, (hsound.sent call n data hsent).1, hdecode⟩
  · exact hsound.once
  · intro call result hget
    rcases hattended call (by simp [hget]) with hsent | ⟨_, hopen⟩
    · exact hsound.pending_of_sent hdistinct hsent
    · rw [Demux.hasReturned_of_get hget] at hopen
      cases hopen

instance : DecidablePred DemuxAction.Succeeds
  | .serialize _ succeeds | .publish _ succeeds => inferInstanceAs (Decidable (succeeds = true))
  | .start _ | .wait _ | .listen _ => inferInstanceAs (Decidable True)

def bareFormat : ReplyFormat String where
  identifierOf data := if '?' ∈ data.toList then none else some data
  decode _ data := some data

/-- Two calls are answered in the other order, between malformed, unknown and repeated replies. -/
def twoCalls : List DemuxAction :=
  [.start 7, .serialize 7 true, .start 8, .listen "9", .publish 7 true, .serialize 8 true,
    .publish 8 true, .wait 7, .listen "?", .listen "8", .listen "8", .listen "7", .wait 8, .wait 7]

theorem run_correlated_twoCalls :
    Correlated bareFormat Nat.repr (Demux.init.run bareFormat Nat.repr twoCalls) ∧
      (Demux.init.run bareFormat Nat.repr twoCalls).channels[7]? = some (4, "7") ∧
      (Demux.init.run bareFormat Nat.repr twoCalls).hasReturned 7 ∧
      (Demux.init.run bareFormat Nat.repr twoCalls).channels[8]? = some (2, "8") ∧
      (Demux.init.run bareFormat Nat.repr twoCalls).hasReturned 8 :=
  ⟨run_correlated bareFormat Nat.repr (fun _ _ => Nat.repr_inj.mp) twoCalls (by decide),
    by decide +kernel⟩

/-- The `XADD` of a call fails. -/
def failedCall : List DemuxAction := [.start 7, .serialize 7 true, .publish 7 false]

/-- It returns an error, and leaves its sender in the map. -/
theorem failedCall_leaks :
    (Demux.init.run bareFormat Nat.repr failedCall).calls[7]? = some (.returned (.error .publishing)) ∧
      (Demux.init.run bareFormat Nat.repr failedCall).pending["7"]? = some 7 ∧
      ¬ Correlated bareFormat Nat.repr (Demux.init.run bareFormat Nat.repr failedCall) := by
  have hcall : (Demux.init.run bareFormat Nat.repr failedCall).calls[7]?
      = some (.returned (.error .publishing)) := by decide +kernel
  have hpending : (Demux.init.run bareFormat Nat.repr failedCall).pending["7"]? = some 7 := by
    decide +kernel
  refine ⟨hcall, hpending, fun hcorrelated => ?_⟩
  have hcleared := hcorrelated.cleared 7 _ hcall
  rw [show Nat.repr 7 = "7" by decide +kernel, hpending] at hcleared
  cases hcleared

end CexRs
