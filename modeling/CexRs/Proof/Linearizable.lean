import CexRs.Proof.Answers
import CexRs.Proof.Correlation
import CexRs.Proof.Recovery

/-!
# Linearizability

The log orders the calls of a gateway: a call that has returned a reply was answered where its message
stands in the log, in the state that the log before it leads to, and a call that had returned before
another was made stands before it. The engine may die and replay as often as it will: a replay pushes
nothing, and an entry that the live loop takes once more, after a start whose `XRANGE` failed, is answered
as it was the first time.
-/

namespace CexRs

open FixedWidth OrderedMap

/-! ### How a call advances -/

namespace Demux

variable {R : Type} {format : ReplyFormat R} {identifier : Nat → String} {d : Demux R} {call : Nat}
  {action : DemuxAction}

inductive Advance (call : Nat) (action : DemuxAction) :
    Option (CallPhase R) → Option (CallPhase R) → Prop
  | start : Advance call action none (some .inserted)
  | serialize : Advance call action (some .inserted) (some .serialized)
  | publish (h : action = .publish call true) :
      Advance call action (some .serialized) (some .published)
  | fail {phase : CallPhase R} {error : CallError} :
      Advance call action (some phase) (some (.returned (.error error)))
  | receive {result : Except CallError R} (h : action = .wait call) :
      Advance call action (some .published) (some (.returned result))

theorem advance_enter {call' : Nat} {phase phase' : CallPhase R}
    (hphase : d.calls[call']? = some phase)
    (h : call = call' → Advance call action (some phase) (some phase')) :
    (d.enter call' phase').calls[call]? = d.calls[call]? ∨
      Advance call action d.calls[call]? (d.enter call' phase').calls[call]? := by
  simp only [enter, get_insert]
  by_cases hcall : call' = call
  · subst hcall
    rw [if_pos rfl, hphase]
    exact .inr (h rfl)
  · exact .inl (if_neg hcall)

theorem calls_step (format : ReplyFormat R) (identifier : Nat → String) (d : Demux R) (call : Nat)
    (action : DemuxAction) : (d.step format identifier action).calls[call]? = d.calls[call]? ∨
      Advance call action d.calls[call]? (d.step format identifier action).calls[call]? := by
  cases action with
  | start call' =>
      simp only [step]
      cases hphase : d.calls[call']? with
      | some phase => exact .inl rfl
      | none =>
          by_cases hcall : call' = call
          · subst hcall
            right
            simp only [get_insert_self, hphase]
            exact .start
          · exact .inl (get_insert_of_ne hcall)
  | serialize call' succeeds =>
      simp only [step]
      split
      · next hphase =>
        refine advance_enter hphase fun _ => ?_
        cases succeeds with
        | true => exact .serialize
        | false => exact .fail
      · exact .inl rfl
  | publish call' succeeds =>
      simp only [step]
      split
      · next hphase =>
        refine advance_enter hphase fun hcall => ?_
        cases succeeds with
        | true => exact .publish (hcall ▸ rfl)
        | false => exact .fail
      · exact .inl rfl
  | wait call' =>
      simp only [step]
      split
      · next hphase =>
        unfold receive
        split
        · exact advance_enter hphase fun hcall => .receive (hcall ▸ rfl)
        · split
          · exact .inl rfl
          · exact advance_enter hphase fun _ => .fail
      · exact .inl rfl
  | listen data =>
      left
      rcases deliver_cases format d data with hpass | ⟨id, call', _, _, hsend⟩
      · simp only [step, hpass]
      · simp only [step, hsend]

theorem calls_publish (format : ReplyFormat R) (identifier : Nat → String)
    (h : d.calls[call]? = some .serialized) (succeeds : Bool) :
    (d.step format identifier (.publish call succeeds)).calls[call]?
      = some (if succeeds then .published else .returned (.error .publishing)) := by
  simp [step, h, enter]

/-- Only the listener sends anything. -/
theorem channels_step (h : ∀ data, action ≠ .listen data) :
    (d.step format identifier action).channels = d.channels := by
  cases action with
  | start call' =>
      simp only [step]
      split <;> rfl
  | serialize call' succeeds =>
      simp only [step]
      split <;> rfl
  | publish call' succeeds =>
      simp only [step]
      split <;> rfl
  | wait call' =>
      simp only [step]
      split
      · unfold receive
        split
        · rfl
        · split <;> rfl
      · rfl
  | listen data => exact absurd rfl (h data)

/-- The call's message may stand in the log: its `XADD` has come back, one way or another. -/
def HasSent (d : Demux R) (call : Nat) : Prop :=
  d.calls[call]? = some .published ∨ ∃ result, d.calls[call]? = some (.returned result)

variable (format identifier) in
theorem HasSent.step (h : d.HasSent call) (action : DemuxAction) :
    (d.step format identifier action).HasSent call := by
  rcases calls_step format identifier d call action with hsame | hadvance
  · unfold HasSent
    rw [hsame]
    exact h
  · unfold HasSent at h ⊢
    generalize (d.step format identifier action).calls[call]? = after at hadvance ⊢
    generalize d.calls[call]? = before at hadvance h
    cases hadvance with
    | start => rcases h with h | ⟨_, h⟩ <;> cases h
    | serialize => rcases h with h | ⟨_, h⟩ <;> cases h
    | publish => exact .inl rfl
    | fail => exact .inr ⟨_, rfl⟩
    | receive => exact .inr ⟨_, rfl⟩

def IsLogged (d : Demux R) (call : Nat) : Prop :=
  d.calls[call]? = some .published ∨ ∃ reply, d.calls[call]? = some (.returned (.ok reply))

theorem IsLogged.hasSent (h : d.IsLogged call) : d.HasSent call := by
  rcases h with h | ⟨reply, h⟩
  · exact .inl h
  · exact .inr ⟨_, h⟩

/-- A call whose `XADD` has succeeded was there before, or it succeeds now. -/
theorem IsLogged.of_step (h : (d.step format identifier action).IsLogged call) :
    d.IsLogged call ∨ action = .publish call true := by
  rcases calls_step format identifier d call action with hsame | hadvance
  · unfold IsLogged at h
    rw [hsame] at h
    exact .inl h
  · unfold IsLogged at h ⊢
    generalize (d.step format identifier action).calls[call]? = after at hadvance h
    generalize d.calls[call]? = before at hadvance
    cases hadvance with
    | start => rcases h with h | ⟨_, h⟩ <;> cases h
    | serialize => rcases h with h | ⟨_, h⟩ <;> cases h
    | publish haction => exact .inr haction
    | fail => rcases h with h | ⟨_, h⟩ <;> cases h
    | receive => exact .inl (.inl rfl)

end Demux

/-! ### What the exchange relies on -/

namespace ExchangeConfig

variable {R : Type} (cfg : ExchangeConfig R)

/-- Snapshots, the messages of the calls and the identifiers of replies are read as they were written;
the identifiers of calls are fresh; and the calls ask for replies on the queue of their gateway, and for
no reset. -/
structure Lawful : Prop where
  snapshots : ∀ s, cfg.engine.codec.fromValue (cfg.engine.codec.toValue s) = some s
  messages : ∀ call, cfg.engine.decoder.decode (cfg.message call).channel
    (cfg.writeMsg (cfg.message call)) = some (cfg.message call)
  replies : ∀ payload, cfg.format.identifierOf (cfg.writeReply payload) = some payload.identifier
  distinct : Function.Injective cfg.identifier
  queued : ∀ call, (cfg.message call).queueId = cfg.queueId
  resetFree : ∀ call, (cfg.message call).channel ≠ "reset"

structure Foreign (record : Record) : Prop where
  resetFree : ¬ record.Resets
  elsewhere : ∀ channel data msg, record = ⟨some channel, some data⟩ →
    cfg.engine.decoder.decode channel data = some msg → msg.queueId ≠ cfg.queueId

/-- What the engine answers a call with, where the call's message stands in the log. -/
def AnsweredAt (wal : Wal) (call : Nat) (payload : Reply) : Prop :=
  ∃ front id back s outputs s' outputs', wal = front ++ (id, cfg.request call) :: back ∧
    dispatchRecords cfg.engine (.new cfg.engine.fees) front = .ok (s, outputs) ∧
    handle cfg.engine.arith cfg.engine.builtins s (cfg.message call) = .ok (s', outputs') ∧
    repliesTo (replyQueue cfg.queueId) outputs' = [payload]

def Genuine (wal : Wal) (data : String) : Prop :=
  ∃ call payload, data = cfg.writeReply payload ∧ payload.identifier = cfg.identifier call ∧
    cfg.AnsweredAt wal call payload

variable {cfg} {wal wal' : Wal} {record : Record} {call call' : Nat} {s s' : EngineState}
  {outputs : List Output}

theorem AnsweredAt.mono {payload : Reply} (h : cfg.AnsweredAt wal call payload)
    (hmore : wal <+: wal') : cfg.AnsweredAt wal' call payload := by
  obtain ⟨later, rfl⟩ := hmore
  obtain ⟨front, id, back, s, outputs, s', outputs', rfl, hanswer⟩ := h
  exact ⟨front, id, back ++ later, s, outputs, s', outputs', by simp, hanswer⟩

theorem Genuine.mono {data : String} (h : cfg.Genuine wal data) (hmore : wal <+: wal') :
    cfg.Genuine wal' data := by
  obtain ⟨call, payload, hdata, hidentifier, hanswered⟩ := h
  exact ⟨call, payload, hdata, hidentifier, hanswered.mono hmore⟩

theorem replyQueue_inj {queueId queueId' : String} (h : replyQueue queueId = replyQueue queueId') :
    queueId = queueId' :=
  (String.append_right_inj _).mp h

theorem Lawful.request_inj (hcfg : cfg.Lawful) (h : cfg.request call = cfg.request call') :
    call = call' := by
  simp only [request, Record.mk.injEq, Option.some.injEq] at h
  have hmsg := hcfg.messages call
  rw [h.1, h.2, hcfg.messages call'] at hmsg
  exact hcfg.distinct (congrArg Msg.identifier (Option.some.inj hmsg)).symm

theorem Lawful.not_foreign (hcfg : cfg.Lawful) (h : cfg.Foreign (cfg.request call)) : False :=
  h.elsewhere _ _ _ rfl (hcfg.messages call) (hcfg.queued call)

theorem Lawful.request_resetFree (hcfg : cfg.Lawful) (call : Nat) :
    ¬ (cfg.request call).Resets :=
  fun h => hcfg.resetFree call (Option.some.inj h.1)

/-- An entry of another gateway is not answered on this one's queue. -/
theorem Foreign.silent (h : cfg.Foreign record)
    (hdispatch : dispatchRecord cfg.engine s record = .ok (s', outputs)) :
    repliesTo (replyQueue cfg.queueId) outputs = [] := by
  obtain ⟨channel, data⟩ := record
  cases channel with
  | none => cases hdispatch; rfl
  | some channel =>
      cases data with
      | none => cases hdispatch; rfl
      | some data =>
          simp only [dispatchRecord, dispatchEvent] at hdispatch
          cases hdecode : cfg.engine.decoder.decode channel data with
          | none =>
              rw [hdecode] at hdispatch
              cases hdispatch
              rfl
          | some msg =>
              rw [hdecode] at hdispatch
              obtain ⟨payload, _, hreplies⟩ := (handle_answers_once _ _ s msg).of_ok hdispatch
              rw [hreplies, if_neg]
              exact fun heq => h.elsewhere channel data msg rfl hdecode (replyQueue_inj heq)

/-- The entry of a call is answered once, and under the identifier of the call. -/
theorem Lawful.answer (hcfg : cfg.Lawful)
    (hdispatch : dispatchRecord cfg.engine s (cfg.request call) = .ok (s', outputs)) :
    handle cfg.engine.arith cfg.engine.builtins s (cfg.message call) = .ok (s', outputs) ∧
      ∃ payload, payload.identifier = cfg.identifier call ∧
        repliesTo (replyQueue cfg.queueId) outputs = [payload] := by
  simp only [dispatchRecord, request, dispatchEvent, hcfg.messages call] at hdispatch
  obtain ⟨payload, hidentifier, hreplies⟩ := (handle_answers_once _ _ s _).of_ok hdispatch
  refine ⟨hdispatch, payload, hidentifier, ?_⟩
  rw [hreplies, if_pos (congrArg replyQueue (hcfg.queued call))]

end ExchangeConfig

/-! ### The invariant -/

namespace Exchange

variable {R : Type} {cfg : ExchangeConfig R} {e : Exchange R cfg.engine.codec.Json}

/-- Whatever stands in the log is another gateway's, or the message of a call that has sent it, which is
there once; and whatever has been pushed, or was sent to a call, answers a call. -/
structure Consistent (cfg : ExchangeConfig R) (e : Exchange R cfg.engine.codec.Json) : Prop where
  sound : Sound cfg.engine e.system
  correlated : e.demux.Sound cfg.format cfg.identifier
  entries : ∀ entry ∈ e.system.wal,
    cfg.Foreign entry.2 ∨ ∃ call, entry.2 = cfg.request call ∧ e.demux.HasSent call
  once : ∀ call id id', (id, cfg.request call) ∈ e.system.wal → (id', cfg.request call) ∈ e.system.wal →
    id = id'
  logged : ∀ call, e.demux.IsLogged call → ∃ id, (id, cfg.request call) ∈ e.system.wal
  queue : ∀ data ∈ e.queue, cfg.Genuine e.system.wal data
  sent : ∀ (call n : Nat) (data : String), e.demux.channels[call]? = some (n, data) →
    cfg.Genuine e.system.wal data

/-- Another gateway appends entries of its own. -/
def Admissible (cfg : ExchangeConfig R) : ExchangeAction → Prop
  | .engine (.append _ record) => cfg.Foreign record
  | _ => True

theorem consistent_init : Consistent cfg (init R cfg.engine.codec.Json) where
  sound := sound_init
  correlated := Demux.sound_init
  entries := by simp [init, System.init]
  once := by simp [init, System.init]
  logged call h := by simp [init, Demux.init, Demux.IsLogged] at h
  queue := by simp [init]
  sent := by simp [init, Demux.init]

/-- A call that has not sent its message has no entry. -/
theorem Consistent.hasSent (h : Consistent cfg e) (hcfg : cfg.Lawful) {id : StreamId} {call : Nat}
    (hmem : (id, cfg.request call) ∈ e.system.wal) : e.demux.HasSent call := by
  rcases h.entries _ hmem with hforeign | ⟨call', hrequest, hsent⟩
  · exact (hcfg.not_foreign hforeign).elim
  · rwa [hcfg.request_inj hrequest]

theorem Consistent.resetFree (h : Consistent cfg e) (hcfg : cfg.Lawful) :
    ∀ entry ∈ e.system.wal, ¬ entry.2.Resets := by
  intro entry hmem
  rcases h.entries entry hmem with hforeign | ⟨call, hrequest, _⟩
  · exact hforeign.resetFree
  · rw [hrequest]
    exact hcfg.request_resetFree call

/-- What the live loop pushes answers a call. -/
theorem Consistent.pushed (h : Consistent cfg e) (hcfg : cfg.Lawful) :
    ∀ data ∈ e.system.pushed cfg, cfg.Genuine e.system.wal data := by
  intro data hdata
  unfold System.pushed System.published at hdata
  split at hdata
  · next s lastId n record pending hprocess =>
    obtain ⟨front, back, outputs, hwal, _, hdispatch, rest, hback⟩ := h.sound.process _ hprocess
    have hentry : e.system.wal = front ++ record :: (pending ++ rest) := by
      rw [hwal, ← hback, List.cons_append]
    have hmem : record ∈ e.system.wal := by simp [hentry]
    cases hrecord : dispatchRecord cfg.engine s record.2 with
    | error f =>
        rw [hrecord] at hdata
        cases hdata
    | ok r =>
        rw [hrecord] at hdata
        rcases h.entries record hmem with hforeign | ⟨call, hrequest, _⟩
        · have hsilent := hforeign.silent hrecord
          simp [Except.toOption, hsilent] at hdata
        · rw [hrequest] at hrecord
          obtain ⟨hhandle, payload, hidentifier, hreplies⟩ := hcfg.answer hrecord
          simp only [Except.toOption, Option.map_some, Option.getD_some, hreplies, List.map_cons,
            List.map_nil, List.mem_singleton] at hdata
          refine ⟨call, payload, hdata, hidentifier, front, record.1, pending ++ rest, s, outputs, r.1,
            r.2, ?_, hdispatch, hhandle, hreplies⟩
          rw [hentry, ← hrequest]
  · cases hdata

/-- Calls go on, and the log stays. -/
theorem Consistent.demuxStep (h : Consistent cfg e) {action : DemuxAction}
    (hpublish : ∀ call, action ≠ .publish call true) (hlisten : ∀ data, action ≠ .listen data) :
    Consistent cfg (e.demuxStep cfg action) where
  sound := h.sound
  correlated := h.correlated.step action
  entries entry hmem := by
    rcases h.entries entry hmem with hforeign | ⟨call, hrequest, hsent⟩
    · exact .inl hforeign
    · exact .inr ⟨call, hrequest, hsent.step _ _ action⟩
  once := h.once
  logged call hlogged := by
    rcases hlogged.of_step with hbefore | haction
    · exact h.logged call hbefore
    · exact absurd haction (hpublish call)
  queue := h.queue
  sent call n data hget := by
    change (e.demux.step cfg.format cfg.identifier action).channels[call]? = _ at hget
    rw [Demux.channels_step hlisten] at hget
    exact h.sent call n data hget

theorem Consistent.listen (h : Consistent cfg e) {data : String} {queue : List String}
    (hqueue : e.queue = data :: queue) :
    Consistent cfg { e.demuxStep cfg (.listen data) with queue } where
  sound := h.sound
  correlated := h.correlated.step (.listen data)
  entries entry hmem := by
    rcases h.entries entry hmem with hforeign | ⟨call, hrequest, hsent⟩
    · exact .inl hforeign
    · exact .inr ⟨call, hrequest, hsent.step cfg.format cfg.identifier (.listen data)⟩
  once := h.once
  logged call hlogged := by
    rcases hlogged.of_step with hbefore | haction
    · exact h.logged call hbefore
    · cases haction
  queue text hmem := h.queue text (hqueue ▸ List.mem_cons_of_mem _ hmem)
  sent call n text hget := by
    change (e.demux.deliver cfg.format data).channels[call]? = _ at hget
    rcases Demux.deliver_cases cfg.format e.demux data with hpass | ⟨id, call', _, _, hsend⟩
    · rw [hpass] at hget
      exact h.sent call n text hget
    · rw [hsend] at hget
      rcases Demux.get_channels_cases hget with hget | ⟨_, _, rfl⟩
      · exact h.sent call n text hget
      · exact h.queue text (hqueue ▸ List.mem_cons_self ..)

/-- The engine goes on, or dies, and the log stays. -/
theorem Consistent.onSystem (h : Consistent cfg e) {system : System cfg.engine.codec.Json}
    (hsound : Sound cfg.engine system) (hwal : system.wal = e.system.wal) :
    Consistent cfg { e with system } where
  sound := hsound
  correlated := h.correlated
  entries := by
    simp only [hwal]
    exact h.entries
  once := by
    simp only [hwal]
    exact h.once
  logged := by
    simp only [hwal]
    exact h.logged
  queue := by
    simp only [hwal]
    exact h.queue
  sent := by
    simp only [hwal]
    exact h.sent

theorem Consistent.push (h : Consistent cfg e) {texts : List String}
    (htexts : ∀ data ∈ texts, cfg.Genuine e.system.wal data) :
    Consistent cfg { e with queue := e.queue ++ texts } where
  sound := h.sound
  correlated := h.correlated
  entries := h.entries
  once := h.once
  logged := h.logged
  queue data hmem := (List.mem_append.mp hmem).elim (h.queue data) (htexts data)
  sent := h.sent

/-- An entry is appended, by another gateway or for a call that has not sent its message yet. -/
theorem Consistent.append (h : Consistent cfg e) (hcfg : cfg.Lawful) {id : StreamId} {record : Record}
    {demux : Demux R} (hlater : Log.lastId .zero e.system.wal < id)
    (hcorrelated : demux.Sound cfg.format cfg.identifier)
    (hchannels : demux.channels = e.demux.channels)
    (hsent : ∀ call, e.demux.HasSent call → demux.HasSent call)
    (hlogged : ∀ call, demux.IsLogged call → e.demux.IsLogged call ∨ record = cfg.request call)
    (hrecord : cfg.Foreign record ∨ ∃ call, record = cfg.request call ∧ ¬ e.demux.HasSent call ∧
      demux.HasSent call) :
    Consistent cfg { e with demux, system := e.system.step cfg.engine (.append id record) } := by
  have hwal : (e.system.step cfg.engine (.append id record)).wal = e.system.wal ++ [(id, record)] := by
    simp [System.step, hlater]
  have hmore : e.system.wal <+: e.system.wal ++ [(id, record)] := List.prefix_append ..
  -- an entry of a call is an old one, or the new one of a call without any
  have hentry : ∀ call id', (id', cfg.request call) ∈ e.system.wal ++ [(id, record)] →
      (id', cfg.request call) ∈ e.system.wal ∨
        id' = id ∧ ∀ id'', (id'', cfg.request call) ∉ e.system.wal := by
    intro call id' hmem
    rcases List.mem_append.mp hmem with hold | hnew
    · exact .inl hold
    · cases List.mem_singleton.mp hnew
      refine .inr ⟨rfl, fun id'' hold => ?_⟩
      rcases hrecord with hforeign | ⟨call', hrequest, hunsent, _⟩
      · exact hcfg.not_foreign hforeign
      · exact hunsent (hcfg.request_inj hrequest ▸ h.hasSent hcfg hold)
  have hresetFree : ¬ record.Resets := by
    rcases hrecord with hforeign | ⟨call, rfl, _⟩
    · exact hforeign.resetFree
    · exact hcfg.request_resetFree call
  have hsound : Sound cfg.engine (e.system.step cfg.engine (.append id record)) := by
    refine h.sound.step hcfg.snapshots fun id' record' hact => ?_
    cases hact
    exact hresetFree
  refine ⟨hsound, hcorrelated, ?_, ?_, ?_, ?_, ?_⟩
  · simp only [hwal]
    intro entry hmem
    rcases List.mem_append.mp hmem with hold | hnew
    · rcases h.entries entry hold with hforeign | ⟨call, hrequest, hhas⟩
      · exact .inl hforeign
      · exact .inr ⟨call, hrequest, hsent call hhas⟩
    · rw [List.mem_singleton.mp hnew]
      rcases hrecord with hforeign | ⟨call, hrequest, _, hhas⟩
      · exact .inl hforeign
      · exact .inr ⟨call, hrequest, hhas⟩
  · simp only [hwal]
    intro call id₁ id₂ hmem₁ hmem₂
    rcases hentry call id₁ hmem₁ with hold₁ | ⟨rfl, hnone⟩
    · rcases hentry call id₂ hmem₂ with hold₂ | ⟨_, hnone⟩
      · exact h.once call id₁ id₂ hold₁ hold₂
      · exact absurd hold₁ (hnone id₁)
    · rcases hentry call id₂ hmem₂ with hold₂ | ⟨rfl, _⟩
      · exact absurd hold₂ (hnone id₂)
      · rfl
  · simp only [hwal]
    intro call hlog
    rcases hlogged call hlog with hold | hnew
    · obtain ⟨id', hmem⟩ := h.logged call hold
      exact ⟨id', List.mem_append_left _ hmem⟩
    · exact ⟨id, by simp [hnew]⟩
  · simp only [hwal]
    exact fun data hmem => (h.queue data hmem).mono hmore
  · simp only [hwal, hchannels]
    exact fun call n data hget => (h.sent call n data hget).mono hmore

/-- A live entry leaves the log as it is. -/
theorem Consistent.wal_next (h : Consistent cfg e) (answers : LiveAnswers) :
    (e.system.step cfg.engine (.next answers)).wal = e.system.wal := by
  simp only [System.step]
  split
  · next s lastId n record pending hprocess =>
    have hmem : record ∈ e.system.wal := h.sound.aligned.mem_wal hprocess (List.mem_cons_self ..)
    rcases @liveRecord_cases _ e.system answers ⟨s, lastId, n, record :: pending⟩ record
      (h.sound.resetFree record hmem) pending with hlive | ⟨_, _, _, _, _, _, hlive⟩
    · rw [hlive]
    · rw [hlive]
  · rfl

theorem Consistent.step (h : Consistent cfg e) (hcfg : cfg.Lawful) {action : ExchangeAction}
    (hadmissible : Admissible cfg action) : Consistent cfg (e.step cfg action) := by
  cases action with
  | start call => exact h.demuxStep (by simp) (by simp)
  | serialize call succeeds => exact h.demuxStep (by simp) (by simp)
  | publish call id appended =>
      simp only [Exchange.step]
      split
      · next hserialized =>
        split
        · next hlater =>
          have hunsent : ¬ e.demux.HasSent call := by
            rintro (hphase | ⟨_, hphase⟩)
            · simp [hserialized] at hphase
            · simp [hserialized] at hphase
          cases appended with
          | acknowledged =>
              refine h.append hcfg hlater (h.correlated.step (.publish call true))
                (Demux.channels_step (by simp)) (fun _ hsent => hsent.step _ _ _)
                (fun call' hlogged => ?_) (.inr ⟨call, rfl, hunsent, .inl ?_⟩)
              · rcases hlogged.of_step with hold | haction
                · exact .inl hold
                · cases haction
                  exact .inr rfl
              · exact Demux.calls_publish cfg.format cfg.identifier hserialized true
          | unacknowledged =>
              refine h.append hcfg hlater (h.correlated.step (.publish call false))
                (Demux.channels_step (by simp)) (fun _ hsent => hsent.step _ _ _)
                (fun call' hlogged => ?_) (.inr ⟨call, rfl, hunsent, .inr ⟨.error .publishing, ?_⟩⟩)
              · rcases hlogged.of_step with hold | haction
                · exact .inl hold
                · cases haction
              · exact Demux.calls_publish cfg.format cfg.identifier hserialized false
          | lost => exact h.demuxStep (by simp) (by simp)
        · exact h
      · exact h
  | wait call => exact h.demuxStep (by simp) (by simp)
  | listen =>
      simp only [Exchange.step]
      split
      · exact h
      · next data queue hqueue => exact h.listen hqueue
  | engine action =>
      cases action with
      | append id record =>
          simp only [Exchange.step]
          by_cases hlater : Log.lastId .zero e.system.wal < id
          · exact h.append hcfg hlater h.correlated rfl (fun _ hsent => hsent)
              (fun _ hlogged => .inl hlogged) (.inl hadmissible)
          · have hsame : e.system.step cfg.engine (.append id record) = e.system := by
              simp [System.step, hlater]
            rw [hsame]
            exact h
      | next answers =>
          have hsound : Sound cfg.engine (e.system.step cfg.engine (.next answers)) :=
            h.sound.step hcfg.snapshots (by simp)
          exact (h.push (h.pushed hcfg)).onSystem hsound (h.wal_next answers)
      | start loads replays =>
          refine h.onSystem (h.sound.step hcfg.snapshots (by simp)) ?_
          simp only [System.step]
          split <;> rfl
      | read count =>
          refine h.onSystem (h.sound.step hcfg.snapshots (by simp)) ?_
          simp only [System.step]
          split <;> rfl
      | crash => exact h.onSystem (h.sound.step hcfg.snapshots (by simp)) rfl
  | fail stored =>
      have hsound : Sound cfg.engine { e.system with
          process := none
          executions := e.system.executions
            ++ executions ((e.system.published cfg.engine).takeWhile Output.isExecution) } :=
        ⟨h.sound.ordered, h.sound.resetFree, h.sound.snapshots, fun _ heq => by cases heq⟩
      cases stored with
      | true => exact (h.push (h.pushed hcfg)).onSystem hsound rfl
      | false => exact h.onSystem hsound rfl

/-- What a call has been sent is the answer to its own message. -/
theorem Consistent.answered (h : Consistent cfg e) (hcfg : cfg.Lawful) {call n : Nat} {data : String}
    (hsent : e.demux.channels[call]? = some (n, data)) :
    ∃ payload, data = cfg.writeReply payload ∧ cfg.AnsweredAt e.system.wal call payload := by
  obtain ⟨hidentifier, _, _⟩ := h.correlated.sent call n data hsent
  obtain ⟨call', payload, rfl, hpayload, hanswered⟩ := h.sent call n data hsent
  rw [hcfg.replies, hpayload, Option.some.injEq] at hidentifier
  cases hcfg.distinct hidentifier
  exact ⟨payload, rfl, hanswered⟩

/-- The log only grows. -/
theorem Consistent.wal_prefix (h : Consistent cfg e) (action : ExchangeAction) :
    e.system.wal <+: (e.step cfg action).system.wal := by
  have happend : ∀ id record,
      e.system.wal <+: (e.system.step cfg.engine (.append id record)).wal := by
    intro id record
    simp only [System.step]
    split
    · exact List.prefix_append ..
    · exact List.prefix_rfl
  cases action with
  | publish call id appended =>
      simp only [Exchange.step]
      split
      · split
        · cases appended with
          | lost => exact List.prefix_rfl
          | _ => exact happend id (cfg.request call)
        · exact List.prefix_rfl
      · exact List.prefix_rfl
  | listen =>
      simp only [Exchange.step]
      split <;> exact List.prefix_rfl
  | engine action =>
      cases action with
      | append id record => exact happend id record
      | next answers =>
          change e.system.wal <+: (e.system.step cfg.engine (.next answers)).wal
          rw [h.wal_next answers]
      | start loads replays =>
          simp only [Exchange.step, System.step]
          split <;> exact List.prefix_rfl
      | read count =>
          simp only [Exchange.step, System.step]
          split <;> exact List.prefix_rfl
      | crash => exact List.prefix_rfl
  | _ => exact List.prefix_rfl

theorem Consistent.run (h : Consistent cfg e) (hcfg : cfg.Lawful) {actions : List ExchangeAction}
    (hadmissible : ∀ action ∈ actions, Admissible cfg action) :
    Consistent cfg (e.run cfg actions) ∧ e.system.wal <+: (e.run cfg actions).system.wal := by
  induction actions generalizing e with
  | nil => exact ⟨h, List.prefix_rfl⟩
  | cons action actions ih =>
      have hstep := h.step hcfg (hadmissible action (List.mem_cons_self ..))
      obtain ⟨hrun, hmore⟩ := ih hstep fun a hmem => hadmissible a (List.mem_cons_of_mem _ hmem)
      exact ⟨hrun, (h.wal_prefix action).trans hmore⟩

end Exchange

/-! ### Linearizability -/

/-- The log linearizes the calls of a run. A call that has returned a reply was answered so where its
message stands in the log, by the engine that has handled nothing but the log before it; a message stands
there at most once; and if one call had returned before another was made, then its message stands before
that of the other. -/
structure Linearized {R : Type} (cfg : ExchangeConfig R) (actions : List ExchangeAction) : Prop where
  legal : ∀ call reply,
    ((Exchange.init R _).run cfg actions).demux.calls[call]? = some (.returned (.ok reply)) →
    ∃ payload, cfg.AnsweredAt ((Exchange.init R _).run cfg actions).system.wal call payload ∧
      cfg.format.decode call (cfg.writeReply payload) = some reply
  once : ∀ call id id', (id, cfg.request call) ∈ ((Exchange.init R _).run cfg actions).system.wal →
    (id', cfg.request call) ∈ ((Exchange.init R _).run cfg actions).system.wal → id = id'
  realTime : ∀ before after, actions = before ++ after → ∀ call reply call',
    ((Exchange.init R _).run cfg before).demux.calls[call]? = some (.returned (.ok reply)) →
    ((Exchange.init R _).run cfg before).demux.calls[call']? = none →
    ∃ id, (id, cfg.request call) ∈ ((Exchange.init R _).run cfg actions).system.wal ∧
      ∀ id', (id', cfg.request call') ∈ ((Exchange.init R _).run cfg actions).system.wal → id < id'

/-- **The calls of a gateway are linearizable.** However they interleave with each other, with other
gateways and with an engine that dies and replays, while nobody resets it. -/
theorem run_linearized {R : Type} (cfg : ExchangeConfig R) (hcfg : cfg.Lawful)
    (actions : List ExchangeAction)
    (hadmissible : ∀ action ∈ actions, Exchange.Admissible cfg action) : Linearized cfg actions := by
  obtain ⟨hrun, _⟩ := Exchange.consistent_init.run hcfg hadmissible
  refine ⟨fun call reply hreturned => ?_, hrun.once, ?_⟩
  · obtain ⟨n, data, hsent, hdecode⟩ := hrun.correlated.replied call reply hreturned
    obtain ⟨payload, rfl, hanswered⟩ := hrun.answered hcfg hsent
    exact ⟨payload, hanswered, hdecode⟩
  · rintro before after rfl call reply call' hreturned hunmade
    have hbefore : ∀ action ∈ before, Exchange.Admissible cfg action :=
      fun action hmem => hadmissible action (List.mem_append_left _ hmem)
    have hafter : ∀ action ∈ after, Exchange.Admissible cfg action :=
      fun action hmem => hadmissible action (List.mem_append_right _ hmem)
    obtain ⟨hpast, _⟩ := Exchange.consistent_init.run hcfg hbefore
    obtain ⟨_, later, hwal⟩ := hpast.run hcfg hafter
    have hsplit : (Exchange.init R _).run cfg (before ++ after)
        = ((Exchange.init R _).run cfg before).run cfg after := by
      simp only [Exchange.run, List.foldl_append]
    rw [hsplit, ← hwal]
    obtain ⟨id, hmem⟩ := hpast.logged call (.inr ⟨reply, hreturned⟩)
    refine ⟨id, List.mem_append_left _ hmem, fun id' hmem' => ?_⟩
    rcases List.mem_append.mp hmem' with hold | hnew
    · rcases hpast.hasSent hcfg hold with hphase | ⟨_, hphase⟩
      · simp [hunmade] at hphase
      · simp [hunmade] at hphase
    · have hordered := (hsplit ▸ hrun).sound.ordered.increasing
      rw [← hwal] at hordered
      exact (List.pairwise_append.mp hordered).2.2 _ hmem _ hnew

/-! ### Onramps over a crash -/

def quote : Char := Char.ofNat 34

def backslash : Char := Char.ofNat 92

def escape (cs : List Char) : List Char :=
  cs.flatMap fun c => if c = quote ∨ c = backslash then [backslash, c] else [c]

def unescape : List Char → Option (List Char)
  | [] => none
  | [c] => if c = quote then some [] else none
  | c :: c' :: cs =>
      if c = quote then some []
      else if c = backslash then (unescape cs).map (c' :: ·)
      else (unescape (c' :: cs)).map (c :: ·)

theorem unescape_escape (cs rest : List Char) :
    unescape (escape cs ++ quote :: rest) = some cs := by
  induction cs with
  | nil => cases rest <;> simp [escape, unescape]
  | cons c cs ih =>
      by_cases hc : c = quote ∨ c = backslash
      · have hescape : escape (c :: cs) = backslash :: c :: escape cs := by simp [escape, hc]
        rw [hescape, List.cons_append, List.cons_append, unescape, if_neg (by decide), if_pos rfl, ih]
        rfl
      · have hescape : escape (c :: cs) = c :: escape cs := by simp [escape, hc]
        obtain ⟨hquote, hbackslash⟩ := not_or.mp hc
        obtain ⟨c', cs', hrest⟩ : ∃ c' cs', escape cs ++ quote :: rest = c' :: cs' := by
          cases escape cs <;> exact ⟨_, _, rfl⟩
        rw [hescape, List.cons_append, hrest, unescape, if_neg hquote, if_neg hbackslash, ← hrest, ih]
        rfl

def readAfter (before : String) (text : String) : Option String :=
  if before.toList <+: text.toList then
    (unescape (text.toList.drop before.toList.length)).map String.ofList
  else none

def quoted (before id after : String) : String :=
  before ++ String.ofList (escape id.toList) ++ String.singleton quote ++ after

theorem readAfter_quoted (before id after : String) :
    readAfter before (quoted before id after) = some id := by
  have htext : (quoted before id after).toList
      = before.toList ++ (escape id.toList ++ quote :: after.toList) := by
    simp [quoted]
  rw [readAfter, htext, if_pos (List.prefix_append ..), List.drop_left, unescape_escape]
  simp

def onrampPrefix : String :=
  "\x7b\"user_id\":1,\"qty\":100,\"queue_id\":\"q\",\"identifier\":\""

def replyPrefix : String := "\x7b\"identifier\":\""

def balanceMembers (usd : Balance) : String :=
  ",\"usdBalance\":\x7b\"available\":" ++ toString usd.available ++ ",\"locked\":"
    ++ toString usd.locked ++ "\x7d,\"stockBalance\":\x7b\x7d\x7d"

def replyMembers : Reply → String
  | .balance _ usd _ => balanceMembers usd
  | _ => "\x7d"

def onrampExchange : ExchangeConfig String where
  engine := { onrampConfig with decoder := { onrampConfig.decoder with
    onramp := fun data => (readAfter onrampPrefix data).map fun id => ⟨1, 100, "q", id⟩ } }
  queueId := "q"
  message call := .onramp ⟨1, 100, "q", Nat.repr call⟩
  writeMsg msg := quoted onrampPrefix msg.identifier "\x7d"
  writeReply payload := quoted replyPrefix payload.identifier (replyMembers payload)
  format := ⟨readAfter replyPrefix, fun _ data => some data⟩

theorem onrampExchange_lawful : onrampExchange.Lawful where
  snapshots _ := rfl
  messages call := by
    simp [onrampExchange, Msg.channel, Decoder.decode, readAfter_quoted, Msg.identifier]
  replies payload := by
    simp only [onrampExchange, readAfter_quoted]
  distinct _ _ h := Nat.repr_inj.mp h
  queued _ := rfl
  resetFree _ := by simp [onrampExchange, Msg.channel]

/-- The second onramp is stored although its call sees an error, and the engine dies before it reads it.
The third is made when the first has returned. -/
def overCrash : List ExchangeAction :=
  [.engine (.start true true), .start 1, .serialize 1 true, .publish 1 (toLex (1, 0)) .acknowledged,
    .engine (.read 5), .start 2, .serialize 2 true, .engine (.next ⟨true, true, true, true⟩),
    .publish 2 (toLex (1, 1)) .unacknowledged, .engine .crash, .listen, .wait 1,
    .engine (.start true true), .start 3, .serialize 3 true, .publish 3 (toLex (2, 0)) .acknowledged,
    .engine (.read 5), .engine (.next ⟨true, true, true, true⟩), .wait 3, .listen, .wait 3]

theorem run_linearized_overCrash : Linearized onrampExchange overCrash ∧ ∃ payload,
    onrampExchange.AnsweredAt ((Exchange.init String _).run onrampExchange overCrash).system.wal 3
      payload ∧
    onrampExchange.writeReply payload = quoted replyPrefix "3" (balanceMembers ⟨300, 0⟩) := by
  have hlinearized := run_linearized onrampExchange onrampExchange_lawful overCrash (by
    simp [overCrash, Exchange.Admissible])
  obtain ⟨payload, hanswered, hdecode⟩ := hlinearized.legal 3
    (quoted replyPrefix "3" (balanceMembers ⟨300, 0⟩)) (by decide +kernel)
  exact ⟨hlinearized, payload, hanswered, Option.some.inj hdecode⟩

end CexRs
