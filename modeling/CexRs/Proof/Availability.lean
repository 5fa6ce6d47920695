import CexRs.Proof.Linearizable

/-!
# No reply is lost

While the engine keeps running, a call whose `XADD` has succeeded is owed nothing but what is still to
come: its entry is ahead of the engine, or its reply is in the response queue, or it was sent to the call.
So once the engine has caught up and the queue is empty, every call that waits finds its reply.
-/

namespace CexRs

open FixedWidth OrderedMap

/-! ### Senders in place -/

namespace Demux

variable {R : Type} {format : ReplyFormat R} {identifier : Nat → String} {d : Demux R}

def Awaiting (identifier : Nat → String) (d : Demux R) : Prop :=
  ∀ (call : Nat) (phase : CallPhase R), d.calls[call]? = some phase → phase.isReturned = false →
    d.channels[call]? ≠ none ∨ d.pending[identifier call]? = some call

theorem awaiting_init : (init : Demux R).Awaiting identifier := by
  simp [Awaiting, init]

/-- Where neither channels nor senders change, only the calls that were not there before, or had
returned, have to be looked at. -/
theorem Awaiting.of_same (h : d.Awaiting identifier) {d' : Demux R}
    (hchannels : d'.channels = d.channels) (hpending : d'.pending = d.pending)
    (hcalls : ∀ (call : Nat) (phase : CallPhase R), d'.calls[call]? = some phase →
      phase.isReturned = false →
      ∃ phase', d.calls[call]? = some phase' ∧ phase'.isReturned = false) :
    d'.Awaiting identifier := by
  intro call phase hget hopen
  obtain ⟨phase', hget', hopen'⟩ := hcalls call phase hget hopen
  rw [hchannels, hpending]
  exact h call phase' hget' hopen'

theorem Awaiting.enter (h : d.Awaiting identifier) {call : Nat} {phase phase' : CallPhase R}
    (hphase : d.calls[call]? = some phase) (hopen : phase.isReturned = false) :
    (d.enter call phase').Awaiting identifier := by
  refine h.of_same rfl rfl fun call' phase'' hget hopen' => ?_
  simp only [Demux.enter, get_insert] at hget
  split at hget
  · next hcall => exact ⟨phase, hcall ▸ hphase, hopen⟩
  · exact ⟨phase'', hget, hopen'⟩

theorem Awaiting.start (hdistinct : Function.Injective identifier) (h : d.Awaiting identifier)
    (call : Nat) : (d.step format identifier (.start call)).Awaiting identifier := by
  simp only [step]
  cases hcall : d.calls[call]? with
  | some phase => exact h
  | none =>
      intro call' phase hget hopen
      by_cases hsame : call = call'
      · subst hsame
        right
        simp only [get_insert_self]
      · simp only [get_insert_of_ne hsame] at hget
        simp only [get_insert_of_ne (hdistinct.ne hsame)]
        exact h call' phase hget hopen

theorem Awaiting.listen (hdistinct : Function.Injective identifier)
    (hsound : d.Sound format identifier) (h : d.Awaiting identifier) (data : String) :
    (d.deliver format data).Awaiting identifier := by
  rcases deliver_cases format d data with hpass | ⟨id, call, _, hpending, hsend⟩
  · rw [hpass]
    exact h
  · obtain ⟨rfl, _, _⟩ := hsound.pending id call hpending
    rw [hsend]
    intro call' phase hget hopen
    by_cases hsame : call = call'
    · subst hsame
      have hreturned : d.hasReturned call = false := (hasReturned_of_get hget).trans hopen
      left
      simp [hreturned]
    · rcases h call' phase hget hopen with hsent | hwaiting
      · exact .inl (by rwa [get_channels_ne hsame])
      · exact .inr (by rwa [get_erase_of_ne (hdistinct.ne hsame)])

theorem Awaiting.step (hdistinct : Function.Injective identifier)
    (hsound : d.Sound format identifier) (h : d.Awaiting identifier) (action : DemuxAction) :
    (d.step format identifier action).Awaiting identifier := by
  cases action with
  | start call => exact h.start hdistinct call
  | serialize call succeeds =>
      simp only [Demux.step]
      split
      · next hphase => exact h.enter hphase rfl
      · exact h
  | publish call succeeds =>
      simp only [Demux.step]
      split
      · next hphase => exact h.enter hphase rfl
      · exact h
  | wait call =>
      simp only [Demux.step]
      split
      · next hphase =>
        unfold receive
        split
        · exact h.enter hphase rfl
        · split
          · exact h
          · exact h.enter hphase rfl
      · exact h
  | listen data => exact h.listen hdistinct hsound data

end Demux

/-! ### What a call is owed -/

namespace Exchange

variable {R : Type} {cfg : ExchangeConfig R} {e : Exchange R cfg.engine.codec.Json}

def Undisturbed : ExchangeAction → Prop
  | .fail _ | .engine .crash | .engine (.start _ _) => False
  | _ => True

/-- A published call whose entry is behind a running engine has a reply in the queue, or was sent one. -/
structure Served (cfg : ExchangeConfig R) (e : Exchange R cfg.engine.codec.Json) : Prop where
  consistent : Consistent cfg e
  awaiting : e.demux.Awaiting cfg.identifier
  served : ∀ p, e.system.process = some p → ∀ call id, e.demux.calls[call]? = some .published →
    (id, cfg.request call) ∈ e.system.wal → id ≤ p.lastId →
    (∃ data ∈ e.queue, cfg.format.identifierOf data = some (cfg.identifier call)) ∨
      e.demux.channels[call]? ≠ none

/-- Calls that were published before stay so, as far as they are concerned. -/
theorem Served.demuxStep (h : Served cfg e) (hcfg : cfg.Lawful) {action : DemuxAction}
    (hpublish : ∀ call, action ≠ .publish call true) (hlisten : ∀ data, action ≠ .listen data) :
    Served cfg (e.demuxStep cfg action) where
  consistent := h.consistent.demuxStep hpublish hlisten
  awaiting := h.awaiting.step hcfg.distinct h.consistent.correlated action
  served p hp call id hphase hmem hle := by
    have hbefore : e.demux.calls[call]? = some .published := by
      have hstep := Demux.calls_step cfg.format cfg.identifier e.demux call action
      change (e.demux.step cfg.format cfg.identifier action).calls[call]? = _ at hphase
      rw [hphase] at hstep
      rcases hstep with hsame | hadvance
      · exact hsame.symm
      · generalize e.demux.calls[call]? = before at hadvance
        cases hadvance with
        | publish haction => exact absurd haction (hpublish call)
    change _ ∨ (e.demux.step cfg.format cfg.identifier action).channels[call]? ≠ none
    rw [Demux.channels_step hlisten]
    exact h.served p hp call id hbefore hmem hle

theorem Served.listen (h : Served cfg e) (hcfg : cfg.Lawful) {data : String} {queue : List String}
    (hqueue : e.queue = data :: queue) : Served cfg { e.demuxStep cfg (.listen data) with queue } where
  consistent := h.consistent.listen hqueue
  awaiting := h.awaiting.listen hcfg.distinct h.consistent.correlated data
  served p hp call id hphase hmem hle := by
    change (∃ text ∈ queue, cfg.format.identifierOf text = some (cfg.identifier call)) ∨
      (e.demux.deliver cfg.format data).channels[call]? ≠ none
    change (e.demux.deliver cfg.format data).calls[call]? = some .published at hphase
    have hbefore : e.demux.calls[call]? = some .published := by
      rcases Demux.deliver_cases cfg.format e.demux data with hpass | ⟨_, _, _, _, hsend⟩
      · rwa [hpass] at hphase
      · rwa [hsend] at hphase
    have hkeeps : e.demux.channels[call]? ≠ none →
        (e.demux.deliver cfg.format data).channels[call]? ≠ none := by
      intro hsent
      rcases Demux.deliver_cases cfg.format e.demux data with hpass | ⟨_, call', _, _, hsend⟩
      · rwa [hpass]
      · rw [hsend]
        by_cases hsame : call' = call
        · subst hsame
          dsimp only
          split
          · exact hsent
          · simp
        · rwa [Demux.get_channels_ne hsame]
    rcases h.served p hp call id hbefore hmem hle with ⟨text, htext, hidentifier⟩ | hsent
    · rw [hqueue] at htext
      rcases List.mem_cons.mp htext with rfl | htext
      · -- the reply that is taken is the call's
        right
        rcases h.awaiting call _ hbefore rfl with hsent | hpending
        · exact hkeeps hsent
        · have hopen : e.demux.hasReturned call = false := Demux.hasReturned_of_get hbefore
          simp [Demux.deliver, hidentifier, hpending, hopen]
      · exact .inl ⟨text, htext, hidentifier⟩
    · exact .inr (hkeeps hsent)

/-- What is appended is ahead of the engine. -/
theorem lastId_lt_of_later {wal : Wal} {p : Process} {id : StreamId} (record : Record)
    (hp : InPlace cfg.engine wal p) (hordered : Log.Ordered .zero wal)
    (hlater : Log.lastId .zero wal < id) : p.lastId < id := by
  obtain ⟨front, back, _, rfl, hlast, _, _⟩ := hp
  have happended := hordered.concat (e := (id, record)) hlater
  rw [List.append_assoc] at happended
  rw [hlast]
  exact happended.lastId_lt (List.mem_append_right back (List.mem_singleton_self (id, record)))

theorem Served.append (h : Served cfg e) (hcfg : cfg.Lawful) {id : StreamId} {record : Record}
    {demux : Demux R} (hlater : Log.lastId .zero e.system.wal < id)
    (hconsistent : Consistent cfg
      { e with demux, system := e.system.step cfg.engine (.append id record) })
    (hawaiting : demux.Awaiting cfg.identifier) (hchannels : demux.channels = e.demux.channels)
    (hcalls : ∀ call, e.demux.HasSent call → demux.calls[call]? = some .published →
      e.demux.calls[call]? = some .published) :
    Served cfg { e with demux, system := e.system.step cfg.engine (.append id record) } := by
  refine ⟨hconsistent, hawaiting, fun p hp call id' hphase hmem hle => ?_⟩
  have hsystem : e.system.step cfg.engine (.append id record)
      = { e.system with wal := e.system.wal ++ [(id, record)] } := by
    simp [System.step, hlater]
  simp only [hsystem] at hp hmem
  have hahead := lastId_lt_of_later record (h.consistent.sound.process p hp)
    h.consistent.sound.ordered hlater
  rcases List.mem_append.mp hmem with hold | hnew
  · have hbefore := hcalls call (h.consistent.hasSent hcfg hold) hphase
    simp only [hchannels]
    exact h.served p hp call id' hbefore hold hle
  · cases List.mem_singleton.mp hnew
    exact absurd hle (not_le_of_gt hahead)

/-- The engine takes an entry, and if it is a call's, its reply is pushed. -/
theorem Served.next (h : Served cfg e) (hcfg : cfg.Lawful) (answers : LiveAnswers) :
    Served cfg (e.step cfg (.engine (.next answers))) := by
  have hconsistent : Consistent cfg (e.step cfg (.engine (.next answers))) :=
    h.consistent.step hcfg trivial
  refine ⟨hconsistent, h.awaiting, fun p' hp' call id hphase hmem hle => ?_⟩
  have hmem : (id, cfg.request call) ∈ e.system.wal := by
    rw [← h.consistent.wal_next answers]
    exact hmem
  change (∃ data ∈ e.queue ++ e.system.pushed cfg, _) ∨ _
  -- what was owed before is still owed in the same way
  have hbefore : ∀ p, e.system.process = some p → id ≤ p.lastId →
      (∃ data ∈ e.queue ++ e.system.pushed cfg,
        cfg.format.identifierOf data = some (cfg.identifier call)) ∨
        e.demux.channels[call]? ≠ none := by
    intro p hp hle
    rcases h.served p hp call id hphase hmem hle with ⟨data, hdata, hidentifier⟩ | hsent
    · exact .inl ⟨data, List.mem_append_left _ hdata, hidentifier⟩
    · exact .inr hsent
  change (e.system.step cfg.engine (.next answers)).process = some p' at hp'
  simp only [System.step] at hp'
  split at hp'
  · next s lastId n record pending hprocess =>
    obtain ⟨front, back, outputs, hwal, hlast, hdispatch, rest, hback⟩ :=
      h.consistent.sound.process _ hprocess
    have hentry : e.system.wal = front ++ record :: (pending ++ rest) := by
      rw [hwal, ← hback, List.cons_append]
    have hordered := h.consistent.sound.ordered
    have hfree := h.consistent.sound.resetFree record (by simp [hentry])
    rcases @liveRecord_cases _ e.system answers ⟨s, lastId, n, record :: pending⟩ record hfree pending
      with hlive | ⟨s', outputs', n', rows, hrecord, _, hlive⟩
    · rw [hlive] at hp'
      cases hp'
    · rw [hlive] at hp'
      cases hp'
      rw [hentry] at hmem hordered
      rcases List.mem_append.mp hmem with hfront | hmem
      · exact hbefore _ hprocess (hlast ▸ hordered.left.le_lastId hfront)
      · rcases List.mem_cons.mp hmem with hhere | hlater
        · left
          subst hhere
          obtain ⟨_, payload, hidentifier, hreplies⟩ := hcfg.answer hrecord
          refine ⟨cfg.writeReply payload, List.mem_append_right _ ?_, ?_⟩
          · simp only at hrecord
            simp [System.pushed, System.published, hprocess, hrecord, Except.toOption, hreplies]
          · rw [hcfg.replies, hidentifier]
        · have hpair := (List.pairwise_append.mp hordered.increasing).2.1
          exact absurd hle (not_le_of_gt ((List.pairwise_cons.mp hpair).1 _ hlater))
  · exact hbefore p' hp' hle

theorem Served.step (h : Served cfg e) (hcfg : cfg.Lawful) {action : ExchangeAction}
    (hadmissible : Admissible cfg action) (hundisturbed : Undisturbed action) :
    Served cfg (e.step cfg action) := by
  have hconsistent := h.consistent.step hcfg hadmissible
  cases action with
  | start call => exact h.demuxStep hcfg (by simp) (by simp)
  | serialize call succeeds => exact h.demuxStep hcfg (by simp) (by simp)
  | publish call id appended =>
      simp only [Exchange.step] at hconsistent ⊢
      split at hconsistent
      · next hserialized =>
        split at hconsistent
        · next hlater =>
          rw [if_pos hlater]
          -- a call that has sent its message is another one, and stands as before
          have hcalls : ∀ succeeds call', e.demux.HasSent call' →
              (e.demux.step cfg.format cfg.identifier (.publish call succeeds)).calls[call']?
                = some .published → e.demux.calls[call']? = some .published := by
            intro succeeds call' hsent hphase
            have hstep := Demux.calls_step cfg.format cfg.identifier e.demux call'
              (.publish call succeeds)
            rw [hphase] at hstep
            rcases hstep with hsame | hadvance
            · exact hsame.symm
            · unfold Demux.HasSent at hsent
              generalize e.demux.calls[call']? = before at hadvance hsent
              cases hadvance with
              | publish haction => rcases hsent with hsent | ⟨_, hsent⟩ <;> cases hsent
          have hawaiting : ∀ succeeds,
              (e.demux.step cfg.format cfg.identifier (.publish call succeeds)).Awaiting
                cfg.identifier :=
            fun succeeds => h.awaiting.step hcfg.distinct h.consistent.correlated _
          cases appended with
          | acknowledged =>
              exact h.append hcfg hlater hconsistent (hawaiting true) (Demux.channels_step (by simp))
                (hcalls true)
          | unacknowledged =>
              exact h.append hcfg hlater hconsistent (hawaiting false) (Demux.channels_step (by simp))
                (hcalls false)
          | lost => exact h.demuxStep hcfg (by simp) (by simp)
        · next hlater =>
          rw [if_neg hlater]
          exact h
      · exact h
  | wait call => exact h.demuxStep hcfg (by simp) (by simp)
  | listen =>
      simp only [Exchange.step]
      split
      · exact h
      · next data queue hqueue => exact h.listen hcfg hqueue
  | engine action =>
      cases action with
      | append id record =>
          by_cases hlater : Log.lastId .zero e.system.wal < id
          · exact h.append hcfg hlater hconsistent h.awaiting rfl fun _ _ hphase => hphase
          · have hsame : e.step cfg (.engine (.append id record)) = e := by
              simp [Exchange.step, System.step, hlater]
            rw [hsame]
            exact h
      | next answers => exact h.next hcfg answers
      | start loads replays => exact hundisturbed.elim
      | read count =>
          refine ⟨hconsistent, h.awaiting, fun p' hp' call id hphase hmem hle => ?_⟩
          simp only [Exchange.step, System.step] at hp' hmem ⊢
          split at hp'
          · next s lastId n hprocess =>
            cases hp'
            simp only [hprocess] at hmem
            exact h.served _ hprocess call id hphase hmem hle
          · split at hmem
            · exact h.served p' hp' call id hphase hmem hle
            · exact h.served p' hp' call id hphase hmem hle
      | crash => exact hundisturbed.elim
  | fail stored => exact hundisturbed.elim

theorem Served.run (h : Served cfg e) (hcfg : cfg.Lawful) {actions : List ExchangeAction}
    (hadmissible : ∀ action ∈ actions, Admissible cfg action)
    (hundisturbed : ∀ action ∈ actions, Undisturbed action) : Served cfg (e.run cfg actions) := by
  induction actions generalizing e with
  | nil => exact h
  | cons action actions ih =>
      exact ih (h.step hcfg (hadmissible action (List.mem_cons_self ..))
          (hundisturbed action (List.mem_cons_self ..)))
        (fun a hmem => hadmissible a (List.mem_cons_of_mem _ hmem))
        fun a hmem => hundisturbed a (List.mem_cons_of_mem _ hmem)

/-- At its first start the engine is behind nothing. -/
theorem served_start (hcfg : cfg.Lawful) (loads replays : Bool) :
    Served cfg ((init R _).step cfg (.engine (.start loads replays))) where
  consistent := consistent_init.step hcfg trivial
  awaiting := Demux.awaiting_init
  served p _ call id hphase _ _ := by
    simp [Exchange.step, init, Demux.init] at hphase

end Exchange

/-- **Every waiting call is answered.** From the engine's first start on, as long as it neither panics nor
dies: when it has caught up with the log and the queue has been emptied, a call that waits returns the
answer to its message the next time that it looks. -/
theorem run_answers_all {R : Type} (cfg : ExchangeConfig R) (hcfg : cfg.Lawful) (loads replays : Bool)
    (actions : List ExchangeAction)
    (hadmissible : ∀ action ∈ actions, Exchange.Admissible cfg action)
    (hundisturbed : ∀ action ∈ actions, Exchange.Undisturbed action) :
    let e := (Exchange.init R _).run cfg (.engine (.start loads replays) :: actions)
    ∀ p, e.system.process = some p → p.lastId = Log.lastId .zero e.system.wal → e.queue = [] →
    ∀ call, e.demux.calls[call]? = some .published →
      ∃ payload, cfg.AnsweredAt e.system.wal call payload ∧
        (e.step cfg (.wait call)).demux.calls[call]? = some (.returned
          ((cfg.format.decode call (cfg.writeReply payload)).elim (.error .deserialization) .ok)) := by
  intro e p hp hlast hqueue call hphase
  have hserved : Exchange.Served cfg e :=
    (Exchange.served_start hcfg loads replays).run hcfg hadmissible hundisturbed
  obtain ⟨id, hmem⟩ := hserved.consistent.logged call (.inl hphase)
  have hle : id ≤ p.lastId := by
    rw [hlast]
    exact hserved.consistent.sound.ordered.le_lastId hmem
  rcases hserved.served p hp call id hphase hmem hle with ⟨data, hdata, _⟩ | hsent
  · rw [hqueue] at hdata
    cases hdata
  · obtain ⟨⟨n, data⟩, hget⟩ := Option.ne_none_iff_exists'.mp hsent
    obtain ⟨payload, rfl, hanswered⟩ := hserved.consistent.answered hcfg hget
    refine ⟨payload, hanswered, ?_⟩
    simp [Exchange.step, Exchange.demuxStep, Demux.step, hphase, Demux.receive, hget, Demux.enter]

/-- Two calls whose messages are read in one batch; the replies are taken when both have been pushed. -/
def oneBatch : List ExchangeAction :=
  [.start 1, .serialize 1 true, .start 2, .serialize 2 true, .publish 2 (toLex (1, 0)) .acknowledged,
    .publish 1 (toLex (1, 1)) .acknowledged, .wait 1, .engine (.read 5),
    .engine (.next ⟨true, true, true, true⟩), .engine (.next ⟨true, true, true, true⟩), .listen, .listen]

theorem run_answers_all_oneBatch :
    ∃ e, e = (Exchange.init String _).run onrampExchange (.engine (.start true true) :: oneBatch) ∧
      ∃ payload, onrampExchange.AnsweredAt e.system.wal 1 payload ∧
        (e.step onrampExchange (.wait 1)).demux.calls[1]?
          = some (.returned (.ok (onrampExchange.writeReply payload))) := by
  have hanswers := run_answers_all onrampExchange onrampExchange_lawful true true oneBatch
    (by simp [oneBatch, Exchange.Admissible]) (by simp [oneBatch, Exchange.Undisturbed])
  have hprocess : ((Exchange.init String _).run onrampExchange
      (.engine (.start true true) :: oneBatch)).system.process.map Process.lastId
        = some (toLex (1, 1)) := by decide +kernel
  obtain ⟨p, hp, hlast⟩ := Option.map_eq_some_iff.mp hprocess
  have hwal : Log.lastId .zero ((Exchange.init String _).run onrampExchange
      (.engine (.start true true) :: oneBatch)).system.wal = toLex (1, 1) := by decide +kernel
  exact ⟨_, rfl, hanswers p hp (hlast.trans hwal.symm) (by decide +kernel) 1 (by decide +kernel)⟩

end CexRs
