import CexRs.Proof.HubPrivacy
import CexRs.Session

/-!
# Sessions apart

Where a client stands (what the maps of the hub hold of it, and the phase of its session) changes by its
own actions only, and in a way that only depends on where it stood. What it is sent depends on that, on
its own texts and on what the listener has handed out. So every client is served as if there were no
other.
-/

namespace CexRs

open SetIndex OrderedMap

/-! ### Where a client stands -/

@[ext]
structure Standing where
  trace : Trace
  phase : Option Phase

namespace Standing

def blank : Standing := ⟨.blank, none⟩

def withTopics (v : Standing) (topics : Set String) : Standing :=
  { v with trace := { v.trace with topics } }

/-- A call, up to the end of its first lock. -/
def call : Call → Standing → Standing
  | .subscribe topic, v => v.withTopics (insert topic v.trace.topics)
  | .unsubscribe topic, v => v.withTopics (v.trace.topics \ {topic})
  | .authenticate userId, v =>
      ⟨{ v.trace with session := v.trace.session.map fun _ => ⟨some userId⟩ },
        some (.authenticating userId)⟩
  | .unregister, v =>
      ⟨{ v.trace with session := none }, some (.leavingTopics (v.trace.session.bind (·.userId)))⟩

/-- The next lock of a call. -/
def proceed (v : Standing) : Standing :=
  match v.phase with
  | some .registering => ⟨{ v.trace with session := some ⟨none⟩ }, some .idle⟩
  | some (.authenticating userId) =>
      ⟨{ v.trace with users := insert userId v.trace.users }, some .idle⟩
  | some (.leavingTopics userId) =>
      ⟨{ v.trace with topics := ∅ }, some (userId.elim .gone .leavingUser)⟩
  | some (.leavingUser userId) => ⟨{ v.trace with users := v.trace.users \ {userId} }, some .gone⟩
  | _ => v

end Standing

namespace WsGateway

variable (g : WsGateway)

def standing (clientId : ClientId) : Standing := ⟨g.hub.trace clientId, g.sessions[clientId]?⟩

variable {g} {clientId : ClientId}

/-- What changes the trace and the phase of one client changes where that client stands. -/
theorem standing_update {hub : BroadcasterHub} {trace : Trace} {phase : Phase}
    (htrace : hub.trace = Function.update g.hub.trace clientId trace) :
    (WsGateway.mk hub (g.sessions.insert clientId phase)).standing
      = Function.update g.standing clientId ⟨trace, some phase⟩ := by
  funext c
  by_cases hc : c = clientId
  · subst hc
    simp [standing, htrace]
  · rw [Function.update_of_ne hc]
    ext1
    · change hub.trace c = g.hub.trace c
      rw [htrace, Function.update_of_ne hc]
    · change (g.sessions.insert clientId phase)[c]? = g.sessions[c]?
      rw [get_insert_of_ne (Ne.symm hc)]

theorem standing_update_trace {hub : BroadcasterHub} {trace : Trace}
    (htrace : hub.trace = Function.update g.hub.trace clientId trace) :
    standing { g with hub }
      = Function.update g.standing clientId ⟨trace, g.sessions[clientId]?⟩ := by
  funext c
  by_cases hc : c = clientId
  · subst hc
    simp [standing, htrace]
  · rw [Function.update_of_ne hc]
    ext1
    · change hub.trace c = g.hub.trace c
      rw [htrace, Function.update_of_ne hc]
    · rfl

theorem trace_setUser_always (hub : BroadcasterHub) (clientId : ClientId) (userId : Nat) :
    (hub.setUser clientId userId).trace = Function.update hub.trace clientId { hub.trace clientId with
      session := (hub.trace clientId).session.map fun _ => ⟨some userId⟩ } := by
  cases hget : hub.clients[clientId]? with
  | none =>
      have hsession : (hub.trace clientId).session = none := hget
      have hsame : { hub.trace clientId with
          session := (hub.trace clientId).session.map fun _ => ⟨some userId⟩ } = hub.trace clientId := by
        ext1
        · rw [hsession, Option.map_none]
        · rfl
        · rfl
      rw [hsame, Function.update_eq_self]
      simp [BroadcasterHub.setUser, hget]
  | some session =>
      have hsession : (hub.trace clientId).session = some session := hget
      rw [hub.trace_setUser clientId userId hget, hsession, Option.map_some]

theorem standing_makeCall (g : WsGateway) (clientId : ClientId) (call : Call) :
    (g.makeCall clientId call).standing
      = Function.update g.standing clientId ((g.standing clientId).call call) := by
  cases call with
  | subscribe topic => exact standing_update_trace (g.hub.trace_subscribe clientId topic)
  | unsubscribe topic => exact standing_update_trace (g.hub.trace_unsubscribe clientId topic)
  | authenticate userId => exact standing_update (trace_setUser_always g.hub clientId userId)
  | unregister => exact standing_update (g.hub.trace_removeClient clientId)

theorem standing_proceed (g : WsGateway) (clientId : ClientId) :
    (g.step (.proceed clientId)).standing
      = Function.update g.standing clientId (g.standing clientId).proceed := by
  have hphase : (g.standing clientId).phase = g.sessions[clientId]? := rfl
  unfold Standing.proceed
  simp only [step, hphase]
  cases hget : g.sessions[clientId]? with
  | none => simp
  | some phase =>
      cases phase with
      | registering => exact standing_update (g.hub.trace_insertClient clientId)
      | authenticating userId => exact standing_update (g.hub.trace_addUser clientId userId)
      | leavingTopics userId => exact standing_update (g.hub.trace_removeTopics clientId)
      | leavingUser userId => exact standing_update (g.hub.trace_removeUser clientId userId)
      | _ => simp

theorem standing_connect (g : WsGateway) : (g.step .connect).standing
    = Function.update g.standing g.hub.nextClientId
        { g.standing g.hub.nextClientId with phase := some .registering } := by
  have htrace : g.hub.drawId.1.trace
      = Function.update g.hub.trace g.hub.nextClientId (g.hub.trace g.hub.nextClientId) := by
    rw [Function.update_eq_self]
    rfl
  exact standing_update htrace

theorem nextClientId_makeCall (g : WsGateway) (clientId : ClientId) (call : Call) :
    (g.makeCall clientId call).hub.nextClientId = g.hub.nextClientId := by
  cases call with
  | authenticate userId =>
      simp only [makeCall, BroadcasterHub.setUser]
      split <;> rfl
  | _ => rfl

theorem nextClientId_proceed (g : WsGateway) (clientId : ClientId) :
    (g.step (.proceed clientId)).hub.nextClientId = g.hub.nextClientId := by
  simp only [step]
  split <;> rfl

end WsGateway

/-! ### What a client is served with -/

def Recipient.Reaches (v : Standing) : Recipient → Prop
  | .topic name => name ∈ v.trace.topics
  | .user userId => userId ∈ v.trace.users

namespace WsServer

variable (format : WsFormat) (s : WsServer) (c clientId : ClientId)

/-- The message that is being handed out, and whether the client has been noted for it. -/
def caught : Option (Recipient × WsServerMsg × Prop) :=
  s.broadcast.map fun (recipient, msg, clients) => (recipient, msg, c ∈ clients)

@[ext]
structure View where
  standing : Standing
  io : SessionIo
  caught : Option (Recipient × WsServerMsg × Prop)
  nextClientId : ClientId

def view : View :=
  ⟨s.gateway.standing c, s.io c, s.caught c, s.gateway.hub.nextClientId⟩

/-- The action is a client's own, or one of the listener, or the start of a session. -/
def concerns : ServerAction → Bool
  | .proceed clientId | .read clientId _ _ | .answer clientId | .write clientId | .leave clientId =>
      clientId = c
  | .connect | .broadcast _ _ | .deliver => true

variable {s} {s' : WsServer}

theorem listens_eq : s.listens c
    = (decide ((s.view c).standing.phase = some .idle) && (s.view c).io.owed.isNone) := rfl

theorem mem_clients_iff : c ∈ s.gateway.hub.clients ↔ (s.view c).standing.trace.session ≠ none :=
  mem_clients

theorem sendTo_eq (frame : Frame) (io : SessionIo) : s.sendTo c frame io
    = if (s.view c).standing.trace.session ≠ none then { io with channel := io.channel ++ [frame] }
      else io := by
  unfold sendTo
  simp only [mem_clients_iff]

theorem mem_subscribers (recipient : Recipient) :
    c ∈ s.subscribers recipient ↔ recipient.Reaches (s.view c).standing := by
  cases recipient <;> rfl

/-! ### Steps of the gateway -/

theorem view_onGateway_call (call : Call) (clientId : ClientId)
    (hidle : s.gateway.sessions[clientId]? = some .idle) :
    (s.onGateway (.call clientId call)).view c
      = if c = clientId then { s.view c with standing := (s.view c).standing.call call }
        else s.view c := by
  have hgateway : s.gateway.step (.call clientId call) = s.gateway.makeCall clientId call := by
    simp [WsGateway.step, hidle]
  have hstanding : (s.onGateway (.call clientId call)).gateway.standing
      = Function.update s.gateway.standing clientId ((s.gateway.standing clientId).call call) := by
    simp only [onGateway, hgateway, WsGateway.standing_makeCall]
  have hnext : (s.onGateway (.call clientId call)).gateway.hub.nextClientId
      = s.gateway.hub.nextClientId := by
    simp only [onGateway, hgateway, WsGateway.nextClientId_makeCall]
  have hio : (s.onGateway (.call clientId call)).io = s.io := rfl
  have hcaught : (s.onGateway (.call clientId call)).caught c = s.caught c := rfl
  by_cases hc : c = clientId
  · subst hc
    simp only [view, hstanding, hnext, hio, hcaught, Function.update_self, if_true]
  · simp only [view, hstanding, hnext, hio, hcaught, Function.update_of_ne hc, if_neg hc]

theorem view_onGateway_proceed (clientId : ClientId) :
    (s.onGateway (.proceed clientId)).view c
      = if c = clientId then { s.view c with standing := (s.view c).standing.proceed }
        else s.view c := by
  have hstanding : (s.onGateway (.proceed clientId)).gateway.standing
      = Function.update s.gateway.standing clientId (s.gateway.standing clientId).proceed :=
    WsGateway.standing_proceed s.gateway clientId
  have hnext : (s.onGateway (.proceed clientId)).gateway.hub.nextClientId
      = s.gateway.hub.nextClientId := WsGateway.nextClientId_proceed s.gateway clientId
  have hio : (s.onGateway (.proceed clientId)).io = s.io := rfl
  have hcaught : (s.onGateway (.proceed clientId)).caught c = s.caught c := rfl
  by_cases hc : c = clientId
  · subst hc
    simp only [view, hstanding, hnext, hio, hcaught, Function.update_self, if_true]
  · simp only [view, hstanding, hnext, hio, hcaught, Function.update_of_ne hc, if_neg hc]

theorem view_updateIo (f : SessionIo → SessionIo) (clientId : ClientId) :
    (s.updateIo clientId f).view c
      = if c = clientId then { s.view c with io := f (s.view c).io } else s.view c := by
  by_cases hc : c = clientId
  · subst hc
    simp [view, updateIo, caught]
  · simp [view, updateIo, caught, hc]

/-- What a session does with a text. -/
theorem view_handleText (now : Nat) (text : String) (clientId : ClientId)
    (hidle : s.gateway.sessions[clientId]? = some .idle) :
    (s.handleText format clientId now text).view c = if c = clientId then
      { s.view c with
        standing := (format.respond now text).1.elim (s.view c).standing fun call =>
          (s.view c).standing.call call
        io := { (s.view c).io with owed := some (format.respond now text).2 } }
      else s.view c := by
  unfold handleText
  rw [view_updateIo]
  cases hcall : (format.respond now text).1 with
  | none => simp
  | some call =>
      simp only [view_onGateway_call c call clientId hidle]
      by_cases hc : c = clientId <;> simp [hc]

/-! ### Steps -/

open Classical in
/-- Where the client's own action leads, and the listener's, from what concerns the client. -/
noncomputable def View.step (v : View) : ServerAction → View
  | .connect =>
      { v with
        standing := if c = v.nextClientId then { v.standing with phase := some .registering }
          else v.standing
        nextClientId := v.nextClientId + 1 }
  | .proceed _ => { v with standing := v.standing.proceed }
  | .read _ now text =>
      if v.standing.phase = some .idle ∧ v.io.owed = none then
        { v with
          standing := (format.respond now text).1.elim v.standing fun call => v.standing.call call
          io := { v.io with owed := some (format.respond now text).2 } }
      else v
  | .answer _ =>
      match v.standing.phase, v.io.owed with
      | some .idle, some answer => { v with io := { v.io with
          owed := none
          channel := if v.standing.trace.session ≠ none then v.io.channel ++ [.answer answer]
            else v.io.channel } }
      | _, _ => v
  | .write _ =>
      if v.standing.phase = some .idle ∧ v.io.owed = none then
        { v with io := { v.io with
          channel := v.io.channel.tail
          written := v.io.written ++ v.io.channel.head?.toList } }
      else v
  | .leave _ =>
      if v.standing.phase = some .idle ∧ v.io.owed = none then
        { v with standing := v.standing.call .unregister }
      else v
  | .broadcast recipient msg =>
      match v.caught with
      | none => { v with caught := some (recipient, msg, recipient.Reaches v.standing) }
      | some _ => v
  | .deliver =>
      match v.caught with
      | none => v
      | some (recipient, msg, noted) => { v with
          io := if noted ∧ v.standing.trace.session ≠ none then
              { v.io with channel := v.io.channel ++ [.pushed recipient msg] }
            else v.io
          caught := none }

/-- **One client's server.** An action that concerns the client leads from view to view, and every other
one leaves the view as it is. -/
theorem view_step (s : WsServer) (action : ServerAction) : (s.step format action).view c
    = if concerns c action then (s.view c).step format c action else s.view c := by
  have hlistens : ∀ clientId, s.listens clientId = true →
      s.gateway.sessions[clientId]? = some .idle := by
    intro clientId hlistens
    simp only [listens, Bool.and_eq_true, decide_eq_true_eq] at hlistens
    exact hlistens.1
  -- the test of the loop, as far as the client itself is concerned
  have hown : s.listens c = true ↔ (s.view c).standing.phase = some .idle ∧ (s.view c).io.owed = none := by
    rw [listens_eq, Bool.and_eq_true, decide_eq_true_eq, Option.isNone_iff_eq_none]
  cases action with
  | connect =>
      have hstanding := WsGateway.standing_connect s.gateway
      simp only [WsServer.step, concerns, if_true, View.step]
      ext1
      · change (s.gateway.step .connect).standing c = _
        rw [hstanding]
        by_cases hc : c = s.gateway.hub.nextClientId
        · subst hc
          simp [view]
        · rw [Function.update_of_ne hc]
          exact (if_neg hc).symm
      · rfl
      · rfl
      · rfl
  | proceed clientId =>
      simp only [WsServer.step, view_onGateway_proceed, concerns, View.step, decide_eq_true_eq,
        eq_comm (a := c)]
  | read clientId now text =>
      simp only [WsServer.step]
      by_cases hc : c = clientId
      · subst hc
        simp only [concerns, decide_true, if_true, View.step]
        by_cases hl : s.listens c = true
        · rw [if_pos hl, if_pos (hown.mp hl), view_handleText format c now text c (hlistens c hl),
            if_pos rfl]
        · rw [if_neg hl, if_neg (mt hown.mpr hl)]
      · simp only [concerns, Ne.symm hc, decide_false, Bool.false_eq_true, if_false]
        split
        · next hl => rw [view_handleText format c now text clientId (hlistens clientId hl), if_neg hc]
        · rfl
  | answer clientId =>
      simp only [WsServer.step]
      by_cases hc : c = clientId
      · subst hc
        have hphase : (s.view c).standing.phase = s.gateway.sessions[c]? := rfl
        have howed : (s.view c).io.owed = (s.io c).owed := rfl
        simp only [concerns, decide_true, if_true, View.step, hphase, howed]
        cases hget : s.gateway.sessions[c]? with
        | none => rfl
        | some phase =>
            cases howes : (s.io c).owed with
            | none => cases phase <;> rfl
            | some answer =>
                cases phase with
                | idle =>
                    rw [view_updateIo, if_pos rfl]
                    simp only [sendTo_eq]
                    split <;> rfl
                | _ => rfl
      · simp only [concerns, Ne.symm hc, decide_false, Bool.false_eq_true, if_false]
        split
        · rw [view_updateIo, if_neg hc]
        · rfl
  | write clientId =>
      simp only [WsServer.step]
      by_cases hc : c = clientId
      · subst hc
        simp only [concerns, decide_true, if_true, View.step]
        by_cases hl : s.listens c = true
        · rw [if_pos hl, if_pos (hown.mp hl), view_updateIo, if_pos rfl]
        · rw [if_neg hl, if_neg (mt hown.mpr hl)]
      · simp only [concerns, Ne.symm hc, decide_false, Bool.false_eq_true, if_false]
        split
        · rw [view_updateIo, if_neg hc]
        · rfl
  | leave clientId =>
      simp only [WsServer.step]
      by_cases hc : c = clientId
      · subst hc
        simp only [concerns, decide_true, if_true, View.step]
        by_cases hl : s.listens c = true
        · rw [if_pos hl, if_pos (hown.mp hl), view_onGateway_call c .unregister c (hlistens c hl),
            if_pos rfl]
        · rw [if_neg hl, if_neg (mt hown.mpr hl)]
      · simp only [concerns, Ne.symm hc, decide_false, Bool.false_eq_true, if_false]
        split
        · next hl => rw [view_onGateway_call c .unregister clientId (hlistens clientId hl), if_neg hc]
        · rfl
  | broadcast recipient msg =>
      have hcaught : (s.view c).caught = s.caught c := rfl
      simp only [WsServer.step, concerns, if_true, View.step, hcaught, caught]
      cases hbroadcast : s.broadcast with
      | some broadcast => rfl
      | none =>
          ext1
          · rfl
          · rfl
          · simp only [view, caught, Option.map_some, Option.map_none, Option.some.injEq,
              Prod.mk.injEq, true_and]
            exact propext (mem_subscribers c recipient)
          · rfl
  | deliver =>
      have hcaught : (s.view c).caught = s.caught c := rfl
      simp only [WsServer.step, concerns, if_true, View.step, hcaught, caught]
      cases hbroadcast : s.broadcast with
      | none => rfl
      | some broadcast =>
          obtain ⟨recipient, msg, clients⟩ := broadcast
          ext1
          · rfl
          · have hio : (s.view c).io = s.io c := rfl
            simp only [Option.map_some, sendTo_eq, hio]
            change (if c ∈ clients then _ else _) = _
            by_cases hmem : c ∈ clients
            · simp only [hmem, if_true, true_and]
            · simp only [hmem, if_false, false_and]
          · rfl
          · rfl

/-- The actions that concern a client lead from view to view. -/
theorem view_run (actions : List ServerAction) : (s.run format actions).view c
    = (actions.filter (concerns c)).foldl (View.step format c) (s.view c) := by
  induction actions generalizing s with
  | nil => rfl
  | cons action actions ih =>
      change ((s.step format action).run format actions).view c = _
      rw [ih, view_step]
      by_cases hconcerns : concerns c action = true
      · rw [if_pos hconcerns, List.filter_cons_of_pos hconcerns, List.foldl_cons]
      · rw [if_neg hconcerns, List.filter_cons_of_neg hconcerns]

end WsServer

/-- **Clients are served apart.** However the sessions and the listener interleave, lock by lock: where a
client's session and its entries in the hub stand, what it is about to be sent and what it has been sent
is the same as in the run without the texts, the answers, the writes and the locks of all others. -/
theorem run_apart (format : WsFormat) (c : ClientId) (actions : List ServerAction) :
    let s := WsServer.init.run format actions
    let s' := WsServer.init.run format (actions.filter (WsServer.concerns c))
    s.io c = s'.io c ∧ s.gateway.sessions[c]? = s'.gateway.sessions[c]? ∧
      s.gateway.hub.trace c = s'.gateway.hub.trace c := by
  intro s s'
  have hview : s.view c = s'.view c := by
    rw [WsServer.view_run, WsServer.view_run, List.filter_filter]
    simp only [Bool.and_self]
  exact ⟨congrArg WsServer.View.io hview, congrArg (·.standing.phase) hview,
    congrArg (·.standing.trace) hview⟩

end CexRs
