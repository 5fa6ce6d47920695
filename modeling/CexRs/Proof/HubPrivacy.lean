import CexRs.Hub
import CexRs.Lib.Fold

/-!
# The privacy of the hub

A private message goes to the clients that stand under its user, so these have to be the clients that
are authenticated as that user. Each lock that a call takes changes what the maps hold of the calling
client and of no other; so the invariant is one about a client, its trace in the maps, and where its
session stands. It is lost when a client is authenticated as a second user, since nothing takes it away
under the first.
-/

namespace CexRs

open SetIndex OrderedMap

/-! ### Traces -/

@[ext]
structure Trace where
  session : Option ClientSession
  topics : Set String
  users : Set Nat

def Trace.blank : Trace := ⟨none, ∅, ∅⟩

namespace BroadcasterHub

variable (hub : BroadcasterHub) (clientId : ClientId)

def trace (clientId : ClientId) : Trace where
  session := hub.clients[clientId]?
  topics := {topic | clientId ∈ under hub.topics topic}
  users := {userId | clientId ∈ under hub.userClients userId}

theorem trace_new : new.trace clientId = .blank := by
  ext1
  · simp [trace, new, Trace.blank]
  · ext topic
    simp [trace, new, Trace.blank]
  · ext userId
    simp [trace, new, Trace.blank]

theorem trace_clients (f : Std.ExtTreeMap ClientId ClientSession) {session : Option ClientSession}
    (hself : f[clientId]? = session) (hother : ∀ c ≠ clientId, f[c]? = hub.clients[c]?) :
    trace { hub with clients := f }
      = Function.update hub.trace clientId { hub.trace clientId with session } := by
  funext c
  by_cases hc : c = clientId
  · subst hc
    rw [Function.update_self, ← hself]
    rfl
  · rw [Function.update_of_ne hc]
    simp only [trace, hother c hc]

theorem trace_insertClient : (hub.insertClient clientId).trace
    = Function.update hub.trace clientId { hub.trace clientId with session := some ⟨none⟩ } :=
  hub.trace_clients clientId _ (get_insert_self ..) fun _ hc => get_insert_of_ne hc.symm

theorem trace_removeClient : (hub.removeClient clientId).1.trace
    = Function.update hub.trace clientId { hub.trace clientId with session := none } :=
  hub.trace_clients clientId _ (get_erase_self ..) fun _ hc => get_erase_of_ne hc.symm

theorem trace_setUser (userId : Nat) {session : ClientSession}
    (hget : hub.clients[clientId]? = some session) : (hub.setUser clientId userId).trace
      = Function.update hub.trace clientId { hub.trace clientId with session := some ⟨some userId⟩ } := by
  simp only [setUser, hget]
  exact hub.trace_clients clientId _ (get_insert_self ..) fun _ hc => get_insert_of_ne hc.symm

theorem trace_topics (f : Index String ClientId) {topics : Set String}
    (hself : ∀ topic, clientId ∈ under f topic ↔ topic ∈ topics)
    (hother : ∀ c ≠ clientId, ∀ topic, c ∈ under f topic ↔ c ∈ under hub.topics topic) :
    trace { hub with topics := f }
      = Function.update hub.trace clientId { hub.trace clientId with topics } := by
  funext c
  by_cases hc : c = clientId
  · subst hc
    rw [Function.update_self]
    ext1
    · rfl
    · ext topic
      exact hself topic
    · rfl
  · rw [Function.update_of_ne hc]
    ext1
    · rfl
    · ext topic
      exact hother c hc topic
    · rfl

theorem trace_subscribe (topic : String) : (hub.subscribe clientId topic).trace
    = Function.update hub.trace clientId
        { hub.trace clientId with topics := insert topic (hub.trace clientId).topics } := by
  refine hub.trace_topics clientId _ (fun topic' => ?_) fun c hc topic' => ?_
  · rw [mem_under_add, Set.mem_insert_iff, eq_comm, or_comm]
    simp [trace]
  · simp [mem_under_add, hc]

theorem trace_unsubscribe (topic : String) : (hub.unsubscribe clientId topic).trace
    = Function.update hub.trace clientId
        { hub.trace clientId with topics := (hub.trace clientId).topics \ {topic} } := by
  refine hub.trace_topics clientId _ (fun topic' => ?_) fun c hc topic' => ?_
  · simp [mem_under_remove, trace, eq_comm]
  · simp [mem_under_remove, hc]

theorem trace_removeTopics : (hub.removeTopics clientId).trace
    = Function.update hub.trace clientId { hub.trace clientId with topics := ∅ } := by
  refine hub.trace_topics clientId _ (fun topic => ?_) fun c hc topic => ?_
  · simp [mem_under_purge]
  · simp [mem_under_purge, hc]

theorem trace_users (f : Index Nat ClientId) {users : Set Nat}
    (hself : ∀ userId, clientId ∈ under f userId ↔ userId ∈ users)
    (hother : ∀ c ≠ clientId, ∀ userId, c ∈ under f userId ↔ c ∈ under hub.userClients userId) :
    trace { hub with userClients := f }
      = Function.update hub.trace clientId { hub.trace clientId with users } := by
  funext c
  by_cases hc : c = clientId
  · subst hc
    rw [Function.update_self]
    ext1
    · rfl
    · rfl
    · ext userId
      exact hself userId
  · rw [Function.update_of_ne hc]
    ext1
    · rfl
    · rfl
    · ext userId
      exact hother c hc userId

theorem trace_addUser (userId : Nat) : (hub.addUser clientId userId).trace
    = Function.update hub.trace clientId
        { hub.trace clientId with users := insert userId (hub.trace clientId).users } := by
  refine hub.trace_users clientId _ (fun userId' => ?_) fun c hc userId' => ?_
  · rw [mem_under_add, Set.mem_insert_iff, eq_comm, or_comm]
    simp [trace]
  · simp [mem_under_add, hc]

theorem trace_removeUser (userId : Nat) : (hub.removeUser clientId userId).trace
    = Function.update hub.trace clientId
        { hub.trace clientId with users := (hub.trace clientId).users \ {userId} } := by
  refine hub.trace_users clientId _ (fun userId' => ?_) fun c hc userId' => ?_
  · simp [mem_under_discard, trace, eq_comm]
  · simp [mem_under_discard, hc]

end BroadcasterHub

/-! ### Sessions and traces -/

def usersOf (userId : Option Nat) : Set Nat := {u | userId = some u}

def TraceFits : Option Phase → Trace → Prop
  | none, v | some .registering, v | some .gone, v => v = .blank
  | some .idle, v => ∃ session, v.session = some session ∧ v.users = usersOf session.userId
  | some (.authenticating userId), v =>
      v.session = some ⟨some userId⟩ ∧ ∀ u ∈ v.users, u = userId
  | some (.leavingTopics userId), v => v.session = none ∧ v.users = usersOf userId
  | some (.leavingUser userId), v => v.session = none ∧ v.topics = ∅ ∧ v.users = {userId}

/-- Every client's trace fits its session, and an id that is still to be drawn has none. -/
structure WsGateway.Consistent (g : WsGateway) : Prop where
  fits : ∀ c, TraceFits g.sessions[c]? (g.hub.trace c)
  fresh : ∀ c, g.hub.nextClientId ≤ c → g.sessions[c]? = none

/-- The action authenticates no client as another user than the one it is authenticated as. -/
def WsGateway.KeepsUser (g : WsGateway) : WsAction → Prop
  | .call clientId (.authenticate userId) =>
      ∀ session ∈ g.hub.clients[clientId]?, session.userId = none ∨ session.userId = some userId
  | _ => True

abbrev WsGateway.KeepsUsers : WsGateway → List WsAction → Prop :=
  Fold.EachMeets WsGateway.step WsGateway.KeepsUser

section Steps

variable {g : WsGateway} {clientId : ClientId}

theorem WsGateway.consistent_init : init.Consistent where
  fits c := by
    have hnone : init.sessions[c]? = none := by simp [init]
    rw [hnone]
    exact BroadcasterHub.trace_new c
  fresh c _ := by simp [init]

/-- A lock changes one client's trace, and at its end that client's session stands in a phase that the
new trace fits. -/
theorem WsGateway.Consistent.update (h : g.Consistent) {hub : BroadcasterHub} {phase : Phase}
    {v : Trace} (htrace : hub.trace = Function.update g.hub.trace clientId v)
    (hfits : TraceFits (some phase) v) (hnext : hub.nextClientId = g.hub.nextClientId)
    (hold : g.sessions[clientId]? ≠ none) :
    WsGateway.Consistent ⟨hub, g.sessions.insert clientId phase⟩ where
  fits c := by
    change TraceFits (g.sessions.insert clientId phase)[c]? (hub.trace c)
    rw [htrace, get_insert]
    by_cases hc : clientId = c
    · subst hc
      rw [if_pos rfl, Function.update_self]
      exact hfits
    · rw [if_neg hc, Function.update_of_ne (Ne.symm hc)]
      exact h.fits c
  fresh c hle := by
    have hnone := h.fresh c (hnext ▸ hle)
    change (g.sessions.insert clientId phase)[c]? = none
    rw [get_insert_of_ne, hnone]
    rintro rfl
    exact hold hnone

/-- The same without a change of phase. -/
theorem WsGateway.Consistent.update_idle (h : g.Consistent) {hub : BroadcasterHub} {v : Trace}
    (htrace : hub.trace = Function.update g.hub.trace clientId v) (hfits : TraceFits (some .idle) v)
    (hnext : hub.nextClientId = g.hub.nextClientId)
    (hidle : g.sessions[clientId]? = some .idle) :
    WsGateway.Consistent { g with hub } := by
  have hinsert := h.update htrace hfits hnext (by simp [hidle])
  rwa [insert_of_get hidle] at hinsert

theorem WsGateway.Consistent.connect (h : g.Consistent) : (g.step .connect).Consistent where
  fits c := by
    change TraceFits (g.sessions.insert g.hub.nextClientId .registering)[c]? (g.hub.trace c)
    rw [get_insert]
    split
    · next hc =>
        have hblank := h.fits c
        rw [h.fresh c (le_of_eq hc)] at hblank
        exact hblank
    · exact h.fits c
  fresh c hle := by
    change (g.sessions.insert g.hub.nextClientId .registering)[c]? = none
    have hlt : g.hub.nextClientId < c := hle
    rw [get_insert_of_ne (ne_of_lt hlt), h.fresh c (le_of_lt hlt)]

theorem WsGateway.Consistent.makeCall (h : g.Consistent) (hidle : g.sessions[clientId]? = some .idle)
    {call : Call} (hkeeps : g.KeepsUser (.call clientId call)) :
    (g.makeCall clientId call).Consistent := by
  have hfits := h.fits clientId
  rw [hidle] at hfits
  obtain ⟨session, hsession, husers⟩ := hfits
  cases call with
  | subscribe topic =>
      exact h.update_idle (g.hub.trace_subscribe clientId topic) ⟨session, hsession, husers⟩ rfl hidle
  | unsubscribe topic =>
      exact h.update_idle (g.hub.trace_unsubscribe clientId topic) ⟨session, hsession, husers⟩ rfl hidle
  | authenticate userId =>
      refine h.update (g.hub.trace_setUser clientId userId hsession) ⟨rfl, ?_⟩ ?_ (by simp [hidle])
      · intro u hu
        have hcurrent : session.userId = some u := by
          rw [husers] at hu
          exact hu
        rcases hkeeps session hsession with hnone | hsome
        · rw [hnone] at hcurrent
          cases hcurrent
        · rw [hsome] at hcurrent
          exact (Option.some.inj hcurrent).symm
      · unfold BroadcasterHub.setUser
        split <;> rfl
  | unregister =>
      refine h.update (g.hub.trace_removeClient clientId) ⟨rfl, ?_⟩ rfl (by simp [hidle])
      have hkept : (g.hub.clients[clientId]?.bind fun s => s.userId) = session.userId := by
        rw [show g.hub.clients[clientId]? = some session from hsession, Option.bind_some]
      change (g.hub.trace clientId).users = usersOf (g.hub.clients[clientId]?.bind fun s => s.userId)
      rw [hkept, husers]

theorem WsGateway.Consistent.proceed (h : g.Consistent) (clientId : ClientId) :
    (g.step (.proceed clientId)).Consistent := by
  have hfits := h.fits clientId
  simp only [step]
  cases hphase : g.sessions[clientId]? with
  | none => exact h
  | some phase =>
      rw [hphase] at hfits
      have hold : g.sessions[clientId]? ≠ none := by simp [hphase]
      cases phase with
      | registering =>
          refine h.update (g.hub.trace_insertClient clientId) ⟨⟨none⟩, rfl, ?_⟩ rfl hold
          have hblank : g.hub.trace clientId = .blank := hfits
          rw [hblank]
          ext u
          simp [Trace.blank, usersOf]
      | idle => exact h
      | authenticating userId =>
          refine h.update (g.hub.trace_addUser clientId userId) ⟨⟨some userId⟩, hfits.1, ?_⟩ rfl hold
          ext u
          simp only [usersOf, Set.mem_insert_iff, Set.mem_ofPred_eq, Option.some.injEq]
          constructor
          · rintro (rfl | hu)
            · rfl
            · exact (hfits.2 u hu).symm
          · rintro rfl
            exact .inl rfl
      | leavingTopics userId =>
          obtain ⟨hsession, husers⟩ := hfits
          refine h.update (g.hub.trace_removeTopics clientId) ?_ rfl hold
          cases userId with
          | none =>
              change _ = Trace.blank
              ext1
              · exact hsession
              · rfl
              · change (g.hub.trace clientId).users = ∅
                rw [husers]
                simp [usersOf]
          | some userId =>
              refine ⟨hsession, rfl, ?_⟩
              change (g.hub.trace clientId).users = {userId}
              rw [husers]
              ext u
              simp [usersOf, eq_comm]
      | leavingUser userId =>
          obtain ⟨hsession, htopics, husers⟩ := hfits
          refine h.update (g.hub.trace_removeUser clientId userId) ?_ rfl hold
          change _ = Trace.blank
          ext1
          · exact hsession
          · exact htopics
          · change (g.hub.trace clientId).users \ {userId} = ∅
            rw [husers, Set.sdiff_self]
      | gone => exact h

theorem WsGateway.Consistent.step (h : g.Consistent) {action : WsAction}
    (hkeeps : g.KeepsUser action) : (g.step action).Consistent := by
  cases action with
  | connect => exact h.connect
  | call clientId call =>
      by_cases hidle : g.sessions[clientId]? = some .idle
      · simp only [WsGateway.step, hidle]
        exact h.makeCall hidle hkeeps
      · have hsame : g.step (.call clientId call) = g := by
          simp only [WsGateway.step]
        rw [hsame]
        exact h
  | proceed clientId => exact h.proceed clientId

theorem WsGateway.Consistent.run (h : g.Consistent) {actions : List WsAction}
    (hkeeps : g.KeepsUsers actions) : (g.run actions).Consistent :=
  Fold.EachMeets.foldl hkeeps h fun _ hg _ _ hkeep => hg.step hkeep

end Steps

/-! ### Privacy -/

def WsGateway.Between (g : WsGateway) (c : ClientId) : Prop :=
  g.sessions[c]? = none ∨ g.sessions[c]? = some .idle ∨ g.sessions[c]? = some .gone

/-- Of the clients that are not in the middle of a call: those with a running session are registered;
under a user stand those whose session is authenticated as that user, and a private message reaches
them; under a topic stand registered ones only; and no map mentions one that is gone. -/
structure WsGateway.Private (g : WsGateway) : Prop where
  registered : ∀ c, g.Between c → (c ∈ g.hub.clients ↔ g.sessions[c]? = some .idle)
  users : ∀ c userId, g.Between c →
    (c ∈ under g.hub.userClients userId ↔ g.hub.clients[c]? = some ⟨some userId⟩)
  topics : ∀ c topic, g.Between c → c ∈ under g.hub.topics topic → c ∈ g.hub.clients
  reached : ∀ c userId, g.Between c →
    (c ∈ g.hub.sendPrivate userId ↔ g.hub.clients[c]? = some ⟨some userId⟩)
  forgotten : ∀ c, g.sessions[c]? = some .gone → c ∉ g.hub.clients ∧
    (∀ topic, c ∉ under g.hub.topics topic) ∧ ∀ userId, c ∉ under g.hub.userClients userId

section Privacy

variable {g : WsGateway} {c : ClientId}

theorem mem_clients : c ∈ g.hub.clients ↔ g.hub.clients[c]? ≠ none := by
  rw [Std.ExtTreeMap.mem_iff_isSome_getElem?, Option.isSome_iff_ne_none]

theorem BroadcasterHub.absent_of_blank (hblank : g.hub.trace c = .blank) :
    g.hub.clients[c]? = none ∧ (∀ topic, c ∉ under g.hub.topics topic) ∧
      ∀ userId, c ∉ under g.hub.userClients userId := by
  refine ⟨congrArg Trace.session hblank, fun topic hmem => ?_, fun userId hmem => ?_⟩
  · have htopics : (g.hub.trace c).topics = ∅ := congrArg Trace.topics hblank
    exact Set.eq_empty_iff_forall_notMem.mp htopics topic hmem
  · have husers : (g.hub.trace c).users = ∅ := congrArg Trace.users hblank
    exact Set.eq_empty_iff_forall_notMem.mp husers userId hmem

/-- Between calls a client is registered, under its user and no other, or in no map at all. -/
theorem WsGateway.Consistent.cases (h : g.Consistent) (hbetween : g.Between c) :
    (g.sessions[c]? = some .idle ∧ ∃ session, g.hub.clients[c]? = some session ∧
      ∀ userId, c ∈ under g.hub.userClients userId ↔ session.userId = some userId) ∨
    (g.sessions[c]? ≠ some .idle ∧ g.hub.clients[c]? = none ∧
      (∀ topic, c ∉ under g.hub.topics topic) ∧ ∀ userId, c ∉ under g.hub.userClients userId) := by
  have hfits := h.fits c
  rcases hbetween with hnone | hidle | hgone
  · rw [hnone] at hfits
    exact .inr ⟨by simp [hnone], BroadcasterHub.absent_of_blank hfits⟩
  · rw [hidle] at hfits
    obtain ⟨session, hsession, husers⟩ := hfits
    exact .inl ⟨hidle, session, hsession, fun userId => Set.ext_iff.mp husers userId⟩
  · rw [hgone] at hfits
    exact .inr ⟨by simp [hgone], BroadcasterHub.absent_of_blank hfits⟩

theorem WsGateway.Consistent.users (h : g.Consistent) (hbetween : g.Between c) (userId : Nat) :
    c ∈ under g.hub.userClients userId ↔ g.hub.clients[c]? = some ⟨some userId⟩ := by
  rcases h.cases hbetween with ⟨_, session, hsession, husers⟩ | ⟨_, hnone, _, husers⟩
  · rw [husers, hsession, Option.some.injEq, ClientSession.mk.injEq]
  · simp [hnone, husers userId]

theorem WsGateway.Consistent.private (h : g.Consistent) : g.Private where
  registered c hbetween := by
    rcases h.cases hbetween with ⟨hidle, session, hsession, _⟩ | ⟨hidle, hnone, _⟩
    · simp [mem_clients, hidle, hsession]
    · simp [mem_clients, hidle, hnone]
  users c userId hbetween := h.users hbetween userId
  topics c topic hbetween hmem := by
    rcases h.cases hbetween with ⟨_, session, hsession, _⟩ | ⟨_, _, htopics, _⟩
    · simp [mem_clients, hsession]
    · exact absurd hmem (htopics topic)
  reached c userId hbetween := by
    rw [BroadcasterHub.sendPrivate, Finset.mem_filter, h.users hbetween, and_iff_left_iff_imp]
    intro hsession
    simp [mem_clients, hsession]
  forgotten c hgone := by
    rcases h.cases (.inr (.inr hgone)) with ⟨hidle, _⟩ | ⟨_, hnone, habsent⟩
    · rw [hgone] at hidle
      cases hidle
    · exact ⟨by simp [mem_clients, hnone], habsent⟩

end Privacy

/-- **Private messages stay private as long as no client changes its user.** However the sessions
interleave, lock by lock, a run in which no client is authenticated as a second user ends with the maps
in step. -/
theorem run_private (actions : List WsAction) (hkeeps : WsGateway.init.KeepsUsers actions) :
    (WsGateway.init.run actions).Private :=
  (WsGateway.consistent_init.run hkeeps).private

instance (g : WsGateway) : DecidablePred g.KeepsUser
  | .connect | .proceed _ | .call _ (.subscribe _) | .call _ (.unsubscribe _)
  | .call _ .unregister => inferInstanceAs (Decidable True)
  | .call clientId (.authenticate userId) =>
      inferInstanceAs (Decidable (∀ session ∈ g.hub.clients[clientId]?,
        session.userId = none ∨ session.userId = some userId))

/-- Two clients authenticate while the locks of one fall between those of the other; one of them
authenticates again, as the same user, and the other leaves. -/
def twoClients : List WsAction :=
  [.connect, .connect, .proceed 1, .proceed 2, .call 1 (.authenticate 42), .call 2 (.authenticate 99),
    .proceed 1, .call 1 (.subscribe "trades:SOL_USD"), .proceed 2, .call 1 (.authenticate 42),
    .proceed 1, .call 2 .unregister, .proceed 2, .proceed 2]

theorem run_private_twoClients :
    (WsGateway.init.run twoClients).Private ∧
      1 ∈ (WsGateway.init.run twoClients).hub.sendPrivate 42 :=
  ⟨run_private twoClients (by decide +kernel), by decide +kernel⟩

/-- A client authenticates as one user and then as another. -/
def changedUser : List WsAction :=
  [.connect, .proceed 1, .call 1 (.authenticate 42), .proceed 1, .call 1 (.authenticate 99), .proceed 1]

/-- It goes on to receive the private messages of the first, and the map of users mentions it even when
it is gone. -/
theorem changedUser_overhears :
    (∃ g, g = WsGateway.init.run changedUser ∧ g.Between 1 ∧
      g.hub.clients[1]? = some ⟨some 99⟩ ∧ 1 ∈ g.hub.sendPrivate 42 ∧ ¬ g.Private) ∧
    ∃ g, g = WsGateway.init.run (changedUser ++ [.call 1 .unregister, .proceed 1, .proceed 1]) ∧
      g.sessions[1]? = some .gone ∧ 1 ∈ under g.hub.userClients 42 ∧ ¬ g.Private := by
  refine ⟨⟨_, rfl, .inr (.inl (by decide +kernel)), by decide +kernel, by decide +kernel,
    fun hprivate => ?_⟩, _, rfl, by decide +kernel, by decide +kernel, fun hprivate => ?_⟩
  · have hsession := (hprivate.reached 1 42 (.inr (.inl (by decide +kernel)))).mp (by decide +kernel)
    exact absurd hsession (by decide +kernel)
  · exact (hprivate.forgotten 1 (by decide +kernel)).2.2 42 (by decide +kernel)

end CexRs
