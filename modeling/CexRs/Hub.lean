import CexRs.Lib.SetIndex

/-!
# The WebSocket hub

`ws/hub.rs` and the calls that `ws/session.rs` makes of it. The three maps of the hub stand under three
locks, and a call that needs several takes one after the other, so that the calls of two sessions may
interleave between any two of its locks. Client ids come one at a time from a counter, which the model
leaves unbounded. The channel to a client is known by the client's id; a payload, and the count of open
connections, are left out.
-/

namespace CexRs

open SetIndex

abbrev ClientId := Nat

structure ClientSession where
  userId : Option Nat
  deriving DecidableEq, Repr

structure BroadcasterHub where
  nextClientId : ClientId
  clients : Std.ExtTreeMap ClientId ClientSession
  topics : Index String ClientId
  userClients : Index Nat ClientId

namespace BroadcasterHub

def new : BroadcasterHub := ⟨1, ∅, ∅, ∅⟩

variable (hub : BroadcasterHub) (clientId : ClientId)

/-! ### Under one lock -/

/-- First of `register`: the id is drawn. -/
def drawId : BroadcasterHub × ClientId :=
  ({ hub with nextClientId := hub.nextClientId + 1 }, hub.nextClientId)

/-- Second of `register`: the session is inserted under it. -/
def insertClient : BroadcasterHub := { hub with clients := hub.clients.insert clientId ⟨none⟩ }

/-- First of `unregister`: the session is removed, and its user kept for later. -/
def removeClient : BroadcasterHub × Option Nat :=
  ({ hub with clients := hub.clients.erase clientId }, hub.clients[clientId]?.bind (·.userId))

/-- Second of `unregister`: the client is removed from all topics. -/
def removeTopics : BroadcasterHub := { hub with topics := purge hub.topics clientId }

/-- Third of `unregister`, if the session had a user: the client is removed from that user's. -/
def removeUser (userId : Nat) : BroadcasterHub :=
  { hub with userClients := discard hub.userClients userId clientId }

def subscribe (topic : String) : BroadcasterHub :=
  { hub with topics := add hub.topics topic clientId }

def unsubscribe (topic : String) : BroadcasterHub :=
  { hub with topics := remove hub.topics topic clientId }

/-- First of `authenticate`: the user is noted in the session. -/
def setUser (userId : Nat) : BroadcasterHub :=
  match hub.clients[clientId]? with
  | none => hub
  | some _ => { hub with clients := hub.clients.insert clientId ⟨some userId⟩ }

/-- Second of `authenticate`: the client is added to the user's. -/
def addUser (userId : Nat) : BroadcasterHub :=
  { hub with userClients := add hub.userClients userId clientId }

def sendPrivate (userId : Nat) : Finset ClientId :=
  (under hub.userClients userId).filter (· ∈ hub.clients)

end BroadcasterHub

/-! ### Sessions -/

/-- Where a session stands: between two calls, or in one that has locks still to take. -/
inductive Phase where
  | registering
  | idle
  | authenticating (userId : Nat)
  | leavingTopics (userId : Option Nat)
  | leavingUser (userId : Nat)
  | gone
  deriving DecidableEq, Repr

/-- What a session asks of the hub once it is registered. The last call is `unregister`. -/
inductive Call where
  | subscribe (topic : String)
  | unsubscribe (topic : String)
  -- for an `Auth` message whose token is valid
  | authenticate (userId : Nat)
  | unregister
  deriving DecidableEq, Repr

inductive WsAction where
  -- a session starts, and draws its id
  | connect
  -- a session between two calls makes one, up to the end of its first lock
  | call (clientId : ClientId) (call : Call)
  -- a session in a call takes the next lock
  | proceed (clientId : ClientId)
  deriving DecidableEq, Repr

structure WsGateway where
  hub : BroadcasterHub
  sessions : Std.ExtTreeMap ClientId Phase

namespace WsGateway

def init : WsGateway := ⟨.new, ∅⟩

variable (g : WsGateway)

def makeCall (clientId : ClientId) : Call → WsGateway
  | .subscribe topic => { g with hub := g.hub.subscribe clientId topic }
  | .unsubscribe topic => { g with hub := g.hub.unsubscribe clientId topic }
  | .authenticate userId =>
      ⟨g.hub.setUser clientId userId, g.sessions.insert clientId (.authenticating userId)⟩
  | .unregister =>
      let (hub, userId) := g.hub.removeClient clientId
      ⟨hub, g.sessions.insert clientId (.leavingTopics userId)⟩

/-- What is not the session's turn changes nothing. -/
def step : WsAction → WsGateway
  | .connect =>
      let (hub, clientId) := g.hub.drawId
      ⟨hub, g.sessions.insert clientId .registering⟩
  | .call clientId call =>
      match g.sessions[clientId]? with
      | some .idle => g.makeCall clientId call
      | _ => g
  | .proceed clientId =>
      match g.sessions[clientId]? with
      | some .registering => ⟨g.hub.insertClient clientId, g.sessions.insert clientId .idle⟩
      | some (.authenticating userId) =>
          ⟨g.hub.addUser clientId userId, g.sessions.insert clientId .idle⟩
      | some (.leavingTopics userId) =>
          ⟨g.hub.removeTopics clientId,
            g.sessions.insert clientId (userId.elim .gone .leavingUser)⟩
      | some (.leavingUser userId) =>
          ⟨g.hub.removeUser clientId userId, g.sessions.insert clientId .gone⟩
      | _ => g

def run (actions : List WsAction) : WsGateway := actions.foldl step g

end WsGateway

end CexRs
