import CexRs.Hub
import CexRs.Listener

/-!
# WebSocket sessions

`ws/session.rs`: the loop of `handle_ws_session` for any number of clients, with the messages that the
listener has the hub hand out. A session that is between two calls of the hub either writes the next
frame of its channel to the socket, or reads a text from it; it is done with a text when it has sent
itself the answer. What `serde_json` reads, what the library for tokens makes of one at a given time, and
how Unicode maps cases are parameters. A frame that cannot be written ends its session, like a closed
socket; pings of the socket's own are left out.
-/

namespace CexRs

open SetIndex

/-! ### Messages -/

inductive WsClientMsg where
  | subscribe (channel : String) (market : Option String)
  | unsubscribe (channel : String) (market : Option String)
  | auth (token : String)
  | ping
  deriving DecidableEq, Repr

inductive WsAnswer where
  | subscribed (channel : String) (market : Option String)
  | unsubscribed (channel : String) (market : Option String)
  | authenticated (userId : Nat)
  | pong
  | error (message : String)
  deriving DecidableEq, Repr

/-- What goes through the channel of a session. A message of the listener stands with the call of the hub
that it came by. -/
inductive Frame where
  | answer (answer : WsAnswer)
  | pushed (recipient : Recipient) (msg : WsServerMsg)
  deriving DecidableEq, Repr

/-- `from_str::<WsClientMsg>`, or the error that it displays; `verify_token` at a time, with the user of the
claims; and the case mappings of `str`. -/
structure WsFormat extends Casing where
  parse : String → Except String WsClientMsg
  verify : Nat → String → Option Nat

def WsFormat.formatTopic (format : WsFormat) (channel : String) (market : Option String) : String :=
  let cleanChannel := format.lowercase channel
  match market with
  | some market => cleanChannel ++ ":" ++ format.uppercase market
  | none => cleanChannel

/-- The call of the hub that a text leads to, if any, and the answer that follows it. -/
def WsFormat.respond (format : WsFormat) (now : Nat) (text : String) : Option Call × WsAnswer :=
  match format.parse text with
  | .error e => (none, .error ("Malformed JSON: " ++ e))
  | .ok (.subscribe channel market) =>
      (some (.subscribe (format.formatTopic channel market)), .subscribed channel market)
  | .ok (.unsubscribe channel market) =>
      (some (.unsubscribe (format.formatTopic channel market)), .unsubscribed channel market)
  | .ok (.auth token) =>
      match format.verify now token with
      | some userId => (some (.authenticate userId), .authenticated userId)
      | none => (none, .error "Invalid or expired JWT token")
  | .ok .ping => (none, .pong)

/-! ### Steps -/

/-- What a session has besides its entries in the hub: the answer that it is about to send, the frames of
its channel, and those that it has written. -/
@[ext]
structure SessionIo where
  owed : Option WsAnswer := none
  channel : List Frame := []
  written : List Frame := []
  deriving DecidableEq, Repr

/-- `broadcast` is the message that the hub is handing out, with the clients that it has noted under the
first of its two locks. -/
structure WsServer where
  gateway : WsGateway
  io : ClientId → SessionIo
  broadcast : Option (Recipient × WsServerMsg × Finset ClientId)

inductive ServerAction where
  | connect
  -- a session in a call of the hub takes its next lock
  | proceed (clientId : ClientId)
  -- a session reads a text, and goes through the first lock of the call that it leads to
  | read (clientId : ClientId) (now : Nat) (text : String)
  -- `send_to_client`
  | answer (clientId : ClientId)
  | write (clientId : ClientId)
  -- the loop is left, and `unregister` called
  | leave (clientId : ClientId)
  -- the listener has a message handed out, up to the end of the first lock
  | broadcast (recipient : Recipient) (msg : WsServerMsg)
  -- the second lock
  | deliver
  deriving DecidableEq, Repr

namespace WsServer

def init : WsServer := ⟨.init, fun _ => {}, none⟩

variable (format : WsFormat) (s : WsServer) (clientId : ClientId)

def listens : Bool :=
  decide (s.gateway.sessions[clientId]? = some .idle) && (s.io clientId).owed.isNone

def onGateway (action : WsAction) : WsServer := { s with gateway := s.gateway.step action }

def updateIo (f : SessionIo → SessionIo) : WsServer :=
  { s with io := Function.update s.io clientId (f (s.io clientId)) }

/-- A frame for a client goes into its channel as long as the client is registered. -/
def sendTo (frame : Frame) (io : SessionIo) : SessionIo :=
  if clientId ∈ s.gateway.hub.clients then { io with channel := io.channel ++ [frame] } else io

def handleText (now : Nat) (text : String) : WsServer :=
  let (call, answer) := format.respond now text
  let s := match call with
    | some call => s.onGateway (.call clientId call)
    | none => s
  s.updateIo clientId fun io => { io with owed := some answer }

def subscribers : Recipient → Finset ClientId
  | .topic name => under s.gateway.hub.topics name
  | .user userId => under s.gateway.hub.userClients userId

/-- What is not the session's turn, or the listener's, changes nothing. -/
def step : ServerAction → WsServer
  | .connect => s.onGateway .connect
  | .proceed clientId => s.onGateway (.proceed clientId)
  | .read clientId now text =>
      if s.listens clientId then s.handleText format clientId now text else s
  | .answer clientId =>
      match s.gateway.sessions[clientId]?, (s.io clientId).owed with
      | some .idle, some answer => s.updateIo clientId fun io =>
          s.sendTo clientId (.answer answer) { io with owed := none }
      | _, _ => s
  | .write clientId =>
      if s.listens clientId then s.updateIo clientId fun io =>
        { io with channel := io.channel.tail, written := io.written ++ io.channel.head?.toList }
      else s
  | .leave clientId =>
      if s.listens clientId then s.onGateway (.call clientId .unregister) else s
  | .broadcast recipient msg =>
      match s.broadcast with
      | none => { s with broadcast := some (recipient, msg, s.subscribers recipient) }
      | some _ => s
  | .deliver =>
      match s.broadcast with
      | none => s
      | some (recipient, msg, clients) =>
          { s with
            io := fun clientId =>
              if clientId ∈ clients then s.sendTo clientId (.pushed recipient msg) (s.io clientId)
              else s.io clientId
            broadcast := none }

def run (actions : List ServerAction) : WsServer := actions.foldl (step format) s

end WsServer

end CexRs
