import CexRs.Demux
import CexRs.Engine

/-!
# The exchange

A gateway and the engine, with what Redis holds between them: the calls of `send_and_wait` append their
messages to the event stream, the live loop of the engine dispatches them and pushes its replies to the
gateway's response queue, and the listener takes them from there. Other gateways append to the same
stream. An entry that makes the engine panic is answered with nothing.
-/

namespace CexRs

/-! ### Messages and replies -/

/-- `channels.rs`. -/
def Msg.channel : Msg → String
  | .signup _ => "new-signup"
  | .onramp _ => "onramp"
  | .deposit _ => "deposite"
  | .balance _ => "balance-request"
  | .order _ => "incoming-order"
  | .cancel _ => "cancel-order"
  | .orderbook _ => "get-orderbook"
  | .openOrders _ => "get-open-orders"
  | .orderStatus _ => "order-status"
  | .reset _ => "reset"

def Msg.queueId : Msg → String
  | .signup msg => msg.queueId
  | .onramp msg => msg.queueId
  | .deposit msg => msg.queueId
  | .balance msg => msg.queueId
  | .order msg => msg.queueId
  | .cancel msg => msg.queueId
  | .orderbook msg => msg.queueId
  | .openOrders msg => msg.queueId
  | .orderStatus msg => msg.queueId
  | .reset msg => msg.queueId

def Msg.identifier : Msg → String
  | .signup msg => msg.identifier
  | .onramp msg => msg.identifier
  | .deposit msg => msg.identifier
  | .balance msg => msg.identifier
  | .order msg => msg.identifier
  | .cancel msg => msg.identifier
  | .orderbook msg => msg.identifier
  | .openOrders msg => msg.identifier
  | .orderStatus msg => msg.identifier
  | .reset msg => msg.identifier

def Reply.identifier : Reply → String
  | .balance identifier _ _ => identifier
  | .order identifier _ _ _ _ => identifier
  | .cancel identifier _ _ _ _ => identifier
  | .openOrders identifier _ => identifier
  | .orderStatus identifier _ _ _ => identifier
  | .orderbook identifier _ _ => identifier
  | .generic identifier _ => identifier

def replyQueue (queueId : String) : String := "response-queue" ++ queueId

def repliesTo (queue : String) (outputs : List Output) : List Reply :=
  outputs.filterMap fun
    | .reply channel payload => if channel = queue then some payload else none
    | .execution _ => none

/-! ### Steps -/

/-- What the exchange is run with. A call is a number, with the message that it sends; `serde_json`
writes messages and replies and reads replies. -/
structure ExchangeConfig (R : Type) where
  engine : Config
  queueId : String
  message : Nat → Msg
  writeMsg : Msg → String
  writeReply : Reply → String
  format : ReplyFormat R

def ExchangeConfig.identifier {R : Type} (cfg : ExchangeConfig R) (call : Nat) : String :=
  (cfg.message call).identifier

def ExchangeConfig.request {R : Type} (cfg : ExchangeConfig R) (call : Nat) : Record :=
  ⟨some (cfg.message call).channel, some (cfg.writeMsg (cfg.message call))⟩

/-- `queue` is the gateway's response queue, oldest reply first. -/
structure Exchange (R Json : Type) where
  system : System Json
  demux : Demux R
  queue : List String

/-- What comes of an `XADD`. An error may come back although the entry has been stored. -/
inductive Appended where
  | acknowledged
  | unacknowledged
  | lost
  deriving DecidableEq, Repr

inductive ExchangeAction where
  | start (call : Nat)
  | serialize (call : Nat) (succeeds : Bool)
  | publish (call : Nat) (id : StreamId) (appended : Appended)
  | wait (call : Nat)
  -- `BRPOP`
  | listen
  -- a step of the engine, or another gateway's `XADD`
  | engine (action : SystemAction)
  -- the engine takes the next entry and dies of its `LPUSH`, which may have been stored
  | fail (stored : Bool)

section Step

variable {R : Type} (cfg : ExchangeConfig R)

/-- What the live loop publishes for the next entry of its batch. -/
def System.published {Json : Type} (cfg : Config) (sys : System Json) : List Output :=
  match sys.process with
  | some ⟨s, _, _, record :: _⟩ => ((dispatchRecord cfg s record.2).toOption.map Prod.snd).getD []
  | _ => []

/-- The texts that the live loop pushes for the next entry to the gateway's queue. -/
def System.pushed {Json : Type} (sys : System Json) : List String :=
  (repliesTo (replyQueue cfg.queueId) (sys.published cfg.engine)).map cfg.writeReply

def Output.isExecution : Output → Bool
  | .execution _ => true
  | .reply _ _ => false

namespace Exchange

def init (R Json : Type) : Exchange R Json := ⟨.init Json, .init, []⟩

variable (e : Exchange R cfg.engine.codec.Json)

def demuxStep (action : DemuxAction) : Exchange R cfg.engine.codec.Json :=
  { e with demux := e.demux.step cfg.format cfg.identifier action }

/-- `XADD` for a call. -/
def publish (call : Nat) (id : StreamId) : Appended → Exchange R cfg.engine.codec.Json
  | .acknowledged =>
      { e.demuxStep cfg (.publish call true) with
        system := e.system.step cfg.engine (.append id (cfg.request call)) }
  | .unacknowledged =>
      { e.demuxStep cfg (.publish call false) with
        system := e.system.step cfg.engine (.append id (cfg.request call)) }
  | .lost => e.demuxStep cfg (.publish call false)

/-- What is not the call's turn changes nothing, and an id that Redis does not give out stands for
nothing. -/
def step : ExchangeAction → Exchange R cfg.engine.codec.Json
  | .start call => e.demuxStep cfg (.start call)
  | .serialize call succeeds => e.demuxStep cfg (.serialize call succeeds)
  | .publish call id appended =>
      match e.demux.calls[call]? with
      | some .serialized =>
          if Log.lastId .zero e.system.wal < id then e.publish cfg call id appended else e
      | _ => e
  | .wait call => e.demuxStep cfg (.wait call)
  | .listen =>
      match e.queue with
      | [] => e
      | data :: queue => { e.demuxStep cfg (.listen data) with queue }
  | .engine (.next answers) =>
      { e with
        system := e.system.step cfg.engine (.next answers)
        queue := e.queue ++ e.system.pushed cfg }
  | .engine action => { e with system := e.system.step cfg.engine action }
  | .fail stored =>
      { e with
        system := { e.system with
          process := none
          executions := e.system.executions
            ++ executions ((e.system.published cfg.engine).takeWhile Output.isExecution) }
        queue := if stored then e.queue ++ e.system.pushed cfg else e.queue }

def run (actions : List ExchangeAction) : Exchange R cfg.engine.codec.Json :=
  actions.foldl (step cfg) e

end Exchange

end Step

end CexRs
