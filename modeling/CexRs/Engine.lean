import CexRs.Handlers
import CexRs.Lib.Log

/-!
# The engine process

`engine.rs` and `snapshot.rs`: the loop over the event stream, which is the write-ahead log of the
engine, its snapshots, and the replay with which it starts. Redis and PostgreSQL are lists of what they
hold, with their failures given from outside. The deserialization of messages and the encoding of
states in snapshots are parameters.
-/

namespace CexRs

open FixedWidth

/-- An entry of the event stream. A field that is no text reads as the empty text. -/
structure Record where
  channel : Option String
  data : Option String
  deriving DecidableEq, Repr

abbrev Wal := List (StreamId × Record)

/-- `serde_json::from_str` at the message types. -/
structure Decoder where
  signup : String → Option SignupMsg
  onramp : String → Option OnrampMsg
  deposit : String → Option DepositMsg
  balance : String → Option BalanceQueryMsg
  order : String → Option OrderMsg
  cancel : String → Option CancelMsg
  orderbook : String → Option OrderbookQueryMsg
  openOrders : String → Option OpenOrdersQueryMsg
  orderStatus : String → Option OrderStatusQueryMsg
  reset : String → Option ResetMsg

/-- `serde_json::to_value` on states, through the database, and `serde_json::from_value` back. -/
structure SnapshotCodec where
  Json : Type
  toValue : EngineState → Json
  fromValue : Json → Option EngineState

def Decoder.decode (decoder : Decoder) (channel data : String) : Option Msg :=
  match channel with
  | "new-signup" => (decoder.signup data).map .signup
  | "onramp" => (decoder.onramp data).map .onramp
  | "deposite" => (decoder.deposit data).map .deposit
  | "balance-request" => (decoder.balance data).map .balance
  | "incoming-order" => (decoder.order data).map .order
  | "cancel-order" => (decoder.cancel data).map .cancel
  | "get-orderbook" => (decoder.orderbook data).map .orderbook
  | "get-open-orders" => (decoder.openOrders data).map .openOrders
  | "order-status" => (decoder.orderStatus data).map .orderStatus
  | "reset" => (decoder.reset data).map .reset
  | _ => none

structure Config where
  arith : Arith
  builtins : Builtins
  fees : FeeSchedule
  decoder : Decoder
  codec : SnapshotCodec

/-! ### Dispatch and replay -/

section Dispatch

variable (cfg : Config)

/-- Without a publisher the handlers compute the same and their outputs are dropped. -/
def dispatchEvent (s : EngineState) (channel data : String) :
    Except Fault (EngineState × List Output) :=
  match cfg.decoder.decode channel data with
  | none => return (s, [])
  | some msg => handle cfg.arith cfg.builtins s msg

/-- An entry that lacks one of its fields is passed over. -/
def dispatchRecord (s : EngineState) (record : Record) : Except Fault (EngineState × List Output) :=
  match record.channel, record.data with
  | some channel, some data => dispatchEvent cfg s channel data
  | _, _ => return (s, [])

def dispatchRecords (s : EngineState) : Wal → Except Fault (EngineState × List Output)
  | [] => return (s, [])
  | record :: rest => do
      let (s, first) ← dispatchRecord cfg s record.2
      let (s, later) ← dispatchRecords s rest
      return (s, first ++ later)

/-- `XRANGE` from the start if there is no position yet, else strictly after the position. -/
def xrange (wal : Wal) (lastId : StreamId) : Wal :=
  if lastId = .zero then wal else Log.since lastId wal

def replayEventsSince (s : EngineState) (wal : Wal) (lastId : StreamId) :
    Except Fault (EngineState × StreamId) :=
  (xrange wal lastId).foldlM (fun (s, _) record => do
    let (s, _) ← dispatchRecord cfg s record.2
    return (s, record.1)) (s, lastId)

end Dispatch

/-! ### The process and what outlives it -/

/-- The variables of `run_engine_with_db`, and what is left of the batch it is working on. -/
structure Process where
  state : EngineState
  lastId : StreamId
  eventsSinceSnapshot : Nat
  pending : Wal

/-- The two streams, the snapshots (newest first), and the process while one is running. `live` is the
history of what the live loop has dispatched; the code does not keep it. -/
structure System (Json : Type) where
  wal : Wal
  executions : List ExecutionEvent
  snapshots : List (StreamId × Json)
  process : Option Process
  live : Wal

def System.init (Json : Type) : System Json := ⟨[], [], [], none, []⟩

/-- Which queries succeed after an entry: the two of `save_snapshot`, and on a reset the `TRUNCATE` and
the `DEL`. -/
structure LiveAnswers where
  inserts : Bool
  prunes : Bool
  truncates : Bool
  deletes : Bool

inductive SystemAction where
  -- the gateway appends an entry
  | append (id : StreamId) (record : Record)
  -- the process starts; the snapshot query may fail, and so may the `XRANGE` of the replay
  | start (loads replays : Bool)
  -- `XREAD` returns the first entries after `last_id`, as far as they were there
  | read (count : Nat)
  -- the live loop takes the next entry of its batch
  | next (answers : LiveAnswers)
  | crash

section Step

variable (cfg : Config) (sys : System cfg.codec.Json)

/-- `load_latest_snapshot`: nothing without a row, without an answer, or with a row that does not
decode. -/
def loadLatestSnapshot (loads : Bool) : Option (StreamId × EngineState) :=
  if loads then
    sys.snapshots.head?.bind fun (id, value) => (cfg.codec.fromValue value).map fun s => (id, s)
  else none

/-- `save_snapshot`: a new row, and of the rows the newest three. -/
def saveSnapshot (answers : LiveAnswers) (lastId : StreamId) (s : EngineState) :
    List (StreamId × cfg.codec.Json) :=
  if answers.inserts then
    let rows := (lastId, cfg.codec.toValue s) :: sys.snapshots
    if answers.prunes then rows.take 3 else rows
  else sys.snapshots

/-- From the start of the process to its loop. A panic in the replay ends it. -/
def startProcess (loads replays : Bool) : Option Process :=
  let (s, lastId) := (loadLatestSnapshot cfg sys loads).elim (.new cfg.fees, .zero)
    fun (id, s) => (s, id)
  if replays then
    match replayEventsSince cfg s sys.wal lastId with
    | .ok (s, lastId) => some ⟨s, lastId, 0, []⟩
    | .error _ => none
  else some ⟨s, lastId, 0, []⟩

/-- The body of the live loop. A handler that panics has published nothing here: the events that it had
sent by then are dropped. -/
def liveRecord (answers : LiveAnswers) (p : Process) (record : StreamId × Record) (pending : Wal) :
    System cfg.codec.Json :=
  match record.2.channel, record.2.data with
  | some channel, some data =>
      match dispatchEvent cfg p.state channel data with
      | .error _ => { sys with process := none }
      | .ok (s, outputs) =>
          let sys := { sys with
            executions := sys.executions ++ executions outputs
            live := sys.live ++ [record] }
          if channel = "reset" then
            { sys with
              snapshots := if answers.truncates then [] else sys.snapshots
              wal := if answers.deletes then [] else sys.wal
              executions := if answers.deletes then [] else sys.executions
              process := some ⟨s, .zero, 0, pending⟩ }
          else if 1000 ≤ p.eventsSinceSnapshot + 1 then
            { sys with
              snapshots := saveSnapshot cfg sys answers record.1 s
              process := some ⟨s, record.1, 0, pending⟩ }
          else { sys with process := some ⟨s, record.1, p.eventsSinceSnapshot + 1, pending⟩ }
  | _, _ => { sys with
      process := some ⟨p.state, record.1, p.eventsSinceSnapshot, pending⟩
      live := sys.live ++ [record] }

def System.step : SystemAction → System cfg.codec.Json
  | .append id record =>
      -- Redis gives out increasing ids
      if Log.lastId .zero sys.wal < id then { sys with wal := sys.wal ++ [(id, record)] } else sys
  | .start loads replays =>
      match sys.process with
      | none => { sys with process := startProcess cfg sys loads replays }
      | some _ => sys
  | .read count =>
      match sys.process with
      | some ⟨s, lastId, n, []⟩ =>
          { sys with process := some ⟨s, lastId, n, (Log.since lastId sys.wal).take count⟩ }
      | _ => sys
  | .next answers =>
      match sys.process with
      | some ⟨s, lastId, n, record :: pending⟩ =>
          liveRecord cfg sys answers ⟨s, lastId, n, record :: pending⟩ record pending
      | _ => sys
  | .crash => { sys with process := none }

def runSystem (sys : System cfg.codec.Json) (actions : List SystemAction) : System cfg.codec.Json :=
  actions.foldl (System.step cfg) sys

end Step

end CexRs
