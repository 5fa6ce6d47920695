import CexRs.Listener
import CexRs.Worker

/-!
# The loop of the WebSocket listener

`run_listener` against the executions stream, from when it has its connection: the engine's `XADD`s fall
anywhere between the steps of its polls. Redis reads the id `"$"` as the last id of the stream when the
`XREAD` comes in. What `serde_json` writes and reads is a parameter.
-/

namespace CexRs

/-- `lastId` is absent as long as it is `"$"`. -/
structure ListenerState where
  stream : ExecutionStream
  lastId : Option StreamId
  -- the id from which the `XREAD` under way reads
  reading : Option StreamId
  -- the last id of the stream when the first `XREAD` came in
  opened : Option StreamId
  -- the events that were handed on, each with the time that was read from the clock for it
  handed : List (Int × ExecutionEvent)

inductive ListenerAction where
  -- `emit_execution`
  | append (id : StreamId) (event : ExecutionEvent)
  -- an `XREAD` comes in
  | poll
  -- it returns the first entries that it finds
  | reply (count : Nat) (now : StreamId → Int)
  -- it returns nothing
  | timeout
  -- a poll fails, before or after its `XREAD` came in
  | fail

namespace ListenerState

def init (stream : ExecutionStream) : ListenerState := ⟨stream, none, none, none, []⟩

variable (serialize : ExecutionEvent → String) (parse : String → Option ExecutionEvent)
  (s : ListenerState)

/-- What the hub was called with. A funding is handed on like any other event, and has nothing for it. -/
def sent (casing : Casing) : List (Recipient × WsServerMsg) :=
  s.handed.flatMap fun (now, event) => forward casing now event

/-- The body of the loops over a reply. An entry without data, or with data that does not parse, is
passed over. -/
def receive (now : StreamId → Int) (record : StreamId × Option String) : ListenerState :=
  let s := { s with lastId := some record.1 }
  match record.2.bind parse with
  | none => s
  | some event => { s with handed := s.handed ++ [(now record.1, event)] }

/-- What is not the listener's turn, and an id that does not come after those of the stream, changes
nothing; and an `XREAD` does not time out while there is something to return. -/
def step : ListenerAction → ListenerState
  | .append id event =>
      if Log.lastId .zero s.stream < id then
        { s with stream := s.stream ++ [(id, some (serialize event))] }
      else s
  | .poll =>
      match s.reading with
      | some _ => s
      | none =>
          let tail := Log.lastId .zero s.stream
          { s with reading := some (s.lastId.getD tail), opened := some (s.opened.getD tail) }
  | .reply count now =>
      match s.reading with
      | none => s
      | some start =>
          -- `COUNT 100`
          let batch := (Log.since start s.stream).take (min count 100)
          if batch.isEmpty then s
          else batch.foldl (fun s record => s.receive parse now record) { s with reading := none }
  | .timeout =>
      match s.reading with
      | none => s
      | some start =>
          if (Log.since start s.stream).isEmpty then { s with reading := none } else s
  -- the listener sleeps, and polls again with the same `last_id`
  | .fail => { s with reading := none }

def run (actions : List ListenerAction) : ListenerState := actions.foldl (step serialize parse) s

end ListenerState

end CexRs
