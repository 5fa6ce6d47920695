import CexRs.Ledger
import CexRs.Lib.Log

/-!
# The execution worker

The loop of `run_worker` in `ledger/worker.rs`, against a database and a stream whose answers are given
from outside: which statements fail, which commits go through, where the worker dies. `serde_json` is a
parameter, `parse`.
-/

namespace CexRs

open FixedWidth

/-- The `data` field of an entry, if it has one. -/
abbrev ExecutionStream := List (StreamId × Option String)

structure Database where
  tables : Tables
  -- the one row of `execution_checkpoints`
  checkpoint : StreamId

structure Transaction where
  db : Database
  aborted : Bool

/-- A statement that fails aborts its transaction, and in an aborted one every statement fails. -/
def Transaction.execute (succeeds : Bool) (f : Database → Database) (tx : Transaction) : Transaction :=
  if tx.aborted then tx
  else if succeeds then { tx with db := f tx.db }
  else { tx with aborted := true }

/-- What happens outside of the worker while it handles a batch: whether the transaction can be begun,
whether the `i`-th statement for an entry and the update of the checkpoint succeed, whether `commit`
returns `Ok`, and the UUID drawn for an entry. -/
structure Answers where
  begins : Bool
  succeeds : StreamId → Nat → Bool
  checkpoint : Bool
  commits : Bool
  uuid : StreamId → String

/-- The variables of the loop over a batch. -/
structure BatchLoop where
  tx : Transaction
  batchLastId : StreamId

section Batch

variable (A : Arith) (parse : String → Option ExecutionEvent) (answers : Answers)

/-- One entry: the results of its statements are discarded. An entry without data, or with data that
does not parse, is passed over. -/
def processRecord (acc : BatchLoop) (record : StreamId × Option String) : Except Fault BatchLoop :=
  match record.2.bind parse with
  | none => return { acc with batchLastId := record.1 }
  | some event => do
      let sts ← statements A (answers.uuid record.1) event
      let tx := sts.zipIdx.foldl (fun tx (st, i) =>
        tx.execute (answers.succeeds record.1 i) fun db =>
          { db with tables := st.execute db.tables }) acc.tx
      return { tx, batchLastId := record.1 }

/-- A batch in one transaction, with the new checkpoint and the new `last_id`. -/
def processBatch (db : Database) (lastId : StreamId) (batch : ExecutionStream) :
    Except Fault (Database × StreamId) :=
  if answers.begins then do
    let acc ← batch.foldlM (processRecord A parse answers)
      { tx := { db, aborted := false }, batchLastId := lastId }
    let tx := acc.tx.execute answers.checkpoint fun db =>
      { db with checkpoint := acc.batchLastId }
    if answers.commits then
      -- `COMMIT` of an aborted transaction rolls back, and `commit()` still returns `Ok`
      return (if tx.aborted then db else tx.db, acc.batchLastId)
    else return (db, lastId)
  else return (db, lastId)

end Batch

/-- The durable tables, and the `last_id` of the worker while one is running. -/
structure WorkerState where
  db : Database
  lastId : Option StreamId

def WorkerState.init : WorkerState := ⟨⟨.empty, .zero⟩, none⟩

inductive WorkerAction where
  -- the worker starts, and reads the checkpoint unless the query fails
  | start (fetched : Bool)
  -- `XREAD` returns the first entries after `last_id`, as far as they were there
  | batch (count : Nat) (answers : Answers)
  | crash

section Run

variable (A : Arith) (parse : String → Option ExecutionEvent) (stream : ExecutionStream)

def WorkerState.step (w : WorkerState) : WorkerAction → WorkerState
  | .start fetched =>
      match w.lastId with
      | none => { w with lastId := some (if fetched then w.db.checkpoint else .zero) }
      | some _ => w
  | .batch count answers =>
      match w.lastId with
      | none => w
      | some lastId =>
          -- `COUNT 100`
          let batch := (Log.since lastId stream).take (min count 100)
          if batch.isEmpty then w
          else
            match processBatch A parse answers w.db lastId batch with
            | .ok (db, lastId) => { db, lastId := some lastId }
            -- a panic ends the task and drops the transaction
            | .error _ => { w with lastId := none }
  | .crash => { w with lastId := none }

def runWorker (w : WorkerState) (actions : List WorkerAction) : WorkerState :=
  actions.foldl (WorkerState.step A parse stream) w

end Run

end CexRs
