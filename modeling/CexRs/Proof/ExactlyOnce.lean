import CexRs.Worker

/-!
# Exactly once

The rows of a batch and its checkpoint go into the database together or not at all. What can go wrong
is the worker's own position: when a statement fails, `commit` rolls back and still returns `Ok`, the
worker moves on, and the next batch that is committed sets the checkpoint past entries that were never
written. As long as no statement fails in a batch whose `commit` returns `Ok`, the position and the
checkpoint agree, and the rows are those of the entries up to the checkpoint.
-/

namespace CexRs

open FixedWidth Log

variable (A : Arith) (parse : String → Option ExecutionEvent)

def parsed (uuid : StreamId → String) (records : ExecutionStream) : List (String × ExecutionEvent) :=
  records.filterMap fun record => (record.2.bind parse).map fun event => (uuid record.1, event)

/-- The durable rows are those of the entries up to the stored checkpoint, each applied once and in
order. -/
def AppliedOnce (stream : ExecutionStream) (db : Database) : Prop :=
  ∃ uuid, applyEvents A .empty (parsed parse uuid (upTo db.checkpoint stream)) = .ok db.tables

/-- No statement fails in a batch whose `commit` returns `Ok`, and a worker that starts reads the
checkpoint. -/
def WorkerAction.Clean : WorkerAction → Prop
  | .start fetched => fetched = true
  | .batch _ answers => answers.begins = true → answers.commits = true →
      (∀ id i, answers.succeeds id i = true) ∧ answers.checkpoint = true
  | .crash => True

/-! ### Batches -/

theorem applyEvents_append (db : Tables) (l l' : List (String × ExecutionEvent)) :
    applyEvents A db (l ++ l') = applyEvents A db l >>= fun db => applyEvents A db l' := by
  induction l generalizing db with
  | nil => rfl
  | cons e l ih =>
      simp only [List.cons_append, applyEvents]
      cases statements A e.1 e.2 with
      | error f => rfl
      | ok sts => exact ih _

theorem parsed_append (uuid : StreamId → String) (l l' : ExecutionStream) :
    parsed parse uuid (l ++ l') = parsed parse uuid l ++ parsed parse uuid l' :=
  List.filterMap_append

theorem parsed_congr {uuid uuid' : StreamId → String} {l : ExecutionStream}
    (h : ∀ record ∈ l, uuid record.1 = uuid' record.1) :
    parsed parse uuid l = parsed parse uuid' l := by
  apply List.filterMap_congr
  intro record hrecord
  rw [h record hrecord]

/-- Statements that all succeed are executed one after the other. -/
theorem foldl_execute (succeeds : Nat → Bool) (h : ∀ i, succeeds i = true) (sts : List Statement)
    (start : Nat) (tables : Tables) (checkpoint : StreamId) :
    (sts.zipIdx start).foldl (fun tx (st, i) => Transaction.execute (succeeds i)
        (fun db => { db with tables := st.execute db.tables }) tx) ⟨⟨tables, checkpoint⟩, false⟩
      = ⟨⟨sts.foldl Statement.execute tables, checkpoint⟩, false⟩ := by
  induction sts generalizing start tables with
  | nil => rfl
  | cons st sts ih =>
      rw [List.zipIdx_cons, List.foldl_cons, List.foldl_cons, ← ih (start + 1)]
      simp [Transaction.execute, h]

/-- A batch in which no statement fails applies its events. -/
theorem foldlM_processRecord {answers : Answers} (h : ∀ id i, answers.succeeds id i = true)
    (batch : ExecutionStream) (tables : Tables) (checkpoint lastId : StreamId) :
    batch.foldlM (processRecord A parse answers) ⟨⟨⟨tables, checkpoint⟩, false⟩, lastId⟩
      = (applyEvents A tables (parsed parse answers.uuid batch)).map fun tables =>
          ⟨⟨⟨tables, checkpoint⟩, false⟩, Log.lastId lastId batch⟩ := by
  induction batch generalizing tables lastId with
  | nil => rfl
  | cons record batch ih =>
      rw [List.foldlM_cons, lastId_cons]
      cases hparse : record.2.bind parse with
      | none =>
          have hskip : parsed parse answers.uuid (record :: batch) = parsed parse answers.uuid batch := by
            apply List.filterMap_cons_none
            rw [hparse]
            rfl
          rw [hskip, ← ih]
          simp [processRecord, hparse]
      | some event =>
          have htake : parsed parse answers.uuid (record :: batch)
              = (answers.uuid record.1, event) :: parsed parse answers.uuid batch := by
            apply List.filterMap_cons_some
            rw [hparse]
            rfl
          rw [htake]
          simp only [processRecord, hparse, applyEvents]
          cases statements A (answers.uuid record.1) event with
          | error f => rfl
          | ok sts =>
              simp only [ok_bind, foldl_execute _ (h record.1)]
              exact ih _ _

/-- A batch changes nothing, or it moves the rows, the checkpoint and the position together. -/
theorem processBatch_spec {answers : Answers} {db db' : Database} {lastId lastId' : StreamId}
    {batch : ExecutionStream} (hclean : (WorkerAction.batch 0 answers).Clean)
    (h : processBatch A parse answers db lastId batch = .ok (db', lastId')) :
    (db' = db ∧ lastId' = lastId) ∨
      (applyEvents A db.tables (parsed parse answers.uuid batch) = .ok db'.tables ∧
        db'.checkpoint = Log.lastId lastId batch ∧ lastId' = Log.lastId lastId batch) := by
  unfold processBatch at h
  by_cases hbegins : answers.begins = true
  · by_cases hcommits : answers.commits = true
    · obtain ⟨hsucceeds, hcheckpoint⟩ := hclean hbegins hcommits
      obtain ⟨tables, checkpoint⟩ := db
      rw [if_pos hbegins, foldlM_processRecord A parse hsucceeds] at h
      cases happly : applyEvents A tables (parsed parse answers.uuid batch) with
      | error f =>
          rw [happly] at h
          cases h
      | ok tables' =>
          rw [happly] at h
          simp only [Except.map, ok_bind, Transaction.execute, hcheckpoint, hcommits, if_true] at h
          cases h
          exact Or.inr ⟨rfl, rfl, rfl⟩
    · left
      rw [if_pos hbegins] at h
      cases hloop : batch.foldlM (processRecord A parse answers)
          { tx := { db, aborted := false }, batchLastId := lastId } with
      | error f =>
          rw [hloop] at h
          cases h
      | ok acc =>
          rw [hloop] at h
          simp only [ok_bind, hcommits] at h
          cases h
          exact ⟨rfl, rfl⟩
  · rw [if_neg hbegins] at h
    cases h
    exact Or.inl ⟨rfl, rfl⟩

/-! ### Runs -/

/-- The checkpoint stands after a first part of the stream, whose entries are applied, and a running
worker is at the checkpoint. -/
structure InStep (stream : ExecutionStream) (w : WorkerState) : Prop where
  applied : ∃ front back uuid, stream = front ++ back ∧
    w.db.checkpoint = Log.lastId .zero front ∧
    applyEvents A .empty (parsed parse uuid front) = .ok w.db.tables
  position : ∀ lastId, w.lastId = some lastId → lastId = w.db.checkpoint

variable {A parse} {stream : ExecutionStream} {w : WorkerState}

theorem InStep.appliedOnce (hordered : Ordered .zero stream) (h : InStep A parse stream w) :
    AppliedOnce A parse stream w.db := by
  obtain ⟨front, back, uuid, rfl, hcheckpoint, happly⟩ := h.applied
  refine ⟨uuid, ?_⟩
  rwa [hcheckpoint, upTo_lastId hordered]

theorem InStep.batch (hordered : Ordered .zero stream) (h : InStep A parse stream w) (count : Nat)
    {answers : Answers} (hclean : (WorkerAction.batch count answers).Clean) :
    InStep A parse stream (w.step A parse stream (.batch count answers)) := by
  unfold WorkerState.step
  cases hlast : w.lastId with
  | none => simpa only using h
  | some lastId =>
      dsimp only
      split
      · exact h
      · obtain ⟨front, back, uuid, rfl, hcheckpoint, happly⟩ := h.applied
        have hposition : lastId = Log.lastId .zero front := (h.position lastId hlast).trans hcheckpoint
        rw [hposition, since_lastId hordered]
        split
        · next db' lastId' hbatch =>
          rcases processBatch_spec A parse hclean hbatch with ⟨rfl, rfl⟩ | ⟨hrows, hnext, hlast'⟩
          · exact ⟨h.applied, fun _ heq => Option.some.inj heq ▸ hcheckpoint.symm⟩
          · -- the entries of the batch keep the UUIDs of this batch, those before it the ones they had
            set batch := back.take (min count 100) with hbatchdef
            have hsplit : front ++ back = (front ++ batch) ++ back.drop (min count 100) := by
              rw [List.append_assoc, hbatchdef, List.take_append_drop]
            set drawn : StreamId → String :=
              fun id => if id ≤ Log.lastId .zero front then uuid id else answers.uuid id
            have hfront : parsed parse drawn front = parsed parse uuid front := by
              apply parsed_congr
              intro record hrecord
              exact if_pos (hordered.left.le_lastId hrecord)
            have hbatch : parsed parse drawn batch = parsed parse answers.uuid batch := by
              apply parsed_congr
              intro record hrecord
              exact if_neg (not_le.mpr (hordered.lastId_lt (List.mem_of_mem_take hrecord)))
            refine ⟨⟨front ++ batch, back.drop (min count 100), drawn, hsplit, ?_, ?_⟩, ?_⟩
            · rw [hnext, lastId_append]
            · rw [parsed_append, applyEvents_append, hfront, happly, ok_bind, hbatch, hrows]
            · intro _ heq
              rw [← Option.some.inj heq, hlast', hnext]
        · exact ⟨h.applied, fun _ heq => by cases heq⟩

theorem InStep.step (hordered : Ordered .zero stream) (h : InStep A parse stream w)
    {action : WorkerAction} (hclean : action.Clean) :
    InStep A parse stream (w.step A parse stream action) := by
  cases action with
  | start fetched =>
      obtain rfl : fetched = true := hclean
      cases hlast : w.lastId with
      | none =>
          simp only [WorkerState.step, hlast, if_true]
          exact ⟨h.applied, fun _ heq => (Option.some.inj heq).symm⟩
      | some lastId =>
          simp only [WorkerState.step, hlast]
          exact h
  | batch count answers => exact h.batch hordered count hclean
  | crash => exact ⟨h.applied, fun _ heq => by cases heq⟩

theorem inStep_init : InStep A parse stream .init :=
  ⟨⟨[], stream, fun _ => "", rfl, rfl, rfl⟩, fun _ heq => by cases heq⟩

theorem InStep.run (hordered : Ordered .zero stream) (h : InStep A parse stream w)
    {actions : List WorkerAction} (hclean : ∀ action ∈ actions, action.Clean) :
    InStep A parse stream (runWorker A parse stream w actions) := by
  induction actions generalizing w with
  | nil => exact h
  | cons action actions ih =>
      exact ih (h.step hordered (hclean action (List.mem_cons_self ..)))
        fun a ha => hclean a (List.mem_cons_of_mem _ ha)

/-- **Exactly once.** Over any stream, any batches, crashes and restarts, and any failures but those of
statements in a batch whose `commit` returns `Ok`: whatever checkpoint is stored, the durable rows are
those of the entries up to it that parse, each applied once. -/
theorem runWorker_applies_once (checks : Bool) (parse : String → Option ExecutionEvent)
    (stream : ExecutionStream) (hordered : Ordered .zero stream) (actions : List WorkerAction)
    (hclean : ∀ action ∈ actions, action.Clean) :
    AppliedOnce (u64 checks) parse stream
      (runWorker (u64 checks) parse stream .init actions).db :=
  (inStep_init.run hordered hclean).appliedOnce hordered

/-! ### A lost event -/

def fundingData (user : Nat) : String :=
  "\x7b\"type\":\"funding_executed\",\"user_id\":" ++ toString user
    ++ ",\"currency\":\"USD\",\"amount\":100,\"operation_type\":\"onramp\"\x7d"

def parseFunding (data : String) : Option ExecutionEvent :=
  [1, 2].findSome? fun user =>
    if data = fundingData user then some (.fundingExecuted user "USD" 100 "onramp") else none

def fundings : ExecutionStream :=
  [(toLex (1, 0), some (fundingData 1)), (toLex (1, 1), none), (toLex (2, 0), some (fundingData 2))]

/-- Everything succeeds but, if `fails`, the statements for the entries. -/
def answering (fails : Bool) : Answers where
  begins := true
  succeeds := fun _ _ => !fails
  checkpoint := true
  commits := true
  uuid := fun _ => "u"

theorem ordered_fundings : Ordered .zero fundings := ⟨by decide, by decide⟩

theorem runWorker_applies_once_fundings :
    AppliedOnce (u64 false) parseFunding fundings (runWorker (u64 false) parseFunding fundings .init
      [.start true, .batch 1 (answering false), .crash, .start true, .batch 5 (answering false)]).db :=
  runWorker_applies_once false parseFunding fundings ordered_fundings _ (by
    simp [WorkerAction.Clean, answering])

/-- The statement for the first onramp fails, the batch is rolled back, and the next batch stores a
checkpoint past both. -/
theorem runWorker_loses_funding :
    let w := runWorker (u64 false) parseFunding fundings .init
      [.start true, .batch 1 (answering true), .batch 5 (answering false)]
    w.db.checkpoint = toLex (2, 0) ∧ w.db.tables.ledgerEntries.map LedgerEntry.userId = [2, 0] ∧
      ¬ AppliedOnce (u64 false) parseFunding fundings w.db := by
  intro w
  have hcheckpoint : w.db.checkpoint = toLex (2, 0) := by decide +kernel
  have hentries : w.db.tables.ledgerEntries.map LedgerEntry.userId = [2, 0] := by decide +kernel
  refine ⟨hcheckpoint, hentries, ?_⟩
  rintro ⟨uuid, happly⟩
  have hall : upTo (toLex (2, 0)) fundings = fundings := by decide +kernel
  have hfirst : parseFunding (fundingData 1) = some (.fundingExecuted 1 "USD" 100 "onramp") := by
    decide +kernel
  have hsecond : parseFunding (fundingData 2) = some (.fundingExecuted 2 "USD" 100 "onramp") := by
    decide +kernel
  have hparsed : parsed parseFunding uuid fundings
      = [(uuid (toLex (1, 0)), .fundingExecuted 1 "USD" 100 "onramp"),
        (uuid (toLex (2, 0)), .fundingExecuted 2 "USD" 100 "onramp")] := by
    simp [parsed, fundings, hfirst, hsecond]
  rw [hcheckpoint, hall, hparsed] at happly
  have hrows : w.db.tables.ledgerEntries.map LedgerEntry.userId = [1, 0, 2, 0] :=
    (congrArg (List.map LedgerEntry.userId ∘ Tables.ledgerEntries) (Except.ok.inj happly)).symm
  rw [hentries] at hrows
  cases hrows

end CexRs
