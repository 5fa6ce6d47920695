import CexRs.Proof.ExactlyOnce
import CexRs.Proof.Reconciliation

/-!
# Double entry

What the worker writes down for one event sums up to zero in every currency. A statement that fails takes
its whole batch with it, so an event is in the ledger with all of its entries or not at all. Whatever
fails, whatever is lost and whatever is applied again, the ledger balances.
-/

namespace CexRs

open FixedWidth Journal EngineState

/-! ### All or nothing -/

section AllOrNothing

variable {A : Arith} {parse : String → Option ExecutionEvent} {answers : Answers} {P : Tables → Prop}

def ExecutionEvent.Keeps (A : Arith) (P : Tables → Prop) (event : ExecutionEvent) : Prop :=
  ∀ uuid sts, statements A uuid event = .ok sts → ∀ db, P db → P (sts.foldl Statement.execute db)

/-- A transaction that is not aborted has executed all of its statements. -/
theorem foldl_execute_all (succeeds : Nat → Bool) (sts : List Statement) (start : Nat) (tx : Transaction) :
    let tx' := (sts.zipIdx start).foldl (fun tx (st, i) => Transaction.execute (succeeds i)
      (fun db => { db with tables := st.execute db.tables }) tx) tx
    tx'.aborted = false →
      tx.aborted = false ∧ tx'.db.tables = sts.foldl Statement.execute tx.db.tables := by
  induction sts generalizing start tx with
  | nil => exact fun h => ⟨h, rfl⟩
  | cons st sts ih =>
      intro tx' h
      obtain ⟨hfirst, hrest⟩ := ih (start + 1) (Transaction.execute (succeeds start)
        (fun db => { db with tables := st.execute db.tables }) tx) h
      cases haborted : tx.aborted with
      | true => simp [Transaction.execute, haborted] at hfirst
      | false =>
          cases hsucceeds : succeeds start with
          | false => simp [Transaction.execute, haborted, hsucceeds] at hfirst
          | true => exact ⟨rfl, hrest.trans (by simp [Transaction.execute, haborted, hsucceeds])⟩

def BatchLoop.Keeps (P : Tables → Prop) (acc : BatchLoop) : Prop :=
  acc.tx.aborted = false → P acc.tx.db.tables

theorem processRecord_keeps {acc : BatchLoop} {record : StreamId × Option String}
    (hkeeps : ∀ event ∈ record.2.bind parse, event.Keeps A P) (h : acc.Keeps P) :
    Meets (fun _ => True) (processRecord A parse answers acc record) (BatchLoop.Keeps P) := by
  unfold processRecord
  cases hparse : record.2.bind parse with
  | none => exact h
  | some event =>
      dsimp only
      cases hsts : statements A (answers.uuid record.1) event with
      | error f => trivial
      | ok sts =>
          intro hcommits
          obtain ⟨hbefore, hall⟩ := foldl_execute_all (answers.succeeds record.1) sts 0 acc.tx hcommits
          exact hall ▸ hkeeps event hparse _ sts hsts _ (h hbefore)

theorem processBatch_keeps {batch : ExecutionStream}
    (hkeeps : ∀ record ∈ batch, ∀ event ∈ record.2.bind parse, event.Keeps A P) {db : Database}
    {lastId : StreamId} (h : P db.tables) :
    Meets (fun _ => True) (processBatch A parse answers db lastId batch) fun r => P r.1.tables := by
  have hbatch : Meets (fun _ => True) (batch.foldlM (processRecord A parse answers)
      { tx := { db, aborted := false }, batchLastId := lastId }) (BatchLoop.Keeps P) :=
    meets_foldlM (fun _ => h) fun acc hacc record hrecord =>
      processRecord_keeps (hkeeps record hrecord) hacc
  unfold processBatch
  split
  · refine hbatch.bind fun acc hacc => ?_
    dsimp only
    split
    · rw [meets_pure]
      dsimp only
      split
      · exact h
      · next haborted =>
        -- not even the update of the checkpoint has failed
        unfold Transaction.execute at haborted ⊢
        split at haborted
        · next hloop => exact absurd hloop haborted
        · next hloop =>
          rw [if_neg hloop]
          split <;> exact hacc (Bool.eq_false_iff.mpr hloop)
    · exact h
  · exact h

/-- Whatever fails, the tables keep what each event of the stream keeps. -/
theorem runWorker_keeps {stream : ExecutionStream}
    (hkeeps : ∀ record ∈ stream, ∀ event ∈ record.2.bind parse, event.Keeps A P)
    (actions : List WorkerAction) (w : WorkerState) (h : P w.db.tables) :
    P (runWorker A parse stream w actions).db.tables := by
  induction actions generalizing w with
  | nil => exact h
  | cons action actions ih =>
      refine ih _ ?_
      cases action with
      | start fetched =>
          simp only [WorkerState.step]
          split <;> exact h
      | crash => exact h
      | batch count answers =>
          simp only [WorkerState.step]
          split
          · exact h
          · next lastId hlast =>
            split
            · exact h
            · split
              · next hprocess =>
                refine (processBatch_keeps (fun record hrecord => hkeeps record ?_) h).of_ok hprocess
                exact List.mem_of_mem_filter (List.mem_of_mem_take hrecord)
              · exact h

end AllOrNothing

/-! ### Balance -/

def LedgerEntry.line (e : LedgerEntry) : Posting (String × String) :=
  ⟨(e.currency, e.referenceId), e.amount⟩

def Balanced (entries : List LedgerEntry) : Prop :=
  ∀ (sel : String × String → Prop) [DecidablePred sel], net sel (entries.map LedgerEntry.line) = 0

theorem Balanced.append {entries entries' : List LedgerEntry} (h : Balanced entries)
    (h' : Balanced entries') : Balanced (entries ++ entries') := by
  intro sel _
  rw [List.map_append, net_append, h, h', add_zero]

theorem Balanced.sum_eq_zero {entries : List LedgerEntry} (h : Balanced entries)
    (sel : String × String → Prop) [DecidablePred sel] :
    ((entries.filter fun e => sel (e.currency, e.referenceId)).map LedgerEntry.amount).sum = 0 := by
  have hnet : ∀ l : List LedgerEntry, net sel (l.map LedgerEntry.line)
      = ((l.filter fun e => sel (e.currency, e.referenceId)).map LedgerEntry.amount).sum := by
    intro l
    induction l with
    | nil => rfl
    | cons e l ih =>
        rw [List.map_cons, net_cons, ih]
        by_cases hsel : sel (e.currency, e.referenceId) <;> simp [LedgerEntry.line, hsel]
  rw [← hnet]
  exact h sel

def ExecutionEvent.FeesCovered : ExecutionEvent → Prop
  | .tradeExecuted _ _ _ _ _ _ _ quoteAmount _ _ _ sellerFee => sellerFee ≤ quoteAmount
  | _ => True

/-- What is written down for an event sums up to zero. -/
theorem balanced_statements (checks : Bool) (uuid : String) {event : ExecutionEvent} (hfits : event.Fits)
    (hfees : event.FeesCovered) {sts : List Statement}
    (h : statements (u64 checks) uuid event = .ok sts) : Balanced (sts.flatMap Statement.entries) := by
  intro sel _
  cases event with
  | orderCreated | orderCancelled | depthUpdated =>
      cases h
      rfl
  | fundingExecuted userId currency amount operationType =>
      simp only [statements, asI64_of_lt hfits, negI64_of_lt _ hfits, ok_bind] at h
      cases h
      by_cases hsel : sel (currency, operationType ++ "_" ++ uuid) <;>
        simp [Statement.entries, LedgerEntry.line, hsel]
  | tradeExecuted maker taker buyer seller market price qty quote remaining _ buyerFee sellerFee =>
      obtain ⟨hqty, hdebit, htoll⟩ := hfits
      have hword : 2 ^ 63 < 2 ^ (u64 checks).bits := by
        change 2 ^ 63 < 2 ^ 64
        decide
      have hproceeds : quote - sellerFee < 2 ^ 63 := by omega
      simp only [statements, Arith.add_of_lt _ (lt_trans hdebit hword),
        Arith.add_of_lt _ (lt_trans htoll hword), ok_bind, asI64_of_lt hdebit, asI64_of_lt hqty,
        asI64_of_lt hproceeds, asI64_of_lt htoll, negI64_of_lt _ hdebit, negI64_of_lt _ hqty] at h
      cases h
      have hcredit : ((quote - sellerFee : Nat) : Int) = quote - sellerFee := Int.ofNat_sub hfees
      -- the treasury's entry is left out only where it is zero
      have htreasury : ∀ reference, net sel (((if 0 < ((buyerFee + sellerFee : Nat) : Int) then
          [Statement.insertEntries [⟨0, "USD", (buyerFee + sellerFee : Nat), .available, "fee_collection",
            reference⟩]] else []).flatMap Statement.entries).map LedgerEntry.line)
          = if sel ("USD", reference) then ((buyerFee + sellerFee : Nat) : Int) else 0 := by
        intro reference
        split
        · simp [Statement.entries, LedgerEntry.line]
        · next hzero =>
          rw [show ((buyerFee + sellerFee : Nat) : Int) = 0 by omega]
          simp
      rw [List.flatMap_append, List.map_append, net_append, htreasury]
      simp only [Statement.entries, LedgerEntry.line, List.flatMap_cons, List.flatMap_nil,
        List.append_nil, List.nil_append, List.cons_append, List.map_cons, List.map_nil, net_cons, net_nil]
      split <;> split <;> omega

theorem ExecutionEvent.keeps_balance (checks : Bool) {event : ExecutionEvent} (hfits : event.Fits)
    (hfees : event.FeesCovered) : event.Keeps (u64 checks) fun db => Balanced db.ledgerEntries := by
  intro uuid sts hsts db hdb
  rw [ledgerEntries_foldl]
  exact hdb.append (balanced_statements checks uuid hfits hfees hsts)

/-! ### The events of the engine -/

section Engine

variable {builtins : Builtins} {s s' : EngineState} {events : List ExecutionEvent}

theorem Effect.feesCovered {msg : Msg} (h : Effect builtins s msg s' events)
    (hfees : s.feeSchedule.Bounded) : ∀ event ∈ events, event.FeesCovered := by
  intro event hmem
  cases h with
  | order _ _ h =>
      rw [h.events, List.mem_append, List.mem_append, List.mem_map, List.mem_singleton] at hmem
      rcases hmem with (⟨t, _, rfl⟩ | hmem) | rfl
      · exact feeOfSeller_le hfees t.takerSide t.value
      · obtain ⟨o, _, rfl⟩ := Option.map_eq_some_iff.mp (Option.mem_toList.mp hmem)
        trivial
      · trivial
  | _ => cases event <;> simp_all [ExecutionEvent.FeesCovered]

theorem Runs.feesCovered {msgs : List Msg} (h : Runs builtins s msgs s' events)
    (hfees : s.feeSchedule.Bounded) : ∀ event ∈ events, event.FeesCovered := by
  induction h with
  | nil => simp
  | cons _ _ heffect _ ih =>
      intro event hmem
      rcases List.mem_append.mp hmem with hmem | hmem
      · exact heffect.feesCovered hfees event hmem
      · exact ih (heffect.feeSchedule.symm ▸ hfees) event hmem

end Engine

/-- **The ledger balances, whatever fails.** A run, resets and all, with fees of at most the whole value
overflows nowhere, and the amounts of its events fit in `i64`. The worker reads a stream of such events, in
any order, with any of them missing or there several times; statements, commits and queries may fail and
the worker may die at any point. The lines of every reference in every currency sum up to zero, and so do
all lines of a currency. -/
theorem runWorker_balances (builtins : Builtins) (fees : FeeSchedule) (hmaker : fees.makerFeeBps ≤ 10000)
    (htaker : fees.takerFeeBps ≤ 10000) (msgs : List Msg) {s : EngineState} {outputs : List Output}
    (hrun : run (u64 true) builtins (.new fees) msgs = .ok (s, outputs))
    (hfits : ∀ event ∈ executions outputs, event.Fits) (checks : Bool)
    (parse : String → Option ExecutionEvent) (stream : ExecutionStream)
    (hstream : ∀ record ∈ stream, ∀ event ∈ record.2.bind parse, event ∈ executions outputs)
    (actions : List WorkerAction) :
    let entries := (runWorker (u64 checks) parse stream .init actions).db.tables.ledgerEntries
    (∀ currency reference,
      ((entries.filter fun e => e.currency = currency ∧ e.referenceId = reference).map
        LedgerEntry.amount).sum = 0) ∧
      ∀ currency, ((entries.filter fun e => e.currency = currency).map LedgerEntry.amount).sum = 0 := by
  have hruns := (run_runs builtins _ (covered_new fees) (valid_new fees) msgs).of_ok hrun
  have hbalanced : Balanced (runWorker (u64 checks) parse stream .init actions).db.tables.ledgerEntries := by
    refine runWorker_keeps (P := fun db => Balanced db.ledgerEntries) ?_ actions .init fun _ _ => rfl
    intro record hrecord event hparse
    have hemitted := hstream record hrecord event hparse
    exact event.keeps_balance checks (hfits event hemitted)
      (hruns.feesCovered ⟨hmaker, htaker⟩ event hemitted)
  exact ⟨fun currency reference => hbalanced.sum_eq_zero fun k => k.1 = currency ∧ k.2 = reference,
    fun currency => hbalanced.sum_eq_zero fun k => k.1 = currency⟩

def soldEvents : List ExecutionEvent :=
  [.fundingExecuted 1 "USD" 2000 "onramp", .fundingExecuted 2 "SOL" 10 "deposit",
    .tradeExecuted 1 2 1 2 "SOL_USD" 100 5 500 5 0 0 1]

def parseSold : String → Option ExecutionEvent
  | "onramp" => soldEvents[0]?
  | "deposit" => soldEvents[1]?
  | "sale" => soldEvents[2]?
  | _ => none

/-- The sale is on the stream twice, and before the funding. -/
def soldStream : ExecutionStream :=
  [(toLex (1, 0), some "sale"), (toLex (2, 0), some "onramp"), (toLex (3, 0), some "deposit"),
    (toLex (4, 0), some "sale")]

/-- The batch with the onramp is lost. -/
def soldActions : List WorkerAction :=
  [.start true, .batch 1 (answering false), .batch 1 (answering true), .crash, .start false,
    .batch 1 (answering true), .batch 5 (answering false)]

theorem runWorker_balances_sold :
    let entries := (runWorker (u64 false) parseSold soldStream .init soldActions).db.tables.ledgerEntries
    entries.length = 14 ∧ ∀ currency,
      ((entries.filter fun e => e.currency = currency).map LedgerEntry.amount).sum = 0 := by
  obtain ⟨⟨s, outputs⟩, hrun, htest⟩ := exists_of_returns
    (run (u64 true) .noSlippage (.new ⟨10, 20⟩) (session.take 4))
    (fun r => decide (∀ event ∈ executions r.2, event.Fits) &&
      decide (∀ event ∈ soldEvents, event ∈ executions r.2)) (by decide +kernel)
  rw [Bool.and_eq_true, decide_eq_true_eq, decide_eq_true_eq] at htest
  have hparse : ∀ record ∈ soldStream, ∀ event ∈ record.2.bind parseSold, event ∈ soldEvents := by
    decide +kernel
  intro entries
  refine ⟨by decide +kernel, ?_⟩
  exact (runWorker_balances .noSlippage ⟨10, 20⟩ (by decide) (by decide) (session.take 4) hrun htest.1
    false parseSold soldStream
    (fun record hrecord event hmem => htest.2 event (hparse record hrecord event hmem))
    soldActions).2

end CexRs
