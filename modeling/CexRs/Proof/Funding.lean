import CexRs.Routes
import CexRs.Proof.Reconciliation

/-!
# Fundings

Onramps and deposits add to an available balance, and the worker books each of them twice, for the user
and for clearing. The engine's sum has the width of `u64` and the worker's entries that of `i64`; a
quantity that is admitted need not fit in an entry, and a total need not fit in a balance.
-/

namespace CexRs

open FixedWidth EngineState

structure Funding where
  user : Nat
  currency : Currency
  qty : Nat

def Msg.funding : Msg → Option Funding
  | .onramp msg => some ⟨msg.userId, .usd, msg.qty⟩
  | .deposit msg => some ⟨msg.userId, .stock msg.symbol, msg.qty⟩
  | _ => none

def fundingsOf (msgs : List Msg) : List Funding := msgs.filterMap Msg.funding

def Funding.event (casing : Casing) (f : Funding) : ExecutionEvent :=
  match f.currency with
  | .usd => .fundingExecuted f.user "USD" f.qty "onramp"
  | .stock symbol => .fundingExecuted f.user (casing.uppercase symbol) f.qty "deposit"

def credited (user : Nat) (currency : Currency) (fs : List Funding) : Nat :=
  (fs.map fun f => if f.user = user ∧ f.currency = currency then f.qty else 0).sum

/-- The messages are handled without a fault, every available balance is the sum of what was credited
to it, each credit is announced once, and the worker writes down, without a fault, the amount of each
announcement for the user and its negative for clearing. -/
def FundsExactly (engine worker : Bool) (builtins : Builtins) (fees : FeeSchedule)
    (msgs : List Msg) : Prop :=
  ∃ s outputs, run (u64 engine) builtins (.new fees) msgs = .ok (s, outputs) ∧
    (∀ user currency,
      (s.balance user currency).available = credited user currency (fundingsOf msgs)) ∧
    executions outputs = (fundingsOf msgs).map (Funding.event builtins.toCasing) ∧
    ∀ event ∈ executions outputs, ∀ uuid, ∃ sts, statements (u64 worker) uuid event = .ok sts ∧
      (sts.flatMap Statement.entries).map LedgerEntry.posting = eventPostings event

theorem credited_cons (user : Nat) (currency : Currency) (f : Funding) (fs : List Funding) :
    credited user currency (f :: fs)
      = (if f.user = user ∧ f.currency = currency then f.qty else 0) + credited user currency fs :=
  List.sum_cons

/-! ### What is sent -/

theorem qty_pos {qty : UInt64} (h : qty ≠ 0) : 0 < qty.toNat :=
  Nat.pos_of_ne_zero fun hzero => h (UInt64.toNat_inj.mp hzero)

theorem listed {symbol : String} (h : symbol ∈ ["sol", "btc", "eth"]) :
    ∃ asset : Asset, Currency.stock symbol = .stock asset.symbol := by
  simp only [List.mem_cons, List.not_mem_nil, or_false] at h
  rcases h with rfl | rfl | rfl
  · exact ⟨.sol, rfl⟩
  · exact ⟨.btc, rfl⟩
  · exact ⟨.eth, rfl⟩

/-- What the gateway admits is a funding of a quantity from 1 to `2 ^ 64 - 1`. -/
theorem FundingRequest.send_funding {queueId : String} {request : FundingRequest} {msg : Msg}
    (h : request.send queueId = some msg) :
    ∃ f, msg.funding = some f ∧ 0 < f.qty ∧ f.qty < 2 ^ 64 ∧ f.currency.Listed := by
  cases request with
  | onramp identifier auth body =>
      simp only [send, CexRs.onramp, OnrampBody.validate] at h
      by_cases hzero : body.qty = 0
      · simp [hzero, throw, throwThe, MonadExceptOf.throw, Except.toOption, bind, Except.bind] at h
      · simp only [hzero, if_false, pure, Except.pure, bind, Except.bind, Except.toOption,
          Option.map_some, Option.some.injEq] at h
        subst h
        exact ⟨_, rfl, qty_pos hzero, body.qty.toNat_lt, .inl rfl⟩
  | deposit identifier auth path body =>
      simp only [send, CexRs.deposit, DepositBody.validate] at h
      by_cases hzero : body.qty = 0
      · simp [hzero, throw, throwThe, MonadExceptOf.throw, Except.toOption, bind, Except.bind] at h
      · by_cases hasset : toLowercase path ∈ ["sol", "btc", "eth"]
        · simp only [hzero, hasset, if_false, pure, Except.pure, bind, Except.bind, Except.toOption,
            Option.map_some, Option.some.injEq, not_true] at h
          subst h
          exact ⟨_, rfl, qty_pos hzero, body.qty.toNat_lt, .inr (listed hasset)⟩
        · simp [hzero, hasset, throw, throwThe, MonadExceptOf.throw, Except.toOption, bind,
            Except.bind, pure, Except.pure] at h

/-! ### One message -/

section Step

variable {builtins : Builtins} {s s' : EngineState} {msg : Msg} {f : Funding}

theorem handle_funding (A : Arith) (builtins : Builtins) (s : EngineState)
    (hfunding : msg.funding = some f) :
    ∃ reply : EngineState → Output,
      (∀ s', executions [.execution (f.event builtins.toCasing), reply s'] = [f.event builtins.toCasing]) ∧
      handle A builtins s msg = (s.balanceMut f.user f.currency (Balance.credit A f.qty)
        >>= fun s' => .ok (s', [.execution (f.event builtins.toCasing), reply s'])) := by
  cases msg with
  | onramp msg =>
      cases hfunding
      exact ⟨fun s' => balanceReply s' msg.queueId msg.identifier msg.userId, fun _ => rfl, rfl⟩
  | deposit msg =>
      cases hfunding
      exact ⟨fun s' => balanceReply s' msg.queueId msg.identifier msg.userId, fun _ => rfl, rfl⟩
  | _ => cases hfunding

/-- Where there is room for it, a funding adds its quantity in every build. -/
theorem handle_funding_of_fits (checks : Bool) (builtins : Builtins) (hfunding : msg.funding = some f)
    (hfits : (s.balance f.user f.currency).available + f.qty < 2 ^ 64) :
    ∃ s' outputs, handle (u64 checks) builtins s msg = .ok (s', outputs) ∧
      executions outputs = [f.event builtins.toCasing] ∧
      ∀ user currency, (s'.balance user currency).available
        = (s.balance user currency).available
          + (if f.user = user ∧ f.currency = currency then f.qty else 0) := by
  obtain ⟨reply, hannounced, hhandle⟩ := handle_funding (u64 checks) builtins s hfunding
  have hadd : (u64 checks).add (s.balance f.user f.currency).available f.qty
      = .ok ((s.balance f.user f.currency).available + f.qty) := (u64 checks).add_of_lt hfits
  simp only [balanceMut_eq, Balance.credit, hadd, ok_bind] at hhandle
  refine ⟨_, _, hhandle, hannounced _, fun user currency => ?_⟩
  rw [balance_withBalance]
  by_cases hsame : f.user = user ∧ f.currency = currency
  · obtain ⟨rfl, rfl⟩ := hsame
    simp
  · simp [hsame]

/-- Available balances stay within the word in every build. -/
theorem handle_funding_lt (checks : Bool) (hfunding : msg.funding = some f)
    (hword : ∀ user currency, (s.balance user currency).available < 2 ^ 64)
    {outputs : List Output} (h : handle (u64 checks) builtins s msg = .ok (s', outputs))
    (user : Nat) (currency : Currency) : (s'.balance user currency).available < 2 ^ 64 := by
  obtain ⟨reply, _, hhandle⟩ := handle_funding (u64 checks) builtins s hfunding
  rw [hhandle] at h
  obtain ⟨s₁, hmut, h⟩ := bind_ok h
  cases h
  obtain ⟨b, hcredit, rfl⟩ := balanceMut_ok hmut
  obtain ⟨sum, hsum, hcredit⟩ := bind_ok hcredit
  cases hcredit
  rw [balance_withBalance]
  split
  · exact wrap_lt hsum
  · exact hword user currency

end Step

/-! ### Runs -/

def AllFundings (msgs : List Msg) : Prop := ∀ msg ∈ msgs, ∃ f, msg.funding = some f

theorem allFundings_send (queueId : String) (requests : List FundingRequest) :
    AllFundings (requests.filterMap (FundingRequest.send queueId)) := by
  intro msg hmem
  obtain ⟨request, _, hsend⟩ := List.mem_filterMap.mp hmem
  obtain ⟨f, hf, _⟩ := FundingRequest.send_funding hsend
  exact ⟨f, hf⟩

theorem send_qty_lt (queueId : String) (requests : List FundingRequest) :
    ∀ f ∈ fundingsOf (requests.filterMap (FundingRequest.send queueId)), f.qty < 2 ^ 64 := by
  intro f hf
  obtain ⟨msg, hmsg, hfunding⟩ := List.mem_filterMap.mp hf
  obtain ⟨request, _, hsend⟩ := List.mem_filterMap.mp hmsg
  obtain ⟨f', hf', _, hlt, _⟩ := FundingRequest.send_funding hsend
  rw [hf'] at hfunding
  cases hfunding
  exact hlt

section Runs

variable {msgs : List Msg}

/-- Where there is room for all of them, fundings add up in every build. -/
theorem run_fundings_of_fit (checks : Bool) (builtins : Builtins) (hall : AllFundings msgs)
    (s : EngineState) (hfits : ∀ user currency,
      (s.balance user currency).available + credited user currency (fundingsOf msgs) < 2 ^ 64) :
    ∃ s' outputs, run (u64 checks) builtins s msgs = .ok (s', outputs) ∧
      executions outputs = (fundingsOf msgs).map (Funding.event builtins.toCasing) ∧
      ∀ user currency, (s'.balance user currency).available
        = (s.balance user currency).available + credited user currency (fundingsOf msgs) := by
  induction msgs generalizing s with
  | nil => exact ⟨s, [], rfl, rfl, fun _ _ => rfl⟩
  | cons msg msgs ih =>
      obtain ⟨f, hf⟩ := hall msg (List.mem_cons_self ..)
      have hcons : fundingsOf (msg :: msgs) = f :: fundingsOf msgs := List.filterMap_cons_some hf
      simp only [hcons, credited_cons] at hfits ⊢
      have hroom : (s.balance f.user f.currency).available + f.qty < 2 ^ 64 := by
        have := hfits f.user f.currency
        simp only [and_self, if_true] at this
        omega
      obtain ⟨s₁, first, hhandle, hannounced, hadded⟩ :=
        handle_funding_of_fits checks builtins hf hroom
      obtain ⟨s', rest, hrun, hevents, hsums⟩ := ih
        (fun msg' hmem => hall msg' (List.mem_cons_of_mem _ hmem)) s₁
        (fun user currency => by rw [hadded, add_assoc]; exact hfits user currency)
      refine ⟨s', first ++ rest, ?_, ?_, fun user currency => ?_⟩
      · simp only [run, hhandle, ok_bind, hrun]
        rfl
      · rw [executions_append, hannounced, hevents]
        rfl
      · rw [hsums, hadded, add_assoc]

theorem run_fundings_lt (checks : Bool) {builtins : Builtins} (hall : AllFundings msgs)
    {s s' : EngineState} (hword : ∀ user currency, (s.balance user currency).available < 2 ^ 64)
    {outputs : List Output} (h : run (u64 checks) builtins s msgs = .ok (s', outputs))
    (user : Nat) (currency : Currency) : (s'.balance user currency).available < 2 ^ 64 := by
  induction msgs generalizing s outputs with
  | nil =>
      cases h
      exact hword user currency
  | cons msg msgs ih =>
      obtain ⟨⟨s₁, first⟩, hhandle, h⟩ := bind_ok h
      obtain ⟨⟨s₂, rest⟩, hrest, h⟩ := bind_ok h
      cases h
      obtain ⟨f, hf⟩ := hall msg (List.mem_cons_self ..)
      exact ih (fun msg' hmem => hall msg' (List.mem_cons_of_mem _ hmem))
        (handle_funding_lt checks hf hword hhandle) hrest

end Runs

/-! ### What the worker writes -/

/-- The worker writes down a funding as it is exactly if its quantity is in the range of `i64`. -/
theorem statements_funding_iff (checks : Bool) (casing : Casing) (uuid : String) {f : Funding}
    (hqty : f.qty < 2 ^ 64) :
    (∃ sts, statements (u64 checks) uuid (f.event casing) = .ok sts ∧
      (sts.flatMap Statement.entries).map LedgerEntry.posting = eventPostings (f.event casing)) ↔
    f.qty < 2 ^ 63 := by
  obtain ⟨name, operation, hevent⟩ : ∃ name operation,
      f.event casing = .fundingExecuted f.user name f.qty operation := by
    unfold Funding.event
    split
    · exact ⟨_, _, rfl⟩
    · exact ⟨_, _, rfl⟩
  rw [hevent]
  constructor
  · rintro ⟨sts, hsts, hpostings⟩
    obtain ⟨clearing, _, hsts⟩ := bind_ok hsts
    cases hsts
    have hamount : asI64 f.qty = f.qty := by
      simp [Statement.entries, LedgerEntry.posting, eventPostings] at hpostings
      exact hpostings.1
    unfold asI64 at hamount
    split at hamount
    · omega
    · omega
  · intro hfits
    simp only [statements, asI64_of_lt hfits, negI64_of_lt _ hfits]
    exact ⟨_, rfl, rfl⟩

theorem available_new (fees : FeeSchedule) (user : Nat) (currency : Currency) :
    ((EngineState.new fees).balance user currency).available = 0 := by
  cases currency with
  | usd => simp [balance, usd, EngineState.new]
  | stock symbol => simp [balance, stock, EngineState.new]

theorem fundsExactly_iff (engine worker : Bool) (builtins : Builtins) (fees : FeeSchedule)
    {msgs : List Msg} (hall : AllFundings msgs) (hqty : ∀ f ∈ fundingsOf msgs, f.qty < 2 ^ 64) :
    FundsExactly engine worker builtins fees msgs ↔
      (∀ user currency, credited user currency (fundingsOf msgs) < 2 ^ 64) ∧
      ∀ f ∈ fundingsOf msgs, f.qty < 2 ^ 63 := by
  constructor
  · rintro ⟨s, outputs, hrun, hsums, hevents, hbooked⟩
    refine ⟨fun user currency => ?_, fun f hf => ?_⟩
    · rw [← hsums]
      refine run_fundings_lt engine hall (fun user currency => ?_) hrun user currency
      rw [available_new]
      decide
    · have hemitted : f.event builtins.toCasing ∈ executions outputs := hevents ▸ List.mem_map_of_mem hf
      exact (statements_funding_iff worker _ "" (hqty f hf)).mp (hbooked _ hemitted "")
  · rintro ⟨htotals, hamounts⟩
    obtain ⟨s, outputs, hrun, hevents, hsums⟩ := run_fundings_of_fit engine builtins hall
      (.new fees) (fun user currency => by rw [available_new, zero_add]; exact htotals user currency)
    refine ⟨s, outputs, hrun, fun user currency => ?_, hevents, fun event hemitted uuid => ?_⟩
    · rw [hsums, available_new, zero_add]
    · rw [hevents] at hemitted
      obtain ⟨f, hf, rfl⟩ := List.mem_map.mp hemitted
      exact (statements_funding_iff worker _ uuid (hqty f hf)).mpr (hamounts f hf)

/-- **Fundings are exact as long as they fit.** Whatever requests the gateway is sent, engine and worker
account for those it admits exactly if the quantities that one user is credited in one currency sum up
to less than `2 ^ 64`, and each of them is less than `2 ^ 63`. -/
theorem run_funds_exactly_iff (engine worker : Bool) (builtins : Builtins) (fees : FeeSchedule)
    (queueId : String) (requests : List FundingRequest) :
    FundsExactly engine worker builtins fees (requests.filterMap (FundingRequest.send queueId)) ↔
      (∀ user currency, credited user currency
        (fundingsOf (requests.filterMap (FundingRequest.send queueId))) < 2 ^ 64) ∧
      ∀ f ∈ fundingsOf (requests.filterMap (FundingRequest.send queueId)), f.qty < 2 ^ 63 := by
  apply fundsExactly_iff engine worker builtins fees
  · exact allFundings_send queueId requests
  · exact send_qty_lt queueId requests

/-- One onramp of `2 ^ 63`, and one user's three onramps of `2 ^ 63 - 1`. -/
def largeOnramp : List FundingRequest := [.onramp "a" 1 ⟨9223372036854775808⟩]

def manyOnramps : List FundingRequest :=
  List.replicate 3 (.onramp "a" 1 ⟨9223372036854775807⟩)

/-- The one is booked with the wrong sign, or stops a checking worker; the three stop a checking engine
and leave the user of the other with `2 ^ 63 - 3`. -/
theorem largeFundings_inexact :
    (∃ msgs, msgs = largeOnramp.filterMap (FundingRequest.send "q") ∧ msgs.length = 1 ∧
      statements (u64 true) "u" (.fundingExecuted 1 "USD" 9223372036854775808 "onramp")
        = .error .overflow ∧
      statements (u64 false) "u" (.fundingExecuted 1 "USD" 9223372036854775808 "onramp")
        = .ok [.insertEntries
          [⟨1, "USD", -9223372036854775808, .available, "onramp", "onramp_u"⟩,
            ⟨0, "USD", -9223372036854775808, .clearing, "onramp", "onramp_u"⟩]] ∧
      ∀ engine worker, ¬ FundsExactly engine worker .noSlippage ⟨10, 20⟩ msgs) ∧
    (∃ msgs, msgs = manyOnramps.filterMap (FundingRequest.send "q") ∧ msgs.length = 3 ∧
      run (u64 true) .noSlippage (.new ⟨10, 20⟩) msgs = .error .overflow ∧
      (∃ s outputs, run (u64 false) .noSlippage (.new ⟨10, 20⟩) msgs = .ok (s, outputs) ∧
        s.usd 1 = ⟨9223372036854775805, 0⟩) ∧
      ∀ engine worker, ¬ FundsExactly engine worker .noSlippage ⟨10, 20⟩ msgs) := by
  refine ⟨⟨_, rfl, by decide, rfl, rfl, fun engine worker hexact => ?_⟩,
    ⟨_, rfl, by decide, ?_, ?_, fun engine worker hexact => ?_⟩⟩
  · have hfits := (fundsExactly_iff engine worker _ _ (allFundings_send _ _) (send_qty_lt _ _)).mp hexact
    exact absurd (hfits.2 ⟨1, .usd, 9223372036854775808⟩ (List.mem_singleton_self _)) (by decide)
  · exact eq_overflow_of_overflowed (by decide +kernel)
  · obtain ⟨r, hrun, husd⟩ := exists_of_returns
      (run (u64 false) .noSlippage (.new ⟨10, 20⟩)
        (manyOnramps.filterMap (FundingRequest.send "q")))
      (fun r => decide (r.1.usd 1 = ⟨9223372036854775805, 0⟩)) (by decide +kernel)
    exact ⟨r.1, r.2, hrun, of_decide_eq_true husd⟩
  · have hfits := (fundsExactly_iff engine worker _ _ (allFundings_send _ _) (send_qty_lt _ _)).mp hexact
    exact absurd (hfits.1 1 .usd) (by decide)

end CexRs
