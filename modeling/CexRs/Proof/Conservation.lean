import CexRs.Proof.LockCoverage

/-!
# Conservation

With rates of at most the whole value, every journal but those of onramps and deposits sums up to zero
in each currency. So what all users together hold is what was paid in since the last reset.
-/

namespace CexRs

open FixedWidth OrderedMap Journal EngineState

/-- What has been paid in since the last reset, after one more message. -/
def fundedStep (currency : Currency) (amount : Nat) : Msg → Nat
  | .onramp msg => amount + if currency = .usd then msg.qty else 0
  | .deposit msg => amount + if currency = .stock msg.symbol then msg.qty else 0
  | .reset _ => 0
  | _ => amount

def funded (currency : Currency) (msgs : List Msg) : Nat := msgs.foldl (fundedStep currency) 0

def FeeSchedule.Bounded (fees : FeeSchedule) : Prop :=
  fees.makerFeeBps ≤ 10000 ∧ fees.takerFeeBps ≤ 10000

theorem bpsFee_le {bps : Nat} (h : bps ≤ 10000) (value : Nat) : bpsFee bps value ≤ value := by
  apply Nat.div_le_of_le_mul
  rw [Nat.mul_comm 10000]
  exact Nat.mul_le_mul_left value h

theorem feeOfSeller_le {fees : FeeSchedule} (h : fees.Bounded) (side : Side) (value : Nat) :
    fees.feeOfSeller side value ≤ value := by
  cases side with
  | bid => exact bpsFee_le h.1 value
  | ask => exact bpsFee_le h.2 value

/-! ### Journals that sum up to zero -/

theorem net_postings {fees : FeeSchedule} (h : fees.Bounded) (asset : Asset) (currency : Currency)
    (t : Trade) : net (fun k => k.currency = currency) (t.postings fees asset) = 0 := by
  have hfee := feeOfSeller_le h t.takerSide t.value
  cases currency with
  | usd =>
      simp [Trade.postings, Trade.debit, Trade.proceeds, Trade.toll]
      omega
  | stock symbol =>
      by_cases hsymbol : asset.symbol = symbol
      · simp [Trade.postings, hsymbol]
      · simp [Trade.postings, hsymbol]

theorem net_journal {fees : FeeSchedule} (h : fees.Bounded) (asset : Asset) (currency : Currency)
    (ts : List Trade) : net (fun k => k.currency = currency) (journal fees asset ts) = 0 := by
  rw [journal, net_flatMap]
  apply List.sum_eq_zero
  intro n hn
  obtain ⟨t, _, rfl⟩ := List.mem_map.mp hn
  exact net_postings h asset currency t

theorem net_lock (user : Nat) (currency currency' : Currency) (n : Nat) :
    net (fun k => k.currency = currency') (lockPostings user currency n) = 0 := by
  by_cases hcurrency : currency = currency'
  · simp [lockPostings, hcurrency]
  · simp [lockPostings, hcurrency]

theorem net_unlock (user : Nat) (currency currency' : Currency) (n : Nat) :
    net (fun k => k.currency = currency') (unlockPostings user currency n) = 0 := by
  by_cases hcurrency : currency = currency'
  · simp [unlockPostings, hcurrency]
  · simp [unlockPostings, hcurrency]

/-! ### Effects and runs -/

theorem Effect.feeSchedule {builtins : Builtins} {s s' : EngineState} {msg : Msg}
    {events : List ExecutionEvent} (h : Effect builtins s msg s' events) :
    s'.feeSchedule = s.feeSchedule := by
  cases h with
  | still _ _ _ h => exact h.venue.feeSchedule
  | onramp h => exact h.venue.feeSchedule
  | deposit h => exact h.venue.feeSchedule
  | order _ _ h => exact h.executed.feeSchedule
  | cancel hget huser hvenue h => exact hvenue.feeSchedule.trans (feeSchedule_setBook ..)
  | reset => rfl

theorem supply_reset (s : EngineState) (currency : Currency) : s.reset.supply currency = 0 := by
  cases currency <;> simp [supply, reset]

theorem Effect.supply {builtins : Builtins} {s s' : EngineState} {msg : Msg}
    {events : List ExecutionEvent} (h : Effect builtins s msg s' events)
    (hfees : s.feeSchedule.Bounded) (currency : Currency) :
    s'.supply currency = fundedStep currency (s.supply currency) msg := by
  have hcredit : ∀ {ps : List (Posting Account)}, Pays s s' ps → ∀ n : Nat,
      net (fun k => k.currency = currency) ps = n → s'.supply currency = s.supply currency + n := by
    intro ps hpays n hn
    have hsupply := hpays.supply currency
    omega
  cases h with
  | still hreset honramp hdeposit h =>
      have hsame := hcredit h.toPays 0 (by simp)
      cases msg with
      | onramp msg => exact absurd rfl (honramp msg)
      | deposit msg => exact absurd rfl (hdeposit msg)
      | reset msg => exact absurd rfl (hreset msg)
      | _ => exact hsame
  | onramp h =>
      refine hcredit h.toPays _ ?_
      simp [creditPostings, eq_comm]
  | deposit h =>
      refine hcredit h.toPays _ ?_
      simp [creditPostings, eq_comm]
  | order _ _ h =>
      refine hcredit h.pays 0 ?_
      rw [net_append, net_append, net_lock, net_journal hfees, net_unlock]
      rfl
  | cancel hget huser hvenue h => exact hcredit h 0 (net_unlock ..)
  | reset => exact supply_reset s currency

theorem Runs.supply {builtins : Builtins} {s s' : EngineState} {msgs : List Msg}
    {events : List ExecutionEvent} (h : Runs builtins s msgs s' events)
    (hfees : s.feeSchedule.Bounded) (currency : Currency) :
    s'.supply currency = msgs.foldl (fundedStep currency) (s.supply currency) := by
  induction h with
  | nil hcov hv => rfl
  | cons hcov hv heffect hruns ih =>
      rw [ih (heffect.feeSchedule.symm ▸ hfees), heffect.supply hfees, List.foldl_cons]

theorem supply_new (fees : FeeSchedule) (currency : Currency) :
    (EngineState.new fees).supply currency = 0 := by
  cases currency <;> simp [supply, EngineState.new]

/-- **Conservation.** After a run of messages in which nothing overflows, what all users together hold
in USD, available and locked, is what was onramped since the last reset, and what they hold under a
symbol is what was deposited under it. -/
theorem run_conserves (builtins : Builtins) (fees : FeeSchedule) (hmaker : fees.makerFeeBps ≤ 10000)
    (htaker : fees.takerFeeBps ≤ 10000) (msgs : List Msg)
    (hover : run (u64 true) builtins (.new fees) msgs ≠ .error .overflow) :
    ∃ s outputs, (∀ checks, run (u64 checks) builtins (.new fees) msgs = .ok (s, outputs)) ∧
      s.supply .usd = funded .usd msgs ∧
      ∀ asset : Asset, s.supply (.stock asset.symbol) = funded (.stock asset.symbol) msgs := by
  obtain ⟨s, outputs, hrun, hruns⟩ := runs_of_ne_overflow hover
  have hsupply : ∀ currency, s.supply currency = funded currency msgs := by
    intro currency
    rw [hruns.supply ⟨hmaker, htaker⟩, supply_new, funded]
  exact ⟨s, outputs, hrun, hsupply .usd, fun asset => hsupply (.stock asset.symbol)⟩

theorem run_conserves_session :
    ∃ s outputs, run (u64 false) .noSlippage (.new ⟨10, 20⟩) session = .ok (s, outputs) ∧
      s.supply .usd = 2000 ∧ s.supply (.stock "sol") = 10 := by
  obtain ⟨s, outputs, hrun, husd, hstock⟩ := run_conserves .noSlippage ⟨10, 20⟩ (by decide)
    (by decide) session (ne_overflow_of_overflowed (by decide +kernel))
  exact ⟨s, outputs, hrun false, husd.trans (by decide), (hstock .sol).trans (by decide)⟩

end CexRs
