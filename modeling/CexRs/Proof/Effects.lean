import CexRs.Proof.Placing

/-!
# Effects of messages

What a message does in the checked build, from a valid state whose resting orders are covered, unless
a sum or a product overflows: its journal, its change of the books, and the events it emits. Everything
that is proved about runs is proved of this relation.
-/

namespace CexRs

open FixedWidth OrderedMap Journal EngineState

def creditPostings (user : Nat) (currency : Currency) (n : Nat) : List (Posting Account) :=
  [⟨⟨user, currency, false⟩, n⟩]

inductive Effect (builtins : Builtins) (s : EngineState) :
    Msg → EngineState → List ExecutionEvent → Prop
  | still {msg : Msg} {s' : EngineState} (hreset : ∀ r, msg ≠ .reset r)
      (honramp : ∀ r, msg ≠ .onramp r) (hdeposit : ∀ r, msg ≠ .deposit r) (h : Moves s s' []) :
      Effect builtins s msg s' []
  | onramp {msg : OnrampMsg} {s' : EngineState}
      (h : Moves s s' (creditPostings msg.userId .usd msg.qty)) :
      Effect builtins s (.onramp msg) s' [.fundingExecuted msg.userId "USD" msg.qty "onramp"]
  | deposit {msg : DepositMsg} {s' : EngineState}
      (h : Moves s s' (creditPostings msg.userId (.stock msg.symbol) msg.qty)) :
      Effect builtins s (.deposit msg) s'
        [.fundingExecuted msg.userId (builtins.uppercase msg.symbol) msg.qty "deposit"]
  | order {msg : OrderMsg} {side : Side} {fs : List (Order × Nat)} {m : Matching} {p : Placement}
      {bids asks : List (Nat × Nat)} (hadmitted : Admitted builtins s msg p.asset side)
      (hlock : p.lock = orderLock builtins s msg p.asset side)
      (h : Placed s msg side (orderPast builtins s msg p.asset side) msg.qty.toInt.toNat fs m
        (remainderOf msg ⟨s.nextOrderId, msg.userId, side⟩ m) p) :
      Effect builtins s (.order msg) p.state (p.settlement.events
        ++ restingEvents msg p.asset (remainderOf msg ⟨s.nextOrderId, msg.userId, side⟩ m)
        ++ [.depthUpdated p.asset.market bids asks])
  | cancel {msg : CancelMsg} {s' : EngineState} {asset : Asset} {o : Order}
      {bids asks : List (Nat × Nat)} (hget : (s.book asset).orders[msg.orderId]? = some o)
      (huser : o.userId = msg.userId)
      (hvenue : SameVenue (s.setBook asset ((s.book asset).remove o)) s')
      (h : Pays s s' (unlockPostings o.userId (funds o.side asset) (o.held s.feeSchedule))) :
      Effect builtins s (.cancel msg) s' [.orderCancelled o.orderId o.userId o.remainingQty,
        .depthUpdated asset.market bids asks]
  | reset {msg : ResetMsg} : Effect builtins s (.reset msg) s.reset []

section Messages

variable (builtins : Builtins) (s : EngineState)

inductive Answered (msg : OrderMsg) : EngineState → List Output → Prop
  | refused {s' : EngineState} {reply : Output} (h : Moves s s' [])
      (hdeclined : Declined builtins s msg reply) : Answered msg s' [reply]
  | placed {side : Side} {fs : List (Order × Nat)} {m : Matching} {p : Placement}
      {bids asks : List (Nat × Nat)} (hadmitted : Admitted builtins s msg p.asset side)
      (hlock : p.lock = orderLock builtins s msg p.asset side)
      (h : Placed s msg side (orderPast builtins s msg p.asset side) msg.qty.toInt.toNat fs m
        (remainderOf msg ⟨s.nextOrderId, msg.userId, side⟩ m) p) :
      Answered msg p.state (p.settlement.events.map .execution ++ createdEvents msg p
        ++ [placedReply msg p, .execution (.depthUpdated p.asset.market bids asks)])

theorem handleOrder_answers (hcov : s.Covered) (hv : s.Valid) (msg : OrderMsg) :
    Meets Overflows (handleOrder (u64 true) s builtins msg) fun r =>
      Answered builtins s msg r.1 r.2 := by
  unfold handleOrder
  refine (judgeOrder_spec s builtins msg hcov hv).bind fun verdict hverdict => ?_
  cases verdict with
  | refused s' reply => exact .refused hverdict.1 hverdict.2
  | placed p =>
      obtain ⟨side, fs, m, hadmitted, hlock, hplaced⟩ := hverdict
      refine (depthEvent_venue (u64 true) p.state p.asset).bind ?_
      rintro _ ⟨bids, asks, rfl⟩
      exact .placed hadmitted hlock hplaced

variable {builtins s} in
theorem Answered.effect {msg : OrderMsg} {s' : EngineState} {outputs : List Output}
    (h : Answered builtins s msg s' outputs) :
    Effect builtins s (.order msg) s' (executions outputs) := by
  cases h with
  | @refused _ reply hmoves hdeclined =>
      have hreply : executions [reply] = [] := by
        rcases hdeclined with ⟨⟨error, rfl⟩, _⟩ | ⟨rfl, _⟩
        · rfl
        · rfl
      rw [hreply]
      exact .still (by simp) (by simp) (by simp) hmoves
  | placed hadmitted hlock hplaced =>
      rw [executions_placed msg hplaced.resting]
      exact .order hadmitted hlock hplaced

theorem handleOrder_spec (hcov : s.Covered) (hv : s.Valid) (msg : OrderMsg) :
    Meets Overflows (handleOrder (u64 true) s builtins msg) fun r =>
      Effect builtins s (.order msg) r.1 (executions r.2) :=
  (handleOrder_answers builtins s hcov hv msg).imp fun _ _ h => h.effect

/-- What a resting order holds back is covered. -/
theorem held_le (hcov : s.Covered) {asset : Asset} {id : Nat} {o : Order}
    (hget : (s.book asset).orders[id]? = some o) :
    o.held s.feeSchedule ≤ s.holding ⟨o.userId, funds o.side asset, true⟩ := by
  cases hside : o.side with
  | bid =>
      have hweigh := le_total (fun _ o' => bidNeed s.feeSchedule o.userId o') hget
      have hbook := s.weigh_le_usdNeed o.userId asset
      have hneed := hcov.usd o.userId
      simp only [bidNeed, hside, and_self, if_true] at hweigh
      simp only [Matching.weigh, bidNeed] at hbook
      simp only [Order.held, hside, funds]
      omega
  | ask =>
      have hweigh := le_total (fun _ o' => askNeed o.userId o') hget
      have hneed := hcov.asset o.userId asset
      simp only [askNeed, hside, and_self, if_true] at hweigh
      simp only [assetNeed, Matching.weigh, askNeed] at hneed
      simp only [Order.held, hside, funds]
      omega

theorem refundCancelled_spec (asset : Asset) {o : Order}
    (hle : o.held s.feeSchedule ≤ s.holding ⟨o.userId, funds o.side asset, true⟩) :
    Meets Overflows (refundCancelled (u64 true) s asset (cancelled o)) fun s' =>
      Moves s s' (unlockPostings o.userId (funds o.side asset) (o.held s.feeSchedule)) := by
  unfold refundCancelled
  simp only [cancelled]
  cases hside : o.side with
  | bid =>
      simp only [Order.held, hside, funds] at hle ⊢
      refine meets_bind.mpr (meets_mul rfl fun _ => ?_)
      refine (calcMakerFee_spec _ _).bind ?_
      rintro _ rfl
      refine meets_bind.mpr (meets_add rfl fun _ => ?_)
      exact unlock_moves s o.userId .usd hle
  | ask =>
      simp only [Order.held, hside, funds] at hle ⊢
      exact unlock_moves s o.userId (.stock asset.symbol) hle

theorem handleCancel_spec (hcov : s.Covered) (hv : s.Valid) (msg : CancelMsg) :
    Meets Overflows (handleCancel (u64 true) s msg) fun r =>
      Effect builtins s (.cancel msg) r.1 (executions r.2) := by
  unfold handleCancel
  rcases cancelInBooks_spec s hv.book msg.orderId msg.userId Asset.all with
    ⟨hrun, _⟩ | ⟨asset, o, hget, huser, hrun⟩
  · rw [hrun]
    exact .still (by simp) (by simp) (by simp) (Moves.refl s)
  · rw [hrun]
    have hpays := pays_setBook s asset ((s.book asset).remove o)
    have hle := held_le s hcov hget
    refine (refundCancelled_spec (s.setBook asset ((s.book asset).remove o)) asset
      (by rwa [feeSchedule_setBook, hpays.holding_eq])).bind fun s' hmoves => ?_
    refine (depthEvent_venue (u64 true) s' asset).bind ?_
    rintro _ ⟨bids, asks, rfl⟩
    have hpaid := hpays.trans hmoves.toPays
    rw [feeSchedule_setBook] at hpaid
    exact .cancel hget huser hmoves.venue hpaid

/-- A signup creates missing entries, which read as zero before and after. -/
theorem signup_moves (msg : SignupMsg) : Moves s (handleSignup s msg).1 [] := by
  refine ⟨pays_nil (fun user currency => ?_) fun currency => ?_, ⟨fun a => by cases a <;> rfl, rfl, rfl⟩⟩
  · cases currency with
    | usd =>
        simp only [balance, usd, handleSignup, get_insert]
        split
        · next h => simp [h]
        · rfl
    | stock symbol =>
        simp only [balance, stock, handleSignup, get_insert]
        split
        · next h => simp [h]
        · rfl
  · cases currency with
    | usd =>
        have htotal := total_update s.usdBalance msg.userId (s.usd msg.userId) {} Balance.total rfl
        simp only [supply, handleSignup, usd] at htotal ⊢
        omega
    | stock symbol =>
        have htotal := total_update s.stockBalance msg.userId (s.stockBalance[msg.userId]?.getD ∅) ∅
          (fun m => Balance.total (m[symbol]?.getD {})) (by simp [Balance.total])
        simp only [supply, handleSignup] at htotal ⊢
        omega

/-- Every message has its effect, unless something overflows; nothing underflows. -/
theorem handle_spec (hcov : s.Covered) (hv : s.Valid) (msg : Msg) :
    Meets Overflows (handle (u64 true) builtins s msg) fun r =>
      Effect builtins s msg r.1 (executions r.2) := by
  have hstill : ∀ {msg : Msg}, (∀ r, msg ≠ .reset r) → (∀ r, msg ≠ .onramp r) →
      (∀ r, msg ≠ .deposit r) → Effect builtins s msg s [] :=
    fun h h' h'' => .still h h' h'' (Moves.refl s)
  cases msg with
  | signup msg =>
      exact .still (by simp) (by simp) (by simp) (signup_moves s msg)
  | onramp msg =>
      exact (credit_moves s msg.userId .usd).bind fun s' h => Effect.onramp h
  | deposit msg =>
      exact (credit_moves s msg.userId (.stock msg.symbol)).bind fun s' h => Effect.deposit h
  | balance msg => exact hstill (by simp) (by simp) (by simp)
  | order msg => exact handleOrder_spec builtins s hcov hv msg
  | cancel msg => exact handleCancel_spec builtins s hcov hv msg
  | orderbook msg =>
      have hbook : Meets Overflows (handleGetOrderbook (u64 true) s msg) fun outputs =>
          executions outputs = [] := by
        unfold handleGetOrderbook
        split
        · rfl
        · next ob _ => exact Meets.bind (Orderbook.getState_faults (u64 true) ob) fun _ _ => rfl
      refine hbook.bind fun outputs houtputs => ?_
      refine meets_ok.mpr ?_
      rw [houtputs]
      exact hstill (by simp) (by simp) (by simp)
  | openOrders msg => exact hstill (by simp) (by simp) (by simp)
  | orderStatus msg => exact hstill (by simp) (by simp) (by simp)
  | reset msg => exact .reset

end Messages

end CexRs
