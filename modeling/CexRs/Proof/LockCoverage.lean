import CexRs.Proof.Builds
import CexRs.Proof.Effects

/-!
# Lock coverage

Locked USD covers the resting bids of every user, and the locked asset is exactly what the resting
asks offer. Every effect keeps this, so every run does, and no subtraction of the engine underflows.
-/

namespace CexRs

open FixedWidth OrderedMap Journal EngineState

/-! ### Weights of a changed book -/

theorem weigh_restAll {ob : Orderbook} {resting : Option Order} (w : Order → Nat)
    (hfresh : ∀ o, resting = some o → ob.orders[o.orderId]? = none) :
    Matching.weigh w (ob.restAll resting) = Matching.weigh w ob + resting.elim 0 w := by
  cases resting with
  | none => rfl
  | some o =>
      simp only [Matching.weigh, Orderbook.restAll, Option.elim_some, Orderbook.orders_rest]
      exact total_insert_of_none _ (hfresh o rfl)

theorem weigh_remove {ob : Orderbook} {o : Order} (hget : ob.orders[o.orderId]? = some o)
    (w : Order → Nat) : Matching.weigh w (ob.remove o) + w o = Matching.weigh w ob := by
  simp only [Matching.weigh, Orderbook.orders_remove]
  rw [total_of_get _ hget]
  omega

theorem weigh_of_empty {ob : Orderbook} (h : ob.orders = ∅) (w : Order → Nat) :
    Matching.weigh w ob = 0 := by
  simp [Matching.weigh, h]

/-! ### Placed orders -/

section Placed

variable {s : EngineState} {msg : OrderMsg} {side : Side} {past : Nat → Bool} {qty : Nat}
  {fs : List (Order × Nat)} {m : Matching} {resting : Option Order} {p : Placement}
  (h : Placed s msg side past qty fs m resting p)

include h

/-- Locked USD changes by the order's lock, its refund and what its trades take from their buyers. -/
theorem Placed.usd_locked (user : Nat) :
    (p.state.holding ⟨user, .usd, true⟩ : Int) = s.holding ⟨user, .usd, true⟩
      + (if msg.userId = user ∧ side = .bid then (p.lock : Int) - p.refund else 0)
      - paidBy s.feeSchedule user (Matching.trades ⟨s.nextOrderId, msg.userId, side⟩ fs) := by
  have hposts := h.pays.posts ⟨user, .usd, true⟩
  rw [net_append, net_append, net_lock_locked, net_unlock_locked, net_journal_usd_locked] at hposts
  have hfunds : funds side p.asset = .usd ↔ side = .bid := by
    cases side <;> simp [funds]
  simp only [hfunds] at hposts
  rw [hposts]
  split <;> omega

theorem Placed.stock_locked (user : Nat) (asset : Asset) :
    (p.state.holding ⟨user, .stock asset.symbol, true⟩ : Int)
      = s.holding ⟨user, .stock asset.symbol, true⟩
      + (if asset = p.asset then
          (if msg.userId = user ∧ side = .ask then (p.lock : Int) - p.refund else 0)
            - givenBy user (Matching.trades ⟨s.nextOrderId, msg.userId, side⟩ fs)
        else 0) := by
  have hposts := h.pays.posts ⟨user, .stock asset.symbol, true⟩
  rw [net_append, net_append, net_lock_locked, net_unlock_locked, net_journal_stock_locked] at hposts
  have hsymbol : p.asset.symbol = asset.symbol ↔ asset = p.asset := by
    cases asset <;> cases p.asset <;> simp [Asset.symbol]
  have hfunds : funds side p.asset = .stock asset.symbol ↔ side = .ask ∧ asset = p.asset := by
    cases side with
    | bid => simp [funds]
    | ask => simp [funds, hsymbol]
  simp only [hfunds, hsymbol] at hposts
  rw [hposts]
  by_cases hasset : asset = p.asset
  · simp only [hasset, and_true, if_true]
    split <;> omega
  · simp [hasset]

theorem Placed.fresh (hv : s.Valid) {o : Order} (ho : resting = some o) :
    m.book.orders[o.orderId]? = none := by
  obtain ⟨_, price, _, rfl⟩ := h.executed.leaves o ho
  exact h.executed.get_next hv

/-- What the remainder of an order needs is what it holds back. -/
theorem Placed.bidNeed_resting (user : Nat) :
    resting.elim 0 (bidNeed s.feeSchedule user)
      = if msg.userId = user ∧ side = .bid then heldOf s.feeSchedule resting else 0 := by
  cases hrest : resting with
  | none => simp [heldOf]
  | some o =>
      obtain ⟨_, price, _, rfl⟩ := h.executed.leaves o hrest
      by_cases hcond : msg.userId = user ∧ side = .bid
      · simp [heldOf, Order.held, bidNeed, Orderbook.leftover, hcond]
      · have hcond' : ¬ (side = .bid ∧ msg.userId = user) := fun h => hcond h.symm
        simp [bidNeed, Orderbook.leftover, hcond, hcond']

theorem Placed.askNeed_resting (user : Nat) :
    resting.elim 0 (askNeed user)
      = if msg.userId = user ∧ side = .ask then heldOf s.feeSchedule resting else 0 := by
  cases hrest : resting with
  | none => simp [heldOf]
  | some o =>
      obtain ⟨_, price, _, rfl⟩ := h.executed.leaves o hrest
      by_cases hcond : msg.userId = user ∧ side = .ask
      · simp [heldOf, Order.held, askNeed, Orderbook.leftover, hcond]
      · have hcond' : ¬ (side = .ask ∧ msg.userId = user) := fun h => hcond h.symm
        simp [askNeed, Orderbook.leftover, hcond, hcond']

/-- A bid locks for itself exactly what its remainder needs. -/
theorem Placed.usd_of_bid (hside : side = .bid) (hv : s.Valid) (user : Nat) :
    p.state.holding ⟨user, .usd, true⟩ + s.usdNeed user
      = s.holding ⟨user, .usd, true⟩ + p.state.usdNeed user := by
  subst hside
  have hlocked := h.usd_locked user
  have hneed := usdNeed_of_book h.executed.feeSchedule h.executed.book_other user
  have hbalanced := h.balanced
  have hweigh := Matching.Fills.bidNeed_of_bid rfl h.executed.took.fills
    ((hv.book p.asset).issue s.nextOrderId) s.feeSchedule user
  rw [h.executed.book_self, weigh_restAll _ fun o ho => h.fresh hv ho, h.bidNeed_resting] at hneed
  rw [Matching.paidBy_bid rfl] at hlocked
  simp only [Orderbook.weigh_countTo] at hweigh hneed
  simp only [spentOf] at hbalanced
  by_cases huser : msg.userId = user
  · subst huser
    simp only [and_self, if_true] at hlocked hneed
    omega
  · simp only [huser, false_and, if_false] at hlocked hneed
    omega

/-- An ask takes from the locked USD of the bidders what it pays with, and from the needs of their bids
what it uses up of them. -/
theorem Placed.usd_of_ask (hside : side = .ask) (hv : s.Valid) (user : Nat) :
    p.state.holding ⟨user, .usd, true⟩
        + paidBy s.feeSchedule user (Matching.trades ⟨s.nextOrderId, msg.userId, side⟩ fs)
      = s.holding ⟨user, .usd, true⟩ ∧
    p.state.usdNeed user + Matching.weigh (bidNeed s.feeSchedule user) (s.book p.asset)
      = s.usdNeed user + Matching.weigh (bidNeed s.feeSchedule user) m.book := by
  subst hside
  have hlocked := h.usd_locked user
  have hneed := usdNeed_of_book h.executed.feeSchedule h.executed.book_other user
  rw [h.executed.book_self, weigh_restAll _ fun o ho => h.fresh hv ho, h.bidNeed_resting] at hneed
  simp only [reduceCtorEq, and_false, if_false] at hlocked hneed
  exact ⟨by omega, hneed⟩

theorem Placed.covered (hcov : s.Covered) (hv : s.Valid) : p.state.Covered := by
  have hvi := (hv.book p.asset).issue s.nextOrderId
  have hbalanced := h.balanced
  have hfills := h.executed.took.fills
  constructor
  · intro user
    have hcovered := hcov.usd user
    cases hside : side with
    | bid =>
        have husd := h.usd_of_bid hside hv user
        omega
    | ask =>
        obtain ⟨hlocked, hneed⟩ := h.usd_of_ask hside hv user
        subst hside
        have hweigh := Matching.Fills.bidNeed_le rfl hfills hvi s.feeSchedule user
        simp only [Orderbook.weigh_countTo] at hweigh hneed
        omega
  · intro user asset
    have hlocked := h.stock_locked user asset
    have hcovered := hcov.asset user asset
    by_cases hasset : asset = p.asset
    · subst hasset
      rw [assetNeed] at hcovered ⊢
      rw [h.executed.book_self, weigh_restAll _ fun o ho => h.fresh hv ho, h.askNeed_resting]
      cases hside : side with
      | bid =>
          subst hside
          have hweigh := Matching.Fills.askNeed_eq rfl hfills hvi user
          simp only [Orderbook.weigh_countTo] at hweigh hcovered ⊢
          simp only [reduceCtorEq, and_false, if_false, if_true] at hlocked ⊢
          omega
      | ask =>
          subst hside
          have hweigh := Matching.Fills.askNeed_of_ask rfl hfills hvi user
          rw [Matching.givenBy_ask rfl] at hlocked
          simp only [Orderbook.weigh_countTo] at hweigh hcovered ⊢
          simp only [spentOf, Matching.sum_qty_trades] at hbalanced
          by_cases huser : msg.userId = user
          · subst huser
            simp only [and_self, if_true] at hlocked ⊢
            omega
          · simp only [huser, false_and, if_false, if_true] at hlocked ⊢
            omega
    · rw [if_neg hasset] at hlocked
      rw [assetNeed, h.executed.book_other asset hasset]
      rw [assetNeed] at hcovered
      omega

end Placed

/-! ### Effects and runs -/

/-- Movements that leave locked funds alone keep the cover. -/
theorem EngineState.Covered.of_moves {s s' : EngineState} (hcov : s.Covered)
    {ps : List (Posting Account)} (h : Moves s s' ps) (hps : ∀ x ∈ ps, x.account.locked = false) :
    s'.Covered := by
  have hlocked : ∀ user currency, s'.holding ⟨user, currency, true⟩
      = s.holding ⟨user, currency, true⟩ := by
    intro user currency
    have hposts := h.posts ⟨user, currency, true⟩
    rw [net_eq_zero] at hposts
    · omega
    · rintro x hx heq
      have hfalse := hps x hx
      simp [heq] at hfalse
  constructor
  · intro user
    rw [usdNeed_of_same h.venue, hlocked]
    exact hcov.usd user
  · intro user asset
    rw [assetNeed, h.venue.book, hlocked]
    exact hcov.asset user asset

theorem covered_of_empty {s : EngineState} (horders : ∀ asset, (s.book asset).orders = ∅)
    (hstock : s.stockBalance = ∅) : s.Covered := by
  constructor
  · intro user
    simp [usdNeed, Asset.all, weigh_of_empty (horders _)]
  · intro user asset
    simp [assetNeed, weigh_of_empty (horders asset), holding, balance, stock, hstock]

theorem covered_new (fees : FeeSchedule) : (EngineState.new fees).Covered :=
  covered_of_empty (by rintro (_ | _ | _) <;> rfl) rfl

/-- A cancelled order releases from locked USD what it needed of it. -/
theorem cancel_usd {s s' : EngineState} (hv : s.Valid) {asset : Asset} {id : Nat} {o : Order}
    (hget : (s.book asset).orders[id]? = some o)
    (hvenue : SameVenue (s.setBook asset ((s.book asset).remove o)) s')
    (hpays : Pays s s' (unlockPostings o.userId (funds o.side asset) (o.held s.feeSchedule)))
    (user : Nat) :
    s'.holding ⟨user, .usd, true⟩ + s.usdNeed user
      = s.holding ⟨user, .usd, true⟩ + s'.usdNeed user := by
  have hid := (hv.book asset).orderId_eq hget
  subst hid
  have hother : ∀ asset', asset' ≠ asset → s'.book asset' = s.book asset' := by
    intro asset' hne
    rw [hvenue.book, book_setBook_of_ne _ _ _ hne]
  have hfees : s'.feeSchedule = s.feeSchedule := by
    rw [hvenue.feeSchedule, feeSchedule_setBook]
  have hlocked := hpays.posts ⟨user, .usd, true⟩
  have hneed := usdNeed_of_book hfees hother user
  have hweigh := weigh_remove hget (bidNeed s.feeSchedule user)
  rw [hvenue.book, book_setBook_self] at hneed
  rw [net_unlock_locked] at hlocked
  cases hside : o.side with
  | bid =>
      by_cases huser : o.userId = user
      · simp only [bidNeed, hside, huser, and_self, if_true] at hweigh
        simp only [huser, hside, funds, and_self, if_true, Order.held] at hlocked
        omega
      · simp only [bidNeed, huser, and_false, if_false] at hweigh
        simp only [huser, false_and, if_false] at hlocked
        omega
  | ask =>
      simp only [bidNeed, hside, reduceCtorEq, false_and, if_false] at hweigh
      simp only [hside, funds, reduceCtorEq, and_false, if_false] at hlocked
      omega

/-- A cancelled order releases what it held back and nothing else. -/
theorem covered_cancel {s s' : EngineState} (hcov : s.Covered) (hv : s.Valid) {asset : Asset}
    {id : Nat} {o : Order} (hget : (s.book asset).orders[id]? = some o)
    (hvenue : SameVenue (s.setBook asset ((s.book asset).remove o)) s')
    (hpays : Pays s s' (unlockPostings o.userId (funds o.side asset) (o.held s.feeSchedule))) :
    s'.Covered := by
  have husd := cancel_usd hv hget hvenue hpays
  have hid := (hv.book asset).orderId_eq hget
  subst hid
  constructor
  · intro user
    have hcovered := hcov.usd user
    have husd := husd user
    omega
  · intro user asset'
    have hlocked := hpays.posts ⟨user, .stock asset'.symbol, true⟩
    have hcovered := hcov.asset user asset'
    rw [net_unlock_locked] at hlocked
    rw [assetNeed] at hcovered ⊢
    by_cases hasset : asset' = asset
    · subst hasset
      have hweigh := weigh_remove hget (askNeed user)
      rw [hvenue.book, book_setBook_self]
      cases hside : o.side with
      | bid =>
          simp only [askNeed, hside, reduceCtorEq, false_and, if_false] at hweigh
          simp only [hside, funds, reduceCtorEq, and_false, if_false] at hlocked
          omega
      | ask =>
          by_cases huser : o.userId = user
          · simp only [askNeed, hside, huser, and_self, if_true] at hweigh
            simp only [huser, hside, funds, and_self, if_true, Order.held] at hlocked
            omega
          · simp only [askNeed, huser, and_false, if_false] at hweigh
            simp only [huser, false_and, if_false] at hlocked
            omega
    · have hne : ¬ (o.userId = user ∧ funds o.side asset = .stock asset'.symbol) := by
        rintro ⟨_, hfunds⟩
        revert hasset hfunds
        cases o.side <;> cases asset <;> cases asset' <;> simp [funds, Asset.symbol]
      rw [if_neg hne] at hlocked
      rw [hvenue.book, book_setBook_of_ne _ _ _ hasset]
      omega

theorem Effect.covered {builtins : Builtins} {s s' : EngineState} {msg : Msg}
    {events : List ExecutionEvent} (h : Effect builtins s msg s' events) (hcov : s.Covered)
    (hv : s.Valid) : s'.Covered := by
  cases h with
  | still _ _ _ h => exact hcov.of_moves h (by simp)
  | onramp h => exact hcov.of_moves h (by simp [creditPostings])
  | deposit h => exact hcov.of_moves h (by simp [creditPostings])
  | order _ _ h => exact h.covered hcov hv
  | cancel hget huser hvenue h => exact covered_cancel hcov hv hget hvenue h
  | reset => exact covered_of_empty (by rintro (_ | _ | _) <;> rfl) rfl

theorem Effect.valid {builtins : Builtins} {s s' : EngineState} {msg : Msg}
    {events : List ExecutionEvent} (h : Effect builtins s msg s' events) (hv : s.Valid) :
    s'.Valid := by
  cases h with
  | still _ _ _ h => exact hv.of_same h.venue
  | onramp h => exact hv.of_same h.venue
  | deposit h => exact hv.of_same h.venue
  | order _ _ h => exact h.executed.valid hv
  | cancel hget huser hvenue h => exact (valid_removed hv hget).of_same hvenue
  | reset => exact valid_reset s

inductive Runs (builtins : Builtins) :
    EngineState → List Msg → EngineState → List ExecutionEvent → Prop
  | nil {s : EngineState} (hcov : s.Covered) (hv : s.Valid) : Runs builtins s [] s []
  | cons {s s' s'' : EngineState} {msg : Msg} {msgs : List Msg} {events events' : List ExecutionEvent}
      (hcov : s.Covered) (hv : s.Valid) (heffect : Effect builtins s msg s' events)
      (hruns : Runs builtins s' msgs s'' events') :
      Runs builtins s (msg :: msgs) s'' (events ++ events')

theorem Runs.covered {builtins : Builtins} {s s' : EngineState} {msgs : List Msg}
    {events : List ExecutionEvent} (h : Runs builtins s msgs s' events) : s'.Covered ∧ s'.Valid := by
  induction h with
  | nil hcov hv => exact ⟨hcov, hv⟩
  | cons _ _ _ _ ih => exact ih

/-- A run of messages is a run of effects, unless something overflows. -/
theorem run_runs (builtins : Builtins) (s : EngineState) (hcov : s.Covered) (hv : s.Valid)
    (msgs : List Msg) :
    Meets Overflows (run (u64 true) builtins s msgs) fun r =>
      Runs builtins s msgs r.1 (executions r.2) := by
  induction msgs generalizing s with
  | nil => exact .nil hcov hv
  | cons msg msgs ih =>
      unfold run
      refine (handle_spec builtins s hcov hv msg).bind fun r hr => ?_
      refine (ih r.1 (hr.covered hcov hv) (hr.valid hv)).bind fun r' hr' => ?_
      refine meets_ok.mpr ?_
      rw [executions_append]
      exact .cons hcov hv hr hr'

/-- A run from the empty engine that does not overflow returns, the same in both builds, and was a run
of effects. -/
theorem runs_of_ne_overflow {builtins : Builtins} {fees : FeeSchedule} {msgs : List Msg}
    (hover : run (u64 true) builtins (.new fees) msgs ≠ .error .overflow) :
    ∃ s outputs, (∀ checks, run (u64 checks) builtins (.new fees) msgs = .ok (s, outputs)) ∧
      Runs builtins (.new fees) msgs s (executions outputs) := by
  have hruns := run_runs builtins _ (covered_new fees) (valid_new fees) msgs
  obtain ⟨⟨s, outputs⟩, hrun, hr⟩ := hruns.exists_ok fun f hf hoverflows => by
    rw [hoverflows] at hf
    exact hover hf
  exact ⟨s, outputs, fun checks => run_agrees checks builtins _ msgs _ hrun, hr⟩

/-- **Lock coverage.** A run of messages in which no sum and no product leaves the word returns, so no
subtraction underflows, and in the state it reaches every user's locked USD covers the cost of and the
maker fee on that user's resting bids in the three books, and the locked asset is exactly what that
user's resting asks in its book offer. -/
theorem run_locks_covered (builtins : Builtins) (fees : FeeSchedule) (msgs : List Msg)
    (hover : run (u64 true) builtins (.new fees) msgs ≠ .error .overflow) :
    ∃ s outputs, (∀ checks, run (u64 checks) builtins (.new fees) msgs = .ok (s, outputs)) ∧
      (∀ user, s.usdNeed user ≤ (s.usd user).locked) ∧
      ∀ user asset, (s.asset user asset).locked = s.assetNeed user asset := by
  obtain ⟨s, outputs, hrun, hruns⟩ := runs_of_ne_overflow hover
  have hcov := hruns.covered.1
  exact ⟨s, outputs, hrun, hcov.usd, hcov.asset⟩

/-- A session in which a bid is filled in two parts by asks of another user. -/
def session : List Msg :=
  [.onramp ⟨1, 2000, "q", "a"⟩, .deposit ⟨2, "sol", 10, "q", "b"⟩,
    .order ⟨1, "SOL", "bid", .limit, 100, 10, none, .gtc, "q", "c"⟩,
    .order ⟨2, "SOL", "ask", .limit, 100, 5, none, .gtc, "q", "d"⟩,
    .order ⟨2, "SOL", "ask", .limit, 100, 5, none, .gtc, "q", "e"⟩]

theorem run_locks_covered_session :
    ∃ s outputs, run (u64 false) .noSlippage (.new ⟨10, 20⟩) (session.take 4) = .ok (s, outputs) ∧
      s.usdNeed 1 ≤ (s.usd 1).locked := by
  obtain ⟨s, outputs, hrun, husd, _⟩ := run_locks_covered .noSlippage ⟨10, 20⟩ (session.take 4)
    (ne_overflow_of_overflowed (by decide +kernel))
  exact ⟨s, outputs, hrun false, husd 1⟩

end CexRs
