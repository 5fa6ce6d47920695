import CexRs.Proof.LockCoverage
import CexRs.Proof.OrdersTable

/-!
# What others do to a user

While only others send messages, a user is touched by fills of the resting orders alone, and each fill
is at the order's own price. So what is available never shrinks, the assets that are available or still
bid for stay the same, and the equity that is left if every resting order is filled never falls: the
maker fees on the parts of an order are covered by the fee on the whole.
-/

namespace CexRs

open FixedWidth OrderedMap Journal EngineState

/-! ### What trades bring -/

section Trades

variable (fees : FeeSchedule)

/-- What a user buys over a list of trades, and what a user's sales bring. -/
def boughtBy (user : Nat) (ts : List Trade) : Nat :=
  (ts.map fun t => if t.buyer = user then t.qty else 0).sum

def soldBy (user : Nat) (ts : List Trade) : Nat :=
  (ts.map fun t => if t.seller = user then t.proceeds fees else 0).sum

theorem net_journal_stock_available (asset : Asset) (user : Nat) (symbol : String) (ts : List Trade) :
    net (· = ⟨user, .stock symbol, false⟩) (journal fees asset ts)
      = if asset.symbol = symbol then (boughtBy user ts : Int) else 0 := by
  induction ts with
  | nil => simp [journal, boughtBy]
  | cons t ts ih =>
      simp only [journal, boughtBy, List.flatMap_cons, net_append, List.map_cons,
        List.sum_cons] at ih ⊢
      rw [ih]
      by_cases hsymbol : asset.symbol = symbol
      · by_cases hbuyer : t.buyer = user
        · simp [Trade.postings, hsymbol, hbuyer]
        · simp [Trade.postings, hsymbol, hbuyer]
      · simp [Trade.postings, hsymbol]

/-- User 0 gets the fees on top of it. -/
theorem soldBy_le_net_journal (asset : Asset) (user : Nat) (ts : List Trade) :
    (soldBy fees user ts : Int) ≤ net (· = ⟨user, .usd, false⟩) (journal fees asset ts) := by
  induction ts with
  | nil => simp [journal, soldBy]
  | cons t ts ih =>
      simp only [journal, soldBy, List.flatMap_cons, net_append, List.map_cons,
        List.sum_cons] at ih ⊢
      have htrade : ((if t.seller = user then t.proceeds fees else 0 : Nat) : Int)
          ≤ net (· = ⟨user, .usd, false⟩) (t.postings fees asset) := by
        by_cases htreasury : user = 0
        · subst htreasury
          by_cases hseller : t.seller = 0
          · simp [Trade.postings, hseller]
          · simp [Trade.postings, hseller]
        · by_cases hseller : t.seller = user
          · simp [Trade.postings, hseller, Ne.symm htreasury]
          · simp [Trade.postings, hseller, Ne.symm htreasury]
      rw [Nat.cast_add]
      exact add_le_add htrade ih

theorem net_journal_available_nonneg (asset : Asset) (user : Nat) (currency : Currency)
    (ts : List Trade) : 0 ≤ net (· = ⟨user, currency, false⟩) (journal fees asset ts) := by
  cases currency with
  | usd => exact le_trans (Int.natCast_nonneg _) (soldBy_le_net_journal fees asset user ts)
  | stock symbol =>
      rw [net_journal_stock_available]
      split
      · exact Int.natCast_nonneg _
      · exact le_refl 0

end Trades

/-! ### What resting orders promise -/

def bidQty (user : Nat) (o : Order) : Nat :=
  if o.side = .bid ∧ o.userId = user then o.remainingQty else 0

def askWorth (fees : FeeSchedule) (user : Nat) (o : Order) : Nat :=
  if o.side = .ask ∧ o.userId = user then o.cost - fees.makerFee o.cost else 0

namespace Matching

variable {taker : Taker} {past : Nat → Bool} {m m' : Matching} {fs : List (Order × Nat)}

theorem bidQty_fill (user : Nat) {o : Order} {n : Nat} (hside : o.side = .bid)
    (hn : n ≤ o.remainingQty) :
    leftWeight (bidQty user) (o, n) + (if o.userId = user then n else 0) = bidQty user o := by
  unfold leftWeight bidQty
  by_cases huser : o.userId = user
  · simp only [huser, hside, and_self, if_true, shrinkOrder]
    split <;> omega
  · simp [huser, shrinkOrder]

/-- An ask that is filled brings at least what it loses of its worth. -/
theorem askWorth_fill (fees : FeeSchedule) (user : Nat) {o : Order} {n : Nat} (hside : o.side = .ask)
    (hn : n ≤ o.remainingQty) :
    askWorth fees user o ≤ leftWeight (askWorth fees user) (o, n)
      + (if o.userId = user then o.price * n - fees.makerFee (o.price * n) else 0) := by
  have hsplit : o.cost = o.price * (o.remainingQty - n) + o.price * n := by
    rw [Order.cost, ← Nat.mul_add, Nat.sub_add_cancel hn]
  have hfee : fees.makerFee _ + fees.makerFee _ ≤ fees.makerFee _ :=
    bpsFee_add_le _ (o.price * (o.remainingQty - n)) (o.price * n)
  rw [← hsplit] at hfee
  unfold leftWeight askWorth
  by_cases huser : o.userId = user
  · simp only [huser, hside, and_self, if_true, shrinkOrder, Order.cost]
    rw [Order.cost] at hsplit hfee
    split
    · omega
    · have hall : n = o.remainingQty := by omega
      subst hall
      exact Nat.le_add_left ..
  · simp [huser]

section Ask

variable (hside : taker.side = .ask)

include hside

theorem Fills.bidQty_eq (h : Fills taker past m fs m') (hv : m.book.Valid) (user : Nat) :
    weigh (bidQty user) m'.book + boughtBy user (trades taker fs) = weigh (bidQty user) m.book := by
  have heq := h.weigh_eq hv (bidQty user)
  have hsum : (fs.map (leftWeight (bidQty user))).sum + boughtBy user (trades taker fs)
      = (fs.map fun f => bidQty user f.1).sum := by
    rw [boughtBy, trades, List.map_map, ← List.sum_map_add]
    congr 1
    refine List.map_congr_left ?_
    rintro ⟨o, n⟩ hmem
    obtain ⟨_, hmaker, _, _, hn⟩ := h.mem hv hmem
    rw [hside] at hmaker
    have hfill := bidQty_fill user hmaker hn
    simpa [fillTrade_ask hside] using hfill
  omega

theorem Fills.askWorth_of_ask (h : Fills taker past m fs m') (hv : m.book.Valid) (fees : FeeSchedule)
    (user : Nat) : weigh (askWorth fees user) m'.book = weigh (askWorth fees user) m.book := by
  refine h.weigh_of_zero hv fun o ho => ?_
  rw [hside] at ho
  simp [askWorth, ho, Side.opposite]

theorem soldBy_ask (fees : FeeSchedule) (fs : List (Order × Nat)) {user : Nat}
    (huser : taker.userId ≠ user) : soldBy fees user (trades taker fs) = 0 := by
  simp [soldBy, trades, List.map_map, Function.comp_def, fillTrade_ask hside, huser]

end Ask

section Bid

variable (hside : taker.side = .bid)

include hside

theorem Fills.askWorth_le (h : Fills taker past m fs m') (hv : m.book.Valid) (fees : FeeSchedule)
    (user : Nat) : weigh (askWorth fees user) m.book
      ≤ weigh (askWorth fees user) m'.book + soldBy fees user (trades taker fs) := by
  have heq := h.weigh_eq hv (askWorth fees user)
  have hle : (fs.map fun f => askWorth fees user f.1).sum
      ≤ (fs.map (leftWeight (askWorth fees user))).sum + soldBy fees user (trades taker fs) := by
    rw [soldBy, trades, List.map_map, ← List.sum_map_add]
    apply List.sum_le_sum
    rintro ⟨o, n⟩ hmem
    obtain ⟨_, hmaker, _, _, hn⟩ := h.mem hv hmem
    rw [hside] at hmaker
    have hfill := askWorth_fill fees user hmaker hn
    simpa [fillTrade_bid hside, Trade.proceeds, Trade.value, FeeSchedule.feeOfSeller] using hfill
  omega

theorem Fills.bidQty_of_bid (h : Fills taker past m fs m') (hv : m.book.Valid) (user : Nat) :
    weigh (bidQty user) m'.book = weigh (bidQty user) m.book := by
  refine h.weigh_of_zero hv fun o ho => ?_
  rw [hside] at ho
  simp [bidQty, ho, Side.opposite]

theorem boughtBy_bid (fs : List (Order × Nat)) {user : Nat} (huser : taker.userId ≠ user) :
    boughtBy user (trades taker fs) = 0 := by
  simp [boughtBy, trades, List.map_map, Function.comp_def, fillTrade_bid hside, huser]

end Bid

end Matching

/-! ### States -/

namespace EngineState

variable (s : EngineState) (user : Nat)

def weighAll (w : Order → Nat) : Nat := (Asset.all.map fun asset => Matching.weigh w (s.book asset)).sum

def bidsLeft (asset : Asset) : Nat := Matching.weigh (bidQty user) (s.book asset)

def asksWorth : Nat := s.weighAll (askWorth s.feeSchedule user)

theorem weighAll_of_same {s s' : EngineState} (h : SameVenue s s') (w : Order → Nat) :
    s'.weighAll w = s.weighAll w := by
  simp only [weighAll, h.book]

theorem weighAll_of_book {s s' : EngineState} {asset : Asset}
    (hother : ∀ asset', asset' ≠ asset → s'.book asset' = s.book asset') (w : Order → Nat) :
    s'.weighAll w + Matching.weigh w (s.book asset)
      = s.weighAll w + Matching.weigh w (s'.book asset) := by
  have hsol := hother .sol
  have hbtc := hother .btc
  have heth := hother .eth
  cases asset <;> simp_all [weighAll, Asset.all] <;> omega

end EngineState

/-- What stays true for a user from one state to a later one. The equity is the user's USD, with what
the asks bring, less what the bids need. -/
structure Unharmed (user : Nat) (s s' : EngineState) : Prop where
  available : ∀ currency, (s.balance user currency).available ≤ (s'.balance user currency).available
  assets : ∀ asset, (s'.asset user asset).available + s'.bidsLeft user asset
    = (s.asset user asset).available + s.bidsLeft user asset
  equity : (s.usd user).total + s.asksWorth user + s'.usdNeed user
    ≤ (s'.usd user).total + s'.asksWorth user + s.usdNeed user
  orders : ∀ {asset : Asset} {id : Nat} {o' : Order}, (s'.book asset).orders[id]? = some o' →
    o'.userId = user → ∃ o : Order, (s.book asset).orders[id]? = some o ∧ o'.side = o.side ∧ o'.price = o.price ∧
      o'.userId = o.userId ∧ o'.remainingQty ≤ o.remainingQty

theorem Unharmed.refl (user : Nat) (s : EngineState) : Unharmed user s s :=
  ⟨fun _ => le_rfl, fun _ => rfl, le_rfl, fun hget _ => ⟨_, hget, rfl, rfl, rfl, le_rfl⟩⟩

theorem Unharmed.trans {user : Nat} {s s' s'' : EngineState} (h : Unharmed user s s')
    (h' : Unharmed user s' s'') : Unharmed user s s'' where
  available currency := (h.available currency).trans (h'.available currency)
  assets asset := (h'.assets asset).trans (h.assets asset)
  equity := by
    have hfirst := h.equity
    have hsecond := h'.equity
    omega
  orders hget huser := by
    obtain ⟨o', hget', hside', hprice', huser', hle'⟩ := h'.orders hget huser
    obtain ⟨o, hget, hside, hprice, howner, hle⟩ := h.orders hget' (huser'.symm.trans huser)
    exact ⟨o, hget, hside'.trans hside, hprice'.trans hprice, huser'.trans howner, hle'.trans hle⟩

def Msg.sender : Msg → Option Nat
  | .signup msg => some msg.userId
  | .onramp msg => some msg.userId
  | .deposit msg => some msg.userId
  | .balance msg => some msg.userId
  | .order msg => some msg.userId
  | .cancel msg => some msg.userId
  | .openOrders msg => some msg.userId
  | .orderStatus msg => some msg.userId
  | .orderbook _ => none
  | .reset _ => none

/-- What moves nobody else's funds and leaves the venue alone does no harm. -/
theorem unharmed_of_moves {user : Nat} {s s' : EngineState} {ps : List (Posting Account)}
    (h : Moves s s' ps) (hps : ∀ x ∈ ps, x.account.user ≠ user) : Unharmed user s s' := by
  have hholding : ∀ currency locked,
      s'.holding ⟨user, currency, locked⟩ = s.holding ⟨user, currency, locked⟩ := by
    intro currency locked
    have hposts := h.posts ⟨user, currency, locked⟩
    rw [net_eq_zero _ fun x hx heq => hps x hx (by rw [heq])] at hposts
    omega
  have hbalance : ∀ currency, s'.balance user currency = s.balance user currency := by
    intro currency
    ext1
    · exact hholding currency false
    · exact hholding currency true
  refine ⟨fun currency => (congrArg Balance.available (hbalance currency)).ge, fun asset => ?_, ?_,
    fun hget _ => ?_⟩
  · have hasset : s'.asset user asset = s.asset user asset := hbalance (.stock asset.symbol)
    rw [hasset, bidsLeft, bidsLeft, h.venue.book]
  · have husd : s'.usd user = s.usd user := hbalance .usd
    rw [husd, asksWorth, asksWorth, usdNeed_of_same h.venue, h.venue.feeSchedule,
      weighAll_of_same h.venue]
  · rw [h.venue.book] at hget
    exact ⟨_, hget, rfl, rfl, rfl, le_rfl⟩

/-- Nobody else's order harms a user when it is cancelled. -/
theorem unharmed_of_cancel {user : Nat} {s s' : EngineState} (hv : s.Valid) {asset : Asset} {id : Nat}
    {o : Order} (hget : (s.book asset).orders[id]? = some o) (huser : o.userId ≠ user)
    (hvenue : SameVenue (s.setBook asset ((s.book asset).remove o)) s') {n : Nat}
    (hpays : Pays s s' (unlockPostings o.userId (funds o.side asset) n)) : Unharmed user s s' := by
  have hid := (hv.book asset).orderId_eq hget
  subst hid
  have hholding : ∀ currency locked,
      s'.holding ⟨user, currency, locked⟩ = s.holding ⟨user, currency, locked⟩ := by
    intro currency locked
    have hposts := hpays.posts ⟨user, currency, locked⟩
    rw [net_eq_zero _ (by simp [unlockPostings, huser])] at hposts
    omega
  have hbalance : ∀ currency, s'.balance user currency = s.balance user currency := by
    intro currency
    ext1
    · exact hholding currency false
    · exact hholding currency true
  have hother : ∀ asset', asset' ≠ asset → s'.book asset' = s.book asset' := by
    intro asset' hne
    rw [hvenue.book, book_setBook_of_ne _ _ _ hne]
  have hself : s'.book asset = (s.book asset).remove o := by
    rw [hvenue.book, book_setBook_self]
  have hfees : s'.feeSchedule = s.feeSchedule := by
    rw [hvenue.feeSchedule, feeSchedule_setBook]
  -- the order that goes weighs nothing for the user
  have hweigh : ∀ w : Order → Nat, w o = 0 → ∀ asset',
      Matching.weigh w (s'.book asset') = Matching.weigh w (s.book asset') := by
    intro w hzero asset'
    by_cases hasset : asset' = asset
    · subst hasset
      have hremove := weigh_remove hget w
      rw [hself]
      omega
    · rw [hother asset' hasset]
  refine ⟨fun currency => (congrArg Balance.available (hbalance currency)).ge, fun asset' => ?_, ?_,
    fun {asset' id o'} hget' _ => ?_⟩
  · have hasset : s'.asset user asset' = s.asset user asset' := hbalance (.stock asset'.symbol)
    rw [hasset, bidsLeft, bidsLeft, hweigh _ (by simp [bidQty, huser])]
  · have husd : s'.usd user = s.usd user := hbalance .usd
    have hneed : s'.usdNeed user = s.usdNeed user := by
      simp only [usdNeed, hfees, hweigh _ (show bidNeed s.feeSchedule user o = 0 by
        simp [bidNeed, huser])]
    have hworth : s'.asksWorth user = s.asksWorth user := by
      simp only [asksWorth, weighAll, hfees, hweigh _ (show askWorth s.feeSchedule user o = 0 by
        simp [askWorth, huser])]
    rw [husd, hneed, hworth]
  · by_cases hasset : asset' = asset
    · subst hasset
      rw [hself, Orderbook.orders_remove, get_erase] at hget'
      split at hget'
      · cases hget'
      · exact ⟨o', hget', rfl, rfl, rfl, le_rfl⟩
    · rw [hother asset' hasset] at hget'
      exact ⟨o', hget', rfl, rfl, rfl, le_rfl⟩

section Placed

variable {s : EngineState} {msg : OrderMsg} {side : Side} {past : Nat → Bool} {qty user : Nat}
  {fs : List (Order × Nat)} {m : Matching} {resting : Option Order} {p : Placement}
  (h : Placed s msg side past qty fs m resting p) (huser : msg.userId ≠ user)

include h huser

/-- What an order by another does to the available funds of a user is what its trades do. -/
theorem Placed.available_of_ne (currency : Currency) :
    (p.state.holding ⟨user, currency, false⟩ : Int) = s.holding ⟨user, currency, false⟩
      + net (· = ⟨user, currency, false⟩)
        (journal s.feeSchedule p.asset (Matching.trades ⟨s.nextOrderId, msg.userId, side⟩ fs)) := by
  have hposts := h.pays.posts ⟨user, currency, false⟩
  have hlock : net (· = ⟨user, currency, false⟩)
      (lockPostings msg.userId (funds side p.asset) p.lock) = 0 :=
    net_eq_zero _ (by simp [lockPostings, huser])
  have hunlock : net (· = ⟨user, currency, false⟩)
      (unlockPostings msg.userId (funds side p.asset) p.refund) = 0 :=
    net_eq_zero _ (by simp [unlockPostings, huser])
  rw [net_append, net_append, hlock, hunlock] at hposts
  omega

/-- What the order leaves to rest weighs nothing for the user. -/
theorem Placed.weigh_of_ne (hv : s.Valid) {w : Order → Nat} (hw : ∀ o : Order, o.userId ≠ user → w o = 0) :
    Matching.weigh w (p.state.book p.asset) = Matching.weigh w m.book := by
  rw [h.executed.book_self, weigh_restAll _ fun o ho => h.fresh hv ho]
  cases hrest : resting with
  | none => simp
  | some o =>
      obtain ⟨_, price, _, rfl⟩ := h.executed.leaves o hrest
      have hzero := hw (Orderbook.leftover ⟨s.nextOrderId, msg.userId, side⟩ price m) huser
      rw [Option.elim_some, hzero, Nat.add_zero]

/-- What a user's bids in the market lose is what they buy. -/
theorem Placed.bidsLeft_of_ne (hv : s.Valid) : p.state.bidsLeft user p.asset
      + boughtBy user (Matching.trades ⟨s.nextOrderId, msg.userId, side⟩ fs)
    = s.bidsLeft user p.asset := by
  have hvi := (hv.book p.asset).issue s.nextOrderId
  have hfills := h.executed.took.fills
  have hweigh := h.weigh_of_ne huser hv (w := bidQty user) fun o ho => by simp [bidQty, ho]
  rw [bidsLeft, bidsLeft, hweigh]
  cases hside : side with
  | bid =>
      subst hside
      have hbids := Matching.Fills.bidQty_of_bid rfl hfills hvi user
      have hbought : boughtBy user (Matching.trades ⟨s.nextOrderId, msg.userId, .bid⟩ fs) = 0 :=
        Matching.boughtBy_bid rfl fs huser
      simp only [Orderbook.weigh_countTo] at hbids ⊢
      omega
  | ask =>
      subst hside
      have hbids := Matching.Fills.bidQty_eq rfl hfills hvi user
      simp only [Orderbook.weigh_countTo] at hbids ⊢
      exact hbids

/-- What the user pays and gets over the trades is covered by what the bids needed and the asks were
worth. -/
theorem Placed.equity_of_ne (hv : s.Valid) :
    paidBy s.feeSchedule user (Matching.trades ⟨s.nextOrderId, msg.userId, side⟩ fs)
        + s.asksWorth user + p.state.usdNeed user
      ≤ soldBy s.feeSchedule user (Matching.trades ⟨s.nextOrderId, msg.userId, side⟩ fs)
        + p.state.asksWorth user + s.usdNeed user := by
  have hvi := (hv.book p.asset).issue s.nextOrderId
  have hfills := h.executed.took.fills
  have hneed := usdNeed_of_book h.executed.feeSchedule h.executed.book_other user
  have hworth := weighAll_of_book h.executed.book_other (askWorth s.feeSchedule user)
  rw [h.weigh_of_ne huser hv fun o ho => by simp [bidNeed, ho]] at hneed
  rw [h.weigh_of_ne huser hv fun o ho => by simp [askWorth, ho]] at hworth
  rw [asksWorth, asksWorth, h.executed.feeSchedule]
  cases hside : side with
  | bid =>
      subst hside
      have hbids := Matching.Fills.bidNeed_of_bid rfl hfills hvi s.feeSchedule user
      have hasks := Matching.Fills.askWorth_le rfl hfills hvi s.feeSchedule user
      rw [Matching.paidBy_bid rfl, if_neg huser]
      simp only [Orderbook.weigh_countTo] at hbids hasks hneed hworth
      omega
  | ask =>
      subst hside
      have hbids := Matching.Fills.bidNeed_le rfl hfills hvi s.feeSchedule user
      have hasks := Matching.Fills.askWorth_of_ask rfl hfills hvi s.feeSchedule user
      rw [Matching.soldBy_ask rfl s.feeSchedule fs huser]
      simp only [Orderbook.weigh_countTo] at hbids hasks hneed hworth
      omega

theorem Placed.unharmed (hv : s.Valid) : Unharmed user s p.state := by
  refine ⟨fun currency => ?_, fun asset => ?_, ?_, fun {asset id o'} hget howner => ?_⟩
  · have havailable := h.available_of_ne huser currency
    have hnonneg := net_journal_available_nonneg s.feeSchedule p.asset user currency
      (Matching.trades ⟨s.nextOrderId, msg.userId, side⟩ fs)
    rw [available_eq, available_eq]
    omega
  · have havailable := h.available_of_ne huser (.stock asset.symbol)
    rw [net_journal_stock_available] at havailable
    have hholding : ∀ s : EngineState,
        (s.asset user asset).available = s.holding ⟨user, .stock asset.symbol, false⟩ := fun _ => rfl
    rw [hholding, hholding]
    by_cases hasset : asset = p.asset
    · subst hasset
      have hbids := h.bidsLeft_of_ne huser hv
      rw [if_pos rfl] at havailable
      omega
    · have hsymbol : p.asset.symbol ≠ asset.symbol := by
        revert hasset
        cases asset <;> cases p.asset <;> simp [Asset.symbol]
      rw [if_neg hsymbol] at havailable
      rw [bidsLeft, bidsLeft, h.executed.book_other asset hasset]
      omega
  · have htotal : ∀ s : EngineState, (s.usd user).total
        = s.holding ⟨user, .usd, false⟩ + s.holding ⟨user, .usd, true⟩ := fun _ => rfl
    have havailable := h.available_of_ne huser .usd
    have hsold := soldBy_le_net_journal s.feeSchedule p.asset user
      (Matching.trades ⟨s.nextOrderId, msg.userId, side⟩ fs)
    have hlocked := h.usd_locked user
    have hequity := h.equity_of_ne huser hv
    rw [if_neg fun h => huser h.1] at hlocked
    rw [htotal, htotal]
    omega
  · rcases h.executed.rested (hv.book p.asset) hget with ⟨o, hget', hrest⟩ | ⟨_, hrest, _⟩
    · exact ⟨o, hget', hrest⟩
    · obtain ⟨_, price, _, rfl⟩ := h.executed.leaves o' hrest
      exact absurd howner huser

end Placed

/-! ### Effects and runs -/

/-- No message of another but a reset harms a user. -/
theorem Effect.unharmed {builtins : Builtins} {s s' : EngineState} {msg : Msg}
    {events : List ExecutionEvent} (h : Effect builtins s msg s' events) (hv : s.Valid) {user : Nat}
    (huser : msg.sender ≠ some user) (hreset : ∀ r, msg ≠ .reset r) : Unharmed user s s' := by
  have hother : ∀ {id}, msg.sender = some id → id ≠ user := by
    rintro id hsender rfl
    exact huser hsender
  cases h with
  | still _ _ _ h => exact unharmed_of_moves h (by simp)
  | onramp h => exact unharmed_of_moves h (by simp [creditPostings, hother rfl])
  | deposit h => exact unharmed_of_moves h (by simp [creditPostings, hother rfl])
  | order _ _ h => exact h.unharmed (hother rfl) hv
  | cancel hget howner hvenue h =>
      exact unharmed_of_cancel hv hget (howner.trans_ne (hother rfl)) hvenue h
  | reset => exact absurd rfl (hreset _)

theorem Runs.unharmed {builtins : Builtins} {s s' : EngineState} {msgs : List Msg}
    {events : List ExecutionEvent} (h : Runs builtins s msgs s' events) {user : Nat}
    (hothers : ∀ msg ∈ msgs, msg.sender ≠ some user ∧ ∀ r, msg ≠ .reset r) :
    Unharmed user s s' := by
  induction h with
  | nil => exact .refl user _
  | cons hcov hv heffect _ ih =>
      have hmsg := hothers _ List.mem_cons_self
      exact (heffect.unharmed hv hmsg.1 hmsg.2).trans
        (ih fun msg hmem => hothers msg (List.mem_cons_of_mem _ hmem))

/-- **Others do no harm.** From any state that the engine comes to, and over any run of messages by
others, resets apart, in which nothing leaves the word: a user's available balances never shrink; the
resting orders are ones from before, at the same prices and with no more left; of each asset, what is
available and what is still bid for add up to the same; and the USD, with what the asks bring and less
what the bids need, does not fall. -/
theorem run_others_harmless (builtins : Builtins) (fees : FeeSchedule) (before others : List Msg)
    (user : Nat) (hothers : ∀ msg ∈ others, msg.sender ≠ some user ∧ ∀ r, msg ≠ .reset r)
    (hover : run (u64 true) builtins (.new fees) (before ++ others) ≠ .error .overflow) :
    ∃ s outputs s' outputs', (∀ checks, run (u64 checks) builtins (.new fees) before = .ok (s, outputs) ∧
      run (u64 checks) builtins s others = .ok (s', outputs')) ∧ Unharmed user s s' := by
  obtain ⟨s', outputs, hrun, -⟩ := runs_of_ne_overflow hover
  obtain ⟨s, outputs₁, outputs₂, hbefore, hafter, -⟩ := run_append (hrun true)
  have hover' : run (u64 true) builtins (.new fees) before ≠ .error .overflow := by simp [hbefore]
  obtain ⟨s₁, outputs₃, hrun', hruns⟩ := runs_of_ne_overflow hover'
  cases (hrun' true).symm.trans hbefore
  have hmeets := run_runs builtins s hruns.covered.1 hruns.covered.2 others
  rw [hafter] at hmeets
  exact ⟨s, outputs₁, s', outputs₂,
    fun checks => ⟨hrun' checks, run_agrees checks builtins s others _ hafter⟩,
    (meets_ok.mp hmeets).unharmed hothers⟩

/-- The bid of the session is half filled by an ask of the other user. -/
theorem run_others_harmless_session :
    ∃ s s', Unharmed 1 s s' ∧ s.bidsLeft 1 .sol = 10 ∧ s'.bidsLeft 1 .sol = 5 ∧
      (s'.asset 1 .sol).available = 5 := by
  obtain ⟨s, outputs, s', outputs', hruns, hunharmed⟩ := run_others_harmless .noSlippage ⟨10, 20⟩
    (session.take 3) [session[3]] 1 (by simp [session, Msg.sender])
    (ne_overflow_of_overflowed (by decide +kernel))
  have htest : returns (fun r => returns (fun r' => decide (r.1.bidsLeft 1 .sol = 10 ∧
      r'.1.bidsLeft 1 .sol = 5 ∧ (r'.1.asset 1 .sol).available = 5))
      (run (u64 false) .noSlippage r.1 [session[3]]))
      (run (u64 false) .noSlippage (.new ⟨10, 20⟩) (session.take 3)) = true := by
    decide +kernel
  rw [(hruns false).1, returns, (hruns false).2] at htest
  exact ⟨s, s', hunharmed, of_decide_eq_true htest⟩

end CexRs
