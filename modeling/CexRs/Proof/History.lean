import CexRs.Lib.Fold
import CexRs.OrderLookup
import CexRs.Proof.OrdersTable
import CexRs.Proof.TradeEvents

/-!
# The history of an order

The trades that are listed with an order account for what has been filled of it. As a taker it trades
before it has a row, and the row that it gets shows what was left; as a maker it loses to each trade what
the trade says, since no match uses it twice. So the sum is right after every event, wherever the worker
stands, and not only between messages.
-/

namespace CexRs

open FixedWidth OrderedMap EngineState Fold

/-! ### Rows of trades -/

def tradeRow : ExecutionEvent → Option TradeRow
  | .tradeExecuted makerOrderId takerOrderId buyerId sellerId market price qty quoteAmount _ _ _ _ =>
      some
        { makerOrderId := asI64 makerOrderId, takerOrderId := asI64 takerOrderId,
          buyerId := asI64 buyerId, sellerId := asI64 sellerId, market, price := asI64 price,
          qty := asI64 qty, quoteAmount := asI64 quoteAmount }
  | _ => none

theorem trades_statements {A : Arith} {uuid : String} {event : ExecutionEvent} {sts : List Statement}
    (h : statements A uuid event = .ok sts) (db : Tables) :
    (sts.foldl Statement.execute db).trades = db.trades ++ (tradeRow event).toList := by
  have hupdate : ∀ (db : Tables) (id remainingQty : Int) (status : String),
      ((Statement.updateOrder id remainingQty status).execute db).trades = db.trades := by
    intro db id remainingQty status
    simp only [Statement.execute]
    split <;> rfl
  cases event with
  | orderCreated =>
      cases h
      exact (List.append_nil _).symm
  | orderCancelled =>
      cases h
      exact (hupdate ..).trans (List.append_nil _).symm
  | depthUpdated =>
      cases h
      exact (List.append_nil _).symm
  | fundingExecuted =>
      obtain ⟨clearing, _, h⟩ := bind_ok h
      cases h
      exact (List.append_nil _).symm
  | tradeExecuted maker taker buyer seller market price qty quote remaining _ buyerFee sellerFee =>
      obtain ⟨debit, _, h⟩ := bind_ok h
      obtain ⟨buyerUsd, _, h⟩ := bind_ok h
      obtain ⟨sellerBase, _, h⟩ := bind_ok h
      obtain ⟨totalFee, _, h⟩ := bind_ok h
      cases h
      have hfees : ∀ (db : Tables) (entries : List LedgerEntry),
          ((if 0 < asI64 totalFee then [Statement.insertEntries entries] else []).foldl
            Statement.execute db).trades = db.trades := by
        intro db entries
        split <;> rfl
      rw [List.foldl_append, hfees]
      exact hupdate ..

structure History where
  rows : OrderRows
  trades : List TradeRow

namespace History

def empty : History := ⟨∅, []⟩

def record (h : History) (event : ExecutionEvent) : History :=
  ⟨orderRows h.rows event, h.trades ++ (tradeRow event).toList⟩

def recorded (events : List ExecutionEvent) : History := events.foldl record empty

theorem foldl_record (h : History) (events : List ExecutionEvent) :
    events.foldl record h = ⟨events.foldl orderRows h.rows, h.trades ++ events.filterMap tradeRow⟩ := by
  induction events generalizing h with
  | nil => simp
  | cons event events ih =>
      rw [List.foldl_cons, ih]
      cases hrow : tradeRow event with
      | none => simp [record, hrow]
      | some t => simp [record, hrow]

end History

theorem history_applyEvents {A : Arith} {events : List (String × ExecutionEvent)} {db db' : Tables}
    (h : applyEvents A db events = .ok db') :
    (⟨db'.orders, db'.trades⟩ : History)
      = (events.map Prod.snd).foldl History.record ⟨db.orders, db.trades⟩ := by
  induction events generalizing db with
  | nil =>
      cases h
      rfl
  | cons e events ih =>
      obtain ⟨uuid, event⟩ := e
      obtain ⟨sts, hsts, h⟩ := bind_ok h
      rw [ih h, orders_statements hsts, trades_statements hsts]
      rfl

/-! ### Orders and their trades -/

/-- A trade lists an order as its maker or as its taker, as the lookup asks for. -/
abbrev TradeRow.Names (t : TradeRow) (id : Int) : Prop := t.makerOrderId = id ∨ t.takerOrderId = id

/-- A trade of an order: in its market, with its user on its side, and at no price that is worse. -/
structure OrderRow.Owns (row : OrderRow) (t : TradeRow) : Prop where
  market : t.market = row.market
  bid : row.side = "bid" → t.buyerId = row.userId ∧ t.price ≤ row.price
  ask : row.side = "ask" → t.sellerId = row.userId ∧ row.price ≤ t.price

theorem OrderRow.Owns.update {row : OrderRow} {t : TradeRow} (h : row.Owns t) (remainingQty : Int)
    (status : String) : { row with remainingQty, status }.Owns t := ⟨h.market, h.bid, h.ask⟩

structure OrderRow.AddsUp (row : OrderRow) (trades : List TradeRow) : Prop where
  sum : row.originalQty
    = row.remainingQty + ((trades.filter fun t => t.Names row.id).map TradeRow.qty).sum
  own : ∀ t ∈ trades, t.Names row.id → row.Owns t

def History.AddsUp (h : History) : Prop :=
  ∀ (i : Int) (row : OrderRow), h.rows[i]? = some row → row.id = i ∧ row.AddsUp h.trades

section AddsUp

variable {row : OrderRow} {trades : List TradeRow} {t : TradeRow}

/-- A trade that does not name the order leaves it alone. -/
theorem OrderRow.AddsUp.other (h : row.AddsUp trades) (hother : ¬ t.Names row.id) :
    row.AddsUp (trades ++ [t]) := by
  constructor
  · rw [List.filter_append, List.filter_cons_of_neg (by simpa using hother), List.filter_nil,
      List.append_nil]
    exact h.sum
  · intro t' hmem hnames
    rcases List.mem_append.mp hmem with hold | hnew
    · exact h.own t' hold hnames
    · cases List.mem_singleton.mp hnew
      exact absurd hnames hother

/-- A trade that names it takes away what it says. -/
theorem OrderRow.AddsUp.fill (h : row.AddsUp trades) {remainingQty : Int} {status : String}
    (hnames : t.Names row.id) (hremaining : row.remainingQty = remainingQty + t.qty) (howns : row.Owns t) :
    { row with remainingQty, status }.AddsUp (trades ++ [t]) := by
  constructor
  · have hsum := h.sum
    rw [List.filter_append, List.filter_cons_of_pos (by simpa using hnames), List.filter_nil,
      List.map_append, List.sum_append]
    simp only [List.map_cons, List.map_nil, List.sum_singleton]
    omega
  · intro t' hmem hnames'
    have howns' : row.Owns t' := by
      rcases List.mem_append.mp hmem with hold | hnew
      · exact h.own t' hold hnames'
      · cases List.mem_singleton.mp hnew
        exact howns
    exact howns'.update ..

end AddsUp

/-! ### One event -/

section Record

variable {h : History} {ob : Orderbook} {asset : Asset} {taker : Taker} {f : Order × Nat}
  {event : ExecutionEvent}

structure TradeRow.OfFill (t : TradeRow) (asset : Asset) (taker : Taker) (f : Order × Nat) : Prop where
  makerOrderId : t.makerOrderId = asI64 f.1.orderId
  takerOrderId : t.takerOrderId = asI64 taker.orderId
  market : t.market = asset.market
  price : t.price = asI64 f.1.price
  qty : t.qty = asI64 f.2
  bid : taker.side = .bid → t.buyerId = asI64 taker.userId ∧ t.sellerId = asI64 f.1.userId
  ask : taker.side = .ask → t.buyerId = asI64 f.1.userId ∧ t.sellerId = asI64 taker.userId

theorem tradeRow_reports (hreport : (Matching.fillTrade taker f).Reports ob asset event) :
    ∃ t, tradeRow event = some t ∧ t.OfFill asset taker f := by
  obtain ⟨quoteAmount, buyerFee, sellerFee, rfl⟩ := hreport
  refine ⟨_, rfl, ?_⟩
  cases hside : taker.side with
  | bid =>
      rw [Matching.fillTrade_bid hside]
      exact ⟨rfl, rfl, rfl, rfl, rfl, fun _ => ⟨rfl, rfl⟩, fun h => by simp [hside] at h⟩
  | ask =>
      rw [Matching.fillTrade_ask hside]
      exact ⟨rfl, rfl, rfl, rfl, rfl, fun h => by simp [hside] at h, fun _ => ⟨rfl, rfl⟩⟩

/-- The row of a maker owns the trade. -/
theorem OrderRow.Shows.owns {row : OrderRow} {t : TradeRow} (hshows : row.Shows asset f.1)
    (hfill : t.OfFill asset taker f) (hside : f.1.side = taker.side.opposite) : row.Owns t where
  market := hfill.market.trans hshows.market.symm
  bid hbid := by
    rw [hshows.side, hside] at hbid
    cases htaker : taker.side with
    | bid => simp [htaker, Side.opposite, sideName] at hbid
    | ask =>
        rw [hshows.userId, hshows.price, hfill.price]
        exact ⟨(hfill.ask htaker).1, le_refl _⟩
  ask hask := by
    rw [hshows.side, hside] at hask
    cases htaker : taker.side with
    | ask => simp [htaker, Side.opposite, sideName] at hask
    | bid =>
        rw [hshows.userId, hshows.price, hfill.price]
        exact ⟨(hfill.bid htaker).2, le_refl _⟩

theorem History.AddsUp.record_fill (hadds : h.AddsUp)
    (hreport : (Matching.fillTrade taker f).Reports ob asset event) {row : OrderRow}
    (hrow : h.rows[asI64 f.1.orderId]? = some row) (hshows : row.Shows asset f.1)
    (hleft : f.2 + ob.unfilled f.1.orderId = f.1.remainingQty) (hqty : f.1.remainingQty < 2 ^ 63)
    (hside : f.1.side = taker.side.opposite) (hnew : h.rows[asI64 taker.orderId]? = none) :
    (h.record event).AddsUp := by
  obtain ⟨t, ht, hfill⟩ := tradeRow_reports hreport
  intro i row' hget
  simp only [record, ht, Option.toList_some] at hget ⊢
  rw [orderRows_trade hreport] at hget
  split at hget
  · next hi =>
    subst hi
    rw [hrow] at hget
    cases hget
    obtain ⟨hid, hadd⟩ := hadds _ row hrow
    refine ⟨hid, hadd.fill (.inl (hfill.makerOrderId.trans hid.symm)) ?_ (hshows.owns hfill hside)⟩
    rw [hshows.remainingQty, hfill.qty, asI64_of_lt hqty, asI64_of_lt (by omega),
      asI64_of_lt (by omega)]
    omega
  · next hi =>
    obtain ⟨hid, hadd⟩ := hadds i row' hget
    refine ⟨hid, hadd.other ?_⟩
    rintro (hmaker | htaker)
    · exact hi (hfill.makerOrderId.symm.trans (hmaker.trans hid))
    · rw [← hid, ← htaker, hfill.takerOrderId, hnew] at hget
      cases hget

/-- An order gets its row with what its trades have left of it. -/
theorem History.AddsUp.record_created (hadds : h.AddsUp) {row : OrderRow}
    (hrows : orderRows h.rows event = upsertRow h.rows row) (htrade : tradeRow event = none)
    (hnew : h.rows[row.id]? = none) (hadd : row.AddsUp h.trades) : (h.record event).AddsUp := by
  intro i row' hget
  simp only [record, hrows, htrade, Option.toList_none, List.append_nil] at hget ⊢
  rw [get_upsertRow _ hnew] at hget
  split at hget
  · next hi =>
    cases hget
    exact ⟨hi, hadd⟩
  · exact hadds i row' hget

/-- A cancellation changes the status of a row, and no quantity. -/
theorem History.AddsUp.record_cancelled (hadds : h.AddsUp) {id userId remainingQty : Nat}
    (hrow : ∀ row : OrderRow, h.rows[asI64 id]? = some row → row.remainingQty = asI64 remainingQty) :
    (h.record (.orderCancelled id userId remainingQty)).AddsUp := by
  intro i row' hget
  simp only [record, orderRows, tradeRow, Option.toList_none, List.append_nil] at hget ⊢
  rw [get_setRow] at hget
  split at hget
  · next hi =>
    subst hi
    obtain ⟨row, hbefore, rfl⟩ := Option.map_eq_some_iff.mp hget
    obtain ⟨hid, hsum, hown⟩ := hadds _ row hbefore
    refine ⟨hid, ?_, fun t hmem hnames => ?_⟩
    · rw [hrow row hbefore] at hsum
      exact hsum
    · exact (hown t hmem hnames).update ..
  · exact hadds i row' hget

end Record

/-! ### One match -/

section Match

variable {h : History} {ob : Orderbook} {asset : Asset} {taker : Taker} {fs : List (Order × Nat)}
  {events : List ExecutionEvent}

structure Met (rows : OrderRows) (ob : Orderbook) (asset : Asset) (taker : Taker) (f : Order × Nat) :
    Prop where
  row : ∃ row, rows[asI64 f.1.orderId]? = some row ∧ row.Shows asset f.1
  left : f.2 + ob.unfilled f.1.orderId = f.1.remainingQty
  small : f.1.remainingQty < 2 ^ 63
  side : f.1.side = taker.side.opposite

theorem throughout_fills
    (hreports : List.Forall₂ (Trade.Reports ob asset) (Matching.trades taker fs) events)
    (hnodup : (fs.map fun f => f.1.orderId).Nodup) (hmet : ∀ f ∈ fs, Met h.rows ob asset taker f)
    (hnew : h.rows[asI64 taker.orderId]? = none) (hadds : h.AddsUp) :
    Throughout History.record History.AddsUp h events := by
  induction fs generalizing events h with
  | nil =>
      cases hreports
      exact hadds
  | cons f fs ih =>
      cases hreports with
      | cons hreport hreports =>
          rw [List.map_cons, List.nodup_cons] at hnodup
          obtain ⟨⟨row, hrow, hshows⟩, hleft, hsmall, hside⟩ := hmet f (List.mem_cons_self ..)
          refine ⟨hadds, ih hreports hnodup.2 ?_ ?_
            (hadds.record_fill hreport hrow hshows hleft hsmall hside hnew)⟩
          · -- the match uses none of the later makers now
            intro f' hf'
            have hmet' := hmet f' (List.mem_cons_of_mem _ hf')
            have hother : asI64 f.1.orderId ≠ asI64 f'.1.orderId := by
              intro heq
              exact hnodup.1 (List.mem_map.mpr ⟨f', hf', (asI64_inj.mp heq).symm⟩)
            refine ⟨?_, hmet'.left, hmet'.small, hmet'.side⟩
            rw [History.record, orderRows_trade hreport, if_neg hother]
            exact hmet'.row
          · rw [History.record, orderRows_trade hreport, hnew]
            split <;> rfl

theorem rows_of_reports
    (hreports : List.Forall₂ (Trade.Reports ob asset) (Matching.trades taker fs) events) :
    List.Forall₂ (fun f t => TradeRow.OfFill t asset taker f) fs (events.filterMap tradeRow) := by
  induction fs generalizing events with
  | nil =>
      cases hreports
      exact .nil
  | cons f fs ih =>
      cases hreports with
      | cons hreport hreports =>
          obtain ⟨t, ht, hfill⟩ := tradeRow_reports hreport
          rw [List.filterMap_cons_some ht]
          exact .cons hfill (ih hreports)

/-- The trades that an order makes as a taker take away their quantities. -/
theorem OrderRow.AddsUp.fills {row : OrderRow} {trades ts : List TradeRow} (h : row.AddsUp trades)
    (hrows : List.Forall₂ (fun f t => TradeRow.OfFill t asset taker f) fs ts)
    (hid : row.id = asI64 taker.orderId) (hsmall : ∀ f ∈ fs, f.2 < 2 ^ 63)
    (howns : ∀ f ∈ fs, ∀ t, TradeRow.OfFill t asset taker f → row.Owns t) {remainingQty : Int}
    (hremaining : row.remainingQty = remainingQty + (fs.map Prod.snd).sum) (status : String) :
    { row with remainingQty, status }.AddsUp (trades ++ ts) := by
  induction hrows generalizing row trades with
  | nil =>
      rw [List.append_nil]
      simp only [List.map_nil, List.sum_nil] at hremaining
      refine ⟨?_, fun t hmem hnames => (h.own t hmem hnames).update ..⟩
      have hsum := h.sum
      simp only at hsum ⊢
      omega
  | @cons f t fs ts hfill hrows ih =>
      rw [List.map_cons, List.sum_cons] at hremaining
      have hqty : t.qty = f.2 := hfill.qty.trans (asI64_of_lt (hsmall f (List.mem_cons_self ..)))
      have hfirst : { row with remainingQty := row.remainingQty - t.qty, status }.AddsUp (trades ++ [t]) :=
        h.fill (.inr (hfill.takerOrderId.trans hid.symm)) (by omega)
          (howns f (List.mem_cons_self ..) t hfill)
      rw [List.append_cons]
      apply ih hfirst hid fun f' hf' => hsmall f' (List.mem_cons_of_mem _ hf')
      · intro f' hf' t' hfill'
        exact (howns f' (List.mem_cons_of_mem _ hf') t' hfill').update ..
      · simp only
        omega

end Match

/-! ### One message -/

section Step

variable {A : Arith} {builtins : Builtins} {s s' : EngineState} {h : History} {rested : Nat → Prop}
  {cancelled : Nat → Nat → Prop}

def Order.Small (o : Order) : Prop := o.price < 2 ^ 63 ∧ o.remainingQty < 2 ^ 63

def History.Unnamed (h : History) (id : Nat) : Prop := ∀ t ∈ h.trades, ¬ t.Names (asI64 id)

theorem History.record_depth (h : History) (market : String) (bids asks : List (Nat × Nat)) :
    h.record (.depthUpdated market bids asks) = h := by
  simp [record, orderRows, tradeRow]

section Order

variable {msg : OrderMsg} {side : Side} {found : Bool} {fs : List (Order × Nat)} {m : Matching}
  {p : Placement}

/-- An order that rests owns the trades that it has made as a taker. -/
theorem Enters.owns (henters : Enters A builtins s msg side found fs m p) (hv : s.Valid)
    (hsmall : AllResting Order.Small s) {o : Order}
    (hrest : remainderOf msg ⟨s.nextOrderId, msg.userId, side⟩ m = some o) {f : Order × Nat}
    (hf : f ∈ fs) {t : TradeRow} (hfill : t.OfFill p.asset ⟨s.nextOrderId, msg.userId, side⟩ f) :
    (newRow msg p.asset o).Owns t := by
  obtain ⟨hlimit, _, rfl⟩ := remainderOf_some hrest
  obtain ⟨hget, _, hcross, _, _⟩ :=
    henters.filled.executed.took.fills.mem ((hv.book p.asset).issue _) hf
  have hprice : f.1.price < 2 ^ 63 := (hsmall _ _ _ hget).1
  have hbound := msg.price.toInt_lt
  have hside := eq_sideName henters.wellFormed.side
  simp only [orderPast, hlimit] at hcross
  refine ⟨hfill.market, fun hbid => ?_, fun hask => ?_⟩
  · cases side with
    | ask => simp [newRow, hside, sideName] at hbid
    | bid =>
        simp only [Orderbook.pastLimit, decide_eq_false_iff_not] at hcross
        refine ⟨(hfill.bid rfl).1, ?_⟩
        rw [hfill.price, asI64_of_lt hprice]
        simp only [newRow, Orderbook.leftover]
        rw [asI64_of_lt (by omega)]
        omega
  · cases side with
    | bid => simp [newRow, hside, sideName] at hask
    | ask =>
        simp only [Orderbook.pastLimit, decide_eq_false_iff_not] at hcross
        refine ⟨(hfill.ask rfl).2, ?_⟩
        rw [hfill.price, asI64_of_lt hprice]
        simp only [newRow, Orderbook.leftover]
        rw [asI64_of_lt (by omega)]
        omega

/-- The row that an order gets accounts for the trades that it has made as a taker. -/
theorem Enters.newRow_addsUp (henters : Enters A builtins s msg side found fs m p) (hv : s.Valid)
    (hsmall : AllResting Order.Small s) (hunnamed : h.Unnamed s.nextOrderId) {o : Order}
    (hrest : remainderOf msg ⟨s.nextOrderId, msg.userId, side⟩ m = some o) :
    (newRow msg p.asset o).AddsUp (h.trades ++ p.settlement.events.filterMap tradeRow) := by
  obtain ⟨_, _, ho⟩ := remainderOf_some hrest
  have hfills := henters.filled.executed.took.fills
  have hremaining := hfills.remaining
  have hbound := msg.qty.toInt_lt
  simp only at hremaining
  -- as if it had its row before its trades, with all of its quantity
  have hbefore : { newRow msg p.asset o with remainingQty := asI64 msg.qty.toInt.toNat }.AddsUp h.trades := by
    have hnone : (h.trades.filter fun t => t.Names (newRow msg p.asset o).id) = [] := by
      apply List.filter_eq_nil_iff.mpr
      intro t ht
      rw [decide_eq_true_eq, ho]
      exact hunnamed t ht
    refine ⟨?_, fun t ht hnames => ?_⟩
    · simp only [hnone]
      simp [newRow]
    · rw [ho] at hnames
      exact absurd hnames (hunnamed t ht)
  refine hbefore.fills (rows_of_reports henters.filled.reports) (by rw [ho]; rfl) ?_ ?_ ?_ "open"
  · intro f hf
    obtain ⟨hget, _, _, _, hle⟩ := hfills.mem ((hv.book p.asset).issue _) hf
    exact lt_of_le_of_lt hle (hsmall _ _ _ hget).2
  · intro f hf t hfill
    exact (henters.owns hv hsmall hrest hf hfill).update ..
  · rw [ho]
    simp only [Orderbook.leftover]
    rw [asI64_of_lt (by omega), asI64_of_lt (by omega)]
    omega

theorem Enters.throughout (henters : Enters A builtins s msg side found fs m p) (hv : s.Valid)
    (hmirrors : Mirrors s h.rows rested cancelled) (hsmall : AllResting Order.Small s)
    (hunnamed : h.Unnamed s.nextOrderId) (hadds : h.AddsUp) (bids asks : List (Nat × Nat)) :
    Throughout History.record History.AddsUp h (p.settlement.events
      ++ restingEvents msg p.asset (remainderOf msg ⟨s.nextOrderId, msg.userId, side⟩ m)
      ++ [.depthUpdated p.asset.market bids asks]) := by
  have hexec := henters.filled.executed
  have hfills : Throughout History.record History.AddsUp h p.settlement.events := by
    apply throughout_fills henters.filled.reports
      (hexec.took.fills.nodup_makers ((hv.book p.asset).issue _)) _ hmirrors.new_row hadds
    intro f hf
    obtain ⟨hget, hside, _⟩ := hexec.took.fills.mem ((hv.book p.asset).issue _) hf
    obtain ⟨row, hrow, _, hshows⟩ := hmirrors.resting hget
    exact ⟨⟨row, hrow, hshows⟩, hexec.unfilled_maker hv hf, (hsmall _ _ _ hget).2, hside⟩
  have hfilled := hfills.at_front (List.prefix_refl _)
  rw [History.foldl_record] at hfilled
  have hnew := henters.rows_new hv hmirrors.new_row
  rw [List.append_assoc, throughout_append, History.foldl_record]
  refine ⟨hfills, ?_⟩
  cases hrest : remainderOf msg ⟨s.nextOrderId, msg.userId, side⟩ m with
  | none =>
      refine ⟨hfilled, ?_⟩
      rw [History.record_depth]
      exact hfilled
  | some o =>
      have ho := (remainderOf_some hrest).2.2
      have hcreated := @History.AddsUp.record_created _ (.orderCreated o.orderId o.userId p.asset.market
        msg.side o.price msg.qty.toInt.toNat o.remainingQty "open") hfilled (newRow msg p.asset o) rfl rfl
        (by rw [ho]; exact hnew) (henters.newRow_addsUp hv hsmall hunnamed hrest)
      refine ⟨hfilled, hcreated, ?_⟩
      rw [History.record_depth]
      exact hcreated

end Order

theorem VenueStep.throughout {msg : Msg} {events : List ExecutionEvent}
    (hstep : VenueStep A builtins s msg s' events) (hv : s.Valid) (hreset : ∀ r, msg ≠ .reset r)
    (hmirrors : Mirrors s h.rows rested cancelled) (hsmall : AllResting Order.Small s)
    (hunnamed : h.Unnamed s.nextOrderId) (hadds : h.AddsUp) :
    Throughout History.record History.AddsUp h events := by
  cases hstep with
  | idle _ hevents =>
      apply throughout_of_keeps hadds
      intro h hadds e he
      obtain ⟨_, _, _, _, rfl⟩ := hevents e he
      simpa [History.record, orderRows, tradeRow] using hadds
  | order henters => exact henters.throughout hv hmirrors hsmall hunnamed hadds _ _
  | @cancel msg _ asset o bids asks hget _ _ =>
      have hrow : ∀ row : OrderRow, h.rows[asI64 o.orderId]? = some row →
          row.remainingQty = asI64 o.remainingQty := by
        intro row hrow
        obtain ⟨row', hrow', _, hshows⟩ := hmirrors.resting hget
        rw [← (hv.book asset).orderId_eq hget, hrow] at hrow'
        cases hrow'
        exact hshows.remainingQty
      have hcancelled : (h.record (.orderCancelled o.orderId o.userId o.remainingQty)).AddsUp :=
        hadds.record_cancelled hrow
      refine ⟨hadds, hcancelled, ?_⟩
      rw [History.record_depth]
      exact hcancelled
  | @reset msg => exact absurd rfl (hreset msg)

end Step

/-! ### Runs -/

section Run

variable {A : Arith} {builtins : Builtins} {fees : FeeSchedule} {msgs : List Msg} {s : EngineState}
  {outputs : List Output}

theorem run_unnamed (hreset : ∀ r, Msg.reset r ∉ msgs)
    (hrun : run A builtins (.new fees) msgs = .ok (s, outputs)) :
    (History.recorded (executions outputs)).Unnamed s.nextOrderId := by
  intro t ht hnames
  rw [History.recorded, History.foldl_record] at ht
  obtain ⟨event, hevent, hrow⟩ := List.mem_filterMap.mp ht
  have hbelow := (run_tradeRefs hreset hrun).2.2
  cases event with
  | tradeExecuted maker taker buyer seller market price qty quote remaining _ _ _ =>
      cases hrow
      have href : (maker, taker) ∈ tradeRefs (executions outputs) :=
        List.mem_filterMap.mpr ⟨_, hevent, rfl⟩
      obtain ⟨hlt, htaker⟩ := hbelow _ href
      rcases hnames with hid | hid
      · have hmaker := asI64_inj.mp hid
        omega
      · have hsame := asI64_inj.mp hid
        omega
  | _ => cases hrow

theorem run_small (hrun : run A builtins (.new fees) msgs = .ok (s, outputs)) :
    AllResting Order.Small s := by
  have hsmall : Meets Arithmetic (run A builtins (.new fees) msgs) fun r =>
      r.1.Valid ∧ AllResting Order.Small r.1 := by
    apply run_allResting A builtins (.new fees) (valid_new fees) _ msgs _ (allResting_new fees _)
    · intro o₀ o hsmall hprice _ hle
      exact ⟨hprice ▸ hsmall.1, lt_of_le_of_lt hle hsmall.2⟩
    · intro order o _ hprice _ hle
      have hbound := order.price.toInt_lt
      have hbound' := order.qty.toInt_lt
      exact ⟨by omega, by omega⟩
  exact (hsmall.of_ok hrun).2

theorem run_throughout (hreset : ∀ r, Msg.reset r ∉ msgs)
    (hrun : run A builtins (.new fees) msgs = .ok (s, outputs)) :
    Throughout History.record History.AddsUp .empty (executions outputs) := by
  induction msgs using List.reverseRecOn generalizing s outputs with
  | nil =>
      cases hrun
      intro i row hrow
      simp [History.empty] at hrow
  | append_singleton msgs msg ih =>
      obtain ⟨s₁, outputs₁, outputs₂, hfront, hlast, rfl⟩ := run_concat hrun
      have hfree : ∀ r, Msg.reset r ∉ msgs := fun r hmem => hreset r (List.mem_append_left _ hmem)
      obtain ⟨hv, hmirrors⟩ := run_mirrors fees hfree hfront
      have hstep := (handle_venue A builtins s₁ hv.book msg).of_ok hlast
      have hbefore := ih hfree hfront
      have hrows : (History.recorded (executions outputs₁)).rows
          = (executions outputs₁).foldl orderRows ∅ := by
        rw [History.recorded, History.foldl_record]
        rfl
      rw [← hrows] at hmirrors
      rw [executions_append, throughout_append]
      refine ⟨hbefore, hstep.throughout hv ?_ hmirrors (run_small hfront) (run_unnamed hfree hfront)
        (hbefore.at_front (List.prefix_refl _))⟩
      rintro r rfl
      exact hreset r (List.mem_append_right _ (List.mem_singleton_self _))

end Run

/-- **What is listed of an order adds up.** After a run without reset, in any build of the engine, and
however many of its events the worker has applied, in any build of the worker, an order that the lookup
finds has had the quantity that remains of it and those of the trades that are listed with it, and each
of these is its own: in its market, with its user on its side, and at a price that is no worse. -/
theorem run_history_adds_up (checks checks' : Bool) (builtins : Builtins) (fees : FeeSchedule)
    (msgs : List Msg) (hreset : ∀ r, Msg.reset r ∉ msgs) {s : EngineState} {outputs : List Output}
    (hrun : run (u64 checks) builtins (.new fees) msgs = .ok (s, outputs))
    {events : List ExecutionEvent} (hfront : events <+: executions outputs) {uuids : List String}
    (hlength : uuids.length = events.length) {db : Tables}
    (happly : applyEvents (u64 checks') .empty (uuids.zip events) = .ok db)
    (sendAndWait : OrderStatusQueryMsg → Option Reply) (queueId identifier : String) (auth orderId : Nat)
    {order : OrderRecord} {trades : List TradeRow}
    (hfound : getOrder db sendAndWait queueId identifier auth orderId = .found order trades) :
    order.originalQty = order.remainingQty + (trades.map TradeRow.qty).sum ∧
      ∀ t ∈ trades, order.Owns t := by
  have hadds : (⟨db.orders, db.trades⟩ : History).AddsUp := by
    rw [history_applyEvents happly, List.map_snd_zip (le_of_eq hlength.symm)]
    exact (run_throughout hreset hrun).at_front hfront
  unfold getOrder at hfound
  split at hfound
  · next row hrow =>
    split at hfound
    · cases hfound
    · cases hfound
      obtain ⟨hid, hsum, hown⟩ := hadds _ _ hrow
      rw [← hid]
      refine ⟨hsum, fun t ht => ?_⟩
      obtain ⟨hmem, hnames⟩ := List.mem_filter.mp ht
      exact hown t hmem (of_decide_eq_true hnames)
  · -- the engine's answer shows what remains as the original quantity, and no trades
    split at hfound
    · cases hfound
      simp
    · cases hfound

/-- The bid of ten that has been filled for five. -/
theorem run_history_adds_up_session :
    ∃ s outputs db, ∃ (order : OrderRecord) (trades : List TradeRow),
      run (u64 false) .noSlippage (.new ⟨10, 20⟩) (session.take 4) = .ok (s, outputs) ∧
      applyEvents (u64 false) .empty (((executions outputs).map fun _ => "").zip (executions outputs))
        = .ok db ∧
      getOrder db (fun _ => none) "q" "x" 1 1 = .found order trades ∧ order.remainingQty = 5 ∧
      order.originalQty = order.remainingQty + (trades.map TradeRow.qty).sum := by
  obtain ⟨⟨s, outputs⟩, hrun, hreturns⟩ := exists_of_returns
    (run (u64 false) .noSlippage (.new ⟨10, 20⟩) (session.take 4))
    (fun r => returns (fun db => decide (getOrder db (fun _ => none) "q" "x" 1 1
        = .found ⟨1, 1, "SOL_USD", "bid", 100, 10, 5, "partially_filled"⟩
          [⟨1, 2, 1, 2, "SOL_USD", 100, 5, 500⟩]))
      (applyEvents (u64 false) .empty (((executions r.2).map fun _ => "").zip (executions r.2))))
    (by decide +kernel)
  obtain ⟨db, happly, hlisted⟩ := exists_of_returns _ _ hreturns
  have hfound := of_decide_eq_true hlisted
  obtain ⟨hsum, _⟩ := run_history_adds_up false false .noSlippage ⟨10, 20⟩ (session.take 4)
    (by simp [session]) hrun (List.prefix_refl _) (by simp) happly _ _ _ _ _ hfound
  exact ⟨s, outputs, db, _, _, hrun, happly, hfound, rfl, hsum⟩

end CexRs
