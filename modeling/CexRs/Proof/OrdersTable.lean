import CexRs.Proof.Quotes
import CexRs.Proof.Reconciliation

/-!
# The orders table

The worker keeps a row for every order that has rested: it is inserted when the order starts to rest,
updated with what a match has left of it, and closed when the order is cancelled. Row by row and order
by order, the table shows the books.
-/

namespace CexRs

open FixedWidth OrderedMap EngineState

/-! ### What an event does to the table -/

abbrev OrderRows := Std.ExtTreeMap Int OrderRow

def setRow (rows : OrderRows) (id : Int) (remainingQty : Int) (status : String) : OrderRows :=
  match rows[id]? with
  | none => rows
  | some old => rows.insert id { old with remainingQty, status }

def upsertRow (rows : OrderRows) (row : OrderRow) : OrderRows :=
  let row := match rows[row.id]? with
    | none => row
    | some old => { old with remainingQty := row.remainingQty, status := row.status }
  rows.insert row.id row

/-- The part of an event's statements that writes to the orders table. -/
def orderRows (rows : OrderRows) : ExecutionEvent → OrderRows
  | .orderCreated orderId userId market side price originalQty remainingQty status =>
      upsertRow rows
        { id := asI64 orderId, userId := asI64 userId, market, side, price := asI64 price,
          originalQty := asI64 originalQty, remainingQty := asI64 remainingQty, status }
  | .tradeExecuted makerOrderId _ _ _ _ _ _ _ makerRemainingQty _ _ _ =>
      setRow rows (asI64 makerOrderId) (asI64 makerRemainingQty)
        (if makerRemainingQty = 0 then "filled" else "partially_filled")
  | .orderCancelled orderId _ remainingQty =>
      setRow rows (asI64 orderId) (asI64 remainingQty) "cancelled"
  | .fundingExecuted _ _ _ _ => rows
  | .depthUpdated _ _ _ => rows

theorem orders_updateOrder (db : Tables) (id remainingQty : Int) (status : String) :
    ((Statement.updateOrder id remainingQty status).execute db).orders
      = setRow db.orders id remainingQty status := by
  simp only [Statement.execute, setRow]
  cases db.orders[id]? with
  | none => simp
  | some old => simp

theorem orders_upsertOrder (db : Tables) (row : OrderRow) :
    ((Statement.upsertOrder row).execute db).orders = upsertRow db.orders row := rfl

theorem orders_statements {A : Arith} {uuid : String} {event : ExecutionEvent} {sts : List Statement}
    (h : statements A uuid event = .ok sts) (db : Tables) :
    (sts.foldl Statement.execute db).orders = orderRows db.orders event := by
  cases event with
  | orderCreated =>
      cases h
      exact orders_upsertOrder db _
  | orderCancelled =>
      cases h
      exact orders_updateOrder db _ _ _
  | depthUpdated =>
      cases h
      rfl
  | fundingExecuted =>
      obtain ⟨clearing, _, h⟩ := bind_ok h
      cases h
      rfl
  | tradeExecuted maker taker buyer seller market price qty quote remaining _ buyerFee sellerFee =>
      obtain ⟨debit, _, h⟩ := bind_ok h
      obtain ⟨buyerUsd, _, h⟩ := bind_ok h
      obtain ⟨sellerBase, _, h⟩ := bind_ok h
      obtain ⟨totalFee, _, h⟩ := bind_ok h
      cases h
      have hfees : ∀ (db : Tables) (entries : List LedgerEntry),
          ((if 0 < asI64 totalFee then [Statement.insertEntries entries] else []).foldl
            Statement.execute db).orders = db.orders := by
        intro db entries
        split <;> rfl
      rw [List.foldl_append, hfees]
      exact orders_updateOrder _ _ _ _

theorem orders_applyEvents {A : Arith} {events : List (String × ExecutionEvent)} {db db' : Tables}
    (h : applyEvents A db events = .ok db') :
    db'.orders = (events.map Prod.snd).foldl orderRows db.orders := by
  induction events generalizing db with
  | nil =>
      cases h
      rfl
  | cons e events ih =>
      obtain ⟨uuid, event⟩ := e
      obtain ⟨sts, hsts, h⟩ := bind_ok h
      rw [ih h, orders_statements hsts]
      rfl

section Rows

variable (rows : OrderRows) (id remainingQty : Int) (status : String)

theorem get_setRow (i : Int) : (setRow rows id remainingQty status)[i]?
    = if id = i then rows[i]?.map fun row => { row with remainingQty, status } else rows[i]? := by
  unfold setRow
  by_cases hid : id = i
  · subst hid
    rw [if_pos rfl]
    cases hrow : rows[id]? with
    | none => simp [hrow]
    | some old => simp
  · rw [if_neg hid]
    cases rows[id]? with
    | none => rfl
    | some old => exact (get_insert ..).trans (if_neg hid)

theorem get_upsertRow {row : OrderRow} (hnew : rows[row.id]? = none) (i : Int) :
    (upsertRow rows row)[i]? = if row.id = i then some row else rows[i]? := by
  unfold upsertRow
  rw [hnew, get_insert]

end Rows

/-! ### The trades of an order -/

section Trades

variable {ob : Orderbook} {asset : Asset} {taker : Taker} {fs : List (Order × Nat)}
  {events : List ExecutionEvent}

def Orderbook.unfilled (ob : Orderbook) (id : Nat) : Nat :=
  ((ob.getOrder id).map Order.remainingQty).getD 0

def OrderRow.refresh (remainingQty : Nat) (row : OrderRow) : OrderRow :=
  { row with
    remainingQty := asI64 remainingQty
    status := if remainingQty = 0 then "filled" else "partially_filled" }

theorem orderRows_trade {f : Order × Nat} {event : ExecutionEvent}
    (h : (Matching.fillTrade taker f).Reports ob asset event) (rows : OrderRows) (i : Int) :
    (orderRows rows event)[i]? = if asI64 f.1.orderId = i
      then rows[i]?.map (OrderRow.refresh (ob.unfilled f.1.orderId)) else rows[i]? := by
  have hmaker : (Matching.fillTrade taker f).makerOrderId = f.1.orderId := by
    cases hside : taker.side with
    | bid => rw [Matching.fillTrade_bid hside]
    | ask => rw [Matching.fillTrade_ask hside]
  obtain ⟨_, _, _, rfl⟩ := h
  rw [orderRows, hmaker, get_setRow]
  rfl

theorem get_rows_other
    (h : List.Forall₂ (Trade.Reports ob asset) (Matching.trades taker fs) events) {i : Int}
    (hi : ∀ f ∈ fs, asI64 f.1.orderId ≠ i) (rows : OrderRows) :
    (events.foldl orderRows rows)[i]? = rows[i]? := by
  induction fs generalizing events rows with
  | nil =>
      cases h
      rfl
  | cons f fs ih =>
      cases h with
      | cons hreport h =>
          rw [List.foldl_cons, ih h fun f' hf' => hi f' (List.mem_cons_of_mem _ hf'),
            orderRows_trade hreport, if_neg (hi f (List.mem_cons_self ..))]

/-- However often it is updated, the row of a maker shows what the whole match has left of it. -/
theorem get_rows_maker
    (h : List.Forall₂ (Trade.Reports ob asset) (Matching.trades taker fs) events) {f : Order × Nat}
    (hf : f ∈ fs) (rows : OrderRows) :
    (events.foldl orderRows rows)[asI64 f.1.orderId]?
      = rows[asI64 f.1.orderId]?.map (OrderRow.refresh (ob.unfilled f.1.orderId)) := by
  induction fs generalizing events rows f with
  | nil => cases hf
  | cons f' fs ih =>
      cases h with
      | @cons _ event _ events hreport h =>
          rw [List.foldl_cons]
          have hfirst := orderRows_trade hreport rows (asI64 f.1.orderId)
          by_cases hlater : ∃ f'' ∈ fs, f''.1.orderId = f.1.orderId
          · obtain ⟨f'', hf'', hid⟩ := hlater
            have htail := ih h hf'' (orderRows rows event)
            rw [hid] at htail
            rw [htail, hfirst]
            split
            · next hsame =>
              rw [asI64_inj.mp hsame, Option.map_map]
              rfl
            · rfl
          · have hother : ∀ f'' ∈ fs, asI64 f''.1.orderId ≠ asI64 f.1.orderId := by
              intro f'' hf'' heq
              exact hlater ⟨f'', hf'', asI64_inj.mp heq⟩
            have hhead : f = f' := by
              rcases List.mem_cons.mp hf with rfl | hmem
              · rfl
              · exact absurd rfl (hother f hmem)
            rw [get_rows_other h hother, hfirst, hhead, if_pos rfl]

end Trades

/-! ### The table shows the books -/

def OrderRow.Live (row : OrderRow) : Prop := row.status = "open" ∨ row.status = "partially_filled"

structure OrderRow.Shows (row : OrderRow) (asset : Asset) (o : Order) : Prop where
  id : row.id = asI64 o.orderId
  userId : row.userId = asI64 o.userId
  market : row.market = asset.market
  side : row.side = sideName o.side
  price : row.price = asI64 o.price
  remainingQty : row.remainingQty = asI64 o.remainingQty

/-- The row of an order that no longer rests, given the quantities it may have been cancelled with. -/
def OrderRow.Closed (cancelled : Nat → Prop) (row : OrderRow) : Prop :=
  row.status = "filled" ∧ row.remainingQty = 0 ∨
    row.status = "cancelled" ∧ ∃ qty, cancelled qty ∧ row.remainingQty = asI64 qty

/-- Every resting order has a live row that shows it, every order that has rested and no longer does a
closed one, and no other id has a row. -/
structure Mirrors (s : EngineState) (rows : OrderRows) (rested : Nat → Prop)
    (cancelled : Nat → Nat → Prop) : Prop where
  resting : ∀ {asset : Asset} {id : Nat} {o : Order}, (s.book asset).orders[id]? = some o →
    ∃ row, rows[asI64 id]? = some row ∧ row.Live ∧ row.Shows asset o
  other : ∀ {id : Nat}, (∀ asset, (s.book asset).orders[id]? = none) →
    rows[asI64 id]? = none ∧ ¬ rested id ∨
      ∃ row, rows[asI64 id]? = some row ∧ row.Closed (cancelled id)
  keys : ∀ {i : Int} {row : OrderRow}, rows[i]? = some row → ∃ id, id < s.nextOrderId ∧ i = asI64 id

theorem OrderRow.Closed.mono {cancelled cancelled' : Nat → Prop} {row : OrderRow}
    (h : row.Closed cancelled) (hmono : ∀ qty, cancelled qty → cancelled' qty) :
    row.Closed cancelled' := by
  rcases h with h | ⟨hstatus, qty, hqty, hrow⟩
  · exact Or.inl h
  · exact Or.inr ⟨hstatus, qty, hmono qty hqty, hrow⟩

theorem OrderRow.Closed.not_live {cancelled : Nat → Prop} {row : OrderRow} (h : row.Closed cancelled) :
    ¬ row.Live := by
  intro hlive
  rcases h with ⟨hstatus, _⟩ | ⟨hstatus, _⟩
  · simp [Live, hstatus] at hlive
  · simp [Live, hstatus] at hlive

section Mirrors

variable {s s' : EngineState} {rows : OrderRows} {rested rested' : Nat → Prop}
  {cancelled cancelled' : Nat → Nat → Prop}

/-- An order whose lookup and whose row are left alone is shown as it was. -/
theorem Mirrors.frame_other (h : Mirrors s rows rested cancelled) {rows' : OrderRows} {id : Nat}
    (hbook : ∀ asset, (s'.book asset).orders[id]? = (s.book asset).orders[id]?)
    (hrow : rows'[asI64 id]? = rows[asI64 id]?)
    (hrested : rested' id → rested id ∨ ∃ asset o, (s'.book asset).orders[id]? = some o)
    (hcancelled : ∀ qty, cancelled id qty → cancelled' id qty)
    (hnone : ∀ asset, (s'.book asset).orders[id]? = none) :
    rows'[asI64 id]? = none ∧ ¬ rested' id ∨
      ∃ row, rows'[asI64 id]? = some row ∧ row.Closed (cancelled' id) := by
  rw [hrow]
  rcases h.other fun asset => (hbook asset).symm.trans (hnone asset) with
    ⟨habsent, hnot⟩ | ⟨row, hget, hclosed⟩
  · refine Or.inl ⟨habsent, fun hr => ?_⟩
    rcases hrested hr with hr | ⟨asset, o, hget⟩
    · exact hnot hr
    · rw [hnone asset] at hget
      cases hget
  · exact Or.inr ⟨row, hget, hclosed.mono hcancelled⟩

theorem Mirrors.idle (h : Mirrors s rows rested cancelled) (hsame : SameVenue s s')
    (hrested : ∀ id, rested' id → rested id ∨ ∃ asset o, (s'.book asset).orders[id]? = some o)
    (hcancelled : ∀ id qty, cancelled id qty → cancelled' id qty) :
    Mirrors s' rows rested' cancelled' := by
  constructor
  · intro asset id o hget
    rw [hsame.book] at hget
    exact h.resting hget
  · intro id hnone
    apply h.frame_other _ rfl (hrested id) (hcancelled id) hnone
    intro asset
    rw [hsame.book]
  · intro i row hrow
    rw [hsame.nextOrderId]
    exact h.keys hrow

theorem Mirrors.cancel (h : Mirrors s rows rested cancelled) (hv : s.Valid) {asset : Asset} {id : Nat}
    {o : Order} (hget : (s.book asset).orders[id]? = some o)
    (hsame : SameVenue (s.setBook asset ((s.book asset).remove o)) s')
    (hrested : ∀ id, rested' id → rested id ∨ ∃ asset o, (s'.book asset).orders[id]? = some o)
    (hcancelled : ∀ id qty, cancelled id qty → cancelled' id qty)
    (hnow : cancelled' id o.remainingQty) :
    Mirrors s' (setRow rows (asI64 id) (asI64 o.remainingQty) "cancelled") rested' cancelled' := by
  have hid := (hv.book asset).orderId_eq hget
  have hgone : ∀ a, (s'.book a).orders[id]? = none := by
    intro a
    rw [hsame.book]
    by_cases ha : a = asset
    · subst ha
      rw [book_setBook_self, Orderbook.orders_remove, hid, get_erase, if_pos rfl]
    · rw [book_setBook_of_ne _ _ _ ha]
      cases hget' : (s.book a).orders[id]? with
      | none => rfl
      | some x => exact absurd (hv.disjoint hget' hget) ha
  have hkeep : ∀ {id'}, id' ≠ id → ∀ a, (s'.book a).orders[id']? = (s.book a).orders[id']? := by
    intro id' hne a
    rw [hsame.book]
    by_cases ha : a = asset
    · subst ha
      rw [book_setBook_self, Orderbook.orders_remove, hid, get_erase, if_neg hne.symm]
    · rw [book_setBook_of_ne _ _ _ ha]
  have hrow : ∀ {id'}, id' ≠ id →
      (setRow rows (asI64 id) (asI64 o.remainingQty) "cancelled")[asI64 id']? = rows[asI64 id']? := by
    intro id' hne
    rw [get_setRow, if_neg fun heq => hne (asI64_inj.mp heq).symm]
  constructor
  · intro a id' x hget'
    by_cases hne : id' = id
    · rw [hne, hgone a] at hget'
      cases hget'
    · rw [hkeep hne] at hget'
      rw [hrow hne]
      exact h.resting hget'
  · intro id' hnone
    by_cases hne : id' = id
    · subst hne
      obtain ⟨row, hrow₀, _⟩ := h.resting hget
      right
      refine ⟨_, by rw [get_setRow, if_pos rfl, hrow₀, Option.map_some], ?_⟩
      exact Or.inr ⟨rfl, o.remainingQty, hnow, rfl⟩
    · exact h.frame_other (hkeep hne) (hrow hne) (hrested id') (hcancelled id') hnone
  · intro i row hget'
    rw [hsame.nextOrderId, nextOrderId_setBook]
    rw [get_setRow] at hget'
    split at hget'
    · next hi => exact ⟨id, hv.below hget, hi.symm⟩
    · exact h.keys hget'

def newRow (msg : OrderMsg) (asset : Asset) (o : Order) : OrderRow :=
  { id := asI64 o.orderId, userId := asI64 o.userId, market := asset.market, side := msg.side,
    price := asI64 o.price, originalQty := asI64 msg.qty.toInt.toNat,
    remainingQty := asI64 o.remainingQty, status := "open" }

section Order

variable {A : Arith} {builtins : Builtins} {msg : OrderMsg} {side : Side} {found : Bool}
  {fs : List (Order × Nat)} {m : Matching} {p : Placement}

theorem eq_sideName {name : String} (h : Side.ofString? name = some side) : name = sideName side := by
  unfold Side.ofString? at h
  split at h
  · cases h
    rfl
  · cases h
    rfl
  · cases h

/-- The trades of an order give it no row. -/
theorem Enters.rows_new (henters : Enters A builtins s msg side found fs m p) (hv : s.Valid)
    (hnew : rows[asI64 s.nextOrderId]? = none) :
    (p.settlement.events.foldl orderRows rows)[asI64 s.nextOrderId]? = none := by
  rw [get_rows_other henters.filled.reports _ rows, hnew]
  intro f hf heq
  exact (henters.filled.executed.maker hv hf).2.2 (asI64_inj.mp heq)

/-- The rows after the events of an order: what is left of it is inserted, and its makers are
updated. -/
theorem Enters.get_rows (henters : Enters A builtins s msg side found fs m p) (hv : s.Valid)
    (hnew : rows[asI64 s.nextOrderId]? = none) (bids asks : List (Nat × Nat)) (i : Int) :
    ((p.settlement.events
        ++ restingEvents msg p.asset (remainderOf msg ⟨s.nextOrderId, msg.userId, side⟩ m)
        ++ [ExecutionEvent.depthUpdated p.asset.market bids asks]).foldl orderRows rows)[i]?
      = if asI64 s.nextOrderId = i
        then (remainderOf msg ⟨s.nextOrderId, msg.userId, side⟩ m).map (newRow msg p.asset)
        else (p.settlement.events.foldl orderRows rows)[i]? := by
  have hunmade := henters.rows_new hv hnew
  rw [List.foldl_append, List.foldl_append]
  cases hrest : remainderOf msg ⟨s.nextOrderId, msg.userId, side⟩ m with
  | none =>
      simp only [restingEvents, Option.map_none, Option.toList_none, List.foldl_nil, List.foldl_cons,
        orderRows]
      split
      · next hi => rw [← hi, hunmade]
      · rfl
  | some o =>
      obtain ⟨_, _, rfl⟩ := remainderOf_some hrest
      simp only [restingEvents, Option.map_some, Option.toList_some, List.foldl_nil, List.foldl_cons,
        orderRows]
      rw [get_upsertRow _ hunmade]
      rfl

theorem Mirrors.new_row (h : Mirrors s rows rested cancelled) : rows[asI64 s.nextOrderId]? = none := by
  cases hget : rows[asI64 s.nextOrderId]? with
  | none => rfl
  | some row =>
      obtain ⟨id, hlt, hid⟩ := h.keys hget
      have hid := asI64_inj.mp hid
      omega

/-- The row of a maker shows what is left of it. -/
theorem Mirrors.row_maker (h : Mirrors s rows rested cancelled) (hv : s.Valid)
    (henters : Enters A builtins s msg side found fs m p) {o : Order} {n : Nat} (hmem : (o, n) ∈ fs) :
    ∃ row : OrderRow, row.Shows p.asset o ∧
      (p.settlement.events.foldl orderRows rows)[asI64 o.orderId]?
        = some (row.refresh (o.remainingQty - n)) := by
  have hexec := henters.filled.executed
  obtain ⟨row, hrow, _, hshows⟩ := h.resting (hexec.maker hv hmem).1
  have hleft : (p.state.book p.asset).unfilled o.orderId = o.remainingQty - n := by
    rw [Orderbook.unfilled, Orderbook.getOrder, hexec.get_maker hv hmem]
    split
    · rfl
    · simp only [Option.map_none, Option.getD_none]
      omega
  refine ⟨row, hshows, ?_⟩
  have hmade := get_rows_maker henters.filled.reports hmem rows
  rwa [hrow, Option.map_some, hleft] at hmade

theorem Mirrors.order (h : Mirrors s rows rested cancelled) (hv : s.Valid)
    (henters : Enters A builtins s msg side found fs m p) (bids asks : List (Nat × Nat))
    (hrested : ∀ id, rested' id → rested id ∨ ∃ asset o, (p.state.book asset).orders[id]? = some o)
    (hcancelled : ∀ id qty, cancelled id qty → cancelled' id qty) :
    Mirrors p.state ((p.settlement.events
        ++ restingEvents msg p.asset (remainderOf msg ⟨s.nextOrderId, msg.userId, side⟩ m)
        ++ [ExecutionEvent.depthUpdated p.asset.market bids asks]).foldl orderRows rows) rested'
      cancelled' := by
  have hexec := henters.filled.executed
  have hrows := henters.get_rows hv h.new_row bids asks
  generalize (p.settlement.events
        ++ restingEvents msg p.asset (remainderOf msg ⟨s.nextOrderId, msg.userId, side⟩ m)
        ++ [ExecutionEvent.depthUpdated p.asset.market bids asks]).foldl orderRows rows = rows' at hrows
  have hold : ∀ {id}, id ≠ s.nextOrderId →
      rows'[asI64 id]? = (p.settlement.events.foldl orderRows rows)[asI64 id]? := by
    intro id hne
    rw [hrows, if_neg fun heq => hne (asI64_inj.mp heq).symm]
  have hkeep : ∀ {id}, id ≠ s.nextOrderId → (∀ f ∈ fs, f.1.orderId ≠ id) →
      rows'[asI64 id]? = rows[asI64 id]? := by
    intro id hne hother
    rw [hold hne, get_rows_other henters.filled.reports]
    intro f hf heq
    exact hother f hf (asI64_inj.mp heq)
  -- an id is that of the new order, of a maker, or of neither
  constructor
  · intro asset id o hget
    by_cases hid : id = s.nextOrderId
    · subst hid
      by_cases hasset : asset = p.asset
      · subst hasset
        rw [hexec.get_new hv] at hget
        refine ⟨newRow msg p.asset o, by rw [hrows, if_pos rfl, hget, Option.map_some], Or.inl rfl, ?_⟩
        obtain ⟨_, _, rfl⟩ := remainderOf_some hget
        exact ⟨rfl, rfl, rfl, eq_sideName henters.wellFormed.side, rfl, rfl⟩
      · rw [hexec.book_other asset hasset, hv.get_next] at hget
        cases hget
    · by_cases hmakes : ∃ f ∈ fs, f.1.orderId = id
      · obtain ⟨⟨o₀, n⟩, hmem, rfl⟩ := hmakes
        have hasset : asset = p.asset := by
          by_contra hasset
          rw [hexec.book_other asset hasset] at hget
          exact hasset (hv.disjoint hget (hexec.maker hv hmem).1)
        subst hasset
        simp only at hget hid ⊢
        rw [hexec.get_maker hv hmem] at hget
        obtain ⟨row, hshows, hrow⟩ := h.row_maker hv henters hmem
        split at hget
        · next hlt =>
          cases hget
          have hpos : o₀.remainingQty - n ≠ 0 := by omega
          exact ⟨_, (hold hid).trans hrow, Or.inr (if_neg hpos), hshows.id, hshows.userId,
            hshows.market, hshows.side, hshows.price, rfl⟩
        · cases hget
      · have hother : ∀ f ∈ fs, f.1.orderId ≠ id := fun f hf heq => hmakes ⟨f, hf, heq⟩
        rw [hexec.get_other hid hother] at hget
        rw [hkeep hid hother]
        exact h.resting hget
  · intro id hgone
    by_cases hid : id = s.nextOrderId
    · subst hid
      have hrests := hgone p.asset
      rw [hexec.get_new hv] at hrests
      refine Or.inl ⟨by rw [hrows, if_pos rfl, hrests, Option.map_none], fun hr => ?_⟩
      rcases hrested _ hr with hr | ⟨asset, o, hget⟩
      · rcases h.other hv.get_next with ⟨_, hnot⟩ | ⟨row, hrow, _⟩
        · exact hnot hr
        · rw [h.new_row] at hrow
          cases hrow
      · rw [hgone asset] at hget
        cases hget
    · by_cases hmakes : ∃ f ∈ fs, f.1.orderId = id
      · obtain ⟨⟨o₀, n⟩, hmem, rfl⟩ := hmakes
        have hgone := hgone p.asset
        simp only at hgone hid ⊢
        rw [hexec.get_maker hv hmem] at hgone
        obtain ⟨row, _, hrow⟩ := h.row_maker hv henters hmem
        split at hgone
        · cases hgone
        · next hle =>
          have hzero : o₀.remainingQty - n = 0 := by omega
          rw [hzero] at hrow
          exact Or.inr ⟨_, (hold hid).trans hrow, Or.inl ⟨rfl, rfl⟩⟩
      · have hother : ∀ f ∈ fs, f.1.orderId ≠ id := fun f hf heq => hmakes ⟨f, hf, heq⟩
        exact h.frame_other (hexec.get_other hid hother) (hkeep hid hother) (hrested id)
          (hcancelled id) hgone
  · intro i row hrow
    rw [hexec.nextOrderId]
    by_cases hi : asI64 s.nextOrderId = i
    · exact ⟨s.nextOrderId, Nat.lt_succ_self _, hi.symm⟩
    · rw [hrows, if_neg hi] at hrow
      by_cases hmakes : ∃ f ∈ fs, asI64 f.1.orderId = i
      · obtain ⟨f, hf, rfl⟩ := hmakes
        exact ⟨f.1.orderId, Nat.lt_succ_of_lt (hv.below (hexec.maker hv hf).1), rfl⟩
      · rw [get_rows_other henters.filled.reports fun f hf heq => hmakes ⟨f, hf, heq⟩] at hrow
        obtain ⟨id, hlt, hid⟩ := h.keys hrow
        exact ⟨id, Nat.lt_succ_of_lt hlt, hid⟩

end Order

end Mirrors

/-! ### Runs -/

section Run

variable (A : Arith) (builtins : Builtins)

def HasRested (s : EngineState) (msgs : List Msg) (id : Nat) : Prop :=
  ∃ front back s₁ outputs asset o, msgs = front ++ back ∧ run A builtins s front = .ok (s₁, outputs) ∧
    (s₁.book asset).orders[id]? = some o

/-- A run cancels an order of which this quantity is unfilled at that point. -/
def WasCancelled (s : EngineState) (msgs : List Msg) (id qty : Nat) : Prop :=
  ∃ front msg back s₁ outputs asset o, msgs = front ++ .cancel msg :: back ∧
    run A builtins s front = .ok (s₁, outputs) ∧ (s₁.book asset).orders[id]? = some o ∧
    msg.orderId = id ∧ msg.userId = o.userId ∧ o.remainingQty = qty

variable {A builtins} {s s' : EngineState} {msgs : List Msg} {msg : Msg} {outputs : List Output}

/-- A run goes on from where a first part of it ends. -/
theorem run_append {s s' : EngineState} {front back : List Msg} {outputs : List Output}
    (h : run A builtins s (front ++ back) = .ok (s', outputs)) :
    ∃ s₁ outputs₁ outputs₂, run A builtins s front = .ok (s₁, outputs₁) ∧
      run A builtins s₁ back = .ok (s', outputs₂) ∧ outputs = outputs₁ ++ outputs₂ := by
  induction front generalizing s outputs with
  | nil => exact ⟨s, [], outputs, rfl, h, rfl⟩
  | cons msg front ih =>
      obtain ⟨⟨s₁, first⟩, hhandle, h⟩ := bind_ok h
      obtain ⟨⟨s₂, rest⟩, hrest, h⟩ := bind_ok h
      cases h
      obtain ⟨s₃, outputs₁, outputs₂, hrun, hback, rfl⟩ := ih hrest
      refine ⟨s₃, first ++ outputs₁, outputs₂, ?_, hback, by rw [List.append_assoc]⟩
      unfold run
      rw [hhandle, ok_bind]
      dsimp only
      rw [hrun, ok_bind]
      rfl

theorem run_concat (h : run A builtins s (msgs ++ [msg]) = .ok (s', outputs)) :
    ∃ s₁ outputs₁ outputs₂, run A builtins s msgs = .ok (s₁, outputs₁) ∧
      handle A builtins s₁ msg = .ok (s', outputs₂) ∧ outputs = outputs₁ ++ outputs₂ := by
  obtain ⟨s₁, outputs₁, outputs₂, hfront, hlast, rfl⟩ := run_append h
  obtain ⟨⟨s₂, first⟩, hhandle, hlast⟩ := bind_ok hlast
  cases hlast
  exact ⟨s₁, outputs₁, first, hfront, hhandle, by simp⟩

theorem HasRested.concat (hrun : run A builtins s (msgs ++ [msg]) = .ok (s', outputs)) {id : Nat}
    (h : HasRested A builtins s (msgs ++ [msg]) id) :
    HasRested A builtins s msgs id ∨ ∃ asset o, (s'.book asset).orders[id]? = some o := by
  obtain ⟨front, back, s₁, outputs₁, asset, o, hsplit, hfront, hget⟩ := h
  rcases List.eq_nil_or_concat back with rfl | ⟨back, last, rfl⟩
  · rw [List.append_nil] at hsplit
    rw [← hsplit, hrun] at hfront
    cases hfront
    exact Or.inr ⟨asset, o, hget⟩
  · rw [List.concat_eq_append, ← List.append_assoc] at hsplit
    have hmsgs := (List.append_inj' hsplit rfl).1
    exact Or.inl ⟨front, back, s₁, outputs₁, asset, o, hmsgs, hfront, hget⟩

theorem WasCancelled.concat {id qty : Nat} (h : WasCancelled A builtins s msgs id qty) :
    WasCancelled A builtins s (msgs ++ [msg]) id qty := by
  obtain ⟨front, cancel, back, s₁, outputs₁, asset, o, rfl, hrest⟩ := h
  exact ⟨front, cancel, back ++ [msg], s₁, outputs₁, asset, o, by simp, hrest⟩

theorem foldl_funding {events : List ExecutionEvent} (rows : OrderRows)
    (h : ∀ e ∈ events, ∃ user currency amount operation,
      e = .fundingExecuted user currency amount operation) : events.foldl orderRows rows = rows := by
  induction events with
  | nil => rfl
  | cons e events ih =>
      obtain ⟨_, _, _, _, rfl⟩ := h e (List.mem_cons_self ..)
      exact ih fun e he => h e (List.mem_cons_of_mem _ he)

theorem run_mirrors (fees : FeeSchedule) (hreset : ∀ r, Msg.reset r ∉ msgs)
    (hrun : run A builtins (.new fees) msgs = .ok (s, outputs)) :
    s.Valid ∧ Mirrors s ((executions outputs).foldl orderRows ∅)
      (HasRested A builtins (.new fees) msgs) (WasCancelled A builtins (.new fees) msgs) := by
  induction msgs using List.reverseRecOn generalizing s outputs with
  | nil =>
      cases hrun
      have hempty : ∀ asset, ((EngineState.new fees).book asset).orders = ∅ := by
        rintro (_ | _ | _) <;> rfl
      refine ⟨valid_new fees, fun hget => absurd hget (orders_empty hempty), fun _ => ?_, fun hrow => ?_⟩
      · refine Or.inl ⟨by simp [executions], ?_⟩
        rintro ⟨front, back, s₁, outputs₁, asset, o, hsplit, hfront, hget⟩
        have hnil := (List.append_eq_nil_iff.mp hsplit.symm).1
        subst hnil
        cases hfront
        exact absurd hget (orders_empty hempty)
      · simp [executions] at hrow
  | append_singleton msgs msg ih =>
      obtain ⟨s₁, outputs₁, outputs₂, hfront, hlast, rfl⟩ := run_concat hrun
      obtain ⟨hv, hmirrors⟩ := ih (fun r hmem => hreset r (List.mem_append_left _ hmem)) hfront
      have hstep := (handle_venue A builtins s₁ hv.book msg).of_ok hlast
      have hrested : ∀ id, HasRested A builtins (.new fees) (msgs ++ [msg]) id → _ :=
        fun id hr => hr.concat hrun
      have hcancelled : ∀ id qty, WasCancelled A builtins (.new fees) msgs id qty →
          WasCancelled A builtins (.new fees) (msgs ++ [msg]) id qty := fun id qty hc => hc.concat
      refine ⟨hstep.valid hv, ?_⟩
      rw [executions_append, List.foldl_append]
      simp only at hstep
      generalize executions outputs₂ = events at hstep
      cases hstep with
      | idle hsame hevents =>
          rw [foldl_funding _ hevents]
          exact hmirrors.idle hsame hrested hcancelled
      | order henters => exact hmirrors.order hv henters _ _ hrested hcancelled
      | @cancel cancel _ asset o bids asks hget huser hsame =>
          have hid := (hv.book asset).orderId_eq hget
          have hrow := hmirrors.cancel hv hget hsame hrested hcancelled
            ⟨msgs, cancel, [], s₁, outputs₁, asset, o, rfl, hfront, hget, rfl, huser.symm, rfl⟩
          rw [← hid] at hrow
          exact hrow
      | reset => exact absurd (List.mem_append_right _ (List.mem_singleton_self _)) (hreset _)

end Run

structure OrderRow.Agrees (row : OrderRow) (asset : Asset) (o : Order) : Prop where
  id : row.id = o.orderId
  userId : row.userId = o.userId
  market : row.market = asset.market
  side : row.side = sideName o.side
  price : row.price = o.price
  remainingQty : row.remainingQty = o.remainingQty

structure Order.Fits (o : Order) : Prop where
  userId : o.userId < 2 ^ 63
  price : o.price < 2 ^ 63
  remainingQty : o.remainingQty < 2 ^ 63

theorem OrderRow.Shows.agrees {row : OrderRow} {asset : Asset} {o : Order} (h : row.Shows asset o)
    (hid : o.orderId < 2 ^ 63) (hfits : o.Fits) : row.Agrees asset o where
  id := h.id.trans (asI64_of_lt hid)
  userId := h.userId.trans (asI64_of_lt hfits.userId)
  market := h.market
  side := h.side
  price := h.price.trans (asI64_of_lt hfits.price)
  remainingQty := h.remainingQty.trans (asI64_of_lt hfits.remainingQty)

theorem run_orders_fit (checks : Bool) (builtins : Builtins) (fees : FeeSchedule) (msgs : List Msg)
    (husers : ∀ msg, Msg.order msg ∈ msgs → msg.userId < 2 ^ 63) {s : EngineState}
    {outputs : List Output}
    (hrun : run (u64 checks) builtins (.new fees) msgs = .ok (s, outputs)) :
    AllResting Order.Fits s := by
  have hfits := run_allResting (u64 checks) builtins (.new fees) (valid_new fees) (P := Order.Fits)
    ?_ msgs ?_ (allResting_new fees _)
  · exact (hfits.of_ok hrun).2
  · intro o₀ o hfits hprice huser hle
    exact ⟨huser ▸ hfits.userId, hprice ▸ hfits.price, lt_of_le_of_lt hle hfits.remainingQty⟩
  · intro order o hmem hprice huser hle
    have hbound := order.price.toInt_lt
    have hbound' := order.qty.toInt_lt
    exact ⟨huser ▸ husers order hmem, by omega, by omega⟩

/-- **The orders table mirrors the books.** After a run without reset whose ids are below `2 ^ 63`, in
any build of the engine, and once the worker has applied all of its events in order, in any build of
the worker, the rows that are open or partially filled are exactly the resting orders of the three
books, and the row of an order that has rested and no longer does is filled with nothing remaining, or
cancelled with the quantity that was unfilled when it was cancelled. -/
theorem run_orders_mirrored (checks checks' : Bool) (builtins : Builtins) (fees : FeeSchedule)
    (msgs : List Msg) (hreset : ∀ r, Msg.reset r ∉ msgs)
    (husers : ∀ msg, Msg.order msg ∈ msgs → msg.userId < 2 ^ 63) {s : EngineState}
    {outputs : List Output}
    (hrun : run (u64 checks) builtins (.new fees) msgs = .ok (s, outputs))
    (hids : s.nextOrderId ≤ 2 ^ 63) {uuids : List String}
    (hlength : uuids.length = (executions outputs).length) {db : Tables}
    (happly : applyEvents (u64 checks') .empty (uuids.zip (executions outputs)) = .ok db) :
    (∀ (asset : Asset) (id : Nat) (o : Order), (s.book asset).orders[id]? = some o →
      ∃ row, db.orders[(id : Int)]? = some row ∧ row.Live ∧ row.Agrees asset o) ∧
    (∀ (i : Int) (row : OrderRow), db.orders[i]? = some row → row.Live →
      ∃ (asset : Asset) (id : Nat) (o : Order), i = id ∧ (s.book asset).orders[id]? = some o ∧
        row.Agrees asset o) ∧
    ∀ id, HasRested (u64 checks) builtins (.new fees) msgs id →
      (∀ asset, (s.book asset).orders[id]? = none) →
      ∃ row, db.orders[(id : Int)]? = some row ∧
        (row.status = "filled" ∧ row.remainingQty = 0 ∨ row.status = "cancelled" ∧
          ∃ qty : Nat, WasCancelled (u64 checks) builtins (.new fees) msgs id qty ∧
            row.remainingQty = qty) := by
  obtain ⟨hv, hmirrors⟩ := run_mirrors fees hreset hrun
  have hfits := run_orders_fit checks builtins fees msgs husers hrun
  have hrows : db.orders = (executions outputs).foldl orderRows ∅ := by
    rw [orders_applyEvents happly, List.map_snd_zip (le_of_eq hlength.symm)]
    rfl
  rw [← hrows] at hmirrors
  have hshown : ∀ {asset : Asset} {id : Nat} {o : Order}, (s.book asset).orders[id]? = some o →
      ∃ row, db.orders[(id : Int)]? = some row ∧ row.Live ∧ row.Agrees asset o := by
    intro asset id o hget
    obtain ⟨row, hrow, hlive, hshows⟩ := hmirrors.resting hget
    have hbelow := hv.below hget
    rw [asI64_of_lt (by omega)] at hrow
    have hid := (hv.book asset).orderId_eq hget
    exact ⟨row, hrow, hlive, hshows.agrees (by omega) (hfits asset id o hget)⟩
  refine ⟨fun asset id o hget => hshown hget, ?_, ?_⟩
  · intro i row hrow hlive
    obtain ⟨id, hlt, rfl⟩ := hmirrors.keys hrow
    by_cases hrests : ∃ asset o, (s.book asset).orders[id]? = some o
    · obtain ⟨asset, o, hget⟩ := hrests
      obtain ⟨row', hrow', _, hagrees⟩ := hshown hget
      rw [← asI64_of_lt (by omega), hrow] at hrow'
      cases hrow'
      exact ⟨asset, id, o, asI64_of_lt (by omega), hget, hagrees⟩
    · have hnone : ∀ asset, (s.book asset).orders[id]? = none := by
        intro asset
        cases hget : (s.book asset).orders[id]? with
        | none => rfl
        | some o => exact absurd ⟨asset, o, hget⟩ hrests
      rcases hmirrors.other hnone with ⟨habsent, _⟩ | ⟨row', hrow', hclosed⟩
      · rw [habsent] at hrow
        cases hrow
      · rw [hrow] at hrow'
        cases hrow'
        exact absurd hlive hclosed.not_live
  · intro id hrested hnone
    rcases hmirrors.other hnone with ⟨_, hnot⟩ | ⟨row, hrow, hclosed⟩
    · exact absurd hrested hnot
    · obtain ⟨id', hlt, hid⟩ := hmirrors.keys hrow
      have hid := asI64_inj.mp hid
      rw [asI64_of_lt (by omega)] at hrow
      refine ⟨row, hrow, ?_⟩
      rcases hclosed with hfilled | ⟨hstatus, qty, hqty, hremaining⟩
      · exact Or.inl hfilled
      · refine Or.inr ⟨hstatus, qty, hqty, ?_⟩
        obtain ⟨front, _, _, s₁, outputs₁, asset, o, _, hfront, hget, _, _, rfl⟩ := hqty
        have hsmall := (run_valid_small checks builtins fees front hfront).2
        exact hremaining.trans (asI64_of_lt (hsmall asset id o hget))

/-- After a partial fill of the bid its row says so. -/
theorem run_orders_mirrored_session :
    ∃ s outputs db, ∃ row : OrderRow, run (u64 false) .noSlippage (.new ⟨10, 20⟩)
        (session.take 4) = .ok (s, outputs) ∧
      applyEvents (u64 false) .empty (((executions outputs).map fun _ => "").zip (executions outputs))
        = .ok db ∧
      db.orders[(1 : Int)]? = some row ∧ row.Live ∧ row.remainingQty = 5 := by
  obtain ⟨⟨s, outputs⟩, hrun, htest⟩ := exists_of_returns
    (run (u64 false) .noSlippage (.new ⟨10, 20⟩) (session.take 4))
    (fun r => decide (r.1.nextOrderId ≤ 2 ^ 63) &&
      decide ((r.1.solOrderbook.orders[1]?).map Order.remainingQty = some 5) &&
      returns (fun _ => true) (applyEvents (u64 false) .empty
        (((executions r.2).map fun _ => "").zip (executions r.2)))) (by decide +kernel)
  rw [Bool.and_eq_true, Bool.and_eq_true] at htest
  obtain ⟨⟨hids, hrests⟩, hreturns⟩ := htest
  obtain ⟨db, happly, _⟩ := exists_of_returns _ _ hreturns
  obtain ⟨o, hget, hqty⟩ := Option.map_eq_some_iff.mp (of_decide_eq_true hrests)
  obtain ⟨hopen, _⟩ := run_orders_mirrored false false .noSlippage ⟨10, 20⟩ (session.take 4)
    (by simp [session]) (by simp [session]) hrun (of_decide_eq_true hids) (by simp) happly
  obtain ⟨row, hrow, hlive, hagrees⟩ := hopen .sol 1 o hget
  refine ⟨s, outputs, db, row, hrun, happly, hrow, hlive, ?_⟩
  rw [hagrees.remainingQty, hqty]
  rfl

end CexRs
