import CexRs.OrderLookup
import CexRs.Proof.OrdersTable

/-!
# One order, two records

What the database has of an order is what the worker was told when the order came to rest, with what
is left of it kept up to date; what the engine has is the order. The engine keeps neither the quantity
that an order was placed with nor, in the order, its market, and the route fills in for both.
-/

namespace CexRs

open FixedWidth OrderedMap EngineState

/-! ### Original quantities -/

def HasOriginal (rows : OrderRows) (i originalQty : Int) : Prop :=
  ∃ row, rows[i]? = some row ∧ row.originalQty = originalQty

section Original

variable {rows : OrderRows} {i originalQty : Int}

theorem HasOriginal.setRow (h : HasOriginal rows i originalQty) (id remainingQty : Int)
    (status : String) : HasOriginal (setRow rows id remainingQty status) i originalQty := by
  obtain ⟨row, hrow, horiginal⟩ := h
  unfold HasOriginal
  rw [get_setRow, hrow]
  split
  · exact ⟨_, rfl, horiginal⟩
  · exact ⟨row, rfl, horiginal⟩

theorem HasOriginal.trades (h : HasOriginal rows i originalQty) {ob : Orderbook} {asset : Asset}
    {trades : List Trade} {events : List ExecutionEvent}
    (hreports : List.Forall₂ (Trade.Reports ob asset) trades events) :
    HasOriginal (events.foldl orderRows rows) i originalQty := by
  induction hreports generalizing rows with
  | nil => exact h
  | cons hreport _ ih =>
      obtain ⟨_, _, _, rfl⟩ := hreport
      exact ih (h.setRow _ _ _)

end Original

section Run

variable (A : Arith) (builtins : Builtins)

def WasPlaced (s : EngineState) (msgs : List Msg) (id qty : Nat) : Prop :=
  ∃ front msg back s₁ outputs₁ s₂ outputs₂, msgs = front ++ .order msg :: back ∧
    run A builtins s front = .ok (s₁, outputs₁) ∧
    handle A builtins s₁ (.order msg) = .ok (s₂, outputs₂) ∧
    s₁.nextOrderId = id ∧ s₂.nextOrderId = id + 1 ∧ msg.qty.toInt.toNat = qty

/-- The ids that a run has given are below the counter, each to one quantity, and the row of a resting
order has that quantity. -/
structure Originals (s : EngineState) (rows : OrderRows) (placed : Nat → Nat → Prop) : Prop where
  below : ∀ {id qty : Nat}, placed id qty → id < s.nextOrderId
  unique : ∀ {id qty qty' : Nat}, placed id qty → placed id qty' → qty = qty'
  resting : ∀ {asset : Asset} {id : Nat} {o : Order}, (s.book asset).orders[id]? = some o →
    ∃ qty, placed id qty ∧ HasOriginal rows (asI64 id) (asI64 qty)

variable {A builtins} {s s' : EngineState} {rows rows' : OrderRows} {placed placed' : Nat → Nat → Prop}

/-- What leaves the counter alone and brings no order to rest gives out no id. -/
theorem Originals.keep (h : Originals s rows placed) (hnext : s'.nextOrderId = s.nextOrderId)
    (hrested : ∀ {asset : Asset} {id : Nat} {o : Order}, (s'.book asset).orders[id]? = some o →
      (s.book asset).orders[id]? = some o)
    (hrows : ∀ {i originalQty : Int},
      HasOriginal rows i originalQty → HasOriginal rows' i originalQty) :
    Originals s' rows' placed where
  below hplaced := hnext.symm ▸ h.below hplaced
  unique := h.unique
  resting hget := by
    obtain ⟨qty, hplaced, horiginal⟩ := h.resting (hrested hget)
    exact ⟨qty, hplaced, hrows horiginal⟩

/-- An order that is let in is given the next id. -/
theorem Originals.order {msg : OrderMsg} {side : Side} {found : Bool} {fs : List (Order × Nat)}
    {m : Matching} {p : Placement} (h : Originals s rows placed) (hv : s.Valid)
    (henters : Enters A builtins s msg side found fs m p) (hnew : rows[asI64 s.nextOrderId]? = none)
    (bids asks : List (Nat × Nat)) :
    Originals p.state ((p.settlement.events
        ++ restingEvents msg p.asset (remainderOf msg ⟨s.nextOrderId, msg.userId, side⟩ m)
        ++ [ExecutionEvent.depthUpdated p.asset.market bids asks]).foldl orderRows rows)
      fun id qty => placed id qty ∨ id = s.nextOrderId ∧ qty = msg.qty.toInt.toNat := by
  have hexec := henters.filled.executed
  have hrows := henters.get_rows hv hnew bids asks
  have hlt : ∀ {id qty}, placed id qty → id ≠ s.nextOrderId := fun hplaced => (h.below hplaced).ne
  constructor
  · intro id qty hplaced
    rw [hexec.nextOrderId]
    rcases hplaced with hplaced | ⟨rfl, _⟩
    · exact Nat.lt_succ_of_lt (h.below hplaced)
    · exact Nat.lt_succ_self _
  · rintro id qty qty' (hplaced | ⟨hid, hqty⟩) (hplaced' | ⟨hid', hqty'⟩)
    · exact h.unique hplaced hplaced'
    · exact absurd hid' (hlt hplaced)
    · exact absurd hid (hlt hplaced')
    · rw [hqty, hqty']
  · intro asset id o hget
    by_cases hid : id = s.nextOrderId
    · subst hid
      refine ⟨_, .inr ⟨rfl, rfl⟩, ?_⟩
      rcases hexec.get_orders (hv.book p.asset) hget with ⟨o₀, hget₀⟩ | ⟨rfl, _⟩
      · exact absurd (hv.below hget₀) (Nat.lt_irrefl _)
      · rw [hexec.get_new hv] at hget
        exact ⟨newRow msg p.asset o, by rw [hrows, if_pos rfl, hget, Option.map_some], rfl⟩
    · rcases hexec.get_orders (hv.book p.asset) hget with ⟨o₀, hget₀⟩ | ⟨_, hnew⟩
      · obtain ⟨qty, hplaced, horiginal⟩ := h.resting hget₀
        obtain ⟨row, hrow, hqty⟩ := horiginal.trades henters.filled.reports
        refine ⟨qty, .inl hplaced, row, ?_, hqty⟩
        rw [hrows, if_neg fun heq => hid (asI64_inj.mp heq).symm, hrow]
      · exact absurd hnew hid

theorem Originals.mono (h : Originals s rows placed) (hiff : ∀ id qty, placed' id qty ↔ placed id qty) :
    Originals s rows placed' := by
  have heq : placed' = placed := by
    funext id qty
    exact propext (hiff id qty)
  exact heq ▸ h

variable {msgs : List Msg} {msg : Msg} {outputs : List Output}

/-- Of one more message, only an order that moves the counter is placed. -/
theorem wasPlaced_concat {s₀ s₁ : EngineState} {outputs₁ outputs₂ : List Output}
    (hfront : run A builtins s₀ msgs = .ok (s₁, outputs₁))
    (hlast : handle A builtins s₁ msg = .ok (s', outputs₂)) (id qty : Nat) :
    WasPlaced A builtins s₀ (msgs ++ [msg]) id qty ↔ WasPlaced A builtins s₀ msgs id qty ∨
      ∃ order, msg = .order order ∧ s₁.nextOrderId = id ∧ s'.nextOrderId = id + 1 ∧
        order.qty.toInt.toNat = qty := by
  constructor
  · rintro ⟨front, order, back, t₁, o₁, t₂, o₂, hsplit, hrun, hhandle, hid, hnext, hqty⟩
    rcases List.eq_nil_or_concat back with rfl | ⟨back, last, rfl⟩
    · obtain ⟨rfl, hmsg⟩ := List.append_inj' hsplit rfl
      cases hmsg
      rw [hfront] at hrun
      cases hrun
      rw [hlast] at hhandle
      cases hhandle
      exact .inr ⟨order, rfl, hid, hnext, hqty⟩
    · rw [List.concat_eq_append, ← List.cons_append, ← List.append_assoc] at hsplit
      have hmsgs := (List.append_inj' hsplit rfl).1
      exact .inl ⟨front, order, back, t₁, o₁, t₂, o₂, hmsgs, hrun, hhandle, hid, hnext, hqty⟩
  · rintro (⟨front, order, back, t₁, o₁, t₂, o₂, rfl, hrest⟩ | ⟨order, rfl, hid, hnext, hqty⟩)
    · exact ⟨front, order, back ++ [msg], t₁, o₁, t₂, o₂, by simp, hrest⟩
    · exact ⟨msgs, order, [], s₁, outputs₁, s', outputs₂, rfl, hfront, hlast, hid, hnext, hqty⟩

theorem run_originals (fees : FeeSchedule) (hreset : ∀ r, Msg.reset r ∉ msgs)
    (hrun : run A builtins (.new fees) msgs = .ok (s, outputs)) :
    Originals s ((executions outputs).foldl orderRows ∅) (WasPlaced A builtins (.new fees) msgs) := by
  induction msgs using List.reverseRecOn generalizing s outputs with
  | nil =>
      cases hrun
      have hnone : ∀ id qty, ¬ WasPlaced A builtins (.new fees) [] id qty := by
        rintro id qty ⟨front, order, back, _, _, _, _, hsplit, _⟩
        simp at hsplit
      have hempty : ∀ asset, ((EngineState.new fees).book asset).orders = ∅ := by
        rintro (_ | _ | _) <;> rfl
      exact ⟨fun h => absurd h (hnone _ _), fun h => absurd h (hnone _ _),
        fun hget => absurd hget (orders_empty hempty)⟩
  | append_singleton msgs msg ih =>
      obtain ⟨s₁, outputs₁, outputs₂, hfront, hlast, rfl⟩ := run_concat hrun
      have hreset' : ∀ r, Msg.reset r ∉ msgs := fun r hmem => hreset r (List.mem_append_left _ hmem)
      have horiginals := ih hreset' hfront
      obtain ⟨hv, hmirrors⟩ := run_mirrors fees hreset' hfront
      have hplaced := wasPlaced_concat hfront hlast
      have hstep := (handle_venue A builtins s₁ hv.book msg).of_ok hlast
      rw [executions_append, List.foldl_append]
      simp only at hstep
      generalize executions outputs₂ = events at hstep
      cases hstep with
      | idle hsame hevents =>
          rw [foldl_funding _ hevents]
          refine (horiginals.keep hsame.nextOrderId (fun hget => hsame.book _ ▸ hget) id).mono ?_
          intro id qty
          rw [hplaced, or_iff_left]
          rintro ⟨_, _, hid, hnext, _⟩
          rw [hsame.nextOrderId] at hnext
          omega
      | @order order _ _ _ _ p bids asks henters =>
          refine (horiginals.order hv henters hmirrors.new_row bids asks).mono fun id qty => ?_
          rw [hplaced, henters.filled.executed.nextOrderId]
          refine or_congr_right ⟨?_, ?_⟩
          · rintro ⟨_, heq, hid, _, hqty⟩
            cases heq
            exact ⟨hid.symm, hqty.symm⟩
          · rintro ⟨rfl, rfl⟩
            exact ⟨order, rfl, rfl, rfl, rfl⟩
      | @cancel cancel _ asset o bids asks hget huser hsame =>
          have hnext := hsame.nextOrderId.trans (nextOrderId_setBook ..)
          refine (horiginals.keep hnext ?_ fun h => h.setRow _ _ _).mono fun id qty => ?_
          · intro a id x hget'
            rw [hsame.book] at hget'
            exact get_orders_removed hget'
          · rw [hplaced, or_iff_left]
            rintro ⟨_, heq, _⟩
            cases heq
      | reset => exact absurd (List.mem_append_right _ (List.mem_singleton_self _)) (hreset _)

end Run

/-! ### The two answers -/

def OrderResponse.Agrees : OrderResponse → OrderResponse → Prop
  | .found order _, .found order' _ =>
      order.id = order'.id ∧ order.userId = order'.userId ∧ order.market = order'.market ∧
        order.side = order'.side ∧ order.price = order'.price ∧
        order.originalQty = order'.originalQty ∧ order.remainingQty = order'.remainingQty
  | _, _ => False

section Answers

variable {s : EngineState} {asset : Asset} {id : Nat} {o : Order} (queueId identifier : String)

/-- The engine finds a resting order in its own book, since no other holds its id. -/
theorem findSome_resting (hv : s.Valid) (hget : (s.book asset).orders[id]? = some o) :
    (Asset.all.findSome? fun a => ((s.book a).getOrder id).map fun o => (o, a.market))
      = some (o, asset.market) := by
  have hother : ∀ a, a ≠ asset → (s.book a).getOrder id = none := by
    intro a hne
    cases hget' : (s.book a).orders[id]? with
    | none => exact hget'
    | some o' => exact absurd (hv.disjoint hget' hget) hne
  have hself : (s.book asset).getOrder id = some o := hget
  cases asset with
  | sol => simp [Asset.all, hself]
  | btc => simp [Asset.all, hself, hother .sol (by decide)]
  | eth => simp [Asset.all, hself, hother .sol (by decide), hother .btc (by decide)]

theorem sendAndWait_resting (hv : s.Valid) (hget : (s.book asset).orders[id]? = some o) :
    s.sendAndWait ⟨o.userId, id, queueId, identifier⟩ = some (.orderStatus identifier
      (some
        { orderId := o.orderId, userId := o.userId, side := sideName o.side, price := o.price,
          remainingQty := o.remainingQty, market := asset.market }) (some "open") none) := by
  have hfound : (some (o, asset.market)).filter (fun f => decide (f.1.userId = o.userId))
      = some (o, asset.market) := by
    simp [Option.filter]
  unfold EngineState.sendAndWait handleGetOrderStatus
  simp only [findSome_resting hv hget, hfound, replyTo, List.findSome?_cons]

/-- What the owner is told as long as there is no row. -/
theorem getOrder_fallback (hv : s.Valid) (hget : (s.book asset).orders[id]? = some o) {db : Tables}
    (hmissing : db.orders[asI64 id]? = none) :
    getOrder db s.sendAndWait queueId identifier o.userId id = .found
      { id := asI64 o.orderId, userId := asI64 o.userId, market := "SOL_USD", side := sideName o.side,
        price := asI64 o.price, originalQty := asI64 o.remainingQty,
        remainingQty := asI64 o.remainingQty, status := "open" } [] := by
  unfold getOrder
  rw [hmissing]
  dsimp only
  rw [sendAndWait_resting queueId identifier hv hget]
  rfl

end Answers

/-- **The two records agree for SOL orders that nothing has been filled of, and for no others.** After
a run without reset, in any build of the engine and of the worker, the owner of a resting order is
told the same by a database to which all events have been applied and by one that has no row for it if
and only if the order is one of the SOL book and rests with the quantity that it was placed with. -/
theorem run_lookups_agree_iff (checks checks' : Bool) (builtins : Builtins) (fees : FeeSchedule)
    (msgs : List Msg) (hreset : ∀ r, Msg.reset r ∉ msgs) {s : EngineState} {outputs : List Output}
    (hrun : run (u64 checks) builtins (.new fees) msgs = .ok (s, outputs)) {uuids : List String}
    (hlength : uuids.length = (executions outputs).length) {db : Tables}
    (happly : applyEvents (u64 checks') .empty (uuids.zip (executions outputs)) = .ok db)
    {asset : Asset} {id : Nat} {o : Order} (hget : (s.book asset).orders[id]? = some o) {db₀ : Tables}
    (hmissing : db₀.orders[asI64 id]? = none) (queueId identifier : String) :
    (getOrder db s.sendAndWait queueId identifier o.userId id).Agrees
        (getOrder db₀ s.sendAndWait queueId identifier o.userId id) ↔
      asset = .sol ∧ WasPlaced (u64 checks) builtins (.new fees) msgs id o.remainingQty := by
  obtain ⟨hv, hmirrors⟩ := run_mirrors fees hreset hrun
  have horiginals := run_originals fees hreset hrun
  have hrows : db.orders = (executions outputs).foldl orderRows ∅ := by
    rw [orders_applyEvents happly, List.map_snd_zip (le_of_eq hlength.symm)]
    rfl
  rw [← hrows] at hmirrors horiginals
  obtain ⟨row, hrow, _, hshows⟩ := hmirrors.resting hget
  obtain ⟨qty, hplaced, row', hrow', horiginal⟩ := horiginals.resting hget
  rw [hrow] at hrow'
  cases hrow'
  have hfound : ∃ trades, getOrder db s.sendAndWait queueId identifier o.userId id
      = .found row trades := by
    unfold getOrder
    rw [hrow]
    exact ⟨_, if_neg (not_not.mpr hshows.userId)⟩
  obtain ⟨trades, hfound⟩ := hfound
  rw [hfound, getOrder_fallback queueId identifier hv hget hmissing]
  constructor
  · rintro ⟨_, _, hmarket, _, _, hqty, _⟩
    have hmarket : asset.market = "SOL_USD" := hshows.market.symm.trans hmarket
    have hqty : asI64 qty = asI64 o.remainingQty := horiginal.symm.trans hqty
    refine ⟨?_, asI64_inj.mp hqty ▸ hplaced⟩
    cases asset with
    | sol => rfl
    | btc => exact absurd hmarket (by decide)
    | eth => exact absurd hmarket (by decide)
  · rintro ⟨rfl, hwhole⟩
    have hqty := horiginals.unique hplaced hwhole
    exact ⟨hshows.id, hshows.userId, hshows.market, hshows.side, hshows.price, hqty ▸ horiginal,
      hshows.remainingQty⟩

/-- Nothing of the bid is filled before the first ask comes. -/
theorem run_lookups_agree_session :
    ∃ s outputs db, run (u64 false) .noSlippage (.new ⟨10, 20⟩) (session.take 3)
        = .ok (s, outputs) ∧
      applyEvents (u64 false) .empty (((executions outputs).map fun _ => "").zip (executions outputs))
        = .ok db ∧
      (getOrder db s.sendAndWait "q" "f" 1 1).Agrees (getOrder .empty s.sendAndWait "q" "f" 1 1) ∧
      WasPlaced (u64 false) .noSlippage (.new ⟨10, 20⟩) (session.take 3) 1 10 := by
  obtain ⟨⟨s, outputs⟩, hrun, htest⟩ := exists_of_returns
    (run (u64 false) .noSlippage (.new ⟨10, 20⟩) (session.take 3))
    (fun r => decide (r.1.solOrderbook.orders[1]? = some (⟨1, 1, .bid, 100, 10⟩ : Order)) &&
      decide (getOrder .empty r.1.sendAndWait "q" "f" 1 1
        = .found ⟨1, 1, "SOL_USD", "bid", 100, 10, 10, "open"⟩ []) &&
      returns (fun db => decide (getOrder db r.1.sendAndWait "q" "f" 1 1
          = .found ⟨1, 1, "SOL_USD", "bid", 100, 10, 10, "open"⟩ []))
        (applyEvents (u64 false) .empty (((executions r.2).map fun _ => "").zip (executions r.2))))
    (by decide +kernel)
  rw [Bool.and_eq_true, Bool.and_eq_true] at htest
  obtain ⟨⟨hrests, hfallback⟩, hreturns⟩ := htest
  obtain ⟨db, happly, hfound⟩ := exists_of_returns _ _ hreturns
  have hagrees : (getOrder db s.sendAndWait "q" "f" 1 1).Agrees
      (getOrder .empty s.sendAndWait "q" "f" 1 1) := by
    rw [of_decide_eq_true hfallback, of_decide_eq_true hfound]
    simp [OrderResponse.Agrees]
  have hrests : (s.book .sol).orders[1]? = some (⟨1, 1, .bid, 100, 10⟩ : Order) :=
    of_decide_eq_true hrests
  have hmissing : Tables.empty.orders[asI64 1]? = none := rfl
  have hwhole := (run_lookups_agree_iff false false .noSlippage ⟨10, 20⟩ (session.take 3)
    (by simp [session]) hrun (by simp) happly hrests hmissing "q" "f").mp hagrees
  exact ⟨s, outputs, db, hrun, happly, hagrees, hwhole.2⟩

/-- An ask that rests in the BTC book, and one in the SOL book of which a part is filled. -/
def twoAsks : List Msg :=
  [.deposit ⟨1, "btc", 5, "q", "a"⟩, .deposit ⟨1, "sol", 10, "q", "b"⟩, .onramp ⟨2, 2000, "q", "c"⟩,
    .order ⟨1, "BTC", "ask", .limit, 100, 5, none, .gtc, "q", "d"⟩,
    .order ⟨1, "SOL", "ask", .limit, 100, 10, none, .gtc, "q", "e"⟩,
    .order ⟨2, "SOL", "bid", .limit, 100, 4, none, .gtc, "q", "f"⟩]

/-- The first has another market in the fallback, and the second another original quantity. -/
theorem twoAsks_differ :
    ∃ s outputs db, run (u64 true) .noSlippage (.new ⟨0, 0⟩) twoAsks = .ok (s, outputs) ∧
      applyEvents (u64 true) .empty (((executions outputs).map fun _ => "").zip (executions outputs))
        = .ok db ∧
      getOrder db s.sendAndWait "q" "g" 1 1 = .found ⟨1, 1, "BTC_USD", "ask", 100, 5, 5, "open"⟩ [] ∧
      getOrder .empty s.sendAndWait "q" "g" 1 1
        = .found ⟨1, 1, "SOL_USD", "ask", 100, 5, 5, "open"⟩ [] ∧
      getOrder db s.sendAndWait "q" "g" 1 2
        = .found ⟨2, 1, "SOL_USD", "ask", 100, 10, 6, "partially_filled"⟩
          [⟨2, 3, 2, 1, "SOL_USD", 100, 4, 400⟩] ∧
      getOrder .empty s.sendAndWait "q" "g" 1 2
        = .found ⟨2, 1, "SOL_USD", "ask", 100, 6, 6, "open"⟩ [] ∧
      ∀ id, id = 1 ∨ id = 2 → ¬ (getOrder db s.sendAndWait "q" "g" 1 id).Agrees
        (getOrder .empty s.sendAndWait "q" "g" 1 id) := by
  obtain ⟨⟨s, outputs⟩, hrun, htest⟩ := exists_of_returns
    (run (u64 true) .noSlippage (.new ⟨0, 0⟩) twoAsks)
    (fun r => decide (getOrder .empty r.1.sendAndWait "q" "g" 1 1
        = .found ⟨1, 1, "SOL_USD", "ask", 100, 5, 5, "open"⟩ []) &&
      decide (getOrder .empty r.1.sendAndWait "q" "g" 1 2
        = .found ⟨2, 1, "SOL_USD", "ask", 100, 6, 6, "open"⟩ []) &&
      returns (fun db => decide (getOrder db r.1.sendAndWait "q" "g" 1 1
          = .found ⟨1, 1, "BTC_USD", "ask", 100, 5, 5, "open"⟩ [] ∧
        getOrder db r.1.sendAndWait "q" "g" 1 2
          = .found ⟨2, 1, "SOL_USD", "ask", 100, 10, 6, "partially_filled"⟩
            [⟨2, 3, 2, 1, "SOL_USD", 100, 4, 400⟩]))
        (applyEvents (u64 true) .empty (((executions r.2).map fun _ => "").zip (executions r.2))))
    (by decide +kernel)
  rw [Bool.and_eq_true, Bool.and_eq_true] at htest
  obtain ⟨⟨hfirst, hsecond⟩, hreturns⟩ := htest
  obtain ⟨db, happly, hrows⟩ := exists_of_returns _ _ hreturns
  have hfirst := of_decide_eq_true hfirst
  have hsecond := of_decide_eq_true hsecond
  obtain ⟨hfirst', hsecond'⟩ := of_decide_eq_true hrows
  refine ⟨s, outputs, db, hrun, happly, hfirst', hfirst, hsecond', hsecond, ?_⟩
  rintro id (rfl | rfl)
  · rw [hfirst, hfirst']
    simp [OrderResponse.Agrees]
  · rw [hsecond, hsecond']
    simp [OrderResponse.Agrees]

end CexRs
