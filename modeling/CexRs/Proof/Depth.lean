import CexRs.Proof.OrdersTable

/-!
# Published depth

The depth of a book lists its levels, best price first, each with the quantity that rests there. Every
message that changes a book publishes its depth afterwards, so the last depth published for a market is
that of its book.
-/

namespace CexRs

open FixedWidth OrderedMap EngineState

namespace Orderbook

variable {ob : Orderbook}

/-! ### The depth of a book -/

def depth (ob : Orderbook) (side : Side) : List LevelSnapshot :=
  (ob.walk side).map fun e => ⟨e.1, ob.restingQty side e.1⟩

theorem levelQty_eq (checks : Bool) (hv : ob.Valid) (hshallow : ob.Shallow) {side : Side} {price : Nat}
    {level : PriceLevel} (hlevel : (ob.levels side)[price]? = some level) :
    ob.levelQty (u64 checks) level = .ok (ob.restingQty side price) := by
  have hsum := sum_queueOrders hv hlevel
  have hlt : 0 + ((ob.queueOrders level).map Order.remainingQty).sum < 2 ^ 64 := by
    rw [Nat.zero_add, hsum, restingQty_eq_weigh]
    exact hshallow side price
  rw [← hsum]
  exact (foldlM_add_of_lt (A := u64 checks) hlt).trans (by rw [Nat.zero_add])

/-- Where no level's quantity leaves the word, the snapshot of a book is its depth. -/
theorem getState_eq (checks : Bool) (hv : ob.Valid) (hshallow : ob.Shallow) :
    ob.getState (u64 checks) = .ok ⟨ob.symbol, ob.depth .bid, ob.depth .ask⟩ := by
  have hlevels : ∀ side, ob.snapshotLevels (u64 checks) (ob.walk side) = .ok (ob.depth side) := by
    intro side
    -- along any part of the walk
    suffices h : ∀ l : List (Nat × PriceLevel), (∀ e ∈ l, e ∈ ob.walk side) →
        ob.snapshotLevels (u64 checks) l = .ok (l.map fun e => ⟨e.1, ob.restingQty side e.1⟩) from
      h _ fun _ he => he
    intro l
    induction l with
    | nil => exact fun _ => rfl
    | cons e l ih =>
        obtain ⟨price, level⟩ := e
        intro hl
        have hqty := levelQty_eq checks hv hshallow ((ob.mem_walk side).mp (hl _ (List.mem_cons_self ..)))
        have ih := ih fun e he => hl e (List.mem_cons_of_mem _ he)
        unfold snapshotLevels at ih ⊢
        rw [List.mapM_cons, ih]
        dsimp only at hqty ⊢
        rw [hqty]
        rfl
  unfold getState
  rw [hlevels, ok_bind, hlevels]
  rfl

/-- In a checking build, a snapshot is taken only if no level's quantity leaves the word. -/
theorem shallow_of_getState (hv : ob.Valid) {snapshot : OrderbookSnapshot}
    (h : ob.getState (u64 true) = .ok snapshot) : ob.Shallow := by
  obtain ⟨bids, hbids, h⟩ := bind_ok h
  obtain ⟨asks, hasks, _⟩ := bind_ok h
  have hlevels : ∀ side, ∃ levels, ob.snapshotLevels (u64 true) (ob.walk side) = .ok levels := by
    intro side
    cases side with
    | bid => exact ⟨bids, hbids⟩
    | ask => exact ⟨asks, hasks⟩
  intro side price
  rw [← restingQty_eq_weigh]
  cases hlevel : (ob.levels side)[price]? with
  | none =>
      rw [restingQty_of_none hv hlevel]
      decide
  | some level =>
      obtain ⟨levels, hlevels⟩ := hlevels side
      obtain ⟨l, hl⟩ := mapM_ok hlevels ((ob.mem_walk side).mpr hlevel)
      obtain ⟨qty, hqty, _⟩ := bind_ok hl
      rw [← sum_queueOrders hv hlevel]
      have hlt := foldlM_add_ok (Nat.two_pow_pos 64) hqty
      simpa [queueOrders] using hlt

def Counts (ob : Orderbook) (id : Nat) (side : Side) (price : Nat) : Prop :=
  ∃ level, (ob.levels side)[price]? = some level ∧ level.orders.count id = 1

/-- What a snapshot says of a book: each side's levels in strict price order, each with the positive
quantity that rests there, and every resting order in exactly one of them. -/
structure Shows (ob : Orderbook) (levels : Side → List LevelSnapshot) : Prop where
  bids : (levels .bid).Pairwise fun a b => b.price < a.price
  asks : (levels .ask).Pairwise fun a b => a.price < b.price
  positive : ∀ side, ∀ l ∈ levels side, 0 < l.qty
  qty : ∀ side, ∀ l ∈ levels side, l.qty = ob.restingQty side l.price
  once : ∀ {id : Nat} {o : Order}, ob.orders[id]? = some o →
    ∃! x : Side × LevelSnapshot, x.2 ∈ levels x.1 ∧ ob.Counts id x.1 x.2.price

theorem mem_depth {side : Side} {l : LevelSnapshot} (h : l ∈ ob.depth side) :
    l.qty = ob.restingQty side l.price ∧ ∃ level, (ob.levels side)[l.price]? = some level := by
  obtain ⟨⟨price, level⟩, hmem, rfl⟩ := List.mem_map.mp h
  exact ⟨rfl, level, (ob.mem_walk side).mp hmem⟩

theorem restingQty_pos (hv : ob.Valid) {side : Side} {price : Nat} {level : PriceLevel}
    (hlevel : (ob.levels side)[price]? = some level) : 0 < ob.restingQty side price := by
  obtain ⟨id, ids, hqueue⟩ := List.exists_cons_of_ne_nil (hv.nonempty hlevel)
  have hmem : id ∈ level.orders := hqueue ▸ List.mem_cons_self ..
  obtain ⟨o, hget, hid, _⟩ := hv.queued hlevel id hmem
  have hpos := (hv.positive hget).2
  have hqueued : o ∈ ob.queueOrders level := by
    rw [hv.mem_queueOrders, hid]
    exact ⟨hmem, hget⟩
  rw [← sum_queueOrders hv hlevel]
  have hle := List.single_le_sum (fun _ _ => Nat.zero_le _) _
    (List.mem_map_of_mem (f := Order.remainingQty) hqueued)
  omega

theorem restingQty_le (ob : Orderbook) (side : Side) (price : Nat) :
    ob.restingQty side price ≤ (ob.restingOrders.map Order.remainingQty).sum :=
  (List.filter_sublist.map _).sum_le_sum fun _ _ => Nat.zero_le _

theorem shows_depth (hv : ob.Valid) : ob.Shows ob.depth where
  bids := by
    rw [depth, List.pairwise_map]
    apply (ob.walk_pairwise_past .bid).imp
    intro a b hpast
    exact of_decide_eq_true hpast
  asks := by
    rw [depth, List.pairwise_map]
    apply (ob.walk_pairwise_past .ask).imp
    intro a b hpast
    exact of_decide_eq_true hpast
  positive := by
    intro side l hl
    obtain ⟨hqty, level, hlevel⟩ := mem_depth hl
    rw [hqty]
    exact restingQty_pos hv hlevel
  qty := fun side l hl => (mem_depth hl).1
  once := by
    intro id o hget
    obtain ⟨level, hlevel, hmem⟩ := hv.listed hget
    refine ⟨(o.side, ⟨o.price, ob.restingQty o.side o.price⟩), ⟨?_, level, hlevel, ?_⟩, ?_⟩
    · exact List.mem_map.mpr ⟨(o.price, level), (ob.mem_walk o.side).mpr hlevel, rfl⟩
    · exact List.count_eq_one_of_mem (hv.nodup hlevel) hmem
    · rintro ⟨side, price, qty⟩ ⟨hl, level', hlevel', hcount⟩
      have hmem' : id ∈ level'.orders := List.count_pos_iff.mp (by omega)
      obtain ⟨rfl, rfl⟩ := hv.level_unique hlevel' hmem' hget
      have hqty := (mem_depth hl).1
      simp only at hqty
      rw [hqty]

end Orderbook

/-! ### The last depth of a market -/

def ExecutionEvent.depthOf (market : String) : ExecutionEvent → Option (List (Nat × Nat) × List (Nat × Nat))
  | .depthUpdated market' bids asks => if market' = market then some (bids, asks) else none
  | _ => none

def lastDepth (market : String) (events : List ExecutionEvent) :
    Option (List (Nat × Nat) × List (Nat × Nat)) :=
  events.reverse.findSome? (ExecutionEvent.depthOf market)

theorem lastDepth_append (market : String) (events events' : List ExecutionEvent) :
    lastDepth market (events ++ events') = (lastDepth market events').or (lastDepth market events) := by
  rw [lastDepth, List.reverse_append, List.findSome?_append]
  rfl

theorem mem_of_lastDepth {market : String} {events : List ExecutionEvent} {bids asks : List (Nat × Nat)}
    (h : lastDepth market events = some (bids, asks)) : .depthUpdated market bids asks ∈ events := by
  obtain ⟨e, hmem, he⟩ := List.exists_of_findSome?_eq_some h
  rw [List.mem_reverse] at hmem
  cases e with
  | depthUpdated market' bids' asks' =>
      simp only [ExecutionEvent.depthOf, Option.ite_none_right_eq_some] at he
      obtain ⟨rfl, he⟩ := he
      cases he
      exact hmem
  | _ => cases he

theorem not_mem_of_lastDepth {market : String} {events : List ExecutionEvent}
    (h : lastDepth market events = none) (bids asks : List (Nat × Nat)) :
    .depthUpdated market bids asks ∉ events := by
  intro hmem
  have hnone := List.findSome?_eq_none_iff.mp h _ (List.mem_reverse.mpr hmem)
  simp [ExecutionEvent.depthOf] at hnone

theorem Asset.market_injective : Function.Injective Asset.market := by
  intro a b h
  cases a <;> cases b <;> first | rfl | simp [Asset.market] at h

section Messages

variable {A : Arith} {builtins : Builtins} {s s' : EngineState}

/-- A message that leaves a book changed publishes its depth. -/
theorem VenueStep.depth {msg : Msg} {events : List ExecutionEvent}
    (h : VenueStep A builtins s msg s' events) (hreset : ∀ r, msg ≠ .reset r) (asset : Asset) :
    s'.book asset = s.book asset ∨ ∃ bids asks, .depthUpdated asset.market bids asks ∈ events := by
  cases h with
  | idle hsame _ => exact Or.inl (hsame.book asset)
  | @order msg side found fs m p bids asks henters =>
      by_cases hasset : asset = p.asset
      · subst hasset
        exact Or.inr ⟨bids, asks, List.mem_append_right _ (List.mem_singleton_self _)⟩
      · exact Or.inl (henters.filled.executed.book_other asset hasset)
  | @cancel msg s' a o bids asks hget huser hsame =>
      by_cases hasset : asset = a
      · subst hasset
        exact Or.inr ⟨bids, asks, by simp⟩
      · left
        rw [hsame.book, book_setBook_of_ne _ _ _ hasset]
  | @reset msg => exact absurd rfl (hreset msg)

def ShowsDepth (A : Arith) (s' : EngineState) (events : List ExecutionEvent) : Prop :=
  ∀ market bids asks, .depthUpdated market bids asks ∈ events → ∃ asset, market = Asset.market asset ∧
    depthEvent A s' asset = .ok (.execution (.depthUpdated market bids asks))

theorem handleOrder_showsDepth (hv : s.Valid) {msg : OrderMsg} {outputs : List Output}
    (h : handleOrder A s builtins msg = .ok (s', outputs)) : ShowsDepth A s' (executions outputs) := by
  obtain ⟨verdict, hjudge, hafter⟩ := bind_ok h
  have hverdict := (judgeOrder_venue A msg hv.book).of_ok hjudge
  cases verdict with
  | refused state reply =>
      obtain ⟨_, hrefusal⟩ := hverdict
      have hreply : executions [reply] = [] := by
        rcases hrefusal with ⟨error, rfl⟩ | ⟨rfl, _⟩
        · rfl
        · rfl
      cases hafter
      intro market bids asks hmem
      rw [hreply] at hmem
      cases hmem
  | placed p =>
      obtain ⟨side, found, fs, m, henters⟩ := hverdict
      obtain ⟨depth, hdepth, hafter⟩ := bind_ok hafter
      obtain ⟨bids, asks, rfl⟩ := (depthEvent_venue A p.state p.asset).of_ok hdepth
      cases hafter
      intro market bids' asks' hmem
      rw [executions_placed msg henters.filled.resting, List.mem_append, List.mem_append] at hmem
      rcases hmem with (htrade | hresting) | hown
      · obtain ⟨t, _, hreports⟩ := exists_left_of_mem henters.filled.reports htrade
        obtain ⟨_, _, _, heq⟩ := hreports
        cases heq
      · unfold restingEvents at hresting
        simp at hresting
      · rw [List.mem_singleton] at hown
        cases hown
        exact ⟨p.asset, rfl, hdepth⟩

theorem handleCancel_showsDepth (hv : s.Valid) {msg : CancelMsg} {outputs : List Output}
    (h : handleCancel A s msg = .ok (s', outputs)) : ShowsDepth A s' (executions outputs) := by
  unfold handleCancel at h
  rcases cancelInBooks_spec s hv.book msg.orderId msg.userId Asset.all with
    ⟨hrun, _⟩ | ⟨asset, o, _, _, hrun⟩
  · rw [hrun] at h
    cases h
    intro market bids asks hmem
    cases hmem
  · simp only [hrun, ok_bind] at h
    obtain ⟨s₁, _, h⟩ := bind_ok h
    obtain ⟨depth, hdepth, h⟩ := bind_ok h
    obtain ⟨bids, asks, rfl⟩ := (depthEvent_venue A s₁ asset).of_ok hdepth
    cases h
    intro market bids' asks' hmem
    simp only [executions, replyTo, List.filterMap_cons, List.filterMap_nil, List.mem_cons, reduceCtorEq,
      List.not_mem_nil, or_false, false_or] at hmem
    cases hmem
    exact ⟨asset, rfl, hdepth⟩

theorem handle_showsDepth (hv : s.Valid) {msg : Msg} {outputs : List Output}
    (h : handle A builtins s msg = .ok (s', outputs)) : ShowsDepth A s' (executions outputs) := by
  have hnone : ∀ {state : EngineState} {events : List ExecutionEvent},
      (∀ market bids asks, .depthUpdated market bids asks ∉ events) → ShowsDepth A state events :=
    fun hevents market bids asks hmem => absurd hmem (hevents market bids asks)
  cases msg with
  | order msg => exact handleOrder_showsDepth hv h
  | cancel msg => exact handleCancel_showsDepth hv h
  | signup msg =>
      cases h
      exact hnone (by simp [executions, balanceReply, replyTo])
  | onramp msg =>
      obtain ⟨s₁, _, h⟩ := bind_ok h
      cases h
      exact hnone (by simp [executions, balanceReply, replyTo])
  | deposit msg =>
      obtain ⟨s₁, _, h⟩ := bind_ok h
      cases h
      exact hnone (by simp [executions, balanceReply, replyTo])
  | balance msg =>
      cases h
      exact hnone (by simp [executions, handleBalance, balanceReply, replyTo])
  | orderbook msg =>
      obtain ⟨replies, hbook, h⟩ := bind_ok h
      cases h
      unfold handleGetOrderbook at hbook
      split at hbook
      · cases hbook
        exact hnone (by simp [executions, replyTo])
      · obtain ⟨snapshot, _, hbook⟩ := bind_ok hbook
        cases hbook
        exact hnone (by simp [executions, replyTo])
  | openOrders msg =>
      cases h
      exact hnone (by simp [executions, handleGetOpenOrders, replyTo])
  | orderStatus msg =>
      cases h
      exact hnone (by simp [executions, handleGetOrderStatus, replyTo])
  | reset msg =>
      cases h
      exact hnone (by simp [executions, replyTo])

end Messages

/-! ### Runs -/

/-- The last depth of every market that has published one is that of its book, and in the others no
order has ever rested. -/
def FollowsDepth (A : Arith) (s : EngineState) (events : List ExecutionEvent) : Prop :=
  ∀ asset, match lastDepth asset.market events with
    | some (bids, asks) => depthEvent A s asset
        = .ok (.execution (.depthUpdated asset.market bids asks))
    | none => (s.book asset).orders = ∅

section Run

variable {A : Arith} {builtins : Builtins}

theorem depthEvent_congr {s s' : EngineState} {asset : Asset} (h : s'.book asset = s.book asset) :
    depthEvent A s' asset = depthEvent A s asset := by
  unfold depthEvent
  rw [h]

theorem FollowsDepth.step {s s' : EngineState} {msg : Msg} {events : List ExecutionEvent}
    {outputs : List Output} (h : FollowsDepth A s events) (hv : s.Valid) (hreset : ∀ r, msg ≠ .reset r)
    (hhandle : handle A builtins s msg = .ok (s', outputs)) :
    FollowsDepth A s' (events ++ executions outputs) := by
  have hstep := (handle_venue A builtins s hv.book msg).of_ok hhandle
  intro asset
  rw [lastDepth_append]
  cases hlast : lastDepth asset.market (executions outputs) with
  | some depth =>
      obtain ⟨bids, asks⟩ := depth
      obtain ⟨a, hmarket, hdepth⟩ := handle_showsDepth hv hhandle _ _ _ (mem_of_lastDepth hlast)
      have ha := Asset.market_injective hmarket
      subst ha
      exact hdepth
  | none =>
      have hbook : s'.book asset = s.book asset := by
        rcases hstep.depth hreset asset with hbook | ⟨bids, asks, hmem⟩
        · exact hbook
        · exact absurd hmem (not_mem_of_lastDepth hlast bids asks)
      have hbefore := h asset
      rw [Option.none_or, depthEvent_congr hbook, hbook]
      exact hbefore

theorem run_followsDepth {fees : FeeSchedule} {msgs : List Msg} {s : EngineState} {outputs : List Output}
    (hreset : ∀ r, Msg.reset r ∉ msgs) (hrun : run A builtins (.new fees) msgs = .ok (s, outputs)) :
    s.Valid ∧ FollowsDepth A s (executions outputs) := by
  induction msgs using List.reverseRecOn generalizing s outputs with
  | nil =>
      cases hrun
      refine ⟨valid_new fees, fun asset => ?_⟩
      cases asset <;> rfl
  | append_singleton msgs msg ih =>
      obtain ⟨s₁, outputs₁, outputs₂, hfront, hlast, rfl⟩ := run_concat hrun
      obtain ⟨hv, hfollows⟩ := ih (fun r hmem => hreset r (List.mem_append_left _ hmem)) hfront
      have hstep := (handle_venue A builtins s₁ hv.book msg).of_ok hlast
      refine ⟨hstep.valid hv, ?_⟩
      rw [executions_append]
      apply hfollows.step hv _ hlast
      rintro r rfl
      exact hreset r (List.mem_append_right _ (List.mem_singleton_self _))

variable (A builtins) in
def HasRestedIn (s : EngineState) (msgs : List Msg) (asset : Asset) : Prop :=
  ∃ (front back : List Msg) (s₁ : EngineState) (outputs : List Output) (id : Nat) (o : Order),
    msgs = front ++ back ∧ run A builtins s front = .ok (s₁, outputs) ∧
      (s₁.book asset).orders[id]? = some o

/-- A market in which an order has rested has published its depth. -/
theorem HasRestedIn.published {fees : FeeSchedule} {msgs : List Msg} {s : EngineState}
    {outputs : List Output} {asset : Asset} (h : HasRestedIn A builtins (.new fees) msgs asset)
    (hreset : ∀ r, Msg.reset r ∉ msgs) (hrun : run A builtins (.new fees) msgs = .ok (s, outputs)) :
    ∃ depth, lastDepth asset.market (executions outputs) = some depth := by
  obtain ⟨front, back, s₁, outputs₁, id, o, rfl, hfront, hget⟩ := h
  obtain ⟨_, _, outputs₂, hfront', _, rfl⟩ := run_append hrun
  rw [hfront] at hfront'
  cases hfront'
  have hfollows := (run_followsDepth (fun r hmem => hreset r (List.mem_append_left _ hmem))
    hfront).2 asset
  rw [executions_append, lastDepth_append]
  cases hlast : lastDepth asset.market (executions outputs₂) with
  | some depth => exact ⟨depth, rfl⟩
  | none =>
      rw [Option.none_or]
      cases hbefore : lastDepth asset.market (executions outputs₁) with
      | some depth => exact ⟨depth, rfl⟩
      | none =>
          simp only [hbefore] at hfollows
          simp [hfollows] at hget

end Run

def OrderbookSnapshot.levels (snapshot : OrderbookSnapshot) : Side → List LevelSnapshot
  | .bid => snapshot.bids
  | .ask => snapshot.asks

def firstLevels (levels : List LevelSnapshot) : List (Nat × Nat) :=
  (levels.take 25).map fun l => (l.price, l.qty)

/-- **Published depth follows the book.** After a run without reset, in either build, the snapshot of a
book whose levels' quantities are words shows its resting orders, and if an order has ever rested there,
the last depth published for the market lists the first 25 levels of that snapshot. -/
theorem run_depth_follows (checks : Bool) (builtins : Builtins) (fees : FeeSchedule) (msgs : List Msg)
    (hreset : ∀ r, Msg.reset r ∉ msgs) {s : EngineState} {outputs : List Output}
    (hrun : run (u64 checks) builtins (.new fees) msgs = .ok (s, outputs)) {asset : Asset}
    (hrested : HasRestedIn (u64 checks) builtins (.new fees) msgs asset)
    (hsums : ∀ side price, (s.book asset).restingQty side price < 2 ^ 64) :
    ∃ snapshot, (s.book asset).getState (u64 checks) = .ok snapshot ∧
      (s.book asset).Shows snapshot.levels ∧
      lastDepth asset.market (executions outputs)
        = some (firstLevels snapshot.bids, firstLevels snapshot.asks) := by
  obtain ⟨hv, hfollows⟩ := run_followsDepth hreset hrun
  have hshallow : (s.book asset).Shallow := by
    intro side price
    rw [← Orderbook.restingQty_eq_weigh]
    exact hsums side price
  have hstate := Orderbook.getState_eq checks (hv.book asset) hshallow
  refine ⟨_, hstate, ?_, ?_⟩
  · have hlevels : OrderbookSnapshot.levels ⟨(s.book asset).symbol, (s.book asset).depth .bid,
        (s.book asset).depth .ask⟩ = (s.book asset).depth := by
      funext side
      cases side <;> rfl
    rw [hlevels]
    exact Orderbook.shows_depth (hv.book asset)
  · obtain ⟨⟨bids, asks⟩, hlast⟩ := hrested.published hreset hrun
    have hdepth := hfollows asset
    simp only [hlast, depthEvent, hstate, ok_bind] at hdepth
    cases hdepth
    exact hlast

/-- After a partial fill of the bid the last depth shows what is left of it. -/
theorem run_depth_follows_session :
    ∃ s outputs, ∃ snapshot : OrderbookSnapshot,
      run (u64 false) .noSlippage (.new ⟨10, 20⟩) (session.take 4) = .ok (s, outputs) ∧
      (s.book .sol).Shows snapshot.levels ∧ lastDepth "SOL_USD" (executions outputs)
        = some (firstLevels snapshot.bids, firstLevels snapshot.asks) ∧
      firstLevels snapshot.bids = [(100, 5)] := by
  obtain ⟨⟨s, outputs⟩, hrun, htest⟩ := exists_of_returns
    (run (u64 false) .noSlippage (.new ⟨10, 20⟩) (session.take 4))
    (fun r => ((r.1.book .sol).orders[1]?).isSome &&
      decide (((r.1.book .sol).restingOrders.map Order.remainingQty).sum < 2 ^ 64) &&
      decide (lastDepth "SOL_USD" (executions r.2) = some ([(100, 5)], []))) (by decide +kernel)
  rw [Bool.and_eq_true, Bool.and_eq_true] at htest
  obtain ⟨⟨hrests, hsum⟩, hlast⟩ := htest
  obtain ⟨o, hget⟩ := Option.isSome_iff_exists.mp hrests
  obtain ⟨snapshot, _, hshows, hdepth⟩ := run_depth_follows false .noSlippage ⟨10, 20⟩
    (session.take 4) (by simp [session]) hrun
    ⟨session.take 4, [], s, outputs, 1, o, (List.append_nil _).symm, hrun, hget⟩
    (fun side price => lt_of_le_of_lt (Orderbook.restingQty_le ..) (of_decide_eq_true hsum))
  have hsame := (of_decide_eq_true hlast).symm.trans hdepth
  simp only [Option.some.injEq, Prod.mk.injEq] at hsame
  exact ⟨s, outputs, snapshot, hrun, hshows, hdepth, hsame.1.symm⟩

end CexRs
