import CexRs.Proof.Depth
import CexRs.Proof.Feeds

/-!
# Market data from end to end

The engine publishes a market's depth whenever its book changes, the listener forwards what is published,
and a subscriber is sent what is forwarded for its topic. So what a subscriber has been sent last is the
book as it stands.
-/

namespace CexRs

open FixedWidth EngineState

/-- Depth is published for the three markets only. -/
def Listed (events : List ExecutionEvent) : Prop :=
  ∀ market bids asks, .depthUpdated market bids asks ∈ events → ∃ asset, market = Asset.market asset

theorem run_listed {A : Arith} {builtins : Builtins} {fees : FeeSchedule} {msgs : List Msg}
    {s : EngineState} {outputs : List Output}
    (hrun : run A builtins (.new fees) msgs = .ok (s, outputs)) :
    s.Valid ∧ Listed (executions outputs) := by
  induction msgs using List.reverseRecOn generalizing s outputs with
  | nil =>
      cases hrun
      exact ⟨valid_new fees, by simp [Listed, executions]⟩
  | append_singleton msgs msg ih =>
      obtain ⟨s₁, outputs₁, outputs₂, hfront, hlast, rfl⟩ := run_concat hrun
      obtain ⟨hv, hlisted⟩ := ih hfront
      have hstep := (handle_venue A builtins s₁ hv.book msg).of_ok hlast
      refine ⟨hstep.valid hv, fun market bids asks hmem => ?_⟩
      rw [executions_append, List.mem_append] at hmem
      rcases hmem with hmem | hmem
      · exact hlisted market bids asks hmem
      · obtain ⟨asset, hmarket, _⟩ := handle_showsDepth hv hlast market bids asks hmem
        exact ⟨asset, hmarket⟩

theorem uppercase_market (casing : Casing) (asset : Asset) :
    casing.uppercase asset.market = asset.market := by
  rw [casing.uppercase_ascii _ (by cases asset <;> simp [Asset.market])]
  cases asset <;> decide +kernel

/-- What a depth feed is sent last is what has been published last. -/
theorem getLast_depthFeed (casing : Casing) (asset : Asset) (events : List (Int × ExecutionEvent))
    (hlisted : Listed (events.map Prod.snd)) :
    (events.filterMap fun event => marketMsg casing "depth" asset.market event.1 event.2).getLast?
      = (lastDepth asset.market (events.map Prod.snd)).map fun depth =>
        .depth asset.market depth.1 depth.2 := by
  induction events using List.reverseRecOn with
  | nil => rfl
  | append_singleton events event ih =>
      rw [List.map_append] at hlisted ⊢
      have hfront : Listed (events.map Prod.snd) := fun market bids asks hmem =>
        hlisted market bids asks (List.mem_append_left _ hmem)
      rw [List.filterMap_append, List.getLast?_append, ih hfront, lastDepth_append]
      obtain ⟨timestamp, event⟩ := event
      have hmsg : marketMsg casing "depth" asset.market timestamp event
          = (event.depthOf asset.market).map fun depth => .depth asset.market depth.1 depth.2 := by
        cases event with
        | depthUpdated market bids asks =>
            obtain ⟨a, rfl⟩ := hlisted market bids asks (by simp)
            by_cases hmarket : a.market = asset.market <;>
              simp [marketMsg, ExecutionEvent.depthOf, uppercase_market, hmarket]
        | _ => simp [marketMsg, ExecutionEvent.depthOf]
      simp only [List.filterMap_cons, List.filterMap_nil, List.map_cons, List.map_nil, hmsg]
      cases hdepth : event.depthOf asset.market <;> simp [lastDepth, hdepth]

/-- **A depth subscriber sees the book.** The engine has run without reset, and everything that it has
published since a client's session read its subscription to a market's depth has been forwarded, however
the sessions interleave with that. If that was a depth of the market at all, then the last message that the
client has been sent for it lists the first 25 levels of the market's book as it stands. -/
theorem run_depth_feed_current (checks : Bool) (builtins : Builtins) (fees : FeeSchedule)
    (msgs : List Msg) (hreset : ∀ r, Msg.reset r ∉ msgs) {s : EngineState} {outputs : List Output}
    (hrun : run (u64 checks) builtins (.new fees) msgs = .ok (s, outputs)) (asset : Asset)
    (hsums : ∀ side price, (s.book asset).restingQty side price < 2 ^ 64)
    (format : WsFormat) (c : ClientId) (before actions : List ServerAction) (now : Nat)
    (text channel market : String) (hlistens : (WsServer.init.run format before).listens c)
    (hrest : (WsServer.init.run format before).broadcast = none)
    (hparse : format.parse text = .ok (.subscribe channel (some market)))
    (hchannel : format.lowercase channel = "depth") (hmarket : format.uppercase market = asset.market)
    (hkeeps : ∀ action ∈ actions,
      WsServer.Keeps format c (.topic (format.formatTopic channel (some market))) action)
    {earlier : List ExecutionEvent} {events : List (Int × ExecutionEvent)}
    (hevents : executions outputs = earlier ++ events.map Prod.snd)
    (hlistener : actions.filter ServerAction.ofListener
      = handingOut (events.flatMap fun event => forward format.toCasing event.1 event.2))
    (hsome : lastDepth asset.market (events.map Prod.snd) ≠ none) :
    ∃ snapshot, (s.book asset).getState (u64 checks) = .ok snapshot ∧
      (s.book asset).Shows snapshot.levels ∧
      (((WsServer.init.run format (before ++ .read c now text :: actions)).io c).feed
        (.topic (format.formatTopic channel (some market)))).getLast?
        = some (.depth asset.market (firstLevels snapshot.bids) (firstLevels snapshot.asks)) := by
  obtain ⟨hv, hfollows⟩ := run_followsDepth hreset hrun
  have hshallow : (s.book asset).Shallow := by
    intro side price
    rw [← Orderbook.restingQty_eq_weigh]
    exact hsums side price
  have hstate := Orderbook.getState_eq checks (hv.book asset) hshallow
  have hlisted : Listed (events.map Prod.snd) := fun m bids asks hmem =>
    (run_listed hrun).2 m bids asks (hevents ▸ List.mem_append_right _ hmem)
  obtain ⟨⟨bids, asks⟩, hlast⟩ := Option.ne_none_iff_exists'.mp hsome
  have hdepth := hfollows asset
  simp only [hevents, lastDepth_append, hlast, Option.some_or, depthEvent, hstate, ok_bind] at hdepth
  have hrun' : WsServer.init.run format (before ++ .read c now text :: actions)
      = (WsServer.init.run format before).run format (.read c now text :: actions) := by
    rw [WsServer.run, List.foldl_append]
    rfl
  refine ⟨_, hstate, ?_, ?_⟩
  · have hlevels : OrderbookSnapshot.levels ⟨(s.book asset).symbol, (s.book asset).depth .bid,
        (s.book asset).depth .ask⟩ = (s.book asset).depth := by
      funext side
      cases side <;> rfl
    rw [hlevels]
    exact Orderbook.shows_depth (hv.book asset)
  · rw [hrun', WsServer.feed_market (WsServer.sane_run format c before) hlistens hrest hparse
      (by simp [hchannel]) hkeeps hlistener, hchannel, hmarket, List.getLast?_append,
      getLast_depthFeed format.toCasing asset events hlisted, hlast]
    cases hdepth
    rfl

/-- What `session` publishes up to its fourth message, before and after a subscription is read. -/
def publishedBefore : List ExecutionEvent :=
  [.fundingExecuted 1 "USD" 2000 "onramp", .fundingExecuted 2 "SOL" 10 "deposit",
    .orderCreated 1 1 "SOL_USD" "bid" 100 10 10 "open"]

def publishedAfter : List (Int × ExecutionEvent) :=
  [(0, .depthUpdated "SOL_USD" [(100, 10)] []),
    (1, .tradeExecuted 1 2 1 2 "SOL_USD" 100 5 500 5 0 0 1), (2, .depthUpdated "SOL_USD" [(100, 5)] [])]

/-- The first of two clients subscribes to the depth of a market, whatever the text. -/
def depthFormat : WsFormat where
  toCasing := .ascii
  parse _ := .ok (.subscribe "Depth" (some "sol_usd"))
  verify _ _ := none

/-- Its session writes after each lock of the listener, and sends its answer late. -/
def depthActions : List ServerAction :=
  (handingOut (publishedAfter.flatMap fun event => forward .ascii event.1 event.2)).flatMap (fun action =>
    [action, .write 1]) ++ [.answer 1, .write 1]

theorem calls_depthActions : ∀ action ∈ depthActions, WsServer.calls depthFormat action = none := by
  decide +kernel

theorem run_depth_feed_current_session :
    ∃ s outputs, run (u64 false) .noSlippage (.new ⟨10, 20⟩) (session.take 4) = .ok (s, outputs) ∧
      ∃ snapshot : OrderbookSnapshot, (s.book .sol).Shows snapshot.levels ∧
        (((WsServer.init.run depthFormat (spotBefore ++ .read 1 0 "sub" :: depthActions)).io 1).feed
          (.topic "depth:SOL_USD")).getLast?
          = some (.depth "SOL_USD" (firstLevels snapshot.bids) (firstLevels snapshot.asks)) := by
  obtain ⟨⟨s, outputs⟩, hrun, htest⟩ := exists_of_returns
    (run (u64 false) .noSlippage (.new ⟨10, 20⟩) (session.take 4))
    (fun r => decide (((r.1.book .sol).restingOrders.map Order.remainingQty).sum < 2 ^ 64) &&
      decide (executions r.2 = publishedBefore ++ publishedAfter.map Prod.snd)) (by decide +kernel)
  rw [Bool.and_eq_true] at htest
  obtain ⟨hsum, hevents⟩ := htest
  have hkeeps : ∀ action ∈ depthActions, WsServer.Keeps depthFormat 1
      (.topic (depthFormat.formatTopic "Depth" (some "sol_usd"))) action := by
    intro action hmem call hcall
    rw [calls_depthActions action hmem] at hcall
    cases hcall
  obtain ⟨snapshot, _, hshows, hfeed⟩ := run_depth_feed_current false .noSlippage ⟨10, 20⟩
    (session.take 4) (by simp [session]) hrun .sol
    (fun side price => lt_of_le_of_lt (Orderbook.restingQty_le ..) (of_decide_eq_true hsum))
    depthFormat 1 spotBefore depthActions 0 "sub" "Depth" "sol_usd" (by decide +kernel)
    (by decide +kernel) rfl (by decide +kernel) (by decide +kernel) hkeeps (of_decide_eq_true hevents)
    (by decide +kernel) (by decide +kernel)
  have htopic : depthFormat.formatTopic "Depth" (some "sol_usd") = "depth:SOL_USD" := by decide +kernel
  rw [htopic] at hfeed
  exact ⟨s, outputs, hrun, snapshot, hshows, hfeed⟩

end CexRs
