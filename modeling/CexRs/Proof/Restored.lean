import CexRs.Proof.Recovery
import CexRs.Proof.Representation
import CexRs.Snapshot

/-!
# Restored states

A state saved from a run carries its counter of order ids, and a restored engine goes on from it. A state
stored before the counter existed is read with the counter at 1, whatever ids rest in its only book, which
had been handed out by a counter of its own. The new ids then run into the old ones.
-/

namespace CexRs

open FixedWidth OrderedMap EngineState

/-! ### Books with a counter of their own -/

namespace Orderbook

inductive Built : Orderbook → Prop
  | new (symbol : String) : Built (.new symbol)
  | addOrder {ob ob' : Orderbook} {checks : Bool} {userId price qty : Nat} {side : Side}
      {tif : TimeInForce} {results : Except OrderbookError (List MatchResult)} (h : Built ob)
      (hrun : ob.addOrder (u64 checks) userId side price qty tif = .ok (ob', results)) : Built ob'
  | executeMarketOrder {ob ob' : Orderbook} {checks : Bool} {userId qty : Nat} {side : Side}
      {worst : Option Nat} {results : Except OrderbookError (List MatchResult)} (h : Built ob)
      (hrun : ob.executeMarketOrder (u64 checks) userId side qty worst = .ok (ob', results)) : Built ob'
  | cancelOrder {ob ob' : Orderbook} {orderId userId : Nat} {cancelled : OrderCancelled} (h : Built ob)
      (hrun : ob.cancelOrder orderId userId = .ok (.ok (ob', cancelled))) : Built ob'

structure OwnIds (ob : Orderbook) : Prop where
  valid : ob.Valid
  positive : 0 < ob.nextOrderId
  word : ob.nextOrderId < 2 ^ 64
  between : ∀ {id : Nat} {o : Order}, ob.orders[id]? = some o → 0 < id ∧ id < ob.nextOrderId

variable {ob ob' : Orderbook}

/-- The book once its own counter has been moved on by one. -/
theorem issue_own (ob : Orderbook) :
    { ob with nextOrderId := ob.nextOrderId + 1 } = ob.issue ob.nextOrderId := by
  simp [countTo]

theorem OwnIds.issue (h : ob.OwnIds) (hid : ob.nextOrderId + 1 < 2 ^ 64) :
    (ob.issue ob.nextOrderId).OwnIds := by
  rw [← issue_own]
  refine ⟨issue_own ob ▸ h.valid.issue _, Nat.succ_pos _, hid, fun hget => ?_⟩
  obtain ⟨hpos, hlt⟩ := h.between hget
  exact ⟨hpos, Nat.lt_succ_of_lt hlt⟩

/-- A match under the counter's id leaves orders of the book, and ids below the moved counter. -/
theorem OwnIds.took (h : ob.OwnIds) (hid : ob.nextOrderId + 1 < 2 ^ 64) {userId qty : Nat}
    {side : Side} {past : Nat → Bool} {fs : List (Order × Nat)} {m : Matching}
    (htook : (ob.issue ob.nextOrderId).Took ⟨ob.nextOrderId, userId, side⟩ past qty fs m) :
    m.book.OwnIds ∧ m.book.nextOrderId = ob.nextOrderId + 1 ∧
      ∀ id o, m.book.orders[id]? = some o → id < ob.nextOrderId := by
  have hnext : m.book.nextOrderId = ob.nextOrderId + 1 := by
    rw [htook.fills.nextOrderId]
    simp [countTo]
  have hold : ∀ {id : Nat} {o : Order}, m.book.orders[id]? = some o → 0 < id ∧ id < ob.nextOrderId := by
    intro id o hget
    obtain ⟨o₀, hget₀, _⟩ := htook.fills.get_orders ((h.valid.issue _).issue _) hget
    exact h.between (by simpa using hget₀)
  refine ⟨⟨htook.valid, by omega, by omega, fun hget => ?_⟩, hnext, fun id o hget => (hold hget).2⟩
  obtain ⟨hpos, hlt⟩ := hold hget
  omega

theorem issue_issue (orderId : Nat) : (ob.issue orderId).issue orderId = ob.issue orderId := by
  simp [countTo]

theorem OwnIds.addOrder (h : ob.OwnIds) {checks : Bool} {userId price qty : Nat} {side : Side}
    {tif : TimeInForce} {results : Except OrderbookError (List MatchResult)}
    (hrun : ob.addOrder (u64 checks) userId side price qty tif = .ok (ob', results)) : ob'.OwnIds := by
  obtain ⟨next, hnext, hrun⟩ := bind_ok hrun
  obtain ⟨hid, rfl⟩ := Arith.next_ok _ hnext
  have hadd : (u64 checks).add ob.nextOrderId 1 = .ok (ob.nextOrderId + 1) := Arith.add_of_lt _ hid
  rw [issue_own] at hrun
  by_cases hprice : price = 0
  · have hbook : ob' = (ob.issue ob.nextOrderId).issue ob.nextOrderId := by
      unfold addOrderWithId at hrun
      rw [hadd, ok_bind, if_pos hprice] at hrun
      cases hrun
      rfl
    rw [hbook, issue_issue]
    exact h.issue hid
  · by_cases hqty : qty = 0
    · have hbook : ob' = (ob.issue ob.nextOrderId).issue ob.nextOrderId := by
        unfold addOrderWithId at hrun
        rw [hadd, ok_bind, if_neg hprice, if_pos hqty] at hrun
        cases hrun
        rfl
      rw [hbook, issue_issue]
      exact h.issue hid
    · have hspec := (addOrderWithId_spec (h.valid.issue ob.nextOrderId) ob.nextOrderId userId side hid
        (Nat.pos_of_ne_zero hprice) (Nat.pos_of_ne_zero hqty) tif).of_ok hrun
      obtain ⟨found, fs, m, _, htook, _, _, hr⟩ := hspec
      obtain ⟨hown, hcounter, hbelow⟩ := h.took hid htook
      obtain ⟨rfl, rfl⟩ := Prod.mk.inj hr
      unfold remainder
      split
      · next hrest =>
        refine ⟨?_, ?_, ?_, ?_⟩
        · exact hown.valid.rest (Nat.pos_of_ne_zero hprice) hrest.1 hbelow
        · simp only [restAll, Option.elim_some, Orderbook.rest, nextOrderId_setLevels]
          exact hown.positive
        · simp only [restAll, Option.elim_some, Orderbook.rest, nextOrderId_setLevels]
          exact hown.word
        · intro id o hget
          simp only [restAll, Option.elim_some, orders_rest, get_insert, leftover] at hget
          simp only [restAll, Option.elim_some, Orderbook.rest, nextOrderId_setLevels, hcounter]
          split at hget
          · next hid =>
            have hpositive := h.positive
            omega
          · obtain ⟨hpos, hlt⟩ := hown.between hget
            omega
      · exact hown

theorem OwnIds.executeMarketOrder (h : ob.OwnIds) {checks : Bool} {userId qty : Nat} {side : Side}
    {worst : Option Nat} {results : Except OrderbookError (List MatchResult)}
    (hrun : ob.executeMarketOrder (u64 checks) userId side qty worst = .ok (ob', results)) :
    ob'.OwnIds := by
  obtain ⟨next, hnext, hrun⟩ := bind_ok hrun
  obtain ⟨hid, rfl⟩ := Arith.next_ok _ hnext
  have hadd : (u64 checks).add ob.nextOrderId 1 = .ok (ob.nextOrderId + 1) := Arith.add_of_lt _ hid
  rw [issue_own] at hrun
  by_cases hqty : qty = 0
  · have hbook : ob' = (ob.issue ob.nextOrderId).issue ob.nextOrderId := by
      unfold executeMarketOrderWithId at hrun
      rw [hadd, ok_bind, if_pos hqty] at hrun
      cases hrun
      rfl
    rw [hbook, issue_issue]
    exact h.issue hid
  · obtain ⟨fs, m, hm, heq⟩ := executeMarketOrderWithId_eq (h.valid.issue ob.nextOrderId)
      ob.nextOrderId userId side hadd (Nat.pos_of_ne_zero hqty) worst
    rw [heq] at hrun
    cases hrun
    exact (h.took hid (hm.took (h.valid.issue _))).1

theorem OwnIds.cancelOrder (h : ob.OwnIds) {orderId userId : Nat} {cancelled : OrderCancelled}
    (hrun : ob.cancelOrder orderId userId = .ok (.ok (ob', cancelled))) : ob'.OwnIds := by
  rcases cancelOrder_spec h.valid orderId userId with ⟨error, heq, _⟩ | ⟨o, hget, _, heq⟩
  · rw [heq] at hrun
    cases hrun
  · rw [heq] at hrun
    cases hrun
    have hid := h.valid.orderId_eq hget
    refine ⟨h.valid.remove (hid.symm ▸ hget), ?_, ?_, ?_⟩
    · simpa [Orderbook.remove] using h.positive
    · simpa [Orderbook.remove] using h.word
    · intro id x hx
      rw [orders_remove, get_erase] at hx
      split at hx
      · cases hx
      · simpa [Orderbook.remove] using h.between hx

theorem Built.ownIds (h : ob.Built) : ob.OwnIds := by
  induction h with
  | new symbol =>
      exact ⟨valid_new symbol, Nat.one_pos, by norm_num [Orderbook.new],
        fun hget => by simp [Orderbook.new] at hget⟩
  | addOrder _ hrun ih => exact ih.addOrder hrun
  | executeMarketOrder _ hrun ih => exact ih.executeMarketOrder hrun
  | cancelOrder _ hrun ih => exact ih.cancelOrder hrun

end Orderbook

/-! ### Stored states -/

def StateJson.Saved (value : StateJson) : Prop :=
  ∃ checks builtins fees msgs s outputs, run (u64 checks) builtins (.new fees) msgs = .ok (s, outputs) ∧
    value = s.serialize

/-- Saved before there were other books than the one for SOL and a counter above them. -/
structure StateJson.Legacy (value : StateJson) : Prop where
  nextOrderId : value.nextOrderId = none
  btcOrderbook : value.btcOrderbook = none
  ethOrderbook : value.ethOrderbook = none
  solOrderbook : value.solOrderbook.Built

/-- Whatever is handled next, short of a reset, the id that `next_order_id` returns then is not that of a
resting order. -/
def FreshIds (A : Arith) (builtins : Builtins) (s : EngineState) : Prop :=
  ∀ msgs, (∀ msg, Msg.reset msg ∉ msgs) → ∀ s' outputs, run A builtins s msgs = .ok (s', outputs) →
    ∀ asset, (s'.book asset).orders[s'.nextOrderId]? = none

/-- Where all resting ids are below the counter they stay so. -/
theorem EngineState.Valid.freshIds {s : EngineState} (hv : s.Valid) (A : Arith) (builtins : Builtins) :
    FreshIds A builtins s := by
  intro msgs _ s' outputs hrun asset
  have hv' := ((run_valid A builtins s hv [] ⟨List.Pairwise.nil, by simp⟩ msgs).of_ok hrun).1
  exact hv'.get_next asset

theorem StateJson.Saved.valid {value : StateJson} (h : value.Saved) :
    (EngineState.deserialize value).Valid := by
  obtain ⟨checks, builtins, fees, msgs, s, outputs, hrun, rfl⟩ := h
  rw [deserialize_serialize]
  exact ((run_valid _ builtins _ (valid_new fees) [] ⟨List.Pairwise.nil, by simp⟩ msgs).of_ok hrun).1

theorem StateJson.Legacy.valid {value : StateJson} (h : value.Legacy)
    (hempty : value.solOrderbook.orders = ∅) : (EngineState.deserialize value).Valid := by
  have hbtc : (EngineState.deserialize value).book .btc = Orderbook.new "BTC-USDT" := by
    simp [book, deserialize, h.btcOrderbook, defaultBtcOrderbook]
  have heth : (EngineState.deserialize value).book .eth = Orderbook.new "ETH-USDT" := by
    simp [book, deserialize, h.ethOrderbook, defaultEthOrderbook]
  have horders : ∀ asset, ((EngineState.deserialize value).book asset).orders = ∅ := by
    intro asset
    cases asset with
    | sol => exact hempty
    | btc => rw [hbtc]; rfl
    | eth => rw [heth]; rfl
  refine ⟨?_, fun hget => absurd hget (orders_empty horders), fun hget => absurd hget (orders_empty horders)⟩
  intro asset
  cases asset with
  | sol => exact h.solOrderbook.ownIds.valid
  | btc => exact hbtc ▸ Orderbook.valid_new _
  | eth => exact heth ▸ Orderbook.valid_new _

/-! ### How a counter is moved on

A market sell that finds no bids takes an id and leaves everything else as it was. -/

section Probe

def probe (user : Nat) : OrderMsg := ⟨user, "btc", "ask", .market, 0, 1, none, .gtc, "q", "p"⟩

def emptyBook (n : Nat) : Orderbook := { Orderbook.new "BTC-USDT" with nextOrderId := n }

structure Probing (s : EngineState) (user : Nat) : Prop where
  book : ∃ n, s.book .btc = emptyBook n
  funds : s.asset user .btc = ⟨1, 0⟩

variable {s : EngineState} {user : Nat} {asset : Asset} {f : Balance → Except Fault Balance}
  {b : Balance}

theorem stockMut_ok {symbol : String} (h : f (s.stock user symbol) = .ok b) :
    s.stockMut user symbol f = .ok (s.withStock user symbol b) := by
  unfold stockMut
  rw [h]
  rfl

theorem assetMut_ok (h : f (s.asset user asset) = .ok b) :
    s.assetMut user asset f = .ok (s.withStock user asset.symbol b) :=
  stockMut_ok h

theorem asset_withStock (s : EngineState) (user : Nat) (asset : Asset) (b : Balance) :
    (s.withStock user asset.symbol b).asset user asset = b := by
  simp [EngineState.asset, stock, withStock]

variable {A : Arith} (hbits : 1 < 2 ^ A.bits)

include hbits in
theorem lockAsset_one (h : s.asset user asset = ⟨1, 0⟩) :
    ∃ s', lockAsset A s user asset 1 = .ok (s', true) ∧ SameVenue s s' ∧
      s'.asset user asset = ⟨0, 1⟩ := by
  have hlock : Balance.lock A 1 ⟨1, 0⟩ = .ok ⟨0, 1⟩ := by
    have hadd : A.add 0 1 = .ok 1 := A.add_of_lt hbits
    simp [Balance.lock, A.sub_of_le (Nat.le_refl 1), hadd, bind, Except.bind, pure, Except.pure]
  refine ⟨(s.withStock user asset.symbol ⟨1, 0⟩).withStock user asset.symbol ⟨0, 1⟩, ?_, ?_, ?_⟩
  · unfold lockAsset
    rw [assetMut_ok (b := ⟨1, 0⟩) (by rw [h]; rfl)]
    simp only [ok_bind, asset_withStock]
    rw [if_neg (by simp), assetMut_ok (b := ⟨0, 1⟩) (by rw [asset_withStock, hlock])]
    rfl
  · exact (sameVenue_withStock ..).trans (sameVenue_withStock ..)
  · exact asset_withStock ..

include hbits in
theorem refundAsset_one (h : s.asset user asset = ⟨0, 1⟩) :
    ∃ s', refundAsset A s user asset 1 = .ok s' ∧ SameVenue s s' ∧ s'.asset user asset = ⟨1, 0⟩ := by
  have hunlock : Balance.unlock A 1 ⟨0, 1⟩ = .ok ⟨1, 0⟩ := by
    have hadd : A.add 0 1 = .ok 1 := A.add_of_lt hbits
    simp [Balance.unlock, A.sub_of_le (Nat.le_refl 1), hadd, bind, Except.bind, pure, Except.pure]
  refine ⟨s.withStock user asset.symbol ⟨1, 0⟩, ?_, sameVenue_withStock .., asset_withStock ..⟩
  unfold refundAsset
  rw [if_pos Nat.one_pos, assetMut_ok (b := ⟨1, 0⟩) (by rw [h, hunlock])]

omit hbits in
theorem executeMarketOrderWithId_emptyBook (n : Nat) {orderId : Nat} (hid : orderId + 1 < 2 ^ A.bits)
    (userId : Nat) (worst : Option Nat) :
    (emptyBook n).executeMarketOrderWithId A orderId userId .ask 1 worst
      = .ok (emptyBook (max n (orderId + 1)), .ok []) := by
  unfold Orderbook.executeMarketOrderWithId Orderbook.matchMarketOrder Matching.matchMarketLevels
  rw [A.add_of_lt hid]
  simp [emptyBook, Orderbook.new, Orderbook.restingPrice, Orderbook.bestBid, pure, Except.pure, bind,
    Except.bind]

include hbits in
/-- The probe is placed, trades nothing, and gets its unit back. -/
theorem judgeOrder_probe (builtins : Builtins) (h : Probing s user)
    (hid : s.nextOrderId + 1 < 2 ^ A.bits) :
    ∃ s' s₂ n, judgeOrder A s builtins (probe user)
        = .ok (.placed ⟨.btc, s', 1, 1, ⟨s₂, 0, 0, none, []⟩⟩) ∧
      SameVenue (s.issued .btc (emptyBook n)) s' ∧ s'.asset user .btc = ⟨1, 0⟩ := by
  obtain ⟨n, hbook⟩ := h.book
  obtain ⟨s₁, hlock, hvenue, hlocked⟩ := lockAsset_one hbits h.funds
  set next := max n (s.nextOrderId + 1)
  have hissued : (s₁.issued .btc (emptyBook next)).asset user .btc = ⟨0, 1⟩ := by
    rw [← hlocked]
    simp [issued, EngineState.asset, stock]
  obtain ⟨s', hrefund, hvenue', hfunds⟩ := refundAsset_one hbits hissued
  set worst := worstPrice builtins (probe user) (s.book .btc).bestBid with hworst
  have hplace : placeMarket A s₁ (probe user) .btc .ask 1 worst
      = .ok ⟨s₁.issued .btc (emptyBook next), 0, 0, none, []⟩ := by
    have hbook₁ : ({ s₁ with nextOrderId := s₁.nextOrderId + 1 } : EngineState).book .btc
        = emptyBook n := (hvenue.book .btc).trans hbook
    unfold placeMarket
    rw [drawOrderId_of_lt A s₁ (hvenue.nextOrderId.symm ▸ hid), ok_bind]
    dsimp only
    rw [hbook₁, hvenue.nextOrderId, executeMarketOrderWithId_emptyBook n hid, issued, hvenue.nextOrderId]
    rfl
  have hsell : handleMarketSell A s builtins (probe user) .btc 1
      = .ok (.placed ⟨.btc, s', 1, 1, ⟨s₁.issued .btc (emptyBook next), 0, 0, none, []⟩⟩) := by
    have hfillable : fillableForSell A (s.book .btc) (probe user).timeInForce 1 worst = .ok 1 := rfl
    have hunfilled : A.sub 1 0 = .ok 1 := A.sub_of_le (Nat.zero_le 1)
    unfold handleMarketSell
    simp only [← hworst, hfillable, ok_bind]
    rw [if_neg (Nat.lt_irrefl 1)]
    change lockAsset A s user .btc 1 >>= _ = _
    simp only [hlock, ok_bind]
    rw [if_neg (by simp)]
    simp only [hplace, ok_bind, hunfilled]
    change refundAsset A (s₁.issued .btc (emptyBook next)) user .btc 1 >>= _ = _
    rw [hrefund]
    rfl
  refine ⟨s', s₁.issued .btc (emptyBook next), next, ?_, ?_, hfunds⟩
  · have hasset : Asset.ofString? "btc" = some .btc := by decide
    have hqty : ¬ Int64.toInt 1 ≤ 0 := by decide
    unfold judgeOrder
    simp only [probe, hasset, Side.ofString?, hqty, if_false]
    exact hsell
  · refine SameVenue.trans ⟨fun a => ?_, ?_, ?_⟩ hvenue'
    · by_cases ha : a = .btc
      · subst ha
        rw [issued, issued, book_setBook_self, book_setBook_self]
      · rw [issued, issued, book_setBook_of_ne _ _ _ ha, book_setBook_of_ne _ _ _ ha]
        cases a with
        | sol => exact hvenue.book .sol
        | btc => exact hvenue.book .btc
        | eth => exact hvenue.book .eth
    · simp [issued, hvenue.nextOrderId]
    · simp [issued, hvenue.feeSchedule]

include hbits in
theorem handle_probe (builtins : Builtins) (h : Probing s user) (hid : s.nextOrderId + 1 < 2 ^ A.bits) :
    ∃ s' outputs, handle A builtins s (.order (probe user)) = .ok (s', outputs) ∧
      Probing s' user ∧ s'.nextOrderId = s.nextOrderId + 1 ∧ s'.book .sol = s.book .sol := by
  obtain ⟨s', s₂, n, hjudge, hvenue, hfunds⟩ := judgeOrder_probe hbits builtins h hid
  have hbook : s'.book .btc = emptyBook n := by
    rw [hvenue.book, issued, book_setBook_self]
  have hdepth : depthEvent A s' .btc = .ok (.execution (.depthUpdated Asset.btc.market [] [])) := by
    unfold depthEvent
    rw [hbook]
    simp [Orderbook.getState, Orderbook.snapshotLevels, Orderbook.walk, emptyBook, Orderbook.new,
      pure, Except.pure, bind, Except.bind]
  have hhandle : ∃ outputs, handleOrder A s builtins (probe user) = .ok (s', outputs) := by
    unfold handleOrder
    rw [hjudge, ok_bind]
    simp only [hdepth, ok_bind]
    exact ⟨_, rfl⟩
  obtain ⟨outputs, hhandle⟩ := hhandle
  refine ⟨s', outputs, hhandle, ⟨⟨n, hbook⟩, hfunds⟩, ?_, ?_⟩
  · rw [hvenue.nextOrderId, issued, nextOrderId_setBook]
  · rw [hvenue.book, issued, book_setBook_of_ne _ _ _ (by decide)]
    rfl

theorem run_cons_ok {builtins : Builtins} {msg : Msg} {msgs : List Msg} {s₁ s' : EngineState}
    {first rest : List Output} (hfirst : handle A builtins s msg = .ok (s₁, first))
    (hrest : run A builtins s₁ msgs = .ok (s', rest)) :
    run A builtins s (msg :: msgs) = .ok (s', first ++ rest) := by
  simp only [run, hfirst, hrest, ok_bind]
  rfl

include hbits in
theorem run_probes (builtins : Builtins) (h : Probing s user) (count : Nat)
    (hids : s.nextOrderId + count < 2 ^ A.bits) :
    ∃ s' outputs, run A builtins s (List.replicate count (.order (probe user))) = .ok (s', outputs) ∧
      s'.nextOrderId = s.nextOrderId + count ∧ s'.book .sol = s.book .sol := by
  induction count generalizing s with
  | zero => exact ⟨s, [], rfl, rfl, rfl⟩
  | succ count ih =>
      obtain ⟨s₁, first, hfirst, hprobing, hnext, hsol⟩ := handle_probe hbits builtins h (by omega)
      obtain ⟨s', rest, hrest, hnext', hsol'⟩ := ih hprobing (by omega)
      refine ⟨s', first ++ rest, ?_, by omega, hsol'.trans hsol⟩
      rw [List.replicate_succ]
      exact run_cons_ok hfirst hrest

end Probe

theorem exists_not_key {β : Type} (m : Std.ExtTreeMap Nat β) : ∃ k : Nat, m[k]? = none := by
  obtain ⟨k, hk⟩ := Infinite.exists_notMem_finset (m.toList.map Prod.fst).toFinset
  refine ⟨k, ?_⟩
  cases hget : m[k]? with
  | none => rfl
  | some b =>
      refine absurd ?_ hk
      rw [List.mem_toFinset]
      exact List.mem_map.mpr ⟨(k, b), mem_toList.mpr hget, rfl⟩

/-- In a legacy state every resting id is returned again, by some continuation. -/
theorem StateJson.Legacy.not_freshIds {value : StateJson} (h : value.Legacy) (checks : Bool)
    (builtins : Builtins) {id : Nat} {o : Order} (hget : value.solOrderbook.orders[id]? = some o) :
    ¬ FreshIds (u64 checks) builtins (EngineState.deserialize value) := by
  intro hfresh
  have hbits : 1 < 2 ^ (u64 checks).bits := by norm_num [u64]
  set s := EngineState.deserialize value with hs
  obtain ⟨user, huser⟩ := exists_not_key s.stockBalance
  -- one unit for a user without balances
  set funded := s.withStock user "btc" ⟨1, 0⟩
  have hvenue : SameVenue s funded := sameVenue_withStock ..
  have hdeposit : ∃ outputs, handle (u64 checks) builtins s (.deposit ⟨user, "btc", 1, "q", "d"⟩)
      = .ok (funded, outputs) := by
    have hcredit : Balance.credit (u64 checks) 1 (s.stock user "btc") = .ok ⟨1, 0⟩ := by
      have hadd : (u64 checks).add 0 1 = .ok 1 := (u64 checks).add_of_lt hbits
      simp [stock, huser, Balance.credit, hadd, bind, Except.bind, pure, Except.pure]
    simp only [handle, handleDeposit, stockMut_ok hcredit, ok_bind]
    exact ⟨_, rfl⟩
  obtain ⟨outputs, hdeposit⟩ := hdeposit
  have hbook : funded.book .btc = emptyBook 1 := by
    rw [hvenue.book]
    simp [hs, book, deserialize, h.btcOrderbook, defaultBtcOrderbook, emptyBook, Orderbook.new]
  have hprobing : Probing funded user := ⟨⟨1, hbook⟩, asset_withStock s user .btc ⟨1, 0⟩⟩
  have hfirst : s.nextOrderId = 1 := by
    simp [hs, deserialize, h.nextOrderId, defaultNextOrderId]
  have hown := h.solOrderbook.ownIds
  obtain ⟨hpositive, hbelow⟩ := hown.between hget
  have hids : funded.nextOrderId + (id - 1) < 2 ^ (u64 checks).bits := by
    have hword := hown.word
    change _ < 2 ^ 64
    rw [hvenue.nextOrderId, hfirst]
    omega
  obtain ⟨s', outputs', hrun, hnext, hsol⟩ := run_probes hbits builtins hprobing (id - 1) hids
  have hall : run (u64 checks) builtins s (.deposit ⟨user, "btc", 1, "q", "d"⟩
      :: List.replicate (id - 1) (.order (probe user))) = .ok (s', outputs ++ outputs') :=
    run_cons_ok hdeposit hrun
  have hreset : ∀ msg, Msg.reset msg ∉ (.deposit ⟨user, "btc", 1, "q", "d"⟩
      :: List.replicate (id - 1) (.order (probe user)) : List Msg) := by
    simp
  have hnone := hfresh _ hreset s' _ hall .sol
  have hcounter : s'.nextOrderId = id := by
    rw [hnext, hvenue.nextOrderId, hfirst]
    omega
  rw [hcounter, hsol, hvenue.book] at hnone
  rw [show (s.book .sol).orders = value.solOrderbook.orders from rfl, hget] at hnone
  cases hnone

/-- **Restored ids.** After `load_latest_snapshot`, of a state saved by a run of either build or of a
legacy state, no id that is handed out before the next reset is that of a resting order, if and only if
the stored state has its counter or no order rests in its SOL book. -/
theorem restored_ids_fresh_iff (checks : Bool) (builtins : Builtins) (cfg : Config)
    (sys : System StateJson) (id : StreamId) (value : StateJson)
    (hnewest : sys.snapshots.head? = some (id, value)) (hvalue : value.Saved ∨ value.Legacy) :
    ∃ s, loadLatestSnapshot { cfg with codec := stateCodec } sys true = some (id, s) ∧
      (FreshIds (u64 checks) builtins s ↔
        value.nextOrderId.isSome ∨ value.solOrderbook.orders = ∅) := by
  refine ⟨EngineState.deserialize value, by simp [loadLatestSnapshot, hnewest, stateCodec], ?_⟩
  rcases hvalue with hsaved | hlegacy
  · have hcounter : value.nextOrderId.isSome := by
      obtain ⟨_, _, _, _, s, _, _, rfl⟩ := hsaved
      rfl
    exact ⟨fun _ => Or.inl hcounter, fun _ => hsaved.valid.freshIds _ builtins⟩
  · constructor
    · intro hfresh
      right
      apply Std.ExtTreeMap.ext_getElem?
      intro k
      cases hget : value.solOrderbook.orders[k]? with
      | none => simp
      | some o => exact absurd hfresh (hlegacy.not_freshIds checks builtins hget)
    · rintro (hsome | hempty)
      · rw [hlegacy.nextOrderId] at hsome
        cases hsome
      · exact (hlegacy.valid hempty).freshIds _ builtins

/-! ### A legacy bid -/

/-- A bid of user 1 in the only book, stored without a counter. -/
def legacyBid : Except Fault StateJson := do
  let (ob, _) ← (Orderbook.new "SOL-USDT").addOrder (u64 false) 1 .bid 100 2 .gtc
  return ⟨∅, ∅, ob, none, none, none, none⟩

def bidAfterwards : List Msg :=
  [.onramp ⟨2, 1000, "q", "a"⟩, .order ⟨2, "SOL", "bid", .limit, 50, 1, none, .gtc, "q", "b"⟩]

theorem restored_ids_fresh_iff_saved :
    ∃ s outputs s', run (u64 false) .noSlippage (.new ⟨10, 20⟩) bidAfterwards = .ok (s, outputs) ∧
      loadLatestSnapshot { onrampConfig with codec := stateCodec }
        ⟨[], [], [(toLex (5, 0), s.serialize)], none, []⟩ true = some (toLex (5, 0), s') ∧
      FreshIds (u64 false) .noSlippage s' := by
  obtain ⟨⟨s, outputs⟩, hrun, _⟩ := exists_of_returns
    (run (u64 false) .noSlippage (.new ⟨10, 20⟩) bidAfterwards) (fun _ => true) (by decide +kernel)
  have hsaved : s.serialize.Saved :=
    ⟨false, .noSlippage, ⟨10, 20⟩, bidAfterwards, s, outputs, hrun, rfl⟩
  obtain ⟨s', hload, hiff⟩ := restored_ids_fresh_iff false .noSlippage onrampConfig
    ⟨[], [], [(toLex (5, 0), s.serialize)], none, []⟩ (toLex (5, 0)) s.serialize rfl (Or.inl hsaved)
  exact ⟨s, outputs, s', hrun, hload, hiff.mpr (Or.inl rfl)⟩

/-- The id of the legacy bid is the first to be handed out, and the next bid takes its place. -/
theorem legacy_bid_overwritten :
    ∃ value s outputs, legacyBid = .ok value ∧ value.Legacy ∧
      ¬ FreshIds (u64 false) .noSlippage (EngineState.deserialize value) ∧
      run (u64 false) .noSlippage (EngineState.deserialize value) bidAfterwards
        = .ok (s, outputs) ∧
      (value.solOrderbook.orders[1]?).map Order.userId = some 1 ∧
      ((s.book .sol).orders[1]?).map Order.userId = some 2 := by
  obtain ⟨⟨ob, results⟩, hbook, htest⟩ := exists_of_returns
    ((Orderbook.new "SOL-USDT").addOrder (u64 false) 1 .bid 100 2 .gtc)
    (fun r => decide ((r.1.orders[1]?).map Order.userId = some 1) &&
      returns (fun r' => decide (((r'.1.book .sol).orders[1]?).map Order.userId = some 2))
        (run (u64 false) .noSlippage (EngineState.deserialize
          ⟨∅, ∅, r.1, none, none, none, none⟩) bidAfterwards)) (by decide +kernel)
  rw [Bool.and_eq_true] at htest
  obtain ⟨hfirst, hreturns⟩ := htest
  obtain ⟨⟨s, outputs⟩, hrun, hsecond⟩ := exists_of_returns _ _ hreturns
  have hfirst := of_decide_eq_true hfirst
  obtain ⟨o, hget, _⟩ := Option.map_eq_some_iff.mp hfirst
  have hlegacy : StateJson.Legacy ⟨∅, ∅, ob, none, none, none, none⟩ :=
    ⟨rfl, rfl, rfl, .addOrder (.new "SOL-USDT") hbook⟩
  refine ⟨⟨∅, ∅, ob, none, none, none, none⟩, s, outputs, ?_, hlegacy, ?_, hrun, hfirst,
    of_decide_eq_true hsecond⟩
  · unfold legacyBid
    rw [hbook]
    rfl
  · exact hlegacy.not_freshIds false _ hget

end CexRs
