import CexRs.Handlers

/-!
# The two builds

A run that returns in the build that checks its arithmetic returns the same in the build that does not:
nothing left the word, so nothing wrapped. One lemma for each function, along its definition.
-/

namespace CexRs

open FixedWidth

variable (checks : Bool)

theorem add_agrees (a b : Nat) : Agrees ((u64 true).add a b) ((u64 checks).add a b) :=
  Agrees.add 64 a b checks

theorem mul_agrees (a b : Nat) : Agrees ((u64 true).mul a b) ((u64 checks).mul a b) :=
  Agrees.mul 64 a b checks

theorem sub_agrees (a b : Nat) : Agrees ((u64 true).sub a b) ((u64 checks).sub a b) :=
  Agrees.sub 64 a b checks

/-! ### Fees and balances -/

section Balances

theorem calcMakerFee_agrees (fees : FeeSchedule) (v : Nat) :
    Agrees (fees.calcMakerFee (u64 true) v) (fees.calcMakerFee (u64 checks) v) :=
  (mul_agrees checks _ _).bind fun _ => Agrees.refl _

theorem calcTakerFee_agrees (fees : FeeSchedule) (v : Nat) :
    Agrees (fees.calcTakerFee (u64 true) v) (fees.calcTakerFee (u64 checks) v) :=
  (mul_agrees checks _ _).bind fun _ => Agrees.refl _

theorem buyerFee_agrees (fees : FeeSchedule) (side : Side) (v : Nat) :
    Agrees (buyerFee (u64 true) fees side v) (buyerFee (u64 checks) fees side v) := by
  cases side with
  | bid => exact calcTakerFee_agrees checks fees v
  | ask => exact calcMakerFee_agrees checks fees v

theorem sellerFee_agrees (fees : FeeSchedule) (side : Side) (v : Nat) :
    Agrees (sellerFee (u64 true) fees side v) (sellerFee (u64 checks) fees side v) := by
  cases side with
  | bid => exact calcMakerFee_agrees checks fees v
  | ask => exact calcTakerFee_agrees checks fees v

theorem lock_agrees (n : Nat) (b : Balance) :
    Agrees (Balance.lock (u64 true) n b) (Balance.lock (u64 checks) n b) :=
  (sub_agrees checks _ _).bind fun _ => (add_agrees checks _ _).bind fun _ => Agrees.refl _

theorem unlock_agrees (n : Nat) (b : Balance) :
    Agrees (Balance.unlock (u64 true) n b) (Balance.unlock (u64 checks) n b) :=
  (sub_agrees checks _ _).bind fun _ => (add_agrees checks _ _).bind fun _ => Agrees.refl _

theorem credit_agrees (n : Nat) (b : Balance) :
    Agrees (Balance.credit (u64 true) n b) (Balance.credit (u64 checks) n b) :=
  (add_agrees checks _ _).bind fun _ => Agrees.refl _

theorem spend_agrees (n : Nat) (b : Balance) :
    Agrees (Balance.spend (u64 true) n b) (Balance.spend (u64 checks) n b) :=
  (sub_agrees checks _ _).bind fun _ => Agrees.refl _

theorem usdMut_agrees (s : EngineState) (user : Nat) {f g : Balance → Except Fault Balance}
    (h : ∀ b, Agrees (f b) (g b)) : Agrees (s.usdMut user f) (s.usdMut user g) :=
  (h _).bind fun _ => Agrees.refl _

theorem stockMut_agrees (s : EngineState) (user : Nat) (symbol : String)
    {f g : Balance → Except Fault Balance} (h : ∀ b, Agrees (f b) (g b)) :
    Agrees (s.stockMut user symbol f) (s.stockMut user symbol g) :=
  (h _).bind fun _ => Agrees.refl _

end Balances

/-! ### Books -/

section Books

variable (ob : Orderbook)

theorem getState_agrees : Agrees (ob.getState (u64 true)) (ob.getState (u64 checks)) := by
  have hlevels : ∀ levels, Agrees (ob.snapshotLevels (u64 true) levels)
      (ob.snapshotLevels (u64 checks) levels) := by
    intro levels
    refine Agrees.mapM (fun e => ?_) levels
    refine Agrees.bind ?_ fun _ => Agrees.refl _
    exact Agrees.foldlM (add_agrees checks) _ _
  exact (hlevels _).bind fun _ => (hlevels _).bind fun _ => Agrees.refl _

theorem scanLevels_agrees {σ : Type} {visit visit' : σ → Nat → Order → Except Fault (σ × Bool)}
    (h : ∀ acc price o, Agrees (visit acc price o) (visit' acc price o)) (past : Nat → Bool)
    (levels : List (Nat × PriceLevel)) (acc : σ) :
    Agrees (ob.scanLevels visit past levels acc) (ob.scanLevels visit' past levels acc) := by
  have hqueue : ∀ price ids acc,
      Agrees (ob.scanQueue visit price ids acc) (ob.scanQueue visit' price ids acc) := by
    intro price ids
    induction ids with
    | nil => exact fun acc => Agrees.refl _
    | cons id ids ih =>
        intro acc
        unfold Orderbook.scanQueue
        split
        · exact ih acc
        · exact (h _ _ _).bind fun r => Agrees.ite (Agrees.refl _) (ih _)
  induction levels generalizing acc with
  | nil => exact Agrees.refl _
  | cons e levels ih =>
      exact Agrees.ite (Agrees.refl _)
        ((hqueue _ _ _).bind fun r => Agrees.ite (Agrees.refl _) (ih _))

theorem canFillQuantity_agrees (side : Side) (price qty : Nat) :
    Agrees (ob.canFillQuantity (u64 true) side price qty)
      (ob.canFillQuantity (u64 checks) side price qty) := by
  refine Agrees.ite (Agrees.refl _) ?_
  refine Agrees.bind (scanLevels_agrees ob (fun acc price o => ?_) _ _ _) fun _ => Agrees.refl _
  exact (add_agrees checks _ _).bind fun _ => Agrees.refl _

theorem quoteCostForMarketBuy_agrees (qty : Nat) (worst : Option Nat) :
    Agrees (ob.quoteCostForMarketBuy (u64 true) qty worst)
      (ob.quoteCostForMarketBuy (u64 checks) qty worst) := by
  refine Agrees.bind (scanLevels_agrees ob (fun acc price o => ?_) _ _ _) fun _ => Agrees.refl _
  refine (mul_agrees checks _ _).bind fun _ => ?_
  refine (add_agrees checks _ _).bind fun _ => ?_
  exact (add_agrees checks _ _).bind fun _ => Agrees.refl _

theorem fillableQtyForMarketSell_agrees (qty : Nat) (worst : Option Nat) :
    Agrees (ob.fillableQtyForMarketSell (u64 true) qty worst)
      (ob.fillableQtyForMarketSell (u64 checks) qty worst) := by
  refine Agrees.bind (scanLevels_agrees ob (fun acc price o => ?_) _ _ _) fun _ => Agrees.refl _
  exact (add_agrees checks _ _).bind fun _ => Agrees.refl _

theorem addOrderWithId_agrees (orderId userId : Nat) (side : Side) (price qty : Nat)
    (tif : TimeInForce) :
    Agrees (ob.addOrderWithId (u64 true) orderId userId side price qty tif)
      (ob.addOrderWithId (u64 checks) orderId userId side price qty tif) := by
  refine (add_agrees checks _ _).bind fun next => ?_
  refine Agrees.ite (Agrees.refl _) (Agrees.ite (Agrees.refl _) ?_)
  refine Agrees.ite ?_ (Agrees.refl _)
  exact (canFillQuantity_agrees checks _ _ _ _).bind fun _ => Agrees.refl _

theorem executeMarketOrderWithId_agrees (orderId userId : Nat) (side : Side) (qty : Nat)
    (worst : Option Nat) :
    Agrees (ob.executeMarketOrderWithId (u64 true) orderId userId side qty worst)
      (ob.executeMarketOrderWithId (u64 checks) orderId userId side qty worst) :=
  (add_agrees checks _ _).bind fun _ => Agrees.refl _

end Books

/-! ### Orders -/

section Orders

variable (s : EngineState) (msg : OrderMsg) (asset : Asset)

theorem applyFill_agrees (trade : Trade) :
    Agrees (applyFill (u64 true) s asset trade) (applyFill (u64 checks) s asset trade) := by
  unfold applyFill
  refine (mul_agrees checks _ _).bind fun value => ?_
  refine (buyerFee_agrees checks _ _ _).bind fun buyerFee => ?_
  refine (sellerFee_agrees checks _ _ _).bind fun sellerFee => ?_
  refine (add_agrees checks _ _).bind fun debit => ?_
  refine (usdMut_agrees _ _ (spend_agrees checks _)).bind fun s => ?_
  refine (stockMut_agrees _ _ _ (credit_agrees checks _)).bind fun s => ?_
  refine (stockMut_agrees _ _ _ (spend_agrees checks _)).bind fun s => ?_
  refine (usdMut_agrees _ _ (credit_agrees checks _)).bind fun s => ?_
  refine (add_agrees checks _ _).bind fun totalFee => ?_
  refine Agrees.ite ?_ (Agrees.refl _)
  exact (usdMut_agrees _ _ (credit_agrees checks _)).bind fun s => Agrees.refl _

theorem settleResults_agrees (side : Side) (results : List MatchResult) :
    Agrees (settleResults (u64 true) s asset side results)
      (settleResults (u64 checks) s asset side results) := by
  refine Agrees.foldlM (fun acc result => ?_) _ _
  cases result with
  | orderAccepted accepted => exact Agrees.refl _
  | trade trade =>
      refine (applyFill_agrees checks _ _ _).bind fun r => ?_
      refine (add_agrees checks _ _).bind fun filled => ?_
      refine (mul_agrees checks _ _).bind fun quote => ?_
      refine Agrees.ite ?_ (Agrees.refl _)
      refine (add_agrees checks _ _).bind fun cost => ?_
      exact (add_agrees checks _ _).bind fun spent => Agrees.refl _

theorem lockUsd_agrees (user amount : Nat) :
    Agrees (lockUsd (u64 true) s user amount) (lockUsd (u64 checks) s user amount) := by
  refine (Agrees.refl _).bind fun s => ?_
  refine Agrees.ite (Agrees.refl _) ?_
  exact (usdMut_agrees _ _ (lock_agrees checks _)).bind fun _ => Agrees.refl _

theorem lockAsset_agrees (user amount : Nat) :
    Agrees (lockAsset (u64 true) s user asset amount) (lockAsset (u64 checks) s user asset amount) := by
  refine (Agrees.refl _).bind fun s => ?_
  refine Agrees.ite (Agrees.refl _) ?_
  exact (stockMut_agrees _ _ _ (lock_agrees checks _)).bind fun _ => Agrees.refl _

theorem refundUsd_agrees (user amount : Nat) :
    Agrees (refundUsd (u64 true) s user amount) (refundUsd (u64 checks) s user amount) :=
  Agrees.ite (usdMut_agrees _ _ (unlock_agrees checks _)) (Agrees.refl _)

theorem refundAsset_agrees (user amount : Nat) :
    Agrees (refundAsset (u64 true) s user asset amount)
      (refundAsset (u64 checks) s user asset amount) :=
  Agrees.ite (stockMut_agrees _ _ _ (unlock_agrees checks _)) (Agrees.refl _)

theorem neededLocked_agrees (fees : FeeSchedule) (resting : Option OrderAccepted) :
    Agrees (neededLocked (u64 true) fees resting) (neededLocked (u64 checks) fees resting) := by
  cases resting with
  | none => exact Agrees.refl _
  | some accepted =>
      refine (mul_agrees checks _ _).bind fun cost => ?_
      exact (calcMakerFee_agrees checks _ _).bind fun fee => add_agrees checks _ _

theorem reconcile_agrees (side : Side) (qty totalLock : Nat) (settled : Settlement) :
    Agrees (reconcile (u64 true) msg asset side qty totalLock settled)
      (reconcile (u64 checks) msg asset side qty totalLock settled) := by
  cases side with
  | bid =>
      refine (neededLocked_agrees checks _ _).bind fun needed => ?_
      exact (refundUsd_agrees checks _ _ _).bind fun _ => Agrees.refl _
  | ask =>
      refine (sub_agrees checks _ _).bind fun unfilled => ?_
      exact (refundAsset_agrees checks _ _ _ _).bind fun _ => Agrees.refl _

theorem drawOrderId_agrees : Agrees (s.drawOrderId (u64 true)) (s.drawOrderId (u64 checks)) :=
  Agrees.refl _

theorem placeLimit_agrees (side : Side) (price qty totalLock : Nat) :
    Agrees (placeLimit (u64 true) s msg asset side price qty totalLock)
      (placeLimit (u64 checks) s msg asset side price qty totalLock) := by
  refine (drawOrderId_agrees checks s).bind fun drawn => ?_
  refine (addOrderWithId_agrees checks _ _ _ _ _ _ _).bind fun r => ?_
  refine (Agrees.refl _).bind fun results => ?_
  refine (settleResults_agrees checks _ _ _ _).bind fun settled => ?_
  exact reconcile_agrees checks _ _ _ _ _ _

theorem handleLimit_agrees (side : Side) (qty : Nat) :
    Agrees (handleLimit (u64 true) s msg asset side qty)
      (handleLimit (u64 checks) s msg asset side qty) := by
  refine Agrees.ite (Agrees.refl _) ?_
  refine (mul_agrees checks _ _).bind fun cost => ?_
  refine (mul_agrees checks _ _).bind fun reserve => ?_
  refine (add_agrees checks _ _).bind fun totalLock => ?_
  cases side with
  | bid =>
      refine (lockUsd_agrees checks _ _ _).bind fun r => Agrees.ite (Agrees.refl _) ?_
      exact (placeLimit_agrees checks _ _ _ _ _ _ _).bind fun _ => Agrees.refl _
  | ask =>
      refine (lockAsset_agrees checks _ _ _ _).bind fun r => Agrees.ite (Agrees.refl _) ?_
      exact (placeLimit_agrees checks _ _ _ _ _ _ _).bind fun _ => Agrees.refl _

theorem placeMarket_agrees (side : Side) (qty : Nat) (worst : Option Nat) :
    Agrees (placeMarket (u64 true) s msg asset side qty worst)
      (placeMarket (u64 checks) s msg asset side qty worst) := by
  refine (drawOrderId_agrees checks s).bind fun drawn => ?_
  refine (executeMarketOrderWithId_agrees checks _ _ _ _ _ _).bind fun r => ?_
  refine (Agrees.refl _).bind fun results => ?_
  exact settleResults_agrees checks _ _ _ _

theorem handleMarketSell_agrees (builtins : Builtins) (qty : Nat) :
    Agrees (handleMarketSell (u64 true) s builtins msg asset qty)
      (handleMarketSell (u64 checks) s builtins msg asset qty) := by
  refine Agrees.bind (Agrees.ite (fillableQtyForMarketSell_agrees checks _ _ _) (Agrees.refl _))
    fun fillable => ?_
  refine Agrees.ite (Agrees.refl _) ?_
  refine (lockAsset_agrees checks _ _ _ _).bind fun r => Agrees.ite (Agrees.refl _) ?_
  refine (placeMarket_agrees checks _ _ _ _ _ _).bind fun settled => ?_
  refine (sub_agrees checks _ _).bind fun unfilled => ?_
  exact (refundAsset_agrees checks _ _ _ _).bind fun _ => Agrees.refl _

theorem handleMarketBuy_agrees (builtins : Builtins) (qty : Nat) :
    Agrees (handleMarketBuy (u64 true) s builtins msg asset qty)
      (handleMarketBuy (u64 checks) s builtins msg asset qty) := by
  refine (quoteCostForMarketBuy_agrees checks _ _ _).bind fun r => ?_
  refine Agrees.ite (Agrees.refl _) (Agrees.ite (Agrees.refl _) ?_)
  refine (calcTakerFee_agrees checks _ _).bind fun reserve => ?_
  refine (add_agrees checks _ _).bind fun total => ?_
  refine (lockUsd_agrees checks _ _ _).bind fun r => Agrees.ite (Agrees.refl _) ?_
  refine (placeMarket_agrees checks _ _ _ _ _ _).bind fun settled => ?_
  exact (refundUsd_agrees checks _ _ _).bind fun _ => Agrees.refl _

theorem judgeOrder_agrees (builtins : Builtins) :
    Agrees (judgeOrder (u64 true) s builtins msg) (judgeOrder (u64 checks) s builtins msg) := by
  unfold judgeOrder
  cases Asset.ofString? msg.asset with
  | none => exact Agrees.refl _
  | some asset =>
      cases Side.ofString? msg.side with
      | none => exact Agrees.refl _
      | some side =>
          refine Agrees.ite (Agrees.refl _) ?_
          cases msg.orderType with
          | limit => exact handleLimit_agrees checks _ _ _ _ _
          | market =>
              cases side with
              | ask => exact handleMarketSell_agrees checks _ _ _ _ _
              | bid => exact handleMarketBuy_agrees checks _ _ _ _ _

theorem depthEvent_agrees : Agrees (depthEvent (u64 true) s asset) (depthEvent (u64 checks) s asset) :=
  (getState_agrees checks _).bind fun _ => Agrees.refl _

theorem handleOrder_agrees (builtins : Builtins) :
    Agrees (handleOrder (u64 true) s builtins msg) (handleOrder (u64 checks) s builtins msg) := by
  refine (judgeOrder_agrees checks _ _ _).bind fun verdict => ?_
  cases verdict with
  | refused state reply => exact Agrees.refl _
  | placed p => exact (depthEvent_agrees checks _ _).bind fun _ => Agrees.refl _

theorem handleCancel_agrees (msg : CancelMsg) :
    Agrees (handleCancel (u64 true) s msg) (handleCancel (u64 checks) s msg) := by
  refine (Agrees.refl _).bind fun found => ?_
  cases found with
  | none => exact Agrees.refl _
  | some found =>
      obtain ⟨s, cancelled, asset⟩ := found
      have hrefund : Agrees (refundCancelled (u64 true) s asset cancelled)
          (refundCancelled (u64 checks) s asset cancelled) := by
        unfold refundCancelled
        cases cancelled.side with
        | bid =>
            refine (mul_agrees checks _ _).bind fun cost => ?_
            refine (calcMakerFee_agrees checks _ _).bind fun fee => ?_
            refine (add_agrees checks _ _).bind fun refund => ?_
            exact usdMut_agrees _ _ (unlock_agrees checks _)
        | ask => exact stockMut_agrees _ _ _ (unlock_agrees checks _)
      refine hrefund.bind fun s => ?_
      exact (depthEvent_agrees checks _ _).bind fun _ => Agrees.refl _

end Orders

/-! ### Messages -/

theorem handle_agrees (builtins : Builtins) (s : EngineState) (msg : Msg) :
    Agrees (handle (u64 true) builtins s msg) (handle (u64 checks) builtins s msg) := by
  cases msg with
  | onramp msg => exact (usdMut_agrees _ _ (credit_agrees checks _)).bind fun _ => Agrees.refl _
  | deposit msg => exact (stockMut_agrees _ _ _ (credit_agrees checks _)).bind fun _ => Agrees.refl _
  | order msg => exact handleOrder_agrees checks _ _ _
  | cancel msg => exact handleCancel_agrees checks _ _
  | orderbook msg =>
      refine Agrees.bind ?_ fun _ => Agrees.refl _
      unfold handleGetOrderbook
      split
      · exact Agrees.refl _
      · exact (getState_agrees checks _).bind fun _ => Agrees.refl _
  | _ => exact Agrees.refl _

/-- **The two builds.** A run that returns in the checking build returns the same in either. -/
theorem run_agrees (builtins : Builtins) (s : EngineState) (msgs : List Msg) :
    Agrees (run (u64 true) builtins s msgs) (run (u64 checks) builtins s msgs) := by
  induction msgs generalizing s with
  | nil => exact Agrees.refl _
  | cons msg msgs ih =>
      exact (handle_agrees checks builtins s msg).bind fun r => (ih r.1).bind fun _ => Agrees.refl _

end CexRs
