import CexRs.Proof.BookBounds
import CexRs.Proof.Placing

/-!
# Sums of a settlement

When the settlement of an order stays within the word: every value it trades, with its fees, does, and
no account that is credited on the way runs over. The accounts are only credited by trades, so it is
enough that each has room for all of them together.
-/

namespace CexRs

open FixedWidth OrderedMap Journal EngineState

/-! ### Values -/

structure FeeSchedule.Sized (fees : FeeSchedule) (value : Nat) : Prop where
  product : value * max fees.takerFeeBps fees.makerFeeBps < 2 ^ 64
  sum : value + fees.maxFee value < 2 ^ 64

section Values

variable {fees : FeeSchedule} {value value' : Nat}

theorem FeeSchedule.Sized.mono (h : fees.Sized value) (hle : value' ≤ value) : fees.Sized value' := by
  constructor
  · calc value' * max fees.takerFeeBps fees.makerFeeBps
        ≤ value * max fees.takerFeeBps fees.makerFeeBps := Nat.mul_le_mul_right _ hle
      _ < 2 ^ 64 := h.product
  · calc value' + fees.maxFee value' ≤ value + fees.maxFee value :=
          Nat.add_le_add hle (bpsFee_mono _ hle)
      _ < 2 ^ 64 := h.sum

theorem FeeSchedule.Sized.lt (h : fees.Sized value) : value < 2 ^ 64 :=
  lt_of_le_of_lt (Nat.le_add_right ..) h.sum

theorem calcMakerFee_eq (h : value * fees.makerFeeBps < 2 ^ 64) :
    fees.calcMakerFee (u64 true) value = .ok (fees.makerFee value) := by
  rw [FeeSchedule.calcMakerFee, u64_mul h]
  rfl

theorem calcTakerFee_eq (h : value * fees.takerFeeBps < 2 ^ 64) :
    fees.calcTakerFee (u64 true) value = .ok (fees.takerFee value) := by
  rw [FeeSchedule.calcTakerFee, u64_mul h]
  rfl

theorem FeeSchedule.Sized.maker (h : fees.Sized value) : value * fees.makerFeeBps < 2 ^ 64 :=
  lt_of_le_of_lt (Nat.mul_le_mul_left _ (Nat.le_max_right ..)) h.product

theorem FeeSchedule.Sized.taker (h : fees.Sized value) : value * fees.takerFeeBps < 2 ^ 64 :=
  lt_of_le_of_lt (Nat.mul_le_mul_left _ (Nat.le_max_left ..)) h.product

theorem makerFee_le (fees : FeeSchedule) (value : Nat) : fees.makerFee value ≤ fees.maxFee value :=
  bpsFee_le_of_le (Nat.le_max_right ..) value

theorem takerFee_le (fees : FeeSchedule) (value : Nat) : fees.takerFee value ≤ fees.maxFee value :=
  bpsFee_le_of_le (Nat.le_max_left ..) value

theorem feeOfBuyer_le (fees : FeeSchedule) (side : Side) (value : Nat) :
    fees.feeOfBuyer side value ≤ fees.maxFee value := by
  cases side with
  | bid => exact takerFee_le fees value
  | ask => exact makerFee_le fees value

theorem feeOfSeller_le_maxFee (fees : FeeSchedule) (side : Side) (value : Nat) :
    fees.feeOfSeller side value ≤ fees.maxFee value := by
  cases side with
  | bid => exact makerFee_le fees value
  | ask => exact takerFee_le fees value

theorem buyerFee_eq (h : fees.Sized value) (side : Side) :
    buyerFee (u64 true) fees side value = .ok (fees.feeOfBuyer side value) := by
  cases side with
  | bid => exact calcTakerFee_eq h.taker
  | ask => exact calcMakerFee_eq h.maker

theorem sellerFee_eq (h : fees.Sized value) (side : Side) :
    sellerFee (u64 true) fees side value = .ok (fees.feeOfSeller side value) := by
  cases side with
  | bid => exact calcMakerFee_eq h.maker
  | ask => exact calcTakerFee_eq h.taker

/-- The two fees on a trade together are far below the word, as each is a part of a product that is
within it. -/
theorem FeeSchedule.Sized.toll (h : fees.Sized value) (side : Side) :
    fees.feeOfBuyer side value + fees.feeOfSeller side value < 2 ^ 64 := by
  have hbuyer := feeOfBuyer_le fees side value
  have hseller := feeOfSeller_le_maxFee fees side value
  have hproduct := h.product
  unfold maxFee bpsFee at hbuyer hseller
  omega

theorem FeeSchedule.Sized.debit (h : fees.Sized value) (side : Side) :
    value + fees.feeOfBuyer side value < 2 ^ 64 := by
  have hbuyer := feeOfBuyer_le fees side value
  have hsum := h.sum
  omega

end Values

/-! ### Room on accounts -/

namespace EngineState

def Room (s : EngineState) (ps : List (Posting Account)) (k : Account) : Prop :=
  (s.holding k : Int) + net (· = k) ps < 2 ^ 64

def Absorbs (s : EngineState) (ps : List (Posting Account)) : Prop :=
  ∀ x ∈ ps, x.account.locked = false → s.Room ps x.account

/-- What one part of a journal leaves has room for the other. -/
theorem Absorbs.tail {s s' : EngineState} {ps qs : List (Posting Account)} (h : s.Absorbs (ps ++ qs))
    (hmoves : Moves s s' ps) : s'.Absorbs qs := by
  intro x hx hlocked
  have hroom := h x (List.mem_append_right _ hx) hlocked
  have hpost := hmoves.posts x.account
  unfold Room at hroom ⊢
  rw [net_append] at hroom
  omega

/-- Where no available account is debited later, there is room for the first part. -/
theorem Absorbs.head {s : EngineState} {ps qs : List (Posting Account)} (h : s.Absorbs (ps ++ qs))
    (hqs : ∀ x ∈ qs, x.account.locked = false → 0 ≤ x.amount) : s.Absorbs ps := by
  intro x hx hlocked
  have hroom := h x (List.mem_append_left _ hx) hlocked
  have hnonneg : 0 ≤ net (· = x.account) qs := by
    apply net_nonneg
    intro y hy heq
    exact hqs y hy (heq ▸ hlocked)
  unfold Room at hroom ⊢
  rw [net_append] at hroom
  omega

theorem Absorbs.of_le {s s' : EngineState} {ps : List (Posting Account)} (h : s.Absorbs ps)
    (hle : ∀ k : Account, k.locked = false → s'.holding k ≤ s.holding k) : s'.Absorbs ps := by
  intro x hx hlocked
  have hroom := h x hx hlocked
  have hholding := hle x.account hlocked
  unfold Room at hroom ⊢
  omega

section Operations

variable (s : EngineState) (user : Nat) (currency : Currency) {n : Nat}

theorem fits_balanceMut {f : Balance → Except Fault Balance}
    (h : Fits (f (s.balance user currency))) : Fits (s.balanceMut user currency f) := by
  cases currency with
  | usd => exact h.bind fun _ _ => fits_ok _
  | stock symbol => exact h.bind fun _ _ => fits_ok _

theorem spend_fits : Fits (s.balanceMut user currency (Balance.spend (u64 true) n)) := by
  apply fits_balanceMut
  exact (fits_sub _ _ _).bind fun _ _ => fits_ok _

theorem credit_fits (h : s.holding ⟨user, currency, false⟩ + n < 2 ^ 64) :
    Fits (s.balanceMut user currency (Balance.credit (u64 true) n)) := by
  apply fits_balanceMut
  exact Fits.bind (fits_add h) fun _ _ => fits_ok _

theorem lock_fits (h : s.holding ⟨user, currency, true⟩ + n < 2 ^ 64) :
    Fits (s.balanceMut user currency (Balance.lock (u64 true) n)) := by
  apply fits_balanceMut
  apply (fits_sub _ _ _).bind
  intro available _
  exact Fits.bind (fits_add h) fun _ _ => fits_ok _

theorem unlock_fits (h : s.holding ⟨user, currency, false⟩ + n < 2 ^ 64) :
    Fits (s.balanceMut user currency (Balance.unlock (u64 true) n)) := by
  apply fits_balanceMut
  apply (fits_sub _ _ _).bind
  intro locked _
  exact Fits.bind (fits_add h) fun _ _ => fits_ok _

end Operations

end EngineState

/-! ### Trades -/

theorem postings_nonneg (fees : FeeSchedule) (asset : Asset) (t : Trade) :
    ∀ x ∈ t.postings fees asset, x.account.locked = false → 0 ≤ x.amount := by
  simp [Trade.postings]

theorem journal_nonneg (fees : FeeSchedule) (asset : Asset) (ts : List Trade) :
    ∀ x ∈ journal fees asset ts, x.account.locked = false → 0 ≤ x.amount := by
  intro x hx
  obtain ⟨t, _, hx⟩ := List.mem_flatMap.mp hx
  exact postings_nonneg fees asset t x hx

theorem applyFill_fits {s : EngineState} {asset : Asset} {t : Trade}
    (hbuyer : t.debit s.feeSchedule ≤ s.holding ⟨t.buyer, .usd, true⟩)
    (hseller : t.qty ≤ s.holding ⟨t.seller, .stock asset.symbol, true⟩)
    (hsized : s.feeSchedule.Sized t.value) (habsorbs : s.Absorbs (t.postings s.feeSchedule asset)) :
    Fits (applyFill (u64 true) s asset t) := by
  have hmul : (u64 true).mul t.price t.qty = .ok t.value := u64_mul hsized.lt
  have hasset : s.Room (t.postings s.feeSchedule asset) ⟨t.buyer, .stock asset.symbol, false⟩ :=
    habsorbs ⟨⟨t.buyer, .stock asset.symbol, false⟩, t.qty⟩ (by simp [Trade.postings]) rfl
  have hproceeds : s.Room (t.postings s.feeSchedule asset) ⟨t.seller, .usd, false⟩ :=
    habsorbs ⟨⟨t.seller, .usd, false⟩, t.proceeds s.feeSchedule⟩ (by simp [Trade.postings]) rfl
  have htoll : s.Room (t.postings s.feeSchedule asset) ⟨0, .usd, false⟩ :=
    habsorbs ⟨⟨0, .usd, false⟩, t.toll s.feeSchedule⟩ (by simp [Trade.postings]) rfl
  simp [Room, Trade.postings] at hasset hproceeds htoll
  unfold applyFill
  rw [hmul, ok_bind, buyerFee_eq hsized, ok_bind, sellerFee_eq hsized, ok_bind,
    u64_add (hsized.debit t.takerSide), ok_bind]
  apply (spend_moves s t.buyer .usd hbuyer).fits_bind (spend_fits s t.buyer .usd)
  intro s₁ h₁
  have hroom₁ := h₁.posts ⟨t.buyer, .stock asset.symbol, false⟩
  simp at hroom₁
  apply (credit_moves s₁ t.buyer (.stock asset.symbol)).fits_bind
    (credit_fits s₁ t.buyer (.stock asset.symbol) (by omega))
  intro s₂ h₂
  have h₂ := h₁.trans h₂
  have hlocked : t.qty ≤ s₂.holding ⟨t.seller, .stock asset.symbol, true⟩ := by
    have hkeep := h₂.posts ⟨t.seller, .stock asset.symbol, true⟩
    simp at hkeep
    omega
  apply (spend_moves s₂ t.seller (.stock asset.symbol) hlocked).fits_bind
    (spend_fits s₂ t.seller (.stock asset.symbol))
  intro s₃ h₃
  have h₃ := h₂.trans h₃
  have hroom₃ := h₃.posts ⟨t.seller, .usd, false⟩
  simp at hroom₃
  apply (credit_moves s₃ t.seller .usd).fits_bind (credit_fits s₃ t.seller .usd (by
    change s₃.holding ⟨t.seller, .usd, false⟩ + t.proceeds s.feeSchedule < 2 ^ 64
    split at hproceeds <;> omega))
  intro s₄ h₄
  have h₄ := h₃.trans h₄
  have hroom₄ := h₄.posts ⟨0, .usd, false⟩
  simp at hroom₄
  rw [u64_add (hsized.toll t.takerSide), ok_bind]
  dsimp only
  split
  · refine Fits.bind (credit_fits s₄ 0 .usd ?_) fun _ _ => fits_ok _
    change s₄.holding ⟨0, .usd, false⟩ + t.toll s.feeSchedule < 2 ^ 64
    change (s₄.holding ⟨0, .usd, false⟩ : Int) = s.holding ⟨0, .usd, false⟩
      + (if t.seller = 0 then (t.proceeds s.feeSchedule : Int) else 0) at hroom₄
    omega
  · exact fits_ok _

theorem settleResult_fits (asset : Asset) (side : Side) (acc : Settlement) {t : Trade}
    (hbuyer : t.debit acc.state.feeSchedule ≤ acc.state.holding ⟨t.buyer, .usd, true⟩)
    (hseller : t.qty ≤ acc.state.holding ⟨t.seller, .stock asset.symbol, true⟩)
    (hsized : acc.state.feeSchedule.Sized t.value)
    (habsorbs : acc.state.Absorbs (t.postings acc.state.feeSchedule asset))
    (hfilled : acc.filledQty + t.qty < 2 ^ 64)
    (hspent : side = .bid → acc.spent + t.debit acc.state.feeSchedule < 2 ^ 64) :
    Fits (settleResult (u64 true) asset side acc (.trade t)) := by
  have hmul : (u64 true).mul t.price t.qty = .ok t.value := u64_mul hsized.lt
  unfold settleResult
  apply (applyFill_spec hbuyer hseller).fits_bind (applyFill_fits hbuyer hseller hsized habsorbs)
  rintro ⟨s', fees⟩ ⟨_, rfl⟩
  dsimp only
  rw [u64_add hfilled, ok_bind, hmul, ok_bind]
  split
  · next hside =>
    rw [u64_add (hsized.debit t.takerSide), ok_bind]
    exact Fits.bind (fits_add (hspent hside)) fun _ _ => fits_ok _
  · exact fits_ok _

structure TradesFit (asset : Asset) (side : Side) (ts : List Trade) (acc : Settlement) : Prop where
  sized : ∀ t ∈ ts, acc.state.feeSchedule.Sized t.value
  absorbs : acc.state.Absorbs (journal acc.state.feeSchedule asset ts)
  filled : acc.filledQty + (ts.map Trade.qty).sum < 2 ^ 64
  spent : side = .bid → acc.spent + (ts.map (Trade.debit acc.state.feeSchedule)).sum < 2 ^ 64

theorem TradesFit.tail {asset : Asset} {side : Side} {t : Trade} {ts : List Trade}
    {acc acc' : Settlement} (h : TradesFit asset side (t :: ts) acc)
    (hstep : Advances asset side [t] acc acc') : TradesFit asset side ts acc' := by
  have hfees := hstep.moves.venue.feeSchedule
  have hjournal : journal acc.state.feeSchedule asset (t :: ts)
      = journal acc.state.feeSchedule asset [t] ++ journal acc.state.feeSchedule asset ts := by
    simp [journal]
  have habsorbs := h.absorbs
  rw [hjournal] at habsorbs
  refine ⟨?_, ?_, ?_, ?_⟩
  · intro t' ht'
    rw [hfees]
    exact h.sized t' (List.mem_cons_of_mem _ ht')
  · rw [hfees]
    exact habsorbs.tail hstep.moves
  · have hfilled := h.filled
    rw [List.map_cons, List.sum_cons] at hfilled
    rw [hstep.filledQty]
    simp only [List.map_cons, List.map_nil, List.sum_cons, List.sum_nil]
    omega
  · intro hside
    have hspent := h.spent hside
    rw [List.map_cons, List.sum_cons] at hspent
    rw [hstep.spent, if_pos hside, hfees]
    simp only [List.map_cons, List.map_nil, List.sum_cons, List.sum_nil]
    omega

theorem settleTrades_fits (asset : Asset) (side : Side) (ts : List Trade) (acc : Settlement)
    (hcover : Covers acc.state asset ts) (hfit : TradesFit asset side ts acc) :
    Fits ((ts.map MatchResult.trade).foldlM (settleResult (u64 true) asset side) acc) := by
  induction ts generalizing acc with
  | nil => exact fits_ok _
  | cons t ts ih =>
      obtain ⟨hbuyer, hseller⟩ := hcover.head
      have hfirst : acc.state.Absorbs (t.postings acc.state.feeSchedule asset) := by
        have habsorbs := hfit.absorbs
        rw [journal, List.flatMap_cons] at habsorbs
        exact habsorbs.head (journal_nonneg _ asset ts)
      have hfilled := hfit.filled
      rw [List.map_cons, List.sum_cons] at hfilled
      have hone : Fits (settleResult (u64 true) asset side acc (.trade t)) := by
        apply settleResult_fits asset side acc hbuyer hseller (hfit.sized t (List.mem_cons_self ..))
          hfirst
        · omega
        · intro hside
          have hspent := hfit.spent hside
          rw [List.map_cons, List.sum_cons] at hspent
          omega
      rw [List.map_cons, List.foldlM_cons]
      apply (settleResult_spec asset side acc hbuyer hseller).fits_bind hone
      intro acc' h
      exact ih acc' (hcover.tail h.moves) (hfit.tail h)

theorem settleResults_fits (s : EngineState) (asset : Asset) (side : Side) (ts : List Trade)
    (resting : Option Order) (hcover : Covers s asset ts)
    (hfit : TradesFit asset side ts
      { state := s, filledQty := 0, spent := 0, resting := none, events := [] }) :
    Fits (settleResults (u64 true) s asset side (Orderbook.outcome ts resting)) := by
  unfold settleResults Orderbook.outcome
  rw [List.foldlM_append]
  apply (settleTrades_fits asset side ts _ hcover hfit).bind
  intro acc _
  cases resting with
  | none => exact fits_ok _
  | some o => exact fits_ok _

end CexRs
