import CexRs.Proof.Accounts

/-!
# Settlement

In the checked build a fill whose two payments are covered by locked funds is settled exactly, unless
a sum or a product overflows: five postings, whatever the users involved, and the event that reports
them. The loop over the match results posts the trades one after the other.
-/

namespace CexRs

open FixedWidth OrderedMap Journal EngineState

/-! ### Exact fees -/

def bpsFee (bps value : Nat) : Nat := value * bps / 10000

namespace FeeSchedule

variable (fees : FeeSchedule)

def makerFee (value : Nat) : Nat := bpsFee fees.makerFeeBps value

def takerFee (value : Nat) : Nat := bpsFee fees.takerFeeBps value

def feeOfBuyer (takerSide : Side) (value : Nat) : Nat :=
  match takerSide with
  | .bid => fees.takerFee value
  | .ask => fees.makerFee value

def feeOfSeller (takerSide : Side) (value : Nat) : Nat :=
  match takerSide with
  | .bid => fees.makerFee value
  | .ask => fees.takerFee value

end FeeSchedule

section Fees

variable (fees : FeeSchedule) (v : Nat)

theorem calcMakerFee_spec :
    Meets Overflows (fees.calcMakerFee (u64 true) v) fun fee => fee = fees.makerFee v :=
  meets_bind.mpr (meets_mul rfl fun _ => rfl)

theorem calcTakerFee_spec :
    Meets Overflows (fees.calcTakerFee (u64 true) v) fun fee => fee = fees.takerFee v :=
  meets_bind.mpr (meets_mul rfl fun _ => rfl)

theorem buyerFee_spec (side : Side) :
    Meets Overflows (buyerFee (u64 true) fees side v) fun fee => fee = fees.feeOfBuyer side v := by
  cases side with
  | bid => exact calcTakerFee_spec fees v
  | ask => exact calcMakerFee_spec fees v

theorem sellerFee_spec (side : Side) :
    Meets Overflows (sellerFee (u64 true) fees side v) fun fee => fee = fees.feeOfSeller side v := by
  cases side with
  | bid => exact calcMakerFee_spec fees v
  | ask => exact calcTakerFee_spec fees v

end Fees

/-! ### One trade -/

namespace Trade

variable (fees : FeeSchedule) (t : Trade)

def value : Nat := t.price * t.qty

/-- What the buyer pays, and what the seller gets. -/
def debit : Nat := t.value + fees.feeOfBuyer t.takerSide t.value

def proceeds : Nat := t.value - fees.feeOfSeller t.takerSide t.value

def toll : Nat := fees.feeOfBuyer t.takerSide t.value + fees.feeOfSeller t.takerSide t.value

def postings (asset : Asset) : List (Posting Account) :=
  [⟨⟨t.buyer, .usd, true⟩, -t.debit fees⟩, ⟨⟨t.buyer, .stock asset.symbol, false⟩, t.qty⟩,
    ⟨⟨t.seller, .stock asset.symbol, true⟩, -t.qty⟩, ⟨⟨t.seller, .usd, false⟩, t.proceeds fees⟩,
    ⟨⟨0, .usd, false⟩, t.toll fees⟩]

/-- The event that reports the trade, given the book once the whole match has run. -/
def event (ob : Orderbook) (asset : Asset) : ExecutionEvent :=
  .tradeExecuted t.makerOrderId t.takerOrderId t.buyer t.seller asset.market t.price t.qty t.value
    (((ob.getOrder t.makerOrderId).map Order.remainingQty).getD 0) 0
    (fees.feeOfBuyer t.takerSide t.value) (fees.feeOfSeller t.takerSide t.value)

end Trade

theorem applyFill_spec {s : EngineState} {asset : Asset} {t : Trade}
    (hbuyer : t.debit s.feeSchedule ≤ s.holding ⟨t.buyer, .usd, true⟩)
    (hseller : t.qty ≤ s.holding ⟨t.seller, .stock asset.symbol, true⟩) :
    Meets Overflows (applyFill (u64 true) s asset t) fun r =>
      Moves s r.1 (t.postings s.feeSchedule asset) ∧
      r.2 = (s.feeSchedule.feeOfBuyer t.takerSide t.value,
        s.feeSchedule.feeOfSeller t.takerSide t.value) := by
  unfold applyFill
  refine meets_bind.mpr (meets_mul rfl fun _ => ?_)
  refine (buyerFee_spec _ _ _).bind ?_
  rintro _ rfl
  refine (sellerFee_spec _ _ _).bind ?_
  rintro _ rfl
  refine meets_bind.mpr (meets_add rfl fun _ => ?_)
  refine (spend_moves s t.buyer .usd hbuyer).bind fun s₁ h₁ => ?_
  refine (credit_moves s₁ t.buyer (.stock asset.symbol)).bind fun s₂ h₂ => ?_
  have h₂ := h₁.trans h₂
  have hlocked : t.qty ≤ s₂.holding ⟨t.seller, .stock asset.symbol, true⟩ := by
    have hkeep := h₂.posts ⟨t.seller, .stock asset.symbol, true⟩
    simp at hkeep
    omega
  refine (spend_moves s₂ t.seller (.stock asset.symbol) hlocked).bind fun s₃ h₃ => ?_
  refine (credit_moves s₃ t.seller .usd).bind fun s₄ h₄ => ?_
  have h₄ := (h₂.trans h₃).trans h₄
  refine meets_bind.mpr (meets_add rfl fun _ => ?_)
  dsimp only
  split
  · refine (credit_moves s₄ 0 .usd).bind fun s₅ h₅ => ?_
    exact ⟨h₄.trans h₅, rfl⟩
  · next hzero =>
    have hzero : t.toll s.feeSchedule = 0 := Nat.eq_zero_of_not_pos hzero
    refine ⟨⟨?_, h₄.venue⟩, rfl⟩
    rw [Trade.postings, hzero]
    exact h₄.toPays.zero ⟨0, .usd, false⟩

/-! ### The trades of an order -/

section Trades

variable (fees : FeeSchedule)

/-- What a user pays over a list of trades, and what a user gives. -/
def paidBy (user : Nat) (ts : List Trade) : Nat :=
  (ts.map fun t => if t.buyer = user then t.debit fees else 0).sum

def givenBy (user : Nat) (ts : List Trade) : Nat :=
  (ts.map fun t => if t.seller = user then t.qty else 0).sum

def journal (asset : Asset) (ts : List Trade) : List (Posting Account) :=
  ts.flatMap fun t => t.postings fees asset

/-- What the trades take out of locked USD. -/
theorem net_journal_usd_locked (asset : Asset) (user : Nat) (ts : List Trade) :
    net (· = ⟨user, .usd, true⟩) (journal fees asset ts) = -paidBy fees user ts := by
  induction ts with
  | nil => simp [journal, paidBy]
  | cons t ts ih =>
      simp only [journal, paidBy, List.flatMap_cons, net_append, List.map_cons,
        List.sum_cons] at ih ⊢
      rw [ih]
      by_cases hbuyer : t.buyer = user
      · simp [Trade.postings, hbuyer]
        omega
      · simp [Trade.postings, hbuyer]

/-- What the trades take out of the locked asset. -/
theorem net_journal_stock_locked (asset : Asset) (user : Nat) (symbol : String) (ts : List Trade) :
    net (· = ⟨user, .stock symbol, true⟩) (journal fees asset ts)
      = if asset.symbol = symbol then -(givenBy user ts : Int) else 0 := by
  induction ts with
  | nil => simp [journal, givenBy]
  | cons t ts ih =>
      simp only [journal, givenBy, List.flatMap_cons, net_append, List.map_cons,
        List.sum_cons] at ih ⊢
      rw [ih]
      by_cases hsymbol : asset.symbol = symbol
      · by_cases hseller : t.seller = user
        · simp [Trade.postings, hsymbol, hseller]
          omega
        · simp [Trade.postings, hsymbol, hseller]
      · simp [Trade.postings, hsymbol]

end Trades

structure Advances (asset : Asset) (side : Side) (ts : List Trade) (acc acc' : Settlement) :
    Prop where
  moves : Moves acc.state acc'.state (journal acc.state.feeSchedule asset ts)
  filledQty : acc'.filledQty = acc.filledQty + (ts.map Trade.qty).sum
  spent : acc'.spent
    = acc.spent + if side = .bid then (ts.map (Trade.debit acc.state.feeSchedule)).sum else 0
  resting : acc'.resting = acc.resting
  events : acc'.events
    = acc.events ++ ts.map fun t => t.event acc.state.feeSchedule (acc.state.book asset) asset

theorem settleResult_spec (asset : Asset) (side : Side) (acc : Settlement) {t : Trade}
    (hbuyer : t.debit acc.state.feeSchedule ≤ acc.state.holding ⟨t.buyer, .usd, true⟩)
    (hseller : t.qty ≤ acc.state.holding ⟨t.seller, .stock asset.symbol, true⟩) :
    Meets Overflows (settleResult (u64 true) asset side acc (.trade t)) (Advances asset side [t] acc) := by
  unfold settleResult
  refine (applyFill_spec hbuyer hseller).bind ?_
  rintro ⟨s', fees⟩ ⟨hmoves, rfl⟩
  refine meets_bind.mpr (meets_add rfl fun _ => ?_)
  refine meets_bind.mpr (meets_mul rfl fun _ => ?_)
  have hevent : (((s'.book asset).getOrder t.makerOrderId).map Order.remainingQty).getD 0
      = (((acc.state.book asset).getOrder t.makerOrderId).map Order.remainingQty).getD 0 := by
    rw [hmoves.venue.book]
  dsimp only
  split
  · next hside =>
    refine meets_bind.mpr (meets_add rfl fun _ => ?_)
    refine meets_bind.mpr (meets_add rfl fun _ => ?_)
    refine ⟨?_, ?_, ?_, rfl, ?_⟩
    · simpa [journal] using hmoves
    · simp
    · simp [hside, Trade.debit, Trade.value]
    · simp [Trade.event, hevent, Trade.value]
  · next hside =>
    refine ⟨?_, ?_, ?_, rfl, ?_⟩
    · simpa [journal] using hmoves
    · simp
    · simp [hside]
    · simp [Trade.event, hevent, Trade.value]

theorem Advances.trans {asset : Asset} {side : Side} {ts ts' : List Trade} {acc acc' acc'' : Settlement}
    (h : Advances asset side ts acc acc') (h' : Advances asset side ts' acc' acc'') :
    Advances asset side (ts ++ ts') acc acc'' := by
  have hfees := h.moves.venue.feeSchedule
  have hbook := h.moves.venue.book asset
  refine ⟨?_, ?_, ?_, h'.resting.trans h.resting, ?_⟩
  · have hmoves := h.moves.trans (hfees ▸ h'.moves)
    simpa [journal] using hmoves
  · rw [h'.filledQty, h.filledQty, List.map_append, List.sum_append]
    omega
  · rw [h'.spent, h.spent, hfees, List.map_append, List.sum_append]
    split <;> omega
  · rw [h'.events, h.events, hfees, hbook]
    simp

structure Covers (s : EngineState) (asset : Asset) (ts : List Trade) : Prop where
  buyer : ∀ u, paidBy s.feeSchedule u ts ≤ s.holding ⟨u, .usd, true⟩
  seller : ∀ u, givenBy u ts ≤ s.holding ⟨u, .stock asset.symbol, true⟩

section Covers

variable {asset : Asset} {t : Trade} {ts : List Trade} {s s' : EngineState}

theorem paidBy_cons (fees : FeeSchedule) (u : Nat) : paidBy fees u (t :: ts)
    = (if t.buyer = u then t.debit fees else 0) + paidBy fees u ts := by
  simp [paidBy]

theorem givenBy_cons (u : Nat) :
    givenBy u (t :: ts) = (if t.seller = u then t.qty else 0) + givenBy u ts := by
  simp [givenBy]

theorem Covers.head (h : Covers s asset (t :: ts)) :
    t.debit s.feeSchedule ≤ s.holding ⟨t.buyer, .usd, true⟩ ∧
      t.qty ≤ s.holding ⟨t.seller, .stock asset.symbol, true⟩ := by
  have hbuyer := h.buyer t.buyer
  have hseller := h.seller t.seller
  rw [paidBy_cons, if_pos rfl] at hbuyer
  rw [givenBy_cons, if_pos rfl] at hseller
  exact ⟨by omega, by omega⟩

/-- What the first trade leaves covers the others. -/
theorem Covers.tail (h : Covers s asset (t :: ts))
    (hmoves : Moves s s' (journal s.feeSchedule asset [t])) : Covers s' asset ts := by
  constructor
  · intro u
    have hpost := hmoves.posts ⟨u, .usd, true⟩
    have hcover := h.buyer u
    rw [net_journal_usd_locked] at hpost
    rw [paidBy_cons] at hpost hcover
    simp only [paidBy, List.map_nil, List.sum_nil] at hpost
    rw [hmoves.venue.feeSchedule]
    simp only [paidBy] at hcover ⊢
    omega
  · intro u
    have hpost := hmoves.posts ⟨u, .stock asset.symbol, true⟩
    have hcover := h.seller u
    rw [net_journal_stock_locked, if_pos rfl] at hpost
    rw [givenBy_cons] at hpost hcover
    simp only [givenBy, List.map_nil, List.sum_nil] at hpost
    simp only [givenBy] at hcover ⊢
    omega

end Covers

/-- The loop settles every trade, as long as the trades are covered. -/
theorem settleTrades_spec (asset : Asset) (side : Side) (ts : List Trade) (acc : Settlement)
    (hcover : Covers acc.state asset ts) :
    Meets Overflows ((ts.map MatchResult.trade).foldlM (settleResult (u64 true) asset side) acc)
      (Advances asset side ts acc) := by
  induction ts generalizing acc with
  | nil => exact ⟨Moves.refl _, rfl, by simp, rfl, by simp⟩
  | cons t ts ih =>
      obtain ⟨hbuyer, hseller⟩ := hcover.head
      rw [List.map_cons, List.foldlM_cons]
      refine (settleResult_spec asset side acc hbuyer hseller).bind fun acc' h => ?_
      exact (ih acc' (hcover.tail h.moves)).imp fun acc'' _ h' => h.trans h'

structure Cleared (s : EngineState) (asset : Asset) (side : Side) (ts : List Trade)
    (resting : Option Order) (settled : Settlement) : Prop where
  moves : Moves s settled.state (journal s.feeSchedule asset ts)
  filledQty : settled.filledQty = (ts.map Trade.qty).sum
  spent : settled.spent
    = if side = .bid then (ts.map (Trade.debit s.feeSchedule)).sum else 0
  resting : settled.resting = resting.map Orderbook.accepted
  events : settled.events = ts.map fun t => t.event s.feeSchedule (s.book asset) asset

theorem settleResults_spec (s : EngineState) (asset : Asset) (side : Side) (ts : List Trade)
    (resting : Option Order) (hcover : Covers s asset ts) :
    Meets Overflows (settleResults (u64 true) s asset side (Orderbook.outcome ts resting))
      (Cleared s asset side ts resting) := by
  unfold settleResults Orderbook.outcome
  rw [List.foldlM_append]
  refine (settleTrades_spec asset side ts
    { state := s, filledQty := 0, spent := 0, resting := none, events := [] } hcover).bind
    fun acc h => ?_
  have hfilled := h.filledQty
  have hspent := h.spent
  have hevents := h.events
  simp only [Nat.zero_add, List.nil_append] at hfilled hspent hevents
  cases resting with
  | none => exact ⟨h.moves, hfilled, hspent, h.resting, hevents⟩
  | some o => exact ⟨h.moves, hfilled, hspent, rfl, hevents⟩

end CexRs
