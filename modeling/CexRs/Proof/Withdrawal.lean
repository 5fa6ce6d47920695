import CexRs.Exchange
import CexRs.Proof.Cancels

/-!
# Leaving the markets

The listing of a user's open orders has exactly the orders that rest for the user. To cancel them all, in
whatever order, takes exactly them out of the books and gives back exactly what they held: the balances
move by the same sum on every way, and a queue loses the same orders.
-/

namespace CexRs

open FixedWidth OrderedMap EngineState

/-! ### What a user's orders hold -/

def heldFor (fees : FeeSchedule) (user : Nat) (currency : Currency) (asset : Asset) (o : Order) : Nat :=
  if o.userId = user ∧ funds o.side asset = currency then o.held fees else 0

def EngineState.heldIn (s : EngineState) (user : Nat) (currency : Currency) : Nat :=
  (Asset.all.map fun asset =>
    Matching.weigh (heldFor s.feeSchedule user currency asset) (s.book asset)).sum

section Held

variable (s : EngineState) (user : Nat)

theorem heldIn_usd : s.heldIn user .usd = s.usdNeed user := by
  have hweight : ∀ asset, heldFor s.feeSchedule user .usd asset = bidNeed s.feeSchedule user := by
    intro asset
    funext o
    cases hside : o.side <;> simp [heldFor, bidNeed, funds, Order.held, hside]
  simp only [heldIn, usdNeed, hweight]

theorem heldIn_stock (asset : Asset) : s.heldIn user (.stock asset.symbol) = s.assetNeed user asset := by
  have hweight : ∀ a, heldFor s.feeSchedule user (.stock asset.symbol) a
      = if a = asset then askNeed user else fun _ => 0 := by
    intro a
    funext o
    have hsymbol : a.symbol = asset.symbol ↔ a = asset := by
      cases a <;> cases asset <;> decide
    by_cases ha : a = asset
    · cases hside : o.side <;> simp [heldFor, askNeed, funds, Order.held, hside, ha]
    · cases hside : o.side <;> simp [heldFor, funds, hside, ha, hsymbol]
  have hzero : ∀ ob : Orderbook, Matching.weigh (fun _ => 0) ob = 0 := by
    intro ob
    simp [Matching.weigh, total]
  cases asset <;> simp [heldIn, assetNeed, Asset.all, hweight, hzero]

end Held

/-! ### Withdrawing orders -/

/-- The orders of a user that rest under these ids are out of their queues, a level with them if nothing
else is queued there, and what they held is available. -/
structure Withdraws (user : Nat) (ids : List Nat) (s s' : EngineState) : Prop where
  orders : ∀ asset (id : Nat), (s'.book asset).orders[id]?
    = if id ∈ ids then none else (s.book asset).orders[id]?
  levels : ∀ asset side (price : Nat), ((s'.book asset).levels side)[price]?
    = (((s.book asset).levels side)[price]?).bind fun level =>
      if level.orders.filter (· ∉ ids) = [] then none else some ⟨level.orders.filter (· ∉ ids)⟩
  bookCounter : ∀ asset, (s'.book asset).nextOrderId = (s.book asset).nextOrderId
  nextOrderId : s'.nextOrderId = s.nextOrderId
  feeSchedule : s'.feeSchedule = s.feeSchedule
  available : ∀ currency, (s'.balance user currency).available + s'.heldIn user currency
    = (s.balance user currency).available + s.heldIn user currency
  locked : ∀ currency, (s'.balance user currency).locked + s.heldIn user currency
    = (s.balance user currency).locked + s'.heldIn user currency
  others : ∀ user', user' ≠ user → ∀ currency, s'.balance user' currency = s.balance user' currency

section Withdraws

variable {s s₁ s' : EngineState} {user : Nat} {ids ids₁ ids₂ : List Nat} {asset : Asset} {o : Order}

theorem Withdraws.refl (hv : s.Valid) : Withdraws user [] s s where
  orders _ _ := by simp
  levels a side price := by
    cases hget : ((s.book a).levels side)[price]? with
    | none => rfl
    | some level => simp [(hv.book a).nonempty hget]
  bookCounter _ := rfl
  nextOrderId := rfl
  feeSchedule := rfl
  available _ := rfl
  locked _ := rfl
  others _ _ _ := rfl

theorem Withdraws.trans (h₁ : Withdraws user ids₁ s s₁) (h₂ : Withdraws user ids₂ s₁ s') :
    Withdraws user (ids₁ ++ ids₂) s s' where
  orders a id := by
    rw [h₂.orders, h₁.orders]
    by_cases hid₁ : id ∈ ids₁ <;> by_cases hid₂ : id ∈ ids₂ <;> simp [hid₁, hid₂]
  levels a side price := by
    rw [h₂.levels, h₁.levels, Option.bind_assoc]
    refine Option.bind_congr fun level _ => ?_
    have hqueue : (level.orders.filter (· ∉ ids₁)).filter (· ∉ ids₂)
        = level.orders.filter (· ∉ ids₁ ++ ids₂) := by
      rw [List.filter_filter]
      refine List.filter_congr fun id _ => ?_
      simp [Bool.and_comm]
    by_cases hempty : level.orders.filter (· ∉ ids₁) = []
    · rw [if_pos hempty, Option.bind_none, if_pos (by rw [← hqueue, hempty]; rfl)]
    · rw [if_neg hempty, Option.bind_some, hqueue]
  bookCounter a := (h₂.bookCounter a).trans (h₁.bookCounter a)
  nextOrderId := h₂.nextOrderId.trans h₁.nextOrderId
  feeSchedule := h₂.feeSchedule.trans h₁.feeSchedule
  available currency := (h₂.available currency).trans (h₁.available currency)
  locked currency := by
    have hfirst := h₁.locked currency
    have hsecond := h₂.locked currency
    omega
  others user' hne currency := (h₂.others user' hne currency).trans (h₁.others user' hne currency)

/-- An order that is taken out gives up what it held, and no other does. -/
theorem TakesOut.heldIn (h : TakesOut s s' asset o) (hget : (s.book asset).orders[o.orderId]? = some o)
    (user : Nat) (currency : Currency) :
    s'.heldIn user currency + heldFor s.feeSchedule user currency asset o = s.heldIn user currency := by
  have horders : (s'.book asset).orders = ((s.book asset).remove o).orders := by
    rw [Orderbook.orders_remove]
    refine Std.ExtTreeMap.ext_getElem? fun {id} => ?_
    rw [h.orders, get_erase]
    by_cases hid : o.orderId = id
    · rw [if_pos hid, if_pos hid.symm]
    · rw [if_neg hid, if_neg (Ne.symm hid)]
  have hthis : Matching.weigh (heldFor s.feeSchedule user currency asset) (s'.book asset)
      + heldFor s.feeSchedule user currency asset o
      = Matching.weigh (heldFor s.feeSchedule user currency asset) (s.book asset) := by
    rw [← weigh_remove hget]
    simp only [Matching.weigh, horders]
  have hsol := h.others .sol
  have hbtc := h.others .btc
  have heth := h.others .eth
  clear horders hget
  simp only [EngineState.heldIn, h.feeSchedule]
  cases asset <;> simp_all [Asset.all] <;> omega

theorem withdraws_one (hv : s.Valid) (hget : (s.book asset).orders[o.orderId]? = some o)
    (htakes : TakesOut s s' asset o)
    (hrefunds : Refunds s s' o.userId (funds o.side asset) (o.held s.feeSchedule)) :
    Withdraws o.userId [o.orderId] s s' where
  orders a id := by
    by_cases ha : a = asset
    · subst ha
      simp [htakes.orders]
    · rw [htakes.others a ha]
      by_cases hid : id = o.orderId
      · subst hid
        rw [if_pos (List.mem_singleton_self _)]
        cases hother : (s.book a).orders[o.orderId]? with
        | none => rfl
        | some o' => exact absurd (hv.disjoint hother hget) ha
      · rw [if_neg (by simpa using hid)]
  levels a side price := by
    by_cases ha : a = asset
    · subst ha
      rw [htakes.levels]
      refine Option.bind_congr fun level hlevel => ?_
      have hnodup : level.orders.Nodup :=
        ((hv.book a).increasing hlevel).imp fun hlt => Nat.ne_of_lt hlt
      have hqueue : level.orders.erase o.orderId = level.orders.filter (· ∉ [o.orderId]) := by
        rw [hnodup.erase_eq_filter]
        refine List.filter_congr fun id _ => ?_
        rw [Bool.eq_iff_iff]
        simp
      rw [hqueue]
    · rw [htakes.others a ha]
      cases hlevel : ((s.book a).levels side)[price]? with
      | none => rfl
      | some level =>
          have hkeeps : level.orders.filter (· ∉ [o.orderId]) = level.orders := by
            refine List.filter_eq_self.mpr fun id hmem => ?_
            obtain ⟨o', hget', _⟩ := (hv.book a).queued hlevel id hmem
            have hne : id ≠ o.orderId := by
              rintro rfl
              exact ha (hv.disjoint hget' hget)
            simpa using hne
          simp only [Option.bind_some, hkeeps, if_neg ((hv.book a).nonempty hlevel)]
  bookCounter a := by
    by_cases ha : a = asset
    · subst ha
      exact htakes.bookCounter
    · rw [htakes.others a ha]
  nextOrderId := htakes.nextOrderId
  feeSchedule := htakes.feeSchedule
  available currency := by
    have hheld := htakes.heldIn hget o.userId currency
    by_cases hcurrency : funds o.side asset = currency
    · subst hcurrency
      rw [heldFor, if_pos ⟨rfl, rfl⟩] at hheld
      rw [hrefunds.moved]
      dsimp only
      omega
    · rw [heldFor, if_neg fun h => hcurrency h.2] at hheld
      rw [hrefunds.others _ _ fun h => hcurrency h.2.symm]
      omega
  locked currency := by
    have hheld := htakes.heldIn hget o.userId currency
    have hcovered := hrefunds.covered
    by_cases hcurrency : funds o.side asset = currency
    · subst hcurrency
      rw [heldFor, if_pos ⟨rfl, rfl⟩] at hheld
      rw [hrefunds.moved]
      dsimp only
      omega
    · rw [heldFor, if_neg fun h => hcurrency h.2] at hheld
      rw [hrefunds.others _ _ fun h => hcurrency h.2.symm]
      omega
  others user' hne currency := hrefunds.others _ _ fun h => hne h.1

end Withdraws

/-! ### The listing -/

def Order.listed (o : Order) (asset : Asset) : OpenOrderInfo :=
  ⟨o.orderId, o.userId, sideName o.side, o.price, o.remainingQty, asset.market⟩

def EngineState.listing (s : EngineState) (user : Nat) : List OpenOrderInfo :=
  Asset.all.flatMap fun asset =>
    ((s.book asset).restingOrders.filter (·.userId = user)).map (Order.listed · asset)

section Listing

variable {s : EngineState} {user : Nat}

theorem handleGetOpenOrders_eq (s : EngineState) (query : OpenOrdersQueryMsg) :
    handleGetOpenOrders s query
      = [replyTo query.queueId (.openOrders query.identifier (s.listing query.userId))] := by
  simp only [handleGetOpenOrders, EngineState.listing, Orderbook.getUserOrders, Orderbook.restingOrders,
    List.map_map]
  rfl

/-- What is listed is what rests for the user. -/
theorem mem_listing (hv : s.Valid) {info : OpenOrderInfo} :
    info ∈ s.listing user ↔ ∃ asset o, Rests s o.orderId asset o ∧ o.userId = user ∧
      info = o.listed asset := by
  rw [EngineState.listing, List.mem_flatMap]
  constructor
  · rintro ⟨asset, _, hmem⟩
    obtain ⟨o, hin, rfl⟩ := List.mem_map.mp hmem
    obtain ⟨hrests, huser⟩ := List.mem_filter.mp hin
    exact ⟨asset, o, (hv.book asset).mem_restingOrders.mp hrests, of_decide_eq_true huser, rfl⟩
  · rintro ⟨asset, o, hrests, huser, rfl⟩
    refine ⟨asset, by cases asset <;> decide, List.mem_map.mpr ⟨o, ?_, rfl⟩⟩
    exact List.mem_filter.mpr ⟨(hv.book asset).mem_restingOrders.mpr hrests, decide_eq_true huser⟩

theorem mem_listing_ids (hv : s.Valid) {id : Nat} :
    id ∈ (s.listing user).map OpenOrderInfo.orderId ↔
      ∃ asset o, Rests s id asset o ∧ o.userId = user := by
  rw [List.mem_map]
  constructor
  · rintro ⟨info, hinfo, rfl⟩
    obtain ⟨asset, o, hrests, howner, rfl⟩ := (mem_listing hv).mp hinfo
    exact ⟨asset, o, hrests, howner⟩
  · rintro ⟨asset, o, hrests, howner⟩
    have hid := (hv.book asset).orderId_eq hrests
    exact ⟨o.listed asset, (mem_listing hv).mpr ⟨asset, o, hid.symm ▸ hrests, howner, rfl⟩, hid⟩

/-- Each once. -/
theorem nodup_listing (hv : s.Valid) : ((s.listing user).map OpenOrderInfo.orderId).Nodup := by
  rw [EngineState.listing, List.map_flatMap, List.nodup_flatMap]
  constructor
  · intro asset _
    rw [List.map_map]
    refine List.Nodup.map_on ?_ ((hv.book asset).nodup_restingOrders.filter _)
    intro o hmem o' hmem' heq
    have hget := (hv.book asset).mem_restingOrders.mp (List.mem_of_mem_filter hmem)
    have hget' := (hv.book asset).mem_restingOrders.mp (List.mem_of_mem_filter hmem')
    rw [show o.orderId = o'.orderId from heq, hget'] at hget
    exact (Option.some.inj hget).symm
  · have hassets : Asset.all.Pairwise (· ≠ ·) := by decide
    refine hassets.imp fun hne id hmem hmem' => hne ?_
    obtain ⟨info, hinfo, rfl⟩ := List.mem_map.mp hmem
    obtain ⟨o, hin, rfl⟩ := List.mem_map.mp hinfo
    obtain ⟨info', hinfo', hid⟩ := List.mem_map.mp hmem'
    obtain ⟨o', hin', rfl⟩ := List.mem_map.mp hinfo'
    have hget := (hv.book _).mem_restingOrders.mp (List.mem_of_mem_filter hin)
    have hget' := (hv.book _).mem_restingOrders.mp (List.mem_of_mem_filter hin')
    rw [show o'.orderId = o.orderId from hid] at hget'
    exact hv.disjoint hget hget'

end Listing

/-! ### Cancelling all of them -/

section CancelAll

variable {builtins : Builtins} {s s' : EngineState} {asset : Asset} {o : Order}

def cancelledReply (msg : CancelMsg) (remainingQty : Nat) : Output :=
  replyTo msg.queueId (.cancel msg.identifier (some msg.orderId) (some remainingQty)
    (some "Order cancelled") none)

theorem handleCancel_answer {A : Arith} (hv : s.Valid) {msg : CancelMsg} {outputs : List Output}
    (hrests : Rests s msg.orderId asset o) (howner : o.userId = msg.userId)
    (h : handleCancel A s msg = .ok (s', outputs)) :
    outputs.filter (!·.isExecution) = [cancelledReply msg o.remainingQty] := by
  unfold handleCancel at h
  rcases cancelInBooks_spec s hv.book msg.orderId msg.userId Asset.all with
    ⟨_, hnone⟩ | ⟨asset', o', hget, _, hrun⟩
  · exact absurd howner (hnone asset (by cases asset <;> decide) o hrests)
  · have hasset := hv.disjoint hget hrests
    subst hasset
    rw [Rests, hget] at hrests
    cases hrests
    simp only [hrun, ok_bind] at h
    obtain ⟨s₁, _, h⟩ := bind_ok h
    obtain ⟨depth, hdepth, h⟩ := bind_ok h
    obtain ⟨snapshot, _, hdepth⟩ := bind_ok hdepth
    cases hdepth
    cases h
    rw [cancelledReply, ← (hv.book asset').orderId_eq hget]
    rfl

theorem held_le_heldIn (hrests : Rests s o.orderId asset o) :
    o.held s.feeSchedule ≤ s.heldIn o.userId (funds o.side asset) := by
  have hthis : heldFor s.feeSchedule o.userId (funds o.side asset) asset o
      ≤ Matching.weigh (heldFor s.feeSchedule o.userId (funds o.side asset) asset) (s.book asset) :=
    le_total (fun _ o' => heldFor s.feeSchedule o.userId (funds o.side asset) asset o') hrests
  rw [heldFor, if_pos ⟨rfl, rfl⟩] at hthis
  refine hthis.trans ?_
  cases asset <;> simp [EngineState.heldIn, Asset.all] <;> omega

/-- Each of a user's cancels takes its order out, whatever has gone before. -/
theorem run_cancels {user : Nat} (hcov : s.Covered) (hv : s.Valid) (hword : WordSized s)
    (cancels : List CancelMsg) (hmine : ∀ msg ∈ cancels, msg.userId = user)
    (hnodup : (cancels.map CancelMsg.orderId).Nodup)
    (hrest : ∀ msg ∈ cancels, ∃ asset o, Rests s msg.orderId asset o ∧ o.userId = user)
    (hroom : ∀ side asset, (s.balance user (funds side asset)).available
      + s.heldIn user (funds side asset) < 2 ^ 64) :
    ∃ s' outputs, run (u64 true) builtins s (cancels.map .cancel) = .ok (s', outputs) ∧
      s'.Covered ∧ s'.Valid ∧ Withdraws user (cancels.map CancelMsg.orderId) s s' ∧
      List.Forall₂ (fun msg answer => ∃ asset o, Rests s msg.orderId asset o ∧ o.userId = user ∧
        answer = cancelledReply msg o.remainingQty) cancels (outputs.filter (!·.isExecution)) := by
  induction cancels generalizing s with
  | nil => exact ⟨s, [], rfl, hcov, hv, Withdraws.refl hv, .nil⟩
  | cons msg cancels ih =>
      obtain ⟨asset, o, hrests, howner⟩ := hrest msg (List.mem_cons_self ..)
      have hid := (hv.book asset).orderId_eq hrests
      have hmsg : o.userId = msg.userId := howner.trans (hmine msg (List.mem_cons_self ..)).symm
      have hfits : RefundFits s msg := by
        intro asset' o' hrests' _
        have hasset := hv.disjoint hrests' hrests
        subst hasset
        rw [Rests, hrests] at hrests'
        cases hrests'
        have hheld := held_le_heldIn (hid.symm ▸ hrests)
        rw [howner] at hheld ⊢
        exact lt_of_le_of_lt (Nat.add_le_add_left hheld _) (hroom ..)
      obtain ⟨s₁, outputs₁, hhandle, hexact, _⟩ :=
        @cancelsExactly_of_fits builtins s hcov hv hword true msg hfits
      have heffect := (handleCancel_spec builtins s hcov hv msg).of_ok hhandle
      obtain ⟨htakes, hrefunds⟩ := hexact.owned asset o hrests hmsg
      have hone := withdraws_one hv (hid.symm ▸ hrests) htakes hrefunds
      rw [howner, hid] at hone
      rw [List.map_cons, List.nodup_cons] at hnodup
      -- the others still rest, and there is as much room for them
      have hrest₁ : ∀ msg' ∈ cancels, ∃ a o', Rests s₁ msg'.orderId a o' ∧ o'.userId = user := by
        intro msg' hmem
        obtain ⟨a, o', hrests', howner'⟩ := hrest msg' (List.mem_cons_of_mem _ hmem)
        have hne : msg'.orderId ≠ msg.orderId := fun heq =>
          hnodup.1 (List.mem_map.mpr ⟨msg', hmem, heq⟩)
        refine ⟨a, o', ?_, howner'⟩
        rw [Rests, hone.orders, if_neg (by simpa using hne)]
        exact hrests'
      have hroom₁ : ∀ side asset, (s₁.balance user (funds side asset)).available
          + s₁.heldIn user (funds side asset) < 2 ^ 64 :=
        fun side asset => (hone.available _).symm ▸ hroom side asset
      obtain ⟨s', outputs', hrun, hcov', hv', hwithdraws, hanswers⟩ := ih (heffect.covered hcov hv)
        (heffect.valid hv) (heffect.wordSized_of hv hword fun _ h => by cases h)
        (fun msg' hmem => hmine msg' (List.mem_cons_of_mem _ hmem)) hnodup.2
        hrest₁ hroom₁
      refine ⟨s', outputs₁ ++ outputs', ?_, hcov', hv', hone.trans hwithdraws, ?_⟩
      · rw [List.map_cons, run, show handle (u64 true) builtins s (.cancel msg) = _ from hhandle, ok_bind]
        dsimp only
        rw [hrun]
        rfl
      · rw [List.filter_append, handleCancel_answer hv hrests hmsg hhandle]
        refine .cons ⟨asset, o, hrests, howner, rfl⟩ (hanswers.imp ?_)
        rintro msg' answer ⟨a, o', hrests', howner', hanswer⟩
        refine ⟨a, o', ?_, howner', hanswer⟩
        rw [Rests, hone.orders] at hrests'
        split at hrests'
        · cases hrests'
        · exact hrests'

end CancelAll

/-- Nothing rests for the user, everybody else's orders stand where they stood, and what the user's orders
held is available. -/
structure LeftMarkets (user : Nat) (s s' : EngineState) : Prop where
  orders : ∀ asset (id : Nat), (s'.book asset).orders[id]?
    = ((s.book asset).orders[id]?).filter (·.userId ≠ user)
  queues : ∀ asset side (price : Nat), ((s'.book asset).levels side)[price]?
    = (((s.book asset).levels side)[price]?).bind fun level =>
      let others := level.orders.filter fun id => ((s.book asset).orders[id]?).any (·.userId ≠ user)
      if others = [] then none else some ⟨others⟩
  available : ∀ currency, (s'.balance user currency).available
    = (s.balance user currency).available + s.heldIn user currency
  usdLocked : (s'.usd user).locked + s.usdNeed user = (s.usd user).locked
  assetLocked : ∀ asset, (s'.asset user asset).locked = 0
  others : ∀ user', user' ≠ user → ∀ currency, s'.balance user' currency = s.balance user' currency
  nextOrderId : s'.nextOrderId = s.nextOrderId

section Left

variable {s s' : EngineState} {user : Nat} {ids : List Nat}

theorem heldIn_of_left (horders : ∀ asset (id : Nat), (s'.book asset).orders[id]?
    = ((s.book asset).orders[id]?).filter (·.userId ≠ user)) (currency : Currency) :
    s'.heldIn user currency = 0 := by
  have hzero : ∀ asset,
      Matching.weigh (heldFor s'.feeSchedule user currency asset) (s'.book asset) = 0 := by
    intro asset
    rw [Matching.weigh, total, List.sum_eq_zero_iff]
    intro n hn
    obtain ⟨⟨id, o⟩, hmem, rfl⟩ := List.mem_map.mp hn
    have hget := mem_toList.mp hmem
    rw [horders] at hget
    obtain ⟨_, hother⟩ := Option.filter_eq_some_iff.mp hget
    exact if_neg fun h => of_decide_eq_true hother h.1
  simp [EngineState.heldIn, Asset.all, hzero]

/-- All of a user's orders have been withdrawn. -/
theorem Withdraws.left (h : Withdraws user ids s s') (hv : s.Valid) (hcov : s'.Covered)
    (hids : ∀ id, id ∈ ids ↔ ∃ asset o, Rests s id asset o ∧ o.userId = user) :
    LeftMarkets user s s' := by
  have hmem : ∀ {asset : Asset} {id : Nat} {o : Order}, (s.book asset).orders[id]? = some o →
      (id ∈ ids ↔ o.userId = user) := by
    intro asset id o hget
    rw [hids]
    constructor
    · rintro ⟨asset', o', hrests, howner⟩
      have hasset := hv.disjoint hrests hget
      subst hasset
      rw [Rests, hget] at hrests
      cases hrests
      exact howner
    · intro howner
      exact ⟨asset, o, hget, howner⟩
  have horders : ∀ asset (id : Nat), (s'.book asset).orders[id]?
      = ((s.book asset).orders[id]?).filter (·.userId ≠ user) := by
    intro asset id
    rw [h.orders]
    cases hget : (s.book asset).orders[id]? with
    | none => simp
    | some o =>
        by_cases howner : o.userId = user
        · simp [(hmem hget).mpr howner, Option.filter_some, howner]
        · simp [mt (hmem hget).mp howner, Option.filter_some, howner]
  have hnone := heldIn_of_left horders
  refine ⟨horders, fun asset side price => ?_, fun currency => ?_, ?_, fun asset => ?_, h.others,
    h.nextOrderId⟩
  · rw [h.levels]
    refine Option.bind_congr fun level hlevel => ?_
    have hqueue : level.orders.filter (· ∉ ids)
        = level.orders.filter fun id => ((s.book asset).orders[id]?).any (·.userId ≠ user) := by
      refine List.filter_congr fun id hin => ?_
      obtain ⟨o, hget, _⟩ := (hv.book asset).queued hlevel id hin
      rw [hget, Option.any_some, Bool.eq_iff_iff, decide_eq_true_iff, decide_eq_true_iff, hmem hget]
    simp only [hqueue]
  · have havailable := h.available currency
    rw [hnone] at havailable
    exact havailable
  · have hlocked := h.locked .usd
    rw [hnone, heldIn_usd] at hlocked
    exact hlocked
  · have hlocked := hcov.asset user asset
    rw [← heldIn_stock, hnone] at hlocked
    exact hlocked

end Left

/-- **Everything can be withdrawn.** In a state that a run reaches without leaving the word, a user who
cancels what the listing shows, in any order, and has room for what it holds: either build takes all of it
and nothing else out of the books, confirms each with the quantity that was listed, and makes exactly what
it held available; no asset stays locked and nothing is listed any more. -/
theorem run_cancel_all (builtins : Builtins) (fees : FeeSchedule) (msgs : List Msg)
    (hover : run (u64 true) builtins (.new fees) msgs ≠ .error .overflow) :
    ∃ s outputs, (∀ checks, run (u64 checks) builtins (.new fees) msgs = .ok (s, outputs)) ∧
      ∀ (query : OpenOrdersQueryMsg) (infos : List OpenOrderInfo) (cancels : List CancelMsg),
        handleGetOpenOrders s query
          = [replyTo query.queueId (.openOrders query.identifier infos)] →
        (∀ msg ∈ cancels, msg.userId = query.userId) →
        (cancels.map CancelMsg.orderId).Perm (infos.map OpenOrderInfo.orderId) →
        (∀ side asset, (s.balance query.userId (funds side asset)).available
          + s.heldIn query.userId (funds side asset) < 2 ^ 64) →
        ∃ s' outputs',
          (∀ checks, run (u64 checks) builtins s (cancels.map .cancel) = .ok (s', outputs')) ∧
          LeftMarkets query.userId s s' ∧
          List.Forall₂ (fun msg answer => ∃ info ∈ infos, info.orderId = msg.orderId ∧
            answer = cancelledReply msg info.remainingQty) cancels (outputs'.filter (!·.isExecution)) ∧
          handleGetOpenOrders s' query = [replyTo query.queueId (.openOrders query.identifier [])] := by
  obtain ⟨s, outputs, hrun, _⟩ := runs_of_ne_overflow hover
  have hempty : WordSized (.new fees) := wordSized_of_empty (by rintro (_ | _ | _) <;> rfl)
  obtain ⟨hcov, hv, hword⟩ := run_wordSized (covered_new fees) (valid_new fees) hempty (hrun true)
  refine ⟨s, outputs, hrun, fun query infos cancels hlisted hmine hperm hroom => ?_⟩
  have hinfos : infos = s.listing query.userId := by
    rw [handleGetOpenOrders_eq] at hlisted
    simpa [replyTo] using hlisted.symm
  subst hinfos
  have hids : ∀ id, id ∈ cancels.map CancelMsg.orderId
      ↔ ∃ asset o, Rests s id asset o ∧ o.userId = query.userId :=
    fun id => hperm.mem_iff.trans (mem_listing_ids hv)
  obtain ⟨s', outputs', hcancels, hcov', hv', hwithdraws, hanswers⟩ := run_cancels hcov hv hword cancels
    hmine (hperm.nodup_iff.mpr (nodup_listing hv))
    (fun msg hmem => (hids _).mp (List.mem_map_of_mem hmem)) hroom
  have hleft := hwithdraws.left hv hcov' hids
  refine ⟨s', outputs', fun checks => run_agrees checks builtins s _ _ hcancels, hleft, ?_, ?_⟩
  · refine hanswers.imp ?_
    rintro msg answer ⟨asset, o, hrests, howner, rfl⟩
    have hid := (hv.book asset).orderId_eq hrests
    exact ⟨o.listed asset, (mem_listing hv).mpr ⟨asset, o, hid.symm ▸ hrests, howner, rfl⟩, hid, rfl⟩
  · have hnone : s'.listing query.userId = [] := by
      refine List.eq_nil_iff_forall_not_mem.mpr fun info hinfo => ?_
      obtain ⟨asset, o, hrests, howner, _⟩ := (mem_listing hv').mp hinfo
      rw [Rests, hleft.orders] at hrests
      obtain ⟨_, hother⟩ := Option.filter_eq_some_iff.mp hrests
      exact of_decide_eq_true hother howner
    rw [handleGetOpenOrders_eq, hnone]

/-- One of two users has a bid that is filled in part in one market and an ask in another. -/
def twoMarkets : List Msg :=
  [.onramp ⟨1, 2000, "q", "a"⟩, .deposit ⟨1, "btc", 3, "q", "b"⟩, .deposit ⟨2, "sol", 10, "q", "c"⟩,
    .order ⟨1, "SOL", "bid", .limit, 100, 10, none, .gtc, "q", "d"⟩,
    .order ⟨2, "SOL", "ask", .limit, 100, 4, none, .gtc, "q", "e"⟩,
    .order ⟨2, "SOL", "ask", .limit, 120, 2, none, .gtc, "q", "f"⟩,
    .order ⟨1, "BTC", "ask", .limit, 900, 3, none, .gtc, "q", "g"⟩]

def twoListed : List OpenOrderInfo :=
  [⟨1, 1, "bid", 100, 6, "SOL_USD"⟩, ⟨4, 1, "ask", 900, 3, "BTC_USD"⟩]

theorem run_cancel_all_twoMarkets :
    ∃ s outputs s' outputs', run (u64 true) .noSlippage (.new ⟨10, 20⟩) twoMarkets = .ok (s, outputs) ∧
      run (u64 true) .noSlippage s [.cancel ⟨1, 4, "q", "i"⟩, .cancel ⟨1, 1, "q", "j"⟩]
        = .ok (s', outputs') ∧ LeftMarkets 1 s s' ∧ ((s'.book .sol).orders[3]?).isSome := by
  obtain ⟨s, outputs, hrun, hall⟩ := run_cancel_all .noSlippage ⟨10, 20⟩ twoMarkets
    (ne_overflow_of_overflowed (by decide +kernel))
  obtain ⟨r, hr, htest⟩ := exists_of_returns
    (run (u64 true) .noSlippage (.new ⟨10, 20⟩) twoMarkets)
    (fun r => decide (r.1.listing 1 = twoListed) &&
      decide (∀ side ∈ [Side.bid, .ask], ∀ asset ∈ Asset.all,
        (r.1.balance 1 (funds side asset)).available + r.1.heldIn 1 (funds side asset) < 2 ^ 64) &&
      ((r.1.book .sol).orders[3]?).any (·.userId ≠ 1)) (by decide +kernel)
  rw [hrun true] at hr
  cases hr
  simp only [Bool.and_eq_true, decide_eq_true_eq] at htest
  obtain ⟨⟨hlisted, hroom⟩, hrests⟩ := htest
  obtain ⟨s', outputs', hcancels, hleft, _⟩ := hall ⟨1, "q", "h"⟩ twoListed
    [⟨1, 4, "q", "i"⟩, ⟨1, 1, "q", "j"⟩] (by rw [handleGetOpenOrders_eq, hlisted]) (by simp) (by decide)
    fun side asset => hroom side (by cases side <;> decide) asset (by cases asset <;> decide)
  obtain ⟨o, hget, hother⟩ := (Option.any_eq_true _ _).mp hrests
  refine ⟨s, outputs, s', outputs', hrun true, hcancels true, hleft, ?_⟩
  rw [hleft.orders, hget, Option.filter_some, if_pos hother]
  rfl

end CexRs
