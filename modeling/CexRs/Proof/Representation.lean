import CexRs.Proof.Venue

/-!
# Representation invariant of the engine

Every reached state has three valid books over disjoint ids, all of them below the counter. The step
lemma reads it off `VenueStep`; the run lemma carries along the ids issued since the last reset.
-/

namespace CexRs

open FixedWidth OrderedMap EngineState

structure Orderbook.Represented (ob : Orderbook) : Prop where
  queued : ∀ {side : Side} {price : Nat} {level : PriceLevel},
    (ob.levels side)[price]? = some level → ∀ id ∈ level.orders,
      ∃ o : Order, ob.orders[id]? = some o ∧ o.orderId = id ∧ o.side = side ∧ o.price = price
  once : ∀ {id : Nat} {o : Order}, ob.orders[id]? = some o →
    ∃ (side : Side) (price : Nat) (level : PriceLevel),
      (ob.levels side)[price]? = some level ∧ level.orders.count id = 1 ∧
      ∀ (side' : Side) (price' : Nat) (level' : PriceLevel),
        (ob.levels side')[price']? = some level' → id ∈ level'.orders →
          side' = side ∧ price' = price
  nonempty : ∀ {side : Side} {price : Nat} {level : PriceLevel},
    (ob.levels side)[price]? = some level → level.orders ≠ []
  positive : ∀ {id : Nat} {o : Order}, ob.orders[id]? = some o →
    0 < o.price ∧ 0 < o.remainingQty
  increasing : ∀ {side : Side} {price : Nat} {level : PriceLevel},
    (ob.levels side)[price]? = some level → level.orders.Pairwise (· < ·)

theorem Orderbook.Valid.represented {ob : Orderbook} (hv : ob.Valid) : ob.Represented := by
  refine ⟨hv.queued, ?_, hv.nonempty, hv.positive, hv.increasing⟩
  intro id o hget
  obtain ⟨level, hlevel, hmem⟩ := hv.listed hget
  refine ⟨o.side, o.price, level, hlevel, ?_, ?_⟩
  · exact List.count_eq_one_of_mem (hv.nodup hlevel) hmem
  · intro side' price' level' hlevel' hmem'
    exact hv.level_unique hlevel' hmem' hget

structure EngineState.Valid (s : EngineState) : Prop where
  book : ∀ asset, (s.book asset).Valid
  below : ∀ {asset : Asset} {id : Nat} {o : Order},
    (s.book asset).orders[id]? = some o → id < s.nextOrderId
  disjoint : ∀ {asset asset' : Asset} {id : Nat} {o o' : Order},
    (s.book asset).orders[id]? = some o → (s.book asset').orders[id]? = some o' → asset = asset'

/-- Nothing rests under the next id. -/
theorem EngineState.Valid.get_next {s : EngineState} (hv : s.Valid) (asset : Asset) :
    (s.book asset).orders[s.nextOrderId]? = none := by
  cases hget : (s.book asset).orders[s.nextOrderId]? with
  | none => rfl
  | some o => exact absurd (hv.below hget) (Nat.lt_irrefl _)

theorem orders_empty {s : EngineState} (h : ∀ asset, (s.book asset).orders = ∅) {asset : Asset}
    {id : Nat} {o : Order} : (s.book asset).orders[id]? ≠ some o := by
  simp [h asset]

theorem EngineState.valid_new (fees : FeeSchedule) : (EngineState.new fees).Valid := by
  have hempty : ∀ asset, ((EngineState.new fees).book asset).orders = ∅ := by
    rintro (_ | _ | _) <;> rfl
  refine ⟨?_, fun h => absurd h (orders_empty hempty), fun h => absurd h (orders_empty hempty)⟩
  rintro (_ | _ | _) <;> exact Orderbook.valid_new _

theorem EngineState.valid_reset (s : EngineState) : s.reset.Valid := by
  have hempty : ∀ asset, (s.reset.book asset).orders = ∅ := by
    rintro (_ | _ | _) <;> rfl
  refine ⟨?_, fun h => absurd h (orders_empty hempty), fun h => absurd h (orders_empty hempty)⟩
  rintro (_ | _ | _) <;> exact Orderbook.valid_reset _

theorem EngineState.Valid.of_same {s s' : EngineState} (hv : s.Valid) (h : SameVenue s s') :
    s'.Valid := by
  constructor
  · intro asset
    rw [h.book]
    exact hv.book asset
  · intro asset id o hget
    rw [h.book] at hget
    rw [h.nextOrderId]
    exact hv.below hget
  · intro asset asset' id o o' hget hget'
    rw [h.book] at hget hget'
    exact hv.disjoint hget hget'

/-! ### Accepted orders -/

section Executed

variable {s s' : EngineState} {asset : Asset} {taker : Taker} {past : Nat → Bool} {qty : Nat}
  {fs : List (Order × Nat)} {m : Matching} {resting : Option Order}

/-- What rests in the matched book after the fills rested there before them. -/
theorem Executed.get_matched (h : Executed s s' asset taker past qty fs m resting)
    (hv : (s.book asset).Valid) {id : Nat} {o : Order} (hget : m.book.orders[id]? = some o) :
    ∃ o₀, (s.book asset).orders[id]? = some o₀ := by
  obtain ⟨o₀, hget₀, _⟩ := h.took.fills.get_orders (hv.issue _) hget
  exact ⟨o₀, hget₀⟩

/-- An order that rests afterwards rested in the same book before, at the same price and with no less,
or is what is left of the new one. -/
theorem Executed.rested (h : Executed s s' asset taker past qty fs m resting)
    (hv : (s.book asset).Valid) {a : Asset} {id : Nat} {o : Order}
    (hget : (s'.book a).orders[id]? = some o) :
    (∃ o₀ : Order, (s.book a).orders[id]? = some o₀ ∧ o.side = o₀.side ∧ o.price = o₀.price ∧
      o.userId = o₀.userId ∧ o.remainingQty ≤ o₀.remainingQty) ∨
    a = asset ∧ resting = some o ∧ id = o.orderId := by
  by_cases ha : a = asset
  · subst ha
    rw [h.book_self] at hget
    cases hrest : resting with
    | none =>
        rw [hrest] at hget
        exact Or.inl (h.took.fills.get_orders (hv.issue _) hget)
    | some x =>
        rw [hrest, Orderbook.restAll, Option.elim_some, Orderbook.orders_rest, get_insert] at hget
        split at hget
        · next hid =>
            cases hget
            exact Or.inr ⟨rfl, rfl, hid.symm⟩
        · exact Or.inl (h.took.fills.get_orders (hv.issue _) hget)
  · rw [h.book_other a ha] at hget
    exact Or.inl ⟨o, hget, rfl, rfl, rfl, le_rfl⟩

theorem Executed.get_orders (h : Executed s s' asset taker past qty fs m resting)
    (hv : (s.book asset).Valid) {a : Asset} {id : Nat} {o : Order}
    (hget : (s'.book a).orders[id]? = some o) :
    (∃ o₀, (s.book a).orders[id]? = some o₀) ∨ a = asset ∧ id = s.nextOrderId := by
  rcases h.rested hv hget with ⟨o₀, hget₀, _⟩ | ⟨ha, hrest, hid⟩
  · exact Or.inl ⟨o₀, hget₀⟩
  · obtain ⟨_, price, _, rfl⟩ := h.leaves o hrest
    exact Or.inr ⟨ha, hid.trans h.orderId⟩

/-- The match leaves nothing under the id of the new order. -/
theorem Executed.get_next (h : Executed s s' asset taker past qty fs m resting) (hv : s.Valid) :
    m.book.orders[s.nextOrderId]? = none := by
  cases hget : m.book.orders[s.nextOrderId]? with
  | none => rfl
  | some o =>
      obtain ⟨o₀, hget₀⟩ := h.get_matched (hv.book asset) hget
      exact absurd (hv.below hget₀) (Nat.lt_irrefl _)

/-- What rests under the id of the new order is what is left of it. -/
theorem Executed.get_new (h : Executed s s' asset taker past qty fs m resting) (hv : s.Valid) :
    (s'.book asset).orders[s.nextOrderId]? = resting := by
  rw [h.book_self]
  cases hrest : resting with
  | none => exact h.get_next hv
  | some o =>
      obtain ⟨_, price, _, rfl⟩ := h.leaves o hrest
      rw [Orderbook.restAll, Option.elim_some, Orderbook.orders_rest, get_insert]
      exact if_pos h.orderId

/-- What rests under any other id is what the match has left of it. -/
theorem Executed.get_old (h : Executed s s' asset taker past qty fs m resting) {id : Nat}
    (hid : id ≠ s.nextOrderId) : (s'.book asset).orders[id]? = m.book.orders[id]? := by
  rw [h.book_self]
  cases hrest : resting with
  | none => rfl
  | some o =>
      obtain ⟨_, price, _, rfl⟩ := h.leaves o hrest
      rw [Orderbook.restAll, Option.elim_some, Orderbook.orders_rest, get_insert]
      apply if_neg
      intro heq
      exact hid (heq.symm.trans h.orderId)

/-- A maker rests in the book that is matched, so it has an older id, and gives something. -/
theorem Executed.maker (h : Executed s s' asset taker past qty fs m resting) (hv : s.Valid)
    {o : Order} {n : Nat} (hmem : (o, n) ∈ fs) :
    (s.book asset).orders[o.orderId]? = some o ∧ 0 < n ∧ o.orderId ≠ s.nextOrderId := by
  obtain ⟨hget, _, _, hpos, _⟩ := h.took.fills.mem ((hv.book asset).issue taker.orderId) hmem
  have hbelow := hv.below hget
  exact ⟨hget, hpos, by omega⟩

/-- A maker is gone if it is used up, else it has given its part. -/
theorem Executed.get_maker (h : Executed s s' asset taker past qty fs m resting) (hv : s.Valid)
    {o : Order} {n : Nat} (hmem : (o, n) ∈ fs) :
    (s'.book asset).orders[o.orderId]?
      = if n < o.remainingQty then some (Matching.shrinkOrder o n) else none := by
  rw [h.get_old (h.maker hv hmem).2.2]
  exact h.took.fills.get_maker ((hv.book asset).issue taker.orderId) hmem

/-- An order that is neither new nor a maker is left alone. -/
theorem Executed.get_other (h : Executed s s' asset taker past qty fs m resting) {id : Nat}
    (hnew : id ≠ s.nextOrderId) (hid : ∀ f ∈ fs, f.1.orderId ≠ id) (a : Asset) :
    (s'.book a).orders[id]? = (s.book a).orders[id]? := by
  by_cases ha : a = asset
  · subst ha
    rw [h.get_old hnew, h.took.fills.get_other hid]
    rfl
  · rw [h.book_other a ha]

theorem Executed.valid (h : Executed s s' asset taker past qty fs m resting) (hv : s.Valid) :
    s'.Valid := by
  constructor
  · intro a
    by_cases ha : a = asset
    · subst ha
      rw [h.book_self]
      cases hrest : resting with
      | none => exact h.took.valid
      | some x =>
          obtain ⟨hqty, price, hprice, rfl⟩ := h.leaves x hrest
          refine h.took.valid.rest hprice hqty fun id o hget => ?_
          obtain ⟨o₀, hget₀⟩ := h.get_matched (hv.book a) hget
          have hbelow := hv.below hget₀
          simp only [Orderbook.leftover, h.orderId]
          exact hbelow
    · rw [h.book_other a ha]
      exact hv.book a
  · intro a id o hget
    rw [h.nextOrderId]
    rcases h.get_orders (hv.book asset) hget with ⟨o₀, hget₀⟩ | ⟨_, hid⟩
    · have hbelow := hv.below hget₀
      omega
    · omega
  · intro a a' id o o' hget hget'
    rcases h.get_orders (hv.book asset) hget with ⟨o₀, hget₀⟩ | ⟨ha, hid⟩
    · rcases h.get_orders (hv.book asset) hget' with ⟨o₀', hget₀'⟩ | ⟨_, hid'⟩
      · exact hv.disjoint hget₀ hget₀'
      · have hbelow := hv.below hget₀
        omega
    · rcases h.get_orders (hv.book asset) hget' with ⟨o₀', hget₀'⟩ | ⟨ha', _⟩
      · have hbelow := hv.below hget₀'
        omega
      · rw [ha, ha']

end Executed

/-! ### Steps and runs -/

theorem get_orders_removed {s : EngineState} {asset a : Asset} {o x : Order} {id : Nat}
    (h : ((s.setBook asset ((s.book asset).remove o)).book a).orders[id]? = some x) :
    (s.book a).orders[id]? = some x := by
  by_cases ha : a = asset
  · subst ha
    rw [book_setBook_self, Orderbook.orders_remove, get_erase] at h
    split at h
    · cases h
    · exact h
  · rwa [book_setBook_of_ne _ _ _ ha] at h

theorem valid_removed {s : EngineState} (hv : s.Valid) {asset : Asset} {id : Nat} {o : Order}
    (hget : (s.book asset).orders[id]? = some o) :
    (s.setBook asset ((s.book asset).remove o)).Valid := by
  constructor
  · intro a
    by_cases ha : a = asset
    · subst ha
      rw [book_setBook_self]
      have hid := (hv.book a).orderId_eq hget
      exact (hv.book a).remove (hid.symm ▸ hget)
    · rw [book_setBook_of_ne _ _ _ ha]
      exact hv.book a
  · intro a id x h
    rw [nextOrderId_setBook]
    exact hv.below (get_orders_removed h)
  · intro a a' id x x' h h'
    exact hv.disjoint (get_orders_removed h) (get_orders_removed h')

theorem VenueStep.valid {A : Arith} {builtins : Builtins} {s s' : EngineState} {msg : Msg}
    {events : List ExecutionEvent} (h : VenueStep A builtins s msg s' events) (hv : s.Valid) :
    s'.Valid := by
  cases h with
  | idle h => exact hv.of_same h
  | order h => exact h.filled.executed.valid hv
  | cancel hget huser h => exact (valid_removed hv hget).of_same h
  | reset => exact valid_reset s

def AllResting (P : Order → Prop) (s : EngineState) : Prop :=
  ∀ (asset : Asset) (id : Nat) (o : Order), (s.book asset).orders[id]? = some o → P o

/-- A property that new orders have and that fills keep holds of every resting order. -/
theorem VenueStep.allResting {A : Arith} {builtins : Builtins} {s s' : EngineState} {msg : Msg}
    {events : List ExecutionEvent} {P : Order → Prop} (h : VenueStep A builtins s msg s' events)
    (hv : s.Valid) (hfill : ∀ {o₀ o : Order}, P o₀ → o.price = o₀.price → o.userId = o₀.userId →
      o.remainingQty ≤ o₀.remainingQty → P o)
    (hnew : ∀ order o, msg = .order order → o.price = order.price.toInt.toNat →
      o.userId = order.userId → o.remainingQty ≤ order.qty.toInt.toNat → P o)
    (hall : AllResting P s) : AllResting P s' := by
  intro asset id o hget
  cases h with
  | idle h =>
      rw [h.book] at hget
      exact hall asset id o hget
  | @order msg side found fs m p bids asks h =>
      have hexec := h.filled.executed
      rcases hexec.rested (hv.book p.asset) hget with ⟨o₀, hget₀, _, hprice, huser, hle⟩ | ⟨_, hrest, _⟩
      · exact hfill (hall asset id o₀ hget₀) hprice huser hle
      · obtain ⟨_, _, rfl⟩ := remainderOf_some hrest
        have hremaining := hexec.took.fills.remaining
        simp only at hremaining
        apply hnew msg _ rfl rfl rfl
        simp only [Orderbook.leftover]
        omega
  | cancel hget₀ huser h =>
      rw [h.book] at hget
      exact hall asset id o (get_orders_removed hget)
  | reset =>
      have hempty : ∀ asset, (s.reset.book asset).orders = ∅ := by rintro (_ | _ | _) <;> rfl
      exact absurd hget (orders_empty hempty)

/-- What new orders have and fills keep holds of every resting order of a run. -/
theorem run_allResting (A : Arith) (builtins : Builtins) (s : EngineState) (hv : s.Valid)
    {P : Order → Prop} (hfill : ∀ {o₀ o : Order}, P o₀ → o.price = o₀.price → o.userId = o₀.userId →
      o.remainingQty ≤ o₀.remainingQty → P o) (msgs : List Msg)
    (hnew : ∀ order o, Msg.order order ∈ msgs → o.price = order.price.toInt.toNat →
      o.userId = order.userId → o.remainingQty ≤ order.qty.toInt.toNat → P o)
    (hall : AllResting P s) :
    Meets Arithmetic (run A builtins s msgs) fun r => r.1.Valid ∧ AllResting P r.1 := by
  induction msgs generalizing s with
  | nil => exact ⟨hv, hall⟩
  | cons msg msgs ih =>
      unfold run
      apply (handle_venue A builtins s hv.book msg).bind
      intro r hr
      have hall' : AllResting P r.1 := by
        apply hr.allResting hv hfill _ hall
        rintro order o rfl
        exact hnew order o (List.mem_cons_self ..)
      have hrest := ih r.1 (hr.valid hv)
        (fun order o hmem => hnew order o (List.mem_cons_of_mem _ hmem)) hall'
      exact hrest.bind fun _ hr' => hr'

theorem allResting_new (fees : FeeSchedule) (P : Order → Prop) : AllResting P (.new fees) := by
  intro asset id o hget
  have horders : ∀ asset, ((EngineState.new fees).book asset).orders = ∅ := by
    rintro (_ | _ | _) <;> rfl
  exact absurd hget (orders_empty horders)

section Run

variable (A : Arith) (builtins : Builtins)

/-- The ids issued since the last reset, after one more message. The counter is only moved by
`next_order_id`, which hands out the id it moves past, and by a reset. -/
def issueStep (s s' : EngineState) (ids : List Nat) : Msg → List Nat
  | .reset _ => []
  | _ => if s'.nextOrderId = s.nextOrderId then ids else ids ++ [s.nextOrderId]

def issuedIds : EngineState → List Nat → List Msg → List Nat
  | _, ids, [] => ids
  | s, ids, msg :: msgs =>
      match handle A builtins s msg with
      | .error _ => ids
      | .ok (s', _) => issuedIds s' (issueStep s s' ids msg) msgs

def IssuedBelow (ids : List Nat) (next : Nat) : Prop :=
  ids.Pairwise (· < ·) ∧ ∀ id ∈ ids, id < next

theorem issuedBelow_step {s s' : EngineState} {msg : Msg} {events : List ExecutionEvent}
    (h : VenueStep A builtins s msg s' events) {ids : List Nat} (hids : IssuedBelow ids s.nextOrderId) :
    IssuedBelow (issueStep s s' ids msg) s'.nextOrderId := by
  have hsame : s'.nextOrderId = s.nextOrderId → IssuedBelow
      (if s'.nextOrderId = s.nextOrderId then ids else ids ++ [s.nextOrderId]) s'.nextOrderId := by
    intro heq
    rw [if_pos heq, heq]
    exact hids
  have hempty : ∀ next, IssuedBelow [] next := fun _ => ⟨List.Pairwise.nil, by simp⟩
  cases h with
  | idle h =>
      cases msg with
      | reset msg => exact hempty _
      | _ => exact hsame h.nextOrderId
  | order h =>
      simp only [issueStep, h.filled.executed.nextOrderId, Nat.succ_ne_self, if_false]
      refine ⟨?_, ?_⟩
      · rw [List.pairwise_append]
        refine ⟨hids.1, List.pairwise_singleton _ _, ?_⟩
        intro id hid next hnext
        rw [List.mem_singleton.mp hnext]
        exact hids.2 id hid
      · intro id hid
        rcases List.mem_append.mp hid with hid | hid
        · exact Nat.lt_succ_of_lt (hids.2 id hid)
        · rw [List.mem_singleton.mp hid]
          exact Nat.lt_succ_self _
  | cancel hget huser h => exact hsame (h.nextOrderId.trans (nextOrderId_setBook ..))
  | reset => exact hempty _

theorem run_valid (s : EngineState) (hv : s.Valid) (ids : List Nat)
    (hids : IssuedBelow ids s.nextOrderId) (msgs : List Msg) :
    Meets Arithmetic (run A builtins s msgs) fun r =>
      r.1.Valid ∧ IssuedBelow (issuedIds A builtins s ids msgs) r.1.nextOrderId := by
  induction msgs generalizing s ids with
  | nil => exact ⟨hv, hids⟩
  | cons msg msgs ih =>
      unfold run issuedIds
      have hstep := handle_venue A builtins s hv.book msg
      cases hrun : handle A builtins s msg with
      | error f => exact hstep.of_error hrun
      | ok r =>
          have hvenue := hstep.of_ok hrun
          exact (ih r.1 (hvenue.valid hv) _ (issuedBelow_step A builtins hvenue hids)).bind fun _ hr => hr

end Run

/-- **Representation.** In every state that a run of messages reaches, in either build, each book's
queues and map of orders agree, no id rests in two books, and the ids issued since the last reset are
distinct and below the counter. A run that does not return has stopped in arithmetic: no `expect` of
the book operations fails and no matching loop runs on. -/
theorem run_represented (checks : Bool) (builtins : Builtins) (fees : FeeSchedule)
    (msgs : List Msg) :
    Meets Arithmetic (run (u64 checks) builtins (.new fees) msgs) fun r =>
      (∀ asset, (r.1.book asset).Represented) ∧
      (∀ (asset asset' : Asset) (id : Nat), asset ≠ asset' → ((r.1.book asset).orders[id]?).isSome →
        (r.1.book asset').orders[id]? = none) ∧
      (issuedIds (u64 checks) builtins (.new fees) [] msgs).Pairwise (· < ·) ∧
      ∀ id ∈ issuedIds (u64 checks) builtins (.new fees) [] msgs, id < r.1.nextOrderId := by
  have hrun := run_valid (u64 checks) builtins _ (valid_new fees) [] ⟨List.Pairwise.nil, by simp⟩ msgs
  refine hrun.imp fun r _ hr => ?_
  obtain ⟨hv, hincreasing, hbelow⟩ := hr
  refine ⟨fun asset => (hv.book asset).represented, ?_, hincreasing, hbelow⟩
  intro asset asset' id hne hsome
  obtain ⟨o, hget⟩ := Option.isSome_iff_exists.mp hsome
  cases hget' : (r.1.book asset').orders[id]? with
  | none => rfl
  | some o' => exact absurd (hv.disjoint hget hget') hne

end CexRs
