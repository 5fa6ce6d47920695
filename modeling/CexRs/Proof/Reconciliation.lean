import CexRs.Ledger
import CexRs.Proof.Conservation

/-!
# Reconciliation

The worker derives its ledger entries from the events alone. As long as the amounts fit in `i64`, the
entries of an event are the postings of the effect that emitted it, less the moves between available
and locked. So over a run without reset the entries of a user in a currency sum up to what the engine
says that user holds, and the clearing entries to what was paid in, negated.
-/

namespace CexRs

open FixedWidth OrderedMap Journal EngineState

/-! ### Entries as postings -/

structure LedgerAccount where
  userId : Int
  currency : String
  balanceType : BalanceType
  deriving DecidableEq, Repr

def LedgerEntry.posting (e : LedgerEntry) : Posting LedgerAccount :=
  ⟨⟨e.userId, e.currency, e.balanceType⟩, e.amount⟩

/-- The code under which the ledger keeps a currency. The symbols of the markets are ASCII. -/
def Currency.code : Currency → String
  | .usd => "USD"
  | .stock symbol => toUppercase symbol

def Currency.Listed (currency : Currency) : Prop :=
  currency = .usd ∨ ∃ asset : Asset, currency = .stock asset.symbol

/-- The entries of a user in a currency other than clearing, those of all users, and the clearing
entries. -/
def ofUser (user : Nat) (currency : Currency) (k : LedgerAccount) : Prop :=
  k.userId = asI64 user ∧ k.currency = currency.code ∧ k.balanceType ≠ .clearing

def ofUsers (currency : Currency) (k : LedgerAccount) : Prop :=
  k.currency = currency.code ∧ k.balanceType ≠ .clearing

def ofClearing (currency : Currency) (k : LedgerAccount) : Prop :=
  k.currency = currency.code ∧ k.balanceType = .clearing

instance (user : Nat) (currency : Currency) : DecidablePred (ofUser user currency) :=
  fun _ => inferInstanceAs (Decidable (_ ∧ _))

instance (currency : Currency) : DecidablePred (ofUsers currency) :=
  fun _ => inferInstanceAs (Decidable (_ ∧ _))

instance (currency : Currency) : DecidablePred (ofClearing currency) :=
  fun _ => inferInstanceAs (Decidable (_ ∧ _))

def Tables.sum (sel : LedgerAccount → Prop) [DecidablePred sel] (db : Tables) : Int :=
  net sel (db.ledgerEntries.map LedgerEntry.posting)

def eventPostings : ExecutionEvent → List (Posting LedgerAccount)
  | .tradeExecuted _ _ buyerId sellerId market _ qty quoteAmount _ _ buyerFee sellerFee =>
      let base := baseCurrency market
      [⟨⟨asI64 buyerId, "USD", .locked⟩, -(quoteAmount + buyerFee : Nat)⟩,
        ⟨⟨asI64 buyerId, base, .available⟩, qty⟩,
        ⟨⟨asI64 sellerId, "USD", .available⟩, (quoteAmount - sellerFee : Nat)⟩,
        ⟨⟨asI64 sellerId, base, .locked⟩, -qty⟩,
        ⟨⟨0, "USD", .available⟩, (buyerFee + sellerFee : Nat)⟩]
  | .fundingExecuted userId currency amount _ =>
      [⟨⟨asI64 userId, currency, .available⟩, amount⟩, ⟨⟨0, currency, .clearing⟩, -amount⟩]
  | _ => []

/-- The amounts of an event, and the two sums the worker forms of them, are in the range of `i64`. -/
def ExecutionEvent.Fits : ExecutionEvent → Prop
  | .tradeExecuted _ _ _ _ _ _ qty quoteAmount _ _ buyerFee sellerFee =>
      qty < 2 ^ 63 ∧ quoteAmount + buyerFee < 2 ^ 63 ∧ buyerFee + sellerFee < 2 ^ 63
  | .fundingExecuted _ _ amount _ => amount < 2 ^ 63
  | _ => True

theorem asI64_of_lt {n : Nat} (h : n < 2 ^ 63) : asI64 n = n := by
  unfold asI64
  rw [if_neg]
  omega

@[simp] theorem asI64_inj {a b : Nat} : asI64 a = asI64 b ↔ a = b := by
  unfold asI64
  split <;> split <;> omega

theorem negI64_of_lt (A : Arith) {n : Nat} (h : n < 2 ^ 63) : negI64 A n = .ok (-n) := by
  unfold negI64
  rw [if_neg]
  omega

/-! ### What the worker writes -/

def Statement.entries : Statement → List LedgerEntry
  | .insertEntries entries => entries
  | _ => []

theorem ledgerEntries_execute (db : Tables) (st : Statement) :
    (st.execute db).ledgerEntries = db.ledgerEntries ++ st.entries := by
  cases st with
  | upsertOrder row => simp [Statement.execute, Statement.entries]
  | insertTrade row => simp [Statement.execute, Statement.entries]
  | updateOrder id remainingQty status =>
      simp only [Statement.execute, Statement.entries]
      split <;> simp
  | insertEntries entries => rfl

theorem ledgerEntries_foldl (db : Tables) (sts : List Statement) :
    (sts.foldl Statement.execute db).ledgerEntries
      = db.ledgerEntries ++ sts.flatMap Statement.entries := by
  induction sts generalizing db with
  | nil => simp
  | cons st sts ih =>
      rw [List.foldl_cons, ih, ledgerEntries_execute, List.append_assoc, List.flatMap_cons]

/-- An event whose amounts fit is written down, in either build, as it is on unbounded integers. -/
theorem statements_of_fits (checks : Bool) (uuid : String) {event : ExecutionEvent}
    (h : event.Fits) (sel : LedgerAccount → Prop) [DecidablePred sel] :
    ∃ sts, statements (u64 checks) uuid event = .ok sts ∧
      net sel ((sts.flatMap Statement.entries).map LedgerEntry.posting)
        = net sel (eventPostings event) := by
  cases event with
  | orderCreated => exact ⟨_, rfl, rfl⟩
  | orderCancelled => exact ⟨_, rfl, rfl⟩
  | depthUpdated => exact ⟨_, rfl, rfl⟩
  | fundingExecuted userId currency amount operationType =>
      simp only [statements, asI64_of_lt h, negI64_of_lt _ h]
      exact ⟨_, rfl, rfl⟩
  | tradeExecuted maker taker buyer seller market price qty quote remaining _ buyerFee sellerFee =>
      obtain ⟨hqty, hdebit, htoll⟩ := h
      have hword : 2 ^ 63 < 2 ^ (u64 checks).bits := by
        change 2 ^ 63 < 2 ^ 64
        decide
      have hproceeds : quote - sellerFee < 2 ^ 63 := by omega
      simp only [statements, Arith.add_of_lt _ (lt_trans hdebit hword),
        Arith.add_of_lt _ (lt_trans htoll hword), ok_bind, asI64_of_lt hdebit, asI64_of_lt hqty,
        asI64_of_lt htoll, asI64_of_lt hproceeds, negI64_of_lt _ hdebit, negI64_of_lt _ hqty]
      refine ⟨_, rfl, ?_⟩
      by_cases hzero : buyerFee + sellerFee = 0
      · simp [Statement.entries, LedgerEntry.posting, eventPostings, hzero]
      · have hpos : 0 < (buyerFee : Int) + sellerFee := by omega
        simp [Statement.entries, LedgerEntry.posting, eventPostings, hpos]

/-- The worker gets through a list of events whose amounts fit, and adds what they post. -/
theorem applyEvents_of_fits (checks : Bool) (tagged : List (String × ExecutionEvent))
    (h : ∀ e ∈ tagged, e.2.Fits) (db : Tables) :
    ∃ db', applyEvents (u64 checks) db tagged = .ok db' ∧
      ∀ (sel : LedgerAccount → Prop) [DecidablePred sel],
        db'.sum sel = db.sum sel + net sel (tagged.flatMap fun e => eventPostings e.2) := by
  induction tagged generalizing db with
  | nil => exact ⟨db, rfl, fun sel _ => by simp⟩
  | cons e tagged ih =>
      obtain ⟨uuid, event⟩ := e
      have hevent : event.Fits := h (uuid, event) (List.mem_cons_self ..)
      obtain ⟨sts, hsts, _⟩ := statements_of_fits checks uuid hevent fun _ => True
      obtain ⟨db', hdb', hsum⟩ := ih (fun e he => h e (List.mem_cons_of_mem _ he))
        (sts.foldl Statement.execute db)
      refine ⟨db', ?_, ?_⟩
      · simp only [applyEvents, hsts]
        exact hdb'
      · intro sel _
        obtain ⟨sts', hsts', hnet⟩ := statements_of_fits checks uuid hevent sel
        obtain rfl : sts = sts' := by
          rw [hsts] at hsts'
          exact Except.ok.inj hsts'
        rw [hsum, Tables.sum, ledgerEntries_foldl, List.map_append, net_append, hnet,
          List.flatMap_cons, net_append, Tables.sum, add_assoc]

/-! ### The codes -/

theorem baseCurrency_market (asset : Asset) :
    baseCurrency asset.market = (Currency.stock asset.symbol).code := by
  cases asset <;> decide

theorem code_inj {c c' : Currency} (h : c.Listed) (h' : c'.Listed) : c.code = c'.code ↔ c = c' := by
  rcases h with rfl | ⟨asset, rfl⟩ <;> rcases h' with rfl | ⟨asset', rfl⟩
  · simp
  · cases asset' <;> decide
  · cases asset <;> decide
  · cases asset <;> cases asset' <;> decide

theorem uppercase_listed (casing : Casing) {symbol : String} (h : (Currency.stock symbol).Listed) :
    casing.uppercase symbol = (Currency.stock symbol).code := by
  rcases h with h | ⟨asset, h⟩
  · cases h
  · cases h
    exact casing.uppercase_ascii _ (by cases asset <;> simp [Asset.symbol])

theorem listed_usd : Currency.usd.Listed := Or.inl rfl

theorem listed_stock (asset : Asset) : (Currency.stock asset.symbol).Listed := Or.inr ⟨asset, rfl⟩

/-! ### Effects -/

/-- The entries of a list of events post what a journal posts, in every listed currency: to each user,
and to all users together. -/
structure Books (events : List ExecutionEvent) (ps : List (Posting Account)) (c : Currency) : Prop where
  user : ∀ user, net (ofUser user c) (events.flatMap eventPostings)
    = net (fun k => k.user = user ∧ k.currency = c) ps
  users : net (ofUsers c) (events.flatMap eventPostings) = net (fun k => k.currency = c) ps

theorem Books.append {events events' : List ExecutionEvent} {ps ps' : List (Posting Account)}
    {c : Currency} (h : Books events ps c) (h' : Books events' ps' c) :
    Books (events ++ events') (ps ++ ps') c := by
  refine ⟨fun user => ?_, ?_⟩
  · rw [List.flatMap_append, net_append, net_append, h.user, h'.user]
  · rw [List.flatMap_append, net_append, net_append, h.users, h'.users]

/-- A journal that only moves money between available and locked books nothing. -/
theorem books_nil {ps : List (Posting Account)} {c : Currency}
    (huser : ∀ user, net (fun k => k.user = user ∧ k.currency = c) ps = 0)
    (husers : net (fun k => k.currency = c) ps = 0) : Books [] ps c :=
  ⟨fun user => (huser user).symm, husers.symm⟩

theorem books_lock (user : Nat) (currency : Currency) (n : Nat) (c : Currency) :
    Books [] (lockPostings user currency n) c := by
  refine books_nil (fun user' => ?_) (net_lock ..)
  simp only [lockPostings, net_cons, net_nil]
  split <;> simp

theorem books_unlock (user : Nat) (currency : Currency) (n : Nat) (c : Currency) :
    Books [] (unlockPostings user currency n) c := by
  refine books_nil (fun user' => ?_) (net_unlock ..)
  simp only [unlockPostings, net_cons, net_nil]
  split <;> simp

theorem books_trade (fees : FeeSchedule) (ob : Orderbook) (asset : Asset) (t : Trade) {c : Currency}
    (hc : c.Listed) : Books [t.event fees ob asset] (t.postings fees asset) c := by
  have husd : "USD" = c.code ↔ Currency.usd = c := code_inj listed_usd hc
  have hbase : baseCurrency asset.market = c.code ↔ Currency.stock asset.symbol = c := by
    rw [baseCurrency_market]
    exact code_inj (listed_stock asset) hc
  have htreasury : ∀ user, (0 : Int) = asI64 user ↔ 0 = user := fun user => asI64_inj (a := 0)
  refine ⟨fun user => ?_, ?_⟩
  · simp only [List.flatMap_cons, List.flatMap_nil, List.append_nil, Trade.event, eventPostings,
      Trade.postings, Trade.debit, Trade.proceeds, Trade.toll, net_cons, net_nil, ofUser, husd, hbase,
      asI64_inj, htreasury]
    simp
    omega
  · simp only [List.flatMap_cons, List.flatMap_nil, List.append_nil, Trade.event, eventPostings,
      Trade.postings, Trade.debit, Trade.proceeds, Trade.toll, net_cons, net_nil, ofUsers, husd, hbase]
    simp
    omega

theorem books_trades (fees : FeeSchedule) (ob : Orderbook) (asset : Asset) (ts : List Trade)
    {c : Currency} (hc : c.Listed) :
    Books (ts.map fun t => t.event fees ob asset) (journal fees asset ts) c := by
  induction ts with
  | nil => exact ⟨fun _ => rfl, rfl⟩
  | cons t ts ih => exact (books_trade fees ob asset t hc).append ih

theorem books_credit {user : Nat} {currency c : Currency} (hcurrency : currency.Listed) (hc : c.Listed)
    (n : Nat) (operation : String) :
    Books [.fundingExecuted user currency.code n operation] (creditPostings user currency n) c := by
  refine ⟨fun user' => ?_, ?_⟩
  · simp [eventPostings, creditPostings, ofUser, code_inj hcurrency hc]
  · simp [eventPostings, creditPostings, ofUsers, code_inj hcurrency hc]

/-- What a journal posts to a user in a currency is how that user's total changes. -/
theorem total_of_pays {s s' : EngineState} {ps : List (Posting Account)} (h : Pays s s' ps)
    (user : Nat) (c : Currency) :
    ((s'.balance user c).total : Int)
      = (s.balance user c).total + net (fun k => k.user = user ∧ k.currency = c) ps := by
  have havailable := h.posts ⟨user, c, false⟩
  have hlocked := h.posts ⟨user, c, true⟩
  simp only [← available_eq, ← locked_eq] at havailable hlocked
  rw [net_held, Balance.total, Balance.total]
  omega

/-- An order that rests and a new depth are no entries. -/
theorem eventPostings_order (events : List ExecutionEvent) (msg : OrderMsg) (asset : Asset)
    (resting : Option Order) (bids asks : List (Nat × Nat)) :
    (events ++ restingEvents msg asset resting
        ++ [ExecutionEvent.depthUpdated asset.market bids asks]).flatMap eventPostings
      = events.flatMap eventPostings := by
  cases resting <;> simp [restingEvents, eventPostings]

theorem cleared_trades (fees : FeeSchedule) (ob : Orderbook) (asset : Asset) (ts : List Trade)
    (c : Currency) :
    net (ofClearing c) ((ts.map fun t => t.event fees ob asset).flatMap eventPostings) = 0 := by
  apply net_eq_zero
  rintro x hx ⟨_, hclearing⟩
  rw [List.flatMap_map] at hx
  obtain ⟨t, _, hx⟩ := List.mem_flatMap.mp hx
  simp only [Trade.event, eventPostings, List.mem_cons, List.not_mem_nil, or_false] at hx
  rcases hx with rfl | rfl | rfl | rfl | rfl <;> cases hclearing

theorem cleared_credit {user : Nat} {currency c : Currency} (hcurrency : currency.Listed)
    (hc : c.Listed) (n : Nat) (operation : String) :
    net (ofClearing c) ([.fundingExecuted user currency.code n operation].flatMap eventPostings)
      = -((0 + if c = currency then n else 0 : Nat) : Int) := by
  by_cases heq : c = currency
  · simp [eventPostings, ofClearing, heq]
  · simp [eventPostings, ofClearing, code_inj hcurrency hc, heq, Ne.symm heq]

section Effects

variable {builtins : Builtins} {s s' : EngineState} {msg : Msg} {msgs : List Msg}
  {events : List ExecutionEvent} {c : Currency}

theorem Effect.books (h : Effect builtins s msg s' events) (hreset : ∀ r, msg ≠ .reset r)
    (hsymbol : ∀ m, msg = .deposit m → (Currency.stock m.symbol).Listed) (hc : c.Listed) :
    ∃ ps, Pays s s' ps ∧ Books events ps c := by
  cases h with
  | still _ _ _ h => exact ⟨[], h.toPays, fun _ => rfl, rfl⟩
  | onramp h => exact ⟨_, h.toPays, books_credit listed_usd hc _ _⟩
  | deposit h =>
      rw [uppercase_listed _ (hsymbol _ rfl)]
      exact ⟨_, h.toPays, books_credit (hsymbol _ rfl) hc _ _⟩
  | @order msg side fs m p bids asks _ _ h =>
      have hlocked := books_lock msg.userId (funds side p.asset) p.lock c
      have htrades := hlocked.append (books_trades s.feeSchedule (p.state.book p.asset) p.asset
        (Matching.trades ⟨s.nextOrderId, msg.userId, side⟩ fs) hc)
      have hbooks := htrades.append (books_unlock msg.userId (funds side p.asset) p.refund c)
      rw [List.nil_append, List.append_nil, ← h.events] at hbooks
      refine ⟨_, h.pays, fun user => ?_, ?_⟩
      · rw [eventPostings_order]
        exact hbooks.user user
      · rw [eventPostings_order]
        exact hbooks.users
  | cancel hget huser hvenue h =>
      rename_i msg asset o bids asks
      have hunlock := books_unlock o.userId (funds o.side asset) (o.held s.feeSchedule) c
      exact ⟨_, h, fun user => hunlock.user user, hunlock.users⟩
  | reset => exact absurd rfl (hreset _)

/-- Only a funding is cleared, and what it clears is what it pays in. -/
theorem Effect.cleared (h : Effect builtins s msg s' events) (hreset : ∀ r, msg ≠ .reset r)
    (hsymbol : ∀ m, msg = .deposit m → (Currency.stock m.symbol).Listed) (hc : c.Listed) :
    net (ofClearing c) (events.flatMap eventPostings) = -(fundedStep c 0 msg : Nat) := by
  cases h with
  | still hr ho hd h =>
      cases msg with
      | onramp msg => exact absurd rfl (ho msg)
      | deposit msg => exact absurd rfl (hd msg)
      | reset msg => exact absurd rfl (hr msg)
      | _ => rfl
  | onramp h => exact cleared_credit listed_usd hc _ _
  | deposit h =>
      rw [uppercase_listed _ (hsymbol _ rfl)]
      exact cleared_credit (hsymbol _ rfl) hc _ _
  | order _ _ h =>
      rw [eventPostings_order, h.events]
      exact cleared_trades ..
  | cancel hget huser hvenue h => rfl
  | reset => exact absurd rfl (hreset _)

theorem fundedStep_eq_add (amount : Nat) (hreset : ∀ r, msg ≠ .reset r) :
    fundedStep c amount msg = amount + fundedStep c 0 msg := by
  cases msg with
  | reset r => exact absurd rfl (hreset r)
  | onramp r => simp [fundedStep]
  | deposit r => simp [fundedStep]
  | _ => rfl

/-- Over a run without reset the entries follow the engine: each user's total, what all users hold, and
what was paid in. -/
structure Follows (s s' : EngineState) (msgs : List Msg) (events : List ExecutionEvent)
    (c : Currency) : Prop where
  user : ∀ user, ((s'.balance user c).total : Int)
    = (s.balance user c).total + net (ofUser user c) (events.flatMap eventPostings)
  users : (s'.supply c : Int) = s.supply c + net (ofUsers c) (events.flatMap eventPostings)
  clearing : ∀ amount, ((msgs.foldl (fundedStep c) amount : Nat) : Int)
    = amount - net (ofClearing c) (events.flatMap eventPostings)

theorem Runs.follows (h : Runs builtins s msgs s' events) (hreset : ∀ r, Msg.reset r ∉ msgs)
    (hsymbol : ∀ m, Msg.deposit m ∈ msgs → (Currency.stock m.symbol).Listed) (hc : c.Listed) :
    Follows s s' msgs events c := by
  induction h with
  | nil hcov hv => exact ⟨fun user => by simp, by simp, fun amount => by simp⟩
  | cons hcov hv heffect hruns ih =>
      rename_i s s' s'' msg msgs events events'
      have hr : ∀ r, msg ≠ .reset r := fun r heq => hreset r (heq ▸ List.mem_cons_self ..)
      have hs : ∀ m, msg = .deposit m → (Currency.stock m.symbol).Listed :=
        fun m heq => hsymbol m (heq ▸ List.mem_cons_self ..)
      obtain ⟨ps, hpays, hbooks⟩ := heffect.books hr hs hc
      have hcleared := heffect.cleared hr hs hc
      have ih := ih (fun r hmem => hreset r (List.mem_cons_of_mem _ hmem))
        fun m hmem => hsymbol m (List.mem_cons_of_mem _ hmem)
      refine ⟨fun user => ?_, ?_, fun amount => ?_⟩
      · rw [ih.user, total_of_pays hpays, ← hbooks.user, List.flatMap_append, net_append, add_assoc]
      · rw [ih.users, hpays.supply, ← hbooks.users, List.flatMap_append, net_append, add_assoc]
      · rw [List.foldl_cons, ih.clearing, fundedStep_eq_add amount hr, List.flatMap_append,
          net_append, hcleared]
        omega

end Effects

theorem total_new (fees : FeeSchedule) (user : Nat) (c : Currency) :
    ((EngineState.new fees).balance user c).total = 0 := by
  cases c <;> simp [balance, EngineState.new, usd, stock, Balance.total]

/-- Every entry of a currency is a user's or a clearing entry. -/
theorem sum_currency (db : Tables) (c : Currency) :
    db.sum (fun k => k.currency = c.code) = db.sum (ofUsers c) + db.sum (ofClearing c) := by
  apply net_eq_add
  · intro k
    by_cases hclearing : k.balanceType = .clearing <;> simp [ofUsers, ofClearing, hclearing]
  · rintro k ⟨_, hne⟩ ⟨_, heq⟩
    exact hne heq

/-- **Reconciliation.** Let a run without reset pay in nothing but USD and the three assets and overflow
nowhere, and let the amounts of its events fit in `i64`. When the worker, in either build, has applied
the events once and in order, the entries of every user in every currency sum up to what the engine
says the user holds, available and locked; the clearing entries of the currency sum up to what was paid
in, negated; and all entries of the currency to zero. -/
theorem run_reconciles (builtins : Builtins) (fees : FeeSchedule) (hmaker : fees.makerFeeBps ≤ 10000)
    (htaker : fees.takerFeeBps ≤ 10000) (msgs : List Msg) (hreset : ∀ r, Msg.reset r ∉ msgs)
    (hsymbol : ∀ m, Msg.deposit m ∈ msgs → m.symbol ∈ ["sol", "btc", "eth"])
    (hover : run (u64 true) builtins (.new fees) msgs ≠ .error .overflow)
    (hfits : ∀ s outputs, run (u64 true) builtins (.new fees) msgs = .ok (s, outputs) →
      ∀ event ∈ executions outputs, event.Fits) :
    ∃ s outputs, (∀ checks, run (u64 checks) builtins (.new fees) msgs = .ok (s, outputs)) ∧
      ∀ (uuids : List String), uuids.length = (executions outputs).length → ∀ checks, ∃ db,
        applyEvents (u64 checks) .empty (uuids.zip (executions outputs)) = .ok db ∧
        ∀ c : Currency, c.Listed →
          (∀ user, db.sum (ofUser user c) = (s.balance user c).available + (s.balance user c).locked) ∧
          db.sum (ofClearing c) = -funded c msgs ∧
          db.sum (fun k => k.currency = c.code) = 0 := by
  obtain ⟨s, outputs, hrun, hruns⟩ := runs_of_ne_overflow hover
  refine ⟨s, outputs, hrun, fun uuids hlength checks => ?_⟩
  have hevents : (uuids.zip (executions outputs)).map Prod.snd = executions outputs :=
    List.map_snd_zip (le_of_eq hlength.symm)
  obtain ⟨db, happly, hsum⟩ := applyEvents_of_fits checks (uuids.zip (executions outputs))
    (fun e he => hfits s outputs (hrun true) e.2 (hevents ▸ List.mem_map_of_mem he)) .empty
  have hnet : ∀ (sel : LedgerAccount → Prop) [DecidablePred sel],
      db.sum sel = net sel ((executions outputs).flatMap eventPostings) := by
    intro sel _
    have hempty : Tables.empty.sum sel = 0 := rfl
    conv_rhs => rw [← hevents, List.flatMap_map]
    rw [hsum, hempty, zero_add]
  refine ⟨db, happly, fun c hc => ?_⟩
  have hlisted : ∀ m, Msg.deposit m ∈ msgs → (Currency.stock m.symbol).Listed := by
    intro m hm
    have hmem := hsymbol m hm
    simp only [List.mem_cons, List.not_mem_nil, or_false] at hmem
    rcases hmem with h | h | h
    · exact Or.inr ⟨.sol, by rw [h]; rfl⟩
    · exact Or.inr ⟨.btc, by rw [h]; rfl⟩
    · exact Or.inr ⟨.eth, by rw [h]; rfl⟩
  have hfollows := hruns.follows hreset hlisted hc
  have hclearing : db.sum (ofClearing c) = -funded c msgs := by
    have hpaid := hfollows.clearing 0
    rw [hnet, funded]
    omega
  have husers : db.sum (ofUsers c) = funded c msgs := by
    have hheld := hfollows.users
    rw [hruns.supply ⟨hmaker, htaker⟩, supply_new] at hheld
    rw [hnet, funded]
    omega
  refine ⟨fun user => ?_, hclearing, ?_⟩
  · have htotal := hfollows.user user
    rw [total_new, Balance.total] at htotal
    rw [hnet]
    omega
  · rw [sum_currency, husers, hclearing]
    omega

instance (event : ExecutionEvent) : Decidable event.Fits :=
  match event with
  | .tradeExecuted .. => inferInstanceAs (Decidable (_ ∧ _))
  | .fundingExecuted .. => inferInstanceAs (Decidable (_ < _))
  | .orderCreated .. | .orderCancelled .. | .depthUpdated .. => isTrue trivial

theorem run_reconciles_session :
    ∃ s outputs db, run (u64 false) .noSlippage (.new ⟨10, 20⟩) session = .ok (s, outputs) ∧
      applyEvents (u64 false) .empty (((executions outputs).map fun _ => "").zip (executions outputs))
        = .ok db ∧
      db.sum (ofUser 1 .usd) = (s.usd 1).available + (s.usd 1).locked ∧
      db.sum (ofClearing .usd) = -2000 := by
  obtain ⟨⟨s, outputs⟩, hrun, hfits⟩ := exists_of_returns
    (run (u64 true) .noSlippage (.new ⟨10, 20⟩) session)
    (fun r => decide (∀ event ∈ executions r.2, event.Fits)) (by decide +kernel)
  obtain ⟨s', outputs', hrun', hdb⟩ := run_reconciles .noSlippage ⟨10, 20⟩ (by decide) (by decide)
    session (by simp [session]) (by simp [session])
    (ne_overflow_of_overflowed (by decide +kernel))
    (fun s' outputs' hrun' => by
      rw [hrun] at hrun'
      cases hrun'
      exact of_decide_eq_true hfits)
  obtain ⟨db, happly, hsum⟩ := hdb ((executions outputs').map fun _ => "") (by simp) false
  obtain ⟨huser, hclearing, _⟩ := hsum .usd listed_usd
  exact ⟨s', outputs', db, hrun' false, happly, huser 1, hclearing.trans (by decide)⟩

end CexRs
