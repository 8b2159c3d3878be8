import ActixPura.LimitProtection
import ActixPura.TradeCreation

/-!
# Whom trades and notifications name

The matcher marks every execution as a buy and puts the buyer's order first. The loop that fills in
the parties of a trade takes the seller from executions of the sell side, of which there are none,
and the message to the seller carries the id of the buy order. So nothing that is matched is
attributed to its seller.
-/

namespace ActixPura

open OrderBook OrderMatcher

structure ExecutionNotificationMessage where
  executionId : String
  accountId : String
  orderId : String
  symbol : String
  price : ℚ
  quantity : ℚ
  side : OrderSide
  timestamp : DateTime

structure TradeNotificationMessage where
  tradeId : String
  symbol : String
  price : ℚ
  quantity : ℚ
  timestamp : DateTime

inductive AccountMessage
  | execution (m : ExecutionNotificationMessage)
  | trade (m : TradeNotificationMessage)

namespace ExecutionEngine

def notificationTo (execution : Execution) (side : OrderSide) (accountId : String) :
    ExecutionNotificationMessage where
  executionId := execution.executionId
  accountId := accountId
  orderId := execution.orderId
  symbol := execution.symbol
  price := execution.price
  quantity := execution.quantity
  side := side
  timestamp := execution.executedAt

/-- The messages about one execution, to its buyer and to its seller. -/
def executionNotifications (execution : Execution) : List ExecutionNotificationMessage :=
  (execution.buyerAccountId.map (notificationTo execution .buy)).toList ++
    (execution.sellerAccountId.map (notificationTo execution .sell)).toList

def tradeNotification (trade : Trade) : TradeNotificationMessage :=
  ⟨trade.tradeId, trade.symbol, trade.price, trade.quantity, trade.tradedAt⟩

/-- What `process_match_result` stores as trades and tells the account actor. -/
structure Effects where
  trades : List Trade
  told : List AccountMessage

/-- The account actor is named by its path. -/
def matchResultEffects (tradeEnv : Env) (it : Iteration) (accountActor : Option String)
    (result : MatchResult) : Effects :=
  if result.hasMatches then
    let trades := createTradeFromExecutions tradeEnv it result.executions
    let messages := (result.executions.flatMap executionNotifications).map .execution ++
      trades.map fun trade => .trade (tradeNotification trade)
    ⟨trades, if accountActor.isSome then messages else []⟩
  else ⟨[], []⟩

/-- The trade names both orders of the execution, each with its account. -/
structure NamesParties (t : Trade) (e : Execution) : Prop where
  buyOrder : t.buyOrderId = e.orderId
  buyer : e.buyerAccountId = some t.buyerAccountId
  sellOrder : e.counterOrderId = some t.sellOrderId
  seller : e.sellerAccountId = some t.sellerAccountId

structure InGroup (t : Trade) (e : Execution) : Prop where
  symbol : e.symbol = t.symbol
  price : t.price = (tradePriceKey e.price : ℚ) / 10000

/-- The message about the execution carries the id of the order of its side, and it goes to the
account of that order. -/
def AddressesOwner (e : Execution) (m : ExecutionNotificationMessage) : Prop :=
  match m.side with
  | .buy => m.orderId = e.orderId ∧ e.buyerAccountId = some m.accountId
  | .sell => e.counterOrderId = some m.orderId ∧ e.sellerAccountId = some m.accountId

structure Attributes (executions : List Execution) (out : Effects) : Prop where
  trades : ∀ t ∈ out.trades, ∃ e ∈ executions, InGroup t e ∧ NamesParties t e
  messages : ∀ e ∈ executions, ∀ m ∈ executionNotifications e, .execution m ∈ out.told →
    AddressesOwner e m

section Records

variable {e : Execution} {es : List Execution} {tradeEnv : Env} {it : Iteration}

/-- A record of the matcher: of a buy and a sell order, each with its account. -/
def Matched (e : Execution) : Prop :=
  ∃ env n buy sell price qty, e = createExecutionRecord env n buy sell price qty

theorem record_keeps_seller (h : Matched e) (p : Parties) :
    (p.record e).sellOrderId = p.sellOrderId ∧
      (p.record e).sellerAccountId = p.sellerAccountId := by
  obtain ⟨env, n, buy, sell, price, qty, rfl⟩ := h
  exact ⟨rfl, rfl⟩

/-- No group of matches gives its trade a seller. -/
theorem foldl_record_seller (h : ∀ e ∈ es, Matched e) (p : Parties) :
    (es.foldl Parties.record p).sellOrderId = p.sellOrderId ∧
      (es.foldl Parties.record p).sellerAccountId = p.sellerAccountId := by
  induction es generalizing p with
  | nil => exact ⟨rfl, rfl⟩
  | cons e es ih =>
      rw [List.forall_mem_cons] at h
      obtain ⟨horder, haccount⟩ := record_keeps_seller h.1 p
      obtain ⟨hrest, hrest'⟩ := ih h.2 (p.record e)
      exact ⟨hrest.trans horder, hrest'.trans haccount⟩

theorem record_sets_buyer (h : Matched e) (p : Parties) :
    (p.record e).buyOrderId = e.orderId ∧ e.buyerAccountId = some (p.record e).buyerAccountId := by
  obtain ⟨env, n, buy, sell, price, qty, rfl⟩ := h
  exact ⟨rfl, rfl⟩

/-- The trade of a group has the buyer of its last match and no seller. -/
theorem createTrade_parties (tradeEnv : Env) (key : TradeKey) (n : ℕ)
    (h : ∀ e ∈ es, Matched e) (hne : es ≠ []) :
    ∃ e ∈ es, (createTrade tradeEnv n (key, es)).buyOrderId = e.orderId ∧
      e.buyerAccountId = some (createTrade tradeEnv n (key, es)).buyerAccountId ∧
      (createTrade tradeEnv n (key, es)).sellOrderId = "" ∧
      (createTrade tradeEnv n (key, es)).sellerAccountId = "" := by
  obtain ⟨horder, haccount⟩ := foldl_record_seller h .empty
  obtain ⟨before, last, rfl⟩ : ∃ before last, es = before ++ [last] :=
    ⟨_, _, (List.dropLast_append_getLast hne).symm⟩
  obtain ⟨hbuy, hbuyer⟩ := record_sets_buyer (h last (by simp)) (before.foldl Parties.record .empty)
  refine ⟨last, by simp, ?_, ?_, horder, haccount⟩
  · simpa only [createTrade, List.foldl_append, List.foldl_cons, List.foldl_nil] using hbuy
  · simpa only [createTrade, List.foldl_append, List.foldl_cons, List.foldl_nil] using hbuyer

variable {accountActor : String} {r : MatchResult}

theorem effects_of_matches (tradeEnv : Env) (it : Iteration) (accountActor : Option String)
    (h : r.executions ≠ []) : (matchResultEffects tradeEnv it accountActor r).trades =
      createTradeFromExecutions tradeEnv it r.executions := by
  have hmatches : r.hasMatches = true := by simpa [MatchResult.hasMatches] using h
  simp only [matchResultEffects, hmatches, if_true]

theorem told_of_mem {m : ExecutionNotificationMessage} (he : e ∈ r.executions)
    (hm : m ∈ executionNotifications e) :
    .execution m ∈ (matchResultEffects tradeEnv it (some accountActor) r).told := by
  have hmatches : r.hasMatches = true := by
    simpa [MatchResult.hasMatches] using List.ne_nil_of_mem he
  simp only [matchResultEffects, hmatches, if_true, Option.isSome_some]
  refine List.mem_append_left _ (List.mem_map_of_mem ?_)
  exact List.mem_flatMap.mpr ⟨e, he, hm⟩

/-- Correct attribution needs both orders of every match under one id, and in every result with a
match a sell order with the empty id and account. -/
theorem Attributes.same_id (h : Attributes r.executions
    (matchResultEffects tradeEnv it (some accountActor) r)) (hr : ∀ e ∈ r.executions, Matched e) :
    (∀ e ∈ r.executions, e.counterOrderId = some e.orderId) ∧
      (r.executions ≠ [] → ∃ e ∈ r.executions,
        e.counterOrderId = some "" ∧ e.sellerAccountId = some "") := by
  constructor
  · intro e he
    obtain ⟨env, n, buy, sell, price, qty, rfl⟩ := hr e he
    have hm : notificationTo (createExecutionRecord env n buy sell price qty) .sell sell.accountId ∈
        executionNotifications (createExecutionRecord env n buy sell price qty) := by
      simp [executionNotifications, createExecutionRecord]
    exact (h.messages _ he _ hm (told_of_mem he hm)).1
  · intro hne
    obtain ⟨e, he⟩ := List.exists_mem_of_ne_nil _ hne
    obtain ⟨n, ht⟩ := exists_trade tradeEnv it he
    rw [← effects_of_matches tradeEnv it (some accountActor) hne] at ht
    obtain ⟨e', he', -, hnames⟩ := h.trades _ ht
    have hgroup : ∀ x ∈ groupOf r.executions (tradeKey e), Matched x := fun x hx =>
      hr x (List.mem_of_mem_filter hx)
    have hown : e ∈ groupOf r.executions (tradeKey e) := List.mem_filter.mpr ⟨he, by simp⟩
    obtain ⟨-, -, -, -, horder, haccount⟩ := createTrade_parties tradeEnv (tradeKey e) n
      hgroup (List.ne_nil_of_mem hown)
    refine ⟨e', he', ?_, ?_⟩
    · rw [hnames.sellOrder, horder]
    · rw [hnames.seller, haccount]

/-- Where all these are the empty string, every attribution is correct. -/
theorem attributes_of_empty (tradeEnv : Env) (it : Iteration) (accountActor : Option String)
    (hr : ∀ e ∈ r.executions, Matched e) (h : ∀ e ∈ r.executions,
      e.orderId = "" ∧ e.counterOrderId = some "" ∧ e.sellerAccountId = some "") :
    Attributes r.executions (matchResultEffects tradeEnv it accountActor r) := by
  constructor
  · intro t ht
    by_cases hne : r.executions = []
    · simp [matchResultEffects, MatchResult.hasMatches, hne] at ht
    · rw [effects_of_matches tradeEnv it accountActor hne] at ht
      obtain ⟨n, key, hkey, rfl⟩ := trade_of_group ht
      have hgroup : ∀ x ∈ groupOf r.executions key, Matched x := fun x hx =>
        hr x (List.mem_of_mem_filter hx)
      obtain ⟨x, hx, hxkey⟩ := List.mem_map.mp (List.mem_dedup.mp hkey)
      have hmem : x ∈ groupOf r.executions key := List.mem_filter.mpr ⟨hx, by simpa using hxkey⟩
      obtain ⟨e, he, hbuy, hbuyer, hsell, hseller⟩ := createTrade_parties tradeEnv key n
        hgroup (List.ne_nil_of_mem hmem)
      obtain ⟨heall, hekey⟩ := List.mem_filter.mp he
      rw [decide_eq_true_eq] at hekey
      subst hekey
      obtain ⟨-, hcounter, haccount⟩ := h e heall
      refine ⟨e, heall, ⟨rfl, rfl⟩, hbuy, hbuyer, ?_, ?_⟩
      · rw [hcounter, hsell]
      · rw [haccount, hseller]
  · intro e he m hm _
    obtain ⟨horder, hcounter, -⟩ := h e he
    obtain ⟨env, n, buy, sell, price, qty, rfl⟩ := hr e he
    simp only [executionNotifications, createExecutionRecord, Option.map_some, Option.toList_some,
      List.singleton_append, List.mem_cons, List.not_mem_nil, or_false] at hm
    rcases hm with rfl | rfl
    · exact ⟨rfl, rfl⟩
    · refine ⟨?_, rfl⟩
      rw [hcounter]
      exact congrArg some horder.symm

/-- No trade made of matches names a sell order or a seller. -/
theorem trades_without_seller (tradeEnv : Env) (it : Iteration)
    (hes : ∀ e ∈ es, Matched e) : ∀ t ∈ createTradeFromExecutions tradeEnv it es,
      t.sellOrderId = "" ∧ t.sellerAccountId = "" := by
  intro t ht
  obtain ⟨n, key, -, rfl⟩ := trade_of_group ht
  exact foldl_record_seller (fun e he => hes e (List.mem_of_mem_filter he)) .empty

end Records

/-- Both orders of the match have the empty id, and the seller has the empty account. -/
def Nameless (o c : Order) : Prop :=
  o.orderId = "" ∧ c.orderId = "" ∧
    match o.side with
    | .buy => c.accountId = ""
    | .sell => o.accountId = ""

section Calls

variable {env tradeEnv : Env} {it : Iteration} {accountActor : String} {b : OrderBook} {o c : Order}
  {e : Execution}

theorem matched_of_records (h : Records env o c e) : Matched e := by
  obtain ⟨n, qty, rfl⟩ := h
  cases o.side with
  | buy => exact ⟨env, n, o, c, _, qty, rfl⟩
  | sell => exact ⟨env, n, c, o, _, qty, rfl⟩

theorem matched_matchOrder (env : Env) (hb : b.Coherent) (o : Order) :
    ∀ e ∈ (matchOrder env b o).result.executions, Matched e := by
  intro e he
  obtain ⟨c, -, hrecord⟩ := records_matchOrderWith _ env hb he
  exact matched_of_records hrecord

theorem empty_of_nameless (h : Records env o c e) (hn : Nameless o c) :
    e.orderId = "" ∧ e.counterOrderId = some "" ∧ e.sellerAccountId = some "" := by
  obtain ⟨n, qty, rfl⟩ := h
  obtain ⟨ho, hc, hseller⟩ := hn
  cases hs : o.side with
  | buy =>
      simp only [hs] at hseller
      exact ⟨ho, congrArg some hc, congrArg some hseller⟩
  | sell =>
      simp only [hs] at hseller
      exact ⟨hc, congrArg some ho, congrArg some hseller⟩

/-- A match under one id, beside a match whose sell order and account are empty. -/
theorem nameless_of_same_id (hb : b.Coherent) {c' : Order} {e' : Execution}
    (hc : (b.levels o.side.opposite).Holds c.priceKey c)
    (hc' : (b.levels o.side.opposite).Holds c'.priceKey c') (h : Records env o c e)
    (h' : Records env o c' e') (hid : e.counterOrderId = some e.orderId)
    (hid' : e'.counterOrderId = some e'.orderId) (hempty : e'.counterOrderId = some "")
    (hseller : e'.sellerAccountId = some "") : Nameless o c := by
  obtain ⟨n, qty, rfl⟩ := h
  obtain ⟨n', qty', rfl⟩ := h'
  cases hs : o.side with
  | buy =>
      rw [hs] at hid hid' hempty hseller
      have hsame : c.orderId = o.orderId := Option.some.inj hid
      have hsame' : c'.orderId = o.orderId := Option.some.inj hid'
      have hnone : c'.orderId = "" := Option.some.inj hempty
      have heq : c = c' := waiting_eq hb hc' (hb.indexed hc).1 (hsame.trans hsame'.symm)
      refine ⟨hsame'.symm.trans hnone, heq ▸ hnone, ?_⟩
      simp only [hs]
      exact heq ▸ Option.some.inj hseller
  | sell =>
      rw [hs] at hid hempty hseller
      have hsame : o.orderId = c.orderId := Option.some.inj hid
      have hnone : o.orderId = "" := Option.some.inj hempty
      refine ⟨hnone, hsame.symm.trans hnone, ?_⟩
      simp only [hs]
      exact Option.some.inj hseller

theorem matchOrder_attributes_iff (env tradeEnv : Env) (it : Iteration) (accountActor : String)
    (hb : Live b) (o : Order) :
    Attributes (matchOrder env b o).result.executions
        (matchResultEffects tradeEnv it (some accountActor) (matchOrder env b o).result) ↔
      (o.isActive = true → Reached (Nameless o) o.remainingQuantity (candidates b o)) := by
  have hmatched := matched_matchOrder env hb.coherent o
  cases hact : o.isActive with
  | false =>
      refine iff_of_true (attributes_of_empty tradeEnv it _ hmatched ?_) (by simp)
      simp [matchOrder, matchOrderWith, hact, MatchResult.new]
  | true =>
      obtain ⟨l, hheld, hreached, hrecords⟩ := executions_of_reached env hb hact
      rw [hreached, imp_iff_right rfl]
      constructor
      · intro h c hc
        obtain ⟨hid, hempty⟩ := h.same_id hmatched
        obtain ⟨e, he, hrecord⟩ := exists_of_forall₂ hrecords hc
        obtain ⟨e', he', hcounter, hseller⟩ := hempty (List.ne_nil_of_mem he)
        obtain ⟨c', hc', hrecord'⟩ := exists_of_forall₂ hrecords.flip he'
        exact nameless_of_same_id hb.coherent (hheld c hc) (hheld c' hc') hrecord hrecord'
          (hid e he) (hid e' he') hcounter hseller
      · intro hall
        refine attributes_of_empty tradeEnv it _ hmatched fun e he => ?_
        obtain ⟨c, hc, hrecord⟩ := exists_of_forall₂ hrecords.flip he
        exact empty_of_nameless hrecord (hall c hc)

theorem continuousRound_executions {s s' : OrderBook × MatchResult}
    (hs : continuousRound env s = some s') : ∃ e, s'.2.executions = s.2.executions ++ [e] := by
  unfold continuousRound at hs
  split at hs
  · split at hs
    · split at hs
      · rw [← Option.some.inj hs]
        exact ⟨_, rfl⟩
      · cases hs
    · cases hs
  · cases hs

/-- A round makes an execution, and later rounds keep it. -/
theorem continuousMatch_executions_nil_iff (env : Env) (hb : b.Coherent) :
    (continuousMatch env b).2.executions = [] ↔ ∀ kb ks, b.buyOrders.lastKey = some kb →
      b.sellOrders.firstKey = some ks → kb < ks := by
  constructor
  · intro hnil kb ks hkb hks
    cases hround : continuousRound env (b, .new) with
    | none => exact continuousRound_none hb hround hkb hks
    | some s =>
        have hkeep : (continuousMatch env b).2.executions ≠ [] := by
          rw [continuousMatch, continuousMatchWith, Runs.loop_succ_of_some hround]
          refine Runs.loop_invariant
            (I := fun s : OrderBook × MatchResult => s.2.executions ≠ []) ?_ _ ?_
          · intro s s' _ hs
            obtain ⟨e, he⟩ := continuousRound_executions hs
            simp [he]
          · obtain ⟨e, he⟩ := continuousRound_executions hround
            simp [he]
        exact absurd hnil hkeep
  · intro hclear
    cases hround : continuousRound env (b, .new) with
    | none =>
        rw [continuousMatch, continuousMatchWith, Runs.loop_succ_of_none hround]
        rfl
    | some s =>
        obtain ⟨kb, ks, _, _, qb, qs, hqb, hqs, hcross, hbb, hbs, -⟩ :=
          continuousRound_some hb hround
        exact absurd (hclear kb ks (lastKey_of_bestKey hb hqb hbb) (firstKey_of_bestKey hb hqs hbs))
          (not_lt.mpr hcross)

theorem continuousMatch_attributes_iff (env tradeEnv : Env) (it : Iteration) (accountActor : String)
    (hb : Live b) :
    Attributes (continuousMatch env b).2.executions
        (matchResultEffects tradeEnv it (some accountActor) (continuousMatch env b).2) ↔
      ∀ kb ks, b.buyOrders.lastKey = some kb → b.sellOrders.firstKey = some ks → kb < ks := by
  have hpairs := (pairing_continuousMatchWith env (restingCount b + 1) hb).recorded
  change ∀ e ∈ (continuousMatch env b).2.executions, _ at hpairs
  have hmatched : ∀ e ∈ (continuousMatch env b).2.executions, Matched e := by
    intro e he
    obtain ⟨buy, sell, -, -, -, n, qty, -, rfl⟩ := hpairs e he
    exact ⟨env, n, buy, sell, _, qty, rfl⟩
  rw [← continuousMatch_executions_nil_iff env hb.coherent]
  constructor
  · intro h
    refine List.eq_nil_iff_forall_not_mem.mpr fun e he => ?_
    have hid := (h.same_id hmatched).1 e he
    obtain ⟨buy, sell, hbuy, hsell, -, n, qty, -, rfl⟩ := hpairs e he
    exact pair_ids_ne hb.coherent hbuy hsell (Option.some.inj hid).symm
  · intro hnil
    refine attributes_of_empty tradeEnv it _ hmatched ?_
    simp [hnil]

end Calls

/-- Exactly when the trades and messages of a result name the right orders and accounts. -/
theorem trade_attribution_iff (env tradeEnv : Env) (it : Iteration) (accountActor : String)
    (b : OrderBook) (hb : Live b) :
    (∀ o, Attributes (matchOrder env b o).result.executions
        (matchResultEffects tradeEnv it (some accountActor) (matchOrder env b o).result) ↔
      (o.isActive = true → Reached (Nameless o) o.remainingQuantity (candidates b o))) ∧
    (Attributes (continuousMatch env b).2.executions
        (matchResultEffects tradeEnv it (some accountActor) (continuousMatch env b).2) ↔
      ∀ kb ks, b.buyOrders.lastKey = some kb → b.sellOrders.firstKey = some ks → kb < ks) :=
  ⟨fun o => matchOrder_attributes_iff env tradeEnv it accountActor hb o,
    continuousMatch_attributes_iff env tradeEnv it accountActor hb⟩

/-- A sell order takes a bid, and its message carries the id of the bid. -/
theorem seller_told_buy_order : ¬ ∀ (env tradeEnv : Env) (it : Iteration) (accountActor : String)
    (b : OrderBook), Sound b →
    (∀ o, Attributes (matchOrder env b o).result.executions
        (matchResultEffects tradeEnv it (some accountActor) (matchOrder env b o).result)) ∧
    Attributes (continuousMatch env b).2.executions
        (matchResultEffects tradeEnv it (some accountActor) (continuousMatch env b).2) := by
  intro hall
  let env : Env := ⟨fun n => n, fun n => toString n⟩
  let o : Order := Order.fromRequest "" 0 ⟨some "s1", "AAPL", .sell, some 90, 5, "seller", .limit⟩
  have h := (hall env env ⟨id, fun _ => .refl _⟩ "account" twoBids sound_twoBids).1 o
  have hid := (h.same_id (matched_matchOrder env sound_twoBids.coherent o)).1
  exact absurd hid (by decide +kernel)

/-- A sell order above both bids is not matched. -/
theorem nothing_to_attribute_twoBids :
    let env : Env := ⟨fun n => n, fun n => toString n⟩
    let it : Iteration := ⟨id, fun _ => .refl _⟩
    let o := Order.fromRequest "" 0 ⟨some "s1", "AAPL", .sell, some 200, 5, "seller", .limit⟩
    candidates twoBids o = [] ∧ Attributes (matchOrder env twoBids o).result.executions
      (matchResultEffects env it (some "account") (matchOrder env twoBids o).result) := by
  intro env it o
  have hnone : candidates twoBids o = [] := by decide +kernel
  refine ⟨hnone, ?_⟩
  apply ((trade_attribution_iff env env it "account" twoBids sound_twoBids.live).1 o).mpr
  rw [hnone]
  exact fun _ => trivial

end ExecutionEngine

end ActixPura
