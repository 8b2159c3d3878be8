import ActixPura.OrderModel
import ActixPura.Grouping

/-!
# Trades from executions

`create_trade_from_executions` groups the executions of one result by symbol and price key, the
price in ten-thousandths cast to `i64`, and makes one trade of every group. The groups live in a
`HashMap`, so the trades come in any sequence: an `Iteration` is one way to go through the entries.
-/

namespace ActixPura

structure Trade where
  tradeId : String
  symbol : String
  price : ℚ
  quantity : ℚ
  buyOrderId : String
  sellOrderId : String
  buyerAccountId : String
  sellerAccountId : String
  buyExecutionId : String
  sellExecutionId : String
  tradedAt : DateTime
  deriving DecidableEq

namespace ExecutionEngine

/-- The six strings of a trade that its loop over a group fills in. -/
structure Parties where
  buyOrderId : String
  sellOrderId : String
  buyerAccountId : String
  sellerAccountId : String
  buyExecutionId : String
  sellExecutionId : String

def Parties.empty : Parties := ⟨"", "", "", "", "", ""⟩

def Parties.record (p : Parties) (exec : Execution) : Parties :=
  if exec.side = .buy then
    { p with
      buyOrderId := exec.orderId
      buyExecutionId := exec.executionId
      buyerAccountId := exec.buyerAccountId.getD p.buyerAccountId }
  else
    { p with
      sellOrderId := exec.orderId
      sellExecutionId := exec.executionId
      sellerAccountId := exec.sellerAccountId.getD p.sellerAccountId }

/-- The price key of a group. -/
def tradePriceKey (price : ℚ) : ℤ := asI64 (price * 10000)

abbrev TradeKey := String ×ₗ ℤ

def tradeKey (exec : Execution) : TradeKey := toLex (exec.symbol, tradePriceKey exec.price)

def tradeGroups (executions : List Execution) : QueueMap TradeKey Execution :=
  executions.foldl (fun groups exec => groups.pushBack (tradeKey exec) exec) ∅

/-- A way to go through the entries of a hash map. -/
structure Iteration where
  arrange : List (TradeKey × List Execution) → List (TradeKey × List Execution)
  perm : ∀ entries, (arrange entries).Perm entries

def createTrade (env : Env) (n : ℕ) (entry : TradeKey × List Execution) : Trade :=
  let group := entry.2
  let parties := group.foldl Parties.record .empty
  { tradeId := env.newV4 n
    symbol := (ofLex entry.1).1
    price := ((ofLex entry.1).2 : ℚ) / 10000
    quantity := (group.map Execution.quantity).sum
    buyOrderId := parties.buyOrderId
    sellOrderId := parties.sellOrderId
    buyerAccountId := parties.buyerAccountId
    sellerAccountId := parties.sellerAccountId
    buyExecutionId := parties.buyExecutionId
    sellExecutionId := parties.sellExecutionId
    tradedAt := env.now n }

/-- The loop over the groups, from the `n`th trade on. -/
def createTrades (env : Env) : ℕ → List (TradeKey × List Execution) → List Trade
  | _, [] => []
  | n, entry :: entries => createTrade env n entry :: createTrades env (n + 1) entries

def createTradeFromExecutions (env : Env) (it : Iteration) (executions : List Execution) :
    List Trade :=
  createTrades env 0 (it.arrange (tradeGroups executions).toList)

/-- What a trade says was dealt. -/
def deal (t : Trade) : String × ℚ × ℚ := (t.symbol, t.price, t.quantity)

/-- The trades are one for each symbol and price key of the executions, at the price of the key and
for the quantity of the group. -/
structure Aggregates (priceKey : ℚ → ℤ) (es : List Execution) (ts : List Trade) : Prop where
  groups : (ts.map deal).Perm ((es.map fun e => (e.symbol, priceKey e.price)).dedup.map fun key =>
    (key.1, (key.2 : ℚ) / 10000,
      ((es.filter fun e => (e.symbol, priceKey e.price) = key).map Execution.quantity).sum))
  volume : ∀ symbol, ((ts.filter fun t => t.symbol = symbol).map Trade.quantity).sum =
    ((es.filter fun e => e.symbol = symbol).map Execution.quantity).sum

section Groups

variable {env : Env} {it : Iteration} {es : List Execution}

theorem map_createTrades {β : Type*} (env : Env) (f : Trade → β)
    (g : TradeKey × List Execution → β)
    (h : ∀ n entry, f (createTrade env n entry) = g entry) (n : ℕ)
    (entries : List (TradeKey × List Execution)) :
    (createTrades env n entries).map f = entries.map g := by
  induction entries generalizing n with
  | nil => rfl
  | cons entry entries ih => rw [createTrades, List.map_cons, List.map_cons, ih, h]

/-- The keys that occur, each once. -/
def distinctKeys (es : List Execution) : List TradeKey := (es.map tradeKey).dedup

def groupOf (es : List Execution) (key : TradeKey) : List Execution :=
  es.filter fun e => tradeKey e = key

theorem entries_perm (it : Iteration) (es : List Execution) :
    (it.arrange (tradeGroups es).toList).Perm
      ((distinctKeys es).map fun key => (key, groupOf es key)) :=
  (it.perm _).trans (QueueMap.toList_collect_perm tradeKey es)

theorem mem_createTrades {n : ℕ} {entries : List (TradeKey × List Execution)} {t : Trade}
    (ht : t ∈ createTrades env n entries) :
    ∃ m, ∃ entry ∈ entries, t = createTrade env m entry := by
  induction entries generalizing n with
  | nil => simp [createTrades] at ht
  | cons entry entries ih =>
      rw [createTrades, List.mem_cons] at ht
      rcases ht with rfl | ht
      · exact ⟨n, entry, List.mem_cons_self, rfl⟩
      · obtain ⟨m, entry', hentry, rfl⟩ := ih ht
        exact ⟨m, entry', List.mem_cons_of_mem _ hentry, rfl⟩

/-- A trade is made of the group of a key that occurs. -/
theorem trade_of_group {t : Trade} (ht : t ∈ createTradeFromExecutions env it es) :
    ∃ n, ∃ key ∈ distinctKeys es, t = createTrade env n (key, groupOf es key) := by
  obtain ⟨n, entry, hentry, rfl⟩ := mem_createTrades ht
  obtain ⟨key, hkey, rfl⟩ := List.mem_map.mp ((entries_perm it es).mem_iff.mp hentry)
  exact ⟨n, key, hkey, rfl⟩

theorem mem_createTrades_of_mem {entries : List (TradeKey × List Execution)}
    {entry : TradeKey × List Execution} (h : entry ∈ entries) (n : ℕ) :
    ∃ m, createTrade env m entry ∈ createTrades env n entries := by
  induction entries generalizing n with
  | nil => simp at h
  | cons entry' entries ih =>
      rw [createTrades]
      rcases List.mem_cons.mp h with rfl | h
      · exact ⟨n, List.mem_cons_self⟩
      · obtain ⟨m, hm⟩ := ih h (n + 1)
        exact ⟨m, List.mem_cons_of_mem _ hm⟩

/-- Every execution has a trade of its group. -/
theorem exists_trade (env : Env) (it : Iteration) {e : Execution} (he : e ∈ es) :
    ∃ n, createTrade env n (tradeKey e, groupOf es (tradeKey e)) ∈
      createTradeFromExecutions env it es := by
  refine mem_createTrades_of_mem ((entries_perm it es).mem_iff.mpr ?_) 0
  exact List.mem_map.mpr ⟨tradeKey e, List.mem_dedup.mpr (List.mem_map_of_mem he), rfl⟩

theorem deals_perm (env : Env) (it : Iteration) (es : List Execution) :
    ((createTradeFromExecutions env it es).map deal).Perm ((distinctKeys es).map fun key =>
      ((ofLex key).1, ((ofLex key).2 : ℚ) / 10000,
        ((groupOf es key).map Execution.quantity).sum)) := by
  have hmap := map_createTrades env deal (fun entry => ((ofLex entry.1).1,
    ((ofLex entry.1).2 : ℚ) / 10000, (entry.2.map Execution.quantity).sum)) (fun _ _ => rfl) 0
    (it.arrange (tradeGroups es).toList)
  rw [createTradeFromExecutions, hmap]
  have hperm := (entries_perm it es).map fun entry => ((ofLex entry.1).1,
    ((ofLex entry.1).2 : ℚ) / 10000, (entry.2.map Execution.quantity).sum)
  rwa [List.map_map] at hperm

/-- The executions of one symbol, group by group. -/
theorem sum_symbol_groups (es : List Execution) (symbol : String) :
    (((distinctKeys es).filter fun key => (ofLex key).1 = symbol).map fun key =>
      ((groupOf es key).map Execution.quantity).sum).sum =
        ((es.filter fun e => e.symbol = symbol).map Execution.quantity).sum := by
  have hkeys : ((distinctKeys es).filter fun key => (ofLex key).1 = symbol).Nodup :=
    (List.nodup_dedup _).filter _
  rw [← QueueMap.sum_groups tradeKey Execution.quantity hkeys]
  · refine congrArg List.sum (List.map_congr_left fun key hkey => ?_)
    rw [List.mem_filter, decide_eq_true_eq] at hkey
    have hgroup : groupOf es key =
        (es.filter fun e => e.symbol = symbol).filter fun e => tradeKey e = key := by
      rw [List.filter_filter, groupOf]
      refine List.filter_congr fun e _ => ?_
      by_cases he : tradeKey e = key
      · have hsymbol : e.symbol = symbol := by
          rw [← hkey.2, ← he]
          rfl
        simp [he, hsymbol]
      · simp [he]
    rw [hgroup]
  · intro e he
    rw [List.mem_filter, decide_eq_true_eq] at he
    rw [List.mem_filter, distinctKeys, List.mem_dedup, decide_eq_true_eq]
    exact ⟨List.mem_map_of_mem he.1, he.2⟩

theorem volume_createTradeFromExecutions (env : Env) (it : Iteration) (es : List Execution)
    (symbol : String) :
    (((createTradeFromExecutions env it es).filter fun t => t.symbol = symbol).map
      Trade.quantity).sum =
        ((es.filter fun e => e.symbol = symbol).map Execution.quantity).sum := by
  have hdeals : ∀ ts : List Trade, ((ts.filter fun t => t.symbol = symbol).map Trade.quantity) =
      ((ts.map deal).filter fun d => d.1 = symbol).map fun d => d.2.2 := by
    intro ts
    rw [List.filter_map, List.map_map]
    rfl
  have hperm := ((deals_perm env it es).filter fun d => d.1 = symbol).map fun d => d.2.2
  rw [hdeals, hperm.sum_eq, List.filter_map, List.map_map]
  exact sum_symbol_groups es symbol

theorem aggregates_createTradeFromExecutions (env : Env) (it : Iteration) (es : List Execution) :
    Aggregates tradePriceKey es (createTradeFromExecutions env it es) where
  groups := by
    have hkeys : distinctKeys es =
        (es.map fun e => (e.symbol, tradePriceKey e.price)).dedup.map toLex := by
      rw [← List.dedup_map_of_injective toLex.injective, List.map_map]
      rfl
    have hperm := deals_perm env it es
    rw [hkeys, List.map_map] at hperm
    exact hperm
  volume := volume_createTradeFromExecutions env it es

end Groups

/-- The trades of a list of executions are one for each symbol and price key, they trade exactly
what was executed, and neither depends on the sequence of the list. -/
theorem trades_conserve (env : Env) (it : Iteration) (es : List Execution) :
    Aggregates tradePriceKey es (createTradeFromExecutions env it es) ∧
      ∀ env' it' es', es'.Perm es → ((createTradeFromExecutions env' it' es').map deal).Perm
        ((createTradeFromExecutions env it es).map deal) := by
  refine ⟨aggregates_createTradeFromExecutions env it es, fun env' it' es' hperm => ?_⟩
  refine (deals_perm env' it' es').trans (List.Perm.trans ?_ (deals_perm env it es).symm)
  have hkeys : (distinctKeys es').Perm (distinctKeys es) := (hperm.map tradeKey).dedup
  have hsums : ∀ key, ((groupOf es' key).map Execution.quantity).sum =
      ((groupOf es key).map Execution.quantity).sum := fun key =>
    ((hperm.filter _).map _).sum_eq
  simp only [hsums]
  exact hkeys.map _

/-- Two prices beyond the range of keys fall into one group. -/
theorem not_aggregates_above_range : ¬ ∀ (env : Env) (it : Iteration) (es : List Execution),
    Aggregates (fun price => trunc (price * 10000)) es (createTradeFromExecutions env it es) := by
  intro hall
  let env : Env := ⟨fun n => n, fun n => toString n⟩
  let deal (price : ℚ) : Execution :=
    ⟨"e", "b1", some "s1", "AAPL", price, 1, .buy, some "acc", some "acc", 0⟩
  have h := (hall env ⟨id, fun _ => .refl _⟩ [deal (10 ^ 15), deal (2 * 10 ^ 15)]).groups.length_eq
  exact absurd h (by decide +kernel)

/-- Three executions at two prices, in two sequences. -/
theorem trades_conserve_swapped :
    let env : Env := ⟨fun n => n, fun n => toString n⟩
    let it : Iteration := ⟨id, fun _ => .refl _⟩
    let exec (price : ℚ) : Execution :=
      ⟨"e", "b1", some "s1", "AAPL", price, 1, .buy, some "acc", some "acc", 0⟩
    let es := [exec 100, exec 101, exec 100]
    let es' := [exec 101, exec 100, exec 100]
    (createTradeFromExecutions env it es).map deal = [("AAPL", 100, 2), ("AAPL", 101, 1)] ∧
      ((createTradeFromExecutions env it es').map deal).Perm
        ((createTradeFromExecutions env it es).map deal) := by
  intro env it exec es es'
  exact ⟨by decide +kernel, (trades_conserve env it es).2 env it es' (.swap _ _ _)⟩

end ExecutionEngine

end ActixPura
