import ActixPura.UncrossedBook

/-!
# The execution engine

`execution/engine.rs`. The engine keeps one book per symbol, creates it on first use, and runs
`match_order` and `continuous_match` on it for every order. On live and uncrossed books the
second call has no effect, so `execute_order` is `match_order` on the symbol's book.
-/

namespace ActixPura

open Std (ExtTreeMap)
open OrderBook OrderMatcher

structure ExecutionEngine where
  nodeId : String
  orderBooks : ExtTreeMap String OrderBook compare
  executions : ExtTreeMap String Execution compare

namespace ExecutionEngine

def new (nodeId : String) : ExecutionEngine := ⟨nodeId, ∅, ∅⟩

/-- The book of a symbol, or the empty one that `get_or_create_order_book` would insert. -/
def orderBook (g : ExecutionEngine) (symbol : String) : OrderBook :=
  g.orderBooks[symbol]?.getD (.new symbol)

/-- What is written through the reference that `get_or_create_order_book` returns. -/
def setOrderBook (g : ExecutionEngine) (symbol : String) (b : OrderBook) : ExecutionEngine :=
  { g with orderBooks := g.orderBooks.insert symbol b }

def getOrCreateOrderBook (g : ExecutionEngine) (symbol : String) :
    ExecutionEngine × OrderBook :=
  match g.orderBooks[symbol]? with
  | some b => (g, b)
  | none => (g.setOrderBook symbol (.new symbol), .new symbol)

/-- The executions are recorded by id. -/
def processMatchResult (g : ExecutionEngine) (r : MatchResult) : ExecutionEngine × Bool :=
  if r.hasMatches then
    let record (m : ExtTreeMap String Execution compare) (e : Execution) :=
      m.insert e.executionId e
    ({ g with executions := r.executions.foldl record g.executions }, true)
  else (g, false)

/-- What one call leaves: the engine, the caller's order and the merged result. -/
structure Executed where
  engine : ExecutionEngine
  order : Order
  result : MatchResult

def executeOrder (matchEnv continuousEnv : Env) (g : ExecutionEngine) (o : Order) : Executed :=
  let opened := g.getOrCreateOrderBook o.symbol
  let out := matchOrder matchEnv opened.2 o
  let g₁ := ((opened.1.setOrderBook o.symbol out.book).processMatchResult out.result).1
  let opened₁ := g₁.getOrCreateOrderBook o.symbol
  let continuous := continuousMatch continuousEnv opened₁.2
  let g₂ := opened₁.1.setOrderBook o.symbol continuous.1
  if continuous.2.hasMatches then
    ⟨(g₂.processMatchResult continuous.2).1, out.order, out.result.merge continuous.2⟩
  else ⟨g₂, out.order, out.result⟩

theorem getOrCreateOrderBook_snd (g : ExecutionEngine) (symbol : String) :
    (g.getOrCreateOrderBook symbol).2 = g.orderBook symbol := by
  unfold getOrCreateOrderBook orderBook
  cases g.orderBooks[symbol]? <;> rfl

theorem setOrderBook_lookup (g : ExecutionEngine) (symbol symbol' : String) (b : OrderBook) :
    (g.setOrderBook symbol b).orderBooks[symbol']? =
      if symbol = symbol' then some b else g.orderBooks[symbol']? := by
  simp [setOrderBook, ExtTreeMap.getElem?_insert]

theorem getOrCreateOrderBook_lookup (g : ExecutionEngine) {symbol symbol' : String}
    (h : symbol ≠ symbol') :
    (g.getOrCreateOrderBook symbol).1.orderBooks[symbol']? = g.orderBooks[symbol']? := by
  unfold getOrCreateOrderBook
  cases g.orderBooks[symbol]? with
  | some b => rfl
  | none => rw [setOrderBook_lookup, if_neg h]

@[simp] theorem processMatchResult_orderBooks (g : ExecutionEngine) (r : MatchResult) :
    (g.processMatchResult r).1.orderBooks = g.orderBooks := by
  unfold processMatchResult
  split_ifs <;> rfl

/-- On a live and uncrossed book `execute_order` is `match_order`. -/
theorem executeOrder_spec (matchEnv continuousEnv : Env) (g : ExecutionEngine) (o : Order)
    (hs : Live (g.orderBook o.symbol)) (hu : Uncrossed (g.orderBook o.symbol))
    (hfresh : (g.orderBook o.symbol).ordersById[o.orderId]? = none)
    (hfill : 0 ≤ o.filledQuantity) :
    let out := matchOrder matchEnv (g.orderBook o.symbol) o
    let done := g.executeOrder matchEnv continuousEnv o
    done.order = out.order ∧ done.result = out.result ∧
      ∀ symbol : String, done.engine.orderBook symbol =
        if o.symbol = symbol then out.book else g.orderBook symbol := by
  intro out done
  have hbook : ((((g.getOrCreateOrderBook o.symbol).1.setOrderBook o.symbol
      out.book).processMatchResult out.result).1).orderBook o.symbol = out.book := by
    rw [orderBook, processMatchResult_orderBooks, setOrderBook_lookup, if_pos rfl,
      Option.getD_some]
  have hs' : Live out.book := live_matchOrderWith matchEnv _ hs hfresh hfill
  have hu' : Uncrossed out.book := uncrossed_matchOrderWith matchEnv _ hs hfresh hfill hu
  have hcont : continuousMatch continuousEnv out.book = (out.book, .new) :=
    continuousMatchWith_uncrossed continuousEnv _ hs'.coherent hu'
  have hdone : done = ⟨(((((g.getOrCreateOrderBook o.symbol).1.setOrderBook o.symbol
      out.book).processMatchResult out.result).1).getOrCreateOrderBook
        o.symbol).1.setOrderBook o.symbol out.book, out.order, out.result⟩ := by
    simp only [done, executeOrder, getOrCreateOrderBook_snd]
    rw [hbook, hcont]
    rfl
  rw [hdone]
  refine ⟨rfl, rfl, ?_⟩
  intro symbol
  unfold orderBook
  rw [setOrderBook_lookup]
  by_cases hsym : o.symbol = symbol
  · rw [if_pos hsym, if_pos hsym, Option.getD_some]
  · rw [if_neg hsym, if_neg hsym, getOrCreateOrderBook_lookup _ hsym,
      processMatchResult_orderBooks, setOrderBook_lookup, if_neg hsym,
      getOrCreateOrderBook_lookup _ hsym]

end ExecutionEngine

end ActixPura
