import ActixPura.ContinuousMatch
import ActixPura.ReachedCandidates

/-!
# The sell orders that `continuous_match` takes

A round of `continuous_match` matches the first buy order of the book with the first sell order, and
each of them that has quantity left goes behind the others of its level. So the two sides of the
starting book, each in its matching sequence, determine which orders all the rounds take:
`takenSells` follows them through the rounds.
-/

namespace ActixPura

open Std (ExtTreeMap)

namespace QueueMap

variable {κ α : Type*} [LinearOrder κ] {m rest : QueueMap κ α} {k : κ} {q : List α}

/-- `m` has the queue `q` under `k`, or no queue if `q` is empty, and `rest` under the others. -/
structure Splits (m : QueueMap κ α) (k : κ) (q : List α) (rest : QueueMap κ α) : Prop where
  queue : m[k]?.getD [] = q
  erased : m.erase k = rest

namespace Splits

theorem pushBack (h : Splits m k q rest) (x : α) : Splits (m.pushBack k x) k (q ++ [x]) rest where
  queue := by rw [getElem?_pushBack, if_pos rfl, Option.getD_some, h.queue]
  erased := by
    rw [← h.erased]
    apply ExtTreeMap.ext_getElem?
    intro k'
    simp only [ExtTreeMap.getElem?_erase, getElem?_pushBack, Std.compare_eq_iff_eq]
    split_ifs <;> rfl

theorem retain (h : Splits m k q rest) (p : α → Bool) :
    Splits (m.retain k p) k (q.filter p) rest where
  queue := by
    rw [getElem?_retain, if_pos rfl, ← h.queue]
    cases m[k]? with
    | none => rfl
    | some l =>
        simp only [Option.map_some, Option.getD_some]
        cases l.filter p with
        | nil => rfl
        | cons x l' => rfl
  erased := by
    rw [← h.erased]
    apply ExtTreeMap.ext_getElem?
    intro k'
    simp only [ExtTreeMap.getElem?_erase, getElem?_retain, Std.compare_eq_iff_eq]
    split_ifs <;> rfl

theorem getElem?_of_ne (h : Splits m k q rest) {k' : κ} (hne : k' ≠ k) : m[k']? = rest[k']? := by
  rw [← h.erased, ExtTreeMap.getElem?_erase, if_neg]
  rw [Std.compare_eq_iff_eq]
  exact hne.symm

theorem rest_of_none (h : Splits m k q rest) (hk : m[k]? = none) : q = [] ∧ m = rest := by
  refine ⟨by rw [← h.queue, hk, Option.getD_none], ?_⟩
  rw [← h.erased]
  apply ExtTreeMap.ext_getElem?
  intro k'
  rw [ExtTreeMap.getElem?_erase]
  split_ifs with heq
  · rw [← Std.compare_eq_iff_eq.mp heq, hk]
  · rfl

end Splits

end QueueMap

/-- What matching reads of an order: its terms and how far it is filled. -/
def Order.standing (o : Order) : Order := { o with status := .new, updatedAt := 0 }

namespace OrderMatcher

open OrderBook QueueMap

/-- `c` after a match for `qty`, which counts the earlier fill twice. -/
def refilled (c : Order) (qty : ℚ) : Order :=
  { c with filledQuantity := c.filledQuantity + (c.filledQuantity + qty) }

/-- The book takes `c` back after a match for `qty`. -/
def Returns (symbol : String) (qty : ℚ) (c : Order) : Prop :=
  0 < (refilled c qty).remainingQuantity ∧ c.symbol = symbol

instance decidableReturns (symbol : String) (qty : ℚ) (c : Order) :
    Decidable (Returns symbol qty c) :=
  inferInstanceAs (Decidable (_ ∧ _))

/-- What a side holds after its first order `c` was matched for `qty`. An order that returns goes
behind the others of its level. -/
def refill (symbol : String) (qty : ℚ) (c : Order) (cs : List Order) : List Order :=
  if Returns symbol qty c then
    cs.takeWhile (fun d => d.priceKey == c.priceKey) ++
      refilled c qty :: cs.dropWhile (fun d => d.priceKey == c.priceKey)
  else cs

/-- The first orders of the sell side in as many rounds. -/
def takenSells (symbol : String) : ℕ → List Order → List Order → List Order
  | n + 1, buy :: buys, sell :: sells =>
    if sell.priceKey ≤ buy.priceKey then
      let qty := min buy.remainingQuantity sell.remainingQuantity
      sell :: takenSells symbol n (refill symbol qty buy buys) (refill symbol qty sell sells)
    else []
  | _, _, _ => []

/-- The sell orders that the rounds take from a book, as often as they take them. There are not
more rounds than orders. -/
def sellsTaken (b : OrderBook) : List Order :=
  takenSells b.symbol (b.ordersById.size + 1) (bestFirst b .sell) (bestFirst b .buy)

section Standing

variable {symbol : String} {buys sells buys' sells' : List Order}

theorem refill_standing (symbol : String) (qty : ℚ) (c : Order) (cs : List Order) :
    (refill symbol qty c cs).map Order.standing =
      refill symbol qty c.standing (cs.map Order.standing) := by
  have hkey : (fun d : Order => d.priceKey == c.standing.priceKey) ∘ Order.standing =
      fun d => d.priceKey == c.priceKey := rfl
  have hreturns : Returns symbol qty c.standing ↔ Returns symbol qty c := Iff.rfl
  simp only [refill, List.takeWhile_map, List.dropWhile_map, hkey, hreturns]
  split_ifs
  · rw [List.map_append, List.map_cons]
    rfl
  · rfl

theorem takenSells_standing (symbol : String) (n : ℕ) (buys sells : List Order) :
    (takenSells symbol n buys sells).map Order.standing =
      takenSells symbol n (buys.map Order.standing) (sells.map Order.standing) := by
  induction n generalizing buys sells with
  | zero => rfl
  | succ n ih =>
      cases buys with
      | nil => rfl
      | cons buy buys =>
          cases sells with
          | nil => rfl
          | cons sell sells =>
              have hcross : sell.standing.priceKey ≤ buy.standing.priceKey ↔
                  sell.priceKey ≤ buy.priceKey := Iff.rfl
              simp only [List.map_cons, takenSells, hcross]
              split_ifs
              · rw [List.map_cons, ih, refill_standing, refill_standing]
                rfl
              · rfl

theorem takenSells_congr (n : ℕ) (hbuys : buys.map Order.standing = buys'.map Order.standing)
    (hsells : sells.map Order.standing = sells'.map Order.standing) :
    (takenSells symbol n buys sells).map Order.standing =
      (takenSells symbol n buys' sells').map Order.standing := by
  rw [takenSells_standing, takenSells_standing, hbuys, hsells]

end Standing

section Levels

variable {b : OrderBook} {side : OrderSide} {k : ℤ} {c u : Order} {q : List Order}
  {rest : QueueMap ℤ Order}

/-- The first order of a level leaves it. -/
theorem splits_removeOrder (hb : b.Coherent) (hq : (b.levels side)[k]? = some (c :: q)) :
    Splits ((b.removeOrder c.orderId).1.levels side) k q ((b.levels side).erase k) := by
  obtain ⟨hidx, hside, -, hkey⟩ := hb.indexed ⟨_, hq, List.mem_cons_self⟩
  have hsplit : Splits (b.levels side) k (c :: q) ((b.levels side).erase k) :=
    ⟨by rw [hq, Option.getD_some], rfl⟩
  have hfilter : (c :: q).filter (fun e => e.orderId != c.orderId) = q := by
    obtain ⟨hnot, -⟩ := List.nodup_cons.mp (hb.nodup hq)
    rw [List.filter_cons_of_neg (by simp), List.filter_eq_self]
    intro e he
    rw [bne_iff_ne]
    exact fun heq => hnot (heq ▸ List.mem_map_of_mem he)
  rw [removeOrder_levels b c.orderId hidx, if_pos hside.symm, hkey, ← hfilter]
  exact hsplit.retain _

theorem levels_removeOrder_of_ne (hidx : b.ordersById[c.orderId]? = some c) (hne : side ≠ c.side) :
    (b.removeOrder c.orderId).1.levels side = b.levels side := by
  rw [removeOrder_levels b c.orderId hidx, if_neg hne]

theorem levels_reinsert_of_ne (hne : side ≠ u.side) :
    (reinsert b u).levels side = b.levels side := by
  rcases reinsert_cases b u with he | ⟨-, he⟩
  · rw [he]
  · rw [he]
    cases ha : b.accepts u with
    | false => rw [addOrder_rejected ha]
    | true => rw [addOrder_levels ha, if_neg fun h => hne h.2]

theorem splits_reinsert (h : Splits (b.levels u.side) u.priceKey q rest)
    (hprice : u.hasPrice = true) (hactive : 0 < u.remainingQuantity → u.isActive = true) :
    Splits ((reinsert b u).levels u.side) u.priceKey
      (if 0 < u.remainingQuantity ∧ u.symbol = b.symbol then q ++ [u] else q) rest := by
  unfold reinsert
  by_cases hopen : 0 < u.remainingQuantity
  · rw [if_neg (not_le.mpr hopen)]
    by_cases hsymbol : u.symbol = b.symbol
    · have ha := accepts_iff.mpr ⟨hsymbol, hactive hopen⟩
      rw [if_pos ⟨hopen, hsymbol⟩, addOrder_levels ha, if_pos ⟨hprice, rfl⟩]
      exact h.pushBack u
    · have ha : b.accepts u = false :=
        Bool.eq_false_iff.mpr fun ha => hsymbol (accepts_iff.mp ha).1
      rw [if_neg fun h => hsymbol h.2, addOrder_rejected ha]
      exact h
  · rw [if_pos (not_lt.mp hopen), if_neg fun h => hopen h.1]
    exact h

/-- The best level's queue opens a side, also when it is empty. -/
theorem bestFirst_of_splits {taker : OrderSide} (hb : b.Coherent)
    (h : Splits (b.levels taker.opposite) k q rest) (hbest : BestKey taker b k) :
    bestFirst b taker = q ++ bestFirst (b.setLevels taker.opposite rest) taker := by
  cases hk : (b.levels taker.opposite)[k]? with
  | none =>
      obtain ⟨rfl, hrest⟩ := h.rest_of_none hk
      refine bestFirst_congr ?_
      rw [levels_setLevels, if_pos rfl, hrest]
  | some q' =>
      obtain rfl : q' = q := by rw [← h.queue, hk, Option.getD_some]
      rw [bestFirst_of_level hb hk hbest, h.erased]

theorem refill_append {symbol : String} {qty : ℚ} {cs : List Order}
    (hq : ∀ d ∈ q, d.priceKey = c.priceKey) (hcs : ∀ d ∈ cs, d.priceKey ≠ c.priceKey) :
    refill symbol qty c (q ++ cs) =
      (if Returns symbol qty c then q ++ [refilled c qty] else q) ++ cs := by
  have hlevel : ∀ d ∈ q, (d.priceKey == c.priceKey) = true := fun d hd => beq_iff_eq.mpr (hq d hd)
  unfold refill
  split_ifs
  · rw [List.takeWhile_append_of_pos hlevel, List.dropWhile_append_of_pos hlevel]
    cases cs with
    | nil => simp
    | cons d cs =>
        have hne : (d.priceKey == c.priceKey) = false :=
          beq_eq_false_iff_ne.mpr (hcs d List.mem_cons_self)
        simp [hne]
  · rfl

theorem returns_iff {symbol : String} {qty : ℚ} (h : u.standing = (refilled c qty).standing) :
    (0 < u.remainingQuantity ∧ u.symbol = symbol) ↔ Returns symbol qty c := by
  have hremaining : u.remainingQuantity = (refilled c qty).remainingQuantity :=
    (congrArg Order.remainingQuantity h :)
  have hsymbol : u.symbol = c.symbol := (congrArg Order.symbol h :)
  rw [Returns, hremaining, hsymbol]

/-- A side of `b'` that has a copy `u` of the first order of `b` behind its level, or no copy, is
what `refill` makes of the side of `b`. -/
theorem bestFirst_of_returned (taker : OrderSide) {b' : OrderBook} {qty : ℚ} (hb : b.Coherent)
    (hb' : b'.Coherent) (hq : (b.levels taker.opposite)[k]? = some (c :: q))
    (hbest : BestKey taker b k) (hu : u.standing = (refilled c qty).standing)
    (h : Splits (b'.levels taker.opposite) k
      (if 0 < u.remainingQuantity ∧ u.symbol = b.symbol then q ++ [u] else q)
      ((b.levels taker.opposite).erase k)) :
    ∃ cs, bestFirst b taker = c :: cs ∧ (bestFirst b' taker).map Order.standing =
      (refill b.symbol qty c cs).map Order.standing := by
  set others := bestFirst (b.setLevels taker.opposite ((b.levels taker.opposite).erase k)) taker
  have hkey := (hb.indexed ⟨_, hq, List.mem_cons_self⟩).2.2.2
  have hbest' : BestKey taker b' k := by
    rintro k' e ⟨q', hq', he⟩
    by_cases hk : k' = k
    · exact hk ▸ better_irrefl taker k
    · rw [h.getElem?_of_ne hk, ExtTreeMap.getElem?_erase] at hq'
      split_ifs at hq'
      exact hbest k' e ⟨q', hq', he⟩
  have hfirst := bestFirst_of_level hb hq hbest
  have hnext := bestFirst_of_splits hb' h hbest'
  have hothers : bestFirst (b'.setLevels taker.opposite ((b.levels taker.opposite).erase k)) taker =
      others := bestFirst_congr (by rw [levels_setLevels, levels_setLevels, if_pos rfl, if_pos rfl])
  have hlevel : ∀ d ∈ q, d.priceKey = c.priceKey := fun d hd =>
    (hb.indexed ⟨_, hq, List.mem_cons_of_mem _ hd⟩).2.2.2.trans hkey.symm
  have houtside : ∀ d ∈ others, d.priceKey ≠ c.priceKey := by
    intro d hd
    obtain ⟨k', q', hq', hd⟩ := mem_bestFirst.mp hd
    rw [levels_setLevels, if_pos rfl, ExtTreeMap.getElem?_erase] at hq'
    split_ifs at hq' with hne
    rw [(hb.indexed ⟨q', hq', hd⟩).2.2.2, hkey]
    exact fun heq => hne (Std.compare_eq_iff_eq.mpr heq.symm)
  refine ⟨q ++ others, hfirst, ?_⟩
  rw [hnext, hothers, refill_append hlevel houtside]
  simp only [returns_iff hu]
  split_ifs
  · simp only [List.map_append, List.map_cons, List.map_nil, hu]
  · rfl

/-- The first orders of the two sides name the best levels. -/
theorem lastKey_of_head {b : OrderBook} (hb : b.Coherent) {c : Order} {cs : List Order}
    (h : bestFirst b .sell = c :: cs) : b.buyOrders.lastKey = some c.priceKey := by
  cases hlast : b.buyOrders.lastKey with
  | none =>
      obtain ⟨k, q, hq, -⟩ := mem_bestFirst.mp (h ▸ List.mem_cons_self : c ∈ bestFirst b .sell)
      change b.buyOrders[k]? = _ at hq
      rw [QueueMap.lastKey_eq_none.mp hlast k] at hq
      cases hq
  | some k =>
      obtain ⟨q, hq, hdescending⟩ := QueueMap.descending_of_lastKey hlast
      obtain ⟨d, q, rfl⟩ := List.exists_cons_of_ne_nil (hb.noEmpty .buy k q hq)
      obtain ⟨rfl, -⟩ := List.cons_eq_cons.mp (h.symm.trans hdescending)
      have hfront : (b.levels .buy).Holds k c := ⟨_, hq, List.mem_cons_self⟩
      rw [(hb.indexed hfront).2.2.2]

theorem firstKey_of_head {b : OrderBook} (hb : b.Coherent) {c : Order} {cs : List Order}
    (h : bestFirst b .buy = c :: cs) : b.sellOrders.firstKey = some c.priceKey := by
  cases hfirst : b.sellOrders.firstKey with
  | none =>
      obtain ⟨k, q, hq, -⟩ := mem_bestFirst.mp (h ▸ List.mem_cons_self : c ∈ bestFirst b .buy)
      change b.sellOrders[k]? = _ at hq
      rw [QueueMap.firstKey_eq_none.mp hfirst k] at hq
      cases hq
  | some k =>
      obtain ⟨q, hq, hentries⟩ := QueueMap.entries_of_firstKey hfirst
      obtain ⟨d, q, rfl⟩ := List.exists_cons_of_ne_nil (hb.noEmpty .sell k q hq)
      obtain ⟨rfl, -⟩ := List.cons_eq_cons.mp (h.symm.trans hentries)
      have hfront : (b.levels .sell).Holds k c := ⟨_, hq, List.mem_cons_self⟩
      rw [(hb.indexed hfront).2.2.2]

end Levels

section Rounds

variable {env : Env} {b : OrderBook} {r : MatchResult} {buyOrder sellOrder : Order} {kb ks : ℤ}
  {qb qs : List Order}

theorem fillResting_standing (c : Order) (qty : ℚ) (now : DateTime) :
    (fillResting c qty now).standing = (refilled c qty).standing := by
  unfold fillResting
  dsimp only
  split_ifs <;> rfl

theorem fillResting_isActive {c : Order} {qty : ℚ} {now : DateTime}
    (h : 0 < (fillResting c qty now).remainingQuantity) :
    (fillResting c qty now).isActive = true := by
  unfold fillResting at h ⊢
  dsimp only at h ⊢
  split_ifs at h ⊢ with hdone
  · exact absurd h (not_lt.mpr hdone)
  · rfl

/-- The first order of a level comes back behind the others, if it comes back. -/
theorem splits_return {side : OrderSide} {k : ℤ} {c : Order} {q : List Order}
    {rest : QueueMap ℤ Order} (h : Splits (b.levels side) k q rest) (hside : c.side = side)
    (hprice : c.hasPrice = true) (hkey : c.priceKey = k) (qty : ℚ) (now : DateTime) :
    let u := fillResting c qty now
    Splits ((reinsert b u).levels side) k
      (if 0 < u.remainingQuantity ∧ u.symbol = b.symbol then q ++ [u] else q) rest := by
  intro u
  have huSide : u.side = side := (fillResting_side c qty now).trans hside
  have huKey : u.priceKey = k := (fillResting_priceKey c qty now).trans hkey
  have huPrice : u.hasPrice = true := (fillResting_hasPrice c qty now).trans hprice
  rw [← huSide, ← huKey] at h ⊢
  exact splits_reinsert h huPrice fillResting_isActive

/-- The levels of a matched pair lose their first orders, and get back behind the others what is
left of them. -/
theorem splits_matchPair (env : Env) (r : MatchResult) (hb : b.Coherent)
    (hqb : b.buyOrders[kb]? = some (buyOrder :: qb))
    (hqs : b.sellOrders[ks]? = some (sellOrder :: qs)) (sellPrice : ℚ) :
    let qty := min buyOrder.remainingQuantity sellOrder.remainingQuantity
    let now := env.now r.executions.length
    let b' := (matchPair env (b, r) sellPrice buyOrder sellOrder).1
    let rest := fun (c : Order) (q : List Order) =>
      if 0 < (fillResting c qty now).remainingQuantity ∧ (fillResting c qty now).symbol = b.symbol
      then q ++ [fillResting c qty now] else q
    Splits (b'.levels .buy) kb (rest buyOrder qb) ((b.levels .buy).erase kb) ∧
      Splits (b'.levels .sell) ks (rest sellOrder qs) ((b.levels .sell).erase ks) := by
  intro qty now b' rest
  have hbuy : (b.levels .buy).Holds kb buyOrder := ⟨_, hqb, List.mem_cons_self⟩
  have hsell : (b.levels .sell).Holds ks sellOrder := ⟨_, hqs, List.mem_cons_self⟩
  obtain ⟨hbuyIdx, hbuySide, hbuyPrice, hbuyKey⟩ := hb.indexed hbuy
  obtain ⟨hsellIdx, hsellSide, hsellPrice, hsellKey⟩ := hb.indexed hsell
  set b₁ := (b.removeOrder buyOrder.orderId).1
  set b₂ := (b₁.removeOrder sellOrder.orderId).1
  have hb₂ : b₂.symbol = b.symbol := (removeOrder_symbol _ _).trans (removeOrder_symbol _ _)
  constructor
  · have hsellIdx₁ : b₁.ordersById[sellOrder.orderId]? = some sellOrder := by
      rw [removeOrder_lookup, if_neg (pair_ids_ne hb hbuy hsell), hsellIdx]
    have hremoved : Splits (b₂.levels .buy) kb qb ((b.levels .buy).erase kb) := by
      rw [levels_removeOrder_of_ne hsellIdx₁ (by rw [hsellSide]; decide)]
      exact splits_removeOrder hb hqb
    have hreturned := splits_return hremoved hbuySide hbuyPrice hbuyKey qty now
    rw [hb₂] at hreturned
    change Splits ((reinsert (reinsert b₂ _) _).levels .buy) _ _ _
    rw [levels_reinsert_of_ne (by rw [fillResting_side, hsellSide]; decide)]
    exact hreturned
  · have hsells₁ : b₁.levels .sell = b.levels .sell :=
      levels_removeOrder_of_ne hbuyIdx (by rw [hbuySide]; decide)
    have hremoved : Splits ((reinsert b₂ (fillResting buyOrder qty now)).levels .sell) ks qs
        ((b.levels .sell).erase ks) := by
      rw [levels_reinsert_of_ne (by rw [fillResting_side, hbuySide]; decide), ← hsells₁]
      exact splits_removeOrder (hb.removeOrder buyOrder.orderId) (hsells₁ ▸ hqs)
    have hreturned := splits_return hremoved hsellSide hsellPrice hsellKey qty now
    rw [reinsert_symbol, hb₂] at hreturned
    exact hreturned

/-- A match of the first orders leaves on both sides what `refill` says. -/
theorem bestFirst_matchPair (env : Env) (r : MatchResult) (hb : Live b)
    (hqb : b.buyOrders[kb]? = some (buyOrder :: qb))
    (hqs : b.sellOrders[ks]? = some (sellOrder :: qs)) (hbb : BestKey .sell b kb)
    (hbs : BestKey .buy b ks) (sellPrice : ℚ) :
    let qty := min buyOrder.remainingQuantity sellOrder.remainingQuantity
    let b' := (matchPair env (b, r) sellPrice buyOrder sellOrder).1
    ∃ buys sells, bestFirst b .sell = buyOrder :: buys ∧ bestFirst b .buy = sellOrder :: sells ∧
      (bestFirst b' .sell).map Order.standing =
        (refill b.symbol qty buyOrder buys).map Order.standing ∧
      (bestFirst b' .buy).map Order.standing =
        (refill b.symbol qty sellOrder sells).map Order.standing := by
  intro qty b'
  have hb' : b'.Coherent := (live_matchPair hb ⟨_, hqb, List.mem_cons_self⟩
    ⟨_, hqs, List.mem_cons_self⟩).coherent
  obtain ⟨hbuys, hsells⟩ := splits_matchPair env r hb.coherent hqb hqs sellPrice
  obtain ⟨buys, hfirstBuy, hrestBuy⟩ := bestFirst_of_returned .sell hb.coherent hb' hqb
    hbb (fillResting_standing buyOrder qty (env.now r.executions.length)) hbuys
  obtain ⟨sells, hfirstSell, hrestSell⟩ := bestFirst_of_returned .buy hb.coherent hb' hqs
    hbs (fillResting_standing sellOrder qty (env.now r.executions.length)) hsells
  exact ⟨buys, sells, hfirstBuy, hfirstSell, hrestBuy, hrestSell⟩

/-- Where no round is left, the recursion over the two sides ends as well. -/
theorem takenSells_of_none {s : OrderBook × MatchResult} (hb : s.1.Coherent)
    (hs : continuousRound env s = none) (symbol : String) (n : ℕ) :
    takenSells symbol n (bestFirst s.1 .sell) (bestFirst s.1 .buy) = [] := by
  cases n with
  | zero => rfl
  | succ n =>
      cases hbuys : bestFirst s.1 .sell with
      | nil => rfl
      | cons buy buys =>
          cases hsells : bestFirst s.1 .buy with
          | nil => rfl
          | cons sell sells =>
              have hbuyKey := lastKey_of_head hb hbuys
              have hsellKey := firstKey_of_head hb hsells
              rw [takenSells, if_neg (not_le.mpr (continuousRound_none hb hs hbuyKey hsellKey))]

/-- The execution records a match of `c`. -/
def Sold (env : Env) (b : OrderBook) (c : Order) (e : Execution) : Prop :=
  ∃ buy sell, sell.terms = c.terms ∧ PairRecord env b buy sell e

theorem sold_congr {c c' : Order} (h : c.standing = c'.standing) {e : Execution} :
    Sold env b c e ↔ Sold env b c' e := by
  have hterms : c.terms = c'.terms := (congrArg Order.terms h :)
  rw [Sold, Sold, hterms]

theorem forall₂_sold_congr {l l' : List Order} {es : List Execution}
    (h : l.map Order.standing = l'.map Order.standing) (hl : List.Forall₂ (Sold env b) l es) :
    List.Forall₂ (Sold env b) l' es := by
  induction hl generalizing l' with
  | nil =>
      obtain rfl : l' = [] := by simpa using h.symm
      exact .nil
  | @cons c e l es he _ ih =>
      cases l' with
      | nil => simp at h
      | cons c' l' =>
          obtain ⟨hc, hl'⟩ := List.cons_eq_cons.mp h
          exact .cons ((sold_congr hc).mp he) (ih hl')

/-- The executions of the rounds record the sell orders of the recursion, one each. -/
theorem executions_loop (hb : b.Coherent) (n : ℕ) {s : OrderBook × MatchResult}
    (h : Pairing env b s) : ∃ es,
      (Runs.loop (continuousRound env) n s).2.executions = s.2.executions ++ es ∧
      List.Forall₂ (Sold env b)
        (takenSells s.1.symbol n (bestFirst s.1 .sell) (bestFirst s.1 .buy)) es := by
  induction n generalizing s with
  | zero => exact ⟨[], (List.append_nil _).symm, .nil⟩
  | succ n ih =>
      cases hround : continuousRound env s with
      | none =>
          refine ⟨[], ?_, ?_⟩
          · rw [Runs.loop_succ_of_none hround, List.append_nil]
          · rw [takenSells_of_none h.live.coherent hround]
            exact .nil
      | some s' =>
          obtain ⟨es, hes, hsold⟩ := ih (pairing_round hb h hround)
          obtain ⟨b', r⟩ := s
          obtain ⟨kb, ks, buyOrder, sellOrder, qb, qs, hqb, hqs, hcross, hbb, hbs, rfl⟩ :=
            continuousRound_some h.live.coherent hround
          have hbuy : (b'.levels .buy).Holds kb buyOrder := ⟨_, hqb, List.mem_cons_self⟩
          have hsell : (b'.levels .sell).Holds ks sellOrder := ⟨_, hqs, List.mem_cons_self⟩
          have hkb := (h.live.coherent.indexed hbuy).2.2.2
          have hks := (h.live.coherent.indexed hsell).2.2.2
          obtain ⟨buy, sell, -, hst, hrecord⟩ := pairRecord_round env hb h.live h.waiting
            hbuy hsell hcross r.executions.length
          obtain ⟨buys, sells, hbuys, hsells, hbuys', hsells'⟩ :=
            bestFirst_matchPair env r h.live hqb hqs hbb hbs (ks / 100)
          have hsymbol : (matchPair env (b', r) (ks / 100) buyOrder sellOrder).1.symbol =
              b'.symbol := by
            simp only [matchPair, reinsert_symbol, removeOrder_symbol]
          let e := createExecutionRecord env r.executions.length buyOrder sellOrder (ks / 100)
            (min buyOrder.remainingQuantity sellOrder.remainingQuantity)
          refine ⟨e :: es, ?_, ?_⟩
          · rw [Runs.loop_succ_of_some hround, hes]
            exact List.append_assoc r.executions [e] es
          · rw [hsymbol] at hsold
            rw [hbuys, hsells, takenSells, if_pos (by rwa [hkb, hks])]
            exact .cons ⟨buy, sell, hst.symm, hrecord⟩
              (forall₂_sold_congr (takenSells_congr n hbuys' hsells') hsold)

/-- `continuous_match` makes one execution for each of the sell orders taken, in their order. -/
theorem executions_sellsTaken (env : Env) (hb : Live b) :
    List.Forall₂ (Sold env b) (sellsTaken b) (continuousMatch env b).2.executions := by
  obtain ⟨es, hes, hsold⟩ := executions_loop hb.coherent (b.ordersById.size + 1)
    (pairing_continuousMatchWith env 0 hb)
  have hexec : (continuousMatch env b).2.executions = es := hes
  rw [hexec]
  exact hsold

end Rounds

end OrderMatcher

end ActixPura
