import PerpDex.Book.Walk

/-! Both sides of an order book, each with the best price first. Orders of one price stay in the
order of the tree they come from. -/
namespace PerpDex

structure PriceLevel where
  price : Int64
  quantity : Int64
  orders : Nat
deriving DecidableEq

structure OrderBook where
  bids : List Leaf
  asks : List Leaf
deriving DecidableEq

namespace OrderBook

def expectSide (book : BookSide) (side : Side) : Except Error Unit :=
  if book.side = side then .ok ()
  else .error (.wrongAccountKind (BookSide.kindOf side) book.header.kindByte)

def walked (book : BookSide) (ascending : Bool) : Except Error (List Leaf) :=
  (book.walk ascending).result.mapError .malformedTree

/-- Bids are ranked from the highest price down, asks from the lowest up; prices are signed. -/
def ofSides (bids asks : BookSide) : Except Error OrderBook := do
  expectSide bids .bid
  expectSide asks .ask
  let bidOrders ← walked bids false
  let askOrders ← walked asks true
  return {
    bids := bidOrders.mergeSort fun a b => b.price ≤ a.price
    asks := askOrders.mergeSort fun a b => a.price ≤ b.price }

def orders (book : OrderBook) : Side → List Leaf
  | .bid => book.bids
  | .ask => book.asks

def topBid (book : OrderBook) : Option Leaf := book.bids.head?

def topAsk (book : OrderBook) : Option Leaf := book.asks.head?

/-- The 64-bit integer `n`, or a fault if it is none. -/
def checked (n : Int) : Except Fault Int64 :=
  if -(2 ^ 63) ≤ n ∧ n < 2 ^ 63 then .ok (Int64.ofInt n) else .error .overflow

def spread (book : OrderBook) : Except Fault (Option Int64) :=
  match book.topAsk, book.topBid with
  | some ask, some bid => some <$> checked (ask.price.toInt - bid.price.toInt)
  | _, _ => .ok none

/-- Adds the orders to the level `last` while they have its price, and collects at most `levels`
more levels behind it. -/
def depthFrom (last : PriceLevel) (levels : Nat) : List Leaf → Except Fault (List PriceLevel)
  | [] => .ok [last]
  | leaf :: rest =>
    if leaf.price = last.price then do
      let quantity ← checked (last.quantity.toInt + leaf.quantity.toInt)
      depthFrom { last with quantity, orders := last.orders + 1 } levels rest
    else match levels with
      | 0 => .ok [last]
      | levels + 1 => do
        let more ← depthFrom ⟨leaf.price, leaf.quantity, 1⟩ levels rest
        return last :: more

def levelSize : Nat := 24

/-- The first `levels` prices of a side, the best one first. Room for all of them is set aside
before the orders are looked at. -/
def depth (book : OrderBook) (side : Side) (levels : UInt64) : Except Fault (List PriceLevel) :=
  if 2 ^ 63 ≤ levels.toNat * levelSize then .error .capacityOverflow
  else
    match levels.toNat, book.orders side with
    | levels + 1, leaf :: rest => depthFrom ⟨leaf.price, leaf.quantity, 1⟩ levels rest
    | _, _ => .ok []

def ordersOf (book : OrderBook) (owner : Address) : List (Side × Leaf) :=
  (book.bids.map (Side.bid, ·) ++ book.asks.map (Side.ask, ·)).filter fun order =>
    order.2.owner = owner

def withoutExpired (book : OrderBook) (now : UInt64) : OrderBook where
  bids := book.bids.filter (·.isValid now)
  asks := book.asks.filter (·.isValid now)

end OrderBook
end PerpDex
