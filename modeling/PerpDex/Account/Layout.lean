import PerpDex.Account.Bank
import PerpDex.Account.Group
import PerpDex.Account.MarginAccount
import PerpDex.Account.OpenOrders
import PerpDex.Account.PerpMarket
import PerpDex.Account.PriceCache
import PerpDex.Book.Side
import PerpDex.Queue.Account

/-! The ten layouts of account data, and accounts of any of them. -/
namespace PerpDex

inductive Layout where
  | group
  | cache
  | rootBank
  | nodeBank
  | marginAccount
  | openOrders
  | perpMarket
  | bookSide
  | perpEventQueue
  | spotEventQueue
deriving DecidableEq

inductive Account where
  | group (account : Group)
  | cache (account : PriceCache)
  | rootBank (account : RootBank)
  | nodeBank (account : NodeBank)
  | marginAccount (account : MarginAccount)
  | openOrders (account : OpenOrders)
  | perpMarket (account : PerpMarket)
  | bookSide (account : BookSide)
  | perpEventQueue (account : PerpEventQueue)
  | spotEventQueue (account : SpotEventQueue)

namespace Layout

def all : List Layout :=
  [group, cache, rootBank, nodeBank, marginAccount, openOrders, perpMarket, bookSide,
    perpEventQueue, spotEventQueue]

def name : Layout → String
  | group => "Group"
  | cache => "Cache"
  | rootBank => "RootBank"
  | nodeBank => "NodeBank"
  | marginAccount => "MarginAccount"
  | openOrders => "OpenOrders"
  | perpMarket => "PerpMarket"
  | bookSide => "BookSide"
  | perpEventQueue => "PerpEventQueue"
  | spotEventQueue => "SpotEventQueue"

def ofName? (name : String) : Option Layout := all.find? (·.name == name)

def decode (layout : Layout) (data : Bytes) : Except Error Account :=
  match layout with
  | group => .group <$> Group.decode data
  | cache => .cache <$> PriceCache.decode data
  | rootBank => .rootBank <$> RootBank.decode data
  | nodeBank => .nodeBank <$> NodeBank.decode data
  | marginAccount => .marginAccount <$> MarginAccount.decode data
  | openOrders => .openOrders <$> OpenOrders.decode data
  | perpMarket => .perpMarket <$> PerpMarket.decode data
  | bookSide => .bookSide <$> BookSide.decode data
  | perpEventQueue => .perpEventQueue <$> PerpEventQueue.decode data
  | spotEventQueue => .spotEventQueue <$> SpotEventQueue.decode data

end Layout
end PerpDex
