import PerpDex.Account.Group
import PerpDex.Timestamp

/-! The cache account of a group: prices, bank indices and funding, one entry for each slot. -/
namespace PerpDex

structure CachedPrice where
  price : Decimal
  lastUpdate : Timestamp

structure CachedBank where
  depositIndex : Decimal
  borrowIndex : Decimal
  lastUpdate : Timestamp

structure CachedFunding where
  longFunding : Decimal
  shortFunding : Decimal
  lastUpdate : Timestamp

structure PriceCache where
  header : Header
  prices : List CachedPrice
  banks : List CachedBank
  funding : List CachedFunding

namespace PriceCache

def size : Nat := 1608

def decode (data : Bytes) : Except Error PriceCache := do
  checkSize "Cache" size data
  let header := Header.read data
  header.check .cache
  return {
    header
    prices := Bytes.table data 8 24 marketSlots fun data offset =>
      ⟨SignedFixed.readAt data offset, ⟨Bytes.u64At data (offset + 16)⟩⟩
    banks := Bytes.table data 368 40 tokenSlots fun data offset =>
      ⟨SignedFixed.readAt data offset, SignedFixed.readAt data (offset + 16),
        ⟨Bytes.u64At data (offset + 32)⟩⟩
    funding := Bytes.table data 1008 40 marketSlots fun data offset =>
      ⟨SignedFixed.readAt data offset, SignedFixed.readAt data (offset + 16),
        ⟨Bytes.u64At data (offset + 32)⟩⟩ }

/-- The price of a token. The quote token is worth one. -/
def price? (cache : PriceCache) (index : Nat) : Option Decimal :=
  if index = quoteIndex then some Decimal.one
  else cache.prices[index]?.map (·.price)

end PriceCache
end PerpDex
