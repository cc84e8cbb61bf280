import PerpDex.Error
import PerpDex.Fixed.Signed

/-! The group account: the tokens and markets that share their collateral, each in a numbered
slot, and the accounts and limits of the group. A slot with the zero key is empty. -/
namespace PerpDex

/-- The slots for tokens; the last one is the quote token's. -/
def tokenSlots : Nat := 16

/-- The slots for markets, one for each token but the quote token. -/
def marketSlots : Nat := 15

def quoteIndex : Nat := tokenSlots - 1

structure TokenInfo where
  index : Nat
  mint : Address
  rootBank : Address
  decimals : UInt8

structure RiskWeights where
  maintAsset : Decimal
  initAsset : Decimal
  maintLiab : Decimal
  initLiab : Decimal
  liquidationFee : Decimal

def RiskWeights.readAt (data : Bytes) (offset : Nat) : RiskWeights where
  maintAsset := SignedFixed.readAt data offset
  initAsset := SignedFixed.readAt data (offset + 16)
  maintLiab := SignedFixed.readAt data (offset + 32)
  initLiab := SignedFixed.readAt data (offset + 48)
  liquidationFee := SignedFixed.readAt data (offset + 64)

structure SpotMarketInfo where
  index : Nat
  market : Address
  weights : RiskWeights

structure PerpMarketInfo where
  index : Nat
  market : Address
  weights : RiskWeights
  makerFee : Decimal
  takerFee : Decimal
  baseLotSize : Int64
  quoteLotSize : Int64

structure Group where
  header : Header
  tokens : List (Option TokenInfo)
  spotMarkets : List (Option SpotMarketInfo)
  perpMarkets : List (Option PerpMarketInfo)
  oracles : List Address
  signerNonce : UInt64
  signerKey : Address
  admin : Address
  dexProgramId : Address
  cache : Address
  /-- The seconds for which an entry of the cache is valid. -/
  validInterval : UInt64
  insuranceVault : Option Address
  srmVault : Option Address
  msrmVault : Option Address
  feesVault : Option Address
  maxMarginAccounts : UInt32
  numMarginAccounts : UInt32
  refSurchargeCentibps : UInt32
  refShareCentibps : UInt32
  refMngoRequired : UInt64

namespace Group

def size : Nat := 6032

def readToken (data : Bytes) (index : Nat) : Option TokenInfo :=
  let offset := 16 + 72 * index
  (Address.readAt data offset).present?.map fun mint =>
    { index, mint
      rootBank := Address.readAt data (offset + 32)
      decimals := Bytes.u8At data (offset + 64) }

def readSpotMarket (data : Bytes) (index : Nat) : Option SpotMarketInfo :=
  let offset := 1168 + 112 * index
  (Address.readAt data offset).present?.map fun market =>
    { index, market, weights := RiskWeights.readAt data (offset + 32) }

def readPerpMarket (data : Bytes) (index : Nat) : Option PerpMarketInfo :=
  let offset := 2848 + 160 * index
  (Address.readAt data offset).present?.map fun market =>
    { index, market
      weights := RiskWeights.readAt data (offset + 32)
      makerFee := SignedFixed.readAt data (offset + 112)
      takerFee := SignedFixed.readAt data (offset + 128)
      baseLotSize := Bytes.i64At data (offset + 144)
      quoteLotSize := Bytes.i64At data (offset + 152) }

def decode (data : Bytes) : Except Error Group := do
  checkSize "Group" size data
  let header := Header.read data
  header.check .group
  return {
    header
    tokens := (List.range tokenSlots).map (readToken data)
    spotMarkets := (List.range marketSlots).map (readSpotMarket data)
    perpMarkets := (List.range marketSlots).map (readPerpMarket data)
    oracles := Bytes.table data 5248 32 (min (Bytes.u64At data 8).toNat marketSlots) Address.readAt
    signerNonce := Bytes.u64At data 5728
    signerKey := Address.readAt data 5736
    admin := Address.readAt data 5768
    dexProgramId := Address.readAt data 5800
    cache := Address.readAt data 5832
    validInterval := Bytes.u64At data 5864
    insuranceVault := (Address.readAt data 5872).present?
    srmVault := (Address.readAt data 5904).present?
    msrmVault := (Address.readAt data 5936).present?
    feesVault := (Address.readAt data 5968).present?
    maxMarginAccounts := Bytes.u32At data 6000
    numMarginAccounts := Bytes.u32At data 6004
    refSurchargeCentibps := Bytes.u32At data 6008
    refShareCentibps := Bytes.u32At data 6012
    refMngoRequired := Bytes.u64At data 6016 }

def quoteToken? (g : Group) : Option TokenInfo := g.tokens[quoteIndex]?.join

def tokenByMint? (g : Group) (mint : Address) : Option TokenInfo :=
  (g.tokens.filterMap id).find? (·.mint = mint)

def perpMarketIndex? (g : Group) (market : Address) : Option Nat :=
  ((g.perpMarkets.filterMap id).find? (·.market = market)).map (·.index)

def spotMarketIndex? (g : Group) (market : Address) : Option Nat :=
  ((g.spotMarkets.filterMap id).find? (·.market = market)).map (·.index)

end Group
end PerpDex
