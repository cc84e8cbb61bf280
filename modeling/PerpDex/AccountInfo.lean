import PerpDex.Account.Layout

/-! Snapshots of accounts: their balance, owner and raw data. -/
namespace PerpDex

structure StoredAccount where
  owner : Address
  executable : Bool
  lamports : UInt64
  rentEpoch : UInt64
  data : Bytes
deriving DecidableEq

structure AccountInfo extends StoredAccount where
  address : Address
deriving DecidableEq

namespace AccountInfo

def ofStored (address : Address) (account : StoredAccount) : AccountInfo := { account with address }

def decode (info : AccountInfo) (layout : Layout) : Except Error Account := layout.decode info.data

end AccountInfo

structure DecodedAccount where
  address : Address
  lamports : UInt64
  account : Account

def AccountInfo.decoded (info : AccountInfo) (layout : Layout) : Except Error DecodedAccount := do
  return ⟨info.address, info.lamports, ← info.decode layout⟩

end PerpDex
