import PerpDex.Account.Layout
import PerpDex.AccountInfo
import PerpDex.Book.OrderBook
import PerpDex.Bytes.Scalar
import PerpDex.Client.Loader
import PerpDex.Decimal.Text
import PerpDex.Fixed.Unsigned
import PerpDex.Instruction
import PerpDex.Proofs.Book.Cursor
import PerpDex.Proofs.Book.Fresh
import PerpDex.Proofs.Book.Search
import PerpDex.Proofs.Feed.Reconnect
import PerpDex.Proofs.Fixed.Signed
import PerpDex.Proofs.Fixed.Unsigned
import PerpDex.Proofs.Queue.Conservation
import PerpDex.Proofs.Queue.Decoding
import PerpDex.Proofs.Queue.Delivery
import PerpDex.Proofs.Queue.Isolation
import PerpDex.Queue.Registry
import PerpDex.Queue.Writer
import PerpDex.Proofs.Bytes.Fields
import PerpDex.Proofs.Instruction.Packing
import PerpDex.Proofs.Book.NodeBytes
import PerpDex.Proofs.Book.SideBytes
import PerpDex.Proofs.Book.BestFirst
import PerpDex.Proofs.Book.PriceTime
import PerpDex.Proofs.Account.SizeReports
import PerpDex.Proofs.Book.Outermost
import PerpDex.Proofs.Market.Prices
import PerpDex.Proofs.Book.Levels
import PerpDex.Proofs.Book.Faults
import PerpDex.Proofs.Feed.Effects
import PerpDex.Proofs.Queue.Windows
import PerpDex.Proofs.Fixed.Accuracy
import PerpDex.Proofs.Book.CanonicalSlots
import PerpDex.Proofs.Client.Batches
import PerpDex.Proofs.Account.OrderSlots
import PerpDex.Proofs.Account.OrderMasks
import PerpDex.Proofs.Account.KeyedSlots
import PerpDex.Proofs.Book.Expiry
import PerpDex.Proofs.Book.PackedKeys
