import Achain.GenerateBlock
import Achain.Proofs.Forms
import Achain.Proofs.Signatures
import Achain.Proofs.Reflection
import Achain.Proofs.Issuance
import Achain.Proofs.Selection
import Achain.Proofs.QuietChain
import Achain.Proofs.ContractIds
import Achain.Proofs.QuickSort
import Achain.Glua.Table
import Achain.Proofs.SyncPosition
import Achain.Proofs.SyncExchange
import Achain.Proofs.StorageOrder
import Achain.Proofs.Supply
import Achain.Db.LevelMap
import Achain.Lib.Traces
import Achain.Proofs.LevelMaps
import Achain.Proofs.ReadOnlyKeys
import Achain.Proofs.MessageFraming
import Achain.Proofs.BalancedBooks
import Achain.Proofs.SyncBooks
import Achain.Proofs.PrintedTokens
import Achain.Proofs.JsonRoundTrip
import Achain.Proofs.Withdrawals
import Achain.Proofs.FailedUndo
import Achain.Proofs.RejectedBlocks
import Achain.Proofs.ForkSwitch
import Achain.Proofs.DepositDates
import Achain.Proofs.Payouts
import Achain.Proofs.TransactionLedger
import Achain.Proofs.GasCharge
import Achain.Proofs.LoadsReturns
import Achain.Proofs.DelegateShuffle
import Achain.Proofs.BlockSearch
import Achain.Proofs.PriceProducts
import Achain.Proofs.PriceText
import Achain.Proofs.AmountText
import Achain.Proofs.DepositLimits
import Achain.Proofs.TransactionShape
import Achain.Proofs.BlockLimits
import Achain.Proofs.StorageTypes
import Achain.Proofs.SlotAccounting
import Achain.Proofs.AccountNames
import Achain.Proofs.EscapedStrings
import Achain.Proofs.PendingTransactions
import Achain.Proofs.Rebroadcast
import Achain.Proofs.AlpIndexes
import Achain.Proofs.StorageDiffs
import Achain.Proofs.FastSync
import Achain.Proofs.ContractRoundTrip
import Achain.Proofs.BytecodeWhitelist
import Achain.Proofs.ImplausibleOffers
import Achain.Proofs.PeerPruning
import Achain.Proofs.Memos
import Achain.Proofs.PasswordChange
import Achain.Proofs.AccountRemoval
import Achain.Proofs.KeyLosses
import Achain.Proofs.TypeMerging
import Achain.Proofs.TypeMatching
import Achain.Proofs.Repetition
import Achain.Proofs.MemoryPool
import Achain.Proofs.PairsOrder
import Achain.Proofs.JsonWhole
import Achain.Proofs.Dump
import Achain.Proofs.RawBlocks
import Achain.Proofs.GossipSafety
import Achain.Proofs.ReplayProtection
