import Gstio.Lib.Radix
import Gstio.Chain.Name
import Gstio.Chain.Authority
import Gstio.Chain.AuthorityChecker
import Gstio.Chainbase.GenericIndex
import Gstio.Chainbase.UndoStack
import Gstio.Chainbase.Session
import Gstio.Chain.Controller
import Gstio.Lib.ParentForest
import Gstio.Lib.Rollback
import Gstio.Chain.AuthorizationManager
import Gstio.Chain.GstioContract
import Gstio.Chain.PermissionTree
import Gstio.Chainbase.UniqueKeys
import Gstio.Chain.ResourceLimits
import Gstio.Chain.LimitTotals
import Gstio.Lib.Bits
import Gstio.Lib.PairLevels
import Gstio.Chain.Merkle
import Gstio.Chain.IncrementalMerkle
import Gstio.Lib.OrderStatistic
import Gstio.Chain.BlockHeaderState
import Gstio.Chain.DposIrreversibility
import Gstio.Chain.DoubleConfirm
import Gstio.Lib.SubtreeErase
import Gstio.Lib.OrderedIndex
import Gstio.Chain.ForkDatabase
import Gstio.Chain.ForkIrreversibility
import Gstio.Lib.Leb128
import Gstio.Lib.MachineInt
import Gstio.Fc.Raw
import Gstio.Fc.Varint
import Gstio.Fc.Uint128
import Gstio.Chain.AbiSerializer
import Gstio.Chain.AbiRoundTrip
import Gstio.Chain.ResourceGas
import Gstio.Chain.ApplyContext
import Gstio.Chain.DeferredTransactions
import Gstio.Chain.ContractTables
import Gstio.Chain.TransactionDedup
import Gstio.Chain.WasmValidation
import Gstio.Chain.CompilerBuiltins
import Gstio.Lib.FlatSet
import Gstio.Chain.ActorList
import Gstio.Chain.ConfirmWindow
import Gstio.Lib.OutStream
import Gstio.Chain.Snapshot
import Gstio.Lib.SubtreeRaise
import Gstio.Chain.ForkGraph
import Gstio.Lib.DecimalText
import Gstio.Chain.Asset
import Gstio.Lib.OrderedCursor
import Gstio.Chain.IteratorCache
import Gstio.Lib.SignMagnitude
import Gstio.Softfloat.Compare
import Gstio.Chain.TableIterators
import Gstio.Lib.DecayingSum
import Gstio.Chain.BlockUsage
import Gstio.Chain.ChainConfig
