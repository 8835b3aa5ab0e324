import PipeFabric.Library.TransitionSystem
import PipeFabric.Library.BitScan
import PipeFabric.Library.ScanMinimum
import PipeFabric.Library.SortUnique
import PipeFabric.Library.VersionedHistory
import PipeFabric.Library.WriteFold
import PipeFabric.Table.StateContext
import PipeFabric.Table.ActiveTransactions
import PipeFabric.Table.OccupiedSlots
import PipeFabric.Table.SlotOwners
import PipeFabric.Table.GroupCommit
import PipeFabric.Table.MVCCObject
import PipeFabric.Table.CuckooTable
import PipeFabric.Table.WriteSet
import PipeFabric.Table.MVCCTable
import PipeFabric.Table.BOCCTable
import PipeFabric.Table.SerialState
import PipeFabric.Table.S2PLTable
import PipeFabric.Qop.FromTxTables
import PipeFabric.Mvcc.VersionChain
import PipeFabric.Mvcc.System
import PipeFabric.Mvcc.Invariant
import PipeFabric.Mvcc.StoreSteps
import PipeFabric.Mvcc.Reachable
import PipeFabric.Mvcc.Snapshot
import PipeFabric.Mvcc.CleanUp
import PipeFabric.Bocc.System
import PipeFabric.Bocc.Invariant
import PipeFabric.Bocc.StoreSteps
import PipeFabric.Bocc.Reachable
import PipeFabric.Bocc.Validation
import PipeFabric.S2pl.System
import PipeFabric.S2pl.Invariant
import PipeFabric.S2pl.ReaderSteps
import PipeFabric.S2pl.WriterSteps
import PipeFabric.S2pl.Locking
import PipeFabric.Serial.Transactions
import PipeFabric.Serial.MVCCCommit
import PipeFabric.Serial.NewReader
import PipeFabric.Library.Transducer
import PipeFabric.Library.ChangeStream
import PipeFabric.Qop.Channels
import PipeFabric.Qop.Window
import PipeFabric.Qop.SlidingWindow
import PipeFabric.Windows.LiveSet
import PipeFabric.Qop.TumblingWindow
import PipeFabric.Windows.Expiry
import PipeFabric.Windows.Retractions
import PipeFabric.Qop.HashTable
import PipeFabric.Qop.SHJoin
import PipeFabric.Joins.Incremental
import PipeFabric.Qop.ScaleJoin
import PipeFabric.Joins.Shares
import PipeFabric.Joins.Union
import PipeFabric.Library.ArrivalOrder
import PipeFabric.Joins.Wiring
import PipeFabric.Joins.ExactlyOnce
import PipeFabric.Qop.AggregateFunctions
import PipeFabric.Qop.Aggregation
import PipeFabric.Qop.GroupedAggregation
import PipeFabric.Aggregates.Incremental
import PipeFabric.Aggregates.GroupView
import PipeFabric.Aggregates.Answers
import PipeFabric.Aggregates.NeverEmpty
import PipeFabric.Aggregates.Histories
import PipeFabric.Aggregates.LiveTuples
import PipeFabric.Windows.Leaving
import PipeFabric.Aggregates.Windows
import PipeFabric.Qop.SelectFromMVCCTable
import PipeFabric.Mvcc.ScanSystem
import PipeFabric.Mvcc.Effects
import PipeFabric.Mvcc.ScanInvariant
import PipeFabric.Mvcc.ScanSnapshot
import PipeFabric.Serial.LastWrite
import PipeFabric.Serial.BOCCCommit
import PipeFabric.Serial.S2PLCommit
import PipeFabric.Serial.Agreement
import PipeFabric.Qop.ToTxTable
import PipeFabric.Serial.AutoCommit
import PipeFabric.Library.ByteOrder
import PipeFabric.Library.Codec
import PipeFabric.Core.Serialize
import PipeFabric.Core.Format
import PipeFabric.Core.Tuple
import PipeFabric.Core.Punctuation
import PipeFabric.Qop.ZMQ
import PipeFabric.Library.Lockstep
import PipeFabric.Pubsub.OneToManySignal
import PipeFabric.Pubsub.Delivery
import PipeFabric.Qop.Queue
import PipeFabric.Library.FiniteMap
import PipeFabric.Relational.Modifications
import PipeFabric.Relational.HashMapTable
import PipeFabric.Relational.ChangeLog
import PipeFabric.Relational.CuckooTable
import PipeFabric.Relational.CuckooAgreement
import PipeFabric.Relational.RDBTable
import PipeFabric.Relational.RDBAgreement
import PipeFabric.Relational.Replication
import PipeFabric.Relational.TxTable
import PipeFabric.Library.SequencePattern
import PipeFabric.Cep.NFAController
import PipeFabric.Cep.NFAStructure
import PipeFabric.Cep.CEPEngine
import PipeFabric.Cep.FirstMatchEngine
import PipeFabric.Cep.LinearPattern
import PipeFabric.Cep.FirstMatch
import PipeFabric.Cep.WindowConstraint
import PipeFabric.Cep.Compilation
import PipeFabric.Matrix.SliceMerge
import PipeFabric.Serial.CommitFrame
import PipeFabric.Serial.GroupStreams
import PipeFabric.Serial.Abort
import PipeFabric.Serial.Votes
import PipeFabric.Serial.GroupAtomic
import PipeFabric.Serial.GroupHistory
import PipeFabric.Windows.RangeGroups
import PipeFabric.Windows.PeriodicEviction
import PipeFabric.Windows.Seconds
import PipeFabric.Qop.AggrMedian
import PipeFabric.Aggregates.MedianRuns
import PipeFabric.Aggregates.CountingMaps
import PipeFabric.Joins.Ownership
import PipeFabric.Qop.QueueShutdown
import PipeFabric.Library.Splitting
import PipeFabric.Qop.TupleExtractor
import PipeFabric.Qop.TextFileSource
import PipeFabric.Qop.TextFileReaders
import PipeFabric.Cep.KleeneCounting
import PipeFabric.Cep.KleeneStates
import PipeFabric.Qop.Batcher
import PipeFabric.Dsl.Pipe
import PipeFabric.Dsl.PartitionedAggregation
import PipeFabric.Dsl.GroupByTriggers
import PipeFabric.Dsl.Dataflow
import PipeFabric.Dsl.MergeWiring
import PipeFabric.Library.PEG
import PipeFabric.Qcomp.SQLParser
import PipeFabric.Qcomp.SQLRoundTrip
import PipeFabric.Qcomp.WhereExpression
import PipeFabric.Qcomp.CppExpression
import PipeFabric.Qcomp.WhereMeaning
import PipeFabric.Library.ForwardCopy
import PipeFabric.Matrix.DenseInsertion
import PipeFabric.Matrix.Removal
import PipeFabric.Matrix.Agreement
import PipeFabric.Library.NumberStream
import PipeFabric.Matrix.VectorParser
import PipeFabric.Matrix.ParsedVectors
import PipeFabric.Qop.PartitionBy
import PipeFabric.Qop.Tuplifier
import PipeFabric.Qop.TuplifierOrdered
import PipeFabric.Qop.TuplifierCompleted
import PipeFabric.Relational.NullFlags
import PipeFabric.Core.TupleHandles
import PipeFabric.Table.SlotThreads
import PipeFabric.Table.SlotExclusion
import PipeFabric.Table.SlotSteps
import PipeFabric.Library.GregorianCalendar
import PipeFabric.Library.TruncatedDivision
import PipeFabric.Core.TimestampHelper
import PipeFabric.Library.ViewMaintenance
import PipeFabric.Qop.Transforms
import PipeFabric.Plans.OperatorTrees
import PipeFabric.Plans.Views
import PipeFabric.Plans.DistinctViews
import PipeFabric.Plans.ContinuousAnswers
import PipeFabric.Pubsub.Channels
import PipeFabric.Pubsub.ChannelLifetimes
import PipeFabric.Cep.NextMatches
import PipeFabric.Cep.CompiledMatches
import PipeFabric.Qop.CsvFiles
import PipeFabric.S2pl.Progress
import PipeFabric.Cep.ThreadPool
import PipeFabric.Qcomp.QuerySessions
import PipeFabric.Usecases.PrefixSpan
