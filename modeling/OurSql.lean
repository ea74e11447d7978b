import OurSql.Common
import OurSql.Lib.Transition
import OurSql.Lib.Chain
import OurSql.Lib.Crash
import OurSql.Lock.Modes
import OurSql.Lock.Manager
import OurSql.Lock.Compatibility
import OurSql.Lock.Alone
import OurSql.Lock.TwoPhase
import OurSql.Lock.Deadlock
import OurSql.Lock.Victim
import OurSql.Storage.Page
import OurSql.Storage.Log
import OurSql.Storage.Disk
import OurSql.Storage.FreeList
import OurSql.Storage.Allocate
import OurSql.Recovery.Recover
import OurSql.Recovery.Outcome
import OurSql.Recovery.WellFormed
import OurSql.Recovery.Undo
import OurSql.Recovery.Actions
import OurSql.Recovery.Effect
import OurSql.Recovery.Run
import OurSql.Recovery.Engine
import OurSql.Recovery.Chains
import OurSql.Recovery.History
import OurSql.Recovery.UpToDate
import OurSql.Recovery.Locked
import OurSql.Recovery.Restart
import OurSql.Recovery.Held
import OurSql.Recovery.Correct
import OurSql.Lib.Heap
import OurSql.Lib.Fence
import OurSql.Index.Page
import OurSql.Index.BPlusTree
import OurSql.Index.Tree
import OurSql.Index.Invariant
import OurSql.Index.Pool
import OurSql.Index.Search
import OurSql.Index.Insert
import OurSql.Index.Scan
import OurSql.Index.InsertFaults
import OurSql.Index.InsertStopped
import OurSql.Index.Siblings
import OurSql.Index.Neighbours
import OurSql.Transaction.Manager
import OurSql.Transaction.Release
import OurSql.Transaction.Session
import OurSql.Catalog.Records
import OurSql.Catalog.Open
import OurSql.Catalog.Pages
import OurSql.Catalog.Rollback
import OurSql.Lib.SlotChain
import OurSql.Catalog.Codec
import OurSql.Catalog.Persist
import OurSql.Catalog.Reopen
import OurSql.Lib.Items
import OurSql.Catalog.RawCodec
import OurSql.Buffer.Replacer
import OurSql.Buffer.Policy
import OurSql.Buffer.Clock
import OurSql.Buffer.Pool
import OurSql.Buffer.Threads
import OurSql.Buffer.Pins
import OurSql.Buffer.Transit
import OurSql.Buffer.Protect
import OurSql.Buffer.Steps
import OurSql.Buffer.PinCount
import OurSql.Buffer.LoadFailures
import OurSql.Buffer.Wal
import OurSql.Buffer.WalOrder
import OurSql.Buffer.WriteBack
import OurSql.Buffer.Placed
import OurSql.Buffer.Serial
import OurSql.Buffer.Bookkeeping
import OurSql.Index.Rebalance
import OurSql.Index.Remove
import OurSql.Index.Whole
import OurSql.Index.Runs
import OurSql.Index.Structure
import OurSql.Storage.Lifetime
import OurSql.Storage.CrashSafety
import OurSql.Storage.GroupCommit
import OurSql.Recovery.Accepted
import OurSql.Transaction.Outcome
import OurSql.Transaction.Checkpoint
import OurSql.Transaction.Cleanup
import OurSql.Storage.LogFile
import OurSql.Storage.LogCanonical
import OurSql.Storage.TornTail
import OurSql.Latch.Order
import OurSql.Data.Value
import OurSql.Data.RowCodec
import OurSql.Expression.Evaluate
import OurSql.Expression.Fold
import OurSql.Expression.Check
import OurSql.Expression.Sound
import OurSql.Storage.SlottedPage
import OurSql.Storage.HeapTable
import OurSql.Storage.HeapRows
import OurSql.Storage.DeleteFaults
import OurSql.Expression.Update
import OurSql.Execution.IndexManager
import OurSql.Execution.Modify
import OurSql.Execution.Mirror
import OurSql.Execution.Rows
import OurSql.Storage.Corruption
import OurSql.Storage.FailedAppend
import OurSql.Storage.Deallocate
import OurSql.Catalog.Schemas
import OurSql.Execution.Keys
import OurSql.Lib.Parse
import OurSql.Parser.Lexer
import OurSql.Parser.Chunks
import OurSql.Parser.Spans
import OurSql.Parser.Terminator
import OurSql.Parser.Statement
import OurSql.Parser.Expressions
import OurSql.Parser.Parse
import OurSql.Parser.Total
import OurSql.Rollback.Pool
import OurSql.Rollback.Undo
import OurSql.Rollback.Retry
import OurSql.Lib.Machine
import OurSql.Lib.Grouping
import OurSql.Expression.Like
import OurSql.Expression.Arithmetic
import OurSql.Expression.Outcome
import OurSql.Expression.SetClause
import OurSql.Expression.Between
import OurSql.Expression.Aggregate
import OurSql.Execution.GroupBy
import OurSql.Execution.Where
import OurSql.Execution.UpdateWhere
import OurSql.Execution.DeleteWhere
import OurSql.Storage.InsertRecord
import OurSql.Rollback.DeletePages
import OurSql.Execution.DeleteScan
import OurSql.Execution.SumOrder
import OurSql.Execution.InsertUndo
import OurSql.Execution.Maintenance
import OurSql.Execution.AlterTable
import OurSql.Planner.InsertRows
import OurSql.Lib.Yield
import OurSql.Parser.Productions
import OurSql.Parser.Trees
import OurSql.Parser.Printable
import OurSql.Parser.Printed
import OurSql.Parser.Reparse
import OurSql.Parser.RoundTrip
import OurSql.Lib.Similar
import OurSql.Parser.Agree
import OurSql.Parser.Adjacent
import OurSql.Parser.Spacing
import OurSql.Buffer.PageMap
