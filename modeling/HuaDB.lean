import HuaDB.Lib.Assoc
import HuaDB.Lib.Exec
import HuaDB.Lib.Tiling
import HuaDB.DatabaseEngine
import HuaDB.Analyze
import HuaDB.Oids
import HuaDB.CatalogRel
import HuaDB.CreateTable
import HuaDB.PageInvariant
import HuaDB.TableSpec
import HuaDB.Xids
import HuaDB.LogSession
import HuaDB.LogBytes
import HuaDB.PageRedo
import HuaDB.LogChain
import HuaDB.LogWindow
import HuaDB.LogFile
import HuaDB.DiskStreams
import HuaDB.PageView
import HuaDB.TableView
import HuaDB.RollbackView
import HuaDB.TableHistory
import HuaDB.LockSafety
import HuaDB.LockRefusal
import HuaDB.Lib.Indexed
import HuaDB.Lib.Recency
import HuaDB.PagePool
import HuaDB.PageCoherence
import HuaDB.PageRecency
import HuaDB.Sql.Executors
import HuaDB.Sql.ExecuteSql
import HuaDB.Sql.Heap
import HuaDB.Sql.Rows
import HuaDB.Lib.Mvcc
import HuaDB.Lib.MvccHistory
import HuaDB.Sql.Versions
import HuaDB.Sql.Sound
import HuaDB.Sql.Scans
import HuaDB.Sql.Writes
import HuaDB.Sql.Queries
import HuaDB.Sql.Rollback
import HuaDB.Sql.Rules
import HuaDB.Sql.Statements
import HuaDB.Sql.Isolation
import HuaDB.Sql.Snapshots
import HuaDB.Lib.MvccCounts
import HuaDB.Sql.Updates
import HuaDB.Sql.Conflicts
import HuaDB.Sql.Halloween
import HuaDB.Lib.Volcano
import HuaDB.Executors
import HuaDB.Optimizer.SplitPredicates
import HuaDB.Optimizer.PushDown
import HuaDB.Lib.BoundedLoop
import HuaDB.Optimizer.ReorderJoin
import HuaDB.Optimizer.Estimates
import HuaDB.Optimizer.GreedyOrder
import HuaDB.Optimizer.GreedyRuns
import HuaDB.Optimizer.JoinTrees
import HuaDB.Lib.BitBytes
import HuaDB.RecordCodec
import HuaDB.RecordRoundTrip
import HuaDB.PageData
import HuaDB.TableData
import HuaDB.TableLayout
import HuaDB.Planner
import HuaDB.StoredRows
import HuaDB.Lib.Layout
import HuaDB.Optimizer.ColumnRefs
import HuaDB.Optimizer.MovedPredicates
import HuaDB.Lib.ExceptLists
import HuaDB.Lib.VolcanoLists
import HuaDB.Sql.TableScans
import HuaDB.Lib.MergeJoin
import HuaDB.SortKeys
import HuaDB.MergeJoin
import HuaDB.NestedLoopJoin
import HuaDB.Lib.Sorting
import HuaDB.OrderBy
import HuaDB.IntegerArithmetic
import HuaDB.Expansions
import HuaDB.ThreeValued
import HuaDB.JoinConditions
import HuaDB.JoinPlans
import HuaDB.ColumnLists
import HuaDB.Lib.TextStream
import HuaDB.SchemaStrings
import HuaDB.Lib.Wildcards
import HuaDB.Like
import HuaDB.LiveStatistics
import HuaDB.AnalyzeCounts
import HuaDB.ListSemantics
import HuaDB.LockModes
import HuaDB.ColumnLookups
import HuaDB.RecordChanges
import HuaDB.BindExpressions
import HuaDB.SelectLists
import HuaDB.TableRows
import HuaDB.RollbackRows
import HuaDB.TableRuns
import HuaDB.RollbackFrame
import HuaDB.Lib.SortedLists
import HuaDB.VisibleRows
import HuaDB.RollbackVisible
import HuaDB.RollbackOrder
import HuaDB.CommittedRows
import HuaDB.Restart
import HuaDB.WriteAhead
import HuaDB.Durability
import HuaDB.Lib.MvccViews
import HuaDB.Sql.Relational
import HuaDB.Sql.Views
import HuaDB.Sql.Refinement
import HuaDB.SelectPlans
import HuaDB.SelectRows
import HuaDB.PlannedExpressions
import HuaDB.SelectNames
import HuaDB.SelectMeaning
