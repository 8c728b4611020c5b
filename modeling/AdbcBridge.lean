import AdbcBridge.Lib.Cuts
import AdbcBridge.Lib.SqlLexer
import AdbcBridge.Lib.Decimal
import AdbcBridge.Lib.Ledger
import AdbcBridge.Lib.Loop
import AdbcBridge.Lib.Chop
import AdbcBridge.Lib.Run
import AdbcBridge.Lib.Ring
import AdbcBridge.Lib.History
import AdbcBridge.Partition.Split
import AdbcBridge.Partition.Scanner
import AdbcBridge.Partition.Slices
import AdbcBridge.Partition.ScannerSound
import AdbcBridge.Partition.SliceText
import AdbcBridge.Partition.Catalog
import AdbcBridge.Bind.Session
import AdbcBridge.Bind.MultiRow
import AdbcBridge.Bind.Unnest
import AdbcBridge.Bind.ArrayExecute
import AdbcBridge.Bind.Execute
import AdbcBridge.Bind.ExactlyOnce
import AdbcBridge.Bind.Atomic
import AdbcBridge.Ingest.Slice
import AdbcBridge.Sql.Identifiers
import AdbcBridge.Ingest.Replace
import AdbcBridge.Questdb.Ingest
import AdbcBridge.Delegate.NativeUri
import AdbcBridge.Ingest.Queue
import AdbcBridge.Ingest.Parallel
import AdbcBridge.Statement.Moves
import AdbcBridge.Statement.Ownership
import AdbcBridge.Statement.Prepared
import AdbcBridge.Statement.Rollback
import AdbcBridge.Reader.Column
import AdbcBridge.Reader.Driver
import AdbcBridge.Reader.Convert
import AdbcBridge.Reader.NextBatch
import AdbcBridge.Reader.SlotRing
import AdbcBridge.Reader.Calls
import AdbcBridge.Reader.Prefetch
import AdbcBridge.Reader.Threads
import AdbcBridge.Reader.TableDriver
import AdbcBridge.Reader.RingSafety
import AdbcBridge.Reader.FixedRowset
import AdbcBridge.Delegate.ConnString
import AdbcBridge.Delegate.OpenHdbc
import AdbcBridge.Lib.Delimited
import AdbcBridge.Delegate.ParseUri
import AdbcBridge.Delegate.UriRoundTrip
import AdbcBridge.Delegate.NativeToOdbc
import AdbcBridge.Lib.Doubled
import AdbcBridge.Questdb.Conf
import AdbcBridge.Questdb.Run
import AdbcBridge.Questdb.SendLoop
import AdbcBridge.Delegate.SameSettings
import AdbcBridge.Objects.Constraints
import AdbcBridge.Objects.Names
import AdbcBridge.Lib.Civil
import AdbcBridge.Adbc.DateTime
import AdbcBridge.Bind.DateTime
import AdbcBridge.Reader.DateTime
import AdbcBridge.Lib.Numeral
import AdbcBridge.Adbc.ArrowDecimal
import AdbcBridge.Reader.DecimalText
import AdbcBridge.Bind.ParamSlot
import AdbcBridge.Lib.Overlay
import AdbcBridge.Lib.Utf16
import AdbcBridge.Adbc.ArrowBuffer
import AdbcBridge.Reader.GetDataLong
import AdbcBridge.Reader.WideRepair
import AdbcBridge.Reader.BindSizing
import AdbcBridge.Questdb.Cancel
import AdbcBridge.Lib.Bytes
import AdbcBridge.Lib.Bits
import AdbcBridge.Lib.Binary32
import AdbcBridge.Adbc.ArrowBits
import AdbcBridge.Adbc.ArrowArray
import AdbcBridge.Reader.BulkAppend
import AdbcBridge.Bind.WideText
import AdbcBridge.Questdb.RowsAffected
import AdbcBridge.Lib.Ieee
import AdbcBridge.Questdb.BindValue
import AdbcBridge.Reader.RowCount
import AdbcBridge.Bind.BoundReader
import AdbcBridge.Bind.Concatenation
import AdbcBridge.Bind.BoundRowCount
import AdbcBridge.Bind.MultiRowBudget
import AdbcBridge.Bind.TimeText
import AdbcBridge.Reader.ScanText
import AdbcBridge.Reader.TextRoundTrip
import AdbcBridge.Lib.PgArray
import AdbcBridge.Bind.ArrayLiteral
import AdbcBridge.Bind.ArrayCeiling
import AdbcBridge.Bind.Utf16Sizing
import AdbcBridge.Lib.Wildcard
import AdbcBridge.Objects.Like
import AdbcBridge.Questdb.LikeMatch
import AdbcBridge.Objects.CharLike
import AdbcBridge.Delegate.Conninfo
import AdbcBridge.Lib.Groups
import AdbcBridge.Objects.GetObjects
import AdbcBridge.Objects.Filters
import AdbcBridge.Reader.Contract
import AdbcBridge.Reader.Appended
import AdbcBridge.Reader.RowsetSize
import AdbcBridge.Reader.InStep
import AdbcBridge.Reader.Delivery
import AdbcBridge.Reader.Ahead
import AdbcBridge.Reader.PrefetchDelivery
import AdbcBridge.Reader.PrefetchProgress
import AdbcBridge.Reader.Conversion
import AdbcBridge.Reader.DeliveredRows
import AdbcBridge.Lib.RefCount
import AdbcBridge.Ingest.BatchOwner
import AdbcBridge.Statement.ReadPartition
import AdbcBridge.Statement.Lifetimes
import AdbcBridge.Partition.Reassemble
import AdbcBridge.Connection.Options
import AdbcBridge.Connection.Init
import AdbcBridge.Delegate.Database
