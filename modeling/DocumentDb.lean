import DocumentDb.Bson.Arithmetic
import DocumentDb.Bson.HashAgree
import DocumentDb.Index.ArrayOrder
import DocumentDb.Index.DocumentOrder
import DocumentDb.Index.WildcardProjection
import DocumentDb.Aggregation.PathTree
import DocumentDb.Sharding.Routing
import DocumentDb.Commands.BulkRetry
import DocumentDb.Commands.Insert
import DocumentDb.Commands.ObjectIdTries
import DocumentDb.Cursor.PrimaryKey
import DocumentDb.Gateway.InTransaction
import DocumentDb.Cursor.Portal
import DocumentDb.Cursor.CursorFileRoundTrip
import DocumentDb.Cursor.CursorCount
import DocumentDb.IndexBuild.Finish
import DocumentDb.IndexBuild.Safety
import DocumentDb.Aggregation.BucketAuto
import DocumentDb.Aggregation.OrderStateBytes
import DocumentDb.Update.Frame
import DocumentDb.Update.Push
import DocumentDb.Aggregation.FindSlice
import DocumentDb.Aggregation.Densify
import DocumentDb.Aggregation.Strings
import DocumentDb.Cursor.FileState
import DocumentDb.Index.BinaryRange
import DocumentDb.Gateway.Retry
import DocumentDb.Gateway.Replies
import DocumentDb.Commands.QueryCache
import DocumentDb.Aggregation.IsoWeeks
import DocumentDb.Bson.Deduplicate
import DocumentDb.Query.ForwardIndex
