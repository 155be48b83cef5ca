import Havenask.Attribute.PatchReader
import Havenask.DateIndex.DateTermList
import Havenask.Framework.LocatorDeserialize
import Havenask.Framework.LocatorMinOffset
import Havenask.Framework.OnDiskIndexCleaner
import Havenask.Framework.TabletCommitterTasks
import Havenask.HashTable.CuckooRun
import Havenask.Kkv.ResultBuffer
import Havenask.NormalTable.SortedReclaimMap
import Havenask.Posting.CompositePostingIterator
import Havenask.Posting.DynamicSearchTreeRun
import Havenask.Posting.DictValue
import Havenask.Posting.ReferenceCompress
import Havenask.Posting.DynamicPostingWriter
import Havenask.Posting.PostingRun
import Havenask.RangeIndex.RangeLeafReader
import Havenask.Swift.CommitManager
import Havenask.Swift.CommittedCheckpoint
import Havenask.Swift.MessageCommitter
import Havenask.Swift.ReaderProgress
import Havenask.Swift.StealUnsend
import Havenask.Swift.UnpackBounds
import Havenask.Table.ShardMergeOrder
import Havenask.Table.TargetSegmentInfo
import Havenask.OperationLog.OperationRedo
