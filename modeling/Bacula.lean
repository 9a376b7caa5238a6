import Bacula.Lib.NextArgLaw
import Bacula.Dird.TreeDelta
import Bacula.Lib.DurationLaw
import Bacula.Lib.SellistExpanded
import Bacula.Stored.LabelBounds
import Bacula.Lib.BregList
import Bacula.Lib.Base64Bin
import Bacula.Stored.BlockLength
import Bacula.Lib.BitmapLaw
import Bacula.Lib.Bitmap
import Bacula.Lib.JcrChain
import Bacula.Lib.JobStatusThreads
import Bacula.Stored.Askdir
import Bacula.Dird.VolumeRequest
import Bacula.Lib.Message
import Bacula.Lib.WatchdogLaw
import Bacula.Lib.Watchdog
import Bacula.Cats.BatchInsertLaw
import Bacula.Cats.BatchInsert
import Bacula.Lib.JobStatus
import Bacula.Stored.CloudProxyLaw
import Bacula.Cats.BvfsHierarchy
import Bacula.Dird.BsrAll
import Bacula.Stored.MalformedBlock
import Bacula.Stored.MatchVoladdr
import Bacula.Stored.ReadRecordsRuns
import Bacula.Lib.BsockRoundTrip
import Bacula.Stored.CloudTruncateLaw
import Bacula.Stored.CloudLocksLaw
import Bacula.Stored.CloudTransferMgr
import Bacula.Stored.CloudAccounts
import Bacula.Findlib.Win32FilterLaw
import Bacula.Stored.SessionLabel
import Bacula.Stored.RecordRoundTrip
import Bacula.Stored.VolOwner
import Bacula.Stored.SpoolSize
import Bacula.Stored.Spool
import Bacula.Dird.Bsr
import Bacula.Findlib.Attribs
import Bacula.Lib.Alist
import Bacula.Dird.CatalogStream
import Bacula.Stored.CloudParts
import Bacula.Lib.IlistLaw
import Bacula.Lib.SellistLaw
import Bacula.Lib.RwlockLaw
import Bacula.Lib.WorkqProgress
import Bacula.Lib.LockmgrLaw
import Bacula.Lib.DlistSorted
import Bacula.Lib.HtableMap
import Bacula.Dird.JobqPriority
import Bacula.Lib.RblistRuns
import Bacula.Library.SparseFile
import Bacula.Library.Backlog
import Bacula.Filed.AccurateCatalog
import Bacula.Filed.BxattrRoundTrip
import Bacula.Filed.CipherRoundTrip
import Bacula.Dird.TreePaths
import Bacula.Dird.TreeLinks
import Bacula.Stored.Vbackup
import Bacula.Dird.ConcurrencyLaw
import Bacula.Stored.AskdirLaw
import Bacula.Stored.AskdirExchange
import Bacula.Dird.RestoreBootstrap
import Bacula.Dird.RestoreBootstrapLaw
import Bacula.Lib.EditInt
import Bacula.Dird.DuplicateJobs
import Bacula.Lib.MemPoolLaw
import Bacula.Lib.BwlimitLaw
import Bacula.Lib.WorkerProgress
import Bacula.Stored.BlockChecksum
import Bacula.Lib.FnmatchLaw
