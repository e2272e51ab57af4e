import Xv6Kthreads.CopyOut
import Xv6Kthreads.CopyUvm
import Xv6Kthreads.Directory
import Xv6Kthreads.Exec
import Xv6Kthreads.ExitTeardown
import Xv6Kthreads.FsContents
import Xv6Kthreads.Grep
import Xv6Kthreads.GroupCommit
import Xv6Kthreads.HoareSlotsMonitor
import Xv6Kthreads.IdeRefinement
import Xv6Kthreads.LiveIds
import Xv6Kthreads.LogAdmission
import Xv6Kthreads.LogRecovery
import Xv6Kthreads.Memmove
import Xv6Kthreads.MesaSignals
import Xv6Kthreads.MesaSlotsMonitor
import Xv6Kthreads.MkfsKernel
import Xv6Kthreads.MpTable
import Xv6Kthreads.MutexAllocation
import Xv6Kthreads.MutexTable
import Xv6Kthreads.NoLostWakeup
import Xv6Kthreads.PagingRefinement
import Xv6Kthreads.PathStrings
import Xv6Kthreads.PipeSleepers
import Xv6Kthreads.ProcessFamily
import Xv6Kthreads.ProcessIds
import Xv6Kthreads.SpinlockSafety
import Xv6Kthreads.SystemCalls
import Xv6Kthreads.UserBuffers
import Xv6Kthreads.UserPages
