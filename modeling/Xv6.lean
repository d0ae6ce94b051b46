import Xv6.Console.Runs
import Xv6.Log.Crash
import Xv6.Mkfs.Boot
import Xv6.Pipe.Wakeup
import Xv6.Proc.Kill
import Xv6.Proc.Start
import Xv6.Sh.Redirections
import Xv6.Sync.SleepLocks
import Xv6.Sys.Read
import Xv6.Sys.SharedWrite
import Xv6.User.Less
import Xv6.User.Requests
import Xv6.User.TruncateSize
import Xv6.User.Vim
import Xv6.Vm.Fork
