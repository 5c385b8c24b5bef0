import MiniContainer.Spec.NftRedirect
import MiniContainer.Spec.Network
import MiniContainer.Spec.Reboot
import MiniContainer.Spec.Resolve
import MiniContainer.Spec.Deadlock
import MiniContainer.Spec.ImageNames
import MiniContainer.Spec.LogRotation
import MiniContainer.Spec.Setup
import MiniContainer.Spec.Exec
import MiniContainer.Spec.Mounts
import MiniContainer.Spec.AtomicErrors
import MiniContainer.Spec.Signals
import MiniContainer.Spec.Supervise
import MiniContainer.Spec.Control
import MiniContainer.Spec.Print
import MiniContainer.Spec.ProcStat
import MiniContainer.Spec.Stats
import MiniContainer.Spec.Resource
import MiniContainer.Spec.Cgroup
import MiniContainer.Spec.ArchiveEntry
import MiniContainer.Spec.Netlink
import MiniContainer.Spec.Recognisers
import MiniContainer.Spec.ArgumentArray
import MiniContainer.Spec.LogTail
import MiniContainer.Spec.Subid
import MiniContainer.Spec.Security
