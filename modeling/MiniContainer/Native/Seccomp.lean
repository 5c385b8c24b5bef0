import MiniContainer.Native.Types

/-!
# The system call filter

`install_seccomp` of `linux/security.c`: the rules that are handed to `libseccomp` for a
deny list, and the action that the loaded filter takes on a call.

`libseccomp` itself is a parameter: which names it knows, which rules it takes, whether the
filter can be loaded. A rule compares arguments as 64-bit numbers, as the kernel's filter
sees them.
-/

namespace MiniContainer.Seccomp

open CString (Text)

/-! ## Rules -/

/-- The actions that the source uses: `SCMP_ACT_ALLOW`, and `SCMP_ACT_ERRNO` with `EPERM` and
    with `ENOSYS`. -/
inductive FilterAction where
  | allow
  | eperm
  | enosys
  deriving DecidableEq, Repr

/-- The arguments of a system call. -/
abbrev Arguments := Fin 6 → UInt64

instance instNeZeroSix : NeZero 6 := ⟨by decide⟩

/-- `SCMP_CMP_EQ` and `SCMP_CMP_MASKED_EQ`. -/
inductive Comparison where
  | eq (datum : UInt64)
  | maskedEq (mask datum : UInt64)
  deriving DecidableEq, Repr

def Comparison.holds : Comparison → UInt64 → Bool
  | .eq datum, value => value == datum
  | .maskedEq mask datum, value => value &&& mask == datum

/-- A rule of `seccomp_rule_add`: its comparisons are joined by "and". -/
structure Rule where
  action : FilterAction
  number : Int
  comparisons : List (Fin 6 × Comparison) := []
  deriving DecidableEq, Repr

def Rule.applies (rule : Rule) (number : Int) (arguments : Arguments) : Bool :=
  rule.number == number &&
    rule.comparisons.all fun (index, comparison) => comparison.holds (arguments index)

/-- The rules of a filter in the order in which they were added. -/
abbrev Filter := List Rule

/-- What the loaded filter does with a call. A call that no rule applies to gets the action
    that `seccomp_init` was given. -/
def Filter.action (filter : Filter) (number : Int) (arguments : Arguments) : FilterAction :=
  match filter.find? (·.applies number arguments) with
  | some rule => rule.action
  | none => .eperm

def Filter.allows (filter : Filter) (number : Int) (arguments : Arguments) : Prop :=
  filter.action number arguments = .allow

instance (filter : Filter) (number : Int) (arguments : Arguments) :
    Decidable (filter.allows number arguments) :=
  inferInstanceAs (Decidable (_ = _))

/-! ## The library -/

/-- `libseccomp`. The numbers of the calls that the source names with `SCMP_SYS` are the
    ones the names resolve to, and no two names that it knows have one number. -/
structure Library where
  /-- `seccomp_syscall_resolve_name`. -/
  resolve : Text → Option Int
  clone3 : Int
  clone : Int
  socket : Int
  /-- `seccomp_rule_add` takes the rule. -/
  takes : Filter → Rule → Bool
  /-- `seccomp_attr_set` and `seccomp_load` succeed. -/
  loads : Filter → Bool
  resolve_clone3 : resolve "clone3".toList = some clone3
  resolve_clone : resolve "clone".toList = some clone
  resolve_socket : resolve "socket".toList = some socket
  resolve_inj : ∀ {a b number}, resolve a = some number → resolve b = some number → a = b

/-- `seccomp_rule_add`. -/
def Library.ruleAdd (lib : Library) (filter : Filter) (rule : Rule) : Option Filter :=
  if lib.takes filter rule then some (filter ++ [rule]) else none

/-- `allow_syscall`. A name that the library does not know is passed over. -/
def Library.allowSyscall (lib : Library) (filter : Filter) (name : Text) : Option Filter :=
  match lib.resolve name with
  | none => some filter
  | some number => lib.ruleAdd filter { action := .allow, number }

/-! ## The policy -/

/-- The table of `install_seccomp`. -/
def allowedNames : List String :=
  ["accept", "accept4", "access", "arch_prctl", "bind", "brk", "capget", "capset",
    "chdir", "chroot", "clock_getres", "clock_gettime", "clock_nanosleep", "close",
    "close_range", "connect", "copy_file_range", "dup", "dup2", "dup3", "epoll_create",
    "epoll_create1", "epoll_ctl", "epoll_pwait", "epoll_pwait2", "epoll_wait", "eventfd",
    "eventfd2", "execve", "execveat", "exit", "exit_group", "faccessat", "faccessat2",
    "fadvise64", "fallocate", "fchdir", "fchmod", "fchmodat", "fchown", "fchownat",
    "fcntl", "fdatasync", "flock", "fork", "fstat", "fstatfs", "fsync", "ftruncate",
    "futex", "futex_waitv", "getcwd", "getdents64", "getegid", "geteuid", "getgid",
    "getgroups", "getitimer", "getpeername", "getpgid", "getpgrp", "getpid", "getppid",
    "getpriority", "getrandom", "getresgid", "getresuid", "getrlimit", "getrusage",
    "getsid", "getsockname", "getsockopt", "gettid", "gettimeofday", "getuid", "ioctl",
    "kill", "lgetxattr", "link", "linkat", "listen", "lseek", "lstat", "madvise",
    "memfd_create", "mmap", "mprotect", "mremap", "msync", "munmap", "nanosleep",
    "newfstatat", "open", "openat", "openat2", "pause", "pipe", "pipe2", "poll",
    "ppoll", "prctl", "pread64", "preadv", "preadv2", "prlimit64", "pselect6",
    "pwrite64", "pwritev", "pwritev2", "read", "readlink", "readlinkat", "readv",
    "recvfrom", "recvmmsg", "recvmsg", "rename", "renameat", "renameat2", "restart_syscall",
    "rseq", "rt_sigaction", "rt_sigpending", "rt_sigprocmask", "rt_sigqueueinfo",
    "rt_sigreturn", "rt_sigsuspend", "rt_sigtimedwait", "sched_getaffinity", "sched_yield",
    "sendfile", "sendmmsg", "sendmsg", "sendto", "set_robust_list", "set_tid_address",
    "setgid", "setgroups", "setitimer", "setpgid", "setpriority", "setregid", "setresgid",
    "setresuid", "setreuid", "setrlimit", "setsid", "setsockopt", "setuid", "shutdown",
    "sigaltstack", "signalfd", "signalfd4", "stat", "statfs", "statx", "symlink",
    "symlinkat", "sync", "syncfs", "sysinfo", "tgkill", "time", "timer_create",
    "timer_delete", "timer_gettime", "timer_settime", "timerfd_create", "timerfd_gettime",
    "timerfd_settime", "times", "tkill", "truncate", "umask", "uname", "unlink",
    "unlinkat", "utime", "utimensat", "utimes", "vfork", "wait4", "waitid", "write",
    "writev"]

def allowed : List Text := allowedNames.map String.toList

/-- `CLONE_NEWCGROUP`, `CLONE_NEWIPC`, `CLONE_NEWNET`, `CLONE_NEWNS`, `CLONE_NEWPID`,
    `CLONE_NEWTIME`, `CLONE_NEWUSER` and `CLONE_NEWUTS`. -/
def namespaceFlags : List UInt64 :=
  [0x02000000, 0x08000000, 0x40000000, 0x00020000, 0x20000000, 0x00000080, 0x10000000, 0x04000000]

/-- `forbidden_clone`. -/
def forbiddenClone : UInt64 := namespaceFlags.foldl (· ||| ·) 0

def clone3Rule (lib : Library) : Rule := { action := .enosys, number := lib.clone3 }

def cloneRule (lib : Library) : Rule where
  action := .allow
  number := lib.clone
  comparisons := [(0, .maskedEq forbiddenClone 0)]

/-- The families of `socket` for which two types are allowed: `AF_UNIX`, `AF_INET` and
    `AF_INET6`. -/
def families : List UInt64 := [1, 2, 10]

/-- The rule for a family and one of the two types. -/
def typedSocketRule (lib : Library) (family type : UInt64) : Rule where
  action := .allow
  number := lib.socket
  comparisons := [(0, .eq family), (1, .maskedEq 3 type)]

/-- The rule for `AF_NETLINK`. -/
def netlinkRule (lib : Library) : Rule where
  action := .allow
  number := lib.socket
  comparisons := [(0, .eq 16), (1, .maskedEq 15 3), (2, .eq 0)]

def socketRules (lib : Library) : List Rule :=
  families.flatMap (fun family => [typedSocketRule lib family 1, typedSocketRule lib family 2]) ++
    [netlinkRule lib]

/-! ## Installing -/

/-- `denied_by_profile`. -/
def deniedByProfile (name : Text) (denies : List Text) : Bool := denies.contains name

/-- The loop over the table. -/
def allowNames (lib : Library) (denies : List Text) : List Text → Filter → Option Filter
  | [], filter => some filter
  | name :: names, filter =>
    if deniedByProfile name denies then allowNames lib denies names filter
    else (lib.allowSyscall filter name).bind (allowNames lib denies names)

/-- The rules of a call that is not in the table, unless the profile denies it. -/
def addUnlessDenied (lib : Library) (denies : List Text) (name : Text) (rules : List Rule)
    (filter : Filter) : Option Filter :=
  if deniedByProfile name denies then some filter else rules.foldlM lib.ruleAdd filter

/-- `install_seccomp`: the filter that is loaded, or `none` where it returns -1. -/
def installSeccomp (lib : Library) (denies : List Text) : Option Filter := do
  let filter ← allowNames lib denies allowed []
  let filter ← addUnlessDenied lib denies "clone3".toList [clone3Rule lib] filter
  let filter ← addUnlessDenied lib denies "clone".toList [cloneRule lib] filter
  let filter ← addUnlessDenied lib denies "socket".toList (socketRules lib) filter
  if lib.loads filter then some filter else none

end MiniContainer.Seccomp
