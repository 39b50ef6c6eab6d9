import Gofra.Addr
import Gofra.Lib.Calls

namespace Gofra.Kernel

open Lib.Calls Addr

/-- A thrown exception: `Errno(code).raise(what)`, one of the configuration, or
one that a library throws by itself. -/
inductive Exc where
  | errno (code : ℤ) (what : Str)
  | error (e : Error)
  | library (description : Str)
  deriving DecidableEq

/-- Why a program stops early. -/
inductive Stop where
  | exit (code : ℕ)
  | thrown (e : Exc)
  deriving DecidableEq

inductive SockOpt where
  | bindToDevice (name : Str)
  | rcvBufForce (sz : ℤ)
  | sndBufForce (sz : ℤ)
  | reuseAddr (yes : ℤ)
  | udpGro (yes : ℤ)
  deriving DecidableEq

inductive TunIoctl where
  | setIff (name : Str) (flags : UInt16)
  | setVnetHdrSz (hdrSize : ℤ)
  | setOffload (off : UInt64)
  deriving DecidableEq

/-- What a netlink message says after its header. -/
inductive NlBody where
  | ifinfo (family : UInt8) (index : ℤ) (flags change : UInt32)
  | ifaddr (family prefixLen flags scope : UInt8) (index : UInt32)
  deriving DecidableEq

structure NlMsg where
  type : UInt16
  flags : UInt16
  seq : UInt32
  body : NlBody
  attrs : List (UInt16 × UInt32)
  deriving DecidableEq

/-- What a thread runs; all of them have the table of connections besides. -/
inductive Runnable where
  | tunReader (tunFd : ℤ)
  | udpReader (srcFd tunFd : ℤ) (srcIdx : UInt32)
  | prober (intervalMs : UInt64)
  | slotsStats (timeoutMs intervalSec : UInt64)
  deriving DecidableEq

/-- The calls that return a negative number when they have failed. -/
inductive Op where
  | socket (family : ℤ)
  | openTun
  | setsockopt (fd : ℤ) (opt : SockOpt)
  | bind (fd : ℤ) (addr : SockAddr)
  | tunIoctl (fd : ℤ) (req : TunIoctl)
  | mnlBind (nl : ℕ)
  | mnlSendto (nl : ℕ) (msg : NlMsg)
  | mnlCbRun (rbuf : Str) (seq portId : UInt32)
  deriving DecidableEq

/-- The calls that return zero unless they have failed. -/
inductive CredOp where
  | setgroups (size : ℕ)
  | setresgid (gid : UInt32)
  | setresuid (uid : UInt32)
  deriving DecidableEq

/-- The calls to the system and to the libraries around it; `own` hands a
descriptor over to the pool, and with `release` the pool closes it. -/
inductive Call where
  | op (o : Op)
  | cred (o : CredOp)
  | usage
  | ignoreSigPipe
  | readFile (path : Str)
  | own (fd : ℤ)
  | release (fd : ℤ)
  | close (fd : ℤ)
  | getifaddrs
  | getnameinfo (addr : SockAddr)
  | ifIndex (fd : ℤ) (name : Str)
  | mnlOpen
  | mnlClose (nl : ℕ)
  | mnlPortid (nl : ℕ)
  | mnlRecvfrom (nl : ℕ)
  | nowMs
  | getpwnam (user : Str)
  | banner (tunDev : Str) (tunMtu queues peers : UInt64)
  | spawn (r : Runnable)
  | join (i : ℕ)
  | report (e : Exc)
  deriving DecidableEq

/-- What a call returns, and what it leaves in `errno`. -/
structure Ret where
  ret : ℤ
  errno : ℤ

structure IfAddr where
  name : Str
  /-- `none` for a null address, or one that is not `AF_INET`. -/
  addr : Option SockAddr

structure NameInfo where
  host : Str
  serv : Str
  errno : ℤ

structure Passwd where
  uid : UInt32
  gid : UInt32
  deriving DecidableEq

abbrev Answer : Call → Type
  | .op _ | .cred _ => Ret
  | .readFile _ => Except Exc Str
  | .getifaddrs => Ret × List IfAddr
  | .getnameinfo _ => NameInfo
  | .ifIndex .. => Ret × ℤ
  | .mnlOpen => Except ℤ ℕ
  | .mnlPortid _ => UInt32
  | .mnlRecvfrom _ => Ret × Str
  | .nowMs => UInt64
  | .getpwnam _ => Option Passwd
  | .spawn _ => Except Exc Unit
  | .usage | .ignoreSigPipe | .own _ | .release _ | .close _ | .mnlClose _ | .banner .. | .join _ | .report _ => Unit

abbrev Sys (α : Type) : Type := Prog Call Answer Stop α

abbrev Event : Type := Lib.Calls.Event Answer

abbrev call (c : Call) : Sys (Answer c) := perform c

def raise {α : Type} (code : ℤ) (what : Str) : Sys α := .fail (.thrown (.errno code what))

/-- `if (... < 0) { Errno().raise(what); }` -/
def check (r : Ret) (what : Str) : Sys ℤ := if r.ret < 0 then raise r.errno what else pure r.ret

def attempt (o : Op) (what : Str) : Sys ℤ := do
  check (← call (.op o)) what

/-- `if (... != 0) { Errno().raise(what); }` -/
def checkZero (r : Ret) (what : Str) : Sys Unit := if r.ret ≠ 0 then raise r.errno what else pure ()

def orThrow {α : Type} : Except Exc α → Sys α
  | .ok a => pure a
  | .error e => .fail (.thrown e)

/-- The text that a `const char*` has as a C string. -/
def cStr (s : Str) : Str := s.takeWhile (· ≠ 0)

section Rules

variable {α σ : Type} {m : Monitor Answer σ} {Q : α → σ → Prop} {X : Stop → σ → Prop} {s : σ}

theorem wp_check {r : Ret} {what : Str} {Q : ℤ → σ → Prop} : wp m (check r what) Q X s ↔
    if r.ret < 0 then X (.thrown (.errno r.errno what)) s else Q r.ret s := by
  rw [check]
  split <;> rfl

theorem wp_attempt {o : Op} {what : Str} {Q : ℤ → σ → Prop} : wp m (attempt o what) Q X s ↔
    ∀ r : Ret, m.assumes s ⟨.op o, r⟩ → m.asks s ⟨.op o, r⟩ ∧
      if r.ret < 0 then X (.thrown (.errno r.errno what)) (m.next s ⟨.op o, r⟩)
      else Q r.ret (m.next s ⟨.op o, r⟩) := by
  rw [attempt, wp_bind, call, wp_perform]
  exact forall_congr' fun r ↦ imp_congr_right fun _ ↦ and_congr_right fun _ ↦ wp_check

theorem wp_checkZero {r : Ret} {what : Str} {Q : Unit → σ → Prop} : wp m (checkZero r what) Q X s ↔
    if r.ret ≠ 0 then X (.thrown (.errno r.errno what)) s else Q () s := by
  rw [checkZero]
  split <;> rfl

end Rules

section Done

variable {α : Type} {a : α} {tr : List Event}

theorem call_done {c : Call} {f : Answer c → Sys α} (h : Runs (call c >>= f) tr (.done a)) :
    ∃ (r : Answer c) (tr' : List Event), tr = ⟨c, r⟩ :: tr' ∧ Runs (f r) tr' (.done a) := by
  cases h with
  | @call _ _ tr _ r h => exact ⟨r, tr, rfl, h⟩

theorem checkZero_done {r : Ret} {what : Str} {f : Unit → Sys α} (h : Runs (checkZero r what >>= f) tr (.done a)) :
    r.ret = 0 ∧ Runs (f ()) tr (.done a) := by
  rw [checkZero] at h
  split at h
  · cases h
  · rename_i hr
    exact ⟨not_not.mp hr, h⟩

end Done

end Gofra.Kernel
