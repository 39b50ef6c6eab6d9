import Gofra.NumericText
import Gofra.Startup

namespace Gofra.LinkSetup

open Lib.Calls Addr Kernel Socks Tun

/-- The requests for an interface, in order. -/
def requests (idx mtu : ℤ) (vip : UInt32) (prefixLen : UInt8) : List NlMsg :=
  [mtuMsg 1 idx mtu, addrMsg 2 idx vip prefixLen, upMsg 3 idx]

/-- What a run has learnt and done: the index of the interface, the requests that
it has sent and the sequence numbers that have been acknowledged. -/
structure Link where
  idx : Option ℤ
  sent : List NlMsg
  acked : List UInt32

def Link.next (s : Link) : Event → Link
  | ⟨.ifIndex .., r⟩ => { s with idx := some r.2 }
  | ⟨.op (.mnlSendto _ msg), _⟩ => { s with sent := s.sent ++ [msg] }
  | ⟨.op (.mnlCbRun _ seq _), r⟩ => if r.ret < 0 then s else { s with acked := s.acked ++ [seq] }
  | _ => s

/-- A request is sent in its turn, for the interface `dev`, and only when all before
it are acknowledged. -/
def Link.InTurn (dev : Str) (mtu : ℤ) (vip : UInt32) (prefixLen : UInt8) (s : Link) : Event → Prop
  | ⟨.ifIndex _ name, _⟩ => name = cStr dev
  | ⟨.op (.mnlSendto _ msg), _⟩ => ∃ idx, s.idx = some idx ∧ s.acked = s.sent.map NlMsg.seq ∧
      s.sent ++ [msg] <+: requests idx mtu vip prefixLen
  | _ => True

def monitor (dev : Str) (mtu : ℤ) (vip : UInt32) (prefixLen : UInt8) : Monitor Answer Link where
  next := Link.next
  assumes _ _ := True
  asks := Link.InTurn dev mtu vip prefixLen

section Rules

variable {dev : Str} {mtu : ℤ} {vip : UInt32} {prefixLen : UInt8} {s : Link}

theorem attempt_wp {o : Op} {what : Str} {Q : ℤ → Link → Prop} (hask : ∀ r, s.InTurn dev mtu vip prefixLen ⟨.op o, r⟩)
    (h : ∀ r : Ret, 0 ≤ r.ret → Q r.ret (s.next ⟨.op o, r⟩)) :
    wp (monitor dev mtu vip prefixLen) (attempt o what) Q (fun _ _ ↦ True) s := by
  refine wp_attempt.mpr fun r _ ↦ ⟨hask r, ?_⟩
  split
  · trivial
  · rename_i hr
    exact h r (Int.not_lt.mp hr)

theorem run_wp {n : Netlink} {nh : NlMsg} {what : Str}
    (hask : ∃ idx, s.idx = some idx ∧ s.acked = s.sent.map NlMsg.seq ∧
      s.sent ++ [nh] <+: requests idx mtu vip prefixLen) :
    wp (monitor dev mtu vip prefixLen) (n.run nh what)
      (fun _ s' ↦ s' = ⟨s.idx, s.sent ++ [nh], s.acked ++ [nh.seq]⟩) (fun _ _ ↦ True) s := by
  refine wp_bind.mpr (attempt_wp (fun _ ↦ hask) fun r _ ↦ ?_)
  refine wp_bind.mpr fun ⟨r, rbuf⟩ _ ↦ ⟨trivial, wp_bind.mpr (wp_check.mpr ?_)⟩
  split
  · trivial
  · refine wp_bind.mpr (attempt_wp (fun _ ↦ trivial) fun r hr ↦ ?_)
    change (if r.ret < 0 then _ else _) = _
    rw [if_neg (Int.not_lt.mpr hr)]
    rfl

end Rules

/-- `brd` is the last address of the subnet of `vip`. -/
def LastOfSubnet (vip : UInt32) (prefixLen : UInt8) (brd : UInt32) : Prop :=
  brd.toNat / 2 ^ (32 - prefixLen.toNat) = vip.toNat / 2 ^ (32 - prefixLen.toNat) ∧
    brd.toNat % 2 ^ (32 - prefixLen.toNat) = 2 ^ (32 - prefixLen.toNat) - 1

/-- What a run of `configureTun` keeps to, at any moment. -/
structure InOrder (dev : Str) (mtu : ℤ) (vip : UInt32) (prefixLen : UInt8) (tr : List Event)
    (o : Outcome Stop Unit) : Prop where
  turn : ∀ pre e post, tr = pre ++ e :: post →
    Link.InTurn dev mtu vip prefixLen (pre.foldl Link.next ⟨none, [], []⟩) e
  broadcast : ∀ nl msg r, ⟨.op (.mnlSendto nl msg), r⟩ ∈ tr → msg.type = rtmNewAddr → ∀ v,
    (ifaBroadcast, v) ∈ msg.attrs → prefixLen < 32 ∧ LastOfSubnet vip prefixLen (ntohl v)
  complete : o = .done () → (tr.foldl Link.next ⟨none, [], []⟩).acked = [1, 2, 3]

end Gofra.LinkSetup
