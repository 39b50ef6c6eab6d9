import Gofra.Peers

namespace Gofra.Settings

open Addr Ini Peers

structure Config where
  tunVip : UInt32
  tunPrefixLen : UInt8
  tunMtu : ℤ
  tunDev : Str
  peers : PeerTable
  self : Fin peers.peers.length
  udpRecvBuf : ℤ
  udpSendBuf : ℤ
  probeIntervalMs : UInt64
  probeTimeoutMs : UInt64
  statsIntervalSec : UInt64
  user : Option Str

/-- The cast `(int)` of a `u64`. -/
def toInt (v : UInt64) : ℤ := Int.bmod v.toNat (2 ^ 32)

def require (sec : Section) (key ctx : Str) : Except Error Str :=
  orRaise (sec.map.lookup key) (str "config: " ++ ctx ++ str "." ++ key ++ str " missing")

/-- An optional numeric setting, `dflt` where the section does not have it. -/
def setting {α : Type} (stl : Stl) (sec : Option Section) (key : Str) (cast : UInt64 → α) (dflt : α) :
    Except Error α :=
  match sec.bind fun sec ↦ sec.map.lookup key with
  | some v => return cast (← stl.stou v)
  | none => return dflt

structure Me where
  tunVip : UInt32
  tunPrefixLen : UInt8
  tunDev : Str
  tunMtu : ℤ
  user : Option Str

def loadMe (stl : Stl) (sec : Section) : Except Error Me := do
  let (tunVip, tunPrefixLen) ← parseCIDR stl (← require sec (str "vip") (str "me"))
  let tunMtu ← setting stl (some sec) (str "tun_mtu") toInt 1400
  return { tunVip, tunPrefixLen, tunMtu, tunDev := (sec.map.lookup (str "tun_dev")).getD (str "gofra0"),
           user := sec.map.lookup (str "user") }

def loadUdp (stl : Stl) (sec : Option Section) : Except Error (ℤ × ℤ) := do
  let udpRecvBuf ← setting stl sec (str "recv_buf") toInt (16 <<< 20)
  let udpSendBuf ← setting stl sec (str "send_buf") toInt (16 <<< 20)
  return (udpRecvBuf, udpSendBuf)

def loadProbe (stl : Stl) (sec : Option Section) : Except Error (UInt64 × UInt64 × UInt64) := do
  let probeIntervalMs ← setting stl sec (str "interval_ms") id 200
  let probeTimeoutMs ← setting stl sec (str "timeout_ms") id 1000
  let statsIntervalSec ← setting stl sec (str "stats_interval_s") id 10
  return (probeIntervalMs, probeTimeoutMs, statsIntervalSec)

def loadConfig (stl : Stl) (text : Str) : Except Error Config := do
  let ini ← parseConfig stl text
  let sec ← orRaise (ini.lookup (str "me")) (str "config: missing [me] section")
  let me ← loadMe stl sec
  if me.tunVip = 0 then .error (.raised (str "config: me.vip missing"))
  else do
    let peers ← PeerTable.create stl (ini.lookup (str "peers"))
    let self ← orRaise (peers.lookup me.tunVip) (str "config: my vip is not in [peers]")
    let (udpRecvBuf, udpSendBuf) ← loadUdp stl (ini.lookup (str "udp"))
    let (probeIntervalMs, probeTimeoutMs, statsIntervalSec) ← loadProbe stl (ini.lookup (str "probe"))
    return { me with peers, self, udpRecvBuf, udpSendBuf, probeIntervalMs, probeTimeoutMs, statsIntervalSec }

/-- Where the numbers of an accepted configuration come from. -/
structure Loaded (stl : Stl) (ini : Ini.Config) (me : Section) (cfg : Config) : Prop where
  cidr : ∃ vip, me.map.lookup (str "vip") = some vip ∧ parseCIDR stl vip = .ok (cfg.tunVip, cfg.tunPrefixLen)
  tunMtu : setting stl (some me) (str "tun_mtu") toInt 1400 = .ok cfg.tunMtu
  udpRecvBuf : setting stl (ini.lookup (str "udp")) (str "recv_buf") toInt (16 <<< 20) = .ok cfg.udpRecvBuf
  udpSendBuf : setting stl (ini.lookup (str "udp")) (str "send_buf") toInt (16 <<< 20) = .ok cfg.udpSendBuf
  probeIntervalMs : setting stl (ini.lookup (str "probe")) (str "interval_ms") id 200 =
    .ok cfg.probeIntervalMs
  probeTimeoutMs : setting stl (ini.lookup (str "probe")) (str "timeout_ms") id 1000 =
    .ok cfg.probeTimeoutMs
  statsIntervalSec : setting stl (ini.lookup (str "probe")) (str "stats_interval_s") id 10 =
    .ok cfg.statsIntervalSec

theorem loadConfig_loaded {stl : Stl} {text : Str} {cfg : Config} (h : loadConfig stl text = .ok cfg) :
    ∃ ini me, parseConfig stl text = .ok ini ∧ ini.lookup (str "me") = some me ∧ Loaded stl ini me cfg := by
  obtain ⟨ini, hini, h⟩ := bind_eq_ok h
  obtain ⟨sec, hsec, h⟩ := bind_eq_ok h
  obtain ⟨me, hme, h⟩ := bind_eq_ok h
  obtain ⟨vip, hvip, hme⟩ := bind_eq_ok hme
  obtain ⟨cidr, hcidr, hme⟩ := bind_eq_ok hme
  obtain ⟨tunMtu, hmtu, hme⟩ := bind_eq_ok hme
  cases hme
  split at h
  · cases h
  · obtain ⟨peers, -, h⟩ := bind_eq_ok h
    obtain ⟨self, -, h⟩ := bind_eq_ok h
    obtain ⟨udp, hudp, h⟩ := bind_eq_ok h
    obtain ⟨recvBuf, hrecv, hudp⟩ := bind_eq_ok hudp
    obtain ⟨sendBuf, hsend, hudp⟩ := bind_eq_ok hudp
    cases hudp
    obtain ⟨probe, hprobe, h⟩ := bind_eq_ok h
    obtain ⟨interval, hinterval, hprobe⟩ := bind_eq_ok hprobe
    obtain ⟨timeout, htimeout, hprobe⟩ := bind_eq_ok hprobe
    obtain ⟨stats, hstats, hprobe⟩ := bind_eq_ok hprobe
    cases hprobe
    cases h
    exact ⟨ini, sec, hini, orRaise_eq_ok hsec, ⟨vip, orRaise_eq_ok hvip, hcidr⟩, hmtu, hrecv, hsend,
      hinterval, htimeout, hstats⟩

theorem setting_eq_ok {α : Type} {stl : Stl} {sec : Option Section} {key : Str} {cast : UInt64 → α}
    {dflt x : α} (h : setting stl sec key cast dflt = .ok x) :
    x = ((sec.bind fun sec ↦ sec.map.lookup key).bind fun v ↦ (stl.stou v).toOption.map cast).getD dflt := by
  rw [setting] at h
  cases hv : sec.bind fun sec ↦ sec.map.lookup key with
  | none =>
    simp only [hv] at h
    cases h
    rfl
  | some v =>
    simp only [hv] at h
    obtain ⟨n, hn, h⟩ := bind_eq_ok h
    cases h
    rw [Option.bind_some, hn]
    rfl

end Gofra.Settings
