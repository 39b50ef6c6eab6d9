import Gofra.NumericSettings
import Gofra.PeersText

namespace Gofra.ConfigText

open Lib.Trim Addr Ini Peers IniText NumericText VipTable PeersText Settings NumericSettings

/-- A configuration as its author means it; what is `none` is left to the default. -/
structure Meaning where
  vip : UInt32
  prefixLen : Option UInt8
  tunDev : Option Str
  tunMtu : Option ℕ
  user : Option Str
  entries : List Entry
  recvBuf : Option ℕ
  sendBuf : Option ℕ
  intervalMs : Option ℕ
  timeoutMs : Option ℕ
  statsIntervalSec : Option ℕ

/-- What has a meaning for `loadConfig`: the numbers fit, and the host is one of the peers. -/
structure Meaning.Valid (m : Meaning) : Prop where
  vip : m.vip ≠ 0
  mine : m.vip ∈ m.entries.map Entry.vip
  vips : (m.entries.map Entry.vip).Nodup
  tunMtu : ∀ n ∈ m.tunMtu, n < 2 ^ 31
  recvBuf : ∀ n ∈ m.recvBuf, n < 2 ^ 31
  sendBuf : ∀ n ∈ m.sendBuf, n < 2 ^ 31
  intervalMs : ∀ n ∈ m.intervalMs, n < 2 ^ 64
  timeoutMs : ∀ n ∈ m.timeoutMs, n < 2 ^ 64
  statsIntervalSec : ∀ n ∈ m.statsIntervalSec, n < 2 ^ 64

def cidr (vip : UInt32) : Option UInt8 → Str
  | none => dotted vip
  | some n => dotted vip ++ 47 :: decimal n.toNat

/-- The rows of a section give `key` this value, or leave it out. -/
def Gives (rows : List (Str × Str)) (key : Str) : Option Str → Prop
  | none => key ∉ rows.map Prod.fst
  | some val => (key, val) ∈ rows

structure MeRows (m : Meaning) (rows : List (Str × Str)) : Prop where
  nodup : (rows.map Prod.fst).Nodup
  vip : Gives rows (str "vip") (cidr m.vip m.prefixLen)
  tunDev : Gives rows (str "tun_dev") m.tunDev
  tunMtu : Gives rows (str "tun_mtu") (m.tunMtu.map decimal)
  user : Gives rows (str "user") m.user

structure UdpRows (m : Meaning) (rows : List (Str × Str)) : Prop where
  nodup : (rows.map Prod.fst).Nodup
  recvBuf : Gives rows (str "recv_buf") (m.recvBuf.map decimal)
  sendBuf : Gives rows (str "send_buf") (m.sendBuf.map decimal)

structure ProbeRows (m : Meaning) (rows : List (Str × Str)) : Prop where
  nodup : (rows.map Prod.fst).Nodup
  intervalMs : Gives rows (str "interval_ms") (m.intervalMs.map decimal)
  timeoutMs : Gives rows (str "timeout_ms") (m.timeoutMs.map decimal)
  statsIntervalSec : Gives rows (str "stats_interval_s") (m.statsIntervalSec.map decimal)

/-- Lines that say what is meant, with any layout, comments, other settings and
other sections, and the sections in any order and in any number of parts. -/
structure Text (isSpace : UInt8 → Bool) (m : Meaning) (lines : List Str) : Prop where
  breaks : ∀ line ∈ lines, 10 ∉ line
  me : ∃ rows, Lines isSpace (str "me") false lines rows ∧ MeRows m rows
  peers : ∃ rows, Lines isSpace (str "peers") false lines rows ∧ List.Forall₂ (RowText isSpace) m.entries rows
  udp : ∃ rows, Lines isSpace (str "udp") false lines rows ∧ UdpRows m rows
  probe : ∃ rows, Lines isSpace (str "probe") false lines rows ∧ ProbeRows m rows

/-- The configuration that is meant. -/
structure Means (m : Meaning) (cfg : Settings.Config) : Prop where
  tunVip : cfg.tunVip = m.vip
  tunPrefixLen : cfg.tunPrefixLen = m.prefixLen.getD 32
  tunMtu : cfg.tunMtu = m.tunMtu.getD 1400
  tunDev : cfg.tunDev = m.tunDev.getD (str "gofra0")
  user : cfg.user = m.user
  peers : cfg.peers.peers = m.entries.map Entry.peer
  self : (cfg.peers.at cfg.self).vip = m.vip
  lookup : ∀ i : Fin cfg.peers.peers.length, cfg.peers.lookup (cfg.peers.at i).vip = some i
  udpRecvBuf : cfg.udpRecvBuf = m.recvBuf.getD (16 <<< 20)
  udpSendBuf : cfg.udpSendBuf = m.sendBuf.getD (16 <<< 20)
  probeIntervalMs : cfg.probeIntervalMs.toNat = m.intervalMs.getD 200
  probeTimeoutMs : cfg.probeTimeoutMs.toNat = m.timeoutMs.getD 1000
  statsIntervalSec : cfg.statsIntervalSec.toNat = m.statsIntervalSec.getD 10

theorem toUInt8_ofNat (n : UInt8) : (UInt64.ofNat n.toNat).toUInt8 = n := by
  have hlt : n.toNat < 2 ^ 64 := lt_trans n.toNat_lt (by decide)
  rw [← UInt8.toNat_inj, UInt64.toNat_toUInt8, UInt64.toNat_ofNat_of_lt' hlt, Nat.mod_eq_of_lt n.toNat_lt]

theorem toInt_ofNat {n : ℕ} (h : n < 2 ^ 31) : toInt (UInt64.ofNat n) = n := by
  have hlt : n < 2 ^ 64 := lt_trans h (by decide)
  have hnat : (UInt64.ofNat n).toNat = n := UInt64.toNat_ofNat_of_lt' hlt
  rw [(toInt_eq_iff _).mpr (by rwa [hnat]), hnat]

theorem lookup_of_gives {sec : Section} {key : Str} {val : Option Str} (h : Gives sec.rows key val) :
    sec.map.lookup key = val := by
  cases val with
  | none =>
    rw [Gives, Section.rows_keys, sec.mem_keys] at h
    exact AList.lookup_eq_none.mpr h
  | some val =>
    have hmem : (key, val) ∈ sec.rows := h
    rw [rows_eq, List.mem_map] at hmem
    obtain ⟨k, hk, he⟩ := hmem
    obtain ⟨rfl, rfl⟩ := Prod.mk.inj he
    obtain ⟨v, hv⟩ := Option.isSome_iff_exists.mp (AList.lookup_isSome.mpr ((sec.mem_keys k).mp hk))
    rw [hv, Option.getD_some]

/-- A section that is not there has no rows, and gives nothing. -/
theorem bind_lookup_of_gives {ini : Ini.Config} {name key : Str} {rows : List (Str × Str)}
    (hrows : (sectionOf ini name).rows = rows) {val : Option Str} (h : Gives rows key val) :
    ((ini.lookup name).bind fun sec ↦ sec.map.lookup key) = val := by
  subst hrows
  have hsec := lookup_of_gives h
  cases hl : ini.lookup name with
  | none =>
    rw [sectionOf, hl] at hsec
    exact hsec
  | some sec =>
    rw [sectionOf, hl] at hsec
    exact hsec

section

variable {stl : Stl} (std : Standard stl)

include std

theorem parseCIDR_cidr (vip : UInt32) (prefixLen : Option UInt8) :
    parseCIDR stl (cidr vip prefixLen) = .ok (vip, prefixLen.getD 32) := by
  have hslash : 47 ∉ dotted vip := not_mem_of_numeric (dotted_numeric vip) (.inr (.inl (by decide)))
  cases prefixLen with
  | none =>
    rw [cidr, parseCIDR, split_eq_none stl hslash]
    change (parseIPv4 stl (dotted vip) >>= fun addr ↦ .ok (addr, 32)) = _
    rw [parseIPv4_dotted std]
    rfl
  | some n =>
    have hn : n.toNat < 2 ^ 64 := lt_trans n.toNat_lt (by decide)
    rw [cidr, parseCIDR, split_eq stl hslash]
    change (parseIPv4 stl (dotted vip) >>= fun addr ↦ stl.stou (decimal n.toNat) >>= fun prefixLen ↦
      .ok (addr, prefixLen.toUInt8)) = _
    rw [parseIPv4_dotted std, std.stou _ hn]
    exact congrArg (fun n ↦ Except.ok (vip, n)) (toUInt8_ofNat n)

theorem setting_of_gives {α : Type} {sec : Option Section} {key : Str} {v : Option ℕ}
    (h : (sec.bind fun sec ↦ sec.map.lookup key) = v.map decimal) (hv : ∀ n ∈ v, n < 2 ^ 64) (cast : UInt64 → α)
    (dflt : α) : setting stl sec key cast dflt = .ok ((v.map fun n ↦ cast (UInt64.ofNat n)).getD dflt) := by
  rw [setting, h]
  cases v with
  | none => rfl
  | some n =>
    change (stl.stou (decimal n) >>= fun x ↦ .ok (cast x)) = _
    rw [std.stou n (hv n rfl)]
    rfl

theorem setting_toInt {sec : Option Section} {key : Str} {v : Option ℕ}
    (h : (sec.bind fun sec ↦ sec.map.lookup key) = v.map decimal) (hv : ∀ n ∈ v, n < 2 ^ 31) {d : ℤ} {dflt : ℕ}
    (hd : d = dflt) : setting stl sec key toInt d = .ok (v.getD dflt : ℕ) := by
  subst hd
  rw [setting_of_gives std h fun n hn ↦ lt_trans (hv n hn) (by decide)]
  cases v with
  | none => rfl
  | some n =>
    rw [Option.map_some, Option.getD_some, Option.getD_some, toInt_ofNat (hv n rfl)]

theorem setting_id {sec : Option Section} {key : Str} {v : Option ℕ}
    (h : (sec.bind fun sec ↦ sec.map.lookup key) = v.map decimal) (hv : ∀ n ∈ v, n < 2 ^ 64) (dflt : ℕ)
    (hd : dflt < 2 ^ 64) :
    ∃ x, setting stl sec key id (UInt64.ofNat dflt) = .ok x ∧ x.toNat = v.getD dflt := by
  refine ⟨_, setting_of_gives std h hv id _, ?_⟩
  cases v with
  | none => exact UInt64.toNat_ofNat_of_lt' hd
  | some n => exact UInt64.toNat_ofNat_of_lt' (hv n rfl)

end

section Load

variable {stl : Stl} (sp : Spaces stl) (std : Standard stl)

include std

theorem loadMe_text {m : Meaning} (hm : m.Valid) {sec : Section} (h : MeRows m sec.rows) :
    loadMe stl sec = .ok ⟨m.vip, m.prefixLen.getD 32, m.tunDev.getD (str "gofra0"), m.tunMtu.getD 1400, m.user⟩ := by
  have hvip : require sec (str "vip") (str "me") = .ok (cidr m.vip m.prefixLen) := by
    rw [require, lookup_of_gives h.vip]
    rfl
  have hmtu : setting stl (some sec) (str "tun_mtu") toInt 1400 = .ok (m.tunMtu.getD 1400 : ℕ) :=
    @setting_toInt stl std (some sec) _ _ (lookup_of_gives h.tunMtu) hm.tunMtu _ _ rfl
  rw [loadMe, hvip]
  change (parseCIDR stl (cidr m.vip m.prefixLen) >>= _) = _
  rw [parseCIDR_cidr std]
  change (setting stl (some sec) (str "tun_mtu") toInt 1400 >>= _) = _
  rw [hmtu, lookup_of_gives h.tunDev, lookup_of_gives h.user]
  rfl

theorem loadUdp_text {m : Meaning} (hm : m.Valid) {ini : Ini.Config} {rows : List (Str × Str)}
    (hrows : (sectionOf ini (str "udp")).rows = rows) (h : UdpRows m rows) :
    loadUdp stl (ini.lookup (str "udp")) =
      .ok ((m.recvBuf.getD (16 <<< 20) : ℕ), (m.sendBuf.getD (16 <<< 20) : ℕ)) := by
  have hrecv := setting_toInt std (bind_lookup_of_gives hrows h.recvBuf) hm.recvBuf
    (show (16 <<< 20 : ℤ) = (16 <<< 20 : ℕ) from rfl)
  have hsend := setting_toInt std (bind_lookup_of_gives hrows h.sendBuf) hm.sendBuf
    (show (16 <<< 20 : ℤ) = (16 <<< 20 : ℕ) from rfl)
  rw [loadUdp, hrecv]
  change (setting stl (ini.lookup (str "udp")) (str "send_buf") toInt (16 <<< 20) >>= _) = _
  rw [hsend]
  rfl

theorem loadProbe_text {m : Meaning} (hm : m.Valid) {ini : Ini.Config} {rows : List (Str × Str)}
    (hrows : (sectionOf ini (str "probe")).rows = rows) (h : ProbeRows m rows) :
    ∃ interval timeout stats, loadProbe stl (ini.lookup (str "probe")) = .ok (interval, timeout, stats) ∧
      interval.toNat = m.intervalMs.getD 200 ∧ timeout.toNat = m.timeoutMs.getD 1000 ∧
      stats.toNat = m.statsIntervalSec.getD 10 := by
  obtain ⟨interval, hi, hi'⟩ := setting_id std (bind_lookup_of_gives hrows h.intervalMs) hm.intervalMs 200 (by decide)
  obtain ⟨timeout, ht, ht'⟩ := setting_id std (bind_lookup_of_gives hrows h.timeoutMs) hm.timeoutMs 1000 (by decide)
  obtain ⟨stats, hs, hs'⟩ := setting_id std (bind_lookup_of_gives hrows h.statsIntervalSec) hm.statsIntervalSec 10
    (by decide)
  refine ⟨interval, timeout, stats, ?_, hi', ht', hs'⟩
  change setting stl (ini.lookup (str "probe")) (str "interval_ms") id 200 = _ at hi
  change setting stl (ini.lookup (str "probe")) (str "timeout_ms") id 1000 = _ at ht
  change setting stl (ini.lookup (str "probe")) (str "stats_interval_s") id 10 = _ at hs
  rw [loadProbe, hi]
  change (setting stl (ini.lookup (str "probe")) (str "timeout_ms") id 1000 >>= _) = _
  rw [ht]
  change (setting stl (ini.lookup (str "probe")) (str "stats_interval_s") id 10 >>= _) = _
  rw [hs]
  rfl

include sp

theorem create_text {entries : List Entry} (hne : entries ≠ []) {ini : Ini.Config} {rows : List (Str × Str)}
    (hsec : (sectionOf ini (str "peers")).rows = rows) (hrows : List.Forall₂ (RowText sp.isSpace) entries rows) :
    ∃ t, PeerTable.create stl (ini.lookup (str "peers")) = .ok t ∧ t.peers = entries.map Entry.peer := by
  obtain ⟨t, ht, hp⟩ := foldlM_addRow sp std hrows .empty
  refine ⟨t, ?_, hp⟩
  have hrowsne : rows ≠ [] := by
    rintro rfl
    cases hrows
    exact hne rfl
  cases hl : ini.lookup (str "peers") with
  | none =>
    rw [sectionOf, hl] at hsec
    exact absurd hsec.symm hrowsne
  | some sec =>
    rw [sectionOf, hl, Option.getD_some] at hsec
    have hkeys : sec.keys ≠ [] := by
      intro hnil
      have hmap := Section.rows_keys sec
      rw [hsec, hnil] at hmap
      exact hrowsne (List.map_eq_nil_iff.mp hmap)
    rw [PeerTable.create, Option.filter_some, if_pos (by simpa using hkeys)]
    change sec.rows.foldlM (PeerTable.addRow stl) .empty = _
    rw [hsec, ht]

omit sp std in
/-- A section that has a VIP is there. -/
theorem me_section {m : Meaning} {ini : Ini.Config} {rows : List (Str × Str)}
    (hrows : (sectionOf ini (str "me")).rows = rows) (hme : MeRows m rows) :
    ∃ sec, ini.lookup (str "me") = some sec ∧ MeRows m sec.rows := by
  have hvip := bind_lookup_of_gives hrows hme.vip
  cases hl : ini.lookup (str "me") with
  | none =>
    rw [hl] at hvip
    cases hvip
  | some sec =>
    rw [sectionOf, hl, Option.getD_some] at hrows
    exact ⟨sec, rfl, hrows ▸ hme⟩

omit sp std in
theorem self_of_mine {m : Meaning} (hm : m.Valid) {t : PeerTable} (ht : t.peers = m.entries.map Entry.peer) :
    ∃ self : Fin t.peers.length, (t.at self).vip = m.vip := by
  have hmine : m.vip ∈ t.peers.map Peer.vip := by
    rw [ht, List.map_map]
    exact hm.mine
  obtain ⟨p, hp, hvip⟩ := List.mem_map.mp hmine
  obtain ⟨k, hk, rfl⟩ := List.getElem_of_mem hp
  exact ⟨⟨k, hk⟩, hvip⟩

omit sp std in
/-- `loadConfig` from what its parts come to. -/
theorem loadConfig_of {text : Str} {ini : Ini.Config} (hini : parseConfig stl text = .ok ini) {sec : Section}
    (hsec : ini.lookup (str "me") = some sec) {me : Me} (hme : loadMe stl sec = .ok me) (hvip : me.tunVip ≠ 0)
    {t : PeerTable} (ht : PeerTable.create stl (ini.lookup (str "peers")) = .ok t) {self : Fin t.peers.length}
    (hself : t.lookup me.tunVip = some self) {recvBuf sendBuf : ℤ}
    (hudp : loadUdp stl (ini.lookup (str "udp")) = .ok (recvBuf, sendBuf)) {interval timeout stats : UInt64}
    (hprobe : loadProbe stl (ini.lookup (str "probe")) = .ok (interval, timeout, stats)) :
    loadConfig stl text = .ok ⟨me.tunVip, me.tunPrefixLen, me.tunMtu, me.tunDev, t, self, recvBuf, sendBuf, interval,
      timeout, stats, me.user⟩ := by
  rw [loadConfig, hini]
  change (orRaise (ini.lookup (str "me")) _ >>= _) = _
  rw [hsec]
  change (loadMe stl sec >>= _) = _
  rw [hme]
  change (if me.tunVip = 0 then _ else _) = _
  rw [if_neg hvip, ht]
  change (orRaise (t.lookup me.tunVip) _ >>= _) = _
  rw [hself]
  change (loadUdp stl (ini.lookup (str "udp")) >>= _) = _
  rw [hudp]
  change (loadProbe stl (ini.lookup (str "probe")) >>= _) = _
  rw [hprobe]
  rfl

/-- Whatever text a configuration is written as, it is read back. -/
theorem config_read_back {m : Meaning} (hm : m.Valid) {lines : List Str} (h : Text sp.isSpace m lines) :
    ∃ cfg, loadConfig stl ([10].intercalate lines) = .ok cfg ∧ Means m cfg := by
  obtain ⟨meRows, hmeLines, hme⟩ := h.me
  obtain ⟨peerRows, hpeerLines, hpeers⟩ := h.peers
  obtain ⟨udpRows, hudpLines, hudp⟩ := h.udp
  obtain ⟨probeRows, hprobeLines, hprobe⟩ := h.probe
  obtain ⟨ini, hini, hmeSec⟩ := parseConfig_rows sp (by decide) hmeLines h.breaks hme.nodup
  have hrowsOf {name : Str} (hname : name ≠ []) {rows : List (Str × Str)}
      (hlines : Lines sp.isSpace name false lines rows) (hnodup : (rows.map Prod.fst).Nodup) :
      (sectionOf ini name).rows = rows := by
    obtain ⟨ini', hini', hsec⟩ := parseConfig_rows sp hname hlines h.breaks hnodup
    obtain rfl := Except.ok.inj (hini.symm.trans hini')
    exact hsec
  have hne : m.entries ≠ [] := by
    intro hnil
    have hmine := hm.mine
    rw [hnil] at hmine
    cases hmine
  obtain ⟨sec, hsec, hmeRows⟩ := me_section hmeSec hme
  obtain ⟨t, ht, htpeers⟩ := create_text sp std hne
    (hrowsOf (by decide) hpeerLines (keys_nodup sp std hpeers hm.vips)) hpeers
  have hvips : (t.peers.map Peer.vip).Nodup := by
    rw [htpeers, List.map_map]
    exact hm.vips
  have hlookup := lookup_of_nodup hvips
  obtain ⟨self, hself⟩ := self_of_mine hm htpeers
  have hselfLookup : t.lookup m.vip = some self := hself ▸ hlookup self
  have hudpOk := loadUdp_text std hm (hrowsOf (by decide) hudpLines hudp.nodup) hudp
  obtain ⟨interval, timeout, stats, hprobeOk, hinterval, htimeout, hstats⟩ :=
    loadProbe_text std hm (hrowsOf (by decide) hprobeLines hprobe.nodup) hprobe
  have hload := loadConfig_of hini hsec (loadMe_text std hm hmeRows) hm.vip ht hselfLookup hudpOk hprobeOk
  exact ⟨_, hload, rfl, rfl, rfl, rfl, rfl, htpeers, hself, hlookup, rfl, rfl, hinterval, htimeout, hstats⟩

end Load

/-- The rows of the settings that have a value. -/
def rowsOf (settings : List (Str × Option Str)) : List (Str × Str) :=
  settings.filterMap fun s ↦ s.2.map fun val ↦ (s.1, val)

theorem rowsOf_keys (settings : List (Str × Option Str)) :
    ((rowsOf settings).map Prod.fst).Sublist (settings.map Prod.fst) := by
  induction settings with
  | nil => exact .slnil
  | cons s settings ih =>
    obtain ⟨key, val⟩ := s
    cases val with
    | none => exact ih.cons key
    | some val => exact ih.cons_cons key

theorem gives_rowsOf {settings : List (Str × Option Str)} (h : (settings.map Prod.fst).Nodup) {key : Str}
    {val : Option Str} (hmem : (key, val) ∈ settings) : Gives (rowsOf settings) key val := by
  cases val with
  | some val => exact List.mem_filterMap.mpr ⟨_, hmem, rfl⟩
  | none =>
    intro hkey
    obtain ⟨⟨key', val⟩, hrow, rfl⟩ := List.mem_map.mp hkey
    obtain ⟨⟨key'', val'⟩, hs, he⟩ := List.mem_filterMap.mp hrow
    obtain ⟨v, rfl, he⟩ := Option.map_eq_some_iff.mp he
    obtain ⟨rfl, rfl⟩ := Prod.mk.inj he
    have hsame := List.inj_on_of_nodup_map h hmem hs rfl
    cases hsame

def meSettings (m : Meaning) : List (Str × Option Str) :=
  [(str "vip", cidr m.vip m.prefixLen), (str "tun_dev", m.tunDev), (str "tun_mtu", m.tunMtu.map decimal),
    (str "user", m.user)]

def udpSettings (m : Meaning) : List (Str × Option Str) :=
  [(str "recv_buf", m.recvBuf.map decimal), (str "send_buf", m.sendBuf.map decimal)]

def probeSettings (m : Meaning) : List (Str × Option Str) :=
  [(str "interval_ms", m.intervalMs.map decimal), (str "timeout_ms", m.timeoutMs.map decimal),
    (str "stats_interval_s", m.statsIntervalSec.map decimal)]

def peerRow (e : Entry) : Str × Str := (dotted e.vip, [44].intercalate (e.endpoints.map endpoint))

/-- One way of writing sections and rows down. -/
def document (secs : List (Str × List (Str × Str))) : List Str :=
  secs.flatMap fun sec ↦ (91 :: (sec.1 ++ [93])) :: sec.2.map fun row ↦ row.1 ++ 61 :: row.2

def render (m : Meaning) : List Str :=
  document [(str "me", rowsOf (meSettings m)), (str "peers", m.entries.map peerRow),
    (str "udp", rowsOf (udpSettings m)), (str "probe", rowsOf (probeSettings m))]

/-- A row that keeps its meaning when it is written down as it is. -/
structure Writable (isSpace : UInt8 → Bool) (row : Str × Str) : Prop where
  key : ∃ c key, row.1 = c :: key ∧ c ∉ [35, 59, 91]
  clean : Clean isSpace row.1
  equation : 61 ∉ row.1
  val : Clean isSpace row.2
  breaks : 10 ∉ row.1 ∧ 10 ∉ row.2

section Document

variable {isSpace : UInt8 → Bool} {name : Str} {lines : List Str} {rows rows' : List (Str × Str)}

theorem lines_inside (hrows : ∀ row ∈ rows, Writable isSpace row) (h : Lines isSpace name true lines rows') :
    Lines isSpace name true ((rows.map fun row ↦ row.1 ++ 61 :: row.2) ++ lines) (rows ++ rows') := by
  induction rows with
  | nil => exact h
  | cons row rows ih =>
    obtain ⟨hrow, hrest⟩ := List.forall_mem_cons.mp hrows
    obtain ⟨key, val⟩ := row
    obtain ⟨⟨c, key, rfl, hc⟩, hclean, heq, hval⟩ := hrow
    have hline := @Lines.row isSpace name [] key [] [] val [] c _ _ nofun nofun nofun nofun hc hclean heq hval
      (ih hrest)
    rw [List.nil_append, List.append_nil, List.nil_append, List.append_nil] at hline
    exact hline

theorem lines_outside (hrows : ∀ row ∈ rows, Writable isSpace row) (h : Lines isSpace name false lines rows') :
    Lines isSpace name false ((rows.map fun row ↦ row.1 ++ 61 :: row.2) ++ lines) rows' := by
  induction rows with
  | nil => exact h
  | cons row rows ih =>
    obtain ⟨hrow, hrest⟩ := List.forall_mem_cons.mp hrows
    obtain ⟨key, val⟩ := row
    obtain ⟨⟨c, key, rfl, hc⟩, hclean, heq, hval⟩ := hrow
    have hmem : 61 ∈ c :: (key ++ 61 :: val) := by simp
    exact @Lines.foreign isSpace name [] (key ++ 61 :: val) c _ _ nofun (hclean.head c rfl) hc hmem (ih hrest)

theorem document_lines {secs : List (Str × List (Str × Str))}
    (hsecs : ∀ sec ∈ secs, Clean isSpace sec.1 ∧ ∀ row ∈ sec.2, Writable isSpace row) (name : Str) (inside : Bool) :
    Lines isSpace name inside (document secs) (secs.flatMap fun sec ↦ if sec.1 = name then sec.2 else []) := by
  induction secs generalizing inside with
  | nil => exact .nil
  | cons sec secs ih =>
    obtain ⟨⟨hclean, hrows⟩, hsecs⟩ := List.forall_mem_cons.mp hsecs
    rw [document, List.flatMap_cons, List.flatMap_cons, List.cons_append, ← document]
    have hrest : Lines isSpace name (sec.1 = name)
        ((sec.2.map fun row ↦ row.1 ++ 61 :: row.2) ++ document secs)
        ((if sec.1 = name then sec.2 else []) ++ secs.flatMap fun sec ↦ if sec.1 = name then sec.2 else []) := by
      by_cases hname : sec.1 = name
      · rw [if_pos hname, decide_eq_true hname]
        exact lines_inside hrows (ih hsecs true)
      · rw [if_neg hname, decide_eq_false hname]
        exact lines_outside hrows (ih hsecs false)
    have hline := @Lines.header isSpace name inside [] [] sec.1 [] [] _ _ nofun nofun nofun nofun hclean hrest
    rw [List.nil_append, List.append_nil, List.nil_append] at hline
    exact hline

theorem flatMap_section {secs : List (Str × List (Str × Str))} (hnames : (secs.map Prod.fst).Nodup)
    (hmem : (name, rows) ∈ secs) : (secs.flatMap fun sec ↦ if sec.1 = name then sec.2 else []) = rows := by
  induction secs with
  | nil => cases hmem
  | cons sec secs ih =>
    rw [List.map_cons, List.nodup_cons] at hnames
    rw [List.flatMap_cons]
    rcases List.mem_cons.mp hmem with rfl | hmem
    · rw [if_pos rfl, List.flatMap_eq_nil_iff.mpr, List.append_nil]
      intro sec' hsec'
      have hin : sec'.1 ∈ secs.map Prod.fst := List.mem_map_of_mem hsec'
      have hother : sec'.1 ≠ name := fun he ↦ hnames.1 (he ▸ hin)
      exact if_neg hother
    · have hin : name ∈ secs.map Prod.fst := List.mem_map_of_mem hmem
      have hother : sec.1 ≠ name := fun he ↦ hnames.1 (he ▸ hin)
      rw [if_neg hother, List.nil_append]
      exact ih hnames.2 hmem

theorem document_breaks {secs : List (Str × List (Str × Str))}
    (hsecs : ∀ sec ∈ secs, 10 ∉ sec.1 ∧ ∀ row ∈ sec.2, Writable isSpace row) : ∀ line ∈ document secs, 10 ∉ line := by
  intro line hline
  obtain ⟨sec, hsec, hline⟩ := List.mem_flatMap.mp hline
  obtain ⟨hname, hrows⟩ := hsecs sec hsec
  rcases List.mem_cons.mp hline with rfl | hline
  · simp [hname]
  · obtain ⟨row, hrow, rfl⟩ := List.mem_map.mp hline
    obtain ⟨hkey, hval⟩ := (hrows row hrow).breaks
    simp [hkey, hval]

end Document

/-- A word that can stand on the left of a row. -/
structure Key (key : Str) : Prop where
  ne : key ≠ []
  head : ∀ c ∈ key.head?, c ∉ [35, 59, 91]
  visible : ∀ c ∈ key, 33 ≤ c.toNat ∧ c.toNat ≤ 126
  equation : 61 ∉ key

instance (key : Str) : Decidable (Key key) :=
  decidable_of_iff (key ≠ [] ∧ key.head?.all (· ∉ [35, 59, 91]) ∧ key.all (fun c ↦ 33 ≤ c.toNat ∧ c.toNat ≤ 126) ∧
    61 ∉ key) <| by
      simp only [Option.all_eq_true, List.all_eq_true, decide_eq_true_eq]
      exact ⟨fun ⟨hne, hhead, hvisible, heq⟩ ↦ ⟨hne, hhead, hvisible, heq⟩,
        fun ⟨hne, hhead, hvisible, heq⟩ ↦ ⟨hne, hhead, hvisible, heq⟩⟩

/-- The characters of numbers, addresses, ports and lists of them. -/
def Plain (s : Str) : Prop := ∀ c ∈ s, 44 ≤ c.toNat ∧ c.toNat ≤ 58

theorem plain_of_numeric {s : Str} (h : ∀ c ∈ s, IsNumeric c) : Plain s := by
  intro c hc
  rcases h c hc with ⟨h₁, h₂⟩ | rfl
  · omega
  · decide

theorem plain_append_cons {s s' : Str} {c : UInt8} (hs : Plain s) (hc : 44 ≤ c.toNat ∧ c.toNat ≤ 58) (hs' : Plain s') :
    Plain (s ++ c :: s') := by
  intro x hx
  rcases List.mem_append.mp hx with hx | hx
  · exact hs x hx
  · rcases List.mem_cons.mp hx with rfl | hx
    · exact hc
    · exact hs' x hx

theorem plain_cidr (vip : UInt32) (prefixLen : Option UInt8) : Plain (cidr vip prefixLen) := by
  cases prefixLen with
  | none => exact plain_of_numeric (dotted_numeric vip)
  | some n =>
    have hslash : 44 ≤ (47 : UInt8).toNat ∧ (47 : UInt8).toNat ≤ 58 := by decide
    exact plain_append_cons (plain_of_numeric (dotted_numeric vip)) hslash (plain_of_numeric (decimal_numeric _))

theorem plain_endpoint (e : UInt32 × UInt16) : Plain (endpoint e) := by
  have hcolon : 44 ≤ (58 : UInt8).toNat ∧ (58 : UInt8).toNat ≤ 58 := by decide
  exact plain_append_cons (plain_of_numeric (dotted_numeric e.1)) hcolon (plain_of_numeric (decimal_numeric _))

theorem plain_intercalate {parts : List Str} (h : ∀ part ∈ parts, Plain part) :
    Plain ([44].intercalate parts) := by
  induction parts with
  | nil => nofun
  | cons part parts ih =>
    obtain ⟨hpart, hparts⟩ := List.forall_mem_cons.mp h
    cases parts with
    | nil => rwa [List.intercalate_singleton]
    | cons part' parts =>
      rw [List.intercalate_cons_cons, List.append_assoc, List.singleton_append]
      exact plain_append_cons hpart (by decide) (ih hparts)

theorem key_dotted (vip : UInt32) : Key (dotted vip) := by
  obtain ⟨c, t, hct, hc⟩ := dotted_head vip
  have hplain := plain_of_numeric (dotted_numeric vip)
  refine ⟨hct ▸ List.cons_ne_nil c t, ?_, fun c hc ↦ ?_, fun hmem ↦ ?_⟩
  · rw [hct]
    rintro x hx hspecial
    obtain rfl : c = x := Option.some.inj hx
    obtain ⟨h₁, h₂⟩ := hc
    simp only [List.mem_cons, List.not_mem_nil, or_false] at hspecial
    rcases hspecial with rfl | rfl | rfl
    · exact absurd h₁ (by decide)
    · exact absurd h₂ (by decide)
    · exact absurd h₂ (by decide)
  · have hc := hplain c hc
    omega
  · exact absurd (hplain 61 hmem).2 (by decide)

theorem items_self (isSpace : UInt8 → Bool) (its : List Str) : Items isSpace its its := by
  induction its with
  | nil => exact .nil
  | cons it its ih =>
    have hitem := @Items.item isSpace [] it [] its its nofun nofun ih
    rwa [List.nil_append, List.append_nil] at hitem

section Render

variable {stl : Stl} (sp : Spaces stl)

theorem clean_visible {s : Str} (h : ∀ c ∈ s, 33 ≤ c.toNat ∧ c.toNat ≤ 126) : Clean sp.isSpace s :=
  clean_of_forall fun c hc ↦ sp.visible c (h c hc).1 (h c hc).2

theorem writable {key val : Str} (hkey : Key key) (hval : Clean sp.isSpace val ∧ 10 ∉ val) :
    Writable sp.isSpace (key, val) := by
  obtain ⟨c, t, rfl⟩ := List.exists_cons_of_ne_nil hkey.ne
  refine ⟨⟨c, t, rfl, hkey.head c rfl⟩, clean_visible sp hkey.visible, hkey.equation, hval.1, fun hmem ↦ ?_, hval.2⟩
  exact absurd (hkey.visible 10 hmem).1 (by decide)

theorem Plain.text {s : Str} (h : Plain s) : Clean sp.isSpace s ∧ 10 ∉ s := by
  refine ⟨clean_visible sp fun c hc ↦ ?_, fun hmem ↦ absurd (h 10 hmem).1 (by decide)⟩
  have hc := h c hc
  omega

theorem writable_rowsOf {settings : List (Str × Option Str)}
    (h : ∀ s ∈ settings, Key s.1 ∧ ∀ val ∈ s.2, Clean sp.isSpace val ∧ 10 ∉ val) :
    ∀ row ∈ rowsOf settings, Writable sp.isSpace row := by
  intro row hrow
  obtain ⟨s, hs, hrow⟩ := List.mem_filterMap.mp hrow
  obtain ⟨val, hval, rfl⟩ := Option.map_eq_some_iff.mp hrow
  obtain ⟨hkey, hvals⟩ := h s hs
  exact writable sp hkey (hvals val hval)

theorem decimal_text (v : Option ℕ) : ∀ val ∈ v.map decimal, Clean sp.isSpace val ∧ 10 ∉ val := by
  intro val hval
  obtain ⟨n, -, rfl⟩ := Option.map_eq_some_iff.mp hval
  exact (plain_of_numeric (decimal_numeric n)).text sp

/-- The sections of `render`. -/
def sections (m : Meaning) : List (Str × List (Str × Str)) :=
  [(str "me", rowsOf (meSettings m)), (str "peers", m.entries.map peerRow),
    (str "udp", rowsOf (udpSettings m)), (str "probe", rowsOf (probeSettings m))]

omit sp in
theorem sections_nodup (m : Meaning) : ((sections m).map Prod.fst).Nodup := by
  change [str "me", str "peers", str "udp", str "probe"].Nodup
  decide

theorem me_writable {m : Meaning} (hdev : ∀ s ∈ m.tunDev, Clean sp.isSpace s ∧ 10 ∉ s)
    (huser : ∀ s ∈ m.user, Clean sp.isSpace s ∧ 10 ∉ s) : ∀ row ∈ rowsOf (meSettings m), Writable sp.isSpace row := by
  refine writable_rowsOf sp ?_
  simp only [meSettings, List.forall_mem_cons, List.not_mem_nil, false_implies, implies_true, and_true]
  refine ⟨⟨by decide, ?_⟩, ⟨by decide, hdev⟩, ⟨by decide, decimal_text sp _⟩, ⟨by decide, huser⟩⟩
  rintro _ ⟨⟩
  exact (plain_cidr m.vip m.prefixLen).text sp

theorem peers_writable (entries : List Entry) : ∀ row ∈ entries.map peerRow, Writable sp.isSpace row := by
  intro row hrow
  obtain ⟨e, -, rfl⟩ := List.mem_map.mp hrow
  have hval : Plain ([44].intercalate (e.endpoints.map endpoint)) := by
    refine plain_intercalate fun part hpart ↦ ?_
    obtain ⟨ep, -, rfl⟩ := List.mem_map.mp hpart
    exact plain_endpoint ep
  exact writable sp (key_dotted e.vip) (hval.text sp)

theorem udp_writable (m : Meaning) : ∀ row ∈ rowsOf (udpSettings m), Writable sp.isSpace row := by
  refine writable_rowsOf sp ?_
  simp only [udpSettings, List.forall_mem_cons, List.not_mem_nil, false_implies, implies_true, and_true]
  exact ⟨⟨by decide, decimal_text sp _⟩, ⟨by decide, decimal_text sp _⟩⟩

theorem probe_writable (m : Meaning) : ∀ row ∈ rowsOf (probeSettings m), Writable sp.isSpace row := by
  refine writable_rowsOf sp ?_
  simp only [probeSettings, List.forall_mem_cons, List.not_mem_nil, false_implies, implies_true, and_true]
  exact ⟨⟨by decide, decimal_text sp _⟩, ⟨by decide, decimal_text sp _⟩, ⟨by decide, decimal_text sp _⟩⟩

theorem sections_writable {m : Meaning} (hdev : ∀ s ∈ m.tunDev, Clean sp.isSpace s ∧ 10 ∉ s)
    (huser : ∀ s ∈ m.user, Clean sp.isSpace s ∧ 10 ∉ s) :
    ∀ sec ∈ sections m, Key sec.1 ∧ ∀ row ∈ sec.2, Writable sp.isSpace row := by
  simp only [sections, List.forall_mem_cons, List.not_mem_nil, false_implies, implies_true, and_true]
  exact ⟨⟨by decide, me_writable sp hdev huser⟩, ⟨by decide, peers_writable sp m.entries⟩,
    ⟨by decide, udp_writable sp m⟩, ⟨by decide, probe_writable sp m⟩⟩

/-- Every valid configuration whose names are lines without space at their ends
has a text. -/
theorem render_text {m : Meaning} (hdev : ∀ s ∈ m.tunDev, Clean sp.isSpace s ∧ 10 ∉ s)
    (huser : ∀ s ∈ m.user, Clean sp.isSpace s ∧ 10 ∉ s) : Text sp.isSpace m (render m) := by
  have hsecs := sections_writable sp hdev huser
  have hlines {name : Str} {rows : List (Str × Str)} (hmem : (name, rows) ∈ sections m) :
      Lines sp.isSpace name false (render m) rows := by
    have hdocument := document_lines (fun sec hsec ↦ ⟨clean_visible sp (hsecs sec hsec).1.visible, (hsecs sec hsec).2⟩)
      name false
    rwa [flatMap_section (sections_nodup m) hmem] at hdocument
  constructor
  case breaks =>
    refine document_breaks fun sec hsec ↦ ⟨fun hmem ↦ ?_, (hsecs sec hsec).2⟩
    exact absurd ((hsecs sec hsec).1.visible 10 hmem).1 (by decide)
  case me =>
    have hkeys : ((meSettings m).map Prod.fst).Nodup := by
      change [str "vip", str "tun_dev", str "tun_mtu", str "user"].Nodup
      decide
    exact ⟨_, hlines (by simp [sections]), (rowsOf_keys _).nodup hkeys, gives_rowsOf hkeys (by simp [meSettings]),
      gives_rowsOf hkeys (by simp [meSettings]), gives_rowsOf hkeys (by simp [meSettings]),
      gives_rowsOf hkeys (by simp [meSettings])⟩
  case peers =>
    refine ⟨m.entries.map peerRow, hlines (by simp [sections]), ?_⟩
    refine List.forall₂_map_right_iff.mpr (List.forall₂_same.mpr fun e _ ↦ ?_)
    exact ⟨.bare, _, rfl, items_self _ _⟩
  case udp =>
    have hkeys : ((udpSettings m).map Prod.fst).Nodup := by
      change [str "recv_buf", str "send_buf"].Nodup
      decide
    exact ⟨_, hlines (by simp [sections]), (rowsOf_keys _).nodup hkeys, gives_rowsOf hkeys (by simp [udpSettings]),
      gives_rowsOf hkeys (by simp [udpSettings])⟩
  case probe =>
    have hkeys : ((probeSettings m).map Prod.fst).Nodup := by
      change [str "interval_ms", str "timeout_ms", str "stats_interval_s"].Nodup
      decide
    exact ⟨_, hlines (by simp [sections]), (rowsOf_keys _).nodup hkeys, gives_rowsOf hkeys (by simp [probeSettings]),
      gives_rowsOf hkeys (by simp [probeSettings]), gives_rowsOf hkeys (by simp [probeSettings])⟩

end Render

/-- Two peers, with some settings left out. -/
def sampleMeaning : Meaning where
  vip := 0x0a000001
  prefixLen := some 24
  tunDev := some (str "mesh0")
  tunMtu := none
  user := none
  entries := twoEntries
  recvBuf := some 65536
  sendBuf := none
  intervalMs := none
  timeoutMs := some 1500
  statsIntervalSec := none

theorem sampleMeaning_valid : sampleMeaning.Valid where
  vip := by decide
  mine := by decide
  vips := by decide
  tunMtu := nofun
  recvBuf := by simp [sampleMeaning]
  sendBuf := nofun
  intervalMs := nofun
  timeoutMs := by simp [sampleMeaning]
  statsIntervalSec := nofun

theorem config_read_back_sample : ∃ cfg,
    loadConfig NumericStl.numericStl ([10].intercalate (render sampleMeaning)) = .ok cfg ∧ Means sampleMeaning cfg := by
  have hdev : ∀ s ∈ sampleMeaning.tunDev, Clean NumericStl.isSpace s ∧ 10 ∉ s := by
    rintro _ ⟨⟩
    exact ⟨clean_of_ends (by decide) (by decide), by decide⟩
  exact config_read_back numericSpaces numericStl_standard sampleMeaning_valid (render_text numericSpaces hdev nofun)

end Gofra.ConfigText
