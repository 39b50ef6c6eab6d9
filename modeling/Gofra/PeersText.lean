import Gofra.NumericText
import Gofra.VipTable

namespace Gofra.PeersText

open Lib.Trim Addr Ini Peers IniText NumericText VipTable

/-- What may stand between commas: one of the items with spaces around it, or
nothing but spaces. -/
inductive Items (isSpace : UInt8 → Bool) : List Str → List Str → Prop
  | nil : Items isSpace [] []
  | stray {part : Str} {parts its : List Str} (hpart : ∀ c ∈ part, isSpace c = true)
      (h : Items isSpace parts its) : Items isSpace (part :: parts) its
  | item {b it b' : Str} {parts its : List Str} (hb : ∀ c ∈ b, isSpace c = true)
      (hb' : ∀ c ∈ b', isSpace c = true) (h : Items isSpace parts its) :
      Items isSpace ((b ++ it ++ b') :: parts) (it :: its)

/-- An address as a key, with or without a prefix length. -/
inductive KeyText (vip : UInt32) : Str → Prop
  | bare : KeyText vip (dotted vip)
  | withPrefix {n : ℕ} (hn : n < 2 ^ 64) : KeyText vip (dotted vip ++ 47 :: decimal n)

def endpoint (e : UInt32 × UInt16) : Str := dotted e.1 ++ 58 :: decimal e.2.toNat

/-- A row of the section as its author means it. -/
structure Entry where
  vip : UInt32
  endpoints : List (UInt32 × UInt16)
  nonempty : endpoints ≠ []

def Entry.peer (e : Entry) : Peer where
  vip := e.vip
  dsts := e.endpoints.map fun e ↦ .inet e.2 (ntohl e.1)
  nonempty := by
    rw [Ne, List.map_eq_nil_iff]
    exact e.nonempty

/-- A key and a value that say what an entry means. -/
structure RowText (isSpace : UInt8 → Bool) (e : Entry) (row : Str × Str) : Prop where
  key : KeyText e.vip row.1
  val : ∃ parts, row.2 = [44].intercalate parts ∧ Items isSpace parts (e.endpoints.map endpoint)

section

variable {stl : Stl} (sp : Spaces stl)

theorem strip_items {parts its : List Str} (h : Items sp.isSpace parts its)
    (hits : ∀ it ∈ its, it ≠ [] ∧ Clean sp.isSpace it) :
    (parts.map stl.stripSpace).filter (fun item ↦ item ≠ []) = its := by
  induction h with
  | nil => rfl
  | stray hpart _ ih =>
    rw [List.map_cons, strip_of_forall sp hpart, List.filter_cons_of_neg (by simp)]
    exact ih hits
  | item hb hb' _ ih =>
    obtain ⟨hne, hclean⟩ := hits _ List.mem_cons_self
    rw [List.map_cons, sp.strip, trim_pad hb hb' hclean, List.filter_cons_of_pos (by simpa using hne),
      ih fun it hit ↦ hits it (List.mem_cons_of_mem _ hit)]

include sp in
theorem space_ne {c : UInt8} {s : Str} (h : ∀ x ∈ s, sp.isSpace x = true) (h₁ : 33 ≤ c.toNat)
    (h₂ : c.toNat ≤ 126) : c ∉ s := by
  intro hmem
  have hspace := h c hmem
  rw [sp.visible c h₁ h₂] at hspace
  cases hspace

theorem items_comma {parts its : List Str} (h : Items sp.isSpace parts its)
    (hits : ∀ it ∈ its, 44 ∉ it) : ∀ part ∈ parts, 44 ∉ part := by
  induction h with
  | nil => nofun
  | stray hpart _ ih =>
    exact List.forall_mem_cons.mpr ⟨space_ne sp hpart (by decide) (by decide), ih hits⟩
  | item hb hb' _ ih =>
    obtain ⟨hit, hits⟩ := List.forall_mem_cons.mp hits
    refine List.forall_mem_cons.mpr ⟨?_, ih hits⟩
    simp only [List.mem_append, not_or]
    exact ⟨⟨space_ne sp hb (by decide) (by decide), hit⟩, space_ne sp hb' (by decide) (by decide)⟩

theorem items_intercalate {parts its : List Str} (h : Items sp.isSpace parts its)
    (hits : ∀ it ∈ its, it ≠ [] ∧ Clean sp.isSpace it) (hcomma : ∀ it ∈ its, 44 ∉ it) :
    items stl ([44].intercalate parts) = its := by
  have hstrip := strip_items sp h hits
  rw [items]
  rcases pieces_intercalate stl (items_comma sp h hcomma) with he | he
  · rw [he, hstrip]
  · rw [he, List.map_append, List.map_singleton, @strip_of_forall stl sp [] nofun, List.filter_append,
      List.filter_cons_of_neg (by simp), List.filter_nil, List.append_nil] at hstrip
    exact hstrip

include sp in
theorem endpoint_clean (e : UInt32 × UInt16) :
    endpoint e ≠ [] ∧ Clean sp.isSpace (endpoint e) ∧ 44 ∉ endpoint e := by
  have hchars : ∀ c ∈ endpoint e, 46 ≤ c.toNat ∧ c.toNat ≤ 58 := by
    have hnum {c : UInt8} (h : IsNumeric c) : 46 ≤ c.toNat ∧ c.toNat ≤ 58 := by
      rcases h with ⟨h₁, h₂⟩ | rfl
      · omega
      · decide
    intro c hc
    rw [endpoint, List.mem_append, List.mem_cons] at hc
    rcases hc with hc | rfl | hc
    · exact hnum (dotted_numeric _ c hc)
    · decide
    · exact hnum (decimal_numeric _ c hc)
  refine ⟨?_, ?_, ?_⟩
  · rw [endpoint]
    exact List.append_ne_nil_of_right_ne_nil _ (List.cons_ne_nil _ _)
  · refine clean_of_forall fun c hc ↦ ?_
    obtain ⟨h₁, h₂⟩ := hchars c hc
    exact sp.visible c (by omega) (by omega)
  · intro hmem
    exact absurd (hchars 44 hmem).1 (by decide)

variable (std : Standard stl)

include std

theorem parseIPv4_dotted (v : UInt32) : parseIPv4 stl (dotted v) = .ok v := by
  have hlen := length_dotted_le v
  rw [parseIPv4, toCStr_eq (by omega) (dotted_numeric v)]
  change (orRaise (stl.inetPton (dotted v)) _ >>= fun a ↦ .ok (ntohl a)) = _
  rw [std.inetPton]
  exact congrArg _ (ntohl_ntohl v)

theorem parseCIDR_key {vip : UInt32} {key : Str} (h : KeyText vip key) :
    ∃ prefixLen, parseCIDR stl key = .ok (vip, prefixLen) := by
  have hslash : 47 ∉ dotted vip := not_mem_of_numeric (dotted_numeric vip) (.inr (.inl (by decide)))
  cases h with
  | bare =>
    refine ⟨32, ?_⟩
    rw [parseCIDR, split_eq_none stl hslash]
    change (parseIPv4 stl (dotted vip) >>= fun addr ↦ .ok (addr, 32)) = _
    rw [parseIPv4_dotted std]
    rfl
  | @withPrefix n hn =>
    refine ⟨(UInt64.ofNat n).toUInt8, ?_⟩
    rw [parseCIDR, split_eq stl hslash]
    change (parseIPv4 stl (dotted vip) >>= fun addr ↦ stl.stou (decimal n) >>= fun prefixLen ↦
      .ok (addr, prefixLen.toUInt8)) = _
    rw [parseIPv4_dotted std, std.stou n hn]
    rfl

theorem parseSockAddr_endpoint (e : UInt32 × UInt16) :
    parseSockAddr stl (endpoint e) = .ok (.inet e.2 (ntohl e.1)) := by
  have hport := e.2.toNat_lt
  have hlen := length_dotted_le e.1
  have hlen' := @length_decimal_le e.2.toNat 5 (by decide) (by omega)
  have hcolon : 58 ∉ dotted e.1 := not_mem_of_numeric (dotted_numeric e.1) (.inr (.inr (by decide)))
  obtain ⟨c, t, hct, hc⟩ := dotted_head e.1
  have hsplit : splitHostPort stl (endpoint e) = .ok (dotted e.1, decimal e.2.toNat) := by
    have hstl := split_eq stl hcolon (decimal e.2.toNat)
    rw [endpoint]
    rw [hct, List.cons_append] at hstl ⊢
    rw [splitHostPort, hstl]
    · rfl
    · rintro body he
      rw [(List.cons.inj he).1] at hc
      exact absurd hc.2 (by decide)
  rw [parseSockAddr, hsplit]
  change (toCStr inet6AddrStrLen (dotted e.1) >>= fun host ↦ toCStr 8 (decimal e.2.toNat) >>= fun serv ↦
    orRaise (stl.getaddrinfo host serv) _) = _
  rw [toCStr_eq (by rw [inet6AddrStrLen]; omega) (dotted_numeric e.1),
    toCStr_eq (by omega) (decimal_numeric _)]
  change orRaise (stl.getaddrinfo (dotted e.1) (decimal e.2.toNat)) _ = _
  rw [std.getaddrinfo]
  rfl

theorem mapM_endpoints (es : List (UInt32 × UInt16)) :
    (es.map endpoint).mapM (parseSockAddr stl) = .ok (es.map fun e ↦ .inet e.2 (ntohl e.1)) := by
  induction es with
  | nil => rfl
  | cons e es ih =>
    rw [List.map_cons, List.mapM_cons, parseSockAddr_endpoint std, ih]
    rfl

include sp

theorem addRow_text {e : Entry} {row : Str × Str} (h : RowText sp.isSpace e row) (t : PeerTable) :
    PeerTable.addRow stl t row = .ok (t.add e.peer) := by
  obtain ⟨prefixLen, hkey⟩ := parseCIDR_key std h.key
  obtain ⟨parts, hval, hparts⟩ := h.val
  have hits : items stl row.2 = e.endpoints.map endpoint := by
    rw [hval]
    refine items_intercalate sp hparts ?_ ?_
    · intro it hit
      obtain ⟨ep, -, rfl⟩ := List.mem_map.mp hit
      have hep := endpoint_clean sp ep
      exact ⟨hep.1, hep.2.1⟩
    · intro it hit
      obtain ⟨ep, -, rfl⟩ := List.mem_map.mp hit
      exact (endpoint_clean sp ep).2.2
  have hdsts : e.endpoints.map (fun e ↦ SockAddr.inet e.2 (ntohl e.1)) ≠ [] := e.peer.nonempty
  rw [PeerTable.addRow, hkey, hits, mapM_endpoints std]
  change (if h : _ = [] then _ else _) = _
  rw [dif_neg hdsts]
  rfl

theorem foldlM_addRow {entries : List Entry} {rows : List (Str × Str)}
    (h : List.Forall₂ (RowText sp.isSpace) entries rows) (t : PeerTable) :
    ∃ t', rows.foldlM (PeerTable.addRow stl) t = .ok t' ∧
      t'.peers = t.peers ++ entries.map Entry.peer := by
  induction h generalizing t with
  | nil => exact ⟨t, rfl, (List.append_nil _).symm⟩
  | @cons e row entries rows hrow _ ih =>
    obtain ⟨t', ht', hp⟩ := ih (t.add e.peer)
    refine ⟨t', ?_, ?_⟩
    · rw [List.foldlM_cons, addRow_text sp std hrow]
      exact ht'
    · rw [hp, PeerTable.add, List.append_assoc]
      rfl

/-- Distinct addresses have distinct keys, however each is written. -/
theorem keys_nodup {entries : List Entry} {rows : List (Str × Str)}
    (h : List.Forall₂ (RowText sp.isSpace) entries rows) (hvips : (entries.map Entry.vip).Nodup) :
    (rows.map Prod.fst).Nodup := by
  have hkeys : rows.map (keyAddr stl ∘ Prod.fst) = entries.map (some ∘ Entry.vip) := by
    clear hvips
    induction h with
    | nil => rfl
    | cons hrow _ ih =>
      obtain ⟨prefixLen, hkey⟩ := parseCIDR_key std hrow.key
      rw [List.map_cons, ih, List.map_cons, Function.comp_apply, keyAddr, hkey]
      rfl
  rw [← List.nodup_map_iff (Option.some_injective _), List.map_map, ← hkeys, ← List.map_map] at hvips
  exact hvips.of_map _

/-- Whatever text a list of peers is written as, it is read back. -/
theorem peers_read_back {entries : List Entry} (hne : entries ≠ [])
    (hvips : (entries.map Entry.vip).Nodup) {lines : List Str} {rows : List (Str × Str)}
    (hlines : Lines sp.isSpace (str "peers") false lines rows) (hbreak : ∀ line ∈ lines, 10 ∉ line)
    (hrows : List.Forall₂ (RowText sp.isSpace) entries rows) :
    ∃ ini t, parseConfig stl ([10].intercalate lines) = .ok ini ∧
      PeerTable.create stl (ini.lookup (str "peers")) = .ok t ∧ t.peers = entries.map Entry.peer ∧
      ∀ i : Fin t.peers.length, t.lookup (t.at i).vip = some i := by
  obtain ⟨ini, hini, hsec⟩ := parseConfig_rows sp (by decide) hlines hbreak (keys_nodup sp std hrows hvips)
  obtain ⟨t, ht, hp⟩ := foldlM_addRow sp std hrows .empty
  have hpeers : t.peers = entries.map Entry.peer := hp
  have hrowsne : rows ≠ [] := by
    rintro rfl
    cases hrows
    exact hne rfl
  cases hl : ini.lookup (str "peers") with
  | none =>
    rw [sectionOf, hl] at hsec
    exact absurd hsec.symm hrowsne
  | some sec =>
    rw [sectionOf, hl, Option.getD_some] at hsec
    have hkeys : sec.keys ≠ [] := by
      intro hnil
      have hmap := Section.rows_keys sec
      rw [hsec, hnil] at hmap
      exact hrowsne (List.map_eq_nil_iff.mp hmap)
    refine ⟨ini, t, hini, ?_, hpeers, lookup_of_nodup ?_⟩
    · rw [hl, PeerTable.create, Option.filter_some, if_pos (by simpa using hkeys)]
      change sec.rows.foldlM (PeerTable.addRow stl) .empty = _
      rw [hsec, ht]
    · rw [hpeers, List.map_map]
      exact hvips

omit std in
/-- Whatever text the empty list is written as, it is refused. -/
theorem no_rows_refused {lines : List Str} (hlines : Lines sp.isSpace (str "peers") false lines [])
    (hbreak : ∀ line ∈ lines, 10 ∉ line) : ∃ ini, parseConfig stl ([10].intercalate lines) = .ok ini ∧
      PeerTable.create stl (ini.lookup (str "peers")) = .error (.raised (str "peer: empty [peers] section")) := by
  obtain ⟨ini, hini, hsec⟩ := parseConfig_rows sp (by decide) hlines hbreak List.nodup_nil
  refine ⟨ini, hini, create_noKeys fun sec hl ↦ ?_⟩
  rw [sectionOf, Option.mem_def.mp hl, Option.getD_some] at hsec
  rw [← sec.rows_keys, hsec, List.map_nil]

end

theorem clean_of_ends {s : Str} (h : s.head?.any NumericStl.isSpace = false)
    (h' : s.getLast?.any NumericStl.isSpace = false) : Clean NumericStl.isSpace s where
  head x hx := by
    rwa [Option.mem_def.mp hx, Option.any_some] at h
  last x hx := by
    rwa [Option.mem_def.mp hx, Option.any_some] at h'

theorem isSpace_single : ∀ c ∈ ([32] : Str), NumericStl.isSpace c = true := by
  intro c hc
  rw [List.mem_singleton.mp hc]
  rfl

theorem no_peers_refused : Lines NumericStl.isSpace (str "peers") false [str "[peers]", []] [] ∧
    List.Forall₂ (RowText NumericStl.isSpace) [] [] ∧ ∃ ini,
      parseConfig NumericStl.numericStl ([10].intercalate [str "[peers]", []]) = .ok ini ∧
        PeerTable.create NumericStl.numericStl (ini.lookup (str "peers")) =
          .error (.raised (str "peer: empty [peers] section")) := by
  have hlines : Lines NumericStl.isSpace (str "peers") false [str "[peers]", []] [] :=
    @Lines.header _ _ _ [] [] (str "peers") [] [] _ _ nofun nofun nofun nofun
      (clean_of_ends (by decide) (by decide)) (.blank nofun .nil)
  exact ⟨hlines, .nil, no_rows_refused numericSpaces hlines (by decide)⟩

/-- Two peers, in two blocks of the section with another one between them. -/
def twoEntries : List Entry :=
  [⟨0x0a000001, [(0xc0000201, 7000)], List.cons_ne_nil _ _⟩,
    ⟨0x0a000002, [(0xc0000202, 7000), (0xc6336402, 7001)], List.cons_ne_nil _ _⟩]

def twoLines : List Str :=
  [str "# mesh", str "[peers]", str "10.0.0.1 = 192.0.2.1:7000", str " [me]", str "vip = 10.0.0.1", str "[ peers ]",
    str "10.0.0.2/24=192.0.2.2:7000 ,, 198.51.100.2:7001,", []]

def twoRows : List (Str × Str) :=
  [(dotted 0x0a000001, [44].intercalate [[] ++ endpoint (0xc0000201, 7000) ++ []]),
    (dotted 0x0a000002 ++ 47 :: decimal 24, [44].intercalate [[] ++ endpoint (0xc0000202, 7000) ++ [32], [],
      [32] ++ endpoint (0xc6336402, 7001) ++ [], []])]

theorem twoLines_lines : Lines NumericStl.isSpace (str "peers") false twoLines twoRows := by
  have hsp := isSpace_single
  have hpeers : Clean NumericStl.isSpace (str "peers") := clean_of_ends (by decide) (by decide)
  refine @Lines.comment _ _ _ [] (str " mesh") 35 _ _ nofun (by decide) ?_
  refine @Lines.header _ _ _ [] [] (str "peers") [] [] _ _ nofun nofun nofun nofun hpeers ?_
  refine @Lines.row _ _ [] (str "0.0.0.1") [32] [32] (str "192.0.2.1:7000") [] 49 _ _ nofun hsp hsp nofun
    (by decide) (clean_of_ends (by decide) (by decide)) (by decide) (clean_of_ends (by decide) (by decide)) ?_
  refine @Lines.header _ _ _ [32] [] (str "me") [] [] _ _ hsp nofun nofun nofun
    (clean_of_ends (by decide) (by decide)) ?_
  refine @Lines.foreign _ _ [] (str "ip = 10.0.0.1") 118 _ _ nofun (by decide) (by decide) (by decide) ?_
  refine @Lines.header _ _ _ [] [32] (str "peers") [32] [] _ _ nofun hsp hsp nofun hpeers ?_
  refine @Lines.row _ _ [] (str "0.0.0.2/24") [] [] (str "192.0.2.2:7000 ,, 198.51.100.2:7001,") [] 49 _ _
    nofun nofun nofun nofun (by decide) (clean_of_ends (by decide) (by decide)) (by decide)
    (clean_of_ends (by decide) (by decide)) ?_
  exact .blank nofun .nil

theorem twoRows_text : List.Forall₂ (RowText NumericStl.isSpace) twoEntries twoRows := by
  have hsp := isSpace_single
  refine .cons ⟨.bare, _, rfl, .item nofun nofun .nil⟩ (.cons ⟨.withPrefix (by decide), _, rfl, ?_⟩ .nil)
  exact .item nofun hsp (.stray nofun (.item hsp nofun (.stray nofun .nil)))

theorem peers_read_back_two : ∃ ini t,
    parseConfig NumericStl.numericStl ([10].intercalate twoLines) = .ok ini ∧
      PeerTable.create NumericStl.numericStl (ini.lookup (str "peers")) = .ok t ∧
      t.peers = twoEntries.map Entry.peer ∧ ∀ i : Fin t.peers.length, t.lookup (t.at i).vip = some i :=
  peers_read_back numericSpaces numericStl_standard (List.cons_ne_nil _ _) (by decide) twoLines_lines
    (by decide) twoRows_text

end Gofra.PeersText
