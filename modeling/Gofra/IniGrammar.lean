import Gofra.IniText

namespace Gofra.IniGrammar

open Lib.Trim Addr Ini IniText

def linesOf (text : Str) : List Str := text.splitOn 10

section Grammar

variable (isSpace : UInt8 → Bool)

/-- A line that is neither blank nor a comment, nor a header, nor an assignment. -/
def Malformed (line : Str) : Prop :=
  let l := trim isSpace line
  l ≠ [] ∧ l.head? ≠ some 35 ∧ l.head? ≠ some 59 ∧
    (l.head? = some 91 ∧ l.getLast? ≠ some 93 ∨ l.head? ≠ some 91 ∧ 61 ∉ l)

/-- The name between the brackets of a section header. -/
def header? (line : Str) : Option Str :=
  let l := trim isSpace line
  if l.head? = some 91 ∧ l.getLast? = some 93 then some (trim isSpace l.tail.dropLast) else none

/-- The texts before and after the first `=` of an assignment. -/
def assignment? (line : Str) : Option (Str × Str) :=
  let l := trim isSpace line
  if l.head? ∉ [some 35, some 59, some 91] ∧ 61 ∈ l then
    some (trim isSpace (l.takeWhile (· ≠ 61)), trim isSpace (l.dropWhile (· ≠ 61)).tail)
  else none

/-- The section that an assignment after `lines` belongs to. -/
def sectionAfter (lines : List Str) : Str := (lines.filterMap (header? isSpace)).getLast?.getD []

/-- The assignments of a section, in the order of the text. -/
def assignments (lines : List Str) (name : Str) : List (Str × Str) :=
  (List.range lines.length).filterMap fun n ↦
    if sectionAfter isSpace (lines.take n) = name then lines[n]?.bind (assignment? isSpace) else none

/-- `cfg` is what the lines say. -/
structure Denotes (lines : List Str) (cfg : Ini.Config) : Prop where
  names : ∀ name, name ∈ cfg ↔ name = [] ∨ ∃ line ∈ lines, header? isSpace line = some name
  lookup : ∀ name key, (sectionOf cfg name).map.lookup key =
    ((assignments isSpace lines name).filter fun row ↦ row.1 = key).getLast?.map Prod.snd
  keys : ∀ name, (sectionOf cfg name).keys = ((assignments isSpace lines name).map Prod.fst).eraseDups
  nodup : ∀ name, (sectionOf cfg name).keys.Nodup
  mem_keys : ∀ name key, key ∈ (sectionOf cfg name).keys ↔ key ∈ (sectionOf cfg name).map

/-- What a line that is not malformed does to the state. -/
def follow (st : State) (line : Str) : State :=
  match header? isSpace line, assignment? isSpace line with
  | some name, _ => ⟨if name ∈ st.cfg then st.cfg else st.cfg.insert name .empty, name⟩
  | none, some (key, val) => ⟨st.cfg.insert st.cur ((sectionOf st.cfg st.cur).assign key val), st.cur⟩
  | none, none => st

end Grammar

variable {stl : Stl} (sp : Spaces stl)

theorem takeWhile_dropWhile {c : UInt8} {a : Str} (ha : c ∉ a) (b : Str) :
    (a ++ c :: b).takeWhile (· ≠ c) = a ∧ (a ++ c :: b).dropWhile (· ≠ c) = c :: b := by
  have hall : ∀ x ∈ a, decide (x ≠ c) = true := fun x hx ↦ decide_eq_true fun e : x = c ↦ ha (e ▸ hx)
  constructor
  · rw [List.takeWhile_append_of_pos hall, List.takeWhile_cons_of_neg (by simp), List.append_nil]
  · rw [List.dropWhile_append_of_pos hall, List.dropWhile_cons_of_neg (by simp)]

theorem parseLine_malformed {line : Str} (h : Malformed sp.isSpace line) (st : State) :
    ∃ e, parseLine stl st line = .error e := by
  obtain ⟨hne, h35, h59, hbad⟩ := h
  obtain ⟨c, t, hl⟩ := List.exists_cons_of_ne_nil hne
  have hline : stl.stripSpace line = c :: t := (sp.strip line).trans hl
  rw [hl] at h35 h59 hbad
  rcases hbad with ⟨h91, hlast⟩ | ⟨h91, h61⟩
  · obtain rfl : c = 91 := Option.some.inj h91
    rw [parseLine_bracket hline, parseHeader, if_pos hlast]
    exact ⟨_, rfl⟩
  · have hc : c ∉ [35, 59, 91] := by
      rw [List.head?_cons, Ne, Option.some_inj] at h35 h59 h91
      simp [h35, h59, h91]
    rw [parseLine_other hc hline, parseAssignment, split_eq_none stl h61]
    exact ⟨_, rfl⟩

theorem follow_of_header {line name : Str} {isSpace : UInt8 → Bool} (h : header? isSpace line = some name)
    (st : State) : follow isSpace st line =
      ⟨if name ∈ st.cfg then st.cfg else st.cfg.insert name .empty, name⟩ := by
  rw [follow, h]

theorem follow_brackets {line n : Str} {isSpace : UInt8 → Bool} (hl : trim isSpace line = 91 :: (n ++ [93]))
    (st : State) : follow isSpace st line = ⟨if trim isSpace n ∈ st.cfg then st.cfg
      else st.cfg.insert (trim isSpace n) .empty, trim isSpace n⟩ := by
  have hheader : header? isSpace line = some (trim isSpace n) := by
    have hlast : (91 :: (n ++ [93])).getLast? = some 93 := by
      rw [← List.cons_append, List.getLast?_concat]
    rw [header?, hl, List.tail_cons, List.dropLast_concat, if_pos ⟨rfl, hlast⟩]
  exact follow_of_header hheader st

theorem follow_assignment {line key val : Str} {isSpace : UInt8 → Bool}
    (hl : trim isSpace line = key ++ 61 :: val) (hkey : 61 ∉ key)
    (hhead : (key ++ 61 :: val).head? ∉ [some 35, some 59, some 91]) (st : State) :
    follow isSpace st line = ⟨st.cfg.insert st.cur
      ((sectionOf st.cfg st.cur).assign (trim isSpace key) (trim isSpace val)), st.cur⟩ := by
  obtain ⟨htake, hdrop⟩ := takeWhile_dropWhile hkey val
  have hheader : header? isSpace line = none := by
    rw [header?, hl, if_neg fun h ↦ hhead (by rw [h.1]; decide)]
  have hassign : assignment? isSpace line = some (trim isSpace key, trim isSpace val) := by
    rw [assignment?, hl, htake, hdrop, if_pos ⟨hhead, List.mem_append_right key List.mem_cons_self⟩]
    rfl
  rw [follow, hheader, hassign]

theorem follow_skip {line : Str} {isSpace : UInt8 → Bool}
    (hl : (trim isSpace line).head? ∈ [none, some 35, some 59]) (st : State) :
    follow isSpace st line = st := by
  have hheader : header? isSpace line = none := by
    rw [header?, if_neg]
    rintro ⟨h91, -⟩
    rw [h91] at hl
    exact absurd hl (by decide)
  have hassign : assignment? isSpace line = none := by
    rw [assignment?, if_neg]
    rintro ⟨hhead, h61⟩
    rcases List.mem_cons.mp hl with hnone | hl
    · rw [List.head?_eq_none_iff.mp hnone] at h61
      cases h61
    · exact hhead (List.mem_cons.mpr ((List.mem_cons.mp hl).imp_right fun h ↦ List.mem_cons.mpr
        (.inl (List.mem_singleton.mp h))))
  rw [follow, hheader, hassign]

theorem parseLine_wellFormed {line : Str} (h : ¬ Malformed sp.isSpace line) (st : State) :
    parseLine stl st line = .ok (follow sp.isSpace st line) := by
  cases hl : trim sp.isSpace line with
  | nil => rw [parseLine_skip (.inl ((sp.strip line).trans hl)), follow_skip (by simp [hl])]
  | cons c t =>
    have hline : stl.stripSpace line = c :: t := (sp.strip line).trans hl
    by_cases hskip : c = 35 ∨ c = 59
    · rw [parseLine_skip (.inr ⟨c, t, hline, hskip⟩), follow_skip]
      rcases hskip with rfl | rfl <;> simp [hl]
    · obtain ⟨h35, h59⟩ := not_or.mp hskip
      simp only [Malformed, hl, List.head?_cons, ne_eq, Option.some_inj, reduceCtorEq, not_false_eq_true,
        true_and, h35, h59, not_or, not_and, not_not] at h
      by_cases h91 : c = 91
      · subst h91
        obtain ⟨n, rfl⟩ : ∃ n, t = n ++ [93] := by
          have hlast := h.1 rfl
          cases t using List.reverseRecOn with
          | nil => exact absurd hlast (by decide)
          | append_singleton n x =>
            rw [← List.cons_append, List.getLast?_concat, Option.some_inj] at hlast
            exact ⟨n, by rw [hlast]⟩
        rw [parseLine_bracket hline, parseHeader_brackets, follow_brackets hl, sp.strip]
      · have hc : c ∉ [35, 59, 91] := by simp [h35, h59, h91]
        cases hs : stl.split 61 (c :: t) with
        | none => exact absurd (h.2 h91) (stl.split_none hs)
        | some p =>
          obtain ⟨hsplit, hkey⟩ := stl.split_some hs
          have hhead : (p.1 ++ 61 :: p.2).head? ∉ [some 35, some 59, some 91] := by
            rw [← hsplit]
            simpa using hc
          rw [parseLine_assignment hc hline hs, follow_assignment (hl.trans hsplit) hkey hhead, sp.strip,
            sp.strip]

/-- The loop of `parseConfig` over lines stops at the first malformed one, and
follows them all if there is none. -/
theorem foldlM_cases (lines : List Str) (st : State) :
    (∃ line ∈ lines, Malformed sp.isSpace line) ∧ (∃ e, lines.foldlM (parseLine stl) st = .error e) ∨
    (¬ ∃ line ∈ lines, Malformed sp.isSpace line) ∧
      lines.foldlM (parseLine stl) st = .ok (lines.foldl (follow sp.isSpace) st) := by
  induction lines generalizing st with
  | nil => exact .inr ⟨by simp, rfl⟩
  | cons line lines ih =>
    rw [List.foldlM_cons, List.foldl_cons, List.exists_mem_cons_iff]
    by_cases hline : Malformed sp.isSpace line
    · obtain ⟨e, he⟩ := parseLine_malformed sp hline st
      exact .inl ⟨.inl hline, e, by rw [he]; rfl⟩
    · rw [parseLine_wellFormed sp hline]
      rcases ih (follow sp.isSpace st line) with ⟨hbad, he⟩ | ⟨hall, hok⟩
      · exact .inl ⟨.inr hbad, he⟩
      · exact .inr ⟨not_or.mpr ⟨hline, hall⟩, hok⟩

/-- A section that holds the assignments `rows`. -/
structure Tells (rows : List (Str × Str)) (sec : Section) : Prop where
  lookup : ∀ key, sec.map.lookup key = (rows.filter fun row ↦ row.1 = key).getLast?.map Prod.snd
  keys : sec.keys = (rows.map Prod.fst).eraseDups

theorem tells_empty : Tells [] Section.empty := ⟨fun key ↦ AList.lookup_empty key, rfl⟩

theorem tells_assign {rows : List (Str × Str)} {sec : Section} (h : Tells rows sec) (key val : Str) :
    Tells (rows ++ [(key, val)]) (sec.assign key val) where
  lookup k := by
    rw [List.filter_append]
    by_cases hk : k = key
    · subst hk
      rw [Section.assign, AList.lookup_insert, List.filter_cons_of_pos (by simp), List.filter_nil,
        List.getLast?_concat, Option.map_some]
    · rw [Section.assign, AList.lookup_insert_ne hk, List.filter_cons_of_neg (by simpa using Ne.symm hk),
        List.filter_nil, List.append_nil]
      exact h.lookup k
  keys := by
    have hmem : key ∈ sec.map ↔ key ∈ rows.map Prod.fst := by
      rw [← sec.mem_keys, h.keys, List.mem_eraseDups]
    have hassign : (sec.assign key val).keys = if key ∈ sec.map then sec.keys else sec.keys ++ [key] := rfl
    rw [hassign, List.map_append, List.eraseDups_append, ← h.keys]
    by_cases hkey : key ∈ rows.map Prod.fst
    · rw [if_pos (hmem.mpr hkey), List.map_singleton, List.removeAll,
        List.filter_cons_of_neg (by simpa using hkey), List.filter_nil, List.eraseDups_nil, List.append_nil]
    · rw [if_neg (hmem.not.mpr hkey), List.map_singleton, List.removeAll,
        List.filter_cons_of_pos (by simpa using hkey)]
      rfl

section Follow

variable {isSpace : UInt8 → Bool}

theorem filterMap_one {α β : Type} (f : α → Option β) (x : α) : [x].filterMap f = (f x).toList := by
  cases h : f x <;> simp [h]

theorem assignments_concat (lines : List Str) (line name : Str) :
    assignments isSpace (lines ++ [line]) name = assignments isSpace lines name ++
      if sectionAfter isSpace lines = name then (assignment? isSpace line).toList else [] := by
  have hold : (List.range lines.length).filterMap (fun n ↦
      if sectionAfter isSpace ((lines ++ [line]).take n) = name then
        (lines ++ [line])[n]?.bind (assignment? isSpace) else none) = assignments isSpace lines name := by
    refine List.filterMap_congr fun n hn ↦ ?_
    have hlt := List.mem_range.mp hn
    rw [List.take_append_of_le_length hlt.le, List.getElem?_append_left hlt]
  rw [assignments, List.length_append, List.length_singleton, List.range_succ, List.filterMap_append, hold]
  congr 1
  rw [filterMap_one, List.take_left' rfl, List.getElem?_concat_length, Option.bind_some]
  split <;> rfl

theorem sectionAfter_concat (lines : List Str) (line : Str) : sectionAfter isSpace (lines ++ [line]) =
    (header? isSpace line).getD (sectionAfter isSpace lines) := by
  rw [sectionAfter, List.filterMap_append, filterMap_one, sectionAfter]
  cases header? isSpace line with
  | none => rw [Option.toList_none, List.append_nil, Option.getD_none]
  | some name => rw [Option.toList_some, List.getLast?_concat, Option.getD_some, Option.getD_some]

/-- No line is both a header and an assignment. -/
theorem assignment_of_header {line name : Str} (h : header? isSpace line = some name) :
    assignment? isSpace line = none := by
  rw [assignment?, if_neg]
  rintro ⟨hhead, -⟩
  rw [header?] at h
  split at h
  · rename_i h91
    exact hhead (by rw [h91.1]; decide)
  · cases h

/-- The state after `lines`. -/
structure Follows (isSpace : UInt8 → Bool) (lines : List Str) (st : State) : Prop where
  cur : st.cur = sectionAfter isSpace lines
  names : ∀ name, name ∈ st.cfg ↔ name = [] ∨ ∃ line ∈ lines, header? isSpace line = some name
  tells : ∀ name, Tells (assignments isSpace lines name) (sectionOf st.cfg name)

theorem Follows.cur_mem {lines : List Str} {st : State} (h : Follows isSpace lines st) : st.cur ∈ st.cfg := by
  rw [h.names, h.cur, sectionAfter]
  cases hlast : (lines.filterMap (header? isSpace)).getLast? with
  | none => exact .inl rfl
  | some name =>
    exact .inr (List.mem_filterMap.mp (List.mem_of_getLast? hlast))

theorem follows_start : Follows isSpace [] ⟨(∅ : Ini.Config).insert [] .empty, []⟩ where
  cur := rfl
  names name := by
    rw [AList.mem_insert]
    simp
  tells name := by
    by_cases hname : name = []
    · rw [hname, sectionOf_insert_self]
      exact tells_empty
    · rw [sectionOf_insert_ne hname, sectionOf, AList.lookup_empty]
      exact tells_empty

theorem follows_step {lines : List Str} {st : State} (h : Follows isSpace lines st) (line : Str) :
    Follows isSpace (lines ++ [line]) (follow isSpace st line) := by
  have hnames (name : Str) : (∃ l ∈ lines ++ [line], header? isSpace l = some name) ↔
      (∃ l ∈ lines, header? isSpace l = some name) ∨ header? isSpace line = some name := by
    simp only [List.mem_append, List.mem_singleton, or_and_right, exists_or, exists_eq_left]
  cases hheader : header? isSpace line with
  | some n =>
    have hassign := assignment_of_header hheader
    rw [follow_of_header hheader]
    constructor
    case cur => rw [sectionAfter_concat, hheader, Option.getD_some]
    case names =>
      intro name
      rw [hnames, ← or_assoc, ← h.names, hheader, Option.some_inj]
      dsimp only
      split
      · rename_i hn
        exact ⟨.inl, fun hname ↦ hname.elim id fun e ↦ e ▸ hn⟩
      · rw [AList.mem_insert, or_comm, eq_comm]
    case tells =>
      intro name
      rw [assignments_concat, hassign, Option.toList_none, ite_self, List.append_nil, sectionOf_open]
      exact h.tells name
  | none =>
    have hcur : sectionAfter isSpace (lines ++ [line]) = st.cur := by
      rw [sectionAfter_concat, hheader, Option.getD_none, h.cur]
    cases hassign : assignment? isSpace line with
    | none =>
      rw [follow, hheader, hassign]
      refine ⟨hcur.symm, fun name ↦ ?_, fun name ↦ ?_⟩
      · rw [hnames, hheader, h.names]
        simp
      · rw [assignments_concat, hassign, Option.toList_none, ite_self, List.append_nil]
        exact h.tells name
    | some row =>
      rw [follow, hheader, hassign]
      refine ⟨hcur.symm, fun name ↦ ?_, fun name ↦ ?_⟩
      · rw [hnames, hheader, ← or_assoc, ← h.names]
        simp only [AList.mem_insert, reduceCtorEq, or_false, or_iff_right_iff_imp]
        exact fun e ↦ e ▸ h.cur_mem
      · rw [assignments_concat, hassign, ← h.cur, Option.toList_some]
        by_cases hname : st.cur = name
        · subst hname
          rw [if_pos rfl, sectionOf_insert_self]
          exact tells_assign (h.tells st.cur) row.1 row.2
        · rw [if_neg hname, List.append_nil, sectionOf_insert_ne (Ne.symm hname)]
          exact h.tells name

theorem follows_foldl (lines : List Str) :
    Follows isSpace lines (lines.foldl (follow isSpace) ⟨(∅ : Ini.Config).insert [] .empty, []⟩) := by
  induction lines using List.reverseRecOn with
  | nil => exact follows_start
  | append_singleton lines line ih =>
    rw [List.foldl_append]
    exact follows_step ih line

end Follow

theorem not_mem_of_mem_linesOf (text : Str) : ∀ line ∈ linesOf text, 10 ∉ line := by
  induction text with
  | nil => simp [linesOf]
  | cons c text ih =>
    rw [linesOf, List.splitOn_cons_eq_if_modifyHead]
    obtain ⟨first, rest, hsplit⟩ := List.exists_cons_of_ne_nil (List.splitOn_ne_nil 10 text)
    rw [linesOf, hsplit] at ih
    obtain ⟨hfirst, hrest⟩ := List.forall_mem_cons.mp ih
    split
    · rw [hsplit]
      exact List.forall_mem_cons.mpr ⟨List.not_mem_nil, ih⟩
    · rename_i hc
      rw [hsplit, List.modifyHead_cons]
      refine List.forall_mem_cons.mpr ⟨?_, hrest⟩
      rw [List.mem_cons, not_or]
      exact ⟨fun e ↦ hc (by rw [e, beq_self_eq_true]), hfirst⟩

include sp in
theorem parseConfig_intercalate {lines : List Str} (h : ∀ line ∈ lines, 10 ∉ line) :
    parseConfig stl ([10].intercalate lines) =
      (lines.foldlM (parseLine stl) ⟨(∅ : Ini.Config).insert [] .empty, []⟩).map State.cfg := by
  rw [parseConfig, foldlM_pieces sp h]
  rfl

include sp in
theorem parseConfig_lines (text : Str) : parseConfig stl text =
    ((linesOf text).foldlM (parseLine stl) ⟨(∅ : Ini.Config).insert [] .empty, []⟩).map State.cfg := by
  rw [← parseConfig_intercalate sp (not_mem_of_mem_linesOf text), linesOf, List.intercalate_splitOn]

end Gofra.IniGrammar
