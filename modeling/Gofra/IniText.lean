import Gofra.Lib.Trim
import Gofra.Ini

namespace Gofra.IniText

open Lib.Trim Addr Ini

/-- The characters that `stripSpace` trims: the space is one, and no printable
character is. -/
structure Spaces (stl : Stl) where
  isSpace : UInt8 → Bool
  strip : ∀ s, stl.stripSpace s = trim isSpace s
  space : isSpace 32 = true
  visible : ∀ c : UInt8, 33 ≤ c.toNat → c.toNat ≤ 126 → isSpace c = false

/-- Lines of a file, and the assignments among them that belong to the section
`name`; `inside` says whether the first line does. -/
inductive Lines (isSpace : UInt8 → Bool) (name : Str) : (inside : Bool) → List Str → List (Str × Str) → Prop
  | nil {inside : Bool} : Lines isSpace name inside [] []
  | blank {inside : Bool} {line : Str} {lines : List Str} {rows : List (Str × Str)}
      (hline : ∀ c ∈ line, isSpace c = true) (h : Lines isSpace name inside lines rows) :
      Lines isSpace name inside (line :: lines) rows
  | comment {inside : Bool} {a text : Str} {c : UInt8} {lines : List Str} {rows : List (Str × Str)}
      (ha : ∀ c ∈ a, isSpace c = true) (hc : c = 35 ∨ c = 59) (h : Lines isSpace name inside lines rows) :
      Lines isSpace name inside ((a ++ c :: text) :: lines) rows
  | header {inside : Bool} {a b n b' a' : Str} {lines : List Str} {rows : List (Str × Str)}
      (ha : ∀ c ∈ a, isSpace c = true) (hb : ∀ c ∈ b, isSpace c = true)
      (hb' : ∀ c ∈ b', isSpace c = true) (ha' : ∀ c ∈ a', isSpace c = true) (hn : Clean isSpace n)
      (h : Lines isSpace name (n = name) lines rows) :
      Lines isSpace name inside ((a ++ 91 :: (b ++ n ++ b') ++ 93 :: a') :: lines) rows
  | foreign {a text : Str} {c : UInt8} {lines : List Str} {rows : List (Str × Str)}
      (ha : ∀ c ∈ a, isSpace c = true) (hc : isSpace c = false) (hc' : c ∉ [35, 59, 91])
      (htext : 61 ∈ c :: text) (h : Lines isSpace name false lines rows) :
      Lines isSpace name false ((a ++ c :: text) :: lines) rows
  | row {a key b b' val a' : Str} {c : UInt8} {lines : List Str} {rows : List (Str × Str)}
      (ha : ∀ c ∈ a, isSpace c = true) (hb : ∀ c ∈ b, isSpace c = true)
      (hb' : ∀ c ∈ b', isSpace c = true) (ha' : ∀ c ∈ a', isSpace c = true) (hc : c ∉ [35, 59, 91])
      (hkey : Clean isSpace (c :: key)) (heq : 61 ∉ c :: key) (hval : Clean isSpace val)
      (h : Lines isSpace name true lines rows) :
      Lines isSpace name true ((a ++ c :: (key ++ b) ++ 61 :: (b' ++ val ++ a')) :: lines)
        ((c :: key, val) :: rows)

theorem append_cons_inj {α : Type} {c : α} {a a' b b' : List α} (ha : c ∉ a) (ha' : c ∉ a')
    (h : a ++ c :: b = a' ++ c :: b') : a = a' ∧ b = b' := by
  induction a generalizing a' with
  | nil =>
    cases a' with
    | nil => exact ⟨rfl, (List.cons.inj h).2⟩
    | cons x a' => exact absurd (List.cons.inj h).1 (fun e ↦ ha' (e ▸ List.mem_cons_self))
  | cons x a ih =>
    cases a' with
    | nil => exact absurd (List.cons.inj h).1 (fun e ↦ ha (e ▸ List.mem_cons_self))
    | cons x' a' =>
      obtain ⟨hx, ht⟩ := List.cons.inj h
      rw [List.mem_cons, not_or] at ha ha'
      obtain ⟨h₁, h₂⟩ := ih ha.2 ha'.2 ht
      exact ⟨by rw [hx, h₁], h₂⟩

/-- `split` cuts at the first occurrence. -/
theorem split_eq (stl : Stl) {c : UInt8} {a : Str} (ha : c ∉ a) (b : Str) :
    stl.split c (a ++ c :: b) = some (a, b) := by
  cases h : stl.split c (a ++ c :: b) with
  | none => exact absurd (List.mem_append_right a List.mem_cons_self) (stl.split_none h)
  | some p =>
    obtain ⟨hs, hn⟩ := stl.split_some h
    obtain ⟨h₁, h₂⟩ := append_cons_inj ha hn hs
    rw [h₁, h₂]

theorem split_eq_none (stl : Stl) {c : UInt8} {s : Str} (h : c ∉ s) : stl.split c s = none := by
  cases hs : stl.split c s with
  | none => rfl
  | some p =>
    exact absurd (stl.split_some hs).1 (fun e ↦ h (e ▸ List.mem_append_right _ List.mem_cons_self))

theorem pieces_nil (stl : Stl) (sep : UInt8) : pieces stl sep [] = [] := rfl

theorem pieces_append_cons (stl : Stl) {sep : UInt8} {a : Str} (ha : sep ∉ a) (b : Str) :
    pieces stl sep (a ++ sep :: b) = a :: pieces stl sep b := pieces_of_split (split_eq stl ha b)

theorem pieces_self (stl : Stl) {sep : UInt8} {a : Str} (hne : a ≠ []) (ha : sep ∉ a) :
    pieces stl sep a = [a] := pieces_of_no_split hne (split_eq_none stl ha)

/-- Cutting a joined text gives its parts back, but for an empty last one. -/
theorem pieces_intercalate (stl : Stl) {sep : UInt8} {parts : List Str} (h : ∀ part ∈ parts, sep ∉ part) :
    pieces stl sep ([sep].intercalate parts) = parts ∨
      parts = pieces stl sep ([sep].intercalate parts) ++ [[]] := by
  induction parts with
  | nil => exact .inl (pieces_nil stl sep)
  | cons part parts ih =>
    cases parts with
    | nil =>
      rw [List.intercalate_singleton]
      cases part with
      | nil => exact .inr (by rw [pieces_nil, List.nil_append])
      | cons c part => exact .inl (pieces_self stl (List.cons_ne_nil c part) (h _ List.mem_cons_self))
    | cons part' parts =>
      rw [List.intercalate_cons_cons, List.append_assoc, List.singleton_append,
        pieces_append_cons stl (h _ List.mem_cons_self), List.cons_append, List.cons_inj_right,
        List.cons_inj_right]
      exact ih fun p hp ↦ h p (List.mem_cons_of_mem part hp)

variable {stl : Stl} (sp : Spaces stl)

theorem strip_of_forall {s : Str} (h : ∀ c ∈ s, sp.isSpace c = true) : stl.stripSpace s = [] := by
  rw [sp.strip, trim_of_forall h]

theorem strip_cons {a t : Str} {c : UInt8} (ha : ∀ c ∈ a, sp.isSpace c = true) (hc : sp.isSpace c = false) :
    stl.stripSpace (a ++ c :: t) = c :: t.rdropWhile sp.isSpace := by
  have hrd := rdropWhile_append_cons hc [] t
  rw [List.nil_append, List.nil_append] at hrd
  rw [sp.strip, trim_append_left ha, trim, dropWhile_eq_self, hrd]
  intro x hx
  obtain rfl : c = x := Option.some.inj hx
  exact hc

theorem parseLine_skip {st : State} {line : Str} (h : stl.stripSpace line = [] ∨
    ∃ c t, stl.stripSpace line = c :: t ∧ (c = 35 ∨ c = 59)) : parseLine stl st line = .ok st := by
  rw [parseLine]
  rcases h with h | ⟨c, t, h, rfl | rfl⟩
  · rw [h]
  · rw [h]
    rfl
  · rw [h]
    rfl

theorem parseLine_blank {line : Str} (h : ∀ c ∈ line, sp.isSpace c = true) (st : State) :
    parseLine stl st line = .ok st := parseLine_skip (.inl (strip_of_forall sp h))

theorem parseLine_comment {a : Str} {c : UInt8} (ha : ∀ c ∈ a, sp.isSpace c = true) (hc : c = 35 ∨ c = 59)
    (text : Str) (st : State) : parseLine stl st (a ++ c :: text) = .ok st := by
  have hvis : sp.isSpace c = false := by
    rcases hc with rfl | rfl
    · exact sp.visible 35 (by decide) (by decide)
    · exact sp.visible 59 (by decide) (by decide)
  exact parseLine_skip (.inr ⟨_, _, strip_cons sp ha hvis, hc⟩)

theorem parseHeader_brackets (st : State) (n : Str) : parseHeader stl st (91 :: (n ++ [93])) =
    .ok { cfg := if stl.stripSpace n ∈ st.cfg then st.cfg else st.cfg.insert (stl.stripSpace n) .empty,
          cur := stl.stripSpace n } := by
  have hlast : (91 :: (n ++ [93])).getLast? = some 93 := by
    rw [← List.cons_append, List.getLast?_concat]
  have hname : ((91 :: (n ++ [93])).drop 1).take ((91 :: (n ++ [93])).length - 2) = n := by
    rw [List.drop_succ_cons, List.drop_zero, List.length_cons, List.length_append, List.length_singleton,
      Nat.add_assoc, Nat.add_sub_cancel, List.take_left']
    rfl
  rw [parseHeader, if_neg (by rw [hlast]; exact not_not.mpr rfl), hname]

theorem parseLine_bracket {st : State} {line t : Str} (hline : stl.stripSpace line = 91 :: t) :
    parseLine stl st line = parseHeader stl st (91 :: t) := by
  rw [parseLine, hline]
  rfl

theorem parseLine_header {st : State} {a a' : Str} (ha : ∀ c ∈ a, sp.isSpace c = true)
    (ha' : ∀ c ∈ a', sp.isSpace c = true) (n : Str) : parseLine stl st (a ++ 91 :: n ++ 93 :: a') =
      .ok { cfg := if stl.stripSpace n ∈ st.cfg then st.cfg else st.cfg.insert (stl.stripSpace n) .empty,
            cur := stl.stripSpace n } := by
  have hline : stl.stripSpace (a ++ 91 :: n ++ 93 :: a') = 91 :: (n ++ [93]) := by
    rw [sp.strip, trim_cons_append ha (sp.visible 91 (by decide) (by decide))
      (sp.visible 93 (by decide) (by decide)), List.rdropWhile_eq_nil_iff.mpr ha']
    rfl
  rw [parseLine_bracket hline, parseHeader_brackets]

theorem parseLine_other {st : State} {line t : Str} {c : UInt8} (hc : c ∉ [35, 59, 91])
    (hline : stl.stripSpace line = c :: t) : parseLine stl st line = parseAssignment stl st (c :: t) := by
  simp only [List.mem_cons, List.not_mem_nil, or_false, not_or] at hc
  obtain ⟨h35, h59, h91⟩ := hc
  rw [parseLine, hline]
  split
  · cases ‹c :: t = []›
  · exact absurd (List.cons.inj ‹_›).1 h35
  · exact absurd (List.cons.inj ‹_›).1 h59
  · exact absurd (List.cons.inj ‹_›).1 h91
  · rfl

theorem parseLine_assignment {st : State} {line key val t : Str} {c : UInt8} (hc : c ∉ [35, 59, 91])
    (hline : stl.stripSpace line = c :: t) (hsplit : stl.split 61 (c :: t) = some (key, val)) :
    parseLine stl st line = .ok ⟨st.cfg.insert st.cur
      ((sectionOf st.cfg st.cur).assign (stl.stripSpace key) (stl.stripSpace val)), st.cur⟩ := by
  rw [parseLine_other hc hline, parseAssignment, hsplit]
  rfl

theorem parseLine_foreign {st : State} {a text : Str} {c : UInt8} (ha : ∀ c ∈ a, sp.isSpace c = true)
    (hc : sp.isSpace c = false) (hc' : c ∉ [35, 59, 91]) (htext : 61 ∈ c :: text) :
    ∃ sec, parseLine stl st (a ++ c :: text) = .ok ⟨st.cfg.insert st.cur sec, st.cur⟩ := by
  have hkeep : 61 ∈ c :: text.rdropWhile sp.isSpace := by
    obtain ⟨x, y, hxy⟩ := List.append_of_mem htext
    have hrd := rdropWhile_append_cons hc [] text
    rw [List.nil_append, List.nil_append, hxy,
      rdropWhile_append_cons (sp.visible 61 (by decide) (by decide))] at hrd
    rw [← hrd]
    exact List.mem_append_right x List.mem_cons_self
  cases hs : stl.split 61 (c :: text.rdropWhile sp.isSpace) with
  | none => exact absurd hkeep (stl.split_none hs)
  | some p => exact ⟨_, parseLine_assignment hc' (strip_cons sp ha hc) hs⟩

theorem not_mem_of_spaces {s : Str} (h : ∀ c ∈ s, sp.isSpace c = true) : 61 ∉ s := by
  intro hmem
  have h61 := sp.visible 61 (by decide) (by decide)
  rw [h 61 hmem] at h61
  cases h61

/-- A line with `=`, by its parts before and after it. -/
theorem parseLine_equation {key : Str} (hkey : 61 ∉ key) (hhead : (trim sp.isSpace key).head? ≠ some 91)
    (val : Str) (st : State) : parseLine stl st (key ++ 61 :: val) =
      if (trim sp.isSpace key).head? ∈ [some 35, some 59] then .ok st
      else .ok ⟨st.cfg.insert st.cur ((sectionOf st.cfg st.cur).assign (trim sp.isSpace key)
        (trim sp.isSpace val)), st.cur⟩ := by
  have hline : stl.stripSpace (key ++ 61 :: val) =
      key.dropWhile sp.isSpace ++ 61 :: val.rdropWhile sp.isSpace :=
    (sp.strip _).trans (trim_append_cons (sp.visible 61 (by decide) (by decide)) key val)
  have hkey' : 61 ∉ key.dropWhile sp.isSpace := fun hmem ↦ hkey ((List.dropWhile_sublist _).subset hmem)
  have hsplit := split_eq stl hkey' (val.rdropWhile sp.isSpace)
  rw [← trim_dropWhile key] at hhead ⊢
  rw [← trim_rdropWhile val]
  cases hk : key.dropWhile sp.isSpace with
  | nil =>
    rw [hk, List.nil_append] at hline hsplit
    rw [if_neg (by simp [trim_of_clean clean_nil]), parseLine_assignment (by decide) hline hsplit, sp.strip,
      sp.strip]
  | cons c t =>
    have hc : sp.isSpace c = false := by
      have hne : key.dropWhile sp.isSpace ≠ [] := by simp [hk]
      have hfirst := List.head_dropWhile_not sp.isSpace hne
      simpa [hk] using hfirst
    have htrim : (trim sp.isSpace (c :: t)).head? = some c := by
      have hcons := trim_append_cons hc [] t
      rw [List.nil_append, List.dropWhile_nil, List.nil_append] at hcons
      rw [hcons, List.head?_cons]
    rw [hk] at hline hsplit hhead
    rw [htrim] at hhead ⊢
    by_cases hskip : c = 35 ∨ c = 59
    · rw [if_pos (by simpa using hskip)]
      exact parseLine_skip (.inr ⟨c, _, hline, hskip⟩)
    · rw [if_neg (by simpa using hskip), parseLine_assignment _ hline hsplit, sp.strip, sp.strip]
      simp only [List.mem_cons, List.not_mem_nil, or_false, not_or]
      exact ⟨(not_or.mp hskip).1, (not_or.mp hskip).2, fun e ↦ hhead (by rw [e])⟩

theorem parseLine_row {st : State} {a key b b' val a' : Str} {c : UInt8}
    (ha : ∀ c ∈ a, sp.isSpace c = true) (hb : ∀ c ∈ b, sp.isSpace c = true)
    (hb' : ∀ c ∈ b', sp.isSpace c = true) (ha' : ∀ c ∈ a', sp.isSpace c = true) (hc : c ∉ [35, 59, 91])
    (hkey : Clean sp.isSpace (c :: key)) (heq : 61 ∉ c :: key) (hval : Clean sp.isSpace val) :
    parseLine stl st (a ++ c :: (key ++ b) ++ 61 :: (b' ++ val ++ a')) =
      .ok ⟨st.cfg.insert st.cur ((sectionOf st.cfg st.cur).assign (c :: key) val), st.cur⟩ := by
  have hcons : a ++ c :: (key ++ b) = a ++ (c :: key) ++ b := by simp
  have htrim : trim sp.isSpace (a ++ (c :: key) ++ b) = c :: key := trim_pad ha hb hkey
  have hkey' : 61 ∉ a ++ (c :: key) ++ b := by
    rw [List.mem_append, List.mem_append, not_or, not_or]
    exact ⟨⟨not_mem_of_spaces sp ha, heq⟩, not_mem_of_spaces sp hb⟩
  simp only [List.mem_cons, List.not_mem_nil, or_false, not_or] at hc
  obtain ⟨h35, h59, h91⟩ := hc
  rw [hcons, parseLine_equation sp hkey' (by rw [htrim]; simpa using h91), htrim,
    trim_pad hb' ha' hval, if_neg (by simpa using ⟨h35, h59⟩)]

theorem rows_eq (sec : Section) : sec.rows = sec.keys.map fun key ↦ (key, (sec.map.lookup key).getD []) := by
  rw [Section.rows]
  conv_rhs => rw [← List.attach_map_subtype_val sec.keys, List.map_map]
  exact List.map_congr_left fun key _ ↦ congrArg (Prod.mk key.1) (Option.get_eq_getD _)

theorem rows_assign {sec : Section} {key : Str} (h : key ∉ sec.map) (val : Str) :
    (sec.assign key val).rows = sec.rows ++ [(key, val)] := by
  rw [rows_eq, rows_eq]
  simp only [Section.assign, if_neg h, List.map_append, List.map_singleton]
  congr 1
  · refine List.map_congr_left fun k hk ↦ ?_
    have hne : k ≠ key := by
      rintro rfl
      exact h ((sec.mem_keys k).mp hk)
    rw [AList.lookup_insert_ne hne]
  · rw [AList.lookup_insert, Option.getD_some]

theorem sectionOf_insert_self (cfg : Ini.Config) (name : Str) (sec : Section) :
    sectionOf (cfg.insert name sec) name = sec := by
  rw [sectionOf, AList.lookup_insert, Option.getD_some]

theorem sectionOf_insert_ne {cfg : Ini.Config} {name name' : Str} (h : name ≠ name') (sec : Section) :
    sectionOf (cfg.insert name' sec) name = sectionOf cfg name := by
  rw [sectionOf, AList.lookup_insert_ne h, sectionOf]

/-- Opening a section, again or for the first time, loses nothing. -/
theorem sectionOf_open (cfg : Ini.Config) (name n : Str) :
    sectionOf (if n ∈ cfg then cfg else cfg.insert n .empty) name = sectionOf cfg name := by
  split
  · rfl
  · rename_i hn
    by_cases h : name = n
    · subst h
      rw [sectionOf_insert_self, sectionOf, AList.lookup_eq_none.mpr hn, Option.getD_none]
    · exact sectionOf_insert_ne h .empty

/-- The loop of `parseConfig` over lines: the rows of one section come out in
their order, whatever else is between them. -/
theorem foldlM_parseLine {name : Str} {inside : Bool} {lines : List Str} {rows : List (Str × Str)}
    (h : Lines sp.isSpace name inside lines rows) {st : State} (hin : inside = decide (st.cur = name))
    (hrows : ((sectionOf st.cfg name).rows.map Prod.fst ++ rows.map Prod.fst).Nodup) :
    ∃ st', lines.foldlM (parseLine stl) st = .ok st' ∧
      (sectionOf st'.cfg name).rows = (sectionOf st.cfg name).rows ++ rows := by
  induction h generalizing st with
  | nil => exact ⟨st, rfl, (List.append_nil _).symm⟩
  | blank hline _ ih =>
    rw [List.foldlM_cons, parseLine_blank sp hline]
    exact ih hin hrows
  | comment ha hc _ ih =>
    rw [List.foldlM_cons, parseLine_comment sp ha hc]
    exact ih hin hrows
  | @header _ a b n b' a' _ _ ha hb hb' ha' hn _ ih =>
    have hopen := sectionOf_open st.cfg name n
    rw [List.foldlM_cons, parseLine_header sp ha ha', sp.strip, trim_pad hb hb' hn]
    obtain ⟨st', hst', hr⟩ := @ih ⟨if n ∈ st.cfg then st.cfg else st.cfg.insert n .empty, n⟩ rfl
      (by rwa [hopen])
    rw [hopen] at hr
    exact ⟨st', hst', hr⟩
  | foreign ha hc hc' htext _ ih =>
    have hne : name ≠ st.cur := by
      rintro rfl
      simp at hin
    obtain ⟨sec, hsec⟩ := @parseLine_foreign stl sp st _ _ _ ha hc hc' htext
    have hother := @sectionOf_insert_ne st.cfg name st.cur hne sec
    rw [List.foldlM_cons, hsec]
    obtain ⟨st', hst', hr⟩ := @ih ⟨st.cfg.insert st.cur sec, st.cur⟩ hin (by rwa [hother])
    rw [hother] at hr
    exact ⟨st', hst', hr⟩
  | @row a key b b' val a' c lines rows ha hb hb' ha' hc hkey heq hval _ ih =>
    obtain rfl : st.cur = name := of_decide_eq_true hin.symm
    have hnew : c :: key ∉ (sectionOf st.cfg st.cur).map := by
      rw [← Section.mem_keys, ← Section.rows_keys]
      intro hmem
      exact (List.nodup_append.mp hrows).2.2 _ hmem _ (by simp) rfl
    obtain ⟨sec, hsec⟩ : ∃ sec, sec = (sectionOf st.cfg st.cur).assign (c :: key) val := ⟨_, rfl⟩
    have hassign : sec.rows = (sectionOf st.cfg st.cur).rows ++ [(c :: key, val)] :=
      hsec ▸ rows_assign hnew val
    have hself := sectionOf_insert_self st.cfg st.cur sec
    rw [List.foldlM_cons, parseLine_row sp ha hb hb' ha' hc hkey heq hval, ← hsec]
    obtain ⟨st', hst', hr⟩ := @ih ⟨st.cfg.insert st.cur sec, st.cur⟩ hin (by
      rw [hself, hassign, List.map_append, List.append_assoc]
      exact hrows)
    rw [hself, hassign, List.append_assoc] at hr
    exact ⟨st', hst', hr⟩

include sp in
/-- An empty last line changes nothing, so the loop may as well run over all lines. -/
theorem foldlM_pieces {lines : List Str} (h : ∀ line ∈ lines, 10 ∉ line) (st : State) :
    (pieces stl 10 ([10].intercalate lines)).foldlM (parseLine stl) st =
      lines.foldlM (parseLine stl) st := by
  rcases pieces_intercalate stl h with he | he
  · rw [he]
  · have hlast (st : State) : [[]].foldlM (parseLine stl) st = .ok st := by
      rw [List.foldlM_cons, @parseLine_blank stl sp [] nofun]
      rfl
    conv_rhs => rw [he, List.foldlM_append]
    cases (pieces stl 10 ([10].intercalate lines)).foldlM (parseLine stl) st with
    | error e => rfl
    | ok st' => exact (hlast st').symm

theorem parseConfig_rows {name : Str} (hname : name ≠ []) {lines : List Str} {rows : List (Str × Str)}
    (h : Lines sp.isSpace name false lines rows) (hlines : ∀ line ∈ lines, 10 ∉ line)
    (hrows : (rows.map Prod.fst).Nodup) :
    ∃ ini, parseConfig stl ([10].intercalate lines) = .ok ini ∧ (sectionOf ini name).rows = rows := by
  have hempty : (sectionOf ((∅ : Ini.Config).insert [] .empty) name).rows = [] := by
    rw [sectionOf_insert_ne hname, sectionOf, AList.lookup_empty]
    rfl
  obtain ⟨st, hst, hr⟩ := @foldlM_parseLine stl sp _ _ _ _ h ⟨(∅ : Ini.Config).insert [] .empty, []⟩
    (decide_eq_false (Ne.symm hname)).symm (by rw [hempty]; exact hrows)
  rw [hempty, List.nil_append] at hr
  refine ⟨st.cfg, ?_, hr⟩
  rw [parseConfig, foldlM_pieces sp hlines, hst]
  rfl

end Gofra.IniText
