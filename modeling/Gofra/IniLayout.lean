import Gofra.IniGrammar
import Gofra.NumericText

namespace Gofra.IniLayout

open Lib.Trim Addr Ini IniText IniGrammar

/-- The second lines are the first ones in another layout. -/
inductive Relaid (isSpace : UInt8 → Bool) : List Str → List Str → Prop
  | nil : Relaid isSpace [] []
  | keep (line : Str) {lines lines' : List Str} (h : Relaid isSpace lines lines') :
      Relaid isSpace (line :: lines) (line :: lines')
  | blank {line : Str} {lines lines' : List Str} (hline : ∀ c ∈ line, isSpace c = true)
      (h : Relaid isSpace lines lines') : Relaid isSpace lines (line :: lines')
  | comment {a text : Str} {c : UInt8} {lines lines' : List Str} (ha : ∀ c ∈ a, isSpace c = true)
      (hc : c = 35 ∨ c = 59) (h : Relaid isSpace lines lines') :
      Relaid isSpace lines ((a ++ c :: text) :: lines')
  | around {a line b : Str} {lines lines' : List Str} (ha : ∀ c ∈ a, isSpace c = true)
      (hb : ∀ c ∈ b, isSpace c = true) (h : Relaid isSpace lines lines') :
      Relaid isSpace (line :: lines) ((a ++ line ++ b) :: lines')
  | equals {key b b' val : Str} {lines lines' : List Str} (hb : ∀ c ∈ b, isSpace c = true)
      (hb' : ∀ c ∈ b', isSpace c = true) (hkey : 61 ∉ key) (hhead : (trim isSpace key).head? ≠ some 91)
      (h : Relaid isSpace lines lines') :
      Relaid isSpace ((key ++ 61 :: val) :: lines) ((key ++ b ++ 61 :: (b' ++ val)) :: lines')
  | brackets {a n b b' a' : Str} {lines lines' : List Str} (ha : ∀ c ∈ a, isSpace c = true)
      (hb : ∀ c ∈ b, isSpace c = true) (hb' : ∀ c ∈ b', isSpace c = true)
      (ha' : ∀ c ∈ a', isSpace c = true) (h : Relaid isSpace lines lines') :
      Relaid isSpace ((a ++ 91 :: n ++ 93 :: a') :: lines)
        ((a ++ 91 :: (b ++ n ++ b') ++ 93 :: a') :: lines')
  | trans {lines lines' lines'' : List Str} (h : Relaid isSpace lines lines')
      (h' : Relaid isSpace lines' lines'') : Relaid isSpace lines lines''

variable {stl : Stl} (sp : Spaces stl)

theorem parseLine_congr {line line' : Str} (h : stl.stripSpace line = stl.stripSpace line') (st : State) :
    parseLine stl st line = parseLine stl st line' := by
  rw [parseLine, parseLine, h]

theorem foldlM_relaid {lines lines' : List Str} (h : Relaid sp.isSpace lines lines') (st : State) :
    lines'.foldlM (parseLine stl) st = lines.foldlM (parseLine stl) st := by
  induction h generalizing st with
  | nil => rfl
  | keep line _ ih =>
    rw [List.foldlM_cons, List.foldlM_cons]
    exact congrArg _ (funext ih)
  | blank hline _ ih =>
    rw [List.foldlM_cons, parseLine_blank sp hline]
    exact ih st
  | comment ha hc _ ih =>
    rw [List.foldlM_cons, parseLine_comment sp ha hc]
    exact ih st
  | @around a line b _ _ ha hb _ ih =>
    have hstrip : stl.stripSpace (a ++ line ++ b) = stl.stripSpace line := by
      rw [sp.strip, sp.strip, trim_append_right hb, trim_append_left ha]
    rw [List.foldlM_cons, List.foldlM_cons, parseLine_congr hstrip]
    exact congrArg _ (funext ih)
  | @equals key b b' val _ _ hb hb' hkey hhead _ ih =>
    have hkey' : 61 ∉ key ++ b := by
      rw [List.mem_append, not_or]
      exact ⟨hkey, not_mem_of_spaces sp hb⟩
    have htrim := trim_append_right hb key
    rw [List.foldlM_cons, List.foldlM_cons, parseLine_equation sp hkey' (by rwa [htrim]),
      parseLine_equation sp hkey hhead, htrim, trim_append_left hb']
    exact congrArg _ (funext ih)
  | @brackets a n b b' a' _ _ ha hb hb' ha' _ ih =>
    have hstrip : stl.stripSpace (b ++ n ++ b') = stl.stripSpace n := by
      rw [sp.strip, sp.strip, trim_append_right hb', trim_append_left hb]
    rw [List.foldlM_cons, List.foldlM_cons, parseLine_header sp ha ha', parseLine_header sp ha ha', hstrip]
    exact congrArg _ (funext ih)
  | trans _ _ ih ih' => rw [ih', ih]

include sp in
theorem parseConfig_newline (text : Str) : parseConfig stl (text ++ [10]) = parseConfig stl text := by
  have hlines : linesOf (text ++ [10]) = linesOf text ++ [[]] := List.splitOn_append_cons_self text []
  have hlast (st : State) : [[]].foldlM (parseLine stl) st = .ok st := by
    rw [List.foldlM_cons, @parseLine_blank stl sp [] nofun]
    rfl
  rw [parseConfig_lines sp, parseConfig_lines sp, hlines, List.foldlM_append]
  cases (linesOf text).foldlM (parseLine stl) ⟨(∅ : Ini.Config).insert [] .empty, []⟩ with
  | error e => rfl
  | ok st => exact congrArg (Except.map State.cfg) (hlast st)

theorem parseConfig_denotes (text : Str) :
    ((∃ e, parseConfig stl text = .error e) ↔ ∃ line ∈ linesOf text, Malformed sp.isSpace line) ∧
    (∀ cfg, parseConfig stl text = .ok cfg → Denotes sp.isSpace (linesOf text) cfg) ∧
    (∀ lines, Relaid sp.isSpace (linesOf text) lines → (∀ line ∈ lines, 10 ∉ line) →
      parseConfig stl ([10].intercalate lines) = parseConfig stl text) ∧
    parseConfig stl (text ++ [10]) = parseConfig stl text := by
  have hfollows := @follows_foldl sp.isSpace (linesOf text)
  refine ⟨?_, ?_, fun lines h hlines ↦ ?_, parseConfig_newline sp text⟩
  · rw [parseConfig_lines sp]
    rcases foldlM_cases sp (linesOf text) ⟨(∅ : Ini.Config).insert [] .empty, []⟩ with
      ⟨hbad, e, he⟩ | ⟨hall, hok⟩
    · rw [he]
      exact iff_of_true ⟨e, rfl⟩ hbad
    · rw [hok]
      exact iff_of_false (by rintro ⟨e, he⟩; cases he) hall
  · intro cfg hcfg
    rw [parseConfig_lines sp] at hcfg
    rcases foldlM_cases sp (linesOf text) ⟨(∅ : Ini.Config).insert [] .empty, []⟩ with
      ⟨hbad, e, he⟩ | ⟨hall, hok⟩
    · rw [he] at hcfg
      cases hcfg
    · rw [hok] at hcfg
      cases hcfg
      exact ⟨hfollows.names, fun name ↦ (hfollows.tells name).lookup, fun name ↦ (hfollows.tells name).keys,
        fun name ↦ (sectionOf _ name).nodup, fun name ↦ (sectionOf _ name).mem_keys⟩
  · rw [parseConfig_intercalate sp hlines, parseConfig_lines sp, foldlM_relaid sp h]

/-- A section in two blocks, with a key that is assigned twice. -/
def reopened : Str := str "a = 1\n[s]\nk = x\n[]\na=2\n[ s ]\nk=y=z\nl =\n"

theorem parseConfig_denotes_reopened : (∃ cfg, parseConfig NumericStl.numericStl reopened = .ok cfg ∧
    Denotes NumericStl.isSpace (linesOf reopened) cfg ∧
    (sectionOf cfg (str "s")).rows = [(str "k", str "y=z"), (str "l", [])] ∧
    (sectionOf cfg []).rows = [(str "a", str "2")]) ∧
    parseConfig NumericStl.numericStl (str "; note\n k =v\n") =
      parseConfig NumericStl.numericStl (str "k=v") := by
  constructor
  · have hrun : (parseConfig NumericStl.numericStl reopened).toOption.any (fun cfg ↦
        decide ((sectionOf cfg (str "s")).rows = [(str "k", str "y=z"), (str "l", [])] ∧
          (sectionOf cfg []).rows = [(str "a", str "2")])) = true := by
      decide +kernel
    obtain ⟨cfg, hcfg, hrows⟩ := NumericStl.ok_of_any hrun
    exact ⟨cfg, hcfg, (parseConfig_denotes NumericText.numericSpaces reopened).2.1 cfg hcfg,
      of_decide_eq_true hrows⟩
  · have hspace : ∀ c ∈ str " ", NumericStl.isSpace c = true := List.all_eq_true.mp (by decide)
    have hempty : ∀ c ∈ ([] : Str), NumericStl.isSpace c = true := by simp
    have hequals : Relaid NumericStl.isSpace [str "k" ++ 61 :: str "v"]
        [str "k" ++ str " " ++ 61 :: ([] ++ str "v")] :=
      .equals hspace hempty (by decide) (by decide) .nil
    have hlines : linesOf (str "k=v") = [str "k" ++ 61 :: str "v"] := by decide
    have hrelaid : Relaid NumericStl.isSpace (linesOf (str "k=v")) [[] ++ 59 :: str " note",
        str " " ++ (str "k" ++ str " " ++ 61 :: ([] ++ str "v")) ++ [], []] := by
      rw [hlines]
      exact .comment hempty (.inr rfl) (hequals.trans (.around hspace hempty (.blank hempty .nil)))
    exact (parseConfig_denotes NumericText.numericSpaces (str "k=v")).2.2.1 _ hrelaid (by decide)

end Gofra.IniLayout
