import ModuleBundler.Bundle.Assemble
import ModuleBundler.Proofs.Escapes

/-
  The banner as a comment. A banner is written line by line, each line behind two slashes. Its lines
  end with line feeds, but those of a script end with carriage returns and with the separators of
  lines and paragraphs too, and what stands behind one of these gets no slashes. So a banner stays a
  comment just if every line that begins in this way brings its own slashes, or is empty
  (`isComment_bannerText_iff`).
-/

namespace ModuleBundler

open Script (LineEnd)

/-! ## Lines of a script -/

/-- A text cut where lines of a script end: its first line, and each of the others with what ends
the line before it. A carriage return and a line feed are one end. -/
def cutLines : List Char → List Char × List (LineEnd × List Char)
  | [] => ([], [])
  | '\r' :: '\n' :: cs => ([], (.both, (cutLines cs).1) :: (cutLines cs).2)
  | '\n' :: cs => ([], (.lineFeed, (cutLines cs).1) :: (cutLines cs).2)
  | '\r' :: cs => ([], (.carriageReturn, (cutLines cs).1) :: (cutLines cs).2)
  | '\u2028' :: cs => ([], (.lineSeparator, (cutLines cs).1) :: (cutLines cs).2)
  | '\u2029' :: cs => ([], (.paragraphSeparator, (cutLines cs).1) :: (cutLines cs).2)
  | c :: cs => (c :: (cutLines cs).1, (cutLines cs).2)

/-- Whether a line of a script is empty or a comment that runs to its end. -/
def IsCommentLine (line : List Char) : Prop := line = [] ∨ ['/', '/'] <+: line

instance : DecidablePred IsCommentLine := fun _ => inferInstanceAs (Decidable (_ ∨ _))

/-- Whether all lines of a text are comments or empty. -/
def IsComment (text : String) : Prop :=
  IsCommentLine (cutLines text.toList).1 ∧ ∀ line ∈ (cutLines text.toList).2, IsCommentLine line.2

instance : DecidablePred IsComment := fun _ => inferInstanceAs (Decidable (_ ∧ _))

/-- Whether the lines of a text that begin behind an end without a line feed are comments or
empty. -/
def CommentsUnfed (text : String) : Prop :=
  ∀ line ∈ (cutLines text.toList).2, '\n' ∉ line.1.text → IsCommentLine line.2

instance : DecidablePred CommentsUnfed := fun text =>
  inferInstanceAs (Decidable (∀ line ∈ (cutLines text.toList).2, _))

/-! ## Character by character -/

variable {feeds fresh : Bool} {c : Char} {cs line rest current : List Char}

/-- Whether a character ends a line of a script. -/
def endsScriptLine (c : Char) : Bool := ['\n', '\r', '\u2028', '\u2029'].contains c

/-- Whether the lines that begin in a text are comments or empty. The text itself begins a line if
it is `fresh`, and line feeds begin lines only if they are to count. -/
def Inert (feeds : Bool) : Bool → List Char → Prop
  | _, [] => True
  | fresh, c :: cs =>
    (fresh = true → endsScriptLine c = true ∨ ['/', '/'] <+: c :: cs) ∧
      Inert feeds (endsScriptLine c && (feeds || c != '\n')) cs

/-- A text and its first line begin with a slash alike. -/
theorem slash_cutLines (cs : List Char) : ['/'] <+: (cutLines cs).1 ↔ ['/'] <+: cs := by
  fun_cases cutLines cs <;> simp

/-- It does not matter that a carriage return and a line feed are one end: the line between them
would be empty. -/
theorem inert_iff_cutLines (feeds fresh : Bool) (cs : List Char) : Inert feeds fresh cs ↔
    (fresh = true → IsCommentLine (cutLines cs).1) ∧
      ∀ line ∈ (cutLines cs).2, feeds = true ∨ '\n' ∉ line.1.text → IsCommentLine line.2 := by
  fun_induction cutLines cs generalizing fresh with
  | case1 => simp [Inert, IsCommentLine]
  | case2 cs ih => simp [Inert, ih, IsCommentLine, endsScriptLine, LineEnd.text]
  | case3 cs ih => simp [Inert, ih, IsCommentLine, endsScriptLine, LineEnd.text]
  | case4 cs _ ih => simp [Inert, ih, IsCommentLine, endsScriptLine, LineEnd.text]
  | case5 cs ih => simp [Inert, ih, IsCommentLine, endsScriptLine, LineEnd.text]
  | case6 cs ih => simp [Inert, ih, IsCommentLine, endsScriptLine, LineEnd.text]
  | case7 c cs _ hfeed hreturn hline hparagraph ih =>
    -- Nothing ends here, so a fresh text needs its two slashes at once.
    have hc : endsScriptLine c = false := by
      simpa [endsScriptLine] using ⟨hfeed, hreturn, hline, hparagraph⟩
    have hslashes : ['/', '/'] <+: c :: cs ↔ IsCommentLine (c :: (cutLines cs).1) := by
      simp [IsCommentLine, slash_cutLines]
    rw [Inert, hc, Bool.false_and, ih, hslashes]
    simp

/-- Behind a text that is not empty, only a slash could complete the two at its front. -/
theorem slashes_append {stop : Char} (hstop : stop ≠ '/') :
    ['/', '/'] <+: c :: cs ++ stop :: rest ↔ ['/', '/'] <+: c :: cs := by
  cases cs with
  | nil => simp [Ne.symm hstop]
  | cons d cs => simp

/-- A line that ends with a line feed, with what stands behind it. -/
theorem inert_append_newline (fresh : Bool) (hline : '\n' ∉ line) :
    Inert true fresh (line ++ '\n' :: rest) ↔ Inert false fresh line ∧ Inert true true rest := by
  induction line generalizing fresh with
  | nil => simp [Inert, endsScriptLine]
  | cons c line ih =>
    rw [List.mem_cons, not_or] at hline
    have hc : (c != '\n') = true := by simpa using Ne.symm hline.1
    rw [List.cons_append, Inert, Inert, ← List.cons_append, slashes_append (by decide),
      ih _ hline.2, hc, Bool.or_true, Bool.or_true, and_assoc]

/-- A line feed that begins no line parts a text in two. -/
theorem inert_newline (fresh : Bool) :
    Inert false fresh (cs ++ '\n' :: rest) ↔ Inert false fresh cs ∧ Inert false false rest := by
  induction cs generalizing fresh with
  | nil => simp [Inert, endsScriptLine]
  | cons c cs ih =>
    rw [List.cons_append, Inert, Inert, ← List.cons_append, slashes_append (by decide), ih,
      and_assoc]

/-- A carriage return at the end begins no line that is not empty. -/
theorem inert_concat_return (feeds fresh : Bool) :
    Inert feeds fresh (cs ++ ['\r']) ↔ Inert feeds fresh cs := by
  induction cs generalizing fresh with
  | nil => simp [Inert, endsScriptLine]
  | cons c cs ih =>
    rw [List.cons_append, Inert, Inert, ← List.cons_append, slashes_append (by decide), ih]

/-! ## Banners -/

/-- What is written of a line of a banner, with what stands behind it. -/
theorem inert_comment (hline : '\n' ∉ line) :
    Inert true true (("// " ++ String.ofList line ++ "\n").toList ++ rest) ↔
      Inert false false line ∧ Inert true true rest := by
  have htext : ("// " ++ String.ofList line ++ "\n").toList ++ rest =
      ('/' :: '/' :: ' ' :: line) ++ '\n' :: rest := by
    simp
  have hcomment : '\n' ∉ '/' :: '/' :: ' ' :: line := by simpa using hline
  rw [htext, inert_append_newline true hcomment]
  simp [Inert, endsScriptLine]

theorem inert_finishLine (hcurrent : '\n' ∉ current) :
    Inert true true (("// " ++ Text.finishLine current ++ "\n").toList ++ rest) ↔
      Inert false false current.reverse ∧ Inert true true rest := by
  unfold Text.finishLine
  split
  · next cs =>
    rw [inert_comment (by simpa using hcurrent), List.reverse_cons, inert_concat_return]
  · rw [inert_comment (by simpa using hcurrent)]

/-- The lines of a banner that begins with a part of its first line. -/
theorem inert_linesAfter (cs : List Char) (hcurrent : '\n' ∉ current) :
    Inert true true ((Text.linesAfter current cs).flatMap fun line =>
        ("// " ++ line ++ "\n").toList) ↔
      Inert false false (current.reverse ++ cs) := by
  induction cs generalizing current with
  | nil =>
    rw [Text.linesAfter, List.append_nil]
    split
    · next hempty =>
      rw [List.isEmpty_iff.1 hempty]
      simp [Inert]
    · rw [List.flatMap_singleton, ← List.append_nil (String.toList _),
        inert_comment (by simpa using hcurrent)]
      simp [Inert]
  | cons c cs ih =>
    rw [Text.linesAfter]
    by_cases hc : c = '\n'
    · rw [hc, if_pos (beq_self_eq_true _), List.flatMap_cons, inert_finishLine hcurrent,
        ih List.not_mem_nil, inert_newline, List.reverse_nil, List.nil_append]
    · rw [if_neg (mt beq_iff_eq.1 hc), ih (by simpa [Ne.symm hc] using hcurrent),
        List.reverse_cons, List.append_assoc, List.singleton_append]

/-- The text of a banner is a comment just if the lines of the banner are that begin behind an end
without a line feed. -/
theorem isComment_bannerText_iff (banner : String) :
    IsComment (bannerText (some banner)) ↔ CommentsUnfed banner := by
  have htext : (bannerText (some banner)).toList =
      (Text.lines banner).flatMap fun line => ("// " ++ line ++ "\n").toList := by
    rw [bannerText, String.toList_join, List.flatMap_map]
  rw [IsComment, htext, CommentsUnfed, Text.lines]
  have hbanner := inert_linesAfter banner.toList (List.not_mem_nil (a := '\n'))
  rw [inert_iff_cutLines, inert_iff_cutLines] at hbanner
  simpa using hbanner

/-! ## Bundles -/

variable {g : Graph} {settings : OutputSettings} {text : String}

theorem eq_bundleText_of_assemble (h : assemble g settings = .ok text) :
    text = bundleText g settings := by
  unfold assemble at h
  split at h
  · cases h
  · split at h
    · cases h
    · exact (Except.ok.inj h).symm

theorem bundleText_eq (g : Graph) (settings : OutputSettings) : bundleText g settings =
    bannerText settings.banner? ++ (loader g.entry.toJson.compact ++ "(\x7b\n" ++
      tableText settings.strict g.records ++ "\x7d);\n") := by
  rw [bundleText]
  simp only [String.append_assoc]

/-- What stands in front of the loader of a bundle are comments and empty lines just if the lines of
the banner are that begin behind an end without a line feed. -/
theorem isComment_front_iff (h : assemble g settings = .ok text) :
    ∃ front, text = front ++ (loader g.entry.toJson.compact ++ "(\x7b\n" ++
        tableText settings.strict g.records ++ "\x7d);\n") ∧
      (IsComment front ↔ ∀ banner, settings.banner? = some banner → CommentsUnfed banner) := by
  refine ⟨bannerText settings.banner?, ?_, ?_⟩
  · rw [eq_bundleText_of_assemble h, bundleText_eq]
  · cases settings.banner? with
    | none => simp [bannerText, IsComment, IsCommentLine, cutLines]
    | some banner => simp [isComment_bannerText_iff]

/-- A graph of one module. -/
def runGraph : Graph := ⟨⟨"./main.js"⟩, [⟨⟨"./main.js"⟩, "run();\n", []⟩]⟩

/-- Settings with a banner whose lines end in all ways; what follows a carriage return or a
separator is a comment or empty. -/
def mixedSettings : OutputSettings :=
  { banner? := some "weld\r\nsecond\r// third\u2028\u2029//\r\r\nlast\r" }

theorem isComment_front_mixedSettings :
    assemble runGraph mixedSettings = .ok (bundleText runGraph mixedSettings) ∧
    ∃ front, bundleText runGraph mixedSettings = front ++ (loader runGraph.entry.toJson.compact ++
        "(\x7b\n" ++ tableText mixedSettings.strict runGraph.records ++ "\x7d);\n") ∧
      (IsComment front ↔
        ∀ banner, mixedSettings.banner? = some banner → CommentsUnfed banner) ∧
      IsComment front := by
  have hassemble : assemble runGraph mixedSettings = .ok (bundleText runGraph mixedSettings) := rfl
  obtain ⟨front, hfront, hiff⟩ := isComment_front_iff hassemble
  refine ⟨hassemble, front, hfront, hiff, hiff.2 fun banner hbanner => ?_⟩
  cases hbanner
  decide +kernel

/-- What follows a carriage return in a banner is no comment in the bundle. -/
theorem exposed_banner : ∃ text front,
    assemble runGraph { banner? := some "a\rb" } = .ok text ∧
    text = front ++ (loader runGraph.entry.toJson.compact ++ "(\x7b\n" ++
      tableText true runGraph.records ++ "\x7d);\n") ∧
    front = "// a\rb\n" ∧ ¬ IsComment front :=
  ⟨_, _, rfl, bundleText_eq runGraph { banner? := some "a\rb" }, rfl, by decide +kernel⟩

end ModuleBundler
