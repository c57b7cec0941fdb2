import ModuleBundler.Bundle.Assemble
import ModuleBundler.Proofs.Embedding

/-
  The code of a module is isolated in the bundle. A bundle scans, and the strings at the depth of
  its table of modules are the identifiers of the modules, one for each entry, in order
  (`tableKeys_of_assemble`). Nothing in a code, an identifier, a specifier or a line of the banner
  can close its wrapper or add an entry. All that is asked of a code is that it scans on its own,
  that its brackets nest by kind and are closed, and that it does not begin with a hashbang.
-/

namespace ModuleBundler.Script

variable {k d d' d'' : Nat} {c : Char} {cs rest : List Char} {words others : List Word}
  {found found' : List String} {text text' : String}

/-! ## Strings of joined texts -/

/-- Whether a text adds words of which these are the strings at the depth `k`. -/
def AddsStrings (k d : Nat) (found : List String) (d' : Nat) (text : String) : Prop :=
  ∃ words, Adds d words d' text ∧ stringsAt k d words = found ∧ words.foldl depthPast d = d'

theorem AddsStrings.append (h : AddsStrings k d found d' text)
    (h' : AddsStrings k d' found' d'' text') :
    AddsStrings k d (found ++ found') d'' (text ++ text') := by
  obtain ⟨words, hadds, rfl, rfl⟩ := h
  obtain ⟨words', hadds', rfl, rfl⟩ := h'
  exact ⟨words ++ words', hadds.append hadds', stringsAt_append k d words words',
    List.foldl_append⟩

theorem addsStrings_empty (k d : Nat) : AddsStrings k d [] d "" :=
  ⟨[], adds_empty d, rfl, rfl⟩

theorem addsStrings_newline (k d : Nat) : AddsStrings k d [] d "\n" :=
  ⟨[], fun _ _ hscans => scans_newline hscans, rfl, rfl⟩

/-- Whether a constant text leads from one depth to another without strings at the depth `k`. -/
def isStringless (k d d' : Nat) (piece : String) : Bool :=
  (pieceWords [] piece.toList).isSome && depthAfter d (wordsOf piece) == some d' &&
    stringsAt k d (wordsOf piece) == [] && (wordsOf piece).foldl depthPast d == d'

theorem addsStrings_piece {piece : String} (h : isStringless k d d' piece = true) :
    AddsStrings k d [] d' piece := by
  rw [isStringless, Bool.and_eq_true, Bool.and_eq_true, Bool.and_eq_true, beq_iff_eq, beq_iff_eq,
    beq_iff_eq] at h
  obtain ⟨⟨⟨hwords, hdepth⟩, hstrings⟩, hpast⟩ := h
  exact ⟨wordsOf piece, adds_piece hwords hdepth, hstrings, hpast⟩

/-! ## Values -/

theorem stringLength_escapedChar (c : Char) (n : Nat) (cs : List Char) :
    stringLength '"' n (Json.escapedChar c ++ cs) =
      stringLength '"' (n + (Json.escapedChar c).length) cs := by
  unfold Json.escapedChar
  split
  · exact stringLength_escape _ n cs
  · exact stringLength_escape _ n cs
  · exact stringLength_escape _ n cs
  · exact stringLength_escape _ n cs
  · exact stringLength_escape _ n cs
  · exact stringLength_escape _ n cs
  · exact stringLength_escape _ n cs
  · next hquote hback _ _ hline _ _ =>
    split
    · next hcontrol =>
      have hdigits : ['0', '0', Nat.digitChar (c.toNat / 16), Nat.digitChar (c.toNat % 16)].all
          isPlainInQuotes = true := by
        have hhigh := isPlainInQuotes_digitChar (n := c.toNat / 16) (by omega)
        have hlow := isPlainInQuotes_digitChar (n := c.toNat % 16) (by omega)
        rw [List.all_cons, List.all_cons, List.all_cons, List.all_cons, hhigh, hlow]
        rfl
      rw [List.cons_append, List.cons_append, stringLength_escape]
      exact stringLength_plain_append hdigits (n + 2) cs
    · refine stringLength_plain ?_ n cs
      rw [isPlainInQuotes, Bool.and_eq_true, Bool.and_eq_true, bne_iff_ne, bne_iff_ne, bne_iff_ne]
      exact ⟨⟨hquote, hback⟩, hline⟩

/-- A string as a JSON value is one string for the scanner. -/
theorem addsStrings_value (k d : Nat) (value : String) :
    AddsStrings k d (if d = k then [Json.quote value] else []) d (Json.quote value) := by
  refine ⟨[(.string, Json.quote value)], ?_, ?_, rfl⟩
  · intro others rest hscans
    exact scans_string (stringLength_flatMap stringLength_escapedChar value.toList 0 rest) hscans
  · simp [stringsAt]

theorem addsStrings_value_of_ne (h : d ≠ k) (value : String) :
    AddsStrings k d [] d (Json.quote value) := by
  have hvalue := addsStrings_value k d value
  rwa [if_neg h] at hvalue

/-- The members of an object that holds strings, inside an entry of the table. -/
theorem addsStrings_members (dependencies : List (String × ModuleId)) :
    AddsStrings 2 4 [] 4
      (",".intercalate (Json.compactMembers (dependencies.map fun p => (p.1, p.2.toJson)))) := by
  have hmember : ∀ p : String × ModuleId,
      AddsStrings 2 4 [] 4 (Json.quote p.1 ++ ":" ++ p.2.toJson.compact) := by
    intro p
    have hcolon : AddsStrings 2 4 [] 4 ":" := addsStrings_piece (by decide)
    exact ((addsStrings_value_of_ne (by decide) p.1).append hcolon).append
      (addsStrings_value_of_ne (by decide) p.2.text)
  induction dependencies with
  | nil => exact addsStrings_empty 2 4
  | cons p dependencies ih =>
    cases dependencies with
    | nil => exact hmember p
    | cons p' dependencies =>
      have hcomma : AddsStrings 2 4 [] 4 "," := addsStrings_piece (by decide)
      rw [List.map_cons, Json.compactMembers] at ih
      rw [List.map_cons, List.map_cons, Json.compactMembers, Json.compactMembers,
        String.intercalate_cons_cons]
      exact ((hmember p).append hcomma).append ih

/-! ## Codes -/

/-- Whether the scanner accepts a code on its own, from its first character on, and all brackets
nest by kind and are closed. -/
structure IsIsolable (code : String) : Prop where
  hashbang : ¬ ['#', '!'] <+: code.toList
  closed : ∃ tokens, scan code = .ok tokens ∧ nesting [] (tokens.map Token.word) = some []

theorem hashbangLength_eq_zero (h : ¬ ['#', '!'] <+: cs) : hashbangLength cs = 0 := by
  unfold hashbangLength
  split
  · next cs => exact absurd (List.prefix_append ['#', '!'] cs) h
  · rfl

theorem IsIsolable.reads (h : IsIsolable text) :
    ∃ words, Scanner.initial.Reads text.toList words ∧ nesting [] words = some [] := by
  obtain ⟨tokens, hscan, hnest⟩ := h.closed
  rw [scan, scanChars, hashbangLength_eq_zero h.hashbang] at hscan
  obtain ⟨_, rfl, hreads⟩ := Scanner.reads_of_run hscan
  exact ⟨_, hreads, hnest⟩

/-- A code ends with a line, so that a comment at its end ends there too. -/
theorem scans_withLineEnd {code : String} {codeWords : List Word}
    (hreads : Scanner.initial.Reads code.toList codeWords) (hnest : nesting [] codeWords = some [])
    (h : Scans d others rest) :
    ScansFresh d (codeWords ++ others) ((withLineEnd code).toList ++ rest) := by
  unfold withLineEnd
  split
  · next hline => exact scans_embedded hreads hnest (Or.inr (Or.inl (beq_iff_eq.1 hline))) h
  · rw [String.toList_append, List.append_assoc]
    exact scans_embedded hreads hnest (Or.inr (Or.inr rfl)) (scans_newline h)

/-- The body of a function in the table. -/
theorem addsStrings_body {code : String} (hcode : IsIsolable code) (strict : Bool) :
    AddsStrings 2 3 [] 4
      ("\x7b\n" ++ (if strict then "\"use strict\";\n" else "") ++ withLineEnd code) := by
  obtain ⟨codeWords, hreads, hnest⟩ := hcode.reads
  have hstrings : stringsAt 2 4 codeWords = [] := stringsAt_of_nesting hnest (by decide)
  have hpast : codeWords.foldl depthPast 4 = 4 := depthPast_of_nesting hnest 4
  cases strict with
  | false =>
    refine ⟨(.punctuator, String.ofList ['{']) :: codeWords, ?_, hstrings, hpast⟩
    intro others rest hscans
    have hcode := scans_withLineEnd hreads hnest hscans
    rw [if_neg Bool.false_ne_true, String.append_empty, String.toList_append, List.append_assoc]
    exact scans_mark_fresh (c := '{') (by decide) (by decide) (by decide) rfl hcode.after_newline
  | true =>
    refine ⟨(.punctuator, String.ofList ['{']) :: (.string, quote "use strict") ::
      (.punctuator, String.ofList [';']) :: codeWords, ?_, hstrings, hpast⟩
    intro others rest hscans
    have hcode := scans_withLineEnd hreads hnest hscans
    have hend := scans_mark_fresh (c := ';') (by decide) (by decide) (by decide) rfl
      hcode.after_newline
    rw [if_pos rfl, String.toList_append, List.append_assoc]
    exact scans_mark (c := '{') (by decide) rfl
      (scans_newline (scans_quote "use strict" hend))

/-! ## The table -/

/-- An entry of the table adds its key. -/
theorem addsStrings_tableEntry {r : Record} (hcode : IsIsolable r.code) (strict : Bool) :
    AddsStrings 2 2 [r.id.toJson.compact] 2 (tableEntry strict r) := by
  have hkey : AddsStrings 2 2 [r.id.toJson.compact] 2 r.id.toJson.compact :=
    addsStrings_value 2 2 r.id.text
  have hopens : AddsStrings 2 2 [] 3 ": [function (require, exports) " :=
    addsStrings_piece (by decide)
  have hbody := addsStrings_body hcode strict
  have hcloses : AddsStrings 2 4 [] 3 "\x7d, " := addsStrings_piece (by decide)
  have hdependencies : AddsStrings 2 3 [] 3 r.dependenciesJson.compact := by
    have hfront : AddsStrings 2 3 [] 4 "\x7b" := addsStrings_piece (by decide)
    have hback : AddsStrings 2 4 [] 3 "\x7d" := addsStrings_piece (by decide)
    exact (hfront.append (addsStrings_members r.dependencies)).append hback
  have hend : AddsStrings 2 3 [] 2 "]" := addsStrings_piece (by decide)
  have hentry :=
    ((((hkey.append hopens).append hbody).append hcloses).append hdependencies).append hend
  have htext : tableEntry strict r = r.id.toJson.compact ++ ": [function (require, exports) " ++
      ("\x7b\n" ++ (if strict then "\"use strict\";\n" else "") ++ withLineEnd r.code) ++ "\x7d, " ++
      r.dependenciesJson.compact ++ "]" := by
    rw [tableEntry, show ": [function (require, exports) \x7b\n" =
      ": [function (require, exports) " ++ "\x7b\n" from rfl]
    simp only [String.append_assoc]
  rw [htext]
  exact hentry

/-- The table adds the keys of its entries. -/
theorem addsStrings_tableText {records : List Record} (h : ∀ r ∈ records, IsIsolable r.code)
    (strict : Bool) :
    AddsStrings 2 2 (records.map fun r => r.id.toJson.compact) 2 (tableText strict records) := by
  induction records with
  | nil => exact addsStrings_empty 2 2
  | cons r records ih =>
    have hentry := addsStrings_tableEntry (h r List.mem_cons_self) strict
    cases records with
    | nil => exact hentry.append (addsStrings_newline 2 2)
    | cons r' records =>
      have hcomma : AddsStrings 2 2 [] 2 "," := addsStrings_piece (by decide)
      have hline : AddsStrings 2 2 [] 2 ",\n" := hcomma.append (addsStrings_newline 2 2)
      exact (hentry.append hline).append (ih fun r hr => h r (List.mem_cons_of_mem _ hr))

/-! ## The loader -/

/-- The characters of lines. -/
def lineChars (lines : List String) : List Char := lines.flatMap fun line => line.toList ++ ['\n']

/-- The loader up to the line that starts the entry leaves a function and a parenthesis open. -/
theorem reads_loaderHead : ∃ words, Scanner.initial.Reads (lineChars loaderHead) words ∧
    nesting [] words = some [.brace, .parenthesis] ∧ stringsAt 2 0 words = [] := by
  have hrun : ((Scanner.initial.run (lineChars loaderHead)).toOption.map fun tokens =>
      (nesting [] (tokens.map Token.word), stringsAt 2 0 (tokens.map Token.word))) =
        some (some [.brace, .parenthesis], []) := by
    -- The characters are spelled out first: decoding a text costs more than scanning it.
    simp only [lineChars, loaderHead, List.flatMap_cons, List.flatMap_nil, String.reduceToList,
      List.cons_append, List.nil_append, List.append_nil]
    decide +kernel
  obtain ⟨tokens, hresult, hwords⟩ := exists_ok_of_map_toOption hrun
  obtain ⟨hnest, hstrings⟩ := Prod.mk.inj hwords
  obtain ⟨_, rfl, hreads⟩ := Scanner.reads_of_run hresult
  exact ⟨_, hreads, hnest, hstrings⟩

theorem isParted_loaderHead (rest : List Char) : IsParted (lineChars loaderHead) rest := by
  have hlast : loaderHead = loaderHead.dropLast ++ [""] := rfl
  rw [lineChars, hlast, List.flatMap_append]
  exact Or.inl List.getLast?_concat

/-- Lines that are joined, the last one without its end. -/
theorem toList_intercalate_lines (lines : List String) (last : String) :
    ("\n".intercalate (lines ++ [last])).toList = lineChars lines ++ last.toList := by
  induction lines with
  | nil => rw [List.nil_append, String.intercalate_singleton]; rfl
  | cons first lines ih =>
    have hcons : "\n".intercalate (first :: (lines ++ [last])) =
        first ++ "\n" ++ "\n".intercalate (lines ++ [last]) := by
      cases lines <;> exact String.intercalate_cons_cons
    rw [List.cons_append, hcons, String.toList_append, String.toList_append, ih, lineChars,
      lineChars, List.flatMap_cons, List.append_assoc _ _ last.toList]
    rfl

/-- A bundle from the line of its loader that starts the entry on. -/
def bundleEnd (g : Graph) (strict : Bool) : String :=
  "  require(" ++ g.entry.toJson.compact ++ ");\n\x7d)" ++ "(\x7b\n" ++
    tableText strict g.records ++ "\x7d);\n"

theorem toList_bundleText (g : Graph) (settings : OutputSettings) :
    (bundleText g settings).toList = (bannerText settings.banner?).toList ++
      (lineChars loaderHead ++ (bundleEnd g settings.strict).toList) := by
  have hend : ");\n\x7d)" = ");" ++ "\n" ++ "\x7d)" := rfl
  have hloader : (loader g.entry.toJson.compact).toList = lineChars loaderHead ++
      ("  require(" ++ g.entry.toJson.compact ++ ");\n\x7d)").toList := by
    rw [loader, loaderTail, toList_intercalate_lines, lineChars, List.flatMap_append, hend]
    simp only [lineChars, List.flatMap_singleton, String.toList_append, List.append_assoc]
    rfl
  simp only [bundleText, bundleEnd, String.toList_append, hloader, List.append_assoc]

/-- The loader is called on the table, and nothing else in it stands at the depth of the table. -/
theorem addsStrings_bundleEnd {g : Graph} (hcodes : ∀ r ∈ g.records, IsIsolable r.code)
    (strict : Bool) :
    AddsStrings 2 2 (g.records.map fun r => r.id.toJson.compact) 0 (bundleEnd g strict) := by
  have hopens : AddsStrings 2 2 [] 3 "  require(" := addsStrings_piece (by decide)
  have hcalls : AddsStrings 2 3 [] 2 ");" := addsStrings_piece (by decide)
  have hcloses : AddsStrings 2 2 [] 0 "\x7d)" := addsStrings_piece (by decide)
  have hloader : AddsStrings 2 3 [] 0 ");\n\x7d)" :=
    (hcalls.append (addsStrings_newline 2 2)).append hcloses
  have htable : AddsStrings 2 0 [] 2 "(\x7b" := addsStrings_piece (by decide)
  have hline : AddsStrings 2 0 [] 2 "(\x7b\n" := htable.append (addsStrings_newline 2 2)
  have hend : AddsStrings 2 2 [] 0 "\x7d);" := addsStrings_piece (by decide)
  have hlast : AddsStrings 2 2 [] 0 "\x7d);\n" := hend.append (addsStrings_newline 2 0)
  have hcall := (hopens.append (addsStrings_value_of_ne (by decide) g.entry.text)).append hloader
  have hall := ((hcall.append hline).append (addsStrings_tableText hcodes strict)).append hlast
  rw [List.append_nil] at hall
  exact hall

/-! ## The banner -/

/-- A comment up to the end of its line is blank. -/
theorem blankLength_line {line : List Char} (h : '\n' ∉ line) (n : Nat) (newline : Bool) :
    blankLength .lineComment n newline (line ++ ['\n']) = .ok (n + line.length + 1, true) := by
  induction line generalizing n with
  | nil => rfl
  | cons c line ih =>
    rw [List.mem_cons, not_or] at h
    have hc : ¬ (c == '\n') = true := fun heq => h.1 (beq_iff_eq.1 heq).symm
    rw [List.cons_append, blankLength, if_neg hc, ih h.2, List.length_cons]
    exact congrArg (fun k => Except.ok (k, true)) (by omega)

theorem not_mem_finishLine {line : List Char} (h : '\n' ∉ line) :
    '\n' ∉ (Text.finishLine line).toList := by
  unfold Text.finishLine
  split
  · rw [String.toList_ofList, List.mem_reverse]
    exact fun hmem => h (List.mem_cons_of_mem _ hmem)
  · rw [String.toList_ofList, List.mem_reverse]
    exact h

/-- No line holds a line feed. -/
theorem not_mem_linesAfter {current cs : List Char} {line : String} (h : '\n' ∉ current)
    (hline : line ∈ Text.linesAfter current cs) : '\n' ∉ line.toList := by
  induction cs generalizing current with
  | nil =>
    unfold Text.linesAfter at hline
    split at hline
    · cases hline
    · rw [List.mem_singleton.1 hline, String.toList_ofList, List.mem_reverse]
      exact h
  | cons c cs ih =>
    unfold Text.linesAfter at hline
    split at hline
    · rcases List.mem_cons.1 hline with rfl | hrest
      · exact not_mem_finishLine h
      · exact ih List.not_mem_nil hrest
    · next hc =>
      refine ih ?_ hline
      rw [List.mem_cons, not_or]
      exact ⟨fun heq => hc (beq_iff_eq.2 heq.symm), h⟩

/-- The banner is blank. -/
theorem Scanner.Reads.after_banner {s : Scanner} (h : s.Reads rest words)
    (banner? : Option String) : s.Reads ((bannerText banner?).toList ++ rest) words := by
  unfold bannerText
  split
  · next banner =>
    have hlines : ∀ line ∈ Text.lines banner, '\n' ∉ line.toList :=
      fun line hline => not_mem_linesAfter List.not_mem_nil hline
    generalize Text.lines banner = lines at hlines ⊢
    induction lines with
    | nil => exact h
    | cons line lines ih =>
      obtain ⟨hline, hlines⟩ := List.forall_mem_cons.1 hlines
      have htext : ("// " ++ line ++ "\n").toList = '/' :: '/' :: (' ' :: line.toList ++ ['\n']) := by
        rw [String.toList_append, String.toList_append]
        rfl
      have hblank : blankLength .between 0 false ("// " ++ line ++ "\n").toList =
          .ok (("// " ++ line ++ "\n").toList.length, true) := by
        have hmem : '\n' ∉ ' ' :: line.toList := by simpa using hline
        rw [htext, blankLength, blankLength_line hmem]
        exact congrArg (fun k => Except.ok (k, true)) (by simp; omega)
      have hparted : ∀ more, IsParted ("// " ++ line ++ "\n").toList more := by
        intro more
        rw [htext, ← List.cons_append, ← List.cons_append]
        exact Or.inl List.getLast?_concat
      rw [List.map_cons, String.join_cons, String.toList_append, List.append_assoc]
      exact (ih hlines).after_blank hblank (Or.inr (hparted _))
  · exact h

/-! ## The bundle -/

theorem head?_bannerText {banner? : Option String}
    (h : (bannerText banner?).toList.head? = some c) : c = '/' := by
  unfold bannerText at h
  split at h
  · next banner =>
    cases hlines : Text.lines banner with
    | nil =>
      rw [hlines] at h
      cases h
    | cons line lines =>
      rw [hlines, List.map_cons, String.join_cons, String.append_assoc, String.append_assoc,
        String.toList_append] at h
      exact (Option.some.inj h).symm
  · cases h

/-- A bundle begins with a comment or with its loader. -/
theorem not_hashbang_bundleText (g : Graph) (settings : OutputSettings) :
    ¬ ['#', '!'] <+: (bundleText g settings).toList := by
  rintro ⟨rest, hrest⟩
  have hhead : some '#' = (bundleText g settings).toList.head? := congrArg List.head? hrest
  rw [toList_bundleText, List.head?_append] at hhead
  cases hbanner : (bannerText settings.banner?).toList.head? with
  | none =>
    rw [hbanner, lineChars, loaderHead, List.flatMap_cons] at hhead
    cases hhead
  | some c =>
    rw [hbanner, head?_bannerText hbanner] at hhead
    cases hhead

/-- The strings at the depth of the table of a bundle are the identifiers of the modules. -/
theorem tableKeys_of_assemble {g : Graph} {settings : OutputSettings} {bundle : String}
    (hcodes : ∀ r ∈ g.records, IsIsolable r.code) (h : assemble g settings = .ok bundle) :
    ∃ tokens, scan bundle = .ok tokens ∧
      (tokens.filter fun t => t.kind == .string && t.depth == 2).map Token.text =
        g.ids.map fun id => id.toJson.compact := by
  have htext : bundle = bundleText g settings := by
    unfold assemble at h
    split at h
    · cases h
    · split at h
      · cases h
      · exact (Except.ok.inj h).symm
  subst htext
  obtain ⟨headWords, hhead, hnest, hstrings⟩ := reads_loaderHead
  obtain ⟨words, hadds, hkeys, -⟩ := addsStrings_bundleEnd hcodes settings.strict
  have hrest := hadds [] [] (scans_nil 0)
  rw [List.append_nil, List.append_nil] at hrest
  have hloader := scans_embedded (d := 0) hhead hnest (Or.inr (isParted_loaderHead _)) hrest
  have hreads := (hloader _ Scanner.isFresh_initial rfl rfl).after_banner settings.banner?
  rw [← toList_bundleText] at hreads
  obtain ⟨tokens, hrun, hwords⟩ :=
    Scanner.run_of_reads hreads (Scanner.inside_initial (by rintro n ⟨⟩))
  have hscan : scan (bundleText g settings) = .ok tokens := by
    rw [scan, scanChars, hashbangLength_eq_zero (not_hashbang_bundleText g settings)]
    exact hrun
  refine ⟨tokens, hscan, ?_⟩
  obtain ⟨found, hfound, hcounted⟩ := Scanner.run_counted hrun
  obtain rfl : tokens = found := hfound
  have hdepth : headWords.foldl depthPast 0 = 2 := depthPast_of_nesting hnest 0
  rw [stringsAt_of_counted hcounted, hwords, Scanner.initial, stringsAt_append, hstrings, hdepth, hkeys, Graph.ids,
    List.map_map]
  rfl

/-- Modules with brackets in regular expressions, templates and comments, one without a line end. -/
def bracketGraph : Graph where
  entry := ⟨"./a.js"⟩
  records :=
    [⟨⟨"./a.js"⟩, "/[(\x7d]/.test(\"\x7d\"); // \x7d])", [("./b\n.js", ⟨"./b\n.js"⟩)]⟩,
     ⟨⟨"./b\n.js"⟩, "exports.b = \x60\x7b$\x7b \x7b a: 1 \x7d.a \x7d(\x60;\n", []⟩]

theorem tableKeys_bracketGraph : ∃ bundle,
    assemble bracketGraph { banner? := some "first line\n*/ \x7d" } = .ok bundle ∧
    ∃ tokens, scan bundle = .ok tokens ∧
      (tokens.filter fun t => t.kind == .string && t.depth == 2).map Token.text =
        bracketGraph.ids.map fun id => id.toJson.compact := by
  have hcodes : ∀ r ∈ bracketGraph.records, IsIsolable r.code := by
    intro r hr
    simp only [bracketGraph, List.mem_cons, List.not_mem_nil, or_false] at hr
    rcases hr with rfl | rfl
    · exact ⟨by decide, exists_ok_of_map_toOption (by decide +kernel)⟩
    · exact ⟨by decide, exists_ok_of_map_toOption (by decide +kernel)⟩
  exact ⟨_, rfl, tableKeys_of_assemble hcodes rfl⟩

end ModuleBundler.Script
