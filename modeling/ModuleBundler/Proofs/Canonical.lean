import Mathlib.Data.List.Infix
import ModuleBundler.Proofs.Ensures
import ModuleBundler.Proofs.Lowercase

/-
  Canonical identifiers. A path is clean if each of its segments is a name (`isClean_iff`), and
  lower case keeps names what they are (`isClean_toLower_iff`). An ending that is added to a clean
  path keeps it clean exactly if it has no backslash and all that follows its slashes are names
  (`isClean_append_iff`). Candidates are not cleaned again after the ending, so this alone decides
  whether an identifier that resolution hands out is canonical (`isCanonical_iff_keepsClean`).
-/

namespace ModuleBundler

/-! ## Pieces of a text -/

namespace Text

variable {separator : Char} {cs ds first : List Char} {rest : List (List Char)}

theorem splitOn_of_notMem (h : separator ∉ cs) : splitOn separator cs = [cs] := by
  induction cs with
  | nil => rfl
  | cons c cs ih =>
    rw [List.mem_cons, not_or] at h
    rw [splitOn, if_neg fun hc => h.1 (beq_iff_eq.1 hc).symm, ih h.2]

theorem splitOn_append_separator (separator : Char) (cs ds : List Char) :
    splitOn separator (cs ++ separator :: ds) = splitOn separator cs ++ splitOn separator ds := by
  induction cs with
  | nil => simp [splitOn]
  | cons c cs ih =>
    rw [List.cons_append, splitOn, splitOn, ih]
    split
    · rfl
    · obtain ⟨piece, pieces, hcs⟩ := List.exists_cons_of_ne_nil (splitOn_ne_nil separator cs)
      rw [hcs]
      rfl

/-- What has no separator joins the first piece of what follows. -/
theorem splitOn_append_of_notMem (h : separator ∉ cs) (hds : splitOn separator ds = first :: rest) :
    splitOn separator (cs ++ ds) = (cs ++ first) :: rest := by
  induction cs with
  | nil => exact hds
  | cons c cs ih =>
    rw [List.mem_cons, not_or] at h
    rw [List.cons_append, splitOn, if_neg fun hc => h.1 (beq_iff_eq.1 hc).symm, ih h.2]
    rfl

/-- The lower case of a text between its slashes is that of each piece. -/
theorem splitOn_lowerAfter (cs : List Char) :
    splitOn '/' (lowerAfter [] cs) = (splitOn '/' cs).map (lowerAfter []) := by
  induction hn : cs.length using Nat.strong_induction_on generalizing cs with
  | _ n ih =>
    by_cases hslash : '/' ∈ cs
    · obtain ⟨front, rest, rfl, hfront⟩ := List.eq_append_cons_of_mem hslash
      rw [List.length_append, List.length_cons] at hn
      rw [lowerAfter_append_separator (by decide), splitOn_append_separator,
        splitOn_append_separator, List.map_append, ih front.length (by omega) front rfl,
        ih rest.length (by omega) rest rfl]
    · have hlower : '/' ∉ lowerAfter [] cs := by
        intro hmem
        have hfilter : '/' ∈ (lowerAfter [] cs).filter isSeparator :=
          List.mem_filter.2 ⟨hmem, by decide⟩
        rw [filter_isSeparator_lowerAfter] at hfilter
        exact hslash (List.mem_filter.1 hfilter).1
      rw [splitOn_of_notMem hslash, splitOn_of_notMem hlower]
      rfl

/-! ## Dots in lower case -/

theorem toLower_eq_dot {c : Char} (hascii : c.toNat < 0x80) (h : c.toLower = '.') : c = '.' := by
  have hall : ∀ n < 0x80, (Char.ofNat n).toLower = '.' → Char.ofNat n = '.' := by decide
  have := hall c.toNat hascii
  rw [Char.ofNat_toNat] at this
  exact this h

theorem ofNat_ne_dot {n : Nat} (h : 0x5c < n) : Char.ofNat n ≠ '.' := by
  intro hdot
  by_cases hvalid : n.isValidChar
  · have hn : (Char.ofNat n).toNat = n := by
      rw [Char.ofNat, dif_pos hvalid]
      rfl
    rw [hdot] at hn
    have : ('.' : Char).toNat = 46 := rfl
    omega
  · rw [Char.ofNat, dif_neg hvalid] at hdot
    exact absurd hdot (by decide)

/-- A dot is the lower form of itself only. -/
theorem eq_dot_of_mem_lowerIn {before : List Char} {c : Char} (h : '.' ∈ lowerIn before c cs) :
    c = '.' := by
  unfold lowerIn lowerChar at h
  split at h
  · split at h <;> simp at h
  · split at h
    · next hascii => exact toLower_eq_dot hascii (List.mem_singleton.1 h).symm
    · split at h
      · simp at h
      · split at h
        · next r hfind =>
          have hlower := lower_of_mem_lowerRuns r (List.mem_of_find?_eq_some hfind)
          exact absurd (List.mem_singleton.1 h).symm (ofNat_ne_dot (by omega))
        · exact (List.mem_singleton.1 h).symm

theorem lowerIn_dot (before cs : List Char) : lowerIn before '.' cs = ['.'] := by
  unfold lowerIn
  rw [if_neg (by decide)]
  decide +kernel

/-- Only dots have dots as their lower case. -/
theorem lowerAfter_eq_replicate_dot {before : List Char} {n : Nat} :
    lowerAfter before cs = List.replicate n '.' ↔ cs = List.replicate n '.' := by
  induction cs generalizing before n with
  | nil => rfl
  | cons c cs ih =>
    rw [lowerAfter_cons]
    constructor
    · intro h
      obtain ⟨d, ds, hlower⟩ := List.exists_cons_of_ne_nil (lowerIn_ne_nil before c cs)
      have hd : d = '.' := by
        have hmem : d ∈ List.replicate n '.' := by
          rw [← h, hlower]
          exact List.mem_cons_self
        exact List.eq_of_mem_replicate hmem
      have hmem : '.' ∈ lowerIn before c cs := by
        rw [hlower, hd]
        exact List.mem_cons_self
      have hc : c = '.' := eq_dot_of_mem_lowerIn hmem
      subst hc
      rw [lowerIn_dot] at h
      cases n with
      | zero => cases h
      | succ n =>
        rw [List.replicate_succ, List.singleton_append, List.cons_inj_right, ih] at h
        rw [List.replicate_succ, h]
    · intro h
      cases n with
      | zero => cases h
      | succ n =>
        rw [List.replicate_succ] at h
        obtain ⟨rfl, hcs⟩ := List.cons_eq_cons.1 h
        rw [lowerIn_dot, ih.2 hcs]
        rfl

theorem mem_lowerAfter_of_isSeparator {before : List Char} {c : Char} (h : isSeparator c = true) :
    c ∈ lowerAfter before cs ↔ c ∈ cs := by
  have hfilter : ∀ ds : List Char, c ∈ ds ↔ c ∈ ds.filter isSeparator := by
    intro ds
    rw [List.mem_filter, and_iff_left h]
  rw [hfilter, filter_isSeparator_lowerAfter, ← hfilter]

end Text

/-! ## Clean paths -/

namespace Path

variable {p q base ending s t : String} {names : List String}

theorem segments_of_notMem (h : '/' ∉ p.toList) : segments p = [p] := by
  rw [segments, Text.splitOn_of_notMem h, List.map_singleton, String.ofList_toList]

theorem segments_append_slash (p q : String) :
    segments (p ++ "/" ++ q) = segments p ++ segments q := by
  have htext : (p ++ "/" ++ q).toList = p.toList ++ '/' :: q.toList := by simp
  rw [segments, htext, Text.splitOn_append_separator, List.map_append, segments, segments]

/-- The names of a path can be read off from it. -/
theorem segments_ofSegments (hne : names ≠ []) (h : ∀ name ∈ names, '/' ∉ name.toList) :
    segments (ofSegments names) = names := by
  induction names with
  | nil => exact absurd rfl hne
  | cons s rest ih =>
    have hs := segments_of_notMem (h s List.mem_cons_self)
    match rest with
    | [] => rw [ofSegments_singleton, hs]
    | t :: rest =>
      have hrest := ih (List.cons_ne_nil _ _) fun n hn => h n (List.mem_cons_of_mem s hn)
      rw [ofSegments_cons_cons, segments_append_slash, hs, hrest, List.singleton_append]

theorem segments_ne_nil (p : String) : segments p ≠ [] := by
  rw [segments, ne_eq, List.map_eq_nil_iff]
  exact Text.splitOn_ne_nil _ _

theorem ofSegments_segments (p : String) : ofSegments (segments p) = p := by
  induction hn : p.toList.length using Nat.strong_induction_on generalizing p with
  | _ n ih =>
    by_cases hslash : '/' ∈ p.toList
    · obtain ⟨front, rest, hp, hfront⟩ := List.eq_append_cons_of_mem hslash
      rw [hp, List.length_append, List.length_cons] at hn
      have htext : p = String.ofList front ++ "/" ++ String.ofList rest :=
        String.toList_injective (by simp [hp])
      have hrest := ih rest.length (by omega) (String.ofList rest) (by rw [String.toList_ofList])
      obtain ⟨t, more, hmore⟩ := List.exists_cons_of_ne_nil (segments_ne_nil (String.ofList rest))
      rw [hmore] at hrest
      rw [htext, segments_append_slash, segments_of_notMem (by rwa [String.toList_ofList]), hmore,
        List.singleton_append, ofSegments_cons_cons, hrest]
    · rw [segments_of_notMem hslash, ofSegments_singleton]

/-- A path is clean exactly if its segments are names. -/
theorem isClean_iff : IsClean p ↔ ∀ s ∈ segments p, IsName s := by
  constructor
  · intro h
    obtain ⟨names, hne, hnames, rfl⟩ := h
    rw [segments_ofSegments hne fun name hname => (hnames name hname).no_slash]
    exact hnames
  · intro h
    exact ⟨segments p, segments_ne_nil p, h, (ofSegments_segments p).symm⟩

/-! ## Lower case -/

theorem toList_toLower (s : String) : (Text.toLower s).toList = Text.lowerAfter [] s.toList :=
  String.toList_ofList

theorem isName_toLower_iff : IsName (Text.toLower s) ↔ IsName s := by
  have hdots : ∀ n, Text.toLower s = String.ofList (List.replicate n '.') ↔
      s = String.ofList (List.replicate n '.') := by
    intro n
    rw [← String.toList_inj, ← String.toList_inj, toList_toLower, String.toList_ofList,
      Text.lowerAfter_eq_replicate_dot]
  have hslash : '/' ∈ Text.lowerAfter [] s.toList ↔ '/' ∈ s.toList :=
    Text.mem_lowerAfter_of_isSeparator (by decide)
  have hback : '\\' ∈ Text.lowerAfter [] s.toList ↔ '\\' ∈ s.toList :=
    Text.mem_lowerAfter_of_isSeparator (by decide)
  constructor
  · intro h
    refine ⟨mt (hdots 0).2 h.ne_empty, mt (hdots 1).2 h.ne_dot, mt (hdots 2).2 h.ne_dots, ?_, ?_⟩
    · exact fun hmem => h.no_slash (toList_toLower s ▸ hslash.2 hmem)
    · exact fun hmem => h.no_backslash (toList_toLower s ▸ hback.2 hmem)
  · intro h
    refine ⟨mt (hdots 0).1 h.ne_empty, mt (hdots 1).1 h.ne_dot, mt (hdots 2).1 h.ne_dots, ?_, ?_⟩
    · exact fun hmem => h.no_slash (hslash.1 (toList_toLower s ▸ hmem))
    · exact fun hmem => h.no_backslash (hback.1 (toList_toLower s ▸ hmem))

/-- Lower case keeps clean paths clean, and makes none of any other. -/
theorem isClean_toLower_iff : IsClean (Text.toLower p) ↔ IsClean p := by
  have hsegments : segments (Text.toLower p) = (segments p).map Text.toLower := by
    rw [segments, toList_toLower, Text.splitOn_lowerAfter, segments, List.map_map, List.map_map]
    refine List.map_congr_left fun piece _ => ?_
    show String.ofList (Text.lowerAfter [] piece) = Text.toLower (String.ofList piece)
    rw [Text.toLower, String.toList_ofList]
  rw [isClean_iff, isClean_iff, hsegments, List.forall_mem_map]
  exact forall₂_congr fun s _ => isName_toLower_iff

/-! ## Endings -/

/-- Whether an ending keeps clean paths clean: it has no backslash, and what follows each of its
slashes is a name. -/
def KeepsClean (ending : String) : Prop :=
  '\\' ∉ ending.toList ∧ ∀ name ∈ (segments ending).tail, IsName name

theorem backslash_mem_ofSegments :
    '\\' ∈ (ofSegments names).toList ↔ ∃ s ∈ names, '\\' ∈ s.toList := by
  induction names with
  | nil => exact ⟨fun h => absurd h List.not_mem_nil, fun h => by simp at h⟩
  | cons s rest ih =>
    match rest with
    | [] => simp [ofSegments_singleton]
    | t :: rest =>
      rw [ofSegments_cons_cons, String.toList_append, String.toList_append, List.mem_append,
        List.mem_append, ih, List.exists_mem_cons_iff]
      simp

theorem IsName.not_prefix_dots (hs : IsName s) : ¬ s.toList <+: ['.', '.'] := by
  intro h
  rw [← List.mem_inits] at h
  simp only [List.inits, List.map_cons, List.map_nil, List.mem_cons, List.not_mem_nil,
    or_false] at h
  rcases h with h | h | h
  · exact hs.ne_empty (String.toList_injective h)
  · exact hs.ne_dot (String.toList_injective h)
  · exact hs.ne_dots (String.toList_injective h)

/-- A name stays one whatever is added to it, up to separators. -/
theorem IsName.append_iff (hs : IsName s) (hslash : '/' ∉ t.toList) :
    IsName (s ++ t) ↔ '\\' ∉ t.toList := by
  have hbegins : ∀ text : String, s ++ t = text → s.toList <+: text.toList := by
    intro text h
    rw [← h, String.toList_append]
    exact List.prefix_append _ _
  constructor
  · intro h hmem
    exact h.no_backslash (String.toList_append ▸ List.mem_append_right _ hmem)
  · intro hback
    refine ⟨?_, ?_, ?_, ?_, ?_⟩
    · exact fun h => hs.not_prefix_dots ((hbegins _ h).trans List.nil_prefix)
    · exact fun h => hs.not_prefix_dots ((hbegins _ h).trans (List.prefix_append ['.'] ['.']))
    · exact fun h => hs.not_prefix_dots (hbegins _ h)
    · rw [String.toList_append, List.mem_append, not_or]
      exact ⟨hs.no_slash, hslash⟩
    · rw [String.toList_append, List.mem_append, not_or]
      exact ⟨hs.no_backslash, hback⟩

/-- The last name of a path takes in what stands before the first slash of an ending. -/
theorem segments_append_of_notMem {first : String} {rest : List String} (h : '/' ∉ s.toList)
    (hending : segments ending = first :: rest) :
    segments (s ++ ending) = (s ++ first) :: rest := by
  obtain ⟨piece, pieces, hpieces, rfl, rfl⟩ := List.map_eq_cons_iff.1 hending
  rw [segments, String.toList_append, Text.splitOn_append_of_notMem h hpieces, List.map_cons,
    String.ofList_append, String.ofList_toList]

/-- An ending leaves a clean path clean exactly if it keeps all of them clean. -/
theorem isClean_append_iff (hbase : IsClean base) :
    IsClean (base ++ ending) ↔ KeepsClean ending := by
  obtain ⟨first, rest, hending⟩ := List.exists_cons_of_ne_nil (segments_ne_nil ending)
  have hslash : '/' ∉ first.toList :=
    slash_notMem_of_mem_segments (p := ending) (hending ▸ List.mem_cons_self)
  have hkeeps : KeepsClean ending ↔ '\\' ∉ first.toList ∧ ∀ name ∈ rest, IsName name := by
    rw [KeepsClean, ← ofSegments_segments ending, backslash_mem_ofSegments, ofSegments_segments,
      hending, List.tail_cons, List.exists_mem_cons_iff, not_or]
    constructor
    · exact fun h => ⟨h.1.1, h.2⟩
    · exact fun h => ⟨⟨h.1, fun ⟨name, hname, hmem⟩ => (h.2 name hname).no_backslash hmem⟩, h.2⟩
  obtain ⟨names, hne, hnames, rfl⟩ := hbase
  rw [hkeeps, isClean_iff]
  -- Only the last name meets the ending.
  induction names with
  | nil => exact absurd rfl hne
  | cons s more ih =>
    obtain ⟨hs, hmore⟩ := List.forall_mem_cons.1 hnames
    match more with
    | [] =>
      rw [ofSegments_singleton, segments_append_of_notMem hs.no_slash hending,
        List.forall_mem_cons, hs.append_iff hslash]
    | t :: more =>
      rw [ofSegments_cons_cons, String.append_assoc, segments_append_slash,
        segments_of_notMem hs.no_slash, List.singleton_append, List.forall_mem_cons]
      exact (and_iff_right hs).trans (ih (List.cons_ne_nil t more) hmore)

theorem keepsClean_empty : KeepsClean "" := by
  refine ⟨List.not_mem_nil, fun name hname => ?_⟩
  rw [segments_of_notMem List.not_mem_nil] at hname
  exact absurd hname List.not_mem_nil

/-- Nothing is wrong with the name of an index file. -/
theorem keepsClean_index_iff : KeepsClean ("/index" ++ ending) ↔ KeepsClean ending := by
  have hname : IsName "index" :=
    ⟨by decide, by decide, by decide, by decide +kernel, by decide +kernel⟩
  have hindex : IsClean (ofSegments ["index", "index"]) :=
    ⟨_, by simp, by simpa using hname, rfl⟩
  have hbase : IsClean (ofSegments ["index"]) := ⟨_, by simp, by simpa using hname, rfl⟩
  have htext : ofSegments ["index", "index"] ++ ending =
      ofSegments ["index"] ++ ("/index" ++ ending) := by
    rw [ofSegments_cons_cons, ofSegments_singleton, String.append_assoc, String.append_assoc]
    rfl
  rw [← isClean_append_iff hbase, ← htext]
  exact isClean_append_iff hindex

/-! ## Cleaning again -/

theorem foldl_walk_of_isName {stack : List String} (h : ∀ name ∈ names, IsName name) :
    names.foldl walk stack = names.reverse ++ stack := by
  induction names generalizing stack with
  | nil => rfl
  | cons s rest ih =>
    obtain ⟨hs, hrest⟩ := List.forall_mem_cons.1 h
    have hwalk : walk stack s = s :: stack := by
      simp [walk, hs.ne_empty, hs.ne_dot, hs.ne_dots]
    rw [List.foldl_cons, hwalk, ih hrest, List.reverse_cons, List.append_assoc,
      List.singleton_append]

/-- A clean path, read from the directory it starts in, is its own clean form. -/
theorem cleanRelative?_of_isClean (h : IsClean p) : cleanRelative? ("./" ++ p) = some p := by
  have hback : '\\' ∉ ("./" ++ p).toList := by
    rw [String.toList_append, List.mem_append, not_or]
    exact ⟨by decide, backslash_notMem_of_isClean h⟩
  have hslashes : withSlashes ("./" ++ p) = "./" ++ p := by
    show String.ofList (("./" ++ p).toList.map slashed) = _
    rw [map_slashed_of_notMem hback, String.ofList_toList]
  have hdot : segments ("./" ++ p) = "." :: segments p := by
    show segments ("." ++ "/" ++ p) = _
    rw [segments_append_slash, segments_of_notMem (by decide), List.singleton_append]
  have hnames := isClean_iff.1 h
  have hclean : cleanSegments ("./" ++ p) = segments p := by
    rw [cleanSegments, hdot, List.foldl_cons]
    show (List.foldl walk [] (segments p)).reverse = _
    rw [foldl_walk_of_isName hnames, List.append_nil, List.reverse_reverse]
  have habsolute : isAbsolute ("./" ++ p) = false := by
    rw [isAbsolute, String.toList_append]
    rfl
  obtain ⟨first, rest, hsegments⟩ := List.exists_cons_of_ne_nil (segments_ne_nil p)
  have hfirst : ¬ (first == "..") = true := fun hdots =>
    (hnames first (hsegments ▸ List.mem_cons_self)).ne_dots (beq_iff_eq.1 hdots)
  rw [cleanRelative?, hslashes, habsolute, if_neg Bool.false_ne_true, hclean, hsegments]
  dsimp only
  rw [if_neg hfirst, ← hsegments, ofSegments_segments]

end Path

/-! ## Identifiers -/

namespace ModuleId

variable {p : String} {caseSensitive : Bool} {id : ModuleId}

/-- Whether an identifier is a clean path behind `./`. -/
def IsCanonical (id : ModuleId) : Prop := ∃ clean, Path.IsClean clean ∧ id.text = "./" ++ clean

theorem isCanonical_ofClean_iff : (ofClean p caseSensitive).IsCanonical ↔ Path.IsClean p := by
  have htext : ∀ q, IsCanonical ⟨"./" ++ q⟩ ↔ Path.IsClean q := by
    intro q
    constructor
    · intro h
      obtain ⟨clean, hclean, heq⟩ := h
      rwa [(String.append_right_inj _).1 heq]
    · exact fun h => ⟨q, h, rfl⟩
  rw [ofClean, htext]
  split
  · exact Iff.rfl
  · exact Path.isClean_toLower_iff

/-- An identifier is canonical exactly if its text as a path has this identifier. -/
theorem ofPath?_text_iff : ofPath? id.text true = some id ↔ id.IsCanonical := by
  rw [ofPath?, Option.map_eq_some_iff]
  constructor
  · intro h
    obtain ⟨clean, hclean, rfl⟩ := h
    exact ⟨clean, Path.isClean_of_cleanRelative? hclean, rfl⟩
  · intro h
    obtain ⟨clean, hclean, htext⟩ := h
    rw [htext]
    refine ⟨clean, Path.cleanRelative?_of_isClean hclean, ?_⟩
    rw [ofClean, if_pos rfl, ← htext]

end ModuleId

/-! ## What is handed out -/

namespace Resolver

variable {σ : Type} {files : Files (StateM σ)} {r : Resolver} {l : Located} {ending : String}

/-- The ways to find a module in a file system of any kind. -/
inductive HandsOut (files : Files (StateM σ)) (r : Resolver) (l : Located) : Prop where
  | entry (path : String) (st : σ) (h : (locateEntry files r path st).1 = .ok l)
  | locate (specifier : String) (importer : ModuleId) (st : σ)
      (h : (locate files r specifier importer st).1 = .ok l)
  | locateFrom (specifier : String) (importer : Located) (st : σ)
      (h : (locateFrom files r specifier importer st).1 = .ok l)

theorem HandsOut.isCandidate (h : HandsOut files r l) : r.IsCandidate l := by
  cases h with
  | entry path st h => exact ensures_locateEntry files r path st l h
  | locate specifier importer st h => exact ensures_locateIn files r specifier _ importer st l h
  | locateFrom specifier importer st h =>
    exact ensures_locateFrom files r specifier importer st l h

theorem keepsClean_of_mem_endings (h : ∀ e ∈ r.settings.extensions, Path.KeepsClean e)
    (hending : ending ∈ r.endings) : Path.KeepsClean ending := by
  rw [endings, List.mem_cons, List.mem_append, List.mem_map] at hending
  rcases hending with rfl | hending | ⟨extension, hextension, rfl⟩
  · exact Path.keepsClean_empty
  · exact h ending hending
  · exact Path.keepsClean_index_iff.2 (h extension hextension)

/-- A module that is handed out has the clean path that was asked for with an ending, and its
identifier is canonical, or gives itself back as a path, exactly if this ending keeps clean paths
clean. So all identifiers are canonical if all extensions are such endings. -/
theorem isCanonical_iff_keepsClean (h : HandsOut files r l) : ∃ base ending,
    Path.IsClean base ∧ ending ∈ r.endings ∧ l = r.locatedAt (base ++ ending) ∧
      (l.id.IsCanonical ↔ Path.KeepsClean ending) ∧
      (ModuleId.ofPath? l.id.text true = some l.id ↔ Path.KeepsClean ending) ∧
      ((∀ e ∈ r.settings.extensions, Path.KeepsClean e) → Path.KeepsClean ending) := by
  obtain ⟨base, ending, hbase, hending, rfl⟩ := h.isCandidate
  have hcanonical : (r.locatedAt (base ++ ending)).id.IsCanonical ↔ Path.KeepsClean ending :=
    ModuleId.isCanonical_ofClean_iff.trans (Path.isClean_append_iff hbase)
  exact ⟨base, ending, hbase, hending, rfl, hcanonical,
    ModuleId.ofPath?_text_iff.trans hcanonical,
    fun hextensions => keepsClean_of_mem_endings hextensions hending⟩

/-- A project with a directory whose index file is found by way of its extension only. -/
def indexStore : Store := .ofFiles [("/p/Lib.d/Index.js", .empty)]

/-- Resolution in this project without case, with an extension that leads into a directory. -/
def indexResolver : Resolver := ⟨"/p", { extensions := [".d/Index.js"], caseSensitive := false }⟩

theorem isCanonical_iff_keepsClean_indexStore :
    HandsOut Store.fileSystem.toFiles indexResolver
      ⟨⟨"./lib.d/index.js"⟩, "/p/Lib.d/Index.js", "Lib.d/Index.js"⟩ ∧
    ∃ base ending, Path.IsClean base ∧ ending ∈ indexResolver.endings ∧
      (⟨⟨"./lib.d/index.js"⟩, "/p/Lib.d/Index.js", "Lib.d/Index.js"⟩ : Located) =
        indexResolver.locatedAt (base ++ ending) ∧
      (ModuleId.IsCanonical ⟨"./lib.d/index.js"⟩ ↔ Path.KeepsClean ending) ∧
      (ModuleId.ofPath? "./lib.d/index.js" true = some ⟨"./lib.d/index.js"⟩ ↔
        Path.KeepsClean ending) ∧
      ((∀ e ∈ indexResolver.settings.extensions, Path.KeepsClean e) → Path.KeepsClean ending) := by
  have h : HandsOut Store.fileSystem.toFiles indexResolver
      ⟨⟨"./lib.d/index.js"⟩, "/p/Lib.d/Index.js", "Lib.d/Index.js"⟩ := by
    refine .entry "Lib" indexStore ?_
    show @Eq (Except ResolveError Located) _ _
    decide +kernel
  exact ⟨h, isCanonical_iff_keepsClean h⟩

/-- A backslash in an extension stays in the identifier, and the file has another identifier where
it is imported by its whole name. -/
theorem uncanonical_index :
    let s : Store := .ofFiles [("/p/lib/index.js", .empty)]
    let r : Resolver := ⟨"/p", { extensions := ["\\index.js"] }⟩
    locateEntry (m := Id) s.toFiles r "lib" =
      .ok ⟨⟨"./lib\\index.js"⟩, "/p/lib\\index.js", "lib\\index.js"⟩ ∧
    locate (m := Id) s.toFiles r "./lib/index.js" ⟨"./main.js"⟩ =
      .ok ⟨⟨"./lib/index.js"⟩, "/p/lib/index.js", "lib/index.js"⟩ ∧
    ModuleId.ofPath? "./lib\\index.js" true = some ⟨"./lib/index.js"⟩ ∧
    ¬ ModuleId.IsCanonical ⟨"./lib\\index.js"⟩ := by
  refine ⟨?_, ?_, by decide +kernel, ?_⟩
  · show @Eq (Except ResolveError Located) _ _
    decide +kernel
  · show @Eq (Except ResolveError Located) _ _
    decide +kernel
  · rw [← ModuleId.ofPath?_text_iff]
    decide +kernel

end Resolver

end ModuleBundler
