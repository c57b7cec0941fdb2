import Mathlib.Logic.Relation
import ModuleBundler.Proofs.Canonical

/-
  Where paths lead. The parts of a path stand between its separators. `Climbs` counts them: somewhere
  on the way there are more steps up than names. `normalForm` is what is left on a stack of names,
  and it is the only list of names to which the parts can be shortened by leaving out what leads
  nowhere and names with the step back behind them (`shortens_iff`). Cleaning keeps its steps up
  on the stack instead; it fails exactly where the path starts with a separator, climbs, or leads
  nowhere, and gives the normal form otherwise (`cleanRelative?_eq_none_iff`,
  `cleanRelative?_eq_some_iff`). So paths whose parts can be shortened to the same are the same to it
  (`cleanRelative?_congr`), and a canonical directory stands for any spelling of it
  (`ofPath?_canonicalises`).
-/

namespace ModuleBundler.Path

variable {p q a c : String} {part name : String} {names rest front back stack : List String}
  {depth : Nat}

/-! ## Parts -/

/-- The parts of a path between its separators of either kind, empty ones included. -/
def parts (p : String) : List String := (p.toList.splitOnP Text.isSeparator).map String.ofList

/-- Whether a path starts with a separator of either kind. -/
def startsSeparated (p : String) : Bool := p.toList.head?.any Text.isSeparator

/-- Whether a part leads nowhere. -/
def isIdle (part : String) : Bool := part == "" || part == "."

/-- Whether a part is a name, and so leads neither nowhere nor up. -/
def isNaming (part : String) : Bool := !isIdle part && part != ".."

theorem part_cases (part : String) :
    isIdle part = true ∨ part = ".." ∨ isNaming part = true := by
  by_cases hidle : isIdle part = true
  · exact Or.inl hidle
  · by_cases hup : part = ".."
    · exact Or.inr (Or.inl hup)
    · refine Or.inr (Or.inr ?_)
      simp [isNaming, hidle, hup]

theorem ne_dots_of_isIdle (h : isIdle part = true) : part ≠ ".." := by
  rintro rfl
  exact absurd h (by decide)

theorem ne_dots_of_isNaming (h : isNaming part = true) : part ≠ ".." := by
  rintro rfl
  exact absurd h (by decide)

theorem isIdle_of_isNaming (h : isNaming part = true) : isIdle part = false := by
  rw [isNaming, Bool.and_eq_true, Bool.not_eq_true'] at h
  exact h.1

theorem isNaming_of_isIdle (h : isIdle part = true) : isNaming part = false := by
  rw [isNaming, h]
  rfl

/-! ## Climbing -/

/-- Whether parts lead out of a directory on the way: up to some part there are more steps up than
names. -/
def Climbs (parts : List String) : Prop :=
  ∃ front, front <+: parts ∧ front.countP isNaming < front.count ".."

instance (parts : List String) : Decidable (Climbs parts) :=
  decidable_of_iff (∃ front ∈ parts.inits, front.countP isNaming < front.count "..") <|
    exists_congr fun _ => and_congr_left fun _ => List.mem_inits _ _

/-- Whether parts lead out of a directory on the way when they are read so many names below it. -/
def ClimbsFrom (depth : Nat) (parts : List String) : Prop :=
  ∃ front, front <+: parts ∧ depth + front.countP isNaming < front.count ".."

theorem climbs_iff : Climbs rest ↔ ClimbsFrom 0 rest := by
  unfold Climbs ClimbsFrom
  simp only [Nat.zero_add]

theorem not_climbsFrom_nil : ¬ ClimbsFrom depth [] := by
  rintro ⟨front, hfront, hlt⟩
  rw [List.prefix_nil.1 hfront] at hlt
  simp at hlt

/-- The first part settles at which depth the others are read. -/
theorem climbsFrom_cons : ClimbsFrom depth (part :: rest) ↔
    ∃ front, front <+: rest ∧
      depth + (part :: front).countP isNaming < (part :: front).count ".." := by
  constructor
  · rintro ⟨front, hfront, hlt⟩
    rcases List.prefix_cons_iff.1 hfront with rfl | ⟨front, rfl, hrest⟩
    · simp at hlt
    · exact ⟨front, hrest, hlt⟩
  · rintro ⟨front, hfront, hlt⟩
    exact ⟨part :: front, List.cons_prefix_cons.2 ⟨rfl, hfront⟩, hlt⟩

theorem climbsFrom_idle (h : isIdle part = true) :
    ClimbsFrom depth (part :: rest) ↔ ClimbsFrom depth rest := by
  rw [climbsFrom_cons]
  refine exists_congr fun front => and_congr_right fun _ => ?_
  rw [List.countP_cons_of_neg (by rw [isNaming_of_isIdle h]; exact Bool.false_ne_true),
    List.count_cons_of_ne (ne_dots_of_isIdle h)]

theorem climbsFrom_name (h : isNaming part = true) :
    ClimbsFrom depth (part :: rest) ↔ ClimbsFrom (depth + 1) rest := by
  rw [climbsFrom_cons]
  refine exists_congr fun front => and_congr_right fun _ => ?_
  rw [List.countP_cons_of_pos h, List.count_cons_of_ne (ne_dots_of_isNaming h)]
  omega

theorem climbsFrom_up : ClimbsFrom (depth + 1) (".." :: rest) ↔ ClimbsFrom depth rest := by
  rw [climbsFrom_cons]
  refine exists_congr fun front => and_congr_right fun _ => ?_
  rw [List.countP_cons_of_neg (by decide), List.count_cons_self]
  omega

theorem climbsFrom_zero_up : ClimbsFrom 0 (".." :: rest) :=
  climbsFrom_cons.2 ⟨[], List.nil_prefix, by decide⟩

/-! ## Normal forms -/

/-- The names that lead to a place, last first, after one more part. -/
def settle (stack : List String) (part : String) : List String :=
  if isIdle part then stack else if part == ".." then stack.tail else part :: stack

/-- The names that are left of parts when every step up takes the last name away. -/
def normalForm (parts : List String) : List String := (parts.foldl settle []).reverse

theorem settle_idle (h : isIdle part = true) : settle stack part = stack := if_pos h

theorem settle_up : settle stack ".." = stack.tail := rfl

theorem settle_name (h : isNaming part = true) : settle stack part = part :: stack := by
  rw [settle, if_neg (by rw [isIdle_of_isNaming h]; exact Bool.false_ne_true),
    if_neg (mt beq_iff_eq.1 (ne_dots_of_isNaming h))]

theorem isNaming_of_mem_settle (h : ∀ s ∈ stack, isNaming s = true) :
    ∀ s ∈ settle stack part, isNaming s = true := by
  rcases part_cases part with hidle | rfl | hname
  · rwa [settle_idle hidle]
  · exact fun s hs => h s (List.mem_of_mem_tail hs)
  · rw [settle_name hname]
    exact List.forall_mem_cons.2 ⟨hname, h⟩

theorem isNaming_of_mem_foldl_settle (h : ∀ s ∈ stack, isNaming s = true) :
    ∀ s ∈ rest.foldl settle stack, isNaming s = true := by
  induction rest generalizing stack with
  | nil => exact h
  | cons part rest ih => exact ih (isNaming_of_mem_settle h)

theorem isNaming_of_mem_normalForm (h : name ∈ normalForm rest) : isNaming name = true :=
  isNaming_of_mem_foldl_settle (fun _ hs => absurd hs List.not_mem_nil) _ (List.mem_reverse.1 h)

theorem mem_of_mem_foldl_settle (h : name ∈ rest.foldl settle stack) :
    name ∈ stack ∨ name ∈ rest := by
  induction rest generalizing stack with
  | nil => exact Or.inl h
  | cons part rest ih =>
    rcases ih h with h | h
    · rcases part_cases part with hidle | rfl | hname
      · rw [settle_idle hidle] at h
        exact Or.inl h
      · exact Or.inl (List.mem_of_mem_tail h)
      · rw [settle_name hname] at h
        rcases List.mem_cons.1 h with rfl | h
        · exact Or.inr List.mem_cons_self
        · exact Or.inl h
    · exact Or.inr (List.mem_cons_of_mem part h)

theorem mem_of_mem_normalForm (h : name ∈ normalForm rest) : name ∈ rest :=
  (mem_of_mem_foldl_settle (List.mem_reverse.1 h)).resolve_left List.not_mem_nil

theorem foldl_settle_of_isNaming (h : ∀ s ∈ names, isNaming s = true) :
    names.foldl settle stack = names.reverse ++ stack := by
  induction names generalizing stack with
  | nil => rfl
  | cons name names ih =>
    obtain ⟨hname, hnames⟩ := List.forall_mem_cons.1 h
    rw [List.foldl_cons, settle_name hname, ih hnames, List.reverse_cons, List.append_assoc,
      List.singleton_append]

/-- Names are their own normal form. -/
theorem normalForm_of_isNaming (h : ∀ s ∈ names, isNaming s = true) : normalForm names = names := by
  rw [normalForm, foldl_settle_of_isNaming h, List.append_nil, List.reverse_reverse]

/-- Names alone never climb. -/
theorem not_climbs_of_isNaming (h : ∀ s ∈ names, isNaming s = true) : ¬ Climbs names := by
  rintro ⟨front, hfront, hlt⟩
  have hnone : front.count ".." = 0 := List.count_eq_zero.2 fun hmem =>
    ne_dots_of_isNaming (h ".." (hfront.subset hmem)) rfl
  omega

/-! ## Shortening -/

/-- One step by which parts get shorter and lead to the same place. -/
inductive Shortens : List String → List String → Prop where
  /-- What leads nowhere is left out. -/
  | idle (front back : List String) {part : String} (h : isIdle part = true) :
      Shortens (front ++ part :: back) (front ++ back)
  /-- A name is left out with the step back behind it. -/
  | back (front back : List String) {name : String} (h : isNaming name = true) :
      Shortens (front ++ name :: ".." :: back) (front ++ back)

theorem Shortens.append_right {parts parts' : List String} (h : Shortens parts parts')
    (more : List String) : Shortens (parts ++ more) (parts' ++ more) := by
  cases h with
  | idle front back hidle =>
    rw [List.append_assoc, List.append_assoc, List.cons_append]
    exact .idle front (back ++ more) hidle
  | back front back hname =>
    rw [List.append_assoc, List.append_assoc, List.cons_append, List.cons_append]
    exact .back front (back ++ more) hname

/-- Parts that lead out of a directory do so behind any others, as far as these do not. -/
theorem climbsFrom_append_congr {parts parts' : List String}
    (h : ∀ depth, ClimbsFrom depth parts ↔ ClimbsFrom depth parts') (front : List String) :
    ClimbsFrom depth (front ++ parts) ↔ ClimbsFrom depth (front ++ parts') := by
  induction front generalizing depth with
  | nil => exact h depth
  | cons part front ih =>
    rw [List.cons_append, List.cons_append]
    rcases part_cases part with hidle | rfl | hname
    · rw [climbsFrom_idle hidle, climbsFrom_idle hidle, ih]
    · cases depth with
      | zero => exact iff_of_true climbsFrom_zero_up climbsFrom_zero_up
      | succ depth => rw [climbsFrom_up, climbsFrom_up, ih]
    · rw [climbsFrom_name hname, climbsFrom_name hname, ih]

/-- A step leaves alone where parts lead, and whether they climb. -/
theorem Shortens.keeps {parts parts' : List String} (h : Shortens parts parts') :
    normalForm parts = normalForm parts' ∧ (Climbs parts ↔ Climbs parts') := by
  rw [climbs_iff, climbs_iff, normalForm, normalForm]
  cases h with
  | idle front back hidle =>
    refine ⟨?_, climbsFrom_append_congr (fun _ => climbsFrom_idle hidle) front⟩
    rw [List.foldl_append, List.foldl_append, List.foldl_cons, settle_idle hidle]
  | back front back hname =>
    refine ⟨?_, climbsFrom_append_congr (fun _ => ?_) front⟩
    · rw [List.foldl_append, List.foldl_append, List.foldl_cons, List.foldl_cons,
        settle_name hname, settle_up, List.tail_cons]
    · rw [climbsFrom_name hname, climbsFrom_up]

theorem keeps_of_shortens {parts parts' : List String}
    (h : Relation.ReflTransGen Shortens parts parts') :
    normalForm parts = normalForm parts' ∧ (Climbs parts ↔ Climbs parts') := by
  induction h with
  | refl => exact ⟨rfl, Iff.rfl⟩
  | tail _ hstep ih => exact ⟨ih.1.trans hstep.keeps.1, ih.2.trans hstep.keeps.2⟩

/-- Parts behind a stack of names are shortened to what the stack becomes. -/
theorem shortens_foldl_settle (hstack : ∀ s ∈ stack, isNaming s = true)
    (h : ¬ ClimbsFrom stack.length rest) :
    Relation.ReflTransGen Shortens (stack.reverse ++ rest) (rest.foldl settle stack).reverse := by
  induction rest generalizing stack with
  | nil =>
    rw [List.append_nil]
    exact .refl
  | cons part rest ih =>
    rw [List.foldl_cons]
    rcases part_cases part with hidle | rfl | hname
    · rw [climbsFrom_idle hidle] at h
      rw [settle_idle hidle]
      exact (ih hstack h).head (.idle stack.reverse rest hidle)
    · match stack with
      | [] => exact absurd climbsFrom_zero_up h
      | top :: below =>
        obtain ⟨htop, hbelow⟩ := List.forall_mem_cons.1 hstack
        rw [List.length_cons, climbsFrom_up] at h
        rw [settle_up, List.tail_cons, List.reverse_cons, List.append_assoc, List.singleton_append]
        exact (ih hbelow h).head (.back below.reverse rest htop)
    · rw [climbsFrom_name hname] at h
      have hrest := ih (List.forall_mem_cons.2 ⟨hname, hstack⟩) h
      rw [List.reverse_cons, List.append_assoc, List.singleton_append] at hrest
      rwa [settle_name hname]

/-- The names to which parts can be shortened are their normal form, and there are none if the parts
climb. -/
theorem shortens_iff (hnames : ∀ s ∈ names, isNaming s = true) :
    Relation.ReflTransGen Shortens rest names ↔ ¬ Climbs rest ∧ normalForm rest = names := by
  constructor
  · intro h
    obtain ⟨hform, hclimbs⟩ := keeps_of_shortens h
    exact ⟨mt hclimbs.1 (not_climbs_of_isNaming hnames),
      hform.trans (normalForm_of_isNaming hnames)⟩
  · rintro ⟨hclimbs, rfl⟩
    rw [climbs_iff] at hclimbs
    exact shortens_foldl_settle (fun s hs => absurd hs List.not_mem_nil) hclimbs

/-- What leads nowhere may be left out everywhere. -/
theorem shortens_filter (front rest : List String) :
    Relation.ReflTransGen Shortens (front ++ rest) (front ++ rest.filter (!isIdle ·)) := by
  induction rest generalizing front with
  | nil => exact .refl
  | cons part rest ih =>
    cases hidle : isIdle part with
    | true =>
      rw [List.filter_cons_of_neg (by rw [hidle]; exact Bool.false_ne_true)]
      exact (ih front).head (.idle front rest hidle)
    | false =>
      have hrest := ih (front ++ [part])
      rw [List.append_assoc, List.append_assoc, List.singleton_append] at hrest
      rwa [List.filter_cons_of_pos (by rw [hidle]; rfl)]

/-! ## The parts of a text -/

theorem parts_append_slash (p q : String) : parts (p ++ "/" ++ q) = parts p ++ parts q := by
  have htext : (p ++ "/" ++ q).toList = p.toList ++ '/' :: q.toList := by simp
  rw [parts, htext, List.splitOnP_append_cons _ _ (by decide), List.map_append, parts, parts]

theorem splitOn_map_slashed (cs : List Char) :
    Text.splitOn '/' (cs.map slashed) = cs.splitOnP Text.isSeparator := by
  induction cs with
  | nil => rfl
  | cons c cs ih =>
    rw [List.map_cons, Text.splitOn, ih, List.splitOnP_cons_eq_if_modifyHead]
    cases hc : Text.isSeparator c with
    | true =>
      have hslash : (slashed c == '/') = true := by
        rcases Text.isSeparator_iff.1 hc with rfl | rfl <;> decide
      rw [if_pos hslash, if_pos rfl]
    | false =>
      rw [Text.slashed_of_not_isSeparator hc]
      have hslash : ¬ (c == '/') = true := by
        intro heq
        rw [beq_iff_eq.1 heq] at hc
        cases hc
      rw [if_neg hslash, if_neg Bool.false_ne_true]
      obtain ⟨piece, pieces, hcs⟩ :=
        List.exists_cons_of_ne_nil (List.splitOnP_ne_nil Text.isSeparator cs)
      rw [hcs]
      rfl

/-- The parts of a path are the segments that it has with slashes only. -/
theorem segments_withSlashes (p : String) : segments (withSlashes p) = parts p := by
  rw [segments, withSlashes, String.toList_ofList]
  exact congrArg (List.map String.ofList) (splitOn_map_slashed p.toList)

theorem isAbsolute_withSlashes (p : String) : isAbsolute (withSlashes p) = startsSeparated p := by
  rw [isAbsolute, withSlashes, String.toList_ofList, startsSeparated, List.head?_map]
  cases p.toList.head? with
  | none => rfl
  | some c =>
    show ((if c == '\\' then '/' else c) == '/') = (c == '/' || c == '\\')
    split
    · next hc =>
      rw [hc, Bool.or_true]
      rfl
    · next hc =>
      rw [Bool.not_eq_true] at hc
      rw [hc, Bool.or_false]

theorem isName_of_mem_parts (h : part ∈ parts p) (hname : isNaming part = true) : IsName part := by
  rw [← segments_withSlashes] at h
  rw [isNaming, isIdle, Bool.and_eq_true, Bool.not_eq_true', Bool.or_eq_false_iff, bne_iff_ne,
    beq_eq_false_iff_ne, beq_eq_false_iff_ne] at hname
  exact ⟨hname.1.1, hname.1.2, hname.2, slash_notMem_of_mem_segments h,
    backslash_notMem_of_mem_segments h⟩

theorem isName_of_mem_normalForm (h : name ∈ normalForm (parts p)) : IsName name :=
  isName_of_mem_parts (mem_of_mem_normalForm h) (isNaming_of_mem_normalForm h)

theorem IsName.isNaming (h : IsName name) : isNaming name = true := by
  simp [Path.isNaming, isIdle, h.ne_empty, h.ne_dot, h.ne_dots]

/-- The parts of segments put together are those of each. -/
theorem parts_ofSegments (hne : names ≠ []) : parts (ofSegments names) = names.flatMap parts := by
  induction names with
  | nil => exact absurd rfl hne
  | cons s rest ih =>
    match rest with
    | [] => rw [ofSegments_singleton, List.flatMap_singleton]
    | t :: rest =>
      rw [ofSegments_cons_cons, parts_append_slash, ih (List.cons_ne_nil t rest)]
      rfl

/-! ## Cleaning -/

theorem walk_idle (h : isIdle part = true) : walk stack part = stack := if_pos h

theorem walk_name (h : isNaming part = true) : walk stack part = part :: stack := by
  have hidle : ¬ (part == "" || part == ".") = true := by
    rw [Bool.not_eq_true]
    exact isIdle_of_isNaming h
  unfold walk
  rw [if_neg hidle, if_neg (mt beq_iff_eq.1 (ne_dots_of_isNaming h))]

theorem walk_up_cons (top : String) (below : List String) : walk (top :: below) ".." =
    if top == ".." then ".." :: top :: below else below := rfl

/-- A step up out of the starting directory stays at the bottom of the stack. -/
theorem getLast?_walk (h : stack.getLast? = some "..") :
    (walk stack part).getLast? = some ".." := by
  match stack with
  | [] => cases h
  | top :: below =>
    rcases part_cases part with hidle | rfl | hname
    · rwa [walk_idle hidle]
    · rw [walk_up_cons]
      split
      · rwa [List.getLast?_cons_cons]
      · next htop =>
        match below with
        | [] =>
          rw [List.getLast?_singleton, Option.some.injEq] at h
          exact absurd (beq_iff_eq.2 h) htop
        | next :: below => rwa [List.getLast?_cons_cons] at h
    · rwa [walk_name hname, List.getLast?_cons_cons]

theorem getLast?_foldl_walk (h : stack.getLast? = some "..") :
    (rest.foldl walk stack).getLast? = some ".." := by
  induction rest generalizing stack with
  | nil => exact h
  | cons part rest ih => exact ih (getLast?_walk h)

/-- Walking goes like settling until it climbs, and then keeps a step up at the bottom. -/
theorem foldl_walk (hstack : ∀ s ∈ stack, isNaming s = true) :
    (¬ ClimbsFrom stack.length rest → rest.foldl walk stack = rest.foldl settle stack) ∧
      (ClimbsFrom stack.length rest → (rest.foldl walk stack).getLast? = some "..") := by
  induction rest generalizing stack with
  | nil => exact ⟨fun _ => rfl, fun h => absurd h not_climbsFrom_nil⟩
  | cons part rest ih =>
    rw [List.foldl_cons, List.foldl_cons]
    rcases part_cases part with hidle | rfl | hname
    · rw [climbsFrom_idle hidle, walk_idle hidle, settle_idle hidle]
      exact ih hstack
    · match stack with
      | [] =>
        have hbottom : [".."].getLast? = some ".." := rfl
        exact ⟨fun h => absurd climbsFrom_zero_up h, fun _ => getLast?_foldl_walk hbottom⟩
      | top :: below =>
        obtain ⟨htop, hbelow⟩ := List.forall_mem_cons.1 hstack
        rw [List.length_cons, climbsFrom_up, settle_up, List.tail_cons, walk_up_cons,
          if_neg (mt beq_iff_eq.1 (ne_dots_of_isNaming htop))]
        exact ih hbelow
    · rw [climbsFrom_name hname, walk_name hname, settle_name hname]
      exact ih (List.forall_mem_cons.2 ⟨hname, hstack⟩)

theorem cleanSegments_withSlashes (p : String) :
    (¬ Climbs (parts p) → cleanSegments (withSlashes p) = normalForm (parts p)) ∧
      (Climbs (parts p) → (cleanSegments (withSlashes p)).head? = some "..") := by
  have hwalk : (¬ ClimbsFrom 0 (parts p) →
        (parts p).foldl walk [] = (parts p).foldl settle []) ∧
      (ClimbsFrom 0 (parts p) → ((parts p).foldl walk []).getLast? = some "..") :=
    foldl_walk fun s hs => absurd hs List.not_mem_nil
  obtain ⟨hinside, houtside⟩ := hwalk
  rw [climbs_iff, cleanSegments, segments_withSlashes, normalForm, List.head?_reverse]
  exact ⟨fun h => congrArg List.reverse (hinside h), houtside⟩

/-- Whether a path leads to something inside the directory that it starts from, and nowhere outside
on the way. -/
structure StaysInside (p : String) : Prop where
  relative : startsSeparated p = false
  not_climbs : ¬ Climbs (parts p)
  ne_nil : normalForm (parts p) ≠ []

/-- Cleaning gives the normal form of a path that stays inside. -/
theorem cleanRelative?_of_staysInside (h : StaysInside p) :
    cleanRelative? p = some (ofSegments (normalForm (parts p))) := by
  obtain ⟨first, rest, hform⟩ := List.exists_cons_of_ne_nil h.ne_nil
  have hfirst : ¬ (first == "..") = true := by
    have hmem : first ∈ normalForm (parts p) := hform ▸ List.mem_cons_self
    exact mt beq_iff_eq.1 (ne_dots_of_isNaming (isNaming_of_mem_normalForm hmem))
  rw [cleanRelative?, isAbsolute_withSlashes, h.relative, if_neg Bool.false_ne_true,
    (cleanSegments_withSlashes p).1 h.not_climbs, hform]
  exact if_neg hfirst

/-- Cleaning refuses every other path. -/
theorem cleanRelative?_of_not_staysInside (h : ¬ StaysInside p) : cleanRelative? p = none := by
  rw [cleanRelative?, isAbsolute_withSlashes]
  split
  · rfl
  · next hrelative =>
    rw [Bool.not_eq_true] at hrelative
    obtain ⟨hinside, houtside⟩ := cleanSegments_withSlashes p
    by_cases hclimbs : Climbs (parts p)
    · obtain ⟨names, hnames⟩ := List.head?_eq_some_iff.1 (houtside hclimbs)
      rw [hnames]
      rfl
    · have hnil : normalForm (parts p) = [] :=
        Decidable.byContradiction fun hne => h ⟨hrelative, hclimbs, hne⟩
      rw [hinside hclimbs, hnil]

theorem cleanRelative?_eq_some_iff :
    cleanRelative? p = some c ↔ StaysInside p ∧ c = ofSegments (normalForm (parts p)) := by
  by_cases h : StaysInside p
  · rw [cleanRelative?_of_staysInside h, Option.some.injEq, and_iff_right h, eq_comm]
  · rw [cleanRelative?_of_not_staysInside h]
    exact iff_of_false nofun fun hinside => h hinside.1

theorem cleanRelative?_eq_none : cleanRelative? p = none ↔ ¬ StaysInside p := by
  refine ⟨fun h hinside => ?_, cleanRelative?_of_not_staysInside⟩
  rw [cleanRelative?_of_staysInside hinside] at h
  cases h

theorem cleanRelative?_eq_none_iff : cleanRelative? p = none ↔
    startsSeparated p = true ∨ normalForm (parts p) = [] ∨ Climbs (parts p) := by
  have hinside : StaysInside p ↔
      ¬ (startsSeparated p = true ∨ normalForm (parts p) = [] ∨ Climbs (parts p)) := by
    rw [not_or, not_or, Bool.not_eq_true]
    exact ⟨fun h => ⟨h.relative, h.ne_nil, h.not_climbs⟩, fun h => ⟨h.1, h.2.2, h.2.1⟩⟩
  rw [cleanRelative?_eq_none, hinside, not_not]

/-- Cleaning sees of a path how it starts and where its parts lead. -/
theorem cleanRelative?_congr (hstarts : startsSeparated p = startsSeparated q)
    (hform : normalForm (parts p) = normalForm (parts q))
    (hclimbs : Climbs (parts p) ↔ Climbs (parts q)) : cleanRelative? p = cleanRelative? q := by
  have hinside : StaysInside p ↔ StaysInside q := by
    constructor
    · exact fun h => ⟨hstarts ▸ h.relative, mt hclimbs.2 h.not_climbs, hform ▸ h.ne_nil⟩
    · exact fun h => ⟨hstarts ▸ h.relative, mt hclimbs.1 h.not_climbs, hform ▸ h.ne_nil⟩
  refine Option.ext fun c => ?_
  rw [cleanRelative?_eq_some_iff, cleanRelative?_eq_some_iff, hinside, hform]

/-! ## Clean paths again -/

theorem withSlashes_of_isClean (h : IsClean p) : withSlashes p = p := by
  show String.ofList (p.toList.map slashed) = p
  rw [map_slashed_of_notMem (backslash_notMem_of_isClean h), String.ofList_toList]

theorem parts_of_isClean (h : IsClean p) : parts p = segments p := by
  rw [← segments_withSlashes, withSlashes_of_isClean h]

theorem normalForm_of_isClean (h : IsClean p) : normalForm (parts p) = segments p := by
  rw [parts_of_isClean h]
  exact normalForm_of_isNaming fun name hname => (isClean_iff.1 h name hname).isNaming

theorem staysInside_of_isClean (h : IsClean p) : StaysInside p where
  relative := by
    have hrelative := isAbsolute_of_isClean h ""
    rwa [String.append_empty, ← withSlashes_of_isClean h, isAbsolute_withSlashes] at hrelative
  not_climbs := by
    rw [parts_of_isClean h]
    exact not_climbs_of_isNaming fun name hname => (isClean_iff.1 h name hname).isNaming
  ne_nil := by
    rw [normalForm_of_isClean h]
    exact segments_ne_nil p

/-- Cleaning leaves a clean path as it is. -/
theorem cleanRelative?_self (h : IsClean p) : cleanRelative? p = some p := by
  rw [cleanRelative?_of_staysInside (staysInside_of_isClean h), normalForm_of_isClean h,
    ofSegments_segments]

/-- A path that stays inside begins with a character that is no separator, whatever is behind it. -/
theorem startsSeparated_append (h : StaysInside p) (q : String) :
    startsSeparated (p ++ q) = false := by
  have hrelative := h.relative
  unfold startsSeparated at hrelative ⊢
  rw [String.toList_append]
  cases hp : p.toList with
  | nil =>
    have hempty : p = "" := String.toList_eq_nil_iff.1 hp
    exact absurd rfl (hempty ▸ h.ne_nil)
  | cons c cs =>
    rw [hp] at hrelative
    exact hrelative

/-- What is behind a path that stays inside is read from where the path leads. -/
theorem cleanRelative?_append_slash (h : cleanRelative? a = some c) (s : String) :
    cleanRelative? (a ++ "/" ++ s) = cleanRelative? (c ++ "/" ++ s) := by
  have hclean := isClean_of_cleanRelative? h
  obtain ⟨ha, hc⟩ := cleanRelative?_eq_some_iff.1 h
  have hparts : normalForm (parts a) = parts c := by
    rw [parts_of_isClean hclean, hc, segments_ofSegments ha.ne_nil]
    exact fun name hname => (isName_of_mem_normalForm hname).no_slash
  have hnames : ∀ name ∈ parts c, isNaming name = true :=
    hparts ▸ fun _ => isNaming_of_mem_normalForm
  have hshort : Relation.ReflTransGen Shortens (parts (a ++ "/" ++ s)) (parts (c ++ "/" ++ s)) := by
    rw [parts_append_slash, parts_append_slash]
    exact ((shortens_iff hnames).2 ⟨ha.not_climbs, hparts⟩).lift (· ++ parts s)
      fun _ _ hstep => hstep.append_right _
  obtain ⟨hform, hclimbs⟩ := keeps_of_shortens hshort
  refine cleanRelative?_congr ?_ hform hclimbs
  rw [String.append_assoc, startsSeparated_append ha, String.append_assoc,
    startsSeparated_append (staysInside_of_isClean hclean)]

end ModuleBundler.Path

namespace ModuleBundler.ModuleId

open ModuleBundler.Path

/-- Where case counts, a path has no identifier exactly if it starts with a separator, leads nowhere,
or climbs. Otherwise its identifier is made of the names in its normal form, the only ones to which
its parts can be shortened. Both the identifier and the clean path are their own, and the clean path
stands for the path in front of any other. -/
theorem ofPath?_canonicalises (p : String) :
    (ofPath? p true = none ↔
      startsSeparated p = true ∨ normalForm (parts p) = [] ∨ Climbs (parts p)) ∧
    (∀ id, ofPath? p true = some id →
      id.text = "./" ++ ofSegments (normalForm (parts p)) ∧
      (∀ name ∈ normalForm (parts p), IsName name) ∧
      (∀ names, (∀ name ∈ names, IsName name) →
        (Relation.ReflTransGen Shortens (parts p) names ↔ normalForm (parts p) = names)) ∧
      ofPath? id.text true = some id) ∧
    ∀ c, cleanRelative? p = some c →
      cleanRelative? c = some c ∧
      ∀ s, cleanRelative? (p ++ "/" ++ s) = cleanRelative? (c ++ "/" ++ s) := by
  refine ⟨?_, fun id hid => ?_, fun c hc => ?_⟩
  · rw [ofPath?, Option.map_eq_none_iff, cleanRelative?_eq_none_iff]
  · obtain ⟨c, hc, rfl⟩ := Option.map_eq_some_iff.1 hid
    have hcanonical : (ofClean c true).IsCanonical :=
      isCanonical_ofClean_iff.2 (isClean_of_cleanRelative? hc)
    obtain ⟨hinside, rfl⟩ := cleanRelative?_eq_some_iff.1 hc
    refine ⟨rfl, fun name => isName_of_mem_normalForm, fun names hnames => ?_,
      ofPath?_text_iff.2 hcanonical⟩
    rw [shortens_iff fun name hname => (hnames name hname).isNaming,
      and_iff_right hinside.not_climbs]
  · exact ⟨cleanRelative?_self (isClean_of_cleanRelative? hc), cleanRelative?_append_slash hc⟩

/-- A path with separators of both kinds that goes up and down on its way. -/
theorem ofPath?_canonicalises_utilPath :
    let p := "src\\./lib/..//util.js"
    ofPath? p true = some ⟨"./src/util.js"⟩ ∧ cleanRelative? p = some "src/util.js" ∧
    ofPath? "./src/util.js" true = some ⟨"./src/util.js"⟩ ∧
    cleanRelative? "src/util.js" = some "src/util.js" ∧
    cleanRelative? (p ++ "/" ++ "..\\..") = cleanRelative? ("src/util.js" ++ "/" ++ "..\\..") := by
  intro p
  have hid : ofPath? p true = some ⟨"./src/util.js"⟩ := by decide +kernel
  have hclean : cleanRelative? p = some "src/util.js" := by decide +kernel
  obtain ⟨-, hsome, hagain⟩ := ofPath?_canonicalises p
  obtain ⟨-, -, -, hself⟩ := hsome _ hid
  obtain ⟨hcleanSelf, hbehind⟩ := hagain _ hclean
  exact ⟨hid, hclean, hself, hcleanSelf, hbehind "..\\.."⟩

end ModuleBundler.ModuleId
