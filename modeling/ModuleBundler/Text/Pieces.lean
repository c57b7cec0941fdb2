import ModuleBundler.Text.Blank

/-
  Taking texts apart: at every occurrence of a character, at the last one, into lines; blanks at
  the ends; and a word replaced wherever it occurs.
-/

namespace ModuleBundler.Text

/-- The pieces between the occurrences of a character. There is one piece more than there are
occurrences. -/
def splitOn (separator : Char) : List Char → List (List Char)
  | [] => [[]]
  | c :: cs =>
    if c == separator then [] :: splitOn separator cs
    else
      match splitOn separator cs with
      | [] => [[c]]
      | piece :: pieces => (c :: piece) :: pieces

theorem splitOn_ne_nil (separator : Char) (cs : List Char) : splitOn separator cs ≠ [] := by
  cases cs with
  | nil => simp [splitOn]
  | cons c cs =>
    unfold splitOn
    split
    · simp
    · split <;> simp

/-- No piece holds the separator. -/
theorem not_mem_of_mem_splitOn {separator : Char} {cs piece : List Char}
    (h : piece ∈ splitOn separator cs) : separator ∉ piece := by
  induction cs generalizing piece with
  | nil => simp [splitOn] at h; simp [h]
  | cons c cs ih =>
    unfold splitOn at h
    split at h
    · rcases List.mem_cons.1 h with rfl | h
      · simp
      · exact ih h
    · next hc =>
      have hc : separator ≠ c := fun e => hc (by simp [e])
      split at h
      · simp at h; simp [h, hc]
      · next p ps hp =>
        rcases List.mem_cons.1 h with rfl | h
        · have : separator ∉ p := ih (by simp [hp])
          simp [hc, this]
        · exact ih (by simp [hp, h])

/-- The text before the last occurrence of a character and the text after it. -/
def splitLast? (separator : Char) (cs : List Char) : Option (List Char × List Char) :=
  match cs.reverse.dropWhile (· != separator) with
  | [] => none
  | _ :: before => some (before.reverse, (cs.reverse.takeWhile (· != separator)).reverse)

/-- The two texts with the character between them make up the whole. -/
theorem eq_of_splitLast? {separator : Char} {cs before after : List Char}
    (h : splitLast? separator cs = some (before, after)) :
    cs = before ++ separator :: after := by
  unfold splitLast? at h
  split at h
  · cases h
  · next c found hd =>
    cases h
    have hc : c = separator := by
      have := List.head?_dropWhile_not (· != separator) cs.reverse
      simpa [hd] using this
    have hs := List.takeWhile_append_dropWhile (p := (· != separator)) (l := cs.reverse)
    rw [hd, hc] at hs
    have := congrArg List.reverse hs
    simpa using this.symm

/-- A line, from its characters in reverse, without a carriage return at its end. -/
def finishLine : List Char → String
  | '\r' :: cs => String.ofList cs.reverse
  | cs => String.ofList cs.reverse

/-- The lines of a text, of which `current` is the beginning of the first, in reverse. -/
def linesAfter (current : List Char) : List Char → List String
  | [] => if current.isEmpty then [] else [String.ofList current.reverse]
  | c :: cs =>
    if c == '\n' then finishLine current :: linesAfter [] cs else linesAfter (c :: current) cs

/-- The lines of a text. A line ends with a line feed, or with a carriage return and a line feed;
the last one may do without. -/
def lines (text : String) : List String := linesAfter [] text.toList

/-- A text without the blanks at its ends. -/
def trimBlank (text : String) : String :=
  String.ofList
    ((text.toList.dropWhile isBlank).reverse.dropWhile isBlank).reverse

/-- A text with another in place of every occurrence of a word, taken from the left and without
overlap. -/
def replaceChars (word new : List Char) : List Char → List Char
  | [] => []
  | c :: cs =>
    if !word.isEmpty && word.isPrefixOf (c :: cs) then
      new ++ replaceChars word new (cs.drop (word.length - 1))
    else c :: replaceChars word new cs
termination_by cs => cs.length
decreasing_by
  · simp only [List.length_drop, List.length_cons]; omega
  · simp

/-- A text with another in place of every occurrence of a word. -/
def replaceWord (word replacement text : String) : String :=
  String.ofList (replaceChars word.toList replacement.toList text.toList)

end ModuleBundler.Text
