import Mathlib.Tactic.SplitIfs
import ModuleBundler.Text.Utf8

/-
  The order of texts and the order of their bytes. Of two characters, the one in front also comes
  first by its bytes, whatever stands behind them (`encodeChar_lt`): each length of the encoding has
  first bytes above those of the shorter ones. So texts are ordered as their bytes are
  (`bytes_lt_iff`), and a text begins with another one just if its bytes do (`bytes_prefix_iff`).
-/

namespace ModuleBundler.Text

/-- The bytes of a text in order. -/
def bytes (text : String) : List UInt8 := (encode text).data.toList

variable {c d : Char} {cs ds : List Char}

theorem bytes_ofList (cs : List Char) :
    bytes (String.ofList cs) = cs.flatMap String.utf8EncodeChar := by
  rw [bytes, encode, String.toUTF8, String.toByteArray_ofList, List.utf8Encode,
    List.toList_data_toByteArray]

/-- Numbers are in the order of their digits, of which a continuing byte holds the last one. -/
theorem digits_lt {v w n : Nat} (h : v / n < w / n) :
    v / (n * 64) < w / (n * 64) ∨ v / (n * 64) = w / (n * 64) ∧ v / n % 64 < w / n % 64 := by
  rw [← Nat.div_div_eq_div_mul, ← Nat.div_div_eq_div_mul]
  omega

/-- Whatever follows, the bytes of a character are in front of those of a later one. -/
theorem encodeChar_lt (h : c < d) (xs ys : List UInt8) :
    String.utf8EncodeChar c ++ xs < String.utf8EncodeChar d ++ ys := by
  have hlt : c.val.toNat < d.val.toNat := h
  have hd : d.val.toNat < 0x110000 := by
    have hvalid := d.valid
    simp only [UInt32.isValidChar, Nat.isValidChar] at hvalid
    omega
  unfold String.utf8EncodeChar
  dsimp only
  generalize c.val.toNat = v at hlt
  generalize d.val.toNat = w at hlt hd
  have hlast : v / 64 < w / 64 ∨ v / 64 = w / 64 ∧ v % 64 < w % 64 := by omega
  have hthird := digits_lt (v := v) (w := w) (n := 64)
  have hsecond := digits_lt (v := v) (w := w) (n := 4096)
  have hsize : UInt8.size = 256 := rfl
  -- One case for each two lengths: the first bytes differ, or the digits decide from the front on.
  split_ifs <;>
    simp (disch := omega) only [List.cons_append, List.nil_append, List.cons_lt_cons_iff,
      UInt8.ofNat_lt_iff_lt, UInt8.ofNat_eq_iff_mod_eq_toNat, UInt8.toNat_ofNat',
      Nat.mod_eq_of_lt] <;>
    omega

theorem flatMap_encodeChar_lt (h : cs < ds) :
    cs.flatMap String.utf8EncodeChar < ds.flatMap String.utf8EncodeChar := by
  induction cs generalizing ds with
  | nil =>
    cases ds with
    | nil => cases h
    | cons d ds =>
      have hbytes : 0 < (String.utf8EncodeChar d).length := by
        rw [String.length_utf8EncodeChar]
        exact d.utf8Size_pos
      obtain ⟨b, bs, hb⟩ := List.exists_cons_of_length_pos hbytes
      rw [List.flatMap_cons, hb]
      exact List.nil_lt_cons b _
  | cons c cs ih =>
    cases ds with
    | nil => cases h
    | cons d ds =>
      rw [List.flatMap_cons, List.flatMap_cons]
      rcases List.cons_lt_cons_iff.1 h with hlt | ⟨rfl, hlt⟩
      · exact encodeChar_lt hlt _ _
      · exact List.append_left_lt (ih hlt)

/-- Texts are in the order of their bytes. -/
theorem bytes_lt {s t : String} (h : s < t) : bytes s < bytes t := by
  rw [← String.ofList_toList (s := s), ← String.ofList_toList (s := t), bytes_ofList,
    bytes_ofList]
  exact flatMap_encodeChar_lt (String.lt_iff.1 h)

theorem bytes_lt_iff {s t : String} : bytes s < bytes t ↔ s < t := by
  refine ⟨fun h => ?_, bytes_lt⟩
  by_cases hgt : t < s
  · exact absurd (bytes_lt hgt) (List.lt_asymm h)
  · by_cases hlt : s < t
    · exact hlt
    · obtain rfl : s = t := String.le_antisymm (String.not_lt.1 hgt) (String.not_lt.1 hlt)
      exact absurd h (List.lt_irrefl _)

/-- Bytes tell where their first character ends. -/
theorem encodeChar_append_inj {xs ys : List UInt8}
    (h : String.utf8EncodeChar c ++ xs = String.utf8EncodeChar d ++ ys) : c = d ∧ xs = ys := by
  have hcd : c = d := by
    apply Char.le_antisymm
    · refine Char.not_lt.1 fun hlt => ?_
      have hbytes := encodeChar_lt hlt ys xs
      rw [h] at hbytes
      exact List.lt_irrefl _ hbytes
    · refine Char.not_lt.1 fun hlt => ?_
      have hbytes := encodeChar_lt hlt xs ys
      rw [h] at hbytes
      exact List.lt_irrefl _ hbytes
  subst hcd
  exact ⟨rfl, List.append_cancel_left h⟩

theorem flatMap_encodeChar_prefix_iff :
    cs.flatMap String.utf8EncodeChar <+: ds.flatMap String.utf8EncodeChar ↔ cs <+: ds := by
  constructor
  · intro h
    induction cs generalizing ds with
    | nil => exact List.nil_prefix
    | cons c cs ih =>
      obtain ⟨rest, hrest⟩ := h
      rw [List.flatMap_cons, List.append_assoc] at hrest
      cases ds with
      | nil =>
        have hlength := congrArg List.length hrest
        rw [List.length_append, String.length_utf8EncodeChar] at hlength
        have := c.utf8Size_pos
        simp only [List.flatMap_nil, List.length_nil] at hlength
        omega
      | cons d ds =>
        rw [List.flatMap_cons] at hrest
        obtain ⟨rfl, htail⟩ := encodeChar_append_inj hrest
        exact List.cons_prefix_cons.2 ⟨rfl, ih ⟨rest, htail⟩⟩
  · rintro ⟨rest, rfl⟩
    rw [List.flatMap_append]
    exact List.prefix_append _ _

/-- A text begins with another one just if its bytes begin with the other's. -/
theorem bytes_prefix_iff {s t : String} : bytes s <+: bytes t ↔ s.toList <+: t.toList := by
  rw [← String.ofList_toList (s := s), ← String.ofList_toList (s := t), bytes_ofList,
    bytes_ofList, String.toList_ofList, String.toList_ofList]
  exact flatMap_encodeChar_prefix_iff

end ModuleBundler.Text
