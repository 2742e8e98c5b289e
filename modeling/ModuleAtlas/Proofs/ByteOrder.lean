import Mathlib.Data.String.Basic
import Mathlib.Tactic.SplitIfs
import ModuleAtlas.Proofs.Signatures

/-!
# Texts in the order of their bytes

Texts are compared character by character, and a character by its code point.  The bytes of a text
in UTF-8 come in the same order: a character with a greater code point has either more bytes, of
which the first one is greater, or as many bytes, and these hold the digits of the code point from
the highest to the lowest.  So maps with texts as keys list them in the order of their bytes, and so
do maps with lists of texts as keys.

## Main results

* `textBytes_eq_flatMap` — the bytes of a text are those of its characters.
* `utf8EncodeChar_append_lt` — two characters are told apart by their bytes, whatever follows.
* `textBytes_lt_iff` — **texts are in the order of their bytes.**
* `map_textBytes_lt_of_compare` — lists of texts are in the order of their bytes.
-/

namespace ModuleAtlas

/-- The bytes of a text are those of its characters. -/
theorem textBytes_eq_flatMap (s : String) :
    textBytes s = s.toList.flatMap String.utf8EncodeChar := by
  have hbytes : s.toUTF8 = (s.toList.flatMap String.utf8EncodeChar).toByteArray := by
    conv => lhs; rw [← String.ofList_toList (s := s)]
    rfl
  rw [textBytes, ByteArray.toList, toList_loop, hbytes, List.toList_data_toByteArray]
  rfl

/-- Of two characters the one with the smaller code point has the smaller bytes, whatever
follows. -/
theorem utf8EncodeChar_append_lt {c d : Char} (h : c < d) (l m : List UInt8) :
    String.utf8EncodeChar c ++ l < String.utf8EncodeChar d ++ m := by
  have hlt : c.val.toNat < d.val.toNat := h
  have hd : d.val.toNat < 0x110000 := by
    rcases d.valid with hd | hd <;> omega
  -- the bytes hold digits to the base 64, and the first one what is left of the code point
  have hsecond (n : Nat) : n / 4096 = n / 64 / 64 := (Nat.div_div_eq_div_mul n 64 64).symm
  have hthird (n : Nat) : n / 262144 = n / 64 / 64 / 64 := by
    rw [Nat.div_div_eq_div_mul, Nat.div_div_eq_div_mul]
  simp only [String.utf8EncodeChar, hsecond, hthird]
  generalize c.val.toNat = a at hlt
  generalize d.val.toNat = b at hlt hd
  -- one case for each number of bytes of either character
  split_ifs <;>
    simp only [List.cons_append, List.nil_append, List.cons_lt_cons_iff, UInt8.lt_iff_toNat_lt,
      ← UInt8.toNat_inj, UInt8.toNat_ofNat'] <;>
    omega

/-- No character is without bytes. -/
theorem nil_lt_utf8EncodeChar_append (c : Char) (l : List UInt8) :
    [] < String.utf8EncodeChar c ++ l := by
  obtain ⟨b, m, hb⟩ := List.exists_cons_of_ne_nil (String.utf8EncodeChar_ne_nil (c := c))
  rw [hb]
  exact List.nil_lt_cons _ _

theorem flatMap_utf8EncodeChar_lt {l : List Char} : ∀ {m : List Char}, l < m →
    l.flatMap String.utf8EncodeChar < m.flatMap String.utf8EncodeChar := by
  induction l with
  | nil =>
    intro m h
    cases m with
    | nil => exact absurd h (List.not_lt_nil _)
    | cons d m => exact nil_lt_utf8EncodeChar_append d _
  | cons c l ih =>
    intro m h
    cases m with
    | nil => exact absurd h (List.not_lt_nil _)
    | cons d m =>
      rw [List.flatMap_cons, List.flatMap_cons]
      rcases List.cons_lt_cons_iff.1 h with hchar | ⟨rfl, hrest⟩
      · exact utf8EncodeChar_append_lt hchar _ _
      · exact List.append_left_lt (ih hrest)

theorem textBytes_lt_of_lt {s t : String} (h : s < t) : textBytes s < textBytes t := by
  rw [textBytes_eq_flatMap, textBytes_eq_flatMap]
  exact flatMap_utf8EncodeChar_lt (String.lt_iff_toList_lt.1 h)

/-- **Texts are in the order of their bytes.** -/
theorem textBytes_lt_iff {s t : String} : textBytes s < textBytes t ↔ s < t := by
  refine ⟨?_, textBytes_lt_of_lt⟩
  intro h
  rcases lt_trichotomy s t with hlt | rfl | hgt
  · exact hlt
  · exact absurd h (List.lt_irrefl _)
  · exact absurd (textBytes_lt_of_lt hgt) (List.lt_asymm h)

/-- Lists of texts are in the order of their bytes, text by text. -/
theorem map_textBytes_lt_of_compare {path : List String} : ∀ {other : List String},
    compare path other = .lt → path.map textBytes < other.map textBytes := by
  induction path with
  | nil =>
    intro other h
    cases other with
    | nil => simp at h
    | cons s other => exact List.nil_lt_cons _ _
  | cons s path ih =>
    intro other h
    cases other with
    | nil => simp at h
    | cons t other =>
      rw [List.map_cons, List.map_cons, List.cons_lt_cons_iff]
      rw [List.compare_cons_cons, Ordering.then_eq_lt] at h
      rcases h with hfirst | ⟨hfirst, hrest⟩
      · exact .inl (textBytes_lt_iff.2 (compare_lt_iff_lt.1 hfirst))
      · exact .inr ⟨congrArg textBytes (Std.LawfulEqOrd.eq_of_compare hfirst), ih hrest⟩

end ModuleAtlas
