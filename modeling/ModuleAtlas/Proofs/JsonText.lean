import ModuleAtlas.Json.Reader

/-!
# JSON text read back

The compact text of a value is read back as that value, whatever follows it in a larger text.  The
values for which this holds are closed under arrays and objects, and hold all integers and strings,
so a record that is written with them is read back as it was written.

## Main definitions

* `Json.ends` — what follows a numeral without belonging to it.
* `Json.charUnit` — the unit that an escaped character is read as.
* `Json.ReadBack` — the values whose text is read back.

## Main results

* `Json.stringUnits_quote_append`, `Json.decodeUnits_map_charUnit` — strings are read back.
* `Json.readBack_int`, `Json.readBack_str`, `Json.readBack_arr`, `Json.readBack_obj` — **the values
  whose text is read back.**
* `Json.parseBytes_compact` — so are the bytes of the text.
-/

namespace ModuleAtlas.Json

/-- A list of characters without stray bytes. -/
abbrev plain (l : List Char) : List (Option Char) := l.map some

/-! ### Strings -/

/-- Whether a character is written by its code: a control character without a letter of its own. -/
def isCoded (c : Char) : Bool := c.toNat < 32 && !List.contains ['\x08', '\x0c', '\n', '\r', '\t'] c

/-- The unit that a character is read as when it is written in a string. -/
def charUnit (c : Char) : StringUnit := if isCoded c then .code c.toNat else .char c

theorem hexValue_hexDigit : ∀ n, n < 16 → hexValue (hexDigit n) = some n := by decide

theorem hexCode_escape {n : Nat} (h : n < 32) :
    hexCode '0' '0' (hexDigit (n / 16)) (hexDigit (n % 16)) = some n := by
  have hzero : hexValue '0' = some 0 := by decide
  rw [hexCode, hzero, hexValue_hexDigit _ (by omega), hexValue_hexDigit _ (by omega)]
  simp only [Option.bind_eq_bind, Option.bind_some, Option.pure_def, Option.some.injEq]
  omega

/-- An escaped character is read as one unit. -/
theorem stringUnits_escapeChar (c : Char) (s : List (Option Char)) :
    stringUnits (plain (escapeChar c) ++ s)
      = (stringUnits s).bind fun p => some (charUnit c :: p.1, p.2) := by
  -- escapes by a letter of their own
  have hletter : ∀ e d : Char, simpleEscape e = some d → e ≠ 'u' →
      stringUnits (some '\\' :: some e :: s) = (stringUnits s).bind fun p =>
        some (.char d :: p.1, p.2) := by
    intro e d he hu
    rw [stringUnits, he]
    · rfl
    · exact fun _ _ _ _ _ _ hu' => hu hu'
  unfold escapeChar
  split
  · next h => rw [h]; exact hletter '"' '"' rfl (by decide)
  split
  · next h => rw [h]; exact hletter '\\' '\\' rfl (by decide)
  split
  · next h => rw [h]; exact hletter 'b' '\x08' rfl (by decide)
  split
  · next h => rw [h]; exact hletter 'f' '\x0c' rfl (by decide)
  split
  · next h => rw [h]; exact hletter 'n' '\n' rfl (by decide)
  split
  · next h => rw [h]; exact hletter 'r' '\r' rfl (by decide)
  split
  · next h => rw [h]; exact hletter 't' '\t' rfl (by decide)
  split
  · -- any other control character is escaped by its code
    next h₃ h₄ h₅ h₆ h₇ h =>
    have hcoded : isCoded c = true := by simp [isCoded, *]
    simp only [List.map_cons, List.map_nil, List.cons_append, List.nil_append]
    rw [stringUnits, hexCode_escape h, charUnit, if_pos hcoded]
    rfl
  · -- all others stand for themselves
    next hquote hback _ _ _ _ _ h =>
    have hcoded : isCoded c = false := by simp [isCoded]; omega
    simp only [List.map_cons, List.map_nil, List.cons_append, List.nil_append]
    rw [stringUnits, if_neg h, if_neg hback, charUnit, hcoded]
    · rfl
    · exact hquote
    · exact fun _ _ _ _ _ _ hc => hback hc
    · exact fun _ _ _ hc => hback hc

theorem stringUnits_quote_append (cs : List Char) (s : List (Option Char)) :
    stringUnits (plain (cs.flatMap escapeChar) ++ some '"' :: s) = some (cs.map charUnit, s) := by
  induction cs with
  | nil => simp
  | cons c cs ih =>
    rw [List.flatMap_cons, plain, List.map_append, List.append_assoc, stringUnits_escapeChar, ih]
    rfl

/-- A code below the surrogates denotes its character. -/
theorem decodeUnits_code {n : Nat} (h : n < 32) (l : List StringUnit) :
    decodeUnits (.code n :: l) = (decodeUnits l).map (Char.ofNat n :: ·) := by
  have hhigh : isHighHalf n = false := by simp [isHighHalf]; omega
  have hlow : isLowHalf n = false := by simp [isLowHalf]; omega
  rw [decodeUnits.eq_def]
  split <;> simp_all

theorem decodeUnits_charUnit (c : Char) (l : List StringUnit) :
    decodeUnits (charUnit c :: l) = (decodeUnits l).map (c :: ·) := by
  rw [charUnit]
  split
  · next h =>
    have hcontrol : c.toNat < 32 := by
      simp only [isCoded, Bool.and_eq_true, decide_eq_true_eq] at h
      exact h.1
    rw [decodeUnits_code hcontrol, Char.ofNat_toNat]
  · exact decodeUnits_char c l

theorem decodeUnits_map_charUnit (cs : List Char) : decodeUnits (cs.map charUnit) = some cs := by
  induction cs with
  | nil => rfl
  | cons c cs ih => rw [List.map_cons, decodeUnits_charUnit, ih]; rfl

/-! ### Numbers -/

/-- Whether a numeral ends before the given characters. -/
def ends : List (Option Char) → Bool
  | some c :: _ => !Text.isDigit c && c != '.' && c != 'e' && c != 'E'
  | _ => true

theorem spanDigits_of_ends {s : List (Option Char)} (hs : ends s = true) :
    spanDigits s = ([], s) := by
  unfold spanDigits
  split
  · next c s =>
    simp only [ends, Bool.and_eq_true, Bool.not_eq_true'] at hs
    rw [hs.1.1.1]
    rfl
  · rfl

theorem spanDigits_append {ds : List Char} (hds : ∀ c ∈ ds, Text.isDigit c = true)
    {s : List (Option Char)} (hs : ends s = true) : spanDigits (plain ds ++ s) = (ds, s) := by
  induction ds with
  | nil => exact spanDigits_of_ends hs
  | cons c ds ih =>
    rw [plain, List.map_cons, List.cons_append, spanDigits, if_pos (hds c List.mem_cons_self),
      ih fun d hd => hds d (List.mem_cons_of_mem _ hd)]

theorem digits_ne_nil (n : Nat) : Text.digits n ≠ [] := by
  rw [Text.digits]
  split
  · simp
  · simp

/-- A numeral of two or more digits does not start with a zero. -/
theorem head_digits {n : Nat} (hn : 10 ≤ n) : ∃ c ds, Text.digits n = c :: ds ∧
    c ≠ '0' ∧ ds ≠ [] := by
  induction n using Nat.strongRecOn with
  | ind n ih =>
    rw [Text.digits, if_neg (by omega)]
    by_cases hsmall : n / 10 < 10
    · refine ⟨Text.digitChar (n / 10), [Text.digitChar (n % 10)], ?_, ?_, by simp⟩
      · rw [Text.digits, if_pos hsmall]
        rfl
      · have hdigit : ∀ d, d < 10 → 0 < d → Text.digitChar d ≠ '0' := by decide
        exact hdigit _ hsmall (by omega)
    · obtain ⟨c, ds, hds, hc, -⟩ := ih (n / 10) (by omega) (by omega)
      exact ⟨c, ds ++ [Text.digitChar (n % 10)], by rw [hds]; rfl, hc, by simp⟩

theorem wholeNumber_digits (n : Nat) {s : List (Option Char)} (hs : ends s = true) :
    wholeNumber (plain (Text.digits n) ++ s) = some (Text.digits n, s) := by
  rw [wholeNumber, spanDigits_append (fun _ h => Text.isDigit_of_mem_digits h) hs]
  by_cases hn : 10 ≤ n
  · obtain ⟨c, ds, hds, hc, hne⟩ := head_digits hn
    rw [hds]
    split <;> simp_all
  · rw [Text.digits, if_pos (by omega)]
    split <;> simp_all

theorem skipFraction_of_ends {s : List (Option Char)} (hs : ends s = true) :
    skipFraction s = some (false, s) := by
  unfold skipFraction
  split
  · simp [ends] at hs
  · rfl

theorem skipExponent_of_ends {s : List (Option Char)} (hs : ends s = true) :
    skipExponent s = some (false, s) := by
  unfold skipExponent
  split
  · simp [ends] at hs
  · simp [ends] at hs
  · rfl

theorem unsignedNumber_digits (negative : Bool) {n : Nat} (hn : negative = true → n ≠ 0)
    {s : List (Option Char)} (hs : ends s = true) :
    unsignedNumber negative (plain (Text.digits n) ++ s)
      = some (int (if negative then -(n : Int) else n), s) := by
  simp only [unsignedNumber, wholeNumber_digits n hs, skipFraction_of_ends hs,
    skipExponent_of_ends hs, Text.ofDigits_digits, Option.bind_eq_bind, Option.bind_some,
    Bool.false_or]
  rw [if_neg]
  · rfl
  · simp only [Bool.and_eq_true, beq_iff_eq, not_and]
    exact hn

/-- Numerals are read back. -/
theorem number_intDigits (n : Int) {s : List (Option Char)} (hs : ends s = true) :
    number (plain (Text.intDigits n) ++ s) = some (int n, s) := by
  rw [Text.intDigits]
  split
  · next hn =>
    rw [plain, List.map_cons, List.cons_append, number, unsignedNumber_digits true (by omega) hs,
      if_pos rfl]
    congr 3
    omega
  · next hn =>
    obtain ⟨c, ds, hds⟩ := List.exists_cons_of_ne_nil (digits_ne_nil n.natAbs)
    -- a digit is not taken for the sign
    have hc : c ≠ '-' := by
      rintro rfl
      have hdigit : Text.isDigit '-' = true :=
        Text.isDigit_of_mem_digits (n := n.natAbs) (by simp [hds])
      exact absurd hdigit (by decide)
    have hnumber : number (plain (Text.digits n.natAbs) ++ s)
        = unsignedNumber false (plain (Text.digits n.natAbs) ++ s) := by
      rw [hds, plain, List.map_cons, List.cons_append, number]
      intro s' h
      exact hc (Option.some.inj (List.cons.inj h).1)
    rw [hnumber, unsignedNumber_digits false (by simp) hs, if_neg (by simp)]
    congr 3
    omega

/-! ### Values -/

/-- Whether a value may start with a character; in particular no blank, comma or closing bracket
does. -/
def starts (c : Char) : Bool := Text.isDigit c || ['-', 'n', 't', 'f', '"', '[', '\x7b'].contains c

theorem skipBlanks_of_starts {c : Char} (hc : starts c = true) (s : List (Option Char)) :
    skipBlanks (some c :: s) = some c :: s := by
  have hblank : isBlank (some c) = false := by
    rw [← Bool.not_eq_true]
    intro h
    simp only [isBlank, Bool.or_eq_true, decide_eq_true_eq] at h
    rcases h with ((rfl | rfl) | rfl) | rfl <;> exact absurd hc (by decide)
  rw [skipBlanks, List.dropWhile_cons, hblank]
  rfl

/-- The text of a value is read back as the value, within a bound that its length gives. -/
structure ReadBack (j : Json) : Prop where
  /-- The text starts as values do. -/
  head : ∃ c cs, compactChars j = c :: cs ∧ starts c = true
  /-- The text is read as the value, up to what follows. -/
  read : ∀ {bound : Nat} {s : List (Option Char)}, ends s = true →
    2 * (compactChars j).length ≤ bound →
    value bound (plain (compactChars j) ++ s) = some (j, s)

/-- A bound that a text meets is not zero. -/
theorem ReadBack.exists_bound {j : Json} (h : ∃ c cs, compactChars j = c :: cs ∧ starts c = true)
    {bound : Nat} (hbound : 2 * (compactChars j).length ≤ bound) : ∃ b, bound = b + 1 := by
  obtain ⟨c, cs, hc, -⟩ := h
  rw [hc, List.length_cons] at hbound
  exact ⟨bound - 1, by omega⟩

theorem exists_intDigits (n : Int) :
    ∃ c cs, Text.intDigits n = c :: cs ∧ (c = '-' ∨ Text.isDigit c = true) := by
  rw [Text.intDigits]
  split
  · exact ⟨'-', _, rfl, .inl rfl⟩
  · obtain ⟨c, cs, hc⟩ := List.exists_cons_of_ne_nil (digits_ne_nil n.natAbs)
    exact ⟨c, cs, hc, .inr (Text.isDigit_of_mem_digits (n := n.natAbs) (by simp [hc]))⟩

theorem starts_of_numeral {c : Char} (hc : c = '-' ∨ Text.isDigit c = true) : starts c = true := by
  rcases hc with rfl | hc
  · decide
  · simp [starts, hc]

/-- What starts like a numeral is read as a number. -/
theorem value_of_numeral {c : Char} (hc : c = '-' ∨ Text.isDigit c = true) (bound : Nat)
    (s : List (Option Char)) : value (bound + 1) (some c :: s) = number (some c :: s) := by
  have hletter : c ∉ ['n', 't', 'f', '"', '[', '\x7b'] := by
    intro hmem
    simp only [List.mem_cons, List.not_mem_nil, or_false] at hmem
    rcases hmem with rfl | rfl | rfl | rfl | rfl | rfl <;> revert hc <;> decide
  rw [value, skipBlanks_of_starts (starts_of_numeral hc)]
  split <;> simp_all

theorem readBack_int (n : Int) : ReadBack (int n) := by
  obtain ⟨c, cs, hcs, hc⟩ := exists_intDigits n
  have hchars : compactChars (int n) = c :: cs := by rw [compactChars, hcs]
  have hhead : ∃ c cs, compactChars (int n) = c :: cs ∧ starts c = true :=
    ⟨c, cs, hchars, starts_of_numeral hc⟩
  refine ⟨hhead, ?_⟩
  intro bound s hs hbound
  obtain ⟨b, rfl⟩ := ReadBack.exists_bound hhead hbound
  rw [hchars, plain, List.map_cons, List.cons_append, value_of_numeral hc, ← List.cons_append,
    ← List.map_cons, ← hcs]
  exact number_intDigits n hs

theorem plain_quote_append (k : String) (s : List (Option Char)) :
    plain (quote k) ++ s = some '"' :: (plain (k.toList.flatMap escapeChar) ++ some '"' :: s) := by
  simp [quote]

theorem readBack_str (t : String) : ReadBack (str t) := by
  have hhead : ∃ c cs, compactChars (str t) = c :: cs ∧ starts c = true := ⟨'"', _, rfl, by decide⟩
  refine ⟨hhead, ?_⟩
  intro bound s _ hbound
  obtain ⟨b, rfl⟩ := ReadBack.exists_bound hhead hbound
  rw [compactChars, plain_quote_append, value, skipBlanks_of_starts (by decide)]
  simp only [stringUnits_quote_append, Option.map_some, ofUnits, decodeUnits_map_charUnit,
    String.ofList_toList]

/-! ### Arrays and objects -/

theorem compactItems_cons {j : Json} {l : List Json} (hl : l ≠ []) :
    compactItems (j :: l) = compactChars j ++ ',' :: compactItems l := by
  cases l with
  | nil => exact absurd rfl hl
  | cons i l => rw [compactItems]; simp

theorem compactMembers_cons {k : String} {j : Json} {l : List (String × Json)} (hl : l ≠ []) :
    compactMembers ((k, j) :: l) =
      quote k ++ ':' :: (compactChars j ++ ',' :: compactMembers l) := by
  cases l with
  | nil => exact absurd rfl hl
  | cons p l => rw [compactMembers]; simp

/-- Items are read back up to the closing bracket. -/
theorem items_compactItems {l : List Json} (hne : l ≠ []) (hl : ∀ j ∈ l, ReadBack j) :
    ∀ {bound : Nat} {s : List (Option Char)}, 2 * (compactItems l).length + 1 ≤ bound →
      items bound (plain (compactItems l) ++ some ']' :: s) = some (l, s) := by
  induction l with
  | nil => exact absurd rfl hne
  | cons j l ih =>
    intro bound s hbound
    obtain ⟨b, rfl⟩ : ∃ b, bound = b + 1 := ⟨bound - 1, by omega⟩
    have hj : ReadBack j := hl j List.mem_cons_self
    -- the last item is followed by the bracket, any other one by a comma
    by_cases hnil : l = []
    · subst hnil
      rw [compactItems] at hbound ⊢
      rw [items, hj.read rfl (by omega)]
      rfl
    · rw [compactItems_cons hnil] at hbound ⊢
      simp only [List.length_append, List.length_cons] at hbound
      rw [plain, List.map_append, List.append_assoc, List.map_cons, List.cons_append, items,
        hj.read rfl (by omega)]
      show (items b (plain (compactItems l) ++ some ']' :: s)).map _ = _
      rw [ih hnil (fun i hi => hl i (List.mem_cons_of_mem _ hi)) (by omega)]
      rfl

theorem readBack_arr {l : List Json} (hl : ∀ j ∈ l, ReadBack j) : ReadBack (arr l) := by
  have hhead : ∃ c cs, compactChars (arr l) = c :: cs ∧ starts c = true :=
    ⟨'[', _, by rw [compactChars], rfl⟩
  refine ⟨hhead, ?_⟩
  intro bound s _ hbound
  obtain ⟨b, rfl⟩ := ReadBack.exists_bound hhead hbound
  rw [compactChars] at hbound ⊢
  simp only [List.length_append, List.length_cons, List.length_nil] at hbound
  have htext : plain ('[' :: (compactItems l ++ [']'])) ++ s
      = some '[' :: (plain (compactItems l) ++ some ']' :: s) := by simp
  rw [htext, value, skipBlanks_of_starts (by decide)]
  cases l with
  | nil => rfl
  | cons j l =>
    -- the first item keeps the bracket from closing at once
    have hread : items b (plain (compactItems (j :: l)) ++ some ']' :: s) = some (j :: l, s) :=
      items_compactItems (by simp) hl (by omega)
    obtain ⟨c, cs, hc, hstarts⟩ := (hl j List.mem_cons_self).head
    have hfirst : ∃ rest, plain (compactItems (j :: l)) ++ some ']' :: s = some c :: rest := by
      cases l with
      | nil => exact ⟨_, by rw [compactItems, hc]; rfl⟩
      | cons i l => exact ⟨_, by rw [compactItems_cons (by simp), hc]; rfl⟩
    obtain ⟨rest, hrest⟩ := hfirst
    rw [hrest] at hread ⊢
    have hclosing : c ≠ ']' := by
      rintro rfl
      exact absurd hstarts (by decide)
    simp only [skipBlanks_of_starts hstarts]
    split
    · next h => exact absurd (Option.some.inj (List.cons.inj h).1) hclosing
    · rw [hread]
      rfl

/-- Members are read back up to the closing brace, with their names in units. -/
theorem members_compactMembers {l : List (String × Json)} (hne : l ≠ [])
    (hl : ∀ p ∈ l, ReadBack p.2) :
    ∀ {bound : Nat} {s : List (Option Char)}, 2 * (compactMembers l).length + 1 ≤ bound →
      members bound (plain (compactMembers l) ++ some '\x7d' :: s)
        = some (l.map fun p => (p.1.toList.map charUnit, p.2), s) := by
  induction l with
  | nil => exact absurd rfl hne
  | cons p l ih =>
    obtain ⟨k, j⟩ := p
    intro bound s hbound
    obtain ⟨b, rfl⟩ : ∃ b, bound = b + 1 := ⟨bound - 1, by omega⟩
    have hj : ReadBack j := hl (k, j) List.mem_cons_self
    have hcolon : ∀ s : List (Option Char), skipBlanks (some ':' :: s) = some ':' :: s :=
      fun _ => rfl
    by_cases hnil : l = []
    · subst hnil
      rw [compactMembers] at hbound ⊢
      simp only [List.length_append, List.length_cons] at hbound
      rw [plain, List.map_append, List.append_assoc, plain_quote_append, members,
        skipBlanks_of_starts (by decide)]
      simp only [stringUnits_quote_append, List.map_cons, List.cons_append, hcolon]
      rw [hj.read rfl (by omega)]
      rfl
    · rw [compactMembers_cons hnil] at hbound ⊢
      simp only [List.length_append, List.length_cons] at hbound
      rw [plain, List.map_append, List.append_assoc, plain_quote_append, members,
        skipBlanks_of_starts (by decide)]
      simp only [stringUnits_quote_append, List.map_cons, List.map_append, List.append_assoc,
        List.cons_append, hcolon]
      rw [hj.read rfl (by omega)]
      show (members b (plain (compactMembers l) ++ some '\x7d' :: s)).map _ = _
      rw [ih hnil (fun p hp => hl p (List.mem_cons_of_mem _ hp)) (by omega)]
      rfl

theorem ofMembers_map_charUnit (l : List (String × Json)) :
    ofMembers (l.map fun p => (p.1.toList.map charUnit, p.2)) = obj l := by
  have hnames : (l.map fun p => (p.1.toList.map charUnit, p.2)).mapM namedMember = some l := by
    induction l with
    | nil => rfl
    | cons p l ih =>
      rw [List.map_cons, List.mapM_cons, ih, namedMember, decodeUnits_map_charUnit]
      simp
  rw [ofMembers, hnames]

theorem readBack_obj {l : List (String × Json)} (hl : ∀ p ∈ l, ReadBack p.2) :
    ReadBack (obj l) := by
  have hhead : ∃ c cs, compactChars (obj l) = c :: cs ∧ starts c = true :=
    ⟨'\x7b', _, by rw [compactChars], rfl⟩
  refine ⟨hhead, ?_⟩
  intro bound s _ hbound
  obtain ⟨b, rfl⟩ := ReadBack.exists_bound hhead hbound
  rw [compactChars] at hbound ⊢
  simp only [List.length_append, List.length_cons, List.length_nil] at hbound
  have htext : plain ('\x7b' :: (compactMembers l ++ ['\x7d'])) ++ s
      = some '\x7b' :: (plain (compactMembers l) ++ some '\x7d' :: s) := by simp
  rw [htext, value, skipBlanks_of_starts (by decide)]
  cases l with
  | nil => rfl
  | cons p l =>
    -- the quote of the first name keeps the brace from closing at once
    have hread : members b (plain (compactMembers (p :: l)) ++ some '\x7d' :: s) = some (_, s) :=
      members_compactMembers (by simp) hl (by omega)
    have hfirst : ∃ rest, plain (compactMembers (p :: l)) ++ some '\x7d' :: s =
        some '"' :: rest := by
      obtain ⟨k, j⟩ := p
      cases l with
      | nil => exact ⟨_, by rw [compactMembers]; rfl⟩
      | cons q l => exact ⟨_, by rw [compactMembers_cons (by simp)]; rfl⟩
    obtain ⟨rest, hrest⟩ := hfirst
    rw [hrest] at hread ⊢
    simp only [skipBlanks_of_starts (show starts '"' = true from rfl)]
    show (members b (some '"' :: rest)).map (fun p => (ofMembers p.1, p.2)) = _
    rw [hread]
    show some (ofMembers ((p :: l).map fun p => (p.1.toList.map charUnit, p.2)), s) = _
    rw [ofMembers_map_charUnit]

theorem readBack_strings (l : List String) : ReadBack (strings l) := by
  apply readBack_arr
  intro j hj
  obtain ⟨s, -, rfl⟩ := List.mem_map.1 hj
  exact readBack_str s

/-! ### Whole texts -/

theorem parse_compact {j : Json} (hj : ReadBack j) : parse j.compact = some j := by
  have hvalue : value (2 * (plain (compactChars j)).length + 1) (plain (compactChars j) ++ [])
      = some (j, []) := hj.read rfl (by rw [List.length_map]; omega)
  rw [List.append_nil] at hvalue
  rw [parse, compact, String.toList_ofList, parseChars, hvalue]
  rfl

/-- Values that are read back are told by their compact texts. -/
theorem eq_of_compact_eq {i j : Json} (hi : ReadBack i) (hj : ReadBack j)
    (h : i.compact = j.compact) : i = j := by
  have hparsed := parse_compact hi
  rw [h, parse_compact hj] at hparsed
  exact (Option.some.inj hparsed).symm

/-- The bytes of the compact text of a value are read back as the value. -/
theorem parseBytes_compact {j : Json} (hj : ReadBack j) : parseBytes j.compact.toUTF8 = some j := by
  have htext : String.fromUTF8? j.compact.toUTF8 = some j.compact := by
    have hvalid : j.compact.toUTF8.IsValidUTF8 := j.compact.isValidUTF8
    rw [String.fromUTF8?, dif_pos hvalid]
    rfl
  rw [parseBytes_of_fromUTF8? htext, parse_compact hj]

end ModuleAtlas.Json
