import ModuleAtlas.CacheKey.KeySet
import ModuleAtlas.Proofs.MapLaws
import ModuleAtlas.Proofs.SegmentLaws

/-!
# Collisions of cache keys

A cache key is written without any escapes.  Its text tells all that it depends on only if the
determinants and the requested values keep clear of the separators of the key; otherwise two
requests that differ can have one key.

The answers for one dimension stand between braces.  What follows them up to a given separator is
the same for all requests, so answers that keep clear of one of `}`, `;` and `{` end at the same
place in equal keys.  Within the braces a comma ends each answer, a mark tells an unset feature from
a set one, and the first `=` ends a determinant.

## Main definitions

* `KeySet.Agree` — two requests agree on every determinant of a key set.
* `Vocabulary` — what determinants and values may be made of.
* `Vocabulary.Faithful` — over a vocabulary, equal keys belong to requests that agree.

## Main results

* `Generator.agreeOn_of_inner_eq` — equal answers between braces belong to requests that agree.
* `KeySet.agree_of_key_eq` — texts that keep clear of the separators make keys faithful.
* `Vocabulary.faithful_iff` — **the vocabularies whose keys are faithful.**
* `not_agree_of_key_eq` — two requests that share a key although they differ.
-/

namespace ModuleAtlas.CacheKey

/-! ### Agreement and vocabularies -/

/-- Two requests give the same answer to a determinant of a dimension. -/
def Conditions.AgreeOn (x y : Conditions) (kind : Kind) (determinant : String) : Prop :=
  match kind with
  | .feature => x.features.find? determinant = y.features.find? determinant
  | .locale => x.hasLocale determinant = y.hasLocale determinant
  | .custom _ => x.values.find? determinant = y.values.find? determinant

instance (x y : Conditions) (kind : Kind) (determinant : String) :
    Decidable (x.AgreeOn y kind determinant) :=
  match kind with
  | .feature => inferInstanceAs (Decidable (_ = _))
  | .locale => inferInstanceAs (Decidable (_ = _))
  | .custom _ => inferInstanceAs (Decidable (_ = _))

/-- Two requests agree on every determinant of every member. -/
def KeySet.Agree (s : KeySet) (x y : Conditions) : Prop :=
  ∀ g ∈ s.toList, ∀ set ∈ g.determinants, ∀ d ∈ set.toList, x.AgreeOn y g.kind d

instance (s : KeySet) (x y : Conditions) : Decidable (s.Agree x y) :=
  inferInstanceAs (Decidable (∀ g ∈ s.toList, ∀ set ∈ g.determinants, ∀ d ∈ set.toList, _))

/-- What determinants and values are made of. -/
structure Vocabulary where
  /-- The characters of determinants and values. -/
  letter : Char → Prop
  /-- Whether the empty text may be a determinant. -/
  empty : Prop

namespace Vocabulary

/-- The texts over a vocabulary. -/
def Text (V : Vocabulary) (s : String) : Prop := ∀ c ∈ s.toList, V.letter c

/-- The determinants over a vocabulary. -/
def Determinant (V : Vocabulary) (s : String) : Prop := V.Text s ∧ (s = "" → V.empty)

/-- All determinants of a generator are over the vocabulary. -/
def Covers (V : Vocabulary) (g : Generator) : Prop :=
  ∀ set ∈ g.determinants, ∀ d ∈ set.toList, V.Determinant d

/-- So are all values that a request gives to the determinants of a generator, if it is one of
values. -/
def Allows (V : Vocabulary) (x : Conditions) (g : Generator) : Prop :=
  g.kind.rank = 2 → ∀ set ∈ g.determinants, ∀ d ∈ set.toList, ∀ v ∈ x.values.find? d, V.Text v

/-- The separators inside braces are no letters, and determinants are not empty. -/
structure Clear (V : Vocabulary) : Prop where
  /-- No determinant is empty. -/
  empty : ¬ V.empty
  /-- The mark of an unset feature is no letter. -/
  mark : ¬ V.letter '!'
  /-- The end of an answer is no letter. -/
  comma : ¬ V.letter ','
  /-- The end of a determinant is no letter. -/
  equal : ¬ V.letter '='

/-- Over the vocabulary, requests with one key agree on all that the key depends on. -/
def Faithful (V : Vocabulary) : Prop :=
  ∀ (s : KeySet) (x y : Conditions), s.isProvisional = false → (∀ g ∈ s.toList, V.Covers g) →
    (∀ g ∈ s.toList, V.Allows x g) → (∀ g ∈ s.toList, V.Allows y g) →
      s.key x = s.key y → s.Agree x y

end Vocabulary

/-! ### Texts up to a separator -/

/-- Texts without a separator are equal if equal texts arise from them by additions that are the
same up to the separator. -/
theorem eq_of_append_eq_append {z : Char} {a b u v : List Char} (ha : z ∉ a) (hb : z ∉ b)
    (huv : u.takeWhile (· != z) = v.takeWhile (· != z)) (h : a ++ u = b ++ v) : a = b := by
  have hclear : ∀ {l : List Char}, z ∉ l → ∀ c ∈ l, (c != z) = true := by
    intro l hl c hc
    rw [bne_iff_ne]
    rintro rfl
    exact hl hc
  have htake := congrArg (List.takeWhile (· != z)) h
  rw [List.takeWhile_append_of_pos (hclear ha), List.takeWhile_append_of_pos (hclear hb), huv]
    at htake
  exact List.append_cancel_right htake

/-- What stands before a separator does not depend on what follows it. -/
theorem takeWhile_append_cons (z : Char) (l u v : List Char) :
    (l ++ z :: u).takeWhile (· != z) = (l ++ z :: v).takeWhile (· != z) := by
  induction l with
  | nil => simp
  | cons c l ih =>
    rw [List.cons_append, List.cons_append, List.takeWhile_cons, List.takeWhile_cons, ih]

namespace Generator

variable {V : Vocabulary} {x y : Conditions}

/-! ### Answers -/

/-- The answers of a request to a set of determinants. -/
def answers (kind : Kind) (set : SortedSet String) (x : Conditions) : List String :=
  set.toList.filterMap (part? kind x)

/-- The text between the braces. -/
def inner (kind : Kind) (set : SortedSet String) (x : Conditions) : String :=
  ",".intercalate (answers kind set x)

/-- The characters of an answer are those of its determinant and its value, and a mark or a `=`. -/
theorem mem_part?_cases {kind : Kind} {d p : String} (h : part? kind x d = some p) :
    (p = d ∨ p = "!" ++ d) ∨ kind.rank = 2 ∧ ∃ v, x.values.find? d = some v ∧
      p = d ++ "=" ++ v := by
  cases kind with
  | feature =>
    obtain ⟨on, -, hp⟩ := Option.map_eq_some_iff.1 h
    cases on with
    | true => exact .inl (.inl hp.symm)
    | false => exact .inl (.inr hp.symm)
  | locale =>
    rw [part?] at h
    split at h
    · exact .inl (.inl (Option.some.inj h).symm)
    · simp at h
  | custom name =>
    obtain ⟨v, hv, hp⟩ := Option.map_eq_some_iff.1 h
    exact .inr ⟨rfl, v, hv, hp.symm⟩

theorem ne_empty_of_part? {kind : Kind} {d p : String} (hd : d ≠ "") (h : part? kind x d = some p) :
    p ≠ "" := by
  rcases mem_part?_cases h with (rfl | rfl) | ⟨-, v, -, rfl⟩
  · exact hd
  · simp
  · simp

/-- The one answer to a determinant tells what the request says about it. -/
theorem agreeOn_of_part?_eq {kind : Kind} {d : String} (h : part? kind x d = part? kind y d) :
    x.AgreeOn y kind d := by
  cases kind with
  | feature =>
    -- the mark tells an unset feature from one that is set
    have hmark : ("!" ++ d) ≠ d := by
      intro he
      have hlength := congrArg String.length he
      rw [String.length_append] at hlength
      have hone : "!".length = 1 := by decide
      omega
    simp only [part?] at h
    show x.features.find? d = y.features.find? d
    cases hx : x.features.find? d with
    | none => cases hy : y.features.find? d <;> simp_all
    | some a =>
      cases hy : y.features.find? d with
      | none => simp [hx, hy] at h
      | some b => cases a <;> cases b <;> simp_all [Ne.symm hmark]
  | locale =>
    simp only [part?] at h
    show x.hasLocale d = y.hasLocale d
    cases hx : x.hasLocale d <;> cases hy : y.hasLocale d <;> simp_all
  | custom name =>
    simp only [part?] at h
    show x.values.find? d = y.values.find? d
    cases hx : x.values.find? d with
    | none => cases hy : y.values.find? d <;> simp_all
    | some v =>
      cases hy : y.values.find? d with
      | none => simp [hx, hy] at h
      | some w =>
        -- both values follow the same determinant
        rw [hx, hy] at h
        rw [(String.append_right_inj _).1 (Option.some.inj h)]

/-- Without marks and `=` in determinants, an answer tells its determinant. -/
theorem determinant_eq_of_part? {kind : Kind} {d e p : String}
    (hd : '!' ∉ d.toList ∧ '=' ∉ d.toList) (he : '!' ∉ e.toList ∧ '=' ∉ e.toList)
    (hx : part? kind x d = some p) (hy : part? kind y e = some p) : d = e := by
  cases kind with
  | feature =>
    obtain ⟨a, -, ha⟩ := Option.map_eq_some_iff.1 hx
    obtain ⟨b, -, hb⟩ := Option.map_eq_some_iff.1 hy
    rw [← hb] at ha
    -- if only one answer has the mark, the other determinant starts with it
    cases a with
    | true =>
      cases b with
      | true => exact ha
      | false => exact absurd (by rw [if_pos rfl] at ha; simp [ha]) hd.1
    | false =>
      cases b with
      | true => exact absurd (by rw [if_pos rfl] at ha; simp [← ha]) he.1
      | false => simpa using ha
  | locale =>
    simp only [part?] at hx hy
    split at hx
    · split at hy
      · exact (Option.some.inj hx).trans (Option.some.inj hy).symm
      · simp at hy
    · simp at hx
  | custom name =>
    obtain ⟨v, -, hv⟩ := Option.map_eq_some_iff.1 hx
    obtain ⟨w, -, hw⟩ := Option.map_eq_some_iff.1 hy
    rw [← hw] at hv
    have hl := congrArg String.toList hv
    rw [String.append_assoc, String.append_assoc, String.toList_append,
      String.toList_append (s := e)] at hl
    -- a determinant ends before the first `=` of its answer
    apply String.toList_inj.1
    refine eq_of_append_eq_append hd.2 he.2 ?_ hl
    simp

/-- Nonempty texts without commas are told by the text that lists them. -/
theorem eq_of_intercalate_eq {l m : List String} (hl : ∀ s ∈ l, s ≠ "" ∧ ',' ∉ s.toList)
    (hm : ∀ s ∈ m, s ≠ "" ∧ ',' ∉ s.toList) (h : ",".intercalate l = ",".intercalate m) :
    l = m := by
  -- splitting at the commas undoes the listing, except for the list of nothing
  have hsplit : ∀ {l : List String}, l ≠ [] → (∀ s ∈ l, s ≠ "" ∧ ',' ∉ s.toList) →
      Text.splitAt ',' (",".intercalate l) = l := by
    intro l hne hl
    exact Text.splitAt_intercalate hne fun s hs => (hl s hs).2
  have hnil : ∀ {l : List String}, (∀ s ∈ l, s ≠ "" ∧ ',' ∉ s.toList) →
      ",".intercalate l = "" → l = [] := by
    intro l hl h
    by_cases hne : l = []
    · exact hne
    · have hempty := hsplit hne hl
      rw [h] at hempty
      have hmem : "" ∈ l := by
        rw [← hempty]
        decide
      exact absurd rfl (hl "" hmem).1
  by_cases hl' : l = []
  · subst hl'
    exact (hnil hm h.symm).symm
  · by_cases hm' : m = []
    · subst hm'
      exact hnil hl h
    · rw [← hsplit hl' hl, h, hsplit hm' hm]

theorem mem_intercalate_cases {l : List String} {c : Char} (hc : c ∈ (",".intercalate l).toList) :
    c = ',' ∨ ∃ p ∈ l, c ∈ p.toList := by
  rw [String.toList_intercalate] at hc
  induction l with
  | nil => simp at hc
  | cons p l ih =>
    cases l with
    | nil =>
      rw [List.map_cons, List.map_nil, List.intercalate_singleton] at hc
      exact .inr ⟨p, List.mem_cons_self, hc⟩
    | cons q l =>
      rw [List.map_cons, List.intercalate_cons_of_ne_nil (by simp), List.mem_append,
        List.mem_append] at hc
      rcases hc with (hc | hc) | hc
      · exact .inr ⟨p, List.mem_cons_self, hc⟩
      · exact .inl (by simpa using hc)
      · rcases ih hc with hc | ⟨r, hr, hc⟩
        · exact .inl hc
        · exact .inr ⟨r, List.mem_cons_of_mem _ hr, hc⟩

variable {set : SortedSet String} {kind : Kind}

/-- The characters of an answer are letters, and a mark or a `=`. -/
theorem letter_of_mem_answer (hset : ∀ d ∈ set.toList, V.Determinant d)
    (hx : kind.rank = 2 → ∀ d ∈ set.toList, ∀ v ∈ x.values.find? d, V.Text v) {p : String}
    (hp : p ∈ answers kind set x) {c : Char} (hc : c ∈ p.toList) :
    V.letter c ∨ c = '!' ∨ c = '=' := by
  obtain ⟨d, hd, hp⟩ := List.mem_filterMap.1 hp
  have hletters : V.Text d := (hset d hd).1
  rcases mem_part?_cases hp with (rfl | rfl) | ⟨hkind, v, hv, rfl⟩
  · exact .inl (hletters c hc)
  · rw [String.toList_append, List.mem_append] at hc
    rcases hc with hc | hc
    · exact .inr (.inl (by simpa using hc))
    · exact .inl (hletters c hc)
  · rw [String.toList_append, String.toList_append, List.mem_append, List.mem_append] at hc
    rcases hc with (hc | hc) | hc
    · exact .inl (hletters c hc)
    · exact .inr (.inr (by simpa using hc))
    · exact .inl (hx hkind d hd v hv c hc)

/-- A separator that is neither a letter nor used between braces does not occur there. -/
theorem notMem_inner (hset : ∀ d ∈ set.toList, V.Determinant d)
    (hx : kind.rank = 2 → ∀ d ∈ set.toList, ∀ v ∈ x.values.find? d, V.Text v) {z : Char}
    (hz : ¬ V.letter z) (hinside : z ∉ ['!', ',', '=']) : z ∉ (inner kind set x).toList := by
  intro hmem
  simp only [List.mem_cons, List.not_mem_nil, or_false, not_or] at hinside
  rcases mem_intercalate_cases hmem with hcomma | ⟨p, hp, hmem⟩
  · exact hinside.2.1 hcomma
  · rcases letter_of_mem_answer hset hx hp hmem with hletter | hmark | hequal
    · exact hz hletter
    · exact hinside.1 hmark
    · exact hinside.2.2 hequal

/-- Answers over a clear vocabulary are not empty and hold no comma. -/
theorem answer_proper (hV : V.Clear) (hset : ∀ d ∈ set.toList, V.Determinant d)
    (hx : kind.rank = 2 → ∀ d ∈ set.toList, ∀ v ∈ x.values.find? d, V.Text v) :
    ∀ p ∈ answers kind set x, p ≠ "" ∧ ',' ∉ p.toList := by
  intro p hp
  refine ⟨?_, ?_⟩
  · obtain ⟨d, hd, hp⟩ := List.mem_filterMap.1 hp
    exact ne_empty_of_part? (fun hempty => hV.empty ((hset d hd).2 hempty)) hp
  · intro hcomma
    rcases letter_of_mem_answer hset hx hp hcomma with hletter | hmark | hequal
    · exact hV.comma hletter
    · simp at hmark
    · simp at hequal

/-- **Over a clear vocabulary, equal answers between braces belong to requests that agree.** -/
theorem agreeOn_of_inner_eq (hV : V.Clear) (hset : ∀ d ∈ set.toList, V.Determinant d)
    (hx : kind.rank = 2 → ∀ d ∈ set.toList, ∀ v ∈ x.values.find? d, V.Text v)
    (hy : kind.rank = 2 → ∀ d ∈ set.toList, ∀ v ∈ y.values.find? d, V.Text v)
    (h : inner kind set x = inner kind set y) : ∀ d ∈ set.toList, x.AgreeOn y kind d := by
  have hanswers : answers kind set x = answers kind set y :=
    eq_of_intercalate_eq (answer_proper hV hset hx) (answer_proper hV hset hy) h
  have hclear : ∀ d ∈ set.toList, '!' ∉ d.toList ∧ '=' ∉ d.toList := fun d hd =>
    ⟨fun hc => hV.mark ((hset d hd).1 _ hc), fun hc => hV.equal ((hset d hd).1 _ hc)⟩
  -- an answer of one request is given by the other too, and to the same determinant
  have hsame : ∀ {x y : Conditions} {d p : String}, answers kind set x = answers kind set y →
      d ∈ set.toList → part? kind x d = some p → part? kind y d = some p := by
    intro x y d p hanswers hd hp
    have hmem : p ∈ answers kind set y := by
      rw [← hanswers]
      exact List.mem_filterMap.2 ⟨d, hd, hp⟩
    obtain ⟨e, he, hq⟩ := List.mem_filterMap.1 hmem
    rwa [determinant_eq_of_part? (hclear d hd) (hclear e he) hp hq]
  intro d hd
  apply agreeOn_of_part?_eq
  apply Option.ext
  intro p
  exact ⟨hsame hanswers hd, hsame hanswers.symm hd⟩

/-! ### Fragments -/

/-- What a settled generator adds to the key. -/
def text (g : Generator) (x : Conditions) : String :=
  match g.determinants with
  | none => g.kind.text
  | some set => g.kind.text ++ "\x7b" ++ inner g.kind set x ++ "\x7d"

theorem fragment_of_settled {g : Generator} (hg : g.provisional = false) (x : Conditions) :
    g.fragment x = some (g.text x) := by
  rw [fragment, hg, text]
  cases g.determinants <;> rfl

end Generator

/-! ### Keys -/

/-- The characters of fragments, each after a semicolon. -/
def trail (l : List Generator) (x : Conditions) : List Char :=
  l.flatMap fun g => ';' :: (g.text x).toList

theorem toList_intercalate_text (g : Generator) (l : List Generator) (x : Conditions) :
    ';' :: (";".intercalate ((g :: l).map fun g => g.text x)).toList = trail (g :: l) x := by
  rw [String.toList_intercalate]
  induction l generalizing g with
  | nil => simp [trail]
  | cons h l ih =>
    rw [trail, List.flatMap_cons, ← trail, ← ih h, List.map_cons, List.map_cons,
      List.intercalate_cons_of_ne_nil (by simp), List.map_cons]
    simp

/-- What follows the text up to the next `{` is the same for all requests. -/
theorem takeWhile_trail (l : List Generator) (x y : Conditions) :
    (trail l x).takeWhile (· != '\x7b') = (trail l y).takeWhile (· != '\x7b') := by
  induction l with
  | nil => rw [trail, trail, List.flatMap_nil, List.flatMap_nil]
  | cons g l ih =>
    rw [trail, trail, List.flatMap_cons, List.flatMap_cons, ← trail, ← trail]
    cases hg : g.determinants with
    | none =>
      -- the name of the kind may hold a `{` itself
      simp only [Generator.text, hg]
      generalize ';' :: g.kind.text.toList = k
      induction k with
      | nil => rw [List.nil_append, List.nil_append, ih]
      | cons c k ihk =>
        rw [List.cons_append, List.cons_append, List.takeWhile_cons, List.takeWhile_cons, ihk]
    | some set =>
      -- nothing behind the `{` of the answers counts
      have htext : ∀ w : Conditions, ';' :: (g.text w).toList ++ trail l w
          = (';' :: g.kind.text.toList) ++ '\x7b' ::
            ((Generator.inner g.kind set w).toList ++ '\x7d' :: trail l w) := by
        intro w
        simp [Generator.text, hg]
      rw [htext x, htext y]
      exact takeWhile_append_cons _ _ _ _

/-- Hence so is what follows the answers of a dimension, up to any of the three separators. -/
theorem takeWhile_closing {z : Char} (hz : z ∈ ['\x7d', ';', '\x7b']) (l : List Generator)
    (x y : Conditions) :
    ('\x7d' :: trail l x).takeWhile (· != z) = ('\x7d' :: trail l y).takeWhile (· != z) := by
  simp only [List.mem_cons, List.not_mem_nil, or_false] at hz
  rcases hz with rfl | rfl | rfl
  · rw [List.takeWhile_cons_of_neg (by simp), List.takeWhile_cons_of_neg (by simp)]
  · cases l with
    | nil => rw [trail, trail, List.flatMap_nil, List.flatMap_nil]
    | cons g l =>
      rw [trail, trail, List.flatMap_cons, List.flatMap_cons]
      simp only [List.cons_append, List.takeWhile_cons]
      simp
  · rw [List.takeWhile_cons, List.takeWhile_cons, takeWhile_trail l x y]

/-- Generators over a vocabulary that keeps clear of one separator agree dimension by dimension. -/
theorem agreeOn_of_trail_eq {V : Vocabulary} (hV : V.Clear) {z : Char}
    (hz : z ∈ ['\x7d', ';', '\x7b']) (hletter : ¬ V.letter z) {x y : Conditions}
    {l : List Generator} (hl : ∀ g ∈ l, V.Covers g) (hx : ∀ g ∈ l, V.Allows x g)
    (hy : ∀ g ∈ l, V.Allows y g) (h : trail l x = trail l y) :
    ∀ g ∈ l, ∀ set ∈ g.determinants, ∀ d ∈ set.toList, x.AgreeOn y g.kind d := by
  have hinside : z ∉ ['!', ',', '='] := by
    simp only [List.mem_cons, List.not_mem_nil, or_false] at hz
    rcases hz with rfl | rfl | rfl <;> decide
  induction l with
  | nil => simp
  | cons g l ih =>
    have hrest := ih (fun g hg => hl g (List.mem_cons_of_mem _ hg))
      (fun g hg => hx g (List.mem_cons_of_mem _ hg))
      (fun g hg => hy g (List.mem_cons_of_mem _ hg))
    rw [trail, trail, List.flatMap_cons, List.flatMap_cons, ← trail, ← trail] at h
    cases hg : g.determinants with
    | none =>
      simp only [Generator.text, hg] at h
      intro g' hg' set hset
      rcases List.mem_cons.1 hg' with rfl | hg'
      · rw [hg] at hset
        simp at hset
      · exact hrest (List.append_cancel_left h) g' hg' set hset
    | some set =>
      have hset := hl g List.mem_cons_self set hg
      have hxset := fun hkind => hx g List.mem_cons_self hkind set hg
      have hyset := fun hkind => hy g List.mem_cons_self hkind set hg
      -- after the name of the kind, both keys go on with the answers of this dimension
      have hgoes : (Generator.inner g.kind set x).toList ++ '\x7d' :: trail l x
          = (Generator.inner g.kind set y).toList ++ '\x7d' :: trail l y := by
        have hbrace : (';' :: g.kind.text.toList ++ ['\x7b'])
              ++ ((Generator.inner g.kind set x).toList ++ '\x7d' :: trail l x)
            = (';' :: g.kind.text.toList ++ ['\x7b'])
              ++ ((Generator.inner g.kind set y).toList ++ '\x7d' :: trail l y) := by
          simpa [Generator.text, hg] using h
        exact List.append_cancel_left hbrace
      have hinner : (Generator.inner g.kind set x).toList = (Generator.inner g.kind set y).toList :=
        eq_of_append_eq_append (Generator.notMem_inner hset hxset hletter hinside)
          (Generator.notMem_inner hset hyset hletter hinside) (takeWhile_closing hz l x y) hgoes
      rw [hinner] at hgoes
      intro g' hg' set' hset'
      rcases List.mem_cons.1 hg' with rfl | hg'
      · obtain rfl : set = set' := Option.some.inj (hg.symm.trans hset')
        exact Generator.agreeOn_of_inner_eq hV hset hxset hyset (String.toList_inj.1 hinner)
      · exact hrest (List.cons.inj (List.append_cancel_left hgoes)).2 g' hg' set' hset'

namespace KeySet

theorem key_of_settled {s : KeySet} (hs : s.isProvisional = false) (x : Conditions) :
    s.key x = some (";".intercalate (s.toList.map fun g => g.text x)) := by
  have hall : ∀ g ∈ s.toList, g.provisional = false := by
    intro g hg
    have hnone := List.any_eq_false.1 hs g hg
    simpa using hnone
  rw [key]
  have hmap : (s.toList.mapM fun g : Generator => g.fragment x) =
      some (s.toList.map fun g => g.text x) := by
    generalize s.toList = l at hall
    induction l with
    | nil => rfl
    | cons g l ih =>
      rw [List.mapM_cons, Generator.fragment_of_settled (hall g List.mem_cons_self),
        ih fun g hg => hall g (List.mem_cons_of_mem _ hg)]
      rfl
  rw [hmap]
  rfl

/-- Texts that keep clear of the separators make keys faithful. -/
theorem agree_of_key_eq {V : Vocabulary} (hV : V.Clear) {z : Char} (hz : z ∈ ['\x7d', ';', '\x7b'])
    (hletter : ¬ V.letter z) {s : KeySet} {x y : Conditions} (hs : s.isProvisional = false)
    (hcovers : ∀ g ∈ s.toList, V.Covers g) (hx : ∀ g ∈ s.toList, V.Allows x g)
    (hy : ∀ g ∈ s.toList, V.Allows y g) (h : s.key x = s.key y) : s.Agree x y := by
  rw [key_of_settled hs, key_of_settled hs, Option.some.injEq] at h
  apply agreeOn_of_trail_eq hV hz hletter hcovers hx hy
  cases hl : s.toList with
  | nil => rw [trail, trail, List.flatMap_nil, List.flatMap_nil]
  | cons g l =>
    rw [hl] at h
    rw [← toList_intercalate_text, ← toList_intercalate_text, h]

/-- The key set of some settled generators. -/
def ofSettled (l : List (Kind × List String)) : KeySet :=
  ⟨.ofList (l.map fun p => (p.1, .settled p.1 (some p.2)))⟩

end KeySet

/-! ### Collisions -/

/-- Two requests over a vocabulary that differ although they have one key. -/
structure Collision (V : Vocabulary) (s : KeySet) (x y : Conditions) : Prop where
  /-- The key set is settled. -/
  settled : s.isProvisional = false
  /-- Its determinants are over the vocabulary. -/
  covers : ∀ g ∈ s.toList, V.Covers g
  /-- So are the values of the first request. -/
  left : ∀ g ∈ s.toList, V.Allows x g
  /-- So are the values of the second request. -/
  right : ∀ g ∈ s.toList, V.Allows y g
  /-- The keys are equal. -/
  key : s.key x = s.key y
  /-- The requests differ. -/
  differ : ¬ s.Agree x y

namespace Vocabulary

/-- The vocabulary of some characters. -/
def ofChars (l : List Char) (empty : Bool) : Vocabulary := ⟨fun c => c ∈ l, empty = true⟩

-- named, since the search for an instance may find the one that tries all characters
instance (l : List Char) (empty : Bool) (s : String) : Decidable ((ofChars l empty).Text s) :=
  List.decidableBAll (fun c => c ∈ l) s.toList

instance (l : List Char) (empty : Bool) (s : String) :
    Decidable ((ofChars l empty).Determinant s) :=
  inferInstanceAs (Decidable ((ofChars l empty).Text s ∧ (s = "" → empty = true)))

instance (l : List Char) (empty : Bool) (g : Generator) : Decidable ((ofChars l empty).Covers g) :=
  inferInstanceAs (Decidable (∀ set ∈ g.determinants, ∀ d ∈ set.toList, _))

instance (l : List Char) (empty : Bool) (x : Conditions) (g : Generator) :
    Decidable ((ofChars l empty).Allows x g) :=
  inferInstanceAs (Decidable (g.kind.rank = 2 → ∀ set ∈ g.determinants, ∀ d ∈ set.toList,
    ∀ v ∈ x.values.find? d, (ofChars l empty).Text v))

instance (l : List Char) (empty : Bool) (s : KeySet) (x y : Conditions) :
    Decidable (Collision (ofChars l empty) s x y) :=
  decidable_of_iff (s.isProvisional = false ∧ (∀ g ∈ s.toList, (ofChars l empty).Covers g) ∧
      (∀ g ∈ s.toList, (ofChars l empty).Allows x g) ∧
      (∀ g ∈ s.toList, (ofChars l empty).Allows y g) ∧
      s.key x = s.key y ∧ ¬ s.Agree x y)
    ⟨fun ⟨h₁, h₂, h₃, h₄, h₅, h₆⟩ => ⟨h₁, h₂, h₃, h₄, h₅, h₆⟩,
      fun ⟨h₁, h₂, h₃, h₄, h₅, h₆⟩ => ⟨h₁, h₂, h₃, h₄, h₅, h₆⟩⟩

variable {V : Vocabulary}

/-- A collision over fewer characters is one over more. -/
theorem not_faithful_of_collision {l : List Char} {empty : Bool} {s : KeySet} {x y : Conditions}
    (h : Collision (ofChars l empty) s x y) (hl : ∀ c ∈ l, V.letter c)
    (hempty : empty = true → V.empty) : ¬ V.Faithful := by
  have htext : ∀ {t : String}, (ofChars l empty).Text t → V.Text t := fun ht c hc => hl c (ht c hc)
  intro hfaithful
  refine h.differ (hfaithful s x y h.settled ?_ ?_ ?_ h.key)
  · intro g hg set hset d hd
    obtain ⟨hletters, hne⟩ := h.covers g hg set hset d hd
    exact ⟨htext hletters, fun hd => hempty (hne hd)⟩
  · intro g hg hkind set hset d hd v hv
    exact htext (h.left g hg hkind set hset d hd v hv)
  · intro g hg hkind set hset d hd v hv
    exact htext (h.right g hg hkind set hset d hd v hv)

/-- An empty feature that is set leaves no trace. -/
theorem collision_empty : Collision (ofChars [] true) (.ofSettled [(.feature, [""])])
    { features := .ofList [("", true)] } {} := by decide +kernel

/-- The mark of an unset feature may be the name of another one. -/
theorem collision_mark : Collision (ofChars ['!'] false) (.ofSettled [(.feature, ["!", "!!"])])
    { features := .ofList [("!", false)] } { features := .ofList [("!!", true)] } := by
      decide +kernel

/-- Commas of names and commas between names add up. -/
theorem collision_comma :
    Collision (ofChars [','] false) (.ofSettled [(.feature, [",", ",,", ",,,,"])])
    { features := .ofList [(",", true), (",,", true)] }
      { features := .ofList [(",,,,", true)] } := by
  decide +kernel

/-- So do the `=` of a determinant and of its value. -/
theorem collision_equal :
    Collision (ofChars ['='] false) (.ofSettled [(.custom "kind", ["=", "=="])])
    { values := .ofList [("=", "=")] } { values := .ofList [("==", "")] } := by decide +kernel

/-- With all three separators, a value can take over the next dimension. -/
theorem collision_closing : Collision (ofChars ['\x7d', ';', '\x7b'] false)
    (.ofSettled [(.custom "", ["\x7d;"]), (.custom "=", ["\x7b\x7d;"])])
    { values := .ofList [("\x7d;", "\x7b\x7b")] }
      { values := .ofList [("\x7b\x7d;", "\x7b")] } := by
  decide +kernel

/-- Keys are faithful over a vocabulary just if no determinant is empty, neither the mark of an
unset feature nor a comma nor a `=` is a letter, and one of the separators `}`, `;` and `{` is none
either. -/
theorem faithful_iff (V : Vocabulary) : V.Faithful ↔ ¬ V.empty ∧ ¬ V.letter '!' ∧ ¬ V.letter ',' ∧
    ¬ V.letter '=' ∧ ¬ (V.letter '\x7d' ∧ V.letter ';' ∧ V.letter '\x7b') := by
  constructor
  · intro hfaithful
    -- any other vocabulary has a collision
    refine ⟨?_, ?_, ?_, ?_, ?_⟩
    · intro h
      exact not_faithful_of_collision collision_empty (by simp) (fun _ => h) hfaithful
    · intro h
      exact not_faithful_of_collision collision_mark (by simpa using h) (by simp) hfaithful
    · intro h
      exact not_faithful_of_collision collision_comma (by simpa using h) (by simp) hfaithful
    · intro h
      exact not_faithful_of_collision collision_equal (by simpa using h) (by simp) hfaithful
    · intro h
      exact not_faithful_of_collision collision_closing (by simpa using h) (by simp) hfaithful
  · rintro ⟨hempty, hmark, hcomma, hequal, hclosing⟩
    have hV : V.Clear := ⟨hempty, hmark, hcomma, hequal⟩
    intro s x y hs hcovers hx hy h
    -- the first separator that is no letter ends the answers of a dimension
    by_cases hbrace : V.letter '\x7d'
    · by_cases hsemicolon : V.letter ';'
      · have hopen : ¬ V.letter '\x7b' := fun hopen => hclosing ⟨hbrace, hsemicolon, hopen⟩
        exact KeySet.agree_of_key_eq hV (by simp) hopen hs hcovers hx hy h
      · exact KeySet.agree_of_key_eq hV (by simp) hsemicolon hs hcovers hx hy h
    · exact KeySet.agree_of_key_eq hV (by simp) hbrace hs hcovers hx hy h

end Vocabulary

/-- Two requests that share a key although they differ: the value of one theme reads like the values
of two. -/
theorem not_agree_of_key_eq : ¬ ∀ (s : KeySet) (x y : Conditions), s.isProvisional = false →
    s.key x = s.key y → s.Agree x y := by
  intro h
  have hagree := h (.ofSettled [(.custom "theme", ["density", "skin"])])
    { values := .ofList [("density", "compact,skin=dark")] }
    { values := .ofList [("density", "compact"), ("skin", "dark")] } (by decide +kernel)
      (by decide +kernel)
  revert hagree
  decide +kernel

end ModuleAtlas.CacheKey
