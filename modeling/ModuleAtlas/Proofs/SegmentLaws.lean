import ModuleAtlas.ModuleId

/-!
# Laws of module ids

The segments of an id are never empty, never `.`, and hold no slash.  Lists of such segments and ids
in normal form are the same thing: joining and splitting undo each other.

## Main definitions

* `ProperSegment` — what a segment may be.

## Main results

* `Text.splitAt_intercalate`, `Text.intercalate_splitAt` — pieces without the separator survive
  joining, and texts survive splitting.
* `properSegment_of_mem_segments`, `segments_append_slash` — all segments of an id are proper, and a
  slash puts those of two ids one after the other.
* `segments_joinSegments` — **proper segments survive joining.**
* `joinSegments_injective`, `segments_normalizeId`, `normalizeId_normalizeId` — hence ids in normal
  form are as good as their segments.
-/

namespace ModuleAtlas

/-! ### Splitting -/

namespace Text

theorem splitChars_eq_splitOn (sep : Char) (s : List Char) : splitChars sep s = s.splitOn sep := by
  induction s with
  | nil => rfl
  | cons c s ih =>
    rw [List.splitOn_cons_eq_if_modifyHead, splitChars, ih]
    by_cases hc : c = sep
    · simp [hc]
    · simp only [hc, if_false, beq_iff_eq]
      cases h : s.splitOn sep with
      | nil => exact absurd h (List.splitOn_ne_nil sep s)
      | cons piece rest => rfl

/-- A piece between separators holds no separator. -/
theorem notMem_of_mem_splitChars {sep : Char} {s piece : List Char} (h : piece ∈ splitChars sep s) :
    sep ∉ piece := by
  induction s generalizing piece with
  | nil => simp at h; simp [h]
  | cons c s ih =>
    rw [splitChars] at h
    split at h
    · rcases List.mem_cons.1 h with rfl | h
      · simp
      · exact ih h
    · next hc =>
      split at h
      · rw [List.mem_singleton] at h
        simp [h, Ne.symm hc]
      · next first rest hs =>
        rcases List.mem_cons.1 h with rfl | h
        · have hfirst : sep ∉ first := ih (by rw [hs]; exact List.mem_cons_self)
          simp [hfirst, Ne.symm hc]
        · exact ih (by rw [hs]; exact List.mem_cons_of_mem _ h)

theorem notMem_of_mem_splitAt {sep : Char} {s piece : String} (h : piece ∈ splitAt sep s) :
    sep ∉ piece.toList := by
  obtain ⟨l, hl, rfl⟩ := List.mem_map.1 h
  rw [String.toList_ofList]
  exact notMem_of_mem_splitChars hl

/-- Pieces without the separator survive joining. -/
theorem splitAt_intercalate {sep : Char} {l : List String} (hl : l ≠ [])
    (h : ∀ s ∈ l, sep ∉ s.toList) : splitAt sep ((String.singleton sep).intercalate l) = l := by
  have hpieces : ∀ piece ∈ l.map String.toList, sep ∉ piece := by
    intro piece hp
    obtain ⟨s, hs, rfl⟩ := List.mem_map.1 hp
    exact h s hs
  rw [splitAt, splitChars_eq_splitOn, String.toList_intercalate, String.toList_singleton,
    List.splitOn_intercalate sep hpieces (by simpa using hl), List.map_map]
  calc l.map (String.ofList ∘ String.toList) = l.map id := by
        apply List.map_congr_left
        intro s _
        exact String.ofList_toList
    _ = l := List.map_id l

/-- Joining the pieces of a text gives the text. -/
theorem intercalate_splitAt (sep : Char) (s : String) :
    (String.singleton sep).intercalate (splitAt sep s) = s := by
  apply String.toList_inj.1
  have hpieces : (splitAt sep s).map String.toList = s.toList.splitOn sep := by
    rw [splitAt, splitChars_eq_splitOn, List.map_map]
    calc (s.toList.splitOn sep).map (String.toList ∘ String.ofList) =
      (s.toList.splitOn sep).map id := by
          apply List.map_congr_left
          intro piece _
          exact String.toList_ofList
      _ = s.toList.splitOn sep := List.map_id _
  rw [String.toList_intercalate, String.toList_singleton, hpieces, List.intercalate_splitOn]

theorem splitAt_ne_nil (sep : Char) (s : String) : splitAt sep s ≠ [] := by
  rw [splitAt, ne_eq, List.map_eq_nil_iff]
  exact splitChars_ne_nil sep s.toList

/-- A separator separates the pieces before it from those after it. -/
theorem splitAt_append (sep : Char) (s t : String) :
    splitAt sep (s ++ String.singleton sep ++ t) = splitAt sep s ++ splitAt sep t := by
  have htext : s ++ String.singleton sep ++ t
      = (String.singleton sep).intercalate (splitAt sep s ++ splitAt sep t) := by
    rw [String.intercalate_append_of_ne_nil (splitAt_ne_nil sep s) (splitAt_ne_nil sep t),
      intercalate_splitAt, intercalate_splitAt]
  rw [htext, splitAt_intercalate (List.append_ne_nil_of_left_ne_nil (splitAt_ne_nil sep s) _)]
  intro piece hpiece
  rcases List.mem_append.1 hpiece with h | h
  · exact notMem_of_mem_splitAt h
  · exact notMem_of_mem_splitAt h

end Text

/-! ### Proper segments -/

/-- What a segment of an id may be: neither empty nor `.`, and without a slash. -/
def ProperSegment (s : String) : Prop := isSegment s = true ∧ '/' ∉ s.toList

theorem properSegment_of_mem_segments {id s : String} (h : s ∈ segments id) : ProperSegment s := by
  obtain ⟨hs, hseg⟩ := List.mem_filter.1 h
  exact ⟨hseg, Text.notMem_of_mem_splitAt hs⟩

/-- A slash puts the segments of two ids one after the other. -/
theorem segments_append_slash (id below : String) :
    segments (id ++ "/" ++ below) = segments id ++ segments below := by
  rw [segments, segments, segments, ← List.filter_append]
  exact congrArg _ (Text.splitAt_append '/' id below)

theorem filter_isSegment {l : List String} (h : ∀ s ∈ l, ProperSegment s) :
    l.filter isSegment = l :=
  List.filter_eq_self.2 fun s hs => (h s hs).1

@[simp] theorem segments_empty : segments "" = [] := by decide +kernel

/-- **Proper segments survive joining.** -/
theorem segments_joinSegments {l : List String} (h : ∀ s ∈ l, ProperSegment s) :
    segments (joinSegments l) = l := by
  by_cases hl : l = []
  · rw [hl]
    exact segments_empty
  · have hsplit : Text.splitAt '/' (joinSegments l) = l :=
      Text.splitAt_intercalate hl fun s hs => (h s hs).2
    rw [segments, hsplit, filter_isSegment h]

theorem joinSegments_injective {l m : List String} (hl : ∀ s ∈ l, ProperSegment s)
    (hm : ∀ s ∈ m, ProperSegment s) (h : joinSegments l = joinSegments m) : l = m := by
  rw [← segments_joinSegments hl, h, segments_joinSegments hm]

theorem segments_normalizeId (id : String) : segments (normalizeId id) = segments id :=
  segments_joinSegments fun _ hs => properSegment_of_mem_segments hs

theorem normalizeId_normalizeId (id : String) : normalizeId (normalizeId id) = normalizeId id := by
  rw [normalizeId, segments_normalizeId, normalizeId]

/-! ### Resolution -/

theorem properSegment_of_mem_step {place : List String} {segment : String}
    (hplace : ∀ s ∈ place, ProperSegment s) (hsegment : ProperSegment segment) :
    ∀ s ∈ step place segment, ProperSegment s := by
  intro s hs
  rw [step] at hs
  split at hs
  · exact hplace s (List.dropLast_subset _ hs)
  · rcases List.mem_append.1 hs with hs | hs
    · exact hplace s hs
    · rw [List.mem_singleton.1 hs]
      exact hsegment

/-- Steps by proper segments lead to proper segments. -/
theorem properSegment_of_mem_foldl_step {specifier : List String}
    (hspec : ∀ s ∈ specifier, ProperSegment s) :
    ∀ {place : List String}, (∀ s ∈ place, ProperSegment s) →
      ∀ s ∈ specifier.foldl step place, ProperSegment s := by
  induction specifier with
  | nil => intro place hplace; exact hplace
  | cons segment specifier ih =>
    intro place hplace
    rw [List.foldl_cons]
    exact ih (fun s hs => hspec s (List.mem_cons_of_mem _ hs))
      (properSegment_of_mem_step hplace (hspec segment List.mem_cons_self))

theorem properSegment_of_mem_resolveSegments {referrer specifier : List String}
    (hr : ∀ s ∈ referrer, ProperSegment s) (hs : ∀ s ∈ specifier, ProperSegment s) :
    ∀ s ∈ resolveSegments referrer specifier, ProperSegment s :=
  properSegment_of_mem_foldl_step hs fun s h => hr s (List.dropLast_subset _ h)

/-- A resolved specifier is an id in normal form. -/
theorem normalizeId_resolveSpecifier (referrer specifier : String) :
    normalizeId (resolveSpecifier referrer specifier) = resolveSpecifier referrer specifier := by
  rw [resolveSpecifier]
  split
  · rw [normalizeId, segments_joinSegments]
    exact properSegment_of_mem_resolveSegments (fun _ h => properSegment_of_mem_segments h)
      fun _ h => properSegment_of_mem_segments h
  · exact normalizeId_normalizeId specifier

end ModuleAtlas
