import ModuleAtlas.Proofs.JsonText
import ModuleAtlas.Proofs.MapLaws
import ModuleAtlas.Snapshot

/-!
# Records read back

What is written of a record is read as the same record.  The one thing that a written record cannot
name are places beyond the limit for places, so a table with such a place is refused when it is read
back.

## Main definitions

* `Node.fits`, `Tree.fits`, `Snapshot.fits` — all places are below the limit.

## Main results

* `Deps.ofJson_toJson`, `Node.ofJson_toJson`, `Tree.ofJson_toJson`, `Snapshot.ofJson_toJson` —
  written forms are read back.
* `Snapshot.ofBytes_toBytes` — **so are the bytes of a snapshot.**
-/

namespace ModuleAtlas

namespace Json

/-! ### Lists -/

theorem mapM_ite {α β : Type} {p : α → Bool} {f : α → β} (l : List α) :
    (l.mapM fun a => if p a then some (f a) else none) =
      if l.all p then some (l.map f) else none := by
  induction l with
  | nil => rfl
  | cons a l ih =>
    rw [List.mapM_cons, ih, List.all_cons]
    cases p a with
    | false => rfl
    | true =>
      cases l.all p with
      | false => rfl
      | true => rfl

/-- A list is read back if its items are, and refused if one of them is. -/
theorem list_arr_map {α : Type} {read : Json → Option α} {write : α → Json} {p : α → Bool}
    (h : ∀ a, read (write a) = if p a then some a else none) (l : List α) :
    list read (arr (l.map write)) = if l.all p then some l else none := by
  have hread : (fun a => read (write a)) = fun a => if p a then some (id a) else none := funext h
  rw [list, List.mapM_map, show read ∘ write = _ from hread, mapM_ite, List.map_id]

theorem list_text_strings (l : List String) : list text (strings l) = some l := by
  have hread : ∀ s, text (str s) = if true then some s else none := fun _ => rfl
  rw [strings, list_arr_map hread]
  simp

/-- Members are read back if their values are, and refused if one of them is. -/
theorem entries_obj_map {α β : Type} {read : Json → Option α} {write : α → Json} {p : α → Bool}
    (h : ∀ a, read (write a) = if p a then some a else none) (name : β → String)
    (l : List (β × α)) :
    entries read (obj (l.map fun q => (name q.1, write q.2)))
      = if l.all (fun q => p q.2) then some (l.map fun q => (name q.1, q.2)) else none := by
  have hread : (fun q : String × Json => (read q.2).map (q.1, ·)) ∘
      (fun q : β × α => (name q.1, write q.2))
      = fun q => if p q.2 then some (name q.1, q.2) else none := by
    funext q
    show (read (write q.2)).map (name q.1, ·) = _
    rw [h]
    split <;> rfl
  rw [entries, List.mapM_map, hread]
  exact mapM_ite (p := fun q : β × α => p q.2) l

/-! ### Members -/

/-- The members that fields denote, where a field without a value is left out. -/
def membersOf (fields : List (String × Option Json)) : List (String × Json) :=
  fields.filterMap fun q => q.2.map (q.1, ·)

theorem membersOf_append (l m : List (String × Option Json)) :
    membersOf (l ++ m) = membersOf l ++ membersOf m := List.filterMap_append

theorem optionalMember_eq {α : Type} (k : String) (write : α → Json) (o : Option α) :
    optionalMember k write o = membersOf [(k, o.map write)] := by cases o <;> rfl

theorem singleton_eq (k : String) (j : Json) : [(k, j)] = membersOf [(k, some j)] := rfl

/-- The members by the name of a field are those of the field, if no other field has the name. -/
theorem filter_membersOf {fields : List (String × Option Json)} (h : (fields.map (·.1)).Nodup)
    {q : String × Option Json} (hq : q ∈ fields) :
    ((membersOf fields).filter fun p => p.1 = q.1) = membersOf [q] := by
  have hother : ∀ {l : List (String × Option Json)}, q.1 ∉ l.map (·.1) →
      ((membersOf l).filter fun p => p.1 = q.1) = [] := by
    intro l hl
    rw [List.filter_eq_nil_iff]
    intro p hp hname
    obtain ⟨r, hr, hp⟩ := List.mem_filterMap.1 hp
    obtain ⟨j, -, rfl⟩ := Option.map_eq_some_iff.1 hp
    exact hl (of_decide_eq_true hname ▸ List.mem_map_of_mem hr)
  have hself : ((membersOf [q]).filter fun p => p.1 = q.1) = membersOf [q] := by
    obtain ⟨k, o⟩ := q
    cases o <;> simp [membersOf]
  -- the field splits the list, and its name occurs on neither side
  obtain ⟨before, after, rfl⟩ := List.append_of_mem hq
  rw [List.map_append, List.map_cons, List.nodup_append, List.nodup_cons] at h
  obtain ⟨-, ⟨hafter, -⟩, hbefore⟩ := h
  have hbefore : q.1 ∉ before.map (·.1) := fun hmem => hbefore _ hmem _ List.mem_cons_self rfl
  rw [membersOf_append, ← List.singleton_append, membersOf_append, List.filter_append,
    List.filter_append, hother hbefore, hother hafter, hself, List.nil_append, List.append_nil]

/-- Fields of different names are read back. -/
theorem record_membersOf {fields : List (String × Option Json)} {names : List String}
    (hnames : fields.map (·.1) = names) (h : names.Nodup) :
    (obj (membersOf fields)).record names = some (fields.map (·.2)) := by
  subst hnames
  have hfield : ∀ q ∈ fields, uniqueMember q.1 (membersOf fields) = some q.2 := by
    intro q hq
    rw [uniqueMember, filter_membersOf h hq]
    obtain ⟨k, o⟩ := q
    cases o <;> rfl
  show (fields.map (·.1)).mapM (fun name => uniqueMember name (membersOf fields)) = _
  generalize membersOf fields = members at hfield
  clear h
  induction fields with
  | nil => rfl
  | cons q fields ih =>
    rw [List.map_cons, List.mapM_cons, hfield q List.mem_cons_self,
      ih fun r hr => hfield r (List.mem_cons_of_mem _ hr)]
    rfl

theorem natBelow_int (limit n : Nat) :
    natBelow limit (int n) = if n < limit then some n else none := rfl

theorem optional_natBelow (limit : Nat) (o : Option Nat) :
    optional (natBelow limit) (o.map fun p : Nat => int p)
      = if o.all (fun p => decide (p < limit)) then some o else none := by
  cases o with
  | none => rfl
  | some p =>
    show (natBelow limit (int p)).map some = _
    rw [natBelow_int]
    by_cases h : p < limit <;> simp [h]

theorem timeOfJson_timeJson (m : Millis) : timeOfJson (timeJson m) = some m := by
  have hlow : Millis.least ≤ m.toInt := m.le_toInt
  have hhigh : m.toInt < Millis.greatest + 1 := m.toInt_lt
  rw [timeOfJson, timeJson, intBetween, if_pos ⟨hlow, hhigh⟩]
  simp

theorem optional_timeOfJson (o : Option Millis) :
    optional timeOfJson (o.map timeJson) = some o := by
  cases o with
  | none => rfl
  | some m =>
    show (timeOfJson (timeJson m)).map some = _
    rw [timeOfJson_timeJson]
    rfl

end Json

/-! ### Dependencies -/

/-- A list of specifiers, unless it is empty. -/
def nonempty? (l : List String) : Option (List String) := if l.isEmpty then none else some l

theorem specifierMember_eq (name : String) (l : List String) :
    specifierMember name l = optionalMember name Json.strings (nonempty? l) := by
  rw [specifierMember, nonempty?]
  split <;> rfl

theorem read_specifiers (l : List String) :
    Json.orDefault [] (Json.list Json.text) ((nonempty? l).map Json.strings) = some l := by
  cases l with
  | nil => rfl
  | cons s l => exact Json.list_text_strings (s :: l)

/-- Written dependencies are read back. -/
theorem Deps.ofJson_toJson (d : Deps) : Deps.ofJson d.toJson = some d := by
  have hfields : d.toJson = .obj (Json.membersOf [("define", (nonempty? d.define).map Json.strings),
      ("require", (nonempty? d.require).map Json.strings),
      ("object", (nonempty? d.object).map Json.strings)]) := by
    simp only [Deps.toJson, specifierMember_eq, Json.optionalMember_eq, ← Json.membersOf_append]
    rfl
  have hrecord : d.toJson.record ["define", "require", "object"]
      = some [(nonempty? d.define).map Json.strings, (nonempty? d.require).map Json.strings,
        (nonempty? d.object).map Json.strings] := by
    rw [hfields]
    exact Json.record_membersOf rfl (by decide)
  rw [Deps.ofJson, hrecord]
  simp only [read_specifiers]
  rfl

/-! ### Nodes and trees -/

/-- Whether a written table can name the places that a node links to. -/
def Node.fits (n : Node) : Bool :=
  n.parent.all (fun p => decide (p < placeLimit)) && n.children.toList.all fun q =>
    decide (q.2 < placeLimit)

/-- Whether a written table can name all places that a tree links to. -/
def Tree.fits (t : Tree) : Bool := t.nodes.toList.all Node.fits

theorem childrenOfJson_childrenJson (m : SortedMap String Nat) :
    childrenOfJson (childrenJson m)
      = if m.toList.all (fun q => decide (q.2 < placeLimit)) then some m else none := by
  have hread : ∀ p : Nat,
      Json.natBelow placeLimit (.int p) = if decide (p < placeLimit) then some p else none := by
    intro p
    rw [Json.natBelow_int]
    by_cases h : p < placeLimit <;> simp [h]
  have hentries : Json.entries (Json.natBelow placeLimit) (childrenJson m)
      = if m.toList.all (fun q => decide (q.2 < placeLimit)) then
          some (m.toList.map fun q => (q.1, q.2))
        else none := Json.entries_obj_map hread id m.toList
  rw [childrenOfJson, hentries]
  split
  · rw [Option.map_some]
    congr 1
    exact (congrArg SortedMap.ofList (List.map_id _)).trans m.ofList_toList
  · rfl

theorem read_children (m : SortedMap String Nat) :
    Json.orDefault ∅ childrenOfJson ((if m.isEmpty then none else some m).map childrenJson)
      = if m.toList.all (fun q => decide (q.2 < placeLimit)) then some m else none := by
  by_cases h : m.isEmpty = true
  · have hnil : m.toList = [] := List.isEmpty_iff.1 h
    have hempty : m = ∅ := SortedMap.ext (by rw [hnil]; rfl)
    rw [if_pos h, hempty]
    rfl
  · rw [if_neg h]
    exact childrenOfJson_childrenJson m

/-- The fields of a written node. -/
theorem record_toJson (n : Node) : n.toJson.record nodeFields
    = some [some (.str n.name), n.parent.map fun p : Nat => .int p,
      (if n.children.isEmpty then none else some n.children).map childrenJson, some n.deps.toJson,
      n.modified.map timeJson, n.depsModified.map timeJson] := by
  have hchildren : (if n.children.isEmpty then [] else [("children", childrenJson n.children)])
      = optionalMember "children" childrenJson
        (if n.children.isEmpty then none else some n.children) := by
    split <;> rfl
  have hfields : n.toJson = .obj (Json.membersOf [("name", some (.str n.name)),
      ("parent", n.parent.map fun p : Nat => .int p),
      ("children", (if n.children.isEmpty then none else some n.children).map childrenJson),
      ("deps", some n.deps.toJson), ("last_modified", n.modified.map timeJson),
      ("last_modified_dep", n.depsModified.map timeJson)]) := by
    rw [Node.toJson, hchildren]
    simp only [Json.optionalMember_eq, Json.singleton_eq, ← Json.membersOf_append]
    rfl
  rw [hfields]
  exact Json.record_membersOf rfl (by decide)

/-- A written node is read back, unless it links to a place beyond the limit. -/
theorem Node.ofJson_toJson (n : Node) : Node.ofJson n.toJson = if n.fits then some n else none := by
  rw [Node.ofJson, record_toJson]
  simp only [Json.required_some, Json.text_str, Json.orDefault_some, Json.optional_natBelow,
    read_children, Deps.ofJson_toJson, Json.optional_timeOfJson]
  rw [Node.fits]
  -- the place of the parent is looked at before those of the children
  cases n.parent.all fun p => decide (p < placeLimit) with
  | false => rfl
  | true =>
    cases n.children.toList.all fun q => decide (q.2 < placeLimit) with
    | false => rfl
    | true => rfl

/-- So is a written tree. -/
theorem Tree.ofJson_toJson (t : Tree) : Tree.ofJson t.toJson = if t.fits then some t else none := by
  have hrecord : t.toJson.record ["nodes"] =
      some [some (.arr (t.nodes.toList.map Node.toJson))] := by
    rw [Tree.toJson, Json.record, List.mapM_cons, List.mapM_nil]
    rfl
  rw [Tree.ofJson, hrecord]
  simp only [Json.required_some, Json.list_arr_map Node.ofJson_toJson]
  rw [Tree.fits]
  split
  · rw [Option.map_some, Array.toArray_toList]
  · rfl

/-! ### Snapshots -/

namespace Snapshot

/-- Whether a written record can name all places that its trees link to. -/
def fits (s : Snapshot) : Bool := s.locations.toList.all fun q => q.2.fits

theorem versionOfJson_int (v : UInt32) : versionOfJson (.int v.toNat) = some v := by
  rw [versionOfJson, Json.natBelow_int, if_pos v.toNat_lt, Option.map_some, UInt32.ofNat_toNat]

theorem locationsOfJson_locationsJson (m : SortedMap Path Tree) :
    locationsOfJson (locationsJson m)
      = if m.toList.all (fun q => q.2.fits) then some m else none := by
  rw [locationsOfJson, locationsJson, Json.entries_obj_map Tree.ofJson_toJson Path.text]
  split
  · rw [Option.map_some, List.map_map]
    congr 1
    exact (congrArg SortedMap.ofList (List.map_id _)).trans m.ofList_toList
  · rfl

theorem ofJson_toJson (s : Snapshot) : ofJson s.toJson = if s.fits then some s else none := by
  have hrecord : s.toJson.record ["version", "config_signature", "locations"]
      = some [some (.int s.version.toNat), some (.str s.signature),
        some (locationsJson s.locations)] := by
    rw [toJson, Json.record, List.mapM_cons, List.mapM_cons, List.mapM_cons, List.mapM_nil]
    rfl
  rw [ofJson, hrecord]
  simp only [Json.required_some, Json.text_str, versionOfJson_int, locationsOfJson_locationsJson]
  rw [fits]
  split
  · rfl
  · rfl

end Snapshot

/-! ### Bytes -/

theorem readBack_timeJson (m : Millis) : Json.ReadBack (timeJson m) := Json.readBack_int m.toInt

theorem readBack_of_mem_optionalMember {α : Type} {name : String} {write : α → Json} {o : Option α}
    (h : ∀ a, Json.ReadBack (write a)) {p : String × Json} (hp : p ∈ optionalMember name write o) :
    Json.ReadBack p.2 := by
  cases o with
  | none => simp at hp
  | some a =>
    obtain rfl := List.mem_singleton.1 hp
    exact h a

theorem Deps.readBack_toJson (d : Deps) : Json.ReadBack d.toJson := by
  apply Json.readBack_obj
  intro p hp
  simp only [specifierMember_eq, List.mem_append] at hp
  rcases hp with (hp | hp) | hp <;> exact readBack_of_mem_optionalMember Json.readBack_strings hp

theorem readBack_childrenJson (m : SortedMap String Nat) : Json.ReadBack (childrenJson m) := by
  apply Json.readBack_obj
  intro p hp
  obtain ⟨q, -, rfl⟩ := List.mem_map.1 hp
  exact Json.readBack_int q.2

theorem Node.readBack_toJson (n : Node) : Json.ReadBack n.toJson := by
  apply Json.readBack_obj
  intro p hp
  simp only [List.mem_append] at hp
  rcases hp with ((((hp | hp) | hp) | hp) | hp) | hp
  · rw [List.mem_singleton.1 hp]
    exact Json.readBack_str n.name
  · have hint : ∀ p : Nat, Json.ReadBack (.int p) := fun p => Json.readBack_int p
    exact readBack_of_mem_optionalMember hint hp
  · split at hp
    · simp at hp
    · rw [List.mem_singleton.1 hp]
      exact readBack_childrenJson n.children
  · rw [List.mem_singleton.1 hp]
    exact n.deps.readBack_toJson
  · exact readBack_of_mem_optionalMember readBack_timeJson hp
  · exact readBack_of_mem_optionalMember readBack_timeJson hp

theorem Tree.readBack_toJson (t : Tree) : Json.ReadBack t.toJson := by
  have hnodes : Json.ReadBack (.arr (t.nodes.toList.map Node.toJson)) := by
    apply Json.readBack_arr
    intro j hj
    obtain ⟨n, -, rfl⟩ := List.mem_map.1 hj
    exact n.readBack_toJson
  apply Json.readBack_obj
  intro p hp
  rw [List.mem_singleton.1 hp]
  exact hnodes

theorem Snapshot.readBack_toJson (s : Snapshot) : Json.ReadBack s.toJson := by
  have hlocations : Json.ReadBack (locationsJson s.locations) := by
    apply Json.readBack_obj
    intro p hp
    obtain ⟨q, -, rfl⟩ := List.mem_map.1 hp
    exact q.2.readBack_toJson
  apply Json.readBack_obj
  intro p hp
  simp only [List.mem_cons, List.not_mem_nil, or_false] at hp
  rcases hp with rfl | rfl | rfl
  · exact Json.readBack_int _
  · exact Json.readBack_str _
  · exact hlocations

/-- **The bytes of a snapshot are read back**, unless a tree links to a place beyond the limit. -/
theorem Snapshot.ofBytes_toBytes (s : Snapshot) :
    ofBytes s.toBytes = if s.fits then some s else none := by
  rw [ofBytes, toBytes, Json.parseBytes_compact s.readBack_toJson, Option.bind_some, ofJson_toJson]

end ModuleAtlas
