import ModuleAtlas.Disk.Basic
import ModuleAtlas.Proofs.EntryPlaces

/-!
# Following paths

Where the names of a path lead is a derivation: each name stays in a directory, goes up from it,
ends at an entry of it, enters a directory in it, or goes through a link.  What a path leads to can
then be compared between two trees that are the same off one place, since only a link at that place
can make a difference.

## Main definitions

* `Leads` — names lead from a place to another one, through a bounded number of links.
* `Path.Followable` — the paths that are followed at all.

## Main results

* `Disk.locate_eq_ok_iff`, `Disk.find_eq_ok_iff` — **following a path finds the place where its
  names lead.**
* `Leads.mono`, `Leads.deterministic` — the bound on links does not matter for the place.
* `Leads.exists_of_append` — the first names of a path lead to a directory.
* `Leads.isDirAt_or` — names lead to a directory or into one.
* `Leads.unfollowed` — what a path leads to if a link at its end is not followed.
* `Leads.of_sameOff` — **names lead to the same place in trees that are the same off a place**,
  unless they go through a link at that place.
-/

namespace ModuleAtlas

/-- A name that an entry of a directory is looked up by. -/
structure IsEntryName (s : String) : Prop where
  /-- It does not stand for the directory itself. -/
  ne_current : s ≠ "."
  /-- It does not stand for the directory above. -/
  ne_parent : s ≠ ".."
  /-- It is short enough. -/
  short : isLongName s = false

open Disk (start names)

/-- Names lead from a place to another one, through at most a number of links.  A link at the end is
followed only if `last` is set. -/
inductive Leads (root : Entry) (last : Bool) : Nat → List String → List String →
    List String → Prop where
  /-- No name is left. -/
  | done {n : Nat} {place : List String} : Leads root last n place [] place
  /-- A dot stays in a directory. -/
  | stay {n : Nat} {place rest goal : List String} (hdir : root.isDirAt place = true)
      (h : Leads root last n place rest goal) : Leads root last n place ("." :: rest) goal
  /-- Two dots go up. -/
  | up {n : Nat} {place rest goal : List String} (hdir : root.isDirAt place = true)
      (h : Leads root last n place.dropLast rest goal) : Leads root last n place (".." :: rest) goal
  /-- The last name ends at what it names, be there something or not. -/
  | arrive {n : Nat} {place : List String} {s : String} (hdir : root.isDirAt place = true)
      (hs : IsEntryName s) (hend : last = false ∨ root.isLinkAt (place ++ [s]) = false) :
      Leads root last n place [s] (place ++ [s])
  /-- A name enters a directory. -/
  | enter {n : Nat} {place rest goal : List String} {s : String} (hdir : root.isDirAt place = true)
      (hs : IsEntryName s) (hbelow : root.isDirAt (place ++ [s]) = true)
      (h : Leads root last n (place ++ [s]) rest goal) : Leads root last n place (s :: rest) goal
  /-- A name goes through a link. -/
  | follow {n : Nat} {place rest goal : List String} {s target : String}
      (hdir : root.isDirAt place = true) (hs : IsEntryName s)
      (htarget : root.at? (place ++ [s]) = some (.link target)) (hend : rest = [] → last = true)
      (h : Leads root last n (start place target) (names target ++ rest) goal) :
      Leads root last (n + 1) place (s :: rest) goal

/-! ### What following a path finds -/

namespace Disk

theorem names_ne_nil (text : String) : names text ≠ [] := by
  rw [names]
  intro h
  obtain ⟨hfilter, hdots⟩ := List.append_eq_nil_iff.1 h
  have hlast : (Text.splitAt '/' text).getLast? ≠ some "" := by
    intro hlast
    rw [if_pos hlast] at hdots
    exact absurd hdots (by simp)
  cases hpieces : (Text.splitAt '/' text).getLast? with
  | none =>
    rw [List.getLast?_eq_none_iff, Text.splitAt, List.map_eq_nil_iff] at hpieces
    exact Text.splitChars_ne_nil '/' text.toList hpieces
  | some s =>
    have hs : s ≠ "" := fun hs => hlast (by rw [hpieces, hs])
    have hmem := List.mem_of_getLast? hpieces
    rw [List.filter_eq_nil_iff] at hfilter
    exact hfilter s hmem (by simpa using hs)

/-- A name is followed by what it names in the directory reached so far. -/
theorem locate_cons (d : Disk) (last : Bool) (n : Nat) (place : List String) (s : String)
    (rest : List String) :
    d.locate last n place (s :: rest) =
      match d.root.at? place with
      | none => .error .notFound
      | some (.dir children) =>
        if s = "." then d.locate last n place rest
        else if s = ".." then d.locate last n place.dropLast rest
        else if isLongName s then .error .nameTooLong
        else
          match Ordered.lookup s children with
          | none => if rest.isEmpty then .ok ⟨place ++ [s], none⟩ else .error .notFound
          | some (.link target) =>
            if rest.isEmpty && !last then .ok ⟨place ++ [s], some (.link target)⟩
            else
              match n with
              | 0 => .error .linkLoop
              | n + 1 => d.locate last n (start place target) (names target ++ rest)
          | some _ => d.locate last n (place ++ [s]) rest
      | some _ => .error .notADirectory := by
  rw [locate, advance]
  cases hplace : d.root.at? place with
  | none => rfl
  | some e =>
    cases e with
    | file bytes modified => rfl
    | link target => rfl
    | dir children =>
      dsimp only
      by_cases hcurrent : s = "."
      · rw [if_pos hcurrent, if_pos hcurrent, locate]
      rw [if_neg hcurrent, if_neg hcurrent]
      by_cases hparent : s = ".."
      · rw [if_pos hparent, if_pos hparent, locate]
      rw [if_neg hparent, if_neg hparent]
      by_cases hlong : isLongName s = true
      · rw [if_pos hlong, if_pos hlong]
      rw [if_neg hlong, if_neg hlong]
      cases Ordered.lookup s children with
      | none => cases rest <;> rfl
      | some e =>
        cases e with
        | file bytes modified =>
          dsimp only
          rw [locate]
        | dir below =>
          dsimp only
          rw [locate]
        | link target => cases rest <;> cases last <;> rfl

end Disk

namespace Leads

variable {root : Entry} {last : Bool} {n : Nat} {place rest goal : List String}

/-- Names are followed from directories only. -/
theorem isDirAt_start (h : Leads root last n place rest goal) (hrest : rest ≠ []) :
    root.isDirAt place = true := by
  cases h with
  | done => exact absurd rfl hrest
  | stay hdir _ => exact hdir
  | up hdir _ => exact hdir
  | arrive hdir _ _ => exact hdir
  | enter hdir _ _ _ => exact hdir
  | follow hdir _ _ _ _ => exact hdir

theorem eq_of_nil (h : Leads root last n place [] goal) : goal = place := by
  cases h with
  | done => rfl

/-- Names lead on from an entry that is no link. -/
theorem of_entry {s : String} (hdir : root.isDirAt place = true) (hs : IsEntryName s)
    (hlink : root.isLinkAt (place ++ [s]) = false)
    (h : Leads root last n (place ++ [s]) rest goal) :
    Leads root last n place (s :: rest) goal := by
  cases rest with
  | nil =>
    rw [h.eq_of_nil]
    exact .arrive hdir hs (.inr hlink)
  | cons t rest => exact .enter hdir hs (h.isDirAt_start (List.cons_ne_nil t rest)) h

/-- More links may be gone through than are needed. -/
theorem mono (h : Leads root last n place rest goal) : ∀ {m : Nat}, n ≤ m →
    Leads root last m place rest goal := by
  induction h with
  | done => intro m _; exact .done
  | stay hdir _ ih => intro m hm; exact .stay hdir (ih hm)
  | up hdir _ ih => intro m hm; exact .up hdir (ih hm)
  | arrive hdir hs hend => intro m _; exact .arrive hdir hs hend
  | enter hdir hs hbelow _ ih => intro m hm; exact .enter hdir hs hbelow (ih hm)
  | follow hdir hs htarget hend _ ih =>
    intro m hm
    obtain ⟨k, rfl⟩ : ∃ k, m = k + 1 := ⟨m - 1, by omega⟩
    exact .follow hdir hs htarget hend (ih (by omega))

end Leads

namespace Disk

theorem exists_dir_of_locate_cons {d : Disk} {last : Bool} {n : Nat} {place rest : List String}
    {s : String} {spot : Spot} (h : d.locate last n place (s :: rest) = .ok spot) :
    ∃ children, d.root.at? place = some (.dir children) := by
  rw [locate_cons] at h
  cases hplace : d.root.at? place with
  | none => rw [hplace] at h; cases h
  | some e =>
    rw [hplace] at h
    cases e with
    | dir children => exact ⟨children, rfl⟩
    | file bytes modified => cases h
    | link target => cases h

theorem isEntryName_of_locate_cons {d : Disk} {last : Bool} {n : Nat} {place rest : List String}
    {s : String} {spot : Spot} (hcurrent : s ≠ ".") (hparent : s ≠ "..")
    (h : d.locate last n place (s :: rest) = .ok spot) : IsEntryName s := by
  obtain ⟨children, hplace⟩ := exists_dir_of_locate_cons h
  rw [locate_cons, hplace] at h
  dsimp only at h
  rw [if_neg hcurrent, if_neg hparent] at h
  refine ⟨hcurrent, hparent, ?_⟩
  cases hlong : isLongName s with
  | false => rfl
  | true => rw [hlong, if_pos rfl] at h; cases h

/-- What following names finds from any place is where they lead, with the entry there. -/
def LocatesLeads (d : Disk) (last : Bool) (n : Nat) (rest : List String) : Prop :=
  ∀ place spot, d.locate last n place rest = .ok spot →
    Leads d.root last n place rest spot.place ∧ spot.entry = d.root.at? spot.place

section

variable {d : Disk} {last : Bool} {n : Nat} {place rest : List String} {s : String} {spot : Spot}
  {children : List (String × Entry)} (hplace : d.root.at? place = some (.dir children))
  (hs : IsEntryName s)

include hplace hs

/-- A name of an entry is followed by what is there. -/
theorem locate_cons_of_isEntryName : d.locate last n place (s :: rest) =
    match d.root.at? (place ++ [s]) with
    | none => if rest.isEmpty then .ok ⟨place ++ [s], none⟩ else .error .notFound
    | some (.link target) =>
      if rest.isEmpty && !last then .ok ⟨place ++ [s], some (.link target)⟩
      else
        match n with
        | 0 => .error .linkLoop
        | n + 1 => d.locate last n (start place target) (names target ++ rest)
    | some _ => d.locate last n (place ++ [s]) rest := by
  have hat := Entry.at?_concat_of_dir hplace s
  rw [locate_cons, hplace]
  cases hlookup : Ordered.lookup s children with
  | none => simp only [hs.ne_current, hs.ne_parent, hs.short, if_false,
      Bool.false_eq_true, hat, hlookup]
  | some e =>
    cases e <;>
      simp only [hs.ne_current, hs.ne_parent, hs.short, if_false, Bool.false_eq_true, hat, hlookup]

/-- The step through an entry that is no link, or to where there is nothing. -/
theorem leads_of_locate_entry (hlink : d.root.isLinkAt (place ++ [s]) = false)
    (ih : d.LocatesLeads last n rest) (h : d.locate last n place (s :: rest) = .ok spot) :
    Leads d.root last n place (s :: rest) spot.place ∧ spot.entry = d.root.at? spot.place := by
  have hdir : d.root.isDirAt place = true := Entry.isDirAt_iff.2 ⟨children, hplace⟩
  have hentered : d.locate last n (place ++ [s]) rest = .ok spot →
      Leads d.root last n place (s :: rest) spot.place ∧ spot.entry = d.root.at? spot.place := by
    intro h
    obtain ⟨hleads, hentry⟩ := ih _ _ h
    exact ⟨.of_entry hdir hs hlink hleads, hentry⟩
  rw [locate_cons_of_isEntryName hplace hs] at h
  cases hat : d.root.at? (place ++ [s]) with
  | none =>
    rw [hat] at h
    dsimp only at h
    split at h
    · next hrest =>
      rw [List.isEmpty_iff] at hrest
      obtain rfl := Except.ok.inj h
      subst hrest
      exact ⟨.arrive hdir hs (.inr hlink), hat.symm⟩
    · cases h
  | some e =>
    rw [hat] at h
    cases e with
    | file bytes modified => exact hentered h
    | dir below => exact hentered h
    | link target => exact absurd (Entry.isLinkAt_of_at? hat) (by rw [hlink]; simp)

/-- The step through a link, or to one that is not followed. -/
theorem leads_of_locate_link {target : String}
    (htarget : d.root.at? (place ++ [s]) = some (.link target))
    (ih : ∀ m < n, ∀ rest, d.LocatesLeads last m rest)
    (h : d.locate last n place (s :: rest) = .ok spot) :
    Leads d.root last n place (s :: rest) spot.place ∧ spot.entry = d.root.at? spot.place := by
  have hdir : d.root.isDirAt place = true := Entry.isDirAt_iff.2 ⟨children, hplace⟩
  rw [locate_cons_of_isEntryName hplace hs, htarget] at h
  dsimp only at h
  split at h
  · next hend =>
    rw [Bool.and_eq_true, List.isEmpty_iff, Bool.not_eq_true'] at hend
    obtain ⟨rfl, hlast⟩ := hend
    obtain rfl := Except.ok.inj h
    exact ⟨.arrive hdir hs (.inl hlast), htarget.symm⟩
  · next hend =>
    cases n with
    | zero => cases h
    | succ n =>
      obtain ⟨hleads, hentry⟩ := ih n (Nat.lt_succ_self n) _ _ _ h
      refine ⟨.follow hdir hs htarget ?_ hleads, hentry⟩
      rintro rfl
      simpa using hend

end

/-- What following names finds is where they lead, with the entry there. -/
theorem leads_of_locate (d : Disk) (last : Bool) (n : Nat) :
    ∀ rest, d.LocatesLeads last n rest := by
  -- the names left become fewer, or a link is used up and there are new ones
  induction n using Nat.strongRecOn with
  | ind n ihn =>
    intro rest
    induction rest with
    | nil =>
      intro place spot h
      rw [locate, advance] at h
      obtain rfl := Except.ok.inj h
      exact ⟨.done, rfl⟩
    | cons s rest ih =>
      intro place spot h
      obtain ⟨children, hplace⟩ := exists_dir_of_locate_cons h
      have hdir : d.root.isDirAt place = true := Entry.isDirAt_iff.2 ⟨children, hplace⟩
      by_cases hcurrent : s = "."
      · subst hcurrent
        rw [locate_cons, hplace] at h
        obtain ⟨hleads, hentry⟩ := ih _ _ h
        exact ⟨.stay hdir hleads, hentry⟩
      by_cases hparent : s = ".."
      · subst hparent
        rw [locate_cons, hplace] at h
        obtain ⟨hleads, hentry⟩ := ih _ _ h
        exact ⟨.up hdir hleads, hentry⟩
      have hs := isEntryName_of_locate_cons hcurrent hparent h
      cases hlink : d.root.isLinkAt (place ++ [s]) with
      | false => exact leads_of_locate_entry hplace hs hlink ih h
      | true =>
        obtain ⟨target, htarget⟩ := Entry.isLinkAt_iff.1 hlink
        exact leads_of_locate_link hplace hs htarget ihn h

/-- Where names lead is found, with the entry there. -/
theorem locate_of_leads {d : Disk} {last : Bool} {n : Nat} {place rest goal : List String}
    (h : Leads d.root last n place rest goal) :
    d.locate last n place rest = .ok ⟨goal, d.root.at? goal⟩ := by
  induction h with
  | done => rw [locate, advance]
  | stay hdir _ ih =>
    obtain ⟨children, hplace⟩ := Entry.isDirAt_iff.1 hdir
    rw [locate_cons, hplace]
    exact ih
  | up hdir _ ih =>
    obtain ⟨children, hplace⟩ := Entry.isDirAt_iff.1 hdir
    rw [locate_cons, hplace]
    exact ih
  | @arrive n place s hdir hs hend =>
    obtain ⟨children, hplace⟩ := Entry.isDirAt_iff.1 hdir
    rw [locate_cons_of_isEntryName hplace hs]
    cases hat : d.root.at? (place ++ [s]) with
    | none => rfl
    | some e =>
      cases e with
      | file bytes modified => dsimp only; rw [locate, advance, hat]
      | dir below => dsimp only; rw [locate, advance, hat]
      | link target =>
        have hlast : last = false := hend.resolve_right (by rw [Entry.isLinkAt_of_at? hat]; simp)
        rw [hlast]
        rfl
  | @enter n place rest goal s hdir hs hbelow _ ih =>
    obtain ⟨children, hplace⟩ := Entry.isDirAt_iff.1 hdir
    obtain ⟨below, hat⟩ := Entry.isDirAt_iff.1 hbelow
    rw [locate_cons_of_isEntryName hplace hs, hat]
    exact ih
  | @follow n place rest goal s target hdir hs htarget hend _ ih =>
    obtain ⟨children, hplace⟩ := Entry.isDirAt_iff.1 hdir
    have hnot : ¬ (rest.isEmpty && !last) = true := by
      cases rest with
      | nil => rw [hend rfl]; simp
      | cons t rest => simp
    rw [locate_cons_of_isEntryName hplace hs, htarget]
    dsimp only
    rw [if_neg hnot]
    exact ih

/-- Following names finds the place where they lead. -/
theorem locate_eq_ok_iff {d : Disk} {last : Bool} {n : Nat} {place rest : List String}
    {spot : Spot} :
    d.locate last n place rest = .ok spot ↔
      Leads d.root last n place rest spot.place ∧ spot.entry = d.root.at? spot.place := by
  refine ⟨leads_of_locate d last n rest place spot, fun ⟨h, hentry⟩ => ?_⟩
  rw [locate_of_leads h, ← hentry]

end Disk

namespace Leads

variable {root : Entry} {last : Bool} {n m : Nat} {place rest goal goal' : List String}

theorem deterministic (h : Leads root last n place rest goal)
    (h' : Leads root last m place rest goal') : goal = goal' := by
  have hn := Disk.locate_of_leads (d := { root }) (h.mono (Nat.le_max_left n m))
  have hm := Disk.locate_of_leads (d := { root }) (h'.mono (Nat.le_max_right n m))
  exact congrArg Spot.place (Except.ok.inj (hn.symm.trans hm))

/-- Names that are followed by others lead to a directory, from where the others go on. -/
theorem exists_of_append {l k : List String} (h : Leads root last n place (l ++ k) goal)
    (hk : k ≠ []) :
    ∃ mid, Leads root true n place l mid ∧ root.isDirAt mid = true ∧
      Leads root last n mid k goal := by
  generalize hnames : l ++ k = names at h
  induction h generalizing l with
  | done => exact absurd (List.append_eq_nil_iff.1 hnames).2 hk
  | @stay n place rest goal hdir hrest ih =>
    cases l with
    | nil =>
      obtain rfl : k = "." :: rest := hnames
      exact ⟨place, .done, hdir, .stay hdir hrest⟩
    | cons s l =>
      obtain ⟨rfl, hl⟩ := List.cons.inj hnames
      obtain ⟨mid, hmid, hrest⟩ := ih hl
      exact ⟨mid, .stay hdir hmid, hrest⟩
  | @up n place rest goal hdir hrest ih =>
    cases l with
    | nil =>
      obtain rfl : k = ".." :: rest := hnames
      exact ⟨place, .done, hdir, .up hdir hrest⟩
    | cons s l =>
      obtain ⟨rfl, hl⟩ := List.cons.inj hnames
      obtain ⟨mid, hmid, hrest⟩ := ih hl
      exact ⟨mid, .up hdir hmid, hrest⟩
  | @arrive n place s hdir hs hend =>
    cases l with
    | nil =>
      obtain rfl : k = [s] := hnames
      exact ⟨place, .done, hdir, .arrive hdir hs hend⟩
    | cons t l => exact absurd (List.append_eq_nil_iff.1 (List.cons.inj hnames).2).2 hk
  | @enter n place rest goal s hdir hs hbelow hrest ih =>
    cases l with
    | nil =>
      obtain rfl : k = s :: rest := hnames
      exact ⟨place, .done, hdir, .enter hdir hs hbelow hrest⟩
    | cons t l =>
      obtain ⟨rfl, hl⟩ := List.cons.inj hnames
      obtain ⟨mid, hmid, hrest⟩ := ih hl
      exact ⟨mid, .enter hdir hs hbelow hmid, hrest⟩
  | @follow n place rest goal s target hdir hs htarget hend hrest ih =>
    cases l with
    | nil =>
      obtain rfl : k = s :: rest := hnames
      exact ⟨place, .done, hdir, .follow hdir hs htarget hend hrest⟩
    | cons t l =>
      obtain ⟨rfl, rfl⟩ := List.cons.inj hnames
      obtain ⟨mid, hmid, hdirmid, hrest⟩ := ih (List.append_assoc _ l k)
      exact ⟨mid, .follow hdir hs htarget (fun _ => rfl) hmid, hdirmid, hrest.mono (Nat.le_succ n)⟩

/-- Names lead to a directory, or into one to what is no link that would be followed. -/
theorem isDirAt_or (h : Leads root last n place rest goal) (hplace : root.isDirAt place = true) :
    root.isDirAt goal = true ∨ ∃ above s, goal = above ++ [s] ∧ root.isDirAt above = true ∧
      (last = false ∨ root.isLinkAt goal = false) := by
  induction h with
  | done => exact .inl hplace
  | stay _ _ ih => exact ih hplace
  | up _ _ ih => exact ih (Entry.isDirAt_of_prefix hplace (List.dropLast_prefix _))
  | @arrive n place s hdir _ hend => exact .inr ⟨place, s, rfl, hdir, hend⟩
  | enter _ _ hbelow _ ih => exact ih hbelow
  | @follow n place rest goal s target _ _ _ _ hrest ih =>
    have hne : names target ++ rest ≠ [] :=
      fun h => Disk.names_ne_nil target (List.append_eq_nil_iff.1 h).1
    exact ih (hrest.isDirAt_start hne)

/-- Names that end with dots lead to a directory. -/
theorem isDirAt_of_dots {l : List String} {s : String} (h : Leads root last n place (l ++ [s]) goal)
    (hs : s = "." ∨ s = "..") : root.isDirAt goal = true := by
  obtain ⟨mid, -, hmid, hrest⟩ := h.exists_of_append (List.cons_ne_nil s [])
  cases hrest with
  | stay _ h => cases h; exact hmid
  | up _ h => cases h; exact Entry.isDirAt_of_prefix hmid (List.dropLast_prefix _)
  | arrive _ hname _ => exact absurd hs (not_or.2 ⟨hname.ne_current, hname.ne_parent⟩)
  | enter _ hname _ _ => exact absurd hs (not_or.2 ⟨hname.ne_current, hname.ne_parent⟩)
  | follow _ hname _ _ _ => exact absurd hs (not_or.2 ⟨hname.ne_current, hname.ne_parent⟩)

/-- What names lead to if a link at the end is not followed: the same place, or a link that leads
there. -/
theorem unfollowed (h : Leads root true n place rest goal) :
    ∃ spot, Leads root false n place rest spot ∧
    (spot = goal ∨ ∃ target, root.at? spot = some (.link target) ∧
      Leads root true n (start spot.dropLast target) (names target) goal) := by
  induction h with
  | @done n place => exact ⟨place, .done, .inl rfl⟩
  | stay hdir _ ih =>
    obtain ⟨spot, hspot, hgoal⟩ := ih
    exact ⟨spot, .stay hdir hspot, hgoal⟩
  | up hdir _ ih =>
    obtain ⟨spot, hspot, hgoal⟩ := ih
    exact ⟨spot, .up hdir hspot, hgoal⟩
  | @arrive n place s hdir hs _ => exact ⟨place ++ [s], .arrive hdir hs (.inl rfl), .inl rfl⟩
  | enter hdir hs hbelow _ ih =>
    obtain ⟨spot, hspot, hgoal⟩ := ih
    exact ⟨spot, .enter hdir hs hbelow hspot, hgoal⟩
  | @follow n place rest goal s target hdir hs htarget _ hrest ih =>
    by_cases hempty : rest = []
    · subst hempty
      rw [List.append_nil] at hrest
      refine ⟨place ++ [s], .arrive hdir hs (.inl rfl), .inr ⟨target, htarget, ?_⟩⟩
      rw [List.dropLast_concat]
      exact hrest.mono (Nat.le_succ n)
    · obtain ⟨spot, hspot, hgoal⟩ := ih
      refine ⟨spot, .follow hdir hs htarget (fun h => absurd h hempty) hspot, ?_⟩
      rcases hgoal with h | ⟨t, ht, hgoal⟩
      · exact .inl h
      · exact .inr ⟨t, ht, hgoal.mono (Nat.le_succ n)⟩

/-- **Names lead to the same place in trees that are the same off a place**, unless they go through
a link at that place of the first tree.  A link there in the second tree must not be followed at the
end.  If names end at such a link of the first tree then they lead to the place itself in the second
one. -/
theorem of_sameOff {x : List String} {root' : Entry} (hx : Entry.SameOff x root root')
    (hlink : last = false ∨ root'.isLinkAt x = false) (h : Leads root last n place rest goal) :
    Leads root' last n place rest goal ∨
      ∃ target left, root.at? x = some (.link target) ∧
        Leads root last n (start x.dropLast target) (names target ++ left) goal ∧
        (left = [] → last = true ∧ Leads root' last n place rest x) := by
  induction h with
  | done => exact .inl .done
  | @stay n place rest goal hdir _ ih =>
    rw [hx.isDirAt_eq] at hdir
    rcases ih with h | ⟨target, left, htarget, hgoal, hend⟩
    · exact .inl (.stay hdir h)
    · exact .inr ⟨target, left, htarget, hgoal, fun h => (hend h).imp_right (.stay hdir)⟩
  | @up n place rest goal hdir _ ih =>
    rw [hx.isDirAt_eq] at hdir
    rcases ih with h | ⟨target, left, htarget, hgoal, hend⟩
    · exact .inl (.up hdir h)
    · exact .inr ⟨target, left, htarget, hgoal, fun h => (hend h).imp_right (.up hdir)⟩
  | @arrive n place s hdir hs hend =>
    rw [hx.isDirAt_eq] at hdir
    refine .inl (.arrive hdir hs ?_)
    by_cases hplace : place ++ [s] = x
    · rwa [hplace]
    · rwa [← hx.isLinkAt_eq hplace]
  | @enter n place rest goal s hdir hs hbelow _ ih =>
    rw [hx.isDirAt_eq] at hdir hbelow
    rcases ih with h | ⟨target, left, htarget, hgoal, hend⟩
    · exact .inl (.enter hdir hs hbelow h)
    · exact .inr ⟨target, left, htarget, hgoal, fun h => (hend h).imp_right (.enter hdir hs hbelow)⟩
  | @follow n place rest goal s target hdir hs htarget hend hrest ih =>
    rw [hx.isDirAt_eq] at hdir
    by_cases hplace : place ++ [s] = x
    · -- the link at the place is gone through
      refine .inr ⟨target, rest, hplace ▸ htarget, ?_, ?_⟩
      · rw [← hplace, List.dropLast_concat]
        exact hrest.mono (Nat.le_succ n)
      · rintro rfl
        have hlast := hend rfl
        refine ⟨hlast, ?_⟩
        rw [← hplace] at hlink ⊢
        exact .arrive hdir hs hlink
    · have htarget' : root'.at? (place ++ [s]) = some (.link target) := by
        rw [← hx.at?_eq_of_not_isDir (by rw [Entry.isDirAt, htarget]; rfl) hplace, htarget]
      rcases ih with h | ⟨t, left, ht, hgoal, hleft⟩
      · exact .inl (.follow hdir hs htarget' hend h)
      · exact .inr ⟨t, left, ht, hgoal.mono (Nat.le_succ n),
          fun h => (hleft h).imp_right (.follow hdir hs htarget' hend)⟩

/-- Without a link at the place on either side, names lead to the same place. -/
theorem of_sameOff_of_no_link {x : List String} {root' : Entry} (hx : Entry.SameOff x root root')
    (hleft : root.isLinkAt x = false) (hright : root'.isLinkAt x = false)
    (h : Leads root last n place rest goal) : Leads root' last n place rest goal := by
  rcases h.of_sameOff hx (.inr hright) with h | ⟨target, left, htarget, -⟩
  · exact h
  · exact absurd (Entry.isLinkAt_of_at? htarget) (Bool.eq_false_iff.1 hleft)

end Leads

/-! ### Kinds of entries -/

namespace Disk

variable {d d' : Disk} {last : Bool}

/-- Where a name leads depends on the kinds of the entries there. -/
theorem place_locate_cons (d : Disk) (last : Bool) (n : Nat) (place : List String) (s : String)
    (rest : List String) :
    (d.locate last n place (s :: rest)).map Spot.place =
      match d.root.kindAt place with
      | none => .error .notFound
      | some .dir =>
        if s = "." then (d.locate last n place rest).map Spot.place
        else if s = ".." then (d.locate last n place.dropLast rest).map Spot.place
        else if isLongName s then .error .nameTooLong
        else
          match d.root.kindAt (place ++ [s]) with
          | none => if rest.isEmpty then .ok (place ++ [s]) else .error .notFound
          | some (.link target) =>
            if rest.isEmpty && !last then .ok (place ++ [s])
            else
              match n with
              | 0 => .error .linkLoop
              | n + 1 =>
                (d.locate last n (start place target) (names target ++ rest)).map Spot.place
          | some _ => (d.locate last n (place ++ [s]) rest).map Spot.place
      | some _ => .error .notADirectory := by
  rw [locate_cons, Entry.kindAt]
  cases hplace : d.root.at? place with
  | none => rfl
  | some e =>
    cases e with
    | file bytes modified => rfl
    | link target => rfl
    | dir children =>
      rw [Entry.kindAt, Entry.at?_concat_of_dir hplace]
      dsimp only [Option.map_some, Entry.kind]
      split
      · rfl
      split
      · rfl
      split
      · rfl
      cases Ordered.lookup s children with
      | none => cases rest <;> rfl
      | some e =>
        cases e with
        | file bytes modified => rfl
        | dir below => rfl
        | link target => cases rest <;> cases last <;> cases n <;> rfl

/-- **Where names lead, or why they lead nowhere, depends on the kinds of entries only.** -/
theorem place_locate_eq (hkind : ∀ q, d.root.kindAt q = d'.root.kindAt q) {n : Nat} :
    ∀ {rest place : List String},
      (d.locate last n place rest).map Spot.place =
        (d'.locate last n place rest).map Spot.place := by
  induction n using Nat.strongRecOn with
  | ind n ihn =>
    intro rest
    induction rest with
    | nil =>
      intro place
      rw [locate, locate, advance, advance]
      rfl
    | cons s rest ih =>
      intro place
      rw [place_locate_cons, place_locate_cons, hkind place, hkind (place ++ [s]), ih, ih, ih]
      cases n with
      | zero => rfl
      | succ n => simp only [ihn n (Nat.lt_succ_self n)]

end Disk

/-! ### Paths -/

/-- Paths that are followed at all. -/
structure Path.Followable (p : Path) : Prop where
  /-- Some names are spelt. -/
  ne_empty : p.text ≠ ""
  /-- All characters are allowed. -/
  no_nul : p.text.toList.contains '\x00' = false
  /-- The path is short enough. -/
  short : p.isLong = false

namespace Disk

variable {d : Disk} {last : Bool} {p : Path} {via : List String} {spot : Spot}

theorem findVia_eq_ok_iff : d.findVia last p via = .ok spot ↔
    p.Followable ∧ Leads d.root last linkLimit (start d.cwd p.text) via spot.place ∧
      spot.entry = d.root.at? spot.place := by
  rw [← locate_eq_ok_iff, findVia]
  constructor
  · intro h
    split at h
    · cases h
    next hempty =>
    split at h
    · cases h
    next hnul =>
    split at h
    · cases h
    next hlong => exact ⟨⟨hempty, Bool.eq_false_iff.2 hnul, Bool.eq_false_iff.2 hlong⟩, h⟩
  · rintro ⟨hp, h⟩
    simp only [hp.ne_empty, hp.no_nul, hp.short, if_false, Bool.false_eq_true]
    exact h

/-- What a path leads to, or why it leads nowhere, depends on the kinds of entries only. -/
theorem place_find_eq {d' : Disk} (hcwd : d.cwd = d'.cwd)
    (hkind : ∀ q, d.root.kindAt q = d'.root.kindAt q) (p : Path) :
    (d.find p).map Spot.place = (d'.find p).map Spot.place := by
  rw [find, find, findVia, findVia, hcwd]
  split
  · rfl
  split
  · rfl
  split
  · rfl
  exact place_locate_eq hkind

theorem find_eq_ok_iff : d.find p = .ok spot ↔
    p.Followable ∧ Leads d.root true linkLimit (start d.cwd p.text) (names p.text) spot.place ∧
      spot.entry = d.root.at? spot.place := findVia_eq_ok_iff

end Disk

end ModuleAtlas
