import ModuleAtlas.Proofs.FileWriting
import ModuleAtlas.Proofs.TreeShape

/-!
# Saved records

A record that is saved and loaded again is the same record.  Loading opens the lock file once more
and empties it, so this takes a lock file which is not the file of the record itself, and a path of
the record that leads to the file that was written.

## Main definitions

* `Snapshot.Apart` — the paths of a record and of its lock file lead to different places for files.

## Main results

* `Tree.fits_of_isIntact` — a table that passes its check links to places of the table only.
* `Snapshot.save_of_filePlace`, `Snapshot.save_of_draftRefusal` — what saving comes to where the
  paths of a record and of its lock file lead to places for files.
* `Snapshot.load_of_save_iff` — **what was saved is loaded exactly if the record and its lock file
  are apart.**
* `Snapshot.Apart.save` — they stay apart when the record is saved.
* `Snapshot.record_survives` — **written trees and saved records are read back.**
-/

namespace ModuleAtlas

open Disk

/-! ### Tables that a record can hold -/

theorem Tree.linked_attached_of_isIntact {t : Tree} (h : t.isIntact = true) :
    t.Linked ∧ t.Attached := by
  apply Tree.check_eq_ok_iff.1
  rw [Tree.isIntact] at h
  cases hcheck : t.check with
  | ok u => rfl
  | error e => rw [hcheck] at h; exact absurd h (by simp [Except.isOk, Except.toBool])

/-- A table that passes its check links to places of the table only, so a record can hold it unless
it is longer than any record can be. -/
theorem Tree.fits_of_isIntact {t : Tree} (h : t.isIntact = true) (hsize : t.size ≤ placeLimit) :
    t.fits = true := by
  obtain ⟨hlinked, hattached⟩ := Tree.linked_attached_of_isIntact h
  rw [Tree.fits, List.all_eq_true]
  intro n hn
  obtain ⟨i, hi⟩ := List.mem_iff_getElem?.1 hn
  have hnode : t.node? i = some n := by rw [Tree.node?, ← Array.getElem?_toList, hi]
  have hparent : ∀ p ∈ n.parent, p < placeLimit := by
    intro p hp
    by_cases hroot : i = Tree.root
    · -- the root has no parent
      obtain ⟨r, hr, hnone⟩ := hlinked.root
      rw [← hroot, hnode] at hr
      rw [Option.some.inj hr, hnone] at hp
      exact absurd hp (by simp)
    · obtain ⟨above, s, hchild⟩ := hattached i hroot (Tree.lt_size_of_node? hnode)
      obtain ⟨m, hm, habove, -⟩ := hlinked.child hchild
      rw [hnode] at hm
      rw [Option.some.inj hm, habove] at hp
      obtain rfl : above = p := Option.some.inj hp
      obtain ⟨k, hk, -⟩ := Tree.exists_node?_of_child? hchild
      exact Nat.lt_of_lt_of_le (Tree.lt_size_of_node? hk) hsize
  have hchildren : ∀ q ∈ n.children.toList, q.2 < placeLimit := by
    rintro ⟨s, j⟩ hq
    have hchild : t.child? i s = some j := (Tree.child?_eq_some_iff_mem hnode).2 hq
    obtain ⟨m, hm, -⟩ := hlinked.child hchild
    exact Nat.lt_of_lt_of_le (Tree.lt_size_of_node? hm) hsize
  rw [Node.fits, Bool.and_eq_true, List.all_eq_true]
  refine ⟨?_, fun q hq => decide_eq_true (hchildren q hq)⟩
  cases hp : n.parent with
  | none => rfl
  | some p => exact decide_eq_true (hparent p hp)

namespace Snapshot

variable {s : Snapshot} {p : Path} {d d' : Disk} {place lockPlace : List String}

/-- A record of the current version whose tables pass their checks is usable. -/
theorem isUsable_of_isIntact (hversion : s.version = 1)
    (hintact : ∀ t ∈ s.locations.values, t.isIntact = true) : s.isUsable = true := by
  rw [isUsable, hversion, Bool.and_eq_true, List.all_eq_true]
  exact ⟨rfl, hintact⟩

/-- If its tables are no longer than they can be, then it is read back. -/
theorem fits_of_isIntact
    (hintact : ∀ t ∈ s.locations.values, t.isIntact = true ∧ t.size ≤ placeLimit) :
    s.fits = true := by
  rw [fits, List.all_eq_true]
  intro q hq
  obtain ⟨ht, hsize⟩ := hintact q.2 (List.mem_map.2 ⟨q, hq, rfl⟩)
  exact Tree.fits_of_isIntact ht hsize

theorem ofBytes_empty : ofBytes .empty = none := by with_unfolding_all decide

/-! ### Saving -/

/-- The paths of a record and of its lock file lead to different places for files. -/
def Apart (p : Path) (d : Disk) : Prop :=
  ∃ place lockPlace, d.FilePlace p place ∧ d.FilePlace (lockPath p) lockPlace ∧ place ≠ lockPlace

/-- Without trouble a record is saved in two steps. -/
theorem save_eq (s : Snapshot) (p : Path) : s.save p = (do
    let _ ← lock p
    OnDisk.within s!"Failed to write dependency snapshot {p}" (atomicWrite p s.toBytes)) := by
  have hencode : Trouble.calm.encode s p = pure s.toBytes := rfl
  simp only [save, Trouble.save, hencode, pure_bind]
  rfl

/-- A record is saved, the lock file first, if its path and that of its lock file lead to places for
files and a draft can be made. -/
theorem save_of_filePlace {own : List String} (s : Snapshot) (h : d.FilePlace p place)
    (hlock : d.FilePlace (lockPath p) lockPlace)
    (hown : (d.put lockPlace (.file .empty d.now)).OwnPlace p own)
    (hdraft : Trouble.calm.draftRefusal? p d = none) :
    s.save p d =
      (.ok (), (d.put lockPlace (.file .empty d.now)).put own (.file s.toBytes d.now)) := by
  have hlocked := ((hlock.sameOff_put .empty d.now).filePlace_iff).1 h
  rw [save_eq, OnDisk.bind_apply, lock_of_filePlace h hlock]
  dsimp only
  rw [OnDisk.within, hlocked.atomicWrite_eq hown hdraft]
  rfl

/-- If no draft can be made then only the lock file is touched. -/
theorem save_of_draftRefusal {e : IoError} (s : Snapshot) (h : d.FilePlace p place)
    (hlock : d.FilePlace (lockPath p) lockPlace)
    (hdraft : Trouble.calm.draftRefusal? p d = some e) :
    s.save p d =
      (.error (((Failure.ofIo e).within s!"Failed to create temp file in {dirOf p}").within
        s!"Failed to write dependency snapshot {p}"), d.put lockPlace (.file .empty d.now)) := by
  have hlocked := ((hlock.sameOff_put .empty d.now).filePlace_iff).1 h
  rw [save_eq, OnDisk.bind_apply, lock_of_filePlace h hlock]
  dsimp only
  rw [OnDisk.within, hlocked.atomicWrite_of_draftRefusal hdraft]

/-- A record is not saved without its lock. -/
theorem save_of_lock_error (s : Snapshot) {f : Failure} (hlock : lock p d = (.error f, d)) :
    s.save p d = (.error f, d) := by
  rw [save_eq, OnDisk.bind_apply, hlock]

/-- What is saved has replaced what was at the last name of the path. -/
theorem exists_ownPlace_of_save (h : s.save p d = (.ok (), d')) :
    ∃ before own, OwnPlace before p own ∧ d' = before.put own (.file s.toBytes before.now) := by
  rw [save_eq] at h
  obtain ⟨-, locked, -, h⟩ := OnDisk.exists_of_bind h
  rw [OnDisk.within] at h
  cases hwrite : atomicWrite p s.toBytes locked with
  | mk result after =>
    rw [hwrite] at h
    cases result with
    | error f => exact absurd (Prod.mk.inj h).1 (by simp)
    | ok u =>
      obtain rfl : after = d' := (Prod.mk.inj h).2
      exact exists_ownPlace_of_atomicWrite hwrite

/-- Records stay apart from their lock files when they are saved, and their paths lead to what was
saved. -/
theorem Apart.save (h : Apart p d) (hsave : s.save p d = (.ok (), d')) : Apart p d' := by
  obtain ⟨place, lockPlace, hplace, hlock, hne⟩ := h
  have hsame := hlock.sameOff_put .empty d.now
  have hplace' := hsame.filePlace_iff.1 hplace
  have hlock' := hsame.filePlace_iff.1 hlock
  obtain ⟨own, hown, hlink⟩ := hplace'.exists_ownPlace
  obtain rfl : d' = (d.put lockPlace (.file .empty d.now)).put own (.file s.toBytes d.now) := by
    cases hdraft : Trouble.calm.draftRefusal? p d with
    | none =>
      rw [save_of_filePlace s hplace hlock hown hdraft] at hsave
      exact (Prod.mk.inj hsave).2.symm
    | some e =>
      rw [save_of_draftRefusal s hplace hlock hdraft] at hsave
      cases (Prod.mk.inj hsave).1
  refine ⟨own, lockPlace, hplace'.own hown _ _, ?_, ?_⟩
  · have hleads := (leadsTo_put_own hplace' hown s.toBytes d.now hlock'.1).resolve_right
      fun h => hne h.1.symm
    refine ⟨hleads, ?_⟩
    rw [← (hown.sameOff_put s.toBytes d.now).isDirAt_eq]
    exact hlock'.2
  · -- the last name of the path is the place of the record, or a link
    rintro rfl
    rcases hlink with h | ⟨target, htarget, -⟩
    · exact hne h.symm
    · exact absurd (Entry.isLinkAt_of_at? htarget) (Bool.eq_false_iff.1 hlock'.isLinkAt_eq_false)

/-! ### Loading -/

/-- The record in a file is loaded if its lock is another file. -/
theorem load_of_apart {bytes : ByteArray} {modified : Millis} (h : d.FilePlace p place)
    (hfile : d.root.at? place = some (.file bytes modified))
    (hlock : d.FilePlace (lockPath p) lockPlace) (hne : place ≠ lockPlace) :
    load p d = (.ok ((ofBytes bytes).filter isUsable), d.put lockPlace (.file .empty d.now)) := by
  have hsame := hlock.sameOff_put .empty d.now
  have hexists : d.exists? p = true := by rw [h.1.exists?_eq, hfile]; rfl
  have hfile' : (d.put lockPlace (.file .empty d.now)).root.at? place =
      some (.file bytes modified) := by
    rw [← hsame.root.at?_eq_of_not_isDir h.2 hne, hfile]
  rw [load_of_lock hexists (lock_of_filePlace h hlock), usable?, (hsame.leadsTo h.1).read_eq hfile']
  rfl

theorem load_of_not_exists (h : d.exists? p = false) : load p d = (.ok none, d) := by
  rw [load, OnDisk.bind_apply, OnDisk.look_apply, h]
  rfl

theorem load_of_lock_error {f : Failure} (hexists : d.exists? p = true)
    (hlock : lock p d = (.error f, d)) : load p d = (.error f, d) := by
  rw [load, OnDisk.bind_apply, OnDisk.look_apply, hexists]
  show (lock p >>= fun _ => OnDisk.look fun d => usable? d p) d = _
  rw [OnDisk.bind_apply, hlock]

/-- A record that is its own lock file is emptied, so that none is loaded. -/
theorem load_of_own_lock (hexists : d.exists? p = true) (h : d.FilePlace p place)
    (hlock : d.FilePlace (lockPath p) place) :
    load p d = (.ok none, d.put place (.file .empty d.now)) := by
  have hempty : (d.put place (.file .empty d.now)).read p = .ok .empty :=
    ((hlock.sameOff_put .empty d.now).leadsTo h.1).read_eq (Entry.at?_put_self _ hlock.dirsTo)
  rw [load_of_lock hexists (lock_of_filePlace h hlock), usable?, hempty]
  simp [Except.toOption, ofBytes_empty]

/-- What is loaded by a path that leads to no directory was in a file apart from its lock file. -/
theorem apart_of_load (hleaf : ∀ place, d.LeadsTo p place → d.root.isDirAt place = false)
    (h : (load p d).1 = .ok (some s)) : Apart p d := by
  cases hexists : d.exists? p with
  | false =>
    rw [load_of_not_exists hexists] at h
    cases h
  | true =>
    have hleads : ∃ place, d.LeadsTo p place := by
      rw [exists?, stat] at hexists
      cases hfind : d.find p with
      | error e =>
        rw [hfind] at hexists
        exact absurd hexists (by simp [Except.isOk, Except.toBool])
      | ok spot => exact ⟨spot.place, (find_eq_ok_iff_leadsTo.1 hfind).1⟩
    obtain ⟨place, hleads⟩ := hleads
    have hplace : d.FilePlace p place := ⟨hleads, hleaf place hleads⟩
    by_cases hlock : ∃ lockPlace, d.FilePlace (lockPath p) lockPlace
    · obtain ⟨lockPlace, hlock⟩ := hlock
      refine ⟨place, lockPlace, hplace, hlock, ?_⟩
      rintro rfl
      rw [load_of_own_lock hexists hplace hlock] at h
      cases h
    · obtain ⟨f, hf⟩ := exists_error_of_lock hplace (not_exists.1 hlock)
      rw [load_of_lock_error hexists hf] at h
      cases h

/-- **What was saved is loaded exactly if the record and its lock file are apart.** -/
theorem load_of_save_iff (hfits : s.fits = true) (husable : s.isUsable = true)
    (h : s.save p d = (.ok (), d')) : (load p d').1 = .ok (some s) ↔ Apart p d' := by
  obtain ⟨before, own, hown, rfl⟩ := exists_ownPlace_of_save h
  have hfile := hown.at?_put s.toBytes before.now
  constructor
  · apply apart_of_load
    intro place hleads
    rw [hown.eq_of_leadsTo hleads, Entry.isDirAt, hfile]
    rfl
  · rintro ⟨place, lockPlace, hplace, hlock, hne⟩
    obtain rfl := hown.eq_of_leadsTo hplace.1
    rw [load_of_apart hplace hfile hlock hne, ofBytes_toBytes, if_pos hfits, Option.filter_some,
      if_pos husable]

/-- **Written trees and saved records are read back.**  The text of every table whose places a
record can name denotes that table.  A record of the current version whose tables pass their checks
is loaded after it was saved exactly if it and its lock file are apart, and they are apart after it
was saved if they were before. -/
theorem record_survives :
    (∀ t : Tree, t.fits = true → (Json.parse t.toJson.compact).bind Tree.ofJson = some t) ∧
      (∀ (s : Snapshot) (p : Path) (d d' : Disk), s.version = 1 →
        (∀ t ∈ s.locations.values, t.isIntact = true ∧ t.size ≤ placeLimit) →
          s.save p d = (.ok (), d') → ((load p d').1 = .ok (some s) ↔ Apart p d')) ∧
        ∀ (s : Snapshot) (p : Path) (d d' : Disk), Apart p d → s.save p d = (.ok (), d') →
          Apart p d' := by
  refine ⟨?_, ?_, fun s p d d' => Apart.save⟩
  · intro t hfits
    rw [Json.parse_compact t.readBack_toJson, Option.bind_some, Tree.ofJson_toJson, if_pos hfits]
  · intro s p d d' hversion htrees hsave
    have husable := isUsable_of_isIntact hversion fun t ht => (htrees t ht).1
    exact load_of_save_iff (fits_of_isIntact htrees) husable hsave

/-- A record of one location with one file, of the least time that there is. -/
def oneFileRecord : Snapshot :=
  new "signature" (.ofList [(⟨"/lib"⟩, ⟨#[{ name := "lib", children := .ofList [("a\n", 1)] },
    { name := "a\n", parent := some 0, modified := some Int64.minValue,
      depsModified := some 5 }]⟩)])

theorem record_survives_oneFileRecord :
    (Json.parse (Tree.toJson ⟨#[{ name := "", parent := some 7 }]⟩).compact).bind Tree.ofJson
        = some ⟨#[{ name := "", parent := some 7 }]⟩ ∧
      ∃ d', oneFileRecord.save ⟨"depmap.json"⟩ {} = (.ok (), d') ∧
        (load ⟨"depmap.json"⟩ d').1 = .ok (some oneFileRecord) := by
  have hfind : Disk.find {} ⟨"depmap.json"⟩ = .ok ⟨["depmap.json"], none⟩ := by
    with_unfolding_all rfl
  have hlock : Disk.find {} (lockPath ⟨"depmap.json"⟩) = .ok ⟨["depmap.json.lock"], none⟩ := by
    with_unfolding_all rfl
  have hapart : Apart ⟨"depmap.json"⟩ {} :=
    ⟨_, _, ⟨(find_eq_ok_iff_leadsTo.1 hfind).1, rfl⟩, ⟨(find_eq_ok_iff_leadsTo.1 hlock).1, rfl⟩,
      by decide⟩
  have hdone : (oneFileRecord.save ⟨"depmap.json"⟩ {}).1 = .ok () := by with_unfolding_all decide
  obtain ⟨d', hsave⟩ : ∃ d', oneFileRecord.save ⟨"depmap.json"⟩ {} = (.ok (), d') :=
    ⟨_, Prod.ext hdone rfl⟩
  refine ⟨record_survives.1 _ (by with_unfolding_all decide), d', hsave, ?_⟩
  have hapart' := record_survives.2.2 oneFileRecord _ _ _ hapart hsave
  exact (record_survives.2.1 oneFileRecord _ _ _ rfl (by with_unfolding_all decide) hsave).2 hapart'

/-- A lock file that is a link to the record, which is emptied when it is loaded. -/
theorem load_of_linkedLock : ¬ ∀ (s : Snapshot) (p : Path) (d d' : Disk), s.version = 1 →
    (∀ t ∈ s.locations.values, t.isIntact = true ∧ t.size ≤ placeLimit) →
      s.save p d = (.ok (), d') → (load p d').1 = .ok (some s) := by
  intro h
  let d : Disk := { root := .dir [("cache", .dir [("depmap.json.lock", .link "depmap.json")])] }
  have hsave : (oneFileRecord.save ⟨"cache/depmap.json"⟩ d).1 = .ok () := by
    with_unfolding_all decide
  have hload : (load ⟨"cache/depmap.json"⟩ (oneFileRecord.save ⟨"cache/depmap.json"⟩ d).2).1 =
      .ok none := by
    with_unfolding_all decide
  have hsome := h oneFileRecord _ d _ rfl (by with_unfolding_all decide) (Prod.ext hsave rfl)
  rw [hload] at hsome
  cases hsome

end Snapshot

end ModuleAtlas
