import ModuleAtlas.Proofs.FilePaths

/-!
# Writing files

A file is written at the place where its path leads, through links, and replaced at the place of the
last name of its path, be there a link or not.  Neither changes where other paths lead, except that
a link that was replaced leads nowhere any more.

## Main definitions

* `Disk.LeadsTo`, `Disk.FilePlace` — a path leads to a place, and to one that has a file or is free
  for one.
* `Disk.OwnPlace` — the place of the last name of a path.
* `Disk.SameOff` — two disks that are the same off a place at which neither has a directory or a
  link.

## Main results

* `Disk.SameOff.leadsTo_iff` — **paths lead to the same places on two such disks.**
* `lock_of_filePlace`, `exists_error_of_lock` — a lock is taken exactly if its path leads to a place
  for a file.
* `Disk.FilePlace.atomicWrite_eq`, `Disk.FilePlace.atomicWrite_of_draftRefusal` — a file whose path
  leads to a place for a file is replaced, unless no draft can be made for it.
* `Disk.leadsTo_put_own` — what leads somewhere after a file is replaced.
* `Disk.FilePlace.own` — **a path leads to the file that has replaced another one.**
-/

namespace ModuleAtlas

namespace Disk

/-! ### Places of files -/

/-- A path leads to a place. -/
def LeadsTo (d : Disk) (p : Path) (place : List String) : Prop :=
  p.Followable ∧ Leads d.root true linkLimit (start d.cwd p.text) (names p.text) place

/-- A path leads to a place that has a file or is free for one. -/
def FilePlace (d : Disk) (p : Path) (place : List String) : Prop :=
  d.LeadsTo p place ∧ d.root.isDirAt place = false

/-- The place of the last name of a path, which has no directory. -/
structure OwnPlace (d : Disk) (p : Path) (place : List String) : Prop where
  /-- The path is followed. -/
  followable : p.Followable
  /-- It ends with a name. -/
  exists_endsWith : ∃ above s, p.EndsWith above s
  /-- Its names lead to the place, where a link is not followed. -/
  leads : Leads d.root false linkLimit (start d.cwd p.text) (plainNames p) place
  /-- There is no directory. -/
  leaf : d.root.isDirAt place = false

variable {d d' : Disk} {p q : Path} {place place' : List String}

theorem find_eq_ok_iff_leadsTo {spot : Spot} :
    d.find p = .ok spot ↔ d.LeadsTo p spot.place ∧ spot.entry = d.root.at? spot.place := by
  rw [find_eq_ok_iff, LeadsTo, and_assoc]

theorem LeadsTo.find_eq (h : d.LeadsTo p place) : d.find p = .ok ⟨place, d.root.at? place⟩ :=
  find_eq_ok_iff_leadsTo.2 ⟨h, rfl⟩

theorem LeadsTo.exists?_eq (h : d.LeadsTo p place) : d.exists? p = (d.root.at? place).isSome := by
  rw [exists?, stat, h.find_eq]
  cases d.root.at? place <;> rfl

theorem LeadsTo.unique (h : d.LeadsTo p place) (h' : d.LeadsTo p place') : place = place' :=
  h.2.deterministic h'.2

/-- What a path leads to lies in a directory, and it is no link. -/
theorem LeadsTo.isDirAt_or (h : d.LeadsTo p place) : d.root.isDirAt place = true ∨
    ∃ above s, place = above ++ [s] ∧ d.root.isDirAt above = true ∧
      d.root.isLinkAt place = false := by
  refine (h.2.isDirAt_or (h.2.isDirAt_start (names_ne_nil p.text))).imp_right ?_
  rintro ⟨above, s, hplace, habove, hlink⟩
  exact ⟨above, s, hplace, habove, hlink.resolve_left (by simp)⟩

namespace FilePlace

theorem exists_above (h : d.FilePlace p place) :
    ∃ above s, place = above ++ [s] ∧ d.root.isDirAt above = true ∧ d.root.isLinkAt place = false :=
  h.1.isDirAt_or.resolve_left (by rw [h.2]; simp)

theorem dirsTo (h : d.FilePlace p place) : d.root.DirsTo place := by
  obtain ⟨above, s, rfl, habove, -⟩ := h.exists_above
  exact Entry.dirsTo_concat habove s

theorem isLinkAt_eq_false (h : d.FilePlace p place) : d.root.isLinkAt place = false := by
  obtain ⟨-, -, -, -, hlink⟩ := h.exists_above
  exact hlink

/-- The path of a file ends with a name. -/
theorem exists_endsWith (h : d.FilePlace p place) : ∃ above s, p.EndsWith above s := by
  obtain ⟨above, s, hpieces⟩ := p.exists_pieces_eq
  -- a path that ends with anything else leads to a directory
  have hdots : ∀ {l : List String} {t : String}, names p.text = l ++ [t] → t ≠ "." ∧ t ≠ ".." := by
    intro l t hnames
    have hleads := h.1.2
    rw [hnames] at hleads
    rw [← not_or]
    intro ht
    exact Bool.false_ne_true (h.2.symm.trans (hleads.isDirAt_of_dots ht))
  have hsplit : Text.splitAt '/' p.text = above ++ [s] := hpieces
  have hempty : s ≠ "" := by
    rintro rfl
    have hnames : names p.text = above.filter (· ≠ "") ++ ["."] := by
      simp [names, hsplit, List.filter_append]
    exact (hdots hnames).1 rfl
  have hnames : names p.text = above.filter (· ≠ "") ++ [s] := by
    simp [names, hsplit, List.filter_append, hempty]
  exact ⟨above, s, hpieces, hempty, (hdots hnames).1, (hdots hnames).2⟩

end FilePlace

/-! ### Disks that are the same elsewhere -/

/-- Two disks are the same off a place at which neither has a directory or a link. -/
structure SameOff (x : List String) (d d' : Disk) : Prop where
  /-- The working directory is the same. -/
  cwd : d.cwd = d'.cwd
  /-- The file systems are the same off the place. -/
  root : Entry.SameOff x d.root d'.root
  /-- The first disk has no link there. -/
  left : d.root.isLinkAt x = false
  /-- The second disk has no link there. -/
  right : d'.root.isLinkAt x = false

namespace SameOff

variable {x : List String}

theorem symm (h : SameOff x d d') : SameOff x d' d := ⟨h.cwd.symm, h.root.symm, h.right, h.left⟩

theorem leadsTo (h : SameOff x d d') (hp : d.LeadsTo p place) : d'.LeadsTo p place := by
  refine ⟨hp.1, ?_⟩
  rw [← h.cwd]
  exact hp.2.of_sameOff_of_no_link h.root h.left h.right

/-- **Paths lead to the same places on two disks that are the same off a place.** -/
theorem leadsTo_iff (h : SameOff x d d') : d.LeadsTo p place ↔ d'.LeadsTo p place :=
  ⟨h.leadsTo, h.symm.leadsTo⟩

theorem filePlace_iff (h : SameOff x d d') : d.FilePlace p place ↔ d'.FilePlace p place := by
  rw [FilePlace, FilePlace, h.leadsTo_iff, h.root.isDirAt_eq]

end SameOff

/-- A file that is put where neither a directory nor a link was changes nothing elsewhere. -/
theorem sameOff_put (hdirs : d.root.DirsTo place) (hdir : d.root.isDirAt place = false)
    (hlink : d.root.isLinkAt place = false) (bytes : ByteArray) (modified : Millis) :
    SameOff place d (d.put place (.file bytes modified)) where
  cwd := rfl
  root := Entry.sameOff_put hdirs hdir rfl
  left := hlink
  right := by
    rw [put, Entry.isLinkAt, Entry.at?_put_self _ hdirs]
    rfl

theorem FilePlace.sameOff_put (h : d.FilePlace p place) (bytes : ByteArray) (modified : Millis) :
    SameOff place d (d.put place (.file bytes modified)) :=
  Disk.sameOff_put h.dirsTo h.2 h.isLinkAt_eq_false bytes modified

/-! ### Writing and locking -/

theorem FilePlace.write_eq (h : d.FilePlace p place) (bytes : ByteArray) (modified : Millis) :
    d.write p bytes modified = .ok (d.put place (.file bytes modified)) := by
  rw [write, h.1.find_eq]
  cases hentry : d.root.at? place with
  | none => rfl
  | some e =>
    cases e with
    | file bytes modified => rfl
    | link target => rfl
    | dir children =>
      exact absurd (Entry.isDirAt_iff.2 ⟨children, hentry⟩) (Bool.eq_false_iff.1 h.2)

theorem exists_filePlace_of_write {bytes : ByteArray} {modified : Millis}
    (h : d.write p bytes modified = .ok d') :
    ∃ place, d.FilePlace p place ∧ d' = d.put place (.file bytes modified) := by
  rw [write] at h
  cases hfind : d.find p with
  | error e => rw [hfind] at h; cases h
  | ok spot =>
    obtain ⟨place, entry⟩ := spot
    obtain ⟨hleads, hentry⟩ := find_eq_ok_iff_leadsTo.1 hfind
    have hplace : ∀ {e : Option Entry}, entry = e → e.any Entry.isDir = false →
        d.FilePlace p place := by
      rintro e rfl he
      refine ⟨hleads, ?_⟩
      rw [Entry.isDirAt, ← hentry]
      exact he
    rw [hfind] at h
    cases entry with
    | none => exact ⟨place, hplace rfl rfl, (Except.ok.inj h).symm⟩
    | some e =>
      cases e with
      | file bytes modified => exact ⟨place, hplace rfl rfl, (Except.ok.inj h).symm⟩
      | link target => exact ⟨place, hplace rfl rfl, (Except.ok.inj h).symm⟩
      | dir children => cases h

/-- A file is written where there is no directory. -/
theorem result_write (d : Disk) (p : Path) (bytes : ByteArray) (modified : Millis) :
    (d.write p bytes modified).map (fun _ => ()) =
      match (d.find p).map Spot.place with
      | .error e => .error e
      | .ok place => if d.root.kindAt place = some .dir then .error .isADirectory else .ok () := by
  rw [write]
  cases hfind : d.find p with
  | error e => rfl
  | ok spot =>
    obtain ⟨place, entry⟩ := spot
    have hentry : entry = d.root.at? place := (find_eq_ok_iff_leadsTo.1 hfind).2
    show _ = if d.root.kindAt place = some .dir then _ else _
    rw [Entry.kindAt, ← hentry]
    cases entry with
    | none => rfl
    | some e => cases e <;> rfl

/-- Whether a file is written, or why it is not, depends on the kinds of entries only. -/
theorem result_write_eq (hcwd : d.cwd = d'.cwd) (hkind : ∀ q, d.root.kindAt q = d'.root.kindAt q)
    (bytes : ByteArray) (modified modified' : Millis) :
    (d.write p bytes modified).map (fun _ => ()) =
      (d'.write p bytes modified').map (fun _ => ()) := by
  rw [result_write, result_write, place_find_eq hcwd hkind]
  cases (d'.find p).map Spot.place with
  | error e => rfl
  | ok place => simp only [hkind]

end Disk

open Disk

variable {d d' : Disk} {p q : Path} {place place' : List String}

namespace Trouble

/-- Nothing is made for a file whose path leads to a place for one. -/
theorem ensureDir_dirOf (t : Trouble) (h : d.FilePlace p place) :
    t.ensureDir (dirOf p) d = (.ok (), d) := by
  obtain ⟨above, s, hends⟩ := h.exists_endsWith
  exact t.ensureDir_of_isDir (hends.isDir_dirOf h.1.1 h.1.2)

/-- Nor is anything for its lock file. -/
theorem ensureParentDir_lockPath (t : Trouble) (h : d.FilePlace p place) :
    t.ensureParentDir (lockPath p) d = (.ok (), d) := by
  obtain ⟨above, s, hends⟩ := h.exists_endsWith
  rw [hends.ensureParentDir_lockPath, hends.ensureParentDir_eq t h.1.1 h.1.2]

end Trouble

/-- Locking needs no directory to be made for a path that leads to a place for a file. -/
theorem lock_eq (h : d.FilePlace p place) : lock p d =
    match d.truncate (lockPath p) with
    | .ok d' => (.ok (lockPath p), d')
    | .error e =>
      (.error ((Failure.ofIo e).within s!"Failed to open lock file: {lockPath p}"), d) := by
  rw [lock, Trouble.lock, OnDisk.bind_apply, Trouble.ensureParentDir_lockPath _ h]
  simp only [Trouble.attempt_calm, Trouble.within_ofIo_pure, pure_bind]
  rw [OnDisk.bind_apply, OnDisk.within, OnDisk.ofIo, OnDisk.change]
  cases d.truncate (lockPath p) <;> rfl

/-- Whether a lock is taken, or why it is refused, depends on the kinds of entries only. -/
theorem lock_result_eq (h : d.FilePlace p place) (h' : d'.FilePlace p place')
    (hcwd : d.cwd = d'.cwd) (hkind : ∀ q, d.root.kindAt q = d'.root.kindAt q) :
    (lock p d).1 = (lock p d').1 := by
  have htruncate : (d.truncate (lockPath p)).map (fun _ => ()) =
      (d'.truncate (lockPath p)).map (fun _ => ()) :=
    result_write_eq hcwd hkind .empty d.now d'.now
  rw [lock_eq h, lock_eq h']
  cases hd : d.truncate (lockPath p) with
  | ok e =>
    cases hd' : d'.truncate (lockPath p) with
    | ok e' => rfl
    | error r' => rw [hd, hd'] at htruncate; cases htruncate
  | error r =>
    cases hd' : d'.truncate (lockPath p) with
    | ok e' => rw [hd, hd'] at htruncate; cases htruncate
    | error r' =>
      rw [hd, hd'] at htruncate
      rw [Except.error.inj htruncate]

/-- A lock is taken if its path leads to a place for a file. -/
theorem lock_of_filePlace (h : d.FilePlace p place) (hlock : d.FilePlace (lockPath p) place') :
    lock p d = (.ok (lockPath p), d.put place' (.file .empty d.now)) := by
  rw [lock_eq h, truncate, hlock.write_eq]

/-- Otherwise it is refused, and nothing changes. -/
theorem exists_error_of_lock (h : d.FilePlace p place)
    (hlock : ∀ place', ¬ d.FilePlace (lockPath p) place') : ∃ f, lock p d = (.error f, d) := by
  rw [lock_eq h]
  cases htruncate : d.truncate (lockPath p) with
  | error e => exact ⟨_, rfl⟩
  | ok d' =>
    obtain ⟨place', hplace', -⟩ := exists_filePlace_of_write htruncate
    exact absurd hplace' (hlock place')

namespace Disk

/-! ### Replacing files -/

namespace OwnPlace

theorem dirsTo (h : d.OwnPlace p place) : d.root.DirsTo place := by
  obtain ⟨above, s, hends⟩ := h.exists_endsWith
  have hne : plainNames p ≠ [] := by
    rw [hends.plainNames_eq]
    simp
  obtain ⟨parent, name, rfl, hparent, -⟩ :=
    (h.leads.isDirAt_or (h.leads.isDirAt_start hne)).resolve_left (by rw [h.leaf]; simp)
  exact Entry.dirsTo_concat hparent name

theorem sameOff_put (h : d.OwnPlace p place) (bytes : ByteArray) (modified : Millis) :
    Entry.SameOff place d.root (d.put place (.file bytes modified)).root :=
  Entry.sameOff_put h.dirsTo h.leaf rfl

theorem at?_put (h : d.OwnPlace p place) (bytes : ByteArray) (modified : Millis) :
    (d.put place (.file bytes modified)).root.at? place = some (.file bytes modified) :=
  Entry.at?_put_self _ h.dirsTo

end OwnPlace

/-- A file that is replaced was at the place of the last name of its path. -/
theorem exists_ownPlace_of_replace {bytes : ByteArray} (h : d.replace p bytes = .ok d') :
    ∃ place, d.OwnPlace p place ∧ d' = d.put place (.file bytes d.now) := by
  rw [replace] at h
  split at h
  · cases h
  cases hfind : d.findVia false p (plainNames p) with
  | error e => rw [hfind] at h; cases h
  | ok spot =>
    obtain ⟨place, entry⟩ := spot
    obtain ⟨hp, hleads, hentry⟩ := findVia_eq_ok_iff.1 hfind
    rw [hfind] at h
    dsimp only at h hleads hentry
    split at h
    · cases h
    · cases h
    · cases h
    next name hcurrent hparent hname =>
    split at h
    · cases h
    next hslash =>
    have hends : ∃ above s, p.EndsWith above s := by
      obtain ⟨above, s, hpieces⟩ := p.exists_pieces_eq
      have hs : s ≠ "" := by
        rintro rfl
        exact hslash (by rw [hpieces, List.getLast?_concat])
      have hlast : (plainNames p).getLast? = some s := by
        simp [plainNames, hpieces, List.filter_append, hs]
      obtain rfl : name = s := Option.some.inj (hname.symm.trans hlast)
      exact ⟨above, name, hpieces, hs, hcurrent, hparent⟩
    have hown : d.root.isDirAt place = false → d.OwnPlace p place :=
      fun hleaf => ⟨hp, hends, hleads, hleaf⟩
    split at h
    · cases h
    · next hdir =>
      refine ⟨place, hown ?_, (Except.ok.inj h).symm⟩
      rw [Bool.eq_false_iff]
      intro hisdir
      obtain ⟨children, hchildren⟩ := Entry.isDirAt_iff.1 hisdir
      exact hdir children (hentry.trans hchildren)

/-- A file is replaced at the place of the last name of its path. -/
theorem OwnPlace.replace_eq (hown : d.OwnPlace p place) (bytes : ByteArray) :
    d.replace p bytes = .ok (d.put place (.file bytes d.now)) := by
  obtain ⟨above, s, hends⟩ := hown.exists_endsWith
  have hfind : d.findVia false p (plainNames p) = .ok ⟨place, d.root.at? place⟩ :=
    findVia_eq_ok_iff.2 ⟨hown.followable, hown.leads, rfl⟩
  have hname : (plainNames p).getLast? = some s := by rw [hends.plainNames_eq, List.getLast?_concat]
  have hslash : p.pieces.getLast? ≠ some "" := by
    rw [hends.pieces_eq, List.getLast?_concat]
    exact fun h => hends.ne_empty (Option.some.inj h)
  simp only [replace, hown.followable.no_nul, hfind, hname, hslash, if_false, Bool.false_eq_true]
  split
  · next hnone => cases hnone
  · next hdot => exact absurd (Option.some.inj hdot) hends.ne_current
  · next hdots => exact absurd (Option.some.inj hdots) hends.ne_parent
  · split
    · next children hchildren =>
      exact absurd (Entry.isDirAt_iff.2 ⟨children, hchildren⟩) (Bool.eq_false_iff.1 hown.leaf)
    · rfl

/-- The last name of a path to a place for a file: the place itself, or a link that leads there. -/
theorem FilePlace.exists_ownPlace (h : d.FilePlace p place) : ∃ own, d.OwnPlace p own ∧
    (own = place ∨ ∃ target, d.root.at? own = some (.link target) ∧
      Leads d.root true linkLimit (start own.dropLast target) (names target) place) := by
  obtain ⟨above, s, hends⟩ := h.exists_endsWith
  obtain ⟨own, hown, hplace⟩ := h.1.2.unfollowed
  rw [hends.names_eq] at hown
  refine ⟨own, ⟨h.1.1, ⟨above, s, hends⟩, hown, ?_⟩, hplace⟩
  rcases hplace with rfl | ⟨target, htarget, -⟩
  · exact h.2
  · rw [Entry.isDirAt, htarget]
    rfl

/-- What leads somewhere still leads there after a file is replaced, unless it leads to what the
replaced path led to; then it may lead to the new file. -/
theorem leadsTo_put_own {own : List String} (h : d.FilePlace p place) (hown : d.OwnPlace p own)
    (bytes : ByteArray) (modified : Millis) (hq : d.LeadsTo q place') :
    (d.put own (.file bytes modified)).LeadsTo q place' ∨
      place' = place ∧ (d.put own (.file bytes modified)).LeadsTo q own := by
  have hfile := hown.at?_put bytes modified
  have hnolink : (d.put own (.file bytes modified)).root.isLinkAt own = false := by
    rw [Entry.isLinkAt, hfile]
    rfl
  rcases hq.2.of_sameOff (hown.sameOff_put bytes modified) (.inr hnolink) with
    hleads | ⟨target, left, htarget, hleads, hend⟩
  · exact .inl ⟨hq.1, hleads⟩
  -- the replaced link was gone through, and what it led to is no directory, so no name came after
  -- it
  obtain ⟨own', hown', hplace⟩ := h.exists_ownPlace
  obtain rfl : own' = own := hown'.leads.deterministic hown.leads
  have htarget' : Leads d.root true linkLimit (start own'.dropLast target)
      (names target) place := by
    rcases hplace with rfl | ⟨t, ht, hplace⟩
    · exact absurd (Entry.isLinkAt_of_at? htarget) (Bool.eq_false_iff.1 h.isLinkAt_eq_false)
    · obtain rfl : target = t := Entry.link.inj (Option.some.inj (htarget.symm.trans ht))
      exact hplace
  by_cases hleft : left = []
  · subst hleft
    rw [List.append_nil] at hleads
    exact .inr ⟨hleads.deterministic htarget', hq.1, (hend rfl).2⟩
  · obtain ⟨mid, hmid, hdir, -⟩ := hleads.exists_of_append hleft
    rw [hmid.deterministic htarget', h.2] at hdir
    exact absurd hdir (by simp)

/-- After a file is replaced its path leads to the new file, or nowhere. -/
theorem OwnPlace.eq_of_leadsTo {own : List String} (hown : d.OwnPlace p own) {bytes : ByteArray}
    {modified : Millis} (h : (d.put own (.file bytes modified)).LeadsTo p place) : place = own := by
  have hfile := hown.at?_put bytes modified
  have hnolink : (d.put own (.file bytes modified)).root.isLinkAt own = false := by
    rw [Entry.isLinkAt, hfile]
    rfl
  obtain ⟨above, s, hends⟩ := hown.exists_endsWith
  obtain ⟨spot, hspot, hplace⟩ := h.2.unfollowed
  rw [hends.names_eq] at hspot
  -- the last name is where it was, since the new file is not gone through
  have hspot' : spot = own := by
    rcases hspot.of_sameOff (hown.sameOff_put bytes modified).symm (.inl rfl) with
      hleads | ⟨target, left, htarget, -⟩
    · exact hleads.deterministic hown.leads
    · rw [hfile] at htarget
      cases htarget
  rcases hplace with rfl | ⟨target, htarget, -⟩
  · exact hspot'
  · rw [hspot', hfile] at htarget
    cases htarget

/-- **A path leads to the file that has replaced another one.** -/
theorem FilePlace.own {own : List String} (h : d.FilePlace p place) (hown : d.OwnPlace p own)
    (bytes : ByteArray) (modified : Millis) :
    (d.put own (.file bytes modified)).FilePlace p own := by
  have hleads : (d.put own (.file bytes modified)).LeadsTo p own := by
    rcases leadsTo_put_own h hown bytes modified h.1 with hleads | ⟨-, hleads⟩
    · rwa [hown.eq_of_leadsTo hleads] at hleads
    · exact hleads
  refine ⟨hleads, ?_⟩
  rw [Entry.isDirAt, hown.at?_put]
  rfl

theorem LeadsTo.read_eq {bytes : ByteArray} {modified : Millis} (h : d.LeadsTo p place)
    (hfile : d.root.at? place = some (.file bytes modified)) : d.read p = .ok bytes := by
  rw [read, stat, h.find_eq, hfile]
  rfl

/-- What is read is at the place of a file. -/
theorem exists_file_of_read {bytes : ByteArray} (h : d.read p = .ok bytes) :
    ∃ place modified, d.FilePlace p place ∧ d.root.at? place = some (.file bytes modified) := by
  rw [read, stat] at h
  cases hfind : d.find p with
  | error e => rw [hfind] at h; cases h
  | ok spot =>
    obtain ⟨place, entry⟩ := spot
    obtain ⟨hleads, hentry⟩ := find_eq_ok_iff_leadsTo.1 hfind
    rw [hfind] at h
    cases entry with
    | none => cases h
    | some e =>
      cases e with
      | link target => cases h
      | dir children => cases h
      | file content modified =>
        obtain rfl := Except.ok.inj h
        refine ⟨place, modified, ⟨hleads, ?_⟩, hentry.symm⟩
        rw [Entry.isDirAt, ← hentry]
        rfl

end Disk

/-! ### Replacing files as a whole -/

/-- Without trouble a file is replaced as a whole in three steps. -/
theorem atomicWrite_eq (p : Path) (bytes : ByteArray) : atomicWrite p bytes = (do
    Trouble.calm.ensureDir (dirOf p)
    OnDisk.within s!"Failed to create temp file in {dirOf p}"
      (OnDisk.ofIo (Trouble.calm.makeDraft p))
    OnDisk.within s!"Failed to replace {p}" (OnDisk.ofIo (OnDisk.change (·.replace p bytes)))) := by
  simp only [atomicWrite, Trouble.atomicWrite, Trouble.discarding_calm, Trouble.attempt_calm,
    Trouble.within_ofIo_pure, pure_bind]

theorem makeDraft_calm (p : Path) (d : Disk) : Trouble.calm.makeDraft p d =
    match Trouble.calm.draftRefusal? p d with
    | some e => (.error e, d)
    | none => (.ok (), d) := by
  rw [Trouble.makeDraft, Trouble.attempt_calm, OnDisk.change]
  cases Trouble.calm.draftRefusal? p d <;> rfl

/-- A file is replaced as a whole if its path leads to a place for a file and a draft can be
made. -/
theorem Disk.FilePlace.atomicWrite_eq {own : List String} (h : d.FilePlace p place)
    (hown : d.OwnPlace p own) (hdraft : Trouble.calm.draftRefusal? p d = none) (bytes : ByteArray) :
    atomicWrite p bytes d = (.ok (), d.put own (.file bytes d.now)) := by
  rw [ModuleAtlas.atomicWrite_eq, OnDisk.bind_apply, Trouble.ensureDir_dirOf _ h]
  dsimp only
  rw [OnDisk.bind_apply, OnDisk.within, OnDisk.ofIo, makeDraft_calm, hdraft]
  dsimp only
  rw [OnDisk.within, OnDisk.ofIo, OnDisk.change, hown.replace_eq]

/-- It is left if no draft can be made. -/
theorem Disk.FilePlace.atomicWrite_of_draftRefusal {e : IoError} (h : d.FilePlace p place)
    (hdraft : Trouble.calm.draftRefusal? p d = some e) (bytes : ByteArray) : atomicWrite p bytes d =
      (.error ((Failure.ofIo e).within s!"Failed to create temp file in {dirOf p}"), d) := by
  rw [ModuleAtlas.atomicWrite_eq, OnDisk.bind_apply, Trouble.ensureDir_dirOf _ h]
  dsimp only
  rw [OnDisk.bind_apply, OnDisk.within, OnDisk.ofIo, makeDraft_calm, hdraft]

/-- A file that was replaced as a whole was so at the place of the last name of its path. -/
theorem exists_ownPlace_of_atomicWrite {bytes : ByteArray}
    (h : atomicWrite p bytes d = (.ok (), d')) :
    ∃ before own, Disk.OwnPlace before p own ∧ d' = before.put own (.file bytes before.now) := by
  rw [atomicWrite_eq] at h
  obtain ⟨-, made, -, h⟩ := OnDisk.exists_of_bind h
  obtain ⟨-, before, -, h⟩ := OnDisk.exists_of_bind h
  rw [OnDisk.within, OnDisk.ofIo, OnDisk.change] at h
  cases hreplace : before.replace p bytes with
  | error e => rw [hreplace] at h; exact absurd (Prod.mk.inj h).1 (by simp)
  | ok after =>
    rw [hreplace] at h
    obtain ⟨own, hown, rfl⟩ := exists_ownPlace_of_replace hreplace
    exact ⟨before, own, hown, (Prod.mk.inj h).2.symm⟩

end ModuleAtlas
