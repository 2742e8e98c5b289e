import ModuleAtlas.Catalog.Build
import ModuleAtlas.Proofs.Records

/-!
# The file of the record

A catalog takes over at most what the file of its record holds when it is read, and a file that
holds what a record was written as holds that record.

## Main results

* `OnDisk.bind_apply`, `OnDisk.exists_of_bind` — one action after the other.
* `Snapshot.usable?_cases`, `Snapshot.usable?_of_read` — a usable record is what bytes of the file
  denote, and what was written as a record that fits denotes that record.
* `Catalog.loadSnapshot_eq`, `Catalog.persist_eq` — what a catalog with a file for its record does.
* `Catalog.loadSnapshot_found_cases`, `Catalog.loadSnapshot_cases` — **what a catalog is after it
  has looked for its record.**
* `Catalog.loadSnapshot_of_usable` — a usable record under the signature of the catalog is taken
  over.
* `Catalog.exists_build_of_openWith` — opening a catalog is building it after a look for the record.
-/

namespace ModuleAtlas

namespace OnDisk

variable {ε α β : Type}

theorem bind_apply (act : OnDisk ε α) (next : α → OnDisk ε β) (d : Disk) :
    (act >>= next) d =
      match act d with
      | (.ok a, d) => next a d
      | (.error e, d) => (.error e, d) := by
  show (match act d with | (a, d) => ExceptT.bindCont next a d) = _
  cases act d with
  | mk result d =>
    cases result with
    | ok a => rfl
    | error e => rfl

/-- If two actions succeed one after the other, the first one has succeeded. -/
theorem exists_of_bind {act : OnDisk ε α} {next : α → OnDisk ε β} {d d' : Disk} {b : β}
    (h : (act >>= next) d = (.ok b, d')) : ∃ a e, act d = (.ok a, e) ∧ next a e = (.ok b, d') := by
  rw [bind_apply] at h
  split at h
  · next a e hact => exact ⟨a, e, hact, h⟩
  · exact absurd (Prod.mk.inj h).1 (by simp)

end OnDisk

namespace Snapshot

/-- A usable record is one that bytes of the file denote. -/
theorem usable?_cases {d : Disk} {p : Path} {s : Snapshot} (h : usable? d p = some s) :
    ∃ bytes, d.read p = .ok bytes ∧ ofBytes bytes = some s ∧ s.isUsable = true := by
  obtain ⟨hs, husable⟩ := Option.filter_eq_some_iff.1 h
  obtain ⟨bytes, hbytes, hs⟩ := Option.bind_eq_some_iff.1 hs
  refine ⟨bytes, ?_, hs, husable⟩
  cases hread : d.read p with
  | ok b =>
    rw [hread] at hbytes
    exact congrArg Except.ok (Option.some.inj hbytes)
  | error e =>
    rw [hread] at hbytes
    simp [Except.toOption] at hbytes

/-- A file that holds a record as it is written holds that record, if the reader takes all numbers
in it. -/
theorem usable?_of_read {d : Disk} {p : Path} {s : Snapshot} (hread : d.read p = .ok s.toBytes)
    (hfits : s.fits = true) (husable : s.isUsable = true) : usable? d p = some s := by
  rw [usable?, hread]
  show ((ofBytes s.toBytes).filter isUsable) = some s
  rw [ofBytes_toBytes, if_pos hfits, Option.filter_some, if_pos husable]

theorem load_of_lock {p lockFile : Path} {d d' : Disk} (hexists : d.exists? p = true)
    (hlock : lock p d = (.ok lockFile, d')) : load p d = (.ok (usable? d' p), d') := by
  rw [load, OnDisk.bind_apply, OnDisk.look_apply, hexists]
  show (lock p >>= fun _ => OnDisk.look fun d => usable? d p) d = _
  rw [OnDisk.bind_apply, hlock]
  rfl

/-- What is read is the usable record of the file, if anything is. -/
theorem load_cases {p : Path} {d d' : Disk} {s : Snapshot} (h : load p d = (.ok (some s), d')) :
    usable? d' p = some s := by
  obtain ⟨found, e, hlook, h⟩ := OnDisk.exists_of_bind h
  cases found with
  | false =>
    obtain ⟨hnone, -⟩ := Prod.mk.inj h
    exact absurd (Except.ok.inj hnone) (by simp)
  | true =>
    obtain ⟨lockFile, e', -, h⟩ := OnDisk.exists_of_bind h
    rw [OnDisk.look_apply] at h
    obtain ⟨hs, rfl⟩ := Prod.mk.inj h
    exact Except.ok.inj hs

/-- What a record is written as denotes that record, or nothing. -/
theorem eq_of_ofBytes_toBytes {r s : Snapshot} (h : ofBytes r.toBytes = some s) : s = r := by
  rw [ofBytes_toBytes] at h
  split at h
  · exact (Option.some.inj h).symm
  · simp at h

end Snapshot

namespace Catalog

variable {c : Catalog} {p : Path}

/-- A catalog with a file for its record loads it, and takes it over if it counts. -/
theorem loadSnapshot_eq (hp : c.settings.snapshot = some p) : c.loadSnapshot = (do
    return ((c.adopt (← Snapshot.load p)).map fun adopted => (true, adopted)).getD (false, c)) := by
  rw [loadSnapshot, hp]
  dsimp only
  congr 1
  funext loaded
  cases c.adopt loaded <;> rfl

/-- It writes its record to the file. -/
theorem persist_eq (hp : c.settings.snapshot = some p) : c.persist = (do
    c.snapshot.save p
    return true) := by
  rw [persist, hp]

/-- What a catalog is after it has looked for its record: what it was, or with the trees of the
record that was loaded. -/
theorem loadSnapshot_found_cases {c' : Catalog} {d d' : Disk} {found : Bool}
    (h : c.loadSnapshot d = (.ok (found, c'), d')) :
    found = false ∧ c' = c ∨ found = true ∧ ∃ p s, c.settings.snapshot = some p ∧
      Snapshot.load p d = (.ok (some s), d') ∧ s.isValidFor c.settings.signature = true ∧
        c' = { c with trees := s.locations } := by
  cases hfile : c.settings.snapshot with
  | none =>
    rw [loadSnapshot, hfile] at h
    obtain ⟨rfl, rfl⟩ := Prod.mk.inj (Except.ok.inj (Prod.mk.inj h).1)
    exact .inl ⟨rfl, rfl⟩
  | some p =>
    rw [loadSnapshot_eq hfile] at h
    obtain ⟨loaded, e, hload, h⟩ := OnDisk.exists_of_bind h
    obtain ⟨hc, rfl⟩ := Prod.mk.inj h
    have hc := Except.ok.inj hc
    cases hadopt : c.adopt loaded with
    | none =>
      rw [hadopt] at hc
      obtain ⟨rfl, rfl⟩ := Prod.mk.inj hc
      exact .inl ⟨rfl, rfl⟩
    | some adopted =>
      rw [hadopt] at hc
      obtain ⟨rfl, rfl⟩ := Prod.mk.inj hc
      obtain ⟨s, hs, rfl⟩ := Option.map_eq_some_iff.1 hadopt
      obtain ⟨rfl, hvalid⟩ := Option.filter_eq_some_iff.1 hs
      exact .inr ⟨rfl, p, s, rfl, hload, hvalid, rfl⟩

/-- If it has taken over a record, then that is what its file holds. -/
theorem loadSnapshot_cases {c' : Catalog} {d d' : Disk} {found : Bool}
    (h : c.loadSnapshot d = (.ok (found, c'), d')) :
    c' = c ∨ ∃ p s, c.settings.snapshot = some p ∧ Snapshot.usable? d' p = some s ∧
      s.isValidFor c.settings.signature = true ∧ c' = { c with trees := s.locations } := by
  rcases loadSnapshot_found_cases h with ⟨-, hc⟩ | ⟨-, p, s, hp, hload, hvalid, hc⟩
  · exact .inl hc
  · exact .inr ⟨p, s, hp, Snapshot.load_cases hload, hvalid, hc⟩

/-- A usable record under the signature of the catalog is taken over. -/
theorem loadSnapshot_of_usable {lockFile : Path} {s : Snapshot} {d d' : Disk}
    (hp : c.settings.snapshot = some p) (hexists : d.exists? p = true)
    (hlock : lock p d = (.ok lockFile, d')) (husable : Snapshot.usable? d' p = some s)
    (hvalid : s.isValidFor c.settings.signature = true) :
    c.loadSnapshot d = (.ok (true, { c with trees := s.locations }), d') := by
  have hadopt : c.adopt (some s) = some { c with trees := s.locations } := by
    rw [adopt, Option.filter_some, if_pos hvalid, Option.map_some]
  rw [loadSnapshot_eq hp, OnDisk.bind_apply, Snapshot.load_of_lock hexists hlock, husable]
  dsimp only
  rw [hadopt]
  rfl

/-- A catalog that is opened is one that is built, without trees or, unless the build is clean,
after a look for the record. -/
theorem exists_build_of_openWith {s : Settings} {o : BuildOptions} {reader : SourceReader}
    {d d' : Disk} {c' : Catalog} (h : openWith s o d reader = (.ok c', d')) : ∃ c₀ e report,
      (c₀ = { settings := s } ∨ ∃ found, loadSnapshot { settings := s } d = (.ok (found, c₀), e)) ∧
        c₀.build o e reader = (.ok report, c', d') := by
  simp only [openWith] at h
  split at h
  · exact absurd (Prod.mk.inj h).1 (by simp)
  · next c₀ e hloaded =>
    split at h
    · exact absurd (Prod.mk.inj h).1 (by simp)
    · next report c₁ d₁ hbuild =>
      obtain ⟨hc, rfl⟩ := Prod.mk.inj h
      obtain rfl := Except.ok.inj hc
      refine ⟨c₀, e, report, ?_, hbuild⟩
      split at hloaded
      · -- a clean build starts without trees
        obtain ⟨hc, -⟩ := Prod.mk.inj hloaded
        exact .inl (Except.ok.inj hc).symm
      · obtain ⟨⟨found, c₂⟩, e₂, hload, hreturn⟩ := OnDisk.exists_of_bind hloaded
        obtain ⟨hc, rfl⟩ := Prod.mk.inj hreturn
        obtain rfl := Except.ok.inj hc
        exact .inr ⟨found, hload⟩

end Catalog

end ModuleAtlas
