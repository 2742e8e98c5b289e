import ModuleAtlas.Proofs.TreeLinks
import ModuleAtlas.Scan.Basic

/-!
# Steps of a scan

An item of a walk is left out of the tree, or it is a directory that the tree has from then on, or
it is a file whose data is recorded.  A scan adds the items one after the other.

## Main definitions

* `ItemAdded` — what an item makes of a tree and of the counts.

## Main results

* `scanItem_eq_ok_iff` — **the ways for an item to be added.**
* `scanItems_cons_eq_ok_iff` — the items of a scan, one after the other.
-/

namespace ModuleAtlas

variable {previous : Option Tree} {extensions : List String} {reader : SourceReader}

/-- What an item of a walk makes of a tree and of the counts. -/
inductive ItemAdded (previous : Option Tree) (extensions : List String) (reader : SourceReader)
    (t : Tree) (counts : ScanStats) (f : Found) : Tree → ScanStats → Prop where
  /-- A file that is no source file is left out. -/
  | skipped (hplace : f.segments? extensions = none) :
      ItemAdded previous extensions reader t counts f t counts
  /-- A directory is ensured. -/
  | directory {place : List String} {u : Tree} {i : Nat}
      (hplace : f.segments? extensions = some place)
      (hensure : t.ensurePath Tree.root place = .ok (u, i)) (hfile : f.file = none) :
      ItemAdded previous extensions reader t counts f u counts.addDirectory
  /-- A source file is recorded. -/
  | recorded {place : List String} {u v : Tree} {i : Nat} {bytes : ByteArray} {modified : Millis}
      {known : Option Node} (hplace : f.segments? extensions = some place)
      (hensure : t.ensurePath Tree.root place = .ok (u, i))
      (hfile : f.file = some (.ok (bytes, modified))) (hknown : cached previous place = .ok known)
      (hset : u.setDeps i (derive known bytes modified reader).deps modified
        (derive known bytes modified reader).depsModified = .ok v) :
      ItemAdded previous extensions reader t counts f v
        (counts.addFile (derive known bytes modified reader).origin)

/-- **An item is added in one of these ways**, and a scan fails at any other item. -/
theorem scanItem_eq_ok_iff {t t' : Tree} {counts counts' : ScanStats} {f : Found} :
    scanItem previous extensions reader (t, counts) f = .ok (t', counts') ↔
      ItemAdded previous extensions reader t counts f t' counts' := by
  constructor
  · intro h
    rw [scanItem] at h
    cases hplace : f.segments? extensions with
    | none =>
      simp only [hplace] at h
      obtain ⟨rfl, rfl⟩ := Prod.mk.inj (Except.ok.inj h)
      exact .skipped hplace
    | some place =>
      simp only [hplace] at h
      cases hensure : t.ensurePath Tree.root place with
      | error e => simp [hensure] at h
      | ok p =>
        obtain ⟨u, i⟩ := p
        simp only [hensure] at h
        cases hfile : f.file with
        | none =>
          simp only [hfile] at h
          obtain ⟨rfl, rfl⟩ := Prod.mk.inj (Except.ok.inj h)
          exact .directory hplace hensure hfile
        | some result =>
          cases result with
          | error e => simp [hfile] at h
          | ok content =>
            obtain ⟨bytes, modified⟩ := content
            simp only [hfile] at h
            cases hknown : cached previous place with
            | error fault => simp [hknown] at h
            | ok known =>
              simp only [hknown] at h
              cases hset : u.setDeps i (derive known bytes modified reader).deps modified
                  (derive known bytes modified reader).depsModified with
              | error e => simp [hset] at h
              | ok v =>
                simp only [hset] at h
                obtain ⟨rfl, rfl⟩ := Prod.mk.inj (Except.ok.inj h)
                exact .recorded hplace hensure hfile hknown hset
  · intro h
    cases h with
    | skipped hplace => simp only [scanItem, hplace]
    | directory hplace hensure hfile => simp only [scanItem, hplace, hensure, hfile]
    | recorded hplace hensure hfile hknown hset =>
      simp only [scanItem, hplace, hensure, hfile, hknown, hset]

theorem scanItems_cons_eq_ok_iff {state result : Tree × ScanStats} {f : Found}
    {items : List Found} :
    scanItems previous extensions reader state (f :: items) = .ok result ↔
      ∃ next, scanItem previous extensions reader state f = .ok next ∧
        scanItems previous extensions reader next items = .ok result := by
  rw [scanItems, List.foldlM_cons]
  cases scanItem previous extensions reader state f with
  | error e => simp [bind, Except.bind]
  | ok next => simp [bind, Except.bind, scanItems]

end ModuleAtlas
