import ModuleAtlas.Disk.Write
import ModuleAtlas.Proofs.NormalPaths
import ModuleAtlas.Proofs.PathFollowing
import ModuleAtlas.Proofs.RecordFile

/-!
# Paths that name a file

A path that ends with a name is spelt by the pieces of its directory and by that name, and so is the
path of its lock file, which has the same directory.  What such a path leads to shows that its
directory is there.

## Main definitions

* `Path.EndsWith` — the last piece of a path is a name.
* `Path.dirPieces`, `Path.ofDirPieces` — the pieces of the directory and the path that they spell.

## Main results

* `Path.EndsWith.parent_eq`, `Path.EndsWith.lockPath` — **a file and its lock file have the same
  directory.**
* `Path.EndsWith.isDir_parent` — the directory of a path that leads somewhere.
-/

namespace ModuleAtlas

namespace Path

/-- The last piece of a path is a name. -/
structure EndsWith (p : Path) (above : List String) (s : String) : Prop where
  /-- The pieces. -/
  pieces_eq : p.pieces = above ++ [s]
  /-- The last piece is not empty, so no slash is at the end. -/
  ne_empty : s ≠ ""
  /-- It does not stand for a directory itself. -/
  ne_current : s ≠ "."
  /-- It does not stand for the directory above. -/
  ne_parent : s ≠ ".."

/-- A path has a last piece, be it empty or not. -/
theorem exists_pieces_eq (p : Path) : ∃ above s, p.pieces = above ++ [s] := by
  have hne : p.pieces ≠ [] := by
    rw [pieces, Text.splitAt]
    exact mt List.map_eq_nil_iff.1 (Text.splitChars_ne_nil '/' p.text.toList)
  obtain ⟨above, s, hpieces⟩ := (List.eq_nil_or_concat p.pieces).resolve_left hne
  exact ⟨above, s, by rw [hpieces, List.concat_eq_append]⟩

/-- The pieces of the directory of a path, without those at the end that add nothing. -/
def dirPieces : List String → List String
  | [] => []
  | a :: rest => a :: trimPieces rest

/-- The path that the pieces of a directory spell. -/
def ofDirPieces : List String → Path
  | [] => ⟨""⟩
  | a :: rest => ofPieces a rest

/-! ### Pieces -/

theorem intercalate_pieces (p : Path) : "/".intercalate p.pieces = p.text :=
  Text.intercalate_splitAt '/' p.text

theorem slash_notMem_of_mem_pieces {p : Path} {s : String} (h : s ∈ p.pieces) : '/' ∉ s.toList :=
  Text.notMem_of_mem_splitAt h

theorem trimPieces_isPrefix (l : List String) : trimPieces l <+: l := by
  rw [trimPieces, ← List.reverse_suffix, List.reverse_reverse]
  exact List.dropWhile_suffix _

theorem trimPieces_concat {s : String} (hs : (pieceComponent? s).isSome = true) (l : List String) :
    trimPieces (l ++ [s]) = l ++ [s] := by
  have hkept : ¬ (pieceComponent? s).isNone = true := by
    rw [Option.isNone_iff_eq_none]
    exact Option.isSome_iff_ne_none.1 hs
  simp only [trimPieces, List.reverse_concat, List.dropWhile_cons, if_neg hkept, List.reverse_cons,
    List.reverse_reverse]

/-- What is left after trimming ends with a piece that denotes something. -/
theorem pieceComponent?_of_getLast?_trimPieces {l : List String} {s : String}
    (h : (trimPieces l).getLast? = some s) : (pieceComponent? s).isSome = true := by
  rw [trimPieces, List.getLast?_reverse] at h
  have hkept := List.head?_dropWhile_not (fun s => (pieceComponent? s).isNone) l.reverse
  rw [h] at hkept
  simpa using hkept

theorem trimPieces_trimPieces (l : List String) : trimPieces (trimPieces l) = trimPieces l := by
  rcases List.eq_nil_or_concat (trimPieces l) with h | ⟨m, s, h⟩
  · rw [h]; rfl
  · have hs := pieceComponent?_of_getLast?_trimPieces (l := l) (s := s) (by rw [h]; simp)
    rw [h, List.concat_eq_append, trimPieces_concat hs]

theorem mem_dirPieces {above : List String} {s : String} (h : s ∈ dirPieces above) : s ∈ above := by
  cases above with
  | nil => exact h
  | cons a rest =>
    rcases List.mem_cons.1 h with rfl | h
    · exact List.mem_cons_self
    · exact List.mem_cons_of_mem _ ((trimPieces_isPrefix rest).subset h)

theorem dirPieces_dirPieces (above : List String) :
    dirPieces (dirPieces above) = dirPieces above := by
  cases above with
  | nil => rfl
  | cons a rest => rw [dirPieces, dirPieces, trimPieces_trimPieces]

theorem dirPieces_isPrefix (above : List String) : dirPieces above <+: above := by
  cases above with
  | nil => exact List.nil_prefix
  | cons a rest => exact List.cons_prefix_cons.2 ⟨rfl, trimPieces_isPrefix rest⟩

/-- The pieces of a directory end with one that denotes something, unless the directory is the one
at the top or the one where the path starts. -/
theorem getLast?_dirPieces {above : List String} (hroot : dirPieces above ≠ [""]) :
    (dirPieces above).getLast? ≠ some "" := by
  cases above with
  | nil => simp [dirPieces]
  | cons a rest =>
    rw [dirPieces] at hroot ⊢
    intro hlast
    rcases List.eq_nil_or_concat (trimPieces rest) with h | ⟨m, s, h⟩
    · rw [h] at hlast hroot
      rw [List.getLast?_singleton] at hlast
      exact hroot (by rw [Option.some.inj hlast])
    · rw [h, List.concat_eq_append, ← List.cons_append, List.getLast?_concat] at hlast
      have hs := pieceComponent?_of_getLast?_trimPieces (l := rest) (s := s) (by rw [h]; simp)
      rw [Option.some.inj hlast] at hs
      simp [pieceComponent?] at hs

/-- What the pieces of a directory spell. -/
theorem text_ofDirPieces {l : List String} (h : l ≠ [""]) :
    (ofDirPieces l).text = "/".intercalate l := by
  cases l with
  | nil => rfl
  | cons a rest =>
    rw [ofDirPieces, ofPieces]
    rintro rfl rfl
    exact h rfl

theorem ofDirPieces_root : ofDirPieces [""] = ⟨"/"⟩ := rfl

/-- The pieces of an entry of a directory. -/
theorem pieces_join {above : List String} (habove : ∀ a ∈ above, '/' ∉ a.toList) {s : String}
    (hslash : '/' ∉ s.toList) :
    ((ofDirPieces (dirPieces above)).join ⟨s⟩).pieces = dirPieces above ++ [s] := by
  have hpieces : ∀ t ∈ dirPieces above ++ [s], '/' ∉ t.toList := by
    intro t ht
    rcases List.mem_append.1 ht with ht | ht
    · exact habove t (mem_dirPieces ht)
    · rwa [List.mem_singleton.1 ht]
  have hjoin : ((ofDirPieces (dirPieces above)).join ⟨s⟩).text =
      "/".intercalate (dirPieces above ++ [s]) := by
    rw [join, isAbsolute_eq_false hslash]
    by_cases hnil : dirPieces above = []
    · rw [hnil]
      simp [ofDirPieces, String.intercalate_singleton]
    by_cases hroot : dirPieces above = [""]
    · rw [hroot, ofDirPieces_root]
      simp [String.intercalate_cons_cons, String.intercalate_singleton]
    obtain ⟨m, e, hconcat⟩ := (List.eq_nil_or_concat (dirPieces above)).resolve_left hnil
    rw [List.concat_eq_append] at hconcat
    have he : e ≠ "" := by
      rintro rfl
      exact getLast?_dirPieces hroot (by rw [hconcat, List.getLast?_concat])
    have heslash : '/' ∉ e.toList := habove e (mem_dirPieces (by rw [hconcat]; simp))
    have htext := text_ofDirPieces hroot
    -- the spelling of the directory ends with its last piece, so a slash is put after it
    have hlast : ∃ t, (ofDirPieces (dirPieces above)).text = t ++ e := by
      rw [htext, hconcat]
      by_cases hm : m = []
      · exact ⟨"", by rw [hm, List.nil_append, String.intercalate_singleton, String.empty_append]⟩
      · exact ⟨_, by
          rw [String.intercalate_append_of_ne_nil hm (List.cons_ne_nil e []),
            String.intercalate_singleton]⟩
    obtain ⟨t, ht⟩ := hlast
    have hne : (ofDirPieces (dirPieces above)).text ≠ "" := by
      rw [ht]
      intro h
      exact he (String.append_eq_empty_iff.1 h).2
    have hopen := getLast?_append_ne he heslash t
    rw [← ht] at hopen
    rw [String.intercalate_append_of_ne_nil hnil (List.cons_ne_nil s []),
      String.intercalate_singleton, ← htext]
    simp [hne, hopen]
  rw [pieces, hjoin]
  exact Text.splitAt_intercalate (by simp) hpieces

/-! ### Paths that end with a name -/

namespace EndsWith

variable {p : Path} {above : List String} {s : String}

theorem pieceComponent?_eq (h : p.EndsWith above s) : pieceComponent? s = some (.name s) := by
  simp [pieceComponent?, h.ne_empty, h.ne_current, h.ne_parent]

theorem slash_notMem (h : p.EndsWith above s) : '/' ∉ s.toList :=
  slash_notMem_of_mem_pieces (by rw [h.pieces_eq]; simp)

theorem slash_notMem_above (h : p.EndsWith above s) : ∀ a ∈ above, '/' ∉ a.toList := by
  intro a ha
  exact slash_notMem_of_mem_pieces (by rw [h.pieces_eq]; exact List.mem_append_left _ ha)

theorem fileName_eq (h : p.EndsWith above s) : p.fileName = some s := by
  have hlast : p.components.getLast? = some (.name s) := by
    rw [components, h.pieces_eq]
    cases above with
    | nil =>
      rw [List.nil_append]
      simp [headComponents, h.pieceComponent?_eq, h.ne_empty, h.ne_current]
    | cons a rest =>
      rw [List.cons_append]
      simp [List.filterMap_append, h.pieceComponent?_eq]
  rw [fileName, hlast]

/-- The directory of a file. -/
theorem parent_eq (h : p.EndsWith above s) : p.parent = some (ofDirPieces (dirPieces above)) := by
  have hsome : (pieceComponent? s).isSome = true := by rw [h.pieceComponent?_eq]; rfl
  rw [parent, h.pieces_eq]
  cases above with
  | nil =>
    have hs := h.ne_empty
    simp [trimPieces, hs, dirPieces, ofDirPieces]
  | cons a rest =>
    dsimp only [List.cons_append]
    rw [trimPieces_concat hsome, List.reverse_concat]
    dsimp only
    rw [List.reverse_reverse]
    rfl

theorem plainNames_eq (h : p.EndsWith above s) :
    Disk.plainNames p = above.filter (· ≠ "") ++ [s] := by
  have hs := h.ne_empty
  rw [Disk.plainNames, h.pieces_eq, List.filter_append]
  simp [hs]

theorem names_eq (h : p.EndsWith above s) : Disk.names p.text = Disk.plainNames p := by
  have hlast : (Text.splitAt '/' p.text).getLast? ≠ some "" := by
    rw [show Text.splitAt '/' p.text = above ++ [s] from h.pieces_eq, List.getLast?_concat]
    exact fun hs => h.ne_empty (Option.some.inj hs)
  rw [Disk.names, if_neg hlast, List.append_nil]
  rfl

/-- The lock file of a file ends with a name, after the pieces of the same directory. -/
theorem lockPath (h : p.EndsWith above s) :
    (lockPath p).EndsWith (dirPieces above) (s ++ ".lock") := by
  have hslash : '/' ∉ (s ++ ".lock").toList := by
    rw [String.toList_append, List.mem_append, not_or]
    exact ⟨h.slash_notMem, by decide⟩
  have hpath : ModuleAtlas.lockPath p = (ofDirPieces (dirPieces above)).join ⟨s ++ ".lock"⟩ := by
    rw [lockPath_of_fileName h.fileName_eq, withFileName, h.fileName_eq, h.parent_eq]
    rfl
  have hlong : 5 ≤ (s ++ ".lock").length := by
    rw [String.length_append]
    exact Nat.le_add_left _ _
  refine ⟨?_, ?_, ?_, ?_⟩
  · rw [hpath]
    exact pieces_join h.slash_notMem_above hslash
  all_goals
    intro heq
    rw [heq] at hlong
    exact absurd hlong (by decide)

/-- **A file and its lock file have the same directory.** -/
theorem parent_lockPath (h : p.EndsWith above s) : (ModuleAtlas.lockPath p).parent = p.parent := by
  rw [h.lockPath.parent_eq, h.parent_eq, dirPieces_dirPieces]

/-- The spelling of the directory is how the path of a file starts. -/
theorem exists_text_eq_append (h : p.EndsWith above s) :
    ∃ t, p.text = (ofDirPieces (dirPieces above)).text ++ t := by
  obtain ⟨left, habove⟩ := dirPieces_isPrefix above
  have htext : p.text = "/".intercalate (dirPieces above ++ (left ++ [s])) := by
    rw [← List.append_assoc, habove, ← h.pieces_eq, intercalate_pieces]
  have hleft : left ++ [s] ≠ [] := by simp
  by_cases hnil : dirPieces above = []
  · exact ⟨p.text, by rw [hnil]; exact String.empty_append.symm⟩
  rw [String.intercalate_append_of_ne_nil hnil hleft] at htext
  by_cases hroot : dirPieces above = [""]
  · refine ⟨"/".intercalate (left ++ [s]), ?_⟩
    rw [htext, hroot, ofDirPieces_root, String.intercalate_singleton, String.empty_append]
  · refine ⟨"/" ++ "/".intercalate (left ++ [s]), ?_⟩
    rw [htext, text_ofDirPieces hroot, String.append_assoc]

theorem text_eq_of_dirPieces_eq_nil (h : p.EndsWith above s) (hnil : dirPieces above = []) :
    p.text = s := by
  have habove : above = [] := by
    cases above with
    | nil => rfl
    | cons a rest => exact absurd hnil (List.cons_ne_nil _ _)
  rw [← intercalate_pieces p, h.pieces_eq, habove, List.nil_append, String.intercalate_singleton]

end EndsWith

/-! ### Directories that are there -/

open Disk (start names linkLimit)

/-- A path starts where a longer one does. -/
theorem start_append {q t : String} (hq : q ≠ "") (cwd : List String) :
    start cwd (q ++ t) = start cwd q := by
  have habsolute : (Path.mk (q ++ t)).isAbsolute = (Path.mk q).isAbsolute := by
    rw [Bool.eq_iff_iff, isAbsolute_iff, isAbsolute_iff, String.toList_append]
    cases hlist : q.toList with
    | nil => exact absurd (String.toList_inj.1 hlist) hq
    | cons c l => simp
  rw [start, start, habsolute]

theorem followable_of_append {p : Path} (hp : p.Followable) {q : Path} {t : String}
    (h : p.text = q.text ++ t) (hq : q.text ≠ "") : q.Followable where
  ne_empty := hq
  no_nul := by
    have hnul := hp.no_nul
    rw [h, String.toList_append] at hnul
    simp only [List.contains_eq_mem, List.mem_append, decide_eq_false_iff_not, not_or] at hnul ⊢
    exact hnul.1
  short := by
    have hshort := hp.short
    rw [isLong, h, String.utf8ByteSize_append, decide_eq_false_iff_not] at hshort
    rw [isLong, decide_eq_false_iff_not]
    omega

namespace EndsWith

variable {p : Path} {above : List String} {s : String} {d : Disk} {last : Bool} {goal : List String}

/-- The directory of a path that leads somewhere is there. -/
theorem isDir_parent (h : p.EndsWith above s) (hp : p.Followable)
    (hleads : Leads d.root last linkLimit (start d.cwd p.text) (names p.text) goal)
    (hne : (ofDirPieces (dirPieces above)).text ≠ "") :
    d.isDir (ofDirPieces (dirPieces above)) = true := by
  obtain ⟨t, ht⟩ := h.exists_text_eq_append
  obtain ⟨left, habove⟩ := dirPieces_isPrefix above
  have hnames : names p.text = (dirPieces above).filter (· ≠ "") ++
      (left.filter (· ≠ "") ++ [s]) := by
    rw [h.names_eq, h.plainNames_eq, ← List.append_assoc, ← List.filter_append, habove]
  rw [hnames, ht, start_append hne] at hleads
  obtain ⟨mid, hmid, hdir, -⟩ := hleads.exists_of_append (by simp)
  have hfound : ∃ place, d.root.isDirAt place = true ∧
      Leads d.root true linkLimit (start d.cwd (ofDirPieces (dirPieces above)).text)
        (names (ofDirPieces (dirPieces above)).text) place := by
    by_cases hroot : dirPieces above = [""]
    · -- the path of the directory at the top has no names
      rw [hroot] at hmid ⊢
      rw [ofDirPieces_root] at hmid ⊢
      have hstart : mid = start d.cwd "/" := hmid.eq_of_nil
      exact ⟨mid, hdir, hstart ▸ .stay (hstart ▸ hdir) .done⟩
    · have hpieces : Text.splitAt '/' (ofDirPieces (dirPieces above)).text = dirPieces above := by
        rw [text_ofDirPieces hroot]
        apply Text.splitAt_intercalate
        · intro hnil
          rw [hnil] at hne
          exact hne rfl
        · exact fun a ha => h.slash_notMem_above a (mem_dirPieces ha)
      refine ⟨mid, hdir, ?_⟩
      rw [names, hpieces, if_neg (getLast?_dirPieces hroot), List.append_nil]
      exact hmid
  obtain ⟨place, hplace, hfound⟩ := hfound
  obtain ⟨children, hchildren⟩ := Entry.isDirAt_iff.1 hplace
  have hfind : d.find (ofDirPieces (dirPieces above)) = .ok ⟨place, d.root.at? place⟩ :=
    Disk.find_eq_ok_iff.2 ⟨followable_of_append hp ht hne, hfound, rfl⟩
  rw [Disk.isDir, Disk.stat, hfind, hchildren]
  rfl

theorem dirPieces_eq_nil (h : p.EndsWith above s)
    (hempty : (ofDirPieces (dirPieces above)).text = "") : dirPieces above = [] := by
  by_cases hnil : dirPieces above = []
  · exact hnil
  by_cases hroot : dirPieces above = [""]
  · rw [hroot, ofDirPieces_root] at hempty
    exact absurd hempty (by decide)
  · rw [text_ofDirPieces hroot] at hempty
    have hpieces := Text.splitAt_intercalate hnil fun a ha =>
      h.slash_notMem_above a (mem_dirPieces ha)
    rw [show String.singleton '/' = "/" from rfl, hempty] at hpieces
    exact absurd hpieces.symm hroot

/-- So is the directory as it is spelt for a file that is replaced. -/
theorem isDir_dirOf (h : p.EndsWith above s) (hp : p.Followable)
    (hleads : Leads d.root last linkLimit (start d.cwd p.text) (names p.text) goal) :
    d.isDir (dirOf p) = true := by
  rw [dirOf, h.parent_eq]
  dsimp only
  split
  · next hempty =>
    -- the path is a name, which is looked up in the working directory
    have htext := h.text_eq_of_dirPieces_eq_nil (h.dirPieces_eq_nil hempty)
    have hrelative : start d.cwd p.text = d.cwd := by
      rw [start, htext, isAbsolute_eq_false h.slash_notMem]
      rfl
    have hcwd := hleads.isDirAt_start (Disk.names_ne_nil p.text)
    rw [hrelative] at hcwd
    obtain ⟨children, hchildren⟩ := Entry.isDirAt_iff.1 hcwd
    have hdot : Leads d.root true linkLimit (start d.cwd ".") (names ".") d.cwd := by
      have hstart : start d.cwd "." = d.cwd := by
        rw [start, isAbsolute_eq_false (by decide)]
        rfl
      rw [hstart, show names "." = ["."] by decide +kernel]
      exact .stay hcwd .done
    have hfind : d.find ⟨"."⟩ = .ok ⟨d.cwd, d.root.at? d.cwd⟩ :=
      Disk.find_eq_ok_iff.2 ⟨⟨by decide, by decide, by decide⟩, hdot, rfl⟩
    rw [Disk.isDir, Disk.stat, hfind, hchildren]
    rfl
  · next hne => exact h.isDir_parent hp hleads hne

end EndsWith

end Path

/-! ### Directories that need not be made -/

theorem Disk.exists?_of_isDir {p : Path} {d : Disk} (h : d.isDir p = true) :
    d.exists? p = true := by
  rw [isDir] at h
  rw [exists?]
  cases hstat : d.stat p with
  | ok e => rfl
  | error e => rw [hstat] at h; exact absurd h (by simp)

namespace Trouble

/-- A directory that is there is not made. -/
theorem ensureDir_of_isDir (t : Trouble) {p : Path} {d : Disk} (h : d.isDir p = true) :
    t.ensureDir p d = (.ok (), d) := by
  simp only [ensureDir, OnDisk.bind_apply, OnDisk.look_apply, Disk.exists?_of_isDir h, h, if_true,
    Bool.not_true, Bool.false_eq_true, if_false]
  rfl

/-- The directory of the empty path is the working directory, which is never made. -/
theorem ensureDir_empty (t : Trouble) (d : Disk) : t.ensureDir ⟨""⟩ d = (.ok (), d) := by
  have hexists : d.exists? ⟨""⟩ = false := by
    rw [Disk.exists?, Disk.stat_empty]
    rfl
  simp only [ensureDir, OnDisk.bind_apply, OnDisk.look_apply, hexists, Bool.false_eq_true, if_false]
  rw [OnDisk.within, OnDisk.ofIo, createDirs_empty]

end Trouble

namespace Path.EndsWith

variable {p : Path} {above : List String} {s : String} {d : Disk} {last : Bool} {goal : List String}

/-- Nothing is made for a file whose path leads somewhere. -/
theorem ensureParentDir_eq (h : p.EndsWith above s) (t : Trouble) (hp : p.Followable)
    (hleads : Leads d.root last Disk.linkLimit (Disk.start d.cwd p.text) (Disk.names p.text) goal) :
    t.ensureParentDir p d = (.ok (), d) := by
  rw [Trouble.ensureParentDir, h.parent_eq]
  dsimp only
  by_cases hempty : (ofDirPieces (dirPieces above)).text = ""
  · have hpath : ofDirPieces (dirPieces above) = ⟨""⟩ := congrArg Path.mk hempty
    rw [hpath, t.ensureDir_empty]
  · exact t.ensureDir_of_isDir (h.isDir_parent hp hleads hempty)

/-- Nor is anything for its lock file. -/
theorem ensureParentDir_lockPath (h : p.EndsWith above s) (t : Trouble) :
    t.ensureParentDir (ModuleAtlas.lockPath p) = t.ensureParentDir p := by
  rw [Trouble.ensureParentDir, Trouble.ensureParentDir, h.parent_lockPath]

end Path.EndsWith

end ModuleAtlas
