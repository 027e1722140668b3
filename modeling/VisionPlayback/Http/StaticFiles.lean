import VisionPlayback.Http.Listener
import VisionPlayback.Lib.Path

/-!
# What the public route serves

The file behind an answer of `/dash/<key>/<file>`, by its path. The route lets no path
with `..` through, and it does not ask for a package at the others.
-/

namespace VisionPlayback.Listener

open Lib Lib.Path

/-- `m_downloadsDir + "/" + relativePath`. -/
def fullPath (downloadsDir dir name : String) : String :=
  downloadsDir ++ "/" ++ (dir ++ "/" ++ name)

/-- The components of a path, with the dots resolved. -/
def resolved (path : String) : List (List Char) := resolve '/' '.' path.toList

/-- The answer is the content of a file directly below a package directory, and that is
where the path of the two segments leads. -/
def ReadsPackage (downloadsDir dir name : String) (d : Disk) (body : Body) : Prop :=
  ∃ (hex file : String) (p : PackageDir) (f : File), isHex16 hex = true ∧
    resolved (fullPath downloadsDir dir name) =
      resolved downloadsDir ++ [hex.toList, file.toList] ∧
    d.dirs.lookup hex = some p ∧ p.files.lookup file = some f ∧ body = .bytes f.content

variable {dir name : String} {d : Disk}

/-- The route answers with a file exactly when the guard lets the path pass and a file that
can be read is there. -/
theorem serveStaticFile_ok_iff : (serveStaticFile dir name d).status = 200 ↔
    ¬ ['.', '.'] <:+: (dir ++ "/" ++ name).toList ∧
      ∃ f, openFile dir name d = some f ∧ f.readable = true := by
  unfold serveStaticFile
  by_cases hguard : ['.', '.'] <:+: (dir ++ "/" ++ name).toList
  · rw [if_pos hguard]
    exact iff_of_false (by decide) fun h => h.1 hguard
  rw [if_neg hguard, and_iff_right hguard]
  cases openFile dir name d with
  | none => simp
  | some f => cases hr : f.readable <;> simp [hr]

theorem body_serveStaticFile {f : File} (h : ¬ ['.', '.'] <:+: (dir ++ "/" ++ name).toList)
    (hf : openFile dir name d = some f) (hr : f.readable = true) :
    (serveStaticFile dir name d).body = .bytes f.content := by
  unfold serveStaticFile
  rw [if_neg h, hf]
  simp [hr]

theorem toList_segments (dir name : String) :
    (dir ++ "/" ++ name).toList = dir.toList ++ '/' :: name.toList := by
  rw [String.toList_append, String.toList_append, List.append_assoc]
  rfl

/-- Past the guard a path stays below the downloads directory. -/
theorem resolved_fullPath (downloadsDir : String) (hdir : '/' ∉ dir.toList)
    (hname : '/' ∉ name.toList) (h : ¬ ['.', '.'] <:+: (dir ++ "/" ++ name).toList) :
    resolved (fullPath downloadsDir dir name) =
      resolved downloadsDir ++ [dir.toList, name.toList].filter (descends '.') := by
  rw [toList_segments] at h
  obtain ⟨hup, hup'⟩ := ne_up_of_not_infix h
  have hpath : (fullPath downloadsDir dir name).toList =
      downloadsDir.toList ++ '/' :: (dir.toList ++ '/' :: name.toList) := by
    rw [fullPath, String.toList_append, toList_segments, String.toList_append, List.append_assoc]
    rfl
  rw [resolved, hpath]
  exact resolve_pair hdir hname hup hup'

/-- The served file is at its path: a raw file, a temporary export, or a file of a
directory. -/
theorem openFile_cases {f : File} (h : openFile dir name d = some f) : name ≠ "." ∧
    ((dir = "." ∧ d.raw.lookup name = some f) ∨
      (dir = ".exports" ∧ ∃ e, d.exports.lookup (dir ++ "/" ++ name) = some e ∧ e.file = f) ∨
      (dir ≠ "." ∧ dir ≠ ".exports" ∧
        ∃ p, d.dirs.lookup dir = some p ∧ p.files.lookup name = some f)) := by
  unfold openFile at h
  by_cases hname : name = "."
  · rw [if_pos hname] at h
    cases h
  refine ⟨hname, ?_⟩
  rw [if_neg hname] at h
  by_cases hdot : dir = "."
  · rw [if_pos hdot] at h
    exact Or.inl ⟨hdot, h⟩
  rw [if_neg hdot] at h
  by_cases hexports : dir = ".exports"
  · rw [if_pos hexports] at h
    exact Or.inr (Or.inl ⟨hexports, Option.map_eq_some_iff.mp h⟩)
  rw [if_neg hexports] at h
  exact Or.inr (Or.inr ⟨hdot, hexports, Option.bind_eq_some_iff.mp h⟩)

theorem descends_iff {s : String} : descends '.' s.toList = true ↔ s ≠ "" ∧ s ≠ "." := by
  have hdot : ".".toList = ['.'] := by decide
  rw [descends, Bool.and_eq_true, decide_eq_true_eq, decide_eq_true_eq, ← hdot, ne_eq, ne_eq,
    String.toList_inj, String.toList_eq_nil_iff]

/-- A pair that leads to two components below the downloads directory names them. -/
theorem dir_eq_of_resolved (downloadsDir : String) (hdir : '/' ∉ dir.toList)
    (hname : '/' ∉ name.toList) (hguard : ¬ ['.', '.'] <:+: (dir ++ "/" ++ name).toList)
    {a b : List Char}
    (h : resolved (fullPath downloadsDir dir name) = resolved downloadsDir ++ [a, b]) :
    dir.toList = a := by
  rw [resolved_fullPath downloadsDir hdir hname hguard] at h
  have hpair := List.append_cancel_left h
  have hsub : [a, b].Sublist [dir.toList, name.toList] := hpair ▸ List.filter_sublist
  exact (List.cons.inj (hsub.eq_of_length rfl)).1.symm

/-- **The public route serves package files only** exactly for these pairs: the key is
sixteen hex digits, or the guard stops the path, or no file that can be read is there. -/
theorem servesPackages_iff (downloadsDir : String) (hdir : '/' ∉ dir.toList)
    (hname : '/' ∉ name.toList) (hkey : dir ≠ "") (hfile : name ≠ "") :
    ((serveStaticFile dir name d).status = 200 →
        ReadsPackage downloadsDir dir name d (serveStaticFile dir name d).body) ↔
      isHex16 dir = true ∨ ['.', '.'] <:+: (dir ++ "/" ++ name).toList ∨
        ∀ f, openFile dir name d = some f → f.readable = false := by
  constructor
  · intro h
    by_cases hguard : ['.', '.'] <:+: (dir ++ "/" ++ name).toList
    · exact Or.inr (Or.inl hguard)
    by_cases hfound : ∃ f, openFile dir name d = some f ∧ f.readable = true
    · obtain ⟨hex, file, p, f, hhex, hpath, -⟩ := h (serveStaticFile_ok_iff.mpr ⟨hguard, hfound⟩)
      have hsame := dir_eq_of_resolved downloadsDir hdir hname hguard hpath
      rw [String.toList_inj.mp hsame]
      exact Or.inl hhex
    · refine Or.inr (Or.inr fun f hf => ?_)
      cases hr : f.readable with
      | false => rfl
      | true => exact absurd ⟨f, hf, hr⟩ hfound
  · rintro (hhex | hguard | hnone) hok
    · obtain ⟨hguard, f, hf, hr⟩ := serveStaticFile_ok_iff.mp hok
      obtain ⟨hdot, ⟨rfl, -⟩ | ⟨rfl, -⟩ | ⟨hdot', -, p, hp, hfile'⟩⟩ := openFile_cases hf
      · exact absurd hhex (by decide)
      · exact absurd hhex (by decide)
      refine ⟨dir, name, p, f, hhex, ?_, hp, hfile', body_serveStaticFile hguard hf hr⟩
      rw [resolved_fullPath downloadsDir hdir hname hguard,
        List.filter_cons_of_pos (descends_iff.mpr ⟨hkey, hdot'⟩),
        List.filter_cons_of_pos (descends_iff.mpr ⟨hfile, hdot⟩), List.filter_nil]
    · exact absurd hguard (serveStaticFile_ok_iff.mp hok).1
    · obtain ⟨-, f, hf, hr⟩ := serveStaticFile_ok_iff.mp hok
      rw [hnone f hf] at hr
      cases hr

/-- A recording that is being downloaded, and another client's clip. -/
def Sample.busyDisk : Disk where
  raw := AList.insert "00000000000000aa.mp4" { content := [1] } ∅
  exports := AList.insert ".exports/1.mp4"
    ⟨{ content := [2] }, ⟨1, "00000000000000bb/manifest.mpd", ".exports/1.mp4", 0, 5⟩⟩ ∅

theorem servesPackages_iff_dot :
    ((serveStaticFile "." "00000000000000aa.mp4" Sample.busyDisk).status = 200 →
        ReadsPackage "/srv/downloads" "." "00000000000000aa.mp4" Sample.busyDisk
          (serveStaticFile "." "00000000000000aa.mp4" Sample.busyDisk).body) ↔
      isHex16 "." = true ∨ ['.', '.'] <:+: ("." ++ "/" ++ "00000000000000aa.mp4").toList ∨
        ∀ f, openFile "." "00000000000000aa.mp4" Sample.busyDisk = some f → f.readable = false :=
  servesPackages_iff "/srv/downloads" (by decide) (by decide) (by decide) (by decide)

theorem not_servesPackages : ¬ ∀ (downloadsDir dir name : String) (d : Disk),
    '/' ∉ dir.toList → '/' ∉ name.toList → dir ≠ "" → name ≠ "" →
      (serveStaticFile dir name d).status = 200 →
        ReadsPackage downloadsDir dir name d (serveStaticFile dir name d).body := by
  intro hall
  obtain ⟨hex, file, p, f, -, -, hp, -⟩ := hall "/srv/downloads" "." "00000000000000aa.mp4"
    Sample.busyDisk (by decide) (by decide) (by decide) (by decide) (by decide)
  cases hp

end VisionPlayback.Listener
