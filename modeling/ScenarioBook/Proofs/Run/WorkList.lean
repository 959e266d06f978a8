import ScenarioBook.Proofs.FileTree.Resolved
import ScenarioBook.Run

/-!
# The files of a run

Of the paths that its options stand for, a run keeps the first one for each canonical path
(`Disk.dedup_eq`), so no two of them open the same file (`Disk.pairwise_dedup`). Concept files are
loaded and specifications compiled in this order, up to the first failure (`Session.visited`), and
what is written back on the way moves no path. So a run loads no concept file twice, and compiles
and writes no specification twice (`run_work_list`).
-/

set_option autoImplicit false

namespace ScenarioBook

/-! ## First occurrences -/

/-- The elements whose key no earlier one has. -/
def firstsBy {α β : Type} [DecidableEq β] (key : α → β) (l : List α) : List α :=
  (l.zipIdx.filter fun (a, i) => key a ∉ (l.take i).map key).map (·.1)

namespace Disk

section
variable (d : Disk)

theorem dedupFrom_eq (seen : List (List Path.Component)) (paths : List Text) :
    d.dedupFrom seen paths =
      (paths.zipIdx.filter fun (p, i) =>
        d.canonical p ∉ seen ∧ d.canonical p ∉ (paths.take i).map d.canonical).map (·.1) := by
  induction paths generalizing seen with
  | nil => rfl
  | cons path paths ih =>
    have htail : ∀ seen' : List (List Path.Component),
        (∀ key, key ∉ seen' ↔ key ∉ seen ∧ key ≠ d.canonical path) →
        d.dedupFrom seen' paths =
          ((paths.zipIdx.map fun (p, i) => (p, i + 1)).filter fun (p, i) => d.canonical p ∉ seen ∧
            d.canonical p ∉ ((path :: paths).take i).map d.canonical).map (·.1) := by
      intro seen' hseen
      rw [ih, List.filter_map, List.map_map]
      refine congrArg _ (List.filter_congr fun (p, i) _ => ?_)
      simp only [Function.comp, List.take_succ_cons, List.map_cons, List.mem_cons, not_or, hseen,
        decide_eq_decide]
      tauto
    rw [dedupFrom, List.zipIdx_cons', List.filter_cons]
    by_cases hpath : d.canonical path ∈ seen
    · rw [if_pos (by simpa using hpath), if_neg (by simp [hpath])]
      exact htail seen fun key => ⟨fun h => ⟨h, fun heq => h (heq ▸ hpath)⟩, And.left⟩
    · rw [if_neg (by simpa using hpath), if_pos (by simp [hpath]), List.map_cons,
        htail (d.canonical path :: seen) fun key => by simp [and_comm]]
      rfl

/-- **The first path for each canonical path is kept.** -/
theorem dedup_eq (paths : List Text) : d.dedup paths = firstsBy d.canonical paths := by
  rw [dedup, dedupFrom_eq, firstsBy]
  simp

theorem canonical_not_mem_of_dedupFrom {seen : List (List Path.Component)} {paths : List Text}
    {p : Text} (h : p ∈ d.dedupFrom seen paths) : d.canonical p ∉ seen := by
  rw [dedupFrom_eq] at h
  obtain ⟨⟨q, i⟩, hq, rfl⟩ := List.mem_map.1 h
  exact (of_decide_eq_true (List.mem_filter.1 hq).2).1

/-- Two paths that open the same file. -/
def SameFile (p q : Text) : Prop := ∃ place, d.locate p = .ok place ∧ d.locate q = .ok place

theorem not_sameFile {d : Disk} {p q : Text} (h : d.canonical p ≠ d.canonical q) :
    ¬ d.SameFile p q := by
  rintro ⟨place, hp, hq⟩
  exact h ((canonical_eq_iff (resolve_of_locate hp) (resolve_of_locate hq)).2 rfl)

/-- **No two paths that are kept open the same file.** -/
theorem pairwise_dedup (paths : List Text) :
    (d.dedup paths).Pairwise fun p q => ¬ d.SameFile p q := by
  have hfrom : ∀ seen, (d.dedupFrom seen paths).Pairwise fun p q => ¬ d.SameFile p q := by
    induction paths with
    | nil => exact fun _ => .nil
    | cons path paths ih =>
      intro seen
      rw [dedupFrom]
      split
      · exact ih seen
      · refine List.pairwise_cons.2 ⟨fun q hq => not_sameFile fun heq => ?_, ih _⟩
        exact d.canonical_not_mem_of_dedupFrom hq (heq ▸ List.mem_cons_self)
  exact hfrom []

end

end Disk

/-! ## Files one by one -/

namespace Session

/-- The paths that `each` comes to: all up to the first failure. -/
def visited (f : Session → Text → Session × Option Failure) : Session → List Text → List Text
  | _, [] => []
  | s, path :: paths =>
    match f s path with
    | (s, none) => path :: visited f s paths
    | _ => [path]

theorem visited_isPrefix (f : Session → Text → Session × Option Failure) (s : Session)
    (paths : List Text) : visited f s paths <+: paths := by
  induction paths generalizing s with
  | nil => exact List.nil_prefix
  | cons path paths ih =>
    rw [visited]
    split
    · exact List.cons_prefix_cons.2 ⟨rfl, ih _⟩
    · exact List.cons_prefix_cons.2 ⟨rfl, List.nil_prefix⟩

theorem visited_eq_self {f : Session → Text → Session × Option Failure} {s : Session}
    {paths : List Text} (h : (each f s paths).2 = none) : visited f s paths = paths := by
  induction paths generalizing s with
  | nil => rfl
  | cons path paths ih =>
    rw [each] at h
    rw [visited]
    cases hf : f s path with
    | mk s' failure =>
      cases failure with
      | none =>
        rw [hf] at h
        exact congrArg (path :: ·) (ih h)
      | some e =>
        rw [hf] at h
        cases h

/-- Loading a concept file writes nothing. -/
theorem loadConcepts_same (s : Session) (path : Text) :
    (s.loadConcepts path).1.disk = s.disk ∧ (s.loadConcepts path).1.written = s.written := by
  unfold loadConcepts
  cases s.disk.read path with
  | error e => exact ⟨rfl, rfl⟩
  | ok source =>
    simp only
    split <;> exact ⟨rfl, rfl⟩

theorem each_loadConcepts_same (s : Session) (paths : List Text) :
    (each loadConcepts s paths).1.disk = s.disk ∧
      (each loadConcepts s paths).1.written = s.written := by
  induction paths generalizing s with
  | nil => exact ⟨rfl, rfl⟩
  | cons path paths ih =>
    obtain ⟨hdisk, hwritten⟩ := s.loadConcepts_same path
    rw [each]
    cases hf : s.loadConcepts path with
    | mk s' failure =>
      rw [hf] at hdisk hwritten
      cases failure with
      | none => exact ⟨(ih s').1.trans hdisk, (ih s').2.trans hwritten⟩
      | some e => exact ⟨hdisk, hwritten⟩

/-- What the texts written by a part of a run are: `w` is what that part adds. -/
structure Writes (s s' : Session) (paths : List Text) (w : List (Text × Text)) : Prop where
  alike : s.disk.Alike s'.disk
  written : s'.written = s.written ++ w
  sublist : (w.map (·.1)).Sublist paths
  found : ∀ entry ∈ w, ∃ place, s.disk.locate entry.1 = .ok place

theorem Writes.nothing {s s' : Session} (hdisk : s'.disk = s.disk) (hw : s'.written = s.written)
    (paths : List Text) : Writes s s' paths [] :=
  ⟨hdisk ▸ .refl _, by rw [hw, List.append_nil], List.nil_sublist _, fun _ h => by cases h⟩

theorem Writes.append {s s' s'' : Session} {paths more : List Text} {w w' : List (Text × Text)}
    (h : Writes s s' paths w) (h' : Writes s' s'' more w') :
    Writes s s'' (paths ++ more) (w ++ w') where
  alike := h.alike.trans h'.alike
  written := by rw [h'.written, h.written, List.append_assoc]
  sublist := by
    rw [List.map_append]
    exact h.sublist.append h'.sublist
  found entry hentry := by
    rcases List.mem_append.1 hentry with hentry | hentry
    · exact h.found entry hentry
    · rw [← h.alike.locate]
      exact h'.found entry hentry

/-- Compiling a specification writes at most that one. -/
theorem writes_compile (format : Bool) (s : Session) (path : Text) :
    ∃ w, Writes s (s.compile format path).1 [path] w := by
  unfold compile
  cases hread : s.disk.read path with
  | error e => exact ⟨[], .nothing rfl rfl _⟩
  | ok source =>
    simp only
    split
    case h_1 => exact ⟨[], .nothing rfl rfl _⟩
    case h_2 parsed _ =>
      split
      case isFalse => exact ⟨[], .nothing (by rfl) (by rfl) _⟩
      case isTrue =>
        unfold writeBack
        simp only
        split
        · exact ⟨[], .nothing (by rfl) (by rfl) _⟩
        · obtain ⟨place, hplace, -⟩ := Disk.read_eq_ok hread
          refine ⟨[(path, _)], Disk.alike_write hread _, rfl, List.Sublist.refl _, ?_⟩
          exact List.forall_mem_singleton.2 ⟨place, hplace⟩

theorem writes_each_compile (format : Bool) (s : Session) (paths : List Text) :
    ∃ w, Writes s (each (compile format) s paths).1 (visited (compile format) s paths) w := by
  induction paths generalizing s with
  | nil => exact ⟨[], .nothing rfl rfl _⟩
  | cons path paths ih =>
    obtain ⟨w, hw⟩ := s.writes_compile format path
    rw [each, visited]
    cases hf : s.compile format path with
    | mk s' failure =>
      rw [hf] at hw
      cases failure with
      | none =>
        obtain ⟨w', hw'⟩ := ih s'
        exact ⟨w ++ w', hw.append hw'⟩
      | some e => exact ⟨w, hw⟩

end Session

/-! ## The whole run -/

namespace Disk

section
variable (d : Disk) (settings : Settings) (options : Options)

/-- The start of a run, once the settings are known. -/
def session : Session := { disk := d, compiler := { settings := settings } }

/-- The concept files that a run comes to. -/
def loaded : List Text :=
  (d.session settings).visited Session.loadConcepts (d.conceptFiles settings options)

/-- The specifications that a run comes to: none if a concept file fails. -/
def compiled : List Text :=
  match (d.session settings).each Session.loadConcepts (d.conceptFiles settings options) with
  | (s, none) => s.visited (Session.compile options.format) (d.specFiles settings options)
  | _ => []

/-- What a run does to its files, given what it has done at the end and its failure. -/
structure WorksOnce (done : Session × Option Failure) : Prop where
  /-- concept files come in the order of the list, no file twice -/
  loaded_isPrefix : d.loaded settings options <+: d.conceptFiles settings options
  loadedOnce : (d.loaded settings options).Pairwise fun p q => ¬ d.SameFile p q
  /-- specifications come in the order of the list, no file twice -/
  compiled_isPrefix : d.compiled settings options <+: d.specFiles settings options
  compiledOnce : (d.compiled settings options).Pairwise fun p q => ¬ d.SameFile p q
  /-- what is written are compiled specifications in this order, no file twice -/
  written : (done.1.written.map (·.1)).Sublist (d.compiled settings options)
  writtenOnce : (done.1.written.map (·.1)).Pairwise fun p q => ¬ d.SameFile p q
  found : ∀ entry ∈ done.1.written, ∃ place, d.locate entry.1 = .ok place
  /-- paths open the same files after the run as before -/
  alike : d.Alike done.1.disk
  /-- a run without a failure comes to all files -/
  complete : done.2 = none → d.loaded settings options = d.conceptFiles settings options ∧
    d.compiled settings options = d.specFiles settings options

theorem worksOnce_run {system : Option Text}
    (h : d.settings options.config system = .ok settings) :
    d.WorksOnce settings options (run d options system) := by
  have hloaded : d.loaded settings options <+: d.conceptFiles settings options :=
    Session.visited_isPrefix ..
  have hloadedOnce := (d.pairwise_dedup (d.conceptPaths settings options)).sublist hloaded.sublist
  obtain ⟨hdisk, hwritten⟩ := (d.session settings).each_loadConcepts_same
    (d.conceptFiles settings options)
  have hrun : run d options system =
      match (d.session settings).each Session.loadConcepts (d.conceptFiles settings options) with
      | (s, none) => s.each (Session.compile options.format) (d.specFiles settings options)
      | failed => failed := by
    rw [run, h]
    rfl
  rw [hrun]
  cases hload :
    (d.session settings).each Session.loadConcepts (d.conceptFiles settings options) with
  | mk s failure =>
    rw [hload] at hdisk hwritten
    have hstart : s.disk = d := hdisk
    cases failure with
    | some e =>
      have hcompiled : d.compiled settings options = [] := by rw [compiled, hload]
      have hnone : s.written = [] := hwritten
      exact ⟨hloaded, hloadedOnce, hcompiled ▸ List.nil_prefix, hcompiled ▸ .nil,
        by simp [hnone], by simp [hnone], by simp [hnone], hstart ▸ .refl d,
        fun hok => by cases hok⟩
    | none =>
      have hcompiled : d.compiled settings options =
          s.visited (Session.compile options.format) (d.specFiles settings options) := by
        rw [compiled, hload]
      have hprefix := Session.visited_isPrefix (Session.compile options.format) s
        (d.specFiles settings options)
      have honce := (d.pairwise_dedup (d.specPaths settings options)).sublist hprefix.sublist
      obtain ⟨w, hw⟩ := s.writes_each_compile options.format (d.specFiles settings options)
      have hall : (s.each (Session.compile options.format)
          (d.specFiles settings options)).1.written = w := by
        rw [hw.written, hwritten]
        rfl
      refine ⟨hloaded, hloadedOnce, hcompiled ▸ hprefix, hcompiled ▸ honce, ?_, ?_, ?_, ?_, ?_⟩
      · rw [hcompiled, hall]
        exact hw.sublist
      · rw [hall]
        exact honce.sublist hw.sublist
      · intro entry hentry
        rw [hall] at hentry
        obtain ⟨place, hplace⟩ := hw.found entry hentry
        exact ⟨place, hstart ▸ hplace⟩
      · exact hstart ▸ hw.alike
      · intro hok
        refine ⟨Session.visited_eq_self (by rw [hload]), ?_⟩
        rw [hcompiled]
        exact Session.visited_eq_self hok

end

/-! ## Collected paths -/

/-- What is collected for a path that opens a directory with these entries, which stands at a
place. -/
structure Collects (d : Disk) (isMatch : Text → Bool) (path : Text) (place : List Text)
    (entries : List (Text × FileTree)) : Prop where
  ordered : (d.collect isMatch path).Pairwise Path.Precedes
  once : (d.collect isMatch path).Nodup
  /-- just the matching files below, if and only if none of what matches is hidden -/
  exact_iff : (∀ q, q ∈ d.collect isMatch path ↔
      isMatch q = true ∧ (FileTree.dir entries).HasFile path q) ↔
    (FileTree.dir entries).HidesNothing isMatch path
  /-- paths below have the canonical path of the place that they lead to -/
  canonical : ∀ names sub, (FileTree.dir entries).at? names = some sub →
    d.canonical (Path.below path names) = .root :: (place ++ names).map .name

section
variable {d : Disk} {path : Text} {place : List Text} {entries : List (Text × FileTree)}

theorem collects (hd : d.root.WellNamed) (isMatch : Text → Bool) (h : d.locate path = .ok place)
    (hdir : d.root.at? place = some (.dir entries)) :
    d.Collects isMatch path place entries := by
  have hnamed := hd.sub hdir
  have hcollect : d.collect isMatch path = (FileTree.dir entries).gather isMatch path := by
    rw [collect, lookup_of_locate h hdir]
  have hordered := FileTree.pairwise_gather hnamed isMatch path
  refine ⟨hcollect ▸ hordered, hcollect ▸ hordered.imp ?_, ?_, fun names sub hsub => ?_⟩
  · rintro p _ hlt rfl
    exact Path.not_precedes_self p hlt
  · rw [hcollect]
    exact FileTree.gather_exact_iff hnamed
  · exact canonical_of_resolve (resolve_below hnamed (resolve_of_locate h) hdir hsub)

theorem collect_of_not_isDir (isMatch : Text → Bool) (h : d.isDir path = false) :
    d.collect isMatch path = [path] := by
  unfold isDir at h
  unfold collect
  split
  case h_1 entries heq => rw [heq] at h; cases h
  case h_2 => rfl

end

end Disk

/-- **The work list of a run.** For a directory the files are collected in the order of their paths,
each once; any other path is collected as it is. Of what is collected for the options, the first
path for each canonical path is kept, in order. A run loads no concept file twice, and compiles and
writes no specification twice. -/
theorem run_work_list (d : Disk) (hd : d.root.WellNamed) (settings : Settings)
    (options : Options) :
    (∀ isMatch path place entries, d.locate path = .ok place →
      d.root.at? place = some (.dir entries) → d.Collects isMatch path place entries) ∧
    (∀ isMatch path, d.isDir path = false → d.collect isMatch path = [path]) ∧
    d.conceptFiles settings options = firstsBy d.canonical (d.conceptPaths settings options) ∧
    d.specFiles settings options = firstsBy d.canonical (d.specPaths settings options) ∧
    ∀ system, d.settings options.config system = .ok settings →
      d.WorksOnce settings options (run d options system) :=
  ⟨fun isMatch _ _ _ hplace hdir => Disk.collects hd isMatch hplace hdir,
    fun isMatch _ hpath => Disk.collect_of_not_isDir isMatch hpath, d.dedup_eq _, d.dedup_eq _,
    fun _ hsettings => d.worksOnce_run settings options hsettings⟩

/-- A file, and a directory with two more. -/
def shelf : List (Text × FileTree) :=
  [("b.spec".toList, .file (some "# B\n* b\n".toList)),
    ("a".toList, .dir [("c.md".toList, .file (some "# C\n* c\n".toList)),
      ("x.cpt".toList, .file (some "# x\n* y\n".toList))])]

def library : Disk := ⟨.dir [("specs".toList, .dir shelf)], []⟩

/-- Nested inputs, two spellings of one file, and a concept file that is also below an input. -/
def libraryOptions : Options where
  inputs := ["specs".toList, "./specs//b.spec".toList, "specs/a".toList]
  concepts := ["specs/a/x.cpt".toList]

theorem mergeSort_pair {α : Type} (le : α → α → Bool) (a b : α) :
    [a, b].mergeSort le = if le a b then [a, b] else [b, a] := by
  simp [List.mergeSort, List.merge]

/-- What is gathered from a directory with two entries. -/
theorem FileTree.gather_pair (isMatch : Text → Bool) {path : Text}
    (hshort : Path.isTooLong path = false) (a b : Text × FileTree) :
    FileTree.gather isMatch path (.dir [a, b]) =
      if a.1.le b.1 then
        a.2.gather isMatch (Path.join path a.1) ++ b.2.gather isMatch (Path.join path b.1)
      else b.2.gather isMatch (Path.join path b.1) ++ a.2.gather isMatch (Path.join path a.1) := by
  rw [gather, hshort, if_neg Bool.false_ne_true, gatherEntries_eq]
  simp only [List.map_cons, List.map_nil, mergeSort_pair]
  split <;> simp

theorem collect_library (isMatch : Text → Bool) :
    library.collect isMatch "specs".toList =
      ["specs/a/c.md".toList, "specs/a/x.cpt".toList, "specs/b.spec".toList].filter isMatch ∧
    library.collect isMatch "specs/a".toList =
      ["specs/a/c.md".toList, "specs/a/x.cpt".toList].filter isMatch := by
  have hshort : Path.isTooLong "specs".toList = false := by decide
  have hbelow : Path.isTooLong (Path.join "specs".toList "a".toList) = false := by decide
  have htop : library.lookup "specs".toList = .ok (.dir shelf) := by rfl
  have hsub : library.lookup "specs/a".toList = .ok (.dir
      [("c.md".toList, .file (some "# C\n* c\n".toList)),
        ("x.cpt".toList, .file (some "# x\n* y\n".toList))]) := by rfl
  have hcorner : Path.join "specs".toList "a".toList = "specs/a".toList := by decide
  rw [Disk.collect, htop, Disk.collect, hsub]
  simp only
  rw [shelf, FileTree.gather_pair isMatch hshort, if_neg (by decide),
    FileTree.gather_pair isMatch hbelow, if_pos (by decide),
    FileTree.gather_pair isMatch (hcorner ▸ hbelow), if_pos (by decide)]
  simp only [FileTree.gather, ← List.filter_append]
  exact ⟨rfl, rfl⟩

theorem run_work_list_library :
    library.root.WellNamed ∧ library.locate "specs".toList = .ok ["specs".toList] ∧
    library.root.at? ["specs".toList] = some (.dir shelf) ∧
    (∀ q, q ∈ library.collect ({} : Settings).isSpecFile "specs".toList ↔
      ({} : Settings).isSpecFile q = true ∧ (FileTree.dir shelf).HasFile "specs".toList q) ∧
    library.conceptFiles {} libraryOptions = ["specs/a/x.cpt".toList] ∧
    library.specFiles {} libraryOptions = ["specs/a/c.md".toList, "specs/b.spec".toList] ∧
    library.settings none none = .ok {} ∧
    library.WorksOnce {} libraryOptions (run library libraryOptions none) := by
  have hshelf : (FileTree.dir shelf).WellNamed := by
    refine FileTree.wellNamed_dir (by decide) (List.forall_mem_cons.2 ⟨⟨by decide, ?_⟩, ?_⟩)
    · exact FileTree.wellNamed_file _
    · refine List.forall_mem_singleton.2 ⟨by decide, FileTree.wellNamed_dir (by decide) ?_⟩
      rw [List.forall_mem_cons, List.forall_mem_singleton]
      exact ⟨⟨by decide, FileTree.wellNamed_file _⟩, by decide, FileTree.wellNamed_file _⟩
  have hnamed : library.root.WellNamed :=
    FileTree.wellNamed_dir (by decide) (List.forall_mem_singleton.2 ⟨by decide, hshelf⟩)
  have hhides : (FileTree.dir shelf).HidesNothing ({} : Settings).isSpecFile "specs".toList := by
    refine FileTree.hidesNothing_dir (by decide) (List.forall_mem_cons.2 ⟨?_, ?_⟩)
    · exact FileTree.hidesNothing_file _ _ _
    · refine List.forall_mem_singleton.2 (FileTree.hidesNothing_dir (by decide) ?_)
      rw [List.forall_mem_cons, List.forall_mem_singleton]
      exact ⟨FileTree.hidesNothing_file _ _ _, FileTree.hidesNothing_file _ _ _⟩
  have hlocate : library.locate "specs".toList = .ok ["specs".toList] := by rfl
  have hsettings : library.settings none none = .ok {} := by rfl
  obtain ⟨hcollects, -, hconcepts, hspecs, hworks⟩ :=
    run_work_list library hnamed {} libraryOptions
  refine ⟨hnamed, hlocate, rfl, (hcollects _ _ _ _ hlocate rfl).exact_iff.2 hhides,
    hconcepts.trans ?_, hspecs.trans ?_, hsettings, hworks none hsettings⟩
  · have hdirs : libraryOptions.inputs.filter library.isDir =
        ["specs".toList, "specs/a".toList] := by decide
    have hfile : library.collect ({} : Settings).isConceptFile "specs/a/x.cpt".toList =
        ["specs/a/x.cpt".toList] := Disk.collect_of_not_isDir _ (by rfl)
    rw [Disk.conceptPaths, hdirs]
    simp only [libraryOptions, List.cons_append, List.nil_append, List.flatMap_cons,
      List.flatMap_nil, collect_library, hfile]
    decide +kernel
  · have hfile : library.collect ({} : Settings).isSpecFile "./specs//b.spec".toList =
        ["./specs//b.spec".toList] := Disk.collect_of_not_isDir _ (by rfl)
    simp only [Disk.specPaths, libraryOptions, List.flatMap_cons, List.flatMap_nil,
      collect_library, hfile]
    decide +kernel

/-! ## A directory that is taken for a file -/

/-- A long spelling of the working directory. -/
def dots (n : Nat) : Text := (List.replicate n ['.', '/']).flatten

theorem dots_succ (n : Nat) : dots (n + 1) = '.' :: '/' :: dots n := rfl

theorem utf8Size_dots (n : Nat) : (dots n).utf8Size = 2 * n := by
  induction n with
  | zero => rfl
  | succ n ih =>
    have hdot : Char.utf8Size '.' = 1 := by decide
    have hslash : Char.utf8Size '/' = 1 := by decide
    rw [dots_succ, Text.utf8Size_cons, Text.utf8Size_cons, ih, hdot, hslash]
    omega

theorem join_dots {name : Text} (h : Path.IsName name) (n : Nat) :
    Path.join (dots n) name = dots n ++ name := by
  have hend : (dots n).isEmpty || (dots n).endsWith ['/'] := by
    cases n with
    | zero => rfl
    | succ n =>
      have hlast : dots (n + 1) = (dots n ++ ['.']) ++ ['/'] := by
        simp [dots, List.replicate_succ']
      rw [hlast, Bool.or_eq_true]
      exact .inr (List.isSuffixOf_iff_suffix.2 ⟨_, rfl⟩)
  rw [Path.join, h.not_isAbsolute, if_neg Bool.false_ne_true, if_pos hend]

/-- The dots lead nowhere else. -/
theorem resolve_dots (entries : List (Text × FileTree)) (n : Nat) :
    Disk.resolve ⟨.dir entries, []⟩ (dots (n + 1)) = .ok [] := by
  have hchars : ∀ n, Char.ofNat 0 ∉ dots n := fun n hmem => by
    obtain ⟨part, hpart, hin⟩ := List.mem_flatten.1 hmem
    rw [List.eq_of_mem_replicate hpart] at hin
    exact absurd hin (by decide)
  have hwalk : ∀ n, Disk.walk ⟨.dir entries, []⟩ [] (List.splitOn '/' (dots n)) = .ok [] := by
    intro n
    induction n with
    | zero => rfl
    | succ n ih =>
      have hsplit : List.splitOn '/' (dots (n + 1)) = ['.'] :: List.splitOn '/' (dots n) := rfl
      rw [hsplit]
      exact ih
  have hnull : Path.hasNull (dots (n + 1)) = false := by simpa [Path.hasNull] using hchars (n + 1)
  have habs : Path.isAbsolute (dots (n + 1)) = false := rfl
  refine Disk.resolve_eq_ok_iff.2 ⟨hnull, by simp [dots_succ], ?_⟩
  rw [habs, if_neg Bool.false_ne_true]
  exact hwalk (n + 1)

/-- A directory whose path is too long is collected as a file. -/
theorem not_collect_exact :
    ¬ ∀ (d : Disk) (settings : Settings) (path : Text) (place : List Text)
      (entries : List (Text × FileTree)), d.root.WellNamed → d.locate path = .ok place →
        d.root.at? place = some (.dir entries) →
        ∀ q, q ∈ d.collect settings.isSpecFile path ↔
          settings.isSpecFile q = true ∧ (FileTree.dir entries).HasFile path q := by
  intro h
  let drafts : List (Text × FileTree) := [("drafts.spec".toList, .dir [])]
  have hname : Path.IsName "drafts.spec".toList := by decide
  have hnamed : (FileTree.dir drafts).WellNamed := by
    refine FileTree.wellNamed_dir (by decide) (List.forall_mem_singleton.2 ⟨hname, ?_⟩)
    exact FileTree.wellNamed_dir (by decide) fun _ he => by cases he
  have hshort : Path.isTooLong (dots 2043) = false := by
    rw [Path.isTooLong, utf8Size_dots]
    decide
  have hlocate : Disk.locate ⟨.dir drafts, []⟩ (dots 2043) = .ok [] := by
    rw [Disk.locate, hshort, Bool.and_false, if_neg Bool.false_ne_true]
    exact resolve_dots drafts 2042
  have hexact := h ⟨.dir drafts, []⟩ {} (dots 2043) [] drafts hnamed hlocate rfl
  have hlong : Path.isTooLong (Path.below (dots 2043) ["drafts.spec".toList]) = true := by
    have hbelow : ∀ path name, Path.below path [name] = Path.join path name := fun _ _ => rfl
    rw [hbelow, join_dots hname, Path.isTooLong, Text.utf8Size_append, utf8Size_dots]
    decide
  have hmatch (path : Text) :
      ({} : Settings).isSpecFile (Path.below path ["drafts.spec".toList]) = true := by
    have hfile : Path.fileName? (Path.below path ["drafts.spec".toList]) =
        some "drafts.spec".toList := by
      rw [Path.fileName?, Path.components_below (List.forall_mem_singleton.2 hname)]
      simp
    rw [Settings.isSpecFile, Path.hasExtension, Path.extension?, hfile]
    decide
  rw [Disk.collect, Disk.lookup_of_locate hlocate rfl] at hexact
  obtain ⟨hnot, -⟩ := (FileTree.gather_exact_iff hnamed).1 hexact ["drafts.spec".toList] [] rfl
    (FileTree.reached_cons.2 ⟨hshort, FileTree.reached_nil _⟩) hlong
  rw [hmatch] at hnot
  cases hnot

end ScenarioBook
