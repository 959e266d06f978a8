import ScenarioBook.Proofs.FileTree.Gathered

/-!
# Where paths lead

A path that goes down from a directory by names leads to the place that these names lead to, however
long it is (`Disk.resolve_below`). So the canonical path of what a walk gathers is the absolute path
to its place, and paths that can be opened have the same canonical path if and only if they lead to
the same place (`Disk.canonical_eq_iff`). Where paths lead depends on the names and on what is a
directory, not on what files hold (`Disk.Alike`), so it stays as it is when a file is written
(`Disk.alike_write`).
-/

set_option autoImplicit false

namespace ScenarioBook

namespace Disk

/-! ## Down from a directory -/

theorem walk_append (d : Disk) (place parts more : List Text) :
    d.walk place (parts ++ more) = (d.walk place parts).bind fun here => d.walk here more := by
  induction parts generalizing place with
  | nil => rfl
  | cons part parts ih =>
    rw [List.cons_append, walk, walk]
    cases d.root.at? place with
    | none => rfl
    | some here =>
      simp only
      repeat' split
      all_goals first | rfl | exact ih _

/-- Nothing behind a slash leads nowhere else. -/
theorem eq_of_walk_nil {d : Disk} {place place' : List Text} (h : d.walk place [[]] = .ok place') :
    place' = place := by
  rw [walk] at h
  cases hplace : d.root.at? place with
  | none => rw [hplace] at h; cases h
  | some here =>
    simp only [hplace, true_or, if_true, walk] at h
    split at h
    case isTrue => cases h
    case isFalse => cases h; rfl

theorem walk_name {d : Disk} {place : List Text} {entries : List (Text × FileTree)} {name : Text}
    {sub : FileTree} (hname : Path.IsName name) (hplace : d.root.at? place = some (.dir entries))
    (hsub : FileTree.entry? (.dir entries) name = some sub) :
    d.walk place [name] = .ok (place ++ [name]) := by
  have hshort := Nat.not_lt.2 hname.short
  simp [walk, hplace, FileTree.isDir, hname.nonempty, hname.not_here, hname.not_up, hshort, hsub]

section
variable {d : Disk} {path : Text} {place : List Text}

/-- A path that leads somewhere is not empty, and its parts are walked. -/
theorem resolve_eq_ok_iff : d.resolve path = .ok place ↔ Path.hasNull path = false ∧ path ≠ [] ∧
    d.walk (if Path.isAbsolute path then [] else d.cwd) (path.splitOn '/') = .ok place := by
  rw [resolve]
  cases Path.hasNull path with
  | true => simp
  | false => cases path <;> simp

/-- A path to a directory leads on to its entries. -/
theorem resolve_join {name : Text} (hname : Path.IsName name) (h : d.resolve path = .ok place)
    {entries : List (Text × FileTree)} (hplace : d.root.at? place = some (.dir entries))
    {sub : FileTree} (hsub : FileTree.entry? (.dir entries) name = some sub) :
    d.resolve (Path.join path name) = .ok (place ++ [name]) := by
  obtain ⟨hnull, hpath, hwalk⟩ := resolve_eq_ok_iff.1 h
  obtain ⟨dir, hjoin, hdir⟩ := Path.join_eq hname hpath
  -- the start of the path leads to the directory, with or without a slash at its end
  have hstart : d.walk (if Path.isAbsolute path then [] else d.cwd) (dir.splitOn '/') =
      .ok place := by
    rcases hdir with rfl | rfl
    · exact hwalk
    · rw [List.splitOn_append_cons_self, walk_append] at hwalk
      cases hw : d.walk (if Path.isAbsolute (dir ++ ['/']) then [] else d.cwd)
          (dir.splitOn '/') with
      | error e => rw [hw] at hwalk; cases hwalk
      | ok here =>
        rw [hw] at hwalk
        rw [eq_of_walk_nil hwalk]
  have habs : Path.isAbsolute (Path.join path name) = Path.isAbsolute path := by
    obtain ⟨c, cs, rfl⟩ := List.exists_cons_of_ne_nil hpath
    rw [Path.join, hname.not_isAbsolute, if_neg Bool.false_ne_true]
    split <;> rw [List.cons_append, Path.isAbsolute_cons, Path.isAbsolute_cons]
  have hnull' : Path.hasNull (Path.join path name) = false := by
    have hjoined : Char.ofNat 0 ∉ Path.join path name := by
      rw [Path.join, hname.not_isAbsolute, if_neg Bool.false_ne_true]
      have hpathnull : Char.ofNat 0 ∉ path := by simpa [Path.hasNull] using hnull
      split <;> simp [hpathnull, hname.null]
    simpa [Path.hasNull] using hjoined
  refine resolve_eq_ok_iff.2 ⟨hnull', by rw [hjoin]; simp, ?_⟩
  rw [habs, hjoin, List.splitOn_append_cons_self, hname.splitOn, walk_append, hstart]
  exact walk_name hname hplace hsub

/-- **A path goes down from a directory as its names do**, however long it gets. -/
theorem resolve_below {names : List Text} {t sub : FileTree} (ht : t.WellNamed)
    (h : d.resolve path = .ok place) (hplace : d.root.at? place = some t)
    (hsub : t.at? names = some sub) :
    d.resolve (Path.below path names) = .ok (place ++ names) := by
  induction names generalizing t path place with
  | nil => rwa [List.append_nil]
  | cons name names ih =>
    have hname := ht.names hsub name List.mem_cons_self
    cases t with
    | file contents => cases hsub
    | dir entries =>
      cases he : FileTree.entry? (.dir entries) name with
      | none =>
        rw [FileTree.at?, he] at hsub
        cases hsub
      | some here =>
        have hhere : (FileTree.dir entries).at? [name] = some here := by
          rw [FileTree.at?, he]
          rfl
        have hrest : here.at? names = some sub := by
          rwa [FileTree.at?, he] at hsub
        have hdown : d.root.at? (place ++ [name]) = some here := by
          rw [FileTree.at?_append, hplace]
          exact hhere
        have := ih (ht.sub hhere) (resolve_join hname h hplace he) hdown hrest
        rwa [List.append_assoc] at this

/-- The canonical path of a path that leads somewhere is the absolute path to the place. -/
theorem canonical_of_resolve (h : d.resolve path = .ok place) :
    d.canonical path = .root :: place.map .name := by
  rw [canonical, h]

/-- **Canonical paths tell places apart.** -/
theorem canonical_eq_iff {path' : Text} {place' : List Text} (h : d.resolve path = .ok place)
    (h' : d.resolve path' = .ok place') :
    d.canonical path = d.canonical path' ↔ place = place' := by
  rw [canonical_of_resolve h, canonical_of_resolve h', List.cons_inj_right]
  exact (List.map_injective_iff.2 fun _ _ => Path.Component.name.inj).eq_iff

/-- A path that can be opened leads somewhere. -/
theorem resolve_of_locate (h : d.locate path = .ok place) : d.resolve path = .ok place := by
  unfold locate at h
  split at h
  case isTrue => cases h
  case isFalse => exact h

theorem lookup_eq_ok {t : FileTree} (h : d.lookup path = .ok t) :
    ∃ place, d.locate path = .ok place ∧ d.root.at? place = some t := by
  unfold lookup at h
  cases hl : d.locate path with
  | error e => rw [hl] at h; cases h
  | ok place =>
    rw [hl] at h
    cases ht : d.root.at? place with
    | none => simp only [ht] at h; cases h
    | some here =>
      simp only [ht] at h
      cases h
      exact ⟨place, rfl, ht⟩

theorem lookup_of_locate {t : FileTree} (h : d.locate path = .ok place)
    (ht : d.root.at? place = some t) : d.lookup path = .ok t := by
  rw [lookup, h]
  simp only [ht]

/-- What can be read is a file. -/
theorem read_eq_ok {text : Text} (h : d.read path = .ok text) :
    ∃ place, d.locate path = .ok place ∧ d.root.at? place = some (.file (some text)) := by
  unfold read at h
  split at h
  case h_1 | h_2 | h_3 => cases h
  case h_4 heq =>
    cases h
    exact lookup_eq_ok heq

end

/-! ## Files that are written -/

/-- The same names lead to directories and to files, from the same working directory. -/
structure Alike (d d' : Disk) : Prop where
  cwd : d'.cwd = d.cwd
  isDir : ∀ names, (d'.root.at? names).map FileTree.isDir = (d.root.at? names).map FileTree.isDir

end Disk

namespace FileTree

/-- A name is an entry if it leads somewhere. -/
theorem at?_singleton (t : FileTree) (name : Text) : t.at? [name] = t.entry? name := by
  rw [at?]
  cases t.entry? name <;> rfl

theorem putEntry_of_present {entries : List (Text × FileTree)} {name : Text} {old : FileTree}
    (h : FileTree.entry? (dir entries) name = some old) (sub : FileTree) :
    (dir entries).putEntry name sub =
      dir (entries.map fun e => if e.1 == name then (name, sub) else e) := by
  obtain ⟨e, hfind, -⟩ := Option.map_eq_some_iff.1 h
  have hname : (e.1 == name) = true := by simpa using List.find?_some hfind
  rw [putEntry, if_pos (List.any_eq_true.2 ⟨e, List.mem_of_find?_eq_some hfind, hname⟩)]

theorem entry?_cons (e : Text × FileTree) (entries : List (Text × FileTree)) (name : Text) :
    FileTree.entry? (dir (e :: entries)) name =
      if e.1 = name then some e.2 else FileTree.entry? (dir entries) name := by
  unfold FileTree.entry?
  simp only [List.find?_cons]
  by_cases he : e.1 = name
  · simp [he]
  · simp [he, beq_eq_false_iff_ne.2 he]

theorem entry?_replaced (entries : List (Text × FileTree)) (name other : Text) (sub : FileTree) :
    FileTree.entry? (dir (entries.map fun e => if e.1 == name then (name, sub) else e)) other =
      if other = name then ( FileTree.entry? (dir entries) name).map fun _ => sub
      else FileTree.entry? (dir entries) other := by
  induction entries with
  | nil => split <;> rfl
  | cons e entries ih =>
    rw [List.map_cons, entry?_cons, ih, entry?_cons, entry?_cons]
    by_cases ho : other = name
    · subst ho
      by_cases he : e.1 = other <;> simp [he]
    · by_cases he : e.1 = name
      · simp [he, ho, Ne.symm ho]
      · simp [he, ho]

/-- **Another text in a file** leaves the names and the directories as they are. -/
theorem isDir_put {t : FileTree} {place : List Text} {old : Option Text}
    (h : t.at? place = some (.file old)) (contents : Option Text) (names : List Text) :
    ((t.put place (.file contents)).at? names).map isDir = (t.at? names).map isDir := by
  induction place generalizing t names with
  | nil =>
    cases h
    cases names <;> rfl
  | cons name place ih =>
    cases t with
    | file => cases h
    | dir entries =>
      cases he : FileTree.entry? (dir entries) name with
      | none => rw [at?, he] at h; cases h
      | some sub =>
        rw [at?, he] at h
        rw [put, he, Option.getD_some, putEntry_of_present he]
        cases names with
        | nil => rfl
        | cons other names =>
          rw [at?, entry?_replaced, at?]
          by_cases ho : other = name
          · subst ho
            rw [if_pos rfl, he]
            exact ih h names
          · rw [if_neg ho]

end FileTree

namespace Disk

theorem Alike.refl (d : Disk) : Alike d d := ⟨rfl, fun _ => rfl⟩

theorem Alike.trans {d d' d'' : Disk} (h : Alike d d') (h' : Alike d' d'') : Alike d d'' :=
  ⟨h'.cwd.trans h.cwd, fun names => (h'.isDir names).trans (h.isDir names)⟩

section
variable {d d' : Disk}

theorem Alike.walk (h : Alike d d') (place parts : List Text) :
    d'.walk place parts = d.walk place parts := by
  induction parts generalizing place with
  | nil => rfl
  | cons part parts ih =>
    have hhere := h.isDir place
    have hthere := h.isDir (place ++ [part])
    rw [FileTree.at?_append, FileTree.at?_append] at hthere
    rw [Disk.walk, Disk.walk]
    cases hd : d.root.at? place with
    | none =>
      rw [hd] at hhere
      rw [Option.map_eq_none_iff.1 hhere]
    | some here =>
      rw [hd] at hhere hthere
      obtain ⟨here', hd', hsame⟩ := Option.map_eq_some_iff.1 hhere
      have hentry : ( here'.entry? part).isNone = ( here.entry? part).isNone := by
        rw [hd', Option.bind_some, Option.bind_some, FileTree.at?_singleton,
          FileTree.at?_singleton] at hthere
        simpa using congrArg Option.isNone hthere
      simp only [hd', hsame, hentry, ih]

theorem Alike.resolve (h : Alike d d') (path : Text) : d'.resolve path = d.resolve path := by
  rw [Disk.resolve, Disk.resolve, h.cwd, h.walk]

theorem Alike.locate (h : Alike d d') (path : Text) : d'.locate path = d.locate path := by
  rw [Disk.locate, Disk.locate, h.resolve]

/-- **Writing to a file** moves no path. -/
theorem alike_write {path source : Text} (h : d.read path = .ok source) (text : Text) :
    Alike d (d.write path text) := by
  obtain ⟨place, hlocate, hfile⟩ := read_eq_ok h
  have hwrite : d.write path text = { d with root := d.root.put place (.file (some text)) } := by
    rw [write, hlocate]
  rw [hwrite]
  exact ⟨rfl, FileTree.isDir_put hfile (some text)⟩

end

end Disk

end ScenarioBook
