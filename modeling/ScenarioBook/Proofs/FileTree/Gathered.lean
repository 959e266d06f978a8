import ScenarioBook.FileTree
import ScenarioBook.Proofs.Path.Joined

/-!
# What a walk gathers

In a file tree as a disk has it, the entries of a directory have distinct names
(`FileTree.WellNamed`). The walk comes to the trees in front of which no directory has a path that
is too long (`FileTree.Reached`), and gathers the matching paths of the files among them, and of the
directories whose own path is too long (`FileTree.mem_gather_iff`). The paths come strictly in
order (`FileTree.pairwise_gather`). They are those of the matching files below if and only if
nothing that matches is hidden behind a path that is too long (`FileTree.gather_exact_iff`).
-/

set_option autoImplicit false

namespace ScenarioBook.FileTree

/-- Induction over files and directories. -/
theorem walk_induction {motive : FileTree → Prop} (file : ∀ contents, motive (.file contents))
    (dir : ∀ entries, (∀ e ∈ entries, motive e.2) → motive (.dir entries)) (t : FileTree) :
    motive t :=
  match t with
  | .file contents => file contents
  | .dir entries => dir entries fun e he =>
    have : sizeOf e.2 < 1 + sizeOf entries := by
      have := List.sizeOf_lt_of_mem he
      obtain ⟨name, sub⟩ := e
      simp only [Prod.mk.sizeOf_spec] at this ⊢
      omega
    walk_induction file dir e.2
termination_by sizeOf t

/-! ## Places -/

/-- The entries of every directory have distinct names. -/
def WellNamed (t : FileTree) : Prop :=
  ∀ names entries, t.at? names = some (.dir entries) →
    (entries.map (·.1)).Nodup ∧ ∀ e ∈ entries, Path.IsName e.1

theorem at?_append (t : FileTree) (names more : List Text) :
    t.at? (names ++ more) = (t.at? names).bind (·.at? more) := by
  induction names generalizing t with
  | nil => rfl
  | cons name names ih =>
    rw [List.cons_append, at?, at?]
    cases t.entry? name with
    | none => rfl
    | some sub => exact ih sub

/-- The way down starts with an entry. -/
theorem exists_entry_of_at? {entries : List (Text × FileTree)} {name : Text} {names : List Text}
    {sub : FileTree} (h : (dir entries).at? (name :: names) = some sub) :
    ∃ e ∈ entries, e.1 = name ∧ e.2.at? names = some sub := by
  rw [at?] at h
  cases he : FileTree.entry? (dir entries) name with
  | none => rw [he] at h; cases h
  | some here =>
    rw [he] at h
    obtain ⟨e, hfind, rfl⟩ := Option.map_eq_some_iff.1 he
    exact ⟨e, List.mem_of_find?_eq_some hfind, by simpa using List.find?_some hfind, h⟩

/-- Every entry is found by its name. -/
theorem at?_entry {entries : List (Text × FileTree)} (hd : (entries.map (·.1)).Nodup)
    {e : Text × FileTree} (he : e ∈ entries) (names : List Text) :
    (dir entries).at? (e.1 :: names) = e.2.at? names := by
  obtain ⟨before, after, rfl⟩ := List.append_of_mem he
  have hfind : (before ++ e :: after).find? (·.1 == e.1) = some e := by
    refine List.find?_eq_some_iff_append.2 ⟨by simp, before, after, rfl, fun other hother => ?_⟩
    rw [List.map_append, List.map_cons, List.nodup_append] at hd
    simpa using hd.2.2 other.1 (List.mem_map_of_mem hother) e.1 List.mem_cons_self
  have hentry : FileTree.entry? (dir (before ++ e :: after)) e.1 = some e.2 :=
    Option.map_eq_some_iff.2 ⟨e, hfind, rfl⟩
  rw [at?, hentry]

theorem wellNamed_file (contents : Option Text) : (file contents).WellNamed := by
  intro names entries h
  cases names <;> cases h

theorem wellNamed_dir {entries : List (Text × FileTree)} (hd : (entries.map (·.1)).Nodup)
    (h : ∀ e ∈ entries, Path.IsName e.1 ∧ e.2.WellNamed) : (dir entries).WellNamed := by
  intro names inner hinner
  cases names with
  | nil =>
    cases hinner
    exact ⟨hd, fun e he => (h e he).1⟩
  | cons name names =>
    obtain ⟨e, he, -, hrest⟩ := exists_entry_of_at? hinner
    exact (h e he).2 names inner hrest

section
variable {t : FileTree} {entries : List (Text × FileTree)}

theorem WellNamed.sub (h : t.WellNamed) {names : List Text} {sub : FileTree}
    (hsub : t.at? names = some sub) : sub.WellNamed := by
  intro more entries hmore
  refine h (names ++ more) entries ?_
  rw [at?_append, hsub]
  exact hmore

theorem WellNamed.entry (h : (dir entries).WellNamed) {e : Text × FileTree} (he : e ∈ entries) :
    e.2.WellNamed :=
  h.sub (at?_entry (h [] entries rfl).1 he [])

/-- The names on the way down are names. -/
theorem WellNamed.names (h : t.WellNamed) {names : List Text} {sub : FileTree}
    (hsub : t.at? names = some sub) : ∀ name ∈ names, Path.IsName name := by
  induction names generalizing t with
  | nil => exact fun _ hname => by cases hname
  | cons name names ih =>
    cases t with
    | file contents => cases hsub
    | dir entries =>
      obtain ⟨e, he, rfl, hrest⟩ := exists_entry_of_at? hsub
      exact List.forall_mem_cons.2 ⟨(h [] entries rfl).2 e he, ih (h.entry he) hrest⟩

end

/-! ## The walk -/

/-- The walk comes down by these names: no directory on the way has a path that is too long. -/
def Reached (path : Text) (names : List Text) : Prop :=
  ∀ init, init <+: names → init ≠ names → Path.isTooLong (Path.below path init) = false

theorem reached_nil (path : Text) : Reached path [] :=
  fun _ hinit hne => absurd (List.prefix_nil.1 hinit) hne

theorem reached_cons {path name : Text} {names : List Text} :
    Reached path (name :: names) ↔
      Path.isTooLong path = false ∧ Reached (Path.join path name) names := by
  constructor
  · intro h
    refine ⟨h [] List.nil_prefix (by simp), fun init hinit hne => ?_⟩
    exact h (name :: init) (List.cons_prefix_cons.2 ⟨rfl, hinit⟩) (by simpa using hne)
  · rintro ⟨hpath, h⟩ init hinit hne
    cases init with
    | nil => exact hpath
    | cons first init =>
      obtain ⟨rfl, hrest⟩ := List.cons_prefix_cons.1 hinit
      exact h init hrest (by simpa using hne)

/-- Either the walk comes down, or it stops at a directory on the way. -/
theorem reached_or_stopped (path : Text) (names : List Text) :
    Reached path names ∨ ∃ init more, names = init ++ more ∧ more ≠ [] ∧ Reached path init ∧
      Path.isTooLong (Path.below path init) = true := by
  induction names generalizing path with
  | nil => exact .inl (reached_nil path)
  | cons name names ih =>
    by_cases hlong : Path.isTooLong path = true
    · exact .inr ⟨[], name :: names, rfl, by simp, reached_nil path, hlong⟩
    have hshort := Bool.eq_false_iff.2 hlong
    rcases ih (Path.join path name) with h | ⟨init, more, rfl, hmore, hinit, hstop⟩
    · exact .inl (reached_cons.2 ⟨hshort, h⟩)
    · exact .inr ⟨name :: init, more, rfl, hmore, reached_cons.2 ⟨hshort, hinit⟩, hstop⟩

theorem gatherEntries_eq (isMatch : Text → Bool) (path : Text)
    (entries : List (Text × FileTree)) :
    gatherEntries isMatch path entries =
      entries.map fun e => (e.1, e.2.gather isMatch (Path.join path e.1)) := by
  induction entries with
  | nil => rfl
  | cons e entries ih =>
    obtain ⟨name, sub⟩ := e
    rw [gatherEntries, ih, List.map_cons]

/-- A directory is taken for a file if its path is too long. -/
theorem gather_of_isTooLong (isMatch : Text → Bool) {path : Text}
    (hlong : Path.isTooLong path = true) (t : FileTree) :
    t.gather isMatch path = [path].filter isMatch := by
  cases t with
  | file contents => rfl
  | dir entries => rw [gather, if_pos hlong]

theorem mem_gather_dir {isMatch : Text → Bool} {path : Text} (hshort : Path.isTooLong path = false)
    {entries : List (Text × FileTree)} {q : Text} :
    q ∈ (dir entries).gather isMatch path ↔
      ∃ e ∈ entries, q ∈ e.2.gather isMatch (Path.join path e.1) := by
  rw [gather, if_neg (Bool.eq_false_iff.1 hshort), gatherEntries_eq]
  simp only [List.mem_flatMap, List.mem_mergeSort, List.mem_map, exists_exists_and_eq_and]

section
variable {t : FileTree} {isMatch : Text → Bool} {path q : Text}

/-- **What the walk gathers**: the matching paths of the files that it reaches, and of the
directories that it reaches but cannot enter. -/
theorem mem_gather_iff (h : t.WellNamed) :
    q ∈ t.gather isMatch path ↔ isMatch q = true ∧ ∃ names sub, t.at? names = some sub ∧
      q = Path.below path names ∧ Reached path names ∧
      (sub.isDir = true → Path.isTooLong q = true) := by
  induction t using walk_induction generalizing path with
  | file contents =>
    simp only [gather, List.mem_filter, List.mem_singleton]
    constructor
    · rintro ⟨rfl, hmatch⟩
      exact ⟨hmatch, [], _, rfl, rfl, reached_nil q, fun hdir => by cases hdir⟩
    · rintro ⟨hmatch, names, sub, hsub, rfl, -, -⟩
      cases names with
      | nil => exact ⟨rfl, hmatch⟩
      | cons name names => cases hsub
  | dir entries ih =>
    by_cases hlong : Path.isTooLong path = true
    · rw [gather_of_isTooLong isMatch hlong, List.mem_filter, List.mem_singleton]
      constructor
      · rintro ⟨rfl, hmatch⟩
        exact ⟨hmatch, [], _, rfl, rfl, reached_nil q, fun _ => hlong⟩
      · rintro ⟨hmatch, names, sub, hsub, rfl, hreached, -⟩
        cases names with
        | nil => exact ⟨rfl, hmatch⟩
        | cons name names =>
          exact absurd hlong (Bool.eq_false_iff.1 (reached_cons.1 hreached).1)
    have hshort := Bool.eq_false_iff.2 hlong
    rw [mem_gather_dir hshort]
    constructor
    · rintro ⟨e, he, hq⟩
      obtain ⟨hmatch, names, sub, hsub, rfl, hreached, hdir⟩ := (ih e he (h.entry he)).1 hq
      refine ⟨hmatch, e.1 :: names, sub, ?_, rfl, reached_cons.2 ⟨hshort, hreached⟩, hdir⟩
      rw [at?_entry (h [] entries rfl).1 he, hsub]
    · rintro ⟨hmatch, names, sub, hsub, rfl, hreached, hdir⟩
      cases names with
      | nil =>
        cases hsub
        exact absurd (hdir rfl) hlong
      | cons name names =>
        obtain ⟨e, he, rfl, hrest⟩ := exists_entry_of_at? hsub
        exact ⟨e, he, (ih e he (h.entry he)).2
          ⟨hmatch, names, sub, hrest, rfl, (reached_cons.1 hreached).2, hdir⟩⟩

theorem components_of_mem_gather (h : t.WellNamed) (hq : q ∈ t.gather isMatch path) :
    ∃ names : List Text, Path.components q = Path.components path ++ names.map .name := by
  obtain ⟨-, names, sub, hsub, rfl, -, -⟩ := (mem_gather_iff h).1 hq
  exact ⟨names, Path.components_below (h.names hsub) path⟩

/-- **The walk goes strictly upwards** in the order of paths. -/
theorem pairwise_gather (h : t.WellNamed) (isMatch : Text → Bool) (path : Text) :
    (t.gather isMatch path).Pairwise Path.Precedes := by
  induction t using walk_induction generalizing path with
  | file contents =>
    rw [gather]
    exact (List.pairwise_singleton _ path).filter isMatch
  | dir entries ih =>
    by_cases hlong : Path.isTooLong path = true
    · rw [gather_of_isTooLong isMatch hlong]
      exact (List.pairwise_singleton _ path).filter isMatch
    rw [gather, if_neg hlong, gatherEntries_eq]
    obtain ⟨hnodup, hnames⟩ := h [] entries rfl
    -- the visited entries, in the order of their names
    let visits := entries.map fun e => (e.1, e.2.gather isMatch (Path.join path e.1))
    have hvisit : ∀ v ∈ visits.mergeSort (fun a b => a.1.le b.1), ∃ e ∈ entries,
        v = (e.1, e.2.gather isMatch (Path.join path e.1)) := by
      intro v hv
      obtain ⟨e, he, rfl⟩ := List.mem_map.1 (List.mem_mergeSort.1 hv)
      exact ⟨e, he, rfl⟩
    have hbelow : ∀ v ∈ visits.mergeSort (fun a b => a.1.le b.1), ∀ q ∈ v.2,
        ∃ names : List Text,
          Path.components q = Path.components path ++ .name v.1 :: names.map .name := by
      intro v hv q hq
      obtain ⟨e, he, rfl⟩ := hvisit v hv
      obtain ⟨names, hcomp⟩ := components_of_mem_gather (h.entry he) hq
      exact ⟨names, by rw [hcomp, Path.components_join (hnames e he), List.append_assoc]; rfl⟩
    have hsorted : (visits.mergeSort fun a b => a.1.le b.1).Pairwise fun a b => a.1.le b.1 := by
      refine List.pairwise_mergeSort ?_ ?_ visits
      · exact fun a b c hab hbc => Text.le_trans hab hbc
      · exact fun a b => Text.le_total a.1 b.1
    have hdistinct : (visits.mergeSort fun a b => a.1.le b.1).Pairwise fun a b => a.1 ≠ b.1 := by
      have hperm := (List.mergeSort_perm visits fun a b => a.1.le b.1).map Prod.fst
      refine List.pairwise_map.1 (hperm.nodup_iff.2 ?_)
      simpa [visits, List.map_map, Function.comp_def] using hnodup
    refine List.pairwise_flatMap.2 ⟨fun v hv => ?_, ?_⟩
    · obtain ⟨e, he, rfl⟩ := hvisit v hv
      exact ih e he (h.entry he) _
    · refine (hsorted.and hdistinct).imp_of_mem fun {a b} ha hb hab p hp q hq => ?_
      obtain ⟨ps, hcompp⟩ := hbelow a ha p hp
      obtain ⟨qs, hcompq⟩ := hbelow b hb q hq
      exact Path.precedes_of_names hab.1 hab.2 hcompp hcompq

/-! ## Matching files -/

/-- The path of a file below, for a tree at a path. -/
def HasFile (t : FileTree) (path q : Text) : Prop :=
  ∃ names contents, t.at? names = some (.file contents) ∧ q = Path.below path names

/-- Where the walk stops at a directory whose path is too long, nothing matches: neither its own
path nor that of a file below it. -/
def HidesNothing (t : FileTree) (isMatch : Text → Bool) (path : Text) : Prop :=
  ∀ names entries, t.at? names = some (.dir entries) → Reached path names →
    Path.isTooLong (Path.below path names) = true →
    isMatch (Path.below path names) = false ∧
      ∀ q, (dir entries).HasFile (Path.below path names) q → isMatch q = false

theorem hidesNothing_file (contents : Option Text) (isMatch : Text → Bool) (path : Text) :
    (file contents).HidesNothing isMatch path := by
  intro names entries h
  cases names <;> cases h

theorem hidesNothing_dir {entries : List (Text × FileTree)} {isMatch : Text → Bool} {path : Text}
    (hshort : Path.isTooLong path = false)
    (h : ∀ e ∈ entries, e.2.HidesNothing isMatch (Path.join path e.1)) :
    (dir entries).HidesNothing isMatch path := by
  intro names inner hinner hreached hlong
  cases names with
  | nil => exact absurd hlong (Bool.eq_false_iff.1 hshort)
  | cons name names =>
    obtain ⟨e, he, rfl, hrest⟩ := exists_entry_of_at? hinner
    exact h e he names inner hrest (reached_cons.1 hreached).2 hlong

/-- The way to a place leads through directories only. -/
theorem exists_dir_of_at?_append {names more : List Text} {sub : FileTree} (hmore : more ≠ [])
    (h : t.at? (names ++ more) = some sub) :
    ∃ entries, t.at? names = some (.dir entries) ∧ (dir entries).at? more = some sub := by
  rw [at?_append] at h
  obtain ⟨here, hhere, hsub⟩ := Option.bind_eq_some_iff.1 h
  cases here with
  | file contents =>
    obtain ⟨name, more, rfl⟩ := List.exists_cons_of_ne_nil hmore
    cases hsub
  | dir entries => exact ⟨entries, hhere, hsub⟩

/-- Where nothing is hidden the walk comes to every matching file: the directory at which it would
stop would hide the file. -/
theorem HidesNothing.reached (hhides : t.HidesNothing isMatch path) {names : List Text}
    {contents : Option Text} (hfile : t.at? names = some (.file contents))
    (hmatch : isMatch (Path.below path names) = true) : Reached path names := by
  rcases reached_or_stopped path names with hreached | ⟨init, more, rfl, hmore, hinit, hlong⟩
  · exact hreached
  · obtain ⟨entries, hdir, hbelow⟩ := exists_dir_of_at?_append hmore hfile
    have hnot := (hhides init entries hdir hinit hlong).2 _ ⟨more, contents, hbelow, rfl⟩
    rw [← Path.below_append, hmatch] at hnot
    cases hnot

/-- **The walk gathers exactly the matching files below** if and only if nothing that matches is
hidden behind a path that is too long. -/
theorem gather_exact_iff (h : t.WellNamed) :
    (∀ q, q ∈ t.gather isMatch path ↔ isMatch q = true ∧ t.HasFile path q) ↔
      t.HidesNothing isMatch path := by
  constructor
  · intro hexact names entries hdir hreached hlong
    constructor
    · -- a directory that cannot be entered would be gathered as a file
      refine Bool.eq_false_iff.2 fun hmatch => ?_
      have hin := (mem_gather_iff h).2 ⟨hmatch, names, _, hdir, rfl, hreached, fun _ => hlong⟩
      obtain ⟨-, names', contents, hfile, heq⟩ := (hexact _).1 hin
      obtain rfl := Path.below_injective (h.names hdir) (h.names hfile) heq
      rw [hdir] at hfile
      cases hfile
    · rintro q ⟨more, contents, hfile, rfl⟩
      refine Bool.eq_false_iff.2 fun hmatch => ?_
      have hall : t.at? (names ++ more) = some (.file contents) := by
        rw [at?_append, hdir]
        exact hfile
      rw [← Path.below_append] at hmatch
      have hin := (hexact _).2 ⟨hmatch, names ++ more, contents, hall, rfl⟩
      obtain ⟨-, names', sub, hsub, heq, hreached', -⟩ := (mem_gather_iff h).1 hin
      obtain rfl := Path.below_injective (h.names hall) (h.names hsub) heq
      have hne : names ≠ names ++ more := by
        intro hself
        rw [← hself, hdir] at hall
        cases hall
      have hshort := hreached' names (List.prefix_append _ _) hne
      rw [hlong] at hshort
      cases hshort
  · intro hhides q
    rw [mem_gather_iff h]
    refine and_congr_right fun hmatch => ?_
    constructor
    · rintro ⟨names, sub, hsub, rfl, hreached, hdir⟩
      cases sub with
      | file contents => exact ⟨names, contents, hsub, rfl⟩
      | dir entries =>
        rw [(hhides names entries hsub hreached (hdir rfl)).1] at hmatch
        cases hmatch
    · rintro ⟨names, contents, hfile, rfl⟩
      exact ⟨names, _, hfile, rfl, hhides.reached hfile hmatch, fun hdir => by cases hdir⟩

end

end ScenarioBook.FileTree
