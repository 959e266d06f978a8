import Mathlib.Data.List.Dedup
import ScenarioBook.Proofs.Concept.Titled
import ScenarioBook.Proofs.Dictionary.Expansion
import ScenarioBook.Proofs.Frame.Bound

/-!
# Which argument a formal parameter gets

A call binds arguments to the slots of the concept's frame by position (`Frame.get_bind`). The frame
has one slot for each distinct name of the heading, in the order in which the names come up first
(`Frame.names_ofNames_append`). So the slot of a parameter is the number of distinct names before it
in the heading. That is its position there if, and only if, the names before it are distinct
(`Dictionary.frame_of_parse`): a name that is repeated moves every later parameter to an earlier
argument (`Dictionary.not_bound_by_position`).
-/

set_option autoImplicit false

namespace ScenarioBook

namespace Frame

/-! ## The slots of a frame -/

theorem names_setSlot (f : Frame) (name : Text) (arg : Option Arg) :
    (f.setSlot name arg).names = f.names := by
  rw [names, names, setSlot, List.map_map]
  refine List.map_congr_left fun slot _ => ?_
  rw [Function.comp_apply]
  split <;> rfl

/-- A name gets a slot of its own when it comes up first. -/
theorem names_declare (f : Frame) (name : Text) :
    (f.declare name).names = if name ∈ f.names then f.names else f.names ++ [name] := by
  have hdecl : f.declares name = true ↔ name ∈ f.names := by simp [declares]
  unfold declare
  by_cases h : name ∈ f.names
  · rw [if_pos (hdecl.2 h), if_pos h, names_setSlot]
  · rw [if_neg (mt hdecl.1 h), if_neg h]
    simp [names]

theorem mem_names_foldl_declare (f : Frame) (names : List Text) {name : Text} :
    name ∈ (names.foldl declare f).names ↔ name ∈ f.names ∨ name ∈ names := by
  induction names generalizing f with
  | nil => simp
  | cons n names ih =>
    rw [List.foldl_cons, ih, names_declare, List.mem_cons, ← or_assoc]
    split
    case isTrue hn => exact ⟨.imp_left .inl, .imp_left fun h => h.elim id (· ▸ hn)⟩
    case isFalse => rw [List.mem_append, List.mem_singleton]

/-- Declaring more names leaves the slots that are there in front. -/
theorem prefix_names_foldl_declare (f : Frame) (names : List Text) :
    f.names <+: (names.foldl declare f).names := by
  induction names generalizing f with
  | nil => exact List.prefix_rfl
  | cons n names ih =>
    refine List.IsPrefix.trans ?_ (ih (f.declare n))
    rw [names_declare]
    split
    · exact List.prefix_rfl
    · exact List.prefix_append _ _

theorem nodup_names_foldl_declare {f : Frame} (hf : f.names.Nodup) (names : List Text) :
    (names.foldl declare f).names.Nodup := by
  induction names generalizing f with
  | nil => exact hf
  | cons n names ih =>
    refine ih ?_
    rw [names_declare]
    split
    case isTrue => exact hf
    case isFalse hn =>
      exact hf.append (List.nodup_singleton n) (List.disjoint_singleton.2 hn)

theorem nodup_names_ofNames (names : List Text) : (ofNames names).names.Nodup :=
  nodup_names_foldl_declare (f := empty) List.nodup_nil names

/-- There are as many slots as distinct names. -/
theorem length_names_ofNames (names : List Text) :
    (ofNames names).names.length = names.dedup.length := by
  refine List.Perm.length_eq ((List.perm_ext_iff_of_nodup (nodup_names_ofNames names)
    (List.nodup_dedup names)).2 fun name => ?_)
  rw [ofNames, mem_names_foldl_declare, List.mem_dedup]
  simp [empty, Frame.names]

/-- **The slot of a name** that comes up first after `before` is the number of distinct names
there. -/
theorem names_ofNames_append {before after : List Text} {name : Text} (hnew : name ∉ before) :
    (ofNames (before ++ name :: after)).names[before.dedup.length]? = some name := by
  have hslot : ((ofNames before).declare name).names = (ofNames before).names ++ [name] := by
    rw [names_declare, if_neg]
    rw [ofNames, mem_names_foldl_declare]
    simpa [empty, Frame.names] using hnew
  obtain ⟨more, hmore⟩ := prefix_names_foldl_declare ((ofNames before).declare name) after
  have hall : (ofNames (before ++ name :: after)).names =
      (ofNames before).names ++ name :: more := by
    rw [ofNames, List.foldl_append, List.foldl_cons, ← ofNames, ← hmore, hslot, List.append_assoc]
    rfl
  rw [hall, ← length_names_ofNames, List.getElem?_append_right (Nat.le_refl _), Nat.sub_self]
  rfl

/-! ## Arguments in slots -/

theorem find?_fill {slots : List (Text × Option Arg)} {args : List Arg} {i : Nat} {name : Text}
    {arg : Arg} (hnd : (slots.map (·.1)).Nodup) (hn : (slots.map (·.1))[i]? = some name)
    (ha : args[i]? = some arg) :
    (fill slots args).find? (·.1 == name) = some (name, some arg) := by
  fun_induction fill slots args generalizing i with
  | case1 declared old slots first args ih =>
    obtain ⟨hnew, hnd⟩ := List.nodup_cons.1 hnd
    cases i with
    | zero =>
      obtain rfl : declared = name := by simpa using hn
      obtain rfl : first = arg := by simpa using ha
      simp
    | succ i =>
      have hn : (slots.map (·.1))[i]? = some name := by simpa using hn
      have hne : declared ≠ name := fun heq => hnew (heq ▸ List.mem_of_getElem? hn)
      rw [List.find?_cons_of_neg (by simpa using hne)]
      exact ih hnd hn (by simpa using ha)
  | case2 slots args hne =>
    cases slots with
    | nil => simp at hn
    | cons slot slots =>
      cases args with
      | nil => simp at ha
      | cons first args => exact absurd rfl (hne slot.1 slot.2 slots first args rfl)

/-- **Arguments go to slots by position.** -/
theorem get_bind {f : Frame} {args : List Arg} {i : Nat} {name : Text} {arg : Arg}
    (hnd : f.names.Nodup) (hn : f.names[i]? = some name) (ha : args[i]? = some arg) :
    (f.bind args).get name = .ok arg := by
  rw [get, slot?, bind, find?_fill hnd hn ha]
  rfl

end Frame

/-- The names of the formal parameters as they are written in the heading, repeated ones
included. -/
def Concept.parameters (c : Concept) : List Text :=
  c.heading.args.filterMap fun
    | .dynamic name => some name
    | _ => none

theorem Concept.Titled.parameters_eq {c : Concept} {scanned : StepText.Scanned}
    (h : c.Titled scanned) : c.parameters = scanned.args.map (·.text) := by
  rw [parameters, h.args, List.filterMap_map]
  exact congrFun (List.filterMap_eq_map (f := RawArg.text)) scanned.args

/-- The frame of a titled concept has the names of the heading. -/
theorem Concept.Titled.formals_eq {c : Concept} {scanned : StepText.Scanned}
    (h : c.Titled scanned) : c.formals = .ofNames c.parameters := by
  rw [h.formals, h.parameters_eq]

namespace Dictionary

section
variable {source fileName : Text} {files : FileSource} {parsed : Parsed (List Concept)}
  {c : Concept} {history : List (List Concept)} {id : Nat} {t : StepTree} {i : Nat} {name : Text}

/-- A step whose value is the signature of a concept is made a call of it, with the arguments of the
step in the slots of the concept. -/
theorem frame_expand (hid : (after history).concepts[id]? = some c)
    (hcall : t.step.value = c.signature) :
    (after history).expand t = (after history).expandStep id t ∧
      ((after history).expandStep id t).frame = c.formals.bind t.step.args := by
  have h := aligned_after history
  have hfound : (after history).idOf? t.step.value = some id :=
    h.idOf?_eq_some_iff.2 ⟨c, hid, hcall.symm⟩
  obtain ⟨c', body, hc', htree, -⟩ :=
    (h.expandStep_unfolds (List.getElem?_eq_some_iff.1 hid).1 t).expanded h
  obtain rfl : c = c' := Option.some.inj (hid.symm.trans hc')
  exact ⟨by simp only [expand, hfound], by rw [htree]; rfl⟩

/-- **A parameter gets the argument at the number of distinct names before it.** Take a concept of
an accepted source that is in the dictionary, a name that its heading has just once, in place `i`,
and a step that calls the concept with more than `i` arguments. The call binds the name to the
argument whose place is the number of distinct names before it in the heading. That is the place `i`
exactly if these names are distinct. -/
theorem frame_of_parse (h : Concept.parse source fileName files = .ok parsed)
    (hmem : c ∈ parsed.document) (hid : (after history).concepts[id]? = some c)
    (hcall : t.step.value = c.signature) (hi : c.parameters[i]? = some name)
    (honce : c.parameters.count name = 1) (hlen : i < t.step.args.length) :
    let place := (c.parameters.take i).dedup.length
    (after history).expand t = (after history).expandStep id t ∧
    (∃ arg, t.step.args[place]? = some arg ∧
      ((after history).expandStep id t).frame.get name = .ok arg) ∧
    (place = i ↔ (c.parameters.take i).Nodup) := by
  intro place
  obtain ⟨hexpand, hframe⟩ := frame_expand hid hcall
  obtain ⟨scanned, htitled⟩ := Concept.titled_of_parse h c hmem
  obtain ⟨hilt, hget⟩ := List.getElem?_eq_some_iff.1 hi
  have hsplit : c.parameters = c.parameters.take i ++ name :: c.parameters.drop (i + 1) := by
    rw [← hget, List.getElem_cons_drop, List.take_append_drop]
  have hnew : name ∉ c.parameters.take i := by
    intro hbefore
    have hpos := List.count_pos_iff.2 hbefore
    rw [hsplit, List.count_append, List.count_cons_self] at honce
    omega
  have htake : (c.parameters.take i).length = i := List.length_take_of_le (Nat.le_of_lt hilt)
  have hle : place ≤ i := htake ▸ (List.dedup_sublist _).length_le
  have harg : t.step.args[place]? = some (t.step.args[place]) :=
    List.getElem?_eq_getElem (Nat.lt_of_le_of_lt hle hlen)
  refine ⟨hexpand, ⟨_, harg, ?_⟩, fun heq => ?_, fun hnd => ?_⟩
  · rw [hframe, htitled.formals_eq]
    refine Frame.get_bind (Frame.nodup_names_ofNames _) ?_ harg
    rw [hsplit]
    exact Frame.names_ofNames_append hnew
  · exact List.dedup_eq_self.1 ((List.dedup_sublist _).eq_of_length (heq.trans htake.symm))
  · rw [← htake, ← List.dedup_eq_self.2 hnd]

end

/-! ## A heading that repeats a name -/

/-- The source of a concept with four parameters, two of them with the same name. -/
def copySource : Text := "# copy <from> <to> <from> <mode>\n* write <mode>\n".toList

def copy : Concept where
  fileName := "files.cpt".toList
  heading := ⟨1, "copy \x7b\x7d \x7b\x7d \x7b\x7d \x7b\x7d".toList,
    "copy <from> <to> <from> <mode>".toList,
    ["from", "to", "from", "mode"].map (.dynamic ·.toList), false⟩
  formals := .ofNames (["from", "to", "mode"].map String.toList)
  items := [.step ⟨2, "write \x7b\x7d".toList, "write <mode>".toList,
    [.dynamic "mode".toList], false⟩]
  preComments := []

/-- A call of it with four literals. -/
def copyCall : StepTree :=
  .ofStep ⟨1, copy.signature, [], ["a", "b", "c", "d"].map (.literal ·.toList), false⟩

theorem parse_copySource :
    ∃ parsed, Concept.parse copySource "files.cpt".toList ⟨fun _ => none⟩ = .ok parsed ∧
      parsed.document = [copy] := by
  have hok : (Concept.parse copySource "files.cpt".toList ⟨fun _ => none⟩).toOption.map
      (·.document) = some [copy] := by decide +kernel
  exact exists_ok_of_map hok

/-- The name in the second place comes before the repetition and gets the second argument. -/
theorem frame_of_parse_copy :
    ∃ parsed, Concept.parse copySource "files.cpt".toList ⟨fun _ => none⟩ = .ok parsed ∧
      copy ∈ parsed.document ∧ (after [[copy]]).concepts[0]? = some copy ∧
      copyCall.step.value = copy.signature ∧ copy.parameters[1]? = some "to".toList ∧
      copy.parameters.count "to".toList = 1 ∧ 1 < copyCall.step.args.length ∧
      ∃ arg, copyCall.step.args[1]? = some arg ∧
        ((after [[copy]]).expandStep 0 copyCall).frame.get "to".toList = .ok arg := by
  obtain ⟨parsed, hparse, hdoc⟩ := parse_copySource
  have hmem : copy ∈ parsed.document := hdoc ▸ List.mem_singleton_self copy
  have hid : (after [[copy]]).concepts[0]? = some copy := by cbv
  have hi : copy.parameters[1]? = some "to".toList := by decide
  have honce : copy.parameters.count "to".toList = 1 := by decide
  have hlen : 1 < copyCall.step.args.length := by decide
  have h := frame_of_parse hparse hmem hid rfl hi honce hlen
  exact ⟨parsed, hparse, hmem, hid, rfl, hi, honce, hlen, h.2.1⟩

/-- **Arguments are not bound by written position.** The fourth parameter comes once, and the call
has four arguments, but the name stands for the third of them. -/
theorem not_bound_by_position :
    ∃ parsed, Concept.parse copySource "files.cpt".toList ⟨fun _ => none⟩ = .ok parsed ∧
      copy ∈ parsed.document ∧ (after [[copy]]).concepts[0]? = some copy ∧
      copyCall.step.value = copy.signature ∧ copy.parameters[3]? = some "mode".toList ∧
      copy.parameters.count "mode".toList = 1 ∧
      copyCall.step.args[3]? = some (.literal "d".toList) ∧
      ((after [[copy]]).expandStep 0 copyCall).frame.get "mode".toList =
        .ok (.literal "c".toList) := by
  obtain ⟨parsed, hparse, hdoc⟩ := parse_copySource
  exact ⟨parsed, hparse, hdoc ▸ List.mem_singleton_self copy, by cbv, rfl, by decide, by decide,
    rfl, by cbv⟩

end Dictionary

end ScenarioBook
