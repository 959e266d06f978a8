import Mathlib.Data.List.Dedup
import Mathlib.Data.List.Induction
import ScenarioBook.Csv
import ScenarioBook.Proofs.Table.RowList

/-!
# Columns of comma-separated values

The first record of a text names the columns, and each other record is a row, laid out from left to
right (`getElem?_foldl_addRowValues`). Names are merged when they repeat and fields are not, so the
column of a name that the first record has once holds, in each row, the field whose position is the
number of distinct names before it (`toTable_get`). That is the position of the name if and only if
the names before it are distinct.
-/

set_option autoImplicit false

namespace ScenarioBook

/-! ## First occurrences -/

theorem nodup_eraseDups (l : List Text) : l.eraseDups.Nodup := by
  induction l using List.reverseRecOn with
  | nil => exact List.nodup_nil
  | append_singleton l a ih =>
    rw [List.eraseDups_append]
    by_cases ha : a ∈ l
    · simpa [List.removeAll, ha] using ih
    · have hlast : ([a].removeAll l).eraseDups = [a] := by
        simp [List.removeAll, ha, List.eraseDups_cons]
      rw [hlast]
      exact ih.append (List.nodup_singleton a) (List.disjoint_singleton.2 (by simpa using ha))

theorem length_eraseDups (l : List Text) : l.eraseDups.length = l.dedup.length :=
  ((List.perm_ext_iff_of_nodup (nodup_eraseDups l) l.nodup_dedup).2 (by simp)).length_eq

/-- What comes up first after `before` stands behind the distinct elements there. -/
theorem getElem?_eraseDups_append {before : List Text} {a : Text} (hnew : a ∉ before)
    (after : List Text) :
    (before ++ a :: after).eraseDups[before.dedup.length]? = some a := by
  have hkept : (a :: after).removeAll before = a :: after.removeAll before := by
    simp [List.removeAll, hnew]
  rw [List.eraseDups_append, ← length_eraseDups, List.getElem?_append_right (Nat.le_refl _),
    Nat.sub_self, hkept, List.eraseDups_cons]
  rfl

/-- What a list has once does not stand before its place. -/
theorem not_mem_take_of_count {l : List Text} {i : Nat} {a : Text} (hi : l[i]? = some a)
    (hone : l.count a = 1) : a ∉ l.take i ∧ l = l.take i ++ a :: l.drop (i + 1) := by
  obtain ⟨hlt, rfl⟩ := List.getElem?_eq_some_iff.1 hi
  have hsplit : l = l.take i ++ l[i] :: l.drop (i + 1) := by
    rw [List.getElem_cons_drop, List.take_append_drop]
  refine ⟨fun hbefore => ?_, hsplit⟩
  have hpos := List.count_pos_iff.2 hbefore
  have hcount := congrArg (List.count l[i]) hsplit
  rw [hone, List.count_append, List.count_cons_self] at hcount
  omega

/-- As many elements as distinct elements. -/
theorem length_dedup_take_eq_iff {l : List Text} {i : Nat} (hi : i ≤ l.length) :
    (l.take i).dedup.length = i ↔ (l.take i).Nodup := by
  have hlen : (l.take i).length = i := List.length_take_of_le hi
  constructor
  · intro h
    exact List.dedup_eq_self.1 ((List.dedup_sublist _).eq_of_length (h.trans hlen.symm))
  · intro h
    rw [List.dedup_eq_self.2 h, hlen]

/-! ## Records -/

namespace Csv

/-- A record has fields, and all of them are trimmed. -/
def Tidy (record : List Text) : Prop := record ≠ [] ∧ ∀ field ∈ record, field.Tight

namespace Reader

/-- What is read so far is tidy. -/
structure TidySoFar (r : Reader) : Prop where
  records : ∀ record ∈ r.records, Tidy record
  fields : ∀ field ∈ r.fields, field.Tight

variable {r : Reader}

theorem TidySoFar.endField (h : r.TidySoFar) : r.endField.TidySoFar :=
  ⟨h.records, List.forall_mem_append.2 ⟨h.fields, by simp [Text.tight_trim]⟩⟩

theorem TidySoFar.endRecord (h : r.TidySoFar) : r.endRecord.TidySoFar := by
  have hne : r.endField.fields ≠ [] := by simp [Reader.endField]
  refine ⟨List.forall_mem_append.2 ⟨h.records, ?_⟩, by simp [Reader.endRecord]⟩
  rintro record hrecord
  rw [List.mem_singleton.1 hrecord]
  exact ⟨hne, h.endField.fields⟩

theorem TidySoFar.plain (h : r.TidySoFar) (c : Char) : (r.plain c).TidySoFar := by
  unfold Reader.plain
  split
  · exact h.endField
  · split
    · exact h.endRecord
    · exact ⟨h.records, h.fields⟩

theorem TidySoFar.first (h : r.TidySoFar) (c : Char) : (r.first c).TidySoFar := by
  unfold Reader.first
  split
  · exact ⟨h.records, h.fields⟩
  · exact h.plain c

theorem TidySoFar.read (h : r.TidySoFar) (c : Char) : (r.read c).TidySoFar := by
  unfold Reader.read
  repeat' split
  case h_1.isTrue => exact h
  case h_1.isFalse => exact h.first c
  case h_2 => exact h.first c
  case h_3 => exact h.plain c
  case h_4.isTrue => exact ⟨h.records, h.fields⟩
  case h_4.isFalse => exact ⟨h.records, h.fields⟩
  case h_5.isTrue => exact ⟨h.records, h.fields⟩
  case h_5.isFalse => exact h.plain c

theorem TidySoFar.foldl (h : r.TidySoFar) (t : Text) : (t.foldl Reader.read r).TidySoFar := by
  induction t generalizing r with
  | nil => exact h
  | cons c t ih => exact ih (h.read c)

end Reader

/-- **Every record is tidy.** -/
theorem tidy_of_mem_records {text : Text} {record : List Text} (h : record ∈ records text) :
    Tidy record := by
  have hread := Reader.TidySoFar.foldl (r := .start)
    ⟨by simp [Reader.start], by simp [Reader.start]⟩ (dropMark text)
  unfold records Reader.finish at h
  split at h
  · exact hread.records record h
  · exact hread.endRecord.records record h

end Csv

/-! ## Rows laid out by position -/

namespace Table

theorem getElem?_pushCells (columns : List Column) (row : List Cell) (k : Nat) :
    (pushCells columns row)[k]? =
      columns[k]?.map fun col => { col with cells := col.cells ++ [row.getD k .empty] } := by
  fun_induction pushCells columns row generalizing k with
  | case1 => simp
  | case2 col cols row ih =>
    cases k with
    | zero => cases row <;> rfl
    | succ k =>
      have htail : row.tail.getD k Cell.empty = row.getD (k + 1) .empty := by cases row <;> rfl
      rw [List.getElem?_cons_succ, ih, htail, List.getElem?_cons_succ]

/-- The field of a row at a position, or an empty cell. -/
def fieldCell (k : Nat) (values : List Text) : Cell := .literal (values.getD k [])

theorem getElem?_addRowValues (t : Table) {values : List Text} (hv : ∀ v ∈ values, v.Tight)
    (k : Nat) : (t.addRowValues values).columns[k]? =
      t.columns[k]?.map fun col => { col with cells := col.cells ++ [fieldCell k values] } := by
  have hcell : (values.map fun v => Cell.literal v.trim).getD k .empty = fieldCell k values := by
    simp only [fieldCell, List.getD_eq_getElem?_getD, List.getElem?_map]
    cases hk : values[k]? with
    | none => rfl
    | some v =>
      have ht := Text.trim_eq_self_iff.2 (hv v (List.mem_of_getElem? hk))
      rw [Option.map_some, Option.getD_some, Option.getD_some, ht]
  rw [addRowValues, addRow, getElem?_pushCells, hcell]

/-- **Each column gets the fields at its own position.** -/
theorem getElem?_foldl_addRowValues {rows : List (List Text)}
    (hv : ∀ row ∈ rows, ∀ v ∈ row, v.Tight) (t : Table) (k : Nat) :
    (rows.foldl addRowValues t).columns[k]? =
      t.columns[k]?.map fun col => { col with cells := col.cells ++ rows.map (fieldCell k) } := by
  induction rows generalizing t with
  | nil => simp
  | cons row rows ih =>
    obtain ⟨hrow, hrows⟩ := List.forall_mem_cons.1 hv
    rw [List.foldl_cons, ih hrows, getElem?_addRowValues t hrow, Option.map_map]
    simp [Function.comp_def]

/-- A column is found by its header. -/
theorem get_of_getElem? {t : Table} (hd : t.headers.Nodup) {k : Nat} {col : Column}
    (h : t.columns[k]? = some col) : t.get col.header = .ok col.cells := by
  obtain ⟨hlt, rfl⟩ := List.getElem?_eq_some_iff.1 h
  have hfind : t.columns.find? (·.header == t.columns[k].header) = some t.columns[k] := by
    refine List.find?_eq_some_iff_getElem.2 ⟨by simp, k, hlt, rfl, fun j hj => ?_⟩
    have hne := List.pairwise_iff_getElem.1 hd j k (by simp [headers]; omega)
      (by simpa [headers] using hlt) hj
    simpa [headers] using hne
  rw [get, hfind]

/-- Headers are added without rows. -/
theorem rowCount_addHeaders (t : Table) (headers : List Text) :
    (t.addHeaders headers).rowCount = t.rowCount := by
  induction headers generalizing t with
  | nil => rfl
  | cons header headers ih =>
    rw [addHeaders, List.foldl_cons, ← addHeaders, ih, ← length_rows, ← toRowList_rows,
      toRowList_addHeader, RowList.addHeader]
    split <;> simp [length_rows]

/-- The columns of a table without rows. -/
theorem getElem?_addHeaders_empty (n : Nat) {names : List Text} (ht : ∀ name ∈ names, name.Tight)
    {k : Nat} {name : Text} (hk : names.eraseDups[k]? = some name) :
    ((empty n).addHeaders names).columns[k]? = some ⟨name, []⟩ := by
  have hnamed : ((empty n).addHeaders names).headers = names.eraseDups := by
    have htrim : names.map Text.trim = names :=
      (List.map_congr_left fun name hname => Text.trim_eq_self_iff.2 (ht name hname)).trans
        (List.map_id _)
    have hstart : (empty n).NamedBy [] := rfl
    have := hstart.addHeaders names
    rwa [List.nil_append, htrim] at this
  rw [← hnamed, headers, List.getElem?_map, Option.map_eq_some_iff] at hk
  obtain ⟨col, hcol, rfl⟩ := hk
  have hreg := (Built.empty n).regular.addHeaders names
  have hlen := hreg.filled col (List.mem_of_getElem? hcol)
  rw [rowCount_addHeaders] at hlen
  have hcells : col.cells = [] := List.eq_nil_of_length_eq_zero hlen
  rw [hcol, ← hcells]

theorem Regular.foldl_addRowValues {t : Table} (h : t.Regular) (rows : List (List Text)) :
    (rows.foldl addRowValues t).Regular := by
  induction rows generalizing t with
  | nil => exact h
  | cons row rows ih => exact ih (h.addRow _)

end Table

namespace Csv

section
variable {text : Text} {names : List Text} {rows : List (List Text)}

theorem toTable_eq (h : records text = names :: rows) :
    toTable text = rows.foldl Table.addRowValues ((Table.empty 0).addHeaders names) := by
  rw [toTable, h]

theorem regular_toTable (h : records text = names :: rows) : (toTable text).Regular := by
  rw [toTable_eq h]
  exact ((Table.Built.empty 0).regular.addHeaders names).foldl_addRowValues rows

/-- The columns are those of the distinct names, and each holds the fields at its own position. -/
theorem getElem?_toTable (h : records text = names :: rows) {k : Nat} {name : Text}
    (hk : names.eraseDups[k]? = some name) :
    (toTable text).columns[k]? = some ⟨name, rows.map (Table.fieldCell k)⟩ := by
  have htidy : ∀ record ∈ names :: rows, Tidy record := fun record hrecord =>
    tidy_of_mem_records (h ▸ hrecord)
  obtain ⟨hnames, hrows⟩ := List.forall_mem_cons.1 htidy
  rw [toTable_eq h, Table.getElem?_foldl_addRowValues fun row hrow => (hrows row hrow).2,
    Table.getElem?_addHeaders_empty 0 hnames.2 hk]
  rfl

theorem rowCount_toTable (text : Text) : (toTable text).rowCount = (records text).tail.length := by
  cases h : records text with
  | nil => rw [toTable, h]; rfl
  | cons names rows =>
    obtain ⟨first, others, rfl⟩ := List.exists_cons_of_ne_nil
      (tidy_of_mem_records (h ▸ List.mem_cons_self)).1
    have hcol := getElem?_toTable h (k := 0) (by rw [List.eraseDups_cons]; rfl)
    simpa using ((regular_toTable h).filled _ (List.mem_of_getElem? hcol)).symm

/-- **What the table of a text holds.** It has a row for each record behind the first one. The
column of a name that the first record has once, in place `j`, holds in each row the field at the
number of distinct names before it. That is the place `j` exactly if these names are distinct. -/
theorem toTable_get (text : Text) :
    (toTable text).rowCount = (records text).tail.length ∧
      ∀ names rows, records text = names :: rows →
        ∀ j name, names[j]? = some name → names.count name = 1 →
          let place := (names.take j).dedup.length
          (toTable text).get name = .ok (rows.map (Table.fieldCell place)) ∧
          (place = j ↔ (names.take j).Nodup) := by
  refine ⟨rowCount_toTable text, fun names rows h j name hj hone => ?_⟩
  obtain ⟨hnew, hsplit⟩ := not_mem_take_of_count hj hone
  have hplace : names.eraseDups[(names.take j).dedup.length]? = some name := by
    have := getElem?_eraseDups_append hnew (names.drop (j + 1))
    rwa [← hsplit] at this
  refine ⟨Table.get_of_getElem? (regular_toTable h).distinct (getElem?_toTable h hplace), ?_⟩
  exact length_dedup_take_eq_iff (Nat.le_of_lt (List.getElem?_eq_some_iff.1 hj).1)

end

/-! ## A header that repeats a name -/

/-- A short record, a long one, and a name that comes twice behind the other two. -/
def guests : Text := "name, table ,note,note\nAlice\n\"Bob, B.\",2,late,,more\n".toList

theorem toTable_get_guests :
    ∃ rows, records guests =
        ["name".toList, "table".toList, "note".toList, "note".toList] :: rows ∧
      (toTable guests).rowCount = 2 ∧
      (toTable guests).get "table".toList = .ok [.literal [], .literal "2".toList] := by
  have hrecords : records guests = ["name".toList, "table".toList, "note".toList, "note".toList] ::
      [["Alice".toList], ["Bob, B.".toList, "2".toList, "late".toList, [], "more".toList]] := by
    decide
  obtain ⟨hcount, hget⟩ := toTable_get guests
  exact ⟨_, hrecords, by rw [hcount, hrecords]; rfl,
    (hget _ _ hrecords 1 "table".toList rfl (by decide)).1⟩

/-- **A repeated name moves the columns behind it.** The third name comes once, but its column holds
the second field. -/
theorem not_toTable_get_by_position :
    ¬ ∀ (text : Text) (names : List Text) (rows : List (List Text)),
      records text = names :: rows → ∀ j name, names[j]? = some name → names.count name = 1 →
        (toTable text).get name = .ok (rows.map (Table.fieldCell j)) := by
  intro h
  have hget := h "a,a,b\n1,2,3\n".toList [['a'], ['a'], ['b']] [[['1'], ['2'], ['3']]] (by decide)
    2 ['b'] rfl (by decide)
  exact absurd hget (by decide)

end Csv

end ScenarioBook
