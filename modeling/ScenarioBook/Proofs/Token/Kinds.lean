import Mathlib.Data.List.Induction
import Mathlib.Data.List.TakeWhile
import ScenarioBook.Document.Builder

/-!
# What a list of tokens tells of the builder

Without a look at the builder, the tokens taken so far tell which section is open
(`Token.sectionAfter`), which tokens came before the heading of the document
(`Token.beforeHeading`), and what the last token is, `table:` lines aside (`Token.endsOn`): such a
line leaves an open step and an open table as they are. A table goes to a step of the context if its
header comes when that section is open and the last token is a step (`Token.TablesContext`).
-/

set_option autoImplicit false

namespace ScenarioBook

/-- The section after a token that is accepted. Before the heading of the document nothing else is
opened. -/
def Section.next (s : Section) (t : Token) : Section :=
  match t.content with
  | .heading .spec _ => .context
  | .heading .scenario _ => if s = .preamble then .preamble else .scenario
  | .tearDown _ => if s = .preamble then .preamble else .tearDown
  | _ => s

namespace Token

/-! ## One token -/

def isStep (t : Token) : Bool :=
  match t.content with
  | .step _ _ _ => true
  | _ => false

def isTearDown (t : Token) : Bool :=
  match t.content with
  | .tearDown _ => true
  | _ => false

def isTags (t : Token) : Bool :=
  match t.content with
  | .tags _ _ => true
  | _ => false

/-- The heading of a document. -/
def isSpecHeading (t : Token) : Bool :=
  match t.content with
  | .heading .spec _ => true
  | _ => false

def isHeader (t : Token) : Bool :=
  match t.content with
  | .tableHeader _ _ => true
  | _ => false

/-- A line of a table, whether or not the table is there. -/
def isTableLine (t : Token) : Bool :=
  match t.content with
  | .tableHeader _ _ | .tableRow _ _ => true
  | _ => false

/-- A `table:` line. -/
def isReference (t : Token) : Bool :=
  match t.content with
  | .dataTable _ => true
  | _ => false

/-! ## The heading of the document -/

/-- The tokens before the heading of the document. -/
def beforeHeading (tokens : List Token) : List Token := tokens.takeWhile (!·.isSpecHeading)

/-- The tokens from the heading of the document on. -/
def afterHeading (tokens : List Token) : List Token := tokens.dropWhile (!·.isSpecHeading)

/-- The section that is open behind the tokens. -/
def sectionAfter (tokens : List Token) : Section := tokens.foldl Section.next .preamble

section
variable {seen : List Token} {t : Token}

theorem beforeHeading_eq_self (h : ∀ t ∈ seen, t.isSpecHeading = false) :
    beforeHeading seen = seen :=
  List.takeWhile_eq_self_iff.2 fun t ht => by rw [h t ht]; rfl

theorem mem_beforeHeading_append (h : t ∈ beforeHeading seen) (more : List Token) :
    t ∈ beforeHeading (seen ++ more) := by
  induction seen with
  | nil => cases h
  | cons s seen ih =>
    simp only [beforeHeading, List.cons_append, List.takeWhile_cons] at h ih ⊢
    split at h
    case isFalse => cases h
    case isTrue hs =>
      rw [if_pos hs]
      rcases List.mem_cons.1 h with rfl | h
      · exact List.mem_cons_self
      · exact List.mem_cons_of_mem _ (ih h)

theorem mem_beforeHeading_concat (h : ∀ t ∈ seen, t.isSpecHeading = false)
    (ht : t.isSpecHeading = false) : t ∈ beforeHeading (seen ++ [t]) := by
  rw [beforeHeading_eq_self (List.forall_mem_append.2 ⟨h, by simpa using ht⟩)]
  simp

theorem afterHeading_singleton :
    afterHeading [t] = if t.isSpecHeading = true then [t] else [] := by
  cases h : t.isSpecHeading <;> simp [afterHeading, h]

theorem afterHeading_concat :
    afterHeading (seen ++ [t]) =
      if afterHeading seen = [] then afterHeading [t] else afterHeading seen ++ [t] := by
  unfold afterHeading
  rw [List.dropWhile_append]
  simp only [List.isEmpty_iff]

theorem sectionAfter_concat : sectionAfter (seen ++ [t]) = (sectionAfter seen).next t := by
  rw [sectionAfter, List.foldl_append]
  rfl

theorem next_eq_preamble_iff (s : Section) :
    s.next t = .preamble ↔ s = .preamble ∧ t.isSpecHeading = false := by
  unfold Section.next isSpecHeading
  split <;> cases s <;> simp_all

/-- The preamble ends with the heading. -/
theorem sectionAfter_eq_preamble_iff : sectionAfter seen = .preamble ↔ afterHeading seen = [] := by
  induction seen using List.reverseRecOn with
  | nil => exact ⟨fun _ => rfl, fun _ => rfl⟩
  | append_singleton seen t ih =>
    rw [sectionAfter_concat, next_eq_preamble_iff, ih, afterHeading_concat]
    by_cases h : afterHeading seen = []
    · rw [if_pos h, afterHeading_singleton]
      cases t.isSpecHeading <;> simp [h]
    · rw [if_neg h]
      simp [h]

end

/-! ## The last token -/

/-- The last token, `table:` lines aside, is one of these. -/
def endsOn (p : Token → Bool) (tokens : List Token) : Bool :=
  tokens.foldl (fun held t => p t || (held && t.isReference)) false

/-- A table begins below a step of the context. -/
def TablesContext (tokens : List Token) : Prop :=
  ∃ i : Fin tokens.length, tokens[i].isHeader = true ∧
    sectionAfter (tokens.take i) = .context ∧ endsOn isStep (tokens.take i) = true

instance (tokens : List Token) : Decidable (TablesContext tokens) :=
  inferInstanceAs (Decidable (∃ _, _))

section
variable {p : Token → Bool} {seen : List Token} {t : Token}

theorem endsOn_concat (p : Token → Bool) (seen : List Token) (t : Token) :
    endsOn p (seen ++ [t]) = (p t || (endsOn p seen && t.isReference)) := by
  rw [endsOn, List.foldl_append]
  rfl

theorem endsOn_concat_of (ht : p t = true) : endsOn p (seen ++ [t]) = true := by
  rw [endsOn_concat, ht, Bool.true_or]

theorem endsOn_concat_reference (h : endsOn p seen = true) (ht : t.isReference = true) :
    endsOn p (seen ++ [t]) = true := by
  rw [endsOn_concat, h, ht, Bool.true_and, Bool.or_true]

theorem TablesContext.append (h : TablesContext seen) (more : List Token) :
    TablesContext (seen ++ more) := by
  obtain ⟨i, hheader, hcontext, hstep⟩ := h
  have htake : (seen ++ more).take i = seen.take i :=
    List.take_append_of_le_length i.isLt.le
  refine ⟨⟨i, i.isLt.trans_le (by simp)⟩, ?_, htake.symm ▸ hcontext, htake.symm ▸ hstep⟩
  rwa [Fin.getElem_fin, List.getElem_append_left i.isLt]

theorem tablesContext_concat (ht : t.isHeader = true) (hcontext : sectionAfter seen = .context)
    (hstep : endsOn isStep seen = true) : TablesContext (seen ++ [t]) := by
  refine ⟨⟨seen.length, by simp⟩, ?_, ?_, ?_⟩
  · rwa [Fin.getElem_fin, List.getElem_concat_length rfl]
  · rwa [List.take_left]
  · rwa [List.take_left]

end

end Token

end ScenarioBook
