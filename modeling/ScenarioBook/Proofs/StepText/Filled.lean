import ScenarioBook.Proofs.StepText.Placeholders

/-!
# Filling placeholders

`fill v items` is the value `v`, letter by letter, with the items in the place of its placeholders.
A value can be filled part by part, where no placeholder reaches from one part into the next
(`fill_append`). Whatever is written for the fragments of a value and its arguments, text by its
characters, is what is written for the letters (`flatMap_weave`), and it has no blank at its ends if
the value has none (`tight_flatMap_fill`).
-/

set_option autoImplicit false

namespace ScenarioBook

section
variable {α β : Type}

/-- The letters of a value, with an item in the place of each placeholder as long as there are
items. -/
def fill : Text → List α → List (Char ⊕ α)
  | [], _ => []
  | '{' :: '}' :: r, x :: items => .inr x :: fill r items
  | c :: r, items => .inl c :: fill r items

theorem fill_placeholder_append (r : Text) (x : α) (items : List α) :
    fill (placeholder ++ r) (x :: items) = .inr x :: fill r items := by
  rw [placeholder, List.cons_append, List.cons_append, List.nil_append, fill]

theorem fill_cons {c : Char} {r : Text} (h : ∀ r', c = '{' → r = '}' :: r' → False)
    (items : List α) : fill (c :: r) items = .inl c :: fill r items := by
  rw [fill]
  exact fun r' _ _ _ hc hr => h r' hc hr

theorem fill_nil (v : Text) : fill v ([] : List α) = v.map .inl := by
  induction v with
  | nil => rfl
  | cons c v ih =>
    rw [fill, ih, List.map_cons]
    exact fun _ _ _ h => by cases h

/-- **Where no placeholder crosses a cut, both sides are filled by themselves.** -/
theorem fill_append {v r : Text} (h : Uncrossed v r) (items : List α) :
    fill (v ++ r) items = fill v items ++ fill r (items.drop (placeholderCount v)) := by
  fun_induction splitPlaceholders v generalizing items with
  | case1 => rfl
  | case2 v ih =>
    cases items with
    | nil => rw [List.drop_nil, fill_nil, fill_nil, fill_nil, List.map_append]
    | cons x items =>
      rw [List.cons_append, List.cons_append, fill, fill, ih h.tail.tail, placeholderCount_pair,
        List.drop_succ_cons, List.cons_append]
  | case3 c v hne _ ih | case4 c v hne _ _ _ ih =>
    rw [List.cons_append, fill_cons (h.not_pair hne), fill_cons hne, ih h.tail,
      placeholderCount_of_not_pair hne, List.cons_append]

theorem fill_of_count_eq_zero {v : Text} (h : placeholderCount v = 0) (items : List α) :
    fill v items = v.map .inl := by
  fun_induction splitPlaceholders v with
  | case1 => rfl
  | case2 v ih =>
    rw [placeholderCount_pair] at h
    cases h
  | case3 c v hne _ ih | case4 c v hne _ _ _ ih =>
    rw [placeholderCount_of_not_pair hne] at h
    rw [fill_cons hne, ih h, List.map_cons]

/-- Blanks around a value stay around it. -/
theorem fill_between_blanks {before behind : Text} (hbefore : ∀ c ∈ before, Text.isBlank c)
    (hbehind : ∀ c ∈ behind, Text.isBlank c) (v : Text) (items : List α) :
    fill (before ++ (v ++ behind)) items =
      before.map .inl ++ (fill v items ++ behind.map .inl) := by
  have hcount : ∀ {w : Text}, (∀ c ∈ w, Text.isBlank c) → placeholderCount w = 0 := by
    intro w hw
    simpa using placeholderCount_append_blanks (v := []) hw
  have hfirst : Uncrossed before (v ++ behind) := fun hlast =>
    absurd rfl (ne_brace_of_isBlank (hbefore _ (List.mem_of_getLast? hlast))).1
  have hsecond : Uncrossed v behind := fun _ hhead =>
    absurd rfl (ne_brace_of_isBlank (hbehind _ (List.mem_of_head? hhead))).2
  rw [fill_append hfirst, fill_of_count_eq_zero (hcount hbefore), hcount hbefore, List.drop_zero,
    fill_append hsecond, fill_of_count_eq_zero (hcount hbehind)]

/-! ## Ends of the letters -/

theorem fill_eq_nil_iff {v : Text} {items : List α} : fill v items = [] ↔ v = [] := by
  fun_cases fill v items with
  | case1 | case2 | case3 => simp

theorem head?_fill {v : Text} {items : List α} {l : Char ⊕ α}
    (h : (fill v items).head? = some l) :
    (∃ x ∈ items, l = .inr x) ∨ ∃ c, v.head? = some c ∧ l = .inl c := by
  fun_cases fill v items with
  | case1 => cases h
  | case2 r x items => exact .inl ⟨x, List.mem_cons_self, by cases h; rfl⟩
  | case3 c r items hne =>
    rw [fill.eq_3 _ _ _ hne] at h
    exact .inr ⟨c, rfl, by cases h; rfl⟩

theorem getLast?_fill {v : Text} {items : List α} {l : Char ⊕ α}
    (h : (fill v items).getLast? = some l) :
    (∃ x ∈ items, l = .inr x) ∨ ∃ c, v.getLast? = some c ∧ l = .inl c := by
  have htail : ∀ {c d : Char} {r : Text}, r.getLast? = some d → (c :: r).getLast? = some d := by
    intro c d r hr
    rw [List.getLast?_cons, hr]
    rfl
  fun_induction fill v items with
  | case1 => cases h
  | case2 r x items ih =>
    rw [List.getLast?_cons] at h
    cases hrest : (fill r items).getLast? with
    | none => exact .inl ⟨x, List.mem_cons_self, by simpa [hrest, eq_comm] using h⟩
    | some l' =>
      obtain rfl : l' = l := by simpa [hrest] using h
      rcases ih hrest with ⟨y, hy, rfl⟩ | ⟨c, hc, rfl⟩
      · exact .inl ⟨y, List.mem_cons_of_mem _ hy, rfl⟩
      · exact .inr ⟨c, htail (htail hc), rfl⟩
  | case3 c r items hne ih =>
    rw [List.getLast?_cons] at h
    cases hrest : (fill r items).getLast? with
    | none =>
      obtain rfl : r = [] := fill_eq_nil_iff.1 (List.getLast?_eq_none_iff.1 hrest)
      exact .inr ⟨c, rfl, by simpa [hrest, eq_comm] using h⟩
    | some l' =>
      obtain rfl : l' = l := by simpa [hrest] using h
      rcases ih hrest with hitem | ⟨c, hc, rfl⟩
      · exact .inl hitem
      · exact .inr ⟨c, htail hc, rfl⟩

/-- What is written for the letters has no blank at its ends, if neither the value nor what is
written for the items has one. -/
theorem tight_flatMap_fill {g : Char ⊕ α → Text} {v : Text} {items : List α} (hv : v.Tight)
    (hchar : ∀ c, ¬ Text.isBlank c → g (.inl c) ≠ [] ∧ Text.Tight (g (.inl c)))
    (hitem : ∀ x ∈ items, g (.inr x) ≠ [] ∧ Text.Tight (g (.inr x))) :
    Text.Tight ((fill v items).flatMap g) := by
  refine Text.tight_flatMap (fun l hl => ?_) fun l hl => ?_
  · rcases head?_fill hl with ⟨x, hx, rfl⟩ | ⟨c, hc, rfl⟩
    · exact (hitem x hx).imp_right And.left
    · exact (hchar c (hv.1 c hc)).imp_right And.left
  · rcases getLast?_fill hl with ⟨x, hx, rfl⟩ | ⟨c, hc, rfl⟩
    · exact (hitem x hx).imp_right And.right
    · exact (hchar c (hv.2 c hc)).imp_right And.right

/-! ## Fragments -/

theorem weave_cons_cons (piece next : Text) (pieces : List Text) (args : List Arg) :
    Step.weave (piece :: next :: pieces) args =
      (if piece.isEmpty then [] else [.text piece]) ++
        (args.head?.elim (.text placeholder) .param) :: Step.weave (next :: pieces) args.tail := by
  cases args <;> rfl

/-- **What is written for the fragments is written for the letters**, if a text is written
character by character. -/
theorem flatMap_weave {g : Fragment → List β} (hnil : g (.text []) = [])
    (hcons : ∀ c t, g (.text (c :: t)) = g (.text [c]) ++ g (.text t)) (v : Text)
    (args : List Arg) :
    (Step.weave (splitPlaceholders v) args).flatMap g =
      (fill v args).flatMap (Sum.elim (fun c => g (.text [c])) fun arg => g (.param arg)) := by
  have hpiece : ∀ piece : Text,
      (if piece.isEmpty then [] else [Fragment.text piece]).flatMap g = g (.text piece) := by
    intro piece
    cases piece <;> simp [hnil]
  -- the first character of a piece, and then the piece without it
  have hletter : ∀ (c : Char) (piece : Text) (pieces : List Text) (args : List Arg),
      (Step.weave ((c :: piece) :: pieces) args).flatMap g =
        g (.text [c]) ++ (Step.weave (piece :: pieces) args).flatMap g := by
    intro c piece pieces args
    cases pieces with
    | nil => rw [Step.weave, Step.weave, hpiece, hpiece, hcons]
    | cons next pieces =>
      rw [weave_cons_cons, weave_cons_cons, List.flatMap_append, List.flatMap_append, hpiece,
        hpiece, hcons, List.append_assoc]
  fun_induction splitPlaceholders v generalizing args with
  | case1 => rfl
  | case2 r ih =>
    have hlen := length_splitPlaceholders r
    cases hs : splitPlaceholders r with
    | nil => simp [hs] at hlen
    | cons piece pieces =>
      rw [hs] at ih
      rw [weave_cons_cons, List.flatMap_append, hpiece, hnil, List.nil_append, List.flatMap_cons,
        ih]
      cases args with
      | nil => simp [fill_nil, placeholder, hcons '{' ['}']]
      | cons arg args =>
        rw [fill]
        rfl
  | case3 c r h hs ih =>
    have := length_splitPlaceholders r
    simp [hs] at this
  | case4 c r h piece pieces hs ih =>
    rw [hletter, ← hs, ih, fill_cons h]
    rfl

end

end ScenarioBook
