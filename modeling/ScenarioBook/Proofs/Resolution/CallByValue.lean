import Mathlib
import ScenarioBook.Proofs.Dictionary.Expansion
import ScenarioBook.Proofs.Resolution.Scope

/-!
# Resolution is call by value

`StepTree.resolve` looks names up in a chain of frames: a frame keeps the references it was called
with, and they are followed into the frames below when the body asks for them. Tables are the
exception, their cells are resolved when the call is made. `StepTree.evaluate` does without a chain.
It takes an environment, which says what each name stands for, evaluates the arguments of a call in
it, and then the body in the environment of the formal parameters alone.

Both give the same result, errors included (`StepTree.resolve_eq_evaluate`), if each call binds
formal parameters to its own arguments (`StepTree.BindsOwnArgs`), as calls made by a dictionary do
(`Dictionary.bindsOwnArgs_expand`). The reason is that the chain of a call's body stands for the
environment of the call (`Scope.resolve_enter`). It holds only where the arguments of the call are
resolved, which is checked before the body is looked at.
-/

set_option autoImplicit false

namespace ScenarioBook

/-! ## Evaluation -/

/-- What each name stands for, or why it stands for nothing. -/
abbrev Environment := Text → Except LookupError Arg

namespace Environment

/-- The value of a cell. A reference that stands for a reference is left as that one. -/
def cell (env : Environment) : Cell → Except LookupError Cell
  | .dynamic name => do
    match ← env name with
    | .dynamic inner => return .dynamic inner
    | arg => return .literal arg.value
  | cell => return cell

/-- The value of an argument. -/
def arg (env : Environment) : Arg → Except LookupError Arg
  | .dynamic name => env name
  | .table t => return .table (← t.mapCellsM env.cell)
  | .specialTable name t => return .specialTable name (← t.mapCellsM env.cell)
  | arg => return arg

/-- The environment of a call: formal parameters stand for the values at their positions, and no
other name is known. -/
def ofCall : List Text → List Arg → Environment
  | [], _, name => .error (.unknownParam name)
  | formal :: formals, values, name =>
    if formal = name then
      match values with
      | value :: _ => .ok value
      | [] => .error (.unbound name)
    else ofCall formals values.tail name

end Environment

namespace StepTree

mutual

/-- Evaluates a step and, for a concept call, its body with the values of the arguments. -/
def evaluate (env : Environment) : StepTree → Except LookupError ResolvedStep
  | .plain s _ => do
    let values ← s.args.mapM env.arg
    return ⟨s.value, values, []⟩
  | .call s frame body => do
    let values ← s.args.mapM env.arg
    let children ← evaluateAll (.ofCall frame.names values) body
    return ⟨s.value, values, children⟩

/-- Evaluates steps in order, up to the first failure. -/
def evaluateAll (env : Environment) : List StepTree → Except LookupError (List ResolvedStep)
  | [] => .ok []
  | t :: ts => do
    let first ← t.evaluate env
    let others ← evaluateAll env ts
    return first :: others

end

end StepTree

/-! ## Frames of formal parameters -/

/-- No declared name has an argument. -/
def Frame.Unbound (f : Frame) : Prop := ∀ slot ∈ f.slots, slot.2 = none

namespace Frame

theorem Unbound.declare {f : Frame} (h : f.Unbound) (name : Text) : (f.declare name).Unbound := by
  intro slot hslot
  unfold Frame.declare setSlot at hslot
  split at hslot
  · obtain ⟨old, hold, rfl⟩ := List.mem_map.1 hslot
    split
    · rfl
    · exact h old hold
  · rcases List.mem_append.1 hslot with hslot | hslot
    · exact h slot hslot
    · rw [List.mem_singleton.1 hslot]

/-- Names that are only declared are unbound. -/
theorem unbound_ofNames (names : List Text) : (ofNames names).Unbound := by
  have h : ∀ f : Frame, f.Unbound → (names.foldl Frame.declare f).Unbound := by
    induction names with
    | nil => exact fun f hf => hf
    | cons name names ih => exact fun f hf => ih _ (hf.declare name)
  exact h empty fun _ hslot => by cases hslot

theorem get_cons (label : Text) (held : Option Arg) (slots : List (Text × Option Arg))
    (name : Text) : (Frame.mk ((label, held) :: slots)).get name =
      if label = name then
        match held with
        | some arg => .ok arg
        | none => .error (.unbound name)
      else (Frame.mk slots).get name := by
  by_cases h : label = name
  · cases held <;> simp [get, slot?, h]
  · simp [get, slot?, h]

theorem fill_nil (slots : List (Text × Option Arg)) : fill slots [] = slots := by
  cases slots <;> rfl

end Frame

namespace Scope
variable {scope : Scope}

/-! ## Arguments in a scope and in its environment -/

theorem resolveCell_eq (scope : Scope) : scope.resolveCell = Environment.cell scope.resolve := by
  funext cell
  cases cell with
  | literal | special => rfl
  | dynamic name =>
    simp only [resolveCell, Environment.cell, bind, Except.bind]
    cases scope.resolve name with
    | error => rfl
    | ok arg => cases arg <;> rfl

theorem resolveArg_eq (scope : Scope) : scope.resolveArg = Environment.arg scope.resolve := by
  funext arg
  cases arg with
  | literal | dynamic | special | block => rfl
  | table t | specialTable name t =>
    simp only [resolveArg, Arg.mapTableM, Environment.arg, resolveCell_eq]
    cases t.mapCellsM (Environment.cell scope.resolve) <;> rfl

/-! ## The scope of a body -/

/-- What an argument found in the frame above stands for. -/
def follow (scope : Scope) : Arg → Except LookupError Arg
  | .dynamic name => scope.resolve name
  | arg => .ok arg

theorem resolve_child (frame : Frame) (scope : Scope) (name : Text) :
    (child frame scope).resolve name = (frame.get name).bind scope.follow := by
  simp only [resolve]
  cases frame.get name with
  | error => rfl
  | ok arg => cases arg <;> rfl

theorem resolve_child_cons (label : Text) (held : Option Arg) (slots : List (Text × Option Arg))
    (scope : Scope) (name : Text) : (child ⟨(label, held) :: slots⟩ scope).resolve name =
      if label = name then
        match held with
        | some arg => scope.follow arg
        | none => .error (.unbound name)
      else (child ⟨slots⟩ scope).resolve name := by
  rw [resolve_child, resolve_child, Frame.get_cons]
  split
  · cases held <;> rfl
  · rfl

/-- A slot that holds an argument of the call still stands for the value of that argument after the
call is made: a table is replaced by its value, a reference is followed when it is asked for, and
all else is its own value. -/
theorem resolveSlot_of_resolveArg {arg value : Arg} (h : scope.resolveArg arg = .ok value)
    (name : Text) : ∃ held, scope.resolveSlot (name, some arg) = .ok (name, some held) ∧
      scope.follow held = .ok value := by
  cases arg with
  | literal | special | block => exact ⟨_, rfl, h⟩
  | dynamic inner => exact ⟨_, rfl, h⟩
  | table t | specialTable label t =>
    refine ⟨value, by simp only [resolveSlot, Arg.table?, Option.isSome, if_true, h]; rfl, ?_⟩
    simp only [resolveArg, Arg.mapTableM] at h
    cases ht : t.mapCellsM scope.resolveCell with
    | error => rw [ht] at h; cases h
    | ok t' => rw [ht] at h; cases h; rfl

theorem resolveFrame_cons {slot slot' : Text × Option Arg} {slots : List (Text × Option Arg)}
    {inner : Frame} (hslot : scope.resolveSlot slot = .ok slot')
    (hslots : scope.resolveFrame ⟨slots⟩ = .ok inner) :
    scope.resolveFrame ⟨slot :: slots⟩ = .ok ⟨slot' :: inner.slots⟩ := by
  unfold resolveFrame at hslots ⊢
  rw [List.mapM_cons, hslot]
  cases hm : slots.mapM scope.resolveSlot with
  | error => rw [hm] at hslots; cases hslots
  | ok resolved =>
    rw [hm] at hslots
    obtain rfl : Frame.mk resolved = inner := Except.ok.inj hslots
    rfl

/-- **The chain of a call's body stands for the environment of the call**: if the arguments have
values, the frame of the call is resolved, and each name stands for the value at its position. -/
theorem resolve_enter {formals : Frame} (hf : formals.Unbound) {args values : List Arg}
    (hargs : args.mapM scope.resolveArg = .ok values) :
    ∃ inner, scope.resolveFrame (formals.bind args) = .ok inner ∧
      (child inner scope).resolve = Environment.ofCall formals.names values := by
  obtain ⟨slots⟩ := formals
  induction slots generalizing args values with
  | nil => exact ⟨⟨[]⟩, rfl, rfl⟩
  | cons slot slots ih =>
    obtain ⟨label, held⟩ := slot
    obtain ⟨hnone, hslots⟩ := List.forall_mem_cons.1 hf
    obtain rfl : held = none := hnone
    cases args with
    | nil =>
      obtain rfl : [] = values := Except.ok.inj hargs
      obtain ⟨inner, hinner, henv⟩ := ih hargs hslots
      rw [Frame.bind, Frame.fill_nil] at hinner ⊢
      refine ⟨_, resolveFrame_cons rfl hinner, funext fun name => ?_⟩
      rw [resolve_child_cons, henv]
      rfl
    | cons arg args =>
      obtain ⟨value, others, hvalue, hothers, rfl⟩ := mapM_cons_eq_ok hargs
      obtain ⟨inner, hinner, henv⟩ := ih hothers hslots
      obtain ⟨held, hheld, hfollow⟩ := resolveSlot_of_resolveArg hvalue label
      refine ⟨_, resolveFrame_cons hheld hinner, funext fun name => ?_⟩
      simp only [resolve_child_cons, henv, hfollow]
      rfl

end Scope

namespace StepTree

/-! ## Trees -/

/-- Each call binds formal parameters to its own arguments. -/
inductive BindsOwnArgs : StepTree → Prop
  | plain (s : Step) (frame : Frame) : BindsOwnArgs (.plain s frame)
  | call {s : Step} {formals : Frame} {body : List StepTree} (hf : formals.Unbound)
      (hbody : ∀ t ∈ body, BindsOwnArgs t) : BindsOwnArgs (.call s (formals.bind s.args) body)

theorem resolveAll_eq_evaluateAll {scope : Scope} {env : Environment} {ts : List StepTree}
    (h : ∀ t ∈ ts, t.resolve scope = t.evaluate env) :
    resolveAll scope ts = evaluateAll env ts := by
  induction ts with
  | nil => rw [resolveAll, evaluateAll]
  | cons t ts ih =>
    obtain ⟨ht, hts⟩ := List.forall_mem_cons.1 h
    rw [resolveAll, evaluateAll, ht, ih hts]

theorem BindsOwnArgs.resolve {t : StepTree} (h : t.BindsOwnArgs) (scope : Scope) :
    t.resolve scope = t.evaluate scope.resolve := by
  induction h generalizing scope with
  | plain s frame => rw [StepTree.resolve, evaluate, scope.resolveArg_eq]
  | @call s formals body hf hbody ih =>
    rw [StepTree.resolve, evaluate, ← scope.resolveArg_eq, Frame.names_bind]
    cases hargs : s.args.mapM scope.resolveArg with
    | error => rfl
    | ok values =>
      obtain ⟨inner, hinner, henv⟩ := Scope.resolve_enter hf hargs
      have hbody : resolveAll (.child inner scope) body =
          evaluateAll (.ofCall formals.names values) body :=
        resolveAll_eq_evaluateAll fun t ht => by rw [ih t ht, henv]
      simp only [bind, Except.bind, hinner, hbody]

/-- Evaluation reads its environment through the arguments of the step at the root only. -/
theorem evaluate_congr {t : StepTree} {env env' : Environment}
    (h : t.step.args.mapM env.arg = t.step.args.mapM env'.arg) :
    t.evaluate env = t.evaluate env' := by
  cases t with
  | plain s frame | call s frame body =>
    have h : s.args.mapM env.arg = s.args.mapM env'.arg := h
    rw [evaluate, evaluate, h]

end StepTree

namespace Dictionary
variable {d : Dictionary}

theorem bindsOwnArgs_expandWithin (hf : ∀ c ∈ d.concepts, c.formals.Unbound) (depth id : Nat)
    (s : Step) : (d.expandWithin depth id s).BindsOwnArgs := by
  induction depth generalizing id s with
  | zero => exact .plain _ _
  | succ depth ih =>
    unfold expandWithin
    split
    case h_1 => exact .plain _ _
    case h_2 c hc =>
      refine .call (hf c (List.mem_of_getElem? hc)) fun t ht => ?_
      obtain ⟨⟨step, link⟩, -, rfl⟩ := List.mem_map.1 ht
      cases link with
      | none => exact .plain _ _
      | some nested => exact ih nested step

/-- The calls that a dictionary makes bind the formal parameters of its concepts. -/
theorem bindsOwnArgs_expand (hf : ∀ c ∈ d.concepts, c.formals.Unbound) {t : StepTree}
    (ht : t.BindsOwnArgs) : (d.expand t).BindsOwnArgs := by
  unfold expand
  split
  case h_1 => exact ht
  case h_2 id _ =>
    unfold expandStep
    split
    · exact bindsOwnArgs_expandWithin hf _ _ _
    · exact ht

end Dictionary

/-- **Resolution is call by value.** In every scope, a tree whose calls bind formal parameters to
their own arguments is resolved as it is evaluated in the environment that the scope stands for,
with the same result or the same error. So scopes that give the arguments of a call the same values
give the call the same result, whatever names they declare. -/
theorem StepTree.resolve_eq_evaluate {t : StepTree} (h : t.BindsOwnArgs) (scope : Scope) :
    t.resolve scope = t.evaluate scope.resolve ∧
    ∀ scope' : Scope, t.step.args.mapM scope'.resolveArg = t.step.args.mapM scope.resolveArg →
      t.resolve scope' = t.resolve scope := by
  refine ⟨h.resolve scope, fun scope' hargs => ?_⟩
  rw [h.resolve, h.resolve]
  rw [scope.resolveArg_eq, scope'.resolveArg_eq] at hargs
  exact evaluate_congr hargs

/-! ## Calls that exchange names -/

/-- A concept with two parameters, which its only step hands on in exchanged places. -/
def exchanging (signature call : String) : Concept where
  fileName := []
  heading := ⟨1, signature.toList, [], [.dynamic "from".toList, .dynamic "to".toList], false⟩
  formals := .ofNames ["from".toList, "to".toList]
  items :=
    [.step ⟨2, call.toList, [], [.dynamic "to".toList, .dynamic "from".toList], false⟩]
  preComments := []

/-- One such concept that calls another. -/
def exchanges : List (List Concept) :=
  [[exchanging "hand \x7b\x7d \x7b\x7d" "give \x7b\x7d \x7b\x7d"],
    [exchanging "pass \x7b\x7d \x7b\x7d" "hand \x7b\x7d \x7b\x7d"]]

/-- A call of a concept that calls the other. -/
def nestedExchange : StepTree :=
  (Dictionary.after exchanges).expand <| .ofStep ⟨1, "pass \x7b\x7d \x7b\x7d".toList, [],
    [.dynamic "to".toList, .dynamic "from".toList], false⟩

/-- A row of a data table whose columns have the names of the parameters. -/
def exchangeRow : Scope :=
  .root ((Frame.ofNames ["from".toList, "to".toList]).bind
    [.literal "ann".toList, .literal "ben".toList])

/-- Columns and the parameters of both concepts share their names, and each call sees the values it
was given. -/
theorem StepTree.resolve_eq_evaluate_nestedExchange :
    nestedExchange.BindsOwnArgs ∧
    nestedExchange.resolve exchangeRow = nestedExchange.evaluate exchangeRow.resolve ∧
    nestedExchange.evaluate exchangeRow.resolve = .ok
      ⟨"pass \x7b\x7d \x7b\x7d".toList, [.literal "ben".toList, .literal "ann".toList],
        [⟨"hand \x7b\x7d \x7b\x7d".toList, [.literal "ann".toList, .literal "ben".toList],
          [⟨"give \x7b\x7d \x7b\x7d".toList,
            [.literal "ben".toList, .literal "ann".toList], []⟩]⟩]⟩ := by
  have h : nestedExchange.BindsOwnArgs := by
    refine Dictionary.bindsOwnArgs_expand (fun c hc => ?_) (.plain _ _)
    have hc : c ∈ exchanges.flatten := Dictionary.mem_flatten_of_mem_after hc
    simp only [exchanges, List.flatten_cons, List.flatten_nil, List.mem_append, List.mem_singleton,
      List.not_mem_nil, or_false] at hc
    rcases hc with rfl | rfl <;> exact Frame.unbound_ofNames _
  exact ⟨h, (resolve_eq_evaluate h exchangeRow).1, by cbv⟩

end ScenarioBook
