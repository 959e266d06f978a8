import ScenarioBook.Concept
import ScenarioBook.Document.Builder

/-!
# The concept dictionary

A dictionary holds concepts in the order in which they were added; the position of a concept is its
id. Beside the concepts it keeps two indexes: the id of each signature, in the order of insertion,
and for each step of each concept the id of the concept that the step calls, if there is one. The
links are computed anew for every batch, so a step written before the concept it calls is linked
once that concept is there.

A batch is refused when a signature would repeat, before anything changes, or when the links would
form a circle. Circles are looked for with the batch in place, and a refused batch is taken back:
concepts and signatures are cut to their former number and the links are computed once more.

Expanding a step gives it a private copy of the concept's body, in which linked steps are expanded
in turn. The links form no circle, so the copies nest at most as deep as there are concepts;
`Dictionary.expandWithin` takes that depth as its bound.
-/

set_option autoImplicit false

namespace ScenarioBook

/-- The known concepts in order, the id of each signature, and the links of each concept by id. -/
structure Dictionary where
  concepts : List Concept
  signatures : List (Text × Nat)
  links : List (List (Option Nat))
deriving DecidableEq, Repr

namespace Dictionary

/-- The dictionary without concepts. -/
def empty : Dictionary := ⟨[], [], []⟩

/-- The number of concepts. -/
def size (d : Dictionary) : Nat := d.concepts.length

/-- The id of the concept with a signature. -/
def idOf? (d : Dictionary) (signature : Text) : Option Nat :=
  (d.signatures.find? (·.1 == signature)).map (·.2)

def search? (d : Dictionary) (signature : Text) : Option Concept :=
  (d.idOf? signature).bind fun id => d.concepts[id]?

/-- The concepts in order, with their ids. -/
def listing (d : Dictionary) : List (Concept × Nat) := d.concepts.zipIdx

/-! ## Links and circles -/

/-- For each step of a concept the id of the concept it calls. -/
def linksOf (d : Dictionary) (c : Concept) : List (Option Nat) :=
  c.steps.map fun s => d.idOf? s.value

/-- The dictionary with the links of all its concepts computed anew. -/
def relink (d : Dictionary) : Dictionary := { d with links := d.concepts.map d.linksOf }

/-- A step that calls a concept on its own call path: the concept it belongs to, its position
there, and the concept it calls. -/
structure BackLink where
  source : Nat
  position : Nat
  target : Nat
deriving DecidableEq, Repr

/-- Follows the calls of a concept in order, depth first. `fresh` holds the concepts that are not
on the call path, `done` those known to reach no circle. The answer is the first back link, or the
concepts done by then. -/
def explore (links : List (List (Option Nat))) (fresh done : List Nat) (source : Nat)
    (position : Nat) (calls : List (Option Nat)) : Except BackLink (List Nat) :=
  match calls with
  | [] => .ok (source :: done)
  | none :: rest => explore links fresh done source (position + 1) rest
  | some target :: rest =>
    if h : target ∈ fresh then
      if target ∈ done then explore links fresh done source (position + 1) rest
      else
        have : (fresh.erase target).length < fresh.length := by
          rw [List.length_erase_of_mem h]
          exact Nat.sub_lt (List.length_pos_of_mem h) Nat.one_pos
        match explore links (fresh.erase target) done target 0 (links.getD target []) with
        | .error back => .error back
        | .ok done => explore links fresh done source (position + 1) rest
    else .error ⟨source, position, target⟩
termination_by (fresh.length, calls.length)

/-- Starts from each of the given concepts that is not done, in order. The answer is the concept
from which the first back link was found, and that link. -/
def findBackLink (links : List (List (Option Nat))) (ids done : List Nat) :
    List Nat → Option (Nat × BackLink)
  | [] => none
  | root :: roots =>
    if root ∈ done then findBackLink links ids done roots
    else
      match explore links (ids.erase root) done root 0 (links.getD root []) with
      | .error back => some (root, back)
      | .ok done => findBackLink links ids done roots

/-- The first back link among the concepts, with the concept from which it was found. -/
def backLink? (d : Dictionary) : Option (Nat × BackLink) :=
  let ids := List.range d.size
  findBackLink d.links ids [] ids

/-- The circle that a back link closes, with the step that closes it. -/
def circle? (d : Dictionary) (root : Nat) (back : BackLink) : Option (Circle × Step) := do
  let first ← d.concepts[root]?
  let source ← d.concepts[back.source]?
  let target ← d.concepts[back.target]?
  let step ← source.steps[back.position]?
  return (⟨first.heading.lineText, source.fileName, source.heading.lineText, target.fileName,
    step.lineText⟩, step)

/-- The diagnostic of a circle. Without a step it has no line. -/
def circleDiagnostic (d : Dictionary) (root : Nat) (back : BackLink) : Diagnostic :=
  match d.circle? root back with
  | some (circle, step) => (Problem.circle circle).diagnostic.onLine step.lineNo step.lineText
  | none =>
    { severity := .error, code := some .e306, message := "Circular reference found in concept" }

/-! ## Adding -/

/-- The first concept of a batch whose signature is in use, in `signatures` or before it. -/
def firstDuplicate (signatures : List Text) : List Concept → Option Concept
  | [] => none
  | c :: cs =>
    if signatures.contains c.signature then some c
    else firstDuplicate (c.signature :: signatures) cs

/-- The diagnostic of a repeated signature. -/
def duplicateDiagnostic (c : Concept) : Diagnostic :=
  (Problem.duplicateConcept c.signature).diagnostic.onLine c.heading.lineNo c.heading.lineText

/-- Gives a signature an id. A signature that is there keeps its place and takes the new id. -/
def setId (signatures : List (Text × Nat)) (signature : Text) (id : Nat) : List (Text × Nat) :=
  if signatures.any (·.1 == signature) then
    signatures.map fun entry => if entry.1 == signature then (entry.1, id) else entry
  else signatures ++ [(signature, id)]

/-- The dictionary with one more concept, not yet linked. -/
def push (d : Dictionary) (c : Concept) : Dictionary :=
  { d with
    concepts := d.concepts ++ [c]
    signatures := setId d.signatures c.signature d.size }

/-- The dictionary with only its first concepts and signatures, the links left as they are. -/
def truncate (d : Dictionary) (count : Nat) : Dictionary :=
  { d with concepts := d.concepts.take count, signatures := d.signatures.take count }

/-- Adds a batch of concepts. The answer is the dictionary afterwards and, if the batch was
refused, the reason. -/
def add (d : Dictionary) (batch : List Concept) : Dictionary × Option Rejection :=
  match firstDuplicate (d.signatures.map (·.1)) batch with
  | some c => (d, some ⟨[duplicateDiagnostic c]⟩)
  | none =>
    let grown := (batch.foldl push d).relink
    match grown.backLink? with
    | some (root, back) =>
      ((grown.truncate d.size).relink, some ⟨[grown.circleDiagnostic root back]⟩)
    | none => (grown, none)

/-! ## Expansion -/

/-- The step as a call of the concept with an id: it gets the concept's body, in which linked steps
are expanded at most `depth` levels down. With an id that no concept has it stays alone. -/
def expandWithin (d : Dictionary) : (depth id : Nat) → Step → StepTree
  | 0, _, s => .ofStep s
  | depth + 1, id, s =>
    match d.concepts[id]? with
    | none => .ofStep s
    | some c =>
      .call s (c.formals.bind s.args) <|
        (c.steps.zip (d.links.getD id [])).map fun (step, link) =>
          match link with
          | none => .ofStep step
          | some nested => d.expandWithin depth nested step

/-- A step tree made a call of the concept with an id, whatever it was before. -/
def expandStep (d : Dictionary) (id : Nat) (t : StepTree) : StepTree :=
  if id < d.size then d.expandWithin d.size id t.step else t

/-- A step tree whose root calls a known concept is expanded anew, any other stays. -/
def expand (d : Dictionary) (t : StepTree) : StepTree :=
  match d.idOf? t.step.value with
  | none => t
  | some id => d.expandStep id t

/-- Every step of a document expanded. -/
def expandDocument (d : Dictionary) (doc : Document) : Document := doc.mapSteps d.expand

end Dictionary

/-- The document of a source with its concept calls expanded, or everything that is wrong with the
source. -/
def Document.parse (source fileName : Text) (dictionary : Dictionary) (files : FileSource) :
    Except Rejection (Parsed Document) := do
  let tokens ← tokenize source
  let parsed ← Document.ofTokens fileName files tokens
  return ⟨dictionary.expandDocument parsed.document, parsed.warnings⟩

end ScenarioBook
