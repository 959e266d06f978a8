import ScenarioBook.Compiler
import ScenarioBook.Proofs.Dictionary.History

/-!
# Refused concepts leave no trace

A refused source, be it one that cannot be parsed, one with a duplicate or one that closes a circle,
leaves the compiler as it was (`serve_refused`). So the requests of a run can be freed of the
refused ones (`withoutRefused`), and what is left gets the same replies and ends in the same
compiler (`serveAll_withoutRefused`).
-/

set_option autoImplicit false

namespace ScenarioBook.Compiler

/-- The reply to a source of concepts that was refused. -/
def Reply.isRefusal : Reply → Bool
  | .added (.error _) => true
  | _ => false

/-- The requests without the sources of concepts that are refused when their turn comes. -/
def withoutRefused (c : Compiler) : List Request → List Request
  | [] => []
  | request :: requests =>
    if (c.serve request).2.isRefusal then (c.serve request).1.withoutRefused requests
    else request :: (c.serve request).1.withoutRefused requests

section
variable {c : Compiler}

/-! ## One request -/

/-- What a source of concepts can do: be refused, or have its batch accepted. -/
theorem addConcepts_cases (h : c.dictionary.Aligned) (files : FileSource)
    (source fileName : Text) :
    (∃ failure, c.addConcepts files source fileName = (c, .error failure)) ∨
      ∃ batch answer, c.addConcepts files source fileName =
        ({ c with dictionary := (c.dictionary.add batch).1 }, .ok answer) := by
  unfold addConcepts
  split
  case h_1 rejection _ => exact .inl ⟨_, rfl⟩
  case h_2 parsed _ =>
    cases hr : (c.dictionary.add parsed.document).2 with
    | some rejection =>
      have hkeep := h.add_refused hr
      exact .inl ⟨.rejected rejection source fileName, by simp [hr, hkeep]⟩
    | none => exact .inr ⟨parsed.document, (parsed.document.length, parsed.warnings), by simp [hr]⟩

theorem aligned_serve (h : c.dictionary.Aligned) (request : Request) :
    (c.serve request).1.dictionary.Aligned := by
  cases request with
  | addConcepts files source fileName =>
    obtain ⟨failure, hadd⟩ | ⟨batch, answer, hadd⟩ := addConcepts_cases h files source fileName
    · rw [serve, hadd]; exact h
    · rw [serve, hadd]; exact h.add batch
  | _ => exact h

/-- **A refused request leaves the compiler as it was.** -/
theorem serve_refused (h : c.dictionary.Aligned) {request : Request}
    (hr : (c.serve request).2.isRefusal) : (c.serve request).1 = c := by
  cases request with
  | addConcepts files source fileName =>
    obtain ⟨failure, hadd⟩ | ⟨batch, answer, hadd⟩ := addConcepts_cases h files source fileName
    · rw [serve, hadd]
    · rw [serve, hadd] at hr
      cases hr
  | _ => rfl

/-! ## A run -/

theorem serveAll_cons (c : Compiler) (request : Request) (requests : List Request) :
    c.serveAll (request :: requests) =
      (((c.serve request).1.serveAll requests).1,
        (c.serve request).2 :: ((c.serve request).1.serveAll requests).2) := rfl

/-- Requests that are refused can be left out of a run. -/
theorem serveAll_withoutRefused (h : c.dictionary.Aligned) (requests : List Request) :
    c.serveAll (c.withoutRefused requests) =
      ((c.serveAll requests).1, (c.serveAll requests).2.filter fun r => !r.isRefusal) := by
  induction requests generalizing c with
  | nil => rfl
  | cons request requests ih =>
    have ih := ih (aligned_serve h request)
    rw [withoutRefused, serveAll_cons]
    split
    case isTrue hr =>
      have hkeep := serve_refused h hr
      rw [List.filter_cons_of_neg (by simp [hr]), ← ih]
      simp only [hkeep]
    case isFalse hr =>
      rw [serveAll_cons, ih, List.filter_cons_of_pos (by simpa using hr)]

end

/-- **Refusals leave no trace.** A batch that a dictionary refuses, for a duplicate signature or
for a circle, changes no part of the dictionary, whatever was added before. Hence, whatever a
compiler is asked, leaving out the sources that it refuses changes neither a reply to any other
request nor the compiler at the end. -/
theorem refusals_leave_no_trace :
    (∀ (history : List (List Concept)) (batch : List Concept) (r : Rejection),
      ((Dictionary.after history).add batch).2 = some r →
        (∃ diagnostic, r = ⟨[diagnostic]⟩ ∧
          (diagnostic.code = some .e305 ∨ diagnostic.code = some .e306)) ∧
        ((Dictionary.after history).add batch).1 = Dictionary.after history) ∧
    ∀ (settings : Settings) (requests : List Request),
      let c : Compiler := { settings := settings }
      c.serveAll (c.withoutRefused requests) =
        ((c.serveAll requests).1, (c.serveAll requests).2.filter fun r => !r.isRefusal) := by
  refine ⟨fun history batch r hr => ?_, fun settings requests => ?_⟩
  · have h := Dictionary.aligned_after history
    refine ⟨?_, h.add_refused hr⟩
    obtain ⟨diagnostic, hadd, hcode⟩ | ⟨-, -, hadd⟩ := h.add_cases batch
    · rw [hadd] at hr
      exact ⟨diagnostic, (Option.some.inj hr).symm, hcode⟩
    · rw [hadd] at hr
      cases hr
  · exact serveAll_withoutRefused Dictionary.aligned_empty requests

end ScenarioBook.Compiler
