import Mathlib.Data.List.Induction
import Quill.Proofs.Moves

/-!
# A parse owes nothing to what came before

A parser can be used again and again: texts are bound and parsed, the radix is changed, rules are
followed from wherever the lexer happens to be, and any of this may fail and leave the lexer in the
middle of a token. Of all that only two things matter to a parse of the whole text, the text bound
last and the radix set last (`lastSet`). They are what requests leave (`stateAfter_perform`), and a
parse begins with going back to a lexer that depends on nothing else (`Lexer.rewind_eq_load`). So it
ends as on a new lexer (`freshOutcome`), in its tree or its fault, in what is told of it and in the
state that it leaves. The result is `parse_eq_fresh`.
-/

namespace Quill

open TokenReader

/-! ## What is set last -/

/-- What requests set last, where `sets` is what each of them sets, if it sets anything; and what
there was before if none of them does. -/
def lastSet {ρ α : Type} (sets : ρ → Option α) (before : α) (requests : List ρ) : α :=
  (requests.filterMap sets).getLast?.getD before

/-- The last request sets what is set last, if it sets anything. -/
theorem lastSet_concat {ρ α : Type} (sets : ρ → Option α) (before : α) (requests : List ρ)
    (request : ρ) : lastSet sets before (requests ++ [request]) =
      (sets request).getD (lastSet sets before requests) := by
  rw [lastSet, List.filterMap_append]
  cases h : sets request with
  | none => simp [h, lastSet]
  | some a => simp [h]

namespace ParserRequest

/-- The radix that a request sets. -/
def radix? : ParserRequest → Option Radix
  | lexer (.setRadix base) => Radix.ofInt? base
  | _ => none

/-- The text that a request binds. -/
def text? : ParserRequest → Option (List Char)
  | lexer (.load text) => some text
  | _ => none

/-- A request leaves the text and the radix that it sets, and otherwise those that there were. The
reserved words it leaves alone. -/
theorem state_perform (request : ParserRequest) (l : Lexer) :
    let after := (request.perform l).state
    after.keywords = l.keywords ∧ after.radix = request.radix?.getD l.radix ∧
      after.source = request.text?.getD l.source := by
  intro after
  have same := (request.moves l).sameText
  rw [show after.keywords = _ from same.keywords, show after.radix = _ from same.radix,
    show after.source = _ from same.source]
  cases request with
  | lexer request => cases request <;> exact ⟨rfl, rfl, rfl⟩
  | parse | rule => exact ⟨rfl, rfl, rfl⟩

end ParserRequest

/-- Requests leave the text that is bound last and the radix that is set last. -/
theorem stateAfter_perform (requests : List ParserRequest) (l : Lexer) :
    let after := stateAfter ParserRequest.perform requests l
    after.keywords = l.keywords ∧ after.radix = lastSet ParserRequest.radix? l.radix requests ∧
      after.source = lastSet ParserRequest.text? l.source requests := by
  induction requests using List.reverseRecOn with
  | nil => exact ⟨rfl, rfl, rfl⟩
  | append_singleton requests request ih =>
    obtain ⟨keywords, radix, source⟩ := ih
    have step := request.state_perform (stateAfter ParserRequest.perform requests l)
    rwa [keywords, radix, source, ← stateAfter_concat, ← lastSet_concat, ← lastSet_concat] at step

/-! ## Beginning again -/

/-- A lexer that goes back to the beginning is a new one with the same reserved words, radix and
text. -/
theorem Lexer.rewind_eq_load (l : Lexer) :
    l.rewind = (Lexer.new l.keywords l.radix).load l.source :=
  rfl

/-- How a parse ends with a lexer that has done nothing before. -/
def freshOutcome (keywords : KeywordTable) (r : Radix) (entry : Entry) (text : List Char) :
    Outcome Lexer :=
  (ParserRequest.parse entry).perform ((Lexer.new keywords r).load text)

/-- Wherever the lexer is, a parse ends as on a new one. -/
theorem perform_parse_eq_fresh (entry : Entry) (l : Lexer) :
    (ParserRequest.parse entry).perform l = freshOutcome l.keywords l.radix entry l.source := by
  have first : Lexer.reset l = Lexer.reset ((Lexer.new l.keywords l.radix).load l.source) := by
    show advance l.rewind = advance (Lexer.rewind _)
    rw [l.rewind_eq_load, Lexer.rewind_eq_load (Lexer.load ..)]
    rfl
  have parse : Lexer.parse entry l =
      Lexer.parse entry ((Lexer.new l.keywords l.radix).load l.source) := by
    rw [Lexer.parse, bind_eq, bind_eq, first]
  have run : ParserRequest.run (.parse entry) l =
      ParserRequest.run (.parse entry) ((Lexer.new l.keywords l.radix).load l.source) := by
    show EStateM.map _ _ _ = EStateM.map _ _ _
    unfold EStateM.map
    rw [parse]
  unfold freshOutcome ParserRequest.perform
  rw [run]
  rfl

/-- A new lexer gives what is said to be the parse of the text. -/
theorem reply_freshOutcome (keywords : KeywordTable) (r : Radix) (entry : Entry)
    (text : List Char) :
    (freshOutcome keywords r entry text).reply =
      (parse keywords r entry (String.ofList text)).map .node := by
  have run : (freshOutcome keywords r entry text).reply =
      (Outcome.ofResult (EStateM.map Reply.node (Lexer.parse entry)
        ((Lexer.new keywords r).load text))).reply := rfl
  rw [run, parse, String.toList_ofList]
  unfold EStateM.map
  cases Lexer.parse entry ((Lexer.new keywords r).load text) <;> rfl

/-- A parse owes nothing to what came before. Whatever requests have been made and however they
ended, a text that is bound and parsed then has the outcome that it has with a new lexer in the
radix set last: the same tree or the same fault, the same events and the same state. Parsed again
without being bound, the text bound last has that outcome, too. -/
theorem parse_eq_fresh (requests : List ParserRequest) (entry : Entry) (l : Lexer) :
    let fresh := freshOutcome l.keywords (lastSet ParserRequest.radix? l.radix requests) entry
    (∀ text, (outcomes ParserRequest.perform
        (requests ++ [.lexer (.load text), .parse entry]) l).getLast? = some (fresh text)) ∧
    (outcomes ParserRequest.perform (requests ++ [.parse entry]) l).getLast? =
      some (fresh (lastSet ParserRequest.text? l.source requests)) ∧
    ∀ text, (fresh text).reply =
      (parse l.keywords (lastSet ParserRequest.radix? l.radix requests) entry
        (String.ofList text)).map .node := by
  intro fresh
  have again (requests : List ParserRequest) :
      (outcomes ParserRequest.perform (requests ++ [.parse entry]) l).getLast? =
        some (freshOutcome l.keywords (lastSet ParserRequest.radix? l.radix requests) entry
          (lastSet ParserRequest.text? l.source requests)) := by
    obtain ⟨keywords, radix, source⟩ := stateAfter_perform requests l
    rw [outcomes_concat, List.getLast?_concat, perform_parse_eq_fresh, keywords, radix, source]
  refine ⟨fun text => ?_, again requests, fun _ => reply_freshOutcome ..⟩
  have bound := again (requests ++ [.lexer (.load text)])
  rw [lastSet_concat, lastSet_concat, List.append_assoc] at bound
  exact bound

end Quill
