import Quill.Proofs.Progress
import Quill.Session.Parser

/-!
# Looking ahead

To look at the next token a lexer can read it and go back (`Lexer.readAndGoBack`): its place and its
current token are put back, and a scan changes nothing else, whether it makes a token or fails
(`Lexer.goBack_of_advance`). So looking ahead is a request that leaves no trace, and it makes no
difference to a session where such requests are inserted (`keptOutcomes_insert`). To consume a
token is to read the next one or, if the token is refused, nothing at all (`Lexer.consume_cases`).

All this is said of any lexer at once, and so of those that a session comes to, also after a request
that failed and before the first token has been read. The result is
`Lexer.ahead_pure_consume_atomic`.
-/

namespace Quill

open TokenReader

/-! ## Requests that leave no trace -/

/-- The requests that are made where `inserted` is made for each `none`. -/
def withInserted {ρ : Type} (inserted : ρ) (requests : List (Option ρ)) : List ρ :=
  requests.map fun request => request.getD inserted

/-- The outcomes of those requests that are not inserted. -/
def keptOutcomes {ρ α : Type} : List (Option ρ) → List α → List α
  | some _ :: requests, outcome :: rest => outcome :: keptOutcomes requests rest
  | none :: requests, _ :: rest => keptOutcomes requests rest
  | _, _ => []

/-- Where a request that changes no state is inserted, the other ones have the outcomes that they
have without it. -/
theorem keptOutcomes_insert {σ ρ : Type} {perform : ρ → σ → Outcome σ} {silent : ρ}
    (unchanged : ∀ s, (perform silent s).state = s) (requests : List (Option ρ)) (s : σ) :
    keptOutcomes requests (outcomes perform (withInserted silent requests) s) =
      outcomes perform (requests.filterMap id) s := by
  induction requests generalizing s with
  | nil => rfl
  | cons request requests ih =>
    cases request with
    | none =>
      have step := ih (perform silent s).state
      rw [unchanged] at step
      simp only [withInserted, List.map_cons, Option.getD_none, outcomes, keptOutcomes,
        unchanged]
      exact step
    | some request => exact congrArg (_ :: ·) (ih (perform request s).state)

namespace Lexer
variable {l l' : Lexer} {t : Token} {e : Fault}

/-! ## Reading and going back -/

/-- The lexer `after`, put back to the place and to the current token of `before`. -/
def goBack (before after : Lexer) : Lexer :=
  let place := before.cursor
  { after with
    cursor := after.cursor.restore place.offset place.line place.column
    current := before.current }

/-- Reads the next token and goes back, whether or not there is one. -/
def readAndGoBack : LexerM Token := fun l =>
  match advance l with
  | .ok t l' => .ok t (l.goBack l')
  | .error e l' => .error e (l.goBack l')

/-- What a scan changes can be put back. -/
theorem goBack_of_advance_ok (h : advance l = .ok t l') : l.goBack l' = l := by
  obtain ⟨-, rfl⟩ := advance_eq_ok h
  rfl

/-- It can be put back too where no token is made. -/
theorem goBack_of_advance_error (h : advance l = .error e l') : l.goBack l' = l := by
  unfold advance at h
  dsimp only at h
  split at h
  · cases h
  · cases h
    rfl

/-- Looking ahead is reading and going back. -/
theorem ahead_eq_readAndGoBack (l : Lexer) : ahead l = readAndGoBack l := by
  have read : TokenReader.advance l = advance l := rfl
  unfold ahead readAndGoBack
  rw [read]
  cases h : advance l with
  | ok t l' => simp only [goBack_of_advance_ok h]
  | error e l' => simp only [goBack_of_advance_error h]

/-- Looking ahead gives the token that would be read and leaves the lexer as it is. -/
theorem ahead_eq_ok_iff : ahead l = .ok t l' ↔ l' = l ∧ ∃ after, advance l = .ok t after := by
  rw [ahead_eq_readAndGoBack, readAndGoBack]
  cases h : advance l with
  | ok u after =>
    simp only [goBack_of_advance_ok h]
    constructor
    · rintro ⟨⟩
      exact ⟨rfl, after, rfl⟩
    · rintro ⟨rfl, _, ⟨⟩⟩
      rfl
  | error e after => exact ⟨nofun, fun ⟨_, _, h⟩ => nomatch h⟩

/-- Looking ahead fails where reading would and leaves the lexer as it is. -/
theorem ahead_eq_error_iff :
    ahead l = .error e l' ↔ l' = l ∧ ∃ after, advance l = .error e after := by
  rw [ahead_eq_readAndGoBack, readAndGoBack]
  cases h : advance l with
  | ok u after => exact ⟨nofun, fun ⟨_, _, h⟩ => nomatch h⟩
  | error e after =>
    simp only [goBack_of_advance_error h]
    constructor
    · rintro ⟨⟩
      exact ⟨rfl, after, rfl⟩
    · rintro ⟨rfl, _, ⟨⟩⟩
      rfl

/-- A request to look ahead changes nothing. -/
theorem state_perform_ahead (l : Lexer) : (LexerRequest.ahead.perform l).state = l := by
  show (Outcome.ofResult (EStateM.map Reply.token ahead l)).state = l
  unfold EStateM.map
  cases h : (ahead : LexerM Token) l with
  | ok t l' => exact (ahead_eq_ok_iff.1 h).1
  | error e l' => exact (ahead_eq_error_iff.1 h).1

/-- A parser that is asked to look ahead asks its lexer. -/
theorem state_perform_lexer_ahead (l : Lexer) :
    ((ParserRequest.lexer .ahead).perform l).state = l :=
  l.state_perform_ahead

end Lexer

/-! ## Consuming a token -/

/-- The fault of a token that is refused: there is no current one, or it is of another kind. -/
def Fault.IsRefusal (e : Fault) : Prop :=
  e = .notStarted ∨ ∃ expected found pos, e = .atPosition (.tokenMismatch expected found) pos

/-- A scan that fails refuses nothing. -/
theorem Fault.OfScan.not_isRefusal {e : Fault} (h : e.OfScan) : ¬e.IsRefusal := by
  cases h with
  | numeral e => rintro (h | ⟨expected, found, pos, h⟩) <;> cases e <;> cases h
  | unterminatedString | unexpectedCharacter =>
    rintro (h | ⟨expected, found, pos, h⟩) <;> cases h

/-- How an attempt to consume a token ends: the token is refused, the next one cannot be read, or
it is read. -/
inductive Lexer.Consumption (kind : Kind) (l : Lexer) : EStateM.Result Fault Lexer Token → Prop
  | refused {e} : (∀ t, l.current = some t → t.hasKind kind = false) → e.IsRefusal →
      Consumption kind l (.error e l)
  | unread {t e l'} : l.current = some t → t.hasKind kind = true → e.OfScan →
      Lexer.advance l = .error e l' → Consumption kind l (.error e l')
  | consumed {t u l'} : l.current = some t → t.hasKind kind = true → Lexer.advance l = .ok u l' →
      Consumption kind l (.ok t l')

namespace Lexer
variable {l l' : Lexer} {t : Token} {e : Fault} {kind : Kind}

/-- To consume a token ends in one of these ways. -/
theorem consumption (kind : Kind) (l : Lexer) : Consumption kind l (consume kind l) := by
  have at_hand : TokenReader.current? l = l.current := rfl
  have read : TokenReader.advance l = advance l := rfl
  rw [consume_eq, at_hand, read]
  cases ht : l.current with
  | none =>
    refine .refused (fun t h => ?_) (.inl rfl)
    cases ht.symm.trans h
  | some t =>
    by_cases hk : t.hasKind kind = true
    · simp only [if_pos hk]
      cases ha : advance l with
      | ok u l' => exact .consumed ht hk ha
      | error e l' => exact .unread ht hk (Scan.ofScan_of_token (advance_eq_error ha)) ha
    · simp only [if_neg hk]
      refine .refused (fun u h => ?_) (.inr ⟨_, _, _, rfl⟩)
      cases ht.symm.trans h
      exact Bool.eq_false_iff.2 hk

/-- A token that is refused is left where it is, with all the rest. -/
theorem eq_of_refused (h : consume kind l = .error e l') (he : e.IsRefusal) : l' = l := by
  have how := consumption kind l
  rw [h] at how
  cases how with
  | refused => rfl
  | unread _ _ scan => exact absurd he scan.not_isRefusal

/-- Where a token cannot be consumed though it is not refused, the next one cannot be read, and the
token is still current. -/
theorem advance_of_not_refused (h : consume kind l = .error e l') (he : ¬e.IsRefusal) :
    advance l = .error e l' ∧
      ∃ t, l.current = some t ∧ t.hasKind kind = true ∧ l'.current = some t := by
  have how := consumption kind l
  rw [h] at how
  cases how with
  | refused _ refusal => exact absurd refusal he
  | unread ht hk _ ha => exact ⟨ha, _, ht, hk, (current_of_advance_error ha).trans ht⟩

/-- To consume a token is to read the next one. -/
theorem advance_of_consumed (h : consume kind l = .ok t l') :
    l.current = some t ∧ t.hasKind kind = true ∧ ∃ u, advance l = .ok u l' := by
  have how := consumption kind l
  rw [h] at how
  cases how with
  | consumed ht hk ha => exact ⟨ht, hk, _, ha⟩

/-- To look at the next token is to read it and to go back: it gives the token or the fault that
reading gives, and leaves the lexer as it was. So it makes no difference to the outcomes of a
session where such requests are inserted. A token that is not consumed is refused, and then
nothing changes, or the next one cannot be read, and then it is still current; to consume it is
to read the next one. -/
theorem ahead_pure_consume_atomic (l : Lexer) :
    ahead l = readAndGoBack l ∧
    (∀ t l', ahead l = .ok t l' ↔ l' = l ∧ ∃ after, advance l = .ok t after) ∧
    (∀ e l', ahead l = .error e l' ↔ l' = l ∧ ∃ after, advance l = .error e after) ∧
    (∀ requests, keptOutcomes requests
        (outcomes LexerRequest.perform (withInserted .ahead requests) l) =
      outcomes LexerRequest.perform (requests.filterMap id) l) ∧
    (∀ requests, keptOutcomes requests
        (outcomes ParserRequest.perform (withInserted (.lexer .ahead) requests) l) =
      outcomes ParserRequest.perform (requests.filterMap id) l) ∧
    ∀ kind,
      (∀ e l', consume kind l = .error e l' → e.IsRefusal → l' = l) ∧
      (∀ e l', consume kind l = .error e l' → ¬e.IsRefusal → advance l = .error e l' ∧
        ∃ t, l.current = some t ∧ t.hasKind kind = true ∧ l'.current = some t) ∧
      ∀ t l', consume kind l = .ok t l' →
        l.current = some t ∧ t.hasKind kind = true ∧ ∃ u, advance l = .ok u l' :=
  ⟨l.ahead_eq_readAndGoBack, fun _ _ => ahead_eq_ok_iff, fun _ _ => ahead_eq_error_iff,
    fun requests => keptOutcomes_insert state_perform_ahead requests l,
    fun requests => keptOutcomes_insert state_perform_lexer_ahead requests l,
    fun _ => ⟨fun _ _ => eq_of_refused, fun _ _ => advance_of_not_refused,
      fun _ _ => advance_of_consumed⟩⟩

/-- Before a quote that stands alone a name is refused as a number, and as a name it is not consumed
since no token can be read after it. Before a bracket it is consumed. -/
theorem ahead_pure_consume_atomic_name :
    let name : Token := ⟨.ident, .text "a", ⟨0, 1, 1⟩⟩
    let l (next : Char) : Lexer := ⟨.standard, .decimal, ⟨['a', next], 1, 1, 2⟩, some name⟩
    let after := (l '\x22').skip ['\x22']
    consume .number (l '\x22') =
      .error (.atPosition (.tokenMismatch .number .ident) 0) (l '\x22') ∧
    consume .ident (l '\x22') = .error (.atPosition .unterminatedString 1) after ∧
    advance (l '\x22') = .error (.atPosition .unterminatedString 1) after ∧
    after.current = some name ∧
    ∃ t l', consume .ident (l ')') = .ok name l' ∧ advance (l ')') = .ok t l' := by
  intro name l after
  obtain ⟨-, -, -, -, -, quote⟩ := ahead_pure_consume_atomic (l '\x22')
  obtain ⟨-, -, -, -, -, bracket⟩ := ahead_pure_consume_atomic (l ')')
  have mismatch : ∃ l', consume .number (l '\x22') =
      .error (.atPosition (.tokenMismatch .number .ident) 0) l' := ⟨_, rfl⟩
  have unread : consume .ident (l '\x22') = .error (.atPosition .unterminatedString 1) after := rfl
  have consumed : ∃ l', consume .ident (l ')') = .ok name l' := ⟨_, rfl⟩
  obtain ⟨l', mismatch⟩ := mismatch
  cases (quote .number).1 _ _ mismatch (.inr ⟨_, _, _, rfl⟩)
  obtain ⟨read, t, ht, -, current⟩ :=
    (quote .ident).2.1 _ _ unread (by rintro (h | ⟨_, _, _, h⟩) <;> cases h)
  obtain ⟨l', consumed⟩ := consumed
  obtain ⟨-, -, u, hu⟩ := (bracket .ident).2.2 _ _ consumed
  exact ⟨mismatch, unread, read, current.trans ht.symm, u, l', consumed, hu⟩

end Lexer

end Quill
