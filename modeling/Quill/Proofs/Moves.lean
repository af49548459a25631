import Quill.Proofs.Peeking

/-!
# How requests move a lexer

A request to a lexer or to a parser may scan, look ahead, go back to the beginning, read many
tokens, follow rules, and fail anywhere in between. Whatever it does to the lexer is put together
from three moves (`Lexer.Move`): characters that stand next are passed over, the lexer goes back to
the beginning of its text, or a token is read. Only two requests do something else first: one binds
a text, and one sets the radix (`LexerRequest.configure`).

So a property of lexers that each move keeps, and that those two requests keep, is true after every
request, also after those that failed (`ParserRequest.moves`), and by `forall₂_outcomes` it is true
throughout a session.
-/

namespace Quill

open TokenReader

/-! ## Sessions -/

section
variable {σ ρ : Type} {perform : ρ → σ → Outcome σ}

/-- The state that requests leave. -/
def stateAfter (perform : ρ → σ → Outcome σ) (requests : List ρ) (s : σ) : σ :=
  requests.foldl (fun s request => (perform request s).state) s

/-- The last request is performed in the state that those before it leave. -/
theorem stateAfter_concat (requests : List ρ) (request : ρ) (s : σ) :
    stateAfter perform (requests ++ [request]) s =
      (perform request (stateAfter perform requests s)).state := by
  simp [stateAfter]

/-- The last request is made in the state that the others leave. -/
theorem outcomes_concat (requests : List ρ) (request : ρ) (s : σ) :
    outcomes perform (requests ++ [request]) s =
      outcomes perform requests s ++ [perform request (stateAfter perform requests s)] := by
  induction requests generalizing s with
  | nil => rfl
  | cons first requests ih => exact congrArg (_ :: ·) (ih _)

/-- What is true of every outcome in a state with a property that requests keep is true throughout
a session that begins with the property. -/
theorem forall₂_outcomes {P : σ → Prop} {Q : ρ → Outcome σ → Prop}
    (step : ∀ request s, P s → P (perform request s).state ∧ Q request (perform request s))
    (requests : List ρ) {s : σ} (hs : P s) :
    List.Forall₂ Q requests (outcomes perform requests s) := by
  induction requests generalizing s with
  | nil => exact .nil
  | cons request requests ih =>
    obtain ⟨kept, answered⟩ := step request s hs
    exact .cons answered (ih kept)

end

/-! ## The state that is left -/

section
variable {ε σ α β : Type}

/-- The state that an operation leaves, whether or not it fails. -/
def stateOf : EStateM.Result ε σ α → σ
  | .ok _ s | .error _ s => s

/-- To map the result leaves the state as it is. -/
theorem stateOf_map (f : α → β) (x : EStateM ε σ α) (s : σ) :
    stateOf ((f <$> x) s) = stateOf (x s) := by
  show stateOf (EStateM.map f x s) = _
  unfold EStateM.map
  cases x s <;> rfl

/-- A mapped computation succeeds if the computation does. -/
theorem map_eq_ok {f : α → β} {x : EStateM ε σ α} {s s' : σ} {b : β}
    (h : (f <$> x) s = .ok b s') : ∃ a, x s = .ok a s' ∧ f a = b := by
  change EStateM.map f x s = _ at h
  unfold EStateM.map at h
  cases hx : x s with
  | ok a s₁ =>
    rw [hx] at h
    cases h
    exact ⟨a, rfl, rfl⟩
  | error e s₁ =>
    rw [hx] at h
    cases h

/-- To get the state and go on is to go on with the state. -/
theorem get_bind (f : σ → EStateM ε σ β) (s : σ) :
    ((get : EStateM ε σ σ) >>= f) s = f s s :=
  rfl

/-- The state after two operations is that of the second one, unless the first one fails. -/
theorem stateOf_bind (x : EStateM ε σ α) (f : α → EStateM ε σ β) (s : σ) :
    stateOf ((x >>= f) s) =
      match x s with
      | .ok a s' => stateOf (f a s')
      | .error _ s' => s' := by
  rw [bind_eq]
  cases x s <;> rfl

end

/-- The outcome of a result has its state. -/
theorem Outcome.state_ofResult {σ : Type} (x : EStateM.Result Fault σ Reply) :
    (Outcome.ofResult x).state = stateOf x := by
  cases x <;> rfl

/-! ## What scanners take -/

/-- The gap is what the text begins with. -/
theorem prefix_gap (cs : List Char) : gap cs <+: cs := by
  obtain ⟨after, h, -⟩ := exists_isGap cs
  exact ⟨after, h.symm⟩

namespace Scan
variable {keywords : KeywordTable} {r : Radix} {previous : Option Kind} {start : Location}
  {cs : List Char}

/-- The scan of a string takes what the text begins with. -/
theorem prefix_literal {quote : Char} : (literal start quote cs).taken <+: quote :: cs := by
  obtain ⟨after, h⟩ := taken_literalBody quote cs
  exact ⟨after, congrArg (quote :: ·) h⟩

/-- The scan of an operator takes what the text begins with. -/
theorem prefix_operator? {scan : Scan} (h : operator? previous start cs = some scan) :
    scan.taken <+: cs := by
  obtain ⟨⟨lexeme, o⟩, spelled, rfl⟩ := Option.map_eq_some_iff.1 h
  obtain ⟨-, n, rfl⟩ := leadingOperator?_eq_some spelled
  exact List.take_prefix ..

/-- A scan takes characters that stand next, and none if no token begins there. -/
theorem prefix_token : (token keywords r previous start cs).taken <+: cs := by
  unfold token
  split
  · exact List.nil_prefix
  · split_ifs
    · exact List.takeWhile_prefix _
    · exact List.takeWhile_prefix _
    · exact prefix_literal
    · split
      · rename_i scan h
        exact prefix_operator? h
      · exact List.nil_prefix

end Scan

/-! ## Moves -/

namespace Lexer
variable {l l' : Lexer}

/-- One move of a lexer in its text. -/
inductive Move (l : Lexer) : Lexer → Prop
  | skip {text} : text <+: l.cursor.rest → Move l (l.skip text)
  | rewind : Move l l.rewind
  | read {t l'} : advance l = .ok t l' → Move l l'

/-- Any number of moves. -/
abbrev Moves : Lexer → Lexer → Prop := Relation.ReflTransGen Move

/-- What is made of the result moves nothing. -/
theorem moves_map {α β : Type} {f : α → β} {x : LexerM α} (h : l.Moves (stateOf (x l))) :
    l.Moves (stateOf ((f <$> x) l)) := by
  rwa [stateOf_map]

/-- To skip what the text begins with is a move. -/
theorem moves_skip {text : List Char} (h : text <+: l.cursor.rest) : l.Moves (l.skip text) :=
  .single (.skip h)

/-- To skip the gap is a move. -/
theorem moves_skipGap (l : Lexer) : l.Moves l.skipGap := moves_skip (prefix_gap _)

/-- The next scan takes what comes after the gap. -/
theorem prefix_nextScan (l : Lexer) : l.nextScan.taken <+: l.skipGap.cursor.rest :=
  Scan.prefix_token

/-- Where no token can be read, characters have been passed over all the same. -/
theorem moves_advance (l : Lexer) : l.Moves (stateOf (advance l)) := by
  cases h : advance l with
  | ok t l' => exact .single (.read h)
  | error e l' =>
    unfold advance at h
    dsimp only at h
    split at h
    · cases h
    · cases h
      exact l.moves_skipGap.tail (.skip l.prefix_nextScan)

/-- To begin again and read a token is a move, also where it fails. -/
theorem moves_reset (l : Lexer) : l.Moves (stateOf (reset l)) :=
  .head .rewind (moves_advance l.rewind)

/-- To consume a token is a move, also where it fails. -/
theorem moves_consume (kind : Kind) (l : Lexer) : l.Moves (stateOf (consume kind l)) := by
  have how := consumption kind l
  generalize consume kind l = result at how
  cases how with
  | refused => exact .refl
  | unread _ _ _ ha =>
    have moved := l.moves_advance
    rwa [ha] at moved
  | consumed _ _ ha => exact .single (.read ha)

/-- Tokens are read up to the last one, or up to where none can be read. -/
theorem moves_tokensFrom (l : Lexer) : l.Moves (stateOf l.tokensFrom) := by
  fun_induction tokensFrom l with
  | case1 l e l' ha =>
    have moved := l.moves_advance
    rwa [ha] at moved
  | case2 l t l' ha ht => exact .single (.read ha)
  | case3 l t l' ha ht ts l'' hr ih | case4 l t l' ha ht e l'' hr ih =>
    rw [hr] at ih
    exact .head (.read ha) ih

/-- A move changes the place and the current token, and neither the text nor how it is read. -/
structure SameText (l l' : Lexer) : Prop where
  keywords : l'.keywords = l.keywords
  radix : l'.radix = l.radix
  source : l'.source = l.source

/-- A single move leaves the text, the radix and the reserved words. -/
theorem Move.sameText (h : l.Move l') : l.SameText l' := by
  cases h with
  | skip => exact ⟨rfl, rfl, rfl⟩
  | rewind => exact ⟨rfl, rfl, rfl⟩
  | read ha =>
    obtain ⟨-, rfl⟩ := advance_eq_ok ha
    exact ⟨rfl, rfl, rfl⟩

/-- Moves leave the text, the radix and the reserved words. -/
theorem Moves.sameText (h : l.Moves l') : l.SameText l' := by
  induction h with
  | refl => exact ⟨rfl, rfl, rfl⟩
  | tail _ step ih =>
    have same := step.sameText
    exact ⟨same.keywords.trans ih.keywords, same.radix.trans ih.radix,
      same.source.trans ih.source⟩

/-! ## Single scanners -/

/-- To take what a scan takes is a move. -/
theorem moves_take {scan : Scan} (h : scan.taken <+: l.cursor.rest) :
    l.Moves (stateOf (take scan l)) := by
  unfold take
  split <;> exact moves_skip h

/-- To read a character is a move. -/
theorem moves_readChar (l : Lexer) : l.Moves (stateOf (readChar l)) := by
  unfold readChar Cursor.next
  cases h : l.cursor.rest with
  | nil => exact .refl
  | cons c rest => exact moves_skip ⟨rest, h.symm⟩

/-- To scan a numeral is a move, also where it fails. -/
theorem moves_scanNumeral (start : Location) (l : Lexer) :
    l.Moves (stateOf (scanNumeral start l)) :=
  moves_take <| List.takeWhile_prefix _

/-- To scan a word is a move. -/
theorem moves_scanWord (start : Location) (l : Lexer) : l.Moves (stateOf (scanWord start l)) := by
  show l.Moves (stateOf (take (.word l.keywords start l.cursor.rest) l))
  exact moves_take <| List.takeWhile_prefix _

/-- To scan a string is a move, also where it fails. -/
theorem moves_scanLiteral (start : Location) (l : Lexer) :
    l.Moves (stateOf (scanLiteral start l)) := by
  rw [scanLiteral, get_bind]
  cases h : l.cursor.rest with
  | nil => exact .refl
  | cons quote rest => exact moves_take (h ▸ Scan.prefix_literal)

/-- To scan an operator is a move, also where there is none. -/
theorem moves_scanOperator? (start : Location) (l : Lexer) :
    l.Moves (stateOf (scanOperator? start l)) := by
  rw [scanOperator?, get_bind]
  cases h : Scan.operator? (l.current.map (·.kind)) start l.cursor.rest with
  | none => exact .refl
  | some scan => exact moves_map (moves_take (Scan.prefix_operator? h))

/-! ## Rules -/

/-- To read tokens is to move. -/
theorem Moves.of_readsTo (h : ReadsTo l l') : l.Moves l' := by
  induction h with
  | refl => exact .refl
  | tail _ step ih =>
    obtain ⟨t, ha⟩ := step
    exact ih.tail (.read ha)

/-- To read tokens and stop at one is to move. -/
theorem Moves.of_stopsAt (h : StopsAt l l') : l.Moves l' := by
  obtain ⟨l₁, read, rfl | ⟨e, ha⟩⟩ := h
  · exact .of_readsTo read
  · have moved := l₁.moves_advance
    rw [show advance l₁ = .error e l' from ha] at moved
    exact (Moves.of_readsTo read).trans moved

/-- A script reads on, whether or not it comes to its end. -/
theorem moves_execute {α : Type} (script : Script α) (l : Lexer) :
    l.Moves (stateOf (script.execute l)) := by
  have run : script.execute l = script.run (fun rule => rule.run (stepsFor l)) l := by
    rw [Script.execute, bind_eq]
    rfl
  rw [run]
  cases h : script.run (fun rule => rule.run (stepsFor l)) l with
  | ok a l' =>
    refine .of_readsTo ((Script.run_eq_ok_iff.1 h).readsTo fun rule s a s' h => ?_)
    exact Rule.Parses.readsTo ⟨_, h⟩
  | error e l' =>
    exact .of_stopsAt (Script.stopsAt (fun _ _ _ _ h => Rule.stopsAt_of_run h)
      (fun _ _ _ _ h => Rule.Parses.readsTo ⟨_, h⟩) h)

/-- To parse a text is to move, also where it fails. -/
theorem moves_parse (entry : Entry) (l : Lexer) : l.Moves (stateOf (Lexer.parse entry l)) := by
  have first := l.moves_reset
  rw [Lexer.parse, stateOf_bind]
  cases h : reset l with
  | error e l' => rwa [h] at first
  | ok t l' =>
    rw [h] at first
    exact first.trans (moves_execute _ l')

end Lexer

/-! ## Requests -/

namespace LexerRequest

/-- The lexer with the text or the radix that a request gives it. A base out of range gives it no
radix. -/
def configure : LexerRequest → Lexer → Lexer
  | load text, l => l.load text
  | setRadix base, l => { l with radix := (Radix.ofInt? base).getD l.radix }
  | _, l => l

/-- A request that is answered has run to its end. -/
theorem exists_run_of_reply {request : LexerRequest} {l : Lexer} {reply : Reply}
    (h : (request.perform l).reply = .ok reply) : ∃ l', request.run l = .ok reply l' := by
  change (Outcome.ofResult (request.run l)).reply = .ok reply at h
  cases hr : request.run l with
  | ok b l' =>
    rw [hr] at h
    cases h
    exact ⟨l', rfl⟩
  | error e l' =>
    rw [hr] at h
    cases h

/-- Apart from what it gives the lexer a request only moves it. -/
theorem moves (request : LexerRequest) (l : Lexer) :
    (request.configure l).Moves (request.perform l).state := by
  show (request.configure l).Moves (Outcome.ofResult (request.run l)).state
  rw [Outcome.state_ofResult]
  cases request with
  | load text => exact .refl
  | setRadix base =>
    have sets : stateOf (run (.setRadix base) l) = configure (.setRadix base) l := by
      simp only [run, Lexer.setRadix, configure, stateOf_bind]
      cases Radix.ofInt? base <;> rfl
    rw [sets]
  | reset => exact Lexer.moves_map l.moves_reset
  | advance => exact Lexer.moves_map l.moves_advance
  | peekChar => exact .refl
  | readChar =>
    have moved := l.moves_readChar
    rw [run, stateOf_bind]
    cases h : Lexer.readChar l <;> rwa [h] at moved
  | ahead =>
    have same := l.state_perform_ahead
    rw [show (LexerRequest.ahead.perform l).state = stateOf (run .ahead l) from
      Outcome.state_ofResult _] at same
    rw [same]
    exact .refl
  | consume kind => exact Lexer.moves_map (l.moves_consume kind)
  | tokens => exact Lexer.moves_map (.head .rewind l.rewind.moves_tokensFrom)
  | skipGap => exact l.moves_skipGap
  | skipLine => exact Lexer.moves_skip <| List.takeWhile_prefix _
  | isDigit text => exact .refl
  | number text pos =>
    rw [run, get_bind]
    cases l.radix.numberOfText text pos <;> exact .refl
  | scanNumeral start => exact Lexer.moves_map (l.moves_scanNumeral start)
  | scanWord start => exact Lexer.moves_map (l.moves_scanWord start)
  | scanLiteral start => exact Lexer.moves_map (l.moves_scanLiteral start)
  | scanOperator start =>
    have moved := l.moves_scanOperator? start
    rw [run, stateOf_bind]
    cases h : Lexer.scanOperator? start l with
    | error e l' => rwa [h] at moved
    | ok found l' =>
      rw [h] at moved
      cases found <;> exact moved

end LexerRequest

namespace ParserRequest

/-- The lexer of a parser with the text or the radix that a request gives it. -/
def configure : ParserRequest → Lexer → Lexer
  | lexer request, l => request.configure l
  | _, l => l

/-- To parse is to move, and so is to follow a rule. -/
theorem moves (request : ParserRequest) (l : Lexer) :
    (request.configure l).Moves (request.perform l).state := by
  cases request with
  | lexer request => exact request.moves l
  | parse entry =>
    show l.Moves (Outcome.ofResult (ParserRequest.run (.parse entry) l)).state
    rw [Outcome.state_ofResult, run, stateOf_map]
    exact l.moves_parse entry
  | rule request =>
    show l.Moves (Outcome.ofResult (request.script.execute l)).state
    rw [Outcome.state_ofResult]
    exact l.moves_execute _

end ParserRequest

end Quill
