import Quill.Proofs.MissingOperand
import Quill.Proofs.OnDemand

/-!
# Every rule makes progress

The tokens that can be scanned from a text have indices, and a lexer stands at one of them when that
token is current and the stream is just after it (`Lexer.StandsAt`). A construct that is parsed from
there comes to a token with a greater index, or it is the placeholder for an operand at the end of
the input and leaves the lexer as it is. No rule goes back, whether it is parsed or fails, and every
one comes to an end (`parse_progresses`).

The measure is not the place in the stream, since the last token is consumed without reading on. It
is a token other than the end that is consumed on the way (`Advances`), and the constructs are shown
to consume one by induction on their derivations (`Rule.Derives.advances`): either a construct
begins with consuming a token, or it follows another one that does.
-/

namespace Quill

open TokenReader LawfulReader

/-! ## What a rule consumes -/

section
variable {σ : Type} [TokenReader σ] {s s₁ s' : σ} {t : Token} {kind : Kind}

/-- A token other than the end is consumed on the way from the one state to the other. -/
def Advances (s s' : σ) : Prop :=
  ∃ s₁ s₂ t u, ReadsTo s s₁ ∧ current? s₁ = some t ∧ t.kind ≠ .eof ∧ advance s₁ = .ok u s₂ ∧
    ReadsTo s₂ s'

/-- To consume a token is to read on. -/
theorem Consumes.readsTo (h : Consumes kind s t s₁) : ReadsTo s s₁ := .single h.2.2

/-- To end a statement is to read on, or to stay. -/
theorem Terminates.readsTo (h : Terminates s s₁) : ReadsTo s s₁ := by
  rcases h with ⟨t, -, ⟨-, hc⟩ | ⟨-, rfl⟩⟩
  · exact hc.readsTo
  · exact .refl

/-- A rule only reads on. -/
theorem Rule.Derives.readsTo {c : Category} {rule : Rule c} {a : c.Tree}
    (h : rule.Derives s a s') : ReadsTo s s' := h.parses.readsTo

/-- To consume a token that is not the end of the input is to move on. -/
theorem Consumes.advances (h : Consumes kind s t s₁) (hk : kind ≠ .eof) (hr : ReadsTo s₁ s') :
    Advances s s' := by
  obtain ⟨ht, has, u, ha⟩ := h
  exact ⟨s, s₁, t, u, .refl, ht, fun he => hk (Token.eq_eof_of_hasKind he has), ha, hr⟩

/-- To read on and then move on is to move on. -/
theorem Advances.of_readsTo (hr : ReadsTo s s₁) (h : Advances s₁ s') : Advances s s' := by
  obtain ⟨s₂, s₃, t, u, before, rest⟩ := h
  exact ⟨s₂, s₃, t, u, hr.trans before, rest⟩

/-- To move on and then read on is to move on. -/
theorem Advances.trans (h : Advances s s₁) (hr : ReadsTo s₁ s') : Advances s s' := by
  obtain ⟨s₂, s₃, t, u, before, ht, hk, ha, after⟩ := h
  exact ⟨s₂, s₃, t, u, before, ht, hk, ha, after.trans hr⟩

/-- Whether the rule stands for a construct of the language, and not for a repetition, for the end
of the input, or for a whole text. -/
def Rule.isConstruct : {c : Category} → Rule c → Bool
  | _, program | _, function | _, params | _, scope | _, statement | _, named | _, ret | _, branch
  | _, clause _ | _, expr | _, term | _, power | _, factor | _, name | _, call | _, args _
  | _, disjunction | _, conjunction | _, negation | _, comparison | _, comparand => true
  | _, _ => false

/-- What the rule gives at the end of the input, if that is at `pos`: a placeholder, or a statement
that is one. -/
def Rule.placeholder? : {c : Category} → Rule c → Int → Option c.Tree
  | _, expr, pos | _, term, pos | _, power, pos | _, factor, pos => some (.leaf .none .absent pos)
  | _, named, pos => some (.expr (.leaf .none .absent pos) pos)
  | _, _, _ => none

/-- The rule is parsed at the end of the input, as a placeholder. -/
def Rule.Stays {c : Category} (rule : Rule c) (s : σ) (a : c.Tree) (s' : σ) : Prop :=
  s' = s ∧ ∃ t, current? s = some t ∧ t.kind = .eof ∧ rule.placeholder? t.pos = some a

/-- A rule stays where it is only at the end of the input. -/
theorem Rule.Stays.atEnd {c : Category} {rule : Rule c} {a : c.Tree} (h : rule.Stays s a s') :
    AtEnd s := by
  obtain ⟨-, t, ht, hk, -⟩ := h
  exact ⟨t, ht, hk⟩

/-- A rule that has no placeholder is not parsed as one. -/
theorem Rule.not_stays {c : Category} {rule : Rule c} {a : c.Tree}
    (hn : ∀ pos, rule.placeholder? pos = none) : ¬rule.Stays s a s' := by
  rintro ⟨-, t, -, -, h⟩
  cases (hn t.pos).symm.trans h

/-- A construct consumes a token other than the end, or is a placeholder at the end. -/
theorem Rule.Derives.advances {c : Category} {rule : Rule c} {a : c.Tree}
    (h : rule.Derives s a s') (hr : rule.isConstruct = true) :
    Advances s s' ∨ rule.Stays s a s' := by
  induction h with
  | program hx _ hf hx' hfs _ ih =>
    have first := (ih rfl).resolve_right (Rule.not_stays fun _ => rfl)
    exact .inl (.of_readsTo hx.readsTo (first.trans (hx'.readsTo.trans hfs.readsTo)))
  | function hf hn hp hb =>
    exact .inl (hf.advances nofun (hn.readsTo.trans (hp.readsTo.trans hb.readsTo)))
  | params ho hns hc | group _ ho hns hc | condition _ ho hns hc | args ho hns hc =>
    exact .inl (ho.advances nofun (hns.readsTo.trans hc.readsTo))
  | scope ho hx hss hc =>
    exact .inl (ho.advances nofun (hx.readsTo.trans (hss.readsTo.trans hc.readsTo)))
  | block _ _ _ ih | byCondition _ _ _ ih | byReturn _ _ _ ih | byFunction _ _ _ ih
  | byCall _ _ _ ih | positive _ _ _ ih =>
    exact .inl ((ih rfl).resolve_right (Rule.not_stays fun _ => rfl))
  | byName ht hk _ ih | name ht hk _ ih =>
    have before := not_atEnd_of_current ht (by rw [hk]; nofun)
    exact .inl ((ih rfl).resolve_right fun h => before h.atEnd)
  | byValue ht hk _ _ hl ih =>
    have before := not_atEnd_of_current ht fun he => absurd (he ▸ hk) (by decide)
    exact .inl (((ih rfl).resolve_right fun h => before h.atEnd).trans hl.readsTo)
  | value ht hk _ _ _ ih =>
    have before := not_atEnd_of_current ht fun he => absurd (he ▸ hk) (by decide)
    exact .inl ((ih rfl).resolve_right fun h => before h.atEnd)
  | empty _ hc | number _ hc | string _ hc | bool _ hc | symbol _ _ hc | truth _ hc =>
    exact .inl (hc.advances nofun .refl)
  | assign _ _ hn hc he hl =>
    exact .inl (hn.advances nofun (hc.readsTo.trans (he.readsTo.trans hl.readsTo)))
  | expr ht _ _ _ hl ih =>
    rcases ih rfl with h | ⟨rfl, u, hu, hk, heq⟩
    · exact .inl (h.trans hl.readsTo)
    · cases ht.symm.trans hu
      cases heq
      obtain ⟨v, hv, ⟨hkv, -⟩ | ⟨-, rfl⟩⟩ := hl
      · cases ht.symm.trans hv
        cases hk.symm.trans hkv
      · exact .inr ⟨rfl, _, ht, hk, rfl⟩
  | retNone hc _ _ hl => exact .inl (hc.advances nofun hl.readsTo)
  | ret hc _ _ he hl => exact .inl (hc.advances nofun (he.readsTo.trans hl.readsTo))
  | branchElse hc hd hx hcs _ he ha =>
    exact .inl (hc.advances nofun (hd.readsTo.trans (hx.readsTo.trans (hcs.readsTo.trans
      (he.readsTo.trans ha.readsTo)))))
  | branch hc hd hx hcs =>
    exact .inl (hc.advances nofun (hd.readsTo.trans (hx.readsTo.trans hcs.readsTo)))
  | clause _ ha ih | disjunction _ ha ih | conjunction _ ha ih | comparison _ ha ih =>
    exact .inl (((ih rfl).resolve_right (Rule.not_stays fun _ => rfl)).trans ha.readsTo)
  | sum _ ht ih | product _ ht ih =>
    rcases ih rfl with h | ⟨rfl, u, hu, hk, heq⟩
    · exact .inl (h.trans ht.readsTo)
    · obtain ⟨rfl, rfl⟩ := ht.finished ⟨u, hu, hk⟩
      exact .inr ⟨rfl, u, hu, hk, heq⟩
  | base _ _ _ ih => exact ih rfl
  | power _ ht hk he ih =>
    rcases ih rfl with h | ⟨rfl, u, hu, hk', -⟩
    · exact .inl (h.trans he.readsTo)
    · cases ht.symm.trans hu
      cases hk.symm.trans hk'
  | exponent _ hc he | negation _ hc he | opposite _ hc he =>
    exact .inl (hc.advances nofun he.readsTo)
  | sign hk hc he =>
    have sign : _ ≠ Kind.eof := fun he => by rcases hk with hk | hk <;> cases hk.symm.trans he
    exact .inl (hc.advances sign he.readsTo)
  | missing ht hk => exact .inr ⟨rfl, _, ht, hk, rfl⟩
  | call hc _ ha => exact .inl (hc.advances nofun ha.readsTo)
  | _ => cases hr

/-- At the end of the input a construct that has a placeholder is one. -/
theorem Rule.derives_placeholder {c : Category} {rule : Rule c} {a : c.Tree}
    (ht : current? s = some t) (hk : t.kind = .eof) (hf : Foresees s t)
    (h : rule.placeholder? t.pos = some a) : rule.Derives s a s := by
  have not_op {os : List Operator} : t.kind ∉ os.map .op := by
    rw [hk]
    simp
  have power : Rule.power.Derives s (.leaf .none .absent t.pos) s :=
    .base (.missing ht hk) ht (by rw [hk]; nofun)
  have term : Rule.term.Derives s (.leaf .none .absent t.pos) s :=
    .product power (.productEnd ht not_op)
  have expr : Rule.expr.Derives s (.leaf .none .absent t.pos) s := .sum term (.sumEnd ht not_op)
  cases rule with
  | expr => cases h; exact expr
  | term => cases h; exact term
  | power => cases h; exact power
  | factor => cases h; exact .missing ht hk
  | named =>
    cases h
    exact .expr ht hf (by rw [hk]; nofun) expr ⟨t, ht, .inr ⟨by rw [hk]; nofun, rfl⟩⟩
  | _ => cases h

/-! ## Where a run stops -/

/-- The state has been read on to, or it is what is left where no further token can be read. -/
def StopsAt (s s' : σ) : Prop := ∃ s₁, ReadsTo s s₁ ∧ (s' = s₁ ∨ ∃ e, advance s₁ = .error e s')

/-- A run can stop where it began. -/
theorem StopsAt.refl : StopsAt s s := ⟨s, .refl, .inl rfl⟩

/-- A run that reads on first stops where it does from there. -/
theorem StopsAt.of_readsTo (hr : ReadsTo s s₁) (h : StopsAt s₁ s') : StopsAt s s' := by
  obtain ⟨s₂, before, h⟩ := h
  exact ⟨s₂, hr.trans before, h⟩

/-- Where a script that fails stops, given where the rules do that it follows. -/
theorem Script.stopsAt {follow : {c : Category} → Rule c → EStateM Fault σ c.Tree}
    (hf : ∀ {c : Category} (rule : Rule c) {s : σ} {e s'}, follow rule s = .error e s' →
      StopsAt s s')
    (hp : ∀ {c : Category} (rule : Rule c) {s : σ} {a s'}, follow rule s = .ok a s' →
      ReadsTo s s')
    {α : Type} {script : Script α} {e : Fault} (h : script.run follow s = .error e s') :
    StopsAt s s' := by
  induction script generalizing s with
  | done a => cases h
  | fail d =>
    cases h
    exact .refl
  | current next ih =>
    cases ht : current? s with
    | none =>
      rw [run, bind_eq, current_eq, ht] at h
      cases h
      exact .refl
    | some t =>
      rw [run_current ht] at h
      exact ih t h
  | ahead next ih =>
    cases ha : advance s with
    | error e₁ s₁ =>
      rw [run_ahead_error ha] at h
      cases h
      exact .refl
    | ok u s₁ =>
      rw [run_ahead ha] at h
      exact ih u h
  | eat kind next ih =>
    cases ht : current? s with
    | none =>
      rw [run, bind_eq, consume_eq, ht] at h
      cases h
      exact .refl
    | some t =>
      by_cases hk : t.hasKind kind = true
      · cases ha : advance s with
        | error e₁ s₁ =>
          rw [run_eat_error ht hk ha] at h
          cases h
          exact ⟨s, .refl, .inr ⟨_, ha⟩⟩
        | ok u s₁ =>
          rw [run_eat_advance ht hk ha] at h
          exact (ih t h).of_readsTo (.single ⟨u, ha⟩)
      · rw [run_eat_mismatch ht hk] at h
        cases h
        exact .refl
  | follow rule next ih =>
    cases hc : follow rule s with
    | error e₁ s₁ =>
      rw [run_follow_error hc] at h
      cases h
      exact hf rule hc
    | ok a s₁ =>
      rw [run_follow_ok hc] at h
      exact (ih a h).of_readsTo (hp rule hc)

/-- A rule that fails has read on and stopped. -/
theorem Rule.stopsAt_of_run {n : Nat} {c : Category} {rule : Rule c} {e : Fault}
    (h : rule.run n s = .error e s') : StopsAt s s' := by
  induction n generalizing c s e s' with
  | zero =>
    cases h
    exact .refl
  | succ n ih =>
    exact Script.stopsAt (fun _ _ _ _ h => ih h) (fun _ _ _ _ h => Parses.readsTo ⟨n, h⟩) h

end

/-! ## Where a lexer stands -/

namespace Lexer

/-- The second lexer has been read on from the first one to the token with this index, which is
current, and the stream is just after it. The end of the input is the last token. -/
inductive StandsAt (start : Lexer) : Nat → Lexer → Prop
  | first {t : Token} {l : Lexer} : advance start = .ok t l → StandsAt start 0 l
  | next {i : Nat} {l l' : Lexer} {t u : Token} : StandsAt start i l → l.current = some t →
      t.kind ≠ .eof → advance l = .ok u l' → StandsAt start (i + 1) l'

variable {start l l' : Lexer} {t u : Token} {e : Fault} {i : Nat}

/-- To read a token leaves the reserved words. -/
theorem keywords_of_advance (h : advance l = .ok t l') : l'.keywords = l.keywords := by
  obtain ⟨-, rfl⟩ := advance_eq_ok h
  rfl

/-- The token that is read is current. -/
theorem current_of_advance_ok (h : advance l = .ok t l') : l'.current = some t := by
  obtain ⟨-, rfl⟩ := advance_eq_ok h
  rfl

/-- Where no token can be read the current one stays. -/
theorem current_of_advance_error (h : advance l = .error e l') : l'.current = l.current := by
  unfold advance at h
  dsimp only at h
  split at h
  · cases h
  · cases h
    rfl

/-- Where no token can be read none is scanned. -/
theorem scanned_of_error (h : advance l = .error e l') : l.scanned = [] := by
  rw [scanned]
  split <;> simp_all

namespace StandsAt

/-- A lexer that stands at an index has the reserved words that it had before. -/
theorem keywords (h : start.StandsAt i l) : l.keywords = start.keywords := by
  induction h with
  | first ha => exact keywords_of_advance ha
  | next _ _ _ ha ih => exact (keywords_of_advance ha).trans ih

/-- Of what can be scanned there is left, from the index on, the current token and what can still be
scanned after it. -/
theorem exists_drop (h : start.StandsAt i l) : ∃ t, l.current = some t ∧
    start.scanned.drop i = t :: if t.kind = .eof then [] else l.scanned := by
  have cut {l l' : Lexer} {t : Token} (ha : advance l = .ok t l') :
      l.scanned = t :: if t.kind = .eof then [] else l'.scanned := by
    rw [scanned_eq ha]
    split <;> rfl
  induction h with
  | first ha => exact ⟨_, current_of_advance_ok ha, cut ha⟩
  | @next i l l' t u _ ht hk ha ih =>
    obtain ⟨t', ht', rest⟩ := ih
    cases ht.symm.trans ht'
    refine ⟨u, current_of_advance_ok ha, ?_⟩
    rw [← List.tail_drop, rest, if_neg hk]
    exact cut ha

/-- The current token is the scanned one with the index. -/
theorem current_eq (h : start.StandsAt i l) : l.current = start.scanned[i]? := by
  obtain ⟨t, ht, rest⟩ := h.exists_drop
  rw [ht, ← List.head?_drop, rest, List.head?_cons]

/-- An index at which a lexer stands is that of a token that is scanned. -/
theorem lt_length (h : start.StandsAt i l) : i < start.scanned.length := by
  obtain ⟨t, ht, -⟩ := h.exists_drop
  rw [h.current_eq] at ht
  exact (List.getElem?_eq_some_iff.1 ht).1

/-- A lexer that stands at an index has a current token. -/
theorem valid (h : start.StandsAt i l) : Valid l := by
  obtain ⟨t, ht, -⟩ := h.exists_drop
  exact Option.isSome_iff_exists.2 ⟨t, ht⟩

/-- For every token that can be scanned there is a lexer that stands there. -/
theorem exists_of_lt (hi : i < start.scanned.length) : ∃ l, start.StandsAt i l := by
  induction i with
  | zero =>
    cases ha : advance start with
    | ok t l => exact ⟨l, .first ha⟩
    | error e l =>
      rw [scanned_of_error ha] at hi
      cases hi
  | succ i ih =>
    obtain ⟨l, h⟩ := ih (Nat.lt_of_succ_lt hi)
    obtain ⟨t, ht, rest⟩ := h.exists_drop
    have more : (if t.kind = .eof then [] else l.scanned) ≠ [] := by
      have left := congrArg List.length rest
      rw [List.length_drop, List.length_cons] at left
      exact List.length_pos_iff.1 (by omega)
    split at more
    · exact absurd rfl more
    · rename_i hk
      cases ha : advance l with
      | ok u l' => exact ⟨l', .next h ht hk ha⟩
      | error e l' => exact absurd (scanned_of_error ha) more

section
variable (hk : start.keywords.NoEnd)
include hk

/-- At the end of the input reading on changes nothing. -/
theorem advance_of_eof (h : start.StandsAt i l) (ht : l.current = some t) (he : t.kind = .eof) :
    advance l = .ok t l := by
  cases h with
  | first ha =>
    cases (current_of_advance_ok ha).symm.trans ht
    exact Lexer.advance_of_eof hk ha he
  | next h _ _ ha =>
    cases (current_of_advance_ok ha).symm.trans ht
    exact Lexer.advance_of_eof (h.keywords ▸ hk) ha he

/-- Reading on leads to the next index, or nowhere at the end of the input. -/
theorem advance (h : start.StandsAt i l) (ha : Lexer.advance l = .ok u l') :
    (¬AtEnd l ∧ start.StandsAt (i + 1) l') ∨ AtEnd l ∧ l' = l := by
  obtain ⟨t, ht, -⟩ := h.exists_drop
  by_cases he : t.kind = .eof
  · cases ha.symm.trans (h.advance_of_eof hk ht he)
    exact .inr ⟨⟨_, ht, he⟩, rfl⟩
  · exact .inl ⟨not_atEnd_of_current ht he, .next h ht he ha⟩

/-- A lexer that is read on does not come to a lesser index. -/
theorem readsTo (h : start.StandsAt i l) (hr : ReadsTo l l') :
    ∃ j, i ≤ j ∧ start.StandsAt j l' := by
  induction hr with
  | refl => exact ⟨i, Nat.le_refl i, h⟩
  | tail _ step ih =>
    obtain ⟨j, le, hj⟩ := ih
    obtain ⟨u, ha⟩ := step
    rcases hj.advance hk ha with ⟨-, next⟩ | ⟨-, rfl⟩
    · exact ⟨j + 1, Nat.le_succ_of_le le, next⟩
    · exact ⟨j, le, hj⟩

/-- Where a token other than the end is consumed it comes to a greater index. -/
theorem advances (h : start.StandsAt i l) (hr : Advances l l') :
    ∃ j, i < j ∧ start.StandsAt j l' := by
  obtain ⟨l₁, l₂, t, u, before, ht, he, ha, after⟩ := hr
  obtain ⟨j, le, hj⟩ := h.readsTo hk before
  rcases hj.advance hk ha with ⟨-, next⟩ | ⟨ended, -⟩
  · obtain ⟨m, le', hm⟩ := next.readsTo hk after
    exact ⟨m, by omega, hm⟩
  · exact absurd ended (not_atEnd_of_current ht he)

end

end StandsAt

/-- A scan gives the end of the input or takes a character. -/
theorem offset_lt_of_advance (h : Lexer.advance l = .ok t l') (hk : t.kind ≠ .eof) :
    l.cursor.offset < l'.cursor.offset := by
  have lt := remaining_lt_of_advance h hk
  obtain ⟨-, rfl⟩ := advance_eq_ok h
  simp only [remaining, Cursor.length_rest, skip, skipGap, Cursor.source_skip] at lt ⊢
  omega

/-- No more tokens can be scanned than there are characters, with the end of the input. -/
theorem length_scanned_le (l : Lexer) : l.scanned.length ≤ l.remaining + 1 := by
  induction l using scanned.induct with
  | case1 l e l' ha =>
    rw [scanned_of_error ha]
    exact Nat.zero_le _
  | case2 l t l' ha he =>
    rw [scanned_eq ha, if_pos he]
    exact Nat.le_add_left ..
  | case3 l t l' ha he ih =>
    have lt := remaining_lt_of_advance ha he
    rw [scanned_eq ha, if_neg he, List.length_cons]
    omega

end Lexer

/-! ## Progress -/

/-- What can come of a rule that is parsed from the lexer `l`, which stands at the index `i`. -/
structure Rule.Progresses (start : Lexer) (i : Nat) (l : Lexer) {c : Category} (rule : Rule c) :
    Prop where
  /-- It comes to an end: with steps enough no further ones make a difference. -/
  ends : ∀ n, stepsFor l ≤ n → rule.run n l = rule.parse l
  /-- It does not fail for want of steps. -/
  settled : Settled (rule.parse l)
  /-- It never goes back. -/
  onward : ∀ a l', rule.parse l = .ok a l' → ∃ j, i ≤ j ∧ start.StandsAt j l'
  /-- A construct goes on, or is a placeholder at the end of the input and changes nothing. -/
  forward : rule.isConstruct = true → ∀ a l', rule.parse l = .ok a l' →
    (∃ j, i < j ∧ start.StandsAt j l') ∨ rule.Stays l a l'
  /-- At the end of the input a construct that has a placeholder is one. -/
  placeholder : ∀ t a, l.current = some t → t.kind = .eof → rule.placeholder? t.pos = some a →
    rule.parse l = .ok a l
  /-- Where it fails the current token does not stand before the one that it began at. -/
  failure : ∀ e l', rule.parse l = .error e l' →
    ∃ j, i ≤ j ∧ j < start.scanned.length ∧ l'.current = start.scanned[j]?

/-- Every rule makes progress from every token. -/
theorem Lexer.StandsAt.progresses {start l : Lexer} {i : Nat} (h : start.StandsAt i l)
    (hk : start.keywords.NoEnd) {c : Category} (rule : Rule c) : rule.Progresses start i l where
  ends n hn := by
    rw [Rule.parse_eq]
    exact Rule.run_of_settled (Rule.settled_run_stepsFor h.valid) hn
  settled := by
    rw [Rule.parse_eq]
    exact Rule.settled_run_stepsFor h.valid
  onward a l' hp := by
    have parsed := (Rule.parse_eq_ok_iff h.valid).1 hp
    exact h.readsTo hk parsed.readsTo
  forward hr a l' hp := by
    have derived := Rule.parses_iff_derives.1 ((Rule.parse_eq_ok_iff h.valid).1 hp)
    exact (derived.advances hr).imp_left (h.advances hk)
  placeholder t a ht he ha := by
    have foresees : Foresees l t := ⟨l, h.advance_of_eof hk ht he⟩
    rw [Rule.parse_eq_ok_iff h.valid, Rule.parses_iff_derives]
    exact Rule.derives_placeholder ht he foresees ha
  failure e l' hp := by
    rw [Rule.parse_eq] at hp
    obtain ⟨l₁, reads, stops⟩ := Rule.stopsAt_of_run hp
    obtain ⟨j, le, hj⟩ := h.readsTo hk reads
    refine ⟨j, le, hj.lt_length, ?_⟩
    rcases stops with rfl | ⟨e', ha⟩
    · exact hj.current_eq
    · rw [Lexer.current_of_advance_error ha, hj.current_eq]

/-- A parse of a text does not fail for want of steps. -/
theorem parse_ne_outOfSteps {keywords : KeywordTable} {r : Radix} {entry : Entry}
    {source : String} : parse keywords r entry source ≠ .error .outOfSteps := by
  intro h
  cases ha : advance (Lexer.ofSource keywords r source) with
  | error e l =>
    rw [parse_eq_outcome, bind_eq, ha] at h
    cases h
    exact (Scan.ofScan_of_token (Lexer.advance_eq_error ha)).ne_outOfSteps rfl
  | ok t l =>
    rw [parse_of_advance ha, outcome_eq_error_iff, Rule.parse_eq] at h
    obtain ⟨l', h⟩ := h
    exact Rule.settled_run_stepsFor (Lexer.valid_of_advance ha) l' h

/-- Every rule makes progress from every token of a text, and every scan does, so every parse comes
to an end. -/
theorem parse_progresses (r : Radix) (source : String) :
    (∀ i < (scanned .standard r source).length,
      ∃ l, (Lexer.ofSource .standard r source).StandsAt i l) ∧
    (∀ i l, (Lexer.ofSource .standard r source).StandsAt i l →
      l.current = (scanned .standard r source)[i]? ∧ ∀ {c : Category} (rule : Rule c),
        rule.Progresses (Lexer.ofSource .standard r source) i l) ∧
    (∀ (l l' : Lexer) (t : Token), advance l = .ok t l' →
      t.kind = .eof ∨ l.cursor.offset < l'.cursor.offset) ∧
    (scanned .standard r source).length ≤ source.length + 1 ∧
    ∀ entry, parse .standard r entry source ≠ .error .outOfSteps := by
  refine ⟨fun i hi => Lexer.StandsAt.exists_of_lt hi, fun i l h => ⟨h.current_eq, fun rule =>
    h.progresses KeywordTable.noEnd_standard rule⟩, fun l l' t ha => ?_, ?_,
    fun _ => parse_ne_outOfSteps⟩
  · by_cases hk : t.kind = .eof
    · exact .inl hk
    · exact .inr (Lexer.offset_lt_of_advance ha hk)
  · have le := Lexer.length_scanned_le (Lexer.ofSource .standard r source)
    have all : (Lexer.ofSource .standard r source).remaining = source.length := by
      rw [Lexer.remaining]
      exact String.length_toList
    rwa [all] at le

/-- After the sign the input ends, and an operand that begins there is a placeholder. -/
theorem parse_progresses_placeholder : 2 < (scanned .standard .decimal "a+").length ∧
    ∃ l, (Lexer.ofSource .standard .decimal "a+").StandsAt 2 l ∧
      Rule.expr.parse l = .ok (.leaf .none .absent 2) l := by
  have tokens : tokenize .standard .decimal "a+" = .ok [⟨.ident, .text "a", ⟨0, 1, 1⟩⟩,
      ⟨.op .add, .text "+", ⟨1, 1, 2⟩⟩, ⟨.eof, .text "EOF", ⟨2, 1, 3⟩⟩] := by decide +kernel
  have all := scanned_of_tokenize tokens
  have third : 2 < (scanned .standard .decimal "a+").length := by
    rw [all]
    decide
  obtain ⟨stands, progresses, -⟩ := parse_progresses .decimal "a+"
  obtain ⟨l, h⟩ := stands 2 third
  obtain ⟨current, rules⟩ := progresses 2 l h
  rw [all] at current
  exact ⟨third, l, h, (rules .expr).placeholder _ _ current rfl rfl⟩

end Quill
