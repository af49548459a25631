import Quill.Proofs.Run

/-!
# The steps suffice

`Rule.parse` grants a number of steps by the length of the input. They are never used up: the
chains of rules that consume nothing are short (`Rule.rank`), the rules that repeat without
consuming anything themselves follow a rule that consumes (`Rule.moves`), and consuming makes the
input shorter. Both are read off the scripts (`Script.Shallow`, `Script.Moves`), rule by rule.

So on a reader that keeps the promises of `LawfulReader` a rule parses exactly what it can come to
(`Rule.parse_eq_ok_iff`), and never wants for steps (`Rule.settled_run_stepsFor`).
-/

namespace Quill

open TokenReader

/-- What a reader promises about the states it can get to. -/
class LawfulReader (σ : Type) [TokenReader σ] where
  /-- The states that it can get to once the first token has been read. -/
  Valid : σ → Prop
  exists_current : ∀ {s : σ}, Valid s → ∃ t, current? s = some t
  valid_advance : ∀ {s s' : σ} {t : Token}, Valid s → advance s = .ok t s' → Valid s'
  current_advance : ∀ {s s' : σ} {t : Token}, Valid s → advance s = .ok t s' →
    current? s' = some t
  remaining_le : ∀ {s s' : σ} {t : Token}, Valid s → advance s = .ok t s' →
    remaining s' ≤ remaining s
  remaining_lt : ∀ {s s' : σ} {t : Token}, Valid s → advance s = .ok t s' → t.kind ≠ .eof →
    remaining s' < remaining s
  advance_settled : ∀ {s : σ}, Valid s → Settled (advance s)

namespace LawfulReader

variable {σ : Type} [TokenReader σ] [LawfulReader σ] {s s' : σ} {t u : Token}

/-- A bound on the tokens that can still be consumed, the current one among them unless it is the
end. -/
def size (s : σ) : Nat := remaining s + if (current? s).any (·.kind ≠ .eof) then 1 else 0

omit [LawfulReader σ] in
/-- The size is at most one more than what remains to be read. -/
theorem size_le (s : σ) : size s ≤ remaining s + 1 := by
  unfold size
  split <;> omega

omit [LawfulReader σ] in
/-- At the end of the input the size is what remains to be read. -/
theorem size_of_eof (hs : current? s = some t) (ht : t.kind = .eof) : size s = remaining s := by
  simp [size, hs, ht]

omit [LawfulReader σ] in
/-- Before the end of the input the size counts the current token. -/
theorem size_of_ne_eof (hs : current? s = some t) (ht : t.kind ≠ .eof) :
    size s = remaining s + 1 := by
  simp [size, hs, ht]

/-- To read a token does not make the size larger. -/
theorem size_advance_le (hs : Valid s) (h : advance s = .ok u s') : size s' ≤ size s := by
  have here : remaining s ≤ size s := Nat.le_add_right ..
  have next := current_advance hs h
  by_cases hu : u.kind = .eof
  · have le := remaining_le hs h
    rw [size_of_eof next hu]
    omega
  · have lt := remaining_lt hs h hu
    rw [size_of_ne_eof next hu]
    omega

/-- Consuming a token other than the end makes the input shorter. -/
theorem size_advance_lt (hs : Valid s) (ht : current? s = some t) (hne : t.kind ≠ .eof)
    (h : advance s = .ok u s') : size s' < size s := by
  have next := current_advance hs h
  rw [size_of_ne_eof ht hne]
  by_cases hu : u.kind = .eof
  · have le := remaining_le hs h
    rw [size_of_eof next hu]
    omega
  · have lt := remaining_lt hs h hu
    rw [size_of_ne_eof next hu]
    omega

end LawfulReader

open LawfulReader

/-- Only the kind of the end asks for the end. -/
theorem Token.eq_eof_of_hasKind {t : Token} {kind : Kind} (ht : t.kind = .eof)
    (h : t.hasKind kind = true) : kind = .eof := by
  by_cases hk : kind = .anyOp
  · simp [Token.hasKind, Token.isOperator, Kind.isOperator, ht, hk] at h
  · simpa [Token.hasKind, ht, hk, eq_comm] using h

/-! ## What can be read off the scripts -/

namespace Rule

/-- A bound on the chains of rules that the rule can follow before a token is consumed. -/
def rank : {c : Category} → Rule c → Nat
  | _, terminators | _, function | _, params | _, names | _, scope | _, ret | _, branch
  | _, clauses | _, call | _, args _ | _, exprTail _ | _, termTail _ | _, disjunctionTail _
  | _, conjunctionTail _ | _, comparisonTail _ => 0
  | _, end_ | _, functions | _, name => 1
  | _, program | _, factor => 2
  | _, power => 3
  | _, term => 4
  | _, expr => 5
  | _, items | _, named | _, comparand => 6
  | _, statement | _, comparison => 7
  | _, statements | _, negation => 8
  | _, conjunction => 9
  | _, disjunction => 10
  | _, clause _ | _, entry _ => 11

/-- Whether the rule does not succeed without consuming a token, unless the input is at its end. -/
def moves : {c : Category} → Rule c → Bool
  | _, function | _, scope | _, statement | _, named | _, ret | _, branch | _, expr | _, term
  | _, power | _, factor | _, name | _, call => true
  | _, _ => false

/-- The rank of a rule is below the number of steps for each token. -/
theorem rank_lt {c : Category} (rule : Rule c) : rule.rank < stepsPerToken := by
  cases rule <;> simp [rank, stepsPerToken]

end Rule

namespace Script

/-- Whether the script, which finds the token `t`, follows only rules of a rank below `r` until a
token is consumed. -/
def Shallow (r : Nat) {α : Type} : Script α → Token → Prop
  | done _, _ | fail _, _ => True
  | current next, t => (next t).Shallow r t
  | ahead next, t => ∀ u, (next u).Shallow r t
  | eat kind next, _ => kind = .eof → ∀ u t, (next u).Shallow r t
  | follow rule next, t =>
    rule.rank < r ∧ (rule.moves = true ∧ t.kind ≠ .eof ∨ ∀ a t, (next a).Shallow r t)

/-- Whether the script, which finds the token `t`, consumes a token before it ends. -/
def Moves {α : Type} : Script α → Token → Prop
  | done _, _ => False
  | fail _, _ | eat _ _, _ => True
  | current next, t => (next t).Moves t
  | ahead next, t => ∀ u, (next u).Moves t
  | follow rule _, _ => rule.moves = true

section
variable {α : Type} {p : Prop} [Decidable p] {x y : Script α} {t : Token}

/-- A choice is shallow if the branch taken is. -/
theorem shallow_ite {r : Nat} :
    (if p then x else y).Shallow r t ↔ (p → x.Shallow r t) ∧ (¬p → y.Shallow r t) := by
  split <;> simp_all

/-- A choice consumes a token if the branch taken does. -/
theorem moves_ite : (if p then x else y).Moves t ↔ (p → x.Moves t) ∧ (¬p → y.Moves t) := by
  split <;> simp_all

end

end Script

namespace Rule
variable {c : Category}

/-- No rule follows a rule of its own rank or above before a token is consumed. -/
theorem shallow_script (rule : Rule c) (t : Token) : rule.script.Shallow rule.rank t := by
  cases rule with
  | entry e => cases e <;> simp [script, rank, Script.Shallow]
  | functions | statements =>
    simp +contextual [script, rank, moves, Script.Shallow, Script.shallow_ite]
  | factor =>
    simp only [script, Script.bind_eq_bind, Script.peek, Script.bind, Script.Shallow,
      Script.shallow_ite]
    have sign : t.kind = .op .pos ∨ t.kind = .op .neg → t.kind ≠ .eof := by
      rintro (h | h) <;> simp [h]
    simp +contextual [rank, Script.Shallow, sign]
  | _ => simp [script, rank, Script.Shallow, Script.shallow_ite]

/-- The rules that are said to move do, for what their scripts begin with. -/
theorem moves_script {rule : Rule c} (h : rule.moves = true) {t : Token} (ht : t.kind ≠ .eof) :
    rule.script.Moves t := by
  cases rule <;> first
    | (cases h; done)
    | simp [script, moves, Script.Moves, Script.moves_ite, ht]

end Rule

/-! ## Progress -/

section
variable {σ : Type} [TokenReader σ] [LawfulReader σ] {s s' : σ}

/-- The reader has not lost its place, and has no more to read than before. -/
def Onward (s s' : σ) : Prop := Valid s' ∧ size s' ≤ size s

/-- To go onward twice is to go onward. -/
theorem Onward.trans {s₁ s₂ s₃ : σ} (h : Onward s₁ s₂) (h' : Onward s₂ s₃) : Onward s₁ s₃ :=
  ⟨h'.1, Nat.le_trans h'.2 h.2⟩

/-- A script goes onward if the rules that it follows do. -/
theorem Script.Runs.onward {follows : {c : Category} → Rule c → σ → c.Tree → σ → Prop}
    (hf : ∀ {c : Category} (rule : Rule c) s a s', follows rule s a s' → Valid s → Onward s s')
    {α : Type} {script : Script α} {b : α} (h : script.Runs follows s b s') (hs : Valid s) :
    Onward s s' := by
  induction script generalizing s with
  | done a =>
    obtain ⟨-, rfl⟩ := h
    exact ⟨hs, Nat.le_refl _⟩
  | fail d => exact h.elim
  | current next ih | ahead next ih =>
    obtain ⟨t, -, h⟩ := h
    exact ih t h hs
  | eat kind next ih =>
    obtain ⟨t, s₁, ⟨-, -, u, ha⟩, h⟩ := h
    have hs₁ := valid_advance hs ha
    exact Onward.trans ⟨hs₁, size_advance_le hs ha⟩ (ih t h hs₁)
  | follow rule next ih =>
    obtain ⟨a, s₁, hr, h⟩ := h
    have on := hf rule s a s₁ hr hs
    exact on.trans (ih a h on.1)

/-- A rule never goes back. -/
theorem Rule.Parses.onward {c : Category} {rule : Rule c} {a : c.Tree} (h : rule.Parses s a s')
    (hs : Valid s) : Onward s s' := by
  refine h.induction (motive := fun _ s _ s' => Valid s → Onward s s') ?_ hs
  intro c rule s a s' h hs
  exact h.onward (fun _ _ _ _ h => h.2) hs

/-- A script that consumes a token makes the size smaller. -/
theorem Script.Runs.size_lt {follows : {c : Category} → Rule c → σ → c.Tree → σ → Prop}
    (hf : ∀ {c : Category} (rule : Rule c) s a s', follows rule s a s' → Valid s → Onward s s')
    {t : Token}
    (hm : ∀ {c : Category} (rule : Rule c) a s', follows rule s a s' → rule.moves = true →
      size s' < size s)
    (hs : Valid s) (ht : current? s = some t) (hne : t.kind ≠ .eof)
    {α : Type} {script : Script α} {b : α} (moves : script.Moves t)
    (h : script.Runs follows s b s') : size s' < size s := by
  induction script with
  | done a => exact moves.elim
  | fail d => exact h.elim
  | current next ih =>
    obtain ⟨u, hu, h⟩ := h
    cases ht.symm.trans hu
    exact ih t moves h
  | ahead next ih =>
    obtain ⟨u, -, h⟩ := h
    exact ih u (moves u) h
  | eat kind next ih =>
    obtain ⟨u, s₁, ⟨-, -, v, ha⟩, h⟩ := h
    have on := h.onward hf (valid_advance hs ha)
    exact Nat.lt_of_le_of_lt on.2 (size_advance_lt hs ht hne ha)
  | follow rule next ih =>
    obtain ⟨a, s₁, hr, h⟩ := h
    have on := h.onward hf (hf rule s a s₁ hr hs).1
    exact Nat.lt_of_le_of_lt on.2 (hm rule a s₁ hr moves)

/-- The rules that are said to move leave less to read. -/
theorem Rule.Parses.size_lt {c : Category} {rule : Rule c} {a : c.Tree} {t : Token}
    (h : rule.Parses s a s') (hm : rule.moves = true) (hs : Valid s) (ht : current? s = some t)
    (hne : t.kind ≠ .eof) : size s' < size s := by
  refine h.induction (motive := fun rule s _ s' => rule.moves = true → Valid s →
    current? s = some t → size s' < size s) ?_ hm hs ht
  intro c rule s a s' h hm hs ht
  exact h.size_lt (fun _ _ _ _ h hs => h.1.onward hs) (fun _ _ _ h hm => h.2 hm hs ht) hs ht hne
    (rule.moves_script hm hne)

/-! ## Steps enough -/

/-- A script settles if the rules do that it can follow: where it has read something, any rule;
before, the rules of a lesser rank. -/
theorem Script.settled_run {follow : {c : Category} → Rule c → EStateM Fault σ c.Tree}
    {m r : Nat}
    (hf : ∀ {c : Category} (rule : Rule c) (s : σ), Valid s →
      size s < m ∨ size s ≤ m ∧ rule.rank < r → Settled (follow rule s))
    (hp : ∀ {c : Category} (rule : Rule c) s a s', follow rule s = .ok a s' → rule.Parses s a s')
    {α : Type} {script : Script α} (hs : Valid s)
    (hm : size s < m ∨ size s ≤ m ∧ ∀ t, current? s = some t → script.Shallow r t) :
    Settled (script.run follow s) := by
  induction script generalizing s with
  | done a | fail d =>
    intro s₁ h
    cases h
  | current next ih =>
    obtain ⟨t, ht⟩ := exists_current hs
    rw [run_current ht]
    refine ih t hs (hm.imp_right fun h => ⟨h.1, fun u hu => ?_⟩)
    cases ht.symm.trans hu
    exact h.2 t ht
  | ahead next ih =>
    cases ha : advance s with
    | error e s₁ =>
      rw [run_ahead_error ha]
      rintro s₂ ⟨⟩
      exact advance_settled hs s₁ ha
    | ok u s₁ =>
      rw [run_ahead ha]
      exact ih u hs (hm.imp_right fun h => ⟨h.1, fun t ht => h.2 t ht u⟩)
  | eat kind next ih =>
    obtain ⟨t, ht⟩ := exists_current hs
    by_cases hk : t.hasKind kind = true
    · cases ha : advance s with
      | error e s₁ =>
        rw [run_eat_error ht hk ha]
        rintro s₂ ⟨⟩
        exact advance_settled hs s₁ ha
      | ok u s₁ =>
        rw [run_eat_advance ht hk ha]
        refine ih t (valid_advance hs ha) ?_
        have le := size_advance_le hs ha
        by_cases hne : t.kind = .eof
        · refine hm.imp (Nat.lt_of_le_of_lt le) fun h => ⟨Nat.le_trans le h.1, ?_⟩
          exact fun v _ => h.2 t ht (Token.eq_eof_of_hasKind hne hk) t v
        · have lt := size_advance_lt hs ht hne ha
          exact .inl (hm.elim (Nat.lt_trans lt) fun h => Nat.lt_of_lt_of_le lt h.1)
    · rw [run_eat_mismatch ht hk]
      rintro s₁ ⟨⟩
  | follow rule next ih =>
    obtain ⟨t, ht⟩ := exists_current hs
    have settled := hf rule s hs (hm.imp_right fun h => ⟨h.1, (h.2 t ht).1⟩)
    cases hr : follow rule s with
    | error e s₁ =>
      rw [run_follow_error hr]
      rintro s₂ ⟨⟩
      exact settled s₁ hr
    | ok a s₁ =>
      rw [run_follow_ok hr]
      have parsed := hp rule s a s₁ hr
      have on := parsed.onward hs
      refine ih a on.1 ?_
      rcases hm with lt | ⟨le, h⟩
      · exact .inl (Nat.lt_of_le_of_lt on.2 lt)
      · rcases (h t ht).2 with ⟨moves, hne⟩ | rest
        · exact .inl (Nat.lt_of_lt_of_le (parsed.size_lt moves hs ht hne) le)
        · exact .inr ⟨Nat.le_trans on.2 le, fun u _ => rest a u⟩

namespace Rule
variable {c : Category} {rule : Rule c}

/-- So many steps for each token that can still be consumed, and the rank of the rule besides, are
enough. -/
theorem settled_run {n : Nat} (hs : Valid s) (hn : stepsPerToken * size s + rule.rank < n) :
    Settled (rule.run n s) := by
  induction n generalizing c s with
  | zero => omega
  | succ n ih =>
    refine Script.settled_run (m := size s) (r := rule.rank) ?_ (fun _ _ _ _ h => ⟨n, h⟩) hs
      (.inr ⟨Nat.le_refl _, fun t _ => rule.shallow_script t⟩)
    intro c' rule' s' hs' h
    refine ih hs' ?_
    have lt := rule'.rank_lt
    unfold stepsPerToken at hn lt ⊢
    omega

/-- A parse does not want for steps. -/
theorem settled_run_stepsFor (hs : Valid s) : Settled (rule.run (stepsFor s) s) := by
  refine settled_run hs ?_
  have le := size_le s
  have lt := rule.rank_lt
  unfold stepsFor stepsPerToken at *
  omega

omit [LawfulReader σ] in
/-- A rule is parsed by a run with the steps that the input allows. -/
theorem parse_eq (rule : Rule c) (s : σ) : rule.parse s = rule.run (stepsFor s) s := by
  show (rule.run (stepsFor s) >>= fun a => (Script.done a).run _) s = _
  rw [bind_eq]
  cases rule.run (stepsFor s) s <;> rfl

/-- A parse is any run that has steps enough. -/
theorem parse_eq_run {n : Nat} (hs : Valid s) (h : Settled (rule.run n s)) :
    rule.parse s = rule.run n s := by
  rw [parse_eq, ← run_of_settled h (Nat.le_max_left n (stepsFor s)),
    run_of_settled (settled_run_stepsFor hs) (Nat.le_max_right ..)]

/-- A rule parses what it can come to, with the steps that it is granted. -/
theorem parse_eq_ok_iff {a : c.Tree} (hs : Valid s) :
    rule.parse s = .ok a s' ↔ rule.Parses s a s' := by
  rw [parse_eq]
  constructor
  · exact fun h => ⟨_, h⟩
  · rintro ⟨n, hn⟩
    rw [← parse_eq, parse_eq_run hs (by rw [hn]; nofun), hn]

end Rule

end

end Quill
