import Mathlib.Data.List.Basic
import Quill.Grammar.Script

/-!
# The nodes of a tree

A node of any kind has the nodes right below it in the order of the text (`Node.children`). From
these come the parts of a tree (`Node.Within`), what is true of every part (`Node.Everywhere`), and
the leaves of a tree from left to right (`Node.leaves`). A statement about a tree is proved by
induction on its parts (`Node.induction`).
-/

namespace Quill

/-! ## Children and parts -/

/-- The nodes right below a node, in order. -/
def Node.children : Node → List Node
  | .expr (.leaf _ _ _) => []
  | .expr (.call c _) => [.call c]
  | .expr (.group e _) => [.expr e]
  | .expr (.binary _ l r _) => [.expr l, .expr r]
  | .expr (.unary _ e _) => [.expr e]
  | .call c => [.args c.args]
  | .args a => a.items.map .expr
  | .params _ => []
  | .statement (.scope b) => b.statements.map .statement
  | .statement (.expr e _) => [.expr e]
  | .statement (.assign _ e _) => [.expr e]
  | .statement (.ret e _) => e.toList.map .expr
  | .statement (.branch b) =>
    .clause b.first :: (b.others.map .clause ++ b.otherwise.toList.map .statement)
  | .statement (.function f _) => [.function f]
  | .statement (.empty _) => []
  | .clause c => [.expr c.condition, .statement c.body]
  | .function f => [.params f.params, .statement (.scope f.body)]
  | .program p => p.functions.map .function

/-- The trees of a category as nodes. -/
def Category.nodes : (c : Category) → c.Tree → List Node
  | nothing, _ => []
  | tokens, _ => []
  | exprs, es => es.map .expr
  | statements, ss => ss.map .statement
  | clauses, cs => cs.map .clause
  | functions, fs => fs.map .function
  | expr, e => [.expr e]
  | call, c => [.call c]
  | args, a => [.args a]
  | params, p => [.params p]
  | scope, b => [.statement (.scope b)]
  | clause, c => [.clause c]
  | branch, b => [.statement (.branch b)]
  | statement, s => [.statement s]
  | function, f => [.function f]
  | program, p => [.program p]
  | node, n => [n]

/-- The first node is a part of the second one, or all of it. -/
inductive Node.Within (n : Node) : Node → Prop
  | refl : n.Within n
  | child {m p : Node} : m ∈ p.children → n.Within m → n.Within p

namespace Node
variable {P : Node → Prop} {n m : Node}

/-- A part made from an element of a list is not larger than the list. -/
theorem sizeOf_le_of_mem_map {α : Type} [SizeOf α] {f : α → Node} {l : List α}
    (hf : ∀ a, sizeOf (f a) = 1 + sizeOf a) (h : m ∈ l.map f) : sizeOf m ≤ sizeOf l := by
  obtain ⟨a, ha, rfl⟩ := List.mem_map.1 h
  have lt := List.sizeOf_lt_of_mem ha
  have size := hf a
  omega

/-- A part made from an optional value is not larger than the value. -/
theorem sizeOf_le_of_mem_toList {α : Type} [SizeOf α] {f : α → Node} {o : Option α}
    (hf : ∀ a, sizeOf (f a) = 1 + sizeOf a) (h : m ∈ o.toList.map f) : sizeOf m ≤ sizeOf o := by
  cases o with
  | none => cases h
  | some a =>
    obtain rfl := List.mem_singleton.1 h
    exact Nat.le_of_eq (hf a)

/-- A child is smaller than its parent. -/
theorem sizeOf_lt_of_mem_children (h : m ∈ n.children) : sizeOf m < sizeOf n := by
  cases n with
  | expr e =>
    cases e with
    | leaf => cases h
    | call | group | unary =>
      obtain rfl := List.mem_singleton.1 h
      simp
      omega
    | binary =>
      simp only [children, List.mem_cons, List.not_mem_nil, or_false] at h
      rcases h with rfl | rfl <;> simp <;> omega
  | call c =>
    obtain ⟨name, args, pos⟩ := c
    obtain rfl := List.mem_singleton.1 h
    simp
    omega
  | args a =>
    obtain ⟨items, pos⟩ := a
    have le : sizeOf m ≤ sizeOf items := sizeOf_le_of_mem_map (fun _ => rfl) h
    simp
    omega
  | params => cases h
  | statement s =>
    cases s with
    | scope b =>
      obtain ⟨statements, pos⟩ := b
      have le : sizeOf m ≤ sizeOf statements := sizeOf_le_of_mem_map (fun _ => rfl) h
      simp
      omega
    | expr | assign | function =>
      obtain rfl := List.mem_singleton.1 h
      simp
      omega
    | ret =>
      have le := sizeOf_le_of_mem_toList (fun _ => rfl) h
      simp
      omega
    | branch b =>
      obtain ⟨first, others, otherwise, pos⟩ := b
      simp only [children, List.mem_cons, List.mem_append] at h
      rcases h with rfl | h | h
      · simp
        omega
      · have le := sizeOf_le_of_mem_map (fun _ => rfl) h
        simp
        omega
      · have le := sizeOf_le_of_mem_toList (fun _ => rfl) h
        simp
        omega
    | empty => cases h
  | clause c =>
    obtain ⟨condition, body, pos⟩ := c
    simp only [children, List.mem_cons, List.not_mem_nil, or_false] at h
    rcases h with rfl | rfl <;> simp <;> omega
  | function f =>
    obtain ⟨name, params, body, pos⟩ := f
    simp only [children, List.mem_cons, List.not_mem_nil, or_false] at h
    have kind : 0 < sizeOf name := by
      cases name
      simp only [Token.mk.sizeOf_spec]
      omega
    rcases h with rfl | rfl <;> simp <;> omega
  | program p =>
    obtain ⟨functions, pos⟩ := p
    have le : sizeOf m ≤ sizeOf functions := sizeOf_le_of_mem_map (fun _ => rfl) h
    simp
    omega

/-- What is true of a node if it is true of all its children is true of every node. -/
theorem induction {motive : Node → Prop}
    (node : ∀ n, (∀ m ∈ n.children, motive m) → motive n) (n : Node) : motive n :=
  node n fun m _ => induction node m
termination_by sizeOf n
decreasing_by exact sizeOf_lt_of_mem_children ‹_›

/-! ## What is true of every part -/

/-- Whether every part of the tree is so. -/
def Everywhere (P : Node → Prop) (n : Node) : Prop := ∀ m, m.Within n → P m

/-- Something is true of every part if it is true of the whole and of every part of the children. -/
theorem everywhere_iff : n.Everywhere P ↔ P n ∧ n.children.Forall (·.Everywhere P) := by
  rw [List.forall_iff_forall_mem]
  constructor
  · intro h
    exact ⟨h n .refl, fun m hm k hk => h k (.child hm hk)⟩
  · rintro ⟨here, below⟩ m hm
    cases hm with
    | refl => exact here
    | child hk hm => exact below _ hk m hm

/-! ## Leaves -/

/-- The nodes of a tree that have no children, from left to right. -/
def leaves (n : Node) : List Node :=
  if n.children = [] then [n] else n.children.attach.flatMap fun m => m.1.leaves
termination_by sizeOf n
decreasing_by exact sizeOf_lt_of_mem_children m.2

/-- A node without parts is its own leaf. -/
theorem leaves_of_nil (h : n.children = []) : n.leaves = [n] := by
  rw [leaves, if_pos h]

/-- The leaves of a node with parts are those of the parts. -/
theorem leaves_of_ne_nil (h : n.children ≠ []) : n.leaves = n.children.flatMap leaves := by
  rw [leaves, if_neg h, List.flatMap_subtype fun _ _ => rfl, List.unattach_attach]

/-- A part without children is a leaf. -/
theorem Within.mem_leaves (h : m.Within n) (hm : m.children = []) : m ∈ n.leaves := by
  induction h with
  | refl =>
    rw [leaves_of_nil hm]
    exact List.mem_singleton_self m
  | @child k p hk _ ih =>
    rw [leaves_of_ne_nil (List.ne_nil_of_mem hk)]
    exact List.mem_flatMap.2 ⟨k, hk, ih⟩

end Node

end Quill
