import Mathlib

/-!
# Merkle trees by layers

A Merkle root is computed layer by layer: neighbours are combined until one
element is left. What becomes of the last element of an odd layer is a
parameter, so that both common rules, promoting it and combining it with itself,
are instances.

Run on formal trees the same computation returns the tree whose hash the root
is (`map_root`). A tree of messages is determined by its hash when the hash has
no collision among the messages that were hashed and no leaf message is a node
message (`Tree.hash_inj`).
-/

namespace Polay.Lib.Merkle

variable {α β : Type}

/-! ## Layers -/

/-- Combine neighbours; `last` says what becomes of an element without one. -/
def layer (combine : α → α → α) (last : α → α) : List α → List α
  | [] => []
  | [a] => [last a]
  | a :: b :: rest => combine a b :: layer combine last rest

/-- Combine layers while there is more than one element. -/
def reduce (combine : α → α → α) (last : α → α) : Nat → List α → List α
  | 0, l => l
  | fuel + 1, l =>
      if 1 < l.length then reduce combine last fuel (layer combine last l) else l

/-- The root over a list; there is none over the empty list. The length of the
list is more than enough fuel. -/
def root (combine : α → α → α) (last : α → α) (l : List α) : Option α :=
  (reduce combine last l.length l).head?

section Layers

variable (combine : α → α → α) (last : α → α)

theorem length_layer (l : List α) : (layer combine last l).length = (l.length + 1) / 2 := by
  fun_induction layer combine last l with
  | case1 => simp
  | case2 a => simp
  | case3 a b rest ih =>
      simp only [List.length_cons, ih]
      omega

/-- The loop ends with one element, unless it started with none. -/
theorem length_reduce {fuel : Nat} {l : List α} (hPos : 0 < l.length) (hFuel : l.length ≤ fuel) :
    (reduce combine last fuel l).length = 1 := by
  induction fuel generalizing l with
  | zero => omega
  | succ fuel ih =>
      unfold reduce
      by_cases hLen : 1 < l.length
      · rw [if_pos hLen]
        have hLayer := length_layer combine last l
        exact ih (by omega) (by omega)
      · rw [if_neg hLen]
        omega

theorem root_isSome {l : List α} (h : l ≠ []) : (root combine last l).isSome = true := by
  have hLen := length_reduce combine last (List.length_pos_iff.mpr h) (Nat.le_refl l.length)
  obtain ⟨a, ha⟩ := List.length_eq_one_iff.mp hLen
  rw [root, ha]
  rfl

theorem reduce_of_root {l : List α} {a : α} (h : root combine last l = some a) :
    reduce combine last l.length l = [a] := by
  have hNe : l ≠ [] := by
    intro hNil
    rw [hNil] at h
    cases h
  have hLen := length_reduce combine last (List.length_pos_iff.mpr hNe) (Nat.le_refl l.length)
  obtain ⟨b, hb⟩ := List.length_eq_one_iff.mp hLen
  rw [root, hb] at h
  cases h
  exact hb

end Layers

section Map

variable {combine : α → α → α} {last : α → α} {combine' : β → β → β} {last' : β → β}
variable {g : α → β}

theorem map_layer (hCombine : ∀ a b, g (combine a b) = combine' (g a) (g b))
    (hLast : ∀ a, g (last a) = last' (g a)) (l : List α) :
    (layer combine last l).map g = layer combine' last' (l.map g) := by
  fun_induction layer combine last l with
  | case1 => rfl
  | case2 a => simp only [List.map_cons, List.map_nil, layer, hLast]
  | case3 a b rest ih => simp only [List.map_cons, layer, hCombine, ih]

theorem map_reduce (hCombine : ∀ a b, g (combine a b) = combine' (g a) (g b))
    (hLast : ∀ a, g (last a) = last' (g a)) (fuel : Nat) (l : List α) :
    (reduce combine last fuel l).map g = reduce combine' last' fuel (l.map g) := by
  induction fuel generalizing l with
  | zero => rfl
  | succ fuel ih =>
      unfold reduce
      rw [List.length_map]
      by_cases hLen : 1 < l.length
      · rw [if_pos hLen, if_pos hLen, ih, map_layer hCombine hLast]
      · rw [if_neg hLen, if_neg hLen]

/-- A map that respects combining commutes with the root. -/
theorem map_root (hCombine : ∀ a b, g (combine a b) = combine' (g a) (g b))
    (hLast : ∀ a, g (last a) = last' (g a)) (l : List α) :
    (root combine last l).map g = root combine' last' (l.map g) := by
  rw [root, root, List.length_map, ← map_reduce hCombine hLast, List.head?_map]

end Map

/-! ## Trees of messages -/

/-- A tree with messages at its leaves. -/
inductive Tree (M : Type) where
  | leaf (m : M)
  | node (left right : Tree M)

namespace Tree

variable {M H : Type}

def leaves : Tree M → List M
  | .leaf m => [m]
  | .node l r => l.leaves ++ r.leaves

variable (digest : M → H) (pair : H → H → M)

/-- The hash of a tree, where `pair` is the message of a node. -/
def hash : Tree M → H
  | .leaf m => digest m
  | .node l r => digest (pair l.hash r.hash)

/-- Every message that is hashed for a tree. -/
def messages : Tree M → List M
  | .leaf m => [m]
  | .node l r => pair (l.hash digest pair) (r.hash digest pair) :: (l.messages ++ r.messages)

end Tree

/-- The digest has no collision among the messages. -/
def NoCollision {M H : Type} (digest : M → H) (messages : List M) : Prop :=
  ∀ m ∈ messages, ∀ m' ∈ messages, digest m = digest m' → m = m'

instance {M H : Type} [DecidableEq M] [DecidableEq H] (digest : M → H) (messages : List M) :
    Decidable (NoCollision digest messages) :=
  inferInstanceAs (Decidable (∀ m ∈ messages, ∀ m' ∈ messages, _))

theorem NoCollision.mono {M H : Type} {digest : M → H} {l l' : List M}
    (h : NoCollision digest l') (hSub : l ⊆ l') : NoCollision digest l :=
  fun m hm m' hm' => h m (hSub hm) m' (hSub hm')

namespace Tree

variable {M H : Type} {digest : M → H} {pair : H → H → M}

variable (digest pair) in
theorem hash_mem_messages (t : Tree M) :
    ∃ m ∈ t.messages digest pair, t.hash digest pair = digest m := by
  cases t with
  | leaf m => exact ⟨m, List.mem_singleton_self m, rfl⟩
  | node l r => exact ⟨_, List.mem_cons_self .., rfl⟩

/-- Without collisions, and with leaf messages that are not node messages, the
hash determines the tree. -/
theorem hash_inj (hPair : ∀ a b c d, pair a b = pair c d → a = c ∧ b = d) {t t' : Tree M}
    (hCollision : NoCollision digest (t.messages digest pair ++ t'.messages digest pair))
    (hLeaf : ∀ m ∈ t.leaves ++ t'.leaves, ∀ a b, m ≠ pair a b)
    (h : t.hash digest pair = t'.hash digest pair) : t = t' := by
  induction t generalizing t' with
  | leaf m =>
      cases t' with
      | leaf m' =>
          rw [hCollision m (by simp [messages]) m' (by simp [messages]) h]
      | node l r =>
          have hEq := hCollision m (by simp [messages]) _ (by simp [messages]) h
          exact absurd hEq (hLeaf m (by simp [leaves]) _ _)
  | node l r ihl ihr =>
      cases t' with
      | leaf m' =>
          have hEq := hCollision _ (by simp [messages]) m' (by simp [messages]) h
          exact absurd hEq.symm (hLeaf m' (by simp [leaves]) _ _)
      | node l' r' =>
          have hEq := hCollision _ (by simp [messages]) _ (by simp [messages]) h
          obtain ⟨hl, hr⟩ := hPair _ _ _ _ hEq
          rw [ihl (hCollision.mono ?_) (fun m hm => hLeaf m ?_) hl,
            ihr (hCollision.mono ?_) (fun m hm => hLeaf m ?_) hr]
          · intro m hm
            cases List.mem_append.mp hm <;> simp [messages, *]
          · cases List.mem_append.mp hm <;> simp [leaves, *]
          · intro m hm
            cases List.mem_append.mp hm <;> simp [messages, *]
          · cases List.mem_append.mp hm <;> simp [leaves, *]

end Tree

/-! ## The tree of a root -/

section Trees

variable {M : Type}
variable {last : Tree M → Tree M}

/-- The leaves below the trees of a list. -/
def leavesOf (l : List (Tree M)) : List M := l.flatMap Tree.leaves

/-- Combining layers keeps the set of leaves when the last tree keeps its own. -/
theorem mem_leavesOf_layer (hLast : ∀ t m, m ∈ (last t).leaves ↔ m ∈ t.leaves) (l : List (Tree M))
    (m : M) : m ∈ leavesOf (layer .node last l) ↔ m ∈ leavesOf l := by
  fun_induction layer Tree.node last l with
  | case1 => exact Iff.rfl
  | case2 t => simp [leavesOf, hLast]
  | case3 a b rest ih =>
      simp only [leavesOf, List.flatMap_cons, Tree.leaves, List.mem_append] at ih ⊢
      rw [ih, or_assoc]

theorem mem_leavesOf_reduce (hLast : ∀ t m, m ∈ (last t).leaves ↔ m ∈ t.leaves) (fuel : Nat)
    (l : List (Tree M)) (m : M) : m ∈ leavesOf (reduce .node last fuel l) ↔ m ∈ leavesOf l := by
  induction fuel generalizing l with
  | zero => exact Iff.rfl
  | succ fuel ih =>
      unfold reduce
      by_cases hLen : 1 < l.length
      · rw [if_pos hLen, ih, mem_leavesOf_layer hLast]
      · rw [if_neg hLen]

/-- The tree over a list of messages has these messages at its leaves. -/
theorem mem_leaves_root (hLast : ∀ t m, m ∈ (last t).leaves ↔ m ∈ t.leaves) {l : List M}
    {t : Tree M} (h : root .node last (l.map .leaf) = some t) (m : M) : m ∈ t.leaves ↔ m ∈ l := by
  have hMem := mem_leavesOf_reduce hLast (l.map Tree.leaf).length (l.map Tree.leaf) m
  rw [reduce_of_root _ _ h] at hMem
  simpa [leavesOf, Tree.leaves, List.flatMap_map] using hMem

/-- Promoting the last tree keeps the leaves in their order. -/
theorem leavesOf_layer_id (l : List (Tree M)) : leavesOf (layer .node id l) = leavesOf l := by
  fun_induction layer Tree.node id l with
  | case1 => rfl
  | case2 t => rfl
  | case3 a b rest ih =>
      simp only [leavesOf, List.flatMap_cons, Tree.leaves, List.append_assoc] at ih ⊢
      rw [ih]

theorem leavesOf_reduce_id (fuel : Nat) (l : List (Tree M)) :
    leavesOf (reduce .node id fuel l) = leavesOf l := by
  induction fuel generalizing l with
  | zero => rfl
  | succ fuel ih =>
      unfold reduce
      by_cases hLen : 1 < l.length
      · rw [if_pos hLen, ih, leavesOf_layer_id]
      · rw [if_neg hLen]

/-- With promotion, the leaves of the tree are the list itself. -/
theorem leaves_root_id {l : List M} {t : Tree M} (h : root .node id (l.map .leaf) = some t) :
    t.leaves = l := by
  have hLeaves := leavesOf_reduce_id (l.map Tree.leaf).length (l.map Tree.leaf)
  rw [reduce_of_root _ _ h] at hLeaves
  simpa [leavesOf, Tree.leaves, List.flatMap_map] using hLeaves

end Trees

end Polay.Lib.Merkle
