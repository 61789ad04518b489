import Polay.Lib.Merkle

/-!
# Inclusion paths

An inclusion path of a Merkle tree by layers lists, from a leaf upward, the
neighbour on every layer and the side it stands on. The last element of an odd
layer is combined with itself.

* `walk_spec`: the path read off the layers leads from its leaf to the root, and
  it is as long as the tree is high.
* `mem_of_climb`: a path of that length leads to the root from a leaf only.
* `length_of_climb`: no path of another length leads to the root from a leaf, if
  no leaf is the combination of two elements.
* `eq_of_reduce_eq`: the root determines a list of elements of known length.

The combination of two elements only has to be injective on the pairs that are
combined for the tree (`treePairs`) and along the path (`climbPairs`).
-/

namespace Polay.Lib.Merkle

variable {α : Type}

/-- The side of the parent on which a neighbour stands. -/
inductive Side where
  | left
  | right
deriving DecidableEq

/-- The pair that is combined with a neighbour. -/
def stepPair (current : α) (neighbour : α × Side) : α × α :=
  match neighbour.2 with
  | .left => (neighbour.1, current)
  | .right => (current, neighbour.1)

/-- A layer with an even number of elements: the last one is repeated if needed. -/
def padded (l : List α) : List α :=
  if l.length % 2 = 0 then l else l ++ l.getLast?.toList

/-- The position of the neighbour of a position. -/
def siblingIndex (i : Nat) : Nat := if i % 2 = 0 then i + 1 else i - 1

/-- The side on which that neighbour stands. -/
def siblingSide (i : Nat) : Side := if i % 2 = 0 then .right else .left

section Definitions

variable (combine : α → α → α)

/-- Combine the elements two by two. -/
def pairUp : List α → List α
  | a :: b :: rest => combine a b :: pairUp rest
  | _ => []

/-- One layer up, with the last element of an odd layer combined with itself. -/
abbrev parents (l : List α) : List α := layer combine (fun a => combine a a) l

/-- From an element to its parent. -/
def climbStep (current : α) (neighbour : α × Side) : α :=
  combine (stepPair current neighbour).1 (stepPair current neighbour).2

/-- From a leaf upward along a path. -/
def climb (leaf : α) (path : List (α × Side)) : α := path.foldl (climbStep combine) leaf

/-- Read the path of a position off the layers; the result is the path and the layer at which
the walk ends. A neighbour outside of its layer ends the walk without a result. -/
def walk : Nat → List α → Nat → Option (List (α × Side) × List α)
  | 0, l, _ => some ([], l)
  | fuel + 1, l, i =>
      if 1 < l.length then
        match (padded l)[siblingIndex i]? with
        | some sibling =>
            (walk fuel (pairUp combine (padded l)) (i / 2)).map fun r =>
              ((sibling, siblingSide i) :: r.1, r.2)
        | none => none
      else some ([], l)

/-- The pairs that are combined along a path. -/
def climbPairs : α → List (α × Side) → List (α × α)
  | _, [] => []
  | current, neighbour :: rest =>
      stepPair current neighbour :: climbPairs (climbStep combine current neighbour) rest

/-- The pairs that are combined for a layer. -/
def layerPairs : List α → List (α × α)
  | [] => []
  | [a] => [(a, a)]
  | a :: b :: rest => (a, b) :: layerPairs rest

/-- The pairs that are combined for a whole tree. -/
def treePairs : Nat → List α → List (α × α)
  | 0, _ => []
  | fuel + 1, l =>
      if 1 < l.length then layerPairs l ++ treePairs fuel (parents combine l) else []

/-- Different pairs of the list have different combinations. -/
def InjectiveOn (pairs : List (α × α)) : Prop :=
  ∀ p ∈ pairs, ∀ q ∈ pairs, combine p.1 p.2 = combine q.1 q.2 → p = q

end Definitions

variable {combine : α → α → α}

theorem InjectiveOn.mono {l l' : List (α × α)} (h : InjectiveOn combine l') (hSub : l ⊆ l') :
    InjectiveOn combine l :=
  fun p hp q hq => h p (hSub hp) q (hSub hq)

/-! ## Layers and positions -/

theorem padded_cons_cons (a b : α) (rest : List α) :
    padded (a :: b :: rest) = a :: b :: padded rest := by
  have hLength : (a :: b :: rest).length % 2 = rest.length % 2 := by
    rw [List.length_cons, List.length_cons]
    omega
  unfold padded
  rw [hLength]
  split
  · rfl
  · rename_i hOdd
    cases rest with
    | nil => exact absurd rfl hOdd
    | cons c rest => simp

/-- Padding a layer and combining it two by two. -/
theorem pairUp_padded (l : List α) : pairUp combine (padded l) = parents combine l := by
  unfold parents
  fun_induction layer combine (fun a => combine a a) l with
  | case1 => rfl
  | case2 a => rfl
  | case3 a b rest ih => rw [padded_cons_cons, pairUp, ih]

variable (combine) in
/-- Every element of a layer has its neighbour in the padded layer, and the parent of both is
above it. -/
theorem exists_sibling {l : List α} {i : Nat} {x : α} (h : l[i]? = some x) :
    ∃ a, (padded l)[siblingIndex i]? = some a ∧
      (parents combine l)[i / 2]? = some (climbStep combine x (a, siblingSide i)) := by
  unfold parents
  fun_induction layer combine (fun a => combine a a) l generalizing i with
  | case1 => cases h
  | case2 a =>
      cases i with
      | zero =>
          obtain rfl := Option.some.inj h
          exact ⟨a, rfl, rfl⟩
      | succ i => cases h
  | case3 a b rest ih =>
      rw [padded_cons_cons]
      cases i with
      | zero =>
          obtain rfl := Option.some.inj h
          exact ⟨b, rfl, rfl⟩
      | succ i =>
          cases i with
          | zero =>
              obtain rfl := Option.some.inj h
              exact ⟨a, rfl, rfl⟩
          | succ i =>
              obtain ⟨c, hSibling, hParent⟩ := ih (i := i) h
              have hIndex : siblingIndex (i + 2) = siblingIndex i + 2 := by
                unfold siblingIndex
                split <;> split <;> omega
              have hSide : siblingSide (i + 2) = siblingSide i := by
                rw [siblingSide, Nat.add_mod_right, siblingSide]
              have hHalf : (i + 2) / 2 = i / 2 + 1 := Nat.add_div_right i (by decide)
              refine ⟨c, ?_, ?_⟩
              · show (a :: b :: padded rest)[siblingIndex (i + 2)]? = some c
                rw [hIndex]
                exact hSibling
              · show (combine a b :: _)[(i + 2) / 2]? = some (climbStep combine x
                  (c, siblingSide (i + 2)))
                rw [hHalf, hSide]
                exact hParent

variable (combine) in
theorem length_parents (l : List α) : (parents combine l).length = (l.length + 1) / 2 :=
  length_layer combine _ l

theorem mem_parents {l : List α} {y : α} (h : y ∈ parents combine l) :
    ∃ p ∈ layerPairs l, combine p.1 p.2 = y := by
  unfold parents at h
  fun_induction layer combine (fun a => combine a a) l with
  | case1 => cases h
  | case2 a =>
      refine ⟨(a, a), List.mem_singleton_self _, ?_⟩
      rw [List.mem_singleton.mp h]
  | case3 a b rest ih =>
      rcases List.mem_cons.mp h with hHead | hRest
      · exact ⟨(a, b), List.mem_cons_self, hHead.symm⟩
      · obtain ⟨p, hp, hEq⟩ := ih hRest
        exact ⟨p, List.mem_cons_of_mem _ hp, hEq⟩

theorem mem_of_mem_layerPairs {l : List α} {p : α × α} (h : p ∈ layerPairs l) :
    p.1 ∈ l ∧ p.2 ∈ l := by
  fun_induction layerPairs l with
  | case1 => cases h
  | case2 a =>
      rw [List.mem_singleton.mp h]
      exact ⟨List.mem_singleton_self a, List.mem_singleton_self a⟩
  | case3 a b rest ih =>
      rcases List.mem_cons.mp h with hHead | hRest
      · rw [hHead]
        simp
      · obtain ⟨hl, hr⟩ := ih hRest
        simp [hl, hr]

/-- A layer is determined by the one above it and its length. -/
theorem parents_inj {l l' : List α} (hLength : l.length = l'.length)
    (hInj : InjectiveOn combine (layerPairs l ++ layerPairs l'))
    (h : parents combine l = parents combine l') : l = l' := by
  unfold parents at h
  induction l using layerPairs.induct generalizing l' with
  | case1 => exact (List.length_eq_zero_iff.mp hLength.symm).symm
  | case2 a =>
      obtain ⟨b, rfl⟩ := List.length_eq_one_iff.mp hLength.symm
      have hHead : combine a a = combine b b := (List.cons.inj h).1
      have hPair := hInj (a, a) (by simp [layerPairs]) (b, b) (by simp [layerPairs]) hHead
      rw [(Prod.mk.inj hPair).1]
  | case3 a b rest ih =>
      cases l' with
      | nil => cases hLength
      | cons c l' =>
          cases l' with
          | nil => simp at hLength
          | cons d rest' =>
              obtain ⟨hHead, hRest⟩ := List.cons.inj h
              have hPair := hInj (a, b) (by simp [layerPairs]) (c, d) (by simp [layerPairs]) hHead
              obtain ⟨rfl, rfl⟩ := Prod.mk.inj hPair
              have hSub : layerPairs rest ++ layerPairs rest' ⊆
                  layerPairs (a :: b :: rest) ++ layerPairs (a :: b :: rest') := by
                intro p hp
                rcases List.mem_append.mp hp with hl | hr
                · simp [layerPairs, hl]
                · simp [layerPairs, hr]
              rw [ih (by simpa using hLength) (hInj.mono hSub) hRest]

/-! ## The whole tree -/

section Tree

variable {l l' : List α} {fuel : Nat}

theorem reduce_of_length_le {last : α → α} (fuel : Nat) (h : l.length ≤ 1) :
    reduce combine last fuel l = l := by
  cases fuel with
  | zero => rfl
  | succ fuel => rw [reduce, if_neg (by omega)]

variable (combine) in
/-- The tree over the next layer is lower by one. -/
theorem clog_length (h : 1 < l.length) :
    Nat.clog 2 l.length = Nat.clog 2 (parents combine l).length + 1 := by
  rw [length_parents, Nat.clog_of_two_le (by decide) h]
  rfl

variable (combine) in
/-- The walk ends at the root, to which the path it reads leads from its leaf. -/
theorem walk_spec {i : Nat} {x : α} (hx : l[i]? = some x) (hFuel : l.length ≤ fuel) :
    ∃ path, walk combine fuel l i = some (path, reduce combine (fun a => combine a a) fuel l) ∧
      reduce combine (fun a => combine a a) fuel l = [climb combine x path] ∧
      path.length = Nat.clog 2 l.length := by
  induction fuel generalizing l i x with
  | zero =>
      have hNil : l = [] := List.length_eq_zero_iff.mp (Nat.le_zero.mp hFuel)
      rw [hNil] at hx
      cases hx
  | succ fuel ih =>
      by_cases hLength : 1 < l.length
      · obtain ⟨a, hSibling, hParent⟩ := exists_sibling combine hx
        have hLayer := length_parents combine l
        obtain ⟨path, hWalk, hRoot, hPath⟩ := ih hParent (by omega)
        refine ⟨(a, siblingSide i) :: path, ?_, ?_, ?_⟩
        · rw [walk, if_pos hLength, hSibling, reduce, if_pos hLength]
          dsimp only
          rw [pairUp_padded, hWalk]
          rfl
        · rw [reduce, if_pos hLength, hRoot]
          rfl
        · rw [List.length_cons, hPath, clog_length combine hLength]
      · have hi : i < l.length := (List.getElem?_eq_some_iff.mp hx).1
        obtain ⟨y, rfl⟩ : ∃ y, l = [y] := List.length_eq_one_iff.mp (by omega)
        obtain rfl : i = 0 := by
          rw [List.length_singleton] at hi
          omega
        obtain rfl := Option.some.inj hx
        exact ⟨[], rfl, rfl, by simp⟩

/-- A path as long as the tree is high leads to the root from a leaf only. -/
theorem mem_of_climb {x : α} {path : List (α × Side)} (hFuel : l.length ≤ fuel)
    (hInj : InjectiveOn combine (treePairs combine fuel l ++ climbPairs combine x path))
    (hPath : path.length = Nat.clog 2 l.length)
    (h : reduce combine (fun a => combine a a) fuel l = [climb combine x path]) : x ∈ l := by
  -- The induction follows the path upward; the layer rises with it.
  induction path generalizing l x fuel with
  | nil =>
      have hLow : l.length ≤ 1 := by
        by_contra hLong
        rw [clog_length combine (by omega)] at hPath
        cases hPath
      rw [reduce_of_length_le fuel hLow] at h
      rw [h]
      exact List.mem_singleton_self x
  | cons neighbour rest ih =>
      have hLength : 1 < l.length := by
        by_contra hLow
        rw [Nat.clog_of_right_le_one (by omega)] at hPath
        cases hPath
      cases fuel with
      | zero => omega
      | succ fuel =>
          have hLayer := length_parents combine l
          rw [reduce, if_pos hLength] at h
          rw [clog_length combine hLength] at hPath
          rw [treePairs, if_pos hLength] at hInj
          have hMem : climbStep combine x neighbour ∈ parents combine l := by
            refine ih (by omega) (hInj.mono ?_) (Nat.succ.inj hPath) h
            intro p hp
            rcases List.mem_append.mp hp with hTree | hClimb
            · simp [hTree]
            · simp [climbPairs, hClimb]
          obtain ⟨p, hp, hCombine⟩ := mem_parents hMem
          have hPair : p = stepPair x neighbour :=
            hInj p (by simp [hp]) _ (by simp [climbPairs]) hCombine
          have hBoth := mem_of_mem_layerPairs hp
          rw [hPair] at hBoth
          unfold stepPair at hBoth
          split at hBoth
          · exact hBoth.2
          · exact hBoth.1

/-- A shorter path leads to the root from a combination of two elements. -/
theorem exists_pair_of_short_climb {x : α} {path : List (α × Side)} (hFuel : l.length ≤ fuel)
    (hInj : InjectiveOn combine (treePairs combine fuel l ++ climbPairs combine x path))
    (hPath : path.length < Nat.clog 2 l.length)
    (h : reduce combine (fun a => combine a a) fuel l = [climb combine x path]) :
    ∃ p ∈ treePairs combine fuel l, combine p.1 p.2 = x := by
  induction fuel generalizing l with
  | zero =>
      rw [Nat.le_zero.mp hFuel, Nat.clog_zero_right] at hPath
      cases hPath
  | succ fuel ih =>
      have hLength : 1 < l.length := by
        by_contra hLow
        rw [Nat.clog_of_right_le_one (by omega)] at hPath
        cases hPath
      have hLayer := length_parents combine l
      rw [reduce, if_pos hLength] at h
      rw [clog_length combine hLength] at hPath
      rw [treePairs, if_pos hLength] at hInj ⊢
      have hAbove : InjectiveOn combine
          (treePairs combine fuel (parents combine l) ++ climbPairs combine x path) := by
        refine hInj.mono fun p hp => ?_
        rcases List.mem_append.mp hp with hTree | hClimb
        · simp [hTree]
        · simp [hClimb]
      by_cases hTop : path.length = Nat.clog 2 (parents combine l).length
      · obtain ⟨p, hp, hEq⟩ := mem_parents (mem_of_climb (by omega) hAbove hTop h)
        exact ⟨p, List.mem_append_left _ hp, hEq⟩
      · obtain ⟨p, hp, hEq⟩ := ih (by omega) hAbove (by omega) h
        exact ⟨p, List.mem_append_right _ hp, hEq⟩

theorem climbPairs_append (x : α) (path path' : List (α × Side)) :
    climbPairs combine x (path ++ path') =
      climbPairs combine x path ++ climbPairs combine (climb combine x path) path' := by
  induction path generalizing x with
  | nil => rfl
  | cons neighbour rest ih =>
      rw [List.cons_append, climbPairs, ih, climbPairs, List.cons_append]
      rfl

variable (combine) in
/-- The end of a path that is not empty is a combination of two elements. -/
theorem exists_pair_of_climb {x : α} {path : List (α × Side)} (h : path ≠ []) :
    ∃ p ∈ climbPairs combine x path, combine p.1 p.2 = climb combine x path := by
  induction path generalizing x with
  | nil => exact absurd rfl h
  | cons neighbour rest ih =>
      cases rest with
      | nil => exact ⟨stepPair x neighbour, List.mem_singleton_self _, rfl⟩
      | cons next rest =>
          obtain ⟨p, hp, hEq⟩ := ih (x := climbStep combine x neighbour) (List.cons_ne_nil _ _)
          exact ⟨p, List.mem_cons_of_mem _ hp, hEq⟩

/-- If no leaf is a combination of two elements, a path from a leaf to the root is as long as the
tree is high. -/
theorem length_of_climb {x : α} {path : List (α × Side)} (hFuel : l.length ≤ fuel)
    (hInj : InjectiveOn combine (treePairs combine fuel l ++ climbPairs combine x path))
    (hApart : ∀ y ∈ l, ∀ p ∈ treePairs combine fuel l ++ climbPairs combine x path,
      combine p.1 p.2 ≠ y)
    (h : reduce combine (fun a => combine a a) fuel l = [climb combine x path]) (hx : x ∈ l) :
    path.length = Nat.clog 2 l.length := by
  rcases Nat.lt_trichotomy path.length (Nat.clog 2 l.length) with hShort | hEq | hLong
  · obtain ⟨p, hp, hEq⟩ := exists_pair_of_short_climb hFuel hInj hShort h
    exact absurd hEq (hApart x hx p (List.mem_append_left _ hp))
  · exact hEq
  · -- Cut the path where its upper part is as long as the tree is high.
    obtain ⟨lower, upper, rfl, hUpper, hLower⟩ : ∃ lower upper, path = lower ++ upper ∧
        upper.length = Nat.clog 2 l.length ∧ lower ≠ [] := by
      refine ⟨path.take (path.length - Nat.clog 2 l.length),
        path.drop (path.length - Nat.clog 2 l.length), (List.take_append_drop _ _).symm, ?_, ?_⟩
      · rw [List.length_drop]
        omega
      · intro hNil
        have hLength := congrArg List.length hNil
        rw [List.length_take, List.length_nil] at hLength
        omega
    rw [climbPairs_append] at hInj hApart
    have hMem : climb combine x lower ∈ l := by
      refine mem_of_climb hFuel (hInj.mono ?_) hUpper ?_
      · intro p hp
        rcases List.mem_append.mp hp with hTree | hClimb
        · simp [hTree]
        · simp [hClimb]
      · rw [h, climb, climb, climb, List.foldl_append]
    obtain ⟨p, hp, hEq⟩ := exists_pair_of_climb combine (x := x) hLower
    exact absurd hEq (hApart _ hMem p (by simp [hp]))

/-- The root of a tree determines its leaves, if their number is known. -/
theorem eq_of_reduce_eq (hFuel : l.length ≤ fuel) (hLength : l.length = l'.length)
    (hInj : InjectiveOn combine (treePairs combine fuel l ++ treePairs combine fuel l'))
    (h : reduce combine (fun a => combine a a) fuel l =
      reduce combine (fun a => combine a a) fuel l') : l = l' := by
  induction fuel generalizing l l' with
  | zero => exact h
  | succ fuel ih =>
      by_cases hLong : 1 < l.length
      · have hLayer := length_parents combine l
        have hLayer' := length_parents combine l'
        rw [reduce, reduce, if_pos hLong, if_pos (hLength ▸ hLong)] at h
        rw [treePairs, treePairs, if_pos hLong, if_pos (hLength ▸ hLong)] at hInj
        have hParents : parents combine l = parents combine l' := by
          refine ih (by omega) (by omega) (hInj.mono fun p hp => ?_) h
          rcases List.mem_append.mp hp with hl | hr
          · simp [hl]
          · simp [hr]
        refine parents_inj hLength (hInj.mono fun p hp => ?_) hParents
        rcases List.mem_append.mp hp with hl | hr
        · simp [hl]
        · simp [hr]
      · rw [reduce_of_length_le _ (by omega), reduce_of_length_le _ (by omega)] at h
        exact h

end Tree

end Polay.Lib.Merkle
