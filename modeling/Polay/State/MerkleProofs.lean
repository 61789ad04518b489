import Polay.Lib.MerklePath
import Polay.Crypto.Hash
import Polay.State.Merkle

/-!
# Merkle trees and inclusion proofs

The tree builder of the state commitment, with its inclusion proofs. A leaf and
an inner node are hashed in the same way, so a proof does not say by itself
where it starts: it is sound for a path as long as the tree is high.
-/

namespace Polay.State

open Lib Lib.Merkle Polay.Types

/-- An inclusion proof for one leaf. -/
structure MerkleProof where
  leaf : Hash
  siblings : List (Hash × Side)
  root : Hash
deriving DecidableEq

/-- A sorted Merkle tree builder. -/
structure MerkleTree where
  leaves : List Hash

namespace MerkleTree

section Definitions

variable (sha256 : List UInt8 → Hash)

def new : MerkleTree := ⟨[]⟩

def insert (tree : MerkleTree) (key value : List UInt8) : MerkleTree :=
  ⟨tree.leaves ++ [sha256 (key ++ value)]⟩

def root (tree : MerkleTree) : Hash := treeRoot sha256 tree.leaves

/-- The proof of the leaf at a position of the sorted leaves, if there is one. A position outside
of a layer would panic; that it does not happen is part of `proof_complete`. -/
def proof (tree : MerkleTree) (index : Nat) : Option MerkleProof :=
  if tree.leaves.length ≤ index then none
  else
    let sorted := sortedLeaves tree.leaves
    match sorted[index]?, walk (hashPair sha256) sorted.length sorted index with
    | some leaf, some (siblings, root :: _) => some { leaf, siblings, root }
    | _, _ => none

/-- Recompute the root from a leaf and the siblings of a proof. -/
def verifyProof (root leaf : Hash) (proof : MerkleProof) : Bool :=
  decide (climb (hashPair sha256) leaf proof.siblings = root)

/-- The tree of the entries that are inserted. -/
def built (entries : List (List UInt8 × List UInt8)) : MerkleTree :=
  entries.foldl (fun tree e => tree.insert sha256 e.1 e.2) new

/-- The messages that are hashed for the inner nodes of a tree. -/
def nodeInputs (tree : MerkleTree) : List (List UInt8) :=
  (treePairs (hashPair sha256) tree.leaves.length (sortedLeaves tree.leaves)).map
    fun p => pairInput p.1 p.2

/-- The messages that are hashed to verify a proof. -/
def pathInputs (leaf : Hash) (proof : MerkleProof) : List (List UInt8) :=
  (climbPairs (hashPair sha256) leaf proof.siblings).map fun p => pairInput p.1 p.2

end Definitions

variable {sha256 : List UInt8 → Hash}

/-! ## Leaves in order -/

theorem leaves_built (entries : List (List UInt8 × List UInt8)) :
    (built sha256 entries).leaves = entries.map fun e => sha256 (e.1 ++ e.2) := by
  have hFold : ∀ tree : MerkleTree,
      (entries.foldl (fun tree e => tree.insert sha256 e.1 e.2) tree).leaves =
        tree.leaves ++ entries.map fun e => sha256 (e.1 ++ e.2) := by
    induction entries with
    | nil => exact fun tree => (List.append_nil _).symm
    | cons e rest ih =>
        intro tree
        rw [List.foldl_cons, ih, List.map_cons]
        show (tree.leaves ++ [_]) ++ _ = _
        rw [List.append_assoc, List.singleton_append]
  exact hFold new

theorem perm_sortedLeaves (leaves : List Hash) : (sortedLeaves leaves).Perm leaves :=
  List.perm_insertionSort _ _

theorem length_sortedLeaves (leaves : List Hash) : (sortedLeaves leaves).length = leaves.length :=
  (perm_sortedLeaves leaves).length_eq

/-- Sorting forgets the order of insertion. -/
theorem sortedLeaves_congr {leaves leaves' : List Hash} (h : leaves.Perm leaves') :
    sortedLeaves leaves = sortedLeaves leaves' := by
  have hTotal : Std.Total fun a b : Hash => (compare a b).isLE = true :=
    ⟨fun a b => by
      rw [Std.OrientedOrd.eq_swap (a := b) (b := a), Ordering.isLE_swap]
      cases compare a b <;> simp⟩
  have hTrans : IsTrans Hash fun a b => (compare a b).isLE = true :=
    ⟨fun a b c hab hbc => Std.TransOrd.isLE_trans hab hbc⟩
  refine List.Perm.eq_of_pairwise ?_ (List.pairwise_insertionSort _ _)
    (List.pairwise_insertionSort _ _)
    ((perm_sortedLeaves leaves).trans (h.trans (perm_sortedLeaves leaves').symm))
  intro a b _ _ hab hba
  exact Std.LawfulEqOrd.eq_of_compare (Std.OrientedCmp.isLE_antisymm hab hba)

variable (sha256) in
/-- The layers of a tree with leaves end at its root. -/
theorem reduce_sortedLeaves {tree : MerkleTree} (h : tree.leaves ≠ []) :
    reduce (hashPair sha256) (fun a => hashPair sha256 a a) tree.leaves.length
      (sortedLeaves tree.leaves) = [tree.root sha256] := by
  have hSorted : sortedLeaves tree.leaves ≠ [] := by
    intro hNil
    rw [← List.length_eq_zero_iff, length_sortedLeaves, List.length_eq_zero_iff] at hNil
    exact h hNil
  obtain ⟨r, hr⟩ := Option.isSome_iff_exists.mp
    (root_isSome (hashPair sha256) (fun a => hashPair sha256 a a) hSorted)
  have hReduce := reduce_of_root _ _ hr
  rw [length_sortedLeaves] at hReduce
  rw [hReduce, root, treeRoot, hr]
  rfl

/-- Without collisions among the messages of some pairs, different ones have different hashes. -/
theorem injectiveOn_of_noCollision {pairs : List (Hash × Hash)}
    (h : NoCollision sha256 (pairs.map fun p => pairInput p.1 p.2)) :
    InjectiveOn (hashPair sha256) pairs := by
  intro p hp q hq hEq
  have hInput := h _ (List.mem_map_of_mem hp) _ (List.mem_map_of_mem hq) hEq
  obtain ⟨hLeft, hRight⟩ := pairInput_inj _ _ _ _ hInput
  exact Prod.ext hLeft hRight

/-! ## Completeness -/

/-- The tree of any entries has for every leaf, by its position in sorted order, a proof that
carries the root and is accepted; and entries inserted in another order have the same root. -/
theorem proof_complete (entries : List (List UInt8 × List UInt8)) :
    (∀ i < (built sha256 entries).leaves.length,
      ∃ p, (built sha256 entries).proof sha256 i = some p ∧
        (sortedLeaves (built sha256 entries).leaves)[i]? = some p.leaf ∧
        p.root = (built sha256 entries).root sha256 ∧
        verifyProof sha256 ((built sha256 entries).root sha256) p.leaf p = true) ∧
      ∀ entries', entries'.Perm entries →
        (built sha256 entries').root sha256 = (built sha256 entries).root sha256 := by
  constructor
  · intro i hi
    generalize built sha256 entries = tree at hi ⊢
    have hIndex : i < (sortedLeaves tree.leaves).length := by
      rw [length_sortedLeaves]
      exact hi
    have hNe : tree.leaves ≠ [] := by
      intro hNil
      rw [hNil] at hi
      cases hi
    have hLeaf : (sortedLeaves tree.leaves)[i]? = some (sortedLeaves tree.leaves)[i] :=
      List.getElem?_eq_getElem hIndex
    obtain ⟨path, hWalk, hRoot, -⟩ := walk_spec (hashPair sha256) hLeaf
      (Nat.le_of_eq (length_sortedLeaves tree.leaves))
    rw [reduce_sortedLeaves sha256 hNe] at hWalk hRoot
    have hClimb := (List.cons.inj hRoot).1
    refine ⟨⟨(sortedLeaves tree.leaves)[i], path, tree.root sha256⟩, ?_, hLeaf, rfl, ?_⟩
    · rw [proof, if_neg (Nat.not_le.mpr hi)]
      dsimp only
      rw [hLeaf, length_sortedLeaves, hWalk]
    · rw [verifyProof, hClimb, decide_eq_true_eq]
  · intro entries' hPerm
    rw [root, root, treeRoot, treeRoot, leaves_built, leaves_built,
      sortedLeaves_congr (hPerm.map _)]

/-! ## Soundness -/

/-- An accepted proof with as many siblings as the tree has layers above its leaves starts at a
leaf. If no leaf has the hash of an inner node, no other accepted proof does. -/
theorem verifyProof_sound {tree : MerkleTree} {x : Hash} {p : MerkleProof}
    (hLeaves : tree.leaves ≠ [])
    (hFree : NoCollision sha256 (tree.nodeInputs sha256 ++ pathInputs sha256 x p))
    (hVerify : verifyProof sha256 (tree.root sha256) x p = true) :
    (p.siblings.length = Nat.clog 2 tree.leaves.length → x ∈ tree.leaves) ∧
      ((∀ y ∈ tree.leaves, ∀ m ∈ tree.nodeInputs sha256 ++ pathInputs sha256 x p,
          sha256 m ≠ y) →
        x ∈ tree.leaves → p.siblings.length = Nat.clog 2 tree.leaves.length) := by
  have hReduce := reduce_sortedLeaves sha256 hLeaves
  have hClimb : climb (hashPair sha256) x p.siblings = tree.root sha256 :=
    of_decide_eq_true hVerify
  rw [← hClimb] at hReduce
  have hFuel := Nat.le_of_eq (length_sortedLeaves tree.leaves)
  rw [nodeInputs, pathInputs, ← List.map_append] at hFree ⊢
  have hInj := injectiveOn_of_noCollision hFree
  have hMem : ∀ y, y ∈ sortedLeaves tree.leaves ↔ y ∈ tree.leaves :=
    fun y => (perm_sortedLeaves tree.leaves).mem_iff
  constructor
  · intro hLength
    rw [← length_sortedLeaves] at hLength
    exact (hMem x).mp (mem_of_climb hFuel hInj hLength hReduce)
  · intro hApart hx
    rw [← length_sortedLeaves]
    refine length_of_climb hFuel hInj (fun y hy q hq => ?_) hReduce ((hMem x).mpr hx)
    exact hApart y ((hMem y).mp hy) _ (List.mem_map_of_mem hq)

/-- A tree with two leaves. -/
def twoLeaves : MerkleTree := built Crypto.checksum [([1], [10]), ([2], [20])]

/-- The root of the tree as its own leaf, without siblings. -/
def emptyProof : MerkleProof where
  leaf := twoLeaves.root Crypto.checksum
  siblings := []
  root := twoLeaves.root Crypto.checksum

theorem verifyProof_sound_first :
    Crypto.checksum [1, 10] ∈ twoLeaves.leaves := by
  have hVerify : verifyProof Crypto.checksum (twoLeaves.root Crypto.checksum)
      (Crypto.checksum [1, 10])
      ⟨Crypto.checksum [1, 10], [(Crypto.checksum [2, 20], .right)], Hash.zero⟩ = true := by
    decide +kernel
  exact (verifyProof_sound (by decide +kernel) (by decide +kernel) hVerify).1
    (by decide +kernel)

/-- A proof without siblings is accepted for the root, which is not a leaf. -/
theorem root_accepted_as_leaf :
    twoLeaves.leaves ≠ [] ∧
      NoCollision Crypto.checksum (twoLeaves.nodeInputs Crypto.checksum ++
        pathInputs Crypto.checksum (twoLeaves.root Crypto.checksum) emptyProof) ∧
      verifyProof Crypto.checksum (twoLeaves.root Crypto.checksum)
        (twoLeaves.root Crypto.checksum) emptyProof = true ∧
      twoLeaves.root Crypto.checksum ∉ twoLeaves.leaves := by
  refine ⟨?_, ?_, ?_, ?_⟩ <;> decide +kernel

/-! ## Binding -/

/-- Without collisions among the messages of their inner nodes, trees with the same number of
leaves and the same root have the same leaves. -/
theorem leaves_perm_of_root_eq {tree tree' : MerkleTree}
    (hLength : tree.leaves.length = tree'.leaves.length)
    (hFree : NoCollision sha256 (tree.nodeInputs sha256 ++ tree'.nodeInputs sha256))
    (h : tree.root sha256 = tree'.root sha256) : tree.leaves.Perm tree'.leaves := by
  by_cases hLeaves : tree.leaves = []
  · rw [hLeaves] at hLength ⊢
    rw [List.length_eq_zero_iff.mp hLength.symm]
  · have hLeaves' : tree'.leaves ≠ [] := by
      intro hNil
      rw [hNil] at hLength
      exact hLeaves (List.length_eq_zero_iff.mp hLength)
    have hReduce := reduce_sortedLeaves sha256 hLeaves
    have hReduce' := reduce_sortedLeaves sha256 hLeaves'
    rw [← hLength, ← h] at hReduce'
    rw [nodeInputs, nodeInputs, ← hLength, ← List.map_append] at hFree
    have hSorted : sortedLeaves tree.leaves = sortedLeaves tree'.leaves := by
      refine eq_of_reduce_eq (Nat.le_of_eq (length_sortedLeaves _)) ?_
        (injectiveOn_of_noCollision hFree) (hReduce.trans hReduce'.symm)
      rw [length_sortedLeaves, length_sortedLeaves, hLength]
    have hPerm := perm_sortedLeaves tree.leaves
    rw [hSorted] at hPerm
    exact hPerm.symm.trans (perm_sortedLeaves tree'.leaves)

theorem leaves_perm_of_root_eq_two :
    twoLeaves.leaves.Perm (built Crypto.checksum [([2], [20]), ([1], [10])]).leaves := by
  have hRoot : twoLeaves.root Crypto.checksum =
      (built Crypto.checksum [([2], [20]), ([1], [10])]).root Crypto.checksum := by
    decide +kernel
  exact leaves_perm_of_root_eq (by decide +kernel) (by decide +kernel) hRoot

end MerkleTree

end Polay.State
