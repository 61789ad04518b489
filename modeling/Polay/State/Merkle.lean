import Polay.Lib.Merkle
import Polay.State.Store

/-!
# State roots

The state root commits to the records of twelve key families. Every record
becomes the leaf `sha256 (key ++ value)`; the leaves are sorted by hash and
combined layer by layer, the last one of an odd layer with itself.

A leaf message is longer than the 64 bytes of a node message, so without
collisions among the hashed messages two stores with the same root hold the same
leaves (`mem_leafInputs_of_root_eq`), and in particular the same accounts.
-/

namespace Polay.State

open Lib Lib.Machine Polay.Types

/-- The result of committing to the state. -/
structure StateCommitment where
  root : Hash
  entryCount : UInt64
deriving DecidableEq

/-- The key families that contribute to the commitment: accounts, balances, asset
classes, asset balances, validators, delegations, listings, profiles,
achievements, attestors, match results and match settlements. -/
def statePrefixes : List UInt8 :=
  [0x01, 0x02, 0x03, 0x04, 0x05, 0x06, 0x07, 0x08, 0x09, 0x0A, 0x0B, 0x0C]

/-- The message of a leaf: the key and the record as stored. -/
def leafInput (e : Sigma Key.Value) : List UInt8 := e.1.bytes ++ e.1.recordBytes e.2.val

/-- The message of an inner node. -/
def pairInput (left right : Hash) : List UInt8 := left.data ++ right.data

section Root

variable (sha256 : List UInt8 → Hash)
variable {t s : StateStore}

def hashPair (left right : Hash) : Hash := sha256 (pairInput left right)

/-- The leaves in the order of their hashes. -/
def sortedLeaves (leaves : List Hash) : List Hash :=
  leaves.insertionSort fun a b => (compare a b).isLE = true

/-- The root over a list of leaves. -/
def treeRoot (leaves : List Hash) : Hash :=
  (Merkle.root (hashPair sha256) (fun a => hashPair sha256 a a) (sortedLeaves leaves)).getD
    Hash.zero

/-- Add the leaves of one key family. -/
def insertEntries {ε : Type} (leaves : List Hash) (start : UInt8) : Exec ε (List Hash) := do
  let entries ← prefixScan [start]
  return leaves ++ entries.map fun e => sha256 (leafInput e)

/-- Compute the commitment over all state entries of the store. -/
def computeStateRoot {ε : Type} : Exec ε StateCommitment := do
  let leaves ← Prog.fold (insertEntries sha256) [] statePrefixes
  return { root := treeRoot sha256 leaves, entryCount := UInt64.ofNat leaves.length }

/-! ## The committed entries -/

/-- The entries of a store that the commitment covers. -/
def committedEntries (s : StateStore) : List (Sigma Key.Value) :=
  statePrefixes.flatMap fun start => Store.scan s (Key.startsWith [start])

def leafInputs (s : StateStore) : List (List UInt8) := (committedEntries s).map leafInput

/-- The state root of a store. -/
def stateRoot (s : StateStore) : Hash := treeRoot sha256 ((leafInputs s).map sha256)

theorem run_computeStateRoot {ε : Type} (s : StateStore) :
    (computeStateRoot sha256 : Exec ε StateCommitment).run s =
      (.ok ⟨stateRoot sha256 s, UInt64.ofNat (committedEntries s).length⟩, s) := by
  have hFold : ∀ (l : List UInt8) (leaves : List Hash),
      (Prog.fold (insertEntries sha256) leaves l : Exec ε (List Hash)).run s =
      (.ok (leaves ++ (l.flatMap fun start => Store.scan s (Key.startsWith [start])).map
        fun e => sha256 (leafInput e)), s) := by
    intro l
    induction l with
    | nil => intro leaves; simp [Prog.fold]
    | cons start l ih =>
        intro leaves
        show (Prog.fold (insertEntries sha256)
          (leaves ++ (Store.scan s (Key.startsWith [start])).map _) l).run s = _
        rw [ih, List.flatMap_cons, List.map_append, List.append_assoc]
  show ((Prog.fold _ [] statePrefixes).bind _).run s = _
  rw [Prog.run_bind, hFold]
  simp only [Prog.andThen, List.nil_append, stateRoot, leafInputs, List.map_map, List.length_map]
  rfl

/-- The root only depends on the committed entries. -/
theorem stateRoot_congr (h : ∀ k, k.split.1 ∈ statePrefixes → s.get? k = t.get? k) :
    stateRoot sha256 s = stateRoot sha256 t := by
  have hEntries : committedEntries s = committedEntries t := by
    unfold committedEntries
    refine List.flatMap_congr fun start hStart => Store.scan_congr fun k hk => h k ?_
    have hHead : start = k.split.1 := by simpa [Key.startsWith, Key.bytes, List.isPrefixOf] using hk
    rwa [← hHead]
  rw [stateRoot, stateRoot, leafInputs, leafInputs, hEntries]

/-! ## What a root determines -/

/-- The leaf messages in the order of their hashes. -/
def sortedInputs (s : StateStore) : List (List UInt8) :=
  (leafInputs s).insertionSort fun x y => (compare (sha256 x) (sha256 y)).isLE = true

/-- The tree whose hash the root is. -/
def stateTree (s : StateStore) : Option (Merkle.Tree (List UInt8)) :=
  Merkle.root .node (fun t => .node t t) ((sortedInputs sha256 s).map .leaf)

/-- Every message that is hashed to compute the root of a store. -/
def hashedInputs (s : StateStore) : List (List UInt8) :=
  match stateTree sha256 s with
  | some t => t.messages sha256 pairInput
  | none => []

theorem stateRoot_eq_tree (s : StateStore) :
    stateRoot sha256 s =
      ((stateTree sha256 s).map (Merkle.Tree.hash sha256 pairInput)).getD Hash.zero := by
  have hSort : sortedLeaves ((leafInputs s).map sha256) = (sortedInputs sha256 s).map sha256 :=
    (List.map_insertionSort _ _ sha256 (leafInputs s) fun _ _ _ _ => Iff.rfl).symm
  have hMap : (stateTree sha256 s).map (Merkle.Tree.hash sha256 pairInput) =
      Merkle.root (hashPair sha256) (fun a => hashPair sha256 a a)
        (((sortedInputs sha256 s).map Merkle.Tree.leaf).map
          (Merkle.Tree.hash sha256 pairInput)) := by
    apply Merkle.map_root
    · intro a b
      rfl
    · intro a
      rfl
  rw [hMap, List.map_map, stateRoot, treeRoot, hSort]
  rfl

theorem mem_leaves_stateTree {t : Merkle.Tree (List UInt8)} (h : stateTree sha256 s = some t)
    (m : List UInt8) : m ∈ t.leaves ↔ m ∈ leafInputs s := by
  have hDup : ∀ (t : Merkle.Tree (List UInt8)) (m : List UInt8),
      m ∈ (Merkle.Tree.node t t).leaves ↔ m ∈ t.leaves := by
    intro t m
    show m ∈ t.leaves ++ t.leaves ↔ _
    rw [List.mem_append, or_self]
  rw [Merkle.mem_leaves_root hDup h, sortedInputs, List.mem_insertionSort]

theorem leafInputs_of_none (h : stateTree sha256 s = none) : leafInputs s = [] := by
  by_contra hNe
  have hSorted : (sortedInputs sha256 s).map Merkle.Tree.leaf ≠ [] := by
    intro hNil
    have hPerm := (List.perm_insertionSort
      (fun x y => (compare (sha256 x) (sha256 y)).isLE = true) (leafInputs s)).length_eq
    rw [show List.insertionSort _ (leafInputs s) = [] from List.map_eq_nil_iff.mp hNil] at hPerm
    exact hNe (List.length_eq_zero_iff.mp hPerm.symm)
  have hSome := Merkle.root_isSome Merkle.Tree.node (fun t => .node t t) hSorted
  rw [show Merkle.root _ _ _ = none from h] at hSome
  cases hSome

theorem pairInput_inj (a b c d : Hash) (h : pairInput a b = pairInput c d) : a = c ∧ b = d := by
  obtain ⟨hl, hr⟩ := List.append_inj h (by rw [a.length_data, c.length_data])
  exact ⟨Hash.data_injective hl, Hash.data_injective hr⟩

/-- Every committed record is filed under a key of 33 bytes and starts with 32
bytes of its own, or is filed under a longer key. -/
theorem lt_length_leafInput {e : Sigma Key.Value} (h : e.1.split.1 ∈ statePrefixes) :
    64 < (leafInput e).length := by
  obtain ⟨k, r, hr⟩ := e
  -- A family outside the commitment contradicts `h`; the others add up the bytes.
  cases k <;> first
    | (simp [Key.split, statePrefixes] at h; done)
    | simp [leafInput, Key.bytes, Key.split, Key.recordBytes, Borsh.encode] <;> omega

theorem mem_committedEntries {e : Sigma Key.Value} :
    e ∈ committedEntries s ↔ e.1.split.1 ∈ statePrefixes ∧ s.get? e.1 = some e.2 := by
  have hStarts : ∀ start, Key.startsWith [start] e.1 = true ↔ start = e.1.split.1 := by
    intro start
    simp [Key.startsWith, Key.bytes, List.isPrefixOf]
  unfold committedEntries
  rw [List.mem_flatMap]
  constructor
  · rintro ⟨start, hStart, hMem⟩
    obtain ⟨hHead, hGet⟩ := Store.mem_scan.mp hMem
    exact ⟨(hStarts start).mp hHead ▸ hStart, hGet⟩
  · rintro ⟨hHead, hGet⟩
    exact ⟨_, hHead, Store.mem_scan.mpr ⟨(hStarts _).mpr rfl, hGet⟩⟩

theorem leafInput_ne_pairInput {m : List UInt8} (h : m ∈ leafInputs s) (a b : Hash) :
    m ≠ pairInput a b := by
  intro hEq
  obtain ⟨e, he, rfl⟩ := List.mem_map.mp h
  have hLong := lt_length_leafInput (mem_committedEntries.mp he).1
  rw [hEq, pairInput, List.length_append, a.length_data, b.length_data] at hLong
  omega

/-- No two of the messages that are hashed for two stores have the same hash, and
none has the hash of the empty state. -/
structure CollisionFree (s t : StateStore) : Prop where
  distinct : Merkle.NoCollision sha256 (hashedInputs sha256 s ++ hashedInputs sha256 t)
  nonzero : ∀ m ∈ hashedInputs sha256 s ++ hashedInputs sha256 t, sha256 m ≠ Hash.zero

theorem mem_leafInputs_of_root_eq (hFree : CollisionFree sha256 s t)
    (h : stateRoot sha256 s = stateRoot sha256 t) (m : List UInt8) :
    m ∈ leafInputs s ↔ m ∈ leafInputs t := by
  obtain ⟨hDistinct, hNonzero⟩ := hFree
  rw [stateRoot_eq_tree, stateRoot_eq_tree] at h
  unfold hashedInputs at hDistinct hNonzero
  cases hs : stateTree sha256 s with
  | none =>
      cases ht : stateTree sha256 t with
      | none => rw [leafInputs_of_none sha256 hs, leafInputs_of_none sha256 ht]
      | some t' =>
          rw [hs, ht] at h hNonzero
          obtain ⟨x, hx, hHash⟩ := t'.hash_mem_messages sha256 pairInput
          exact absurd (hHash.symm.trans h.symm) (hNonzero x (List.mem_append_right _ hx))
  | some s' =>
      cases ht : stateTree sha256 t with
      | none =>
          rw [hs, ht] at h hNonzero
          obtain ⟨x, hx, hHash⟩ := s'.hash_mem_messages sha256 pairInput
          exact absurd (hHash.symm.trans h) (hNonzero x (List.mem_append_left _ hx))
      | some t' =>
          rw [hs, ht] at h hDistinct
          have hEq : s' = t' := by
            refine Merkle.Tree.hash_inj pairInput_inj hDistinct ?_ h
            intro x hx
            cases List.mem_append.mp hx with
            | inl hl => exact leafInput_ne_pairInput ((mem_leaves_stateTree sha256 hs x).mp hl)
            | inr hr => exact leafInput_ne_pairInput ((mem_leaves_stateTree sha256 ht x).mp hr)
          rw [← mem_leaves_stateTree sha256 hs, ← mem_leaves_stateTree sha256 ht, hEq]

/-- The leaf message of an account is that of no other record. -/
theorem get?_account_of_mem_leafInputs {a : Address} {v : Key.Value (.account a)}
    (h : leafInput ⟨.account a, v⟩ ∈ leafInputs s) : s.get? (.account a) = some v := by
  obtain ⟨⟨k, r⟩, he, hEq⟩ := List.mem_map.mp h
  have hGet := (mem_committedEntries.mp he).2
  obtain ⟨hTag, hRest⟩ := List.cons.inj hEq
  cases k <;> try (simp [Key.split] at hTag; done)
  case account b =>
    obtain ⟨hAddr, hRecord⟩ := Borsh.encode_append_inj (a := b) (b := a) rfl rfl hRest
    subst hAddr
    have hVal : r.val = v.val :=
      Borsh.encode_inj (α := AccountState) rfl rfl hRecord
    rw [← Subtype.ext hVal]
    exact hGet

/-- Without collisions, stores with the same root hold the same accounts. -/
theorem get?_account_of_root_eq (hFree : CollisionFree sha256 s t)
    (h : stateRoot sha256 s = stateRoot sha256 t) (a : Address) :
    s.get? (.account a) = t.get? (.account a) := by
  have hMem := mem_leafInputs_of_root_eq sha256 hFree h
  have hLeaf : ∀ {u : StateStore} {v : Key.Value (.account a)},
      u.get? (.account a) = some v → leafInput ⟨.account a, v⟩ ∈ leafInputs u := fun hu =>
    List.mem_map.mpr ⟨_, mem_committedEntries.mpr ⟨by simp [Key.split, statePrefixes], hu⟩, rfl⟩
  apply Option.ext
  intro v
  constructor
  · intro hs
    exact get?_account_of_mem_leafInputs ((hMem _).mp (hLeaf hs))
  · intro ht
    exact get?_account_of_mem_leafInputs ((hMem _).mpr (hLeaf ht))

end Root

end Polay.State
