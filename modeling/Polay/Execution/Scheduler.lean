import Polay.Execution.AccessSet

/-!
# The batch scheduler

Transactions are put into batches by first fit: each one goes to the earliest
batch that holds no transaction whose predicted access set conflicts with its
own, and opens a new batch if there is none. Every transaction ends up in exactly
one batch, under its position in the block, and no two transactions of a batch
are predicted to conflict. The order of conflicting transactions is not kept: one
may fit into a batch before that of an earlier transaction it conflicts with.
-/

namespace Polay.Execution

open Lib Polay.Types State

/-- Transactions to be run in parallel, each with its position in the block. -/
structure ExecutionBatch where
  transactions : List (Nat × SignedTransaction)

variable (sha256 : List UInt8 → Hash)

/-- Put a transaction into the first batch it fits in. Each batch comes with the
access sets of its transactions. -/
def place (idx : Nat) (tx : SignedTransaction) (txAccess : AccessSet) :
    List (ExecutionBatch × List AccessSet) → List (ExecutionBatch × List AccessSet)
  | [] => [(⟨[(idx, tx)]⟩, [txAccess])]
  | (batch, accessSets) :: rest =>
      if accessSets.any fun s => s.conflictsWith txAccess then
        (batch, accessSets) :: place idx tx txAccess rest
      else
        (⟨batch.transactions ++ [(idx, tx)]⟩, accessSets ++ [txAccess]) :: rest

/-- The batches after the transactions of a list were placed. -/
def placeAll (slots : List (ExecutionBatch × List AccessSet))
    (l : List (SignedTransaction × Nat)) : List (ExecutionBatch × List AccessSet) :=
  l.foldl (fun slots e => place e.2 e.1 (predictAccessSet sha256 e.1) slots) slots

/-- Schedule the transactions of a block into batches. -/
def scheduleParallel (transactions : List SignedTransaction) : List ExecutionBatch :=
  (placeAll sha256 [] transactions.zipIdx).map Prod.fst

/-- Summary figures of a schedule. -/
structure ScheduleStats where
  totalTransactions : Nat
  batchCount : Nat
  maxBatchSize : Nat
deriving DecidableEq

def scheduleStats (batches : List ExecutionBatch) : ScheduleStats where
  totalTransactions := (batches.map fun b => b.transactions.length).sum
  batchCount := batches.length
  maxBatchSize := ((batches.map fun b => b.transactions.length).max?).getD 0

/-! ## Every transaction is placed once -/

/-- All placed transactions, batch by batch. -/
def placed (slots : List (ExecutionBatch × List AccessSet)) : List (Nat × SignedTransaction) :=
  slots.flatMap fun slot => slot.1.transactions

theorem placed_place (idx : Nat) (tx : SignedTransaction) (txAccess : AccessSet)
    (slots : List (ExecutionBatch × List AccessSet)) :
    (placed (place idx tx txAccess slots)).Perm ((idx, tx) :: placed slots) := by
  induction slots with
  | nil => exact List.Perm.refl _
  | cons slot rest ih =>
      obtain ⟨batch, accessSets⟩ := slot
      rw [place]
      split
      · show (batch.transactions ++ placed (place idx tx txAccess rest)).Perm
          ((idx, tx) :: (batch.transactions ++ placed rest))
        exact (ih.append_left _).trans List.perm_middle
      · show ((batch.transactions ++ [(idx, tx)]) ++ placed rest).Perm
          ((idx, tx) :: (batch.transactions ++ placed rest))
        rw [List.append_assoc]
        exact List.perm_middle

theorem placed_placeAll (slots : List (ExecutionBatch × List AccessSet))
    (l : List (SignedTransaction × Nat)) :
    (placed (placeAll sha256 slots l)).Perm (l.map Prod.swap ++ placed slots) := by
  induction l generalizing slots with
  | nil => exact List.Perm.refl _
  | cons e l ih =>
      refine (ih _).trans ?_
      refine ((placed_place e.2 e.1 _ slots).append_left _).trans ?_
      exact List.perm_middle

/-- The batches hold every transaction exactly once, under its position. -/
theorem scheduled_perm (txs : List SignedTransaction) :
    ((scheduleParallel sha256 txs).flatMap ExecutionBatch.transactions).Perm
      (txs.zipIdx.map Prod.swap) := by
  have hPerm := placed_placeAll sha256 [] txs.zipIdx
  rw [placed, placed, List.flatMap_nil, List.append_nil] at hPerm
  rw [scheduleParallel, List.flatMap_map]
  exact hPerm

/-! ## No conflicts within a batch -/

/-- A batch with the access sets of its transactions, none of which conflict. -/
def Compatible (slot : ExecutionBatch × List AccessSet) : Prop :=
  slot.2 = slot.1.transactions.map (fun e => predictAccessSet sha256 e.2) ∧
    slot.2.Pairwise fun a b => a.conflictsWith b = false

theorem compatible_place {idx : Nat} {tx : SignedTransaction}
    {slots : List (ExecutionBatch × List AccessSet)}
    (h : ∀ slot ∈ slots, Compatible sha256 slot) :
    ∀ slot ∈ place idx tx (predictAccessSet sha256 tx) slots, Compatible sha256 slot := by
  induction slots with
  | nil =>
      intro slot hSlot
      obtain rfl := List.mem_singleton.mp hSlot
      exact ⟨rfl, List.pairwise_singleton _ _⟩
  | cons slot rest ih =>
      obtain ⟨batch, accessSets⟩ := slot
      have hHead := h _ (List.mem_cons_self ..)
      have hRest : ∀ slot ∈ rest, Compatible sha256 slot :=
        fun slot hSlot => h slot (List.mem_cons_of_mem _ hSlot)
      rw [place]
      split
      · intro slot hSlot
        cases List.mem_cons.mp hSlot with
        | inl hEq => exact hEq ▸ hHead
        | inr hMem => exact ih hRest slot hMem
      next hFits =>
        intro slot hSlot
        cases List.mem_cons.mp hSlot with
        | inl hEq =>
            subst hEq
            refine ⟨?_, List.pairwise_append.mpr ⟨hHead.2, List.pairwise_singleton _ _, ?_⟩⟩
            · show accessSets ++ _ = (batch.transactions ++ _).map _
              rw [List.map_append]
              exact congrArg (· ++ [predictAccessSet sha256 tx]) hHead.1
            · intro a ha b hb
              obtain rfl := List.mem_singleton.mp hb
              by_contra hConflict
              exact hFits (List.any_eq_true.mpr ⟨a, ha, by simpa using hConflict⟩)
        | inr hMem => exact hRest slot hMem

/-- No two transactions of a batch are predicted to conflict. -/
theorem scheduled_no_conflict (txs : List SignedTransaction) {batch : ExecutionBatch}
    (h : batch ∈ scheduleParallel sha256 txs) :
    batch.transactions.Pairwise fun a b =>
      (predictAccessSet sha256 a.2).conflictsWith (predictAccessSet sha256 b.2) = false := by
  have hAll : ∀ (l : List (SignedTransaction × Nat)) slots,
      (∀ slot ∈ slots, Compatible sha256 slot) →
        ∀ slot ∈ placeAll sha256 slots l, Compatible sha256 slot := by
    intro l
    induction l with
    | nil => intro slots hSlots; exact hSlots
    | cons e l ih => intro slots hSlots; exact ih _ (compatible_place sha256 hSlots)
  obtain ⟨slot, hSlot, rfl⟩ := List.mem_map.mp h
  obtain ⟨hSets, hPairwise⟩ := hAll txs.zipIdx [] (fun _ hNil => absurd hNil List.not_mem_nil)
    slot hSlot
  rw [hSets] at hPairwise
  exact List.pairwise_map.mp hPairwise

end Polay.Execution
