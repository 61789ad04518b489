import Polay.Lib.Ranking
import Polay.Mempool.Eviction

/-!
# Capacity and selection

The pool never holds more than its limit, and a block takes the pending transactions
with the highest fees. Both hold in whatever order the source's maps are walked.
Selection looks at fees only, so the nonces of a sender come in the order of its fees.

* `capacity_and_priority`: the bound, the eviction and the selection, after any calls.
* `nonceOrder_iff`: a selection respects the nonces of each sender exactly if the fees
  do, as far as the selection goes.
-/

namespace Polay

open Lib Lib.Machine Lib.Assoc Lib.Ranking Polay.Types Crypto

namespace Mempool

variable {pool pool' : Mempool} {config : MempoolConfig}

/-! ## The maps -/

variable {roomy : Mempool} {crypto : Primitives} {tx : SignedTransaction}

/-- Pending transactions are filed under their own hashes, each once. -/
structure Filed (pool : Mempool) : Prop where
  keyed : Keyed pool.pending
  hashed : ∀ e ∈ pool.pending, e.1 = e.2.txHash

/-- A pool that fits its configuration. -/
structure Fits (config : MempoolConfig) (pool : Mempool) : Prop extends Filed pool where
  config_eq : pool.config = config
  bounded : pool.pending.length ≤ config.maxSize.toNat

/-- The same pool, with its pending transactions walked in another order. -/
structure Reordered (pool pool' : Mempool) : Prop where
  pending : pool'.pending.Perm pool.pending
  bySender : pool'.bySender = pool.bySender
  recentlySeen : pool'.recentlySeen = pool.recentlySeen
  config : pool'.config = pool.config

theorem Filed.of_subperm (h : pool.Filed) (hSub : pool'.pending.Subperm pool.pending) :
    pool'.Filed := by
  refine ⟨?_, fun e he => h.hashed e (hSub.subset he)⟩
  obtain ⟨l, hPerm, hSublist⟩ := hSub
  exact (hPerm.map Prod.fst).nodup_iff.mp (h.keyed.sublist (hSublist.map Prod.fst))

theorem Filed.nodup_txHash (h : pool.Filed) :
    ((pool.pending.map Prod.snd).map SignedTransaction.txHash).Nodup := by
  have hHashes : (pool.pending.map Prod.snd).map SignedTransaction.txHash =
      pool.pending.map Prod.fst := by
    rw [List.map_map]
    exact List.map_congr_left fun e he => (h.hashed e he).symm
  rw [hHashes]
  exact h.keyed

theorem Fits.of_subperm (h : Fits config pool) (hSub : pool'.pending.Subperm pool.pending)
    (hConfig : pool'.config = pool.config) : Fits config pool' where
  toFiled := h.toFiled.of_subperm hSub
  config_eq := hConfig.trans h.config_eq
  bounded := hSub.length_le.trans h.bounded

theorem Fits.reordered (h : Fits config pool) (hOrder : Reordered pool pool') :
    Fits config pool' :=
  h.of_subperm hOrder.pending.subperm hOrder.config

/-! ## Calls -/

theorem pending_remove_sublist (pool : Mempool) (x : Hash) :
    (pool.remove x).pending.Sublist pool.pending := by
  rw [pending_remove]
  exact List.filter_sublist

theorem pending_removeBatch_sublist (pool : Mempool) (xs : List Hash) :
    (pool.removeBatch xs).pending.Sublist pool.pending := by
  induction xs generalizing pool with
  | nil => exact List.Sublist.refl _
  | cons x rest ih => exact (ih (pool.remove x)).trans (pending_remove_sublist pool x)

/-- Only an insertion adds to the pool. -/
theorem pending_apply_sublist {op : Op} (h : ∀ tx, op ≠ .insert tx) :
    (pool.apply crypto op).pending.Sublist pool.pending := by
  cases op with
  | insert tx => exact absurd rfl (h tx)
  | remove x => exact pending_remove_sublist pool x
  | removeBatch xs => exact pending_removeBatch_sublist pool xs
  | evictExpired now =>
      show (pool.evictExpired now).2.pending.Sublist _
      unfold evictExpired
      split
      · exact List.Sublist.refl _
      · exact pending_removeBatch_sublist pool _
  | pruneBelowNonce a n =>
      show (pool.pruneBelowNonce a n).pending.Sublist _
      unfold pruneBelowNonce
      split
      · exact List.Sublist.refl _
      · exact List.filter_sublist
  | clear => exact List.nil_sublist _

theorem pending_withRoom_sublist (h : pool.withRoom tx = some roomy) :
    roomy.pending.Sublist pool.pending := by
  rcases withRoom_cases h with rfl | ⟨x, rfl⟩
  · exact List.Sublist.refl _
  · exact pending_remove_sublist pool x

/-- A pool that has made room is below its limit. -/
theorem length_withRoom_lt (hBounded : pool.pending.length ≤ pool.config.maxSize.toNat)
    (h : pool.withRoom tx = some roomy) : roomy.pending.length < pool.config.maxSize.toNat := by
  by_cases hFull : pool.pending.length < pool.config.maxSize.toNat
  · have hSame : roomy = pool := (Option.some.inj ((if_pos hFull).symm.trans h)).symm
    rw [hSame]
    exact hFull
  · have hMake : pool.tryEvictLowestFee tx = some roomy := (if_neg hFull).symm.trans h
    rcases tryEvictLowestFee_cases pool tx with ⟨hNone, _⟩ | ⟨e, he, _, hEvict⟩
    · rw [hNone] at hMake
      cases hMake
    · rw [← Option.some.inj (hEvict.symm.trans hMake), pending_remove]
      refine Nat.lt_of_lt_of_le (List.length_filter_lt_length_iff_exists.mpr ?_) hBounded
      exact ⟨e, he.mem, by simp⟩

theorem Fits.added (h : Fits config roomy) (hRoom : roomy.pending.length < config.maxSize.toNat) :
    Fits config (roomy.added tx) := by
  have hPending : (roomy.added tx).pending =
      (tx.txHash, tx) :: roomy.pending.filter (·.1 ≠ tx.txHash) := rfl
  have hOthers : (roomy.pending.filter (·.1 ≠ tx.txHash)).Sublist roomy.pending :=
    List.filter_sublist
  refine ⟨⟨?_, ?_⟩, h.config_eq, ?_⟩
  · rw [hPending]
    refine List.nodup_cons.mpr ⟨fun hMem => ?_, h.keyed.filter _⟩
    obtain ⟨e, he, hEq⟩ := List.mem_map.mp hMem
    exact of_decide_eq_true (List.mem_filter.mp he).2 hEq
  · rw [hPending]
    exact List.forall_mem_cons.mpr ⟨rfl, fun e he => h.hashed e (hOthers.subset he)⟩
  · rw [hPending, List.length_cons]
    exact (Nat.succ_le_succ hOthers.length_le).trans hRoom

theorem Fits.insert (h : Fits config pool) (crypto : Primitives) (tx : SignedTransaction) :
    Fits config (pool.insert crypto tx).2 := by
  rcases insert_cases crypto pool tx with hSame | ⟨roomy, hRoom, hRest⟩
  · rwa [hSame]
  have hRoomy : Fits config roomy :=
    h.of_subperm (pending_withRoom_sublist hRoom).subperm (config_withRoom hRoom)
  rcases hRest with hOnly | ⟨_, _, hAdded⟩
  · rwa [hOnly]
  · rw [hAdded]
    have hLt := length_withRoom_lt (by rw [h.config_eq]; exact h.bounded) hRoom
    rw [h.config_eq] at hLt
    exact hRoomy.added hLt

/-- The calls that change the pool. -/
inductive PoolCall where
  | op (op : Op)
  | markSeen (txHash : Hash)
  | markSeenBatch (txHashes : List Hash)
  | clearRecentlySeen

/-- The pool after a call. -/
def call (crypto : Primitives) (pool : Mempool) : PoolCall → Mempool
  | .op op => pool.apply crypto op
  | .markSeen x => pool.markSeen x
  | .markSeenBatch xs => pool.markSeenBatch xs
  | .clearRecentlySeen => pool.clearRecentlySeen

/-- One call, on the pool as it is walked at that time. -/
def Step (crypto : Primitives) (pool pool' : Mempool) : Prop :=
  ∃ walked c, Reordered pool walked ∧ pool' = walked.call crypto c

theorem markSeenBatch_eq (pool : Mempool) (xs : List Hash) :
    ∃ seen, pool.markSeenBatch xs = { pool with recentlySeen := seen } := by
  induction xs generalizing pool with
  | nil => exact ⟨pool.recentlySeen, rfl⟩
  | cons x rest ih =>
      obtain ⟨seen, hSeen⟩ := ih (pool.markSeen x)
      exact ⟨seen, hSeen⟩

theorem Fits.call (h : Fits config pool) (crypto : Primitives) (c : PoolCall) :
    Fits config (pool.call crypto c) := by
  cases c with
  | op op =>
      by_cases hInsert : ∃ tx, op = .insert tx
      · obtain ⟨tx, rfl⟩ := hInsert
        exact h.insert crypto tx
      · refine h.of_subperm (pending_apply_sublist ?_).subperm (config_apply crypto pool op)
        exact fun tx hEq => hInsert ⟨tx, hEq⟩
  | markSeen | clearRecentlySeen => exact h.of_subperm (List.Perm.refl _).subperm rfl
  | markSeenBatch xs =>
      obtain ⟨seen, hSeen⟩ := markSeenBatch_eq pool xs
      show Fits config (pool.markSeenBatch xs)
      rw [hSeen]
      exact h.of_subperm (List.Perm.refl _).subperm rfl

/-- A pool after any calls. -/
theorem fits_of_steps (h : Relation.ReflTransGen (Step crypto) (new config) pool) :
    Fits config pool := by
  induction h with
  | refl => exact ⟨⟨List.nodup_nil, List.forall_mem_nil _⟩, rfl, Nat.zero_le _⟩
  | tail _ hStep ih =>
      obtain ⟨walked, c, hOrder, rfl⟩ := hStep
      exact (ih.reordered hOrder).call crypto c

/-! ## Eviction -/

/-- In a full pool one of the cheapest pending transactions gives way to the new one. -/
theorem Filed.insert_full (h : pool.Filed)
    (hFull : pool.config.maxSize.toNat ≤ pool.pending.length)
    (hOk : (pool.insert crypto tx).1 = .ok ()) :
    ∃ e ∈ pool.pending,
      (∀ x ∈ pool.pending, e.2.transaction.maxFee ≤ x.2.transaction.maxFee) ∧
      e.2.transaction.maxFee < tx.transaction.maxFee ∧
      (pool.insert crypto tx).2.pending = (tx.txHash, tx) :: pool.pending.erase e := by
  have hUnknown : Unknown pool tx := by
    by_contra hKnown
    exact (insert_of_known hKnown).1 hOk
  have hMake : pool.withRoom tx = pool.tryEvictLowestFee tx := if_neg (Nat.not_lt.mpr hFull)
  rcases tryEvictLowestFee_cases pool tx with ⟨hNone, _⟩ | ⟨e, he, hLt, hEvict⟩
  · exact absurd hOk (insert_of_withRoom_eq_none (hMake.trans hNone)).1
  refine ⟨e, he.mem, fun x hx => he.le hx, hLt, ?_⟩
  rcases insert_of_roomy crypto hUnknown (hMake.trans hEvict) with
    ⟨_, hInsert⟩ | ⟨_, hErr, _⟩
  swap
  · exact absurd hOk hErr
  rw [hInsert]
  show (tx.txHash, tx) :: (pool.remove e.1).pending.filter (·.1 ≠ tx.txHash) = _
  have hOthers : ∀ x ∈ pool.pending, x.1 ≠ tx.txHash := fun x hx =>
    Ne.symm (bne_iff_ne.mp (List.lookup_eq_none_iff.mp hUnknown.absent x hx))
  have hNodup : pool.pending.Nodup := List.Nodup.of_map _ h.keyed
  rw [pending_remove, List.filter_filter, hNodup.erase_eq_filter]
  congr 1
  refine List.filter_congr fun x hx => ?_
  rw [decide_eq_true (hOthers x hx), Bool.true_and, Bool.eq_iff_iff, decide_eq_true_iff,
    bne_iff_ne]
  refine not_congr ⟨fun hEq => ?_, fun hEq => by rw [hEq]⟩
  exact List.inj_on_of_nodup_map h.keyed hx he.mem hEq

/-! ## Selection -/

/-- The order of a block: no lower fee before a higher one. -/
def Pays (a b : SignedTransaction) : Prop := b.transaction.maxFee ≤ a.transaction.maxFee

instance : DecidableRel Pays := fun a b =>
  inferInstanceAs (Decidable (b.transaction.maxFee ≤ a.transaction.maxFee))

instance : Std.Total Pays := ⟨fun _ _ => UInt64.le_total _ _⟩

instance : IsTrans SignedTransaction Pays := ⟨fun _ _ _ hab hbc => UInt64.le_trans hbc hab⟩

theorem getPendingForBlock_eq (pool : Mempool) (k : UInt64) :
    pool.getPendingForBlock k = ((pool.pending.map Prod.snd).insertionSort Pays).take k.toNat :=
  rfl

/-- A selection of `k` transactions: as many as there are, each once, by their fees, and none
that is left out pays more. -/
structure Selects (pending picked : List SignedTransaction) (k : Nat) : Prop where
  length : picked.length = min k pending.length
  distinct : (picked.map SignedTransaction.txHash).Nodup
  sorted : picked.Pairwise Pays
  best : ∃ left, (picked ++ left).Perm pending ∧ ∀ a ∈ picked, ∀ b ∈ left, Pays a b

theorem Filed.selects (h : pool.Filed) (k : UInt64) :
    Selects (pool.pending.map Prod.snd) (pool.getPendingForBlock k) k.toNat := by
  have hPerm := List.perm_insertionSort Pays (pool.pending.map Prod.snd)
  have hSorted := List.pairwise_insertionSort Pays (pool.pending.map Prod.snd)
  have hSplit := List.take_append_drop k.toNat
    ((pool.pending.map Prod.snd).insertionSort Pays)
  rw [getPendingForBlock_eq]
  refine ⟨?_, ?_, ?_, ((pool.pending.map Prod.snd).insertionSort Pays).drop k.toNat, ?_, ?_⟩
  · rw [List.length_take, List.length_insertionSort]
  · refine List.Nodup.sublist ((List.take_sublist _ _).map _) ?_
    rw [(hPerm.map _).nodup_iff]
    exact h.nodup_txHash
  · exact hSorted.sublist (List.take_sublist _ _)
  · rw [hSplit]
    exact hPerm
  · intro a ha b hb
    rw [← hSplit] at hSorted
    exact (List.pairwise_append.mp hSorted).2.2 a ha b hb

/-- After any calls, and in whatever order the pending transactions are walked: the pool holds
at most its limit, an insertion into a full pool evicts one of the cheapest pending
transactions, and a selection takes those with the highest fees. -/
theorem capacity_and_priority (crypto : Primitives) (config : MempoolConfig)
    (h : Relation.ReflTransGen (Step crypto) (new config) pool) :
    pool.pending.length ≤ config.maxSize.toNat ∧
      ∀ walked, Reordered pool walked →
        (∀ tx, config.maxSize.toNat ≤ pool.pending.length →
          (walked.insert crypto tx).1 = .ok () →
          ∃ e ∈ pool.pending,
            (∀ x ∈ pool.pending, e.2.transaction.maxFee ≤ x.2.transaction.maxFee) ∧
            e.2.transaction.maxFee < tx.transaction.maxFee ∧
            (walked.insert crypto tx).2.pending.Perm
              ((tx.txHash, tx) :: pool.pending.erase e)) ∧
        ∀ k : UInt64,
          Selects (pool.pending.map Prod.snd) (walked.getPendingForBlock k) k.toNat := by
  have hFits := fits_of_steps h
  refine ⟨hFits.bounded, fun walked hOrder => ⟨fun tx hFull hOk => ?_, fun k => ?_⟩⟩
  · have hWalked := hFits.reordered hOrder
    have hMembers : ∀ x, x ∈ walked.pending ↔ x ∈ pool.pending := fun x => hOrder.pending.mem_iff
    obtain ⟨e, he, hLowest, hLt, hLeft⟩ := hWalked.toFiled.insert_full (by
      rw [hWalked.config_eq, hOrder.pending.length_eq]
      exact hFull) hOk
    refine ⟨e, (hMembers e).mp he, fun x hx => hLowest x ((hMembers x).mpr hx), hLt, ?_⟩
    rw [hLeft]
    exact (hOrder.pending.erase e).cons _
  · have hSelects := (hFits.reordered hOrder).toFiled.selects k
    have hPerm := hOrder.pending.map Prod.snd
    refine ⟨?_, hSelects.distinct, hSelects.sorted, ?_⟩
    · rw [hSelects.length, hPerm.length_eq]
    · obtain ⟨left, hAll, hBest⟩ := hSelects.best
      exact ⟨left, hAll.trans hPerm, hBest⟩

/-- A transaction of one sender with the given nonce and fee. -/
def feeTx (nonce fee : UInt64) : SignedTransaction :=
  let tx := queuedTx nonce (Hash.ofByte nonce.toUInt8)
  { tx with transaction := { tx.transaction with maxFee := fee } }

/-- A pool with room for one transaction, that does not verify signatures. -/
def tinyConfig : MempoolConfig := { openConfig with maxSize := 1 }

/-- The second transaction takes the place of the first. -/
theorem capacity_and_priority_tiny :
    ∃ e ∈ ((new tinyConfig).insert .sample (feeTx 0 2000)).2.pending,
      e.2.transaction.maxFee < 3000 ∧
      ((((new tinyConfig).insert .sample (feeTx 0 2000)).2.insert .sample
        (feeTx 1 3000)).2.pending).Perm ((Hash.ofByte 1, feeTx 1 3000) ::
          ((new tinyConfig).insert .sample (feeTx 0 2000)).2.pending.erase e) := by
  have hOrder : ∀ pool : Mempool, Reordered pool pool := fun pool => ⟨.refl _, rfl, rfl, rfl⟩
  have hStep : Relation.ReflTransGen (Step .sample) (new tinyConfig)
      ((new tinyConfig).insert .sample (feeTx 0 2000)).2 :=
    .single ⟨new tinyConfig, .op (.insert (feeTx 0 2000)), hOrder _, rfl⟩
  obtain ⟨e, he, _, hLt, hLeft⟩ :=
    ((capacity_and_priority .sample tinyConfig hStep).2 _ (hOrder _)).1 (feeTx 1 3000)
      (by decide +kernel) (by decide +kernel)
  exact ⟨e, he, hLt, hLeft⟩

/-! ## Nonces -/

/-- The selected transactions of each sender come in the order of their nonces, and none is
selected without those of lower nonces. -/
def NonceOrder (pool : Mempool) (k : UInt64) : Prop :=
  (pool.getPendingForBlock k).Pairwise (fun a b => a.signer = b.signer → a.nonce < b.nonce) ∧
    ∀ b ∈ pool.getPendingForBlock k, ∀ a ∈ pool.pending.map Prod.snd,
      a.signer = b.signer → a.nonce < b.nonce → a ∈ pool.getPendingForBlock k

/-- A transaction with a lower nonce pays more than one that is among the best `k`, or the same
and is walked first; of two with one nonce, only one is among the best. -/
def FeesFollowNonces (pool : Mempool) (k : UInt64) : Prop :=
  let pending := pool.pending.map Prod.snd
  ∀ a ∈ pending, ∀ b ∈ pending, a ≠ b → a.signer = b.signer → rank Pays pending b < k.toNat →
    (a.nonce < b.nonce → Outranks Pays pending a b) ∧
    (a.nonce = b.nonce → k.toNat ≤ rank Pays pending a)

theorem nonceOrder_iff (h : pool.Filed) (k : UInt64) :
    NonceOrder pool k ↔ FeesFollowNonces pool k := by
  have hNodup : (pool.pending.map Prod.snd).Nodup := List.Nodup.of_map _ h.nodup_txHash
  unfold NonceOrder FeesFollowNonces
  rw [getPendingForBlock_eq]
  dsimp only
  generalize pool.pending.map Prod.snd = pending at hNodup ⊢
  have hSorted : (pending.insertionSort Pays).Nodup :=
    (List.perm_insertionSort Pays pending).nodup_iff.mpr hNodup
  have hTake : ((pending.insertionSort Pays).take k.toNat).Sublist
      (pending.insertionSort Pays) := List.take_sublist _ _
  have hMem : ∀ a, a ∈ (pending.insertionSort Pays).take k.toNat → a ∈ pending :=
    fun a ha => (List.mem_insertionSort Pays).mp (hTake.subset ha)
  constructor
  · rintro ⟨hOrder, hLower⟩ a ha b hb hNe hSigner hRank
    have hPair : ∀ {x y : SignedTransaction},
        [x, y].Sublist ((pending.insertionSort Pays).take k.toNat) →
        x.signer = y.signer → x.nonce < y.nonce :=
      List.pairwise_iff_forall_sublist.mp hOrder
    have hbIn := (mem_take_insertionSort_iff (k := k.toNat) hNodup hb).mpr hRank
    refine ⟨fun hNonce => ?_, fun hNonce => ?_⟩
    · have haIn := hLower b hbIn a ha hSigner hNonce
      rcases pair_sublist_or haIn hbIn hNe with hAB | hBA
      · exact (pair_sublist_insertionSort_iff hNodup ha hb hNe).mp (hAB.trans hTake)
      · exact absurd (hPair hBA hSigner.symm) (UInt64.lt_asymm hNonce)
    · by_contra hLt
      have haIn := (mem_take_insertionSort_iff hNodup ha).mpr (Nat.not_le.mp hLt)
      rcases pair_sublist_or haIn hbIn hNe with hAB | hBA
      · exact UInt64.lt_irrefl _ (hNonce ▸ hPair hAB hSigner)
      · exact UInt64.lt_irrefl _ (hNonce ▸ hPair hBA hSigner.symm)
  · intro hFees
    refine ⟨List.pairwise_iff_forall_sublist.mpr ?_, ?_⟩
    · intro a b hAB hSigner
      have haIn := hAB.subset (List.mem_cons_self : a ∈ [a, b])
      have hbIn := hAB.subset (by simp : b ∈ [a, b])
      have hNe : a ≠ b := by
        rintro rfl
        exact pair_sublist_asymm hSorted (hAB.trans hTake) (hAB.trans hTake)
      have haRank := (mem_take_insertionSort_iff hNodup (hMem a haIn)).mp haIn
      have hbRank := (mem_take_insertionSort_iff hNodup (hMem b hbIn)).mp hbIn
      obtain ⟨hLower, hSame⟩ :=
        hFees b (hMem b hbIn) a (hMem a haIn) hNe.symm hSigner.symm haRank
      by_contra hNotLt
      by_cases hEq : b.nonce = a.nonce
      · exact Nat.not_le.mpr hbRank (hSame hEq)
      · have hGt : b.nonce < a.nonce := UInt64.lt_of_le_of_ne (UInt64.not_lt.mp hNotLt) hEq
        refine pair_sublist_asymm hSorted (hAB.trans hTake) ?_
        exact (pair_sublist_insertionSort_iff hNodup (hMem b hbIn) (hMem a haIn) hNe.symm).mpr
          (hLower hGt)
    · intro b hbIn a ha hSigner hNonce
      have hNe : a ≠ b := by
        rintro rfl
        exact UInt64.lt_irrefl _ hNonce
      have hbRank := (mem_take_insertionSort_iff hNodup (hMem b hbIn)).mp hbIn
      have hOut := (hFees a ha b (hMem b hbIn) hNe hSigner hbRank).1 hNonce
      exact mem_take_of_pair hSorted
        ((pair_sublist_insertionSort_iff hNodup ha (hMem b hbIn) hNe).mpr hOut) hbIn

/-- A pool with transactions of one sender, with the given nonces and fees. -/
def feePool (l : List (UInt64 × UInt64)) : Mempool :=
  { new openConfig with pending := l.map fun e => ((feeTx e.1 e.2).txHash, feeTx e.1 e.2) }

theorem nonceOrder_iff_descending : NonceOrder (feePool [(1, 2000), (0, 3000)]) 2 := by
  have hFiled : (feePool [(1, 2000), (0, 3000)]).Filed := by
    refine ⟨?_, by decide +kernel⟩
    unfold Keyed
    decide +kernel
  refine (nonceOrder_iff hFiled 2).mpr ?_
  unfold FeesFollowNonces
  decide +kernel

/-- The transaction with the higher nonce pays more, so it comes first. -/
theorem nonces_out_of_order :
    ((feePool [(0, 2000), (1, 3000)]).getPendingForBlock 2).map SignedTransaction.nonce = [1, 0] ∧
      ¬ NonceOrder (feePool [(0, 2000), (1, 3000)]) 2 := by
  refine ⟨by decide +kernel, fun h => ?_⟩
  have hOrder := h.1
  revert hOrder
  decide +kernel

end Mempool

end Polay
