import Polay.Lib.Assoc
import Polay.Lib.Trace
import Polay.Mempool.Pool

/-!
# The index of the mempool

The pool keeps every pending transaction under its hash and, for each sender,
the hash of the transaction under each nonce. The two maps agree as long as no
two pending transactions have the same sender and nonce. Insertion does not
check that: it files the new hash in the place of the old one, and the older
transaction stays pending without being in the index.
-/

namespace Polay

open Lib Lib.Machine Lib.Assoc Lib.Trace Polay.Types Crypto

namespace Mempool

/-- The hash filed for a sender and a nonce. -/
def hashAt (pool : Mempool) (sender : Address) (nonce : UInt64) : Option Hash :=
  (pool.queueOf sender).bind (·.lookup nonce)

/-- The pending transactions of a sender. -/
def countOf (pool : Mempool) (sender : Address) : Nat :=
  pool.pending.countP fun e => e.2.signer = sender

/-- The index has exactly the pending transactions, and no sender has too many. -/
structure Consistent (pool : Mempool) : Prop where
  found : ∀ h tx, pool.pending.lookup h = some tx → pool.hashAt tx.signer tx.nonce = some h
  pends : ∀ a n h, pool.hashAt a n = some h →
    ∃ tx, pool.pending.lookup h = some tx ∧ tx.signer = a ∧ tx.nonce = n
  bounded : ∀ a, pool.countOf a ≤ pool.config.maxPerAccount.toNat

/-- Consistency with the shape of the maps that keeps it. -/
structure Indexed (pool : Mempool) : Prop where
  keyed : Keyed pool.pending
  sorted : ∀ a q, pool.queueOf a = some q → q.Pairwise fun x y => x.1 < y.1
  short : ∀ a q, pool.queueOf a = some q → q.length ≤ pool.config.maxPerAccount.toNat
  found : ∀ h tx, pool.pending.lookup h = some tx → pool.hashAt tx.signer tx.nonce = some h
  pends : ∀ a n h, pool.hashAt a n = some h →
    ∃ tx, pool.pending.lookup h = some tx ∧ tx.signer = a ∧ tx.nonce = n

variable {pool : Mempool}

/-! ## Queues -/

variable {x : Hash} {q : List (UInt64 × Hash)} {tx : SignedTransaction}

theorem keyed_of_sorted (h : q.Pairwise fun x y => x.1 < y.1) : Keyed q := by
  unfold Keyed List.Nodup
  rw [List.pairwise_map]
  exact h.imp fun hLt => UInt64.ne_of_lt hLt

theorem queueOf_setQueue (pool : Mempool) (sender a : Address) (q : List (UInt64 × Hash)) :
    (pool.setQueue sender q).queueOf a =
      if a = sender then (if q = [] then none else some q) else pool.queueOf a := by
  have hOthers : (pool.bySender.filter (·.1 ≠ sender)).lookup a =
      if a = sender then none else pool.queueOf a := by
    have hFilter := lookup_filter (fun b => decide (b ≠ sender)) pool.bySender a
    rw [hFilter]
    by_cases hEq : a = sender <;> simp [hEq, queueOf]
  unfold queueOf setQueue
  dsimp only
  by_cases hNil : q = []
  · rw [if_pos hNil, hOthers]
    by_cases hEq : a = sender <;> simp [hEq, hNil, queueOf]
  · rw [if_neg hNil, List.lookup_cons, hOthers]
    by_cases hEq : a = sender
    · simp [hEq, hNil]
    · rw [beq_eq_false_iff_ne.mpr hEq, if_neg hEq, if_neg hEq]
      rfl

theorem hashAt_setQueue (pool : Mempool) (sender a : Address) (q : List (UInt64 × Hash))
    (n : UInt64) :
    (pool.setQueue sender q).hashAt a n = if a = sender then q.lookup n else pool.hashAt a n := by
  unfold hashAt
  rw [queueOf_setQueue]
  by_cases hEq : a = sender
  · rw [if_pos hEq, if_pos hEq]
    by_cases hNil : q = []
    · rw [if_pos hNil, hNil]
      rfl
    · rw [if_neg hNil]
      rfl
  · rw [if_neg hEq, if_neg hEq]

theorem pending_setQueue (pool : Mempool) (sender : Address) (q : List (UInt64 × Hash)) :
    (pool.setQueue sender q).pending = pool.pending := rfl

theorem lookup_insertNonce (nonce : UInt64) (hash : Hash) (q : List (UInt64 × Hash))
    (n : UInt64) :
    (insertNonce nonce hash q).lookup n = if n = nonce then some hash else q.lookup n := by
  induction q with
  | nil =>
      rw [insertNonce, List.lookup_cons]
      by_cases hEq : n = nonce
      · simp [hEq]
      · rw [beq_eq_false_iff_ne.mpr hEq, if_neg hEq]
  | cons e rest ih =>
      unfold insertNonce
      split
      · rw [List.lookup_cons]
        by_cases hEq : n = nonce
        · simp [hEq]
        · rw [beq_eq_false_iff_ne.mpr hEq, if_neg hEq]
      · split
        next hSame =>
          rw [List.lookup_cons, List.lookup_cons, ← hSame]
          by_cases hEq : n = nonce
          · simp [hEq]
          · rw [beq_eq_false_iff_ne.mpr hEq, if_neg hEq]
        next hOther =>
          rw [List.lookup_cons, List.lookup_cons, ih]
          by_cases hEq : n = nonce
          · subst hEq
            rw [beq_eq_false_iff_ne.mpr hOther, if_pos rfl]
          · rw [if_neg hEq, if_neg hEq]

theorem mem_insertNonce {nonce : UInt64} {hash : Hash} {e : UInt64 × Hash}
    (h : e ∈ insertNonce nonce hash q) : e = (nonce, hash) ∨ e ∈ q := by
  induction q with
  | nil => exact .inl (List.mem_singleton.mp h)
  | cons x rest ih =>
      unfold insertNonce at h
      split at h
      · exact List.mem_cons.mp h
      · split at h
        · rcases List.mem_cons.mp h with hHead | hTail
          · exact .inl hHead
          · exact .inr (List.mem_cons_of_mem _ hTail)
        · rcases List.mem_cons.mp h with hHead | hTail
          · exact .inr (hHead ▸ List.mem_cons_self)
          · exact (ih hTail).imp_right (List.mem_cons_of_mem _)

theorem sorted_insertNonce {nonce : UInt64} {hash : Hash} (h : q.Pairwise fun x y => x.1 < y.1) :
    (insertNonce nonce hash q).Pairwise fun x y => x.1 < y.1 := by
  induction q with
  | nil => exact List.pairwise_singleton _ _
  | cons e rest ih =>
      obtain ⟨hHead, hRest⟩ := List.pairwise_cons.mp h
      unfold insertNonce
      split
      next hLt =>
        refine List.pairwise_cons.mpr ⟨fun y hy => ?_, h⟩
        rcases List.mem_cons.mp hy with hEq | hMem
        · rw [hEq]
          exact hLt
        · exact UInt64.lt_trans hLt (hHead y hMem)
      next hNotLt =>
        split
        next hEq => exact List.pairwise_cons.mpr ⟨fun y hy => hEq ▸ hHead y hy, hRest⟩
        next hNe =>
          refine List.pairwise_cons.mpr ⟨fun y hy => ?_, ih hRest⟩
          rcases mem_insertNonce hy with hNew | hOld
          · rw [hNew]
            exact UInt64.lt_of_le_of_ne (UInt64.not_lt.mp hNotLt) (Ne.symm hNe)
          · exact hHead y hOld

theorem length_insertNonce_le (nonce : UInt64) (hash : Hash) (q : List (UInt64 × Hash)) :
    (insertNonce nonce hash q).length ≤ q.length + 1 := by
  induction q with
  | nil => exact Nat.le_refl _
  | cons e rest ih =>
      unfold insertNonce
      split
      · exact Nat.le_refl _
      · split
        · exact Nat.le_succ _
        · exact Nat.succ_le_succ ih

/-! ## The bound -/

/-- The hashes of the pending transactions of a sender are in its queue. -/
theorem Indexed.countOf_le (h : pool.Indexed) (a : Address) :
    pool.countOf a ≤ pool.config.maxPerAccount.toNat := by
  let own := (pool.pending.filter fun e => e.2.signer = a).map Prod.fst
  have hCount : pool.countOf a = own.length := by
    rw [countOf, List.countP_eq_length_filter, List.length_map]
  have hNodup : own.Nodup := h.keyed.filter _
  have hFiled : ∀ x ∈ own, ∃ n, pool.hashAt a n = some x := by
    intro x hx
    obtain ⟨e, he, rfl⟩ := List.mem_map.mp hx
    obtain ⟨hMem, hSigner⟩ := List.mem_filter.mp he
    have hFound := h.found e.1 e.2 (lookup_of_mem h.keyed hMem)
    rw [of_decide_eq_true hSigner] at hFound
    exact ⟨e.2.nonce, hFound⟩
  rw [hCount]
  cases hQueue : pool.queueOf a with
  | none =>
      have hEmpty : own = [] := by
        rw [List.eq_nil_iff_forall_not_mem]
        intro x hx
        obtain ⟨n, hn⟩ := hFiled x hx
        rw [hashAt, hQueue] at hn
        cases hn
      rw [hEmpty]
      exact Nat.zero_le _
  | some q =>
      have hSubset : own ⊆ q.map Prod.snd := by
        intro x hx
        obtain ⟨n, hn⟩ := hFiled x hx
        rw [hashAt, hQueue] at hn
        exact List.mem_map.mpr ⟨(n, x), mem_of_lookup hn, rfl⟩
      have hLength := (hNodup.subperm hSubset).length_le
      have hQueueLength : (q.map Prod.snd).length = q.length := List.length_map _
      exact (hLength.trans hQueueLength.le).trans (h.short a q hQueue)

theorem Indexed.consistent (h : pool.Indexed) : pool.Consistent :=
  ⟨h.found, h.pends, h.countOf_le⟩

/-! ## Operations -/

theorem indexed_empty (config : MempoolConfig) (seen : List Hash) :
    Indexed ⟨[], [], seen, config⟩ where
  keyed := List.nodup_nil
  sorted a q hq := by cases hq
  short a q hq := by cases hq
  found h tx hTx := by cases hTx
  pends a n h hAt := by cases hAt

/-- A hash is filed in one place only. -/
theorem Indexed.slot_unique (h : pool.Indexed) {a b : Address} {m n : UInt64}
    (ha : pool.hashAt a m = some x) (hb : pool.hashAt b n = some x) : a = b ∧ m = n := by
  obtain ⟨tx, hTx, hSigner, hNonce⟩ := h.pends a m x ha
  obtain ⟨ty, hTy, hSigner', hNonce'⟩ := h.pends b n x hb
  have hSame : tx = ty := Option.some.inj (hTx.symm.trans hTy)
  exact ⟨by rw [← hSigner, hSame, hSigner'], by rw [← hNonce, hSame, hNonce']⟩

/-- Dropping nonces of one sender from its queue, and with them the hashes that are filed
there from the pool. -/
theorem Indexed.drop (h : pool.Indexed) {sender : Address} {queue : List (UInt64 × Hash)}
    (hQueue : pool.queueOf sender = some queue) (g : UInt64 → Bool) (p : Hash → Bool)
    (hSlots : ∀ a n x, pool.hashAt a n = some x → (p x = true ↔ (a = sender → g n = true))) :
    Indexed (setQueue { pool with pending := pool.pending.filter fun e => p e.1 } sender
      (queue.filter fun e => g e.1)) := by
  have hPending : ∀ x, (pool.pending.filter fun e => p e.1).lookup x =
      if p x then pool.pending.lookup x else none := lookup_filter p pool.pending
  -- What stays filed is what stays pending.
  have hAt : ∀ a n x, (setQueue { pool with pending := pool.pending.filter fun e => p e.1 }
      sender (queue.filter fun e => g e.1)).hashAt a n = some x ↔
      pool.hashAt a n = some x ∧ p x = true := by
    intro a n x
    rw [hashAt_setQueue]
    by_cases hSender : a = sender
    · have hSlot : pool.hashAt a n = queue.lookup n := by rw [hashAt, hSender, hQueue]; rfl
      rw [if_pos hSender, lookup_filter g, hSlot]
      constructor
      · intro hx
        by_cases hKept : g n = true
        · rw [if_pos hKept] at hx
          exact ⟨hx, (hSlots a n x (hSlot.trans hx)).mpr fun _ => hKept⟩
        · rw [if_neg hKept] at hx
          cases hx
      · rintro ⟨hx, hKept⟩
        rw [if_pos ((hSlots a n x (hSlot.trans hx)).mp hKept hSender)]
        exact hx
    · rw [if_neg hSender]
      exact ⟨fun hx => ⟨hx, (hSlots a n x hx).mpr fun hEq => absurd hEq hSender⟩, And.left⟩
  have hShape : ∀ a q, (setQueue { pool with pending := pool.pending.filter fun e => p e.1 }
      sender (queue.filter fun e => g e.1)).queueOf a = some q →
      (q.Pairwise fun x y => x.1 < y.1) ∧ q.length ≤ pool.config.maxPerAccount.toNat := by
    intro a q hq
    rw [queueOf_setQueue] at hq
    by_cases hSender : a = sender
    · rw [if_pos hSender] at hq
      split at hq
      · cases hq
      · rw [← Option.some.inj hq]
        exact ⟨(h.sorted sender queue hQueue).sublist List.filter_sublist,
          (List.length_filter_le _ _).trans (h.short sender queue hQueue)⟩
    · rw [if_neg hSender] at hq
      exact ⟨h.sorted a q hq, h.short a q hq⟩
  refine ⟨h.keyed.filter _, fun a q hq => (hShape a q hq).1, fun a q hq => (hShape a q hq).2,
    fun x tx hTx => ?_, fun a n x hx => ?_⟩
  · rw [pending_setQueue, hPending] at hTx
    by_cases hKept : p x = true
    · rw [if_pos hKept] at hTx
      exact (hAt _ _ _).mpr ⟨h.found x tx hTx, hKept⟩
    · rw [if_neg hKept] at hTx
      cases hTx
  · obtain ⟨hFiled, hKept⟩ := (hAt a n x).mp hx
    obtain ⟨tx, hTx, hSigner, hNonce⟩ := h.pends a n x hFiled
    refine ⟨tx, ?_, hSigner, hNonce⟩
    rw [pending_setQueue, hPending, if_pos hKept]
    exact hTx

theorem Indexed.remove (h : pool.Indexed) (txHash : Hash) : (pool.remove txHash).Indexed := by
  unfold Mempool.remove
  cases hTx : pool.pending.lookup txHash with
  | none => exact h
  | some tx =>
      have hFound := h.found txHash tx hTx
      cases hQueue : pool.queueOf tx.signer with
      | none =>
          rw [hashAt, hQueue] at hFound
          cases hFound
      | some queue =>
          dsimp only
          rw [hQueue]
          refine h.drop hQueue (fun n => decide (n ≠ tx.nonce)) (fun x => decide (x ≠ txHash))
            fun a n x hx => ?_
          rw [decide_eq_true_iff, decide_eq_true_iff]
          constructor
          · rintro hNe rfl rfl
            exact hNe (Option.some.inj (hx.symm.trans hFound))
          · rintro hOther rfl
            obtain ⟨hSigner, hNonce⟩ := h.slot_unique hx hFound
            exact hOther hSigner hNonce

theorem Indexed.removeBatch (h : pool.Indexed) (txHashes : List Hash) :
    (pool.removeBatch txHashes).Indexed := by
  induction txHashes generalizing pool with
  | nil => exact h
  | cons x rest ih => exact ih (h.remove x)

theorem Indexed.evictExpired (h : pool.Indexed) (now : UInt64) :
    (pool.evictExpired now).2.Indexed := by
  unfold Mempool.evictExpired
  split
  · exact h
  · exact h.removeBatch _

theorem Indexed.pruneBelowNonce (h : pool.Indexed) (sender : Address) (minNonce : UInt64) :
    (pool.pruneBelowNonce sender minNonce).Indexed := by
  unfold Mempool.pruneBelowNonce
  cases hQueue : pool.queueOf sender with
  | none => exact h
  | some queue =>
      have hKeyed := keyed_of_sorted (h.sorted sender queue hQueue)
      refine h.drop hQueue (fun n => decide (¬ n < minNonce)) (fun x => decide (x ∉
        (queue.filter fun e => decide (e.1 < minNonce)).map Prod.snd)) fun a n x hx => ?_
      rw [decide_eq_true_iff, decide_eq_true_iff]
      constructor
      · rintro hKept rfl hStale
        rw [hashAt, hQueue] at hx
        exact hKept (List.mem_map.mpr ⟨(n, x), List.mem_filter.mpr
          ⟨mem_of_lookup hx, decide_eq_true hStale⟩, rfl⟩)
      · intro hFresh hMem
        obtain ⟨e, he, rfl⟩ := List.mem_map.mp hMem
        obtain ⟨hQueued, hStale⟩ := List.mem_filter.mp he
        have hSlot : pool.hashAt sender e.1 = some e.2 := by
          rw [hashAt, hQueue]
          exact lookup_of_mem hKeyed hQueued
        obtain ⟨hSender, hNonce⟩ := h.slot_unique hx hSlot
        exact hFresh hSender (hNonce ▸ of_decide_eq_true hStale)

/-! ## Insertion -/

theorem Indexed.withRoom {roomy : Mempool} (h : pool.Indexed)
    (hRoom : pool.withRoom tx = some roomy) : roomy.Indexed := by
  rcases withRoom_cases hRoom with rfl | ⟨x, rfl⟩
  · exact h
  · exact h.remove x

/-- Removing adds nothing. -/
theorem lookup_remove {y : Hash} (h : (pool.remove y).pending.lookup x = some tx) :
    pool.pending.lookup x = some tx := by
  have hFilter := lookup_filter (fun z => decide (z ≠ y)) pool.pending x
  unfold Mempool.remove at h
  split at h
  · exact h
  · split at h
    all_goals
      have hLookup := hFilter.symm.trans h
      split at hLookup
      · exact hLookup
      · cases hLookup

theorem lookup_withRoom {ty : SignedTransaction} {roomy : Mempool}
    (hRoom : pool.withRoom tx = some roomy) (hx : roomy.pending.lookup x = some ty) :
    pool.pending.lookup x = some ty := by
  rcases withRoom_cases hRoom with rfl | ⟨y, rfl⟩
  · exact hx
  · exact lookup_remove hx

/-- A transaction in a free place, of a sender that has room. -/
theorem Indexed.added (h : pool.Indexed) (hNew : pool.pending.lookup tx.txHash = none)
    (hFree : pool.hashAt tx.signer tx.nonce = none)
    (hRoom : ((pool.queueOf tx.signer).getD []).length < pool.config.maxPerAccount.toNat) :
    (pool.added tx).Indexed := by
  unfold Mempool.added
  dsimp only
  have hSorted : ((pool.queueOf tx.signer).getD []).Pairwise fun x y => x.1 < y.1 := by
    cases hQueue : pool.queueOf tx.signer with
    | none => exact List.Pairwise.nil
    | some q => exact h.sorted _ _ hQueue
  have hSlots : ∀ n, ((pool.queueOf tx.signer).getD []).lookup n = pool.hashAt tx.signer n := by
    intro n
    unfold hashAt
    cases pool.queueOf tx.signer <;> rfl
  generalize (pool.queueOf tx.signer).getD [] = queue at hRoom hSorted hSlots ⊢
  have hPending : ∀ x, ((tx.txHash, tx) :: pool.pending.filter (·.1 ≠ tx.txHash)).lookup x =
      if x = tx.txHash then some tx else pool.pending.lookup x := by
    intro x
    have hFilter := lookup_filter (fun y => decide (y ≠ tx.txHash)) pool.pending x
    rw [List.lookup_cons]
    by_cases hEq : x = tx.txHash
    · simp [hEq]
    · rw [beq_eq_false_iff_ne.mpr hEq, if_neg hEq]
      refine hFilter.trans ?_
      rw [if_pos (decide_eq_true hEq)]
  have hAt : ∀ a n, (setQueue { pool with
      pending := (tx.txHash, tx) :: pool.pending.filter (·.1 ≠ tx.txHash) } tx.signer
      (insertNonce tx.nonce tx.txHash queue)).hashAt a n =
      if a = tx.signer ∧ n = tx.nonce then some tx.txHash else pool.hashAt a n := by
    intro a n
    rw [hashAt_setQueue, lookup_insertNonce, hSlots]
    by_cases hSigner : a = tx.signer
    · rw [if_pos hSigner, hSigner]
      by_cases hNonce : n = tx.nonce <;> simp [hNonce]
    · rw [if_neg hSigner, if_neg fun hBoth => hSigner hBoth.1]
      rfl
  have hShape : ∀ a q, (setQueue { pool with
      pending := (tx.txHash, tx) :: pool.pending.filter (·.1 ≠ tx.txHash) } tx.signer
      (insertNonce tx.nonce tx.txHash queue)).queueOf a = some q →
      (q.Pairwise fun x y => x.1 < y.1) ∧ q.length ≤ pool.config.maxPerAccount.toNat := by
    intro a q hq
    rw [queueOf_setQueue] at hq
    split at hq
    · split at hq
      · cases hq
      · rw [← Option.some.inj hq]
        exact ⟨sorted_insertNonce hSorted, (length_insertNonce_le _ _ _).trans hRoom⟩
    · exact ⟨h.sorted a q hq, h.short a q hq⟩
  refine ⟨?_, fun a q hq => (hShape a q hq).1, fun a q hq => (hShape a q hq).2,
    fun x ty hTy => ?_, fun a n x hx => ?_⟩
  · refine List.nodup_cons.mpr ⟨fun hMem => ?_, h.keyed.filter _⟩
    obtain ⟨e, he, hEq⟩ := List.mem_map.mp hMem
    exact of_decide_eq_true (List.mem_filter.mp he).2 hEq
  · rw [pending_setQueue, hPending] at hTy
    rw [hAt]
    by_cases hEq : x = tx.txHash
    · rw [if_pos hEq] at hTy
      rw [← Option.some.inj hTy, if_pos ⟨rfl, rfl⟩, hEq]
    · rw [if_neg hEq] at hTy
      have hFound := h.found x ty hTy
      rw [if_neg, hFound]
      rintro ⟨hSigner, hNonce⟩
      rw [hSigner, hNonce, hFree] at hFound
      cases hFound
  · rw [hAt] at hx
    rw [pending_setQueue]
    by_cases hSlot : a = tx.signer ∧ n = tx.nonce
    · rw [if_pos hSlot] at hx
      refine ⟨tx, ?_, hSlot.1.symm, hSlot.2.symm⟩
      rw [hPending, if_pos (Option.some.inj hx).symm]
    · rw [if_neg hSlot] at hx
      obtain ⟨ty, hTy, hSigner, hNonce⟩ := h.pends a n x hx
      refine ⟨ty, ?_, hSigner, hNonce⟩
      rw [hPending, if_neg, hTy]
      rintro rfl
      rw [hNew] at hTy
      cases hTy

/-- The checks of an insertion leave room for one more in the queue of the sender. -/
theorem length_queue_of_admissible {crypto : Primitives}
    (h : pool.checkAdmissible crypto tx = .ok ()) (hLimit : 0 < pool.config.maxPerAccount.toNat) :
    ((pool.queueOf tx.signer).getD []).length < pool.config.maxPerAccount.toNat := by
  unfold checkAdmissible at h
  simp only [Check.all, Check.and_eq_ok] at h
  have hPerAccount := h.1
  unfold checkPerAccount at hPerAccount
  cases hQueue : pool.queueOf tx.signer with
  | none => exact hLimit
  | some q =>
      rw [hQueue] at hPerAccount
      exact Nat.not_le.mp (Check.ensure_eq_ok.mp hPerAccount)

theorem Indexed.insert (h : pool.Indexed) (crypto : Primitives)
    (hLimit : 0 < pool.config.maxPerAccount.toNat)
    (hDistinct : (pool.insert crypto tx).1 = .ok () → ∀ x ty,
      pool.pending.lookup x = some ty → ty.signer = tx.signer → ty.nonce = tx.nonce →
        x = tx.txHash) :
    (pool.insert crypto tx).2.Indexed := by
  rcases insert_cases crypto pool tx with
    hSame | ⟨roomy, hRoom, hOnly | ⟨hNew, hAdmissible, hAdded⟩⟩
  · rwa [hSame]
  · rw [hOnly]
    exact h.withRoom hRoom
  · rw [hAdded]
    have hRoomy := h.withRoom hRoom
    have hConfig := config_withRoom hRoom
    have hAccepted : (pool.insert crypto tx).1 = .ok () := by
      simp only [Mempool.insert, hNew, hRoom, hAdmissible]
    unfold checkNew at hNew
    simp only [Check.all, Check.and_eq_ok, Check.ensure_eq_ok] at hNew
    have hAbsent : pool.pending.lookup tx.txHash = none := Option.isNone_iff_eq_none.mp hNew.1
    refine hRoomy.added ?_ ?_ (length_queue_of_admissible hAdmissible (by rwa [hConfig]))
    · by_contra hSome
      obtain ⟨ty, hTy⟩ := Option.ne_none_iff_exists'.mp hSome
      rw [lookup_withRoom hRoom hTy] at hAbsent
      cases hAbsent
    · -- Whatever is filed in the place is pending, so it is the transaction itself.
      by_contra hSome
      obtain ⟨x, hx⟩ := Option.ne_none_iff_exists'.mp hSome
      obtain ⟨ty, hTy, hSigner, hNonce⟩ := hRoomy.pends _ _ _ hx
      have hPending := lookup_withRoom hRoom hTy
      rw [hDistinct hAccepted x ty hPending hSigner hNonce, hAbsent] at hPending
      cases hPending

/-! ## Runs -/

/-- A call of the pool. Eviction of old transactions reads the clock. -/
inductive Op where
  | insert (tx : SignedTransaction)
  | remove (txHash : Hash)
  | removeBatch (txHashes : List Hash)
  | evictExpired (now : UInt64)
  | pruneBelowNonce (sender : Address) (minNonce : UInt64)
  | clear

/-- The pool after a call. -/
def apply (crypto : Primitives) (pool : Mempool) : Op → Mempool
  | .insert tx => (pool.insert crypto tx).2
  | .remove x => pool.remove x
  | .removeBatch xs => pool.removeBatch xs
  | .evictExpired now => (pool.evictExpired now).2
  | .pruneBelowNonce a n => pool.pruneBelowNonce a n
  | .clear => pool.clear

/-- A transaction that the pool accepts has a sender and nonce that no other pending one
has. -/
def Distinct (crypto : Primitives) (pool : Mempool) : Op → Prop
  | .insert tx => (pool.insert crypto tx).1 = .ok () → ∀ x ty,
      pool.pending.lookup x = some ty → ty.signer = tx.signer → ty.nonce = tx.nonce →
        x = tx.txHash
  | _ => True

theorem config_removeBatch (pool : Mempool) (txHashes : List Hash) :
    (pool.removeBatch txHashes).config = pool.config := by
  induction txHashes generalizing pool with
  | nil => rfl
  | cons x rest ih => exact (ih (pool.remove x)).trans (config_remove pool x)

theorem config_apply (crypto : Primitives) (pool : Mempool) (op : Op) :
    (pool.apply crypto op).config = pool.config := by
  cases op with
  | insert tx =>
      show (pool.insert crypto tx).2.config = _
      rcases insert_cases crypto pool tx with hSame | ⟨roomy, hRoom, hOnly | ⟨_, _, hAdded⟩⟩
      · rw [hSame]
      · rw [hOnly, config_withRoom hRoom]
      · rw [hAdded]
        show roomy.config = _
        exact config_withRoom hRoom
  | remove x => exact config_remove pool x
  | removeBatch xs => exact config_removeBatch pool xs
  | evictExpired now =>
      show (pool.evictExpired now).2.config = _
      unfold Mempool.evictExpired
      split
      · rfl
      · exact config_removeBatch pool _
  | pruneBelowNonce a n =>
      show (pool.pruneBelowNonce a n).config = _
      unfold Mempool.pruneBelowNonce
      split <;> rfl
  | clear => rfl

theorem Indexed.apply (h : pool.Indexed) (crypto : Primitives) {op : Op}
    (hLimit : 0 < pool.config.maxPerAccount.toNat) (hDistinct : Distinct crypto pool op) :
    (pool.apply crypto op).Indexed := by
  cases op with
  | insert tx => exact h.insert crypto hLimit hDistinct
  | remove x => exact h.remove x
  | removeBatch xs => exact h.removeBatch xs
  | evictExpired now => exact h.evictExpired now
  | pruneBelowNonce a n => exact h.pruneBelowNonce a n
  | clear => exact indexed_empty pool.config []

/-- Calls on an empty pool that insert no second transaction for a sender and nonce keep
the index consistent. -/
theorem consistent_of_distinct (crypto : Primitives) (config : MempoolConfig)
    (hLimit : 0 < config.maxPerAccount.toNat) (ops : List Op)
    (hDistinct : Along (apply crypto) (Distinct crypto) (new config) ops) :
    (after (apply crypto) (new config) ops).Consistent := by
  have hRun : (after (apply crypto) (new config) ops).Indexed ∧
      (after (apply crypto) (new config) ops).config = config := by
    refine Along.rule (I := fun pool => pool.Indexed ∧ pool.config = config) ?_ hDistinct
      ⟨indexed_empty config [], rfl⟩
    rintro pool op ⟨hIndexed, hConfig⟩ hOp
    exact ⟨hIndexed.apply crypto (by rwa [hConfig]) hOp,
      (config_apply crypto pool op).trans hConfig⟩
  exact hRun.1.consistent

/-- The default pool without signature checks. -/
def openConfig : MempoolConfig := { MempoolConfig.default with verifySignature := false }

/-- A transaction of one sender with the given nonce and hash. -/
def queuedTx (nonce : UInt64) (txHash : Hash) : SignedTransaction where
  transaction :=
    { chainId := "polay-devnet-1", nonce, signer := Address.ofByte 1
      action := .transfer (Address.ofByte 2) 1, maxFee := 5000, timestamp := 7
      session := none, sponsor := none }
  signature := Signature.zero
  txHash
  signerPubkey := []

/-- Two transactions with different nonces. -/
def twoNonces : List Op :=
  [.insert (queuedTx 0 (Hash.ofByte 1)), .insert (queuedTx 1 (Hash.ofByte 2))]

/-- Two transactions with the same nonce. -/
def oneNonce : List Op :=
  [.insert (queuedTx 0 (Hash.ofByte 1)), .insert (queuedTx 0 (Hash.ofByte 2))]

theorem consistent_twoNonces :
    (after (apply .sample) (new openConfig) twoNonces).countOf (Address.ofByte 1) = 2 ∧
      (after (apply .sample) (new openConfig) twoNonces).Consistent := by
  refine ⟨by decide +kernel, consistent_of_distinct .sample openConfig (by decide) twoNonces
    ⟨fun _ x ty hTy => ?_, fun _ x ty hTy _ hNonce => ?_, trivial⟩⟩
  · cases hTy
  · -- The only other pending transaction has the nonce 0.
    have hPool : (apply .sample (new openConfig) (.insert (queuedTx 0 (Hash.ofByte 1)))).pending =
        [(Hash.ofByte 1, queuedTx 0 (Hash.ofByte 1))] := by decide +kernel
    rw [hPool] at hTy
    have hMem := List.mem_singleton.mp (mem_of_lookup hTy)
    simp only [Prod.mk.injEq] at hMem
    rw [hMem.2] at hNonce
    exact absurd hNonce (by decide)

/-- The second transaction takes the place of the first in the index; the first stays
pending. -/
theorem oneNonce_not_consistent :
    (after (apply .sample) (new openConfig) oneNonce).pending.lookup (Hash.ofByte 1) =
        some (queuedTx 0 (Hash.ofByte 1)) ∧
      (after (apply .sample) (new openConfig) oneNonce).hashAt (Address.ofByte 1) 0 =
        some (Hash.ofByte 2) ∧
      ¬ (after (apply .sample) (new openConfig) oneNonce).Consistent := by
  have hPending : (after (apply .sample) (new openConfig) oneNonce).pending.lookup
      (Hash.ofByte 1) = some (queuedTx 0 (Hash.ofByte 1)) := by decide +kernel
  have hFiled : (after (apply .sample) (new openConfig) oneNonce).hashAt (Address.ofByte 1) 0 =
      some (Hash.ofByte 2) := by decide +kernel
  refine ⟨hPending, hFiled, fun h => ?_⟩
  have hSame := (h.found _ _ hPending).symm.trans hFiled
  revert hSame
  decide

end Mempool

end Polay
