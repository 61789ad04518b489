import Polay.Mempool.Index

/-!
# Eviction from a full pool

A full pool evicts its first pending transaction with the lowest fee when one with a
higher fee comes. It does so before the limits, the fee and the signature of the new
one are checked.
-/

namespace Polay

open Lib Lib.Machine Lib.Assoc Polay.Types Crypto

namespace Mempool

variable {pool roomy : Mempool} {tx : SignedTransaction}

/-! ## The lowest fee -/

variable {e : Hash × SignedTransaction} {crypto : Primitives}
variable {l : List (Hash × SignedTransaction)}

/-- The first entry with the lowest fee. -/
def Cheapest (l : List (Hash × SignedTransaction)) (e : Hash × SignedTransaction) : Prop :=
  ∃ l₁ l₂, l = l₁ ++ e :: l₂ ∧
    (∀ x ∈ l₁, e.2.transaction.maxFee < x.2.transaction.maxFee) ∧
    ∀ x ∈ l₂, e.2.transaction.maxFee ≤ x.2.transaction.maxFee

theorem Cheapest.mem (h : Cheapest l e) : e ∈ l := by
  obtain ⟨l₁, l₂, rfl, _⟩ := h
  exact List.mem_append_right _ List.mem_cons_self

theorem Cheapest.le {x : Hash × SignedTransaction} (h : Cheapest l e) (hx : x ∈ l) :
    e.2.transaction.maxFee ≤ x.2.transaction.maxFee := by
  obtain ⟨l₁, l₂, rfl, hFront, hBack⟩ := h
  rcases List.mem_append.mp hx with hIn | hIn
  · exact UInt64.le_of_lt (hFront x hIn)
  · rcases List.mem_cons.mp hIn with rfl | hIn
    · exact UInt64.le_refl _
    · exact hBack x hIn

theorem Cheapest.cons {x : Hash × SignedTransaction} (h : Cheapest l e)
    (hx : e.2.transaction.maxFee < x.2.transaction.maxFee) : Cheapest (x :: l) e := by
  obtain ⟨l₁, l₂, rfl, hFront, hBack⟩ := h
  exact ⟨x :: l₁, l₂, rfl, List.forall_mem_cons.mpr ⟨hx, hFront⟩, hBack⟩

theorem Cheapest.unique {e' : Hash × SignedTransaction} (h : Cheapest l e) (h' : Cheapest l e') :
    e = e' := by
  obtain ⟨l₁, l₂, rfl, hFront, hBack⟩ := h
  obtain ⟨l₃, l₄, hSplit, hFront', hBack'⟩ := h'
  rcases List.append_eq_append_iff.mp hSplit with ⟨m, rfl, hm⟩ | ⟨m, rfl, hm⟩
  · cases m with
    | nil => exact (List.cons.inj hm).1
    | cons x rest =>
        -- `e` stands in front of `e'`, so it pays more; but it is the lowest.
        obtain ⟨hHead, hTail⟩ := List.cons.inj hm
        have hMore := hFront' x (List.mem_append_right _ List.mem_cons_self)
        have hLess := hBack e' (hTail ▸ List.mem_append_right _ List.mem_cons_self)
        rw [← hHead] at hMore
        exact absurd hMore (UInt64.not_lt.mpr hLess)
  · cases m with
    | nil => exact (List.cons.inj hm).1.symm
    | cons x rest =>
        obtain ⟨hHead, hTail⟩ := List.cons.inj hm
        have hMore := hFront x (List.mem_append_right _ List.mem_cons_self)
        have hLess := hBack' e (hTail ▸ List.mem_append_right _ List.mem_cons_self)
        rw [← hHead] at hMore
        exact absurd hMore (UInt64.not_lt.mpr hLess)

/-- The scan finds the first entry with the lowest fee, if that is below the bound. -/
theorem lowestFee_spec (l : List (Hash × SignedTransaction)) (best : UInt64 × Option Hash) :
    (lowestFee best l = best ∧ ∀ x ∈ l, best.1 ≤ x.2.transaction.maxFee) ∨
      ∃ e, Cheapest l e ∧ e.2.transaction.maxFee < best.1 ∧
        lowestFee best l = (e.2.transaction.maxFee, some e.1) := by
  induction l generalizing best with
  | nil => exact .inl ⟨rfl, fun x hx => by cases hx⟩
  | cons x rest ih =>
      by_cases hLower : x.2.transaction.maxFee < best.1
      · have hScan : lowestFee best (x :: rest) =
            lowestFee (x.2.transaction.maxFee, some x.1) rest := by
          rw [lowestFee]
          exact congrArg (lowestFee · rest) (if_pos hLower)
        rw [hScan]
        rcases ih (x.2.transaction.maxFee, some x.1) with ⟨hSame, hAll⟩ | ⟨e, he, hLt, hFound⟩
        · exact .inr ⟨x, ⟨[], rest, rfl, List.forall_mem_nil _, hAll⟩, hLower, hSame⟩
        · exact .inr ⟨e, he.cons hLt, UInt64.lt_trans hLt hLower, hFound⟩
      · have hScan : lowestFee best (x :: rest) = lowestFee best rest := by
          rw [lowestFee]
          exact congrArg (lowestFee · rest) (if_neg hLower)
        rw [hScan]
        have hx : best.1 ≤ x.2.transaction.maxFee := UInt64.not_lt.mp hLower
        rcases ih best with ⟨hSame, hAll⟩ | ⟨e, he, hLt, hFound⟩
        · exact .inl ⟨hSame, List.forall_mem_cons.mpr ⟨hx, hAll⟩⟩
        · exact .inr ⟨e, he.cons (UInt64.lt_of_lt_of_le hLt hx), hLt, hFound⟩

/-- Room is made by removing the cheapest entry, if it pays less than the new one. -/
theorem tryEvictLowestFee_cases (pool : Mempool) (tx : SignedTransaction) :
    (pool.tryEvictLowestFee tx = none ∧
      ∀ x ∈ pool.pending, tx.transaction.maxFee ≤ x.2.transaction.maxFee) ∨
    ∃ e, Cheapest pool.pending e ∧ e.2.transaction.maxFee < tx.transaction.maxFee ∧
      pool.tryEvictLowestFee tx = some (pool.remove e.1) := by
  unfold tryEvictLowestFee
  rcases lowestFee_spec pool.pending (u64Max, none) with ⟨hNone, hAll⟩ | ⟨e, he, _, hFound⟩
  · rw [hNone]
    have hMax : tx.transaction.maxFee ≤ u64Max := by
      rw [UInt64.le_iff_toNat_le]
      exact Nat.le_of_lt_succ (UInt64.toNat_lt _)
    exact .inl ⟨rfl, fun x hx => UInt64.le_trans hMax (hAll x hx)⟩
  · rw [hFound]
    by_cases hLt : e.2.transaction.maxFee < tx.transaction.maxFee
    · exact .inr ⟨e, he, hLt, if_pos hLt⟩
    · exact .inl ⟨if_neg hLt, fun x hx => UInt64.le_trans (UInt64.not_lt.mp hLt) (he.le hx)⟩

theorem pending_remove (pool : Mempool) (x : Hash) :
    (pool.remove x).pending = pool.pending.filter (·.1 ≠ x) := by
  unfold remove
  cases hx : pool.pending.lookup x with
  | none =>
      refine (List.filter_eq_self.mpr fun e he => ?_).symm
      have hNe := List.lookup_eq_none_iff.mp hx e he
      exact decide_eq_true (Ne.symm (bne_iff_ne.mp hNe))
  | some ty =>
      dsimp only
      cases pool.queueOf ty.signer <;> rfl

theorem remove_ne (he : e ∈ pool.pending) : pool.remove e.1 ≠ pool := by
  intro hEq
  have hKept : e ∈ pool.pending.filter (·.1 ≠ e.1) := by
    rw [← pending_remove, hEq]
    exact he
  exact of_decide_eq_true (List.mem_filter.mp hKept).2 rfl

/-! ## The checks -/

/-- The pool does not know the transaction, which is for its chain. -/
structure Unknown (pool : Mempool) (tx : SignedTransaction) : Prop where
  absent : pool.pending.lookup tx.txHash = none
  unseen : tx.txHash ∉ pool.recentlySeen
  chain : pool.config.chainId = "" ∨ tx.transaction.chainId = pool.config.chainId

/-- The transaction is within the limits of its sender, pays enough and has a signature that
verifies, if that is checked. -/
structure Acceptable (crypto : Primitives) (pool : Mempool) (tx : SignedTransaction) : Prop where
  perAccount : ∀ queue, pool.queueOf tx.signer = some queue →
    queue.length < pool.config.maxPerAccount.toNat
  fee : pool.config.minFee ≤ tx.transaction.maxFee
  gap : ∀ lowest hash rest, pool.queueOf tx.signer = some ((lowest, hash) :: rest) →
    tx.nonce.toNat ≤ lowest.toNat + pool.config.maxNonceGap.toNat
  signed : pool.config.verifySignature = true → checkSignature crypto tx = .ok ()

theorem checkNew_eq_ok : pool.checkNew tx = .ok () ↔ Unknown pool tx := by
  unfold checkNew
  simp only [Check.all, Check.and_eq_ok, Check.ensure_eq_ok, and_true]
  constructor
  · rintro ⟨hAbsent, hUnseen, hChain⟩
    exact ⟨Option.isNone_iff_eq_none.mp hAbsent, hUnseen, hChain⟩
  · intro h
    exact ⟨Option.isNone_iff_eq_none.mpr h.absent, h.unseen, h.chain⟩

theorem checkPerAccount_eq_ok {sender : Address} : pool.checkPerAccount sender = .ok () ↔
    ∀ queue, pool.queueOf sender = some queue →
      queue.length < pool.config.maxPerAccount.toNat := by
  unfold checkPerAccount
  cases pool.queueOf sender <;> simp

theorem checkNonceGap_eq_ok {sender : Address} {nonce : UInt64} :
    pool.checkNonceGap sender nonce = .ok () ↔
      ∀ lowest hash rest, pool.queueOf sender = some ((lowest, hash) :: rest) →
        nonce.toNat ≤ lowest.toNat + pool.config.maxNonceGap.toNat := by
  unfold checkNonceGap
  cases hQueue : pool.queueOf sender with
  | none => simp
  | some queue =>
      cases queue with
      | nil => simp
      | cons e rest =>
          dsimp only
          rw [Check.ensure_eq_ok, UInt64.lt_iff_toNat_lt, toNat_saturatingSub]
          constructor
          · intro hGap lowest hash rest' hEq
            have hHead : e.1 = lowest :=
              congrArg Prod.fst (List.cons.inj (Option.some.inj hEq)).1
            rw [hHead] at hGap
            omega
          · intro h hGap
            have hNonce := h e.1 e.2 rest rfl
            omega

theorem checkAdmissible_eq_ok :
    pool.checkAdmissible crypto tx = .ok () ↔ Acceptable crypto pool tx := by
  unfold checkAdmissible
  simp only [Check.all, Check.and_eq_ok, Check.ensure_eq_ok, and_true, checkPerAccount_eq_ok,
    checkNonceGap_eq_ok, UInt64.not_lt]
  have hSigned : (if pool.config.verifySignature = true then checkSignature crypto tx
      else .ok ()) = .ok () ↔
      (pool.config.verifySignature = true → checkSignature crypto tx = .ok ()) := by
    by_cases hVerify : pool.config.verifySignature = true <;> simp [hVerify]
  rw [hSigned]
  constructor
  · rintro ⟨hPerAccount, hFee, hGap, hSignature⟩
    exact ⟨hPerAccount, hFee, hGap, hSignature⟩
  · intro h
    exact ⟨h.perAccount, h.fee, h.gap, h.signed⟩

/-- What an insertion returns and leaves, by what is known before it. -/
theorem insert_of_roomy (crypto : Primitives) (hUnknown : Unknown pool tx)
    (hRoom : pool.withRoom tx = some roomy) :
    (Acceptable crypto roomy tx ∧ pool.insert crypto tx = (.ok (), roomy.added tx)) ∨
    (¬ Acceptable crypto roomy tx ∧ (pool.insert crypto tx).1 ≠ .ok () ∧
      (pool.insert crypto tx).2 = roomy) := by
  unfold insert
  rw [checkNew_eq_ok.mpr hUnknown]
  dsimp only
  rw [hRoom]
  dsimp only
  rw [← checkAdmissible_eq_ok]
  split
  next hOk => exact .inl ⟨hOk, rfl⟩
  next hRefused => exact .inr ⟨hRefused, hRefused, rfl⟩

theorem insert_of_known (hKnown : ¬ Unknown pool tx) :
    (pool.insert crypto tx).1 ≠ .ok () ∧ (pool.insert crypto tx).2 = pool := by
  rw [← checkNew_eq_ok] at hKnown
  unfold insert
  split
  next hOk => exact absurd hOk hKnown
  next => exact ⟨hKnown, rfl⟩

theorem insert_of_withRoom_eq_none (hRoom : pool.withRoom tx = none) :
    (pool.insert crypto tx).1 ≠ .ok () ∧ (pool.insert crypto tx).2 = pool := by
  by_cases hUnknown : Unknown pool tx
  · unfold insert
    rw [checkNew_eq_ok.mpr hUnknown]
    dsimp only
    rw [hRoom]
    exact ⟨by simp, rfl⟩
  · exact insert_of_known hUnknown

/-! ## Refusal -/

/-- A refused transaction leaves the pool as it was exactly if the pool knows it, has room,
has no cheaper pending one, or would accept it in the place of the cheapest. -/
theorem insert_refused_iff (crypto : Primitives) (pool : Mempool) (tx : SignedTransaction) :
    ((pool.insert crypto tx).1 ≠ .ok () → (pool.insert crypto tx).2 = pool) ↔
      (Unknown pool tx → pool.config.maxSize.toNat ≤ pool.pending.length →
        ∀ e, Cheapest pool.pending e → e.2.transaction.maxFee < tx.transaction.maxFee →
          Acceptable crypto (pool.remove e.1) tx) := by
  by_cases hUnknown : Unknown pool tx
  swap
  · exact ⟨fun _ h => absurd h hUnknown, fun _ _ => (insert_of_known hUnknown).2⟩
  by_cases hFull : pool.config.maxSize.toNat ≤ pool.pending.length
  swap
  · have hRoom : pool.withRoom tx = some pool := if_pos (Nat.not_le.mp hFull)
    refine ⟨fun _ _ h => absurd h hFull, fun _ hRefused => ?_⟩
    rcases insert_of_roomy crypto hUnknown hRoom with ⟨_, hOk⟩ | ⟨_, _, hSame⟩
    · rw [hOk] at hRefused
      exact absurd rfl hRefused
    · exact hSame
  have hMake : pool.withRoom tx = pool.tryEvictLowestFee tx := if_neg (Nat.not_lt.mpr hFull)
  rcases tryEvictLowestFee_cases pool tx with ⟨hNone, hAll⟩ | ⟨e, he, hLt, hEvict⟩
  · refine ⟨fun _ _ _ e he hLt => ?_, fun _ _ =>
      (insert_of_withRoom_eq_none (hMake.trans hNone)).2⟩
    exact absurd hLt (UInt64.not_lt.mpr (hAll e he.mem))
  · rcases insert_of_roomy crypto hUnknown (hMake.trans hEvict) with
      ⟨hAcceptable, hOk⟩ | ⟨hNot, hErr, hLeft⟩
    · refine ⟨fun _ _ _ e' he' _ => ?_, fun _ hRefused => ?_⟩
      · rw [he'.unique he]
        exact hAcceptable
      · rw [hOk] at hRefused
        exact absurd rfl hRefused
    · refine ⟨fun hSame => ?_, fun hAccepts => ?_⟩
      · exact absurd (hLeft.symm.trans (hSame hErr)) (remove_ne he.mem)
      · exact absurd (hAccepts hUnknown hFull e he hLt) hNot

/-- A pool with room for one transaction. -/
def smallConfig : MempoolConfig := { MempoolConfig.default with maxSize := 1 }

/-- A transaction with the signature and the hash that the pool asks for. -/
def walletTx : SignedTransaction :=
  let tx := sampleSigned (Bytes.FixedBytes.fill 32 1) (queuedTx 0 Hash.zero).transaction
  { tx with txHash := hashTransaction checksum (Borsh.encode tx.transaction) }

/-- The pool has accepted one transaction, and an unsigned one with a higher fee comes. -/
def fullPool : Mempool := ((new smallConfig).insert .sample walletTx).2

/-- A transaction without a signature. -/
def unsignedTx : SignedTransaction :=
  let tx := queuedTx 0 (Hash.ofByte 2)
  { tx with transaction := { tx.transaction with maxFee := 9000 } }

/-- The unsigned transaction is refused, and the pending one is gone. -/
theorem unsigned_evicts :
    (fullPool.insert .sample unsignedTx).1 =
        .err (.invalidSignature "signer_pubkey must be 32 bytes, got 0") ∧
      fullPool.pending.length = 1 ∧
      (fullPool.insert .sample unsignedTx).2.pending = [] := by
  decide +kernel

end Mempool

end Polay
