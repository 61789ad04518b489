import Polay.Lib.Trace
import Polay.Execution.Records

/-!
# Runs of transactions

A call is a transaction with the height and the proposer it is executed with. A
list of calls is a run of the executor, one transaction after the other, outside
of any block: every sequence of executed transactions is one, whatever the
blocks are they stand in.
-/

namespace Polay.Execution

open Lib Lib.Machine Polay.Types State

/-! ## Stores with the same records -/

/-- The stores have the same records of the families `F`. -/
def SameOn (F : List Family) (s t : StateStore) : Prop :=
  ∀ k, familyOf k ∈ F → t.get? k = s.get? k

section SameOn

variable {F : List Family} {s t u : StateStore}

theorem SameOn.refl (F : List Family) (s : StateStore) : SameOn F s s := fun _ _ => rfl

theorem SameOn.trans (h : SameOn F s t) (h' : SameOn F t u) : SameOn F s u :=
  fun k hk => (h' k hk).trans (h k hk)

theorem SameOn.mono {G : List Family} (h : SameOn F s t) (hG : G ⊆ F) : SameOn G s t :=
  fun k hk => h k (hG hk)

theorem SameOn.insert (h : SameOn F s t) (k : Key) (v : k.Value) :
    SameOn F (s.insert k v) (t.insert k v) := by
  intro a ha
  by_cases hEq : k = a
  · subst hEq
    rw [Std.ExtDTreeMap.get?_insert_self, Std.ExtDTreeMap.get?_insert_self]
  · rw [Store.get?_insert_ne hEq, Store.get?_insert_ne hEq, h a ha]

/-- Writing a record of another family. -/
theorem sameOn_insert {k : Key} (hk : familyOf k ∉ F) (s : StateStore) (v : k.Value) :
    SameOn F s (s.insert k v) := by
  intro a ha
  refine Store.get?_insert_ne fun hEq => hk ?_
  rwa [hEq]

theorem sameOn_of_keeps {G : List Family} (h : Store.Holds (Keeps G s) t)
    (hApart : ∀ f ∈ F, f ∉ G) : SameOn F s t :=
  fun k hk => h k (hApart _ hk)

theorem sameOn_creditPos (hF : .account ∉ F) (s : StateStore) (a : Address)
    (n amount : UInt64) : SameOn F s (creditPos s a n amount) := by
  unfold creditPos
  split
  · exact sameOn_insert hF s _
  · exact .refl F s

theorem balanceOf_of_sameOn (h : SameOn F s t) (hF : .account ∈ F) (a : Address) :
    balanceOf t a = balanceOf s a := by
  rw [balanceOf, accountOf, h (.account a) hF, ← accountOf, balanceOf]

end SameOn

/-! ## Calls -/

/-- A transaction, with the height and the proposer it is executed with. -/
structure Call where
  tx : SignedTransaction
  height : UInt64
  proposer : Address

namespace Call

variable {sha256 : List UInt8 → Hash} {ex : Executor} {s : StateStore} {c : Call}
variable {F : List Family}

/-- The store after a call. -/
def next (sha256 : List UInt8 → Hash) (ex : Executor) (s : StateStore) (c : Call) : StateStore :=
  ((ex.executeTransaction sha256 c.tx c.height c.proposer).run s).2

/-- Whether the call succeeds. -/
def succeeds (sha256 : List UInt8 → Hash) (ex : Executor) (s : StateStore) (c : Call) : Bool :=
  match ((ex.executeTransaction sha256 c.tx c.height c.proposer).run s).1 with
  | .ok result => result.receipt.success
  | _ => false

theorem succeeds_of_stages {s₁ : StateStore}
    (h : Executor.Stages sha256 ex c.tx c.height c.proposer s s₁
      ((ex.executeTransaction sha256 c.tx c.height c.proposer).run s))
    (hOk : ∃ r, ((ex.action sha256 c.tx c.height).run s₁).1 = .ok r) :
    c.succeeds sha256 ex s = true := by
  obtain ⟨r, hr⟩ := hOk
  obtain ⟨x, hx, hSuccess⟩ := h.succeeded r hr
  rw [succeeds, hx]
  exact hSuccess

/-- A call succeeds if its action does. -/
theorem succeeds_eq {s₁ : StateStore}
    (h : Executor.Stages sha256 ex c.tx c.height c.proposer s s₁
      ((ex.executeTransaction sha256 c.tx c.height c.proposer).run s)) :
    c.succeeds sha256 ex s = ((ex.action sha256 c.tx c.height).run s₁).1.toOption.isSome := by
  rw [Bool.eq_iff_iff]
  constructor
  · intro hSucceeds
    unfold succeeds at hSucceeds
    split at hSucceeds
    next x hx =>
      obtain ⟨r, hr⟩ := h.ok_of_success x hx hSucceeds
      rw [hr]
      rfl
    next => cases hSucceeds
  · intro hOk
    refine succeeds_of_stages h ?_
    cases hRun : ((ex.action sha256 c.tx c.height).run s₁).1 with
    | ok r => exact ⟨r, rfl⟩
    | err | panic =>
        rw [hRun] at hOk
        cases hOk

/-- The rule of calls: what an action does to records of the families `F`, a call does, since
the fee and the session are recorded elsewhere. -/
theorem effect (hFee : ∀ f ∈ F, f ∉ feeFamilies) (hSession : .session ∉ F)
    {R : Bool → StateStore → StateStore → Prop} (hRefl : R false s s)
    (hCongr : ∀ {b s₁ t₁ t}, SameOn F s s₁ → R b s₁ t₁ → SameOn F t₁ t → R b s t)
    (hAction : ∀ s₁, SameOn F s s₁ →
      (ex.action sha256 c.tx c.height).Wp (fun o t => R o.toOption.isSome s₁ t) s₁) :
    R (c.succeeds sha256 ex s) s (c.next sha256 ex s) := by
  rcases (ex.executeTransaction_run sha256 c.tx c.height c.proposer s).stages with
    ⟨⟨e, hErr⟩, hSame⟩ | ⟨s₁, hStages⟩
  · have hFails : c.succeeds sha256 ex s = false := by
      rw [succeeds, hErr]
    rw [hFails, next, hSame]
    exact hRefl
  · have hPaid : SameOn F s s₁ := sameOn_of_keeps hStages.collected.keeps hFee
    have hSpent : SameOn F ((ex.action sha256 c.tx c.height).run s₁).2
        (c.next sha256 ex s) := by
      refine sameOn_of_keeps hStages.spent fun f hf hMem => ?_
      rw [List.mem_singleton.mp hMem] at hf
      exact hSession hf
    rw [succeeds_eq hStages]
    exact hCongr hPaid (hAction s₁ hPaid) hSpent

/-- The store in which the action of a call runs: the fee is paid. -/
def charged (ex : Executor) (s : StateStore) (c : Call) : StateStore :=
  ((ex.collectFee c.tx c.proposer).run s).2

theorem stages_of_succeeds (h : c.succeeds sha256 ex s = true) :
    Executor.Stages sha256 ex c.tx c.height c.proposer s (c.charged ex s)
      ((ex.executeTransaction sha256 c.tx c.height c.proposer).run s) := by
  rcases (ex.executeTransaction_run sha256 c.tx c.height c.proposer s).stages with
    ⟨⟨e, hErr⟩, -⟩ | ⟨s₁, hStages⟩
  · rw [succeeds, hErr] at h
    cases h
  · obtain ⟨fees, hFees⟩ := hStages.ran
    obtain rfl : c.charged ex s = s₁ := by rw [charged, hFees]
    exact hStages

theorem sameOn_charged (h : c.succeeds sha256 ex s = true) (hFee : ∀ f ∈ F, f ∉ feeFamilies) :
    SameOn F s (c.charged ex s) :=
  sameOn_of_keeps (stages_of_succeeds h).collected.keeps hFee

/-- A call that succeeds does what its action does after the fee. -/
theorem ends {R : Bool → StateStore → Prop} (h : c.succeeds sha256 ex s = true)
    (hAction : (ex.action sha256 c.tx c.height).Wp (fun o t => R o.toOption.isSome t)
      (c.charged ex s)) :
    ∃ t, R true t ∧ ∀ F, .session ∉ F → SameOn F t (c.next sha256 ex s) := by
  have hStages := stages_of_succeeds h
  have hEnd : R _ _ := hAction
  rw [← succeeds_eq hStages, h] at hEnd
  refine ⟨_, hEnd, fun F hF => sameOn_of_keeps hStages.spent fun f hf hMem => ?_⟩
  rw [List.mem_singleton.mp hMem] at hf
  exact hF hf

/-- Records that neither the action nor the fee concerns stay as they are. -/
theorem sameOn (hFee : ∀ f ∈ F, f ∉ feeFamilies) (hSession : .session ∉ F)
    (hAction : ∀ f ∈ F, f ∉ writtenBy c.tx.transaction.action) :
    SameOn F s (c.next sha256 ex s) :=
  effect hFee hSession (R := fun _ s t => SameOn F s t) (.refl F s)
    (fun hs h ht => hs.trans (h.trans ht)) fun _ _ =>
      sameOn_of_keeps (run_keeps (dispatchAction_keeps sha256 ex _ _ _ _)) hAction

end Call

/-! ## A sample -/

/-- A store with one funded account. -/
def traderStore : StateStore :=
  withAccount ∅ { AccountState.new (Address.ofByte 1) 0 with balance := 1000000 }

theorem get?_traderStore {k : Key} (h : ∀ a, k ≠ .account a) : traderStore.get? k = none := by
  rw [traderStore, get?_withAccount h]
  simp

/-- A call of the trader. -/
def traderCall (nonce : UInt64) (action : TransactionAction) : Call where
  tx :=
    { transaction :=
        { chainId := "polay-devnet-1", nonce, signer := Address.ofByte 1, action
          maxFee := 1000000, timestamp := 7, session := none, sponsor := none }
      signature := Signature.zero
      txHash := Hash.zero
      signerPubkey := [] }
  height := 1
  proposer := Address.zero

/-- A store with two funded accounts. -/
def tradersStore : StateStore :=
  withAccount traderStore { AccountState.new (Address.ofByte 2) 0 with balance := 1000000 }

/-- A call of the other account. -/
def otherCall (nonce height : UInt64) (action : TransactionAction) : Call :=
  let call := traderCall nonce action
  { call with
    tx := { call.tx with
      transaction := { call.tx.transaction with signer := Address.ofByte 2 } }
    height }

/-- The calls of the development network, with a hash function that is constant. -/
def sampleCall : StateStore → Call → StateStore :=
  Call.next (fun _ => Hash.zero) Executor.devnet

end Polay.Execution
