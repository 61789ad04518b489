import Polay.Execution.StatefulValidation
import Polay.Validator.History

/-!
# Session grants along a chain

A grant is created and revoked by the account that gives it, and each transaction of that
account that succeeds under the session key counts its fee against the grant. Nothing else on
a chain touches the record.

* `grantOf_eq_replay`: a grant is what the successful turns of its granter, replayed from
  genesis in order, make of it.
* `grantOf_eq_replay_overspent`: a transaction that spends more than its grant allows succeeds.
-/

namespace Polay.Validator

open Lib Lib.Machine Polay.Types State Execution Execution.Sessions
open Execution.Validation (grantOf)

/-- The grant of the session key `a` after an action of its granter. -/
def actedGrant (sha256 : List UInt8 → Hash) (granter a : Address) (height : UInt64)
    (grant : Option SessionGrant) : TransactionAction → Option SessionGrant
  | .createSession sessionPubkey permissions expiresAt spendingLimit =>
      if sessionAddressOf sha256 sessionPubkey = a then
        some { granter, sessionPubkey, sessionAddress := sessionAddressOf sha256 sessionPubkey
               permissions, expiresAt, spendingLimit, amountSpent := 0, revoked := false
               createdAt := height }
      else grant
  | .revokeSession b => if b = a then grant.map ({ · with revoked := true }) else grant
  | _ => grant

/-- The grant after a fee was counted against a session key. -/
def spentGrant (a : Address) (session : Option Address) (fee : UInt64)
    (grant : Option SessionGrant) : Option SessionGrant :=
  if session = some a then grant.map fun x => { x with amountSpent := x.amountSpent + fee }
  else grant

/-- The grant after a turn. Only the successful turns of the granter matter. -/
def turnGrant (sha256 : List UInt8 → Hash) (ex : Executor) (granter a : Address)
    (grant : Option SessionGrant) (turn : Turn) : Option SessionGrant :=
  let tx := turn.step.tx
  if turn.step.receipt.success = true ∧ tx.signer = granter then
    spentGrant a tx.transaction.session (ex.actualFee tx.transaction)
      (actedGrant sha256 granter a turn.height grant tx.transaction.action)
  else grant

variable {sha256 : List UInt8 → Hash} {ex : Executor} {s t : StateStore} {g a : Address}

theorem grantOf_of_keeps {F : List Family} (hKeeps : Store.Holds (Keeps F s) t)
    (hF : Family.session ∉ F) : grantOf t g a = grantOf s g a := by
  unfold grantOf
  rw [hKeeps (.session g a) hF]

theorem owner_of_grantOf {x : SessionGrant} (h : grantOf s g a = some x) :
    x.granter = g ∧ x.sessionAddress = a := by
  obtain ⟨r, _, rfl⟩ := Option.map_eq_some_iff.mp h
  exact r.property

/-- The store with a grant written. -/
def withGrant (s : StateStore) (x : SessionGrant) : StateStore :=
  ((setSession x : Handler Unit).run s).2

theorem grantOf_withGrant (x : SessionGrant) : grantOf (withGrant s x) g a =
    if x.granter = g ∧ x.sessionAddress = a then some x else grantOf s g a :=
  Store.read_insert s (.session g a) (Option.map (·.val)) (by simp) (by rintro ⟨⟩; rfl)

/-- A change to a grant that is there. -/
theorem grantOf_changed {signer b : Address} {x : SessionGrant} (f : SessionGrant → SessionGrant)
    (hx : grantOf s signer b = some x) (hGranter : (f x).granter = x.granter)
    (hAddress : (f x).sessionAddress = x.sessionAddress) :
    grantOf (withGrant s (f x)) g a =
      if signer = g ∧ b = a then (grantOf s g a).map f else grantOf s g a := by
  obtain ⟨rfl, rfl⟩ := owner_of_grantOf hx
  rw [grantOf_withGrant, hGranter, hAddress]
  split
  case isTrue h =>
    obtain ⟨rfl, rfl⟩ := h
    rw [hx, Option.map_some]
  case isFalse h => rfl

variable {β : Type} {Q : Outcome ExecutionError β → StateStore → Prop}

theorem wp_getSession_bind {f : Option SessionGrant → Handler β} :
    ((getSession g a).bind f).Wp Q s ↔ (f (grantOf s g a)).Wp Q s := Iff.rfl

theorem wp_setSession_bind {x : SessionGrant} {f : Unit → Handler β} :
    ((setSession x).bind f).Wp Q s ↔ (f ()).Wp Q (withGrant s x) := Iff.rfl

/-- What the action of a transaction does to a grant. One that fails does nothing. -/
def GrantEnd (sha256 : List UInt8 → Hash) (g a : Address) (tx : SignedTransaction)
    (height : UInt64) (s : StateStore) (done : Bool) (t : StateStore) : Prop :=
  grantOf t g a =
    if done = true ∧ tx.signer = g then
      actedGrant sha256 g a height (grantOf s g a) tx.transaction.action
    else grantOf s g a

theorem action_wp (tx : SignedTransaction) (height : UInt64) :
    (ex.action sha256 tx height).Wp
      (fun o t => GrantEnd sha256 g a tx height s o.toOption.isSome t) s := by
  have hFailed : GrantEnd sha256 g a tx height s false s := by simp [GrantEnd]
  have hKeeps := dispatchAction_keeps sha256 ex tx.transaction.action tx.signer
    tx.transaction.timestamp height (s := s)
  unfold Executor.action
  cases hEq : tx.transaction.action
  case createSession pubkey permissions expires limit =>
    refine Prog.wp_isSome_bind_pure.mpr ?_
    simp only [executeCreateSession, Prog.bind_eq, Prog.wp_ensure_bind, wp_getSession_bind,
      wp_setSession_bind]
    refine ⟨fun _ => hFailed, fun _ => ⟨fun _ => hFailed, fun _ => ⟨fun _ => hFailed, fun _ =>
      (grantOf_withGrant _).trans ?_⟩⟩⟩
    by_cases hSigner : tx.signer = g <;> simp [hSigner, hEq, actedGrant, Outcome.toOption]
  case revokeSession b =>
    refine Prog.wp_isSome_bind_pure.mpr ?_
    simp only [executeRevokeSession, Prog.bind_eq, wp_getSession_bind, Prog.wp_require_bind,
      Prog.wp_ensure_bind, wp_setSession_bind]
    refine ⟨fun _ => hFailed, fun x hx =>
      ⟨fun _ => hFailed, fun _ => ⟨fun _ => hFailed, fun _ => ?_⟩⟩⟩
    refine (grantOf_changed ({ · with revoked := true }) hx rfl rfl).trans ?_
    simp [hEq, actedGrant, Outcome.toOption, ite_and]
  all_goals
    rw [hEq] at hKeeps
    refine (grantOf_of_keeps (run_keeps hKeeps) (by simp [writtenBy])).trans ?_
    simp [hEq, actedGrant]

theorem grantOf_spendSession (signer : Address) (session : Option Address) (fee : UInt64) :
    grantOf ((Executor.spendSession signer session fee).run s).2 g a =
      if signer = g then spentGrant a session fee (grantOf s g a) else grantOf s g a := by
  cases session with
  | none => simp [Executor.spendSession, spentGrant]
  | some b =>
      show grantOf ((Executor.spendGrant signer b fee (grantOf s signer b)).run s).2 g a = _
      cases hGrant : grantOf s signer b with
      | none =>
          by_cases hOwner : signer = g ∧ b = a
          · obtain ⟨rfl, rfl⟩ := hOwner
            simp [Executor.spendGrant, spentGrant, hGrant]
          · simp_all [Executor.spendGrant, spentGrant]
      | some x =>
          refine (grantOf_changed (fun x => { x with amountSpent := x.amountSpent + fee }) hGrant
            rfl rfl).trans ?_
          simp [spentGrant, ite_and]

/-- A turn does to a grant what its transaction and its receipt tell. -/
theorem TurnFrom.grantOf_after {turn : Turn} (h : TurnFrom sha256 ex s turn) :
    grantOf turn.step.after g a = turnGrant sha256 ex g a (grantOf s g a) turn := by
  obtain ⟨height, proposer, st⟩ := turn
  obtain ⟨rfl, hStep, _⟩ := h
  by_cases hCharged : ex.Charged st
  · obtain ⟨hAfter, hReceipt⟩ := hStep.after_charged hCharged
    have hRun := ex.executeTransaction_run sha256 st.tx height proposer st.before
    rw [hAfter, turnGrant, hReceipt]
    generalize (ex.executeTransaction sha256 st.tx height proposer).run st.before = result at hRun
    have hActed : ∀ s₁ o s₂, ex.Collected st.tx proposer st.before s₁ →
        (ex.action sha256 st.tx height).run s₁ = (o, s₂) →
        GrantEnd sha256 g a st.tx height st.before o.toOption.isSome s₂ := by
      intro s₁ o s₂ hCollected hAction
      have hWp := @action_wp sha256 ex s₁ g a st.tx height
      have hOther := hCollected.other (.session g a) (by simp) (by simp)
      simpa only [Prog.Wp, hAction, GrantEnd, grantOf, hOther] using hWp
    cases hRun with
    | rejected e hNot => exact absurd hCharged.2 hNot
    | failed fees s₁ e s₂ _ _ hCollected hAction =>
        simpa [GrantEnd, Outcome.toOption, Executor.booked, TransactionReceipt.failure] using
          hActed s₁ _ s₂ hCollected hAction
    | panicked fees s₁ s₂ _ _ hCollected hAction =>
        simpa [GrantEnd, Outcome.toOption, Executor.booked, Executor.rejection,
          TransactionReceipt.failure] using hActed s₁ _ s₂ hCollected hAction
    | succeeded fees s₁ s₂ s₃ events changes spent _ _ hCollected hAction hSession =>
        have hSpent := grantOf_spendSession (s := s₂) (g := g) (a := a) st.tx.signer
          st.tx.transaction.session (ex.actualFee st.tx.transaction)
        rw [hSession, hActed s₁ _ s₂ hCollected hAction] at hSpent
        rw [hSpent]
        by_cases hSigner : st.tx.signer = g <;>
          simp [hSigner, Executor.booked, Outcome.toOption, TransactionReceipt.succeeded]
  · have hFail : st.receipt.success ≠ true := fun hSuccess =>
      hCharged (hStep.charged_of_success hSuccess)
    rw [hStep.after_eq hCharged]
    simp [turnGrant, hFail]

/-- A grant is what the turns of the chain, replayed from genesis in order, make of it. -/
theorem grantOf_eq_replay (sha256 : List UInt8 → Hash) (ex : Executor) (l : List Turn)
    (s : StateStore) (h : History sha256 ex l s) (granter session : Address) :
    grantOf s granter session = l.foldl (turnGrant sha256 ex granter session) none := by
  let Inv (l : List Turn) (s : StateStore) : Prop :=
    grantOf s granter session = l.foldl (turnGrant sha256 ex granter session) none
  suffices hInv : Inv l s from hInv
  refine History.rule (by simp [Inv, grantOf]) ?_ ?_ ?_ h
  · exact fun l s height h => (grantOf_of_keeps (unbonded_keeps height s) (by simp)).trans h
  · intro l s turn h hTurn
    show _ = (l ++ [turn]).foldl _ none
    rw [List.foldl_append, ← h]
    exact hTurn.grantOf_after
  · exact fun l s t h hKeeps => (grantOf_of_keeps hKeeps (by simp [chainFamilies])).trans h

/-- The player grants a session key, uses it and revokes it. -/
def sessionBlock : List SignedTransaction :=
  let used := playerTx 1 (.transfer (Address.ofByte 2) 10)
  [playerTx 0 (.createSession (List.replicate 32 0) .all 100 5),
    { used with transaction := { used.transaction with session := some Address.zero } },
    playerTx 2 (.revokeSession Address.zero)]

theorem grantOf_eq_replay_overspent :
    ∃ l s, History (fun _ => Hash.zero) Executor.devnet l s ∧
      grantOf s (Address.ofByte 1) Address.zero =
        l.foldl (turnGrant (fun _ => Hash.zero) Executor.devnet (Address.ofByte 1) Address.zero)
          none ∧
      ((grantOf s (Address.ofByte 1) Address.zero).map fun x =>
        (x.spendingLimit, x.amountSpent, x.revoked)) = some (5, 28384, true) := by
  have hGenesis : IsGenesis Executor.devnet onePlayer onePlayerStore :=
    Prod.ext (by decide +kernel) rfl
  have hHistory : History (fun _ => Hash.zero) Executor.devnet _ _ :=
    ⟨onePlayer, onePlayerStore, hGenesis, ChainRun.start.block sessionBlock 1 Address.zero⟩
  exact ⟨_, _, hHistory, grantOf_eq_replay _ _ _ _ hHistory _ _, by decide +kernel⟩

end Polay.Validator
