import Polay.Crypto.Hash
import Polay.Execution.Creation
import Polay.Validator.History

/-!
# Creations and the records they replace

The six creating actions write their record without looking whether their
identifier is taken, so repeating the fields of an earlier creation replaces its
record: a guild loses its treasury, a listing its escrow. Every record of these
families was written by a successful creation of the run, so a run in which no
two successful creations agree in their fields never replaces one
(`neverOverwrites_of_nodup`). `guild_overwritten` is a run that does.
-/

namespace Polay.Validator

open Lib Lib.Machine Polay.Types State Execution

variable {sha256 : List UInt8 → Hash} {ex : Executor}
variable {k : Key} {turn : Turn} (L : Key → Prop) {s : StateStore} {l : List Turn}

/-- What a successful turn created. -/
def Turn.created (turn : Turn) : Option Creation :=
  if turn.step.receipt.success then
    Creation.ofAction turn.step.tx.transaction.action turn.step.tx.signer
      turn.step.tx.transaction.timestamp turn.height
  else none

/-- The successful creations of a run, oldest first. -/
def creations (l : List Turn) : List Creation := l.filterMap Turn.created

/-- No successful creation of the run finds a record under a key it writes. -/
def NeverOverwrites (sha256 : List UInt8 → Hash) (l : List Turn) : Prop :=
  ∀ turn ∈ l, ∀ c, turn.created = some c → ∀ k ∈ c.keys sha256,
    turn.step.before.get? k = none

/-- The keys that the successful creations of a run wrote. -/
def CreatedIn (sha256 : List UInt8 → Hash) (l : List Turn) (k : Key) : Prop :=
  ∃ c ∈ creations l, k ∈ c.keys sha256

/-! ## Every record was created in the run -/

theorem CreatedIn.append (h : CreatedIn sha256 l k) (turn : Turn) :
    CreatedIn sha256 (l ++ [turn]) k := by
  obtain ⟨c, hc, hk⟩ := h
  refine ⟨c, ?_, hk⟩
  unfold creations
  rw [List.filterMap_append]
  exact List.mem_append_left _ hc

theorem createdIn_last {c : Creation} (hc : turn.created = some c) (hk : k ∈ c.keys sha256) :
    CreatedIn sha256 (l ++ [turn]) k := by
  refine ⟨c, ?_, hk⟩
  unfold creations
  rw [List.filterMap_append]
  exact List.mem_append_right _ (by simp [hc])

theorem within_mono {L L' : Key → Prop} (h : Store.Holds (Within L) s) (hL : ∀ k, L k → L' k) :
    Store.Holds (Within L') s :=
  fun k hk hSome => hL k (h k hk hSome)

theorem free_within_fee : Free feeFamilies (Within L) := by
  intro k r hk hOnce
  cases k <;> simp [familyOf, feeFamilies, madeOnce] at hk hOnce

theorem free_within_chain : Free chainFamilies (Within L) := by
  intro k r hk hOnce
  cases k <;> simp [familyOf, chainFamilies, madeOnce] at hk hOnce

/-- An action that can panic creates nothing. -/
theorem ofAction_of_mayPanic {config : ChainConfig} {action : TransactionAction}
    (h : MayPanic config action) (signer : Address) (t height : UInt64) :
    Creation.ofAction action signer t height = none := by
  cases action <;> first | rfl | exact h.elim

/-- After a turn, what it created is created in the run. -/
theorem within_turn (hs : Store.Holds (Within (CreatedIn sha256 l)) s)
    (h : TurnFrom sha256 ex s turn) :
    Store.Holds (Within (CreatedIn sha256 (l ++ [turn]))) turn.step.after := by
  obtain ⟨rfl, hStep, hBacked⟩ := h
  have hBefore : Store.Holds (Within (CreatedIn sha256 (l ++ [turn]))) turn.step.before :=
    within_mono hs fun _ hk => hk.append turn
  by_cases hCharged : ex.Charged turn.step
  · obtain ⟨hAfter, hReceipt⟩ := hStep.after_charged hCharged
    have hRun := ex.executeTransaction_run sha256 turn.step.tx turn.height turn.proposer
      turn.step.before
    rw [hAfter]
    generalize (ex.executeTransaction sha256 turn.step.tx turn.height turn.proposer).run
      turn.step.before = result at hRun hReceipt
    have hFee : ∀ s₁, ex.Collected turn.step.tx turn.proposer turn.step.before s₁ →
        Store.Holds (Within (CreatedIn sha256 (l ++ [turn]))) s₁ :=
      fun s₁ hCollected => holds_of_keeps (free_within_fee _) hBefore hCollected.keeps
    cases hRun with
    | rejected e _ => exact hBefore
    | failed fees s₁ e s₂ _ _ hCollected hAction =>
        -- A failed action wrote nothing, since the listings are backed.
        have hSame := ex.dispatchAction_err sha256 (hCollected.listingsBacked hBacked)
          (congrArg Prod.fst hAction)
        rw [show s₂ = s₁ from (congrArg Prod.snd hAction).symm.trans hSame]
        exact hFee s₁ hCollected
    | panicked fees s₁ s₂ _ _ hCollected hAction =>
        have hPanic := ex.mayPanic_of_dispatchAction sha256 (congrArg Prod.fst hAction)
        have hNone := ofAction_of_mayPanic hPanic turn.step.tx.signer
          turn.step.tx.transaction.timestamp turn.height
        have hAct : Store.Holds (Within (CreatedIn sha256 (l ++ [turn])))
            ((ex.action sha256 turn.step.tx turn.height).run s₁).2 :=
          dispatchAction_within sha256 ex _ _ _ _ (by simp [hNone]) (hFee s₁ hCollected)
        rwa [hAction] at hAct
    | succeeded fees s₁ s₂ s₃ events changes spent _ _ hCollected hAction hSession =>
        have hSuccess : turn.step.receipt.success = true := by rw [hReceipt]; rfl
        have hAct : Store.Holds (Within (CreatedIn sha256 (l ++ [turn])))
            ((ex.action sha256 turn.step.tx turn.height).run s₁).2 :=
          dispatchAction_within sha256 ex _ _ _ _
            (fun c hc k hk => createdIn_last (by rw [Turn.created, if_pos hSuccess]; exact hc) hk)
            (hFee s₁ hCollected)
        rw [hAction] at hAct
        have hSpent := run_keeps (Executor.spendSession_keeps (F := feeFamilies)
          (by simp [feeFamilies]) turn.step.tx.signer turn.step.tx.transaction.session
          (ex.actualFee turn.step.tx.transaction) (s := s₂))
        rw [hSession] at hSpent
        exact holds_of_keeps (free_within_fee _) hAct hSpent
  · rw [hStep.after_eq hCharged]
    exact hBefore

theorem within_genesis {g : Genesis} (h : IsGenesis ex g s) :
    Store.Holds (Within (CreatedIn sha256 [])) s := by
  have hEmpty : Store.Holds (Within (CreatedIn sha256 [])) (∅ : StateStore) := by
    intro k _ hSome
    simp at hSome
  have hKeeps := keeps_of_chainFrame (initFromGenesis_safe ⟨ex.chainConfig⟩ g (s := ∅))
  rw [show _ = (_, s) from h] at hKeeps
  exact holds_of_keeps (free_within_chain _) hEmpty hKeeps

theorem within_unbonded {L : Key → Prop} (h : Store.Holds (Within L) s) (height : UInt64) :
    Store.Holds (Within L) (unbonded height s) := by
  refine holds_of_keeps (fun k r hk hOnce => ?_) h (unbonded_keeps height s)
  cases k <;> simp [familyOf, madeOnce] at hk hOnce

theorem lenient_within : Lenient (Within L) where
  free := by
    intro k r hk hOnce
    cases k <;> simp [familyOf, madeOnce] at hk hOnce
  unjail _ _ hOnce := absurd hOnce (by simp [madeOnce])
  count _ _ _ hOnce := absurd hOnce (by simp [madeOnce])

/-! ## Distinct creations -/

theorem creations_append (l : List Turn) (turn : Turn) :
    creations (l ++ [turn]) = creations l ++ turn.created.toList := by
  unfold creations
  rw [List.filterMap_append]
  cases hc : turn.created <;> simp [hc]

/-- The last creation of a run with distinct creations finds its keys free. -/
theorem get?_eq_none_of_distinct {c : Creation}
    (hs : Store.Holds (Within (CreatedIn sha256 l)) turn.step.before)
    (hCollision : Merkle.NoCollision sha256 ((creations (l ++ [turn])).map Creation.message))
    (hNodup : (creations (l ++ [turn])).Nodup) (hc : turn.created = some c)
    (hk : k ∈ c.keys sha256) : turn.step.before.get? k = none := by
  rw [creations_append, hc] at hCollision hNodup
  by_contra hSome
  have hIsSome := Option.isSome_iff_ne_none.mpr hSome
  obtain ⟨c', hc', hk'⟩ := hs k (Creation.madeOnce_of_mem_keys hk) hIsSome
  have hSub : [c.message, c'.message] ⊆
      (creations l ++ (some c).toList).map Creation.message := by
    intro m hm
    rw [List.map_append, List.mem_append]
    rcases List.mem_cons.mp hm with rfl | hm
    · exact .inr (by simp)
    · rw [List.mem_singleton.mp hm]
      exact .inl (List.mem_map_of_mem hc')
  have hEq : c = c' := Creation.eq_of_mem_keys (hCollision.mono hSub) hk hk'
  subst hEq
  exact (List.disjoint_of_nodup_append hNodup) hc' (by simp)

/-- A run in which no two successful creations have the same fields never replaces
a created record. -/
theorem neverOverwrites_of_nodup {l : List Turn} {s : StateStore}
    (h : History sha256 ex l s)
    (hCollision : Merkle.NoCollision sha256 ((creations l).map Creation.message))
    (hNodup : (creations l).Nodup) : NeverOverwrites sha256 l := by
  -- Along the run: the records present were created, and no creation replaced one so far.
  let Inv (l : List Turn) (s : StateStore) : Prop :=
    Store.Holds (Within (CreatedIn sha256 l)) s ∧
      (Merkle.NoCollision sha256 ((creations l).map Creation.message) →
        (creations l).Nodup → NeverOverwrites sha256 l)
  suffices hInv : Inv l s from hInv.2 hCollision hNodup
  obtain ⟨g, s₀, hGenesis, hRun⟩ := h
  refine ChainRun.rule (fun l s height ih => ⟨within_unbonded ih.1 height, ih.2⟩)
    (fun l s turn ih hTurn => ⟨within_turn ih.1 hTurn, ?_⟩)
    (fun l s block receipts ih =>
      ⟨((applyBlock_safe (lenient_within _) _ _).sound ih.1).holds, ih.2⟩)
    (fun l s proposer ih =>
      ⟨((applyBlockReward_safe (lenient_within _) _ _).sound ih.1).holds, ih.2⟩)
    (fun l s height ih =>
      ⟨((processEpochTransition_safe (lenient_within _) _ _).sound ih.1).holds, ih.2⟩)
    (.genesis hGenesis) ⟨within_genesis hGenesis, ?_⟩ hRun
  · intro hCollision hNodup turn' hMem c hc k hk
    rcases List.mem_append.mp hMem with hOld | hLast
    · have hSub : creations l ⊆ creations (l ++ [turn]) := by
        rw [creations_append]
        exact List.subset_append_left _ _
      have hFirst : (creations l).Nodup := by
        rw [creations_append] at hNodup
        exact hNodup.of_append_left
      exact ih.2 (hCollision.mono (List.map_subset _ hSub)) hFirst turn' hOld c hc k hk
    · obtain rfl := List.mem_singleton.mp hLast
      have hBefore := ih.1
      rw [← hTurn.start] at hBefore
      exact get?_eq_none_of_distinct hBefore hCollision hNodup hc hk
  · intro _ _ turn hMem
    cases hMem

/-! ## Runs -/

/-- Two guilds with different names. -/
def twoGuilds : List SignedTransaction :=
  [playerTx 0 (.createGuild "north" "" 10), playerTx 1 (.createGuild "south" "" 10)]

theorem history_onePlayer (txs : List SignedTransaction) :
    History Crypto.checksum Executor.devnet
      (turnsOf Crypto.checksum Executor.devnet txs 1 Address.zero onePlayerStore)
      ((Executor.devnet.executeBlock Crypto.checksum txs 1 Address.zero).run onePlayerStore).2 :=
  ⟨onePlayer, onePlayerStore, Prod.ext (by decide +kernel) rfl,
    ChainRun.start.block txs 1 Address.zero⟩

theorem neverOverwrites_of_nodup_twoGuilds :
    creations (turnsOf Crypto.checksum Executor.devnet twoGuilds 1 Address.zero onePlayerStore) =
        [.guild (Address.ofByte 1) "north" 7, .guild (Address.ofByte 1) "south" 7] ∧
      NeverOverwrites Crypto.checksum
        (turnsOf Crypto.checksum Executor.devnet twoGuilds 1 Address.zero onePlayerStore) := by
  have hCreations : creations
      (turnsOf Crypto.checksum Executor.devnet twoGuilds 1 Address.zero onePlayerStore) =
      [.guild (Address.ofByte 1) "north" 7, .guild (Address.ofByte 1) "south" 7] := by
    decide +kernel
  refine ⟨hCreations, neverOverwrites_of_nodup (history_onePlayer twoGuilds) ?_ ?_⟩
  · rw [hCreations]
    decide +kernel
  · rw [hCreations]
    decide

/-- The identifier of the guild. -/
def northGuild : Hash := Crypto.checksum (Creation.guild (Address.ofByte 1) "north" 7).message

/-- A guild, a deposit into its treasury, and the same guild again. -/
def guildTwice : List SignedTransaction :=
  [playerTx 0 (.createGuild "north" "" 10),
    playerTx 1 (.guildDeposit northGuild 500),
    playerTx 2 (.createGuild "north" "" 10)]

/-- The treasury of a guild in a store. -/
def treasuryOf (s : StateStore) (id : Hash) : Option UInt64 :=
  (s.get? (.guild id)).map fun g => Guild.treasuryBalance g.val

/-- The second creation succeeds and replaces a guild with 500 in its treasury by an
empty one. -/
theorem guild_overwritten :
    ∃ l s, History Crypto.checksum Executor.devnet l s ∧
      Merkle.NoCollision Crypto.checksum ((creations l).map Creation.message) ∧
      ¬ NeverOverwrites Crypto.checksum l ∧
      ∃ turn ∈ l, turn.created = some (.guild (Address.ofByte 1) "north" 7) ∧
        treasuryOf turn.step.before northGuild = some 500 ∧
        treasuryOf turn.step.after northGuild = some 0 := by
  have hTurn : ∃ turn ∈
      turnsOf Crypto.checksum Executor.devnet guildTwice 1 Address.zero onePlayerStore,
      turn.created = some (.guild (Address.ofByte 1) "north" 7) ∧
        treasuryOf turn.step.before northGuild = some 500 ∧
        treasuryOf turn.step.after northGuild = some 0 := by
    decide +kernel
  refine ⟨_, _, history_onePlayer guildTwice, ?_, fun hNever => ?_, hTurn⟩
  · have hCreations : creations
        (turnsOf Crypto.checksum Executor.devnet guildTwice 1 Address.zero onePlayerStore) =
        [.guild (Address.ofByte 1) "north" 7, .guild (Address.ofByte 1) "north" 7] := by
      decide +kernel
    rw [hCreations]
    decide +kernel
  · obtain ⟨turn, hMem, hc, hBefore, _⟩ := hTurn
    have hNone := hNever turn hMem _ hc (.guild northGuild) (List.mem_singleton.mpr rfl)
    rw [treasuryOf, hNone] at hBefore
    cases hBefore

end Polay.Validator
