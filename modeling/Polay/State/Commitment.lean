import Polay.Crypto.Hash
import Polay.State.Merkle

/-!
# What the state root commits to

The commitment covers twelve key families. In all of them but one the key has a
fixed length, so a leaf message can be cut into its key and its record, and stores
with the same root agree on every such key. The keys of achievements end in a text
without a length, and the families added later (unbonding, governance, sessions,
rentals, guilds, tournaments, supply) are not covered at all.
-/

namespace Polay.State

open Lib Polay.Types

namespace Key

/-- The committed families with keys of a fixed length. -/
def determined : Key → Bool
  | .account _ | .assetClass _ | .assetBalance _ _ | .validator _ | .delegation _ _
  | .listing _ | .profile _ | .attestor _ | .matchResult _ | .matchSettlement _ => true
  | _ => false

/-- The families that executing a block works on. The others are the chain's own
records of blocks, receipts and epochs, and the lists of the staking crate. The
height is one of them: joining a tournament reads it. -/
def executed : Key → Bool
  | .receipt _ | .txBlockIndex _ | .blockEvents _ | .epoch _ | .activeValidatorSet
  | .latestHash | .block _ | .validatorAddresses | .delegators _ => false
  | _ => true

/-- The record of a determined key serializes. -/
def recordFits : (k : Key) → k.Record → Bool
  | .account _, r => Borsh.fits (α := AccountState) r
  | .assetClass _, r => Borsh.fits (α := AssetClass) r
  | .assetBalance _ _, r => Borsh.fits (α := UInt64) r
  | .validator _, r => Borsh.fits (α := ValidatorInfo) r
  | .delegation _ _, r => Borsh.fits (α := Delegation) r
  | .listing _, r => Borsh.fits (α := Listing) r
  | .profile _, r => Borsh.fits (α := PlayerProfile) r
  | .attestor _, r => Borsh.fits (α := Attestor) r
  | .matchResult _, r => Borsh.fits (α := MatchResult) r
  | .matchSettlement _, r => Borsh.fits (α := MatchSettlement) r
  | _, _ => true

end Key

/-- Every record of the store serializes, as what is stored as bytes does. -/
def Serialized (s : StateStore) : Prop :=
  ∀ k v, s.get? k = some v → k.recordFits v.val = true

/-- An identifier and a record can be read back from their bytes. -/
theorem id_record_eq {α β : Type} [Borsh α] [Borsh β] {a b : α} {r s : β}
    (ha : Borsh.fits a = true) (hb : Borsh.fits b = true) (hr : Borsh.fits r = true)
    (hs : Borsh.fits s = true)
    (h : Borsh.encode a ++ Borsh.encode r = Borsh.encode b ++ Borsh.encode s) :
    a = b ∧ r = s := by
  obtain ⟨hId, hRecord⟩ := Borsh.encode_append_inj ha hb h
  exact ⟨hId, Borsh.encode_inj hr hs hRecord⟩

/-- The leaf message of a determined key is that of no other record. -/
theorem entry_eq_of_leafInput_eq {k k' : Key} (hDetermined : k.determined = true)
    {v : k.Value} {v' : k'.Value} (hFits : k.recordFits v.val = true)
    (hFits' : k'.recordFits v'.val = true) (h : leafInput ⟨k, v⟩ = leafInput ⟨k', v'⟩) :
    (⟨k, v⟩ : Sigma Key.Value) = ⟨k', v'⟩ := by
  obtain ⟨hTag, hRest⟩ := List.cons.inj h
  cases k <;> try (cases hDetermined; done)
  -- The family byte leaves one family for the other key, whose identifiers come first.
  all_goals cases k' <;> try (simp [Key.split] at hTag; done)
  case account.account i j =>
    obtain ⟨rfl, hRecord⟩ :=
      id_record_eq (α := Address) (β := AccountState) rfl rfl hFits hFits' hRest
    rw [Subtype.ext hRecord]
  case assetClass.assetClass i j =>
    obtain ⟨rfl, hRecord⟩ :=
      id_record_eq (α := Hash) (β := AssetClass) rfl rfl hFits hFits' hRest
    rw [Subtype.ext hRecord]
  case validator.validator i j =>
    obtain ⟨rfl, hRecord⟩ :=
      id_record_eq (α := Address) (β := ValidatorInfo) rfl rfl hFits hFits' hRest
    rw [Subtype.ext hRecord]
  case listing.listing i j =>
    obtain ⟨rfl, hRecord⟩ :=
      id_record_eq (α := Hash) (β := Listing) rfl rfl hFits hFits' hRest
    rw [Subtype.ext hRecord]
  case profile.profile i j =>
    obtain ⟨rfl, hRecord⟩ :=
      id_record_eq (α := Address) (β := PlayerProfile) rfl rfl hFits hFits' hRest
    rw [Subtype.ext hRecord]
  case attestor.attestor i j =>
    obtain ⟨rfl, hRecord⟩ :=
      id_record_eq (α := Address) (β := Attestor) rfl rfl hFits hFits' hRest
    rw [Subtype.ext hRecord]
  case matchResult.matchResult i j =>
    obtain ⟨rfl, hRecord⟩ :=
      id_record_eq (α := Hash) (β := MatchResult) rfl rfl hFits hFits' hRest
    rw [Subtype.ext hRecord]
  case matchSettlement.matchSettlement i j =>
    obtain ⟨rfl, hRecord⟩ :=
      id_record_eq (α := Hash) (β := MatchSettlement) rfl rfl hFits hFits' hRest
    rw [Subtype.ext hRecord]
  case assetBalance.assetBalance i x j y =>
    obtain ⟨hId, hRecord⟩ :=
      id_record_eq (α := Hash × Address) (β := UInt64) (a := (i, x)) (b := (j, y)) rfl rfl
        hFits hFits' hRest
    cases hId
    rw [Subtype.ext hRecord]
  case delegation.delegation i x j y =>
    obtain ⟨hId, hRecord⟩ :=
      id_record_eq (α := Address × Address) (β := Delegation) (a := (i, x)) (b := (j, y)) rfl
        rfl hFits hFits' hRest
    cases hId
    rw [Subtype.ext hRecord]

variable (sha256 : List UInt8 → Hash)
variable {s : StateStore} {k : Key}

theorem split_mem_of_determined (h : k.determined = true) : k.split.1 ∈ statePrefixes := by
  cases k <;> first
    | (cases h; done)
    | simp [Key.split, statePrefixes]

theorem get?_of_mem_leafInputs (hs : Serialized s) (hDetermined : k.determined = true)
    {v : k.Value} (hFits : k.recordFits v.val = true) (h : leafInput ⟨k, v⟩ ∈ leafInputs s) :
    s.get? k = some v := by
  obtain ⟨⟨k', v'⟩, hMem, hEq⟩ := List.mem_map.mp h
  have hGet := (mem_committedEntries.mp hMem).2
  have hEntry := entry_eq_of_leafInput_eq hDetermined hFits (hs k' v' hGet) hEq.symm
  cases hEntry
  exact hGet

/-- Without collisions, stores with the same root agree on every determined key. -/
theorem get?_eq_of_root_eq {t : StateStore} (hs : Serialized s) (ht : Serialized t)
    (hFree : CollisionFree sha256 s t) (h : stateRoot sha256 s = stateRoot sha256 t)
    (hDetermined : k.determined = true) : s.get? k = t.get? k := by
  have hMem := mem_leafInputs_of_root_eq sha256 hFree h
  have hLeaf : ∀ {u : StateStore} {v : k.Value}, u.get? k = some v →
      leafInput ⟨k, v⟩ ∈ leafInputs u := fun hu =>
    List.mem_map.mpr
      ⟨_, mem_committedEntries.mpr ⟨split_mem_of_determined hDetermined, hu⟩, rfl⟩
  apply Option.ext
  intro v
  constructor
  · intro hv
    exact get?_of_mem_leafInputs ht hDetermined (hs k v hv) ((hMem _).mp (hLeaf hv))
  · intro hv
    exact get?_of_mem_leafInputs hs hDetermined (ht k v hv) ((hMem _).mpr (hLeaf hv))

/-- Stores with the same commitment agree on every key of block execution exactly if
they agree on the keys the commitment does not determine. -/
theorem executed_agree_iff {s t : StateStore} (hs : Serialized s) (ht : Serialized t)
    (hFree : CollisionFree sha256 s t)
    (h : ((computeStateRoot sha256 : Exec Empty StateCommitment).run s).1 =
      ((computeStateRoot sha256 : Exec Empty StateCommitment).run t).1) :
    (∀ k, k.executed = true → s.get? k = t.get? k) ↔
      ∀ k, k.executed = true → k.determined = false → s.get? k = t.get? k := by
  rw [run_computeStateRoot, run_computeStateRoot] at h
  have hRoot : stateRoot sha256 s = stateRoot sha256 t := by
    have hOk : (⟨_, _⟩ : StateCommitment) = ⟨_, _⟩ := Machine.Outcome.ok.inj h
    exact (StateCommitment.mk.inj hOk).1
  constructor
  · intro hAll k hExecuted _
    exact hAll k hExecuted
  · intro hOpen k hExecuted
    by_cases hDetermined : k.determined = true
    · exact get?_eq_of_root_eq sha256 hs ht hFree hRoot hDetermined
    · exact hOpen k hExecuted (Bool.eq_false_iff.mpr hDetermined)

/-! ## A store with and without a session -/

theorem serialized_empty : Serialized (∅ : StateStore) := by
  intro k v hv
  rw [Std.ExtDTreeMap.get?_empty] at hv
  cases hv

theorem Serialized.insert (hs : Serialized s) {v : k.Value} (hFits : k.recordFits v.val = true) :
    Serialized (s.insert k v) := by
  intro k' v' hv
  by_cases hEq : k = k'
  · subst hEq
    rw [Std.ExtDTreeMap.get?_insert_self] at hv
    rw [← Option.some.inj hv]
    exact hFits
  · rw [Store.get?_insert_ne hEq] at hv
    exact hs k' v' hv

/-- One account. -/
def oneAccount : StateStore :=
  (∅ : StateStore).insert (.account (Address.ofByte 1))
    ⟨AccountState.withBalance (Address.ofByte 1) 1000 0, rfl⟩

/-- A session of the account that may do anything until height 1000. -/
def openSession : SessionGrant where
  granter := Address.ofByte 1
  sessionPubkey := []
  sessionAddress := Address.ofByte 2
  permissions := .all
  expiresAt := 1000
  spendingLimit := 1000
  amountSpent := 0
  revoked := false
  createdAt := 0

/-- The account with the session. -/
def withSession : StateStore :=
  oneAccount.insert (.session (Address.ofByte 1) (Address.ofByte 2)) ⟨openSession, rfl, rfl⟩

theorem serialized_oneAccount : Serialized oneAccount := serialized_empty.insert rfl

/-- The account with the session, on a chain that has recorded a block. -/
def withBlock : StateStore := withSession.insert .latestHash ⟨Hash.ofByte 7, trivial⟩

theorem executed_agree_iff_withBlock :
    withBlock.get? .chainHeight = withSession.get? .chainHeight ∧
      withBlock.get? (.account (Address.ofByte 1)) =
        withSession.get? (.account (Address.ofByte 1)) := by
  have hSession : Serialized withSession := serialized_oneAccount.insert rfl
  have hFree : CollisionFree Crypto.checksum withBlock withSession :=
    ⟨by decide +kernel, by decide +kernel⟩
  have hOpen : ∀ k, k.executed = true → k.determined = false →
      withBlock.get? k = withSession.get? k := by
    intro k hExecuted _
    apply Store.get?_insert_ne
    rintro rfl
    cases hExecuted
  have hAll := (executed_agree_iff Crypto.checksum (hSession.insert rfl) hSession hFree
    (by decide +kernel)).mpr hOpen
  exact ⟨hAll _ rfl, hAll _ rfl⟩

/-- The session changes neither the root nor the number of entries. -/
theorem session_uncommitted :
    ((computeStateRoot Crypto.checksum : Exec Empty StateCommitment).run withSession).1.toOption =
      ((computeStateRoot Crypto.checksum : Exec Empty StateCommitment).run
        oneAccount).1.toOption ∧
    (withSession.get? (.session (Address.ofByte 1) (Address.ofByte 2))).isSome = true ∧
    (oneAccount.get? (.session (Address.ofByte 1) (Address.ofByte 2))).isSome = false := by
  refine ⟨?_, ?_, ?_⟩ <;> decide +kernel

end Polay.State
