import Polay.State.Key

/-!
# Keys and scans

All key builders together: those of the records (`Key`) and the two whose records
no modelled component reads. A prefix builder gives the bytes that a scan asks
for, and a scan finds exactly the keys of one family that start with the given
identifier, because an identifier has a fixed length and the family byte of a
prefix is that of one family only.
-/

namespace Polay.State

open Lib Polay.Types Borsh

/-- A call of a key builder. -/
inductive StateKey where
  | record (key : Key)
  | balance (addr : Address)
  | equivocation (validator : Address) (height : UInt64)

/-- A call of a prefix builder. -/
inductive KeyPrefix where
  | unbonding (delegator : Address)
  | unbondingIndex
  | session (granter : Address)
  | rentalByOwner (owner : Address)
  | rentalByRenter (renter : Address)
  | guildMember (guildId : Hash)
  | memberGuilds (member : Address)
  | tournamentParticipant (tournamentId : Hash)
  | equivocation (validator : Address)

namespace StateKey

/-- The family byte of a key and the bytes behind it. -/
def split : StateKey → UInt8 × List UInt8
  | .record k => k.split
  | .balance a => (0x02, encode a)
  | .equivocation v h => (0x22, encode (v, BigEndian.mk h))

def bytes (k : StateKey) : List UInt8 := k.split.1 :: k.split.2

/-- The families of the two other builders are not used by records. -/
theorem split_record_ne (k : Key) : k.split.1 ≠ 0x02 ∧ k.split.1 ≠ 0x22 := by
  have hParse := Key.parse_split k
  refine ⟨fun h => ?_, fun h => ?_⟩
  · rw [h] at hParse
    cases hParse
  · rw [h] at hParse
    cases hParse

theorem bytes_injective : Function.Injective bytes := by
  intro k k' h
  obtain ⟨hTag, hRest⟩ := List.cons.inj h
  cases k with
  | record k =>
      cases k' with
      | record k' => exact congrArg record (Key.bytes_injective h)
      | balance a => exact absurd hTag (split_record_ne k).1
      | equivocation v n => exact absurd hTag (split_record_ne k).2
  | balance a =>
      cases k' with
      | record k' => exact absurd hTag.symm (split_record_ne k').1
      | balance a' => rw [encode_inj (α := Address) rfl rfl hRest]
      | equivocation v n => cases hTag
  | equivocation v n =>
      cases k' with
      | record k' => exact absurd hTag.symm (split_record_ne k').2
      | balance a => cases hTag
      | equivocation v' n' =>
          have hPair := encode_inj (α := Address × BigEndian) rfl rfl hRest
          cases hPair
          rfl

end StateKey

namespace KeyPrefix

def split : KeyPrefix → UInt8 × List UInt8
  | .unbonding d => (0x0D, encode d)
  | .unbondingIndex => (0x0E, [])
  | .session g => (0x18, encode g)
  | .rentalByOwner o => (0x1A, encode o)
  | .rentalByRenter r => (0x1B, encode r)
  | .guildMember i => (0x1D, encode i)
  | .memberGuilds m => (0x1E, encode m)
  | .tournamentParticipant i => (0x20, encode i)
  | .equivocation v => (0x22, encode v)

def bytes (p : KeyPrefix) : List UInt8 := p.split.1 :: p.split.2

/-- The key is of the family of the prefix and has its identifier in front. -/
def Covers : KeyPrefix → StateKey → Prop
  | .unbonding d, .record (.unbonding d' _ _) => d' = d
  | .unbondingIndex, .record (.unbondingIndex _ _ _) => True
  | .session g, .record (.session g' _) => g' = g
  | .rentalByOwner o, .record (.rentalByOwner o' _) => o' = o
  | .rentalByRenter r, .record (.rentalByRenter r' _) => r' = r
  | .guildMember i, .record (.guildMember i' _) => i' = i
  | .memberGuilds m, .record (.memberGuilds m' _) => m' = m
  | .tournamentParticipant i, .record (.tournamentParticipant i' _) => i' = i
  | .equivocation v, .equivocation v' _ => v' = v
  | _, _ => False

/-- An identifier in front of others. -/
theorem encode_isPrefix_iff {α : Type} [Borsh α] (hFits : ∀ a : α, fits a = true) (a b : α)
    (rest : List UInt8) : encode a <+: encode b ++ rest ↔ b = a := by
  constructor
  · rintro ⟨more, h⟩
    exact (encode_append_inj (hFits a) (hFits b) h).1.symm
  · rintro rfl
    exact List.prefix_append _ _

/-- A scan finds the keys that its prefix covers. -/
theorem isPrefix_iff (p : KeyPrefix) (k : StateKey) : p.bytes <+: k.bytes ↔ p.Covers k := by
  rw [bytes, StateKey.bytes, List.cons_prefix_cons]
  -- Keys of other families have another first byte.
  cases p <;> rcases k with k | _ | _ <;> try cases k
  all_goals
    simp +decide only [split, StateKey.split, Key.split, Covers, true_and, false_and,
      List.nil_prefix]
  all_goals exact encode_isPrefix_iff (by intro _; rfl) _ _ _

end KeyPrefix

/-- Entries of the unbonding index are sorted by height. -/
theorem compare_unbondingIndex {h h' : UInt64} (d d' : Address) (i i' : UInt8) (hLt : h < h') :
    compare (Key.unbondingIndex h d i).bytes (Key.unbondingIndex h' d' i').bytes = .lt := by
  by_contra hNot
  have hBytes : compare (Bytes.beBytes 8 h'.toNat ++ encode (d', i'))
      (Bytes.beBytes 8 h.toNat ++ encode (d, i)) ≠ .gt := by
    intro hGt
    apply hNot
    show compare (0x0E :: (Bytes.beBytes 8 h.toNat ++ encode (d, i)))
      (0x0E :: (Bytes.beBytes 8 h'.toNat ++ encode (d', i')) : List UInt8) = .lt
    rw [List.compare_cons_cons, Std.ReflOrd.compare_self]
    have hSwap := Std.OrientedCmp.gt_iff_lt.mp hGt
    exact hSwap
  have hLe := Bytes.le_of_compare_beBytes h'.toNat_lt h.toNat_lt hBytes
  exact absurd (UInt64.lt_iff_toNat_lt.mp hLt) (Nat.not_lt.mpr hLe)

/-- Different calls of key builders give different keys, a scan with a prefix finds the keys of
its family with the identifier in front, and the unbonding index is sorted by height. -/
theorem stateKeys_separate :
    Function.Injective StateKey.bytes ∧
      (∀ (p : KeyPrefix) (k : StateKey), p.bytes <+: k.bytes ↔ p.Covers k) ∧
      ∀ (h h' : UInt64) (d d' : Address) (i i' : UInt8), h < h' →
        compare (StateKey.record (.unbondingIndex h d i)).bytes
          (StateKey.record (.unbondingIndex h' d' i')).bytes = .lt :=
  ⟨StateKey.bytes_injective, KeyPrefix.isPrefix_iff,
    fun _ _ d d' i i' hLt => compare_unbondingIndex d d' i i' hLt⟩

theorem stateKeys_separate_carry :
    compare (StateKey.record (.unbondingIndex 255 Address.zero 1)).bytes
      (StateKey.record (.unbondingIndex 256 Address.zero 0)).bytes = .lt :=
  stateKeys_separate.2.2 255 256 Address.zero Address.zero 1 0 (by decide)

end Polay.State
