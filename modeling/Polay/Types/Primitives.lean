import Polay.Lib.Borsh

/-!
# Addresses, hashes and signatures

The three byte-string types every other type of the chain is built from. Each
is its own type around fixed-length bytes, ordered lexicographically, written in
Borsh as its raw bytes and shown as hexadecimal text.
-/

namespace Polay.Types

open Lib Lib.Bytes

/-- A 32-byte account address. -/
structure Address extends FixedBytes 32
deriving DecidableEq

/-- A 32-byte hash: block hashes, transaction hashes, Merkle roots, identifiers. -/
structure Hash extends FixedBytes 32
deriving DecidableEq

/-- A 64-byte signature. -/
structure Signature extends FixedBytes 64
deriving DecidableEq

namespace Address

/-- The address with all bytes equal to `b`. -/
def ofByte (b : UInt8) : Address := ⟨FixedBytes.fill 32 b⟩

/-- The all-zeros address, used as the system address. -/
def zero : Address := ofByte 0

def toHex (a : Address) : String := hexEncode a.data

theorem data_injective : Function.Injective (fun a : Address => a.data) := by
  rintro ⟨a⟩ ⟨b⟩ h
  exact congrArg Address.mk (FixedBytes.ext_data h)

instance : Ord Address := ⟨fun a b => compare a.data b.data⟩

instance : Std.TransOrd Address := transCmp_of_key fun a : Address => a.data

instance : Std.LawfulEqOrd Address :=
  lawfulEqCmp_of_injective (fun a : Address => a.data) data_injective

instance : Borsh Address := Borsh.xmap Address.toFixedBytes Address.mk fun _ => rfl

end Address

namespace Hash

/-- The hash with all bytes equal to `b`. -/
def ofByte (b : UInt8) : Hash := ⟨FixedBytes.fill 32 b⟩

/-- The all-zeros hash: the parent of the first block, and a nil vote. -/
def zero : Hash := ofByte 0

def isZero (h : Hash) : Bool := h == zero

def toHex (h : Hash) : String := hexEncode h.data

theorem data_injective : Function.Injective (fun h : Hash => h.data) := by
  rintro ⟨a⟩ ⟨b⟩ h
  exact congrArg Hash.mk (FixedBytes.ext_data h)

instance : Ord Hash := ⟨fun a b => compare a.data b.data⟩

instance : Std.TransOrd Hash := transCmp_of_key fun h : Hash => h.data

instance : Std.LawfulEqOrd Hash :=
  lawfulEqCmp_of_injective (fun h : Hash => h.data) data_injective

instance : Borsh Hash := Borsh.xmap Hash.toFixedBytes Hash.mk fun _ => rfl

@[simp] theorem isZero_eq_true {h : Hash} : h.isZero = true ↔ h = zero := by
  simp [isZero]

@[simp] theorem isZero_eq_false {h : Hash} : h.isZero = false ↔ h ≠ zero := by
  simp [isZero]

end Hash

namespace Signature

/-- The placeholder signature of a vote that has not been signed. -/
def zero : Signature := ⟨FixedBytes.fill 64 0⟩

instance : Borsh Signature := Borsh.xmap Signature.toFixedBytes Signature.mk fun _ => rfl

end Signature

end Polay.Types
