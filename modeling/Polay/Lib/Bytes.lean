import Mathlib

/-!
# Byte strings of fixed length

Byte strings of a known length, their lexicographic order, their hexadecimal
text, and the little- and big-endian bytes of a machine word. A comparator that
compares through an injective key inherits every law of the key's order; this
is how each byte-indexed type of a development gets a lawful order.
-/

namespace Polay.Lib.Bytes

/-- Exactly `n` bytes. -/
structure FixedBytes (n : Nat) where
  data : List UInt8
  length_data : data.length = n
deriving DecidableEq

namespace FixedBytes

variable {n : Nat}

attribute [simp] length_data

theorem ext_data {a b : FixedBytes n} (h : a.data = b.data) : a = b := by
  cases a
  cases b
  simp only [mk.injEq]
  exact h

/-- All bytes equal to `b`. -/
def fill (n : Nat) (b : UInt8) : FixedBytes n :=
  ⟨List.replicate n b, List.length_replicate⟩

/-- A list of exactly `n` bytes, as fixed-length bytes. -/
def ofList (n : Nat) (l : List UInt8) : Option (FixedBytes n) :=
  if h : l.length = n then some ⟨l, h⟩ else none

@[simp] theorem ofList_data (a : FixedBytes n) : ofList n a.data = some a := by
  simp [ofList, a.length_data]

end FixedBytes

/-! ## Order through an injective key -/

/-- Comparing through an injective key is lawful when the key's order is. -/
theorem lawfulEqCmp_of_injective {α β : Type} [Ord β] [Std.LawfulEqOrd β]
    (f : α → β) (hf : Function.Injective f) :
    Std.LawfulEqCmp (fun a b : α => compare (f a) (f b)) where
  compare_self := Std.ReflOrd.compare_self
  eq_of_compare h := hf (Std.LawfulEqOrd.eq_of_compare h)

/-- Comparing through any key is transitive when the key's order is. -/
theorem transCmp_of_key {α β : Type} [Ord β] [Std.TransOrd β] (f : α → β) :
    Std.TransCmp (fun a b : α => compare (f a) (f b)) where
  eq_swap := Std.OrientedOrd.eq_swap
  isLE_trans h₁ h₂ := Std.TransOrd.isLE_trans h₁ h₂

/-! ## Hexadecimal text -/

/-- The lower-case hexadecimal digit of a nibble. -/
def hexDigit (n : Nat) : Char :=
  if n < 10 then Char.ofNat (48 + n) else Char.ofNat (87 + n)

/-- Two lower-case hexadecimal digits per byte. -/
def hexEncode (l : List UInt8) : String :=
  String.ofList (l.flatMap fun b => [hexDigit (b.toNat / 16), hexDigit (b.toNat % 16)])

/-- The value of a hexadecimal digit of either case. -/
def hexValue (c : Char) : Option Nat :=
  if '0' ≤ c ∧ c ≤ '9' then some (c.toNat - 48)
  else if 'a' ≤ c ∧ c ≤ 'f' then some (c.toNat - 87)
  else if 'A' ≤ c ∧ c ≤ 'F' then some (c.toNat - 55)
  else none

/-- The bytes a hexadecimal text stands for. -/
def hexDecode : List Char → Option (List UInt8)
  | [] => some []
  | [_] => none
  | a :: b :: rest => do
      let hi ← hexValue a
      let lo ← hexValue b
      let bytes ← hexDecode rest
      return UInt8.ofNat (16 * hi + lo) :: bytes

/-! ## Words as bytes -/

/-- The `w` low-order base-256 digits of `n`, least significant first. -/
def leBytes : Nat → Nat → List UInt8
  | 0, _ => []
  | w + 1, n => UInt8.ofNat n :: leBytes w (n / 256)

/-- The value of a list of base-256 digits, least significant first. -/
def leValue : List UInt8 → Nat
  | [] => 0
  | b :: rest => b.toNat + 256 * leValue rest

@[simp] theorem length_leBytes (w n : Nat) : (leBytes w n).length = w := by
  induction w generalizing n with
  | zero => rfl
  | succ w ih => simp [leBytes, ih]

theorem leValue_leBytes (w n : Nat) (h : n < 256 ^ w) :
    leValue (leBytes w n) = n := by
  induction w generalizing n with
  | zero =>
      have hZero : n = 0 := by simpa using h
      simp [leBytes, leValue, hZero]
  | succ w ih =>
      have hQuot : n / 256 < 256 ^ w := by
        rw [pow_succ] at h
        omega
      simp only [leBytes, leValue, ih _ hQuot, UInt8.toNat_ofNat']
      omega

/-- A word in front of other bytes. -/
theorem leBytes_append_inj {w n n' : Nat} {r s : List UInt8} (hn : n < 256 ^ w)
    (hn' : n' < 256 ^ w) (h : leBytes w n ++ r = leBytes w n' ++ s) : n = n' ∧ r = s := by
  obtain ⟨hWord, hRest⟩ := List.append_inj h (by rw [length_leBytes, length_leBytes])
  refine ⟨?_, hRest⟩
  rw [← leValue_leBytes w n hn, hWord, leValue_leBytes w n' hn']

/-- The `w` low-order base-256 digits of `n`, most significant first. -/
def beBytes (w n : Nat) : List UInt8 := (leBytes w n).reverse

@[simp] theorem length_beBytes (w n : Nat) : (beBytes w n).length = w := by
  simp [beBytes]

/-! ## The order of big-endian words -/

theorem leValue_append (l m : List UInt8) :
    leValue (l ++ m) = leValue l + 256 ^ l.length * leValue m := by
  induction l with
  | nil => simp [leValue]
  | cons b l ih =>
      rw [List.cons_append, leValue, leValue, ih, List.length_cons, pow_succ]
      ring

theorem leValue_lt (l : List UInt8) : leValue l < 256 ^ l.length := by
  induction l with
  | nil => simp [leValue]
  | cons b l ih =>
      have hByte := b.toNat_lt
      rw [leValue, List.length_cons, pow_succ]
      omega

/-- Among words of one length the order of their big-endian bytes, whatever follows them,
is the order of their values. -/
theorem leValue_reverse_le {l m x y : List UInt8} (hLength : l.length = m.length)
    (h : compare (l ++ x) (m ++ y) ≠ .gt) : leValue l.reverse ≤ leValue m.reverse := by
  induction l generalizing m with
  | nil =>
      obtain rfl : m = [] := List.eq_nil_of_length_eq_zero hLength.symm
      exact Nat.le_refl _
  | cons b l ih =>
      obtain ⟨c, m, rfl⟩ : ∃ c m', m = c :: m' := List.exists_cons_of_length_eq_add_one hLength.symm
      have hTail : l.length = m.length := by simpa using hLength
      rw [List.cons_append, List.cons_append, List.compare_cons_cons] at h
      have hSmall := leValue_lt l.reverse
      simp only [List.reverse_cons, leValue_append, List.length_reverse, leValue, Nat.mul_zero,
        Nat.add_zero] at hSmall ⊢
      rw [← hTail]
      rcases Nat.lt_trichotomy b.toNat c.toNat with hLt | hEq | hGt
      · have hScale : 256 ^ l.length * (b.toNat + 1) ≤ 256 ^ l.length * c.toNat :=
          Nat.mul_le_mul_left _ hLt
        rw [Nat.mul_add, Nat.mul_one] at hScale
        omega
      · obtain rfl : b = c := UInt8.toNat_inj.mp hEq
        rw [Std.ReflOrd.compare_self, Ordering.then] at h
        have hRest := ih hTail h
        omega
      · have hCompare : compare b c = .gt := Std.compare_eq_gt.mpr hGt
        rw [hCompare] at h
        exact absurd rfl h

theorem le_of_compare_beBytes {w n n' : Nat} {x y : List UInt8} (hn : n < 256 ^ w)
    (hn' : n' < 256 ^ w) (h : compare (beBytes w n ++ x) (beBytes w n' ++ y) ≠ .gt) :
    n ≤ n' := by
  have hLe := leValue_reverse_le (by simp) h
  rwa [beBytes, beBytes, List.reverse_reverse, List.reverse_reverse, leValue_leBytes w n hn,
    leValue_leBytes w n' hn'] at hLe

end Polay.Lib.Bytes
