import Polay.Lib.Bytes

/-!
# The Borsh binary format

Borsh writes a value as the concatenation of its parts: words in little-endian
order, a 32-bit element count before every string and sequence, one tag byte
before an optional value or an enumeration. A value with more than `2 ^ 32 - 1`
elements in one of its sequences has no encoding (`fits` is false for it and the
serializer reports an error). Every encoding is self-delimiting: decoding reads
back the value and leaves the bytes behind it untouched. The law is a field of
the class, so each type's encoding carries its own round trip.
-/

namespace Polay.Lib

open Lib.Bytes

/-- A type with a self-delimiting binary encoding. -/
class Borsh (α : Type) where
  encode : α → List UInt8
  decode : List UInt8 → Option (α × List UInt8)
  fits : α → Bool
  decode_encode : ∀ a rest, fits a = true → decode (encode a ++ rest) = some (a, rest)

namespace Borsh

section General

variable {α β : Type}

/-- The serializer: it fails exactly on values that do not fit the format. -/
def toVec [Borsh α] (a : α) : Option (List UInt8) :=
  if fits a then some (encode a) else none

theorem toVec_eq_some [Borsh α] {a : α} {l : List UInt8} :
    toVec a = some l ↔ fits a = true ∧ encode a = l := by
  unfold toVec
  by_cases hFits : fits a = true <;> simp [hFits]

/-- Encodings are prefix-free: equal byte strings start with equal values. -/
theorem encode_append_inj [Borsh α] {a b : α} {r s : List UInt8}
    (ha : fits a = true) (hb : fits b = true)
    (h : encode a ++ r = encode b ++ s) : a = b ∧ r = s := by
  have hDecode := decode_encode a r ha
  rw [h, decode_encode b s hb] at hDecode
  simp only [Option.some.injEq, Prod.mk.injEq] at hDecode
  exact ⟨hDecode.1.symm, hDecode.2.symm⟩

theorem encode_inj [Borsh α] {a b : α}
    (ha : fits a = true) (hb : fits b = true)
    (h : encode a = encode b) : a = b :=
  (encode_append_inj (r := []) (s := []) ha hb (by rw [h])).1

/-- A type that is read and written as another one. -/
@[reducible] def xmap [Borsh α] (f : β → α) (g : α → β)
    (h : ∀ b, g (f b) = b) : Borsh β where
  encode b := encode (f b)
  decode l := (decode l).map fun p => (g p.1, p.2)
  fits b := fits (f b)
  decode_encode b rest hFits := by
    simp [decode_encode (f b) rest hFits, h]

/-- An enumeration without payload: one tag byte. -/
@[reducible] def ofTag (tag : α → UInt8) (untag : UInt8 → Option α)
    (h : ∀ a, untag (tag a) = some a) : Borsh α where
  encode a := [tag a]
  decode
    | [] => none
    | b :: rest => (untag b).map fun a => (a, rest)
  fits _ := true
  decode_encode a rest _ := by simp [h]

/-- The encoded payload of one variant of an enumeration. -/
structure Part where
  bytes : List UInt8
  fits : Bool

/-- One variant of an enumeration: its tag and its payload. -/
structure Variant where
  tag : UInt8
  payload : Part

def part [Borsh β] (b : β) : Part := ⟨encode b, fits b⟩

/-- Read a payload and rebuild the variant from it. -/
def parse [Borsh β] (f : β → α) (l : List UInt8) : Option (α × List UInt8) :=
  (decode l).map fun p => (f p.1, p.2)

/-- An unknown tag. -/
def reject (_ : List UInt8) : Option (α × List UInt8) := none

theorem parse_part [Borsh β] (f : β → α) (b : β) (rest : List UInt8)
    (h : (part b).fits = true) :
    parse f ((part b).bytes ++ rest) = some (f b, rest) := by
  simp [parse, part, decode_encode b rest h]

/-- An enumeration with payloads: one tag byte, then the variant's payload. -/
@[reducible] def tagged (variant : α → Variant)
    (read : UInt8 → List UInt8 → Option (α × List UInt8))
    (h : ∀ a rest, (variant a).payload.fits = true →
      read (variant a).tag ((variant a).payload.bytes ++ rest) = some (a, rest)) :
    Borsh α where
  encode a := (variant a).tag :: (variant a).payload.bytes
  decode
    | [] => none
    | t :: rest => read t rest
  fits a := (variant a).payload.fits
  decode_encode a rest hFits := h a rest hFits

end General

/-! ## Fixed-width parts -/

section Words

/-- Read `w` bytes and interpret them. -/
def decodeWord {α : Type} (w : Nat) (f : List UInt8 → Option α) (l : List UInt8) :
    Option (α × List UInt8) :=
  if w ≤ l.length then (f (l.take w)).map fun a => (a, l.drop w) else none

theorem decodeWord_append {α : Type} {w : Nat} {f : List UInt8 → Option α}
    {bytes rest : List UInt8} {a : α} (hLen : bytes.length = w) (hf : f bytes = some a) :
    decodeWord w f (bytes ++ rest) = some (a, rest) := by
  simp [decodeWord, ← hLen, hf]

instance (n : Nat) : Borsh (FixedBytes n) where
  encode a := a.data
  decode := decodeWord n (FixedBytes.ofList n)
  fits _ := true
  decode_encode a _ _ := decodeWord_append a.length_data a.ofList_data

instance : Borsh UInt8 := ofTag id some fun _ => rfl

instance : Borsh UInt16 where
  encode a := leBytes 2 a.toNat
  decode := decodeWord 2 fun l => some (UInt16.ofNat (leValue l))
  fits _ := true
  decode_encode a rest _ := decodeWord_append (length_leBytes _ _)
    (by rw [leValue_leBytes 2 _ a.toNat_lt, UInt16.ofNat_toNat])

instance : Borsh UInt32 where
  encode a := leBytes 4 a.toNat
  decode := decodeWord 4 fun l => some (UInt32.ofNat (leValue l))
  fits _ := true
  decode_encode a rest _ := decodeWord_append (length_leBytes _ _)
    (by rw [leValue_leBytes 4 _ a.toNat_lt, UInt32.ofNat_toNat])

instance : Borsh UInt64 where
  encode a := leBytes 8 a.toNat
  decode := decodeWord 8 fun l => some (UInt64.ofNat (leValue l))
  fits _ := true
  decode_encode a rest _ := decodeWord_append (length_leBytes _ _)
    (by rw [leValue_leBytes 8 _ a.toNat_lt, UInt64.ofNat_toNat])

/-- A 64-bit word written most significant byte first. Borsh itself never does
this; it is how sorted keys carry numbers. -/
structure BigEndian where
  word : UInt64

instance : Borsh BigEndian where
  encode a := beBytes 8 a.word.toNat
  decode := decodeWord 8 fun l => some ⟨UInt64.ofNat (leValue l.reverse)⟩
  fits _ := true
  decode_encode a rest _ := decodeWord_append (length_beBytes _ _)
    (by rw [beBytes, List.reverse_reverse, leValue_leBytes 8 _ a.word.toNat_lt,
      UInt64.ofNat_toNat])

/-- Signed words are written in two's complement. -/
instance : Borsh Int64 := xmap Int64.toUInt64 UInt64.toInt64 fun _ => rfl

instance : Borsh Bool :=
  ofTag (fun b => if b then 1 else 0)
    (fun t => if t = 0 then some false else if t = 1 then some true else none)
    (by decide)

/-- The element count before a string or a sequence. -/
def decodeLength : List UInt8 → Option (Nat × List UInt8) :=
  decodeWord 4 fun l => some (leValue l)

theorem decodeLength_append {n : Nat} (h : n < 2 ^ 32) (rest : List UInt8) :
    decodeLength (leBytes 4 n ++ rest) = some (n, rest) :=
  decodeWord_append (length_leBytes 4 n) (by rw [leValue_leBytes 4 n h])

end Words

/-! ## Composite parts -/

section Composite

variable {α β : Type} [Borsh α] [Borsh β]

instance : Borsh (α × β) where
  encode p := encode p.1 ++ encode p.2
  decode l := (decode l).bind fun p =>
    (decode p.2).map fun q => ((p.1, q.1), q.2)
  fits p := fits p.1 && fits p.2
  decode_encode p rest hFits := by
    rw [Bool.and_eq_true] at hFits
    rw [List.append_assoc, decode_encode p.1 _ hFits.1]
    simp [decode_encode p.2 rest hFits.2]

instance : Borsh (Option α) where
  encode
    | none => [0]
    | some a => 1 :: encode a
  decode
    | 0 :: rest => some (none, rest)
    | 1 :: rest => (decode rest).map fun p => (some p.1, p.2)
    | _ => none
  fits
    | none => true
    | some a => fits a
  decode_encode a rest hFits := by
    cases a with
    | none => rfl
    | some a => simp [decode_encode a rest hFits]

/-- Read a known number of elements. -/
def decodeMany : Nat → List UInt8 → Option (List α × List UInt8)
  | 0, l => some ([], l)
  | n + 1, l => (decode l).bind fun p =>
      (decodeMany n p.2).map fun q => (p.1 :: q.1, q.2)

theorem decodeMany_encode (as : List α) (rest : List UInt8)
    (h : ∀ a ∈ as, fits a = true) :
    decodeMany as.length (as.flatMap encode ++ rest) = some (as, rest) := by
  induction as with
  | nil => rfl
  | cons a as ih =>
      have hHead := h a (by simp)
      have hTail := ih fun b hb => h b (by simp [hb])
      simp [decodeMany, List.append_assoc, decode_encode a _ hHead, hTail]

/-- Lists of the same length, written one after the other without a count. -/
theorem flatMap_encode_append_inj {as bs : List α} {r s : List UInt8}
    (hLength : as.length = bs.length) (ha : ∀ a ∈ as, fits a = true)
    (hb : ∀ b ∈ bs, fits b = true) (h : as.flatMap encode ++ r = bs.flatMap encode ++ s) :
    as = bs ∧ r = s := by
  have hDecode := decodeMany_encode as r ha
  rw [h, hLength, decodeMany_encode bs s hb] at hDecode
  simp only [Option.some.injEq, Prod.mk.injEq] at hDecode
  exact ⟨hDecode.1.symm, hDecode.2.symm⟩

instance : Borsh (List α) where
  encode as := leBytes 4 as.length ++ as.flatMap encode
  decode l := (decodeLength l).bind fun p => decodeMany p.1 p.2
  fits as := decide (as.length < 2 ^ 32) && as.all fits
  decode_encode as rest hFits := by
    rw [Bool.and_eq_true, decide_eq_true_eq, List.all_eq_true] at hFits
    rw [List.append_assoc, decodeLength_append hFits.1]
    exact decodeMany_encode as rest hFits.2

end Composite

/-! ## Text -/

/-- The bytes of a text, in the format's text encoding. -/
def utf8 (s : String) : List UInt8 := s.toByteArray.data.toList

/-- The text with the given bytes, if they are valid. -/
def ofUtf8 (l : List UInt8) : Option String := String.fromUTF8? ⟨l.toArray⟩

@[simp] theorem ofUtf8_utf8 (s : String) : ofUtf8 (utf8 s) = some s := by
  have hBytes : (⟨(utf8 s).toArray⟩ : ByteArray) = s.toByteArray := by
    simp [utf8]
  simp [ofUtf8, hBytes, String.fromUTF8?, String.fromUTF8, s.isValidUTF8]

theorem utf8_inj {a b : String} (h : utf8 a = utf8 b) : a = b := by
  have hText := congrArg ofUtf8 h
  rw [ofUtf8_utf8, ofUtf8_utf8] at hText
  exact Option.some.inj hText

instance : Borsh String where
  encode s := leBytes 4 (utf8 s).length ++ utf8 s
  decode l := (decodeLength l).bind fun p => decodeWord p.1 ofUtf8 p.2
  fits s := decide ((utf8 s).length < 2 ^ 32)
  decode_encode s rest hFits := by
    rw [decide_eq_true_eq] at hFits
    rw [List.append_assoc, decodeLength_append hFits]
    exact decodeWord_append rfl (ofUtf8_utf8 s)

end Borsh

end Polay.Lib
