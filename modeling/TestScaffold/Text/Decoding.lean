/-!
# Reading and writing UTF-8

Bytes are read one at a time. A character of several bytes is kept as a part until its last byte is there, so the
first byte that cannot go on is known exactly.

* `decode`: the text that a list of bytes spells, or where and how it stops being UTF-8.
* `encode`: the bytes of a text.
* `decode_encode`: a text is read back from its bytes.
-/

namespace TestScaffold.Text

/-- Where bytes stop being UTF-8: after `valid` good bytes come `faulty` bytes that no character begins with, or the
bytes end inside a character. -/
structure Utf8Fault where
  valid : Nat
  faulty : Option Nat
  deriving DecidableEq, Repr

/-- The fault in words. -/
def Utf8Fault.message (f : Utf8Fault) : String :=
  match f.faulty with
  | some n => s!"invalid utf-8 sequence of {n} bytes from index {f.valid}"
  | none => s!"incomplete utf-8 byte sequence from index {f.valid}"

/-- The beginning of a character: the bits read from `read` bytes, the number of bytes still missing, and the range
that the next byte has to lie in. -/
structure PartialChar where
  bits : Nat
  read : Nat
  missing : Nat
  low : Nat
  high : Nat
  deriving DecidableEq, Repr

/-- What the first byte of a character of several bytes begins. The range of the second byte leaves out spellings
longer than needed, surrogates and code points that are too large. -/
def PartialChar.ofLead? (b : Nat) : Option PartialChar :=
  if b < 0xc2 then none
  else if b < 0xe0 then some ⟨b - 0xc0, 1, 1, 0x80, 0xbf⟩
  else if b < 0xf0 then
    some ⟨b - 0xe0, 1, 2, if b = 0xe0 then 0xa0 else 0x80, if b = 0xed then 0x9f else 0xbf⟩
  else if b < 0xf5 then
    some ⟨b - 0xf0, 1, 3, if b = 0xf0 then 0x90 else 0x80, if b = 0xf4 then 0x8f else 0xbf⟩
  else none

/-- The part with one more byte. -/
def PartialChar.add (p : PartialChar) (b : Nat) : PartialChar :=
  ⟨p.bits * 64 + (b - 0x80), p.read + 1, p.missing - 1, 0x80, 0xbf⟩

/-- Reads bytes behind `text`, which took `valid` bytes, and behind a part of a character. -/
def decodeFrom (text : String) (valid : Nat) : Option PartialChar → List UInt8 → Except Utf8Fault String
  | none, [] => .ok text
  | some _, [] => .error ⟨valid, none⟩
  | none, b :: bs =>
    if b.toNat < 0x80 then decodeFrom (text.push (Char.ofNat b.toNat)) (valid + 1) none bs
    else
      match PartialChar.ofLead? b.toNat with
      | some p => decodeFrom text valid (some p) bs
      | none => .error ⟨valid, some 1⟩
  | some p, b :: bs =>
    if p.low ≤ b.toNat && b.toNat ≤ p.high then
      let q := p.add b.toNat
      if q.missing = 0 then decodeFrom (text.push (Char.ofNat q.bits)) (valid + q.read) none bs
      else decodeFrom text valid (some q) bs
    else .error ⟨valid, some p.read⟩

/-- The text that bytes spell. -/
def decode (bytes : List UInt8) : Except Utf8Fault String := decodeFrom "" 0 none bytes

/-- The bytes of a text. -/
def encode (s : String) : List UInt8 := s.toList.flatMap String.utf8EncodeChar

/-! ## Reading back -/

theorem toNat_byte {n : Nat} (h : n < 256) : (UInt8.ofNat n).toNat = n := UInt8.toNat_ofNat_of_lt' h

theorem decodeFrom_ascii {text : String} {valid n : Nat} {bs : List UInt8} (h : n < 0x80) :
    decodeFrom text valid none (UInt8.ofNat n :: bs) = decodeFrom (text.push (Char.ofNat n)) (valid + 1) none bs := by
  rw [decodeFrom, toNat_byte (by omega), if_pos h]

theorem decodeFrom_lead {text : String} {valid n : Nat} {p : PartialChar} {bs : List UInt8} (hlow : 0x80 ≤ n)
    (hhigh : n < 256) (hp : PartialChar.ofLead? n = some p) :
    decodeFrom text valid none (UInt8.ofNat n :: bs) = decodeFrom text valid (some p) bs := by
  rw [decodeFrom, toNat_byte hhigh, if_neg (by omega), hp]

/-- A byte in the middle of a character brings six bits. -/
theorem decodeFrom_next {text : String} {valid bits read missing low high n : Nat} {b : UInt8} {bs : List UInt8}
    (hb : b.toNat = 0x80 + n) (hlow : low ≤ b.toNat) (hhigh : b.toNat ≤ high) :
    decodeFrom text valid (some ⟨bits, read, missing + 2, low, high⟩) (b :: bs) =
      decodeFrom text valid (some ⟨bits * 64 + n, read + 1, missing + 1, 0x80, 0xbf⟩) bs := by
  have hrange : (decide (low ≤ b.toNat) && decide (b.toNat ≤ high)) = true := by
    rw [decide_eq_true hlow, decide_eq_true hhigh, Bool.and_true]
  have hadd : PartialChar.add ⟨bits, read, missing + 2, low, high⟩ b.toNat =
      ⟨bits * 64 + n, read + 1, missing + 1, 0x80, 0xbf⟩ := by
    refine PartialChar.mk.injEq .. ▸ ⟨?_, rfl, rfl, rfl, rfl⟩
    show bits * 64 + (b.toNat - 0x80) = bits * 64 + n
    omega
  rw [decodeFrom, if_pos hrange, hadd]
  exact if_neg (Nat.succ_ne_zero _)

/-- The last byte of a character brings six bits as well. -/
theorem decodeFrom_last {text : String} {valid bits read low high n : Nat} {b : UInt8} {bs : List UInt8}
    (hb : b.toNat = 0x80 + n) (hlow : low ≤ b.toNat) (hhigh : b.toNat ≤ high) :
    decodeFrom text valid (some ⟨bits, read, 1, low, high⟩) (b :: bs) =
      decodeFrom (text.push (Char.ofNat (bits * 64 + n))) (valid + (read + 1)) none bs := by
  have hrange : (decide (low ≤ b.toNat) && decide (b.toNat ≤ high)) = true := by
    rw [decide_eq_true hlow, decide_eq_true hhigh, Bool.and_true]
  have hadd : PartialChar.add ⟨bits, read, 1, low, high⟩ b.toNat = ⟨bits * 64 + n, read + 1, 0, 0x80, 0xbf⟩ := by
    refine PartialChar.mk.injEq .. ▸ ⟨?_, rfl, rfl, rfl, rfl⟩
    show bits * 64 + (b.toNat - 0x80) = bits * 64 + n
    omega
  rw [decodeFrom, if_pos hrange, hadd]
  exact if_pos rfl

/-- The bytes behind the first one of a character have six bits each. -/
theorem toNat_tail (n : Nat) : (UInt8.ofNat (n % 64 + 128)).toNat = 0x80 + n % 64 := by
  rw [toNat_byte (by omega), Nat.add_comm]

/-- The bytes of a character are read as that character: a lead byte, and six bits with each byte behind it. -/
theorem exists_decodeFrom_utf8EncodeChar (text : String) (valid : Nat) (c : Char) (bs : List UInt8) :
    ∃ n, decodeFrom text valid none (String.utf8EncodeChar c ++ bs) = decodeFrom (text.push c) n none bs := by
  have hvalid : c.toNat < 0xd800 ∨ 0xdfff < c.toNat ∧ c.toNat < 0x110000 := c.valid
  have hchar : Char.ofNat c.toNat = c := Char.ofNat_toNat c
  obtain ⟨v, hv⟩ : ∃ v, c.toNat = v := ⟨_, rfl⟩
  have hval : c.val.toNat = v := hv
  rw [hv] at hvalid hchar
  simp only [String.utf8EncodeChar, hval]
  split
  · next h1 => exact ⟨valid + 1, by rw [List.cons_append, decodeFrom_ascii (by omega), hchar]; rfl⟩
  · next h1 =>
    split
    · next h2 =>
      have hlead : PartialChar.ofLead? (v / 64 % 32 + 192) = some ⟨v / 64, 1, 1, 0x80, 0xbf⟩ := by
        rw [PartialChar.ofLead?, if_neg (by omega), if_pos (by omega), show v / 64 % 32 + 192 - 0xc0 = v / 64 by omega]
      refine ⟨valid + 2, ?_⟩
      rw [List.cons_append, List.cons_append, decodeFrom_lead (by omega) (by omega) hlead,
        decodeFrom_last (toNat_tail _) (by rw [toNat_tail]; omega) (by rw [toNat_tail]; omega), show v / 64 * 64 + v % 64 = v by omega, hchar]
      rfl
    · next h2 =>
      split
      · next h3 =>
        have hlead : PartialChar.ofLead? (v / 4096 % 16 + 224) = some ⟨v / 4096, 1, 2,
            if v / 4096 = 0 then 0xa0 else 0x80, if v / 4096 = 13 then 0x9f else 0xbf⟩ := by
          rw [PartialChar.ofLead?, if_neg (by omega), if_neg (by omega), if_pos (by omega),
            show v / 4096 % 16 + 224 - 0xe0 = v / 4096 by omega]
          congr 3 <;> simp only [eq_iff_iff] <;> omega
        refine ⟨valid + 3, ?_⟩
        rw [List.cons_append, List.cons_append, List.cons_append, decodeFrom_lead (by omega) (by omega) hlead,
          decodeFrom_next (toNat_tail _) (by rw [toNat_tail]; split <;> omega) (by rw [toNat_tail]; split <;> omega), decodeFrom_last (toNat_tail _) (by rw [toNat_tail]; omega) (by rw [toNat_tail]; omega),
          show (v / 4096 * 64 + v / 64 % 64) * 64 + v % 64 = v by omega, hchar]
        rfl
      · next h3 =>
        have hlead : PartialChar.ofLead? (v / 262144 % 8 + 240) = some ⟨v / 262144, 1, 3,
            if v / 262144 = 0 then 0x90 else 0x80, if v / 262144 = 4 then 0x8f else 0xbf⟩ := by
          rw [PartialChar.ofLead?, if_neg (by omega), if_neg (by omega), if_neg (by omega), if_pos (by omega),
            show v / 262144 % 8 + 240 - 0xf0 = v / 262144 by omega]
          congr 3 <;> simp only [eq_iff_iff] <;> omega
        refine ⟨valid + 4, ?_⟩
        rw [List.cons_append, List.cons_append, List.cons_append, List.cons_append,
          decodeFrom_lead (by omega) (by omega) hlead,
          decodeFrom_next (toNat_tail _) (by rw [toNat_tail]; split <;> omega) (by rw [toNat_tail]; split <;> omega), decodeFrom_next (toNat_tail _) (by rw [toNat_tail]; omega) (by rw [toNat_tail]; omega),
          decodeFrom_last (toNat_tail _) (by rw [toNat_tail]; omega) (by rw [toNat_tail]; omega),
          show ((v / 262144 * 64 + v / 4096 % 64) * 64 + v / 64 % 64) * 64 + v % 64 = v by omega, hchar]
        rfl

theorem decodeFrom_flatMap (text : String) (valid : Nat) (cs : List Char) :
    decodeFrom text valid none (cs.flatMap String.utf8EncodeChar) = .ok (text ++ String.ofList cs) := by
  induction cs generalizing text valid with
  | nil => simp [decodeFrom]
  | cons c cs ih =>
    rw [List.flatMap_cons]
    obtain ⟨n, hn⟩ := exists_decodeFrom_utf8EncodeChar text valid c (cs.flatMap String.utf8EncodeChar)
    rw [hn, ih]
    congr 1
    apply String.toList_inj.mp
    simp

/-- A text is read back from its bytes. -/
theorem decode_encode (s : String) : decode (encode s) = .ok s := by
  rw [decode, encode, decodeFrom_flatMap]
  simp

end TestScaffold.Text
