import NamingDirectory.Proofs.Text.Ascii
import NamingDirectory.Text.Percent

/-!
# Percent coding reads back

Every text can be written in UTF-8, and its bytes with letters, digits, four signs and percent signs alone
(`IsPercentCoding`). Decoding such a text gives the one that was written (`percentDecode_coding`), whatever
its characters are: the bytes come back one by one, and each character from its bytes.

The decoder of UTF-8 is a machine that takes a byte at a time and keeps what is still missing of a character.
Each length of a character has its own first byte, which says how many more there are and from which range the
next one must be; so there is one lemma for the first byte of each length, and two for the bytes after it.
They put together what the encoder has taken apart by division (`decodeFrom_utf8EncodeChar`).

A decoder of percent signs could do its work on each stretch of ASCII apart. As all of a coding is ASCII, it
is one stretch (`percentDecodeFrom_of_isVisible`), and no character is cut in two.
-/

namespace NamingDirectory.Text

/-! ### UTF-8

The codes of characters in four ranges, by the number of their bytes. -/

section Utf8

variable {p : Pending} {code missing low high n v : Nat}

theorem decodeFrom_start (hlow : 0x80 ≤ n) (hn : n < 256) (hp : start? n = some p) (bs : List UInt8) :
    decodeFrom none (UInt8.ofNat n :: bs) = decodeFrom (some p) bs := by
  have hhigh : ¬ n < 0x80 := by omega
  simp only [decodeFrom, fresh, UInt8.toNat_ofNat_of_lt' hn, if_neg hhigh, hp, List.nil_append]

theorem decodeFrom_more (hlow : low ≤ n) (hhigh : n ≤ high) (hn : n < 256) (bs : List UInt8) :
    decodeFrom (some ⟨code, missing + 2, low, high⟩) (UInt8.ofNat n :: bs) =
      decodeFrom (some ⟨code * 0x40 + (n - 0x80), missing + 1, 0x80, 0xbf⟩) bs := by
  simp [decodeFrom, continued, Nat.mod_eq_of_lt hn, hlow, hhigh]

theorem decodeFrom_last (hlow : low ≤ n) (hhigh : n ≤ high) (hn : n < 256) (bs : List UInt8) :
    decodeFrom (some ⟨code, 1, low, high⟩) (UInt8.ofNat n :: bs) =
      Char.ofNat (code * 0x40 + (n - 0x80)) :: decodeFrom none bs := by
  simp [decodeFrom, continued, Nat.mod_eq_of_lt hn, hlow, hhigh]

/-- The first of two bytes. -/
theorem start?_two (hlow : 0x80 ≤ v) (hhigh : v ≤ 0x7ff) :
    start? (v / 64 % 32 + 192) = some ⟨v / 64, 1, 0x80, 0xbf⟩ := by
  have hcode : v / 64 % 32 + 192 - 0xc0 = v / 64 := by omega
  have hrange : 0xc2 ≤ v / 64 % 32 + 192 ∧ v / 64 % 32 + 192 ≤ 0xdf := by omega
  simp [start?, hrange, hcode]

/-- The first of three bytes. The range of the second one keeps out what two bytes would do for, and the
surrogates. -/
theorem start?_three (hlow : 0x800 ≤ v) (hhigh : v ≤ 0xffff) (hv : v < 0xd800 ∨ 0xdfff < v) :
    ∃ low high, start? (v / 4096 % 16 + 224) = some ⟨v / 4096, 2, low, high⟩ ∧
      low ≤ v / 64 % 64 + 128 ∧ v / 64 % 64 + 128 ≤ high := by
  by_cases hfirst : v / 4096 = 0
  · rw [hfirst]
    exact ⟨0xa0, 0xbf, rfl, by omega, by omega⟩
  by_cases hlast : v / 4096 = 13
  · rw [hlast]
    exact ⟨0x80, 0x9f, rfl, by omega, by omega⟩
  refine ⟨0x80, 0xbf, ?_, by omega, by omega⟩
  obtain ⟨n, hn⟩ : ∃ n, v / 4096 % 16 + 224 = n := ⟨_, rfl⟩
  have hcode : n - 0xe0 = v / 4096 := by omega
  have hrange : 0xe1 ≤ n ∧ n ≤ 0xef := by omega
  have htwo : ¬ n ≤ 0xdf := by omega
  have hne : n ≠ 0xe0 ∧ n ≠ 0xed := by omega
  simp [hn, start?, htwo, hne, hrange, hcode]

/-- The first of four bytes. The range of the second one keeps out what three bytes would do for, and what
is no character. -/
theorem start?_four (hlow : 0x10000 ≤ v) (hhigh : v ≤ 0x10ffff) :
    ∃ low high, start? (v / 262144 % 8 + 240) = some ⟨v / 262144, 3, low, high⟩ ∧
      low ≤ v / 4096 % 64 + 128 ∧ v / 4096 % 64 + 128 ≤ high := by
  by_cases hfirst : v / 262144 = 0
  · rw [hfirst]
    exact ⟨0x90, 0xbf, rfl, by omega, by omega⟩
  by_cases hlast : v / 262144 = 4
  · rw [hlast]
    exact ⟨0x80, 0x8f, rfl, by omega, by omega⟩
  refine ⟨0x80, 0xbf, ?_, by omega, by omega⟩
  obtain ⟨n, hn⟩ : ∃ n, v / 262144 % 8 + 240 = n := ⟨_, rfl⟩
  have hcode : n - 0xf0 = v / 262144 := by omega
  have hrange : 0xf1 ≤ n ∧ n ≤ 0xf3 := by omega
  have hthree : ¬ n ≤ 0xef := by omega
  have htwo : ¬ n ≤ 0xdf := by omega
  have hne : n ≠ 0xe0 ∧ n ≠ 0xed ∧ n ≠ 0xf0 := by omega
  simp [hn, start?, htwo, hthree, hne, hrange, hcode]

/-- A character is read from its bytes, whatever follows them. -/
theorem decodeFrom_utf8EncodeChar (c : Char) (bs : List UInt8) :
    decodeFrom none (String.utf8EncodeChar c ++ bs) = c :: decodeFrom none bs := by
  have hrange : c.toNat < 0xd800 ∨ 0xdfff < c.toNat ∧ c.toNat < 0x110000 := c.valid
  have hc : Char.ofNat c.toNat = c := Char.ofNat_toNat c
  have hval : c.val.toNat = c.toNat := rfl
  rw [String.utf8EncodeChar, hval]
  generalize c.toNat = v at *
  -- The code decides how many bytes there are.
  by_cases hone : v ≤ 0x7f
  · have hlow : v < 0x80 := by omega
    have hb : (UInt8.ofNat v).toNat = v := UInt8.toNat_ofNat_of_lt' (Nat.lt_trans hlow (by decide))
    simp only [if_pos hone, List.singleton_append, decodeFrom, fresh, hb, if_pos hlow, hc]
  rw [if_neg hone]
  by_cases htwo : v ≤ 0x7ff
  · have hcode : v / 64 * 64 + (v % 64 + 128 - 128) = v := by omega
    rw [if_pos htwo, List.cons_append, decodeFrom_start (by omega) (by omega) (start?_two (by omega) htwo),
      List.singleton_append, decodeFrom_last (by omega) (by omega) (by omega), hcode, hc]
  rw [if_neg htwo]
  by_cases hthree : v ≤ 0xffff
  · obtain ⟨low, high, hstart, hlow, hhigh⟩ := start?_three (v := v) (by omega) hthree (by omega)
    have hcode : (v / 4096 * 64 + (v / 64 % 64 + 128 - 128)) * 64 + (v % 64 + 128 - 128) = v := by omega
    rw [if_pos hthree, List.cons_append, decodeFrom_start (by omega) (by omega) hstart, List.cons_append,
      decodeFrom_more hlow hhigh (by omega), List.singleton_append,
      decodeFrom_last (by omega) (by omega) (by omega), hcode, hc]
  · obtain ⟨low, high, hstart, hlow, hhigh⟩ := start?_four (v := v) (by omega) (by omega)
    have hcode : ((v / 262144 * 64 + (v / 4096 % 64 + 128 - 128)) * 64 + (v / 64 % 64 + 128 - 128)) * 64 +
        (v % 64 + 128 - 128) = v := by omega
    rw [if_neg hthree, List.cons_append, decodeFrom_start (by omega) (by omega) hstart, List.cons_append,
      decodeFrom_more hlow hhigh (by omega), List.cons_append,
      decodeFrom_more (by omega) (by omega) (by omega), List.singleton_append,
      decodeFrom_last (by omega) (by omega) (by omega), hcode, hc]

/-- UTF-8 reads back. -/
theorem decodeUtf8_encoded (cs : List Char) : decodeUtf8 (cs.flatMap String.utf8EncodeChar) = cs := by
  induction cs with
  | nil => rfl
  | cons c cs ih =>
    rw [decodeUtf8, List.flatMap_cons, decodeFrom_utf8EncodeChar, ← decodeUtf8, ih]

end Utf8

/-! ### Percent signs

Which texts write given bytes. Those that an encoder makes are only some of them: it may write any byte with a
percent sign, and the digits in either case. -/

/-- A character that stands for itself whatever part of a URL it is in. -/
def isUnreserved (c : Char) : Bool := c.isAlphanum || c == '-' || c == '.' || c == '_' || c == '~'

/-- A character that may stand in a text with percent signs. -/
def isPercentCharacter (c : Char) : Bool := c == '%' || isUnreserved c

/-- Whether a text writes bytes: each that is the code of a character which stands for itself by that
character or by a percent sign and its two digits in base 16, and each other one by a percent sign and the
digits. The digits may be small or capital. -/
inductive IsPercentCoding : List UInt8 → List Char → Prop
  | nil : IsPercentCoding [] []
  | plain {c : Char} {bs : List UInt8} {cs : List Char} : isUnreserved c → IsPercentCoding bs cs →
      IsPercentCoding (UInt8.ofNat c.toNat :: bs) (c :: cs)
  | coded {b : UInt8} {high low : Char} {bs : List UInt8} {cs : List Char} :
      hexValue? high = some (b.toNat / 16) → hexValue? low = some (b.toNat % 16) →
      IsPercentCoding bs cs → IsPercentCoding (b :: bs) ('%' :: high :: low :: cs)

variable {c : Char} {bs : List UInt8} {cs : List Char}

/-- Bytes with no more percent signs than they need. -/
def percentEncode (bs : List UInt8) : List Char :=
  bs.flatMap fun b =>
    if isUnreserved (Char.ofNat b.toNat) then [Char.ofNat b.toNat] else '%' :: hex 2 b.toNat

theorem hexValue?_hexDigit {n : Nat} (h : n < 16) : hexValue? (hexDigit n) = some n := by
  have hdigits : ∀ n < 16, hexValue? (hexDigit n) = some n := by decide
  exact hdigits n h

theorem toNat_character (b : UInt8) : (Char.ofNat b.toNat).toNat = b.toNat := by
  have hb : b.toNat < 256 := b.toNat_lt
  have hvalid : b.toNat.isValidChar := .inl (by omega)
  rw [Char.ofNat, dif_pos hvalid]
  rfl

/-- Any bytes can be written. -/
theorem isPercentCoding_percentEncode (bs : List UInt8) : IsPercentCoding bs (percentEncode bs) := by
  induction bs with
  | nil => exact .nil
  | cons b bs ih =>
    have hb : b.toNat < 256 := b.toNat_lt
    rw [percentEncode, List.flatMap_cons, ← percentEncode]
    by_cases hplain : isUnreserved (Char.ofNat b.toNat) = true
    · have hcoding := IsPercentCoding.plain hplain ih
      rw [toNat_character, UInt8.ofNat_toNat] at hcoding
      rw [if_pos hplain]
      exact hcoding
    · have hhigh : hexValue? (hexDigit (b.toNat / 16 % 16)) = some (b.toNat / 16) := by
        rw [hexValue?_hexDigit (Nat.mod_lt _ (by decide)), Nat.mod_eq_of_lt (by omega)]
      have hlow : hexValue? (hexDigit (b.toNat % 16)) = some (b.toNat % 16) :=
        hexValue?_hexDigit (Nat.mod_lt _ (by decide))
      rw [if_neg hplain]
      exact .coded hhigh hlow ih

theorem isVisible_of_isPercentCharacter (h : isPercentCharacter c) : isVisible c := by
  simp only [isPercentCharacter, isUnreserved, Bool.or_eq_true, beq_iff_eq] at h
  rcases h with rfl | (((halphanum | rfl) | rfl) | rfl) | rfl
  case inr.inl.inl.inl.inl => exact isVisible_of_isAlphanum halphanum
  all_goals decide

theorem isUnreserved_of_hexValue? {n : Nat} (h : hexValue? c = some n) : isUnreserved c := by
  have halphanum : c.isAlphanum := isAlphanum_of_isHexDigit (by rw [isHexDigit, h]; rfl)
  simp [isUnreserved, halphanum]

theorem IsPercentCoding.characters (h : IsPercentCoding bs cs) : ∀ c ∈ cs, isPercentCharacter c := by
  have hunreserved : ∀ c, isUnreserved c → isPercentCharacter c := fun c hc => by
    simp [isPercentCharacter, hc]
  induction h with
  | nil => exact nofun
  | plain hc _ ih => exact List.forall_mem_cons.mpr ⟨hunreserved _ hc, ih⟩
  | coded hhigh hlow _ ih =>
    have hhigh := hunreserved _ (isUnreserved_of_hexValue? hhigh)
    have hlow := hunreserved _ (isUnreserved_of_hexValue? hlow)
    simp only [List.forall_mem_cons]
    exact ⟨rfl, hhigh, hlow, ih⟩

theorem percentBytes_cons (hc : c ≠ '%') (cs : List Char) :
    percentBytes (c :: cs) = UInt8.ofNat c.toNat :: percentBytes cs := by
  rw [percentBytes]
  rintro _ _ _ rfl
  exact absurd rfl hc

/-- The bytes that were written are read. -/
theorem IsPercentCoding.percentBytes_eq (h : IsPercentCoding bs cs) : percentBytes cs = bs := by
  induction h with
  | nil => rfl
  | @plain c _ _ hc _ ih =>
    have hne : c ≠ '%' := by
      rintro rfl
      cases hc
    rw [percentBytes_cons hne, ih]
  | @coded b _ _ _ _ hhigh hlow _ ih =>
    have hb : b.toNat / 16 * 16 + b.toNat % 16 = b.toNat := Nat.div_add_mod' _ _
    simp only [percentBytes, hhigh, hlow, hb, ih, UInt8.ofNat_toNat]

/-- A text in ASCII is decoded as one stretch. -/
theorem percentDecodeFrom_of_isVisible (h : ∀ c ∈ cs, isVisible c) (stretch : List Char) :
    percentDecodeFrom stretch cs = decodeUtf8 (percentBytes (stretch.reverse ++ cs)) := by
  induction cs generalizing stretch with
  | nil => rw [percentDecodeFrom, List.append_nil]
  | cons c cs ih =>
    obtain ⟨hc, hcs⟩ := List.forall_mem_cons.mp h
    have hascii : c.toNat < 0x80 := Nat.lt_succ_of_lt (isVisible_iff.mp hc).2
    rw [percentDecodeFrom, if_pos hascii, ih hcs, List.reverse_cons, List.append_assoc]
    rfl

/-- The bytes of a text that was written with percent signs are the text again. -/
theorem percentDecode_coding {text : List Char}
    (h : IsPercentCoding (text.flatMap String.utf8EncodeChar) cs) : percentDecode cs = text := by
  have hvisible : ∀ c ∈ cs, isVisible c := fun c hc => isVisible_of_isPercentCharacter (h.characters c hc)
  rw [percentDecode, percentDecodeFrom_of_isVisible hvisible, List.reverse_nil, List.nil_append,
    h.percentBytes_eq, decodeUtf8_encoded]

example : percentEncode ("ü/é.".toList.flatMap String.utf8EncodeChar) = "%c3%bc%2f%c3%a9.".toList := by decide

end NamingDirectory.Text
