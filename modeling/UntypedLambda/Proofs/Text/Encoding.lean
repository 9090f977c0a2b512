import Mathlib.Data.List.TakeWhile
import Mathlib.Data.UInt
import UntypedLambda.Text.Utf8

/-!
# Encoding and decoding

A text is read back from its bytes.  A character is encoded in one to four
bytes, and the decoder takes exactly these: it knows by the first byte how many
there are, and the second one is in the range that the first byte allows, which
is what keeps overlong forms, surrogates and code points that are too large
apart from characters.

## Main results

* `decodeFrom_lead`: a first byte is taken together with the bytes that go on its
  character.
* `decodeFrom_encodeChar`: a character is read back from its bytes.
* `decode_encode`: a text is read back from its bytes.
-/

namespace UntypedLambda.Text.Utf8

/-- The bytes of a text. -/
def encode (cs : List Char) : List UInt8 := cs.flatMap String.utf8EncodeChar

/-! ## Bytes as numbers -/

theorem not_lt_of_toNat {b : UInt8} (h : 0x80 ≤ b.toNat) : ¬ b < 0x80 := by
  rw [UInt8.lt_iff_toNat_lt]
  show ¬ b.toNat < 128
  omega

theorem following?_eq (b : UInt8) :
    following? b =
      if b.toNat < 0xC2 then none
      else if b.toNat < 0xE0 then some 1
      else if b.toNat < 0xF0 then some 2
      else if b.toNat < 0xF5 then some 3
      else none := by
  simp only [following?, UInt8.lt_iff_toNat_lt]
  rfl

theorem isContinuation_of_toNat {b : UInt8} (hlow : 0x80 ≤ b.toNat)
    (hhigh : b.toNat ≤ 0xBF) : isContinuation b = true := by
  have hlt : b.toNat < 0xC0 := by omega
  simp only [isContinuation, Bool.and_eq_true, decide_eq_true_eq,
    UInt8.le_iff_toNat_le, UInt8.lt_iff_toNat_lt]
  exact ⟨hlow, hlt⟩

/-- A continuation byte is a second byte, unless it makes an overlong form, a
surrogate, or a code point that is too large of the first byte. -/
theorem mem_secondRange {b second : UInt8} (hlow : 0x80 ≤ second.toNat)
    (hhigh : second.toNat ≤ 0xBF) (hE0 : b.toNat = 0xE0 → 0xA0 ≤ second.toNat)
    (hED : b.toNat = 0xED → second.toNat ≤ 0x9F)
    (hF0 : b.toNat = 0xF0 → 0x90 ≤ second.toNat)
    (hF4 : b.toNat = 0xF4 → second.toNat ≤ 0x8F) :
    (secondRange b).1 ≤ second ∧ second ≤ (secondRange b).2 := by
  simp only [UInt8.le_iff_toNat_le]
  unfold secondRange
  split_ifs with h1 h2 h3 h4
  · subst h1
    exact ⟨hE0 rfl, hhigh⟩
  · subst h2
    exact ⟨hlow, hED rfl⟩
  · subst h3
    exact ⟨hF0 rfl, hhigh⟩
  · subst h4
    exact ⟨hlow, hF4 rfl⟩
  · exact ⟨hlow, hhigh⟩

/-! ## Characters -/

/-- A first byte is taken together with the bytes that go on its character. -/
theorem decodeFrom_lead {b second : UInt8} {others rest : List UInt8} (pos : Nat)
    (hb : 0x80 ≤ b.toNat) (hfollow : following? b = some (others.length + 1))
    (hsecond : (secondRange b).1 ≤ second ∧ second ≤ (secondRange b).2)
    (hothers : ∀ o ∈ others, isContinuation o = true) :
    decodeFrom pos (b :: second :: (others ++ rest)) =
      (decodeFrom (pos + (others.length + 2)) rest).map
        (Char.ofNat (codePoint b (second :: others)) :: ·) := by
  have htake : (others ++ rest).take others.length = others := List.take_left
  have haccepted : accepted b (others.length + 1) (second :: (others ++ rest)) =
      others.length + 1 := by
    have hall : others.takeWhile isContinuation = others :=
      List.takeWhile_eq_self_iff.2 hothers
    simp only [accepted, hsecond, Bool.and_self, decide_true, if_true,
      Nat.add_sub_cancel, htake, hall]
    omega
  have hpos : pos + 1 + (others.length + 1) = pos + (others.length + 2) := by
    omega
  rw [decodeFrom, if_neg (not_lt_of_toNat hb), hfollow]
  simp only [haccepted, if_true, List.drop_succ_cons, List.drop_left,
    List.take_succ_cons, htake, hpos]

section

variable {v : Nat} {a b c d : UInt8} (pos : Nat) (rest : List UInt8)

theorem decodeFrom_one (ha : a.toNat = v) (hhigh : v ≤ 0x7F) :
    decodeFrom pos (a :: rest) =
      (decodeFrom (pos + 1) rest).map (Char.ofNat v :: ·) := by
  have hlt : a < 0x80 := by
    rw [UInt8.lt_iff_toNat_lt, ha]
    show v < 128
    omega
  rw [decodeFrom, if_pos hlt, ha]

theorem decodeFrom_two (ha : a.toNat = v / 64 % 32 + 192)
    (hb : b.toNat = v % 64 + 128) (hlow : 0x7F < v) (hhigh : v ≤ 0x7FF) :
    decodeFrom pos (a :: b :: rest) =
      (decodeFrom (pos + 2) rest).map (Char.ofNat v :: ·) := by
  have hfollow : following? a = some 1 := by
    rw [following?_eq, if_neg (by omega), if_pos (by omega)]
  have hsecond : (secondRange a).1 ≤ b ∧ b ≤ (secondRange a).2 := by
    apply mem_secondRange <;> omega
  have hpoint : codePoint a [b] = v := by
    simp only [codePoint, List.length_singleton, List.foldl_cons, List.foldl_nil,
      ha, hb]
    omega
  have hlead := @decodeFrom_lead a b [] rest pos (by omega) hfollow hsecond
    (by simp)
  rwa [hpoint] at hlead

theorem decodeFrom_three (ha : a.toNat = v / 4096 % 16 + 224)
    (hb : b.toNat = v / 64 % 64 + 128) (hc : c.toNat = v % 64 + 128)
    (hlow : 0x7FF < v) (hhigh : v ≤ 0xFFFF)
    (hsurrogate : v < 0xD800 ∨ 0xDFFF < v) :
    decodeFrom pos (a :: b :: c :: rest) =
      (decodeFrom (pos + 3) rest).map (Char.ofNat v :: ·) := by
  have hfollow : following? a = some 2 := by
    rw [following?_eq, if_neg (by omega), if_neg (by omega), if_pos (by omega)]
  have hsecond : (secondRange a).1 ≤ b ∧ b ≤ (secondRange a).2 := by
    apply mem_secondRange <;> omega
  have hothers : ∀ o ∈ [c], isContinuation o = true := by
    rw [List.forall_mem_singleton]
    exact isContinuation_of_toNat (by omega) (by omega)
  have hpoint : codePoint a [b, c] = v := by
    simp only [codePoint, List.length_cons, List.length_nil, List.foldl_cons,
      List.foldl_nil, ha, hb, hc]
    omega
  have hlead := @decodeFrom_lead a b [c] rest pos (by omega) hfollow hsecond
    hothers
  rwa [hpoint] at hlead

theorem decodeFrom_four (ha : a.toNat = v / 262144 % 8 + 240)
    (hb : b.toNat = v / 4096 % 64 + 128) (hc : c.toNat = v / 64 % 64 + 128)
    (hd : d.toNat = v % 64 + 128) (hlow : 0xFFFF < v) (hhigh : v < 0x110000) :
    decodeFrom pos (a :: b :: c :: d :: rest) =
      (decodeFrom (pos + 4) rest).map (Char.ofNat v :: ·) := by
  have hfollow : following? a = some 3 := by
    rw [following?_eq, if_neg (by omega), if_neg (by omega), if_neg (by omega),
      if_pos (by omega)]
  have hsecond : (secondRange a).1 ≤ b ∧ b ≤ (secondRange a).2 := by
    apply mem_secondRange <;> omega
  have hothers : ∀ o ∈ [c, d], isContinuation o = true := by
    rw [List.forall_mem_cons, List.forall_mem_singleton]
    exact ⟨isContinuation_of_toNat (by omega) (by omega),
      isContinuation_of_toNat (by omega) (by omega)⟩
  have hpoint : codePoint a [b, c, d] = v := by
    simp only [codePoint, List.length_cons, List.length_nil, List.foldl_cons,
      List.foldl_nil, ha, hb, hc, hd]
    omega
  have hlead := @decodeFrom_lead a b [c, d] rest pos (by omega) hfollow hsecond
    hothers
  rwa [hpoint] at hlead

end

/-- A character is read back from its bytes. -/
theorem decodeFrom_encodeChar (pos : Nat) (c : Char) (rest : List UInt8) :
    decodeFrom pos (String.utf8EncodeChar c ++ rest) =
      (decodeFrom (pos + (String.utf8EncodeChar c).length) rest).map (c :: ·) := by
  have hc : Char.ofNat c.val.toNat = c := Char.ofNat_toNat c
  have hbound : c.val.toNat < 0xD800 ∨
      0xDFFF < c.val.toNat ∧ c.val.toNat < 0x110000 := c.valid
  unfold String.utf8EncodeChar
  dsimp only
  generalize c.val.toNat = v at hc hbound
  subst hc
  have hbyte : ∀ {n : Nat}, n < 256 → (UInt8.ofNat n).toNat = n :=
    UInt8.toNat_ofNat_of_lt'
  split_ifs with h1 h2 h3
  · exact decodeFrom_one pos rest (hbyte (by omega)) h1
  · exact decodeFrom_two pos rest (hbyte (by omega)) (hbyte (by omega))
      (by omega) h2
  · exact decodeFrom_three pos rest (hbyte (by omega)) (hbyte (by omega))
      (hbyte (by omega)) (by omega) h3 (hbound.imp_right And.left)
  · exact decodeFrom_four pos rest (hbyte (by omega)) (hbyte (by omega))
      (hbyte (by omega)) (hbyte (by omega)) (by omega) (by omega)

/-- **A text is read back from its bytes.** -/
theorem decode_encode (cs : List Char) : decode (encode cs) = .ok cs := by
  rw [decode_eq_ok_iff]
  generalize 0 = pos
  induction cs generalizing pos with
  | nil =>
      show decodeFrom pos [] = .ok []
      rw [decodeFrom]
  | cons c cs ih =>
      rw [encode, List.flatMap_cons, decodeFrom_encodeChar]
      show (decodeFrom _ (encode cs)).map _ = _
      rw [ih]
      rfl

end UntypedLambda.Text.Utf8
