import Nibble.Proofs.Outcome
import Nibble.Text.Utf8

/-! # Decoding

The bytes of a text are decoded as the text. The bounds on the second byte of a sequence keep out
only what no character is written as.
-/

namespace Nibble.Text.Utf8

theorem leadOf_two {n : Nat} (h : 0xC2 ≤ n ∧ n ≤ 0xDF) :
    leadOf n = some (1, 0x80, 0xBF, n - 0xC0) := by
  simp [leadOf, h]

theorem leadOf_three {n b : Nat} (hn : 0xE0 ≤ n ∧ n ≤ 0xEF) (hb : 0x80 ≤ b ∧ b ≤ 0xBF)
    (hshort : n = 0xE0 → 0xA0 ≤ b) (hsurrogate : n = 0xED → b ≤ 0x9F) :
    ∃ least greatest, leadOf n = some (2, least, greatest, n - 0xE0) ∧ least ≤ b ∧
      b ≤ greatest := by
  have htwo : ¬ n ≤ 0xDF := by omega
  by_cases he0 : n = 0xE0
  · subst he0
    exact ⟨0xA0, 0xBF, rfl, hshort rfl, hb.2⟩
  · by_cases hed : n = 0xED
    · subst hed
      exact ⟨0x80, 0x9F, rfl, hb.1, hsurrogate rfl⟩
    · have he1 : 0xE1 ≤ n := by omega
      exact ⟨0x80, 0xBF, by simp [leadOf, htwo, he0, hed, he1, hn.2], hb⟩

theorem leadOf_four {n b : Nat} (hn : 0xF0 ≤ n ∧ n ≤ 0xF4) (hb : 0x80 ≤ b ∧ b ≤ 0xBF)
    (hshort : n = 0xF0 → 0x90 ≤ b) (hgreat : n = 0xF4 → b ≤ 0x8F) :
    ∃ least greatest, leadOf n = some (3, least, greatest, n - 0xF0) ∧ least ≤ b ∧
      b ≤ greatest := by
  have htwo : ¬ n ≤ 0xDF := by omega
  have hthree : ¬ n ≤ 0xEF := by omega
  have he0 : n ≠ 0xE0 := by omega
  have hed : n ≠ 0xED := by omega
  by_cases hf0 : n = 0xF0
  · subst hf0
    exact ⟨0x90, 0xBF, rfl, hshort rfl, hb.2⟩
  · by_cases hf4 : n = 0xF4
    · subst hf4
      exact ⟨0x80, 0x8F, rfl, hb.1, hgreat rfl⟩
    · have hf1 : 0xF1 ≤ n := by omega
      have hf3 : n ≤ 0xF3 := by omega
      exact ⟨0x80, 0xBF, by simp [leadOf, htwo, hthree, he0, hed, hf0, hf4, hf1, hf3], hb⟩

section Steps

variable {d d' : Decoder} {p : Pending} {b : UInt8} {bs : List UInt8} {chars : Array Char}
  {position : Nat}

theorem foldlM_cons_of_step (h : d.step b = .ok d') :
    (b :: bs).foldlM Decoder.step d = bs.foldlM Decoder.step d' := by
  rw [List.foldlM_cons, h]
  rfl

theorem step_of_ascii (h : b.toNat < 0x80) : Decoder.step ⟨chars, position, none⟩ b =
    .ok ⟨chars.push (Char.ofNat b.toNat), position + 1, none⟩ := by
  simp [Decoder.step, Decoder.start, h]

theorem step_of_lead {owed least greatest value : Nat} (h : 0x80 ≤ b.toNat)
    (hlead : leadOf b.toNat = some (owed, least, greatest, value)) :
    Decoder.step ⟨chars, position, none⟩ b =
      .ok ⟨chars, position + 1, some ⟨position, b, 1, owed, least, greatest, value⟩⟩ := by
  simp [Decoder.step, Decoder.start, Nat.not_lt.mpr h, hlead]

theorem step_of_last (hp : p.owed = 1) (hb : p.least ≤ b.toNat ∧ b.toNat ≤ p.greatest) :
    Decoder.step ⟨chars, position, some p⟩ b =
      .ok ⟨chars.push (Char.ofNat (64 * p.value + (b.toNat - 0x80))), position + 1, none⟩ := by
  simp [Decoder.step, Decoder.continue, hp, hb]

theorem step_of_more (hp : p.owed ≠ 1) (hb : p.least ≤ b.toNat ∧ b.toNat ≤ p.greatest) :
    Decoder.step ⟨chars, position, some p⟩ b =
      .ok ⟨chars, position + 1, some ⟨p.start, p.lead, p.seen + 1, p.owed - 1, 0x80, 0xBF,
        64 * p.value + (b.toNat - 0x80)⟩⟩ := by
  simp [Decoder.step, Decoder.continue, hp, hb]

theorem toNat_tail (n : Nat) : (UInt8.ofNat (n % 64 + 128)).toNat = n % 64 + 128 := by
  rw [UInt8.toNat_ofNat']
  omega

theorem foldlM_step_two {v : Nat} (h : 0x80 ≤ v ∧ v ≤ 0x7FF) :
    [UInt8.ofNat (v / 64 % 32 + 192), UInt8.ofNat (v % 64 + 128)].foldlM Decoder.step
      ⟨chars, position, none⟩ = .ok ⟨chars.push (Char.ofNat v), position + 2, none⟩ := by
  have hb : (UInt8.ofNat (v / 64 % 32 + 192)).toNat = v / 64 + 192 := by
    rw [UInt8.toNat_ofNat']
    omega
  have hlead := leadOf_two (n := v / 64 + 192) (by omega)
  rw [← hb] at hlead
  have hlast := toNat_tail v
  rw [foldlM_cons_of_step (step_of_lead (by omega) hlead),
    foldlM_cons_of_step (step_of_last rfl (by dsimp only; omega))]
  have hv : 64 * ((UInt8.ofNat (v / 64 % 32 + 192)).toNat - 0xC0) +
      ((UInt8.ofNat (v % 64 + 128)).toNat - 0x80) = v := by omega
  rw [hv]
  rfl

theorem foldlM_step_three {v : Nat} (h : 0x800 ≤ v ∧ v ≤ 0xFFFF) (hv : v < 0xD800 ∨ 0xDFFF < v) :
    [UInt8.ofNat (v / 4096 % 16 + 224), UInt8.ofNat (v / 64 % 64 + 128),
      UInt8.ofNat (v % 64 + 128)].foldlM Decoder.step ⟨chars, position, none⟩ =
        .ok ⟨chars.push (Char.ofNat v), position + 3, none⟩ := by
  have hb : (UInt8.ofNat (v / 4096 % 16 + 224)).toNat = v / 4096 + 224 := by
    rw [UInt8.toNat_ofNat']
    omega
  have hmore := toNat_tail (v / 64)
  have hlast := toNat_tail v
  obtain ⟨least, greatest, hlead, hleast, hgreatest⟩ :=
    leadOf_three (n := v / 4096 + 224) (b := v / 64 % 64 + 128) (by omega) (by omega) (by omega)
      (by omega)
  rw [← hb] at hlead
  rw [foldlM_cons_of_step (step_of_lead (by omega) hlead),
    foldlM_cons_of_step (step_of_more (by simp) (by dsimp only; omega)),
    foldlM_cons_of_step (step_of_last rfl (by dsimp only; omega))]
  have hv : 64 * (64 * ((UInt8.ofNat (v / 4096 % 16 + 224)).toNat - 0xE0) +
      ((UInt8.ofNat (v / 64 % 64 + 128)).toNat - 0x80)) +
      ((UInt8.ofNat (v % 64 + 128)).toNat - 0x80) = v := by omega
  dsimp only
  rw [hv]
  rfl

theorem foldlM_step_four {v : Nat} (h : 0x10000 ≤ v ∧ v < 0x110000) :
    [UInt8.ofNat (v / 262144 % 8 + 240), UInt8.ofNat (v / 4096 % 64 + 128),
      UInt8.ofNat (v / 64 % 64 + 128), UInt8.ofNat (v % 64 + 128)].foldlM Decoder.step
        ⟨chars, position, none⟩ = .ok ⟨chars.push (Char.ofNat v), position + 4, none⟩ := by
  have hb : (UInt8.ofNat (v / 262144 % 8 + 240)).toNat = v / 262144 + 240 := by
    rw [UInt8.toNat_ofNat']
    omega
  have hsecond := toNat_tail (v / 4096)
  have hmore := toNat_tail (v / 64)
  have hlast := toNat_tail v
  obtain ⟨least, greatest, hlead, hleast, hgreatest⟩ :=
    leadOf_four (n := v / 262144 + 240) (b := v / 4096 % 64 + 128) (by omega) (by omega)
      (by omega) (by omega)
  rw [← hb] at hlead
  rw [foldlM_cons_of_step (step_of_lead (by omega) hlead),
    foldlM_cons_of_step (step_of_more (by simp) (by dsimp only; omega)),
    foldlM_cons_of_step (step_of_more (by simp) (by dsimp only; omega)),
    foldlM_cons_of_step (step_of_last rfl (by dsimp only; omega))]
  have hv : 64 * (64 * (64 * ((UInt8.ofNat (v / 262144 % 8 + 240)).toNat - 0xF0) +
      ((UInt8.ofNat (v / 4096 % 64 + 128)).toNat - 0x80)) +
      ((UInt8.ofNat (v / 64 % 64 + 128)).toNat - 0x80)) +
      ((UInt8.ofNat (v % 64 + 128)).toNat - 0x80) = v := by omega
  dsimp only
  rw [hv]
  rfl

theorem foldlM_step_utf8EncodeChar (c : Char) (chars : Array Char) (position : Nat) :
    ∃ position', (String.utf8EncodeChar c).foldlM Decoder.step ⟨chars, position, none⟩ =
      .ok ⟨chars.push c, position', none⟩ := by
  obtain ⟨v, hv⟩ : ∃ v, c.val.toNat = v := ⟨_, rfl⟩
  have hc : Char.ofNat v = c := hv ▸ Char.ofNat_toNat c
  have hvalid : v < 0xD800 ∨ 0xDFFF < v ∧ v < 0x110000 := hv ▸ c.valid
  rw [String.utf8EncodeChar, hv]
  split
  next h1 =>
    have hb : (UInt8.ofNat v).toNat = v := by
      rw [UInt8.toNat_ofNat']
      omega
    rw [foldlM_cons_of_step (step_of_ascii (by omega)), hb, hc]
    exact ⟨_, rfl⟩
  next h1 =>
    split
    next h2 => exact ⟨_, hc ▸ foldlM_step_two ⟨by omega, h2⟩⟩
    next h2 =>
      split
      next h3 => exact ⟨_, hc ▸ foldlM_step_three ⟨by omega, h3⟩ (by omega)⟩
      next h3 => exact ⟨_, hc ▸ foldlM_step_four ⟨by omega, by omega⟩⟩

theorem foldlM_step_flatMap (s : List Char) (chars : Array Char) (position : Nat) :
    ∃ position', (s.flatMap String.utf8EncodeChar).foldlM Decoder.step ⟨chars, position, none⟩ =
      .ok ⟨chars ++ s, position', none⟩ := by
  induction s generalizing chars position with
  | nil => exact ⟨position, by simp; rfl⟩
  | cons c s ih =>
    obtain ⟨between, hc⟩ := foldlM_step_utf8EncodeChar c chars position
    obtain ⟨position', hs⟩ := ih (chars.push c) between
    refine ⟨position', ?_⟩
    have happend : chars ++ c :: s = chars.push c ++ s := by simp
    rw [List.flatMap_cons, List.foldlM_append, hc, happend]
    exact hs

end Steps

theorem toList_loop (bytes : ByteArray) (i : Nat) (read : List UInt8) :
    ByteArray.toList.loop bytes i read = read.reverse ++ bytes.data.toList.drop i := by
  fun_induction ByteArray.toList.loop bytes i read with
  | case1 i read h ih =>
    have hi : i < bytes.data.toList.length := h
    have hget : bytes.get! i = bytes.data.toList[i] := getElem!_pos bytes.data i h
    rw [ih, List.drop_eq_getElem_cons hi, List.reverse_cons, List.append_assoc, hget]
    rfl
  | case2 i read h =>
    have hi : bytes.data.toList.length ≤ i := Nat.not_lt.mp h
    rw [List.drop_eq_nil_of_le hi, List.append_nil]

theorem encode_eq_flatMap (s : String) : encode s = s.toList.flatMap String.utf8EncodeChar := by
  have hbytes : s.toUTF8 = (s.toList.flatMap String.utf8EncodeChar).toByteArray := by
    rw [String.toUTF8_eq_toByteArray, ← String.utf8Encode_toList]
    rfl
  rw [encode, hbytes, ByteArray.toList, toList_loop, List.toList_data_toByteArray]
  rfl

/-- The bytes of a text are decoded as the text. -/
theorem decode_encode (s : String) : decode (encode s) = .ok s.toList := by
  obtain ⟨position, h⟩ := foldlM_step_flatMap s.toList #[] 0
  rw [decode, encode_eq_flatMap, h]
  simp [Decoder.finish, bind, Except.bind]

end Nibble.Text.Utf8
