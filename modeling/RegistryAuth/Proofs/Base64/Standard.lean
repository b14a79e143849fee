import RegistryAuth.Credential
import RegistryAuth.Proofs.Base64.Decoding

/-!
# Base64 by its bits

`IsBase64` says which text is the base64 form of bytes, by the bits of both and not by the way it is
written. Bytes have one such form (`IsBase64.unique`), and it is the one that is written
(`isBase64_encode`). Main statement: it is what can be read (`decode_utf8_eq_ok_iff`).
-/

namespace RegistryAuth.Base64

/-- The bits of a number below `2 ^ width`, the highest first. -/
def bits : Nat → Nat → List Bool
  | 0, _ => []
  | width + 1, n => n.testBit width :: bits width n

/-- The alphabet of the standard. -/
def alphabet : String := "ABCDEFGHIJKLMNOPQRSTUVWXYZabcdefghijklmnopqrstuvwxyz0123456789+/"

/-- The letter for a value. -/
def letter (i : Fin 64) : Char := alphabet.toList.get (i.cast (by decide))

/-- The bits of letters by their values. -/
def letterBits (values : List (Fin 64)) : List Bool := values.flatMap fun i => bits 6 i.val

/-- The bits of bytes. -/
def byteBits (bytes : Bytes) : List Bool := bytes.flatMap fun b => bits 8 b.toNat

/-- Whether a text is the base64 form of bytes: letters of six bits each, in which the bits of the
bytes are followed by zeros that make up less than a letter, and then padding to a multiple of
four. -/
def IsBase64 (text : String) (bytes : Bytes) : Prop :=
  ∃ (values : List (Fin 64)) (zeros pads : Nat), zeros < 6 ∧ pads < 4 ∧
    letterBits values = byteBits bytes ++ List.replicate zeros false ∧
    (values.length + pads) % 4 = 0 ∧
    text.toList = values.map letter ++ List.replicate pads '='

/-! ## Bits -/

theorem length_bits (width n : Nat) : (bits width n).length = width := by
  induction width with
  | zero => rfl
  | succ width ih => rw [bits, List.length_cons, ih]

theorem bits_congr {width m n : Nat} (h : ∀ i < width, m.testBit i = n.testBit i) :
    bits width m = bits width n := by
  induction width with
  | zero => rfl
  | succ width ih =>
    rw [bits, bits, h width (Nat.lt_succ_self _), ih fun i hi => h i (Nat.lt_succ_of_lt hi)]

/-- The bits of a number put together from two are those of the one and then those of the other. -/
theorem bits_add (w v x : Nat) {y : Nat} (h : y < 2 ^ v) :
    bits (w + v) (2 ^ v * x + y) = bits w x ++ bits v y := by
  induction w with
  | zero =>
    rw [Nat.zero_add]
    refine bits_congr fun i hi => ?_
    rw [Nat.testBit_two_pow_mul_add x h, if_pos hi]
  | succ w ih =>
    rw [Nat.add_right_comm, bits, ih, bits, List.cons_append, Nat.testBit_two_pow_mul_add x h,
      if_neg (by omega), Nat.add_sub_cancel]

theorem bits_six_inj {i j : Fin 64} (h : bits 6 i.val = bits 6 j.val) : i = j := by
  have hv : ∀ i : Fin 64, (bits 6 i).foldl (fun (n : Nat) b => 2 * n + b.toNat) 0 = i.val := by
    decide
  exact Fin.ext ((hv i).symm.trans ((congrArg _ h).trans (hv j)))

theorem length_letterBits (values : List (Fin 64)) :
    (letterBits values).length = 6 * values.length := by
  induction values with
  | nil => rfl
  | cons i values ih =>
    rw [letterBits, List.flatMap_cons, List.length_append, length_bits, ← letterBits, ih,
      List.length_cons]
    omega

theorem length_byteBits (bytes : Bytes) : (byteBits bytes).length = 8 * bytes.length := by
  induction bytes with
  | nil => rfl
  | cons b bytes ih =>
    rw [byteBits, List.flatMap_cons, List.length_append, length_bits, ← byteBits, ih,
      List.length_cons]
    omega

theorem letterBits_inj {xs ys : List (Fin 64)} (h : letterBits xs = letterBits ys) : xs = ys := by
  induction xs generalizing ys with
  | nil =>
    have hl := congrArg List.length h
    rw [length_letterBits, length_letterBits, List.length_nil] at hl
    exact (List.eq_nil_of_length_eq_zero (by omega)).symm
  | cons i xs ih =>
    cases ys with
    | nil =>
      have hl := congrArg List.length h
      rw [length_letterBits, length_letterBits, List.length_nil, List.length_cons] at hl
      omega
    | cons j ys =>
      obtain ⟨hi, hxs⟩ := List.append_inj h (by rw [length_bits, length_bits])
      rw [bits_six_inj hi, ih hxs]

/-- Bytes have one base64 form. -/
theorem IsBase64.unique {s t : String} {bytes : Bytes} (hs : IsBase64 s bytes)
    (ht : IsBase64 t bytes) : s = t := by
  obtain ⟨xs, z, p, hz, hp, hb, hl, hs⟩ := hs
  obtain ⟨ys, z', p', hz', hp', hb', hl', ht⟩ := ht
  have hlen := congrArg List.length hb
  have hlen' := congrArg List.length hb'
  rw [length_letterBits, List.length_append, length_byteBits, List.length_replicate] at hlen hlen'
  obtain rfl : z = z' := by omega
  obtain rfl := letterBits_inj (hb.trans hb'.symm)
  obtain rfl : p = p' := by omega
  exact String.toList_inj.mp (hs.trans ht.symm)

/-! ## What is written -/

theorem bits_three (a b c : UInt8) :
    bits 24 (joined a b c) = bits 8 a.toNat ++ (bits 8 b.toNat ++ bits 8 c.toNat) := by
  have hb := b.toNat_lt
  have hc := c.toNat_lt
  rw [← bits_add 8 8 _ hc, ← bits_add 8 16 _ (by omega), joined]
  congr 1
  omega

theorem bits_digits (n : Nat) : bits 24 n =
    bits 6 (n / 262144) ++
      (bits 6 (n / 4096 % 64) ++ (bits 6 (n / 64 % 64) ++ bits 6 (n % 64))) := by
  rw [← bits_add 6 6 _ (by omega), ← bits_add 6 12 _ (by omega), ← bits_add 6 18 _ (by omega)]
  congr 1
  omega

/-- A lone byte at the end takes two letters, of which the second ends in four zeros. -/
theorem bits_one (a : UInt8) {n : Nat} (hn : n = a.toNat * 16) :
    bits 6 (n / 64) ++ bits 6 (n % 64) = bits 8 a.toNat ++ List.replicate 4 false := by
  have hzeros : bits 4 0 = List.replicate 4 false := by decide
  rw [← hzeros, ← bits_add 8 4 _ (by decide), ← bits_add 6 6 _ (by omega)]
  congr 1
  omega

/-- Two bytes at the end take three letters, of which the third ends in two zeros. -/
theorem bits_two (a b : UInt8) {n : Nat} (hn : n = (a.toNat * 256 + b.toNat) * 4) :
    bits 6 (n / 4096) ++ (bits 6 (n / 64 % 64) ++ bits 6 (n % 64)) =
      bits 8 a.toNat ++ (bits 8 b.toNat ++ List.replicate 2 false) := by
  have hb := b.toNat_lt
  have hzeros : bits 2 0 = List.replicate 2 false := by decide
  rw [← hzeros, ← bits_add 8 2 _ (by decide), ← bits_add 8 10 _ (by omega),
    ← bits_add 6 6 _ (by omega), ← bits_add 6 12 _ (by omega)]
  congr 1
  omega

theorem char_symbol {n : Nat} (h : n < 64) : Char.ofNat (symbol n).toNat = letter ⟨n, h⟩ := by
  have hs : ∀ i : Fin 64, Char.ofNat (symbol i).toNat = letter i := by
    decide +kernel
  exact hs ⟨n, h⟩

theorem char_pad : Char.ofNat pad.toNat = '=' := by decide

theorem isBase64_encode (bytes : Bytes) :
    IsBase64 (Credential.asciiText (encode bytes)) bytes := by
  fun_induction encode bytes with
  | case1 => exact ⟨[], 0, 0, by decide, by decide, rfl, rfl, rfl⟩
  | case2 a n =>
    have := a.toNat_lt
    have h₁ : n / 64 < 64 := by omega
    have h₂ : n % 64 < 64 := by omega
    have hbits := bits_one a (n := n) rfl
    refine ⟨[⟨n / 64, h₁⟩, ⟨n % 64, h₂⟩], 4, 2, by decide, by decide, ?_, by simp, ?_⟩
    · simpa [letterBits, byteBits] using hbits
    · simp [Credential.asciiText, char_symbol h₁, char_symbol h₂, char_pad]
  | case3 a b n =>
    have := a.toNat_lt
    have := b.toNat_lt
    have h₁ : n / 4096 < 64 := by omega
    have h₂ : n / 64 % 64 < 64 := by omega
    have h₃ : n % 64 < 64 := by omega
    have hbits := bits_two a b (n := n) rfl
    refine ⟨[⟨n / 4096, h₁⟩, ⟨n / 64 % 64, h₂⟩, ⟨n % 64, h₃⟩], 2, 1, by decide, by decide, ?_,
      by simp, ?_⟩
    · simpa [letterBits, byteBits] using hbits
    · simp [Credential.asciiText, char_symbol h₁, char_symbol h₂, char_symbol h₃, char_pad]
  | case4 a b c rest n ih =>
    obtain ⟨values, zeros, pads, hz, hp, hb, hl, ht⟩ := ih
    have hn : n < 2 ^ 24 := joined_lt a b c
    have h₁ : n / 262144 < 64 := by omega
    have h₂ : n / 4096 % 64 < 64 := by omega
    have h₃ : n / 64 % 64 < 64 := by omega
    have h₄ : n % 64 < 64 := by omega
    refine ⟨⟨_, h₁⟩ :: ⟨_, h₂⟩ :: ⟨_, h₃⟩ :: ⟨_, h₄⟩ :: values, zeros, pads, hz, hp, ?_, ?_, ?_⟩
    · have e := (bits_digits n).symm.trans (bits_three a b c)
      simp only [letterBits, byteBits] at hb
      simp only [letterBits, byteBits, List.flatMap_cons, List.append_assoc, hb]
      simp only [← List.append_assoc] at e ⊢
      rw [e]
    · simp only [List.length_cons]
      omega
    · simp only [Credential.asciiText, String.toList_ofList] at ht
      simp [Credential.asciiText, char_symbol h₁, char_symbol h₂, char_symbol h₃, char_symbol h₄,
        ht]

/-! ## What is read -/

theorem toNat_lt_of_mem_encode (bytes : Bytes) : ∀ b ∈ encode bytes, b.toNat < 128 := by
  have hs {n : Nat} (hn : n < 64) : (symbol n).toNat < 128 := by
    rw [toNat_symbol hn]
    grind
  have hp : pad.toNat < 128 := by decide
  fun_induction encode bytes with
  | case1 => exact List.forall_mem_nil _
  | case2 a n =>
    have := a.toNat_lt
    simp only [List.forall_mem_cons]
    exact ⟨hs (by omega), hs (by omega), hp, hp, List.forall_mem_nil _⟩
  | case3 a b n =>
    have := a.toNat_lt
    have := b.toNat_lt
    simp only [List.forall_mem_cons]
    exact ⟨hs (by omega), hs (by omega), hs (by omega), hp, List.forall_mem_nil _⟩
  | case4 a b c rest n ih =>
    have hn : n < 2 ^ 24 := joined_lt a b c
    simp only [List.forall_mem_cons]
    exact ⟨hs (by omega), hs (by omega), hs (by omega), hs (by omega), ih⟩

theorem utf8EncodeChar_of_lt {b : UInt8} (h : b.toNat < 128) :
    String.utf8EncodeChar (Char.ofNat b.toNat) = [b] := by
  have hn : (Char.ofNat b.toNat).toNat = b.toNat := by
    rw [Char.ofNat, dif_pos (.inl (by omega))]
    rfl
  have hsize : (Char.ofNat b.toNat).utf8Size = 1 := by
    rw [Char.utf8Size_eq_one_iff, UInt32.le_iff_toNat_le]
    show (Char.ofNat b.toNat).toNat ≤ 127
    omega
  rw [String.utf8EncodeChar_eq_singleton hsize, List.cons.injEq]
  refine ⟨UInt8.toNat_inj.mp ?_, rfl⟩
  rw [UInt32.toNat_toUInt8]
  show (Char.ofNat b.toNat).toNat % 256 = _
  omega

theorem utf8_asciiText {bytes : Bytes} (h : ∀ b ∈ bytes, b.toNat < 128) :
    Text.utf8 (Credential.asciiText bytes) = bytes := by
  rw [Text.utf8, Credential.asciiText, String.toList_ofList]
  induction bytes with
  | nil => rfl
  | cons b bytes ih =>
    rw [List.forall_mem_cons] at h
    rw [List.map_cons, List.flatMap_cons, utf8EncodeChar_of_lt h.1, ih h.2, List.singleton_append]

/-- Reading a text gives the bytes whose base64 form it is. -/
theorem decode_utf8_eq_ok_iff {text : String} {bytes : Bytes} :
    decode (Text.utf8 text) = .ok bytes ↔ IsBase64 text bytes := by
  have he := isBase64_encode bytes
  have hu := utf8_asciiText (toNat_lt_of_mem_encode bytes)
  rw [decode_eq_ok_iff]
  refine ⟨fun h => ?_, fun h => by rw [h.unique he, hu]⟩
  rwa [Text.utf8_inj (h.trans hu.symm)]

end RegistryAuth.Base64
