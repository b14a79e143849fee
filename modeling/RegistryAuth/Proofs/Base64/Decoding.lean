import Mathlib.Algebra.Group.Nat.Defs
import RegistryAuth.Base64
import RegistryAuth.Json.Reader

/-!
# Reading base64

Reading accepts what writing produces and nothing else (`decode_eq_ok_iff`). Three bytes and the
four symbols of a group are digits of one number, to the base 256 and to the base 64; the last group
is read by what padding it has (`decodeLast_eq_ok_iff`).
-/

namespace RegistryAuth.Base64

open Json (bind_eq_ok)

/-! ## Symbols -/

theorem value?_symbol {n : Nat} (h : n < 64) : value? (symbol n) = some n := by
  revert n; decide

theorem toNat_symbol {n : Nat} (h : n < 64) : (symbol n).toNat =
    if n < 26 then n + 65 else if n < 52 then n + 71 else if n < 62 then n - 4
    else if n = 62 then 43 else 47 := by
  revert n; decide

theorem eq_symbol_of_value? {b : UInt8} {n : Nat} (h : value? b = some n) :
    n < 64 ∧ b = symbol n := by
  simp only [value?] at h
  have hn : n < 64 := by grind
  refine ⟨hn, UInt8.toNat_inj.mp ?_⟩
  rw [toNat_symbol hn]
  grind

theorem symbol_ne_pad {n : Nat} (h : n < 64) : symbol n ≠ pad := by
  revert n; decide

theorem valueAt_eq_ok_iff {offset n : Nat} {b : UInt8} :
    valueAt offset b = .ok n ↔ n < 64 ∧ b = symbol n := by
  refine ⟨fun h => ?_, fun ⟨hn, hb⟩ => by rw [valueAt, hb, value?_symbol hn]⟩
  rw [valueAt] at h
  split at h
  · next hv => cases h; exact eq_symbol_of_value? hv
  · cases h

theorem valueAt_symbol (offset : Nat) {n : Nat} (h : n < 64) :
    valueAt offset (symbol n) = .ok n :=
  valueAt_eq_ok_iff.2 ⟨h, rfl⟩

/-! ## Groups -/

/-- Three bytes as one number. -/
def joined (a b c : UInt8) : Nat := (a.toNat * 256 + b.toNat) * 256 + c.toNat

theorem joined_lt (a b c : UInt8) : joined a b c < 2 ^ 24 := by
  have := a.toNat_lt
  have := b.toNat_lt
  have := c.toNat_lt
  simp only [joined]
  omega

theorem threeBytes_joined (a b c : UInt8) : threeBytes (joined a b c) = [a, b, c] := by
  have := a.toNat_lt
  have := b.toNat_lt
  have := c.toNat_lt
  simp only [threeBytes, List.cons.injEq, and_true]
  refine ⟨?_, ?_, ?_⟩ <;> apply UInt8.toNat_inj.mp <;> simp [joined] <;> omega

theorem joined_ofNat {n : Nat} (h : n < 2 ^ 24) :
    joined (.ofNat (n / 65536)) (.ofNat (n / 256)) (.ofNat n) = n := by
  simp [joined]
  omega

/-- The four symbols of a number below `2 ^ 24`. -/
def symbols (n : Nat) : Bytes :=
  [symbol (n / 262144), symbol (n / 4096 % 64), symbol (n / 64 % 64), symbol (n % 64)]

theorem encode_three (a b c : UInt8) (rest : Bytes) :
    encode (a :: b :: c :: rest) = symbols (joined a b c) ++ encode rest := rfl

theorem symbols_of_digits {m n o p : Nat} (hn : n < 64) (ho : o < 64) (hp : p < 64) :
    symbols (m * 262144 + n * 4096 + o * 64 + p) = [symbol m, symbol n, symbol o, symbol p] := by
  simp only [symbols, List.cons.injEq, and_true]
  refine ⟨?_, ?_, ?_, ?_⟩ <;> congr 1 <;> omega

theorem encode_threeBytes {n : Nat} (h : n < 2 ^ 24) (rest : Bytes) :
    encode (threeBytes n ++ rest) = symbols n ++ encode rest := by
  rw [threeBytes, List.cons_append, List.cons_append, List.cons_append, List.nil_append,
    encode_three, joined_ofNat h]

theorem encode_one {m n : Nat} (hm : m < 64) (hn : n < 64) (h : n % 16 = 0) :
    encode ((threeBytes (m * 262144 + n * 4096)).take 1) = [symbol m, symbol n, pad, pad] := by
  simp only [threeBytes, List.take_succ_cons, List.take_zero, encode, List.cons.injEq, and_true]
  refine ⟨?_, ?_⟩ <;> congr 1 <;> simp <;> omega

theorem encode_two {m n o : Nat} (hm : m < 64) (hn : n < 64) (ho : o < 64) (h : o % 4 = 0) :
    encode ((threeBytes (m * 262144 + n * 4096 + o * 64)).take 2) =
      [symbol m, symbol n, symbol o, pad] := by
  simp only [threeBytes, List.take_succ_cons, List.take_zero, encode, List.cons.injEq, and_true]
  refine ⟨?_, ?_, ?_⟩ <;> congr 1 <;> simp <;> omega

/-! ## Reading -/

/-- The last group by what stands at its end: two paddings, one or none. -/
theorem decodeLast_eq_ok_iff {start : Nat} {a b c d : UInt8} {bytes : Bytes} :
    decodeLast start [a, b, c, d] = .ok bytes ↔
      ∃ m, valueAt start a = .ok m ∧ ∃ n, valueAt (start + 1) b = .ok n ∧
        ((c = pad ∧ d = pad ∧ n % 16 = 0 ∧
            (threeBytes (m * 262144 + n * 4096)).take 1 = bytes) ∨
          (c ≠ pad ∧ ∃ o, valueAt (start + 2) c = .ok o ∧
            ((d = pad ∧ o % 4 = 0 ∧ (threeBytes (m * 262144 + n * 4096 + o * 64)).take 2 = bytes) ∨
              (d ≠ pad ∧ ∃ p, valueAt (start + 3) d = .ok p ∧
                threeBytes (m * 262144 + n * 4096 + o * 64 + p) = bytes)))) := by
  simp only [decodeLast, bind_eq_ok]
  refine exists_congr fun m => and_congr_right fun _ => ?_
  refine exists_congr fun n => and_congr_right fun _ => ?_
  by_cases hc : c = pad
  · by_cases hd : d = pad <;> by_cases hn : n % 16 = 0 <;>
      simp [hc, hd, hn, bind, Except.bind, pure, Except.pure, throw, throwThe, MonadExceptOf.throw]
  · rw [if_neg hc, bind_eq_ok]
    simp only [hc, false_and, not_false_eq_true, true_and, false_or, ne_eq]
    refine exists_congr fun o => and_congr_right fun _ => ?_
    by_cases hd : d = pad
    · by_cases ho : o % 4 = 0 <;> simp [hd, ho, pure, Except.pure, bind, Except.bind,
        throw, throwThe, MonadExceptOf.throw]
    · rw [if_neg hd, bind_eq_ok]
      simp [hd, pure, Except.pure]

theorem eq_encode_of_decodeLast {start : Nat} {a b c d : UInt8} {bytes : Bytes}
    (h : decodeLast start [a, b, c, d] = .ok bytes) : [a, b, c, d] = encode bytes := by
  rw [decodeLast_eq_ok_iff] at h
  obtain ⟨m, hm, n, hn, h⟩ := h
  obtain ⟨m64, rfl⟩ := valueAt_eq_ok_iff.1 hm
  obtain ⟨n64, rfl⟩ := valueAt_eq_ok_iff.1 hn
  rcases h with ⟨rfl, rfl, hz, rfl⟩ | ⟨-, o, ho, h⟩
  · exact (encode_one m64 n64 hz).symm
  obtain ⟨o64, rfl⟩ := valueAt_eq_ok_iff.1 ho
  rcases h with ⟨rfl, hz, rfl⟩ | ⟨-, p, hp, rfl⟩
  · exact (encode_two m64 n64 o64 hz).symm
  · obtain ⟨p64, rfl⟩ := valueAt_eq_ok_iff.1 hp
    have e := encode_threeBytes (n := m * 262144 + n * 4096 + o * 64 + p) (by omega) []
    rw [List.append_nil, symbols_of_digits n64 o64 p64] at e
    exact e.symm

/-- A text that does not fill a group cannot be read. -/
theorem eq_nil_of_decodeLast {start : Nat} {text bytes : Bytes}
    (h : decodeLast start text = .ok bytes) (hl : text.length < 4) : text = [] ∧ bytes = [] := by
  match text with
  | [] => cases h; exact ⟨rfl, rfl⟩
  | [a] =>
    obtain ⟨_, -, h⟩ := bind_eq_ok.1 h
    cases h
  | [a, b] =>
    obtain ⟨_, -, h⟩ := bind_eq_ok.1 h
    obtain ⟨_, -, h⟩ := bind_eq_ok.1 h
    cases h
  | [a, b, c] =>
    obtain ⟨_, -, h⟩ := bind_eq_ok.1 h
    obtain ⟨_, -, h⟩ := bind_eq_ok.1 h
    by_cases hc : c = pad
    · simp [hc] at h
    · simp only [hc, ne_eq, not_false_eq_true, if_true] at h
      obtain ⟨_, -, h⟩ := bind_eq_ok.1 h
      cases h
  | a :: b :: c :: d :: rest => simp at hl; omega

theorem eq_encode_of_decodeGroups {start : Nat} {text bytes : Bytes}
    (h : decodeGroups start text = .ok bytes) : text = encode bytes := by
  fun_induction decodeGroups start text generalizing bytes with
  | case1 => exact eq_encode_of_decodeLast h
  | case2 start a b c d rest hne ih =>
    obtain ⟨m, hm, h⟩ := bind_eq_ok.1 h
    obtain ⟨n, hn, h⟩ := bind_eq_ok.1 h
    obtain ⟨o, ho, h⟩ := bind_eq_ok.1 h
    obtain ⟨p, hp, h⟩ := bind_eq_ok.1 h
    obtain ⟨more, hr, h⟩ := bind_eq_ok.1 h
    cases h
    obtain ⟨m64, rfl⟩ := valueAt_eq_ok_iff.1 hm
    obtain ⟨n64, rfl⟩ := valueAt_eq_ok_iff.1 hn
    obtain ⟨o64, rfl⟩ := valueAt_eq_ok_iff.1 ho
    obtain ⟨p64, rfl⟩ := valueAt_eq_ok_iff.1 hp
    rw [encode_threeBytes (by omega), symbols_of_digits n64 o64 p64, ← ih hr]
    rfl
  | case3 start text hl =>
    have hlt : text.length < 4 := by
      match text with
      | [] | [_] | [_, _] | [_, _, _] => simp
      | a :: b :: c :: d :: rest => exact absurd rfl (hl a b c d rest)
    obtain ⟨rfl, rfl⟩ := eq_nil_of_decodeLast h hlt
    rfl

theorem encode_eq_nil_iff {bytes : Bytes} : encode bytes = [] ↔ bytes = [] := by
  fun_cases encode bytes <;> simp

theorem decodeLast_encode_one (start : Nat) (a : UInt8) :
    decodeLast start (encode [a]) = .ok [a] := by
  have := a.toNat_lt
  refine decodeLast_eq_ok_iff.2 ⟨_, valueAt_symbol _ (by omega), _, valueAt_symbol _ (by omega),
    .inl ⟨rfl, rfl, by omega, ?_⟩⟩
  have e : a.toNat * 16 / 64 * 262144 + a.toNat * 16 % 64 * 4096 = joined a 0 0 := by
    simp [joined]; omega
  rw [e, threeBytes_joined]
  rfl

theorem decodeLast_encode_two (start : Nat) (a b : UInt8) :
    decodeLast start (encode [a, b]) = .ok [a, b] := by
  have := a.toNat_lt
  have := b.toNat_lt
  refine decodeLast_eq_ok_iff.2 ⟨_, valueAt_symbol _ (by omega), _, valueAt_symbol _ (by omega),
    .inr ⟨symbol_ne_pad (by omega), _, valueAt_symbol _ (by omega), .inl ⟨rfl, by omega, ?_⟩⟩⟩
  have e : (a.toNat * 256 + b.toNat) * 4 / 4096 * 262144 +
      (a.toNat * 256 + b.toNat) * 4 / 64 % 64 * 4096 + (a.toNat * 256 + b.toNat) * 4 % 64 * 64 =
      joined a b 0 := by
    simp [joined]; omega
  rw [e, threeBytes_joined]
  rfl

theorem sum_digits (n : Nat) :
    n / 262144 * 262144 + n / 4096 % 64 * 4096 + n / 64 % 64 * 64 + n % 64 = n := by
  omega

theorem decodeLast_symbols (start : Nat) {n : Nat} (h : n < 2 ^ 24) :
    decodeLast start (symbols n) = .ok (threeBytes n) := by
  refine decodeLast_eq_ok_iff.2 ⟨_, valueAt_symbol _ (by omega), _, valueAt_symbol _ (by omega),
    .inr ⟨symbol_ne_pad (by omega), _, valueAt_symbol _ (by omega),
      .inr ⟨symbol_ne_pad (by omega), _, valueAt_symbol _ (by omega), ?_⟩⟩⟩
  rw [sum_digits]

theorem decodeGroups_symbols (start : Nat) {n : Nat} (h : n < 2 ^ 24) {rest bytes : Bytes}
    (hr : decodeGroups (start + 4) rest = .ok bytes) (hne : rest ≠ []) :
    decodeGroups start (symbols n ++ rest) = .ok (threeBytes n ++ bytes) := by
  have hv (offset : Nat) {d : Nat} (hd : d < 64) := valueAt_symbol offset hd
  rw [symbols, List.cons_append, List.cons_append, List.cons_append, List.cons_append,
    List.nil_append, decodeGroups, if_neg hne, hv _ (by omega), hv _ (by omega), hv _ (by omega),
    hv _ (by omega), hr]
  exact congrArg (fun n => Except.ok (threeBytes n ++ bytes)) (sum_digits n)

theorem decodeGroups_encode (start : Nat) (bytes : Bytes) :
    decodeGroups start (encode bytes) = .ok bytes := by
  fun_induction encode bytes generalizing start with
  | case1 => rfl
  | case2 a => exact decodeLast_encode_one start a
  | case3 a b => exact decodeLast_encode_two start a b
  | case4 a b c rest n ih =>
    show decodeGroups start (symbols (joined a b c) ++ encode rest) = _
    by_cases hr : rest = []
    · rw [hr]
      exact (decodeLast_symbols start (joined_lt a b c)).trans
        (congrArg _ (threeBytes_joined a b c))
    · rw [decodeGroups_symbols start (joined_lt a b c) (ih (start + 4))
        (mt encode_eq_nil_iff.1 hr), threeBytes_joined]
      rfl

theorem length_encode_mod (bytes : Bytes) : (encode bytes).length % 4 = 0 := by
  fun_induction encode bytes with
  | case1 => rfl
  | case2 | case3 => simp
  | case4 a b c rest n ih => simp only [List.length_cons]; omega

/-- Reading accepts what writing produces and nothing else. -/
theorem decode_eq_ok_iff {text bytes : Bytes} : decode text = .ok bytes ↔ text = encode bytes := by
  rw [decode]
  refine ⟨fun h => ?_, ?_⟩
  · split at h
    · split at h
      · cases h
      · exact eq_encode_of_decodeGroups h
    · next hl =>
      rw [List.getLast?_eq_none_iff] at hl
      cases h
      exact hl
  · rintro rfl
    split
    · rw [if_neg (fun h => ?_), decodeGroups_encode]
      have := length_encode_mod bytes
      omega
    · next hl =>
      rw [List.getLast?_eq_none_iff, encode_eq_nil_iff] at hl
      rw [hl]

end RegistryAuth.Base64
