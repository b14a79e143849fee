/-!
# Text as bytes

A document is a list of bytes and a text is a `String`. `utf8` writes a text as bytes and `ofUtf8?`
reads it back. Main statements: reading accepts exactly what writing produces
(`ofUtf8?_eq_some_iff`), and a text starts with another one exactly if its bytes do
(`utf8_prefix_iff`).
-/

namespace RegistryAuth

/-- The bytes of a document. -/
abbrev Bytes := List UInt8

namespace Text

/-- The UTF-8 bytes of a text. -/
def utf8 (s : String) : Bytes := s.toList.flatMap String.utf8EncodeChar

/-- The text that `bytes` are the UTF-8 form of, if there is one. -/
def ofUtf8? (bytes : Bytes) : Option String := String.fromUTF8? bytes.toByteArray

theorem toByteArray_utf8 (s : String) : (utf8 s).toByteArray = s.toByteArray := by
  rw [← String.utf8Encode_toList]; rfl

theorem utf8_append (s t : String) : utf8 (s ++ t) = utf8 s ++ utf8 t := by
  simp [utf8]

theorem ofUtf8?_utf8 (s : String) : ofUtf8? (utf8 s) = some s := by
  have h : (utf8 s).toByteArray.IsValidUTF8 := by
    rw [toByteArray_utf8]; exact s.isValidUTF8
  simp only [ofUtf8?, String.fromUTF8?, h, dif_pos]
  congr 1
  exact String.toByteArray_inj.1 (toByteArray_utf8 s)

theorem utf8_inj {s t : String} (h : utf8 s = utf8 t) : s = t :=
  Option.some.inj ((ofUtf8?_utf8 s).symm.trans ((congrArg ofUtf8? h).trans (ofUtf8?_utf8 t)))

theorem ofUtf8?_eq_some_iff {bytes : Bytes} {s : String} :
    ofUtf8? bytes = some s ↔ bytes = utf8 s := by
  constructor
  · intro h
    simp only [ofUtf8?, String.fromUTF8?] at h
    split at h
    · have hs : bytes.toByteArray = s.toByteArray := by cases h; rfl
      exact List.toByteArray_inj.1 (hs.trans (toByteArray_utf8 s).symm)
    · cases h
  · rintro rfl
    exact ofUtf8?_utf8 s

/-- The bytes of a character tell where they end. -/
theorem eq_of_utf8EncodeChar_append {c d : Char} {xs ys : Bytes}
    (h : String.utf8EncodeChar c ++ xs = String.utf8EncodeChar d ++ ys) : c = d := by
  have hread (c : Char) (xs : Bytes) :
      (String.utf8EncodeChar c ++ xs).toByteArray.utf8DecodeChar? 0 = some c := by
    rw [List.toByteArray_append]
    exact ByteArray.utf8DecodeChar?_utf8EncodeChar_append
  have hc := hread c xs
  rw [h, hread d ys] at hc
  exact (Option.some.inj hc).symm

theorem prefix_of_flatMap_utf8EncodeChar {xs ys : List Char}
    (h : xs.flatMap String.utf8EncodeChar <+: ys.flatMap String.utf8EncodeChar) : xs <+: ys := by
  induction xs generalizing ys with
  | nil => exact List.nil_prefix
  | cons x xs ih =>
    rw [List.flatMap_cons] at h
    cases ys with
    | nil =>
      have hnil := List.append_eq_nil_iff.1 (List.prefix_nil.1 h)
      exact absurd hnil.1 String.utf8EncodeChar_ne_nil
    | cons y ys =>
      obtain ⟨rest, hrest⟩ := h
      rw [List.flatMap_cons, List.append_assoc] at hrest
      obtain rfl : x = y := eq_of_utf8EncodeChar_append hrest
      exact (List.prefix_cons_inj x).2 (ih ⟨rest, List.append_cancel_left hrest⟩)

theorem utf8_prefix_iff {s t : String} : utf8 s <+: utf8 t ↔ s.toList <+: t.toList := by
  refine ⟨prefix_of_flatMap_utf8EncodeChar, fun ⟨rest, h⟩ => ⟨utf8 (String.ofList rest), ?_⟩⟩
  rw [← utf8_append, utf8, utf8, ← h]
  simp

end Text

end RegistryAuth
