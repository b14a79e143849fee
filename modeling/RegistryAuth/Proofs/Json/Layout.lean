import Mathlib.Data.List.DropRight
import RegistryAuth.Json.Layout

/-!
# What stands at a turn

How a text looks where an array or object goes on or ends: `itemTurn_eq_done_iff` and
`itemTurn_eq_more` for arrays, `nameTurn_eq_done_iff` and `nameTurn_eq_more` for objects.
-/

namespace RegistryAuth.Json

theorem skipSpace_skipSpace (s : Bytes) : skipSpace (skipSpace s) = skipSpace s :=
  List.dropWhile_idempotent isSpace s

theorem itemTurn_eq_done_iff {first : Bool} {s rest : Bytes} :
    itemTurn first s = .ok (.done rest) ↔ skipSpace s = ']'.toUInt8 :: rest := by
  refine ⟨fun h => ?_, fun h => ?_⟩
  · rw [itemTurn] at h
    cases hs : skipSpace s with
    | nil => simp [hs] at h
    | cons b tail =>
      rw [hs] at h
      dsimp only at h
      split at h
      · next hb => cases h; rw [hb]
      · repeat' split at h
        all_goals simp at h
  · rw [itemTurn, h]
    exact if_pos rfl

/-- Before the first item stands nothing, and before another one a comma. -/
theorem itemTurn_eq_more {first : Bool} {s start : Bytes}
    (h : itemTurn first s = .ok (.more start)) : ∃ b tail, skipSpace s = b :: tail ∧
      b ≠ ']'.toUInt8 ∧ ((first = true ∧ start = b :: tail) ∨ (first = false ∧
        b = ','.toUInt8 ∧ skipSpace tail = start ∧ start.head? ≠ some ']'.toUInt8)) := by
  rw [itemTurn] at h
  cases hs : skipSpace s with
  | nil => simp [hs] at h
  | cons b tail =>
    rw [hs] at h
    dsimp only at h
    split at h
    · simp at h
    · next hb =>
      refine ⟨b, tail, rfl, hb, ?_⟩
      split at h
      · next hf => exact .inl ⟨hf, by cases h; rfl⟩
      · next hf =>
        split at h
        · next hc =>
          cases ht : skipSpace tail with
          | nil => simp [ht] at h
          | cons c rest =>
            rw [ht] at h
            dsimp only at h
            split at h
            · simp at h
            · next hn =>
              cases h
              exact .inr ⟨by simpa using hf, hc, rfl, by simpa using hn⟩
        · simp at h

theorem nameTurn_eq_done_iff {first : Bool} {s rest : Bytes} :
    nameTurn first s = .ok (.done rest) ↔ skipSpace s = '\x7d'.toUInt8 :: rest := by
  refine ⟨fun h => ?_, fun h => ?_⟩
  · rw [nameTurn] at h
    cases hs : skipSpace s with
    | nil => simp [hs] at h
    | cons b tail =>
      rw [hs] at h
      dsimp only at h
      split at h
      · next hb => cases h; rw [hb]
      · repeat' split at h
        all_goals simp at h
  · rw [nameTurn, h]
    exact if_pos rfl

theorem nameTurn_eq_more {first : Bool} {s start : Bytes}
    (h : nameTurn first s = .ok (.more start)) : ∃ b tail, skipSpace s = b :: tail ∧
      b ≠ '\x7d'.toUInt8 ∧ ((first = true ∧ b = quote ∧ start = tail) ∨ (first = false ∧
        b = ','.toUInt8 ∧ skipSpace tail = quote :: start)) := by
  rw [nameTurn] at h
  cases hs : skipSpace s with
  | nil => simp [hs] at h
  | cons b tail =>
    rw [hs] at h
    dsimp only at h
    split at h
    · simp at h
    · next hb =>
      refine ⟨b, tail, rfl, hb, ?_⟩
      split at h
      · next hf =>
        split at h
        · next hq => exact .inl ⟨hf, hq, by cases h; rfl⟩
        · simp at h
      · next hf =>
        split at h
        · next hc =>
          cases ht : skipSpace tail with
          | nil => simp [ht] at h
          | cons c rest =>
            rw [ht] at h
            dsimp only at h
            split at h
            · next hq =>
              cases h
              exact .inr ⟨by simpa using hf, hc, by rw [hq]⟩
            · split at h <;> simp at h
        · simp at h

end RegistryAuth.Json
