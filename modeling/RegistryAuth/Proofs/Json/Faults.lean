import RegistryAuth.Json.Reader
import RegistryAuth.Proofs.Logged
import RegistryAuth.Proofs.Text.Cut

/-!
# Causes and places

What is wrong with a text and where are two things. The cause of a fault goes by what is read
(`causes`), wherever in a text that stands. The place tells of what stands in front of it only how
many lines there are and how long the last one is (`behind_append_eq_iff`). Main statement: errors
with one cause have the same wording exactly if they have the same place (`message_eq_iff`).
-/

namespace RegistryAuth.Json

/-! ## Causes -/

section

variable {α β : Type}

/-- The result of a reader, with only the cause of its fault. -/
def causes (x : Except Fault α) : Except Cause α := x.mapError Fault.cause

theorem causes_bind (x : Except Fault α) (f : α → Except Fault β) :
    causes (x >>= f) = causes x >>= fun a => causes (f a) := by
  cases x <;> rfl

theorem causes_map (x : Except Fault α) (f : α → β) : causes (x.map f) = (causes x).map f := by
  cases x <;> rfl

theorem causes_eq_ok {x : Except Fault α} {a : α} : causes x = .ok a ↔ x = .ok a :=
  mapError_eq_ok

theorem refine_read_eq_ok {r : Reader α} {f : α → Except Fault β} {s rest : Bytes} {y : β} :
    r.refine f s = .ok (y, rest) ↔ ∃ x, r s = .ok (x, rest) ∧ f x = .ok y := by
  refine bind_eq_ok.trans ⟨fun ⟨⟨x, after⟩, hr, h⟩ => ?_, fun ⟨x, hr, h⟩ => ⟨(x, rest), hr, ?_⟩⟩
  · obtain ⟨y', hy, h⟩ := bind_eq_ok.1 h
    cases h
    exact ⟨x, hr, mapError_eq_ok.1 hy⟩
  · exact bind_eq_ok.2 ⟨y, mapError_eq_ok.2 h, rfl⟩

theorem check_read_eq_ok {r : Reader α} {f : α → Except Cause β} {s rest : Bytes} {y : β} :
    r.check f s = .ok (y, rest) ↔ ∃ x, r s = .ok (x, rest) ∧ f x = .ok y := by
  simp only [Reader.check, refine_read_eq_ok, mapError_eq_ok]

/-- A reader that applies `f` to a value has the causes of both. -/
theorem causes_refine (r : Reader α) (f : α → Except Fault β) (s : Bytes) :
    causes (r.refine f s) =
      causes (r s) >>= fun found => (causes (f found.1)).map (·, found.2) := by
  show causes (r s >>= _) = _
  rw [causes_bind]
  congr 1
  funext found
  rcases found with ⟨x, rest⟩
  show causes ((f x).mapError _ >>= _) = _
  cases f x <;> rfl

theorem causes_check (r : Reader α) (f : α → Except Cause β) (s : Bytes) :
    causes (r.check f s) = causes (r s) >>= fun found => (f found.1).map (·, found.2) := by
  rw [Reader.check, causes_refine]
  congr 1
  funext found
  cases f found.1 <;> rfl

theorem cause_whole (r : Reader α) (s : Bytes) :
    (r.whole s).mapError Error.cause = causes (r s >>= Reader.last) := by
  rw [Reader.whole]
  cases r s >>= Reader.last <;> rfl

end

/-! ## Places -/

theorem takeWhile_reverse_append {s : Bytes} (h : newline ∉ s) (front : Bytes) :
    (s.reverse ++ front).takeWhile (· ≠ newline) =
      s.reverse ++ front.takeWhile (· ≠ newline) := by
  refine List.takeWhile_append_of_pos fun b hb => decide_eq_true ?_
  rintro rfl
  exact h (List.mem_reverse.1 hb)

/-- A text without newline goes on with the last line. -/
theorem behind_append_of_not_mem {s : Bytes} (h : newline ∉ s) (front : Bytes) :
    Place.behind (front ++ s) =
      ⟨(Place.behind front).line, (Place.behind front).column + s.length⟩ := by
  simp only [Place.behind, List.reverse_append, List.count_append, List.count_eq_zero.2 h,
    takeWhile_reverse_append h, List.length_append, List.length_reverse, Nat.add_zero,
    Nat.add_comm s.length]

theorem behind_append_newline (front : Bytes) :
    Place.behind (front ++ [newline]) = ⟨(Place.behind front).line + 1, 0⟩ := by
  simp [Place.behind]

/-- Behind a newline the column does not depend on what is in front. -/
theorem behind_append_of_mem {s : Bytes} (h : newline ∈ s) (front : Bytes) :
    Place.behind (front ++ s) =
      ⟨(Place.behind front).line + s.count newline, (Place.behind s).column⟩ := by
  obtain ⟨last, lines, hs, hlast⟩ := List.eq_append_cons_of_mem (List.mem_reverse.2 h)
  have hlast : newline ∉ last.reverse := fun hmem => hlast (List.mem_reverse.1 hmem)
  obtain rfl : s = lines.reverse ++ [newline] ++ last.reverse := by
    rw [← List.reverse_reverse s, hs]
    simp
  rw [← List.append_assoc, ← List.append_assoc, behind_append_of_not_mem hlast,
    behind_append_newline, behind_append_of_not_mem hlast, behind_append_newline]
  simp only [Place.behind, List.count_append, List.count_eq_zero.2 hlast, List.count_reverse,
    List.count_singleton_self, Place.mk.injEq, and_true]
  omega

/-- What stands in front of a text shows in the places of it by its number of lines, and up to the
next newline by the length of its last line. -/
theorem behind_append_eq_iff (front front' s : Bytes) :
    Place.behind (front ++ s) = Place.behind (front' ++ s) ↔
      (Place.behind front).line = (Place.behind front').line ∧
      (newline ∉ s → (Place.behind front).column = (Place.behind front').column) := by
  by_cases h : newline ∈ s
  · rw [behind_append_of_mem h, behind_append_of_mem h, Place.mk.injEq, Nat.add_left_inj]
    exact and_congr_right fun _ => iff_of_true rfl fun hn => absurd h hn
  · rw [behind_append_of_not_mem h, behind_append_of_not_mem h, Place.mk.injEq, Nat.add_left_inj]
    exact and_congr_right fun _ => ⟨fun hc _ => hc, fun hc => hc h⟩

theorem blank_not_mem_toString (n : Nat) : ' ' ∉ (toString n).toList := by
  intro h
  rw [Nat.toString_eq_ofList_toDigits, String.toList_ofList] at h
  exact absurd (Nat.isDigit_of_mem_toDigits (by decide) (by decide) h) (by decide)

theorem toString_inj {m n : Nat} (h : toString m = toString n) : m = n := by
  rw [Nat.toString_eq_ofList_toDigits, Nat.toString_eq_ofList_toDigits, String.ofList_inj] at h
  rw [← Nat.ofDigitChars_ten_toDigits (n := m), h, Nat.ofDigitChars_ten_toDigits]

theorem phrase_eq (p : Place) : p.phrase =
    " at line " ++ (toString p.line ++ (" column " ++ toString p.column)) := by
  show " at line " ++ toString p.line ++ " column " ++ toString p.column = _
  simp only [String.append_assoc]

/-- The number of the line ends at the first blank behind it, and that of the column at the end. -/
theorem phrase_inj {p q : Place} (h : p.phrase = q.phrase) : p = q := by
  rw [phrase_eq, phrase_eq, String.append_right_inj] at h
  have hcut (p : Place) : (toString p.line ++ (" column " ++ toString p.column)).toList =
      (toString p.line).toList ++ ' ' :: ("column " ++ toString p.column).toList := by
    simp only [String.toList_append]
    rfl
  have hline := Text.before_eq (hcut p) (blank_not_mem_toString p.line)
  have hcolumn := Text.after_eq (hcut p) (blank_not_mem_toString p.line)
  rw [h, Text.before_eq (hcut q) (blank_not_mem_toString q.line)] at hline
  rw [h, Text.after_eq (hcut q) (blank_not_mem_toString q.line), String.append_right_inj]
    at hcolumn
  obtain ⟨line, column⟩ := p
  obtain ⟨line', column'⟩ := q
  rw [Place.mk.injEq]
  exact ⟨(toString_inj hline).symm, (toString_inj hcolumn).symm⟩

theorem phrase_ne_empty (p : Place) : p.phrase ≠ "" := by
  rw [phrase_eq, ne_eq, String.append_eq_empty_iff]
  exact fun h => absurd h.1 (by decide)

/-- The wording tells the place. -/
theorem message_eq_iff {e e' : Error} (h : e.cause = e'.cause) :
    e.message = e'.message ↔ e.place = e'.place := by
  rw [Error.message, Error.message, h, String.append_right_inj]
  cases e.place with
  | none =>
    cases e'.place with
    | none => exact iff_of_true rfl rfl
    | some q => exact iff_of_false (phrase_ne_empty q).symm (Option.some_ne_none q).symm
  | some p =>
    cases e'.place with
    | none => exact iff_of_false (phrase_ne_empty p) (Option.some_ne_none p)
    | some q => exact ⟨fun h => congrArg some (phrase_inj h), fun h => Option.some.inj h ▸ rfl⟩

end RegistryAuth.Json
