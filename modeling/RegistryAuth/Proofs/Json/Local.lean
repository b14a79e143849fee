import RegistryAuth.Proofs.Json.Layout
import RegistryAuth.Proofs.Json.Written

/-!
# Reading is local

What is read off a text depends on nothing but the text that is taken, and on what follows only as
far as it may end (`Local`): the text alone gives the same, and so it does before any part of what
follows it. Main statement: a value has a text of its own (`exists_text_of_value`), from the same for
each way of putting readers together.
-/

namespace RegistryAuth.Json

section

variable {α β : Type}

/-- Whether `g` reads whatever `f` does, also where what `f` leaves is cut short. -/
def Local (f g : Bytes → Except Fault (α × Bytes)) : Prop :=
  ∀ ⦃s : Bytes⦄ ⦃x : α⦄ ⦃rest : Bytes⦄, f s = .ok (x, rest) →
    ∃ text, s = text ++ rest ∧ ∀ more, more <+: rest → g (text ++ more) = .ok (x, more)

/-- Whether `f` passes over the same also where what it leaves is cut short. -/
def PassesLocally (f : Bytes → Except Fault Bytes) : Prop :=
  ∀ ⦃s rest : Bytes⦄, f s = .ok rest →
    ∃ text, s = text ++ rest ∧ ∀ more, more <+: rest → f (text ++ more) = .ok more

/-! ## What is left -/

theorem Local.suffix {f g : Bytes → Except Fault (α × Bytes)} (h : Local f g) {s rest : Bytes}
    {x : α} (hf : f s = .ok (x, rest)) : rest <:+ s := by
  obtain ⟨text, hs, -⟩ := h hf
  exact ⟨text, hs.symm⟩

theorem PassesLocally.suffix {f : Bytes → Except Fault Bytes} (h : PassesLocally f)
    {s rest : Bytes} (hf : f s = .ok rest) : rest <:+ s := by
  obtain ⟨text, hs, -⟩ := h hf
  exact ⟨text, hs.symm⟩

/-! ## Putting readers together -/

namespace Local

variable {f g : Bytes → Except Fault (α × Bytes)} {f' g' : α × Bytes → Except Fault (β × Bytes)}

theorem pure (x : α) : Local (fun s => .ok (x, s)) (fun s => .ok (x, s)) := by
  rintro s _ _ ⟨⟩
  exact ⟨[], rfl, fun more _ => rfl⟩

theorem fail (fault : Bytes → Fault) (g : Bytes → Except Fault (α × Bytes)) :
    Local (fun s => .error (fault s)) g := nofun

theorem bind (h : Local f g) (h' : ∀ x, Local (fun s => f' (x, s)) (fun s => g' (x, s))) :
    Local (fun s => f s >>= f') (fun s => g s >>= g') := by
  intro s y rest hs
  obtain ⟨⟨x, middle⟩, hf, hf'⟩ := bind_eq_ok.1 hs
  obtain ⟨text, rfl, hg⟩ := h hf
  obtain ⟨text', rfl, hg'⟩ := h' x hf'
  refine ⟨text ++ text', (List.append_assoc ..).symm, fun more hmore => ?_⟩
  rw [List.append_assoc]
  refine bind_eq_ok.2 ⟨(x, text' ++ more), hg _ ?_, hg' more hmore⟩
  exact (List.prefix_append_right_inj text').2 hmore

/-- The same for what goes on from the value and the rest apart. -/
theorem andThen {f' g' : α → Bytes → Except Fault (β × Bytes)} (h : Local f g)
    (h' : ∀ x, Local (f' x) (g' x)) :
    Local (fun s => f s >>= fun found => f' found.1 found.2)
      (fun s => g s >>= fun found => g' found.1 found.2) :=
  h.bind h'

theorem afterPass {pass : Bytes → Except Fault Bytes} (hp : PassesLocally pass) (h : Local f g) :
    Local (fun s => pass s >>= f) (fun s => pass s >>= g) := by
  intro s y rest hs
  obtain ⟨middle, hpass, hf⟩ := bind_eq_ok.1 hs
  obtain ⟨text, rfl, hp⟩ := hp hpass
  obtain ⟨text', rfl, hg⟩ := h hf
  refine ⟨text ++ text', (List.append_assoc ..).symm, fun more hmore => ?_⟩
  rw [List.append_assoc]
  refine bind_eq_ok.2 ⟨text' ++ more, hp _ ?_, hg more hmore⟩
  exact (List.prefix_append_right_inj text').2 hmore

theorem map (h : Local f g) (φ : α → β) :
    Local (fun s => (f s).map fun found => (φ found.1, found.2))
      (fun s => (g s).map fun found => (φ found.1, found.2)) := by
  intro s y rest hs
  obtain ⟨⟨x, after⟩, hf, hs⟩ := map_eq_ok.1 hs
  cases hs
  obtain ⟨text, rfl, hg⟩ := h hf
  exact ⟨text, rfl, fun more hmore => map_eq_ok.2 ⟨_, hg more hmore, rfl⟩⟩

theorem refine {r r' : Reader α} (h : Local r r') (φ : α → Except Fault β) :
    Local (r.refine φ) (r'.refine φ) := by
  intro s y rest hs
  obtain ⟨x, hr, hx⟩ := refine_read_eq_ok.1 hs
  obtain ⟨text, rfl, hr'⟩ := h hr
  exact ⟨text, rfl, fun more hmore => refine_read_eq_ok.2 ⟨x, hr' more hmore, hx⟩⟩

theorem check {r r' : Reader α} (h : Local r r') (φ : α → Except Cause β) :
    Local (r.check φ) (r'.check φ) :=
  h.refine _

end Local

end

/-! ## Blanks -/

/-- At the start of what follows the longest run of bytes no further byte belongs to it. -/
theorem dropWhile_cutShort {p : UInt8 → Bool} {s more : Bytes} (h : more <+: s.dropWhile p) :
    more.takeWhile p = [] ∧ more.dropWhile p = more := by
  cases more with
  | nil => exact ⟨rfl, rfl⟩
  | cons b more =>
    obtain ⟨rest, hrest⟩ := h
    have hnot := List.head?_dropWhile_not p s
    rw [← hrest] at hnot
    have hb : p b = false := by simpa using hnot
    simp [hb]

theorem takeWhile_append_cutShort {p : UInt8 → Bool} {s more : Bytes}
    (h : more <+: s.dropWhile p) : (s.takeWhile p ++ more).takeWhile p = s.takeWhile p := by
  rw [List.takeWhile_append_of_pos fun _ hx => List.mem_takeWhile_imp hx, (dropWhile_cutShort h).1,
    List.append_nil]

theorem dropWhile_append_cutShort {p : UInt8 → Bool} {s more : Bytes}
    (h : more <+: s.dropWhile p) : (s.takeWhile p ++ more).dropWhile p = more := by
  rw [List.dropWhile_append_of_pos fun _ hx => List.mem_takeWhile_imp hx, (dropWhile_cutShort h).2]

theorem exists_skipSpace (s : Bytes) : ∃ blanks, s = blanks ++ skipSpace s ∧
    ∀ more, more <+: skipSpace s → skipSpace (blanks ++ more) = more :=
  ⟨s.takeWhile isSpace, List.takeWhile_append_dropWhile.symm,
    fun _ => dropWhile_append_cutShort⟩

theorem skipSpace_suffix (s : Bytes) : skipSpace s <:+ s := List.dropWhile_suffix isSpace

theorem suffix_of_skipSpace {s tail : Bytes} {b : UInt8} (h : skipSpace s = b :: tail) :
    tail <:+ s := by
  have hs := skipSpace_suffix s
  rw [h] at hs
  exact (List.suffix_cons b tail).trans hs

/-! ## Literals -/

theorem local_unit : Local unit unit := by
  intro s n rest h
  match s with
  | [] | [_] | [_, _] | [_, _, _] => cases h
  | a :: b :: c :: d :: tail =>
    simp only [unit] at h
    cases hn : unit? a b c d with
    | none => simp [hn] at h
    | some m =>
      rw [hn] at h
      cases h
      exact ⟨[a, b, c, d], rfl, fun more _ => by simp [unit, hn]⟩

theorem passesLocally_pairByte (expected : UInt8) : PassesLocally (pairByte expected) := by
  intro s rest h
  cases s with
  | nil => cases h
  | cons b tail =>
    rw [pairByte] at h
    split at h
    · next hb =>
      cases h
      exact ⟨[b], rfl, fun more _ => if_pos hb⟩
    · simp at h

theorem local_trailingUnit : Local trailingUnit trailingUnit := by
  refine .afterPass (passesLocally_pairByte backslash) <|
    .afterPass (passesLocally_pairByte unitMark) <| .bind local_unit fun n => ?_
  by_cases hn : isTrailing n = true
  · simp only [if_pos hn]
    exact .pure n
  · simp only [if_neg hn]
    exact .fail _ _

theorem local_unitEscape : Local unitEscape unitEscape := by
  refine .bind local_unit fun n => ?_
  by_cases ht : isTrailing n = true
  · simp only [if_pos ht]
    exact .fail _ _
  simp only [if_neg ht]
  by_cases hl : isLeading n = true
  · simp only [if_pos hl]
    exact .bind local_trailingUnit fun second => .pure (pairChar n second)
  · simp only [if_neg hl]
    exact .pure (Char.ofNat n)

theorem local_escapeBy {α : Type} (letter : Char → α) {units : Reader α}
    (h : Local units units) : Local (escapeBy letter units) (escapeBy letter units) := by
  intro s x rest hs
  cases s with
  | nil => cases hs
  | cons mark tail =>
    simp only [escapeBy] at hs
    split at hs
    · next c hc =>
      cases hs
      exact ⟨[mark], rfl, fun more _ => by simp [escapeBy, hc]⟩
    · next hc =>
      split at hs
      · next hm =>
        obtain ⟨text, rfl, hunits⟩ := h hs
        refine ⟨mark :: text, rfl, fun more hshort => ?_⟩
        simp only [escapeBy, List.cons_append, hc, if_pos hm]
        exact hunits more hshort
      · simp at hs

theorem local_escape : Local escape escape :=
  local_escapeBy _ (local_unitEscape.map String.utf8EncodeChar)

theorem local_content {style : Style} (h : Local style.escape style.escape) :
    Local (content style) (content style) := by
  intro s c rest (hs : contentFrom style s = .ok (c, rest))
  show ∃ text, _ ∧ ∀ more, _ → contentFrom style (text ++ more) = _
  fun_induction contentFrom style s generalizing c rest with
  | case1 => simp at hs
  | case2 tail =>
    cases hs
    exact ⟨[quote], rfl, fun more _ => by rw [List.singleton_append, contentFrom_cons, if_pos rfl]⟩
  | case3 => simp at hs
  | case4 => simp at hs
  | case5 tail bytes after found lt hq hc ih =>
    obtain ⟨⟨content, rest⟩, hcontent, hs⟩ := map_eq_ok.1 hs
    cases hs
    obtain ⟨text, rfl, hescape⟩ := h found
    obtain ⟨text', rfl, hmore⟩ := ih hcontent
    refine ⟨backslash :: (text ++ text'), by simp, fun more hshort => ?_⟩
    have hafter := hescape _ ((List.prefix_append_right_inj text').2 hshort)
    rw [List.cons_append, List.append_assoc, contentFrom_cons, if_neg hq, if_neg hc, if_pos rfl,
      hafter]
    exact map_eq_ok.2 ⟨_, hmore more hshort, rfl⟩
  | case6 b tail hq hc hb ih =>
    obtain ⟨⟨content, rest⟩, hcontent, hs⟩ := map_eq_ok.1 hs
    cases hs
    obtain ⟨text, rfl, hmore⟩ := ih hcontent
    refine ⟨b :: text, rfl, fun more hshort => ?_⟩
    rw [List.cons_append, contentFrom_cons, if_neg hq, if_neg hc, if_neg hb]
    exact map_eq_ok.2 ⟨_, hmore more hshort, rfl⟩

theorem local_literal : Local literal literal := by
  have hcontent : Local (content reading) (content reading) := local_content local_escape
  exact hcontent.check textOf

/-! ## Numbers -/

theorem local_digits (ended : Cause) : Local (digits ended) (digits ended) := by
  intro s ds rest h
  cases s with
  | nil => cases h
  | cons b tail =>
    simp only [digits] at h
    split at h
    · next hb =>
      cases h
      refine ⟨b :: tail.takeWhile isDigit, ?_, fun more hshort => ?_⟩
      · rw [List.cons_append, List.takeWhile_append_dropWhile]
      · simp only [digits, List.cons_append, if_pos hb, takeWhile_append_cutShort hshort,
          dropWhile_append_cutShort hshort]
    · simp at h

/-- What goes by a mark in front is local if it is behind the mark, as a text without it is left. -/
theorem Local.of_mark {α : Type} {f : Bytes → Except Fault (α × Bytes)} {isMark : UInt8 → Bool}
    {absent : α} (hnil : f [] = .ok (absent, []))
    (hother : ∀ b tail, isMark b ≠ true → f (b :: tail) = .ok (absent, b :: tail))
    (hmark : ∀ b, isMark b = true → Local (fun tail => f (b :: tail)) (fun tail => f (b :: tail))) :
    Local f f := by
  have habsent (s more : Bytes) (hs : f s = .ok (absent, s)) (hshort : more <+: s)
      (hhead : ∀ b tail, s = b :: tail → isMark b ≠ true) : f more = .ok (absent, more) := by
    cases more with
    | nil => exact hnil
    | cons b more =>
      obtain ⟨rest, rfl⟩ := hshort
      exact hother b more (hhead b _ rfl)
  intro s x rest h
  cases s with
  | nil =>
    cases hnil.symm.trans h
    exact ⟨[], rfl, fun more hshort => habsent [] more hnil hshort nofun⟩
  | cons b tail =>
    by_cases hb : isMark b = true
    · obtain ⟨text, rfl, hmore⟩ := hmark b hb h
      exact ⟨b :: text, rfl, hmore⟩
    · have hs := hother b tail hb
      cases hs.symm.trans h
      refine ⟨[], rfl, fun more hshort => habsent _ more hs hshort fun c _ hc => ?_⟩
      exact (List.cons.inj hc).1 ▸ hb

theorem local_sign (isSign : UInt8 → Bool) :
    Local (fun s => .ok (sign isSign s)) (fun s => .ok (sign isSign s)) := by
  refine .of_mark rfl (fun b tail hb => by rw [sign, if_neg hb]) fun b hb => ?_
  simp only [sign, if_pos hb]
  exact .pure (isMinus b)

theorem local_optional {α : Type} (isMark : UInt8 → Bool) (absent : α) {r : Reader α}
    (hr : Local r r) : Local (optional isMark absent r) (optional isMark absent r) := by
  refine .of_mark rfl (fun b tail hb => by rw [optional, if_neg hb]) fun b hb => ?_
  simp only [optional, if_pos hb]
  exact hr

theorem local_exponent (ended : Cause) : Local (exponent ended) (exponent ended) :=
  (local_sign _).andThen fun down => (local_digits ended).map (Exponent.mk down)

theorem local_numeral (ended : Cause) : Local (numeral ended) (numeral ended) := by
  have hdigits := local_digits ended
  have hexponent := (local_exponent ended).map some
  exact (local_sign isMinus).andThen fun negative =>
    (hdigits.refine wholeDigits).andThen fun whole =>
    (local_optional isPoint [] hdigits).andThen fun fraction =>
    (local_optional isExponentMark none hexponent).andThen fun exponent =>
    .pure (Numeral.mk negative whole fraction exponent)

theorem local_number : Local number number := (local_numeral .endInValue).refine Numeral.value

/-! ## Values that are neither array nor object -/

theorem passesLocally_word (expected : Bytes) : PassesLocally (word expected) := by
  intro s rest h
  fun_induction word expected s with
  | case1 s =>
    cases h
    exact ⟨[], rfl, fun more _ => rfl⟩
  | case2 => cases h
  | case3 expected b tail ih =>
    obtain ⟨text, rfl, hmore⟩ := ih h
    refine ⟨b :: text, rfl, fun more hshort => ?_⟩
    rw [List.cons_append, word, if_pos rfl, hmore more hshort]
  | case4 => simp at h

/-- A reader that goes by the first byte is local if it is for each byte. -/
theorem Local.of_cons {α : Type} {f g : Bytes → Except Fault (α × Bytes)}
    (hnil : ∀ x, f [] ≠ .ok x)
    (h : ∀ b, Local (fun tail => f (b :: tail)) (fun tail => g (b :: tail))) : Local f g := by
  intro s x rest hs
  cases s with
  | nil => exact absurd hs (hnil _)
  | cons b tail =>
    obtain ⟨text, rfl, hmore⟩ := h b hs
    exact ⟨b :: text, rfl, hmore⟩

/-- A reader takes the first byte. -/
theorem Local.cons {α : Type} {r r' : Reader α} (h : Local r r') (b : UInt8) :
    Local (fun tail => r (b :: tail)) (fun tail => r' (b :: tail)) := by
  intro tail x rest hr
  obtain ⟨text, hs, hmore⟩ := h hr
  cases text with
  | nil =>
    have hlt := r.shorter hr
    rw [hs, List.nil_append] at hlt
    exact absurd hlt (Nat.lt_irrefl _)
  | cons c text =>
    obtain ⟨rfl, rfl⟩ := List.cons.inj hs
    exact ⟨text, rfl, hmore⟩

theorem local_scalarBy {α : Type} (ofWord : Value → α) {text number : Reader α}
    (ht : Local text text) (hn : Local number number) :
    Local (scalarBy ofWord text number) (scalarBy ofWord text number) := by
  have hword (v : Value) (expected : Bytes) : Local
      (fun s => (word expected s).map (ofWord v, ·)) (fun s => (word expected s).map (ofWord v, ·)) :=
    .afterPass (passesLocally_word expected) (.pure (ofWord v))
  refine .of_cons nofun fun b => ?_
  simp only [scalarBy]
  by_cases hnull : b = 'n'.toUInt8
  · simp only [if_pos hnull]
    exact hword _ _
  simp only [if_neg hnull]
  by_cases htrue : b = 't'.toUInt8
  · simp only [if_pos htrue]
    exact hword _ _
  simp only [if_neg htrue]
  by_cases hfalse : b = 'f'.toUInt8
  · simp only [if_pos hfalse]
    exact hword _ _
  simp only [if_neg hfalse]
  by_cases hquote : b = quote
  · simp only [if_pos hquote]
    exact ht
  simp only [if_neg hquote]
  by_cases hnumber : (isMinus b || isDigit b) = true
  · simp only [if_pos hnumber]
    exact hn.cons b
  · simp only [if_neg hnumber]
    exact .fail _ _

theorem local_scalar : Local scalar scalar :=
  local_scalarBy id (local_literal.map Value.string) (local_number.map Value.number)

/-! ## Arrays and objects -/

/-- The byte after blanks stays where it is. -/
theorem exists_skipSpace_cons {s tail : Bytes} {b : UInt8} (h : skipSpace s = b :: tail) :
    ∃ front, s = front ++ tail ∧ ∀ more, more <+: tail → skipSpace (front ++ more) = b :: more := by
  obtain ⟨blanks, hblanks, hskip⟩ := exists_skipSpace s
  rw [h] at hblanks hskip
  refine ⟨blanks ++ [b], by simp [hblanks], fun more hshort => ?_⟩
  rw [List.append_assoc, List.singleton_append, hskip]
  exact (List.prefix_append_right_inj [b]).2 hshort

section

variable {α σ : Type}

theorem local_byBracket {array object scalar array' object' scalar' : Reader α}
    (ha : Local array array') (ho : Local object object') (hs : Local scalar scalar') :
    Local (Reader.byBracket array object scalar) (Reader.byBracket array' object' scalar') := by
  intro s x rest h
  cases hb : skipSpace s with
  | nil => simp [Reader.byBracket, hb] at h
  | cons b tail =>
    obtain ⟨front, rfl, hskip⟩ := exists_skipSpace_cons hb
    have hskip (text more : Bytes) (htail : tail = text ++ rest) (hshort : more <+: rest) :
        skipSpace (front ++ text ++ more) = b :: (text ++ more) := by
      rw [List.append_assoc]
      refine hskip _ ?_
      rw [htail]
      exact (List.prefix_append_right_inj text).2 hshort
    by_cases hna : b = '['.toUInt8
    · subst hna
      rw [byBracket_of_array hb] at h
      obtain ⟨text, htail, hmore⟩ := ha h
      refine ⟨front ++ text, by rw [htail, List.append_assoc], fun more hshort => ?_⟩
      rw [byBracket_of_array (hskip text more htail hshort), hmore more hshort]
    by_cases hno : b = '\x7b'.toUInt8
    · subst hno
      rw [byBracket_of_object hb] at h
      obtain ⟨text, htail, hmore⟩ := ho h
      refine ⟨front ++ text, by rw [htail, List.append_assoc], fun more hshort => ?_⟩
      rw [byBracket_of_object (hskip text more htail hshort), hmore more hshort]
    · rw [byBracket_of_scalar hb hna hno] at h
      obtain ⟨text, htail, hmore⟩ := hs.cons b h
      refine ⟨front ++ text, by rw [htail, List.append_assoc], fun more hshort => ?_⟩
      rw [byBracket_of_scalar (hskip text more htail hshort) hna hno]
      exact hmore more hshort

theorem passesLocally_colon : PassesLocally colon := by
  intro s rest h
  rw [colon] at h
  cases hb : skipSpace s with
  | nil => simp [hb] at h
  | cons b tail =>
    rw [hb] at h
    dsimp only at h
    split at h
    · next hcolon =>
      cases h
      obtain ⟨front, rfl, hskip⟩ := exists_skipSpace_cons hb
      refine ⟨front, rfl, fun more hshort => ?_⟩
      rw [colon, hskip more hshort]
      exact if_pos hcolon
    · simp at h

theorem local_afterColon {r r' : Reader α} (h : Local r r') : Local r.afterColon r'.afterColon :=
  .afterPass passesLocally_colon h

/-- An item starts at the same place in a text that is cut short behind its start. -/
theorem exists_itemTurn {first : Bool} {s start : Bytes} (h : itemTurn first s = .ok (.more start)) :
    ∃ front, s = front ++ start ∧
      ∀ more, more <+: start → more ≠ [] → itemTurn first (front ++ more) = .ok (.more more) := by
  obtain ⟨b, tail, hs, hb, ⟨rfl, rfl⟩ | ⟨rfl, rfl, ht, hhead⟩⟩ := itemTurn_eq_more h
  · obtain ⟨blanks, hblanks, hskip⟩ := exists_skipSpace s
    rw [hs] at hblanks hskip
    refine ⟨blanks, hblanks, fun more hshort hne => ?_⟩
    obtain ⟨c, more, rfl⟩ := List.exists_cons_of_ne_nil hne
    obtain ⟨rfl, -⟩ := List.cons_prefix_cons.1 hshort
    rw [itemTurn, hskip _ hshort]
    dsimp only
    rw [if_neg hb, if_pos rfl]
  · obtain ⟨front, rfl, hcomma⟩ := exists_skipSpace_cons hs
    obtain ⟨blanks, hblanks, hskip⟩ := exists_skipSpace tail
    rw [ht] at hblanks hskip
    refine ⟨front ++ blanks, by rw [List.append_assoc, ← hblanks], fun more hshort hne => ?_⟩
    obtain ⟨c, more, rfl⟩ := List.exists_cons_of_ne_nil hne
    have hc : c ≠ ']'.toUInt8 := by
      obtain ⟨rest, rfl⟩ := hshort
      simpa using hhead
    have hcut : blanks ++ c :: more <+: tail := by
      rw [hblanks]
      exact (List.prefix_append_right_inj blanks).2 hshort
    rw [List.append_assoc, itemTurn, hcomma _ hcut]
    dsimp only
    rw [if_neg hb, if_neg Bool.false_ne_true, if_pos rfl, hskip _ hshort]
    exact if_neg hc

theorem exists_nameTurn {first : Bool} {s start : Bytes} (h : nameTurn first s = .ok (.more start)) :
    ∃ front, s = front ++ start ∧
      ∀ more, more <+: start → nameTurn first (front ++ more) = .ok (.more more) := by
  obtain ⟨b, tail, hs, hb, ⟨rfl, rfl, rfl⟩ | ⟨rfl, rfl, ht⟩⟩ := nameTurn_eq_more h
  · obtain ⟨front, rfl, hquote⟩ := exists_skipSpace_cons hs
    refine ⟨front, rfl, fun more hshort => ?_⟩
    rw [nameTurn, hquote _ hshort]
    dsimp only
    rw [if_neg hb, if_pos rfl, if_pos rfl]
  · obtain ⟨front, rfl, hcomma⟩ := exists_skipSpace_cons hs
    obtain ⟨front', rfl, hquote⟩ := exists_skipSpace_cons ht
    refine ⟨front ++ front', (List.append_assoc ..).symm, fun more hshort => ?_⟩
    have hcut := (List.prefix_append_right_inj front').2 hshort
    rw [List.append_assoc, nameTurn, hcomma _ hcut]
    dsimp only
    rw [if_neg hb, if_neg Bool.false_ne_true, if_pos rfl, hquote _ hshort]
    exact if_pos rfl

theorem suffix_of_itemTurn {first : Bool} {s start : Bytes}
    (h : itemTurn first s = .ok (.more start)) : start <:+ s := by
  obtain ⟨front, hs, -⟩ := exists_itemTurn h
  exact ⟨front, hs.symm⟩

theorem suffix_of_nameTurn {first : Bool} {s start : Bytes}
    (h : nameTurn first s = .ok (.more start)) : start <:+ s := by
  obtain ⟨front, hs, -⟩ := exists_nameTurn h
  exact ⟨front, hs.symm⟩

theorem local_itemsFrom {item item' : Reader α} (h : Local item item') (first : Bool) :
    Local (itemsFrom item first) (itemsFrom item' first) := by
  intro s xs rest hs
  fun_induction itemsFrom item first s generalizing xs rest with
  | case1 => simp at hs
  | case2 first s after ht =>
    cases hs
    obtain ⟨front, rfl, hskip⟩ := exists_skipSpace_cons (itemTurn_eq_done_iff.1 ht)
    refine ⟨front, rfl, fun more hshort => ?_⟩
    rw [itemsFrom_eq, itemTurn_eq_done_iff.2 (hskip more hshort)]
    rfl
  | case3 => simp at hs
  | case4 first s start ht y after hi lt ih =>
    obtain ⟨⟨ys, rest⟩, hrest, hs⟩ := map_eq_ok.1 hs
    cases hs
    obtain ⟨front, rfl, hturn⟩ := exists_itemTurn ht
    obtain ⟨text, rfl, hitem⟩ := h hi
    obtain ⟨text', rfl, hitems⟩ := ih hrest
    have hne : text ≠ [] := by
      rintro rfl
      exact Nat.lt_irrefl _ (item.shorter hi)
    refine ⟨front ++ (text ++ text'), by simp, fun more hshort => ?_⟩
    have hafter := (List.prefix_append_right_inj text').2 hshort
    have hturn := hturn (text ++ (text' ++ more)) ((List.prefix_append_right_inj text).2 hafter)
      (by simp [hne])
    rw [List.append_assoc, List.append_assoc, itemsFrom_eq, hturn]
    refine bind_eq_ok.2 ⟨_, rfl, bind_eq_ok.2 ⟨_, hitem _ hafter, ?_⟩⟩
    exact bind_eq_ok.2 ⟨_, hitems more hshort, rfl⟩

theorem local_membersFrom {member member' : σ → String → Reader σ}
    (h : ∀ state name, Local (member state name) (member' state name)) (first : Bool) (state : σ) :
    Local (membersFrom member first state) (membersFrom member' first state) := by
  intro s x rest hs
  fun_induction membersFrom member first state s generalizing x rest with
  | case1 => simp at hs
  | case2 first state s after ht =>
    cases hs
    obtain ⟨front, rfl, hskip⟩ := exists_skipSpace_cons (nameTurn_eq_done_iff.1 ht)
    refine ⟨front, rfl, fun more hshort => ?_⟩
    rw [membersFrom_eq, nameTurn_eq_done_iff.2 (hskip more hshort)]
    rfl
  | case3 => simp at hs
  | case4 => simp at hs
  | case5 first state s start ht name afterName hn state' after hm lt ih =>
    obtain ⟨front, rfl, hturn⟩ := exists_nameTurn ht
    obtain ⟨text, rfl, hname⟩ := local_literal hn
    obtain ⟨text', rfl, hmember⟩ := h state name hm
    obtain ⟨text'', rfl, hmembers⟩ := ih hs
    refine ⟨front ++ (text ++ (text' ++ text'')), by simp, fun more hshort => ?_⟩
    have hafter := (List.prefix_append_right_inj text'').2 hshort
    have hafter' := (List.prefix_append_right_inj text').2 hafter
    have hturn := hturn _ ((List.prefix_append_right_inj text).2 hafter')
    rw [List.append_assoc, List.append_assoc, List.append_assoc, membersFrom_eq, hturn]
    refine bind_eq_ok.2 ⟨_, rfl, bind_eq_ok.2 ⟨_, hname _ hafter', ?_⟩⟩
    exact bind_eq_ok.2 ⟨_, hmember _ hafter, hmembers more hshort⟩

end

/-! ## Values -/

theorem local_insertMember {value value' : Reader Value} (h : Local value value')
    (before : Members) (name : String) :
    Local (insertMember value before name) (insertMember value' before name) :=
  (local_afterColon h).map fun v => Members.insert name v before

/-- A value is read alike wherever its text ends, and if one more array or object may be open. -/
theorem local_value (depth : Nat) : Local (value depth) (value (depth + 1)) := by
  induction depth with
  | zero => exact local_byBracket (.fail _ _) (.fail _ _) local_scalar
  | succ depth ih =>
    have hitems := (local_itemsFrom ih true).map Value.array
    have hmembers := (local_membersFrom (local_insertMember ih) true []).map Value.object
    exact local_byBracket hitems hmembers local_scalar

theorem value_skipSpace (depth : Nat) (s : Bytes) : value depth (skipSpace s) = value depth s := by
  cases depth <;> simp only [value, Reader.byBracket, skipSpace_skipSpace]

/-- A value inside an array or object has a text, and that holds the value. -/
theorem exists_text_of_value {s rest : Bytes} {v : Value}
    (h : value (depthLimit - 1) s = .ok (v, rest)) :
    ∃ text, skipSpace s = text ++ rest ∧ decode text = .ok v := by
  rw [← value_skipSpace] at h
  obtain ⟨text, hs, hmore⟩ := local_value _ h
  have hread := hmore [] List.nil_prefix
  rw [List.append_nil] at hread
  exact ⟨text, hs, whole_eq_ok_iff.2 ⟨[], hread, rfl⟩⟩

end RegistryAuth.Json
