import Mathlib.Data.List.Forall2
import RegistryAuth.Json.Printer
import RegistryAuth.Json.Record
import RegistryAuth.Proofs.Json.Written

/-!
# Written text is read back

What is written for a value is read off the start of any text that goes on with something else
(`Reader.Reads`). A character of a literal is written in one of three ways, and each stands for the
character again (`EscapedAs`, `contentFrom_escaped`). Arrays and objects are read back if their
parts are (`items_render`, `members_render`), whatever is made of the parts. Main statements: a
value without numbers is what its text decodes to (`decode_render`), and a record written field by
field is read back (`Record.decode_render`).
-/

namespace RegistryAuth.Json

open String (utf8EncodeChar)

/-! ## Literals -/

/-- The bytes that are written for a character in a literal. -/
def escapedBytes (c : Char) : Bytes := (escaped c).flatMap utf8EncodeChar

/-- Whether a byte stands for itself in a literal. -/
def IsPlain (b : UInt8) : Prop := b ≠ quote ∧ ¬ b < 0x20 ∧ b ≠ backslash

/-- The ways to write a character in a literal: by a letter, by its unit or as it is. -/
inductive EscapedAs (c : Char) : Bytes → Prop where
  | letter (mark : UInt8) (h : letterEscape? mark = some c) : EscapedAs c [backslash, mark]
  | unit {a b d e : UInt8} (h : unit? a b d e = some c.toNat) (hc : c.toNat < 0x20) :
      EscapedAs c [backslash, unitMark, a, b, d, e]
  | plain (h : ∀ b ∈ utf8EncodeChar c, IsPlain b) : EscapedAs c (utf8EncodeChar c)

theorem isPlain_of_mem_utf8EncodeChar {c : Char} (hquote : c ≠ '"') (hbackslash : c ≠ '\\')
    (hcontrol : ¬ c.toNat < 0x20) : ∀ b ∈ utf8EncodeChar c, IsPlain b := by
  have hplain (b : UInt8) : IsPlain b ↔ b.toNat ≠ 34 ∧ ¬ b.toNat < 32 ∧ b.toNat ≠ 92 := by
    rw [IsPlain, ne_eq, ne_eq, ← UInt8.toNat_inj, ← UInt8.toNat_inj, UInt8.lt_iff_toNat_lt]
    rfl
  have hval : c.val.toNat = c.toNat := rfl
  rw [ne_eq, ← Char.toNat_inj] at hquote hbackslash
  have h34 : '"'.toNat = 34 := rfl
  have h92 : '\\'.toNat = 92 := rfl
  simp only [hplain, utf8EncodeChar, hval]
  -- a lone byte is the character, and a byte of several is no character of ASCII
  split
  · simp
    omega
  · split
    · simp
      omega
    · split
      · simp
        omega
      · simp
        omega

theorem escapedBytes_of_control {n : Nat} (h : n < 0x20) :
    ['\\', 'u', '0', '0', hexDigit (n / 16), hexDigit n].flatMap utf8EncodeChar =
        [backslash, unitMark, 48, 48, (hexDigit (n / 16)).toUInt8, (hexDigit n).toUInt8] ∧
      unit? 48 48 (hexDigit (n / 16)).toUInt8 (hexDigit n).toUInt8 = some n := by
  revert n
  decide

theorem escapedAs_escapedBytes (c : Char) : EscapedAs c (escapedBytes c) := by
  unfold escapedBytes escaped
  split
  · next h =>
    rcases h with rfl | rfl
    · exact .letter quote (by decide)
    · exact .letter backslash (by decide)
  next hne =>
  split
  · next h => exact h ▸ .letter 'b'.toUInt8 (by decide)
  split
  · next h => exact h ▸ .letter 't'.toUInt8 (by decide)
  split
  · next h => exact h ▸ .letter 'n'.toUInt8 (by decide)
  split
  · next h => exact h ▸ .letter 'f'.toUInt8 (by decide)
  split
  · next h => exact h ▸ .letter 'r'.toUInt8 (by decide)
  split
  · next h =>
    obtain ⟨hbytes, hunit⟩ := escapedBytes_of_control h
    rw [hbytes]
    exact .unit hunit h
  · next h =>
    rw [not_or] at hne
    rw [List.flatMap_singleton]
    exact .plain (isPlain_of_mem_utf8EncodeChar hne.1 hne.2 h)

theorem contentFrom_of_escape {bytes after : Bytes} (rest : Bytes)
    (h : escape rest = .ok (bytes, after)) :
    contentFrom reading (backslash :: rest) =
      (contentFrom reading after).map fun found => (bytes ++ found.1, found.2) := by
  have hquote : backslash ≠ quote := by decide
  have hcontrol : ¬ backslash < 0x20 := by decide
  rw [contentFrom_cons, if_neg hquote, if_neg hcontrol, if_pos rfl]
  show (escape rest >>= _) = _
  rw [h]
  rfl

theorem contentFrom_of_plain {bytes : Bytes} (h : ∀ b ∈ bytes, IsPlain b) (rest : Bytes) :
    contentFrom reading (bytes ++ rest) =
      (contentFrom reading rest).map fun found => (bytes ++ found.1, found.2) := by
  induction bytes with
  | nil => cases hr : contentFrom reading rest <;> simp [Except.map, hr]
  | cons b bytes ih =>
    rw [List.forall_mem_cons] at h
    obtain ⟨hquote, hcontrol, hbackslash⟩ := h.1
    rw [List.cons_append, contentFrom_cons, if_neg hquote, if_neg hcontrol, if_neg hbackslash,
      ih h.2]
    cases contentFrom reading rest <;> rfl

/-- A character is read back in whichever way it is written. -/
theorem contentFrom_escapedAs {c : Char} {bytes : Bytes} (h : EscapedAs c bytes) (rest : Bytes) :
    contentFrom reading (bytes ++ rest) =
      (contentFrom reading rest).map fun found => (utf8EncodeChar c ++ found.1, found.2) := by
  cases h with
  | letter mark h =>
    refine contentFrom_of_escape (mark :: rest) ?_
    simp only [escape, escapeBy, h]
  | @unit a b d e h hc =>
    refine contentFrom_of_escape (unitMark :: a :: b :: d :: e :: rest) ?_
    have hmark : letterEscape? unitMark = none := by decide
    have htrailing : isTrailing c.toNat = false := by simp [isTrailing]; omega
    have hleading : isLeading c.toNat = false := by simp [isLeading]; omega
    simp [escape, escapeBy, hmark, Reader.map, unitEscape, Json.unit, h, htrailing, hleading, bind,
      Except.bind, pure, Except.pure, Except.map]
  | plain h => exact contentFrom_of_plain h rest

theorem contentFrom_escaped (cs : List Char) (rest : Bytes) :
    contentFrom reading (cs.flatMap escapedBytes ++ quote :: rest) =
      .ok (cs.flatMap utf8EncodeChar, rest) := by
  induction cs with
  | nil => rw [List.flatMap_nil, List.nil_append, contentFrom_cons, if_pos rfl]; rfl
  | cons c cs ih =>
    rw [List.flatMap_cons, List.append_assoc, contentFrom_escapedAs (escapedAs_escapedBytes c), ih]
    rfl

/-- A text is read back from its literal after the opening quote. -/
theorem literal_escaped (s : String) (rest : Bytes) :
    literal (s.toList.flatMap escapedBytes ++ quote :: rest) = .ok (s, rest) := by
  have htext : textOf (Text.utf8 s) = .ok s := by rw [textOf, Text.ofUtf8?_utf8]
  exact check_read_eq_ok.2 ⟨_, contentFrom_escaped s.toList rest, htext⟩

theorem utf8_renderText (s : String) :
    Text.utf8 (renderText s) = quote :: (s.toList.flatMap escapedBytes ++ [quote]) := by
  have hquote : utf8EncodeChar '"' = [quote] := by decide
  rw [renderText, Text.utf8, String.toList_ofList, List.cons_append, List.flatMap_cons,
    List.flatMap_append, List.flatMap_assoc, List.flatMap_singleton, hquote]
  rfl

/-! ## Reading back -/

/-- Whether a reader takes a text off the start of what follows it, and finds `x` in it. The text
begins neither with a blank nor with the end of an array. -/
structure Reader.Reads {α : Type} (r : Reader α) (text : String) (x : α) : Prop where
  read : ∀ rest, r (Text.utf8 text ++ rest) = .ok (x, rest)
  head : ∃ b tail, Text.utf8 text = b :: tail ∧ isSpace b = false ∧ b ≠ ']'.toUInt8

section

variable {α β : Type} {r : Reader α} {text : String} {x : α}

theorem Reader.Reads.map (h : r.Reads text x) (f : α → β) : (r.map f).Reads text (f x) where
  read rest := map_eq_ok.2 ⟨_, h.read rest, rfl⟩
  head := h.head

theorem Reader.Reads.whole (h : r.Reads text x) : r.whole (Text.utf8 text) = .ok x := by
  refine whole_eq_ok_iff.2 ⟨[], ?_, rfl⟩
  have hread := h.read []
  rwa [List.append_nil] at hread

theorem Reader.Reads.afterColon (h : r.Reads text x) : r.afterColon.Reads (":" ++ text) x where
  read rest := by
    rw [Text.utf8_append, List.append_assoc]
    exact bind_eq_ok.2 ⟨_, rfl, h.read rest⟩
  head := ⟨':'.toUInt8, Text.utf8 text, by rw [Text.utf8_append]; rfl, by decide, by decide⟩

end

theorem utf8_comma : Text.utf8 "," = [','.toUInt8] := rfl

theorem skipSpace_cons {b : UInt8} (h : isSpace b = false) (s : Bytes) :
    skipSpace (b :: s) = b :: s :=
  List.dropWhile_cons_of_neg (by simp [h])

section

variable {α : Type} {array object scalar : Reader α} {text : String} {x : α} {b : UInt8}
  {inner : Bytes} (htext : Text.utf8 text = b :: inner)
include htext

theorem reads_byBracket_array (hb : b = '['.toUInt8)
    (h : ∀ rest, array (inner ++ rest) = .ok (x, rest)) :
    (Reader.byBracket array object scalar).Reads text x where
  read rest := by
    rw [htext, hb, List.cons_append, byBracket_of_array (skipSpace_cons (by decide) _), h]
  head := ⟨b, inner, htext, by rw [hb]; decide, by rw [hb]; decide⟩

theorem reads_byBracket_object (hb : b = '\x7b'.toUInt8)
    (h : ∀ rest, object (inner ++ rest) = .ok (x, rest)) :
    (Reader.byBracket array object scalar).Reads text x where
  read rest := by
    rw [htext, hb, List.cons_append, byBracket_of_object (skipSpace_cons (by decide) _), h]
  head := ⟨b, inner, htext, by rw [hb]; decide, by rw [hb]; decide⟩

theorem reads_byBracket_scalar (hspace : isSpace b = false)
    (hb : b ∉ ['['.toUInt8, '\x7b'.toUInt8, ']'.toUInt8])
    (h : ∀ rest, scalar (Text.utf8 text ++ rest) = .ok (x, rest)) :
    (Reader.byBracket array object scalar).Reads text x := by
  simp only [List.mem_cons, List.not_mem_nil, or_false, not_or] at hb
  refine ⟨fun rest => ?_, b, inner, htext, hspace, hb.2.2⟩
  have hread := h rest
  rw [htext, List.cons_append] at hread ⊢
  rw [byBracket_of_scalar (skipSpace_cons hspace _) hb.1 hb.2.1, hread]

end

/-! ## Values that are neither array nor object -/

theorem word_append (expected rest : Bytes) : word expected (expected ++ rest) = .ok rest := by
  induction expected with
  | nil => rfl
  | cons b expected ih => rw [List.cons_append, word, if_pos rfl, ih]

theorem scalar_null (rest : Bytes) : scalar (Text.utf8 "null" ++ rest) = .ok (.null, rest) :=
  map_eq_ok.2 ⟨rest, word_append (Text.utf8 "ull") rest, rfl⟩

theorem scalar_true (rest : Bytes) : scalar (Text.utf8 "true" ++ rest) = .ok (.bool true, rest) :=
  map_eq_ok.2 ⟨rest, word_append (Text.utf8 "rue") rest, rfl⟩

theorem scalar_false (rest : Bytes) :
    scalar (Text.utf8 "false" ++ rest) = .ok (.bool false, rest) :=
  map_eq_ok.2 ⟨rest, word_append (Text.utf8 "alse") rest, rfl⟩

theorem scalar_renderText (s : String) (rest : Bytes) :
    scalar (Text.utf8 (renderText s) ++ rest) = .ok (.string s, rest) := by
  rw [utf8_renderText, List.cons_append, List.append_assoc]
  show (literal.map Value.string) (s.toList.flatMap escapedBytes ++ quote :: rest) = _
  exact map_eq_ok.2 ⟨_, literal_escaped s rest, rfl⟩

theorem reads_readText (s : String) : readText.Reads (renderText s) s := by
  refine reads_byBracket_scalar (utf8_renderText s) (by decide) (by decide) fun rest => ?_
  exact bind_eq_ok.2 ⟨_, scalar_renderText s rest, rfl⟩

/-! ## Arrays -/

section

variable {α : Type} {item : Reader α} {text : String} {x : α}

theorem Reader.Reads.itemTurn_first (h : item.Reads text x) (tail : Bytes) :
    itemTurn true (Text.utf8 text ++ tail) = .ok (.more (Text.utf8 text ++ tail)) := by
  obtain ⟨b, inner, htext, hspace, hend⟩ := h.head
  rw [htext, List.cons_append, itemTurn, skipSpace_cons hspace]
  simp only [if_neg hend, if_true]

theorem Reader.Reads.itemTurn_comma (h : item.Reads text x) (tail : Bytes) :
    itemTurn false (','.toUInt8 :: (Text.utf8 text ++ tail)) =
      .ok (.more (Text.utf8 text ++ tail)) := by
  obtain ⟨b, inner, htext, hspace, hend⟩ := h.head
  have hcomma : ','.toUInt8 ≠ ']'.toUInt8 := by decide
  rw [htext, List.cons_append, itemTurn, skipSpace_cons (by decide)]
  simp only [if_neg hcomma, if_neg Bool.false_ne_true, if_true, skipSpace_cons hspace, if_neg hend]

variable {vs : List Value} {xs : List α}

theorem itemsFrom_of_more {first : Bool} {s tail rest : Bytes}
    (hturn : itemTurn first s = .ok (.more (Text.utf8 text ++ tail))) (h : item.Reads text x)
    (htail : itemsFrom item false tail = .ok (xs, rest)) :
    itemsFrom item first s = .ok (x :: xs, rest) := by
  rw [itemsFrom_eq, hturn]
  refine bind_eq_ok.2 ⟨_, rfl, ?_⟩
  refine bind_eq_ok.2 ⟨_, h.read tail, ?_⟩
  exact bind_eq_ok.2 ⟨_, htail, rfl⟩

/-- After the first item every other one stands behind a comma. -/
theorem itemsFrom_render (h : List.Forall₂ (fun v x => item.Reads v.render x) vs xs)
    (rest : Bytes) :
    itemsFrom item false (Text.utf8 (renderItems vs) ++ ']'.toUInt8 :: rest) = .ok (xs, rest) := by
  induction h with
  | nil =>
    rw [itemsFrom_eq, renderItems]
    rfl
  | @cons v x vs xs h _ ih =>
    have hcomma : Text.utf8 (renderItems (v :: vs)) ++ ']'.toUInt8 :: rest = ','.toUInt8 ::
        (Text.utf8 v.render ++ (Text.utf8 (renderItems vs) ++ ']'.toUInt8 :: rest)) := by
      rw [renderItems, Text.utf8_append, Text.utf8_append, utf8_comma, List.append_assoc,
        List.append_assoc, List.singleton_append]
    rw [hcomma]
    exact itemsFrom_of_more (h.itemTurn_comma _) h ih

/-- An array is read back item by item. -/
theorem items_render (h : List.Forall₂ (fun v x => item.Reads v.render x) vs xs) :
    ∃ inner, Text.utf8 (Value.array vs).render = '['.toUInt8 :: inner ∧
      ∀ rest, items item (inner ++ rest) = .ok (xs, rest) := by
  cases h with
  | nil =>
    refine ⟨[']'.toUInt8], by rw [Value.render]; rfl, fun rest => ?_⟩
    show itemsFrom item true (']'.toUInt8 :: rest) = _
    rw [itemsFrom_eq]
    rfl
  | @cons v x vs xs h hs =>
    refine ⟨Text.utf8 v.render ++ (Text.utf8 (renderItems vs) ++ [']'.toUInt8]), ?_,
      fun rest => ?_⟩
    · have hopen : Text.utf8 "[" = ['['.toUInt8] := rfl
      have hclose : Text.utf8 "]" = [']'.toUInt8] := rfl
      simp only [Value.render, Text.utf8_append, List.append_assoc, hopen, hclose,
        List.cons_append, List.nil_append]
    · rw [List.append_assoc, List.append_assoc]
      exact itemsFrom_of_more (h.itemTurn_first _) h (itemsFrom_render hs rest)

end

/-! ## Objects -/

section

variable {σ : Type} {member : σ → String → Reader σ}

/-- Whether reading the members of an object one after the other, each written compactly, leads from
a state to another. -/
inductive Fills (member : σ → String → Reader σ) : σ → Members → σ → Prop where
  | nil (state : σ) : Fills member state [] state
  | cons {state middle last : σ} {name : String} {v : Value} {ms : Members}
      (h : (member state name).Reads (":" ++ v.render) middle) (hms : Fills member middle ms last) :
      Fills member state ((name, v) :: ms) last

theorem nameTurn_first (s : Bytes) : nameTurn true (quote :: s) = .ok (.more s) := by
  have hbrace : quote ≠ '\x7d'.toUInt8 := by decide
  rw [nameTurn, skipSpace_cons (by decide)]
  simp only [if_neg hbrace, if_true]

theorem nameTurn_comma (s : Bytes) :
    nameTurn false (','.toUInt8 :: quote :: s) = .ok (.more s) := by
  have hbrace : ','.toUInt8 ≠ '\x7d'.toUInt8 := by decide
  have hspace : isSpace quote = false := by decide
  rw [nameTurn, skipSpace_cons (by decide)]
  simp only [if_neg hbrace, if_neg Bool.false_ne_true, if_true, skipSpace_cons hspace]

variable {state middle last : σ} {name : String} {v : Value} {ms : Members}

theorem membersFrom_of_more {first : Bool} {s tail rest : Bytes}
    (hturn : nameTurn first s = .ok (.more (name.toList.flatMap escapedBytes ++
      quote :: (Text.utf8 (":" ++ v.render) ++ tail))))
    (h : (member state name).Reads (":" ++ v.render) middle)
    (htail : membersFrom member false middle tail = .ok (last, rest)) :
    membersFrom member first state s = .ok (last, rest) := by
  rw [membersFrom_eq, hturn]
  refine bind_eq_ok.2 ⟨_, rfl, ?_⟩
  refine bind_eq_ok.2 ⟨_, literal_escaped name _, ?_⟩
  exact bind_eq_ok.2 ⟨_, h.read tail, htail⟩

theorem utf8_renderMember (name : String) (v : Value) (tail : Bytes) :
    Text.utf8 (renderMember (name, v)) ++ tail = quote :: (name.toList.flatMap escapedBytes ++
      quote :: (Text.utf8 (":" ++ v.render) ++ tail)) := by
  rw [renderMember, String.append_assoc, Text.utf8_append, utf8_renderText]
  simp only [List.cons_append, List.append_assoc, List.nil_append]

/-- After the first member every other one stands behind a comma. -/
theorem membersFrom_render (h : Fills member state ms last) (rest : Bytes) :
    membersFrom member false state (Text.utf8 (renderMembers ms) ++ '\x7d'.toUInt8 :: rest) =
      .ok (last, rest) := by
  induction h with
  | nil state =>
    rw [membersFrom_eq, renderMembers]
    rfl
  | @cons state middle last name v ms h _ ih =>
    have hcomma : Text.utf8 (renderMembers ((name, v) :: ms)) ++ '\x7d'.toUInt8 :: rest =
        ','.toUInt8 :: (Text.utf8 (renderMember (name, v)) ++
          (Text.utf8 (renderMembers ms) ++ '\x7d'.toUInt8 :: rest)) := by
      rw [renderMembers, Text.utf8_append, Text.utf8_append, utf8_comma, List.append_assoc,
        List.append_assoc, List.singleton_append]
    rw [hcomma, utf8_renderMember]
    exact membersFrom_of_more (nameTurn_comma _) h ih

/-- An object is read back member by member. -/
theorem members_render (h : Fills member state ms last) :
    ∃ inner, Text.utf8 (Value.object ms).render = '\x7b'.toUInt8 :: inner ∧
      ∀ rest, members member state (inner ++ rest) = .ok (last, rest) := by
  cases h with
  | nil =>
    refine ⟨['\x7d'.toUInt8], by rw [Value.render]; rfl, fun rest => ?_⟩
    show membersFrom member true state ('\x7d'.toUInt8 :: rest) = _
    rw [membersFrom_eq]
    rfl
  | @cons _ middle _ name v ms h hms =>
    refine ⟨Text.utf8 (renderMember (name, v)) ++
      (Text.utf8 (renderMembers ms) ++ ['\x7d'.toUInt8]), ?_, fun rest => ?_⟩
    · have hopen : Text.utf8 "\x7b" = ['\x7b'.toUInt8] := rfl
      have hclose : Text.utf8 "\x7d" = ['\x7d'.toUInt8] := rfl
      simp only [Value.render, Text.utf8_append, List.append_assoc, hopen, hclose,
        List.cons_append, List.nil_append]
    · rw [List.append_assoc, List.append_assoc, utf8_renderMember]
      exact membersFrom_of_more (nameTurn_first _) h (membersFrom_render hms rest)

end

/-! ## Values -/

/-- Whether a value is read back from its text where so many arrays and objects may be open at once:
no name stands twice in an object, and no number is in it, since where a number ends depends on what
comes after it. -/
inductive Value.Legible : Nat → Value → Prop where
  | null (depth : Nat) : Legible depth .null
  | bool (depth : Nat) (b : Bool) : Legible depth (.bool b)
  | string (depth : Nat) (s : String) : Legible depth (.string s)
  | array {depth : Nat} {vs : List Value} (h : ∀ v ∈ vs, Legible depth v) :
      Legible (depth + 1) (.array vs)
  | object {depth : Nat} {ms : Members} (hnames : ms.names.Nodup)
      (h : ∀ m ∈ ms, Legible depth m.2) : Legible (depth + 1) (.object ms)

theorem reads_value_of_scalar {text : String} {v : Value} {b : UInt8} {inner : Bytes}
    (htext : Text.utf8 text = b :: inner) (hspace : isSpace b = false)
    (hb : b ∉ ['['.toUInt8, '\x7b'.toUInt8, ']'.toUInt8])
    (h : ∀ rest, scalar (Text.utf8 text ++ rest) = .ok (v, rest)) (depth : Nat) :
    (value depth).Reads text v := by
  cases depth <;> exact reads_byBracket_scalar htext hspace hb h

theorem insert_of_not_mem {name : String} {ms : Members} (h : name ∉ ms.names) (v : Value) :
    ms.insert name v = ms ++ [(name, v)] := by
  induction ms with
  | nil => rfl
  | cons m ms ih =>
    rw [Members.names, List.map_cons, List.mem_cons, not_or] at h
    rw [Members.insert, if_neg (Ne.symm h.1), ih h.2, List.cons_append]

/-- Members of new names come after those that are there. -/
theorem fills_insertMember {r : Reader Value} {ms : Members}
    (h : ∀ m ∈ ms, r.Reads m.2.render m.2) (before : Members)
    (hnames : (Members.names (before ++ ms)).Nodup) :
    Fills (insertMember r) before ms (before ++ ms) := by
  induction ms generalizing before with
  | nil => rw [List.append_nil]; exact .nil before
  | cons m ms ih =>
    obtain ⟨name, v⟩ := m
    rw [List.forall_mem_cons] at h
    rw [List.append_cons] at hnames ⊢
    have hnew : name ∉ before.names := fun hmem => by
      simp only [Members.names, List.map_append, List.nodup_append] at hnames
      exact hnames.1.2.2 name hmem name (by simp) rfl
    have hv := h.1.afterColon.map (before.insert name)
    rw [insert_of_not_mem hnew] at hv
    exact .cons hv (ih h.2 _ hnames)

theorem reads_of_legible {depth : Nat} {v : Value} (h : v.Legible depth) :
    (value depth).Reads v.render v := by
  induction h with
  | null depth => exact reads_value_of_scalar rfl (by decide) (by decide) scalar_null depth
  | bool depth b =>
    cases b with
    | false => exact reads_value_of_scalar rfl (by decide) (by decide) scalar_false depth
    | true => exact reads_value_of_scalar rfl (by decide) (by decide) scalar_true depth
  | string depth s =>
    rw [Value.render]
    exact reads_value_of_scalar (utf8_renderText s) (by decide) (by decide) (scalar_renderText s)
      depth
  | @array depth vs _ ih =>
    have hitems : List.Forall₂ (fun v x => (value depth).Reads v.render x) vs vs :=
      List.forall₂_same.2 ih
    obtain ⟨inner, htext, hread⟩ := items_render hitems
    exact reads_byBracket_array htext rfl fun rest => map_eq_ok.2 ⟨_, hread rest, rfl⟩
  | @object depth ms hnames _ ih =>
    obtain ⟨inner, htext, hread⟩ := members_render (fills_insertMember ih [] hnames)
    exact reads_byBracket_object htext rfl fun rest => map_eq_ok.2 ⟨_, hread rest, rfl⟩

/-- The text of a value decodes to the value. -/
theorem decode_render {v : Value} (h : v.Legible depthLimit) :
    decode (Text.utf8 v.render) = .ok v :=
  (reads_of_legible h).whole

theorem reads_readTexts (ss : List String) :
    readTexts.Reads (Value.array (ss.map .string)).render ss := by
  have hitems :
      List.Forall₂ (fun v x => readText.Reads v.render x) (ss.map Value.string) ss := by
    rw [List.forall₂_map_left_iff, List.forall₂_same]
    intro s _
    rw [Value.render]
    exact reads_readText s
  obtain ⟨inner, htext, hread⟩ := items_render hitems
  exact reads_byBracket_array htext rfl hread

/-! ## Records -/

section

variable {σ α : Type} {r : Record σ}

/-- A field that is not yet read is read from the member of its name. -/
theorem Record.reads_member {name : String} {required : Bool} {get : σ → Option α}
    {set : σ → α → σ} {reader : Reader α} {record : σ} {v : Value} {x : α}
    (hfield : r.fields.find? (·.name = name) = some (.of name required get set reader))
    (hget : get record = none) (h : reader.Reads v.render x) :
    (r.member record name).Reads (":" ++ v.render) (set record x) := by
  have hread : (Field.of name required get set reader).isRead record = false := by
    show (get record).isSome = false
    rw [hget]
    rfl
  rw [Record.member, hfield]
  simp only [hread, Bool.false_eq_true, if_false]
  exact (h.map (set record)).afterColon

/-- A record is read back from the object that its fields are written to. -/
theorem Record.decode_render {ms : Members} {x : σ} (h : Fills r.member r.blank ms x)
    (hcomplete : r.complete x = .ok x) : r.decode (Text.utf8 (Value.object ms).render) = .ok x := by
  obtain ⟨inner, htext, hread⟩ := members_render h
  have hobject (rest : Bytes) : r.objectReader (inner ++ rest) = .ok (x, rest) :=
    check_read_eq_ok.2 ⟨x, hread rest, hcomplete⟩
  exact (reads_byBracket_object htext rfl hobject).whole

end

end RegistryAuth.Json
