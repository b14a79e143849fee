import RegistryAuth.Json.Skim
import RegistryAuth.Proofs.Json.Layout

/-!
# What is read can be passed over

Where a value can be read, `skim` passes over it and leaves the same rest (`skim_of_value`). The
converse fails, as `skim` looks at neither encoding, range nor depth. The induction is on the depth;
the loops over items and members are followed turn by turn, with any brackets open around them.
-/

namespace RegistryAuth.Json

/-! ## Literals -/

theorem eq_cons_of_pairByte {b : UInt8} {s rest : Bytes} (h : pairByte b s = .ok rest) :
    s = b :: rest := by
  cases s with
  | nil => cases h
  | cons c s =>
    rw [pairByte] at h
    split at h
    · next hc => rw [hc, Except.ok.inj h]
    · simp at h

theorem skipEscape_of_unit {s rest : Bytes} {n : Nat} (h : unit s = .ok (n, rest)) :
    skipEscape (unitMark :: s) = .ok ([], rest) := by
  have hu : letterEscape? unitMark = none := by decide
  simp [skipEscape, escapeBy, hu, Reader.map, h, Except.map]

theorem contentFrom_backslash {s rest : Bytes} (h : skipEscape s = .ok ([], rest)) :
    contentFrom skipping (backslash :: s) = contentFrom skipping rest := by
  have hq : backslash ≠ quote := by decide
  have hc : ¬ backslash < 0x20 := by decide
  rw [contentFrom_cons, if_neg hq, if_neg hc, if_pos rfl]
  show (skipEscape s >>= _) = _
  rw [h]
  show (contentFrom skipping rest).map _ = _
  cases contentFrom skipping rest <;> rfl

/-- After the first unit of a surrogate pair `skipLiteral` comes upon the second as another escape,
so it goes on alike from there and from the end of the pair. -/
theorem contentFrom_of_unitEscape {s after : Bytes} {c : Char}
    (h : unitEscape s = .ok (c, after)) : ∃ n middle, unit s = .ok (n, middle) ∧
      contentFrom skipping middle = contentFrom skipping after := by
  obtain ⟨⟨n, s₁⟩, h₁, h⟩ := bind_eq_ok.1 h
  refine ⟨n, s₁, h₁, ?_⟩
  dsimp only at h
  split at h
  · simp at h
  · split at h
    · obtain ⟨⟨second, s₂⟩, h₂, h⟩ := bind_eq_ok.1 h
      obtain ⟨t₁, hb, h₂⟩ := bind_eq_ok.1 h₂
      obtain ⟨t₂, hu, h₂⟩ := bind_eq_ok.1 h₂
      obtain ⟨⟨m, t₃⟩, hm, h₂⟩ := bind_eq_ok.1 h₂
      obtain ⟨-, rfl⟩ := Prod.mk.inj (Except.ok.inj h)
      dsimp only at h₂
      split at h₂
      · cases h₂
        rw [eq_cons_of_pairByte hb, eq_cons_of_pairByte hu]
        exact contentFrom_backslash (skipEscape_of_unit hm)
      · cases h₂
    · cases h
      rfl

theorem skipEscape_of_escape {s bytes after : Bytes} (h : escape s = .ok (bytes, after)) :
    ∃ middle, skipEscape s = .ok ([], middle) ∧
      contentFrom skipping middle = contentFrom skipping after := by
  cases s with
  | nil => cases h
  | cons mark rest =>
    simp only [escape, escapeBy] at h
    split at h
    · next c hc =>
      cases h
      exact ⟨after, by simp [skipEscape, escapeBy, hc], rfl⟩
    · split at h
      · next hm =>
        obtain ⟨⟨c, s₁⟩, hc, h⟩ := map_eq_ok.1 h
        cases h
        obtain ⟨n, middle, hu, hsame⟩ := contentFrom_of_unitEscape hc
        rw [hm]
        exact ⟨middle, skipEscape_of_unit hu, hsame⟩
      · simp at h

theorem contentFrom_skipping {s c rest : Bytes} (h : contentFrom reading s = .ok (c, rest)) :
    ∃ c', contentFrom skipping s = .ok (c', rest) := by
  fun_induction contentFrom reading s generalizing c rest with
  | case1 => simp at h
  | case2 tail =>
    cases h
    exact ⟨[], by rw [contentFrom_cons, if_pos rfl]⟩
  | case3 => simp at h
  | case4 => simp at h
  | case5 tail bytes after found lt hq hc ih =>
    obtain ⟨⟨more, rest⟩, hr, h⟩ := map_eq_ok.1 h
    cases h
    obtain ⟨c', h'⟩ := ih hr
    obtain ⟨middle, hm, hsame⟩ := skipEscape_of_escape found
    exact ⟨c', by rw [contentFrom_backslash hm, hsame, h']⟩
  | case6 b tail hq hc hb ih =>
    obtain ⟨⟨more, rest⟩, hr, h⟩ := map_eq_ok.1 h
    cases h
    obtain ⟨c', h'⟩ := ih hr
    exact ⟨b :: c', by rw [contentFrom_cons, if_neg hq, if_neg hc, if_neg hb, h']; rfl⟩

theorem skipLiteral_of_literal {s rest : Bytes} {x : String} (h : literal s = .ok (x, rest)) :
    skipLiteral s = .ok ((), rest) := by
  obtain ⟨⟨c, after⟩, hc, h⟩ := bind_eq_ok.1 h
  obtain ⟨y, -, h⟩ := bind_eq_ok.1 h
  cases h
  obtain ⟨c', h'⟩ := contentFrom_skipping hc
  show (contentFrom skipping s).map _ = _
  rw [h']
  rfl

/-! ## Numbers -/

theorem digits_of_digits {e e' : Cause} {s : Bytes} {r : Bytes × Bytes}
    (h : digits e s = .ok r) : digits e' s = .ok r := by
  cases s with
  | nil => cases h
  | cons b rest => exact h

theorem optional_of_optional {α : Type} {isMark : UInt8 → Bool} {absent : α} {r r' : Reader α}
    (hr : ∀ {s x}, r s = .ok x → r' s = .ok x) {s : Bytes} {x : α × Bytes}
    (h : optional isMark absent r s = .ok x) : optional isMark absent r' s = .ok x := by
  cases s with
  | nil => exact h
  | cons b rest =>
    rw [optional] at h ⊢
    split at h
    · next hb => rw [if_pos hb]; exact hr h
    · next hb => rw [if_neg hb]; exact h

theorem exponent_of_exponent {e e' : Cause} {s : Bytes} {r : Exponent × Bytes}
    (h : exponent e s = .ok r) : exponent e' s = .ok r := by
  obtain ⟨ds, hd, h⟩ := map_eq_ok.1 h
  exact map_eq_ok.2 ⟨ds, digits_of_digits hd, h⟩

/-- The cause for a missing digit does not matter where none is missing. -/
theorem numeral_of_numeral {e e' : Cause} {s : Bytes} {r : Numeral × Bytes}
    (h : numeral e s = .ok r) : numeral e' s = .ok r := by
  obtain ⟨⟨whole, s₁⟩, h₁, h⟩ := bind_eq_ok.1 h
  obtain ⟨⟨fraction, s₂⟩, h₂, h⟩ := bind_eq_ok.1 h
  obtain ⟨⟨x, s₃⟩, h₃, h⟩ := bind_eq_ok.1 h
  obtain ⟨⟨ds, s₀⟩, h₀, h₁⟩ := bind_eq_ok.1 h₁
  refine bind_eq_ok.2 ⟨(whole, s₁), bind_eq_ok.2 ⟨(ds, s₀), digits_of_digits h₀, h₁⟩, ?_⟩
  refine bind_eq_ok.2 ⟨(fraction, s₂), optional_of_optional digits_of_digits h₂, ?_⟩
  refine bind_eq_ok.2 ⟨(x, s₃), optional_of_optional (fun hr => ?_) h₃, h⟩
  obtain ⟨y, hy, hr⟩ := map_eq_ok.1 hr
  exact map_eq_ok.2 ⟨y, exponent_of_exponent hy, hr⟩

theorem skipNumber_of_number {s rest : Bytes} {n : Number} (h : number s = .ok (n, rest)) :
    skipNumber s = .ok ((), rest) := by
  obtain ⟨⟨x, after⟩, hx, h⟩ := bind_eq_ok.1 h
  obtain ⟨y, -, h⟩ := bind_eq_ok.1 h
  cases h
  exact map_eq_ok.2 ⟨(x, rest), numeral_of_numeral hx, rfl⟩

/-! ## Values -/

theorem skimScalar_of_scalar {s rest : Bytes} {v : Value} (h : scalar s = .ok (v, rest)) :
    skimScalar s = .ok ((), rest) := by
  have hword {expected tail : Bytes} {w : Value}
      (h : (word expected tail).map (id w, ·) = .ok (v, rest)) :
      (word expected tail).map ((), ·) = .ok ((), rest) := by
    obtain ⟨after, hw, h⟩ := map_eq_ok.1 h
    cases h
    exact map_eq_ok.2 ⟨rest, hw, rfl⟩
  cases s with
  | nil => cases h
  | cons b tail =>
    simp only [scalar, skimScalar, scalarBy] at h ⊢
    by_cases hn : b = 'n'.toUInt8
    · rw [if_pos hn] at h ⊢; exact hword h
    rw [if_neg hn] at h ⊢
    by_cases ht : b = 't'.toUInt8
    · rw [if_pos ht] at h ⊢; exact hword h
    rw [if_neg ht] at h ⊢
    by_cases hf : b = 'f'.toUInt8
    · rw [if_pos hf] at h ⊢; exact hword h
    rw [if_neg hf] at h ⊢
    by_cases hq : b = quote
    · rw [if_pos hq] at h ⊢
      obtain ⟨x, hx, -⟩ := Reader.map_read_eq_ok.1 h
      exact skipLiteral_of_literal hx
    rw [if_neg hq] at h ⊢
    by_cases hd : (isMinus b || isDigit b) = true
    · rw [if_pos hd] at h ⊢
      obtain ⟨x, hx, -⟩ := Reader.map_read_eq_ok.1 h
      exact skipNumber_of_number hx
    rw [if_neg hd] at h
    cases h

theorem skimFrom_skipSpace (opened : List Bracket) (s : Bytes) :
    skimFrom .value opened (skipSpace s) = skimFrom .value opened s := by
  rw [skimFrom_value, skimFrom_value, skipSpace_skipSpace]

/-- Whether `skim` passes over whatever a reader reads, whichever brackets are open. -/
def Skimmed {α : Type} (r : Reader α) : Prop :=
  ∀ {s rest : Bytes} {x : α}, r s = .ok (x, rest) →
    ∀ opened, skimFrom .value opened s = skimFrom (.next false) opened rest

theorem skimFrom_of_itemTurn_done {first : Bool} {s rest : Bytes}
    (h : itemTurn first s = .ok (.done rest)) (opened : List Bracket) :
    skimFrom (.next first) (.array :: opened) s = skimFrom (.next false) opened rest := by
  rw [skimFrom_next_cons, itemTurn_eq_done_iff.1 h]
  exact if_pos rfl

theorem skimFrom_of_itemTurn_more {first : Bool} {s start : Bytes}
    (h : itemTurn first s = .ok (.more start)) (opened : List Bracket) :
    skimFrom (.next first) (.array :: opened) s = skimFrom .value (.array :: opened) start := by
  obtain ⟨b, tail, hs, hb, h⟩ := itemTurn_eq_more h
  have hclose : ¬ b = Bracket.array.close := hb
  rw [skimFrom_next_cons, hs]
  dsimp only
  rw [if_neg hclose]
  rcases h with ⟨rfl, rfl⟩ | ⟨rfl, rfl, rfl, -⟩
  · rfl
  · rw [if_neg Bool.false_ne_true, if_pos rfl, skimFrom_skipSpace]
    rfl

theorem skimFrom_of_itemsFrom {α : Type} {item : Reader α} (hi : Skimmed item) {first : Bool}
    {s rest : Bytes} {xs : List α} (h : itemsFrom item first s = .ok (xs, rest))
    (opened : List Bracket) :
    skimFrom (.next first) (.array :: opened) s = skimFrom (.next false) opened rest := by
  fun_induction itemsFrom item first s generalizing xs rest with
  | case1 => simp at h
  | case2 first s _ ht =>
    cases h
    exact skimFrom_of_itemTurn_done ht opened
  | case3 => simp at h
  | case4 first s start ht y after hr lt ih =>
    obtain ⟨⟨ys, rest⟩, hrest, h⟩ := map_eq_ok.1 h
    cases h
    rw [skimFrom_of_itemTurn_more ht, hi hr, ih hrest]

theorem skimFrom_of_nameTurn_done {first : Bool} {s rest : Bytes}
    (h : nameTurn first s = .ok (.done rest)) (opened : List Bracket) :
    skimFrom (.next first) (.object :: opened) s = skimFrom (.next false) opened rest := by
  rw [skimFrom_next_cons, nameTurn_eq_done_iff.1 h]
  exact if_pos rfl

theorem skimName_of_literal {s tail after value : Bytes} {name : String}
    (hs : skipSpace s = quote :: tail) (hn : literal tail = .ok (name, after))
    (hc : colon after = .ok value) : skimName .object s = .ok value := by
  rw [skimName, hs]
  dsimp only
  rw [if_pos rfl, skipLiteral_of_literal hn]
  exact hc

theorem skimFrom_of_nameTurn_more {first : Bool} {s start after value : Bytes} {name : String}
    (h : nameTurn first s = .ok (.more start)) (hn : literal start = .ok (name, after))
    (hv : colon after = .ok value) (opened : List Bracket) :
    skimFrom (.next first) (.object :: opened) s = skimFrom .value (.object :: opened) value := by
  obtain ⟨b, tail, hs, hb, h⟩ := nameTurn_eq_more h
  have hclose : ¬ b = Bracket.object.close := hb
  rw [skimFrom_next_cons, hs]
  dsimp only
  rw [if_neg hclose]
  rcases h with ⟨rfl, rfl, rfl⟩ | ⟨rfl, rfl, ht⟩
  · have hs' : skipSpace (quote :: start) = quote :: start := by
      rw [← hs, skipSpace_skipSpace]
    rw [if_pos rfl, skimName_of_literal hs' hn hv]
    rfl
  · rw [if_neg Bool.false_ne_true, if_pos rfl, skimName_of_literal ht hn hv]
    rfl

theorem skimFrom_of_membersFrom {α σ : Type} {r : Reader α} (hr : Skimmed r)
    {member : σ → String → Reader σ}
    (hm : ∀ {state name s state' rest}, member state name s = .ok (state', rest) →
      ∃ x, r.afterColon s = .ok (x, rest))
    {first : Bool} {state x : σ} {s rest : Bytes}
    (h : membersFrom member first state s = .ok (x, rest)) (opened : List Bracket) :
    skimFrom (.next first) (.object :: opened) s = skimFrom (.next false) opened rest := by
  fun_induction membersFrom member first state s generalizing x rest with
  | case1 => simp at h
  | case2 first state s _ ht =>
    cases h
    exact skimFrom_of_nameTurn_done ht opened
  | case3 => simp at h
  | case4 => simp at h
  | case5 first state s start ht name afterName hn state' after hread lt ih =>
    obtain ⟨y, hy⟩ := hm hread
    obtain ⟨tail, hc, hy⟩ := bind_eq_ok.1 hy
    rw [skimFrom_of_nameTurn_more ht hn hc, hr hy, ih h]

theorem skimmed_byBracket {α : Type} {array object scalar : Reader α}
    (ha : ∀ {s rest x}, array s = .ok (x, rest) → ∀ opened,
      skimFrom (.next true) (.array :: opened) s = skimFrom (.next false) opened rest)
    (ho : ∀ {s rest x}, object s = .ok (x, rest) → ∀ opened,
      skimFrom (.next true) (.object :: opened) s = skimFrom (.next false) opened rest)
    (hs : ∀ {s rest x}, scalar s = .ok (x, rest) → skimScalar s = .ok ((), rest)) :
    Skimmed (.byBracket array object scalar) := by
  intro s rest x h opened
  rw [skimFrom_value]
  simp only [Reader.byBracket] at h
  cases hb : skipSpace s with
  | nil => simp [hb] at h
  | cons b tail =>
    rw [hb] at h
    dsimp only at h ⊢
    by_cases hna : b = '['.toUInt8
    · rw [if_pos hna] at h ⊢
      rw [ha h]
    rw [if_neg hna] at h ⊢
    by_cases hno : b = '\x7b'.toUInt8
    · rw [if_pos hno] at h ⊢
      rw [ho h]
    rw [if_neg hno] at h ⊢
    rw [hs h]
    rfl

theorem skimmed_value (depth : Nat) : Skimmed (value depth) := by
  induction depth with
  | zero =>
    exact skimmed_byBracket (fun h => by cases h) (fun h => by cases h) skimScalar_of_scalar
  | succ depth ih =>
    refine skimmed_byBracket (fun h opened => ?_) (fun h opened => ?_) skimScalar_of_scalar
    · obtain ⟨xs, hx, -⟩ := Reader.map_read_eq_ok.1 h
      exact skimFrom_of_itemsFrom ih hx opened
    · obtain ⟨ms, hx, -⟩ := Reader.map_read_eq_ok.1 h
      refine skimFrom_of_membersFrom ih (fun hm => ?_) hx opened
      obtain ⟨y, hy, -⟩ := Reader.map_read_eq_ok.1 hm
      exact ⟨y, hy⟩

theorem skim_of_value {depth : Nat} {s rest : Bytes} {v : Value}
    (h : value depth s = .ok (v, rest)) : skim s = .ok ((), rest) := by
  show (skimFrom .value [] s).map _ = _
  rw [skimmed_value depth h, skimFrom_next_nil]
  rfl

end RegistryAuth.Json
