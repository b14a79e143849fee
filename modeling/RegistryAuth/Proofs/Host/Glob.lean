import Mathlib.Computability.Language
import RegistryAuth.Proofs.Host

/-!
# The language of a host pattern

A pattern is a glob: each `*` stands for any text and every other character for itself, so its
language is the product of those of its characters (`glob`). Matching a label decides membership
(`labelMatches_iff`). A pattern is cut at its dots, and of a product of labels with dots between
them the factors come back from the word if no `*` stands for a dot (`mem_glob_intercalate`). Main
statement: a host belongs to a pattern exactly if its labels belong to the globs of the pattern's
labels, one to one, and this is to belong to the glob of the whole in which no `*` stands for a dot
(`covers_iff_glob`).
-/

namespace RegistryAuth.Host

/-! ## Globs -/

/-- The texts that a character of a pattern stands for: a `*` for those of `wild`. -/
def letter (wild : Language Char) (p : Char) : Language Char := if p = '*' then wild else {[p]}

/-- The texts that a pattern stands for, each `*` for those of `wild`. -/
def glob (wild : Language Char) (pattern : List Char) : Language Char :=
  (pattern.map (letter wild)).prod

/-- The texts without a dot. -/
def undotted : Language Char := {text | '.' ∉ text}

theorem mem_top (text : List Char) : text ∈ (⊤ : Language Char) := Set.mem_univ text

theorem mem_undotted {text : List Char} : text ∈ undotted ↔ '.' ∉ text := Iff.rfl

theorem mem_singleton {text label : List Char} : label ∈ ({text} : Language Char) ↔ label = text :=
  Iff.rfl

section

variable {wild : Language Char} {label : List Char}

@[simp] theorem mem_glob_nil : label ∈ glob wild [] ↔ label = [] := Language.mem_one label

theorem mem_glob_cons {p : Char} {pattern : List Char} : label ∈ glob wild (p :: pattern) ↔
    ∃ front ∈ letter wild p, ∃ rest ∈ glob wild pattern, front ++ rest = label := by
  rw [glob, List.map_cons, List.prod_cons, Language.mem_mul]
  rfl

@[simp] theorem mem_glob_star {pattern : List Char} : label ∈ glob wild ('*' :: pattern) ↔
    ∃ front ∈ wild, ∃ rest ∈ glob wild pattern, front ++ rest = label :=
  mem_glob_cons

theorem mem_glob_char {p : Char} (hp : p ≠ '*') {pattern : List Char} :
    label ∈ glob wild (p :: pattern) ↔ ∃ rest ∈ glob wild pattern, p :: rest = label := by
  simp [mem_glob_cons, letter, hp, mem_singleton]

theorem mem_glob_append {pattern more : List Char} : label ∈ glob wild (pattern ++ more) ↔
    ∃ front ∈ glob wild pattern, ∃ rest ∈ glob wild more, front ++ rest = label := by
  rw [glob, List.map_append, List.prod_append, Language.mem_mul]
  rfl

/-- A pattern without `*` stands for itself only. -/
theorem mem_glob_of_no_star {pattern : List Char} (h : '*' ∉ pattern) :
    label ∈ glob wild pattern ↔ label = pattern := by
  induction pattern generalizing label with
  | nil => exact mem_glob_nil
  | cons p pattern ih =>
    rw [List.mem_cons, not_or] at h
    rw [mem_glob_char (Ne.symm h.1)]
    simp [ih h.2, eq_comm]

end

/-! ## One label -/

theorem someEnd_iff {accepts : List Char → Bool} {label : List Char} :
    someEnd accepts label = true ↔ ∃ front rest, front ++ rest = label ∧ accepts rest = true := by
  induction label with
  | nil => simp [someEnd]
  | cons c rest ih =>
    rw [someEnd, Bool.or_eq_true, ih]
    constructor
    · rintro (h | ⟨front, tail, rfl, ht⟩)
      · exact ⟨[], c :: rest, rfl, h⟩
      · exact ⟨c :: front, tail, rfl, ht⟩
    · rintro ⟨front, tail, h, ht⟩
      cases front with
      | nil => exact .inl (h ▸ ht)
      | cons d front =>
        rw [List.cons_append, List.cons.injEq] at h
        exact .inr ⟨front, tail, h.2, ht⟩

/-- Matching a label decides whether it belongs to the pattern's language. -/
theorem labelMatches_iff {pattern label : List Char} :
    labelMatches pattern label = true ↔ label ∈ glob ⊤ pattern := by
  induction pattern generalizing label with
  | nil => simp [labelMatches]
  | cons p pattern ih =>
    by_cases hp : p = '*'
    · subst hp
      rw [labelMatches.eq_def, mem_glob_star]
      simp only [if_true, someEnd_iff, ih, mem_top, true_and]
      grind
    · rw [labelMatches.eq_def, mem_glob_char hp]
      simp only [if_neg hp]
      cases label with
      | nil => simp
      | cons c rest => simp [ih, and_comm, @eq_comm _ p]

/-! ## Labels between dots -/

/-- In a pattern without dots a `*` may stand for texts without dots only, if no dot is wanted. -/
theorem mem_glob_undotted_iff {pattern : List Char} (h : '.' ∉ pattern) {label : List Char} :
    label ∈ glob undotted pattern ↔ '.' ∉ label ∧ label ∈ glob ⊤ pattern := by
  induction pattern generalizing label with
  | nil => simp +contextual
  | cons p pattern ih =>
    rw [List.mem_cons, not_or] at h
    by_cases hp : p = '*'
    · subst hp
      simp only [mem_glob_star, ih h.2, mem_undotted, mem_top, true_and]
      grind
    · simp only [mem_glob_char hp, ih h.2]
      grind

theorem dot_ne_star : '.' ≠ '*' := by decide

/-- A word for labels with dots between them is made of words for the labels. -/
theorem mem_glob_intercalate {wild : Language Char} {labels : List (List Char)} (h : labels ≠ [])
    {host : List Char} : host ∈ glob wild (['.'].intercalate labels) ↔
      ∃ parts, List.Forall₂ (fun label part => part ∈ glob wild label) labels parts ∧
        ['.'].intercalate parts = host := by
  induction labels generalizing host with
  | nil => exact absurd rfl h
  | cons label labels ih =>
    cases labels with
    | nil => simp [List.forall₂_cons_left_iff]
    | cons next labels =>
      rw [List.intercalate_cons_cons, List.append_assoc, List.singleton_append, mem_glob_append]
      simp only [mem_glob_char dot_ne_star, ih (List.cons_ne_nil next labels)]
      constructor
      · rintro ⟨part, hpart, _, ⟨_, ⟨parts, hparts, rfl⟩, rfl⟩, rfl⟩
        refine ⟨part :: parts, .cons hpart hparts, ?_⟩
        cases hparts with
        | cons => rw [List.intercalate_cons_cons, List.append_assoc, List.singleton_append]
      · rintro ⟨parts, hparts, rfl⟩
        cases hparts with
        | cons hpart hparts =>
          refine ⟨_, hpart, _, ⟨_, ⟨_, hparts, rfl⟩, rfl⟩, ?_⟩
          cases hparts with
          | cons => rw [List.intercalate_cons_cons, List.append_assoc, List.singleton_append]

/-- A `*` stands for no dot exactly if no part that is matched with a label holds one. -/
theorem forall₂_glob_undotted_iff {labels parts : List (List Char)} (h : ∀ l ∈ labels, '.' ∉ l) :
    List.Forall₂ (fun label part => part ∈ glob undotted label) labels parts ↔
      (∀ part ∈ parts, '.' ∉ part) ∧
        List.Forall₂ (fun label part => part ∈ glob ⊤ label) labels parts := by
  induction labels generalizing parts with
  | nil => simp +contextual [List.forall₂_nil_left_iff]
  | cons label labels ih =>
    rw [List.forall_mem_cons] at h
    cases parts with
    | nil => simp
    | cons part parts =>
      rw [List.forall₂_cons, List.forall₂_cons, List.forall_mem_cons, ih h.2,
        mem_glob_undotted_iff h.1, and_and_and_comm]

/-- In the glob of a host no `*` stands for a dot exactly if the labels are matched one to one. -/
theorem mem_glob_undotted_iff_forall₂ {pattern host : List Char} :
    host ∈ glob undotted pattern ↔ List.Forall₂ (fun label part => part ∈ glob ⊤ label)
      (pattern.splitOn '.') (host.splitOn '.') := by
  have hlabels : ∀ label ∈ pattern.splitOn '.', '.' ∉ label := fun _ => Text.not_mem_of_mem_splitOn
  have hparts : ∀ part ∈ host.splitOn '.', '.' ∉ part := fun _ => Text.not_mem_of_mem_splitOn
  have hmem : host ∈ glob undotted (['.'].intercalate (pattern.splitOn '.')) ↔ _ :=
    mem_glob_intercalate (List.splitOn_ne_nil '.' pattern)
  rw [List.intercalate_splitOn] at hmem
  simp only [hmem, forall₂_glob_undotted_iff hlabels]
  refine ⟨fun ⟨parts, ⟨hp, h⟩, hhost⟩ => ?_,
    fun h => ⟨_, ⟨hparts, h⟩, List.intercalate_splitOn '.'⟩⟩
  have hne : parts ≠ [] := by
    rintro rfl
    exact List.splitOn_ne_nil '.' pattern (List.forall₂_nil_right_iff.1 h)
  rwa [← hhost, List.splitOn_intercalate '.' hp hne]

/-! ## Hosts -/

theorem covers_of_isWildcard {pattern : String} (h : isWildcard pattern = true) (host : String) :
    covers pattern host = true ↔ List.Forall₂ (fun label part => part ∈ glob ⊤ label)
      (pattern.toList.splitOn '.') (host.toList.splitOn '.') := by
  rw [covers, if_pos h, Bool.and_eq_true, List.forall₂_iff_zip]
  simp [Text.split, List.zip_map, labelMatches_iff]

theorem covers_iff_forall₂ (pattern host : String) :
    covers pattern host = true ↔ List.Forall₂ (fun label part => part ∈ glob ⊤ label)
      (pattern.toList.splitOn '.') (host.toList.splitOn '.') := by
  by_cases h : isWildcard pattern = true
  · exact covers_of_isWildcard h host
  · have hstar : '*' ∉ pattern.toList := by simpa [isWildcard] using h
    rw [← mem_glob_undotted_iff_forall₂, mem_glob_of_no_star hstar, covers, if_neg h,
      decide_eq_true_eq, String.toList_inj, eq_comm]

/-- A host belongs to a pattern exactly if it has as many labels and each belongs to the glob of the
pattern's label in its place, also where the pattern has no `*` and is compared as it stands. This
is the same as to belong to the glob of the whole pattern in which no `*` stands for a dot. -/
theorem covers_iff_glob (pattern host : String) :
    (covers pattern host = true ↔
      (Text.split '.' pattern).length = (Text.split '.' host).length ∧
        ∀ i (hp : i < (Text.split '.' pattern).length) (hh : i < (Text.split '.' host).length),
          (Text.split '.' host)[i].toList ∈ glob ⊤ (Text.split '.' pattern)[i].toList) ∧
    (covers pattern host = true ↔ host.toList ∈ glob undotted pattern.toList) := by
  refine ⟨?_, (covers_iff_forall₂ pattern host).trans mem_glob_undotted_iff_forall₂.symm⟩
  rw [covers_iff_forall₂, List.forall₂_iff_get]
  simp [Text.split]

/-- Several stars in one label, none of which reaches over a dot. -/
example : covers "a*b*.r.io" "axbxb.r.io" = true ∧ covers "a*b*.r.io" "ax.b.r.io" = false := by
  decide

end RegistryAuth.Host
