import RegistryAuth.Proofs.Logged
import RegistryAuth.Proofs.NormalForm
import RegistryAuth.Proofs.RepositoryPath.Order
import RegistryAuth.Source
import Mathlib.Data.List.Induction

/-!
# Which entry of a source decides

Of the entries that cover a target, `Source.IsBest` picks one by segments of its path, then by
whether its host is a pattern, then by position. The search compares ranks, which count bytes:
`foldl_better` says which entry it finds, and `below_rank_iff` compares ranks of covering entries by
segments. Main statement: the search finds the best entry (`credentialFor_eq_best`).
-/

namespace RegistryAuth

open RepositoryPath (segments IsNormal liesUnder_iff eq_of_length_eq utf8ByteSize_lt_iff
  eq_of_utf8ByteSize_eq)

/-- Whether an entry covers a target. -/
def Entry.Covers (e : Entry) (t : Target) : Prop := e.scope.covers t.host t.path = true

instance (e : Entry) (t : Target) : Decidable (e.Covers t) :=
  inferInstanceAs (Decidable (_ = true))

/-! ## Ranks -/

namespace Rank

theorem below_iff {a b : Rank} : a.below b = true ↔
    a.pathBytes < b.pathBytes ∨
      a.pathBytes = b.pathBytes ∧ a.exactHost = false ∧ b.exactHost = true := by
  simp [below, and_assoc]

theorem below_trans {a b c : Rank} (h₁ : a.below b = true) (h₂ : b.below c = true) :
    a.below c = true := by
  rw [below_iff] at *
  grind

/-- What is not above a rank is below all that is above it. -/
theorem below_of_not_below {a b c : Rank} (h₁ : ¬ a.below b = true) (h₂ : a.below c = true) :
    b.below c = true := by
  rw [below_iff] at *
  grind

theorem not_below_self (a : Rank) : ¬ a.below a = true := by
  rw [below_iff]
  grind

end Rank

/-! ## The search -/

namespace Source

/-- What is the best entry after one more. -/
def better (t : Target) (best : Option Entry) (e : Entry) : Option Entry :=
  (consider t best e).value

theorem better_of_not_covers {t : Target} {e : Entry} (h : ¬ e.Covers t) (best : Option Entry) :
    better t best e = best := by
  simp only [better, consider, Entry.Covers] at *
  rw [ite_cond_eq_false _ _ (eq_false h)]
  rfl

theorem better_none {t : Target} {e : Entry} (h : e.Covers t) : better t none e = some e := by
  simp only [better, consider, Entry.Covers] at *
  rw [ite_cond_eq_true _ _ (eq_true h)]
  rfl

theorem better_some {t : Target} {e : Entry} (h : e.Covers t) (b : Entry) :
    better t (some b) e = some (if b.scope.rank.below e.scope.rank then e else b) := by
  simp only [better, consider, Entry.Covers] at *
  rw [ite_cond_eq_true _ _ (eq_true h)]
  rfl

theorem value_search (s : Source) (t : Target) :
    (s.search t).value = s.entries.foldl (better t) none := Logged.value_foldlM _ _ _

/-- Whether `e` is what a search through a list finds: it covers the target, every covering entry
before it is of lower rank and none after it is of higher rank. -/
def Finds (t : Target) (entries : List Entry) (e : Entry) : Prop :=
  ∃ before after, entries = before ++ e :: after ∧ e.Covers t ∧
    (∀ b ∈ before, b.Covers t → b.scope.rank.below e.scope.rank = true) ∧
    ∀ a ∈ after, a.Covers t → ¬ e.scope.rank.below a.scope.rank = true

theorem Finds.append_of_not_below {t : Target} {entries : List Entry} {e x : Entry}
    (h : Finds t entries e) (hx : x.Covers t → ¬ e.scope.rank.below x.scope.rank = true) :
    Finds t (entries ++ [x]) e := by
  obtain ⟨before, after, rfl, he, hb, ha⟩ := h
  refine ⟨before, after ++ [x], by simp, he, hb, fun a hm hc => ?_⟩
  rcases List.mem_append.mp hm with hm | hm
  · exact ha a hm hc
  · rw [List.mem_singleton] at hm
    subst hm
    exact hx hc

theorem Finds.append_of_below {t : Target} {entries : List Entry} {e x : Entry}
    (h : Finds t entries e) (hx : x.Covers t) (hr : e.scope.rank.below x.scope.rank = true) :
    Finds t (entries ++ [x]) x := by
  obtain ⟨before, after, rfl, he, hb, ha⟩ := h
  refine ⟨before ++ e :: after, [], rfl, hx, fun b hm hc => ?_, fun a hm => by simp at hm⟩
  rcases List.mem_append.mp hm with hm | hm
  · exact Rank.below_trans (hb b hm hc) hr
  rcases List.mem_cons.mp hm with rfl | hm
  · exact hr
  · exact Rank.below_of_not_below (ha b hm hc) hr

theorem Finds.mem {t : Target} {entries : List Entry} {e : Entry} (h : Finds t entries e) :
    e ∈ entries := by
  obtain ⟨before, after, rfl, -⟩ := h
  simp

theorem Finds.covers {t : Target} {entries : List Entry} {e : Entry} (h : Finds t entries e) :
    e.Covers t := by
  obtain ⟨before, after, -, he, -⟩ := h
  exact he

/-- No covering entry is of higher rank than the one that is found. -/
theorem Finds.not_below {t : Target} {entries : List Entry} {e x : Entry} (h : Finds t entries e)
    (hx : x ∈ entries) (hc : x.Covers t) : ¬ e.scope.rank.below x.scope.rank = true := by
  obtain ⟨before, after, rfl, -, hb, ha⟩ := h
  rcases List.mem_append.1 hx with hx | hx
  · exact fun hr => Rank.not_below_self _ (Rank.below_trans hr (hb x hx hc))
  rcases List.mem_cons.1 hx with rfl | hx
  · exact Rank.not_below_self _
  · exact ha x hx hc

/-- The search finds something as soon as an entry covers the target. By induction from the end of
the list: the last entry is the one compared last. -/
theorem foldl_better (t : Target) (entries : List Entry) :
    (entries.foldl (better t) none = none ∧ ∀ e ∈ entries, ¬ e.Covers t) ∨
      ∃ e, entries.foldl (better t) none = some e ∧ Finds t entries e := by
  induction entries using List.reverseRecOn with
  | nil => exact .inl ⟨rfl, by simp⟩
  | append_singleton entries x ih =>
    rw [List.foldl_append, List.foldl_cons, List.foldl_nil]
    by_cases hx : x.Covers t
    · right
      rcases ih with ⟨h, hn⟩ | ⟨e, h, hf⟩
      · rw [h, better_none hx]
        exact ⟨x, rfl, entries, [], rfl, hx, fun b hb hc => absurd hc (hn b hb), by simp⟩
      · rw [h, better_some hx]
        by_cases hr : e.scope.rank.below x.scope.rank = true
        · rw [ite_cond_eq_true _ _ (eq_true hr)]
          exact ⟨x, rfl, hf.append_of_below hx hr⟩
        · rw [ite_cond_eq_false _ _ (eq_false hr)]
          exact ⟨e, rfl, hf.append_of_not_below fun _ => hr⟩
    · rw [better_of_not_covers hx]
      rcases ih with ⟨h, hn⟩ | ⟨e, h, hf⟩
      · left
        refine ⟨h, fun e he => ?_⟩
        rcases List.mem_append.mp he with he | he
        · exact hn e he
        · rw [List.mem_singleton] at he; subst he; exact hx
      · exact .inr ⟨e, h, hf.append_of_not_below fun hc => absurd hc hx⟩

/-! ## The best entry -/

/-- Whether the entry at a position is the one for a target: it covers the target, no covering entry
has more segments in its path, none with the same path has an exact host while its own is a
pattern, and none before it is alike in both. -/
structure IsBest (s : Source) (t : Target) (i : Fin s.entries.length) : Prop where
  covers : (s.entries.get i).Covers t
  most : ∀ e ∈ s.entries, e.Covers t →
    (segments e.scope.path).length ≤ (segments (s.entries.get i).scope.path).length
  exact : (s.entries.get i).scope.isWildcard = true → ∀ e ∈ s.entries, e.Covers t →
    e.scope.path = (s.entries.get i).scope.path → e.scope.isWildcard = true
  first : ∀ j < i, (s.entries.get j).Covers t →
    ¬ ((s.entries.get j).scope.path = (s.entries.get i).scope.path ∧
      (s.entries.get j).scope.isWildcard = (s.entries.get i).scope.isWildcard)

/-- The path of a covering entry has its segments at the front of the target's. -/
theorem prefix_of_covers {e : Entry} {t : Target} (he : IsNormal e.scope.path)
    (ht : IsNormal t.path) (h : e.Covers t) : segments e.scope.path <+: segments t.path := by
  simp only [Entry.Covers, Scope.covers, Bool.and_eq_true] at h
  exact (liesUnder_iff ht he).mp h.2

section

variable {s : Source} {t : Target} (hs : ∀ e ∈ s.entries, IsNormal e.scope.path)
  (ht : IsNormal t.path)

include hs ht

/-- The ranks of two covering entries, by segments. -/
theorem below_rank_iff {a b : Entry} (ha : a ∈ s.entries) (hb : b ∈ s.entries) (ca : a.Covers t)
    (cb : b.Covers t) : a.scope.rank.below b.scope.rank = true ↔
      (segments a.scope.path).length < (segments b.scope.path).length ∨
        a.scope.path = b.scope.path ∧ a.scope.isWildcard = true ∧ b.scope.isWildcard = false := by
  have pa := prefix_of_covers (hs a ha) ht ca
  have pb := prefix_of_covers (hs b hb) ht cb
  have he : a.scope.path.utf8ByteSize = b.scope.path.utf8ByteSize ↔ a.scope.path = b.scope.path :=
    ⟨eq_of_utf8ByteSize_eq (hs a ha) (hs b hb) pa pb, fun h => h ▸ rfl⟩
  rw [Rank.below_iff, ← utf8ByteSize_lt_iff (hs a ha) (hs b hb) pa pb]
  simp [Scope.rank, he]

theorem exists_isBest_of_finds {e : Entry} (h : Finds t s.entries e) :
    ∃ i, s.IsBest t i ∧ s.entries.get i = e := by
  have hmem := h.mem
  have hmax {x : Entry} := h.not_below (x := x)
  obtain ⟨before, after, hl, he, hb, -⟩ := h
  have hlt : before.length < s.entries.length := by rw [hl]; simp
  have hget : s.entries.get ⟨before.length, hlt⟩ = e := by simp [hl]
  refine ⟨⟨before.length, hlt⟩, ⟨?_, ?_, ?_, ?_⟩, hget⟩ <;> rw [hget]
  · exact he
  · intro x hx hc
    have := hmax hx hc
    rw [below_rank_iff hs ht hmem hx he hc] at this
    omega
  · intro hw x hx hc hp
    have := hmax hx hc
    rw [below_rank_iff hs ht hmem hx he hc] at this
    simp only [hp, hw, true_and, not_or, Bool.not_eq_false] at this
    exact this.2
  · rintro ⟨j, hj⟩ hji hc ⟨hp, hw⟩
    have hji : j < before.length := hji
    have hbj : s.entries.get ⟨j, hj⟩ ∈ before := by
      simp only [hl, List.get_eq_getElem, List.getElem_append_left hji]
      exact List.getElem_mem hji
    have hr := hb _ hbj hc
    simp only [Scope.rank, hp, hw] at hr
    exact Rank.not_below_self _ hr

theorem isBest_unique {i j : Fin s.entries.length} (hi : s.IsBest t i) (hj : s.IsBest t j) :
    i = j := by
  have mi := List.get_mem s.entries i
  have mj := List.get_mem s.entries j
  have hlen := Nat.le_antisymm (hj.most _ mi hi.covers) (hi.most _ mj hj.covers)
  have hp := eq_of_length_eq (hs _ mi) (hs _ mj) (prefix_of_covers (hs _ mi) ht hi.covers)
    (prefix_of_covers (hs _ mj) ht hj.covers) hlen
  have hw : (s.entries.get i).scope.isWildcard = (s.entries.get j).scope.isWildcard := by
    rw [Bool.eq_iff_iff]
    exact ⟨fun h => hi.exact h _ mj hj.covers hp.symm, fun h => hj.exact h _ mi hi.covers hp⟩
  rcases Nat.lt_trichotomy i j with h | h | h
  · exact absurd ⟨hp, hw⟩ (hj.first i h hi.covers)
  · exact Fin.ext h
  · exact absurd ⟨hp.symm, hw.symm⟩ (hi.first j h hj.covers)

end

theorem value_credentialFor (s : Source) (t : Target) :
    (s.credentialFor t).value = (s.entries.foldl (better t) none).map (·.credential) := by
  rw [← value_search]
  rfl

/-- A source has no credential exactly if no entry covers the target, and else it gives that of its
best entry, of which there is one. On covering entries, bytes of the path order as its segments, as
long paths are equal, and the shorter one loses whatever its host. -/
theorem credentialFor_eq_best (s : Source) (t : Target) (hs : ∀ e ∈ s.entries, e.scope.Named)
    (ht : t.Made) :
    ((s.credentialFor t).value = none ↔ ∀ e ∈ s.entries, ¬ e.Covers t) ∧
    (∀ c, (s.credentialFor t).value = some c ↔
      ∃ i, s.IsBest t i ∧ (s.entries.get i).credential = c) ∧
    (∀ i j, s.IsBest t i → s.IsBest t j → i = j) ∧
    ∀ a ∈ s.entries, ∀ b ∈ s.entries, a.Covers t → b.Covers t →
      (a.scope.path.utf8ByteSize < b.scope.path.utf8ByteSize ↔
        (segments a.scope.path).length < (segments b.scope.path).length) ∧
      (a.scope.path.utf8ByteSize = b.scope.path.utf8ByteSize → a.scope.path = b.scope.path) ∧
      (a.scope.path.utf8ByteSize < b.scope.path.utf8ByteSize →
        ∀ i, s.IsBest t i → s.entries.get i ≠ a) := by
  have hs' : ∀ e ∈ s.entries, IsNormal e.scope.path := fun e he => Scope.isNormal_path (hs e he)
  have ht' := Target.isNormal_path ht
  refine ⟨?_, fun c => ?_, fun i j => isBest_unique hs' ht', fun a ha b hb ca cb => ?_⟩
  · rw [value_credentialFor, Option.map_eq_none_iff]
    rcases foldl_better t s.entries with ⟨h, hn⟩ | ⟨e, h, before, after, hl, he, -⟩
    · exact ⟨fun _ => hn, fun _ => h⟩
    · rw [h]
      constructor
      · intro h; cases h
      · intro hn; exact absurd he (hn e (by rw [hl]; simp))
  · rw [value_credentialFor, Option.map_eq_some_iff]
    rcases foldl_better t s.entries with ⟨h, hn⟩ | ⟨e, h, hf⟩
    · rw [h]
      constructor
      · rintro ⟨_, h, _⟩; cases h
      · rintro ⟨i, hi, -⟩; exact absurd hi.covers (hn _ (List.get_mem _ _))
    · obtain ⟨i, hi, hget⟩ := exists_isBest_of_finds hs' ht' hf
      rw [h]
      refine ⟨fun ⟨e', he', hc⟩ => ?_, fun ⟨j, hj, hc⟩ => ?_⟩
      · cases he'
        exact ⟨i, hi, hget ▸ hc⟩
      · rw [isBest_unique hs' ht' hj hi, hget] at hc
        exact ⟨e, rfl, hc⟩
  · have pa := prefix_of_covers (hs' a ha) ht' ca
    have pb := prefix_of_covers (hs' b hb) ht' cb
    have hlt := utf8ByteSize_lt_iff (hs' a ha) (hs' b hb) pa pb
    refine ⟨hlt, eq_of_utf8ByteSize_eq (hs' a ha) (hs' b hb) pa pb, fun h i hi e => ?_⟩
    have := hi.most b hb cb
    rw [e] at this
    have := hlt.mp h
    omega

/-- An entry for a whole host, and one for a path on the hosts of a pattern. -/
def hostAndPattern : Source :=
  ⟨[⟨⟨"eu.r.io", ""⟩, .bearer "host"⟩, ⟨⟨"*.r.io", "team"⟩, .bearer "pattern"⟩]⟩

theorem credentialFor_hostAndPattern :
    (∀ e ∈ hostAndPattern.entries, e.scope.Named) ∧
    (Target.ofHostAndPath "eu.r.io" "team/app").Made ∧
    (hostAndPattern.credentialFor (Target.ofHostAndPath "eu.r.io" "team/app")).value =
      some (.bearer "pattern") := by
  have hs : ∀ e ∈ hostAndPattern.entries, e.scope.Named := by
    have h₁ : Scope.parse "eu.r.io" = .ok ⟨"eu.r.io", ""⟩ := by decide
    have h₂ : Scope.parse "*.r.io/team" = .ok ⟨"*.r.io", "team"⟩ := by decide
    simp only [hostAndPattern, List.mem_cons, List.not_mem_nil, or_false, forall_eq_or_imp,
      forall_eq]
    exact ⟨⟨_, h₁⟩, _, h₂⟩
  have ht := Target.Made.ofHostAndPath "eu.r.io" "team/app"
  refine ⟨hs, ht, ((credentialFor_eq_best hostAndPattern _ hs ht).2.1 _).mpr
    ⟨⟨1, by decide⟩, ⟨?_, ?_, ?_, ?_⟩, rfl⟩⟩ <;> decide

end Source

end RegistryAuth
