import Mathlib.Logic.Equiv.Fin.Rotate
import RegistryAuth.Proofs.Source.Specificity

/-!
# When the order of entries matters

Two entries that cover a target and are alike in path and kind of host are tied: they have the same
scope, or both hosts are patterns (`tied_of_covers`). So another order of the entries has the same
best entry if it leaves tied ones in their order (`isBest_reordered`). Main statement: such an order
does not change what a source gives (`value_credentialFor_reordered`).
-/

namespace RegistryAuth

open RepositoryPath (segments IsNormal)

/-- Whether nothing but their order tells two entries apart: their scopes are equal, or both hosts
are patterns and the paths are equal. -/
def Entry.Tied (a b : Entry) : Prop :=
  a.scope = b.scope ∨
    a.scope.isWildcard = true ∧ b.scope.isWildcard = true ∧ a.scope.path = b.scope.path

instance (a b : Entry) : Decidable (a.Tied b) := inferInstanceAs (Decidable (_ ∨ _))

/-- A host that is no pattern covers itself alone. -/
theorem Entry.host_of_covers {e : Entry} {t : Target} (h : e.Covers t)
    (hw : e.scope.isWildcard = false) : e.scope.host = t.host := by
  simp only [Covers, Scope.covers, Bool.and_eq_true] at h
  simp only [Scope.isWildcard] at hw
  simpa [Host.covers, hw] using h.1

theorem Entry.tied_of_covers {a b : Entry} {t : Target} (ha : a.Covers t) (hb : b.Covers t)
    (hp : a.scope.path = b.scope.path) (hw : a.scope.isWildcard = b.scope.isWildcard) :
    a.Tied b := by
  cases hwb : b.scope.isWildcard with
  | true => exact .inr ⟨hw.trans hwb, hwb, hp⟩
  | false =>
    have hh : a.scope.host = b.scope.host := by
      rw [host_of_covers ha (hw.trans hwb), host_of_covers hb hwb]
    left
    rcases hsa : a.scope with ⟨host, path⟩
    rcases hsb : b.scope with ⟨host', path'⟩
    rw [hsa, hsb] at hh hp
    rw [Scope.mk.injEq]
    exact ⟨hh, hp⟩

namespace Source

/-! ## The best entry decides -/

section

variable {s : Source} {t : Target} (hs : ∀ e ∈ s.entries, IsNormal e.scope.path)
  (ht : IsNormal t.path)

include hs ht

theorem exists_isBest {e : Entry} (he : e ∈ s.entries) (hc : e.Covers t) : ∃ i, s.IsBest t i := by
  rcases foldl_better t s.entries with ⟨-, hn⟩ | ⟨found, -, hf⟩
  · exact absurd hc (hn e he)
  · obtain ⟨i, hi, -⟩ := exists_isBest_of_finds hs ht hf
    exact ⟨i, hi⟩

theorem value_credentialFor_of_isBest {i : Fin s.entries.length} (hi : s.IsBest t i) :
    (s.credentialFor t).value = some (s.entries.get i).credential := by
  rw [value_credentialFor]
  rcases foldl_better t s.entries with ⟨-, hn⟩ | ⟨found, h, hf⟩
  · exact absurd hi.covers (hn _ (List.get_mem _ _))
  · obtain ⟨j, hj, hget⟩ := exists_isBest_of_finds hs ht hf
    rw [h, isBest_unique hs ht hi hj, hget]
    rfl

end

theorem value_credentialFor_of_not_covers {s : Source} {t : Target}
    (h : ∀ e ∈ s.entries, ¬ e.Covers t) : (s.credentialFor t).value = none := by
  rw [value_credentialFor]
  rcases foldl_better t s.entries with ⟨hf, -⟩ | ⟨found, -, before, after, hl, hc, -⟩
  · rw [hf]
    rfl
  · exact absurd hc (h found (by rw [hl]; simp))

/-! ## Another order -/

/-- The source with its entries in another order: position `i` takes the entry of `order i`. -/
def reordered (s : Source) (order : Equiv.Perm (Fin s.entries.length)) : Source :=
  ⟨List.ofFn fun i => s.entries.get (order i)⟩

/-- Whether tied entries stay in their order. -/
def KeepsTies (s : Source) (order : Equiv.Perm (Fin s.entries.length)) : Prop :=
  ∀ i j, i < j → (s.entries.get (order i)).Tied (s.entries.get (order j)) → order i < order j

instance (s : Source) (order : Equiv.Perm (Fin s.entries.length)) : Decidable (s.KeepsTies order) :=
  inferInstanceAs (Decidable (∀ i j, i < j → _ → _))

variable {s : Source} {order : Equiv.Perm (Fin s.entries.length)}

theorem length_reordered : (s.reordered order).entries.length = s.entries.length :=
  List.length_ofFn

/-- The position that the entry at a position of another order had before. -/
def origin (i : Fin (s.reordered order).entries.length) : Fin s.entries.length :=
  order (i.cast length_reordered)

theorem exists_origin (order : Equiv.Perm (Fin s.entries.length)) (i : Fin s.entries.length) :
    ∃ j : Fin (s.reordered order).entries.length, origin j = i :=
  ⟨(order.symm i).cast length_reordered.symm, order.apply_symm_apply i⟩

theorem get_reordered (i : Fin (s.reordered order).entries.length) :
    (s.reordered order).entries.get i = s.entries.get (origin i) :=
  List.getElem_ofFn (f := fun i => s.entries.get (order i)) i.isLt

theorem mem_reordered {e : Entry} : e ∈ (s.reordered order).entries ↔ e ∈ s.entries := by
  rw [List.mem_iff_get, List.mem_iff_get]
  refine ⟨fun ⟨i, hi⟩ => ⟨origin i, get_reordered i ▸ hi⟩, fun ⟨i, hi⟩ => ?_⟩
  obtain ⟨j, rfl⟩ := exists_origin order i
  exact ⟨j, (get_reordered j).trans hi⟩

theorem isBest_reordered {t : Target} (h : s.KeepsTies order)
    {i : Fin (s.reordered order).entries.length} (hi : s.IsBest t (origin i)) :
    (s.reordered order).IsBest t i := by
  constructor
  · rw [get_reordered]
    exact hi.covers
  · intro e he hc
    rw [get_reordered]
    exact hi.most e (mem_reordered.1 he) hc
  · intro hw e he hc hp
    rw [get_reordered] at hw hp
    exact hi.exact hw e (mem_reordered.1 he) hc hp
  · intro j hj hc halike
    rw [get_reordered] at hc
    rw [get_reordered, get_reordered] at halike
    have htied := Entry.tied_of_covers hc hi.covers halike.1 halike.2
    exact hi.first (origin j) (h _ _ hj htied) hc halike

/-- Entries may be put in any order that leaves those with the same scope in theirs, and those with
the same path on patterns: for every target the source gives the same. -/
theorem value_credentialFor_reordered (s : Source) (hs : ∀ e ∈ s.entries, e.scope.Named)
    (t : Target) (ht : t.Made) (order : Equiv.Perm (Fin s.entries.length))
    (h : s.KeepsTies order) :
    ((s.reordered order).credentialFor t).value = (s.credentialFor t).value := by
  have hs' : ∀ e ∈ s.entries, IsNormal e.scope.path := fun e he => Scope.isNormal_path (hs e he)
  have hr : ∀ e ∈ (s.reordered order).entries, IsNormal e.scope.path :=
    fun e he => hs' e (mem_reordered.1 he)
  have ht' := Target.isNormal_path ht
  by_cases hc : ∃ e ∈ s.entries, e.Covers t
  · obtain ⟨e, he, hc⟩ := hc
    obtain ⟨i, hi⟩ := exists_isBest hs' ht' he hc
    obtain ⟨j, rfl⟩ := exists_origin order i
    rw [value_credentialFor_of_isBest hr ht' (isBest_reordered h hi),
      value_credentialFor_of_isBest hs' ht' hi, get_reordered]
  · have hn : ∀ e ∈ s.entries, ¬ e.Covers t := fun e he hce => hc ⟨e, he, hce⟩
    rw [value_credentialFor_of_not_covers hn,
      value_credentialFor_of_not_covers fun e he => hn e (mem_reordered.1 he)]

/-- A host twice and a pattern that it belongs to. -/
def hostTwiceAndPattern : Source :=
  ⟨[⟨⟨"r.io", ""⟩, .bearer "first"⟩, ⟨⟨"r.io", ""⟩, .bearer "second"⟩,
    ⟨⟨"*.io", ""⟩, .bearer "pattern"⟩]⟩

/-- The order in which the pattern comes first. -/
def patternFirst : Equiv.Perm (Fin hostTwiceAndPattern.entries.length) :=
  (finRotate hostTwiceAndPattern.entries.length).symm

theorem value_credentialFor_patternFirst :
    (∀ e ∈ hostTwiceAndPattern.entries, e.scope.Named) ∧ (Target.ofHost "r.io").Made ∧
    hostTwiceAndPattern.KeepsTies patternFirst ∧
    (hostTwiceAndPattern.reordered patternFirst).entries.map (·.credential) =
      [.bearer "pattern", .bearer "first", .bearer "second"] ∧
    ((hostTwiceAndPattern.reordered patternFirst).credentialFor (.ofHost "r.io")).value =
      some (.bearer "first") := by
  have hs : ∀ e ∈ hostTwiceAndPattern.entries, e.scope.Named := by
    have h₁ : Scope.parse "r.io" = .ok ⟨"r.io", ""⟩ := by decide
    have h₂ : Scope.parse "*.io" = .ok ⟨"*.io", ""⟩ := by decide
    simp only [hostTwiceAndPattern, List.mem_cons, List.not_mem_nil, or_false, forall_eq_or_imp,
      forall_eq]
    exact ⟨⟨_, h₁⟩, ⟨_, h₁⟩, _, h₂⟩
  have hk : hostTwiceAndPattern.KeepsTies patternFirst := by decide
  refine ⟨hs, .ofHost _, hk, by decide, ?_⟩
  rw [value_credentialFor_reordered hostTwiceAndPattern hs _ (.ofHost _) _ hk]
  decide

end Source

end RegistryAuth
