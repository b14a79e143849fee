import RegistryAuth.Proofs.Cluster.Resolution
import RegistryAuth.Proofs.Source.Specificity

/-!
# Targets on the way to another one

On the way to a target are its registry and the repositories of which the paths end right before one
of the slashes of its own (`Target.Above`). An entry that covers a target covers all that lies
further down (`Entry.Covers.of_above`), so there a source finds an entry at least as specific
(`exists_search_of_above`), and the first source that has any cannot come later
(`exists_firstMatch?_of_above`). Main statement: all of this, for targets made of a host and a path
that is continued, and what it means for the fallback (`resolve_of_above`).
-/

namespace RegistryAuth

open RepositoryPath (liesUnder_iff_exists liesUnder_trans liesUnder_of_utf8ByteSize_le
  liesUnder_normalize_iff segments_slash)

/-! ## Ancestors -/

namespace Target

/-- Whether a target is another one or on the way to it: on the same host, its path is empty or the
whole path of the other, or the part before one of its slashes. -/
def Above (a t : Target) : Prop :=
  a.host = t.host ∧ (a.path = "" ∨ t.path = a.path ∨ ∃ rest, t.path = a.path ++ "/" ++ rest)

theorem above_iff_liesUnder {a t : Target} :
    a.Above t ↔ a.host = t.host ∧ RepositoryPath.liesUnder t.path a.path = true := by
  rw [Above, liesUnder_iff_exists]

theorem toRegistry_above (t : Target) : t.toRegistry.Above t := ⟨rfl, .inl rfl⟩

theorem ofHostAndPath_above (host path more : String) :
    (ofHostAndPath host path).Above (ofHostAndPath host (path ++ "/" ++ more)) := by
  rw [above_iff_liesUnder, ofHostAndPath_eq rfl, ofHostAndPath_eq rfl]
  simp only [host_ofNormal, path_ofNormal, true_and]
  rw [liesUnder_normalize_iff, ← String.append_assoc, ← String.append_assoc, segments_slash _ more]
  exact List.prefix_append _ _

end Target

theorem Entry.Covers.of_above {e : Entry} {a t : Target} (h : a.Above t) (hc : e.Covers a) :
    e.Covers t := by
  obtain ⟨hhost, hpath⟩ := Target.above_iff_liesUnder.1 h
  simp only [Entry.Covers, Scope.covers, Bool.and_eq_true] at hc ⊢
  exact ⟨hhost ▸ hc.1, liesUnder_trans hpath hc.2⟩

/-! ## One source -/

namespace Source

/-- The entry that is found further down has a path that lies under the one found before. -/
theorem exists_search_of_above {s : Source} {a t : Target} (h : a.Above t) {e : Entry}
    (he : (s.search a).value = some e) :
    ∃ e', (s.search t).value = some e' ∧
      e.scope.path.utf8ByteSize ≤ e'.scope.path.utf8ByteSize ∧
      RepositoryPath.liesUnder e'.scope.path e.scope.path = true := by
  rw [value_search] at he
  rcases foldl_better a s.entries with ⟨hnone, -⟩ | ⟨found, hfound, hf⟩
  · rw [hnone] at he
    cases he
  obtain rfl : found = e := Option.some.inj (hfound.symm.trans he)
  have hc : found.Covers t := hf.covers.of_above h
  rw [value_search]
  rcases foldl_better t s.entries with ⟨-, hn⟩ | ⟨e', he', hf'⟩
  · exact absurd hc (hn found hf.mem)
  have hle : found.scope.path.utf8ByteSize ≤ e'.scope.path.utf8ByteSize := by
    have hrank := hf'.not_below hf.mem hc
    rw [Rank.below_iff, not_or, Nat.not_lt] at hrank
    exact hrank.1
  have hunder {x : Entry} (hx : x.Covers t) :
      RepositoryPath.liesUnder t.path x.scope.path = true := by
    simp only [Entry.Covers, Scope.covers, Bool.and_eq_true] at hx
    exact hx.2
  exact ⟨e', he', hle, liesUnder_of_utf8ByteSize_le (hunder hc) (hunder hf'.covers) hle⟩

theorem isSome_credentialFor (s : Source) (t : Target) :
    (s.credentialFor t).value.isSome = (s.search t).value.isSome := by
  rw [credentialFor, Logged.value_bind, Logged.value_pure, Option.isSome_map]

theorem isSome_credentialFor_of_above {s : Source} {a t : Target} (h : a.Above t)
    (hs : (s.credentialFor a).value.isSome = true) : (s.credentialFor t).value.isSome = true := by
  rw [isSome_credentialFor] at hs ⊢
  obtain ⟨e, he⟩ := Option.isSome_iff_exists.1 hs
  obtain ⟨e', he', -⟩ := exists_search_of_above h he
  exact Option.isSome_of_eq_some he'

end Source

/-! ## All sources -/

namespace Keychain

/-- The position of the first source that has a credential for a target. -/
def firstMatch? (k : Keychain) (t : Target) : Option Nat :=
  k.sources.findIdx? fun s => (s.credentialFor t).value.isSome

/-- The last event of asking sources from `position` on tells which one has a credential. -/
theorem getLast?_events_resolveFrom (fallback : Access) (t : Target) (position : Nat)
    (sources : List Source) :
    (resolveFrom fallback t position sources).events.getLast? =
      some (match sources.findIdx? fun s => (s.credentialFor t).value.isSome with
        | some i => .resolved t (position + i)
        | none => .fellBack t) := by
  induction sources generalizing position with
  | nil => rfl
  | cons source rest ih =>
    rw [resolveFrom, Logged.events_bind, List.findIdx?_cons]
    cases (source.credentialFor t).value with
    | some credential => simp
    | none =>
      rw [List.getLast?_append, ih]
      cases rest.findIdx? fun s => (s.credentialFor t).value.isSome <;>
        simp [Nat.add_assoc, Nat.add_comm 1]

theorem getLast?_events_resolve (k : Keychain) (t : Target) :
    (k.resolve t).events.getLast? = some (match k.firstMatch? t with
      | some i => .resolved t i
      | none => .fellBack t) := by
  rw [resolve, getLast?_events_resolveFrom, firstMatch?]
  simp only [Nat.zero_add]

/-- A property that holds wherever another one does holds no later for the first time. -/
theorem findIdx?_of_imp {α : Type} {p q : α → Bool} (h : ∀ x, p x = true → q x = true)
    {xs : List α} {i : Nat} (hi : xs.findIdx? p = some i) : ∃ j ≤ i, xs.findIdx? q = some j := by
  induction xs generalizing i with
  | nil => cases hi
  | cons x xs ih =>
    rw [List.findIdx?_cons] at hi ⊢
    by_cases hq : q x = true
    · exact ⟨0, Nat.zero_le i, by rw [hq]; rfl⟩
    · have hp : p x = false := by simpa using mt (h x) hq
      rw [hp] at hi
      obtain ⟨i', hi', rfl⟩ := Option.map_eq_some_iff.1 hi
      obtain ⟨j, hj, hxs⟩ := ih hi'
      exact ⟨j + 1, Nat.succ_le_succ hj, by simp [hq, hxs]⟩

theorem exists_firstMatch?_of_above {k : Keychain} {a t : Target} (h : a.Above t) {i : Nat}
    (hi : k.firstMatch? a = some i) : ∃ j ≤ i, k.firstMatch? t = some j :=
  findIdx?_of_imp (fun _ => Source.isSome_credentialFor_of_above h) hi

theorem value_resolve_of_firstMatch?_eq_none {k : Keychain} {t : Target}
    (h : k.firstMatch? t = none) : (k.resolve t).value = k.fallback := by
  rw [firstMatch?, List.findIdx?_eq_none_iff] at h
  have hn : (k.sources.findSome? fun s => (s.credentialFor t).value) = none :=
    List.findSome?_eq_none_iff.2 fun s hs => Option.isNone_iff_eq_none.1
      (Option.isSome_eq_false_iff.1 (h s hs))
  rw [resolve, value_resolveFrom, hn]
  rfl

/-- A target of a host and a path is on the way to that of the same host and a longer path, and a
registry to all that is on it. Further down a source with a credential still has one, from an entry
the path of which is as long or longer; the first source with one is the same or comes before; and
if none has one, none has one higher up. -/
theorem resolve_of_above :
    (∀ host path more : String, (Target.ofHostAndPath host path).Above
      (Target.ofHostAndPath host (path ++ "/" ++ more))) ∧
    (∀ t : Target, t.toRegistry.Above t) ∧
    (∀ (k : Keychain) (t : Target), (k.resolve t).events.getLast? = some
      (match k.firstMatch? t with
        | some i => .resolved t i
        | none => .fellBack t)) ∧
    ∀ a t : Target, a.Above t →
      (∀ s : Source, (s.credentialFor a).value.isSome = true →
        (s.credentialFor t).value.isSome = true) ∧
      (∀ (s : Source) (e : Entry), (s.search a).value = some e →
        ∃ e', (s.search t).value = some e' ∧
          e.scope.path.utf8ByteSize ≤ e'.scope.path.utf8ByteSize ∧
          RepositoryPath.liesUnder e'.scope.path e.scope.path = true) ∧
      (∀ (k : Keychain) (i : Nat), k.firstMatch? a = some i → ∃ j ≤ i, k.firstMatch? t = some j) ∧
      ∀ k : Keychain, k.firstMatch? t = none →
        k.firstMatch? a = none ∧ (k.resolve a).value = k.fallback := by
  refine ⟨Target.ofHostAndPath_above, Target.toRegistry_above, getLast?_events_resolve,
    fun a t h => ⟨fun s => Source.isSome_credentialFor_of_above h,
      fun s e => Source.exists_search_of_above h, fun k i => exists_firstMatch?_of_above h,
      fun k hk => ?_⟩⟩
  have ha : k.firstMatch? a = none := by
    rw [Option.eq_none_iff_forall_ne_some]
    intro i hi
    obtain ⟨j, -, hj⟩ := exists_firstMatch?_of_above h hi
    rw [hk] at hj
    cases hj
  exact ⟨ha, value_resolve_of_firstMatch?_eq_none ha⟩

/-- A source that only knows a path, before one that knows the whole registry. -/
def pathThenRegistry : Keychain :=
  ⟨[⟨[⟨⟨"r.io", "team"⟩, .bearer "team"⟩]⟩, ⟨[⟨⟨"r.io", ""⟩, .bearer "registry"⟩]⟩], .anonymous⟩

/-- The second source is the first with a credential for the registry. Further down, the one that
has the longer path comes first. -/
theorem resolve_pathThenRegistry :
    pathThenRegistry.firstMatch? (.ofHost "r.io") = some 1 ∧
    (∃ j ≤ 1, pathThenRegistry.firstMatch? (.ofHostAndPath "r.io" ("" ++ "/" ++ "team/app")) =
      some j) ∧
    (pathThenRegistry.resolve (.ofHost "r.io")).value = .credential (.bearer "registry") ∧
    (pathThenRegistry.resolve (.ofHostAndPath "r.io" "team/app")).value =
      .credential (.bearer "team") := by
  have hfirst : pathThenRegistry.firstMatch? (.ofHost "r.io") = some 1 := by decide
  have habove : (Target.ofHost "r.io").Above
      (.ofHostAndPath "r.io" ("" ++ "/" ++ "team/app")) := resolve_of_above.1 "r.io" "" "team/app"
  exact ⟨hfirst, (resolve_of_above.2.2.2 _ _ habove).2.2.1 pathThenRegistry 1 hfirst,
    by decide, by decide⟩

end Keychain

end RegistryAuth
