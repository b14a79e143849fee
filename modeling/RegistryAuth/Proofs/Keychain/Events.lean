import RegistryAuth.Keychain
import RegistryAuth.Proofs.Source.Order

/-!
# What the log of a resolution tells

A source tells of every entry that covers the target (`events_credentialFor`), and the keychain then
of the source that has a credential or of the fallback. A source without such an entry tells of
nothing, so it leaves no trace but in the position of those after it (`resolveFrom_append`). Main
statement: the log of a resolution, and that its earliest candidate of greatest rank is the entry
that decides (`resolve_of_log`).
-/

namespace RegistryAuth

/-- No two ranks are apart with neither below the other one. -/
theorem Rank.eq_of_not_below {a b : Rank} (hab : ¬ a.below b = true) (hba : ¬ b.below a = true) :
    a = b := by
  rw [below_iff] at hab hba
  rcases a with ⟨m, _ | _⟩ <;> rcases b with ⟨n, _ | _⟩ <;> simp at * <;> omega

/-! ## Candidates in a log -/

/-- The event by which a source tells of an entry. -/
def Entry.candidate (e : Entry) : Event := .candidate e.scope e.scope.rank

/-- Whether the event at a position of a log is the earliest candidate of greatest rank: no
candidate has a greater rank, and none before it has the same. -/
def Leads (log : List Event) (i : Nat) : Prop :=
  ∃ scope rank, log[i]? = some (.candidate scope rank) ∧
    (∀ scope' rank', .candidate scope' rank' ∈ log → ¬ rank.below rank' = true) ∧
    ∀ j < i, ∀ scope' rank', log[j]? = some (.candidate scope' rank') → rank' ≠ rank

theorem Leads.not_lt {log : List Event} {i j : Nat} (hi : Leads log i) (hj : Leads log j) :
    ¬ i < j := by
  obtain ⟨scope, rank, hget, hmost, -⟩ := hi
  obtain ⟨scope', rank', hget', hmost', hfirst⟩ := hj
  intro hlt
  refine hfirst i hlt scope rank hget (Rank.eq_of_not_below ?_ ?_)
  · exact hmost _ _ (List.mem_of_getElem? hget')
  · exact hmost' _ _ (List.mem_of_getElem? hget)

theorem Leads.unique {log : List Event} {i j : Nat} (hi : Leads log i) (hj : Leads log j) :
    i = j :=
  Nat.le_antisymm (Nat.not_lt.1 (hj.not_lt hi)) (Nat.not_lt.1 (hi.not_lt hj))

/-! ## One source -/

namespace Source

/-- The entries that cover a target, in order. -/
def covering (s : Source) (t : Target) : List Entry := s.entries.filter fun e => e.Covers t

theorem covering_eq_nil_iff {s : Source} {t : Target} :
    s.covering t = [] ↔ ∀ e ∈ s.entries, ¬ e.Covers t := by
  simp [covering, List.filter_eq_nil_iff]

theorem events_consider (t : Target) (best : Option Entry) (e : Entry) :
    (consider t best e).events = if e.Covers t then [e.candidate] else [] := by
  by_cases h : e.Covers t
  · rw [if_pos h]
    simp only [consider, Entry.Covers] at *
    rw [if_pos h]
    cases best <;> rfl
  · rw [if_neg h]
    simp only [consider, Entry.Covers] at *
    rw [if_neg h]
    rfl

theorem events_credentialFor (s : Source) (t : Target) :
    (s.credentialFor t).events = (s.covering t).map Entry.candidate := by
  rw [credentialFor, Logged.events_bind, Logged.events_pure, List.append_nil, search,
    Logged.events_foldlM (events_consider t), covering]
  induction s.entries with
  | nil => rfl
  | cons e entries ih =>
    rw [List.flatMap_cons, ih, List.filter_cons]
    by_cases h : e.Covers t <;> simp [h]

/-- Without the entries that do not cover the target, the one that is found stands behind entries of
lower rank. -/
theorem exists_covering_of_finds {s : Source} {t : Target} {e : Entry}
    (h : Finds t s.entries e) : ∃ before after, s.covering t = before ++ e :: after ∧
      ∀ b ∈ before, b.scope.rank.below e.scope.rank = true := by
  obtain ⟨before, after, hl, he, hb, -⟩ := h
  refine ⟨before.filter fun e => e.Covers t, after.filter fun e => e.Covers t, ?_, ?_⟩
  · rw [covering, hl, List.filter_append, List.filter_cons_of_pos (by simpa using he)]
  · intro b hm
    rw [List.mem_filter, decide_eq_true_iff] at hm
    exact hb b hm.1 hm.2

/-- The candidate of an entry leads if the entries before it have lower rank and none has a
higher one, wherever the log goes on without candidates. -/
theorem leads_of_append {before after : List Entry} {e : Entry} {rest : List Event}
    (hb : ∀ b ∈ before, b.scope.rank.below e.scope.rank = true)
    (hmost : ∀ x ∈ before ++ e :: after, ¬ e.scope.rank.below x.scope.rank = true)
    (hrest : ∀ scope rank, Event.candidate scope rank ∉ rest) :
    Leads ((before ++ e :: after).map Entry.candidate ++ rest) before.length := by
  refine ⟨e.scope, e.scope.rank, by simp [Entry.candidate], ?_, ?_⟩
  · intro scope rank hm
    rcases List.mem_append.1 hm with hm | hm
    · obtain ⟨x, hx, hxe⟩ := List.mem_map.1 hm
      obtain ⟨rfl, rfl⟩ := Event.candidate.inj hxe
      exact hmost x hx
    · exact absurd hm (hrest scope rank)
  · intro j hj scope rank hget heq
    have hj' : j < (before.map Entry.candidate).length := by simpa using hj
    rw [List.map_append, List.append_assoc, List.getElem?_append_left hj'] at hget
    obtain ⟨x, hx, hxe⟩ := List.mem_map.1 (List.mem_of_getElem? hget)
    obtain ⟨rfl, rfl⟩ := Event.candidate.inj hxe
    exact Rank.not_below_self _ (heq ▸ hb x hx)

/-- What a source with a covering entry gives is decided by the candidate that leads. -/
theorem exists_leads {s : Source} {t : Target} (h : s.covering t ≠ []) {rest : List Event}
    (hrest : ∀ scope rank, Event.candidate scope rank ∉ rest) :
    ∃ i e, Leads ((s.covering t).map Entry.candidate ++ rest) i ∧ (s.covering t)[i]? = some e ∧
      (s.credentialFor t).value = some e.credential := by
  rcases foldl_better t s.entries with ⟨-, hn⟩ | ⟨e, hfound, hf⟩
  · exact absurd (covering_eq_nil_iff.2 hn) h
  obtain ⟨before, after, hl, hb⟩ := exists_covering_of_finds hf
  have hmost : ∀ x ∈ s.covering t, ¬ e.scope.rank.below x.scope.rank = true := by
    intro x hx
    rw [covering, List.mem_filter, decide_eq_true_iff] at hx
    exact hf.not_below hx.1 hx.2
  rw [hl] at hmost ⊢
  refine ⟨before.length, e, leads_of_append hb hmost hrest, by simp, ?_⟩
  rw [value_credentialFor, hfound, Option.map_some]

end Source

/-! ## All sources -/

namespace Keychain

theorem resolveFrom_append {t : Target} {before : List Source}
    (h : ∀ s ∈ before, s.covering t = []) (fallback : Access) (position : Nat)
    (rest : List Source) : resolveFrom fallback t position (before ++ rest) =
      resolveFrom fallback t (position + before.length) rest := by
  induction before generalizing position with
  | nil => rfl
  | cons s before ih =>
    rw [List.forall_mem_cons] at h
    have hs : s.credentialFor t = ⟨none, []⟩ := by
      have hvalue := Source.value_credentialFor_of_not_covers (Source.covering_eq_nil_iff.1 h.1)
      have hevents := s.events_credentialFor t
      rw [h.1, List.map_nil] at hevents
      rw [← hvalue, ← hevents]
    rw [List.cons_append, resolveFrom, hs, List.length_cons, ← Nat.add_assoc,
      Nat.add_right_comm, ← ih h.2]
    rfl

/-- If a source has entries that cover the target and none before it has any, the log tells of each
of these entries in order and then of the position of the source; the entry of the earliest
candidate of greatest rank, which is the only one in the log, has the credential that is given. If no
source has such an entry, the log only tells of the fallback, and this is given. -/
theorem resolve_of_log (k : Keychain) (t : Target) :
    (∀ before source after, k.sources = before ++ source :: after →
      (∀ s ∈ before, ∀ e ∈ s.entries, ¬ e.Covers t) → (∃ e ∈ source.entries, e.Covers t) →
      (k.resolve t).events =
        (source.covering t).map Entry.candidate ++ [.resolved t before.length] ∧
      ∃ i e, Leads (k.resolve t).events i ∧ (∀ j, Leads (k.resolve t).events j → j = i) ∧
        (source.covering t)[i]? = some e ∧ (k.resolve t).value = .credential e.credential) ∧
    ((∀ s ∈ k.sources, ∀ e ∈ s.entries, ¬ e.Covers t) →
      (k.resolve t).events = [.fellBack t] ∧ (k.resolve t).value = k.fallback) := by
  refine ⟨fun before source after hk hbefore ⟨e, he, hc⟩ => ?_, fun h => ?_⟩
  · have hne : source.covering t ≠ [] := fun hn => Source.covering_eq_nil_iff.1 hn e he hc
    have hrest : ∀ scope rank, Event.candidate scope rank ∉ [.resolved t before.length] := by simp
    obtain ⟨i, e, hi, hget, hvalue⟩ := Source.exists_leads hne hrest
    have hresolve : k.resolve t = ⟨.credential e.credential,
        (source.covering t).map Entry.candidate ++ [.resolved t before.length]⟩ := by
      rw [resolve, hk, resolveFrom_append fun s hs => Source.covering_eq_nil_iff.2 (hbefore s hs),
        Nat.zero_add, ← source.events_credentialFor]
      show (⟨_, _⟩ : Logged Access) = _
      rw [hvalue]
      rfl
    rw [hresolve]
    exact ⟨rfl, i, e, hi, fun j hj => hj.unique hi, hget, rfl⟩
  · have hresolve : k.resolve t = ⟨k.fallback, [.fellBack t]⟩ := by
      rw [resolve, ← List.append_nil k.sources,
        resolveFrom_append fun s hs => Source.covering_eq_nil_iff.2 (h s hs)]
      rfl
    rw [hresolve]
    exact ⟨rfl, rfl⟩

/-- Three sources: one for another host, one in which the best entry comes after a pattern and
before one just like it, and one with a longer path. -/
def mirrors : Keychain :=
  ⟨[⟨[⟨⟨"q.io", ""⟩, .bearer "other"⟩]⟩,
    ⟨[⟨⟨"*.r.io", "team"⟩, .bearer "pattern"⟩, ⟨⟨"q.io", "team"⟩, .bearer "other"⟩,
      ⟨⟨"eu.r.io", "team"⟩, .bearer "first"⟩, ⟨⟨"eu.r.io", "team"⟩, .bearer "second"⟩,
      ⟨⟨"eu.r.io", ""⟩, .bearer "host"⟩]⟩,
    ⟨[⟨⟨"eu.r.io", "team/app"⟩, .bearer "longer"⟩]⟩], .anonymous⟩

theorem resolve_mirrors :
    let t := Target.ofHostAndPath "eu.r.io" "team/app"
    let log : List Event := [.candidate ⟨"*.r.io", "team"⟩ ⟨4, false⟩,
      .candidate ⟨"eu.r.io", "team"⟩ ⟨4, true⟩, .candidate ⟨"eu.r.io", "team"⟩ ⟨4, true⟩,
      .candidate ⟨"eu.r.io", ""⟩ ⟨0, true⟩, .resolved t 1]
    (mirrors.resolve t).events = log ∧ Leads log 1 ∧
    (mirrors.resolve t).value = .credential (.bearer "first") ∧
    (mirrors.resolve (.ofHost "p.io")).events = [.fellBack (.ofHost "p.io")] := by
  intro t log
  obtain ⟨hlog, i, e, -, hunique, hget, hvalue⟩ := (resolve_of_log mirrors t).1
    [⟨[⟨⟨"q.io", ""⟩, .bearer "other"⟩]⟩] _ _ rfl (by decide) (by decide)
  have hleads : Leads log 1 := by
    refine ⟨_, _, rfl, ?_, ?_⟩
    · intro scope rank hm
      simp only [log, List.mem_cons, Event.candidate.injEq, reduceCtorEq, List.not_mem_nil,
        or_false] at hm
      rcases hm with ⟨-, rfl⟩ | ⟨-, rfl⟩ | ⟨-, rfl⟩ | ⟨-, rfl⟩ <;> decide
    · intro j hj scope rank hget
      obtain rfl : j = 0 := by omega
      obtain ⟨-, rfl⟩ := Event.candidate.inj (Option.some.inj hget)
      decide
  have hlog' : (mirrors.resolve t).events = log := hlog.trans (by decide)
  have hi : 1 = i := hunique 1 (hlog' ▸ hleads)
  subst hi
  have he : e = ⟨⟨"eu.r.io", "team"⟩, .bearer "first"⟩ :=
    Option.some.inj (hget.symm.trans (by decide))
  exact ⟨hlog', hleads, by rw [hvalue, he],
    ((resolve_of_log mirrors (.ofHost "p.io")).2 (by decide)).1⟩

end Keychain

end RegistryAuth
