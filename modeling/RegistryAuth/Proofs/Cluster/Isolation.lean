import RegistryAuth.Proofs.Cluster.Resolution
import RegistryAuth.Proofs.Cluster.Store

/-!
# Namespaces are apart

All lookups of a workload are in its namespace (`ofWorkload_congr`), and the records of a namespace
in a store depend on the changes in it alone (`cluster_changesIn`). Main statement: two stores
whose changes in the namespace of a workload are the same give it the same keychain, whatever else
was changed in between (`ofWorkload_of_changesIn_eq`).
-/

namespace RegistryAuth

/-! ## What a workload looks up -/

namespace Keychain

section

variable {c c' : Cluster} {space : String}

theorem fetchSecrets_congr (h : c.secret space = c'.secret space) (names : List String) :
    fetchSecrets c space names = fetchSecrets c' space names := by
  induction names with
  | nil => rfl
  | cons name names ih =>
    have hname : fetchSecret c space name = fetchSecret c' space name := by
      rw [fetchSecret, h, fetchSecret]
    rw [fetchSecrets, hname, ih, fetchSecrets]

theorem fetchAttached_congr (hs : c.secret space = c'.secret space)
    (ha : c.account space = c'.account space) (account : String) :
    fetchAttached c space account = fetchAttached c' space account := by
  rw [fetchAttached, ha, fetchAttached]
  simp only [fetchSecrets_congr hs]

end

/-- Clusters with the same records in the namespace of a workload are alike to it. -/
theorem ofWorkload_congr {c c' : Cluster} {w : Workload} (hs : c.secret w.space = c'.secret w.space)
    (ha : c.account w.space = c'.account w.space) : ofWorkload c w = ofWorkload c' w := by
  rw [ofWorkload, fetchSecrets_congr hs, fetchAttached_congr hs ha, ofWorkload]

/-- A store answers every lookup, so the keychain of a workload is always made. -/
theorem exists_ofWorkload (store : Store) (w : Workload) :
    ∃ k, (ofWorkload store.cluster w).run.value = .ok k := by
  refine ⟨_, (value_ofWorkload_eq_ok_iff store.cluster w _).2 ⟨fun l _ e h => ?_, rfl⟩⟩
  have hforced : l.Forced Outage.none e :=
    (Lookup.fails_during_iff store Outage.none w.space l e).1 h
  cases l <;> obtain ⟨reason, hr, -⟩ := hforced <;> cases hr

end Keychain

/-! ## What a store holds in a namespace -/

namespace Store

/-- The namespace of the record that a change is of. -/
def Change.space : Change → String
  | .insertSecret s => s.space
  | .eraseSecret space _ => space
  | .insertAccount a => a.space

/-- The changes in a namespace, in order. -/
def changesIn (space : String) (changes : List Change) : List Change :=
  changes.filter (·.space = space)

theorem Change.OfSecret.space_eq {space name : String} {change : Change}
    (h : change.OfSecret space name) : change.space = space := by
  cases change with
  | insertSecret | eraseSecret => exact h.1
  | insertAccount => exact h.elim

theorem Change.OfAccount.space_eq {space name : String} {change : Change}
    (h : change.OfAccount space name) : change.space = space := by
  cases change with
  | insertSecret | eraseSecret => exact h.elim
  | insertAccount => exact h.1

theorem cluster_changesIn (space : String) (changes : List Change) :
    (ofChanges (changesIn space changes)).cluster.secret space =
        (ofChanges changes).cluster.secret space ∧
      (ofChanges (changesIn space changes)).cluster.account space =
        (ofChanges changes).cluster.account space := by
  constructor <;> funext name
  · have h := secret?_ofChanges_filter
      (fun change (h : change.OfSecret space name) => decide_eq_true h.space_eq) changes
    simp only [cluster, changesIn, h]
  · have h := account?_ofChanges_filter
      (fun change (h : change.OfAccount space name) => decide_eq_true h.space_eq) changes
    simp only [cluster, changesIn, h]

end Store

namespace Keychain

open Store (ofChanges changesIn)

/-- Two stores whose changes in the namespace of a workload are the same, in the same order, give it
keychains with the same sources and tell of the same events. So every target resolves alike,
whatever was changed in other namespaces and under which names. -/
theorem ofWorkload_of_changesIn_eq {changes changes' : List Store.Change} {w : Workload}
    (h : changesIn w.space changes = changesIn w.space changes') :
    ∃ k k', (ofWorkload (ofChanges changes).cluster w).run.value = .ok k ∧
      (ofWorkload (ofChanges changes').cluster w).run.value = .ok k' ∧
      (ofWorkload (ofChanges changes).cluster w).run.events =
        (ofWorkload (ofChanges changes').cluster w).run.events ∧
      k.sources = k'.sources ∧ ∀ t, k.resolve t = k'.resolve t := by
  obtain ⟨hs, ha⟩ := Store.cluster_changesIn w.space changes
  obtain ⟨hs', ha'⟩ := Store.cluster_changesIn w.space changes'
  rw [h] at hs ha
  have heq := ofWorkload_congr (hs.symm.trans hs') (ha.symm.trans ha')
  obtain ⟨k, hk⟩ := exists_ofWorkload (ofChanges changes') w
  rw [heq]
  exact ⟨k, k, hk, hk, rfl, rfl, fun t => rfl⟩

/-- A secret with a slash in its name, and an account it is attached to. -/
def ownChanges : List Store.Change :=
  [.insertSecret (.ofDocument "a" "b/c" .dockercfg
      (Text.utf8 "\x7b\"r.io\":\x7b\"registrytoken\":\"own\"\x7d\x7d")),
    .insertAccount ⟨"default", "a", ["b/c"]⟩]

/-- The same between changes of another namespace. With a slash between namespace and name, the two
secrets would be written alike. -/
def mixedChanges : List Store.Change :=
  let foreign := PullSecret.ofDocument "a/b" "c" .dockercfg
    (Text.utf8 "\x7b\"r.io\":\x7b\"registrytoken\":\"foreign\"\x7d\x7d")
  .insertSecret foreign :: ownChanges ++
    [.insertAccount ⟨"default", "a/b", ["c"]⟩, .eraseSecret "a/b" "c"]

theorem ofWorkload_mixedChanges :
    changesIn "a" ownChanges = changesIn "a" mixedChanges ∧
    ∃ k, (ofWorkload (ofChanges mixedChanges).cluster (.inSpace "a")).run.value = .ok k ∧
      (k.resolve (.ofHost "r.io")).value = .credential (.bearer "own") := by
  have h : changesIn (Workload.inSpace "a").space ownChanges =
      changesIn (Workload.inSpace "a").space mixedChanges := by decide
  have hown : (ofWorkload (ofChanges ownChanges).cluster (.inSpace "a")).run.value =
      .ok ⟨[⟨[⟨⟨"r.io", ""⟩, .bearer "own"⟩]⟩], .anonymous⟩ := by decide +kernel
  obtain ⟨k, k', hk, hk', -, -, hresolve⟩ := ofWorkload_of_changesIn_eq h
  refine ⟨h, k', hk', ?_⟩
  rw [← hresolve, ← Except.ok.inj (hown.symm.trans hk)]
  decide

end Keychain

end RegistryAuth
