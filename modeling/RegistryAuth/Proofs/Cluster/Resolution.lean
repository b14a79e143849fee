import Mathlib.Data.List.Nodup
import RegistryAuth.Cluster.Keychain
import RegistryAuth.Proofs.Cluster.Store
import RegistryAuth.Proofs.Logged

/-!
# What the keychain of a workload resolves to

A workload stands for a sequence of lookups (`Workload.lookups`). Its keychain is what the sequence
fetches: the error of the first lookup that fails (`fetched_eq_error_iff`), or else the secrets that
are found. A keychain of secrets asks them in order (`value_resolve_ofSecrets`). Main statement: the
result for a target, from the lookups alone (`value_ofWorkload_iff`).
-/

namespace RegistryAuth

/-! ## Lookups -/

/-- A lookup of a record by its name. -/
inductive Lookup where
  | secret (name : String)
  | account (name : String)

namespace Lookup

variable (c : Cluster) (space : String)

/-- Whether a lookup fails with an error: one that does not say that there is no such record. -/
def Fails : Lookup → ClusterError → Prop
  | .secret name, e => c.secret space name = .error e ∧ e.isNotFound = false
  | .account name, e => c.account space name = .error e ∧ e.isNotFound = false

/-- Whether a lookup finds a secret. -/
def Finds : Lookup → PullSecret → Prop
  | .secret name, s => c.secret space name = .ok s
  | .account _, _ => False

/-- The error of a result that is a failure. -/
def failureOf {α : Type} : Except ClusterError α → Option ClusterError
  | .ok _ => none
  | .error e => if e.isNotFound then none else some e

theorem failureOf_eq_some_iff {α : Type} {r : Except ClusterError α} {e : ClusterError} :
    failureOf r = some e ↔ r = .error e ∧ e.isNotFound = false := by
  cases r with
  | ok a => simp [failureOf]
  | error e' =>
    simp only [failureOf, Except.error.injEq]
    split <;> rename_i h
    · simp only [reduceCtorEq, false_iff, not_and]
      rintro rfl
      simp [h]
    · simp only [Option.some.injEq]
      refine ⟨?_, And.left⟩
      rintro rfl
      exact ⟨rfl, by simpa using h⟩

/-- The error with which a lookup fails. -/
def failure? : Lookup → Option ClusterError
  | .secret name => failureOf (c.secret space name)
  | .account name => failureOf (c.account space name)

/-- The secret that a lookup finds. -/
def secret? : Lookup → Option PullSecret
  | .secret name => (c.secret space name).toOption
  | .account _ => none

theorem failure?_eq_some_iff (l : Lookup) (e : ClusterError) :
    l.failure? c space = some e ↔ l.Fails c space e := by
  cases l <;> exact failureOf_eq_some_iff

theorem secret?_eq_some_iff (l : Lookup) (s : PullSecret) :
    l.secret? c space = some s ↔ l.Finds c space s := by
  cases l with
  | secret name => simp only [secret?, Finds]; cases c.secret space name <;> simp [Except.toOption]
  | account name => simp [secret?, Finds]

/-- What a sequence of lookups gives: the error of the first failure, or else all that is found. -/
def fetched (ls : List Lookup) : Except ClusterError (List PullSecret) :=
  match ls.findSome? (failure? c space) with
  | some e => .error e
  | none => .ok (ls.filterMap (secret? c space))

theorem fetched_append (ls ms : List Lookup) :
    fetched c space (ls ++ ms) = do
      let found ← fetched c space ls
      return found ++ (← fetched c space ms) := by
  simp only [fetched, List.findSome?_append, List.filterMap_append]
  cases ls.findSome? (failure? c space) <;> cases ms.findSome? (failure? c space) <;> rfl

theorem fetched_eq_error_iff {ls : List Lookup} {e : ClusterError} :
    fetched c space ls = .error e ↔ FirstWith (Fails c space) ls e := by
  rw [← findSome?_eq_some_iff_firstWith (failure?_eq_some_iff c space), fetched]
  cases ls.findSome? (failure? c space) <;> simp

theorem fetched_eq_ok_iff {ls : List Lookup} {found : List PullSecret} :
    fetched c space ls = .ok found ↔
      (∀ l ∈ ls, ∀ e, ¬ l.Fails c space e) ∧ found = ls.filterMap (secret? c space) := by
  rw [← findSome?_eq_none_iff_forall (failure?_eq_some_iff c space), fetched]
  cases ls.findSome? (failure? c space) <;> simp [eq_comm]

end Lookup

/-! ## Secrets -/

/-- Whether a secret has a credential for a target: the data under the key of its own type is there
and not empty, it can be read, and an entry of it covers the target. -/
def PullSecret.Gives (s : PullSecret) (t : Target) (credential : Credential) : Prop :=
  ∃ format content source, s.type = typeOf format ∧ (dataKey format, content) ∈ s.data.entries ∧
    content ≠ [] ∧ (Source.parse format content).run.value = .ok source ∧
    (source.credentialFor t).value = some credential

/-- What is found under a key is all that is there. -/
theorem SecretData.get?_eq_some_iff (d : SecretData) (key : String) (content : Bytes) :
    d.get? key = some content ↔ (key, content) ∈ d.entries := by
  rw [get?, Option.map_eq_some_iff]
  constructor
  · rintro ⟨e, he, rfl⟩
    obtain rfl : e.1 = key := by simpa using List.find?_some he
    exact List.mem_of_find?_eq_some he
  · intro h
    obtain ⟨e, he⟩ : ∃ e, d.entries.find? (·.1 = key) = some e :=
      Option.isSome_iff_exists.1 (List.find?_isSome.2 ⟨(key, content), h, decide_eq_true rfl⟩)
    have hkey : e.1 = key := by simpa using List.find?_some he
    obtain rfl := List.inj_on_of_nodup_map d.nodup (List.mem_of_find?_eq_some he) h hkey
    exact ⟨(key, content), he, rfl⟩

/-- Of what is put under a key the last is there. -/
theorem SecretData.mem_entries_ofList_iff (puts : List (String × Bytes)) (key : String)
    (content : Bytes) : (key, content) ∈ (ofList puts).entries ↔
      Store.LastOf (·.1 = key) puts (key, content) := by
  induction puts using List.reverseRecOn with
  | nil => exact iff_of_false List.not_mem_nil Store.lastOf_nil
  | append_singleton puts put ih =>
    have hputs : ofList (puts ++ [put]) = (ofList puts).insert put.1 put.2 := by simp [ofList]
    rw [hputs, Store.lastOf_concat, ← ih]
    by_cases h : put.1 = key
    · simp [insert, h, Prod.ext_iff, eq_comm]
    · simp [insert, h, Prod.ext_iff, Ne.symm h]

theorem PullSecret.format?_eq_some_iff (type : SecretType) (format : DocumentFormat) :
    format? type = some format ↔ type = typeOf format := by
  cases type <;> cases format <;> simp [format?, typeOf]

theorem PullSecret.document?_eq_some_iff (s : PullSecret) (format : DocumentFormat)
    (content : Bytes) : s.document? = some (format, content) ↔
      s.type = typeOf format ∧ (dataKey format, content) ∈ s.data.entries ∧ content ≠ [] := by
  simp only [document?, Option.bind_eq_bind, Option.bind_eq_some_iff, format?_eq_some_iff,
    SecretData.get?_eq_some_iff, Option.ite_none_left_eq_some, Option.some.injEq, Prod.mk.injEq]
  refine ⟨fun ⟨_, ht, _, hd, hc, rfl, rfl⟩ => ?_, fun ⟨ht, hd, hc⟩ => ?_⟩
  · exact ⟨ht, hd, hc⟩
  · exact ⟨format, ht, content, hd, hc, rfl, rfl⟩

theorem PullSecret.value_source? {s : PullSecret} {format : DocumentFormat} {content : Bytes}
    (h : s.document? = some (format, content)) :
    s.source?.run.value =
      ((Source.parse format content).run.value.map some).mapError .unreadable := by
  rw [source?, h]
  simp only [Logged.value_run_bind]
  show Except.bind (.ok (Source.parse format content).run.value) _ = _
  cases (Source.parse format content).run.value <;> rfl

theorem PullSecret.events_source? {s : PullSecret} {format : DocumentFormat} {content : Bytes}
    (h : s.document? = some (format, content)) :
    s.source?.run.events = (Source.parse format content).run.events := by
  rw [source?, h]
  show ((_ >>= _ : ExceptT ClusterError Logged (Option Source))).run.events = _
  rw [Logged.events_run_bind_ok rfl]
  cases (Source.parse format content).run.value <;> simp

namespace Lookup

/-- Whether a lookup finds a secret that has a credential for a target. -/
def Gives (c : Cluster) (space : String) (t : Target) (l : Lookup) (credential : Credential) :
    Prop :=
  ∃ s, l.Finds c space s ∧ s.Gives t credential

/-- Whether a lookup is of a name that fails in an outage, and the error with its reason. -/
def Forced (o : Outage) : Lookup → ClusterError → Prop
  | .secret name, e => ∃ reason, Outage.reason? o.secrets name = some reason ∧ e = .provider reason
  | .account name, e =>
    ∃ reason, Outage.reason? o.accounts name = some reason ∧ e = .provider reason

/-- In an outage a lookup that otherwise finds a record or says that there is none fails exactly for
the reason given for its name. -/
theorem fails_outage_iff {α : Type} {found : Except ClusterError α}
    (h : ∀ e, found = .error e → e.isNotFound = true) (reason? : Option String) (e : ClusterError) :
    ((match reason? with
      | some reason => Except.error (.provider reason)
      | none => found) = Except.error e ∧ e.isNotFound = false) ↔
      ∃ reason, reason? = some reason ∧ e = .provider reason := by
  cases reason? with
  | some reason =>
    constructor
    · rintro ⟨hr, -⟩
      exact ⟨reason, rfl, (Except.error.inj hr).symm⟩
    · rintro ⟨_, hr, rfl⟩
      rw [Option.some.inj hr]
      exact ⟨rfl, rfl⟩
  | none =>
    refine ⟨fun ⟨hf, hn⟩ => ?_, fun ⟨_, hr, _⟩ => ?_⟩
    · rw [h e hf] at hn
      simp at hn
    · simp at hr

/-- A store answers each lookup or has no such record, so only an outage makes one fail. -/
theorem fails_during_iff (store : Store) (o : Outage) (space : String) (l : Lookup)
    (e : ClusterError) : l.Fails (store.cluster.during o) space e ↔ l.Forced o e := by
  cases l with
  | secret name =>
    refine fails_outage_iff (fun e h => ?_) (Outage.reason? o.secrets name) e
    simp only [Store.cluster] at h
    split at h <;> cases h
    rfl
  | account name =>
    refine fails_outage_iff (fun e h => ?_) (Outage.reason? o.accounts name) e
    simp only [Store.cluster] at h
    split at h <;> cases h
    rfl

end Lookup

/-- The lookups of a workload in order: its own secrets, then, unless it has no account, the account
and the secrets that are attached to it if it is found. -/
def Workload.lookups (c : Cluster) (w : Workload) : List Lookup :=
  w.secretNames.map .secret ++
    if w.account = noAccount then []
    else .account w.account ::
      match c.account w.space w.account with
      | .ok a => a.secretNames.map .secret
      | .error _ => []

/-! ## Fetching -/

namespace Keychain

open Lookup (fetched fetched_append)

theorem value_fetchSecret (c : Cluster) (space name : String) :
    (fetchSecret c space name).run.value.map Option.toList = fetched c space [.secret name] := by
  simp only [fetchSecret, fetched, List.findSome?_singleton, List.filterMap_cons,
    List.filterMap_nil, Lookup.failure?, Lookup.secret?]
  cases c.secret space name with
  | ok s => rfl
  | error e => cases h : e.isNotFound <;> simp [Lookup.failureOf, h] <;> rfl

theorem value_fetchSecrets (c : Cluster) (space : String) (names : List String) :
    (fetchSecrets c space names).run.value = fetched c space (names.map .secret) := by
  induction names with
  | nil => rfl
  | cons name names ih =>
    show (fetchSecrets c space (name :: names)).run.value =
      fetched c space ([.secret name] ++ names.map .secret)
    rw [fetched_append, ← value_fetchSecret, ← ih, fetchSecrets]
    simp only [Logged.value_run_bind]
    cases (fetchSecret c space name).run.value <;>
      cases (fetchSecrets c space names).run.value <;> rfl

theorem value_fetchAttached (c : Cluster) (space account : String) :
    (fetchAttached c space account).run.value = fetched c space (.account account ::
      match c.account space account with
      | .ok a => a.secretNames.map .secret
      | .error _ => []) := by
  rw [← List.singleton_append, fetched_append, fetchAttached]
  cases h : c.account space account with
  | ok a =>
    show (fetchSecrets c space a.secretNames).run.value = _
    simp only [value_fetchSecrets, fetched, List.findSome?_singleton, Lookup.failure?, h,
      Lookup.failureOf]
    cases (a.secretNames.map Lookup.secret).findSome? (Lookup.failure? c space) <;> rfl
  | error e =>
    simp only [fetched, List.findSome?_singleton, Lookup.failure?, h, Lookup.failureOf]
    cases e.isNotFound <;> rfl

/-- The source of a secret whose document can be read. -/
def sourceOf? (s : PullSecret) : Option Source := s.source?.run.value.toOption.join

theorem sourceOf?_eq_some_iff (s : PullSecret) (source : Source) :
    sourceOf? s = some source ↔ ∃ format content, s.document? = some (format, content) ∧
      (Source.parse format content).run.value = .ok source := by
  rw [sourceOf?]
  rcases h : s.document? with _ | ⟨format, content⟩
  · simp [PullSecret.source?, h, Except.toOption]
  · rw [PullSecret.value_source? h]
    refine ⟨fun hs => ?_, fun ⟨_, _, hd, hs⟩ => ?_⟩
    · refine ⟨format, content, rfl, ?_⟩
      cases hp : (Source.parse format content).run.value with
      | error e =>
        rw [hp] at hs
        cases hs
      | ok parsed =>
        rw [hp] at hs
        exact congrArg _ (Option.some.inj hs)
    · cases hd
      rw [hs]
      rfl

theorem value_addSecret (k : Keychain) (s : PullSecret) :
    (addSecret k s).value = { k with sources := k.sources ++ (sourceOf? s).toList } := by
  simp only [addSecret, sourceOf?, Logged.value_bind]
  rcases s.source?.run.value with e | (_ | source) <;>
    simp [addSource, Except.toOption]

/-- The event that tells what became of a secret. -/
def outcome (s : PullSecret) : Event :=
  match s.source?.run.value with
  | .ok (some source) => .secretLoaded s.name source.entries.length
  | .ok none => .secretWithoutDocument s.name s.type
  | .error error => .secretMalformed s.name error

theorem events_addSecret_concat (k : Keychain) (s : PullSecret) :
    (k.addSecret s).events = s.source?.run.events ++ [outcome s] := by
  rw [addSecret, Logged.events_bind, outcome]
  rcases s.source?.run.value with e | (_ | source) <;> rfl

theorem value_ofSecrets (secrets : List PullSecret) :
    (ofSecrets secrets).value = ⟨secrets.filterMap sourceOf?, .anonymous⟩ := by
  have h (k : Keychain) : secrets.foldl (fun k s => (addSecret k s).value) k =
      { k with sources := k.sources ++ secrets.filterMap sourceOf? } := by
    induction secrets generalizing k with
    | nil => simp
    | cons s secrets ih =>
      rw [List.foldl_cons, ih, value_addSecret, List.filterMap_cons]
      cases sourceOf? s <;> simp
  rw [ofSecrets, Logged.value_foldlM, h]
  rfl

/-- The credential that a secret has for a target. -/
def credentialOf? (t : Target) (s : PullSecret) : Option Credential := do
  let source ← sourceOf? s
  (source.credentialFor t).value

theorem credentialOf?_eq_some_iff (t : Target) (s : PullSecret) (credential : Credential) :
    credentialOf? t s = some credential ↔ s.Gives t credential := by
  simp only [credentialOf?, Option.bind_eq_bind, Option.bind_eq_some_iff, sourceOf?_eq_some_iff,
    PullSecret.document?_eq_some_iff, PullSecret.Gives]
  constructor
  · rintro ⟨source, ⟨format, content, ⟨ht, hd, hc⟩, hp⟩, h⟩
    exact ⟨format, content, source, ht, hd, hc, hp, h⟩
  · rintro ⟨format, content, source, ht, hd, hc, hp, h⟩
    exact ⟨source, ⟨format, content, ⟨ht, hd, hc⟩, hp⟩, h⟩

theorem value_resolveFrom (fallback : Access) (t : Target) (position : Nat)
    (sources : List Source) :
    (resolveFrom fallback t position sources).value =
      ((sources.findSome? fun s => (s.credentialFor t).value).map .credential).getD fallback := by
  induction sources generalizing position with
  | nil => rfl
  | cons source rest ih =>
    rw [resolveFrom, Logged.value_bind, List.findSome?_cons]
    cases (source.credentialFor t).value with
    | some credential => rfl
    | none => exact ih (position + 1)

/-- A keychain of secrets has the credential of the first that has one. -/
theorem value_resolve_ofSecrets (secrets : List PullSecret) (t : Target) :
    ((ofSecrets secrets).value.resolve t).value =
      ((secrets.findSome? (credentialOf? t)).map .credential).getD .anonymous := by
  rw [resolve, value_resolveFrom, value_ofSecrets, ← List.head?_filterMap,
    List.filterMap_filterMap, List.head?_filterMap]
  rfl

theorem value_ofWorkload (c : Cluster) (w : Workload) :
    (ofWorkload c w).run.value =
      (fetched c w.space (w.lookups c)).map fun found => (ofSecrets found).value := by
  rw [Workload.lookups, fetched_append, ← value_fetchSecrets, ofWorkload, Workload.usesAccount]
  simp only [Logged.value_run_bind]
  cases (fetchSecrets c w.space w.secretNames).run.value with
  | error e => rfl
  | ok named =>
    by_cases h : w.account = Workload.noAccount
    · simp only [h, ne_eq, not_true_eq_false, decide_false, if_true]
      rfl
    · simp only [h, ne_eq, not_false_eq_true, decide_true, if_true, if_false,
        ← value_fetchAttached]
      show (fetchAttached c w.space w.account >>= fun attached =>
        liftM (ofSecrets (named ++ attached))).run.value = _
      rw [Logged.value_run_bind]
      cases (fetchAttached c w.space w.account).run.value <;> rfl

theorem value_ofWorkload_eq_error_iff (c : Cluster) (w : Workload) (e : ClusterError) :
    (ofWorkload c w).run.value = .error e ↔
      FirstWith (Lookup.Fails c w.space) (w.lookups c) e := by
  rw [← Lookup.fetched_eq_error_iff, value_ofWorkload]
  cases fetched c w.space (w.lookups c) <;> simp [Except.map]

theorem value_ofWorkload_eq_ok_iff (c : Cluster) (w : Workload) (k : Keychain) :
    (ofWorkload c w).run.value = .ok k ↔
      (∀ l ∈ w.lookups c, ∀ e, ¬ l.Fails c w.space e) ∧
        k = (ofSecrets ((w.lookups c).filterMap (Lookup.secret? c w.space))).value := by
  rw [value_ofWorkload]
  constructor
  · intro h
    cases hf : fetched c w.space (w.lookups c) with
    | error e =>
      rw [hf] at h
      cases h
    | ok found =>
      obtain ⟨hn, rfl⟩ := (Lookup.fetched_eq_ok_iff ..).mp hf
      rw [hf] at h
      exact ⟨hn, (Except.ok.inj h).symm⟩
  · rintro ⟨h, rfl⟩
    rw [(Lookup.fetched_eq_ok_iff ..).mpr ⟨h, rfl⟩]
    rfl

/-- Of secrets that are looked up, the first that gives a credential decides. -/
theorem value_resolve_secrets (c : Cluster) (space : String) (ls : List Lookup) (t : Target) :
    (∀ credential,
      ((ofSecrets (ls.filterMap (Lookup.secret? c space))).value.resolve t).value =
        .credential credential ↔ FirstWith (Lookup.Gives c space t) ls credential) ∧
    (((ofSecrets (ls.filterMap (Lookup.secret? c space))).value.resolve t).value = .anonymous ↔
      ∀ l ∈ ls, ∀ credential, ¬ l.Gives c space t credential) := by
  have h (l : Lookup) (credential : Credential) :
      (l.secret? c space).bind (credentialOf? t) = some credential ↔
        l.Gives c space t credential := by
    simp only [Option.bind_eq_some_iff, Lookup.secret?_eq_some_iff, credentialOf?_eq_some_iff,
      Lookup.Gives]
  rw [value_resolve_ofSecrets, ← List.head?_filterMap, List.filterMap_filterMap,
    List.head?_filterMap, ← findSome?_eq_none_iff_forall h]
  simp only [← findSome?_eq_some_iff_firstWith h]
  cases ls.findSome? fun l => (l.secret? c space).bind (credentialOf? t) <;> simp

/-- The result for a workload is decided by its lookups alone. The first of them that fails ends the
construction with its error, and without one the keychain has for a target the credential of the
first that gives one, or else none. In a store no lookup fails but those that are made to. -/
theorem value_ofWorkload_iff (c : Cluster) (w : Workload) (t : Target) :
    (∀ e, (ofWorkload c w).run.value = .error e ↔
      FirstWith (Lookup.Fails c w.space) (w.lookups c) e) ∧
    ((∃ k, (ofWorkload c w).run.value = .ok k) ↔
      ∀ l ∈ w.lookups c, ∀ e, ¬ l.Fails c w.space e) ∧
    (∀ k, (ofWorkload c w).run.value = .ok k →
      (∀ credential, (k.resolve t).value = .credential credential ↔
        FirstWith (Lookup.Gives c w.space t) (w.lookups c) credential) ∧
      ((k.resolve t).value = .anonymous ↔
        ∀ l ∈ w.lookups c, ∀ credential, ¬ l.Gives c w.space t credential)) ∧
    ∀ (store : Store) (o : Outage), c = store.cluster.during o →
      ∀ e, (ofWorkload c w).run.value = .error e ↔ FirstWith (Lookup.Forced o) (w.lookups c) e := by
  refine ⟨value_ofWorkload_eq_error_iff c w, ?_, fun k hk => ?_, ?_⟩
  · simp only [value_ofWorkload_eq_ok_iff, exists_and_left, exists_eq, and_true]
  · obtain ⟨-, rfl⟩ := (value_ofWorkload_eq_ok_iff c w k).mp hk
    exact value_resolve_secrets c w.space (w.lookups c) t
  · rintro store o rfl e
    have h : Lookup.Fails (store.cluster.during o) w.space = Lookup.Forced o := by
      funext l e
      exact propext (Lookup.fails_during_iff store o w.space l e)
    rw [value_ofWorkload_eq_error_iff, h]

/-- A secret of the right type with its document under another key, one with a document, and an
account that it is attached to. -/
def misfiledStore : Store := .ofChanges
  [.insertSecret ⟨"misfiled", "default", .dockercfg, [("config", Text.utf8 "\x7b\x7d")]⟩,
    .insertSecret (.ofDocument "default" "pull" .dockercfg
      (Text.utf8 "\x7b\"r.io\":\x7b\"registrytoken\":\"t\"\x7d\x7d")),
    .insertAccount ⟨"builder", "default", ["pull"]⟩]

/-- A workload that names one of the secrets and one that is missing, and runs under the account. -/
def misfiledWorkload : Workload := ⟨"default", "builder", ["missing", "misfiled"]⟩

theorem value_ofWorkload_misfiled :
    misfiledWorkload.lookups misfiledStore.cluster =
      [.secret "missing", .secret "misfiled", .account "builder", .secret "pull"] ∧
    FirstWith (Lookup.Gives misfiledStore.cluster "default" (.ofHost "r.io"))
      (misfiledWorkload.lookups misfiledStore.cluster) (.bearer "t") ∧
    ∃ k, (ofWorkload misfiledStore.cluster misfiledWorkload).run.value = .ok k ∧
      (k.resolve (.ofHost "r.io")).value = .credential (.bearer "t") := by
  have hk : (ofWorkload misfiledStore.cluster misfiledWorkload).run.value =
      .ok ⟨[⟨[⟨⟨"r.io", ""⟩, .bearer "t"⟩]⟩], .anonymous⟩ := by
    decide +kernel
  have hresolve : ((Keychain.mk [⟨[⟨⟨"r.io", ""⟩, .bearer "t"⟩]⟩] .anonymous).resolve
      (.ofHost "r.io")).value = .credential (.bearer "t") := by
    decide +kernel
  obtain ⟨-, -, hgives, -⟩ :=
    value_ofWorkload_iff misfiledStore.cluster misfiledWorkload (.ofHost "r.io")
  exact ⟨by rfl, ((hgives _ hk).1 _).1 hresolve, _, hk, hresolve⟩

end Keychain

end RegistryAuth
