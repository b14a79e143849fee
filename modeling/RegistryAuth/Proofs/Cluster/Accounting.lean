import RegistryAuth.Proofs.Cluster.Resolution
import RegistryAuth.Proofs.Document.Entries
import RegistryAuth.Proofs.Document.Written

/-!
# Where the secrets and entries go

Every entry of a document that is read, every secret of a keychain and every name of a secret that
is looked up is either used or told of by one event. Each step uses or tells of one of them
(`entriesOf`, `addSecret`, `fetchSecret`), and the sums over their runs are the main statement
(`length_secretNames_of_ofWorkload`).
-/

namespace RegistryAuth

open Json

/-- How many events have a message. -/
def tally (message : String) (events : List Event) : Nat := events.countP (·.message = message)

theorem tally_cons (message : String) (e : Event) (events : List Event) :
    tally message (e :: events) = tally message events + if e.message = message then 1 else 0 := by
  simp only [tally, List.countP_cons, decide_eq_true_eq]

theorem tally_append (message : String) (xs ys : List Event) :
    tally message (xs ++ ys) = tally message xs + tally message ys := List.countP_append

/-! ## Entries -/

/-- A document that is read has an entry for each member, or tells that it skips it. -/
theorem length_of_entriesOf {ms : Members} {entries : List Entry}
    (h : (entriesOf ms).run.value = .ok entries) : ms.length = entries.length +
      tally "entry has no credential fields; skipping" (entriesOf ms).run.events := by
  induction ms generalizing entries with
  | nil =>
    cases h
    rfl
  | cons m ms ih =>
    obtain ⟨key, v⟩ := m
    rw [value_entriesOf_cons] at h
    obtain ⟨scope, hs, h⟩ := bind_eq_ok.1 h
    obtain ⟨credential, hc, h⟩ := bind_eq_ok.1 h
    obtain ⟨others, ho, h⟩ := bind_eq_ok.1 h
    cases h
    have hlen := ih ho
    cases credential with
    | none =>
      rw [run_entriesOf_of_none hs hc, tally_cons]
      show ms.length + 1 = others.length + (_ + 1)
      rw [hlen, Nat.add_assoc]
    | some credential =>
      rw [run_entriesOf_of_some hs hc]
      show ms.length + 1 = others.length + 1 + _
      rw [hlen, Nat.add_right_comm]

theorem length_written_of_parse {format : DocumentFormat} {s : Bytes} {source : Source}
    (h : (Source.parse format s).run.value = .ok source) :
    ∃ ws, format.written s = .ok ws ∧ format.decode s = .ok (merged ws) ∧
      ws.names.eraseDups.length = source.entries.length +
        tally "entry has no credential fields; skipping" (Source.parse format s).run.events := by
  have hvalue := h
  rw [value_parse] at hvalue
  obtain ⟨ms, hms, hvalue⟩ := bind_eq_ok.1 hvalue
  obtain ⟨entries, hentries, hvalue⟩ := bind_eq_ok.1 hvalue
  obtain rfl : ⟨entries⟩ = source := Except.ok.inj hvalue
  have hdecode : format.decode s = .ok ms := mapError_eq_ok.1 hms
  obtain ⟨ws, hws, rfl⟩ := exists_written_of_decode hdecode
  refine ⟨ws, hws, hdecode, ?_⟩
  rw [run_parse_of_decode hdecode, ← names_merged, Members.names, List.length_map]
  exact length_of_entriesOf hentries

/-- Reading entries tells of nothing but those it skips. -/
theorem entrySkipped_of_mem_entriesOf {ms : Members} {e : Event}
    (h : e ∈ (entriesOf ms).run.events) : ∃ key, e = .entrySkipped key := by
  induction ms with
  | nil => cases h
  | cons m ms ih =>
    obtain ⟨key, v⟩ := m
    cases hs : Scope.parse key with
    | error =>
      rw [run_entriesOf_of_key hs] at h
      cases h
    | ok scope =>
      rcases hc : entryCredential? key v with error | (_ | credential)
      · rw [run_entriesOf_of_value hs hc] at h
        cases h
      · rw [run_entriesOf_of_none hs hc] at h
        rcases List.mem_cons.1 h with rfl | h
        · exact ⟨key, rfl⟩
        · exact ih h
      · rw [run_entriesOf_of_some hs hc] at h
        exact ih h

theorem entrySkipped_of_mem_parse {format : DocumentFormat} {s : Bytes} {e : Event}
    (h : e ∈ (Source.parse format s).run.events) : ∃ key, e = .entrySkipped key := by
  cases hd : format.decode s with
  | error error =>
    rw [Source.parse, DocumentFormat.entries, DocumentFormat.members, hd] at h
    cases h
  | ok ms =>
    rw [run_parse_of_decode hd] at h
    exact entrySkipped_of_mem_entriesOf h

/-! ## Secrets -/

namespace Keychain

theorem entrySkipped_of_mem_source? {s : PullSecret} {e : Event} (h : e ∈ s.source?.run.events) :
    ∃ key, e = .entrySkipped key := by
  rcases hd : s.document? with _ | ⟨format, content⟩
  · rw [PullSecret.source?, hd] at h
    cases h
  · rw [PullSecret.events_source? hd] at h
    exact entrySkipped_of_mem_parse h

/-- The messages of the events that tell what became of a secret. -/
def outcomes : List String :=
  ["loaded pull secret", "secret has no docker config data; ignoring",
    "malformed pull secret; ignoring"]

theorem message_outcome_mem (s : PullSecret) : (outcome s).message ∈ outcomes := by
  rw [outcome]
  rcases s.source?.run.value with e | (_ | source) <;> simp [Event.message, outcomes]

theorem secret_outcome (s : PullSecret) : (outcome s).fields.lookup "secret" = some s.name := by
  rw [outcome]
  rcases s.source?.run.value with e | (_ | source) <;> rfl

theorem filter_events_addSecret (k : Keychain) (s : PullSecret) :
    (k.addSecret s).events.filter (·.message ∈ outcomes) = [outcome s] := by
  have hskipped : s.source?.run.events.filter (·.message ∈ outcomes) = [] := by
    rw [List.filter_eq_nil_iff]
    intro e he
    obtain ⟨key, rfl⟩ := entrySkipped_of_mem_source? he
    simp [Event.message, outcomes]
  rw [events_addSecret_concat, List.filter_append, hskipped, List.nil_append]
  simp [message_outcome_mem s]

/-- One event for each secret, in order. -/
theorem filter_events_ofSecrets (secrets : List PullSecret) :
    (ofSecrets secrets).events.filter (·.message ∈ outcomes) = secrets.map outcome := by
  rw [ofSecrets, Logged.events_foldlM events_addSecret_concat, List.filter_flatMap]
  simp only [← events_addSecret_concat empty, filter_events_addSecret]
  exact List.map_eq_flatMap.symm

/-- Of these events those of the secrets with a source tell how many entries it has. -/
theorem filter_outcome (secrets : List PullSecret) :
    ((secrets.map outcome).filter (·.message = "loaded pull secret")).map
        (·.fields.lookup "entries") =
      (secrets.filterMap sourceOf?).map fun source => some (toString source.entries.length) := by
  induction secrets with
  | nil => rfl
  | cons s secrets ih =>
    rw [List.map_cons, List.filter_cons, List.filterMap_cons, outcome, sourceOf?]
    rcases s.source?.run.value with e | (_ | source)
    · exact ih
    · exact ih
    · exact congrArg (some (toString source.entries.length) :: ·) ih

theorem filter_loaded_events_ofSecrets (secrets : List PullSecret) :
    ((ofSecrets secrets).events.filter (·.message = "loaded pull secret")).map
        (·.fields.lookup "entries") =
      (ofSecrets secrets).value.sources.map fun source =>
        some (toString source.entries.length) := by
  have hloaded (e : Event) : decide (e.message = "loaded pull secret") =
      (decide (e.message = "loaded pull secret") && decide (e.message ∈ outcomes)) := by
    by_cases he : e.message = "loaded pull secret" <;> simp [he, outcomes]
  rw [value_ofSecrets, ← filter_outcome, ← filter_events_ofSecrets, List.filter_filter]
  simp only [← hloaded]

/-! ## The balance -/

/-- How many events tell that a name or secret is passed over. -/
def passedOver (events : List Event) : Nat :=
  tally "secret not found; ignoring" events +
    tally "secret has no docker config data; ignoring" events +
    tally "malformed pull secret; ignoring" events

theorem passedOver_append (xs ys : List Event) :
    passedOver (xs ++ ys) = passedOver xs + passedOver ys := by
  simp only [passedOver, tally_append]
  omega

theorem passedOver_source? (s : PullSecret) : passedOver s.source?.run.events = 0 := by
  have hskipped {message : String} (hm : "entry has no credential fields; skipping" ≠ message) :
      tally message s.source?.run.events = 0 := by
    rw [tally, List.countP_eq_zero]
    intro e he
    obtain ⟨key, rfl⟩ := entrySkipped_of_mem_source? he
    rw [decide_eq_true_eq]
    exact hm
  rw [passedOver, hskipped (by decide), hskipped (by decide), hskipped (by decide)]

/-- A secret adds a source or is passed over. -/
theorem length_sources_addSecret (k : Keychain) (s : PullSecret) :
    (k.addSecret s).value.sources.length + passedOver (k.addSecret s).events =
      k.sources.length + 1 := by
  rw [events_addSecret_concat, passedOver_append, passedOver_source?, value_addSecret, outcome,
    sourceOf?]
  rcases s.source?.run.value with e | (_ | source) <;> simp [Except.toOption] <;> rfl

theorem length_sources_ofSecrets (secrets : List PullSecret) :
    (ofSecrets secrets).value.sources.length + passedOver (ofSecrets secrets).events =
      secrets.length := by
  -- Sources that are there already count as they are, so the loop may start from any keychain.
  suffices h : ∀ k : Keychain, (secrets.foldlM addSecret k).value.sources.length +
      passedOver (secrets.foldlM addSecret k).events = k.sources.length + secrets.length by
    have h := h empty
    rwa [show empty.sources.length = 0 from rfl, Nat.zero_add] at h
  intro k
  induction secrets generalizing k with
  | nil => rfl
  | cons s secrets ih =>
    have hstep := length_sources_addSecret k s
    have hrest := ih (k.addSecret s).value
    rw [List.foldlM_cons, Logged.value_bind, Logged.events_bind, passedOver_append,
      List.length_cons]
    omega

section

variable {c : Cluster} {space : String}

/-- If passing over a missing record succeeds, the one event tells of it. -/
theorem of_passing_over {α : Type} {e : ClusterError} {event : Event} {absent found : α}
    (h : (if e.isNotFound then do Logged.emit event; return absent else throw e :
      ExceptT ClusterError Logged α).run.value = .ok found) :
    found = absent ∧ (if e.isNotFound then do Logged.emit event; return absent else throw e :
      ExceptT ClusterError Logged α).run.events = [event] := by
  cases hn : e.isNotFound with
  | true =>
    simp only [hn, if_true] at h
    cases h
    exact ⟨rfl, rfl⟩
  | false =>
    simp only [hn] at h
    cases h

theorem length_of_fetchSecret {name : String} {found : Option PullSecret}
    (h : (fetchSecret c space name).run.value = .ok found) :
    found.toList.length + passedOver (fetchSecret c space name).run.events = 1 := by
  rw [fetchSecret] at h ⊢
  cases hc : c.secret space name with
  | ok s =>
    rw [hc] at h
    cases h
    rfl
  | error e =>
    rw [hc] at h
    obtain ⟨rfl, hevents⟩ := of_passing_over h
    rw [hevents]
    rfl

theorem length_of_fetchSecrets {names : List String} {found : List PullSecret}
    (h : (fetchSecrets c space names).run.value = .ok found) :
    found.length + passedOver (fetchSecrets c space names).run.events = names.length := by
  induction names generalizing found with
  | nil =>
    cases h
    rfl
  | cons name names ih =>
    rw [fetchSecrets, Logged.value_run_bind] at h
    obtain ⟨s, hs, h⟩ := bind_eq_ok.1 h
    rw [Logged.run_bind_pure] at h
    obtain ⟨rest, hrest, rfl⟩ := map_eq_ok.1 h
    have hone := length_of_fetchSecret hs
    have hmore := ih hrest
    rw [fetchSecrets, Logged.events_run_bind_ok hs, Logged.run_bind_pure, passedOver_append,
      List.length_append, List.length_cons]
    dsimp only
    omega

theorem length_of_fetchAttached {account : String} {found : List PullSecret}
    (h : (fetchAttached c space account).run.value = .ok found) :
    found.length + passedOver (fetchAttached c space account).run.events =
      (match c.account space account with
        | .ok a => a.secretNames
        | .error _ => []).length := by
  rw [fetchAttached] at h ⊢
  cases hc : c.account space account with
  | ok a =>
    rw [hc] at h
    exact length_of_fetchSecrets h
  | error e =>
    rw [hc] at h
    obtain ⟨rfl, hevents⟩ := of_passing_over h
    rw [hevents]
    rfl

end

/-- Looks up the secrets of the service account of a workload, if it has one. -/
def fetchOfAccount (c : Cluster) (w : Workload) : ExceptT ClusterError Logged (List PullSecret) :=
  if w.account = Workload.noAccount then pure [] else fetchAttached c w.space w.account

theorem ofWorkload_eq (c : Cluster) (w : Workload) :
    ofWorkload c w = fetchSecrets c w.space w.secretNames >>= fun named =>
      fetchOfAccount c w >>= fun attached => liftM (ofSecrets (named ++ attached)) := by
  rw [ofWorkload]
  refine congrArg _ (funext fun named => ?_)
  by_cases hw : w.account = Workload.noAccount <;>
    simp [fetchOfAccount, Workload.usesAccount, hw]

end Keychain

/-- The name of the secret that is looked up. -/
def Lookup.secretName? : Lookup → Option String
  | .secret name => some name
  | .account _ => none

theorem Lookup.filterMap_secretName? (names : List String) :
    (names.map Lookup.secret).filterMap Lookup.secretName? = names := by
  rw [List.filterMap_map]
  exact List.filterMap_some

namespace Keychain

variable {c : Cluster} {w : Workload}

theorem length_of_fetchOfAccount {found : List PullSecret}
    (h : (fetchOfAccount c w).run.value = .ok found) :
    w.secretNames.length + (found.length + passedOver (fetchOfAccount c w).run.events) =
      ((w.lookups c).filterMap Lookup.secretName?).length := by
  rw [Workload.lookups, List.filterMap_append, Lookup.filterMap_secretName?, List.length_append]
  rw [fetchOfAccount] at h ⊢
  by_cases hw : w.account = Workload.noAccount
  · simp only [hw, if_true] at h ⊢
    cases h
    rfl
  · simp only [hw, if_false] at h ⊢
    rw [length_of_fetchAttached h, List.filterMap_cons_none rfl]
    cases c.account w.space w.account with
    | ok a => rw [Lookup.filterMap_secretName?]
    | error e => rfl

theorem length_sources_ofWorkload {k : Keychain} (h : (ofWorkload c w).run.value = .ok k) :
    k.sources.length + passedOver (ofWorkload c w).run.events =
      ((w.lookups c).filterMap Lookup.secretName?).length := by
  rw [ofWorkload_eq, Logged.value_run_bind] at h
  obtain ⟨named, hnamed, h⟩ := bind_eq_ok.1 h
  rw [Logged.value_run_bind] at h
  obtain ⟨attached, hattached, h⟩ := bind_eq_ok.1 h
  obtain rfl : (ofSecrets (named ++ attached)).value = k := Except.ok.inj h
  have hown := length_of_fetchSecrets hnamed
  have hother := length_of_fetchOfAccount hattached
  have hall := length_sources_ofSecrets (named ++ attached)
  have hevents : (liftM (ofSecrets (named ++ attached)) :
      ExceptT ClusterError Logged Keychain).run.events = (ofSecrets (named ++ attached)).events :=
    Logged.events_map Except.ok _
  rw [List.length_append] at hall
  rw [ofWorkload_eq, Logged.events_run_bind_ok hnamed, Logged.events_run_bind_ok hattached,
    hevents, passedOver_append, passedOver_append]
  omega

/-- A keychain accounts for what it is built from. Of a workload, each secret that is looked up by
name gives a source or is told to be passed over. Of secrets, exactly one event tells for each what
became of it, in order and under its name, and those that are loaded give the numbers of entries of
the sources, in order. Of a document, each key that is written gives an entry or is skipped. -/
theorem length_secretNames_of_ofWorkload :
    (∀ (c : Cluster) (w : Workload) (k : Keychain), (ofWorkload c w).run.value = .ok k →
      ((w.lookups c).filterMap Lookup.secretName?).length =
        k.sources.length + passedOver (ofWorkload c w).run.events) ∧
    (∀ secrets : List PullSecret,
      ((ofSecrets secrets).events.filter (·.message ∈ outcomes)).map (·.fields.lookup "secret") =
        secrets.map (some ·.name) ∧
      ((ofSecrets secrets).events.filter (·.message = "loaded pull secret")).map
          (·.fields.lookup "entries") =
        (ofSecrets secrets).value.sources.map fun source => some (toString source.entries.length)) ∧
    ∀ (format : DocumentFormat) (s : Bytes) (source : Source),
      (Source.parse format s).run.value = .ok source →
      ∃ ws, format.written s = .ok ws ∧ format.decode s = .ok (merged ws) ∧
        ws.names.eraseDups.length = source.entries.length +
          tally "entry has no credential fields; skipping" (Source.parse format s).run.events := by
  refine ⟨fun c w k h => (length_sources_ofWorkload h).symm, fun secrets => ⟨?_, ?_⟩,
    fun format s source h => length_written_of_parse h⟩
  · rw [filter_events_ofSecrets, List.map_map]
    exact List.map_congr_left fun s _ => secret_outcome s
  · exact filter_loaded_events_ofSecrets secrets

/-- A document with a key that is written twice and one for which there is no credential. -/
def repeatingDocument : Bytes := Text.utf8
  "\x7b\"r.io\":\x7b\x7d,\"s.io\":\x7b\x7d,\"r.io\":\x7b\"registrytoken\":\"t\"\x7d\x7d"

/-- A cluster with a secret that can be used, one that cannot be read and one without document. -/
def mixedStore : Store := .ofChanges
  [.insertSecret (.ofDocument "default" "good" .dockercfg repeatingDocument),
    .insertSecret (.ofDocument "default" "bad" .dockercfg (Text.utf8 "[]")),
    .insertSecret ⟨"plain", "default", .opaqueData, []⟩,
    .insertAccount ⟨"default", "default", ["good"]⟩]

/-- A workload that names all of them and one that is missing. -/
def mixedWorkload : Workload := ⟨"default", "default", ["bad", "good", "missing", "plain"]⟩

/-- Of five names two give a source, so three are passed over. Of two keys in a document one gives
an entry, so one is skipped. -/
theorem passedOver_mixed :
    ((mixedWorkload.lookups mixedStore.cluster).filterMap Lookup.secretName?).length = 5 ∧
    (∃ k, (ofWorkload mixedStore.cluster mixedWorkload).run.value = .ok k ∧ k.sources.length = 2) ∧
    passedOver (ofWorkload mixedStore.cluster mixedWorkload).run.events = 3 ∧
    ∃ ws, DocumentFormat.dockercfg.written repeatingDocument = .ok ws ∧
      ws.names.eraseDups.length = 1 + tally "entry has no credential fields; skipping"
        (Source.parse .dockercfg repeatingDocument).run.events := by
  let source : Source := ⟨[⟨⟨"r.io", ""⟩, .bearer "t"⟩]⟩
  have hnames : ((mixedWorkload.lookups mixedStore.cluster).filterMap
      Lookup.secretName?).length = 5 := by decide
  have hk : (ofWorkload mixedStore.cluster mixedWorkload).run.value =
      .ok ⟨[source, source], .anonymous⟩ := by decide +kernel
  have hparse : (Source.parse .dockercfg repeatingDocument).run.value = .ok source := by
    decide +kernel
  have hsum := length_secretNames_of_ofWorkload.1 _ _ _ hk
  obtain ⟨ws, hws, -, hlen⟩ := length_secretNames_of_ofWorkload.2.2 _ _ _ hparse
  refine ⟨hnames, ⟨_, hk, rfl⟩, ?_, ws, hws, hlen⟩
  rw [hnames] at hsum
  exact (Nat.add_left_cancel (hsum : 2 + 3 = 2 + _)).symm

end Keychain

end RegistryAuth
