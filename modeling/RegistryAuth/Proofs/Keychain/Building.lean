import Mathlib.Data.List.Induction
import RegistryAuth.Proofs.Cluster.Resolution

/-!
# Two ways of building a keychain

A step of building adds at most one source and sets at most the fallback (`value_add`), so the steps
together add their sources in order, and the last fallback counts (`value_build`). A secret made of
a document adds what a step with the same document does: the empty document, which a secret does not
count as one, cannot be read either (`sourceOf?_ofDocument`). Main statement: what steps build, and
that documents build the same as steps and as secrets (`value_build_eq_value_ofSecrets`).
-/

namespace RegistryAuth

namespace Keychain

/-! ## Steps -/

namespace Step

/-- The source that a step adds, if it adds one. -/
def source? : Step → Option Source
  | .document _ format content => (Source.parse format content).run.value.toOption
  | .source s => some s
  | .fallback _ => none

/-- The fallback that a step sets, if it sets one. -/
def fallback? : Step → Option Access
  | .document .. | .source _ => none
  | .fallback access => some access

end Step

theorem value_add (k : Keychain) (step : Step) : (k.add step).value =
    ⟨k.sources ++ step.source?.toList, step.fallback?.getD k.fallback⟩ := by
  cases step with
  | document label format content =>
    rw [add, Logged.value_bind, Step.source?]
    cases (Source.parse format content).run.value with
    | ok source => rfl
    | error e => simp [Except.toOption, Step.fallback?]
  | source source => rfl
  | fallback access => simp [add, Step.source?, Step.fallback?]

theorem value_build_concat (steps : List Step) (step : Step) :
    (build (steps ++ [step])).value = ((build steps).value.add step).value := by
  simp only [build, Logged.value_foldlM, List.foldl_append, List.foldl_cons, List.foldl_nil]

/-- The sources are those of the steps in order, and the fallback is the last one that is set. -/
theorem value_build (steps : List Step) : (build steps).value =
    ⟨steps.filterMap Step.source?,
      (steps.filterMap Step.fallback?).getLast?.getD .anonymous⟩ := by
  -- From the end, since the last fallback counts.
  induction steps using List.reverseRecOn with
  | nil => rfl
  | append_singleton steps step ih =>
    rw [value_build_concat, value_add, ih, List.filterMap_append, List.filterMap_append]
    cases hs : step.source? <;> cases hf : step.fallback? <;> simp [hs, hf]

theorem value_build_of_unread {format : DocumentFormat} {content : Bytes} {error : ReadError}
    (h : (Source.parse format content).run.value = .error error) (label : String)
    (before after : List Step) :
    (build (before ++ .document label format content :: after)).value =
      (build (before ++ after)).value := by
  have hs : (Step.document label format content).source? = none := by rw [Step.source?, h]; rfl
  have hf : (Step.document label format content).fallback? = none := rfl
  simp only [value_build, List.filterMap_append, List.filterMap_cons_none hs,
    List.filterMap_cons_none hf]

/-! ## Secrets -/

theorem value_parse_nil (format : DocumentFormat) :
    (Source.parse format []).run.value.toOption = none := by
  cases format <;> rfl

theorem document?_ofDocument (space name : String) (format : DocumentFormat) (content : Bytes) :
    (PullSecret.ofDocument space name format content).document? =
      if content = [] then none else some (format, content) := by
  cases format <;> simp [PullSecret.document?, PullSecret.ofDocument, PullSecret.format?,
    PullSecret.typeOf, PullSecret.data, SecretData.ofList, SecretData.insert, SecretData.get?]

theorem sourceOf?_ofDocument (space name : String) (format : DocumentFormat) (content : Bytes) :
    sourceOf? (.ofDocument space name format content) =
      (Source.parse format content).run.value.toOption := by
  have hd := document?_ofDocument space name format content
  by_cases hc : content = []
  · rw [if_pos hc] at hd
    rw [sourceOf?, PullSecret.source?, hd, hc, value_parse_nil]
    rfl
  · rw [if_neg hc] at hd
    rw [sourceOf?, PullSecret.value_source? hd]
    cases (Source.parse format content).run.value <;> rfl

end Keychain

/-- A document with what tells it apart: a label in steps, a namespace and a name in a cluster. -/
structure NamedDocument where
  label : String
  space : String
  name : String
  format : DocumentFormat
  content : Bytes

namespace NamedDocument

/-- The step of building that adds a document. -/
def step (d : NamedDocument) : Keychain.Step := .document d.label d.format d.content

/-- The secret that holds a document. -/
def secret (d : NamedDocument) : PullSecret := .ofDocument d.space d.name d.format d.content

theorem source?_comp_step : Keychain.Step.source? ∘ step = Keychain.sourceOf? ∘ secret :=
  funext fun d => (Keychain.sourceOf?_ofDocument d.space d.name d.format d.content).symm

end NamedDocument

namespace Keychain

theorem value_build_documents (docs : List NamedDocument) :
    (build (docs.map NamedDocument.step)).value =
      (ofSecrets (docs.map NamedDocument.secret)).value := by
  have hf : (docs.map NamedDocument.step).filterMap Step.fallback? = [] := by
    rw [List.filterMap_eq_nil_iff, List.forall_mem_map]
    exact fun _ _ => rfl
  rw [value_build, value_ofSecrets, hf, List.filterMap_map, List.filterMap_map,
    NamedDocument.source?_comp_step]
  rfl

/-- Steps build the keychain of their sources in order, a document among them if it can be read, and
of the last fallback. A document that cannot be read leaves no trace in it. Documents alone build a
keychain of the same sources as the secrets that hold them do, with the same results. -/
theorem value_build_eq_value_ofSecrets :
    (∀ steps : List Step,
      (build steps).value.sources = steps.filterMap Step.source? ∧
      (build steps).value.fallback =
        (steps.filterMap Step.fallback?).getLast?.getD .anonymous) ∧
    (∀ (before after : List Step) (label : String) (format : DocumentFormat) (content : Bytes)
        (error : ReadError), (Source.parse format content).run.value = .error error →
      (build (before ++ .document label format content :: after)).value =
        (build (before ++ after)).value) ∧
    ∀ docs : List NamedDocument,
      (build (docs.map NamedDocument.step)).value.sources =
        (ofSecrets (docs.map NamedDocument.secret)).value.sources ∧
      ∀ t, (build (docs.map NamedDocument.step)).value.resolve t =
        (ofSecrets (docs.map NamedDocument.secret)).value.resolve t := by
  refine ⟨fun steps => ?_, fun before after label format content error h =>
    value_build_of_unread h label before after, fun docs => ?_⟩
  · rw [value_build]
    exact ⟨rfl, rfl⟩
  · rw [value_build_documents]
    exact ⟨rfl, fun _ => rfl⟩

/-- A document of no bytes. -/
def emptyDocument : NamedDocument := ⟨"config", "default", "pull", .dockerconfigjson, []⟩

/-- A document with one entry. -/
def tokenDocument : NamedDocument :=
  ⟨"config", "default", "pull", .dockercfg,
    Text.utf8 "\x7b\"r.io\":\x7b\"registrytoken\":\"t\"\x7d\x7d"⟩

/-- The empty document is one that cannot be read. Beside one that can it leaves no trace, and the
two build, as steps and as secrets, a keychain of the one source. -/
theorem value_build_emptyDocument :
    (build ([.fallback .anonymous, tokenDocument.step] ++
        emptyDocument.step :: [.fallback (.credential (.bearer "token"))])).value =
      ⟨[⟨[⟨⟨"r.io", ""⟩, .bearer "t"⟩]⟩], .credential (.bearer "token")⟩ ∧
    (build ([emptyDocument, tokenDocument].map NamedDocument.step)).value.sources =
      [⟨[⟨⟨"r.io", ""⟩, .bearer "t"⟩]⟩] ∧
    (ofSecrets ([emptyDocument, tokenDocument].map NamedDocument.secret)).value.sources =
      [⟨[⟨⟨"r.io", ""⟩, .bearer "t"⟩]⟩] := by
  obtain ⟨error, h⟩ : ∃ error, (Source.parse .dockerconfigjson []).run.value = .error error :=
    ⟨_, rfl⟩
  have hsame := (value_build_eq_value_ofSecrets.2.2 [emptyDocument, tokenDocument]).1
  have hsources : (build ([emptyDocument, tokenDocument].map NamedDocument.step)).value.sources =
      [⟨[⟨⟨"r.io", ""⟩, .bearer "t"⟩]⟩] := by
    decide +kernel
  refine ⟨?_, hsources, hsame.symm.trans hsources⟩
  refine (value_build_eq_value_ofSecrets.2.1 _ _ _ _ _ error h).trans ?_
  decide +kernel

end Keychain

end RegistryAuth
