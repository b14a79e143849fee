import RegistryAuth.Cluster.SecretType
import RegistryAuth.Cluster.ServiceAccount
import RegistryAuth.Cluster.Workload
import RegistryAuth.Proofs.Json.Rendered

/-!
# Records of the cluster as JSON

Workloads and service accounts are written as objects of all their fields. Reading the members of
such an object fills a draft field by field (`Workload.fills`, `ServiceAccount.fills`), and the
draft is of the record that was written. The type of a secret is written as its name, and reading
gives the type of that name (`SecretType.ofJson_toJson`), which is another one if the name of a type
with a meaning was in an `other`. Main statement: which records and types are read back, and that
what is written for a record stays as it is (`records_reread`).
-/

namespace RegistryAuth

open Json (Fills Value Members)

/-! ## Written and read -/

/-- If all that is written is read back, then writing what a text was read as changes neither what
is read nor, from then on, the text. -/
theorem read_eq_of_map_write {α : Type} {write : α → String} {read : Bytes → Except Json.Error α}
    (h : ∀ x, read (Text.utf8 (write x)) = .ok x) {s : Bytes} {text : String}
    (hs : (read s).map write = .ok text) :
    read (Text.utf8 text) = read s ∧ (read (Text.utf8 text)).map write = .ok text := by
  obtain ⟨x, hx, rfl⟩ := Json.map_eq_ok.1 hs
  rw [h x, hx]
  exact ⟨rfl, rfl⟩

/-- An object of two texts and a list of texts decodes from what is written for it. -/
theorem decode_render_fields {first second third : String} (hnames : [first, second, third].Nodup)
    (x y : String) (zs : List String) :
    Json.decode (Text.utf8 (Value.object
      [(first, .string x), (second, .string y), (third, .array (zs.map .string))]).render) =
      .ok (.object
        [(first, .string x), (second, .string y), (third, .array (zs.map .string))]) := by
  refine Json.decode_render (.object hnames ?_)
  simp only [List.forall_mem_cons, List.not_mem_nil, false_imp_iff, implies_true, and_true]
  refine ⟨.string _ x, .string _ y, .array ?_⟩
  rw [List.forall_mem_map]
  exact fun z _ => .string _ z

/-! ## Workloads -/

namespace Workload

/-- The members that a workload is written as. -/
def members (w : Workload) : Members :=
  [("namespace", .string w.space), ("service_account_name", .string w.account),
    ("image_pull_secrets", .array (w.secretNames.map .string))]

theorem fills (w : Workload) :
    Fills record.member record.blank w.members ⟨w.space, w.account, w.secretNames⟩ :=
  .cons (Json.Record.reads_member rfl rfl (Json.reads_readText w.space))
    (.cons (Json.Record.reads_member rfl rfl (Json.reads_readText w.account))
      (.cons (Json.Record.reads_member rfl rfl (Json.reads_readTexts w.secretNames)) (.nil _)))

theorem ofJson_toJson (w : Workload) : ofJson (Text.utf8 w.toJson) = .ok w :=
  Json.map_eq_ok.2 ⟨_, Json.Record.decode_render w.fills rfl, rfl⟩

end Workload

/-! ## Service accounts -/

namespace ServiceAccount

/-- The members that a service account is written as. -/
def members (a : ServiceAccount) : Members :=
  [("name", .string a.name), ("namespace", .string a.space),
    ("image_pull_secrets", .array (a.secretNames.map .string))]

theorem fills (a : ServiceAccount) :
    Fills record.member record.blank a.members ⟨a.name, a.space, a.secretNames⟩ :=
  .cons (Json.Record.reads_member rfl rfl (Json.reads_readText a.name))
    (.cons (Json.Record.reads_member rfl rfl (Json.reads_readText a.space))
      (.cons (Json.Record.reads_member rfl rfl (Json.reads_readTexts a.secretNames)) (.nil _)))

theorem ofJson_toJson (a : ServiceAccount) : ofJson (Text.utf8 a.toJson) = .ok a :=
  Json.map_eq_ok.2 ⟨_, Json.Record.decode_render a.fills rfl, rfl⟩

end ServiceAccount

/-! ## Types of secrets -/

namespace SecretType

theorem name_ofName (s : String) : (ofName s).name = s := by
  rw [ofName]
  cases h : known.find? fun type => type.name = s with
  | none => rfl
  | some t =>
    have hname := List.find?_some h
    exact of_decide_eq_true hname

/-- A type is the type of its name unless it is written as `other` and has a meaning. -/
theorem ofName_name_eq_iff (t : SecretType) :
    ofName t.name = t ↔ ∀ s ∈ known.map name, t ≠ .other s := by
  rw [List.forall_mem_map]
  cases t with
  | dockercfg => exact iff_of_true rfl (by simp)
  | dockerconfigjson => exact iff_of_true rfl (by simp)
  | opaqueData => exact iff_of_true rfl (by simp)
  | other w =>
    have hother : ofName w = .other w ↔ known.find? (fun type => type.name = w) = none := by
      rw [ofName]
      cases h : known.find? fun type => type.name = w with
      | none => exact iff_of_true rfl rfl
      | some t =>
        refine iff_of_false (fun ht => ?_) (Option.some_ne_none t)
        have hmem := List.mem_of_find?_eq_some h
        rw [Option.getD_some] at ht
        subst ht
        simp [known] at hmem
    show ofName w = .other w ↔ _
    rw [hother, List.find?_eq_none]
    simp only [decide_eq_true_eq, ne_eq, other.injEq]
    exact forall₂_congr fun _ _ => not_congr eq_comm

theorem ofJson_toJson (t : SecretType) : ofJson (Text.utf8 t.toJson) = .ok (ofName t.name) :=
  Json.map_eq_ok.2 ⟨_, (Json.reads_readText t.name).whole, rfl⟩

end SecretType

/-! ## Main statement -/

/-- What is written for a workload or a service account is the object of its fields and is read
back. Whatever text either was read from, what is then written is read as the same and is written
the same again. A name is written for its type and gives the type again, and a type is read back unless it is
an `other` of a name with a meaning. -/
theorem records_reread :
    (∀ w : Workload, Json.decode (Text.utf8 w.toJson) = .ok (.object w.members) ∧
      Workload.ofJson (Text.utf8 w.toJson) = .ok w) ∧
    (∀ a : ServiceAccount, Json.decode (Text.utf8 a.toJson) = .ok (.object a.members) ∧
      ServiceAccount.ofJson (Text.utf8 a.toJson) = .ok a) ∧
    (∀ (s : Bytes) (text : String), (Workload.ofJson s).map Workload.toJson = .ok text →
      Workload.ofJson (Text.utf8 text) = Workload.ofJson s ∧
      (Workload.ofJson (Text.utf8 text)).map Workload.toJson = .ok text) ∧
    (∀ (s : Bytes) (text : String),
      (ServiceAccount.ofJson s).map ServiceAccount.toJson = .ok text →
      ServiceAccount.ofJson (Text.utf8 text) = ServiceAccount.ofJson s ∧
      (ServiceAccount.ofJson (Text.utf8 text)).map ServiceAccount.toJson = .ok text) ∧
    (∀ s : String, Json.decode (Text.utf8 (SecretType.ofName s).toJson) = .ok (.string s) ∧
      SecretType.ofJson (Text.utf8 (SecretType.ofName s).toJson) = .ok (SecretType.ofName s)) ∧
    ∀ t : SecretType, SecretType.ofJson (Text.utf8 t.toJson) = .ok t ↔
      ∀ name ∈ ["kubernetes.io/dockercfg", "kubernetes.io/dockerconfigjson", "Opaque"],
        t ≠ .other name := by
  refine ⟨fun w => ⟨?_, w.ofJson_toJson⟩, fun a => ⟨?_, a.ofJson_toJson⟩,
    fun _ _ => read_eq_of_map_write Workload.ofJson_toJson,
    fun _ _ => read_eq_of_map_write ServiceAccount.ofJson_toJson, fun s => ⟨?_, ?_⟩, fun t => ?_⟩
  · exact decode_render_fields (by decide) w.space w.account w.secretNames
  · exact decode_render_fields (by decide) a.name a.space a.secretNames
  · have hname : (SecretType.ofName s).toJson = (Value.string s).render := by
      rw [SecretType.toJson, SecretType.name_ofName, Value.render]
    rw [hname]
    exact Json.decode_render (.string _ s)
  · rw [SecretType.ofJson_toJson, SecretType.name_ofName]
  · rw [SecretType.ofJson_toJson, Except.ok.injEq, SecretType.ofName_name_eq_iff]
    rfl

/-- A workload without an account, its secret's name written with an escape, beside a member that no
field has; and an account written as an array. -/
theorem records_reread_defaults :
    Workload.ofJson (Text.utf8 (Workload.toJson ⟨"ns", "default", ["a\""]⟩)) =
      Workload.ofJson (Text.utf8
        "\x7b\"x\":[\x7b\x7d],\"image_pull_secrets\":[\"a\\u0022\"],\"namespace\":\"ns\"\x7d") ∧
    ServiceAccount.ofJson (Text.utf8 (ServiceAccount.toJson ⟨"a", "ns", []⟩)) =
      ServiceAccount.ofJson (Text.utf8 "[\"a\", \"ns\"]") := by
  refine ⟨(records_reread.2.2.1 _ _ ?_).1, (records_reread.2.2.2.1 _ _ ?_).1⟩
  · with_unfolding_all rfl
  · with_unfolding_all rfl

end RegistryAuth
