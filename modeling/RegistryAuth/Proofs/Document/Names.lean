import RegistryAuth.Proofs.Document.Decoding

/-!
# Names in a document

However often a name is written in an object, what is read has it once. What holds before the
members of an object and is kept by each of them holds of what they make (`of_membersFrom`). Main
statement: the entries of a document are objects with distinct names, if they are objects
(`distinct_of_decode`).
-/

namespace RegistryAuth

namespace Json

/-- What each member keeps, whatever the members before it have made, all of them keep. -/
theorem of_membersFrom {σ : Type} {P : σ → Prop} {member : σ → String → Reader σ}
    (step : ∀ {state name s next rest}, P state → member state name s = .ok (next, rest) → P next)
    {first : Bool} {state x : σ} {s rest : Bytes} (hs : P state)
    (h : membersFrom member first state s = .ok (x, rest)) : P x := by
  fun_induction membersFrom member first state s generalizing x rest with
  | case1 => cases h
  | case2 => cases h; exact hs
  | case3 => cases h
  | case4 => cases h
  | case5 first state s start ht name afterName hn next after hm lt ih => exact ih (step hs hm) h

theorem insertMember_eq_ok {value : Reader Value} {before ms : Members} {name : String}
    {s rest : Bytes} (h : insertMember value before name s = .ok (ms, rest)) :
    ∃ start v, value start = .ok (v, rest) ∧ ms = before.insert name v := by
  obtain ⟨v, hv, rfl⟩ := Reader.map_read_eq_ok.1 h
  obtain ⟨start, -, hv⟩ := bind_eq_ok.1 hv
  exact ⟨start, v, hv, rfl⟩

theorem Members.nodup_names_insert (name : String) (v : Value) {ms : Members}
    (h : ms.names.Nodup) : (ms.insert name v).names.Nodup := by
  rw [Members.names_insert]
  split
  · exact h
  · next hn =>
    rw [List.nodup_append]
    refine ⟨h, List.pairwise_singleton _ name, fun a ha b hb => ?_⟩
    rw [List.mem_singleton.1 hb]
    exact fun he => hn (he ▸ ha)

theorem Members.mem_of_mem_insert {name : String} {v : Value} {ms : Members}
    {m : String × Value} (h : m ∈ ms.insert name v) : m = (name, v) ∨ m ∈ ms := by
  induction ms with
  | nil => exact .inl (List.mem_singleton.1 h)
  | cons w ms ih =>
    rw [Members.insert] at h
    split at h
    · rcases List.mem_cons.1 h with h | h
      · exact .inl h
      · exact .inr (List.mem_cons_of_mem _ h)
    · rcases List.mem_cons.1 h with rfl | h
      · exact .inr List.mem_cons_self
      · exact (ih h).imp_right (List.mem_cons_of_mem _)

theorem Members.get?_eq_none_iff {name : String} {ms : Members} :
    ms.get? name = none ↔ name ∉ ms.names := by
  induction ms with
  | nil => simp [Members.get?, Members.names]
  | cons m ms ih =>
    rw [Members.get?, mem_names_cons, not_or, ← ih, eq_comm (a := name)]
    split <;> simp_all

/-- Where names are distinct a member is found by its name. -/
theorem Members.get?_eq_some_iff {name : String} {v : Value} {ms : Members}
    (h : ms.names.Nodup) : ms.get? name = some v ↔ (name, v) ∈ ms := by
  induction ms with
  | nil => simp [Members.get?]
  | cons m ms ih =>
    obtain ⟨first, w⟩ := m
    obtain ⟨hfirst, hms⟩ := List.nodup_cons.1 h
    rw [Members.get?, List.mem_cons, Prod.mk.injEq, ← ih hms]
    dsimp only
    split
    · next he =>
      have hnone : Members.get? name ms = none := Members.get?_eq_none_iff.2 (he ▸ hfirst)
      simp [hnone, he, eq_comm]
    · next he => simp [Ne.symm he]

/-- Whether a value has each name once, if it is an object. -/
def Value.Distinct (v : Value) : Prop := ∀ ms : Members, v = .object ms → ms.names.Nodup

theorem distinct_of_isScalar {v : Value} (h : v.isScalar = true) : v.Distinct := by
  rintro ms rfl
  cases h

theorem distinct_of_value {depth : Nat} {s rest : Bytes} {v : Value}
    (h : value depth s = .ok (v, rest)) : v.Distinct := by
  cases depth with
  | zero =>
    simp only [value, Reader.byBracket] at h
    repeat' split at h
    · cases h
    · cases h
    · cases h
    · exact distinct_of_isScalar (isScalar_of_scalar h)
  | succ depth =>
    cases form_of_value h with
    | array => intro ms hv; cases hv
    | scalar start ha ho inner => exact distinct_of_isScalar (isScalar_of_scalar inner)
    | @object tail rest ms start inner =>
      intro ms' hv
      cases hv
      refine of_membersFrom (P := fun ms => ms.names.Nodup) (fun hms hm => ?_) List.nodup_nil inner
      obtain ⟨_, v, -, rfl⟩ := insertMember_eq_ok hm
      exact Members.nodup_names_insert _ v hms

theorem distinct_of_readObject {depth : Nat} {s rest : Bytes} {ms : Members}
    (h : readObject depth s = .ok (ms, rest)) : ∀ m ∈ ms, m.2.Distinct := by
  obtain ⟨tail, -, h⟩ := byBracket_object_eq_ok_iff.1 h
  refine of_membersFrom (P := fun ms => ∀ m ∈ ms, m.2.Distinct) (fun hms hm => ?_)
    (List.forall_mem_nil _) h
  obtain ⟨_, v, hv, rfl⟩ := insertMember_eq_ok hm
  intro m hm
  rcases Members.mem_of_mem_insert hm with rfl | hm
  · exact distinct_of_value hv
  · exact hms m hm

end Json

open Json

/-! ## The wrapper -/

/-- Whether the entries that are taken from a wrapper have each name once, if they are objects. -/
def DistinctTaken (taken : Option Members) : Prop := ∀ ms ∈ taken, ∀ m ∈ ms, m.2.Distinct

theorem distinctTaken_of_authsField {taken x : Option Members} {s rest : Bytes}
    (h : authsField.reader taken s = .ok (x, rest)) : DistinctTaken x := by
  obtain ⟨ms, hms, rfl⟩ := Reader.map_read_eq_ok.1 h
  intro taken ht
  cases ht
  exact distinct_of_readObject hms

theorem distinctTaken_of_member {taken x : Option Members} {name : String} {s rest : Bytes}
    (ht : DistinctTaken taken) (h : wrapper.member taken name s = .ok (x, rest)) :
    DistinctTaken x := by
  rw [wrapper_member] at h
  repeat' split at h
  · cases h
  · obtain ⟨start, -, h⟩ := bind_eq_ok.1 h
    exact distinctTaken_of_authsField h
  · obtain ⟨start, -, h⟩ := bind_eq_ok.1 h
    obtain ⟨-, -, rfl⟩ := Reader.map_read_eq_ok.1 h
    exact ht

theorem distinctTaken_of_array {x : Option Members} {s rest : Bytes}
    (h : wrapper.arrayReader s = .ok (x, rest)) : DistinctTaken x := by
  obtain ⟨turn, -, h⟩ := bind_eq_ok.1 h
  cases turn with
  | done after =>
    obtain ⟨y, hy, h⟩ := bind_eq_ok.1 h
    cases h
    cases hy
    exact fun _ hm => by cases hm
  | more start =>
    obtain ⟨⟨taken, after⟩, ht, h⟩ := bind_eq_ok.1 h
    obtain ⟨after, -, h⟩ := bind_eq_ok.1 h
    cases h
    exact distinctTaken_of_authsField ht

theorem distinctTaken_of_wrapper {x : Option Members} {s rest : Bytes}
    (h : wrapper.reader s = .ok (x, rest)) : DistinctTaken x := by
  simp only [Record.reader, Reader.byBracket] at h
  repeat' split at h
  · cases h
  · exact distinctTaken_of_array h
  · obtain ⟨⟨taken, after⟩, ht, h⟩ := bind_eq_ok.1 h
    cases h
    refine of_membersFrom distinctTaken_of_member (fun ms hm => ?_) ht
    cases hm
  · obtain ⟨⟨v, after⟩, -, h⟩ := bind_eq_ok.1 h
    cases h

/-! ## Documents -/

theorem distinct_of_decode {format : DocumentFormat} {s : Bytes} {ms : Members}
    (h : format.decode s = .ok ms) : ∀ m ∈ ms, m.2.Distinct := by
  cases format with
  | dockercfg =>
    obtain ⟨rest, hr, -⟩ := whole_eq_ok_iff.1 h
    exact distinct_of_readObject hr
  | dockerconfigjson =>
    obtain ⟨taken, ht, rfl⟩ := map_eq_ok.1 h
    obtain ⟨rest, hr, -⟩ := whole_eq_ok_iff.1 ht
    cases taken with
    | none => exact List.forall_mem_nil _
    | some ms => exact distinctTaken_of_wrapper hr ms rfl

end RegistryAuth
