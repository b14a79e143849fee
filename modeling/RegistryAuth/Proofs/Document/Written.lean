import RegistryAuth.Proofs.Document.Decoding

/-!
# The entries of a document as they are written

Reading a document keeps one entry of a key. If the object of the entries is read to all of its
members instead, in the order of the text (`DocumentFormat.written`), the same texts can be read,
with the same faults, and merging the members gives what reading the document does. Main statement:
`decode_eq_map_written`, from the same for each way of putting readers together (`Reader.Maps`).
-/

namespace RegistryAuth

namespace Json

/-! ## Readers that go alike -/

section

variable {α β γ δ : Type}

/-- Whether a reader reads what another one does, with `φ` applied to the value. -/
def Reader.Maps (φ : α → β) (r : Reader α) (r' : Reader β) : Prop :=
  ∀ s, r' s = (r s).map (Prod.map φ id)

namespace Reader.Maps

variable {φ : α → β}

theorem refl (r : Reader α) : Maps id r r := by
  intro s
  cases r s <;> rfl

theorem fail (φ : α → β) (fault : Bytes → Fault) : Maps φ (.fail fault) (.fail fault) :=
  fun _ => rfl

theorem check {ψ : γ → δ} {r : Reader α} {r' : Reader β} (h : Maps φ r r')
    {f : α → Except Cause γ} {g : β → Except Cause δ} (hf : ∀ x, g (φ x) = (f x).map ψ) :
    Maps ψ (r.check f) (r'.check g) := by
  intro s
  simp only [Reader.check, Reader.refine]
  rw [h s]
  cases r s with
  | error e => rfl
  | ok found =>
    simp only [Except.map, bind, Except.bind, Prod.map, hf]
    cases f found.1 <;> rfl

theorem notScalar (φ : α → β) (wanted : Wanted) :
    Maps φ (.notScalar wanted) (.notScalar wanted) :=
  .check (.refl scalar) fun _ => rfl

theorem map {ψ : γ → δ} {r : Reader α} {r' : Reader β} (h : Maps φ r r') {f : α → γ} {g : β → δ}
    (hf : ∀ x, g (φ x) = ψ (f x)) : Maps ψ (r.map f) (r'.map g) := by
  intro s
  show (r' s).map _ = ((r s).map _).map _
  rw [h s]
  cases r s with
  | error e => rfl
  | ok found => exact congrArg (fun y => Except.ok (y, found.2)) (hf found.1)

theorem afterColon {r : Reader α} {r' : Reader β} (h : Maps φ r r') :
    Maps φ r.afterColon r'.afterColon := by
  intro s
  show (colon s >>= r'.read) = (colon s >>= r.read).map _
  cases colon s with
  | error e => rfl
  | ok rest => exact h rest

theorem byBracket {array object scalar : Reader α} {array' object' scalar' : Reader β}
    (ha : Maps φ array array') (ho : Maps φ object object') (hs : Maps φ scalar scalar') :
    Maps φ (.byBracket array object scalar) (.byBracket array' object' scalar') := by
  intro s
  simp only [Reader.byBracket]
  cases skipSpace s with
  | nil => rfl
  | cons b rest =>
    dsimp only
    split
    · exact ha rest
    split
    · exact ho rest
    · exact hs (b :: rest)

theorem members {member : α → String → Reader α} {member' : β → String → Reader β}
    (h : ∀ state name, Maps φ (member state name) (member' (φ state) name)) (state : α) :
    Maps φ (members member state) (members member' (φ state)) := by
  -- Each member changes the state, so the statement is about any one, not only the first.
  suffices hfrom : ∀ first state s, membersFrom member' first (φ state) s =
      (membersFrom member first state s).map (Prod.map φ id) from hfrom true state
  intro first state s
  fun_induction membersFrom member first state s with
  | case1 first state s e ht =>
    rw [membersFrom_eq, ht]
    rfl
  | case2 first state s rest ht =>
    rw [membersFrom_eq, ht]
    rfl
  | case3 first state s start ht e hn =>
    rw [membersFrom_eq, ht]
    simp only [bind, Except.bind, hn]
    rfl
  | case4 first state s start ht name afterName hn e hm =>
    have hm' := h state name afterName
    rw [hm] at hm'
    rw [membersFrom_eq, ht]
    simp only [bind, Except.bind, hn, hm']
    rfl
  | case5 first state s start ht name afterName hn state' after hm lt ih =>
    have hm' := h state name afterName
    rw [hm] at hm'
    rw [membersFrom_eq, ht]
    simp only [bind, Except.bind, hn, hm']
    exact ih

theorem whole {r : Reader α} {r' : Reader β} (h : Maps φ r r') (s : Bytes) :
    r'.whole s = (r.whole s).map φ := by
  rw [Reader.whole, Reader.whole, h s]
  cases r s with
  | error e => rfl
  | ok found =>
    obtain ⟨x, rest⟩ := found
    simp only [Except.map, bind, Except.bind, Prod.map, id, Reader.last]
    cases skipSpace rest <;> rfl

end Reader.Maps

end

/-! ## Objects -/

/-- Reads all members of an object, in the order of the text. -/
def readWritten (depth : Nat) : Reader Members :=
  .byBracket (.notArray .map) (members (appendMember (value depth)) []) (.notScalar .map)

theorem maps_readWritten (depth : Nat) : (readWritten depth).Maps merged (readObject depth) :=
  .byBracket (.fail _ _)
    (.members (fun ws name => .map (.refl _) fun v => (merged_concat ws (name, v)).symm) [])
    (.notScalar _ _)

end Json

open Json

/-! ## The wrapper -/

/-- The wrapper with entries that are read by `entries`. -/
def wrapperOf {σ : Type} (entries : Reader σ) : Json.Record (Option σ) :=
  { name := wrapper.name
    fields := [.of "auths" false id (fun _ ms => some ms) entries]
    blank := none }

section

variable {σ τ : Type} {φ : σ → τ} {entries : Reader σ} {entries' : Reader τ}

theorem maps_member_wrapperOf (h : entries.Maps φ entries') (taken : Option σ) (name : String) :
    ((wrapperOf entries).member taken name).Maps (Option.map φ)
      ((wrapperOf entries').member (taken.map φ) name) := by
  by_cases hn : "auths" = name
  · simp only [Record.member, wrapperOf, Json.Field.of, List.find?_singleton, hn, decide_true,
      if_true, id_eq, Option.isSome_map]
    split
    · exact .fail _ _
    · exact .afterColon (.map h fun _ => rfl)
  · simp only [Record.member, wrapperOf, Json.Field.of, List.find?_singleton, hn, decide_false]
    exact .afterColon (.map (.refl _) fun _ => rfl)

theorem maps_arrayReader_wrapperOf (h : entries.Maps φ entries') :
    (wrapperOf entries).arrayReader.Maps (Option.map φ) (wrapperOf entries').arrayReader := by
  have hfield : (entries.map some).Maps (Option.map φ) (entries'.map some) :=
    .map h fun _ => rfl
  intro s
  show (wrapperOf entries').fieldsFrom none 0 (wrapperOf entries').fields s =
    ((wrapperOf entries).fieldsFrom none 0 (wrapperOf entries).fields s).map _
  simp only [wrapperOf, Record.fieldsFrom]
  cases itemTurn (decide True) s with
  | error e => rfl
  | ok turn =>
    cases turn with
    | done rest => rfl
    | more start =>
      show ((entries'.map some) start >>= _) = ((entries.map some) start >>= _).map _
      rw [hfield start]
      cases (entries.map some) start with
      | error e => rfl
      | ok found =>
        show (Record.closeArray found.2 >>= _) = (Record.closeArray found.2 >>= _).map _
        cases Record.closeArray found.2 <;> rfl

theorem maps_reader_wrapperOf (h : entries.Maps φ entries') :
    (wrapperOf entries).reader.Maps (Option.map φ) (wrapperOf entries').reader :=
  .byBracket (maps_arrayReader_wrapperOf h)
    (.check (.members (maps_member_wrapperOf h) none) fun _ => rfl) (.notScalar _ _)

end

/-! ## Documents -/

/-- The entries of a document as JSON members, in the order of the text. -/
def DocumentFormat.written : DocumentFormat → Bytes → Except Json.Error Members
  | .dockercfg, s => (readWritten (depthLimit - 1)).whole s
  | .dockerconfigjson, s => ((wrapperOf (readWritten (depthLimit - 2))).decode s).map (·.getD [])

theorem decode_eq_map_written (format : DocumentFormat) (s : Bytes) :
    format.decode s = (format.written s).map merged := by
  cases format with
  | dockercfg => exact (maps_readWritten (depthLimit - 1)).whole s
  | dockerconfigjson =>
    have h := (maps_reader_wrapperOf (maps_readWritten (depthLimit - 2))).whole s
    show ((wrapperOf (readObject (depthLimit - 2))).reader.whole s).map _ =
      (((wrapperOf (readWritten (depthLimit - 2))).reader.whole s).map _).map _
    rw [h]
    rcases (wrapperOf (readWritten (depthLimit - 2))).reader.whole s with e | (_ | ws) <;> rfl

/-- The members that are read are those that are written, the last one of each key. -/
theorem exists_written_of_decode {format : DocumentFormat} {s : Bytes} {ms : Members}
    (h : format.decode s = .ok ms) : ∃ ws, format.written s = .ok ws ∧ merged ws = ms := by
  rw [decode_eq_map_written] at h
  exact map_eq_ok.1 h

end RegistryAuth
