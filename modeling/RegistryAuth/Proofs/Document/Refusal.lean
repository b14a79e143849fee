import RegistryAuth.Proofs.Document.Secrecy
import RegistryAuth.Proofs.Json.Local

/-!
# Where a document is refused

A document whose entries are followed by another `auths`, or by another item, is refused behind the
entries. What is left there has been passed to by reading (`Frame.Passed`), and the fault goes by
that alone (`Frame.Passed.exists_fault`). Main statement: of what stands in front, its place tells
how many lines there are and how long the last one is (`exists_displaced_iff`), so in a text of one
line it tells how long a password is (`displaced_iff_length_ne`).
-/

namespace RegistryAuth

open Json

/-! ## Faults -/

namespace Json

theorem Traces.suffix {depth : Nat} {first last : Bool} {s rest : Bytes} {ws : Members}
    (h : Traces (value depth) first s ws last rest) : rest <:+ s := by
  induction h with
  | nil first s => exact List.suffix_refl s
  | cons turn key inner others ih =>
    have hinner := (local_afterColon (local_value depth)).suffix inner
    exact ih.trans (hinner.trans ((local_literal.suffix key).trans (suffix_of_nameTurn turn)))

theorem Record.length_givenUp_le (s : Bytes) : (Record.givenUp s).length ≤ s.length := by
  have hs := length_skipSpace_le s
  rw [Record.givenUp]
  split
  · simp
  · next b rest h =>
    rw [h, List.length_cons] at hs
    split
    · omega
    · rwa [List.length_cons]

/-- A fault behind `front` has its place behind what of the rest is in front of the fault. -/
theorem inText_append (front : Bytes) {rest : Bytes} {fault : Fault}
    (h : fault.left ≤ rest.length) : fault.inText (front ++ rest) =
      ⟨fault.cause, some (.behind (front ++ rest.take (rest.length - fault.left)))⟩ := by
  have hlength : (front ++ rest).length - fault.left =
      front.length + (rest.length - fault.left) := by
    rw [List.length_append]
    omega
  rw [Fault.inText, hlength, List.take_length_add_append]

end Json

/-- Another `auths` behind the entries is a fault, whichever the entries are. -/
theorem exists_fault_of_repeated {first last : Bool} {s rest : Bytes} {ws : Members}
    (h : Traces (value (depthLimit - 1)) first s ws last rest) (hws : "auths" ∈ ws.names) :
    ∃ fault : Fault, fault.left ≤ s.length ∧
      ∀ ms, membersFrom wrapper.member first (some ms) s = .error fault := by
  obtain ⟨before, v, after, rfl, hb⟩ := exists_first hws
  obtain ⟨middle, next, hbefore, hauths⟩ := h.split
  cases hauths with
  | @cons _ _ _ start afterName _ _ _ _ _ turn key =>
    refine ⟨.before (.duplicateField "auths") (Record.givenUp afterName), ?_, fun ms => ?_⟩
    · have hgiven := Record.length_givenUp_le afterName
      have hname := literal.shorter key
      have hstart := length_lt_of_nameTurn_more turn
      have hnext := hbefore.suffix.length_le
      show (Record.givenUp afterName).length ≤ s.length
      omega
    · have hskipped : before.foldlM takeAuths (some ms) = .ok (some ms) :=
        (foldlM_takeAuths_some ms before).trans (if_neg hb)
      rw [hbefore.membersFrom_eq stepsBy_wrapper_member hskipped, membersFrom_of_key turn key,
        wrapper_member, if_pos rfl]
      rfl

/-- So is another item behind them, in a document that is an array. -/
theorem exists_fault_of_more {s rest : Bytes} {us : List Value}
    (h : itemsFrom (value (depthLimit - 1)) false s = .ok (us, rest)) (hus : us ≠ []) :
    ∃ fault : Fault, fault.left ≤ s.length ∧ Record.closeArray s = .error fault := by
  rcases closeArray_of_itemsFrom h with ⟨hnone, -⟩ | ⟨-, start, ht, hclose⟩
  · exact absurd hnone hus
  · refine ⟨.before .trailingCharacters start.tail, ?_, hclose⟩
    exact (List.tail_suffix start).length_le.trans (suffix_of_itemTurn ht).length_le

/-! ## Behind the entries -/

/-- Whether reading a document comes behind its entries with `rest` left: nothing in front of them
is taken for the entries, and what follows them is JSON. -/
inductive Frame.Passed : Frame → Bytes → Bytes → Prop where
  | wrapped {before after ms : Members} {s tail next start afterName rest close : Bytes}
      {middle last : Bool} (brace : skipSpace s = '\x7b'.toUInt8 :: tail)
      (front : Traces (value (depthLimit - 1)) true tail before middle next)
      (notTaken : "auths" ∉ before.names) (turn : nameTurn middle next = .ok (.more start))
      (key : literal start = .ok ("auths", afterName))
      (entries : (value (depthLimit - 1)).afterColon afterName = .ok (.object ms, rest))
      (others : Traces (value (depthLimit - 1)) false rest after last close) :
      Passed (.wrapped before after) s rest
  | listed {after : List Value} {ms : Members} {s tail start rest close : Bytes}
      (bracket : skipSpace s = '['.toUInt8 :: tail) (turn : itemTurn true tail = .ok (.more start))
      (entries : value (depthLimit - 1) start = .ok (.object ms, rest))
      (others : itemsFrom (value (depthLimit - 1)) false rest = .ok (after, close)) :
      Passed (.listed [] after) s rest

namespace Frame

theorem Passed.suffix {x : Frame} {s rest : Bytes} (h : x.Passed s rest) : rest <:+ s := by
  cases h with
  | wrapped brace front notTaken turn key entries others =>
    have hentries := (local_afterColon (local_value _)).suffix entries
    have hnext := hentries.trans ((local_literal.suffix key).trans (suffix_of_nameTurn turn))
    exact hnext.trans (front.suffix.trans (suffix_of_skipSpace brace))
  | listed bracket turn entries others =>
    have hentries := (local_value _).suffix entries
    exact hentries.trans ((suffix_of_itemTurn turn).trans (suffix_of_skipSpace bracket))

theorem decode_of_fault {s : Bytes} {fault : Fault} (h : wrapper.reader s = .error fault) :
    DocumentFormat.dockerconfigjson.decode s = .error (fault.inText s) := by
  show ((wrapper.reader s >>= Reader.last).mapError _).map _ = _
  rw [h]
  rfl

/-- The fault of a document that is refused behind its entries goes by what is left there. -/
theorem Passed.exists_fault {x : Frame} (hx : ¬ x.Opens) {s rest : Bytes} (h : x.Passed s rest) :
    ∃ fault : Fault, fault.left ≤ rest.length ∧
      ∀ s', x.Passed s' rest → x.format.decode s' = .error (fault.inText s') := by
  cases h with
  | wrapped brace front notTaken turn key entries others =>
    have hafter := Classical.byContradiction fun ha => hx ⟨notTaken, ha⟩
    obtain ⟨fault, hleft, hfault⟩ := exists_fault_of_repeated others hafter
    refine ⟨fault, hleft, fun s' h' => decode_of_fault ?_⟩
    cases h' with
    | @wrapped _ _ ms _ tail _ _ afterName _ _ _ _ brace front notTaken turn key entries others =>
      have htaken : wrapper.member none "auths" afterName = .ok (some ms, rest) :=
        causes_eq_ok.1 (stepsBy_wrapper_member entries)
      rw [Record.reader, byBracket_of_object brace]
      show (membersFrom wrapper.member true none tail >>= _) = _
      rw [front.membersFrom_eq stepsBy_wrapper_member (foldlM_takeAuths_of_not_mem notTaken),
        membersFrom_of_key turn key, htaken]
      show (membersFrom wrapper.member false (some ms) rest >>= _) = _
      rw [hfault]
      rfl
  | listed bracket turn entries others =>
    obtain ⟨fault, hleft, hfault⟩ := exists_fault_of_more others fun ha => hx ⟨rfl, ha⟩
    refine ⟨fault, hleft, fun s' h' => decode_of_fault ?_⟩
    cases h' with
    | @listed _ ms _ tail start _ _ bracket turn entries others =>
      have htaken : authsField.reader none start = .ok (some ms, rest) :=
        causes_eq_ok.1 (causes_authsField_reader_of_value entries none)
      rw [Record.reader, byBracket_of_array bracket]
      show wrapper.fieldsFrom none 0 [authsField] tail = _
      rw [Record.fieldsFrom]
      simp only [decide_true, turn]
      show (authsField.reader none start >>= _) = _
      rw [htaken]
      show (Record.closeArray rest >>= _) = _
      rw [hfault]
      rfl

end Frame

/-- Of what stands in front of the place in which documents are refused behind their entries, the
place tells the number of lines, and how long the last one is unless another line ends before. -/
theorem exists_displaced_iff {x : Frame} (hx : ¬ x.Opens) {s rest : Bytes} (h : x.Passed s rest) :
    ∃ middle, middle <+: rest ∧ ∀ front₁ front₂, x.Passed (front₁ ++ rest) rest →
      x.Passed (front₂ ++ rest) rest →
      (Displaced x.format (front₁ ++ rest) (front₂ ++ rest) ↔
        (Place.behind front₁).line ≠ (Place.behind front₂).line ∨
          newline ∉ middle ∧ (Place.behind front₁).column ≠ (Place.behind front₂).column) := by
  obtain ⟨fault, hleft, hfault⟩ := h.exists_fault hx
  refine ⟨rest.take (rest.length - fault.left), List.take_prefix _ _, fun front₁ front₂ h₁ h₂ => ?_⟩
  rw [displaced_iff_of_error (hfault _ h₁) (hfault _ h₂), inText_append front₁ hleft,
    inText_append front₂ hleft, ne_eq, Option.some.injEq, behind_append_eq_iff]
  tauto

theorem behind_of_not_mem {s : Bytes} (h : newline ∉ s) : Place.behind s = ⟨1, s.length⟩ := by
  rw [← List.nil_append s, behind_append_of_not_mem h]
  simp [Place.behind]

/-- Documents of one line that go on alike behind the entries, and are refused there, are displaced
exactly if they differ in length, as they do with passwords of different length. -/
theorem displaced_iff_length_ne {x : Frame} (hx : ¬ x.Opens) {s₁ s₂ rest : Bytes}
    (h₁ : x.Passed s₁ rest) (h₂ : x.Passed s₂ rest) (hn₁ : newline ∉ s₁) (hn₂ : newline ∉ s₂) :
    Displaced x.format s₁ s₂ ↔ s₁.length ≠ s₂.length := by
  obtain ⟨middle, hm, hiff⟩ := exists_displaced_iff hx h₁
  obtain ⟨front₁, rfl⟩ := h₁.suffix
  obtain ⟨front₂, rfl⟩ := h₂.suffix
  rw [List.mem_append, not_or] at hn₁ hn₂
  have hmiddle : newline ∉ middle := fun hmem => hn₁.2 (hm.subset hmem)
  rw [hiff _ _ h₁ h₂, behind_of_not_mem hn₁.1, behind_of_not_mem hn₂.1]
  simp [hmiddle]

/-- What follows the entries of a wrapped document in which `auths` is written again. -/
def repetition : Bytes := Text.utf8 ",\"auths\":\x7b\x7d\x7d"

/-- The text of a wrapped document with a password, in which `auths` is written again behind it. -/
def repeatedDocument (password : String) : Bytes :=
  Text.utf8 ("\x7b\"auths\":\x7b\"r.io\":\x7b\"password\":\"" ++ password ++ "\"\x7d\x7d") ++
    repetition

/-- The place of its entries. -/
def repeatedFrame : Frame := .wrapped [] [("auths", .object [])]

theorem passed_repeatedDocument : ∀ password ∈ ["a", "aaaaaaaaaa"],
    repeatedFrame.Passed (repeatedDocument password) repetition := by
  let afterName (password : String) : Bytes :=
    Text.utf8 (":\x7b\"r.io\":\x7b\"password\":\"" ++ password ++ "\"\x7d\x7d") ++ repetition
  let start (password : String) : Bytes := Text.utf8 "auths\"" ++ afterName password
  have hothers : Traces (value (depthLimit - 1)) false repetition [("auths", .object [])] false
      (Text.utf8 "\x7d") :=
    @Traces.cons _ false false _ (Text.utf8 "auths\":\x7b\x7d\x7d") (Text.utf8 ":\x7b\x7d\x7d")
      (Text.utf8 "\x7d") _ _ _ _ (by with_unfolding_all rfl) (by with_unfolding_all rfl)
      (by with_unfolding_all rfl) (.nil _ _)
  have hpassed (password : String) (ms : Members)
      (hbrace : skipSpace (repeatedDocument password) = '\x7b'.toUInt8 :: quote :: start password)
      (hkey : literal (start password) = .ok ("auths", afterName password))
      (hentries : (value (depthLimit - 1)).afterColon (afterName password) =
        .ok (.object ms, repetition)) :
      repeatedFrame.Passed (repeatedDocument password) repetition :=
    .wrapped hbrace (.nil _ _) List.not_mem_nil rfl hkey hentries hothers
  intro password hmem
  simp only [List.mem_cons, List.not_mem_nil, or_false] at hmem
  rcases hmem with rfl | rfl
  · exact hpassed "a" [("r.io", .object [("password", .string "a")])] (by with_unfolding_all rfl)
      (by with_unfolding_all rfl) (by with_unfolding_all rfl)
  · exact hpassed "aaaaaaaaaa" [("r.io", .object [("password", .string "aaaaaaaaaa")])]
      (by with_unfolding_all rfl) (by with_unfolding_all rfl) (by with_unfolding_all rfl)

example : DocumentFormat.dockerconfigjson.decode (repeatedDocument "a") =
    .error ⟨.duplicateField "auths", some ⟨1, 42⟩⟩ := by
  with_unfolding_all rfl

example : DocumentFormat.dockerconfigjson.decode
    (Text.utf8 "[\x7b\"r.io\":\x7b\"password\":\"a\"\x7d\x7d,1]") =
      .error ⟨.trailingCharacters, some ⟨1, 28⟩⟩ := by
  with_unfolding_all rfl

end RegistryAuth
