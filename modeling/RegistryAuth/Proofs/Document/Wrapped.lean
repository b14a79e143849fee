import RegistryAuth.Proofs.Document.Shapes
import RegistryAuth.Proofs.Json.Local

/-!
# Wrapped documents and bare ones

`IsSpelled` gives the members of the object that a text holds, each with the text of its value. A
text that decodes as an object is spelled in one way (`exists_spelled`, `IsSpelled.unique`), and the
text of a value alone decodes to it. What stands around the `auths` of a wrapped document is passed
over. Main statement: the document gives what the text of its `auths` gives as a bare one, and
without `auths` it gives no entries (`parse_eq_of_spelled`).
-/

namespace RegistryAuth

open Json

/-! ## The texts of members -/

namespace Json

/-- The members of an object from a turn on, each with the text of its value but for blanks, and
what follows the object. -/
inductive Spells : Bool → Bytes → List (String × Bytes) → Bytes → Prop where
  | done {first : Bool} {s rest : Bytes} (turn : nameTurn first s = .ok (.done rest)) :
      Spells first s [] rest
  | more {first : Bool} {s start afterName begin text after rest : Bytes} {name : String}
      {ws : List (String × Bytes)} (turn : nameTurn first s = .ok (.more start))
      (key : literal start = .ok (name, afterName)) (colon : colon afterName = .ok begin)
      (value : skim begin = .ok ((), after)) (cut : skipSpace begin = text ++ after)
      (others : Spells false after ws rest) : Spells first s ((name, text) :: ws) rest

/-- Whether a text is that of an object with the given members, their values as texts. -/
def IsSpelled (s : Bytes) (ws : List (String × Bytes)) : Prop :=
  ∃ tail rest, skipSpace s = '\x7b'.toUInt8 :: tail ∧ Spells true tail ws rest ∧ skipSpace rest = []

theorem Spells.unique {first : Bool} {s rest rest' : Bytes} {ws ws' : List (String × Bytes)}
    (h : Spells first s ws rest) (h' : Spells first s ws' rest') : ws = ws' ∧ rest = rest' := by
  induction h generalizing ws' with
  | done turn =>
    cases h' with
    | done turn' =>
      cases turn.symm.trans turn'
      exact ⟨rfl, rfl⟩
    | more turn' => cases turn.symm.trans turn'
  | more turn key colon value cut others ih =>
    cases h' with
    | done turn' => cases turn.symm.trans turn'
    | more turn' key' colon' value' cut' others' =>
      cases turn.symm.trans turn'
      cases key.symm.trans key'
      cases colon.symm.trans colon'
      cases value.symm.trans value'
      obtain rfl := List.append_cancel_right (cut.symm.trans cut')
      obtain ⟨rfl, rfl⟩ := ih others'
      exact ⟨rfl, rfl⟩

theorem IsSpelled.unique {s : Bytes} {ws ws' : List (String × Bytes)} (h : IsSpelled s ws)
    (h' : IsSpelled s ws') : ws = ws' := by
  obtain ⟨tail, rest, hs, hws, -⟩ := h
  obtain ⟨tail', rest', hs', hws', -⟩ := h'
  obtain rfl : tail = tail' := (List.cons.inj (hs.symm.trans hs')).2
  exact (hws.unique hws').1

/-- The text of each member stands in the text of the object. -/
theorem Spells.isInfix {first : Bool} {s rest : Bytes} {ws : List (String × Bytes)}
    (h : Spells first s ws rest) : ∀ w ∈ ws, w.2 <:+: s := by
  induction h with
  | done => exact List.forall_mem_nil _
  | @more first s start afterName begin text after rest name ws turn key colon value cut others ih =>
    have hname := (local_literal.suffix key).trans (suffix_of_nameTurn turn)
    have hbegin := (skipSpace_suffix begin).trans ((passesLocally_colon.suffix colon).trans hname)
    rw [cut] at hbegin
    refine List.forall_mem_cons.2 ⟨?_, fun w hw => ?_⟩
    · exact (List.prefix_append text after).isInfix.trans hbegin.isInfix
    · exact (ih w hw).trans ((List.suffix_append text after).trans hbegin).isInfix

theorem IsSpelled.isInfix {s : Bytes} {ws : List (String × Bytes)} (h : IsSpelled s ws) :
    ∀ w ∈ ws, w.2 <:+: s := by
  obtain ⟨tail, rest, hs, hws, -⟩ := h
  exact fun w hw => (hws.isInfix w hw).trans (suffix_of_skipSpace hs).isInfix

/-- Whether a member spelled and a member read are the same. -/
def Same (w : String × Bytes) (v : String × Value) : Prop := w.1 = v.1 ∧ decode w.2 = .ok v.2

theorem names_eq_of_same {ws : List (String × Bytes)} {vs : Members}
    (h : List.Forall₂ Same ws vs) : vs.names = ws.map (·.1) := by
  induction h with
  | nil => rfl
  | cons hw _ ih => exact congrArg₂ List.cons hw.1.symm ih

theorem exists_spells {first : Bool} {before vs : Members} {s rest : Bytes}
    (h : membersFrom (appendMember (value (depthLimit - 1))) first before s = .ok (vs, rest)) :
    ∃ ws more, Spells first s ws rest ∧ vs = before ++ more ∧ List.Forall₂ Same ws more := by
  fun_induction membersFrom (appendMember (value (depthLimit - 1))) first before s
    generalizing vs rest with
  | case1 => simp at h
  | case2 first before s _ ht =>
    cases h
    exact ⟨[], [], .done ht, (List.append_nil _).symm, .nil⟩
  | case3 => simp at h
  | case4 => simp at h
  | case5 first before s start ht name afterName hn state after hm lt ih =>
    obtain ⟨v, hv, rfl⟩ := Reader.map_read_eq_ok.1 hm
    obtain ⟨begin, hc, hv⟩ := bind_eq_ok.1 hv
    obtain ⟨text, hcut, htext⟩ := exists_text_of_value hv
    obtain ⟨ws, more, hws, rfl, hsame⟩ := ih h
    refine ⟨(name, text) :: ws, (name, v) :: more, ?_, by simp, .cons ⟨rfl, htext⟩ hsame⟩
    exact .more ht hn hc (skim_of_value hv) hcut hws

theorem exists_spelled {s : Bytes} {vs : Members} (h : written s = .ok vs) :
    ∃ ws, IsSpelled s ws ∧ List.Forall₂ Same ws vs := by
  obtain ⟨rest, hr, he⟩ := whole_eq_ok_iff.1 h
  obtain ⟨tail, hs, hr⟩ := byBracket_object_eq_ok_iff.1 hr
  obtain ⟨ws, more, hws, rfl, hsame⟩ := exists_spells hr
  exact ⟨ws, ⟨tail, rest, hs, hws, he⟩, hsame⟩

end Json

/-! ## The wrapper -/

theorem value_of_readObject {depth : Nat} {s rest : Bytes} {ms : Members}
    (h : readObject depth s = .ok (ms, rest)) : value (depth + 1) s = .ok (.object ms, rest) := by
  obtain ⟨tail, hs, h⟩ := byBracket_object_eq_ok_iff.1 h
  rw [value, byBracket_of_object hs]
  exact map_eq_ok.2 ⟨_, h, rfl⟩

theorem wrapper_member_of_skim {s begin after : Bytes} {name : String} (hname : name ≠ "auths")
    (hcolon : colon s = .ok begin) (hskim : skim begin = .ok ((), after))
    (taken : Option Members) : wrapper.member taken name s = .ok (taken, after) := by
  rw [wrapper_member, if_neg hname]
  exact bind_eq_ok.2 ⟨begin, hcolon, map_eq_ok.2 ⟨_, hskim, rfl⟩⟩

/-- Members by other names leave what is taken as it is. -/
theorem membersFrom_wrapper_of_not_mem {first : Bool} {s rest : Bytes}
    {ws : List (String × Bytes)} (h : Spells first s ws rest) (hws : "auths" ∉ ws.map (·.1))
    (taken : Option Members) :
    membersFrom wrapper.member first taken s = .ok (taken, rest) := by
  induction h with
  | done turn => exact membersFrom_of_done turn taken
  | more turn key colon value cut others ih =>
    rw [List.map_cons, List.mem_cons, not_or] at hws
    rw [membersFrom_of_key turn key, wrapper_member_of_skim (Ne.symm hws.1) colon value]
    exact ih hws.2

/-- Where a member `auths` can be read, its text decodes to what is taken. -/
theorem decode_of_wrapper_member {s begin after next text : Bytes} {taken : Option Members}
    (hcolon : colon s = .ok begin) (hskim : skim begin = .ok ((), after))
    (hcut : skipSpace begin = text ++ after)
    (h : wrapper.member none "auths" s = .ok (taken, next)) :
    ∃ ms, taken = some ms ∧ next = after ∧ Json.decode text = .ok (.object ms) := by
  have hread : authsField.reader none begin = .ok (taken, next) := by
    rw [wrapper_member, if_pos rfl] at h
    obtain ⟨begin', hcolon', h⟩ := bind_eq_ok.1 h
    cases hcolon.symm.trans hcolon'
    exact h
  obtain ⟨ms, hms, rfl⟩ := Reader.map_read_eq_ok.1 hread
  have hvalue := value_of_readObject hms
  cases hskim.symm.trans (skim_of_value hvalue)
  obtain ⟨text', hcut', htext⟩ := exists_text_of_value hvalue
  obtain rfl := List.append_cancel_right (hcut.symm.trans hcut')
  exact ⟨ms, rfl, rfl, htext⟩

/-- Where the members of a wrapped document can be read, its entries are what the text of its one
`auths` decodes to. -/
theorem decode_of_membersFrom_wrapper {first : Bool} {s rest rest' text : Bytes}
    {before after : List (String × Bytes)} {taken : Option Members}
    (h : Spells first s (before ++ ("auths", text) :: after) rest)
    (hbefore : "auths" ∉ before.map (·.1)) (hafter : "auths" ∉ after.map (·.1))
    (hread : membersFrom wrapper.member first none s = .ok (taken, rest')) :
    ∃ ms, taken = some ms ∧ Json.decode text = .ok (.object ms) := by
  induction before generalizing first s with
  | nil =>
    cases h with
    | more turn key colon value cut others =>
      rw [membersFrom_of_key turn key] at hread
      obtain ⟨⟨taken', next⟩, hmember, hread⟩ := bind_eq_ok.1 hread
      obtain ⟨ms, rfl, rfl, htext⟩ := decode_of_wrapper_member colon value cut hmember
      rw [membersFrom_wrapper_of_not_mem others hafter] at hread
      cases hread
      exact ⟨ms, rfl, htext⟩
  | cons w before ih =>
    rw [List.map_cons, List.mem_cons, not_or] at hbefore
    cases h with
    | more turn key colon value cut others =>
      rw [membersFrom_of_key turn key, wrapper_member_of_skim (Ne.symm hbefore.1) colon value]
        at hread
      exact ih others hbefore.2 hread

section

variable {s : Bytes} {ws : List (String × Bytes)} (h : IsSpelled s ws)
include h

theorem wrapper_decode_of_not_mem (hws : "auths" ∉ ws.map (·.1)) :
    wrapper.decode s = .ok none := by
  obtain ⟨tail, rest, hs, hspells, he⟩ := h
  refine whole_eq_ok_iff.2 ⟨rest, ?_, he⟩
  rw [Record.reader, byBracket_of_object hs]
  refine bind_eq_ok.2 ⟨_, membersFrom_wrapper_of_not_mem hspells hws none, ?_⟩
  rfl

theorem decode_of_wrapper_decode {before after : List (String × Bytes)} {text : Bytes}
    (hws : ws = before ++ ("auths", text) :: after) (hbefore : "auths" ∉ before.map (·.1))
    (hafter : "auths" ∉ after.map (·.1)) {taken : Option Members}
    (hread : wrapper.decode s = .ok taken) :
    ∃ ms, taken = some ms ∧ Json.decode text = .ok (.object ms) := by
  obtain ⟨tail, rest, hs, hspells, -⟩ := h
  obtain ⟨rest', hr, -⟩ := whole_eq_ok_iff.1 hread
  rw [Record.reader, byBracket_of_object hs] at hr
  obtain ⟨⟨taken', next⟩, hr, hcomplete⟩ := bind_eq_ok.1 hr
  simp only [wrapper_complete] at hcomplete
  cases hcomplete
  rw [hws] at hspells
  exact decode_of_membersFrom_wrapper hspells hbefore hafter hr

theorem not_repeats_of_spelled {before after : List (String × Bytes)} {text : Bytes}
    (hws : ws = before ++ ("auths", text) :: after) (hbefore : "auths" ∉ before.map (·.1))
    (hafter : "auths" ∉ after.map (·.1)) : ¬ Repeats "auths" s := by
  rintro ⟨vs, hw, hcount⟩
  obtain ⟨ws', hws', hsame⟩ := exists_spelled hw
  rw [names_eq_of_same hsame, hws'.unique h, hws, List.map_append, List.map_cons,
    List.count_append, List.count_cons_self, List.count_eq_zero.2 hbefore,
    List.count_eq_zero.2 hafter] at hcount
  exact absurd hcount (by decide)

end

/-! ## Documents -/

/-- A text that decodes as an object has its members spelled in one way, each as the text of its
value. If one of them is `auths`, and an object, the text of which stands there gives as a bare
document the very entries, events and errors that the whole gives as a wrapped one; the other
members need only be such that the whole decodes as a wrapped document. If none is, the whole gives
no entries and tells of nothing. -/
theorem parse_eq_of_spelled (s : Bytes) :
    (∀ top : Members, Json.decode s = .ok (.object top) →
      ∃ ws vs, IsSpelled s ws ∧ merged vs = top ∧ List.Forall₂ Same ws vs) ∧
    ∀ ws, IsSpelled s ws → (∀ ws', IsSpelled s ws' → ws' = ws) ∧
      (∀ before text after, ws = before ++ ("auths", text) :: after →
        "auths" ∉ before.map (·.1) → "auths" ∉ after.map (·.1) →
        ∀ ms : Members,
          (∃ top : Members, Json.decode s = .ok (.object top) ∧
            top.get? "auths" = some (.object ms)) ∨
            DocumentFormat.dockerconfigjson.decode s = .ok ms →
          text <:+: s ∧ Json.decode text = .ok (.object ms) ∧
            (Source.parse .dockerconfigjson s).run = (Source.parse .dockercfg text).run) ∧
      ("auths" ∉ ws.map (·.1) → (Source.parse .dockerconfigjson s).run = ⟨.ok ⟨[]⟩, []⟩) := by
  refine ⟨fun top h => ?_, fun ws h => ⟨fun ws' h' => h'.unique h, ?_, fun hws => ?_⟩⟩
  · obtain ⟨vs, hw, hvs⟩ := exists_written h
    obtain ⟨ws, hws, hsame⟩ := exists_spelled hw
    exact ⟨ws, vs, hws, hvs, hsame⟩
  · intro before text after hws hbefore hafter ms hms
    have hdecode : DocumentFormat.dockerconfigjson.decode s = .ok ms := by
      rcases hms with ⟨top, htop, hget⟩ | hms
      · rcases decode_of_auths htop hget with ⟨hrep, -⟩ | ⟨-, hd⟩
        · exact absurd hrep (not_repeats_of_spelled h hws hbefore hafter)
        · exact hd
      · exact hms
    obtain ⟨taken, hread, htaken⟩ := map_eq_ok.1 hdecode
    obtain ⟨ms', rfl, htext⟩ := decode_of_wrapper_decode h hws hbefore hafter hread
    obtain rfl : ms' = ms := htaken
    have hmem : ("auths", text) ∈ ws := by simp [hws]
    refine ⟨h.isInfix _ hmem, htext, ?_⟩
    rw [run_parse_of_decode hdecode, run_parse_of_decode (decode_dockercfg_eq_ok_iff.2 htext)]
  · have hdecode : DocumentFormat.dockerconfigjson.decode s = .ok [] :=
      map_eq_ok.2 ⟨none, wrapper_decode_of_not_mem h hws, rfl⟩
    rw [run_parse_of_decode hdecode]
    rfl

/-- The entries of a document, of which one is written twice. -/
def repeatedEntry : Bytes :=
  Text.utf8 "\x7b\"r.io\":\x7b\x7d,\"r.io\":\x7b\"registrytoken\":\"t\"\x7d\x7d"

/-- The same behind a member that is passed over. -/
def wrappedRepeatedEntry : Bytes :=
  Text.utf8 "\x7b\"a\":[1],\"auths\": " ++ repeatedEntry ++ Text.utf8 " \x7d"

theorem isSpelled_wrappedRepeatedEntry :
    IsSpelled wrappedRepeatedEntry [("a", Text.utf8 "[1]"), ("auths", repeatedEntry)] := by
  let rest := repeatedEntry ++ Text.utf8 " \x7d"
  have hauths : Spells false (Text.utf8 ",\"auths\": " ++ rest) [("auths", repeatedEntry)] [] :=
    @Spells.more false _ (Text.utf8 "auths\": " ++ rest) (Text.utf8 ": " ++ rest)
      (Text.utf8 " " ++ rest) repeatedEntry (Text.utf8 " \x7d") [] "auths" []
      (by with_unfolding_all rfl) (by with_unfolding_all rfl) (by with_unfolding_all rfl)
      (by with_unfolding_all rfl) (by with_unfolding_all rfl) (.done (by with_unfolding_all rfl))
  have hboth : Spells true (Text.utf8 "\"a\":[1],\"auths\": " ++ rest)
      [("a", Text.utf8 "[1]"), ("auths", repeatedEntry)] [] :=
    @Spells.more true _ (Text.utf8 "a\":[1],\"auths\": " ++ rest)
      (Text.utf8 ":[1],\"auths\": " ++ rest) (Text.utf8 "[1],\"auths\": " ++ rest)
      (Text.utf8 "[1]") (Text.utf8 ",\"auths\": " ++ rest) [] "a" [("auths", repeatedEntry)]
      (by with_unfolding_all rfl) (by with_unfolding_all rfl) (by with_unfolding_all rfl)
      (by with_unfolding_all rfl) (by with_unfolding_all rfl) hauths
  exact ⟨_, [], by with_unfolding_all rfl, hboth, rfl⟩

theorem parse_wrappedRepeatedEntry :
    Json.decode repeatedEntry =
      .ok (.object [("r.io", .object [("registrytoken", .string "t")])]) ∧
    (Source.parse .dockerconfigjson wrappedRepeatedEntry).run =
      (Source.parse .dockercfg repeatedEntry).run ∧
    (Source.parse .dockerconfigjson wrappedRepeatedEntry).run.value =
      .ok ⟨[⟨⟨"r.io", ""⟩, .bearer "t"⟩]⟩ ∧
    (Source.parse .dockerconfigjson (Text.utf8 "\x7b\x7d")).run = ⟨.ok ⟨[]⟩, []⟩ := by
  have hdecode : Json.decode wrappedRepeatedEntry = .ok (.object
      [("a", .array [.number (.natural 1)]),
        ("auths", .object [("r.io", .object [("registrytoken", .string "t")])])]) := by
    with_unfolding_all rfl
  have hempty : IsSpelled (Text.utf8 "\x7b\x7d") [] :=
    ⟨_, [], by with_unfolding_all rfl, .done (by with_unfolding_all rfl), rfl⟩
  obtain ⟨-, hauths, -⟩ := (parse_eq_of_spelled _).2 _ isSpelled_wrappedRepeatedEntry
  obtain ⟨-, htext, hrun⟩ := hauths [("a", _)] _ [] rfl (by decide) (by decide)
    [("r.io", .object [("registrytoken", .string "t")])] (.inl ⟨_, hdecode, rfl⟩)
  obtain ⟨-, -, hnone⟩ := (parse_eq_of_spelled _).2 _ hempty
  refine ⟨htext, hrun, ?_, hnone (by decide)⟩
  rw [hrun, run_parse_of_decode (decode_dockercfg_eq_ok_iff.2 htext)]
  rfl

end RegistryAuth
