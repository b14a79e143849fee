import RegistryAuth.Proofs.Document.AuthField

/-!
# Equal credentials

Credentials are compared by their headers. The word in front of a header tells tokens from user
names (`authorization_basic_ne_bearer`), and base64 loses nothing, so equal headers mean that the
same was put into them (`authorization_inj_iff`). What is put in is user name and password with a
colon between them, and only where neither name holds a colon this tells one from the other
(`userAndPassword_inj_iff`). Main statement: when credentials, and when accesses are equal
(`beq_iff_sameContent`).
-/

namespace RegistryAuth

open Base64 (IsBase64 isBase64_encode decode_utf8_eq_ok_iff)

/-! ## Base64 -/

/-- A text is the base64 form of one list of bytes. -/
theorem Base64.IsBase64.bytes_unique {text : String} {bytes bytes' : Bytes}
    (h : IsBase64 text bytes) (h' : IsBase64 text bytes') : bytes = bytes' := by
  rw [← decode_utf8_eq_ok_iff] at h h'
  exact Except.ok.inj (h.symm.trans h')

namespace Credential

/-! ## User name and password -/

/-- The first colon stands behind the user name, if that has none. -/
theorem userAndPassword_cut {username : String} (h : ':' ∉ username.toList) (password : String) :
    Text.before ':' (userAndPassword username password) = username ∧
      Text.after ':' (userAndPassword username password) = password :=
  ⟨Text.before_eq (toList_userAndPassword username password) h,
    Text.after_eq (toList_userAndPassword username password) h⟩

theorem userAndPassword_inj_iff {username password username' password' : String}
    (h : ':' ∉ username.toList) (h' : ':' ∉ username'.toList) :
    userAndPassword username password = userAndPassword username' password' ↔
      username = username' ∧ password = password' := by
  refine ⟨fun heq => ?_, fun ⟨hu, hp⟩ => by rw [hu, hp]⟩
  obtain ⟨hbefore, hafter⟩ := userAndPassword_cut h password
  obtain ⟨hbefore', hafter'⟩ := userAndPassword_cut h' password'
  exact ⟨by rw [← hbefore, heq, hbefore'], by rw [← hafter, heq, hafter']⟩

/-- Cut at its first colon the text of a credential is still the same text. -/
theorem userAndPassword_before_after (username password : String) :
    userAndPassword (Text.before ':' (userAndPassword username password))
      (Text.after ':' (userAndPassword username password)) = userAndPassword username password := by
  have hcolon : ':' ∈ (userAndPassword username password).toList := by
    simp [toList_userAndPassword]
  apply String.toList_inj.mp
  rw [toList_userAndPassword, ← Text.toList_eq_of_mem hcolon]

/-! ## Headers -/

theorem authorization_basic_ne_bearer (username password token : String) :
    (basic username password).authorization ≠ (bearer token).authorization := by
  intro h
  have hlist := congrArg String.toList h
  simp [authorization] at hlist

/-- Whether two credentials hold the same: equal tokens, or the same text around a colon. -/
inductive SameContent : Credential → Credential → Prop where
  | bearer (token : String) : SameContent (.bearer token) (.bearer token)
  | basic {username password username' password' : String}
      (h : username ++ ":" ++ password = username' ++ ":" ++ password') :
      SameContent (.basic username password) (.basic username' password')

theorem authorization_basic_inj_iff {username password username' password' : String} :
    (basic username password).authorization = (basic username' password').authorization ↔
      userAndPassword username password = userAndPassword username' password' := by
  refine ⟨fun h => Text.utf8_inj ?_, fun h => by rw [authorization, authorization, h]⟩
  have h₁ := authorization_basic_eq_iff.1 (Eq.refl (basic username password).authorization)
  have h₂ := authorization_basic_eq_iff.1 h.symm
  exact h₁.bytes_unique h₂

theorem authorization_inj_iff {a b : Credential} :
    a.authorization = b.authorization ↔ SameContent a b := by
  refine ⟨fun h => ?_, fun h => ?_⟩
  · cases a with
    | basic username password =>
      cases b with
      | basic username' password' => exact .basic (authorization_basic_inj_iff.1 h)
      | bearer token => exact absurd h (authorization_basic_ne_bearer _ _ _)
    | bearer token =>
      cases b with
      | basic username password => exact absurd h.symm (authorization_basic_ne_bearer _ _ _)
      | bearer token' =>
        rw [authorization, authorization, String.append_right_inj] at h
        exact h ▸ .bearer token
  · cases h with
    | bearer => rfl
    | basic h => exact authorization_basic_inj_iff.2 h

end Credential

/-! ## Accesses -/

/-- Whether two accesses hold the same: nothing, or the same credential. -/
inductive Access.SameContent : Access → Access → Prop where
  | anonymous : SameContent .anonymous .anonymous
  | credential {a b : Credential} (h : (a == b) = true) :
      SameContent (.credential a) (.credential b)

theorem Access.beq_iff {x y : Access} : (x == y) = true ↔ SameContent x y := by
  show (x.credential? == y.credential?) = true ↔ _
  refine ⟨fun h => ?_, fun h => ?_⟩
  · cases x with
    | anonymous =>
      cases y with
      | anonymous => exact .anonymous
      | credential b => cases h
    | credential a =>
      cases y with
      | anonymous => cases h
      | credential b => exact .credential h
  · cases h with
    | anonymous => rfl
    | credential h => exact h

/-- Credentials are equal exactly if both are the same token, or both are user names and passwords
that make the same text around a colon; never is one the other. So user names without a colon are
told from their passwords, and every user name and password are equal to what their text is cut into
at its first colon. Accesses are equal exactly if both are anonymous or have equal credentials. -/
theorem beq_iff_sameContent :
    (∀ a b : Credential, (a == b) = true ↔ a.SameContent b) ∧
    (∀ username password token, (Credential.basic username password == .bearer token) = false ∧
      (Credential.bearer token == .basic username password) = false) ∧
    (∀ username password username' password', ':' ∉ username.toList → ':' ∉ username'.toList →
      ((Credential.basic username password == .basic username' password') = true ↔
        username = username' ∧ password = password')) ∧
    (∀ username password, (Credential.basic username password ==
      .basic (Text.before ':' (username ++ ":" ++ password))
        (Text.after ':' (username ++ ":" ++ password))) = true) ∧
    ∀ x y : Access, (x == y) = true ↔ x.SameContent y := by
  have hbeq (a b : Credential) : (a == b) = true ↔ a.SameContent b :=
    Credential.beq_iff.trans Credential.authorization_inj_iff
  refine ⟨hbeq, fun username password token => ⟨?_, ?_⟩,
    fun username password username' password' hu hu' => ?_, fun username password => ?_,
    fun x y => Access.beq_iff⟩
  · rw [← Bool.not_eq_true, hbeq]
    exact nofun
  · rw [← Bool.not_eq_true, hbeq]
    exact nofun
  · rw [Credential.beq_iff, Credential.authorization_basic_inj_iff,
      Credential.userAndPassword_inj_iff hu hu']
  · rw [Credential.beq_iff, Credential.authorization_basic_inj_iff]
    exact (Credential.userAndPassword_before_after username password).symm

/-- A colon at the start of a password is no part of the user name, though a colon in a user name
could be one of the password. -/
theorem beq_colons : (Credential.basic "u" ":p" == .basic "u" "p") = false ∧
    (Credential.basic "u:" "p" == .basic "u" ":p") = true := by
  refine ⟨?_, ?_⟩
  · rw [← Bool.not_eq_true, beq_iff_sameContent.2.2.1 "u" ":p" "u" "p" (by decide) (by decide)]
    decide
  · exact (beq_iff_sameContent.1 _ _).2 (.basic (by decide))

end RegistryAuth
