import Mathlib.Data.List.Induction
import RegistryAuth.Cluster.Store

/-!
# What a store holds

A record has its place under its namespace and name. What one change does to a place is said by
`secret?_apply` and `account?_apply`: it fills or empties the place that it is of and leaves every
other place as it was. So a place holds what the last change of it put there
(`secret?_ofChanges_iff`, `account?_ofChanges_iff`). Main statement: what a store answers after any
changes, and what taking a secret out of it gives and leaves (`cluster_ofChanges`).
-/

namespace RegistryAuth.Store

/-! ## Places -/

section

variable {α : Type} {spaceOf nameOf : α → String} {isAt : String → String → α → Bool}
  (hat : ∀ space name x, isAt space name x = true ↔ spaceOf x = space ∧ nameOf x = name)
include hat

theorem find?_erase (xs : List α) (space name space' name' : String) :
    (xs.filter (!isAt space' name' ·)).find? (isAt space name) =
      if space' = space ∧ name' = name then none else xs.find? (isAt space name) := by
  rw [List.find?_filter]
  split
  · next h =>
    rw [h.1, h.2, List.find?_eq_none]
    simp
  · next h =>
    congr 1
    funext x
    have hx : isAt space name x = true → isAt space' name' x = false := by
      rw [Bool.eq_false_iff, ne_eq, hat, hat]
      rintro ⟨hs, hn⟩ ⟨hs', hn'⟩
      exact h ⟨hs'.symm.trans hs, hn'.symm.trans hn⟩
    cases hp : isAt space name x with
    | false => simp
    | true => simp [hx hp]

theorem find?_put (x : α) (xs : List α) (space name : String) :
    (x :: xs.filter (!isAt (spaceOf x) (nameOf x) ·)).find? (isAt space name) =
      if spaceOf x = space ∧ nameOf x = name then some x else xs.find? (isAt space name) := by
  rw [List.find?_cons]
  by_cases h : spaceOf x = space ∧ nameOf x = name
  · rw [(hat space name x).2 h, if_pos h]
  · have hx := Bool.eq_false_iff.2 (mt (hat space name x).1 h)
    rw [hx, if_neg h, find?_erase hat, if_neg h]

end

theorem isSecret_iff (space name : String) (s : PullSecret) :
    isSecret space name s = true ↔ s.space = space ∧ s.name = name := by
  simp [isSecret]

theorem isAccount_iff (space name : String) (a : ServiceAccount) :
    isAccount space name a = true ↔ a.space = space ∧ a.name = name := by
  simp [isAccount]

/-! ## One change -/

/-- Whether a change is of the secret of a namespace and name. -/
def Change.OfSecret (space name : String) : Change → Prop
  | .insertSecret s => s.space = space ∧ s.name = name
  | .eraseSecret space' name' => space' = space ∧ name' = name
  | .insertAccount _ => False

/-- Whether a change is of the account of a namespace and name. -/
def Change.OfAccount (space name : String) : Change → Prop
  | .insertSecret _ | .eraseSecret .. => False
  | .insertAccount a => a.space = space ∧ a.name = name

instance (space name : String) : DecidablePred (Change.OfSecret space name)
  | .insertSecret _ => inferInstanceAs (Decidable (_ ∧ _))
  | .eraseSecret .. => inferInstanceAs (Decidable (_ ∧ _))
  | .insertAccount _ => inferInstanceAs (Decidable False)

instance (space name : String) : DecidablePred (Change.OfAccount space name)
  | .insertSecret _ | .eraseSecret .. => inferInstanceAs (Decidable False)
  | .insertAccount _ => inferInstanceAs (Decidable (_ ∧ _))

/-- The secret that a change puts in a place. -/
def Change.secret? : Change → Option PullSecret
  | .insertSecret s => some s
  | .eraseSecret .. | .insertAccount _ => none

/-- The account that a change puts in a place. -/
def Change.account? : Change → Option ServiceAccount
  | .insertAccount a => some a
  | .insertSecret _ | .eraseSecret .. => none

theorem secret?_apply (store : Store) (change : Change) (space name : String) :
    (store.apply change).secret? space name =
      if change.OfSecret space name then change.secret? else store.secret? space name := by
  cases change with
  | insertSecret s => exact find?_put isSecret_iff s store.secrets space name
  | eraseSecret space' name' => exact find?_erase isSecret_iff store.secrets space name space' name'
  | insertAccount a => rfl

theorem account?_apply (store : Store) (change : Change) (space name : String) :
    (store.apply change).account? space name =
      if change.OfAccount space name then change.account? else store.account? space name := by
  cases change with
  | insertSecret s => rfl
  | eraseSecret space' name' => rfl
  | insertAccount a => exact find?_put isAccount_iff a store.accounts space name

/-! ## All changes -/

theorem ofChanges_concat (changes : List Change) (change : Change) :
    ofChanges (changes ++ [change]) = (ofChanges changes).apply change := by
  simp [ofChanges]

/-- Whether `x` is the last element of a list with a property. -/
def LastOf {α : Type} (p : α → Prop) (xs : List α) (x : α) : Prop :=
  ∃ before after, xs = before ++ x :: after ∧ p x ∧ ∀ y ∈ after, ¬ p y

theorem lastOf_nil {α : Type} {p : α → Prop} {x : α} : ¬ LastOf p [] x := by
  rintro ⟨before, after, h, -⟩
  simp at h

theorem lastOf_concat {α : Type} {p : α → Prop} {xs : List α} {y x : α} :
    LastOf p (xs ++ [y]) x ↔ p y ∧ y = x ∨ ¬ p y ∧ LastOf p xs x := by
  refine ⟨fun ⟨before, after, hs, hx, hn⟩ => ?_, fun h => ?_⟩
  · cases after using List.reverseRecOn with
    | nil =>
      obtain ⟨-, hy⟩ := List.append_inj' hs rfl
      rw [List.singleton_inj] at hy
      exact .inl ⟨hy ▸ hx, hy⟩
    | append_singleton after z =>
      rw [← List.cons_append, ← List.append_assoc] at hs
      obtain ⟨hs, hy⟩ := List.append_inj' hs rfl
      rw [List.singleton_inj] at hy
      refine .inr ⟨hy ▸ hn z (by simp), before, after, hs, hx, fun y h => hn y (by simp [h])⟩
  · rcases h with ⟨hy, rfl⟩ | ⟨hy, before, after, rfl, hx, hn⟩
    · exact ⟨xs, [], rfl, hy, by simp⟩
    · refine ⟨before, after ++ [y], by simp, hx, fun z hz => ?_⟩
      rcases List.mem_append.1 hz with hz | hz
      · exact hn z hz
      · rwa [List.mem_singleton.1 hz]

section

variable {α : Type} (look : Store → Option α) {p : Change → Prop} [DecidablePred p]
  {put : Change → Option α}

/-- What is looked up after any changes, if one change of it decides alone. By induction from the
last change: it is of what is looked up, or the changes before it decide. -/
theorem look_ofChanges_iff {insert : α → Change} (hempty : look empty = none)
    (hstep : ∀ store change,
      look (store.apply change) = if p change then put change else look store)
    (hput : ∀ change x, put change = some x ↔ change = insert x) {changes : List Change} {x : α} :
    look (ofChanges changes) = some x ↔ LastOf p changes (insert x) := by
  induction changes using List.reverseRecOn with
  | nil =>
    show look empty = some x ↔ _
    simp [hempty, lastOf_nil]
  | append_singleton changes change ih =>
    rw [ofChanges_concat, hstep, lastOf_concat, ← ih]
    by_cases h : p change
    · simp [h, hput]
    · simp [h]

/-- Changes that are not of what is looked up may be left out. -/
theorem look_ofChanges_filter
    (hstep : ∀ store change,
      look (store.apply change) = if p change then put change else look store)
    {keep : Change → Bool} (hkeep : ∀ change, p change → keep change = true)
    (changes : List Change) :
    look (ofChanges (changes.filter keep)) = look (ofChanges changes) := by
  induction changes using List.reverseRecOn with
  | nil => rfl
  | append_singleton changes change ih =>
    rw [List.filter_append, ofChanges_concat, hstep, ← ih]
    cases hc : keep change with
    | true => rw [List.filter_cons_of_pos hc, List.filter_nil, ofChanges_concat, hstep]
    | false =>
      have hp : ¬ p change := fun h => by simp [hkeep change h] at hc
      rw [List.filter_cons_of_neg (by simp [hc]), List.filter_nil, List.append_nil, if_neg hp]

end

variable {changes : List Change} {space name : String}

theorem secret?_ofChanges_iff {s : PullSecret} : (ofChanges changes).secret? space name = some s ↔
    LastOf (Change.OfSecret space name) changes (.insertSecret s) := by
  refine look_ofChanges_iff (·.secret? space name) rfl
    (fun store change => secret?_apply store change space name) fun change s => ?_
  cases change <;> simp [Change.secret?]

theorem account?_ofChanges_iff {a : ServiceAccount} :
    (ofChanges changes).account? space name = some a ↔
      LastOf (Change.OfAccount space name) changes (.insertAccount a) := by
  refine look_ofChanges_iff (·.account? space name) rfl
    (fun store change => account?_apply store change space name) fun change a => ?_
  cases change <;> simp [Change.account?]

theorem secret?_ofChanges_filter {keep : Change → Bool}
    (h : ∀ change, Change.OfSecret space name change → keep change = true)
    (changes : List Change) :
    (ofChanges (changes.filter keep)).secret? space name =
      (ofChanges changes).secret? space name :=
  look_ofChanges_filter (·.secret? space name)
    (fun store change => secret?_apply store change space name) h changes

theorem account?_ofChanges_filter {keep : Change → Bool}
    (h : ∀ change, Change.OfAccount space name change → keep change = true)
    (changes : List Change) : (ofChanges (changes.filter keep)).account? space name =
      (ofChanges changes).account? space name :=
  look_ofChanges_filter (·.account? space name)
    (fun store change => account?_apply store change space name) h changes

/-! ## Looking up -/

section

variable {store : Store} {e : ClusterError}

theorem cluster_secret_eq_ok_iff {s : PullSecret} :
    store.cluster.secret space name = .ok s ↔ store.secret? space name = some s := by
  simp only [cluster]
  cases store.secret? space name <;> simp

theorem cluster_secret_eq_error_iff : store.cluster.secret space name = .error e ↔
    e = .secretNotFound space name ∧ ∀ s, store.secret? space name ≠ some s := by
  simp only [cluster]
  cases store.secret? space name <;> simp [eq_comm]

theorem cluster_account_eq_ok_iff {a : ServiceAccount} :
    store.cluster.account space name = .ok a ↔ store.account? space name = some a := by
  simp only [cluster]
  cases store.account? space name <;> simp

theorem cluster_account_eq_error_iff : store.cluster.account space name = .error e ↔
    e = .accountNotFound space name ∧ ∀ a, store.account? space name ≠ some a := by
  simp only [cluster]
  cases store.account? space name <;> simp [eq_comm]

end

/-- Whether a change is of an account. -/
def Change.isOfAccounts (change : Change) : Bool := change.account?.isSome

theorem cluster_account_filter (changes : List Change) :
    (ofChanges (changes.filter Change.isOfAccounts)).cluster.account =
      (ofChanges changes).cluster.account := by
  funext space name
  have hkeep : ∀ change, Change.OfAccount space name change → change.isOfAccounts = true := by
    intro change h
    cases change with
    | insertSecret | eraseSecret => exact h.elim
    | insertAccount a => rfl
  simp only [cluster, account?_ofChanges_filter hkeep]

/-! ## Taking out -/

theorem takeSecret_fst (store : Store) (space name : String) :
    (store.takeSecret space name).1 = (store.cluster.secret space name).toOption := by
  simp only [takeSecret, cluster]
  cases store.secret? space name <;> rfl

theorem takeSecret_snd (store : Store) (space name : String) :
    (store.takeSecret space name).2 = store.apply (.eraseSecret space name) :=
  rfl

theorem cluster_secret_takeSecret (store : Store) (space name space' name' : String) :
    (store.takeSecret space name).2.cluster.secret space' name' =
      if space' = space ∧ name' = name then .error (.secretNotFound space' name')
      else store.cluster.secret space' name' := by
  have h := secret?_apply store (.eraseSecret space name) space' name'
  have hof : Change.OfSecret space' name' (.eraseSecret space name) ↔
      space' = space ∧ name' = name := by
    rw [Change.OfSecret, eq_comm, @eq_comm _ name]
  simp only [hof] at h
  rw [takeSecret_snd]
  by_cases hp : space' = space ∧ name' = name
  · rw [if_pos hp] at h ⊢
    simp only [cluster, h, Change.secret?]
  · rw [if_neg hp] at h ⊢
    simp only [cluster, h]

/-- After any changes a place holds what was put there last and not taken out since, and a lookup
that finds nothing says that there is no record of this namespace and name. Accounts depend on the
changes of accounts alone. Taking a secret out gives what a lookup would have given and leaves a
store in which only this place is empty. A record that is found has the namespace and name under
which it was looked up. -/
theorem cluster_ofChanges (changes : List Change) (space name : String) :
    (∀ s, (ofChanges changes).cluster.secret space name = .ok s ↔
      LastOf (Change.OfSecret space name) changes (.insertSecret s)) ∧
    (∀ e, (ofChanges changes).cluster.secret space name = .error e ↔
      e = .secretNotFound space name ∧
        ∀ s, ¬ LastOf (Change.OfSecret space name) changes (.insertSecret s)) ∧
    (∀ a, (ofChanges changes).cluster.account space name = .ok a ↔
      LastOf (Change.OfAccount space name) changes (.insertAccount a)) ∧
    (∀ e, (ofChanges changes).cluster.account space name = .error e ↔
      e = .accountNotFound space name ∧
        ∀ a, ¬ LastOf (Change.OfAccount space name) changes (.insertAccount a)) ∧
    (ofChanges (changes.filter Change.isOfAccounts)).cluster.account =
      (ofChanges changes).cluster.account ∧
    (((ofChanges changes).takeSecret space name).1 =
        ((ofChanges changes).cluster.secret space name).toOption ∧
      ((ofChanges changes).takeSecret space name).2 =
        ofChanges (changes ++ [.eraseSecret space name]) ∧
      ((ofChanges changes).takeSecret space name).2.cluster.account =
        (ofChanges changes).cluster.account ∧
      ∀ space' name', ((ofChanges changes).takeSecret space name).2.cluster.secret space' name' =
        if space' = space ∧ name' = name then .error (.secretNotFound space' name')
        else (ofChanges changes).cluster.secret space' name') ∧
    (∀ s, (ofChanges changes).cluster.secret space name = .ok s → s.space = space ∧ s.name = name) ∧
    ∀ a, (ofChanges changes).cluster.account space name = .ok a →
      a.space = space ∧ a.name = name := by
  have hs {s : PullSecret} : (ofChanges changes).cluster.secret space name = .ok s ↔
      LastOf (Change.OfSecret space name) changes (.insertSecret s) := by
    rw [cluster_secret_eq_ok_iff, secret?_ofChanges_iff]
  have ha {a : ServiceAccount} : (ofChanges changes).cluster.account space name = .ok a ↔
      LastOf (Change.OfAccount space name) changes (.insertAccount a) := by
    rw [cluster_account_eq_ok_iff, account?_ofChanges_iff]
  refine ⟨fun s => hs, fun e => ?_, fun a => ha, fun e => ?_, cluster_account_filter changes,
    ⟨takeSecret_fst _ space name, ?_, rfl, cluster_secret_takeSecret _ space name⟩,
    fun s h => ?_, fun a h => ?_⟩
  · simp only [cluster_secret_eq_error_iff, ne_eq, secret?_ofChanges_iff]
  · simp only [cluster_account_eq_error_iff, ne_eq, account?_ofChanges_iff]
  · rw [takeSecret_snd, ofChanges_concat]
  · obtain ⟨-, -, -, hof, -⟩ := hs.1 h
    exact hof
  · obtain ⟨-, -, -, hof, -⟩ := ha.1 h
    exact hof

end RegistryAuth.Store
