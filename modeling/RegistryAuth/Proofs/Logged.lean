import RegistryAuth.Event

/-!
# Values and events of longer computations

A loop and a computation that may fail, by the values and the events of their steps. The value of a
loop is the loop over the values (`value_foldlM`); a loop whose steps tell the same whatever came
before tells the steps' events in order (`events_foldlM`). A loop that stops early is decided by the
first element with some property (`FirstWith`).
-/

namespace RegistryAuth

/-! ## Results -/

section

variable {ε ε' α β : Type}

instance decidableEqResult [DecidableEq ε] [DecidableEq α] : DecidableEq (Except ε α)
  | .ok a, .ok b => decidable_of_iff (a = b) (by rw [Except.ok.injEq])
  | .error e, .error f => decidable_of_iff (e = f) (by rw [Except.error.injEq])
  | .ok _, .error _ => isFalse nofun
  | .error _, .ok _ => isFalse nofun

theorem bind_eq_error {x : Except ε α} {f : α → Except ε β} {e : ε} :
    x >>= f = .error e ↔ x = .error e ∨ ∃ a, x = .ok a ∧ f a = .error e := by
  cases x with
  | error e => simp [bind, Except.bind]
  | ok a => simp [bind, Except.bind]

/-- Two computations that agree as far as `φ` shows go on alike if that is all that counts. -/
theorem map_bind_eq_map_bind {γ δ : Type} (φ : α → β) {ψ : γ → δ} {x y : Except ε α}
    {f g : α → Except ε γ} (h : x.map φ = y.map φ)
    (hf : ∀ a b, φ a = φ b → (f a).map ψ = (g b).map ψ) :
    (x >>= f).map ψ = (y >>= g).map ψ := by
  cases x with
  | error e =>
    cases y with
    | error e' => cases h; rfl
    | ok b => cases h
  | ok a =>
    cases y with
    | error e' => cases h
    | ok b => exact hf a b (Except.ok.inj h)

theorem map_mapError (x : Except ε α) (f : ε → ε') (φ : α → β) :
    (x.mapError f).map φ = (x.map φ).mapError f := by
  cases x <;> rfl

theorem mapError_eq_ok {x : Except ε α} {f : ε → ε'} {a : α} :
    x.mapError f = .ok a ↔ x = .ok a := by
  cases x with
  | error e => exact ⟨nofun, nofun⟩
  | ok b => exact ⟨fun h => congrArg _ (Except.ok.inj h), fun h => congrArg _ (Except.ok.inj h)⟩

theorem mapError_eq_error {x : Except ε α} {f : ε → ε'} {e : ε'} :
    x.mapError f = .error e ↔ ∃ e', x = .error e' ∧ f e' = e := by
  cases x with
  | error e' =>
    refine ⟨fun h => ⟨e', rfl, Except.error.inj h⟩, fun ⟨e'', h, he⟩ => ?_⟩
    rw [Except.error.inj h, ← he]
    rfl
  | ok a => exact ⟨nofun, nofun⟩

end

/-! ## The first of a list -/

/-- Whether the first element of a list that has something by `p` has `x`. -/
def FirstWith {α β : Type} (p : α → β → Prop) (xs : List α) (x : β) : Prop :=
  ∃ before a after, xs = before ++ a :: after ∧ p a x ∧ ∀ b ∈ before, ∀ y, ¬ p b y

section

variable {α β : Type} {f : α → Option β} {p : α → β → Prop}

theorem findSome?_eq_some_iff_firstWith (h : ∀ a x, f a = some x ↔ p a x) {xs : List α} {x : β} :
    xs.findSome? f = some x ↔ FirstWith p xs x := by
  rw [List.findSome?_eq_some_iff]
  refine exists_congr fun before => exists_congr fun a => exists_congr fun after => ?_
  rw [h]
  refine and_congr_right fun _ => and_congr_right fun _ => ?_
  refine forall₂_congr fun b _ => ?_
  rw [Option.eq_none_iff_forall_ne_some]
  exact forall_congr' fun y => not_congr (h b y)

theorem findSome?_eq_none_iff_forall (h : ∀ a x, f a = some x ↔ p a x) {xs : List α} :
    xs.findSome? f = none ↔ ∀ a ∈ xs, ∀ x, ¬ p a x := by
  rw [List.findSome?_eq_none_iff]
  refine forall₂_congr fun a _ => ?_
  rw [Option.eq_none_iff_forall_ne_some]
  exact forall_congr' fun x => not_congr (h a x)

theorem firstWith_nil {x : β} : ¬ FirstWith p [] x := by
  rintro ⟨before, a, after, h, -⟩
  simp at h

theorem firstWith_cons {a : α} {xs : List α} {x : β} :
    FirstWith p (a :: xs) x ↔ p a x ∨ (∀ y, ¬ p a y) ∧ FirstWith p xs x := by
  refine ⟨fun ⟨before, b, after, hs, hb, hn⟩ => ?_, fun h => ?_⟩
  · cases before with
    | nil =>
      obtain ⟨rfl, -⟩ := List.cons.inj hs
      exact .inl hb
    | cons c before =>
      obtain ⟨rfl, rfl⟩ := List.cons.inj hs
      rw [List.forall_mem_cons] at hn
      exact .inr ⟨hn.1, before, b, after, rfl, hb, hn.2⟩
  · rcases h with h | ⟨hn, before, b, after, rfl, hb, hbefore⟩
    · exact ⟨[], a, xs, rfl, h, fun _ hb => (List.not_mem_nil hb).elim⟩
    · exact ⟨a :: before, b, after, rfl, hb, List.forall_mem_cons.2 ⟨hn, hbefore⟩⟩

end

namespace Logged

variable {ε α β : Type}

theorem value_foldlM (f : β → α → Logged β) (b : β) (xs : List α) :
    (xs.foldlM f b).value = xs.foldl (fun b a => (f b a).value) b := by
  induction xs generalizing b with
  | nil => rfl
  | cons x xs ih => rw [List.foldlM_cons, value_bind, ih, List.foldl_cons]

theorem events_foldlM {f : β → α → Logged β} {told : α → List Event}
    (h : ∀ b a, (f b a).events = told a) (b : β) (xs : List α) :
    (xs.foldlM f b).events = xs.flatMap told := by
  induction xs generalizing b with
  | nil => rfl
  | cons x xs ih => rw [List.foldlM_cons, events_bind, h, ih, List.flatMap_cons]

@[simp] theorem value_map (f : α → β) (x : Logged α) : (f <$> x).value = f x.value := by
  rw [map_eq_pure_bind]; rfl

@[simp] theorem events_map (f : α → β) (x : Logged α) : (f <$> x).events = x.events := by
  rw [map_eq_pure_bind, events_bind, events_pure, List.append_nil]

/-! ## Computations that may fail -/

@[simp] theorem value_run_bind (x : ExceptT ε Logged α) (f : α → ExceptT ε Logged β) :
    (x >>= f).run.value = x.run.value >>= fun a => (f a).run.value := by
  rw [ExceptT.run_bind, value_bind]
  cases x.run.value <;> rfl

theorem run_bind_pure (x : ExceptT ε Logged α) (f : α → β) :
    (x >>= fun a => pure (f a)).run = ⟨x.run.value.map f, x.run.events⟩ := by
  rw [ExceptT.run_bind]
  show (⟨_, x.run.events ++ _⟩ : Logged (Except ε β)) = _
  cases x.run.value with
  | error e => exact congrArg _ (List.append_nil _)
  | ok a => exact congrArg _ (List.append_nil _)

theorem events_run_bind_ok {x : ExceptT ε Logged α} {a : α} (h : x.run.value = .ok a)
    (f : α → ExceptT ε Logged β) :
    (x >>= f).run.events = x.run.events ++ (f a).run.events := by
  rw [ExceptT.run_bind, events_bind, h]

end Logged

end RegistryAuth
