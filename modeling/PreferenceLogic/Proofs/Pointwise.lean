import Mathlib.Data.List.Forall2

/-!
# Lists that agree position by position

Texts are read piece by piece and objects are scored one after the other, so a list of results
stands beside the list it comes from, and what holds of the one is said of the other.

Results:
* `map_eq_ok_iff`, `mapError_eq_ok_iff`, `bind_eq_ok_iff`: a result is kept where values or errors
  are renamed, and two steps succeed exactly when the first one does and then the second.
* `mapError_eq_error_iff`, `bind_eq_error_iff`, `map_eq_error_iff`: the same for errors.
* `mapM_eq_ok_iff`, `mapM_eq_error_iff`: reading a list succeeds exactly when each element is read,
  and fails at the first element that is not.
* `optionMapM_eq_ok_iff`: reading what may be missing.
* `mapM_eq_of_refused`: the first element that is refused decides the error.
* `exists_mem_iff_of_forall₂`, `forall_mem_iff_of_forall₂`: an equivalence at each position carries
  over to the lists.
* `forall₂_imp_of_mem`, `map_eq_of_forall₂`: relations at each position are weakened and, if they
  are equations, taken together.
* `exists_getElem?_of_forall₂`: what stands at a position of the first list has its counterpart at
  the same position of the second.
* `exists_of_forall₂_concat`: the last elements stand beside each other.
* `forall₂_append_left_iff`: what stands beside two lists one after the other.
* `exists_forall₂_iff`: a list has a list beside it if each element has one.
-/

namespace PreferenceLogic

variable {α β : Type}

/-! ## Results of reading -/

theorem map_eq_ok_iff {ε : Type} {f : α → β} {r : Except ε α} {b : β} :
    r.map f = .ok b ↔ ∃ a, r = .ok a ∧ f a = b := by
  cases r with
  | error err => simp [Except.map]
  | ok a => simp [Except.map]

theorem mapError_eq_ok_iff {ε ε' : Type} {f : ε → ε'} {r : Except ε α} {a : α} :
    r.mapError f = .ok a ↔ r = .ok a := by
  cases r with
  | error err => simp [Except.mapError]
  | ok a => simp [Except.mapError]

theorem bind_eq_ok_iff {ε : Type} {r : Except ε α} {f : α → Except ε β} {b : β} :
    r >>= f = .ok b ↔ ∃ a, r = .ok a ∧ f a = .ok b := by
  cases r with
  | error err => simp [bind, Except.bind]
  | ok a => simp [bind, Except.bind]

theorem mapError_eq_error_iff {ε ε' : Type} {f : ε → ε'} {r : Except ε α} {err : ε'} :
    r.mapError f = .error err ↔ ∃ cause, r = .error cause ∧ f cause = err := by
  cases r with
  | error cause => simp [Except.mapError]
  | ok a => simp [Except.mapError]

theorem bind_eq_error_iff {ε : Type} {r : Except ε α} {f : α → Except ε β} {err : ε} :
    r >>= f = .error err ↔ r = .error err ∨ ∃ a, r = .ok a ∧ f a = .error err := by
  cases r with
  | error cause => simp [bind, Except.bind]
  | ok a => simp [bind, Except.bind]

theorem map_eq_error_iff {ε : Type} {f : α → β} {r : Except ε α} {err : ε} :
    r.map f = .error err ↔ r = .error err := by
  cases r with
  | error cause => simp [Except.map]
  | ok a => simp [Except.map]

theorem mapError_id {ε : Type} (r : Except ε α) : r.mapError id = r := by
  cases r <;> rfl

theorem mapError_mapError {ε ε' ε'' : Type} (r : Except ε α) (f : ε → ε') (g : ε' → ε'') :
    (r.mapError f).mapError g = r.mapError (g ∘ f) := by
  cases r <;> rfl

theorem map_mapError {ε ε' : Type} (r : Except ε α) (f : α → β) (g : ε → ε') :
    (r.mapError g).map f = (r.map f).mapError g := by
  cases r <;> rfl

/-- Reading a list succeeds exactly when each element is read, and the results are in the order of
the elements. -/
theorem mapM_eq_ok_iff {ε : Type} {f : α → Except ε β} {xs : List α} {ys : List β} :
    xs.mapM f = .ok ys ↔ List.Forall₂ (fun x y => f x = .ok y) xs ys := by
  induction xs generalizing ys with
  | nil =>
    rw [List.mapM_nil, List.forall₂_nil_left_iff]
    exact ⟨fun h => (Except.ok.inj h).symm, fun h => congrArg Except.ok h.symm⟩
  | cons x xs ih =>
    simp only [List.mapM_cons, bind_eq_ok_iff, ih, List.forall₂_cons_left_iff]
    constructor
    · intro h
      obtain ⟨y, hy, zs, hzs, heq⟩ := h
      exact ⟨y, zs, hy, hzs, (Except.ok.inj heq).symm⟩
    · intro h
      obtain ⟨y, zs, hy, hzs, heq⟩ := h
      exact ⟨y, hy, zs, hzs, congrArg Except.ok heq.symm⟩

/-- What may be missing is read exactly when it is missing or can be read. -/
theorem optionMapM_eq_ok_iff {ε : Type} {f : α → Except ε β} {x : Option α} {y : Option β} :
    x.mapM f = .ok y ↔ Option.Rel (fun x y => f x = .ok y) x y := by
  cases x with
  | none =>
    refine ⟨fun h => ?_, fun h => ?_⟩
    · cases h
      exact .none
    · cases h
      rfl
  | some x =>
    rw [Option.mapM_some]
    refine ⟨fun h => ?_, fun h => ?_⟩
    · obtain ⟨z, hz, rfl⟩ := map_eq_ok_iff.mp h
      exact .some hz
    · cases h with
      | some hx => exact map_eq_ok_iff.mpr ⟨_, hx, rfl⟩

/-- Reading a list fails at the first element that is not read. -/
theorem mapM_eq_error_iff {ε : Type} {f : α → Except ε β} {xs : List α} {err : ε} :
    xs.mapM f = .error err ↔ ∃ before x after, xs = before ++ x :: after ∧
      (∀ y ∈ before, ∃ z, f y = .ok z) ∧ f x = .error err := by
  induction xs with
  | nil => simp [pure, Except.pure]
  | cons x xs ih =>
    simp only [List.mapM_cons, bind_eq_error_iff, ih]
    constructor
    · rintro (hx | ⟨y, hy, ⟨before, z, after, rfl, hbefore, hz⟩ | ⟨_, _, hpure⟩⟩)
      · exact ⟨[], x, xs, rfl, by simp, hx⟩
      · exact ⟨x :: before, z, after, rfl, List.forall_mem_cons.mpr ⟨⟨y, hy⟩, hbefore⟩, hz⟩
      · cases hpure
    · rintro ⟨before, z, after, heq, hbefore, hz⟩
      cases before with
      | nil =>
        obtain ⟨rfl, -⟩ := List.cons.inj heq
        exact .inl hz
      | cons w before =>
        obtain ⟨rfl, rfl⟩ := List.cons.inj heq
        obtain ⟨⟨y, hy⟩, hbefore⟩ := List.forall_mem_cons.mp hbefore
        exact .inr ⟨y, hy, .inl ⟨before, z, after, rfl, hbefore, hz⟩⟩

/-- Where each element is either refused or read, the first one that is refused decides. -/
theorem mapM_eq_of_refused {ε : Type} (refused : α → Bool) (err : α → ε) (f : α → β)
    (xs : List α) :
    xs.mapM (fun x => if refused x then Except.error (err x) else .ok (f x)) =
      match xs.find? refused with
      | some x => .error (err x)
      | none => .ok (xs.map f) := by
  induction xs with
  | nil => rfl
  | cons x xs ih =>
    rw [List.mapM_cons, List.find?_cons, ih]
    cases refused x with
    | true => rfl
    | false =>
      cases xs.find? refused with
      | some y => rfl
      | none => rfl

/-! ## Two lists -/

section

variable {P : α → Prop} {Q : β → Prop} {xs : List α} {ys : List β}

theorem exists_mem_iff_of_forall₂ (h : List.Forall₂ (fun x y => P x ↔ Q y) xs ys) :
    (∃ x ∈ xs, P x) ↔ ∃ y ∈ ys, Q y := by
  induction h with
  | nil => simp
  | cons hxy _ ih => simp [hxy, ih]

theorem forall_mem_iff_of_forall₂ (h : List.Forall₂ (fun x y => P x ↔ Q y) xs ys) :
    (∀ x ∈ xs, P x) ↔ ∀ y ∈ ys, Q y := by
  induction h with
  | nil => simp
  | cons hxy _ ih => simp [hxy, ih]

end

/-- What is shown at a position may use that the element stands in the list. -/
theorem forall₂_imp_of_mem {R S : α → β → Prop} {xs : List α} {ys : List β}
    (h : List.Forall₂ R xs ys) (himp : ∀ x ∈ xs, ∀ y, R x y → S x y) : List.Forall₂ S xs ys := by
  have hmem : List.Forall₂ (fun x y => x ∈ xs ∧ R x y) xs ys :=
    (List.forall₂_and_left xs ys).mpr ⟨fun _ hx => hx, h⟩
  exact hmem.imp fun x y hxy => himp x hxy.1 y hxy.2

theorem map_eq_of_forall₂ {γ : Type} {f : α → γ} {g : β → γ} {xs : List α} {ys : List β}
    (h : List.Forall₂ (fun x y => g y = f x) xs ys) : xs.map f = ys.map g := by
  induction h with
  | nil => rfl
  | cons hxy _ ih => rw [List.map_cons, List.map_cons, hxy, ih]

theorem eq_map_of_forall₂ {f : α → β} {xs : List α} {ys : List β}
    (h : List.Forall₂ (fun x y => y = f x) xs ys) : ys = xs.map f := by
  rw [map_eq_of_forall₂ h, List.map_id']

theorem exists_mem_of_forall₂ {R : α → β → Prop} {xs : List α} {ys : List β}
    (h : List.Forall₂ R xs ys) {y : β} (hy : y ∈ ys) : ∃ x ∈ xs, R x y := by
  induction h with
  | nil => simp at hy
  | cons hxy _ ih =>
    rcases List.mem_cons.mp hy with rfl | hy
    · exact ⟨_, List.mem_cons_self, hxy⟩
    · obtain ⟨x, hx, hR⟩ := ih hy
      exact ⟨x, List.mem_cons_of_mem _ hx, hR⟩

theorem exists_getElem?_of_forall₂ {R : α → β → Prop} {xs : List α} {ys : List β}
    (h : List.Forall₂ R xs ys) {i : Nat} {x : α} (hx : xs[i]? = some x) :
    ∃ y, ys[i]? = some y ∧ R x y := by
  induction h generalizing i with
  | nil => simp at hx
  | cons hxy _ ih =>
    cases i with
    | zero =>
      cases hx
      exact ⟨_, rfl, hxy⟩
    | succ i => exact ih hx

/-- What stands beside two lists one after the other stands beside each of them. -/
theorem forall₂_append_left_iff {R : α → β → Prop} {xs ys : List α} {zs : List β} :
    List.Forall₂ R (xs ++ ys) zs ↔
      ∃ us vs, List.Forall₂ R xs us ∧ List.Forall₂ R ys vs ∧ zs = us ++ vs := by
  constructor
  · intro h
    exact ⟨zs.take xs.length, zs.drop xs.length, (List.forall₂_take_append zs xs ys h.flip).flip,
      (List.forall₂_drop_append zs xs ys h.flip).flip, (List.take_append_drop _ zs).symm⟩
  · rintro ⟨us, vs, hus, hvs, rfl⟩
    exact List.rel_append hus hvs

/-- A list beside another one is found element by element. -/
theorem exists_forall₂_iff {R : α → β → Prop} {xs : List α} :
    (∃ ys, List.Forall₂ R xs ys) ↔ ∀ x ∈ xs, ∃ y, R x y := by
  induction xs with
  | nil => simp
  | cons x xs ih =>
    simp only [List.forall₂_cons_left_iff, List.forall_mem_cons, ← ih]
    constructor
    · rintro ⟨_, y, ys, hy, hys, rfl⟩
      exact ⟨⟨y, hy⟩, ys, hys⟩
    · rintro ⟨⟨y, hy⟩, ys, hys⟩
      exact ⟨y :: ys, y, ys, hy, hys, rfl⟩

/-- A list that is read in one way is read in another one, if each element is. -/
theorem exists_mapM_eq_ok {γ ε : Type} {f : α → Except ε β} {g : α → Except ε γ}
    (hstep : ∀ x y, f x = .ok y → ∃ z, g x = .ok z) {xs : List α} {ys : List β}
    (h : xs.mapM f = .ok ys) : ∃ zs, xs.mapM g = .ok zs := by
  simp only [mapM_eq_ok_iff] at h ⊢
  refine exists_forall₂_iff.mpr fun x hx => ?_
  obtain ⟨y, hy⟩ := exists_forall₂_iff.mp ⟨ys, h⟩ x hx
  exact hstep x y hy

/-- The same for what is perhaps there. -/
theorem exists_optionMapM_eq_ok {γ ε : Type} {f : α → Except ε β} {g : α → Except ε γ}
    (hstep : ∀ x y, f x = .ok y → ∃ z, g x = .ok z) {x : Option α} {y : Option β}
    (h : x.mapM f = .ok y) : ∃ z, x.mapM g = .ok z := by
  cases x with
  | none => exact ⟨none, rfl⟩
  | some x =>
    rw [Option.mapM_some] at h
    cases hf : f x with
    | error err =>
      rw [hf] at h
      cases h
    | ok y =>
      obtain ⟨z, hz⟩ := hstep x y hf
      exact ⟨some z, by rw [Option.mapM_some, hz]; rfl⟩

/-- What is known of a list from two lists beside it carries over to a list beside one of them. -/
theorem exists_forall₂_of_forall₂ {γ δ : Type} {R : α → β → Prop} {S : α → γ → Prop}
    {T : β → δ → Prop} {U : γ → δ → Prop}
    (hstep : ∀ x y z, R x y → S x z → ∃ u, T y u ∧ U z u) {xs : List α} {ys : List β}
    {zs : List γ} (h : List.Forall₂ R xs ys) (h' : List.Forall₂ S xs zs) :
    ∃ us, List.Forall₂ T ys us ∧ List.Forall₂ U zs us := by
  induction h generalizing zs with
  | nil =>
    cases h'
    exact ⟨[], .nil, .nil⟩
  | cons hxy _ ih =>
    cases h' with
    | cons hxz hrest =>
      obtain ⟨u, hyu, hzu⟩ := hstep _ _ _ hxy hxz
      obtain ⟨us, hyus, hzus⟩ := ih hrest
      exact ⟨u :: us, .cons hyu hyus, .cons hzu hzus⟩

/-- What stands beside a list that ends with an element ends with one beside it. -/
theorem exists_of_forall₂_concat {R : α → β → Prop} {xs : List α} {ys : List β} {y : β}
    (h : List.Forall₂ R xs (ys ++ [y])) :
    ∃ others x, xs = others ++ [x] ∧ List.Forall₂ R others ys ∧ R x y := by
  induction ys generalizing xs with
  | nil =>
    obtain ⟨x, rest, hx, hrest, rfl⟩ := List.forall₂_cons_right_iff.mp h
    rw [List.forall₂_nil_right_iff.mp hrest]
    exact ⟨[], x, rfl, .nil, hx⟩
  | cons z ys ih =>
    obtain ⟨w, rest, hw, hrest, rfl⟩ := List.forall₂_cons_right_iff.mp h
    obtain ⟨others, x, rfl, hothers, hx⟩ := ih hrest
    exact ⟨w :: others, x, rfl, .cons hw hothers, hx⟩

end PreferenceLogic
