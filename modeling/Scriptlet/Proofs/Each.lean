import Mathlib.Data.List.Forall2

namespace Scriptlet

section Except

variable {ε α β : Type} {f : α → Except ε β} {xs : List α}

/-- Doing it to each of a list succeeds if it succeeds for every one of them. -/
theorem mapM_eq_ok_iff {ys : List β} :
    xs.mapM f = .ok ys ↔ List.Forall₂ (fun x y => f x = .ok y) xs ys := by
  induction xs generalizing ys with
  | nil => cases ys <;> simp [pure, Except.pure]
  | cons x xs ih =>
    rw [List.mapM_cons, List.forall₂_cons_left_iff]
    cases hx : f x with
    | error e => simp [bind, Except.bind]
    | ok y =>
      cases hxs : xs.mapM f with
      | error e =>
        have hnone : ∀ ys, ¬ List.Forall₂ (fun x y => f x = .ok y) xs ys := fun ys h => by
          cases hxs.symm.trans (ih.mpr h)
        simp [bind, Except.bind, hnone]
      | ok rest =>
        have hrest : ∀ ys, List.Forall₂ (fun x y => f x = .ok y) xs ys ↔ rest = ys := fun ys => by
          rw [← ih, hxs, Except.ok.injEq]
        simp only [bind, Except.bind, pure, Except.pure, Except.ok.injEq, hrest]
        constructor
        · rintro rfl
          exact ⟨y, rest, rfl, rfl, rfl⟩
        · rintro ⟨_, _, rfl, rfl, rfl⟩
          rfl

/-- The outcomes for a list are those for its members, and each of them has one. -/
theorem mem_of_mapM_eq_ok {ys : List β} (h : xs.mapM f = .ok ys) :
    (∀ x ∈ xs, ∃ y ∈ ys, f x = .ok y) ∧ ∀ y ∈ ys, ∃ x ∈ xs, f x = .ok y := by
  have heach := mapM_eq_ok_iff.mp h
  clear h
  induction heach with
  | nil => simp
  | @cons x y xs ys hfirst _ ih =>
    obtain ⟨hleft, hright⟩ := ih
    refine ⟨List.forall_mem_cons.mpr ⟨⟨y, by simp, hfirst⟩, fun x' hx => ?_⟩,
      List.forall_mem_cons.mpr ⟨⟨x, by simp, hfirst⟩, fun y' hy => ?_⟩⟩
    · obtain ⟨y', hy, hread⟩ := hleft x' hx
      exact ⟨y', List.mem_cons_of_mem _ hy, hread⟩
    · obtain ⟨x', hx, hread⟩ := hright y' hy
      exact ⟨x', List.mem_cons_of_mem _ hx, hread⟩

/-- Doing it to each of a list fails as it does for the leftmost one that it fails for. -/
theorem mapM_eq_error_iff {e : ε} :
    xs.mapM f = .error e ↔ ∃ before bad after ys, xs = before ++ bad :: after ∧
      List.Forall₂ (fun x y => f x = .ok y) before ys ∧ f bad = .error e := by
  constructor
  · intro h
    induction xs with
    | nil => cases h
    | cons x xs ih =>
      rw [List.mapM_cons] at h
      cases hx : f x with
      | error e' =>
        rw [hx] at h
        cases h
        exact ⟨[], x, xs, [], rfl, .nil, hx⟩
      | ok y =>
        cases hxs : xs.mapM f with
        | ok rest =>
          rw [hx, hxs] at h
          cases h
        | error e' =>
          rw [hx, hxs] at h
          cases h
          obtain ⟨before, bad, after, ys, rfl, hbefore, hbad⟩ := ih hxs
          exact ⟨x :: before, bad, after, y :: ys, rfl, .cons hx hbefore, hbad⟩
  · rintro ⟨before, bad, after, ys, rfl, hbefore, hbad⟩
    rw [List.mapM_append, mapM_eq_ok_iff.mpr hbefore, List.mapM_cons, hbad]
    rfl

end Except

/-! ### Place by place -/

section PlaceByPlace

variable {α β : Type} {xs : List α} {ys : List β}

/-- Doing it to each of two lists comes to the same if it does so place by place. -/
theorem mapM_eq_of_forall₂ {m : Type → Type} [Monad m] [LawfulMonad m] {γ : Type} {f : α → m γ}
    {g : β → m γ} (h : List.Forall₂ (fun x y => f x = g y) xs ys) : xs.mapM f = ys.mapM g := by
  induction h with
  | nil => rfl
  | cons hxy _ ih => rw [List.mapM_cons, List.mapM_cons, hxy, ih]

/-- What two lists have in common place by place is asked of their members only. -/
theorem forall₂_congr_of_mem {R S : α → β → Prop} (hiff : ∀ x ∈ xs, ∀ y ∈ ys, R x y ↔ S x y) :
    List.Forall₂ R xs ys ↔ List.Forall₂ S xs ys := by
  simp only [List.forall₂_iff_zip]
  refine and_congr_right fun _ => forall_congr' fun x => forall_congr' fun y => ?_
  refine forall_congr' fun hzip => ?_
  obtain ⟨hx, hy⟩ := List.of_mem_zip hzip
  exact hiff x hx y hy

end PlaceByPlace

/-! ### Without an error -/

section Option

variable {α β : Type} {f g : α → Option β} {xs zs : List α} {ys : List β}

theorem mapM_eq_some_iff : xs.mapM f = some ys ↔ xs.map f = ys.map some := by
  induction xs generalizing ys with
  | nil => cases ys <;> simp
  | cons x xs ih =>
    simp only [List.mapM_cons, Option.bind_eq_bind, Option.bind_eq_some_iff, Option.pure_def,
      Option.some.injEq, ih]
    cases ys <;> simp

theorem isSome_mapM_iff : (xs.mapM f).isSome ↔ ∀ x ∈ xs, (f x).isSome := by
  induction xs with
  | nil => simp
  | cons x xs ih =>
    rw [List.forall_mem_cons, ← ih, List.mapM_cons]
    cases f x <;> cases xs.mapM f <;> simp

/-- What gives an outcome wherever another does gives the same list. -/
theorem mapM_mono (hfg : ∀ x ∈ xs, ∀ y, f x = some y → g x = some y) (hys : xs.mapM f = some ys) :
    xs.mapM g = some ys := by
  rw [mapM_eq_some_iff] at hys ⊢
  rw [← hys]
  apply List.map_congr_left
  intro x hx
  have hmem : f x ∈ ys.map some := hys ▸ List.mem_map_of_mem hx
  obtain ⟨y, -, hy⟩ := List.mem_map.mp hmem
  rw [← hy]
  exact hfg x hx y hy.symm

/-- Where every member of a list has an outcome, another list has the same outcomes only if it does so
place by place. -/
theorem mapM_eq_mapM_iff (hxs : ∀ x ∈ xs, (f x).isSome) :
    xs.mapM f = zs.mapM f ↔ List.Forall₂ (fun x z => f x = f z) xs zs := by
  refine ⟨?_, mapM_eq_of_forall₂⟩
  intro hsame
  obtain ⟨ys, hys⟩ := Option.isSome_iff_exists.mp (isSome_mapM_iff.mpr hxs)
  have hmaps : xs.map f = zs.map f :=
    (mapM_eq_some_iff.mp hys).trans (mapM_eq_some_iff.mp (hsame.symm.trans hys)).symm
  rwa [← List.forall₂_eq_eq_eq, List.forall₂_map_left_iff, List.forall₂_map_right_iff] at hmaps

end Option

end Scriptlet
