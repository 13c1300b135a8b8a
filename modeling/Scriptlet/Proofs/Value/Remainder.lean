import Scriptlet.Proofs.Run.Budget

namespace Scriptlet

/-- That a division of `a` by `b` toward zero gives `q` and leaves `r`. -/
structure DividesInto (a b q r : Int) : Prop where
  eq : a = b * q + r
  natAbs_lt : r.natAbs < b.natAbs
  sign : r = 0 ∨ r.sign = a.sign

variable {a b q r : Int}

theorem dividesInto_tdiv_tmod (hb : b ≠ 0) : DividesInto a b (a.tdiv b) (a.tmod b) where
  eq := (Int.mul_tdiv_add_tmod a b).symm
  natAbs_lt := by
    rw [Int.natAbs_tmod]
    exact Nat.mod_lt _ (Int.natAbs_pos.mpr hb)
  sign := by
    rw [← Int.sign_eq_zero_iff_zero, Int.sign_tmod]
    split
    · exact .inl rfl
    · exact .inr rfl

namespace DividesInto

theorem nonneg (h : DividesInto a b q r) (ha : 0 ≤ a) : 0 ≤ r := by
  rcases h.sign with rfl | hsign
  · exact Int.le_refl 0
  · exact Int.sign_nonneg_iff.mp (hsign ▸ Int.sign_nonneg_iff.mpr ha)

theorem nonpos (h : DividesInto a b q r) (ha : a ≤ 0) : r ≤ 0 := by
  rcases h.sign with rfl | hsign
  · exact Int.le_refl 0
  · exact Int.sign_nonpos_iff.mp (hsign ▸ Int.sign_nonpos_iff.mpr ha)

theorem divisor_ne_zero (h : DividesInto a b q r) : b ≠ 0 := by
  rintro rfl
  exact Nat.not_lt_zero _ h.natAbs_lt

/-- A division gives one quotient and leaves one rest. -/
theorem unique (h : DividesInto a b q r) : q = a.tdiv b ∧ r = a.tmod b := by
  have hlt := h.natAbs_lt
  have heq : r + b * q = a := by rw [h.eq, Int.add_comm]
  rcases Int.le_total 0 a with ha | ha
  · have hdivides := Int.tdiv_tmod_unique ha h.divisor_ne_zero (q := q) (r := r)
    obtain ⟨hq, hr⟩ := hdivides.mpr ⟨heq, h.nonneg ha, by omega⟩
    exact ⟨hq.symm, hr.symm⟩
  · have hdivides := Int.tdiv_tmod_unique' ha h.divisor_ne_zero (q := q) (r := r)
    obtain ⟨hq, hr⟩ := hdivides.mpr ⟨heq, by omega, h.nonpos ha⟩
    exact ⟨hq.symm, hr.symm⟩

/-- The rest lies between nothing and the dividend. -/
theorem inRange (h : DividesInto a b q r) (ha : InRange a) : InRange r := by
  have hle : r.natAbs ≤ a.natAbs := by
    rw [h.unique.2, Int.natAbs_tmod]
    exact Nat.mod_le _ _
  obtain ⟨hlow, hhigh⟩ := ha
  rcases Int.le_total 0 a with hsign | hsign
  · have hr := h.nonneg hsign
    exact ⟨by omega, by omega⟩
  · have hr := h.nonpos hsign
    exact ⟨by omega, by omega⟩

end DividesInto

namespace Value

theorem remainder_eq_ok_iff : remainder a b = .ok r ↔ ∃ q, DividesInto a b q r := by
  unfold remainder
  split
  · rename_i hb
    subst hb
    simpa using fun q (h : DividesInto a 0 q r) => h.divisor_ne_zero rfl
  · rename_i hb
    constructor
    · rintro ⟨⟩
      exact ⟨_, dividesInto_tdiv_tmod hb⟩
    · rintro ⟨q, h⟩
      rw [h.unique.2]

theorem remainder_eq_error_iff {reason : ValueError} :
    remainder a b = .error reason ↔ b = 0 ∧ reason = .divisionByZero := by
  unfold remainder
  split
  · rename_i hb
    simp [hb, eq_comm]
  · rename_i hb
    simp [hb]

/-- The quotient is out of range here, the remainder is not. -/
example : remainder (-9223372036854775808) (-1) = .ok 0 :=
  rfl

end Value

/-- The remainder of two expressions is that of their values, the left one first. -/
theorem Expr.eval_remainder {left right : Expr} {invoke : Invocation} {frame : Frame} {budget : Int}
    {s t u : State} (hleft : left.eval invoke frame budget s = .ok (.integer a) t)
    (hright : right.eval invoke frame budget t = .ok (.integer b) u) :
    (Expr.remainder left right).eval invoke frame budget s =
      Run.ofValue ((Value.remainder a b).map .integer) u := by
  have hnumber (n : Int) (s : State) : Run.ofValue (Value.integer n).asInteger s = .ok n s := rfl
  have hbudget := budget_of_eval_eq_ok hleft
  rw [eval, if_neg hbudget, Run.bind_of_ok hleft, Run.bind_of_ok (hnumber a t),
    Run.bind_of_ok hright, Run.bind_of_ok (hnumber b u)]
  cases Value.remainder a b with
  | ok r => rfl
  | error reason => rfl

end Scriptlet
