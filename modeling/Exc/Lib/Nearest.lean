import Mathlib.Algebra.Order.Group.Abs
import Mathlib.Order.Interval.Set.Defs
import Mathlib.Order.Monotone.Defs

/-!
# The nearest point of a grid

A grid is a strictly increasing sequence of points, and some of its points are allowed. The nearest
allowed point to a value is the one at the smallest distance, and the larger one of two at the same
distance (`IsNearest`). A value beyond all allowed points has the last or the first of them as its
nearest point, and a value between two neighbours has one of the two (`isNearest_between`).
-/

set_option autoImplicit false
set_option relaxedAutoImplicit false

namespace Exc.Lib

variable {index scalar : Type*} [LinearOrder index] [AddCommGroup scalar] [LinearOrder scalar]
  [IsOrderedAddMonoid scalar]

/-- The nearest allowed point to a value, the larger one of two. -/
def IsNearest (grid : index → scalar) (allowed : Set index) (value : scalar) (choice : index) :
    Prop :=
  choice ∈ allowed ∧ ∀ other ∈ allowed,
    |grid choice - value| < |grid other - value| ∨
      |grid choice - value| = |grid other - value| ∧ other ≤ choice

variable {grid : index → scalar} {allowed : Set index} {value : scalar}

theorem isNearest_last (hgrid : StrictMono grid) {last : index} (hmem : last ∈ allowed)
    (hlast : ∀ other ∈ allowed, other ≤ last) (hvalue : grid last ≤ value) :
    IsNearest grid allowed value last := by
  refine ⟨hmem, fun other hother ↦ ?_⟩
  rcases (hlast other hother).lt_or_eq with hlt | rfl
  · have hless := hgrid hlt
    rw [abs_of_nonpos (sub_nonpos.mpr hvalue),
      abs_of_nonpos (sub_nonpos.mpr (hless.le.trans hvalue))]
    exact .inl (neg_lt_neg (sub_lt_sub_right hless value))
  · exact .inr ⟨rfl, le_rfl⟩

theorem isNearest_first (hgrid : StrictMono grid) {first : index} (hmem : first ∈ allowed)
    (hfirst : ∀ other ∈ allowed, first ≤ other) (hvalue : value ≤ grid first) :
    IsNearest grid allowed value first := by
  refine ⟨hmem, fun other hother ↦ ?_⟩
  rcases (hfirst other hother).lt_or_eq with hlt | rfl
  · have hless := hgrid hlt
    rw [abs_of_nonneg (sub_nonneg.mpr hvalue),
      abs_of_nonneg (sub_nonneg.mpr (hvalue.trans hless.le))]
    exact .inl (sub_lt_sub_right hless value)
  · exact .inr ⟨rfl, le_rfl⟩

/-- Between two neighbours the lower one is the nearest if it is strictly nearer than the upper
one. -/
theorem isNearest_between (hgrid : StrictMono grid) {low high : index} (hlow : low ∈ allowed)
    (hhigh : high ∈ allowed) (hlt : low < high)
    (hneighbours : ∀ other ∈ allowed, other ≤ low ∨ high ≤ other) (hle : grid low ≤ value)
    (hge : value ≤ grid high) :
    IsNearest grid allowed value
      (if |grid low - value| < grid high - value then low else high) := by
  have hbelow : IsNearest grid {other ∈ allowed | other ≤ low} value low :=
    isNearest_last hgrid ⟨hlow, le_rfl⟩ (fun other hother ↦ hother.2) hle
  have habove : IsNearest grid {other ∈ allowed | high ≤ other} value high :=
    isNearest_first hgrid ⟨hhigh, le_rfl⟩ (fun other hother ↦ hother.2) hge
  have habs : |grid high - value| = grid high - value := abs_of_nonneg (sub_nonneg.mpr hge)
  split_ifs with hnear
  · refine ⟨hlow, fun other hother ↦ ?_⟩
    rcases hneighbours other hother with hother_le | hle_other
    · exact hbelow.2 other ⟨hother, hother_le⟩
    · have hnot_nearer : |grid high - value| ≤ |grid other - value| := by
        rcases habove.2 other ⟨hother, hle_other⟩ with hless | ⟨hequal, -⟩
        · exact hless.le
        · exact hequal.le
      exact .inl ((hnear.trans_le habs.ge).trans_le hnot_nearer)
  · have hnot : |grid high - value| ≤ |grid low - value| := habs.le.trans (not_lt.mp hnear)
    refine ⟨hhigh, fun other hother ↦ ?_⟩
    rcases hneighbours other hother with hother_le | hle_other
    · have hother_lt := hother_le.trans hlt.le
      rcases hbelow.2 other ⟨hother, hother_le⟩ with hless | ⟨hequal, -⟩
      · exact .inl (hnot.trans_lt hless)
      · rcases (hnot.trans hequal.le).lt_or_eq with hless | hsame
        · exact .inl hless
        · exact .inr ⟨hsame, hother_lt⟩
    · exact habove.2 other ⟨hother, hle_other⟩

end Exc.Lib
