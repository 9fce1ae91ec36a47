import CallSchema.Text.Basic
import Mathlib.Data.List.Nodup
import Mathlib.Tactic.Common

set_option autoImplicit false

namespace CallSchema.Text

theorem inOrder_iff {s t : Text} : inOrder s t = true ↔ ¬t < s := by
  simp [inOrder]

theorem inOrder_trans {s t u : Text} (first : inOrder s t = true) (second : inOrder t u = true) :
    inOrder s u = true :=
  inOrder_iff.mpr (List.not_lt.mpr (List.le_trans (List.not_lt.mp (inOrder_iff.mp first))
    (List.not_lt.mp (inOrder_iff.mp second))))

theorem inOrder_total (s t : Text) : (inOrder s t || inOrder t s) = true := by
  rw [Bool.or_eq_true, inOrder_iff, inOrder_iff, List.not_lt, List.not_lt]
  exact List.le_total s t

theorem lt_of_inOrder {s t : Text} (ordered : inOrder s t = true) (differ : s ≠ t) : s < t := by
  by_contra not
  exact differ (List.le_antisymm (List.not_lt.mp (inOrder_iff.mp ordered)) (List.not_lt.mp not))

theorem pairwise_mergeSort {texts : List Text} (nodup : texts.Nodup) :
    (texts.mergeSort inOrder).Pairwise fun s t => s < t := by
  have transitive : ∀ s t u, inOrder s t = true → inOrder t u = true → inOrder s u = true :=
    fun _ _ _ => inOrder_trans
  have ordered : (texts.mergeSort inOrder).Pairwise fun s t => inOrder s t = true :=
    List.pairwise_mergeSort transitive inOrder_total texts
  have apart : (texts.mergeSort inOrder).Nodup := (List.mergeSort_perm _ _).nodup_iff.mpr nodup
  exact (ordered.and apart).imp fun both => lt_of_inOrder both.1 both.2

theorem mergeSort_eq {texts others : List Text} (nodup : texts.Nodup) (otherNodup : others.Nodup)
    (same : ∀ t, t ∈ texts ↔ t ∈ others) : texts.mergeSort inOrder = others.mergeSort inOrder := by
  have perm : (texts.mergeSort inOrder).Perm (others.mergeSort inOrder) :=
    ((List.mergeSort_perm _ _).trans ((List.perm_ext_iff_of_nodup nodup otherNodup).mpr same)).trans
      (List.mergeSort_perm _ _).symm
  refine List.Perm.eq_of_pairwise ?_ (pairwise_mergeSort nodup) (pairwise_mergeSort otherNodup) perm
  intro s t _ _ less more
  exact absurd less (List.lt_asymm more)

end CallSchema.Text
