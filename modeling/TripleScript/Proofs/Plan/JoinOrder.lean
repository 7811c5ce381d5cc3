import Mathlib.Data.List.Perm.Basic
import TripleScript.Plan.JoinOrder

/-!
# Putting scans in order loses none

However the next scan is chosen, it is one of those that are left, and it is
taken from them. So the scans in order are the scans that there were
(`orderScans_perm`).
-/

namespace TripleScript

namespace JoinOrder

/-- The place of the least scan is a place. -/
theorem lt_length_of_least? {eligible : ScanStep → Bool} {rank : ScanStep → Rank}
    {pending : List ScanStep} {place : ℕ} {r : Rank}
    (h : least? eligible rank pending = some (place, r)) : place < pending.length := by
  induction pending generalizing place r with
  | nil => cases h
  | cons s rest ih =>
    simp only [least?] at h
    rw [List.length_cons]
    split at h
    case h_1 => cases h
    case h_2 i r' _ hrest =>
      cases h
      exact Nat.succ_lt_succ (ih hrest)
    case h_3 =>
      cases h
      exact Nat.succ_pos _
    case h_4 i r' _ hrest =>
      split at h
      · cases h
        exact Nat.succ_lt_succ (ih hrest)
      · cases h
        exact Nat.succ_pos _

/-- **The next scan is one of those that are left**, if any are. -/
theorem getD_pick?_lt_length (bound : Option (List ℕ)) {pending : List ScanStep}
    (h : pending ≠ []) : (pick? bound pending).getD 0 < pending.length := by
  have hlt : ∀ place, pick? bound pending = some place → place < pending.length := by
    intro place hplace
    cases bound with
    | none =>
      obtain ⟨⟨i, r⟩, hleast, rfl⟩ := Option.map_eq_some_iff.mp hplace
      exact lt_length_of_least? hleast
    | some slots =>
      obtain ⟨⟨i, r⟩, hleast, rfl⟩ := Option.map_eq_some_iff.mp hplace
      exact lt_length_of_least? hleast
  cases hpick : pick? bound pending with
  | none => exact List.length_pos_iff.mpr h
  | some place => exact hlt place hpick

/-- Arranging scans loses none. -/
theorem arrange_perm (bound : Option (List ℕ)) (pending : List ScanStep) :
    (arrange bound pending).Perm pending := by
  fun_induction arrange bound pending with
  | case1 bound pending place hplace =>
    have hnil : pending = [] := by
      by_contra h
      have hlt := getD_pick?_lt_length bound h
      exact Nat.not_lt.mpr (List.getElem?_eq_none_iff.mp hplace) hlt
    rw [hnil]
  | case2 bound pending place s hplace ih =>
    obtain ⟨hlt, rfl⟩ := List.getElem?_eq_some_iff.mp hplace
    exact (ih.cons _).trans (List.getElem_cons_eraseIdx_perm hlt)

end JoinOrder

/-- **Putting scans in order loses none.** -/
theorem orderScans_perm (scans : List ScanStep) : (orderScans scans).Perm scans :=
  JoinOrder.arrange_perm none scans

end TripleScript
