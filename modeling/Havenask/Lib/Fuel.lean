import Mathlib.Data.List.Forall2
import Mathlib.Order.Lattice

/-!
# Computations with fuel

A computation that recurses on a bound for its steps gives `none` when the bound is too small.  It
returns a value when every large enough bound gives that value.
-/

namespace Fuel

variable {α β : Type*}

/-- With enough fuel the computation returns `a`. -/
def Returns (run : ℕ → Option α) (a : α) : Prop := ∃ N, ∀ fuel ≥ N, run fuel = some a

lemma Returns.unique {run : ℕ → Option α} {a a' : α} (h : Returns run a) (h' : Returns run a') : a = a' := by
  obtain ⟨N, hN⟩ := h
  obtain ⟨N', hN'⟩ := h'
  have heq := (hN (max N N') (le_max_left _ _)).symm.trans (hN' (max N N') (le_max_right _ _))
  exact Option.some.inj heq

/-- The computations for the elements of a list, one after the other with the same fuel. -/
lemma exists_returns_mapM {f : ℕ → α → Option β} {l : List α} {R : α → β → Prop}
    (h : ∀ x ∈ l, ∃ y, Returns (f · x) y ∧ R x y) : ∃ ys, Returns (fun fuel => l.mapM (f fuel)) ys
    ∧ List.Forall₂ (fun x y => Returns (f · x) y ∧ R x y) l ys := by
  induction l with
  | nil => exact ⟨[], ⟨0, fun fuel _ => rfl⟩, .nil⟩
  | cons x l ih =>
    obtain ⟨y, ⟨N₁, hN₁⟩, hy⟩ := h x (by simp)
    obtain ⟨ys, ⟨N₂, hN₂⟩, hall⟩ := ih fun x hx => h x (by simp [hx])
    refine ⟨y :: ys, ⟨max N₁ N₂, fun fuel hfuel => ?_⟩, .cons ⟨⟨N₁, hN₁⟩, hy⟩ hall⟩
    have hfirst : f fuel x = some y := hN₁ fuel (by omega)
    have hrest : l.mapM (f fuel) = some ys := hN₂ fuel (by omega)
    show (x :: l).mapM (f fuel) = _
    rw [List.mapM_cons, hfirst, hrest]
    rfl

/-! ## Lists related element by element -/

section
variable {R : α → β → Prop} {l : List α} {l' : List β} {P : α → Prop} {Q : β → Prop}

section
variable (hl : List.Forall₂ R l l')
include hl

lemma forall_mem_iff_of_forall₂ (hR : ∀ a b, R a b → (P a ↔ Q b)) :
    (∀ a ∈ l, P a) ↔ ∀ b ∈ l', Q b := by
  induction hl with
  | nil => simp
  | cons hab _ ih => rw [List.forall_mem_cons, List.forall_mem_cons, hR _ _ hab, ih]

lemma exists_mem_iff_of_forall₂ (hR : ∀ a b, R a b → (P a ↔ Q b)) :
    (∃ a ∈ l, P a) ↔ ∃ b ∈ l', Q b := by
  rw [← not_iff_not]
  push Not
  exact forall_mem_iff_of_forall₂ hl fun a b hab => not_congr (hR a b hab)

lemma forall_mem_right_of_forall₂ (hR : ∀ a b, R a b → Q b) : ∀ b ∈ l', Q b :=
  (forall_mem_iff_of_forall₂ (P := fun _ => True) hl fun a b hab => by simp [hR a b hab]).mp
    fun _ _ => trivial

end

end

end Fuel
