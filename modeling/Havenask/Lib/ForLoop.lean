import Mathlib

/-!
# Counting loops with an early return

`for (i = first; i < first + count; ++i)` over a state, left by the first round that returns
something.  `forLoop_rule` is the invariant rule: a round either keeps the invariant, moved on by
one, or establishes what the loop is left with.
-/

namespace ForLoop

variable {α σ : Type*}

/-- Run `step i` for `i = first, first + 1, ...`, `count` times or until it returns. -/
def forLoop (step : ℕ → σ → Option α × σ) : ℕ → ℕ → σ → Option α × σ
  | 0, _, s => (none, s)
  | count + 1, i, s =>
    match step i s with
    | (some a, s) => (some a, s)
    | (none, s) => forLoop step count (i + 1) s

/-- `P` of the state if nothing was returned, `Q` of what was returned and the state otherwise. -/
def Post (P : σ → Prop) (Q : α → σ → Prop) : Option α × σ → Prop
  | (none, s) => P s
  | (some a, s) => Q a s

lemma Post.mono {P P' : σ → Prop} {Q Q' : α → σ → Prop} {r : Option α × σ} (h : Post P Q r)
    (hP : ∀ s, P s → P' s) (hQ : ∀ a s, Q a s → Q' a s) : Post P' Q' r := by
  obtain ⟨_ | a, s⟩ := r
  · exact hP s h
  · exact hQ a s h

/-- **The invariant rule**: what each round keeps, the loop keeps, up to its end or its early return. -/
theorem forLoop_rule {f : ℕ → σ → Option α × σ} (P : ℕ → σ → Prop) (Q : α → σ → Prop) {a : ℕ} (count : ℕ)
    (hstep : ∀ i s, a ≤ i → i < a + count → P i s → Post (P (i + 1)) Q (f i s)) {s : σ}
    (h : P a s) : Post (P (a + count)) Q (forLoop f count a s) := by
  induction count generalizing a s with
  | zero => exact h
  | succ count ih =>
    have hround := hstep a s le_rfl (by omega) h
    rw [forLoop]
    match hres : f a s with
    | (some r, s') =>
      rw [hres] at hround
      exact hround
    | (none, s') =>
      rw [hres] at hround
      have hrest := ih (fun i s hi hlt => hstep i s (by omega) (by omega)) hround
      rwa [Nat.add_right_comm] at hrest

/-- Two loops, one in the other, with the rounds of both counted together. -/
theorem forLoop_nested_rule {f : ℕ → ℕ → σ → Option α × σ} (P : ℕ → σ → Prop) (Q : α → σ → Prop) (outer inner : ℕ)
    (hstep : ∀ i j s, i < outer → j < inner → P (inner * i + j) s →
      Post (P (inner * i + j + 1)) Q (f i j s)) {s : σ} (h : P 0 s) :
    Post (P (inner * outer)) Q (forLoop (fun i s => forLoop (f i) inner 0 s) outer 0 s) := by
  have hrule := forLoop_rule (a := 0) (f := fun i s => forLoop (f i) inner 0 s)
    (fun i => P (inner * i)) Q outer (fun i s _ hi hP => ?_) (s := s) h
  · rwa [Nat.zero_add] at hrule
  have hrow := forLoop_rule (a := 0) (f := f i) (fun j => P (inner * i + j)) Q inner
    (fun j s _ hj hP => hstep i j s (by omega) (by omega) hP) (s := s) hP
  rwa [Nat.zero_add, ← Nat.mul_succ] at hrow

end ForLoop
