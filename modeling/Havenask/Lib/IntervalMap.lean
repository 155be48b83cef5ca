import Mathlib

/-!
# Lists of intervals as partial functions

A list of records, each covering a closed interval of naturals and carrying a value, stands for
the partial function that sends `h` to the value of the first record covering it.  `View` says
how to read the two ends and the value out of a record, so nothing here depends on what the
records are.

`Ordered` is the well-formedness such lists are meant to have: every interval is non-empty, and
each one ends before the next begins.  On ordered lists "the first record covering `h`" is "the
only record covering `h`" (`lookup_eq_some`), which is what pointwise arguments need.
-/

namespace IntervalMap

/-- How to read an interval and its value out of a record. -/
structure View (α β : Type*) where
  lo : α → ℕ
  hi : α → ℕ
  val : α → β

variable {α β : Type*} (s : View α β)

/-- The record `a` covers `h`. -/
def View.Has (a : α) (h : ℕ) : Prop := s.lo a ≤ h ∧ h ≤ s.hi a

instance (a : α) (h : ℕ) : Decidable (s.Has a h) := inferInstanceAs (Decidable (_ ∧ _))

/-- The value of the first record covering `h`. -/
def lookup (l : List α) (h : ℕ) : Option β := (l.find? fun a => decide (s.Has a h)).map s.val

/-- Some record covers `h`. -/
def Covers (l : List α) (h : ℕ) : Prop := ∃ a ∈ l, s.Has a h

/-- Non-empty intervals, each ending before the next begins. -/
def Ordered (l : List α) : Prop := (∀ a ∈ l, s.lo a ≤ s.hi a) ∧ l.Pairwise fun a b => s.hi a < s.lo b

@[simp] lemma lookup_nil (h : ℕ) : lookup s [] h = none := rfl

lemma lookup_cons (a : α) (l : List α) (h : ℕ) :
    lookup s (a :: l) h = if s.Has a h then some (s.val a) else lookup s l h := by
  by_cases hh : s.Has a h
  · simp [lookup, hh]
  · simp [lookup, hh]

lemma lookup_append (l₁ l₂ : List α) (h : ℕ) : lookup s (l₁ ++ l₂) h = (lookup s l₁ h).or (lookup s l₂ h) := by
  induction l₁ with
  | nil => simp
  | cons a l ih =>
    simp only [List.cons_append, lookup_cons, ih]
    split_ifs <;> simp

@[simp] lemma not_covers_nil (h : ℕ) : ¬ Covers s [] h := by simp [Covers]

lemma covers_cons (a : α) (l : List α) (h : ℕ) : Covers s (a :: l) h ↔ s.Has a h ∨ Covers s l h := by
  simp [Covers]

lemma lookup_isSome_iff (l : List α) (h : ℕ) : (lookup s l h).isSome ↔ Covers s l h := by
  induction l with
  | nil => simp
  | cons a l ih =>
    rw [lookup_cons, covers_cons]
    by_cases hh : s.Has a h
    · simp [hh]
    · simp [hh, ih]

lemma lookup_eq_none_iff (l : List α) (h : ℕ) : lookup s l h = none ↔ ¬ Covers s l h := by
  rw [← lookup_isSome_iff, Option.not_isSome_iff_eq_none]

variable {l : List α} {a : α}

/-- Nothing covers a point to the left of every interval. -/
lemma lookup_eq_none_of_lt {h : ℕ} (hl : ∀ a ∈ l, h < s.lo a) : lookup s l h = none := by
  rw [lookup_eq_none_iff]
  rintro ⟨a, ha, hhas⟩
  have := hl a ha
  have := hhas.1
  omega

variable {s}

@[simp] lemma ordered_nil : Ordered s [] := by simp [Ordered]

lemma ordered_cons : Ordered s (a :: l) ↔ s.lo a ≤ s.hi a ∧ (∀ b ∈ l, s.hi a < s.lo b) ∧ Ordered s l := by
  simp only [Ordered, List.forall_mem_cons, List.pairwise_cons]
  tauto

lemma ordered_append_singleton : Ordered s (l ++ [a]) ↔ Ordered s l ∧ s.lo a ≤ s.hi a ∧ ∀ b ∈ l, s.hi b < s.lo a := by
  simp only [Ordered, List.mem_append, List.mem_singleton, List.pairwise_append,
    List.pairwise_singleton, or_imp, forall_and, forall_eq, true_and]
  tauto

lemma Ordered.tail (hl : Ordered s (a :: l)) : Ordered s l := (ordered_cons.mp hl).2.2

lemma Ordered.lo_le_hi (hl : Ordered s l) (ha : a ∈ l) : s.lo a ≤ s.hi a := hl.1 a ha

/-- On an ordered list the record covering a point is the one `lookup` finds. -/
lemma lookup_eq_some (hl : Ordered s l) (ha : a ∈ l) {h : ℕ} (hh : s.Has a h) : lookup s l h = some (s.val a) := by
  induction l with
  | nil => simp at ha
  | cons b l ih =>
    obtain ⟨_, hlt, htail⟩ := ordered_cons.mp hl
    rw [lookup_cons]
    rcases List.mem_cons.mp ha with rfl | ha
    · rw [if_pos hh]
    have hb : ¬ s.Has b h := by
      intro hb
      have h₁ := hlt a ha
      have h₂ := hh.1
      have h₃ := hb.2
      omega
    rw [if_neg hb, ih htail ha]

/-- Reading `lookup` back: the value found is the value of a record covering the point. -/
lemma exists_mem_of_lookup {h : ℕ} {v : β} (hv : lookup s l h = some v) : ∃ a ∈ l, s.Has a h ∧ s.val a = v := by
  simp only [lookup, Option.map_eq_some_iff] at hv
  obtain ⟨a, ha, hav⟩ := hv
  exact ⟨a, List.mem_of_find?_eq_some ha, by simpa using List.find?_some ha, hav⟩

/-! ## Cutting a list at a point

Sweeping over several lists at once peels them from the left: what remains of a list is the part
from some point `c` on.  `CutAt c l l'` says that `l'` is that part of `l`.
-/

/-- `l'` is `l` from the point `c` on. -/
structure CutAt (s : View α β) (c : ℕ) (l l' : List α) : Prop where
  ordered : Ordered s l'
  le_lo : ∀ a ∈ l', c ≤ s.lo a
  lookup_eq : ∀ h, c ≤ h → lookup s l' h = lookup s l h

/-- Nothing is cut off when the whole list lies to the right of the point. -/
lemma CutAt.refl {c : ℕ} (hl : Ordered s l) (hc : ∀ a ∈ l, c ≤ s.lo a) : CutAt s c l l := ⟨hl, hc, fun _ _ => rfl⟩

/-- Cutting just behind the first interval drops it. -/
lemma CutAt.tail (hl : Ordered s (a :: l)) : CutAt s (s.hi a + 1) (a :: l) l := by
  obtain ⟨_, hlt, htail⟩ := ordered_cons.mp hl
  refine ⟨htail, fun b hb => hlt b hb, fun h hh => ?_⟩
  rw [lookup_cons, if_neg]
  rintro ⟨_, hle⟩
  omega

/-- Cutting inside the first interval moves its left end. -/
lemma CutAt.head {a a' : α} {c : ℕ} (hl : Ordered s (a :: l)) (hlo : s.lo a' = c)
    (hhi : s.hi a' = s.hi a) (hval : s.val a' = s.val a) (hac : s.lo a ≤ c) (hca : c ≤ s.hi a) :
    CutAt s c (a :: l) (a' :: l) := by
  obtain ⟨_, hlt, htail⟩ := ordered_cons.mp hl
  refine ⟨ordered_cons.mpr ⟨by omega, fun b hb => by rw [hhi]; exact hlt b hb, htail⟩, ?_, ?_⟩
  · intro b hb
    rcases List.mem_cons.mp hb with rfl | hb
    · exact hlo.ge
    · have := hlt b hb
      omega
  intro h hh
  have hiff : s.Has a' h ↔ s.Has a h := by
    simp only [View.Has, hlo, hhi]
    omega
  simp only [lookup_cons, hiff, hval]

lemma CutAt.lookup_eq_none {c : ℕ} {l l' : List α} (hcut : CutAt s c l l') {h : ℕ} (hh : h < c) :
    lookup s l' h = none :=
  lookup_eq_none_of_lt s fun a ha => lt_of_lt_of_le hh (hcut.le_lo a ha)

/-! ## Canonical lists

The same partial function has many lists, since an interval can be split in two.  Where no two neighbours touch
with equal values there is one only (`Ordered.eq_of_lookup_eq`).
-/

/-- Two neighbours that could be one interval. -/
def View.Touch (a b : α) : Prop := s.val a = s.val b ∧ s.hi a + 1 = s.lo b

/-- The first interval of a list starts where the function does. -/
lemma Ordered.lo_le_of_lookup {h : ℕ} (hl : Ordered s (a :: l)) (hh : (lookup s (a :: l) h).isSome) : s.lo a ≤ h := by
  obtain ⟨b, hb, hlo, -⟩ := (lookup_isSome_iff s _ _).mp hh
  rcases List.mem_cons.mp hb with rfl | hb
  · exact hlo
  · have := (ordered_cons.mp hl).2.1 b hb
    have := (ordered_cons.mp hl).1
    omega

/-- Behind the first interval the value changes, or there is none. -/
lemma Ordered.lookup_hi_ne (hl : Ordered s (a :: l)) (hchain : (a :: l).IsChain fun a b => ¬ s.Touch a b) :
    lookup s (a :: l) (s.hi a + 1) ≠ some (s.val a) := by
  rw [(CutAt.tail hl).lookup_eq _ le_rfl |>.symm]
  cases l with
  | nil => simp
  | cons b l =>
    intro hsome
    have hle := hl.tail.lo_le_of_lookup (by rw [hsome]; rfl)
    have hlt := (ordered_cons.mp hl).2.1 b List.mem_cons_self
    have hlo : s.hi a + 1 = s.lo b := by omega
    rw [lookup_eq_some hl.tail List.mem_cons_self ⟨hlo.ge, hlo ▸ hl.tail.lo_le_hi List.mem_cons_self⟩] at hsome
    exact (List.isChain_cons_cons.mp hchain).1 ⟨(Option.some.inj hsome).symm, hlo⟩

/-- The first intervals of two lists for one function are the same. -/
lemma Ordered.head_eq {a' : α} {l' : List α} (hl : Ordered s (a :: l)) (hl' : Ordered s (a' :: l'))
    (hchain' : (a' :: l').IsChain fun a b => ¬ s.Touch a b)
    (hlookup : ∀ h, lookup s (a :: l) h = lookup s (a' :: l') h) :
    s.lo a = s.lo a' ∧ s.val a = s.val a' ∧ s.hi a ≤ s.hi a' := by
  have hself := lookup_eq_some hl List.mem_cons_self ⟨le_rfl, hl.lo_le_hi List.mem_cons_self⟩
  have hself' := lookup_eq_some hl' List.mem_cons_self ⟨le_rfl, hl'.lo_le_hi List.mem_cons_self⟩
  have hlo : s.lo a = s.lo a' := le_antisymm
    (hl.lo_le_of_lookup (by rw [hlookup, hself']; rfl)) (hl'.lo_le_of_lookup (by rw [← hlookup, hself]; rfl))
  have hval : s.val a = s.val a' := by
    rw [hlookup, hlo, hself'] at hself
    exact (Option.some.inj hself).symm
  refine ⟨hlo, hval, ?_⟩
  by_contra hlt
  refine hl'.lookup_hi_ne hchain' ?_
  rw [← hlookup, ← hval]
  have := hl'.lo_le_hi List.mem_cons_self
  exact lookup_eq_some hl List.mem_cons_self ⟨by omega, by omega⟩

/-- A list without touching neighbours is determined by its function.  By induction on both lists: their first
intervals agree, and the rest is the function cut behind these. -/
lemma Ordered.eq_of_lookup_eq (hext : ∀ a b, s.lo a = s.lo b → s.hi a = s.hi b → s.val a = s.val b → a = b) :
    ∀ {l l' : List α}, Ordered s l → Ordered s l' → l.IsChain (fun a b => ¬ s.Touch a b) →
    l'.IsChain (fun a b => ¬ s.Touch a b) → (∀ h, lookup s l h = lookup s l' h) → l = l'
  | [], [], _, _, _, _, _ => rfl
  | [], a' :: l', _, hl', _, _, hlookup => by
    have := lookup_eq_some hl' List.mem_cons_self ⟨le_rfl, hl'.lo_le_hi List.mem_cons_self⟩
    simp [← hlookup] at this
  | a :: l, [], hl, _, _, _, hlookup => by
    have := lookup_eq_some hl List.mem_cons_self ⟨le_rfl, hl.lo_le_hi List.mem_cons_self⟩
    simp [hlookup] at this
  | a :: l, a' :: l', hl, hl', hchain, hchain', hlookup => by
    obtain ⟨hlo, hval, hhi⟩ := hl.head_eq hl' hchain' hlookup
    obtain ⟨-, -, hhi'⟩ := hl'.head_eq hl hchain fun h => (hlookup h).symm
    obtain rfl := hext a a' hlo (le_antisymm hhi hhi') hval
    rw [hl.tail.eq_of_lookup_eq hext hl'.tail hchain.tail hchain'.tail fun h => ?_]
    rcases Nat.lt_or_ge h (s.hi a + 1) with hlt | hge
    · have hnone := (CutAt.tail hl).lookup_eq_none hlt
      rw [hnone, (CutAt.tail hl').lookup_eq_none hlt]
    · rw [(CutAt.tail hl).lookup_eq h hge, (CutAt.tail hl').lookup_eq h hge, hlookup]

end IntervalMap
