import Mathlib.Data.List.Basic
import Mathlib.Order.Lattice

/-!
# Parts with separators between them

A node of a search tree has parts and, between each two neighbours, a separator. `P c ls l h` says that
a part `c` covers the items `ls` and lies between the bounds `l` and `h`; the separators are the bounds
at which neighbours meet.

* **`Parts`**: the parts of a whole node. **`Left`** and **`Right`** are what is left and right of one
  of its parts.
* **`Parts.locate`**: the part that a value between the bounds belongs to. A value that is a separator
  belongs to the part on its left.
* **`Left.join`** and **`Parts.append`** put nodes together, **`Parts.cut`** takes one apart.
-/

namespace Separated

open List

variable {ν ι β : Type*} (P : ν → List ι → β → β → Prop)

/-- Parts that are each followed by a separator. -/
inductive Left : List β → List ν → List ι → β → β → Prop
  | nil (l : β) : Left [] [] [] l l
  | cons {c ls l k ks cs rest h} : P c ls l k → Left ks cs rest k h → Left (k :: ks) (c :: cs) (ls ++ rest) l h

/-- Parts that each follow a separator. -/
inductive Right : List β → List ν → List ι → β → β → Prop
  | nil (h : β) : Right [] [] [] h h
  | cons {c ls k m ks cs rest h} : P c ls k m → Right ks cs rest m h → Right (k :: ks) (c :: cs) (ls ++ rest) k h

/-- The parts of a node, with one separator less. -/
def Parts (ks : List β) (cs : List ν) (ls : List ι) (l h : β) : Prop :=
  ∃ c cs' front rest m, cs = c :: cs' ∧ ls = front ++ rest ∧ P c front l m ∧ Right P ks cs' rest m h

variable {P} {ks ks₁ ks₂ : List β} {cs cs₁ cs₂ : List ν} {ls ls₁ ls₂ : List ι} {l m h k q : β}

lemma Parts.single {c : ν} (hc : P c ls l h) : Parts P [] [c] ls l h :=
  ⟨c, [], ls, [], h, rfl, (append_nil ls).symm, hc, .nil h⟩

lemma Right.append (hleft : Right P ks₁ cs₁ ls₁ l m) (hright : Right P ks₂ cs₂ ls₂ m h) :
    Right P (ks₁ ++ ks₂) (cs₁ ++ cs₂) (ls₁ ++ ls₂) l h := by
  induction hleft with
  | nil => exact hright
  | cons hc _ ih =>
    rw [append_assoc]
    exact .cons hc (ih hright)

lemma Parts.append (hleft : Parts P ks₁ cs₁ ls₁ l m) (hright : Right P ks₂ cs₂ ls₂ m h) :
    Parts P (ks₁ ++ ks₂) (cs₁ ++ cs₂) (ls₁ ++ ls₂) l h := by
  obtain ⟨c, cs', front, rest, m', rfl, rfl, hc, hrest⟩ := hleft
  exact ⟨c, cs' ++ cs₂, front, rest ++ ls₂, m', rfl, append_assoc .., hc, hrest.append hright⟩

lemma Parts.right (hparts : Parts P ks cs ls k h) : Right P (k :: ks) cs ls k h := by
  obtain ⟨c, cs', front, rest, m', rfl, rfl, hc, hrest⟩ := hparts
  exact .cons hc hrest

lemma Left.join (hleft : Left P ks₁ cs₁ ls₁ l m) (hparts : Parts P ks₂ cs₂ ls₂ m h) :
    Parts P (ks₁ ++ ks₂) (cs₁ ++ cs₂) (ls₁ ++ ls₂) l h := by
  induction hleft with
  | nil => exact hparts
  | cons hc _ ih =>
    rw [append_assoc]
    exact (Parts.single hc).append (ih hparts).right

lemma Left.length_eq (hleft : Left P ks cs ls l h) : cs.length = ks.length := by
  induction hleft with
  | nil => rfl
  | cons _ _ ih => simp [ih]

lemma Right.length_eq (hright : Right P ks cs ls l h) : cs.length = ks.length := by
  induction hright with
  | nil => rfl
  | cons _ _ ih => simp [ih]

/-- A node is two nodes on the sides of any of its separators. -/
lemma Parts.cut (hparts : Parts P (ks₁ ++ k :: ks₂) cs ls l h) :
    ∃ ls₁ ls₂, ls = ls₁ ++ ls₂ ∧ Parts P ks₁ (cs.take (ks₁.length + 1)) ls₁ l k ∧
      Parts P ks₂ (cs.drop (ks₁.length + 1)) ls₂ k h := by
  induction ks₁ generalizing cs ls l with
  | nil =>
    obtain ⟨c, cs', front, rest, m', rfl, rfl, hc, hrest⟩ := hparts
    cases hrest with
    | @cons c' ls' _ m ks cs rest' _ hc' hrest' =>
      exact ⟨front, _, rfl, Parts.single hc, c', cs, ls', rest', m, rfl, rfl, hc', hrest'⟩
  | cons k' ks₁ ih =>
    obtain ⟨c, cs', front, rest, m', rfl, rfl, hc, hrest⟩ := hparts
    cases hrest with
    | @cons c' ls' _ m ks cs rest' _ hc' hrest' =>
      obtain ⟨ls₁, ls₂, heq, hleft, hright⟩ := ih ⟨c', cs, ls', rest', m, rfl, rfl, hc', hrest'⟩
      refine ⟨front ++ ls₁, ls₂, ?_, ?_, ?_⟩
      · rw [heq, append_assoc]
      · exact (Parts.single hc).append hleft.right
      · exact hright

variable {Q : ν → List ι → β → β → Prop}

lemma Right.imp (hright : Right P ks cs ls l h)
    (hPQ : ∀ c ls' l h, ls' ⊆ ls → P c ls' l h → Q c ls' l h) : Right Q ks cs ls l h := by
  induction hright with
  | nil => exact .nil _
  | cons hc _ ih =>
    refine .cons (hPQ _ _ _ _ (subset_append_left _ _) hc) (ih ?_)
    exact fun c ls' l h hsub => hPQ c ls' l h (Subset.trans hsub (subset_append_right _ _))

lemma Parts.imp (hparts : Parts P ks cs ls l h)
    (hPQ : ∀ c ls' l h, ls' ⊆ ls → P c ls' l h → Q c ls' l h) : Parts Q ks cs ls l h := by
  obtain ⟨c, cs', front, rest, m', rfl, rfl, hc, hrest⟩ := hparts
  refine ⟨c, cs', front, rest, m', rfl, rfl, hPQ _ _ _ _ (subset_append_left _ _) hc, ?_⟩
  exact hrest.imp fun c ls' l h hsub => hPQ c ls' l h (Subset.trans hsub (subset_append_right _ _))

section
variable [LinearOrder β]

/-- The part that a value belongs to: the separators on its left are below the value, those on its
right are not. -/
lemma Parts.locate (hparts : Parts P ks cs ls l h) (hl : l < q) (hh : q ≤ h) :
    ∃ ks₁ cs₁ ls₁ l' c ls' h' ks₂ cs₂ ls₂, ks = ks₁ ++ ks₂ ∧ cs = cs₁ ++ c :: cs₂ ∧
      ls = ls₁ ++ (ls' ++ ls₂) ∧ Left P ks₁ cs₁ ls₁ l l' ∧ P c ls' l' h' ∧
      Right P ks₂ cs₂ ls₂ h' h ∧ l' < q ∧ q ≤ h' := by
  induction ks generalizing cs ls l with
  | nil =>
    obtain ⟨c, cs', front, rest, m', rfl, rfl, hc, hrest⟩ := hparts
    cases hrest with
    | nil =>
      exact ⟨[], [], [], l, c, front, h, [], [], [], rfl, rfl, by simp, .nil l, hc, .nil h, hl, hh⟩
  | cons k ks ih =>
    obtain ⟨c, cs', front, rest, m', rfl, rfl, hc, hrest⟩ := hparts
    cases hrest with
    | @cons c' ls' _ m _ cs rest' _ hc' hrest' =>
      by_cases hq : q ≤ k
      · exact ⟨[], [], [], l, c, front, k, k :: ks, c' :: cs, ls' ++ rest', rfl, rfl, rfl, .nil l, hc,
          .cons hc' hrest', hl, hq⟩
      obtain ⟨ks₁, cs₁, ls₁, l', c₀, ls₀, h', ks₂, cs₂, ls₂, rfl, hcs, hls, hleft, hc₀, hright, hlt,
        hle⟩ := ih ⟨c', cs, ls', rest', m, rfl, rfl, hc', hrest'⟩ (not_le.mp hq)
      refine ⟨k :: ks₁, c :: cs₁, front ++ ls₁, l', c₀, ls₀, h', ks₂, cs₂, ls₂, rfl, ?_, ?_,
        .cons hc hleft, hc₀, hright, hlt, hle⟩
      · rw [hcs, cons_append]
      · rw [hls, append_assoc]

variable (hP : ∀ c ls l h, P c ls l h → l < h)
include hP

lemma Left.le (hleft : Left P ks cs ls l h) : l ≤ h ∧ ∀ k ∈ ks, k ≤ h := by
  induction hleft with
  | nil => simp
  | cons hc _ ih =>
    have hlt := hP _ _ _ _ hc
    exact ⟨hlt.le.trans ih.1, forall_mem_cons.mpr ⟨ih.1, ih.2⟩⟩

lemma Right.le (hright : Right P ks cs ls l h) : l ≤ h ∧ ∀ k ∈ ks, l ≤ k := by
  induction hright with
  | nil => simp
  | cons hc _ ih =>
    have hlt := hP _ _ _ _ hc
    refine ⟨hlt.le.trans ih.1, forall_mem_cons.mpr ⟨le_rfl, fun k hk => ?_⟩⟩
    exact hlt.le.trans (ih.2 k hk)

lemma Parts.lt (hparts : Parts P ks cs ls l h) : l < h := by
  obtain ⟨c, cs', front, rest, m', rfl, rfl, hc, hrest⟩ := hparts
  exact (hP _ _ _ _ hc).trans_le (hrest.le hP).1

end

end Separated
