import Havenask.Posting.DynamicSearchTreeNode

/-!
# The internal nodes of the dynamic search tree

Every leaf has a range: docids above its lower bound and not above its upper bound are searched for in
it. The bounds are fixed when the leaf is made, and an internal node spans leaves whose ranges lie one
behind the other (`Spans`, `Tiles`).

A search and an insertion take the same way down (`Spans.descend`). When the leaf there is split, the
nodes on the way are rebuilt around the two new leaves: the key between them lies strictly inside the
range of the old leaf, so that it is never a separator already, and `CopyAndInsert` never leaves the new
children out.
-/

namespace Havenask.DynamicSearchTree

open Separated List

section
variable (maxSlot : ℕ) (lo hi : ℕ → ℤ)

/-- The node has the leaves, in order, and covers the range between the bounds. -/
def Spans : (d : ℕ) → SearchNode d → List ℕ → ℤ → ℤ → Prop
  | 0, addr, leaves, l, h => leaves = [addr] ∧ lo addr = l ∧ hi addr = h ∧ l < h
  | d + 1, node, leaves, l, h =>
    Parts (Spans d) node.1 node.2 leaves l h ∧ node.1.length ≤ maxSlot

/-- What an insertion makes of a node has the leaves and covers the range. -/
def GrownSpans {d : ℕ} (grown : Grown (SearchNode d)) (leaves : List ℕ) (l h : ℤ) : Prop :=
  match grown with
  | .inPlace node => Spans maxSlot lo hi d node leaves l h
  | .replaced node => Spans maxSlot lo hi d node leaves l h
  | .two node1 key node2 => ∃ leaves₁ leaves₂, leaves = leaves₁ ++ leaves₂ ∧
      Spans maxSlot lo hi d node1 leaves₁ l key ∧ Spans maxSlot lo hi d node2 leaves₂ key h

/-- The ranges of the leaves lie one behind the other and fill the range between the bounds. -/
def Tiles : List ℕ → ℤ → ℤ → Prop
  | [], l, h => l = h
  | a :: leaves, l, h => lo a = l ∧ lo a < hi a ∧ Tiles leaves (hi a) h

end

variable {maxSlot : ℕ} {lo hi lo' hi' : ℕ → ℤ} {d : ℕ} {node : SearchNode d} {leaves : List ℕ}
  {l m h q : ℤ}

/-! ## Ranges -/

lemma Tiles.append {leaves₁ leaves₂ : List ℕ} (hleft : Tiles lo hi leaves₁ l m)
    (hright : Tiles lo hi leaves₂ m h) : Tiles lo hi (leaves₁ ++ leaves₂) l h := by
  induction leaves₁ generalizing l with
  | nil =>
    obtain rfl : l = m := hleft
    exact hright
  | cons a leaves₁ ih => exact ⟨hleft.1, hleft.2.1, ih hleft.2.2⟩

section
variable (htiles : Tiles lo hi leaves l h)
include htiles

lemma Tiles.le : l ≤ h := by
  induction leaves generalizing l with
  | nil => exact htiles.le
  | cons a leaves ih =>
    have hlo := htiles.1
    have hlt := htiles.2.1
    have hle := ih htiles.2.2
    omega

omit htiles in
lemma Tiles.of_append {leaves₁ leaves₂ : List ℕ} (htiles : Tiles lo hi (leaves₁ ++ leaves₂) l h) :
    ∃ m, Tiles lo hi leaves₁ l m ∧ Tiles lo hi leaves₂ m h := by
  induction leaves₁ generalizing l with
  | nil => exact ⟨l, rfl, htiles⟩
  | cons a leaves₁ ih =>
    obtain ⟨m, hleft, hright⟩ := ih htiles.2.2
    exact ⟨m, ⟨htiles.1, htiles.2.1, hleft⟩, hright⟩

lemma Tiles.mem_range {a : ℕ} (ha : a ∈ leaves) :
    l ≤ lo a ∧ lo a < hi a ∧ hi a ≤ h := by
  induction leaves generalizing l with
  | nil => cases ha
  | cons b leaves ih =>
    obtain ⟨hlo, hlt, hrest⟩ := htiles
    rcases mem_cons.mp ha with rfl | ha
    · exact ⟨hlo.ge, hlt, hrest.le⟩
    · have hrange := ih hrest ha
      exact ⟨by omega, hrange.2⟩

omit htiles in
lemma Tiles.sides {front back : List ℕ} {a : ℕ} (htiles : Tiles lo hi (front ++ a :: back) l h) :
    (∀ b ∈ front, hi b ≤ lo a) ∧ ∀ b ∈ back, hi a ≤ lo b := by
  obtain ⟨m, hfront, hlo, -, hback⟩ := htiles.of_append
  constructor
  · intro b hb
    have hrange := hfront.mem_range hb
    omega
  · intro b hb
    exact (hback.mem_range hb).1

lemma Tiles.nodup : leaves.Nodup := by
  induction leaves generalizing l with
  | nil => exact nodup_nil
  | cons a leaves ih =>
    refine nodup_cons.mpr ⟨fun ha => ?_, ih htiles.2.2⟩
    have hrange := htiles.2.2.mem_range ha
    omega

omit htiles in
lemma Tiles.not_mem {front back : List ℕ} {a : ℕ} (htiles : Tiles lo hi (front ++ a :: back) l h) :
    a ∉ front ∧ a ∉ back := by
  obtain ⟨-, hback, hdisjoint⟩ := nodup_append.mp htiles.nodup
  exact ⟨fun ha => hdisjoint a ha a mem_cons_self rfl, (nodup_cons.mp hback).1⟩

lemma Tiles.congr (hlo : ∀ a ∈ leaves, lo' a = lo a)
    (hhi : ∀ a ∈ leaves, hi' a = hi a) : Tiles lo' hi' leaves l h := by
  induction leaves generalizing l with
  | nil => exact htiles
  | cons a leaves ih =>
    rw [forall_mem_cons] at hlo hhi
    refine ⟨hlo.1.trans htiles.1, ?_, ?_⟩
    · rw [hlo.1, hhi.1]
      exact htiles.2.1
    · rw [hhi.1]
      exact ih htiles.2.2 hlo.2 hhi.2

end

/-! ## Nodes -/

lemma Spans.lt (hspans : Spans maxSlot lo hi d node leaves l h) : l < h := by
  induction d generalizing leaves l h with
  | zero => exact hspans.2.2.2
  | succ d ih => exact hspans.1.lt fun _ _ _ _ => ih

lemma Spans.congr (hspans : Spans maxSlot lo hi d node leaves l h) (hlo : ∀ a ∈ leaves, lo' a = lo a)
    (hhi : ∀ a ∈ leaves, hi' a = hi a) : Spans maxSlot lo' hi' d node leaves l h := by
  induction d generalizing leaves l h with
  | zero =>
    obtain ⟨rfl, hlo', hhi', hlt⟩ := hspans
    exact ⟨rfl, (hlo node mem_cons_self).trans hlo', (hhi node mem_cons_self).trans hhi', hlt⟩
  | succ d ih =>
    refine ⟨hspans.1.imp fun c ls' l h hsub hc => ?_, hspans.2⟩
    exact ih hc (fun a ha => hlo a (hsub ha)) fun a ha => hhi a (hsub ha)

/-- An insertion through a node, when it splits no leaf and when it does. -/
def InsertsAt (maxSlot : ℕ) (lo hi : ℕ → ℤ) (node : SearchNode d) (front : List ℕ) (a : ℕ)
    (back : List ℕ) (l h q : ℤ) : Prop :=
  ∀ (heap heap' : LeafHeap) (key : KeyType), key.docId = q →
    (insertLeaf maxSlot heap a key = (heap', .inPlace a) →
      insertDescend maxSlot heap d node key = (heap', .inPlace node, false)) ∧
    ∀ n₁ k n₂, insertLeaf maxSlot heap a key = (heap', .two n₁ k n₂) →
      lo n₁ = lo a → hi n₁ = k → lo n₂ = k → hi n₂ = hi a → lo a < k → k < hi a →
      ∃ grown, insertDescend maxSlot heap d node key = (heap', grown, false) ∧
        GrownSpans maxSlot lo hi grown (front ++ n₁ :: n₂ :: back) l h

/-- What an inner node makes of what has become of the child on the way. -/
lemma grownSpans_child {mid : ℕ} (hmax : maxSlot = 2 * mid) (hmid : 0 < mid) {ks₁ ks₂ : List ℤ}
    {cs₁ cs₂ : List (SearchNode d)} {ls₁ ls₂ ls : List ℕ} {l' h' : ℤ} {c : SearchNode d}
    (hleft : Left (Spans maxSlot lo hi d) ks₁ cs₁ ls₁ l l') (hright : Right (Spans maxSlot lo hi d) ks₂ cs₂ ls₂ h' h)
    (hroom : (ks₁ ++ ks₂).length ≤ maxSlot) {key : KeyType} (hq : l' < key.docId) (hq' : key.docId ≤ h')
    {heap heap' : LeafHeap} {grown : Grown (SearchNode d)}
    (hchild : insertDescend maxSlot heap d c key = (heap', grown, false))
    (hgrown : GrownSpans maxSlot lo hi grown ls l' h') :
    ∃ grown', insertDescend maxSlot heap (d + 1) (ks₁ ++ ks₂, cs₁ ++ c :: cs₂) key =
        (heap', grown', false) ∧ GrownSpans maxSlot lo hi grown' (ls₁ ++ (ls ++ ls₂)) l h := by
  have hlt : ∀ (c : SearchNode d) ls l h, Spans maxSlot lo hi d c ls l h → l < h := fun _ _ _ _ => Spans.lt
  have hleftLe := (hleft.le hlt).2
  have hrightLe := (hright.le hlt).2
  have hslot : findChildSlot (ks₁ ++ ks₂) key.docId = cs₁.length := by
    rw [hleft.length_eq]
    refine findChildSlot_append (fun k hk => ?_) fun k hk => ?_
    · have := hleftLe k hk
      omega
    · have := hrightLe k hk
      omega
  have hget : (cs₁ ++ c :: cs₂)[cs₁.length]? = some c := by simp
  have hset : ∀ c', (cs₁ ++ c :: cs₂).set cs₁.length c' = cs₁ ++ c' :: cs₂ := by simp
  -- the child stays one node
  have hone : ∀ c', Spans maxSlot lo hi d c' ls l' h' →
      Spans maxSlot lo hi (d + 1) (ks₁ ++ ks₂, cs₁ ++ c' :: cs₂) (ls₁ ++ (ls ++ ls₂)) l h := by
    intro c' hc'
    exact ⟨hleft.join ((Parts.single hc').append hright), hroom⟩
  simp only [insertDescend, hslot, hget, hchild, hset]
  cases grown with
  | inPlace c' => exact ⟨_, rfl, hone c' hgrown⟩
  | replaced c' => exact ⟨_, rfl, hone c' hgrown⟩
  | two c₁ k c₂ =>
    obtain ⟨lsl, lsr, rfl, hc₁, hc₂⟩ := hgrown
    have hk₁ := hc₁.lt
    have hk₂ := hc₂.lt
    have hbelow : ∀ x ∈ ks₁, x < k := fun x hx => by
      have := hleftLe x hx
      omega
    have habove : ∀ x ∈ ks₂, k < x := fun x hx => by
      have := hrightLe x hx
      omega
    have hparts : Parts (Spans maxSlot lo hi d) (ks₁ ++ k :: ks₂) (cs₁ ++ c₁ :: c₂ :: cs₂)
        (ls₁ ++ (lsl ++ lsr ++ ls₂)) l h := by
      rw [append_assoc lsl]
      exact hleft.join ((Parts.single hc₁).append ((Parts.single hc₂).append hright).right)
    by_cases hfull : (ks₁ ++ ks₂).length < maxSlot
    · simp only [if_pos hfull, copyAndInsert_eq c c₁ c₂ hbelow habove hleft.length_eq hright.length_eq hfull]
      refine ⟨_, rfl, hparts, ?_⟩
      simp only [length_append, length_cons] at hfull ⊢
      omega
    obtain ⟨front, k', back, hkeys, hlength, hsplit⟩ := splitNode_eq c c₁ c₂ hmax hmid hbelow
      habove hleft.length_eq hright.length_eq (by omega)
    have hlength' : (ks₁ ++ k :: ks₂).length = (front ++ k' :: back).length := by rw [hkeys]
    simp only [if_neg hfull, hsplit]
    rw [hkeys] at hparts
    obtain ⟨leaves₁, leaves₂, hleaves, hfront, hback⟩ := hparts.cut
    rw [hlength] at hfront hback
    simp only [length_append, length_cons] at hlength' hroom
    refine ⟨_, rfl, leaves₁, leaves₂, hleaves, ⟨hfront, ?_⟩, hback, ?_⟩
    · dsimp only
      omega
    · dsimp only
      omega

/-- The way down from a node to the leaf for a docid, for a search and for an insertion. -/
lemma Spans.descend {mid : ℕ} (hmax : maxSlot = 2 * mid) (hmid : 0 < mid)
    (hspans : Spans maxSlot lo hi d node leaves l h) (hl : l < q) (hh : q ≤ h) :
    ∃ front a back, leaves = front ++ a :: back ∧ lo a < q ∧ q ≤ hi a ∧ findLeaf d node q = some a ∧
      InsertsAt maxSlot lo hi node front a back l h q := by
  induction d generalizing leaves l h with
  | zero =>
    obtain ⟨rfl, rfl, rfl, hlt⟩ := hspans
    refine ⟨[], node, [], rfl, hl, hh, rfl, fun heap heap' key hkey => ⟨fun hinsert => ?_, ?_⟩⟩
    · simp only [insertDescend, hinsert]
      rfl
    intro n₁ k n₂ hinsert hlo₁ hhi₁ hlo₂ hhi₂ hk₁ hk₂
    refine ⟨.two n₁ k n₂, ?_, [n₁], [n₂], rfl, ?_, ?_⟩
    · simp only [insertDescend, hinsert]
      rfl
    · exact ⟨rfl, hlo₁, hhi₁, hk₁⟩
    · exact ⟨rfl, hlo₂, hhi₂, hk₂⟩
  | succ d ih =>
    obtain ⟨keys, children⟩ := node
    obtain ⟨hparts, hroom⟩ := hspans
    obtain ⟨ks₁, cs₁, ls₁, l', c, ls', h', ks₂, cs₂, ls₂, hkeys, hchildren, rfl, hleft, hc, hright, hlt,
      hle⟩ := hparts.locate hl hh
    subst hkeys hchildren
    obtain ⟨front, a, back, rfl, hlo, hhi, hfind, hinserts⟩ := ih hc hlt hle
    have hP : ∀ (c : SearchNode d) ls l h, Spans maxSlot lo hi d c ls l h → l < h := fun _ _ _ _ => Spans.lt
    have hslot : findChildSlot (ks₁ ++ ks₂) q = cs₁.length := by
      rw [hleft.length_eq]
      refine findChildSlot_append (fun k hk => ?_) fun k hk => ?_
      · exact ((hleft.le hP).2 k hk).trans_lt hlt
      · exact hle.trans ((hright.le hP).2 k hk)
    refine ⟨ls₁ ++ front, a, back ++ ls₂, by simp, hlo, hhi, ?_, ?_⟩
    · simp [findLeaf, hslot, hfind]
    intro heap heap' key hkey
    obtain ⟨hkeep, hsplit⟩ := hinserts heap heap' key hkey
    subst hkey
    refine ⟨fun hinsert => ?_, fun n₁ k n₂ hinsert hlo₁ hhi₁ hlo₂ hhi₂ hk₁ hk₂ => ?_⟩
    · have hget : (cs₁ ++ c :: cs₂)[cs₁.length]? = some c := by simp
      simp only [insertDescend, hslot, hget, hkeep hinsert]
      simp
    obtain ⟨grown, hchild, hgrown⟩ := hsplit n₁ k n₂ hinsert hlo₁ hhi₁ hlo₂ hhi₂ hk₁ hk₂
    obtain ⟨grown', heq, hgrown'⟩ := grownSpans_child hmax hmid hleft hright hroom hlt hle hchild hgrown
    refine ⟨grown', heq, ?_⟩
    simpa using hgrown'

end Havenask.DynamicSearchTree
