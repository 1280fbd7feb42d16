import Mathlib.Data.List.Chain
import Mathlib.Data.List.Nodup

/-!
# Doubly linked chains

Nodes that point to each other in both directions, given by two partial functions `next` and `prev`
on any type of addresses.

* `Chain` — a list of nodes is linked in both directions, without repetitions, and ends at both
  sides.
* `Chain.follow`, `Chain.follow_prev` — following the links from one end reads the whole chain, and
  from the other its reverse.
* `Chain.relink` — what lies between two nodes is replaced; `Chain.insert` and `Chain.remove` are
  the two cases with one node.  The rules ask for what the new links are and that all other links are
  as before, so that any way of writing them will do.
-/

namespace LinkedChain

variable {α : Type*} {next prev next' prev' : α → Option α} {l m w u v : List α} {a b p q x : α}

/-- Neighbours in the list point to each other. -/
def Linked (next prev : α → Option α) (l : List α) : Prop :=
  l.IsChain fun x y => next x = some y ∧ prev y = some x

/-- The nodes of the list are the nodes of a chain, from one end to the other. -/
structure Chain (next prev : α → Option α) (l : List α) : Prop where
  linked : Linked next prev l
  nodup : l.Nodup
  first : ∀ a ∈ l.head?, prev a = none
  last : ∀ b ∈ l.getLast?, next b = none

/-- The node that is `n` links on. -/
def follow (link : α → Option α) : ℕ → α → Option α
  | 0, a => some a
  | n + 1, a => (link a).bind (follow link n)

/-! ## Reading -/

theorem linked_cons_cons : Linked next prev (a :: b :: l) ↔
    (next a = some b ∧ prev b = some a) ∧ Linked next prev (b :: l) := List.isChain_cons_cons

theorem Linked.tail (h : Linked next prev (a :: l)) : Linked next prev l := List.IsChain.tail h

/-- The first node points to the first of the others. -/
theorem Linked.next_eq (h : Linked next prev (a :: (v ++ [b]))) : next a = (v ++ [b]).head? := by
  cases v with
  | nil => exact (linked_cons_cons.1 h).1.1
  | cons c v => exact (linked_cons_cons.1 h).1.1

/-- The list is linked if it is up to one of its nodes and from this node on. -/
theorem linked_split : Linked next prev (u ++ a :: v) ↔
    Linked next prev (u ++ [a]) ∧ Linked next prev (a :: v) := List.isChain_split

/-- The links at a place in the list. -/
theorem Linked.links (h : Linked next prev (u ++ p :: q :: v)) :
    next p = some q ∧ prev q = some p :=
  (linked_cons_cons.1 (linked_split.1 h).2).1

/-- Turned around, a chain is a chain of the links the other way. -/
theorem Chain.reverse (h : Chain next prev l) : Chain prev next l.reverse where
  linked := by
    unfold Linked
    rw [List.isChain_reverse]
    exact h.linked.imp fun _ _ hab => hab.symm
  nodup := List.nodup_reverse.2 h.nodup
  first := by
    rw [List.head?_reverse]
    exact h.last
  last := by
    rw [List.getLast?_reverse]
    exact h.first

/-- Following the links reads the list, and comes to its end. -/
theorem Linked.follow (h : Linked next prev (a :: l))
    (hlast : ∀ b ∈ (a :: l).getLast?, next b = none) (n : ℕ) : follow next n a = (a :: l)[n]? := by
  induction l generalizing a n with
  | nil =>
    cases n with
    | zero => rfl
    | succ n =>
      have hend : next a = none := hlast a rfl
      rw [LinkedChain.follow, hend]
      rfl
  | cons b l ih =>
    cases n with
    | zero => rfl
    | succ n =>
      rw [LinkedChain.follow, (linked_cons_cons.1 h).1.1, Option.bind_some, List.getElem?_cons_succ]
      refine ih h.tail ?_ n
      intro c hc
      refine hlast c ?_
      rw [List.getLast?_cons_cons]
      exact hc

/-- **From its first node**, a chain is read by following `next`. -/
theorem Chain.follow (h : Chain next prev (a :: l)) (n : ℕ) : follow next n a = (a :: l)[n]? :=
  h.linked.follow h.last n

/-- **From its last node**, the reverse of the chain is read by following `prev`. -/
theorem Chain.follow_prev (h : Chain next prev (l ++ [b])) (n : ℕ) :
    LinkedChain.follow prev n b = (l ++ [b]).reverse[n]? := by
  have hrev := h.reverse
  rw [List.reverse_append, List.reverse_singleton, List.singleton_append] at hrev ⊢
  exact hrev.follow n

/-! ## Other links do not matter -/

/-- A list stays linked if the links between its nodes stay what they are. -/
theorem Linked.congr (h : Linked next prev l) (hnext : ∀ x ∈ l.dropLast, next' x = next x)
    (hprev : ∀ y ∈ l.tail, prev' y = prev y) : Linked next' prev' l := by
  induction l with
  | nil => exact List.isChain_nil
  | cons a l ih =>
    cases l with
    | nil => exact List.isChain_singleton a
    | cons b l =>
      obtain ⟨⟨hab, hba⟩, hl⟩ := linked_cons_cons.1 h
      refine linked_cons_cons.2 ⟨⟨?_, ?_⟩, ih hl ?_ ?_⟩
      · rw [hnext a (by simp), hab]
      · rw [hprev b (by simp), hba]
      · intro x hx
        exact hnext x (by simp [hx])
      · intro y hy
        exact hprev y (List.mem_cons_of_mem b hy)

/-- A chain is left alone by what happens to the links of other nodes. -/
theorem Chain.congr (h : Chain next prev l) (hnext : ∀ x ∈ l, next' x = next x)
    (hprev : ∀ y ∈ l, prev' y = prev y) : Chain next' prev' l where
  linked := h.linked.congr (fun x hx => hnext x ((List.dropLast_sublist l).subset hx))
    (fun y hy => hprev y (List.mem_of_mem_tail hy))
  nodup := h.nodup
  first := fun a ha => (hprev a (List.mem_of_mem_head? ha)).trans (h.first a ha)
  last := fun b hb => (hnext b (List.mem_of_mem_getLast? hb)).trans (h.last b hb)

/-- **What lies between two nodes is replaced.**  The links outside stay what they are. -/
theorem Chain.relink (h : Chain next prev (u ++ p :: (m ++ q :: v)))
    (hmid : Linked next' prev' (p :: (w ++ [q]))) (hnd : (u ++ p :: (w ++ q :: v)).Nodup)
    (hnext : ∀ y ∈ u ++ q :: v, next' y = next y) (hprev : ∀ y ∈ u ++ p :: v, prev' y = prev y) :
    Chain next' prev' (u ++ p :: (w ++ q :: v)) := by
  obtain ⟨hleft, hrest⟩ := linked_split.1 h.linked
  rw [← List.cons_append, linked_split] at hrest
  constructor
  case linked =>
    have hjoin : Linked next' prev' (u ++ [p]) → Linked next' prev' (q :: v) →
        Linked next' prev' (u ++ p :: (w ++ q :: v)) := by
      intro hu hv
      refine linked_split.2 ⟨hu, ?_⟩
      rw [← List.cons_append]
      exact linked_split.2 ⟨hmid, hv⟩
    refine hjoin (hleft.congr ?_ ?_) (hrest.2.congr ?_ ?_)
    · rw [List.dropLast_concat]
      intro y hy
      exact hnext y (by simp [hy])
    · intro y hy
      have hmem : y ∈ u ++ [p] := List.mem_of_mem_tail hy
      refine hprev y ?_
      rcases List.mem_append.1 hmem with hu | hp
      · simp [hu]
      · simp [List.mem_singleton.1 hp]
    · intro y hy
      have hmem : y ∈ q :: v := (List.dropLast_sublist _).subset hy
      exact hnext y (List.mem_append_right u hmem)
    · intro y hy
      exact hprev y (by simp [show y ∈ v from hy])
  case nodup => exact hnd
  case first =>
    intro y hy
    have hhead : ∀ r, (u ++ p :: r).head? = (u ++ [p]).head? := by
      intro r
      cases u <;> rfl
    rw [hhead] at hy
    have hmem : y ∈ u ++ [p] := List.mem_of_mem_head? hy
    rw [hprev y]
    · refine h.first y ?_
      rw [hhead]
      exact hy
    · rcases List.mem_append.1 hmem with hu | hp
      · simp [hu]
      · simp [List.mem_singleton.1 hp]
  case last =>
    intro y hy
    have hend : ∀ r : List α, (u ++ p :: (r ++ q :: v)).getLast? = (q :: v).getLast? := by
      intro r
      rw [← List.cons_append, ← List.append_assoc,
        List.getLast?_append_of_ne_nil _ (List.cons_ne_nil q v)]
    rw [hend] at hy
    rw [hnext y (List.mem_append_right u (List.mem_of_mem_getLast? hy))]
    refine h.last y ?_
    rw [hend]
    exact hy

/-! ## One node -/

/-- The two nodes at a place in the chain are not among the others. -/
theorem not_mem_of_nodup (h : (u ++ p :: q :: v).Nodup) : p ∉ u ++ q :: v ∧ q ∉ u ++ p :: v := by
  have hshape : u ++ p :: q :: v = (u ++ [p]) ++ q :: v := by simp
  have hq := h
  rw [hshape, List.nodup_middle, List.append_assoc, List.singleton_append] at hq
  exact ⟨(List.nodup_cons.1 (List.nodup_middle.1 h)).1, (List.nodup_cons.1 hq).1⟩

/-- A node that is not in the chain is not among the others. -/
theorem not_mem_others (hx : x ∉ u ++ p :: q :: v) : x ∉ u ++ q :: v ∧ x ∉ u ++ p :: v := by
  simp only [List.mem_append, List.mem_cons, not_or] at hx ⊢
  exact ⟨⟨hx.1, hx.2.2⟩, hx.1, hx.2.1, hx.2.2.2⟩

/-- **A new node between two neighbours.** -/
theorem Chain.insert (h : Chain next prev (u ++ p :: q :: v)) (hx : x ∉ u ++ p :: q :: v)
    (hp : next' p = some x) (hxq : next' x = some q)
    (hnext : ∀ y, y ≠ p → y ≠ x → next' y = next y)
    (hq : prev' q = some x) (hxp : prev' x = some p)
    (hprev : ∀ y, y ≠ q → y ≠ x → prev' y = prev y) :
    Chain next' prev' (u ++ p :: x :: q :: v) := by
  obtain ⟨hpu, hqu⟩ := not_mem_of_nodup h.nodup
  obtain ⟨hxp', hxq'⟩ := not_mem_others hx
  refine h.relink (m := []) (w := [x]) ?_ ?_ ?_ ?_
  · exact linked_cons_cons.2 ⟨⟨hp, hxp⟩, linked_cons_cons.2 ⟨⟨hxq, hq⟩, List.isChain_singleton q⟩⟩
  · have hshape : u ++ p :: ([x] ++ q :: v) = (u ++ [p]) ++ x :: (q :: v) := by simp
    have hrest : (u ++ [p]) ++ (q :: v) = u ++ p :: q :: v := by simp
    rw [hshape, List.nodup_middle, hrest]
    exact List.nodup_cons.2 ⟨hx, h.nodup⟩
  · intro y hy
    exact hnext y (ne_of_mem_of_not_mem hy hpu) (ne_of_mem_of_not_mem hy hxp')
  · intro y hy
    exact hprev y (ne_of_mem_of_not_mem hy hqu) (ne_of_mem_of_not_mem hy hxq')

/-- **A node is taken out from between its neighbours.** -/
theorem Chain.remove (h : Chain next prev (u ++ p :: x :: q :: v)) (hp : next' p = some q)
    (hnext : ∀ y, y ≠ p → y ≠ x → next' y = next y) (hq : prev' q = some p)
    (hprev : ∀ y, y ≠ q → y ≠ x → prev' y = prev y) : Chain next' prev' (u ++ p :: q :: v) := by
  have hshape : u ++ p :: x :: q :: v = (u ++ [p]) ++ x :: (q :: v) := by simp
  have hrest : (u ++ [p]) ++ (q :: v) = u ++ p :: q :: v := by simp
  have hnd := h.nodup
  rw [hshape, List.nodup_middle, hrest, List.nodup_cons] at hnd
  obtain ⟨hx, hnd⟩ := hnd
  obtain ⟨hpu, hqu⟩ := not_mem_of_nodup hnd
  obtain ⟨hxp', hxq'⟩ := not_mem_others hx
  refine h.relink (m := [x]) (w := []) ?_ hnd ?_ ?_
  · exact linked_cons_cons.2 ⟨⟨hp, hq⟩, List.isChain_singleton q⟩
  · intro y hy
    exact hnext y (ne_of_mem_of_not_mem hy hpu) (ne_of_mem_of_not_mem hy hxp')
  · intro y hy
    exact hprev y (ne_of_mem_of_not_mem hy hqu) (ne_of_mem_of_not_mem hy hxq')

end LinkedChain
