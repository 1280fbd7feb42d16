import EasyIpc.Dlist
import Mathlib.Algebra.Order.Group.Multiset
import Mathlib.Data.List.Perm.Basic
import Mathlib.Tactic.Abel

/-!
# The life of a list

`dlist_destroy` frees the nodes between the sentinels with their data, then the sentinels.  To free a
node that is not allocated gives `none`, like every other use of such a node.

* `dlistDestroy` — the function; `ListRep.dlistDestroy_eq` says what it does to the heap.
* `Books` — a list with books about its data: what calls have put into it and what `dlist_remove` has
  handed back.
* `dlist_lifetime` — a list that is made, used and destroyed fails at no call, leaves no node behind,
  touches no other node, and frees all data but those it has handed back, each once.
-/

namespace EasyIpc

open LinkedChain Transition

variable {δ : Type}

/-! ## The function -/

/-- `free` of a node that has to be allocated. -/
def Heap.release (m : Heap δ) (a : Addr) : Option (Heap δ) := (m.nodes a).map fun _ => m.free a

/-- The loop of `dlist_destroy`. -/
def destroyLoop : ℕ → Heap δ → Option Addr → Option (Heap δ)
  | 0, _, _ => none
  | fuel + 1, m, cursor => do
      let a ← cursor
      let n ← m.nodes a
      match n.data with
      | none => some m
      | some d =>
          let m ← Heap.release { m with freed := m.freed ++ [d] } a
          destroyLoop fuel m n.next

/-- `dlist_destroy`. -/
def dlistDestroy (fuel : ℕ) (m : Heap δ) (dlist : Option DList) : Option (Ret × Heap δ) :=
  match dlist with
  | none => some (.fault, m)
  | some dl => do
      let h ← m.deref (some dl.head)
      let m ← destroyLoop fuel m h.next
      let m ← m.release dl.head
      let m ← m.release dl.tail
      some (.ok, m)

section Destroy

variable {m : Heap δ} {dl : DList} {nodes v : List Addr} {L : List δ} {t : Addr} {fuel : ℕ}

/-- The heap without some nodes. -/
def Heap.without (m : Heap δ) (gone : List Addr) (freed : List δ) : Heap δ where
  nodes b := if b ∈ gone then none else m.nodes b
  freed := m.freed ++ freed

/-- The loop frees the nodes before the first one without data, and their data. -/
theorem destroyLoop_eq (hl : Linked m.next m.prev (v ++ [t])) (hnd : (v ++ [t]).Nodup)
    (halloc : ∀ a ∈ v ++ [t], ∃ n, m.nodes a = some n) (ht : m.data t = none)
    (hdata : v.map m.data = L.map some) (hfuel : v.length < fuel) :
    destroyLoop fuel m (v ++ [t]).head? = some (m.without v L) := by
  induction v generalizing m fuel L with
  | nil =>
    obtain ⟨n, hn⟩ := halloc t (by simp)
    obtain ⟨-, -, -, hnd⟩ := Heap.fields hn
    obtain ⟨fuel, rfl⟩ := Nat.exists_eq_succ_of_ne_zero (Nat.pos_iff_ne_zero.1 hfuel)
    obtain rfl : L = [] := by simpa using hdata.symm
    rw [ht] at hnd
    simp [destroyLoop, hn, ← hnd, Heap.without]
  | cons x v ih =>
    obtain ⟨fuel, rfl⟩ := Nat.exists_eq_succ_of_ne_zero (Nat.pos_iff_ne_zero.1 (Nat.zero_lt_of_lt hfuel))
    obtain ⟨n, hn⟩ := halloc x (by simp)
    obtain ⟨-, hnext, -, hnd'⟩ := Heap.fields hn
    cases L with
    | nil => cases hdata
    | cons d L =>
      obtain ⟨hd, hrest⟩ := List.cons.inj hdata
      obtain ⟨hx, hnd⟩ := List.nodup_cons.1 hnd
      -- the rest of the list does not notice that the node is gone
      have hsame : ∀ b ∈ v ++ [t], (m.without [x] [d]).nodes b = m.nodes b := by
        intro b hb
        refine if_neg fun hbx => hx ?_
        rwa [← List.mem_singleton.1 hbx]
      have hfields : ∀ b ∈ v ++ [t], (m.without [x] [d]).next b = m.next b ∧
          (m.without [x] [d]).prev b = m.prev b ∧ (m.without [x] [d]).data b = m.data b := by
        intro b hb
        simp only [Heap.next, Heap.prev, Heap.data, hsame b hb, and_self]
      have hrelease : Heap.release { m with freed := m.freed ++ [d] } x = some (m.without [x] [d]) := by
        simp only [Heap.release, hn, Option.map_some, Heap.free, Heap.without, List.mem_singleton]
        congr 2
        funext b
        simp only [Function.update_apply]
      have hstep : n.next = (v ++ [t]).head? := hnext.symm.trans hl.next_eq
      have hrec : destroyLoop fuel (m.without [x] [d]) (v ++ [t]).head? =
          some ((m.without [x] [d]).without v L) := by
        refine ih ?_ hnd ?_ ?_ ?_ (Nat.lt_of_succ_lt_succ hfuel)
        · refine hl.tail.congr ?_ ?_
          · intro b hb
            exact (hfields b ((List.dropLast_sublist _).subset hb)).1
          · intro b hb
            exact (hfields b (List.mem_of_mem_tail hb)).2.1
        · intro b hb
          rw [hsame b hb]
          exact halloc b (List.mem_cons_of_mem x hb)
        · rw [(hfields t (by simp)).2.2, ht]
        · rw [← hrest]
          exact List.map_congr_left fun b hb => (hfields b (List.mem_append_left _ hb)).2.2
      have hboth : (m.without [x] [d]).without v L = m.without (x :: v) (d :: L) := by
        simp only [Heap.without, List.append_assoc, List.singleton_append, List.mem_cons]
        congr 1
        funext b
        by_cases hbv : b ∈ v <;> by_cases hbx : b = x <;> simp [hbv, hbx]
      show destroyLoop (fuel + 1) m (some x) = _
      simp only [destroyLoop, Option.bind_eq_bind, Option.bind_some, hn, ← hnd', hd, hrelease, hstep,
        hrec, hboth]

/-- **`dlist_destroy` frees the nodes of the list and its data, each once**, and nothing else. -/
theorem ListRep.dlistDestroy_eq (h : ListRep m dl nodes L) (hfuel : L.length < fuel) :
    dlistDestroy fuel m (some dl) =
      some (.ok, m.without (dl.head :: (nodes ++ [dl.tail])) L) := by
  obtain ⟨n, hn⟩ := h.allocated dl.head (by simp)
  obtain ⟨n', hn'⟩ := h.allocated dl.tail (by simp)
  obtain ⟨hderef, hnext, -, -⟩ := Heap.fields hn
  obtain ⟨hhead, hnd⟩ := List.nodup_cons.1 h.chain.nodup
  have hstep : n.next = (nodes ++ [dl.tail]).head? := hnext.symm.trans h.chain.linked.next_eq
  have hloop := destroyLoop_eq h.chain.linked.tail hnd
    (fun a ha => h.allocated a (List.mem_cons_of_mem _ ha)) h.tailData h.data
    (by rw [h.length_eq]; exact hfuel)
  have htail : dl.tail ∉ nodes := by
    intro hmem
    exact (List.nodup_append.1 hnd).2.2 _ hmem _ (by simp) rfl
  have hne : dl.tail ≠ dl.head := by
    intro he
    exact hhead (by simp [← he])
  have hfirst : (m.without nodes L).nodes dl.head = some n := by
    refine (if_neg fun hmem => hhead ?_).trans hn
    exact List.mem_append_left _ hmem
  have hlast : ((m.without nodes L).free dl.head).nodes dl.tail = some n' :=
    (Function.update_of_ne hne _ _).trans ((if_neg htail).trans hn')
  have hall : ((m.without nodes L).free dl.head).free dl.tail =
      m.without (dl.head :: (nodes ++ [dl.tail])) L := by
    simp only [Heap.free, Heap.without]
    congr 1
    funext b
    simp only [Function.update_apply, List.mem_cons, List.mem_append, List.not_mem_nil, or_false]
    by_cases hbt : b = dl.tail <;> by_cases hbh : b = dl.head <;> by_cases hbn : b ∈ nodes <;>
      simp [hbt, hbh, hbn]
  simp only [dlistDestroy, hderef, Option.bind_eq_bind, Option.bind_some, hstep, hloop, Heap.release,
    hfirst, Option.map_some, hlast, hall]

end Destroy

/-! ## The books -/

/-- The data that a call puts into the list. -/
def DlistCall.adds : DlistCall δ → List δ
  | .add _ _ data => data.toList
  | .attach _ data => data.toList
  | _ => []

/-- The element of a sequence that `dlist_remove` takes out. -/
def DlistCall.removes (L : List δ) : DlistCall δ → List δ
  | .remove index => L[index.toNat]?.toList
  | _ => []

/-- The data of the node that `dlist_remove` takes out, which stay with the caller. -/
def DlistCall.handsBack (fuel : ℕ) (m : Heap δ) (dl : DList) : DlistCall δ → List δ
  | .remove index => ((dlistGet fuel m (some dl) index).bind fun p => p.bind m.data).toList
  | _ => []

/-- A heap with a list, the data that calls have put into it, and those that it has handed back. -/
structure Books (δ : Type) where
  heap : Heap δ
  added : List δ := []
  handedBack : List δ := []

/-- A call, and what it means for the books. -/
def Books.step (dl : DList) (s : Books δ) (act : ℕ × DlistCall δ) : Option (Books δ) :=
  (act.2.run act.1 s.heap dl).map fun (ret, heap) =>
    if ret = .ok then
      { heap
        added := s.added ++ act.2.adds
        handedBack := s.handedBack ++ act.2.handsBack act.1 s.heap dl }
    else { s with heap }

/-- The calls on one list, with the books. -/
def booksLts (dl : DList) (m : Heap δ) : Lts (Books δ) (ℕ × DlistCall δ) where
  init := ⟨m, [], []⟩
  step := Books.step dl

/-- The guard that allocations give no node that is in use. -/
def BooksFresh (s : Books δ) (act : ℕ × DlistCall δ) (_ : Books δ) : Prop :=
  act.2.AllocatesFresh s.heap

instance (s : Books δ) (act : ℕ × DlistCall δ) (s' : Books δ) : Decidable (BooksFresh s act s') :=
  inferInstanceAs (Decidable (act.2.AllocatesFresh s.heap))

/-- The list has only nodes that were free before it was made, no other node has changed, and what has
been put into it is in it, has been freed or has been handed back. -/
structure Balanced (m₀ : Heap δ) (dl : DList) (s : Books δ) (nodes : List Addr) (L gone : List δ) :
    Prop where
  rep : ListRep s.heap dl nodes L
  own : ∀ b ∈ dl.head :: (nodes ++ [dl.tail]), m₀.nodes b = none
  others : ∀ b, b ∉ dl.head :: (nodes ++ [dl.tail]) → s.heap.nodes b = m₀.nodes b
  freed : s.heap.freed = m₀.freed ++ gone
  books : s.added.Perm (L ++ (gone ++ s.handedBack))

section Books

variable {m₀ m m' : Heap δ} {dl : DList} {nodes nodes' : List Addr} {L L' gone : List δ} {s s' : Books δ}
  {fuel : ℕ} {c : DlistCall δ}

/-- A call that succeeds moves data from one place to another. -/
theorem DlistCall.apply_perm (h : c.apply L = some L') :
    (L ++ c.adds).Perm (L' ++ (c.frees L ++ c.removes L)) := by
  have herase : ∀ index : ℤ, index.toNat < L.length →
      L.Perm (L.eraseIdx index.toNat ++ L[index.toNat]?.toList) := by
    intro index hlt
    rw [List.getElem?_eq_getElem hlt]
    exact ((List.getElem_cons_eraseIdx_perm hlt).symm).trans (List.perm_append_singleton _ _).symm
  cases c with
  | add node index data =>
    cases node with
    | none => cases data <;> cases h
    | some x =>
      cases data with
      | none => cases h
      | some d =>
        obtain ⟨hrange, he⟩ := Option.ite_none_right_eq_some.1 h
        obtain rfl := Option.some.inj he
        have hinsert := List.perm_insertIdx d L (i := index.toNat) (by omega)
        simpa [DlistCall.adds, DlistCall.frees, DlistCall.removes] using
          (List.perm_append_singleton d L).trans hinsert.symm
  | attach node data =>
    cases node with
    | none => cases data <;> cases h
    | some x =>
      cases data with
      | none => cases h
      | some d =>
        obtain rfl := Option.some.inj h
        simp [DlistCall.adds, DlistCall.frees, DlistCall.removes]
  | get index =>
    obtain ⟨-, he⟩ := Option.ite_none_right_eq_some.1 h
    obtain rfl := Option.some.inj he
    simp [DlistCall.adds, DlistCall.frees, DlistCall.removes]
  | delete index =>
    obtain ⟨hrange, he⟩ := Option.ite_none_right_eq_some.1 h
    obtain rfl := Option.some.inj he
    simpa [DlistCall.adds, DlistCall.frees, DlistCall.removes] using herase index (by omega)
  | remove index =>
    obtain ⟨hrange, he⟩ := Option.ite_none_right_eq_some.1 h
    obtain rfl := Option.some.inj he
    simpa [DlistCall.adds, DlistCall.frees, DlistCall.removes] using herase index (by omega)

/-- The data of the node at an index of the list. -/
theorem ListRep.data_getElem? (h : ListRep m dl nodes L) (i : ℕ) :
    (nodes[i]?).bind m.data = L[i]? := by
  have hmap := congrArg (fun l => l[i]?) h.data
  simp only [List.getElem?_map] at hmap
  cases hn : nodes[i]? with
  | none =>
    rw [hn] at hmap
    cases hL : L[i]? with
    | none => rfl
    | some d => simp [hL] at hmap
  | some a =>
    rw [hn] at hmap
    cases hL : L[i]? with
    | none => simp [hL] at hmap
    | some d => simpa [hL] using hmap

/-- What a call that succeeds hands back. -/
theorem ListRep.handsBack_eq (h : ListRep m dl nodes L) (hrun : c.run fuel m dl = some (.ok, m'))
    (hspec : c.apply L = some L') : c.handsBack fuel m dl = c.removes L := by
  cases c with
  | remove index =>
    obtain ⟨hrange, -⟩ := Option.ite_none_right_eq_some.1 hspec
    have hfuel : L.length < fuel := by
      by_contra hshort
      rcases h.run_short hshort hrun with ⟨hret, -⟩ | ⟨node, data, hc⟩
      · cases hret
      · cases hc
    simp only [DlistCall.handsBack, DlistCall.removes, h.dlistGet_eq hfuel, if_pos hrange.1, Option.bind_some,
      h.data_getElem?]
  | _ => rfl

/-- A call keeps the books balanced. -/
theorem Balanced.step {act : ℕ × DlistCall δ} (h : Balanced m₀ dl s nodes L gone)
    (hstep : Books.step dl s act = some s') (hfresh : act.2.AllocatesFresh s.heap) :
    ∃ nodes' L' gone', Balanced m₀ dl s' nodes' L' gone' := by
  obtain ⟨fuel, c⟩ := act
  obtain ⟨⟨ret, m'⟩, hrun, rfl⟩ := Option.map_eq_some_iff.1 hstep
  dsimp only
  rcases h.rep.run_cases hfresh hrun with ⟨hret, rfl⟩ | ⟨L', nodes', rfl, hspec, hrep, hfreed, hshape⟩
  · rw [if_neg hret]
    exact ⟨nodes, L, gone, h⟩
  · rw [if_pos rfl]
    refine ⟨nodes', L', gone ++ c.frees L, hrep, ?own, ?others, ?freed, ?books⟩
    case own =>
      intro b hb
      by_cases hold : b ∈ dl.head :: (nodes ++ [dl.tail])
      · exact h.own b hold
      · have hnew : b ∈ nodes' := by
          simp only [List.mem_cons, List.mem_append, List.not_mem_nil, or_false, not_or] at hb hold
          tauto
        rw [← h.others b hold]
        exact hshape.fresh b hnew fun hmem => hold (by simp [hmem])
    case others =>
      intro b hb
      have hnew : b ∉ nodes' := fun hmem => hb (by simp [hmem])
      by_cases hold : b ∈ nodes
      · exact (hshape.gone b hold hnew).trans (h.own b (by simp [hold])).symm
      · have hout : b ∉ dl.head :: (nodes ++ [dl.tail]) := by
          simp only [List.mem_cons, List.mem_append, List.not_mem_nil, or_false, not_or] at hb ⊢
          tauto
        exact (hshape.others b hout hnew).trans (h.others b hout)
    case freed =>
      show m'.freed = _
      rw [hfreed, h.freed, List.append_assoc]
    case books =>
      have hmoved := DlistCall.apply_perm hspec
      rw [← h.rep.handsBack_eq hrun hspec] at hmoved
      have hbooks := h.books
      rw [← Multiset.coe_eq_coe] at hmoved hbooks ⊢
      simp only [← Multiset.coe_add] at hmoved hbooks ⊢
      calc (s.added : Multiset δ) + c.adds
          = (L + c.adds) + (gone + s.handedBack) := by rw [hbooks]; abel
        _ = _ := by rw [hmoved]; abel

theorem balanced_reach {m₁ : Heap δ} {block : Bool} {head tail : Option Addr}
    (hcreate : dlistCreate m₀ block head tail = some (some dl, m₁))
    (h : Reach (booksLts dl m₁) BooksFresh s) : ∃ nodes L gone, Balanced m₀ dl s nodes L gone := by
  refine h.invariant (I := fun s => ∃ nodes L gone, Balanced m₀ dl s nodes L gone) ?_ ?_
  · obtain ⟨hhead, htail, -, -, -, hfreed, hothers⟩ := dlistCreate_nodes hcreate
    refine ⟨[], [], [], dlistCreate_rep hcreate, ?_, ?_, ?_, ?_⟩
    · intro b hb
      rcases List.mem_pair.1 hb with rfl | rfl
      · exact hhead
      · exact htail
    · intro b hb
      simp only [List.nil_append, List.mem_cons, List.not_mem_nil, or_false, not_or] at hb
      exact hothers b hb.1 hb.2
    · exact hfreed.trans (List.append_nil _).symm
    · exact List.Perm.refl []
  · rintro s act s' - ⟨nodes, L, gone, hI⟩ hstep hfresh
    exact hI.step hstep hfresh

end Books

/-- **A list leaves nothing behind.**  A list is made, any calls are made on it, and it is destroyed.
At every moment every call does what it should to the sequence that the list stands for, or fails and
leaves the heap as it is; `dlist_destroy` leaves the nodes that the heap had before the list was made; of
the data that the calls have put into the list each has been freed or handed back; and if they are
distinct and were not freed before, nothing has been freed twice, or freed and handed back. -/
theorem dlist_lifetime {m₀ m₁ : Heap δ} {block : Bool} {head tail : Option Addr} {dl : DList}
    (hcreate : dlistCreate m₀ block head tail = some (some dl, m₁)) {s : Books δ}
    (h : Reach (booksLts dl m₁) BooksFresh s) :
    ∃ L : List δ, ∀ fuel, L.length < fuel →
      (∀ c : DlistCall δ, c.AllocatesFresh s.heap →
        Outcome s.heap dl (c.run fuel s.heap dl) (c.apply L)) ∧
      ∃ m gone, dlistDestroy fuel s.heap (some dl) = some (.ok, m) ∧
        m.nodes = m₀.nodes ∧ m.freed = m₀.freed ++ gone ∧ s.added.Perm (gone ++ s.handedBack) ∧
        ((m₀.freed ++ s.added).Nodup → (m.freed ++ s.handedBack).Nodup) := by
  obtain ⟨nodes, L, gone, hI⟩ := balanced_reach hcreate h
  have hfreed : s.heap.freed ++ L = m₀.freed ++ (gone ++ L) := by
    rw [hI.freed, List.append_assoc]
  have hbooks : s.added.Perm ((gone ++ L) ++ s.handedBack) := by
    refine hI.books.trans ?_
    rw [← List.append_assoc]
    exact List.perm_append_comm.append_right _
  refine ⟨L, fun fuel hfuel => ⟨fun c hfresh => hI.rep.run hfuel hfresh, _, gone ++ L,
    hI.rep.dlistDestroy_eq hfuel, ?nodes, hfreed, hbooks, fun hdistinct => ?once⟩⟩
  case nodes =>
    funext b
    show (if b ∈ dl.head :: (nodes ++ [dl.tail]) then none else s.heap.nodes b) = m₀.nodes b
    split
    · rename_i hb
      exact (hI.own b hb).symm
    · rename_i hb
      exact hI.others b hb
  case once =>
    show (s.heap.freed ++ L ++ s.handedBack).Nodup
    rw [hfreed, List.append_assoc]
    exact ((hbooks.append_left m₀.freed).nodup_iff).1 hdistinct

/-- Of three elements one is deleted and one removed. -/
def lifetimeCalls : List (ℕ × DlistCall ℕ) :=
  [(1, .attach (some 2) (some 70)), (2, .add (some 3) 1 (some 71)), (3, .add (some 4) 0 (some 72)),
    (4, .delete 1), (4, .remove 0)]

/-- The two that have not been removed are freed, each once. -/
theorem dlist_lifetime_three : ∃ s : Books ℕ, s.added = [70, 71, 72] ∧ s.handedBack = [72] ∧
    ∃ n, ∀ fuel, n < fuel → ∃ m, dlistDestroy fuel s.heap (some ⟨0, 1⟩) = some (.ok, m) ∧
      (m.nodes = fun _ => none) ∧ m.freed.Perm [70, 71] := by
  obtain ⟨m₁, hcreate⟩ : ∃ m₁ : Heap ℕ, dlistCreate { nodes := fun _ => none } true (some 0) (some 1) =
      some (some ⟨0, 1⟩, m₁) := ⟨_, rfl⟩
  have hany : ((booksLts ⟨0, 1⟩ m₁).runOk BooksFresh ⟨m₁, [], []⟩ lifetimeCalls).any fun s =>
      s.added == [70, 71, 72] && s.handedBack == [72] := by
    cases hcreate
    decide +kernel
  obtain ⟨s, hrun, hs⟩ := (Option.any_eq_true _ _).1 hany
  simp only [Bool.and_eq_true, beq_iff_eq] at hs
  have hreach : Reach (booksLts ⟨0, 1⟩ m₁) BooksFresh s := Reach.runOk .init hrun
  obtain ⟨L, hL⟩ := dlist_lifetime hcreate hreach
  refine ⟨s, hs.1, hs.2, L.length, fun fuel hfuel => ?_⟩
  obtain ⟨-, m, gone, hdestroy, hnodes, hfreed, hperm, -⟩ := hL fuel hfuel
  refine ⟨m, hdestroy, hnodes, ?_⟩
  rw [hs.1, hs.2] at hperm
  have hfront : ([70, 71] ++ [72]).Perm (gone ++ [72]) := hperm
  rw [hfreed, List.nil_append]
  exact ((List.perm_append_right_iff [72]).1 hfront).symm

end EasyIpc
