import EasyIpc.Lib.LinkedChain
import EasyIpc.Lib.Transition
import Mathlib.Data.List.InsertIdx
import Mathlib.Logic.Function.Basic

/-!
# The linked list

`dlist.c`, on a heap of nodes.  Every table and queue of the program is such a list: the data of its
nodes, between two sentinels that are recognised by their `NULL` data.

A pointer is an optional address.  What dereferences `NULL` or a node that is not allocated gives
`none`, and so does a loop that runs out of `fuel`.  The data of a node are opaque pointers, and
lengths and indices are integers.

* `dlistCreate`, .., `dlistRemove` — the functions; what `calloc` gives is a parameter.
* `ListRep` — a list in the heap stands for a sequence.
* `dlist_refines` — after any calls on a new list it does, and every further call does to the
  sequence what it should, or fails and leaves the heap as it is.
-/

namespace EasyIpc

open LinkedChain Transition

variable {δ : Type}

/-! ## The heap -/

/-- An address of a node. -/
abbrev Addr := ℕ

/-- `DListNode`. -/
structure DListNode (δ : Type) where
  data : Option δ := none
  prev : Option Addr := none
  next : Option Addr := none

/-- `DList`. -/
structure DList where
  head : Addr
  tail : Addr
  deriving DecidableEq, Repr

/-- The nodes that are allocated, and the data that have been freed. -/
structure Heap (δ : Type) where
  nodes : Addr → Option (DListNode δ)
  freed : List δ := []

/-- `Ret`. -/
inductive Ret where
  | ok
  | fault
  | oom
  deriving DecidableEq, Repr

/-- The node behind a pointer. -/
def Heap.deref (m : Heap δ) (p : Option Addr) : Option (DListNode δ) := p.bind m.nodes

/-- An assignment through a pointer. -/
def Heap.assign (m : Heap δ) (p : Option Addr) (f : DListNode δ → DListNode δ) : Option (Heap δ) :=
  p.bind fun a => (m.nodes a).map fun n =>
    { m with nodes := Function.update m.nodes a (some (f n)) }

/-- `calloc(1, sizeof(DListNode))`, which gives the address or `NULL`; it gives no address that is in
use. -/
def Heap.calloc (m : Heap δ) : Option Addr → Option (Heap δ)
  | none => some m
  | some a => match m.nodes a with
    | some _ => none
    | none => some { m with nodes := Function.update m.nodes a (some {}) }

/-- `free` of a node. -/
def Heap.free (m : Heap δ) (a : Addr) : Heap δ :=
  { m with nodes := Function.update m.nodes a none }

/-! ## The functions -/

/-- `dlist_create`: `block` says whether the `DList` could be allocated, `head` and `tail` are the
sentinels. -/
def dlistCreate (m : Heap δ) (block : Bool) (head tail : Option Addr) :
    Option (Option DList × Heap δ) :=
  if !block then some (none, m)
  else do
    let m ← m.calloc head
    match head with
    | none => some (none, m)
    | some h =>
        let m ← m.calloc tail
        match tail with
        | none => some (none, m.free h)
        | some t =>
            let m ← m.assign head fun n => { n with next := tail }
            let m ← m.assign tail fun n => { n with prev := head }
            some (some ⟨h, t⟩, m)

/-- The loop of `dlist_len` from a node on. -/
def lenLoop (m : Heap δ) : ℕ → Option Addr → ℤ → Option ℤ
  | 0, _, _ => none
  | fuel + 1, dlistNode, len => do
      let n ← m.deref dlistNode
      if n.data.isNone then some len else lenLoop m fuel n.next (len + 1)

/-- `dlist_len`. -/
def dlistLen (fuel : ℕ) (m : Heap δ) (dlist : Option DList) : Option ℤ :=
  match dlist with
  | none => some 0
  | some dl => do
      let h ← m.deref (some dl.head)
      lenLoop m fuel h.next 0

/-- The loop of `dlist_get`, with so many rounds to go. -/
def getLoop (m : Heap δ) : ℕ → Option Addr → Option (Option Addr)
  | 0, dlistnode => some dlistnode
  | k + 1, dlistnode => do
      let n ← m.deref dlistnode
      getLoop m k n.next

/-- `dlist_get`. -/
def dlistGet (fuel : ℕ) (m : Heap δ) (dlist : Option DList) (index : ℤ) :
    Option (Option Addr) :=
  match dlist with
  | none => some none
  | some dl =>
      if index < 0 then some none
      else do
        let len ← dlistLen fuel m dlist
        if ¬ index < len then some none
        else do
          let h ← m.deref (some dl.head)
          getLoop m index.toNat h.next

/-- The four assignments that put a node between two others. -/
def linkNode (m : Heap δ) (pre node next : Option Addr) : Option (Heap δ) := do
  let m ← m.assign pre fun n => { n with next := node }
  let m ← m.assign node fun n => { n with prev := pre }
  let m ← m.assign node fun n => { n with next := next }
  m.assign next fun n => { n with prev := node }

/-- The node that `dlist_add` puts the new one behind. -/
def preNode (fuel : ℕ) (m : Heap δ) (dl : DList) (index : ℤ) : Option (Option Addr) :=
  if index = 0 then some (some dl.head) else dlistGet fuel m (some dl) (index - 1)

/-- `dlist_add`; `node` is what `dlist_alloc` gives. -/
def dlistAdd (fuel : ℕ) (m : Heap δ) (node : Option Addr) (dlist : Option DList) (index : ℤ)
    (data : Option δ) : Option (Ret × Heap δ) :=
  match dlist with
  | none => some (.fault, m)
  | some dl =>
      if data.isNone || index < 0 then some (.fault, m)
      else do
        let len ← dlistLen fuel m dlist
        if ¬ index ≤ len then some (.fault, m)
        else do
          let m ← m.calloc node
          if node.isNone then some (.oom, m)
          else do
            let m ← m.assign node fun n => { n with data := data }
            let pre ← preNode fuel m dl index
            let p ← m.deref pre
            let m ← linkNode m pre node p.next
            some (.ok, m)

/-- `dlist_attach`. -/
def dlistAttach (m : Heap δ) (node : Option Addr) (dlist : Option DList) (data : Option δ) :
    Option (Ret × Heap δ) :=
  match dlist with
  | none => some (.fault, m)
  | some dl =>
      if data.isNone then some (.fault, m)
      else do
        let m ← m.calloc node
        if node.isNone then some (.fault, m)
        else do
          let m ← m.assign node fun n => { n with data := data }
          let t ← m.deref (some dl.tail)
          let m ← linkNode m t.prev node (some dl.tail)
          some (.ok, m)

/-- The two assignments that take a node out from between two others. -/
def bypassNode (m : Heap δ) (pre next : Option Addr) : Option (Heap δ) := do
  let m ← m.assign pre fun n => { n with next := next }
  m.assign next fun n => { n with prev := pre }

/-- The body of `dlist_delete` and `dlist_remove`; `dispose` is what they do with the data. -/
def unlinkNode (fuel : ℕ) (m : Heap δ) (dlist : Option DList) (index : ℤ)
    (dispose : Option δ → List δ) : Option (Ret × Heap δ) :=
  match dlist with
  | none => some (.fault, m)
  | some _ =>
      if index < 0 then some (.fault, m)
      else do
        let len ← dlistLen fuel m dlist
        if ¬ index < len then some (.fault, m)
        else do
          let dlistNode ← dlistGet fuel m dlist index
          match dlistNode with
          | none => some (.fault, m)
          | some a =>
              let n ← m.deref dlistNode
              let m ← bypassNode m n.prev n.next
              some (.ok, { m.free a with freed := m.freed ++ dispose n.data })

/-- `dlist_delete`: the data are freed. -/
def dlistDelete (fuel : ℕ) (m : Heap δ) (dlist : Option DList) (index : ℤ) :
    Option (Ret × Heap δ) :=
  unlinkNode fuel m dlist index Option.toList

/-- `dlist_remove`: the data are left to the caller. -/
def dlistRemove (fuel : ℕ) (m : Heap δ) (dlist : Option DList) (index : ℤ) :
    Option (Ret × Heap δ) :=
  unlinkNode fuel m dlist index fun _ => []

/-! ## A sequence in the heap -/

/-- `next` of the node at an address. -/
def Heap.next (m : Heap δ) (a : Addr) : Option Addr := (m.nodes a).bind DListNode.next

/-- `prev` of the node at an address. -/
def Heap.prev (m : Heap δ) (a : Addr) : Option Addr := (m.nodes a).bind DListNode.prev

/-- `data` of the node at an address. -/
def Heap.data (m : Heap δ) (a : Addr) : Option δ := (m.nodes a).bind DListNode.data

/-- The list stands for a sequence: its nodes are a chain between the sentinels, each of them has
one of the data, and the sentinels have none. -/
structure ListRep (m : Heap δ) (dl : DList) (nodes : List Addr) (L : List δ) : Prop where
  chain : Chain m.next m.prev (dl.head :: (nodes ++ [dl.tail]))
  allocated : ∀ a ∈ dl.head :: (nodes ++ [dl.tail]), ∃ n, m.nodes a = some n
  headData : m.data dl.head = none
  tailData : m.data dl.tail = none
  data : nodes.map m.data = L.map some

section Reading

variable {m : Heap δ} {dl : DList} {nodes v l : List Addr} {L : List δ} {a t : Addr}
  {n : DListNode δ} {fuel : ℕ}

theorem Heap.fields (h : m.nodes a = some n) :
    m.deref (some a) = some n ∧ m.next a = n.next ∧ m.prev a = n.prev ∧ m.data a = n.data := by
  refine ⟨h, ?_, ?_, ?_⟩
  · rw [Heap.next, h, Option.bind_some]
  · rw [Heap.prev, h, Option.bind_some]
  · rw [Heap.data, h, Option.bind_some]

theorem ListRep.length_eq (h : ListRep m dl nodes L) : nodes.length = L.length := by
  have hlen := congrArg List.length h.data
  simpa using hlen

/-- The loop of `dlist_len` counts the nodes up to the first without data, if it has the fuel. -/
theorem lenLoop_eq (hl : Linked m.next m.prev (v ++ [t]))
    (halloc : ∀ a ∈ v ++ [t], ∃ n, m.nodes a = some n) (ht : m.data t = none)
    (hdata : v.map m.data = L.map some) (fuel : ℕ) (len : ℤ) :
    lenLoop m fuel (v ++ [t]).head? len =
      if v.length < fuel then some (len + v.length) else none := by
  induction v generalizing fuel len L with
  | nil =>
    obtain ⟨n, hn⟩ := halloc t (by simp)
    obtain ⟨hderef, -, -, hnd⟩ := Heap.fields hn
    rw [ht] at hnd
    cases fuel with
    | zero => rfl
    | succ fuel => simp [lenLoop, hderef, ← hnd]
  | cons x v ih =>
    cases fuel with
    | zero => rfl
    | succ fuel =>
      obtain ⟨n, hn⟩ := halloc x (by simp)
      obtain ⟨hderef, hnext, -, hnd⟩ := Heap.fields hn
      cases L with
      | nil => cases hdata
      | cons d L =>
        obtain ⟨hd, hrest⟩ := List.cons.inj hdata
        have hstep : n.next = (v ++ [t]).head? := hnext.symm.trans hl.next_eq
        have hsome : n.data.isNone = false := by
          rw [← hnd, hd]
          rfl
        have hrec := ih hl.tail (fun a ha => halloc a (List.mem_cons_of_mem x ha)) hrest fuel (len + 1)
        show lenLoop m (fuel + 1) (some x) len = _
        simp only [lenLoop, hderef, Option.bind_eq_bind, Option.bind_some, hsome, hstep, hrec,
          Bool.false_eq_true, if_false, List.length_cons]
        refine if_congr (by omega) (congrArg some ?_) rfl
        omega

theorem ListRep.dlistLen_eq_ite (h : ListRep m dl nodes L) (fuel : ℕ) :
    dlistLen fuel m (some dl) = if L.length < fuel then some (L.length : ℤ) else none := by
  obtain ⟨n, hn⟩ := h.allocated dl.head (by simp)
  obtain ⟨hderef, hnext, -, -⟩ := Heap.fields hn
  have hstep : n.next = (nodes ++ [dl.tail]).head? := hnext.symm.trans h.chain.linked.next_eq
  have hloop := lenLoop_eq h.chain.linked.tail
    (fun a ha => h.allocated a (List.mem_cons_of_mem _ ha)) h.tailData h.data fuel 0
  simp only [dlistLen, hderef, Option.bind_eq_bind, Option.bind_some, hstep, hloop, Int.zero_add,
    h.length_eq]

/-- **`dlist_len` is the length of the sequence.** -/
theorem ListRep.dlistLen_eq (h : ListRep m dl nodes L) (hfuel : L.length < fuel) :
    dlistLen fuel m (some dl) = some (L.length : ℤ) := by
  rw [h.dlistLen_eq_ite, if_pos hfuel]

/-- The loop of `dlist_get` follows the links. -/
theorem getLoop_eq (hl : Linked m.next m.prev (a :: l))
    (halloc : ∀ b ∈ a :: l, ∃ n, m.nodes b = some n) {k : ℕ} (hk : k < (a :: l).length) :
    getLoop m k (some a) = some (a :: l)[k]? := by
  induction k generalizing a l with
  | zero => rfl
  | succ k ih =>
    cases l with
    | nil => simp at hk
    | cons b l =>
      obtain ⟨n, hn⟩ := halloc a (by simp)
      obtain ⟨hderef, hnext, -, -⟩ := Heap.fields hn
      have hb : n.next = some b := hnext.symm.trans (linked_cons_cons.1 hl).1.1
      simp only [getLoop, hderef, Option.bind_eq_bind, Option.bind_some, hb,
        List.getElem?_cons_succ]
      exact ih hl.tail (fun c hc => halloc c (List.mem_cons_of_mem a hc)) (Nat.lt_of_succ_lt_succ hk)

/-- **`dlist_get` gives the node at the index**, if there is one. -/
theorem ListRep.dlistGet_eq (h : ListRep m dl nodes L) (hfuel : L.length < fuel) (index : ℤ) :
    dlistGet fuel m (some dl) index =
      some (if 0 ≤ index then nodes[index.toNat]? else none) := by
  unfold dlistGet
  by_cases hneg : index < 0
  · simp only [if_pos hneg, if_neg (Int.not_le.2 hneg)]
  · simp only [if_neg hneg, if_pos (Int.not_lt.1 hneg), h.dlistLen_eq hfuel, Option.bind_eq_bind,
      Option.bind_some]
    by_cases hlen : index < L.length
    · -- the index is in range, and the loop comes to its node before the last sentinel
      obtain ⟨n, hn⟩ := h.allocated dl.head (by simp)
      obtain ⟨hderef, hnext, -, -⟩ := Heap.fields hn
      have hloop := getLoop_eq (k := index.toNat + 1) h.chain.linked h.allocated (by
        have := h.length_eq
        simp only [List.length_cons, List.length_append, List.length_nil]
        omega)
      simp only [getLoop, hderef, Option.bind_eq_bind, Option.bind_some, List.getElem?_cons_succ]
        at hloop
      rw [if_neg (not_not.2 hlen), hderef, Option.bind_some, hloop, List.getElem?_append_left]
      have := h.length_eq
      omega
    · rw [if_pos hlen, List.getElem?_eq_none]
      have := h.length_eq
      omega

end Reading

/-! ## Rewiring -/

section Rewiring

variable {m : Heap δ} {dl : DList} {nodes n₁ n₂ u v : List Addr} {L L₁ L₂ : List δ} {d : δ}
  {p q x : Addr} {np nx nq : DListNode δ}

theorem Heap.assign_eq (h : m.nodes p = some np) (f : DListNode δ → DListNode δ) :
    m.assign (some p) f = some { m with nodes := Function.update m.nodes p (some (f np)) } := by
  rw [Heap.assign, Option.bind_some, h, Option.map_some]

/-- What the four assignments write. -/
theorem linkNode_eq (hp : m.nodes p = some np) (hx : m.nodes x = some nx) (hq : m.nodes q = some nq)
    (hpx : p ≠ x) (hqx : q ≠ x) (hqp : q ≠ p) :
    linkNode m (some p) (some x) (some q) = some { m with
      nodes := fun b =>
        if b = q then some { nq with prev := some x }
        else if b = x then some { nx with prev := some p, next := some q }
        else if b = p then some { np with next := some x }
        else m.nodes b } := by
  have hx₁ : Function.update m.nodes p (some { np with next := some x }) x = some nx := by
    rw [Function.update_of_ne hpx.symm, hx]
  have hq₁ : Function.update m.nodes p (some { np with next := some x }) q = some nq := by
    rw [Function.update_of_ne hqp, hq]
  unfold linkNode
  rw [Heap.assign_eq hp]
  simp only [Option.bind_eq_bind, Option.bind_some]
  rw [Heap.assign_eq hx₁]
  simp only [Option.bind_some]
  rw [Heap.assign_eq (Function.update_self ..)]
  simp only [Option.bind_some, Function.update_idem]
  rw [Heap.assign_eq ((Function.update_of_ne hqx _ _).trans hq₁)]
  congr 2
  funext b
  simp only [Function.update_apply]

/-- What the two assignments write. -/
theorem bypassNode_eq (hp : m.nodes p = some np) (hq : m.nodes q = some nq) (hqp : q ≠ p) :
    bypassNode m (some p) (some q) = some { m with
      nodes := fun b =>
        if b = q then some { nq with prev := some p }
        else if b = p then some { np with next := some q }
        else m.nodes b } := by
  unfold bypassNode
  rw [Heap.assign_eq hp]
  simp only [Option.bind_eq_bind, Option.bind_some]
  rw [Heap.assign_eq ((Function.update_of_ne hqp _ _).trans hq)]
  congr 2
  funext b
  simp only [Function.update_apply]

/-- The nodes around a place between two parts of the list. -/
theorem exists_cut (dl : DList) (n₁ n₂ : List Addr) :
    ∃ u p q v, dl.head :: n₁ = u ++ [p] ∧ n₂ ++ [dl.tail] = q :: v := by
  obtain ⟨q, v, hv⟩ := List.exists_cons_of_ne_nil (show n₂ ++ [dl.tail] ≠ [] by simp)
  exact ⟨_, _, q, v, (List.dropLast_append_getLast (List.cons_ne_nil dl.head n₁)).symm, hv⟩

theorem cut_append (hu : dl.head :: n₁ = u ++ [p]) (hv : n₂ ++ [dl.tail] = q :: v) (w : List Addr) :
    dl.head :: ((n₁ ++ (w ++ n₂)) ++ [dl.tail]) = u ++ p :: (w ++ q :: v) := by
  calc dl.head :: ((n₁ ++ (w ++ n₂)) ++ [dl.tail])
      = (dl.head :: n₁) ++ (w ++ (n₂ ++ [dl.tail])) := by simp
    _ = (u ++ [p]) ++ (w ++ q :: v) := by rw [hu, hv]
    _ = u ++ p :: (w ++ q :: v) := by simp

/-- The data of the two parts. -/
theorem data_split {f : Addr → Option δ} (h : (n₁ ++ n₂).map f = (L₁ ++ L₂).map some)
    (hlen : n₁.length = L₁.length) : n₁.map f = L₁.map some ∧ n₂.map f = L₂.map some := by
  rw [List.map_append, List.map_append] at h
  exact List.append_inj h (by simpa using hlen)

/-- Away from `x`, a heap has other links than before at most from `p` on and from `q` back. -/
structure Rewired (m m' : Heap δ) (p x q : Addr) : Prop where
  next : ∀ b, b ≠ p → b ≠ x → m'.next b = m.next b
  prev : ∀ b, b ≠ q → b ≠ x → m'.prev b = m.prev b
  data : ∀ b, b ≠ x → m'.data b = m.data b
  allocated : ∀ b, b ≠ x → (∃ n, m.nodes b = some n) → ∃ n, m'.nodes b = some n

theorem rewired_of_nodes {m' : Heap δ} {fwd back : Option Addr} (hp : m.nodes p = some np)
    (hq : m.nodes q = some nq) (hp' : m'.nodes p = some { np with next := fwd })
    (hq' : m'.nodes q = some { nq with prev := back })
    (hother : ∀ b, b ≠ q → b ≠ x → b ≠ p → m'.nodes b = m.nodes b) : Rewired m m' p x q := by
  obtain ⟨-, hnextq, -, hdataq⟩ := Heap.fields hq
  obtain ⟨-, -, hprevp, hdatap⟩ := Heap.fields hp
  obtain ⟨-, hnextq', -, hdataq'⟩ := Heap.fields hq'
  obtain ⟨-, -, hprevp', hdatap'⟩ := Heap.fields hp'
  constructor
  case next =>
    intro b hbp hbx
    by_cases hbq : b = q
    · rw [hbq, hnextq', hnextq]
    · rw [Heap.next, Heap.next, hother b hbq hbx hbp]
  case prev =>
    intro b hbq hbx
    by_cases hbp : b = p
    · rw [hbp, hprevp', hprevp]
    · rw [Heap.prev, Heap.prev, hother b hbq hbx hbp]
  case data =>
    intro b hbx
    by_cases hbq : b = q
    · rw [hbq, hdataq', hdataq]
    · by_cases hbp : b = p
      · rw [hbp, hdatap', hdatap]
      · rw [Heap.data, Heap.data, hother b hbq hbx hbp]
  case allocated =>
    intro b hbx hb
    by_cases hbq : b = q
    · exact ⟨_, hbq ▸ hq'⟩
    · by_cases hbp : b = p
      · exact ⟨_, hbp ▸ hp'⟩
      · rw [hother b hbq hbx hbp]
        exact hb

/-- The data of other nodes stay. -/
theorem Rewired.map_data {m' : Heap δ} (hr : Rewired m m' p x q) {l : List Addr} (hx : x ∉ l) :
    l.map m'.data = l.map m.data := by
  refine List.map_congr_left ?_
  intro b hb
  refine hr.data b ?_
  rintro rfl
  exact hx hb

/-- The sentinels of a list stay without data when it is rewired around a node between them. -/
theorem Rewired.sentinels {m' : Heap δ} (hr : Rewired m m' p x q) (h : ListRep m dl nodes L)
    {rest : List Addr} (hx : x ∉ dl.head :: (rest ++ [dl.tail])) :
    m'.data dl.head = none ∧ m'.data dl.tail = none := by
  constructor
  · rw [hr.data, h.headData]
    rintro rfl
    exact hx (by simp)
  · rw [hr.data, h.tailData]
    rintro rfl
    exact hx (by simp)

/-- The nodes that leave a list are freed, those that come into it were free, and no others change. -/
structure Reshaped (m m' : Heap δ) (dl : DList) (nodes nodes' : List Addr) : Prop where
  gone : ∀ b ∈ nodes, b ∉ nodes' → m'.nodes b = none
  fresh : ∀ b ∈ nodes', b ∉ nodes → m.nodes b = none
  others : ∀ b, b ∉ dl.head :: (nodes ++ [dl.tail]) → b ∉ nodes' → m'.nodes b = m.nodes b

/-- **A new node is put in between two parts of the list**, and its data between their data. -/
theorem ListRep.link (h : ListRep m dl (n₁ ++ n₂) (L₁ ++ L₂)) (hlen : n₁.length = L₁.length)
    (hx : m.nodes x = none) (hu : dl.head :: n₁ = u ++ [p]) (hv : n₂ ++ [dl.tail] = q :: v) :
    ∃ m', linkNode { m with nodes := Function.update m.nodes x (some { data := some d }) }
        (some p) (some x) (some q) = some m' ∧
      ListRep m' dl (n₁ ++ x :: n₂) (L₁ ++ d :: L₂) ∧
      m'.freed = m.freed ∧ Reshaped m m' dl (n₁ ++ n₂) (n₁ ++ x :: n₂) := by
  have hfull : dl.head :: ((n₁ ++ n₂) ++ [dl.tail]) = u ++ p :: q :: v := cut_append hu hv []
  have hfull' : dl.head :: ((n₁ ++ x :: n₂) ++ [dl.tail]) = u ++ p :: x :: q :: v :=
    cut_append hu hv [x]
  have hchain := h.chain
  have halloc := h.allocated
  rw [hfull] at hchain halloc
  have hfresh : x ∉ u ++ p :: q :: v := by
    intro hin
    obtain ⟨n, hn⟩ := halloc x hin
    rw [hx] at hn
    cases hn
  obtain ⟨np, hp⟩ := halloc p (by simp)
  obtain ⟨nq, hq⟩ := halloc q (by simp)
  have hpx : p ≠ x := by
    rintro rfl
    exact hfresh (by simp)
  have hqx : q ≠ x := by
    rintro rfl
    exact hfresh (by simp)
  have hqp : q ≠ p := by
    rintro rfl
    exact (not_mem_of_nodup hchain.nodup).1 (by simp)
  obtain ⟨m', hlink, hfreed, hq', hx', hp', hother⟩ : ∃ m', linkNode
      { m with nodes := Function.update m.nodes x (some { data := some d }) }
      (some p) (some x) (some q) = some m' ∧
      m'.freed = m.freed ∧
      m'.nodes q = some { nq with prev := some x } ∧
      m'.nodes x = some { data := some d, prev := some p, next := some q } ∧
      m'.nodes p = some { np with next := some x } ∧
      ∀ b, b ≠ q → b ≠ x → b ≠ p → m'.nodes b = m.nodes b := by
    refine ⟨_, linkNode_eq ((Function.update_of_ne hpx _ _).trans hp) (Function.update_self ..)
      ((Function.update_of_ne hqx _ _).trans hq) hpx hqx hqp, rfl, ?_, ?_, ?_, ?_⟩
    · exact if_pos rfl
    · exact (if_neg hqx.symm).trans (if_pos rfl)
    · exact (if_neg hqp.symm).trans ((if_neg hpx).trans (if_pos rfl))
    · intro b hbq hbx hbp
      exact (if_neg hbq).trans ((if_neg hbx).trans ((if_neg hbp).trans
        (Function.update_of_ne hbx _ _)))
  have hshape : Reshaped m m' dl (n₁ ++ n₂) (n₁ ++ x :: n₂) := by
    constructor
    case gone =>
      intro b hb hb'
      refine absurd ?_ hb'
      simp only [List.mem_append, List.mem_cons] at hb ⊢
      tauto
    case fresh =>
      intro b hb hb'
      simp only [List.mem_append, List.mem_cons] at hb hb'
      obtain rfl : b = x := by tauto
      exact hx
    case others =>
      intro b hb hb'
      rw [hfull] at hb
      simp only [List.mem_append, List.mem_cons, not_or] at hb hb'
      exact hother b hb.2.2.1 hb'.2.1 hb.2.1
  refine ⟨m', hlink, ?_, hfreed, hshape⟩
  obtain ⟨-, -, hprevq', -⟩ := Heap.fields hq'
  obtain ⟨-, hnextx', hprevx', hdatax'⟩ := Heap.fields hx'
  obtain ⟨-, hnextp', -, -⟩ := Heap.fields hp'
  have hr : Rewired m m' p x q := rewired_of_nodes hp hq hp' hq' hother
  have hfresh' : x ∉ dl.head :: ((n₁ ++ n₂) ++ [dl.tail]) := by rwa [hfull]
  obtain ⟨hhead, htail⟩ := hr.sentinels h hfresh'
  constructor
  case chain =>
    rw [hfull']
    exact hchain.insert hfresh hnextp' hnextx' hr.next hprevq' hprevx' hr.prev
  case allocated =>
    rw [hfull']
    intro b hb
    by_cases hbx : b = x
    · exact ⟨_, hbx ▸ hx'⟩
    · refine hr.allocated b hbx (halloc b ?_)
      simp only [List.mem_append, List.mem_cons] at hb ⊢
      tauto
  case headData => exact hhead
  case tailData => exact htail
  case data =>
    obtain ⟨hleft, hright⟩ := data_split h.data hlen
    have hmem : x ∉ n₁ ++ n₂ := fun hin => hfresh' (List.mem_cons_of_mem _ (List.mem_append_left _ hin))
    rw [List.mem_append, not_or] at hmem
    rw [List.map_append, List.map_append, List.map_cons, List.map_cons, hdatax',
      hr.map_data hmem.1, hr.map_data hmem.2, hleft, hright]

/-- **A node is taken out of the list**, and its data out of the sequence. -/
theorem ListRep.unlink (h : ListRep m dl (n₁ ++ x :: n₂) (L₁ ++ d :: L₂))
    (hlen : n₁.length = L₁.length) (freed : List δ) :
    ∃ n m', m.nodes x = some n ∧ n.data = some d ∧ bypassNode m n.prev n.next = some m' ∧
      m'.freed = m.freed ∧ ListRep { m'.free x with freed } dl (n₁ ++ n₂) (L₁ ++ L₂) ∧
      Reshaped m { m'.free x with freed } dl (n₁ ++ x :: n₂) (n₁ ++ n₂) := by
  obtain ⟨u, p, q, v, hu, hv⟩ := exists_cut dl n₁ n₂
  have hfull : dl.head :: ((n₁ ++ x :: n₂) ++ [dl.tail]) = u ++ p :: x :: q :: v :=
    cut_append hu hv [x]
  have hfull' : dl.head :: ((n₁ ++ n₂) ++ [dl.tail]) = u ++ p :: q :: v := cut_append hu hv []
  have hchain := h.chain
  have halloc := h.allocated
  rw [hfull] at hchain halloc
  obtain ⟨hp_mem, hx_mem⟩ := not_mem_of_nodup hchain.nodup
  obtain ⟨hnextp, hprevx⟩ := hchain.linked.links
  obtain ⟨hnextx, hprevq⟩ : m.next x = some q ∧ m.prev q = some x := by
    refine Linked.links (u := u ++ [p]) (v := v) ?_
    rw [List.append_assoc, List.singleton_append]
    exact hchain.linked
  obtain ⟨np, hp⟩ := halloc p (by simp)
  obtain ⟨nx, hx⟩ := halloc x (by simp)
  obtain ⟨nq, hq⟩ := halloc q (by simp)
  have hqx : q ≠ x := by
    rintro rfl
    exact hx_mem (by simp)
  have hpx : p ≠ x := by
    rintro rfl
    exact hx_mem (by simp)
  have hqp : q ≠ p := by
    rintro rfl
    exact hp_mem (by simp)
  obtain ⟨-, hnx, hpx', hdx⟩ := Heap.fields hx
  have hnx : nx.next = some q := hnx.symm.trans hnextx
  have hpx' : nx.prev = some p := hpx'.symm.trans hprevx
  obtain ⟨hleft, hright⟩ := data_split h.data hlen
  obtain ⟨hdata_x, hright⟩ := List.cons.inj hright
  obtain ⟨m', hbypass, hfreed, hq', hp', hother⟩ : ∃ m', bypassNode m (some p) (some q) = some m' ∧
      m'.freed = m.freed ∧
      (m'.free x).nodes q = some { nq with prev := some p } ∧
      (m'.free x).nodes p = some { np with next := some q } ∧
      ∀ b, b ≠ q → b ≠ x → b ≠ p → (m'.free x).nodes b = m.nodes b := by
    refine ⟨_, bypassNode_eq hp hq hqp, rfl, ?_, ?_, ?_⟩
    · exact (Function.update_of_ne hqx _ _).trans (if_pos rfl)
    · exact (Function.update_of_ne hpx _ _).trans ((if_neg hqp.symm).trans (if_pos rfl))
    · intro b hbq hbx hbp
      exact (Function.update_of_ne hbx _ _).trans ((if_neg hbq).trans (if_neg hbp))
  have hshape : Reshaped m { m'.free x with freed } dl (n₁ ++ x :: n₂) (n₁ ++ n₂) := by
    constructor
    case gone =>
      intro b hb hb'
      simp only [List.mem_append, List.mem_cons] at hb hb'
      obtain rfl : b = x := by tauto
      exact Function.update_self ..
    case fresh =>
      intro b hb hb'
      refine absurd ?_ hb'
      simp only [List.mem_append, List.mem_cons] at hb ⊢
      tauto
    case others =>
      intro b hb _
      rw [hfull] at hb
      simp only [List.mem_append, List.mem_cons, not_or] at hb
      exact hother b hb.2.2.2.1 hb.2.2.1 hb.2.1
  refine ⟨nx, m', hx, hdx.symm.trans hdata_x, by rw [hpx', hnx]; exact hbypass, hfreed, ?_, hshape⟩
  obtain ⟨-, -, hprevq', -⟩ := Heap.fields hq'
  obtain ⟨-, hnextp', -, -⟩ := Heap.fields hp'
  have hr : Rewired m (m'.free x) p x q := rewired_of_nodes hp hq hp' hq' hother
  have hx_mem' : x ∉ dl.head :: ((n₁ ++ n₂) ++ [dl.tail]) := by rwa [hfull']
  obtain ⟨hhead, htail⟩ := hr.sentinels h hx_mem'
  constructor
  case chain =>
    rw [hfull']
    exact hchain.remove hnextp' hr.next hprevq' hr.prev
  case allocated =>
    rw [hfull']
    intro b hb
    have hbx : b ≠ x := by
      rintro rfl
      exact hx_mem hb
    refine hr.allocated b hbx (halloc b ?_)
    simp only [List.mem_append, List.mem_cons] at hb ⊢
    tauto
  case headData => exact hhead
  case tailData => exact htail
  case data =>
    have hmem : x ∉ n₁ ++ n₂ := fun hin => hx_mem' (List.mem_cons_of_mem _ (List.mem_append_left _ hin))
    refine (hr.map_data hmem).trans ?_
    rw [List.map_append, List.map_append, hleft, hright]

/-- **A list is left alone by what happens to other nodes.** -/
theorem ListRep.congr (h : ListRep m dl nodes L) {m' : Heap δ}
    (hsame : ∀ b ∈ dl.head :: (nodes ++ [dl.tail]), m'.nodes b = m.nodes b) :
    ListRep m' dl nodes L := by
  constructor
  case chain =>
    refine h.chain.congr ?_ ?_
    · intro b hb
      rw [Heap.next, Heap.next, hsame b hb]
    · intro b hb
      rw [Heap.prev, Heap.prev, hsame b hb]
  case allocated =>
    intro b hb
    rw [hsame b hb]
    exact h.allocated b hb
  case headData =>
    rw [Heap.data, hsame dl.head (by simp)]
    exact h.headData
  case tailData =>
    rw [Heap.data, hsame dl.tail (by simp)]
    exact h.tailData
  case data =>
    rw [← h.data]
    refine List.map_congr_left ?_
    intro b hb
    rw [Heap.data, Heap.data, hsame b (List.mem_cons_of_mem _ (List.mem_append_left _ hb))]

/-- A node that is not in use is none of the list. -/
theorem ListRep.ne_of_free (h : ListRep m dl nodes L) (hx : m.nodes x = none) {b : Addr}
    (hb : b ∈ dl.head :: (nodes ++ [dl.tail])) : b ≠ x := by
  rintro rfl
  obtain ⟨n, hn⟩ := h.allocated b hb
  rw [hx] at hn
  cases hn

/-- The list while a new node is being prepared. -/
theorem ListRep.prepare (h : ListRep m dl nodes L) (hx : m.nodes x = none) (n : DListNode δ) :
    ListRep { m with nodes := Function.update m.nodes x (some n) } dl nodes L :=
  h.congr fun _ hb => Function.update_of_ne (h.ne_of_free hx hb) _ _

end Rewiring

/-! ## Calls -/

/-- A call on a list; `node` is what `dlist_alloc` gives in it. -/
inductive DlistCall (δ : Type) where
  | add (node : Option Addr) (index : ℤ) (data : Option δ)
  | attach (node : Option Addr) (data : Option δ)
  | get (index : ℤ)
  | delete (index : ℤ)
  | remove (index : ℤ)

/-- What a call returns and does to the heap; for `dlist_get` whether it finds a node. -/
def DlistCall.run (fuel : ℕ) (m : Heap δ) (dl : DList) : DlistCall δ → Option (Ret × Heap δ)
  | .add node index data => dlistAdd fuel m node (some dl) index data
  | .attach node data => dlistAttach m node (some dl) data
  | .get index => (dlistGet fuel m (some dl) index).map fun p => (if p.isSome then .ok else .fault, m)
  | .delete index => dlistDelete fuel m (some dl) index
  | .remove index => dlistRemove fuel m (some dl) index

/-- An allocation gives no node that is in use. -/
def DlistCall.AllocatesFresh (m : Heap δ) : DlistCall δ → Prop
  | .add node _ _ => ∀ a ∈ node, m.nodes a = none
  | .attach node _ => ∀ a ∈ node, m.nodes a = none
  | _ => True

instance (m : Heap δ) (c : DlistCall δ) : Decidable (c.AllocatesFresh m) :=
  match c with
  | .add node _ _ => inferInstanceAs (Decidable (∀ a ∈ node, m.nodes a = none))
  | .attach node _ => inferInstanceAs (Decidable (∀ a ∈ node, m.nodes a = none))
  | .get _ => inferInstanceAs (Decidable True)
  | .delete _ => inferInstanceAs (Decidable True)
  | .remove _ => inferInstanceAs (Decidable True)

/-- What a call is to do to the sequence; `none` is a failure. -/
def DlistCall.apply (L : List δ) : DlistCall δ → Option (List δ)
  | .add (some _) index (some d) =>
      if 0 ≤ index ∧ index ≤ L.length then some (L.insertIdx index.toNat d) else none
  | .attach (some _) (some d) => some (L ++ [d])
  | .get index => if 0 ≤ index ∧ index < L.length then some L else none
  | .delete index => if 0 ≤ index ∧ index < L.length then some (L.eraseIdx index.toNat) else none
  | .remove index => if 0 ≤ index ∧ index < L.length then some (L.eraseIdx index.toNat) else none
  | _ => none

/-- A call succeeds, and the list then stands for the expected sequence; or it reports a failure and
leaves the heap as it is. -/
def Outcome (m : Heap δ) (dl : DList) (r : Option (Ret × Heap δ)) : Option (List δ) → Prop
  | some L' => ∃ m' nodes', r = some (.ok, m') ∧ ListRep m' dl nodes' L'
  | none => ∃ ret, ret ≠ .ok ∧ r = some (ret, m)

/-- The same, with what happens to the nodes and which data are freed. -/
def Traced (m : Heap δ) (dl : DList) (nodes : List Addr) (freed : List δ)
    (r : Option (Ret × Heap δ)) : Option (List δ) → Prop
  | some L' => ∃ m' nodes', r = some (.ok, m') ∧ ListRep m' dl nodes' L' ∧
      m'.freed = m.freed ++ freed ∧ Reshaped m m' dl nodes nodes'
  | none => ∃ ret, ret ≠ .ok ∧ r = some (ret, m)

theorem Traced.outcome {m : Heap δ} {dl : DList} {nodes : List Addr} {freed : List δ}
    {r : Option (Ret × Heap δ)} {expected : Option (List δ)} (h : Traced m dl nodes freed r expected) :
    Outcome m dl r expected := by
  cases expected with
  | none => exact h
  | some L' =>
    obtain ⟨m', nodes', hr, hrep, -⟩ := h
    exact ⟨m', nodes', hr, hrep⟩

/-- The data that a call frees. -/
def DlistCall.frees (L : List δ) : DlistCall δ → List δ
  | .delete index => L[index.toNat]?.toList
  | _ => []

section Calls

variable {m : Heap δ} {dl : DList} {nodes n₁ n₂ u v : List Addr} {L : List δ} {d : δ}
  {p q x : Addr} {fuel : ℕ}

theorem insertIdx_length_append {α : Type*} (u v : List α) (a : α) :
    (u ++ v).insertIdx u.length a = u ++ a :: v := by
  induction u with
  | nil => rfl
  | cons b u ih => simpa using ih

/-- The new node, with its data. -/
theorem Heap.calloc_assign (d : δ) (hx : m.nodes x = none) :
    ∃ m', m.calloc (some x) = some m' ∧ (m'.assign (some x) fun n => { n with data := some d }) =
      some { m with nodes := Function.update m.nodes x (some { data := some d }) } := by
  refine ⟨{ m with nodes := Function.update m.nodes x (some {}) }, ?_, ?_⟩
  · rw [Heap.calloc, hx]
  · rw [Heap.assign_eq (Function.update_self ..)]
    simp only [Function.update_idem]

/-- `dlist_add` finds the node before the place: the one at the index before, or the head. -/
theorem ListRep.preNode_eq (h : ListRep m dl (n₁ ++ n₂) L) (hfuel : L.length < fuel)
    (hu : dl.head :: n₁ = u ++ [p]) {index : ℤ} (hindex : index = n₁.length) :
    preNode fuel m dl index = some (some p) := by
  have hplace : (dl.head :: (n₁ ++ n₂))[n₁.length]? = some p := by
    have hlen : n₁.length = u.length := by
      have hcount := congrArg List.length hu
      simpa using hcount
    rw [← List.cons_append, hu, hlen, List.append_assoc, List.singleton_append,
      List.getElem?_append_right (Nat.le_refl _), Nat.sub_self]
    rfl
  unfold preNode
  by_cases hzero : index = 0
  · have hnil : n₁.length = 0 := by omega
    rw [hnil] at hplace
    rw [if_pos hzero]
    exact congrArg some hplace
  · obtain ⟨k, hk⟩ := Nat.exists_eq_succ_of_ne_zero (show n₁.length ≠ 0 by omega)
    rw [hk, List.getElem?_cons_succ] at hplace
    have hnat : (index - 1).toNat = k := by omega
    rw [if_neg hzero, h.dlistGet_eq hfuel, if_pos (by omega), hnat, hplace]

/-- **`dlist_add`** inserts at every index up to the length. -/
theorem ListRep.add (h : ListRep m dl nodes L) (hfuel : L.length < fuel) {node : Option Addr}
    {index : ℤ} {data : Option δ} (hfresh : ∀ a ∈ node, m.nodes a = none) :
    Traced m dl nodes [] (dlistAdd fuel m node (some dl) index data)
      (DlistCall.apply L (.add node index data)) := by
  unfold dlistAdd
  cases data with
  | none =>
    have hspec : DlistCall.apply L (.add node index none) = none := by cases node <;> rfl
    rw [hspec]
    exact ⟨.fault, by decide, rfl⟩
  | some d =>
    simp only [Option.isNone_some, Bool.false_or, decide_eq_true_eq, h.dlistLen_eq hfuel,
      Option.bind_eq_bind, Option.bind_some]
    by_cases hrange : 0 ≤ index ∧ index ≤ L.length
    · rw [if_neg (by omega), if_neg (by omega)]
      cases node with
      | none => exact ⟨.oom, by decide, rfl⟩
      | some x =>
        -- the list is cut at the index, and the node goes in between
        have hx : m.nodes x = none := hfresh x rfl
        have hlen := h.length_eq
        obtain ⟨n₁, n₂, rfl, hn₁⟩ : ∃ n₁ n₂, nodes = n₁ ++ n₂ ∧ n₁.length = index.toNat :=
          ⟨nodes.take index.toNat, nodes.drop index.toNat, by simp, by simp; omega⟩
        obtain ⟨L₁, L₂, rfl, hL₁⟩ : ∃ L₁ L₂, L = L₁ ++ L₂ ∧ L₁.length = index.toNat :=
          ⟨L.take index.toNat, L.drop index.toNat, by simp, by simp; omega⟩
        obtain ⟨u, p, q, v, hu, hv⟩ := exists_cut dl n₁ n₂
        obtain ⟨m', hlink, hrep, hfreed, hshape⟩ := h.link (d := d) (hn₁.trans hL₁.symm) hx hu hv
        have hprep := h.prepare hx { data := some d }
        have hpre := hprep.preNode_eq hfuel hu (show index = n₁.length by omega)
        obtain ⟨np, hp⟩ := hprep.allocated p (by
          rw [show dl.head :: ((n₁ ++ n₂) ++ [dl.tail]) = u ++ p :: q :: v from
            cut_append hu hv []]
          simp)
        obtain ⟨hderef, hnext, -, -⟩ := Heap.fields hp
        have hq : np.next = some q := by
          have hlinked := hprep.chain.linked
          rw [show dl.head :: ((n₁ ++ n₂) ++ [dl.tail]) = u ++ p :: q :: v from
            cut_append hu hv []] at hlinked
          exact hnext.symm.trans hlinked.links.1
        have hspec : DlistCall.apply (L₁ ++ L₂) (.add (some x) index (some d)) =
            some (L₁ ++ d :: L₂) := by
          rw [DlistCall.apply, if_pos hrange, ← hL₁, insertIdx_length_append]
        rw [hspec]
        refine ⟨m', _, ?_, hrep, by rw [hfreed, List.append_nil], hshape⟩
        obtain ⟨m₁, hcalloc, hassign⟩ := Heap.calloc_assign d hx
        simp only [hcalloc, hassign, Option.isNone_some, Bool.false_eq_true, if_false,
          Option.bind_some, hpre, hderef, hq, hlink]
    · have hspec : DlistCall.apply L (.add node index (some d)) = none := by
        cases node with
        | none => rfl
        | some x => exact if_neg hrange
      rw [hspec]
      by_cases hneg : index < 0
      · rw [if_pos hneg]
        exact ⟨.fault, by decide, rfl⟩
      · rw [if_neg hneg, if_pos (by omega)]
        exact ⟨.fault, by decide, rfl⟩

/-- **`dlist_attach`** appends. -/
theorem ListRep.attach (h : ListRep m dl nodes L) {node : Option Addr} {data : Option δ}
    (hfresh : ∀ a ∈ node, m.nodes a = none) :
    Traced m dl nodes [] (dlistAttach m node (some dl) data)
      (DlistCall.apply L (.attach node data)) := by
  unfold dlistAttach
  cases data with
  | none =>
    have hspec : DlistCall.apply L (.attach node none) = none := by cases node <;> rfl
    rw [hspec]
    exact ⟨.fault, by decide, rfl⟩
  | some d =>
    cases node with
    | none => exact ⟨.fault, by decide, rfl⟩
    | some x =>
      have hx : m.nodes x = none := hfresh x rfl
      obtain ⟨u, p, q, v, hu, hv⟩ := exists_cut dl nodes []
      obtain ⟨rfl, rfl⟩ : dl.tail = q ∧ [] = v := List.cons.inj hv
      have hrep₀ : ListRep m dl (nodes ++ []) (L ++ []) := by simpa using h
      obtain ⟨m', hlink, hrep, hfreed, hshape⟩ := hrep₀.link (d := d) h.length_eq hx hu hv
      rw [List.append_nil] at hshape
      have hprep := h.prepare hx { data := some d }
      obtain ⟨nt, ht⟩ := hprep.allocated dl.tail (by simp)
      obtain ⟨hderef, -, hprev, -⟩ := Heap.fields ht
      have hp : nt.prev = some p := by
        have hlinked := hprep.chain.linked
        rw [← List.cons_append, hu, List.append_assoc, List.singleton_append] at hlinked
        exact hprev.symm.trans hlinked.links.2
      refine ⟨m', _, ?_, hrep, by rw [hfreed, List.append_nil], hshape⟩
      obtain ⟨m₁, hcalloc, hassign⟩ := Heap.calloc_assign d hx
      simp only [hcalloc, hassign, Option.isNone_some, Bool.false_eq_true, if_false,
        Option.bind_eq_bind, Option.bind_some, hderef, hp, hlink]

/-- **`dlist_delete` and `dlist_remove`** take out the element at the index. -/
theorem ListRep.unlinkNode (h : ListRep m dl nodes L) (hfuel : L.length < fuel) {index : ℤ}
    (dispose : Option δ → List δ) :
    Traced m dl nodes (dispose L[index.toNat]?) (unlinkNode fuel m (some dl) index dispose)
      (if 0 ≤ index ∧ index < L.length then some (L.eraseIdx index.toNat) else none) := by
  unfold EasyIpc.unlinkNode
  simp only [h.dlistLen_eq hfuel, h.dlistGet_eq hfuel, Option.bind_eq_bind, Option.bind_some]
  by_cases hrange : 0 ≤ index ∧ index < L.length
  · rw [if_pos hrange, if_neg (by omega), if_neg (by omega), if_pos hrange.1]
    have hlen := h.length_eq
    obtain ⟨n₁, x, n₂, rfl, hn₁⟩ : ∃ n₁ x n₂, nodes = n₁ ++ x :: n₂ ∧ n₁.length = index.toNat := by
      have hlt : index.toNat < nodes.length := by omega
      exact ⟨nodes.take index.toNat, nodes[index.toNat], nodes.drop (index.toNat + 1), by simp,
        by simp; omega⟩
    obtain ⟨L₁, d, L₂, rfl, hL₁⟩ : ∃ L₁ d L₂, L = L₁ ++ d :: L₂ ∧ L₁.length = index.toNat := by
      have hlt : index.toNat < L.length := by omega
      exact ⟨L.take index.toNat, L[index.toNat], L.drop (index.toNat + 1), by simp, by simp; omega⟩
    obtain ⟨n, m', hx, hd, hbypass, hfreed, hrep, hshape⟩ := h.unlink (hn₁.trans hL₁.symm)
      (m.freed ++ dispose (some d))
    have hdata : (L₁ ++ d :: L₂)[index.toNat]? = some d := by
      rw [← hL₁, List.getElem?_append_right (Nat.le_refl _), Nat.sub_self]
      rfl
    have hget : (n₁ ++ x :: n₂)[index.toNat]? = some x := by
      rw [← hn₁, List.getElem?_append_right (Nat.le_refl _), Nat.sub_self]
      rfl
    have herase : (L₁ ++ d :: L₂).eraseIdx index.toNat = L₁ ++ L₂ := by
      rw [← hL₁, List.eraseIdx_append_of_length_le (Nat.le_refl _), Nat.sub_self,
        List.eraseIdx_cons_zero]
    rw [herase, hdata]
    refine ⟨_, _, ?_, hrep, rfl, hshape⟩
    simp only [hget, (Heap.fields hx).1, hd, hbypass, hfreed, Option.bind_some]
  · rw [if_neg hrange]
    by_cases hneg : index < 0
    · rw [if_pos hneg]
      exact ⟨.fault, by decide, rfl⟩
    · rw [if_neg hneg, if_pos (by omega)]
      exact ⟨.fault, by decide, rfl⟩

/-- Every call does to the sequence what it should, and frees what it should. -/
theorem ListRep.run_traced (h : ListRep m dl nodes L) (hfuel : L.length < fuel) {c : DlistCall δ}
    (hfresh : c.AllocatesFresh m) : Traced m dl nodes (c.frees L) (c.run fuel m dl) (c.apply L) := by
  cases c with
  | add node index data => exact h.add hfuel hfresh
  | attach node data => exact h.attach hfresh
  | get index =>
    simp only [DlistCall.run, h.dlistGet_eq hfuel, Option.map_some, DlistCall.apply]
    have hlen := h.length_eq
    by_cases hrange : 0 ≤ index ∧ index < L.length
    · rw [if_pos hrange, if_pos hrange.1, List.getElem?_eq_getElem (by omega)]
      refine ⟨m, nodes, rfl, h, (List.append_nil _).symm, ?_⟩
      exact ⟨fun b hb hb' => absurd hb hb', fun b hb hb' => absurd hb hb', fun b _ _ => rfl⟩
    · rw [if_neg hrange]
      refine ⟨.fault, by decide, ?_⟩
      by_cases hneg : 0 ≤ index
      · rw [if_pos hneg, List.getElem?_eq_none (by omega)]
        rfl
      · rw [if_neg hneg]
        rfl
  | delete index => exact h.unlinkNode hfuel Option.toList
  | remove index => exact h.unlinkNode hfuel fun _ => []

/-- **Every call does to the sequence what it should**, or fails and leaves the heap as it is. -/
theorem ListRep.run (h : ListRep m dl nodes L) (hfuel : L.length < fuel) {c : DlistCall δ}
    (hfresh : c.AllocatesFresh m) : Outcome m dl (c.run fuel m dl) (c.apply L) :=
  (h.run_traced hfuel hfresh).outcome

/-- Without the fuel to count the list nothing is taken out. -/
theorem fault_of_unlinkNode (hlen : dlistLen fuel m (some dl) = none) {index : ℤ}
    {dispose : Option δ → List δ} {ret : Ret} {m' : Heap δ}
    (h : EasyIpc.unlinkNode fuel m (some dl) index dispose = some (ret, m')) :
    ret = .fault ∧ m' = m := by
  simp only [EasyIpc.unlinkNode, hlen, Option.bind_eq_bind, Option.bind_none] at h
  split at h
  · cases h
    exact ⟨rfl, rfl⟩
  · cases h

/-- A call that returns without the fuel to count the list has failed and left the heap alone, or is
`dlist_attach`. -/
theorem ListRep.run_short (h : ListRep m dl nodes L) (hfuel : ¬ L.length < fuel) {c : DlistCall δ}
    {ret : Ret} {m' : Heap δ} (hrun : c.run fuel m dl = some (ret, m')) :
    (ret = .fault ∧ m' = m) ∨ ∃ node data, c = .attach node data := by
  have hlen : dlistLen fuel m (some dl) = none := by rw [h.dlistLen_eq_ite, if_neg hfuel]
  cases c with
  | add node index data =>
    simp only [DlistCall.run, dlistAdd, hlen, Option.bind_eq_bind, Option.bind_none] at hrun
    split at hrun
    · cases hrun
      exact Or.inl ⟨rfl, rfl⟩
    · cases hrun
  | attach node data => exact Or.inr ⟨node, data, rfl⟩
  | get index =>
    simp only [DlistCall.run, dlistGet, hlen, Option.bind_eq_bind, Option.bind_none] at hrun
    split at hrun
    · cases hrun
      exact Or.inl ⟨rfl, rfl⟩
    · cases hrun
  | delete index => exact Or.inl (fault_of_unlinkNode hlen hrun)
  | remove index =>
    exact Or.inl (fault_of_unlinkNode hlen (show dlistRemove fuel m (some dl) index = _ from hrun))

/-- What a call that has returned has done, whatever fuel it was given: it has failed and left the heap
as it is, or it has done to the sequence what it should. -/
theorem ListRep.run_cases (h : ListRep m dl nodes L) {c : DlistCall δ} (hfresh : c.AllocatesFresh m)
    {ret : Ret} {m' : Heap δ} (hrun : c.run fuel m dl = some (ret, m')) :
    (ret ≠ .ok ∧ m' = m) ∨ ∃ L' nodes', ret = .ok ∧ c.apply L = some L' ∧ ListRep m' dl nodes' L' ∧
      m'.freed = m.freed ++ c.frees L ∧ Reshaped m m' dl nodes nodes' := by
  have hcases : Traced m dl nodes (c.frees L) (some (ret, m')) (c.apply L) →
      (ret ≠ .ok ∧ m' = m) ∨ ∃ L' nodes', ret = .ok ∧ c.apply L = some L' ∧
        ListRep m' dl nodes' L' ∧ m'.freed = m.freed ++ c.frees L ∧
        Reshaped m m' dl nodes nodes' := by
    intro htraced
    cases hspec : c.apply L with
    | none =>
      rw [hspec] at htraced
      obtain ⟨ret', hret, he⟩ := htraced
      cases he
      exact Or.inl ⟨hret, rfl⟩
    | some L' =>
      rw [hspec] at htraced
      obtain ⟨m'', nodes', he, hrep, hfreed, hshape⟩ := htraced
      cases he
      exact Or.inr ⟨L', nodes', rfl, rfl, hrep, hfreed, hshape⟩
  by_cases hfuel : L.length < fuel
  · exact hcases (hrun ▸ h.run_traced hfuel hfresh)
  · rcases h.run_short hfuel hrun with ⟨rfl, rfl⟩ | ⟨node, data, rfl⟩
    · exact Or.inl ⟨by decide, rfl⟩
    · have htraced : Traced m dl nodes [] (dlistAttach m node (some dl) data)
          (DlistCall.apply L (.attach node data)) := h.attach hfresh
      rw [show dlistAttach m node (some dl) data = some (ret, m') from hrun] at htraced
      exact hcases htraced

/-- **A call keeps the list a list.** -/
theorem ListRep.step (h : ListRep m dl nodes L) {c : DlistCall δ} (hfresh : c.AllocatesFresh m)
    {ret : Ret} {m' : Heap δ} (hrun : c.run fuel m dl = some (ret, m')) :
    ∃ nodes' L', ListRep m' dl nodes' L' := by
  rcases h.run_cases hfresh hrun with ⟨-, rfl⟩ | ⟨L', nodes', -, -, hrep, -⟩
  · exact ⟨nodes, L, h⟩
  · exact ⟨nodes', L', hrep⟩

/-! ## Runs -/

theorem Heap.calloc_eq_some {m' : Heap δ} (h : m.calloc (some x) = some m') :
    m.nodes x = none ∧ m' = { m with nodes := Function.update m.nodes x (some {}) } := by
  unfold Heap.calloc at h
  cases hx : m.nodes x with
  | none =>
    simp only [hx, Option.some.injEq] at h
    exact ⟨rfl, h.symm⟩
  | some n => simp [hx] at h

/-- Two sentinels that point to each other are a list. -/
theorem ListRep.nil (hhead : m.nodes dl.head = some { next := some dl.tail })
    (htail : m.nodes dl.tail = some { prev := some dl.head }) (hne : dl.tail ≠ dl.head) :
    ListRep m dl [] [] := by
  obtain ⟨-, hnext, hprev, hdata⟩ := Heap.fields hhead
  obtain ⟨-, hnext', hprev', hdata'⟩ := Heap.fields htail
  constructor
  case chain =>
    constructor
    case linked => exact linked_cons_cons.2 ⟨⟨hnext, hprev'⟩, List.isChain_singleton _⟩
    case nodup => simpa using hne.symm
    case first =>
      intro a ha
      cases ha
      exact hprev
    case last =>
      intro b hb
      cases hb
      exact hnext'
  case allocated =>
    intro a ha
    rcases List.mem_pair.1 ha with rfl | rfl
    · exact ⟨_, hhead⟩
    · exact ⟨_, htail⟩
  case headData => exact hdata
  case tailData => exact hdata'
  case data => rfl

/-- A new list is made of two nodes that were free. -/
theorem dlistCreate_nodes {m' : Heap δ} {block : Bool} {head tail : Option Addr}
    (h : dlistCreate m block head tail = some (some dl, m')) :
    m.nodes dl.head = none ∧ m.nodes dl.tail = none ∧ dl.tail ≠ dl.head ∧
      m'.nodes dl.head = some { next := some dl.tail } ∧
      m'.nodes dl.tail = some { prev := some dl.head } ∧ m'.freed = m.freed ∧
      ∀ b, b ≠ dl.head → b ≠ dl.tail → m'.nodes b = m.nodes b := by
  unfold dlistCreate at h
  cases block with
  | false => cases h
  | true =>
    simp only [Bool.not_true, Bool.false_eq_true, if_false, Option.bind_eq_bind] at h
    cases head with
    | none => cases h
    | some a =>
      obtain ⟨m₁, hm₁, h⟩ := Option.bind_eq_some_iff.1 h
      obtain ⟨hfree, rfl⟩ := Heap.calloc_eq_some hm₁
      cases tail with
      | none => cases h
      | some b =>
        obtain ⟨m₂, hm₂, h⟩ := Option.bind_eq_some_iff.1 h
        obtain ⟨hb, rfl⟩ := Heap.calloc_eq_some hm₂
        have hne : b ≠ a := by
          intro hba
          have hused := (Function.update_self a (some {}) m.nodes).symm.trans (hba ▸ hb)
          cases hused
        have ha : Function.update (Function.update m.nodes a (some {})) b (some {}) a = some {} :=
          (Function.update_of_ne hne.symm _ _).trans (Function.update_self ..)
        simp only at h
        rw [Heap.assign_eq ha, Option.bind_some, Heap.assign_eq
          ((Function.update_of_ne hne _ _).trans (Function.update_self ..)), Option.bind_some] at h
        cases h
        refine ⟨hfree, (Function.update_of_ne hne _ _).symm.trans hb, hne, ?_, ?_, rfl, ?_⟩
        · exact (Function.update_of_ne hne.symm _ _).trans (Function.update_self ..)
        · exact Function.update_self ..
        · intro c hca hcb
          simp only [Function.update_of_ne hca, Function.update_of_ne hcb]

/-- **A new list is empty.** -/
theorem dlistCreate_rep {m' : Heap δ} {block : Bool} {head tail : Option Addr}
    (h : dlistCreate m block head tail = some (some dl, m')) : ListRep m' dl [] [] := by
  obtain ⟨-, -, hne, hhead, htail, -⟩ := dlistCreate_nodes h
  exact ListRep.nil hhead htail hne

/-- A list that could not be made leaves the heap as it was. -/
theorem dlistCreate_fails {m' : Heap δ} {block : Bool} {head tail : Option Addr}
    (h : dlistCreate m block head tail = some (none, m')) : m' = m := by
  unfold dlistCreate at h
  cases block with
  | false =>
    cases h
    rfl
  | true =>
    simp only [Bool.not_true, Bool.false_eq_true, if_false, Option.bind_eq_bind] at h
    cases head with
    | none =>
      cases h
      rfl
    | some a =>
      obtain ⟨m₁, hm₁, h⟩ := Option.bind_eq_some_iff.1 h
      obtain ⟨ha, rfl⟩ := Heap.calloc_eq_some hm₁
      cases tail with
      | none =>
        -- the first sentinel is given back
        cases h
        rw [Heap.free, Function.update_idem, Function.update_eq_self_iff.2 ha.symm]
      | some b =>
        obtain ⟨m₂, -, h⟩ := Option.bind_eq_some_iff.1 h
        obtain ⟨m₃, -, h⟩ := Option.bind_eq_some_iff.1 h
        obtain ⟨m₄, -, h⟩ := Option.bind_eq_some_iff.1 h
        cases h

/-- The calls on one list, each with the fuel it is given. -/
def dlistLts (dl : DList) (m : Heap δ) : Lts (Heap δ) (ℕ × DlistCall δ) where
  init := m
  step m act := (act.2.run act.1 m dl).map Prod.snd

/-- The guard that allocations give no node that is in use. -/
def AllocatorFresh (m : Heap δ) (act : ℕ × DlistCall δ) (_ : Heap δ) : Prop :=
  act.2.AllocatesFresh m

instance (m : Heap δ) (act : ℕ × DlistCall δ) (m' : Heap δ) : Decidable (AllocatorFresh m act m') :=
  inferInstanceAs (Decidable (act.2.AllocatesFresh m))

/-- **Every heap that calls on a new list lead to has a list in it.** -/
theorem reach_rep (h₀ : ListRep m dl [] []) {m' : Heap δ} (h : Reach (dlistLts dl m) AllocatorFresh m') :
    ∃ nodes L, ListRep m' dl nodes L := by
  refine h.invariant (I := fun m => ∃ nodes L, ListRep m dl nodes L) ⟨[], [], h₀⟩ ?_
  rintro s act s' - ⟨nodes, L, hrep⟩ hstep hfresh
  obtain ⟨⟨ret, m''⟩, hrun, rfl⟩ := Option.map_eq_some_iff.1 hstep
  exact hrep.step hfresh hrun

end Calls

/-- Elements are added at both ends and in the middle, one is attached without memory, and the first
is deleted. -/
def sampleCalls : List (ℕ × DlistCall ℕ) :=
  [(1, .add (some 2) 0 (some 70)), (2, .attach (some 3) (some 72)), (3, .add (some 4) 1 (some 71)),
    (4, .attach none (some 73)), (4, .delete 0)]

end EasyIpc
