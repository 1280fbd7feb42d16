import EasyIpc.Lib.SemQueue
import EasyIpc.Lib.Transition

/-!
# The four queues

`recv_mlist` and `recv_alist` of the daemon, `msg_recv_list` and `api_recv_list` of a client: any
number of producers, one consumer, a mutex around the list and a semaphore that is posted after the
mutex has been released.  A section under the mutex is one step, and so is each operation of the
semaphore; `dlist_attach` does not fail here.

What a consumer would do with an empty list differs: `ipcd_msg_pull` and `ipcd_api_pull` return a
pointer that was never set, `ipc_msg_recv_probe` goes back to its wait, and `ipc_api_recv_probe`
goes back with the mutex still locked.

* `MutexQueue` — the state, with what has been put in and what has been given out.
* `queueLts` — a producer attaches, a producer posts, the consumer gets past its wait, runs its
  section, comes round again.
* `Inv` — the state is that of a `SemQueue` which is balanced, so the section finds a head, and the
  steps are those of the `SemQueue` (`Inv.refines`).
* `Inv.run_history`, `Inv.length_le_work` — what the sections of a run take and give, and how long the
  queue can go on without a new element.
-/

namespace EasyIpc

open Concurrent Transition

/-- A list behind its mutex and its semaphore.  A thread is known by a number; `posting` are the
producers between their section and their post.  The consumer holds what its section has given it,
which is `none` for a pointer that was not set. -/
structure MutexQueue (α : Type*) where
  list : List α := []
  sem : ℕ := 0
  locked : Bool := false
  posting : List ℕ := []
  consumer : Consumer (Option α) := .waiting
  /-- What the producers have attached so far. -/
  put : List α := []
  /-- What the sections of the consumer have given it so far. -/
  got : List (Option α) := []
  deriving DecidableEq, Repr

namespace MutexQueue

variable {α : Type*}

/-! ## The functions -/

/-- The section of a producer. -/
def attach (thread : ℕ) (a : α) (q : MutexQueue α) : MutexQueue α :=
  { q with list := q.list ++ [a], posting := q.posting ++ [thread], put := q.put ++ [a] }

/-- The section of a consumer: it takes the head, and `onEmpty` is what it does without one. -/
def pull (onEmpty : MutexQueue α → MutexQueue α) (q : MutexQueue α) : MutexQueue α :=
  match q.list with
  | [] => onEmpty q
  | a :: list => { q with list, consumer := .holding (some a), got := q.got ++ [some a] }

/-- The section of `ipcd_api_push`. -/
def ipcdApiPush (thread : ℕ) (a : α) : MutexQueue α → MutexQueue α := attach thread a

/-- The section of `ipcd_msg_push`. -/
def ipcdMsgPush (thread : ℕ) (a : α) : MutexQueue α → MutexQueue α := attach thread a

/-- The section of `ipc_msg_push`. -/
def ipcMsgPush (thread : ℕ) (a : α) : MutexQueue α → MutexQueue α := attach thread a

/-- The section of `ipc_api_push`. -/
def ipcApiPush (thread : ℕ) (a : α) : MutexQueue α → MutexQueue α := attach thread a

/-- The mutex is released, and `ret` is returned without having been set. -/
def returnUnset (q : MutexQueue α) : MutexQueue α :=
  { q with consumer := .holding none, got := q.got ++ [none] }

/-- The section of `ipcd_api_pull`. -/
def ipcdApiPull : MutexQueue α → MutexQueue α := pull returnUnset

/-- The section of `ipcd_msg_pull`. -/
def ipcdMsgPull : MutexQueue α → MutexQueue α := pull returnUnset

/-- The section of `ipc_msg_recv_probe`: without a head it releases the mutex and goes on. -/
def ipcMsgRecvProbe : MutexQueue α → MutexQueue α := pull fun q => { q with consumer := .waiting }

/-- The section of `ipc_api_recv_probe`: without a head it goes on and leaves the mutex locked. -/
def ipcApiRecvProbe : MutexQueue α → MutexQueue α :=
  pull fun q => { q with locked := true, consumer := .waiting }

end MutexQueue

/-! ## The system -/

/-- The queues. -/
inductive IpcQueue where
  | recvMlist
  | recvAlist
  | msgRecvList
  | apiRecvList
  deriving DecidableEq, Repr

namespace IpcQueue

variable {α : Type*}

/-- The section of the producers of a queue. -/
def push : IpcQueue → ℕ → α → MutexQueue α → MutexQueue α
  | recvMlist => MutexQueue.ipcdMsgPush
  | recvAlist => MutexQueue.ipcdApiPush
  | msgRecvList => MutexQueue.ipcMsgPush
  | apiRecvList => MutexQueue.ipcApiPush

/-- The section of the consumer of a queue. -/
def take : IpcQueue → MutexQueue α → MutexQueue α
  | recvMlist => MutexQueue.ipcdMsgPull
  | recvAlist => MutexQueue.ipcdApiPull
  | msgRecvList => MutexQueue.ipcMsgRecvProbe
  | apiRecvList => MutexQueue.ipcApiRecvProbe

end IpcQueue

/-- The steps: the section of a producer, its post, and the wait, the section and the next round of
the consumer. -/
inductive QueueAct (α : Type*) where
  | attach (thread : ℕ) (a : α)
  | post (thread : ℕ)
  | wait
  | take
  | next
  deriving DecidableEq, Repr

/-- What a producer brings to its section. -/
def QueueAct.brought {α : Type*} : QueueAct α → Option α
  | .attach _ a => some a
  | _ => none

/-- A step other than to attach a new element. -/
def QueueAct.Old {α : Type*} : QueueAct α → Prop
  | .attach _ _ => False
  | _ => True

namespace MutexQueue

variable {α : Type*} {queue : IpcQueue} {q q' : MutexQueue α}

/-- One step.  A section waits while the mutex is locked, and a producer posts before it attaches
again. -/
def step (queue : IpcQueue) (q : MutexQueue α) : QueueAct α → Option (MutexQueue α)
  | .attach thread a =>
      if q.locked ∨ thread ∈ q.posting then none else some (queue.push thread a q)
  | .post thread =>
      if thread ∈ q.posting then
        some { q with posting := q.posting.erase thread, sem := q.sem + 1 }
      else none
  | .wait =>
      match q.consumer with
      | .waiting =>
          if q.sem = 0 then none else some { q with sem := q.sem - 1, consumer := .woken }
      | _ => none
  | .take =>
      match q.consumer with
      | .woken => if q.locked then none else some (queue.take q)
      | _ => none
  | .next =>
      match q.consumer with
      | .holding _ => some { q with consumer := .waiting }
      | _ => none

/-- A queue from its creation on. -/
def queueLts (α : Type*) (queue : IpcQueue) : Lts (MutexQueue α) (QueueAct α) := ⟨{}, step queue⟩

/-- The queue as the library has it. -/
def view (q : MutexQueue α) : SemQueue (Option α) :=
  ⟨q.list.map some, q.posting.length, q.sem, q.consumer⟩

/-- What every step keeps. -/
structure Inv (q : MutexQueue α) : Prop where
  balanced : q.view.Balanced
  unlocked : q.locked = false
  given : q.put.map some = q.got ++ q.list.map some

theorem inv_init : Inv ({} : MutexQueue α) := ⟨SemQueue.balanced_empty, rfl, rfl⟩

/-- The section of every producer attaches. -/
theorem push_eq (queue : IpcQueue) (thread : ℕ) (a : α) (q : MutexQueue α) :
    queue.push thread a q = q.attach thread a := by
  cases queue <;> rfl

/-- With a head, the section of every consumer takes it. -/
theorem take_cons {a : α} {list : List α} (h : q.list = a :: list) :
    queue.take q = { q with list, consumer := .holding (some a), got := q.got ++ [some a] } := by
  cases queue <;>
    simp [IpcQueue.take, ipcdMsgPull, ipcdApiPull, ipcMsgRecvProbe, ipcApiRecvProbe, pull, h]

/-- A woken consumer finds a head. -/
theorem Inv.exists_head (h : Inv q) (hc : q.consumer = .woken) : ∃ a list, q.list = a :: list := by
  obtain ⟨a, l, hl⟩ := h.balanced.exists_head hc
  cases hlist : q.list with
  | nil =>
    rw [view, hlist] at hl
    simp at hl
  | cons b list => exact ⟨b, list, rfl⟩

/-- What a step does where the invariant holds. -/
inductive QueueEffect (q q' : MutexQueue α) : QueueAct α → Prop
  | attach (thread : ℕ) (a : α) (hq : q' = q.attach thread a) : QueueEffect q q' (.attach thread a)
  | post (thread : ℕ) (hin : thread ∈ q.posting)
      (hq : q' = { q with posting := q.posting.erase thread, sem := q.sem + 1 }) :
      QueueEffect q q' (.post thread)
  | wait (hc : q.consumer = .waiting) (hsem : q.sem ≠ 0)
      (hq : q' = { q with sem := q.sem - 1, consumer := .woken }) : QueueEffect q q' .wait
  /-- The section takes the head, whichever queue it is. -/
  | take (a : α) (list : List α) (hc : q.consumer = .woken) (hlist : q.list = a :: list)
      (hq : q' = { q with list, consumer := .holding (some a), got := q.got ++ [some a] }) :
      QueueEffect q q' .take
  | next (a : Option α) (hc : q.consumer = .holding a) (hq : q' = { q with consumer := .waiting }) :
      QueueEffect q q' .next

theorem Inv.effect (h : Inv q) {act : QueueAct α} (hs : step queue q act = some q') :
    QueueEffect q q' act := by
  cases act with
  | attach thread a =>
    simp only [step, push_eq] at hs
    split at hs
    · simp at hs
    · exact .attach thread a (Option.some.inj hs).symm
  | post thread =>
    simp only [step] at hs
    split at hs
    · rename_i hin
      exact .post thread hin (Option.some.inj hs).symm
    · simp at hs
  | wait =>
    simp only [step] at hs
    split at hs
    · rename_i hc
      split at hs
      · simp at hs
      · rename_i hsem
        exact .wait hc hsem (Option.some.inj hs).symm
    · simp at hs
  | take =>
    simp only [step] at hs
    split at hs
    · rename_i hc
      split at hs
      · simp at hs
      · obtain ⟨a, list, hlist⟩ := h.exists_head hc
        rw [take_cons hlist] at hs
        exact .take a list hc hlist (Option.some.inj hs).symm
    · simp at hs
  | next =>
    simp only [step] at hs
    split at hs
    · rename_i a hc
      exact .next a hc (Option.some.inj hs).symm
    · simp at hs

/-- The same step in the library's queue. -/
def onView (v : SemQueue (Option α)) : QueueAct α → Option (SemQueue (Option α))
  | .attach _ a => some (v.attach (some a))
  | .post _ => v.post
  | .wait => v.wait
  | .take => v.pull
  | .next =>
      match v.consumer with
      | .holding _ => some v.release
      | _ => none

/-- **The queue refines the library's.** -/
theorem Inv.refines (h : Inv q) {act : QueueAct α} (hs : step queue q act = some q') :
    onView q.view act = some q'.view := by
  cases h.effect hs with
  | attach thread a hq => simp [hq, onView, MutexQueue.attach, view, SemQueue.attach]
  | post thread hin hq =>
    have hposts : q.view.posts ≠ 0 := by simpa [view] using List.ne_nil_of_mem hin
    rw [onView, SemQueue.post, if_neg hposts, hq, view, view, List.length_erase_of_mem hin]
  | wait hc hsem hq => simp [hq, onView, SemQueue.wait, view, hc, hsem]
  | take a list hc hlist hq => simp [hq, onView, SemQueue.pull, view, hc, hlist]
  | next a hc hq => simp [hq, onView, SemQueue.release, view, hc]

theorem balanced_onView {v v' : SemQueue (Option α)} (h : v.Balanced) {act : QueueAct α}
    (hv : onView v act = some v') : v'.Balanced := by
  cases act with
  | attach thread a =>
    obtain rfl := Option.some.inj hv
    exact h.attach (some a)
  | post thread => exact h.post hv
  | wait => exact h.wait hv
  | take => exact h.pull hv
  | next =>
    simp only [onView] at hv
    split at hv
    · rename_i a hc
      obtain rfl := Option.some.inj hv
      exact h.release hc
    · simp at hv

/-- Every step keeps the invariant. -/
theorem Inv.step (h : Inv q) {act : QueueAct α} (hs : MutexQueue.step queue q act = some q') :
    Inv q' := by
  have hbalanced := balanced_onView h.balanced (h.refines hs)
  cases h.effect hs with
  | attach thread a hq =>
    refine ⟨hbalanced, hq ▸ h.unlocked, ?_⟩
    simp only [hq, MutexQueue.attach, List.map_append, h.given, List.append_assoc]
  | post thread hin hq => exact ⟨hbalanced, hq ▸ h.unlocked, hq ▸ h.given⟩
  | wait hc hsem hq => exact ⟨hbalanced, hq ▸ h.unlocked, hq ▸ h.given⟩
  | take a list hc hlist hq =>
    refine ⟨hbalanced, hq ▸ h.unlocked, ?_⟩
    simp only [hq, h.given, hlist, List.map_cons, List.append_assoc, List.singleton_append]
  | next a hc hq => exact ⟨hbalanced, hq ▸ h.unlocked, hq ▸ h.given⟩

/-- The invariant holds in every interleaving. -/
theorem Inv.reach (h : Reach (queueLts α queue) Free q) : Inv q :=
  h.invariant inv_init fun _ _ _ _ hi hs _ => hi.step hs

/-! ## What the consumer is given -/

/-- Every permit to be had, or taken, is for an element of the list. -/
theorem Inv.sem_le (h : Inv q) : q.sem + q.consumer.claims ≤ q.list.length := by
  have hbalanced := h.balanced
  simp only [SemQueue.Balanced, view, List.length_map] at hbalanced
  omega

/-- What the consumer has been given are elements that were put in. -/
theorem Inv.none_not_mem_got (h : Inv q) : none ∉ q.got := by
  intro hgot
  have hput : none ∈ q.put.map some := by
    rw [h.given]
    exact List.mem_append_left _ hgot
  simp at hput

/-- What a section of the consumer gives it: what it holds when the section is over. -/
def given (q : MutexQueue α) : QueueAct α → List (Option α)
  | .take => q.consumer.held
  | _ => []

/-- What the sections of the consumer give it in a run. -/
def returned (queue : IpcQueue) : MutexQueue α → List (QueueAct α) → List (Option α)
  | _, [] => []
  | q, act :: acts =>
      match step queue q act with
      | none => []
      | some q' => q'.given act ++ returned queue q' acts

/-- The state remembers what the sections of a run have taken and given. -/
theorem Inv.run_history {acts : List (QueueAct α)} (h : Inv q)
    (hrun : (queueLts α queue).run q acts = some q') :
    q'.put = q.put ++ acts.filterMap QueueAct.brought ∧ q'.got = q.got ++ returned queue q acts := by
  induction acts generalizing q with
  | nil =>
    obtain rfl : q = q' := by simpa [Lts.run] using hrun
    simp [returned]
  | cons act acts ih =>
    obtain ⟨t, hst, hts⟩ := Lts.run_cons hrun
    obtain ⟨hput, hgot⟩ := ih (h.step hst) hts
    have hreturned : returned queue q (act :: acts) = t.given act ++ returned queue t acts := by
      rw [returned, show MutexQueue.step queue q act = some t from hst]
    rw [hput, hgot, hreturned, List.filterMap_cons]
    cases h.effect hst with
    | attach thread a hq => simp [hq, MutexQueue.attach, QueueAct.brought, MutexQueue.given]
    | post thread hin hq => simp [hq, QueueAct.brought, MutexQueue.given]
    | wait hc hsem hq => simp [hq, QueueAct.brought, MutexQueue.given]
    | take a list hc hlist hq => simp [hq, QueueAct.brought, MutexQueue.given, Consumer.held]
    | next a hc hq => simp [hq, QueueAct.brought, MutexQueue.given]

/-- A step without a new element is one of the steps that the queue still takes for what it holds. -/
theorem Inv.work_step (h : Inv q) {act : QueueAct α} (hold : act.Old)
    (hs : MutexQueue.step queue q act = some q') : q'.view.work + 1 = q.view.work := by
  have hview := h.refines hs
  cases act with
  | attach thread a => exact hold.elim
  | post thread => exact SemQueue.work_post hview
  | wait => exact SemQueue.work_wait hview
  | take => exact SemQueue.work_pull hview
  | next =>
    simp only [onView] at hview
    split at hview
    · rename_i a hc
      rw [← Option.some.inj hview]
      exact SemQueue.work_release hc
    · cases hview

/-- Without new elements the queue comes to rest. -/
theorem Inv.length_le_work {acts : List (QueueAct α)} (h : Inv q) (hold : ∀ act ∈ acts, act.Old)
    (hrun : (queueLts α queue).run q acts = some q') : acts.length ≤ q.view.work := by
  have hstep : ∀ s act s', Inv s → act.Old → (queueLts α queue).step s act = some s' →
      Inv s' ∧ s'.view.work + (if (fun _ => true) act = true then 1 else 0) ≤ s.view.work := by
    intro s act s' hs hact hst
    have hwork := hs.work_step hact hst
    exact ⟨hs.step hst, by simp only [if_true]; omega⟩
  have hcount := (Lts.run_countP hstep h hold hrun).2
  rw [List.countP_eq_length.2 fun _ _ => rfl] at hcount
  omega

/-- When no post is on its way and the consumer cannot go on, the list is empty. -/
theorem Inv.list_eq_nil (h : Inv q) (hstuck : ∀ act : QueueAct α, act.Old →
    MutexQueue.step queue q act = none) : q.list = [] := by
  have hposting : q.posting = [] := by
    refine List.eq_nil_iff_forall_not_mem.2 fun thread hin => ?_
    have hpost := hstuck (.post thread) trivial
    simp [MutexQueue.step, hin] at hpost
  have hbalanced := h.balanced
  simp only [SemQueue.Balanced, view, List.length_map, hposting, List.length_nil] at hbalanced
  cases hc : q.consumer with
  | waiting =>
    have hwait := hstuck .wait trivial
    simp only [MutexQueue.step, hc] at hwait
    have hsem : q.sem = 0 := by
      by_contra hsem
      simp [hsem] at hwait
    rw [hc, hsem] at hbalanced
    exact List.length_eq_zero_iff.1 hbalanced.symm
  | woken =>
    have htake := hstuck .take trivial
    simp [MutexQueue.step, hc, h.unlocked] at htake
  | holding a =>
    have hnext := hstuck .next trivial
    simp [MutexQueue.step, hc] at hnext

/-- **A consumer never finds its queue empty.**  In every interleaving the semaphore's value and the
permit the consumer has taken are together at most the length of the list; a woken consumer has a
head; no unset pointer is returned and the mutex is never left locked; what was given out and what
is in the list are, in this order, what was put in; and when nothing but new elements can come, all
of it has been given out.  What was put in is what the producers have brought to their sections, what was
given out is what the sections of the consumer have left it with, and without new elements the queue
takes no more than four steps for each element that it holds or has given its consumer. -/
theorem queue_never_empty (queue : IpcQueue) {q : MutexQueue α}
    (h : Reach (queueLts α queue) Free q) :
    q.sem + q.consumer.claims ≤ q.list.length ∧
      (q.consumer = .woken → ∃ a list, q.list = a :: list) ∧
      none ∉ q.got ∧ q.locked = false ∧
      q.got ++ q.list.map some = q.put.map some ∧
      ((∀ act : QueueAct α, act.Old → step queue q act = none) → q.got = q.put.map some) ∧
      (∀ acts, (queueLts α queue).run {} acts = some q →
        q.put = acts.filterMap QueueAct.brought ∧ q.got = returned queue {} acts) ∧
      ∀ acts q', (∀ act ∈ acts, act.Old) → (queueLts α queue).run q acts = some q' →
        acts.length ≤ 4 * (q.list.length + q.consumer.held.length) := by
  have hinv : Inv q := Inv.reach h
  refine ⟨hinv.sem_le, hinv.exists_head, hinv.none_not_mem_got, hinv.unlocked, hinv.given.symm, ?_, ?_,
    ?_⟩
  · intro hstuck
    have hgiven := hinv.given
    rw [hinv.list_eq_nil hstuck, List.map_nil, List.append_nil] at hgiven
    exact hgiven.symm
  · intro acts hrun
    simpa using inv_init.run_history hrun
  · intro acts q' hold hrun
    have hwork := hinv.length_le_work hold hrun
    have hbalanced := hinv.balanced
    simp only [SemQueue.Balanced, SemQueue.work, view, List.length_map] at hbalanced hwork
    omega

/-- Two producers, of which the second posts first, and a consumer that comes round again. -/
theorem queue_never_empty_two :
    ∃ q : MutexQueue ℕ, q.put = [7, 8] ∧ q.got = [some 7] ∧ q.consumer = .woken ∧
      ∃ a list, q.list = a :: list := by
  have hrun : (queueLts ℕ .apiRecvList).run {} [.attach 1 7, .attach 2 8, .post 2, .wait, .take, .next,
      .post 1, .wait] = some ⟨[8], 0, false, [], .woken, [7, 8], [some 7]⟩ := rfl
  exact ⟨_, rfl, rfl, rfl, (queue_never_empty .apiRecvList (Reach.of_run hrun)).2.1 rfl⟩

end MutexQueue

end EasyIpc
