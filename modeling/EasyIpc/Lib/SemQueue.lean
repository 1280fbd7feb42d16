import Mathlib.Data.List.Basic

/-!
# A queue behind a mutex and a semaphore

Any number of producers attach an element under the queue's mutex and post the semaphore
afterwards; one consumer waits on the semaphore, takes the head under the mutex and then works
on what it took.  Each critical section and each semaphore operation is one step, so a producer
can be between its attach and its post, and the consumer between its wait and its removal.

* `Balanced` — the permits on their way, the permits to be had and the permit the consumer holds
  are together as many as the elements of the queue.
* `Balanced.exists_head` — so a woken consumer always finds a head.
* `items` — what the consumer holds, then the queue: it grows at the back and is used up at the
  front.
* `work`, `Balanced.items_of_idle` — every step but an attach brings the queue nearer to its end by
  one, and a queue in which no step is left is empty: no wake-up is lost.
-/

namespace Concurrent

/-- Where the consumer stands. -/
inductive Consumer (α : Type*) where
  /-- Before or inside the wait. -/
  | waiting
  /-- After the wait, before the removal. -/
  | woken
  /-- After the removal, working on the element it took. -/
  | holding (a : α)
  deriving DecidableEq, Repr

/-- The elements in the consumer's hands. -/
def Consumer.held {α : Type*} : Consumer α → List α
  | .holding a => [a]
  | _ => []

/-- The permits the consumer has taken without removing an element yet. -/
def Consumer.claims {α : Type*} : Consumer α → ℕ
  | .woken => 1
  | _ => 0

/-- A queue, the value of its semaphore, the posts that producers still owe it, and its
consumer. -/
structure SemQueue (α : Type*) where
  list : List α := []
  posts : ℕ := 0
  sem : ℕ := 0
  consumer : Consumer α := .waiting
  deriving DecidableEq, Repr

namespace SemQueue

variable {α : Type*} {q q' : SemQueue α} {a : α}

/-- A producer attaches an element; its post is still to come. -/
def attach (q : SemQueue α) (a : α) : SemQueue α :=
  { q with list := q.list ++ [a], posts := q.posts + 1 }

/-- A producer that has attached posts the semaphore. -/
def post (q : SemQueue α) : Option (SemQueue α) :=
  if q.posts = 0 then none else some { q with posts := q.posts - 1, sem := q.sem + 1 }

/-- The consumer gets past its wait. -/
def wait (q : SemQueue α) : Option (SemQueue α) :=
  match q.consumer with
  | .waiting => if q.sem = 0 then none else some { q with sem := q.sem - 1, consumer := .woken }
  | _ => none

/-- The woken consumer removes the head. -/
def pull (q : SemQueue α) : Option (SemQueue α) :=
  match q.consumer, q.list with
  | .woken, a :: l => some { q with list := l, consumer := .holding a }
  | _, _ => none

/-- The consumer is done with the element it took. -/
def release (q : SemQueue α) : SemQueue α := { q with consumer := .waiting }

/-! ## What each step does -/

theorem post_eq_some (h : q.post = some q') :
    0 < q.posts ∧ q' = { q with posts := q.posts - 1, sem := q.sem + 1 } := by
  unfold post at h
  split at h
  · cases h
  · cases h; exact ⟨by omega, rfl⟩

theorem wait_eq_some (h : q.wait = some q') :
    q.consumer = .waiting ∧ 0 < q.sem ∧ q' = { q with sem := q.sem - 1, consumer := .woken } := by
  unfold wait at h
  split at h
  · rename_i hc
    split at h
    · cases h
    · cases h; exact ⟨hc, by omega, rfl⟩
  · cases h

theorem pull_eq_some (h : q.pull = some q') :
    q.consumer = .woken ∧ ∃ a l, q.list = a :: l ∧
      q' = { q with list := l, consumer := .holding a } := by
  unfold pull at h
  split at h
  · rename_i a l hc hl
    cases h; exact ⟨hc, a, l, hl, rfl⟩
  · cases h

/-! ## The elements of a queue -/

/-- The element in the consumer's hands, then the queue. -/
def items (q : SemQueue α) : List α := q.consumer.held ++ q.list

@[simp] theorem items_attach (q : SemQueue α) (a : α) : (q.attach a).items = q.items ++ [a] := by
  simp [items, attach]

theorem items_post (h : q.post = some q') : q'.items = q.items := by
  obtain ⟨-, rfl⟩ := post_eq_some h
  rfl

theorem items_wait (h : q.wait = some q') : q'.items = q.items := by
  obtain ⟨hc, -, rfl⟩ := wait_eq_some h
  simp [items, hc, Consumer.held]

theorem items_pull (h : q.pull = some q') : q'.items = q.items := by
  obtain ⟨hc, a, l, hl, rfl⟩ := pull_eq_some h
  simp [items, hc, hl, Consumer.held]

theorem items_release (h : q.consumer = .holding a) : q.items = a :: q.release.items := by
  simp [items, h, release, Consumer.held]

/-! ## The semaphore never promises more than there is -/

/-- Permits on their way, permits to be had and permits taken make up the length of the queue. -/
def Balanced (q : SemQueue α) : Prop := q.posts + q.sem + q.consumer.claims = q.list.length

theorem balanced_empty : Balanced ({} : SemQueue α) := rfl

theorem Balanced.attach (h : q.Balanced) (a : α) : (q.attach a).Balanced := by
  simp only [Balanced, SemQueue.attach, List.length_append, List.length_singleton] at h ⊢
  omega

theorem Balanced.post (h : q.Balanced) (hp : q.post = some q') : q'.Balanced := by
  obtain ⟨hpos, rfl⟩ := post_eq_some hp
  simp only [Balanced] at h ⊢
  omega

theorem Balanced.wait (h : q.Balanced) (hw : q.wait = some q') : q'.Balanced := by
  obtain ⟨hc, hpos, rfl⟩ := wait_eq_some hw
  simp only [Balanced, hc, Consumer.claims] at h ⊢
  omega

theorem Balanced.pull (h : q.Balanced) (hp : q.pull = some q') : q'.Balanced := by
  obtain ⟨hc, a, l, hl, rfl⟩ := pull_eq_some hp
  simp only [Balanced, hc, hl, Consumer.claims, List.length_cons] at h ⊢
  omega

theorem Balanced.release (h : q.Balanced) (hc : q.consumer = .holding a) : q.release.Balanced := by
  simpa [Balanced, hc, SemQueue.release, Consumer.claims] using h

/-- A woken consumer finds a head. -/
theorem Balanced.exists_head (h : q.Balanced) (hc : q.consumer = .woken) :
    ∃ a l, q.list = a :: l := by
  cases hl : q.list with
  | nil => simp [Balanced, hc, hl, Consumer.claims] at h
  | cons a l => exact ⟨a, l, rfl⟩

/-! ## No wake-up is lost -/

/-- The steps that the queue still takes for what it holds: a post, a wait, a removal and the work for
each element that has just been attached. -/
def work (q : SemQueue α) : ℕ :=
  3 * q.posts + 2 * q.sem + q.consumer.claims + q.list.length + q.consumer.held.length

@[simp] theorem work_attach (q : SemQueue α) (a : α) : (q.attach a).work = q.work + 4 := by
  simp only [work, attach, List.length_append, List.length_singleton]
  omega

theorem work_post (h : q.post = some q') : q'.work + 1 = q.work := by
  obtain ⟨hpos, rfl⟩ := post_eq_some h
  simp only [work]
  omega

theorem work_wait (h : q.wait = some q') : q'.work + 1 = q.work := by
  obtain ⟨hc, hpos, rfl⟩ := wait_eq_some h
  simp only [work, hc, Consumer.claims, Consumer.held, List.length_nil]
  omega

theorem work_pull (h : q.pull = some q') : q'.work + 1 = q.work := by
  obtain ⟨hc, a, l, hl, rfl⟩ := pull_eq_some h
  simp only [work, hc, hl, Consumer.claims, Consumer.held, List.length_cons, List.length_nil]
  omega

theorem work_release (h : q.consumer = .holding a) : q.release.work + 1 = q.work := by
  simp [work, release, h, Consumer.claims, Consumer.held]

/-- No step is left but to attach. -/
structure Idle (q : SemQueue α) : Prop where
  post : q.post = none
  wait : q.wait = none
  pull : q.pull = none
  held : q.consumer.held = []

/-- **Nothing is left in a queue in which nobody can go on.** -/
theorem Balanced.items_of_idle (h : q.Balanced) (hidle : q.Idle) : q.items = [] := by
  have hposts : q.posts = 0 := by
    by_contra hne
    have hpost := hidle.post
    simp [SemQueue.post, hne] at hpost
  cases hc : q.consumer with
  | waiting =>
    have hsem : q.sem = 0 := by
      by_contra hne
      have hwait := hidle.wait
      simp [SemQueue.wait, hc, hne] at hwait
    have hlen : q.list.length = 0 := by
      simpa [Balanced, hposts, hsem, hc, Consumer.claims] using h.symm
    simp [items, hc, Consumer.held, List.length_eq_zero_iff.1 hlen]
  | woken =>
    obtain ⟨a, l, hl⟩ := h.exists_head hc
    have hpull := hidle.pull
    simp [SemQueue.pull, hc, hl] at hpull
  | holding a =>
    have hheld := hidle.held
    simp [hc, Consumer.held] at hheld

end SemQueue
end Concurrent
