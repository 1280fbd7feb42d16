import Mathlib.Data.List.Perm.Basic
import Mathlib.Data.List.Nodup
import Mathlib.Algebra.Group.Nat.Defs

/-!
# Keys that come in, stay and leave

The bookkeeping of a component that takes keys in, keeps them for a while, and lets go of each of
them once.

* `left` — the keys that were there before a step and are not there after it.
* `left_perm` — where a step adds some keys and lets go of some, `left` is what it let go of.
* `ledger_step` — so the keys that are there, together with all that ever left, remain the keys
  that ever came in.
* `Numbered` — keys handed out by a counter that wraps are distinct until it has wrapped.
* `find?_perm_eraseP`, `count_flatMap_le` — removing one entry, and counting what the removed
  entries give rise to.
-/

namespace Ledger

variable {α κ : Type*} [DecidableEq κ]

/-- The keys that are gone after a step. -/
def left (before after : List κ) : List κ := before.filter fun k => k ∉ after

variable {before after gone new closed accepted : List κ}

@[simp] theorem mem_left {k : κ} : k ∈ left before after ↔ k ∈ before ∧ k ∉ after := by
  simp [left]

/-- A step that adds the keys `new` and lets go of the keys `gone` has lost just these. -/
theorem left_perm (hflow : (before ++ new).Perm (after ++ gone)) (hnd : (before ++ new).Nodup)
    (hold : ∀ k ∈ gone, k ∈ before) : (left before after).Perm gone := by
  have hnd' := hflow.nodup_iff.1 hnd
  rw [List.nodup_append] at hnd hnd'
  refine (List.perm_ext_iff_of_nodup (hnd.1.filter _) hnd'.2.1).2 fun k => ?_
  refine mem_left.trans ?_
  constructor
  · rintro ⟨hb, ha⟩
    have hk : k ∈ after ++ gone := hflow.subset (List.mem_append_left new hb)
    exact (List.mem_append.1 hk).resolve_left ha
  · intro hg
    exact ⟨hold k hg, fun ha => hnd'.2.2 k ha k hg rfl⟩

/-- **Each key is either there or has left**, after the step as before it. -/
theorem ledger_step (h : (before ++ closed).Perm accepted)
    (hflow : (before ++ new).Perm (after ++ gone)) (hnd : (accepted ++ new).Nodup)
    (hold : ∀ k ∈ gone, k ∈ before) :
    (after ++ (closed ++ left before after)).Perm (accepted ++ new) := by
  have hbefore : (before ++ new).Nodup := by
    have hperm : ((before ++ new) ++ closed).Perm (accepted ++ new) := by
      refine List.Perm.trans ?_ (h.append_right new)
      rw [List.append_assoc, List.append_assoc]
      exact List.perm_append_comm.append_left before
    exact (List.nodup_append.1 (hperm.nodup_iff.2 hnd)).1
  have hleft := left_perm hflow hbefore hold
  calc (after ++ (closed ++ left before after)).Perm (after ++ (closed ++ gone)) :=
        (hleft.append_left closed).append_left after
    _ |>.Perm ((after ++ gone) ++ closed) := by
        rw [List.append_assoc]
        exact List.perm_append_comm.append_left after
    _ |>.Perm ((before ++ new) ++ closed) := hflow.symm.append_right closed
    _ |>.Perm (accepted ++ new) := by
        refine List.Perm.trans ?_ (h.append_right new)
        rw [List.append_assoc, List.append_assoc]
        exact List.perm_append_comm.append_left before

/-! ## Keys from a counter -/

/-- The first so many values of a counter are distinct until it wraps. -/
theorem nodup_range_ofNat {w n : ℕ} (h : n ≤ 2 ^ w) :
    ((List.range n).map (BitVec.ofNat w)).Nodup := by
  refine List.Nodup.map_on ?_ List.nodup_range
  intro x hx y hy he
  have hx' := List.mem_range.1 hx
  have hy' := List.mem_range.1 hy
  have hnat := congrArg BitVec.toNat he
  rw [BitVec.toNat_ofNat, BitVec.toNat_ofNat, Nat.mod_eq_of_lt (by omega),
    Nat.mod_eq_of_lt (by omega)] at hnat
  exact hnat

/-- The keys are the successive values of a counter that starts at 0. -/
def Numbered {w : ℕ} (l : List (BitVec w)) : Prop := l = (List.range l.length).map (BitVec.ofNat w)

theorem numbered_nil {w : ℕ} : Numbered ([] : List (BitVec w)) := rfl

/-- The next value is the number of those handed out. -/
theorem Numbered.append {w : ℕ} {l : List (BitVec w)} (h : Numbered l) :
    Numbered (l ++ [BitVec.ofNat w l.length]) := by
  unfold Numbered at h ⊢
  rw [List.length_append, List.length_singleton, List.range_succ, List.map_append, ← h]
  rfl

theorem Numbered.nodup {w : ℕ} {l : List (BitVec w)} (h : Numbered l) (hfew : l.length ≤ 2 ^ w) :
    l.Nodup := by
  unfold Numbered at h
  rw [h]
  exact nodup_range_ofNat hfew

/-! ## Entries and their keys -/

omit [DecidableEq κ] in
/-- Removing the first match takes out the entry a lookup finds. -/
theorem find?_perm_eraseP {p : α → Bool} {l : List α} {a : α} (h : l.find? p = some a) :
    l.Perm (a :: l.eraseP p) := by
  induction l with
  | nil => simp at h
  | cons b l ih =>
    by_cases hb : p b
    · rw [List.find?_cons_of_pos hb] at h
      cases h
      rw [List.eraseP_cons_of_pos hb]
    · rw [List.find?_cons_of_neg hb] at h
      rw [List.eraseP_cons_of_neg hb]
      exact ((ih h).cons b).trans (List.Perm.swap a b _)

/-- Where each entry gives rise to at most one thing of its own key, there are no more of a key
than entries. -/
theorem count_flatMap_le {β : Type*} [BEq β] {key : α → κ} {f : α → List β} {b : β} {k : κ}
    (hf : ∀ a, (f a).count b ≤ if key a = k then 1 else 0) (l : List α) :
    (l.flatMap f).count b ≤ (l.map key).count k := by
  induction l with
  | nil => simp
  | cons a l ih =>
    have ha := hf a
    rw [List.flatMap_cons, List.count_append, List.map_cons, List.count_cons]
    by_cases hk : key a = k
    · simp only [hk, if_true, beq_self_eq_true] at ha ⊢
      omega
    · simp only [if_neg hk, beq_iff_eq] at ha ⊢
      omega

end Ledger
