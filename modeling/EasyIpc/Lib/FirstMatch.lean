import Mathlib.Data.List.Basic
import Mathlib.Data.List.Nodup

/-!
# Tables searched from the front

A table kept as a list, in which every operation works on the first entry that matches: the
lookup is `List.find?`, the removal is `List.eraseP`, and the update is `modifyFirst` below.

* `find?_modifyFirst`, `find?_modifyFirst_of_disjoint` — lookups after an update.
* `mem_modifyFirst_of_mem`, `mem_of_mem_modifyFirst` — what becomes of an entry, and where an
  entry comes from.
* `eraseScan` — the loop that deletes the matching entries by index but also steps the index on
  after a deletion; `eraseScan_eq` is its closed form and `forall_not_dropSkip_iff` says exactly
  when it leaves no matching entry behind.
* `first_nil`, `first_cons` — a first entry of some kind, with the entries passed before it.
-/

namespace FirstMatch

variable {α β : Type*} {p q : α → Bool} {f : α → α}

/-- Update the first entry that matches. -/
def modifyFirst (p : α → Bool) (f : α → α) : List α → List α
  | [] => []
  | a :: l => if p a then f a :: l else a :: modifyFirst p f l

@[simp] theorem modifyFirst_cons_of_pos {a : α} {l : List α} (h : p a) :
    modifyFirst p f (a :: l) = f a :: l := by simp [modifyFirst, h]

@[simp] theorem modifyFirst_cons_of_neg {a : α} {l : List α} (h : ¬ p a) :
    modifyFirst p f (a :: l) = a :: modifyFirst p f l := by simp [modifyFirst, h]

/-- An update that does nothing to the entries that match does nothing. -/
theorem modifyFirst_eq_self {l : List α} (h : ∀ a ∈ l, p a → f a = a) : modifyFirst p f l = l := by
  induction l with
  | nil => rfl
  | cons a l ih =>
    by_cases ha : p a
    · rw [modifyFirst_cons_of_pos ha, h a (by simp) ha]
    · rw [modifyFirst_cons_of_neg ha, ih fun b hb => h b (List.mem_cons_of_mem a hb)]

/-- An update does nothing exactly when it does nothing to the first entry that matches. -/
theorem modifyFirst_eq_self_iff {l : List α} :
    modifyFirst p f l = l ↔ ∀ a, l.find? p = some a → f a = a := by
  induction l with
  | nil => simp [modifyFirst]
  | cons a l ih =>
    by_cases ha : p a
    · rw [modifyFirst_cons_of_pos ha, List.find?_cons_of_pos ha]
      simp
    · rw [modifyFirst_cons_of_neg ha, List.find?_cons_of_neg ha, ← ih]
      simp

/-- An entry is still there after the update, or it matches and its update is. -/
theorem mem_modifyFirst_of_mem {l : List α} {a : α} (h : a ∈ l) :
    a ∈ modifyFirst p f l ∨ (p a ∧ f a ∈ modifyFirst p f l) := by
  induction l with
  | nil => simp at h
  | cons b l ih =>
    by_cases hb : p b
    · rw [modifyFirst_cons_of_pos hb]
      rcases List.mem_cons.1 h with rfl | h
      · exact Or.inr ⟨hb, by simp⟩
      · exact Or.inl (by simp [h])
    · rw [modifyFirst_cons_of_neg hb]
      rcases List.mem_cons.1 h with rfl | h
      · exact Or.inl (by simp)
      · exact (ih h).imp (List.mem_cons_of_mem b) (And.imp_right (List.mem_cons_of_mem b))

/-- An entry of the updated table was there before, or is the update of one that matched. -/
theorem mem_modifyFirst_cases {l : List α} {b : α} (h : b ∈ modifyFirst p f l) :
    b ∈ l ∨ ∃ a ∈ l, p a ∧ f a = b := by
  induction l with
  | nil => simp [modifyFirst] at h
  | cons a l ih =>
    by_cases ha : p a
    · rw [modifyFirst_cons_of_pos ha] at h
      rcases List.mem_cons.1 h with rfl | h
      · exact Or.inr ⟨a, by simp, ha, rfl⟩
      · exact Or.inl (List.mem_cons_of_mem a h)
    · rw [modifyFirst_cons_of_neg ha] at h
      rcases List.mem_cons.1 h with rfl | h
      · exact Or.inl (by simp)
      · rcases ih h with hb | ⟨c, hc, hpc, hfc⟩
        · exact Or.inl (List.mem_cons_of_mem a hb)
        · exact Or.inr ⟨c, List.mem_cons_of_mem a hc, hpc, hfc⟩

theorem eq_or_mem_of_mem_modifyFirst {l : List α} {b : α} (h : b ∈ modifyFirst p f l) :
    b ∈ l ∨ ∃ a ∈ l, f a = b := by
  rcases mem_modifyFirst_cases h with hb | ⟨a, ha, -, hf⟩
  · exact Or.inl hb
  · exact Or.inr ⟨a, ha, hf⟩

/-- Where the keys are distinct, at most one entry has a given one. -/
theorem pairwise_not_both {k : β} {key : α → β} {l : List α} (hl : (l.map key).Nodup)
    (hp : ∀ a, p a → key a = k) : l.Pairwise fun a b => ¬ (p a ∧ p b) := by
  refine (List.pairwise_map.1 hl).imp ?_
  intro a b hab hboth
  exact hab ((hp a hboth.1).trans (hp b hboth.2).symm)

/-- Where at most one entry matches, an entry of the updated table does not match and was there
before, or is the update of the one that matched. -/
theorem mem_of_mem_modifyFirst {l : List α} (hl : l.Pairwise fun a b => ¬ (p a ∧ p b)) {b : α}
    (h : b ∈ modifyFirst p f l) : (b ∈ l ∧ ¬ p b) ∨ ∃ a ∈ l, p a ∧ f a = b := by
  induction l with
  | nil => simp [modifyFirst] at h
  | cons a l ih =>
    rw [List.pairwise_cons] at hl
    by_cases ha : p a
    · rw [modifyFirst_cons_of_pos ha] at h
      rcases List.mem_cons.1 h with rfl | h
      · exact Or.inr ⟨a, by simp, ha, rfl⟩
      · exact Or.inl ⟨List.mem_cons_of_mem a h, fun hb => hl.1 b h ⟨ha, hb⟩⟩
    · rw [modifyFirst_cons_of_neg ha] at h
      rcases List.mem_cons.1 h with rfl | h
      · exact Or.inl ⟨by simp, ha⟩
      · rcases ih hl.2 h with ⟨hb, hpb⟩ | ⟨c, hc, hpc, hfc⟩
        · exact Or.inl ⟨List.mem_cons_of_mem a hb, hpb⟩
        · exact Or.inr ⟨c, List.mem_cons_of_mem a hc, hpc, hfc⟩

/-- Where at most one entry matches, the update of the first is the update of all. -/
theorem modifyFirst_eq_map {l : List α} (hl : l.Pairwise fun a b => ¬ (p a ∧ p b)) :
    modifyFirst p f l = l.map fun a => if p a then f a else a := by
  induction l with
  | nil => rfl
  | cons a l ih =>
    rw [List.pairwise_cons] at hl
    by_cases ha : p a
    · have hrest : l.map (fun b => if p b then f b else b) = l := by
        rw [List.map_congr_left (g := id), List.map_id]
        intro b hb
        exact if_neg fun hpb => hl.1 b hb ⟨ha, hpb⟩
      rw [modifyFirst_cons_of_pos ha, List.map_cons, if_pos ha, hrest]
    · rw [modifyFirst_cons_of_neg ha, List.map_cons, if_neg ha, ih hl.2]

/-- What the update keeps of each entry it keeps of the whole table. -/
theorem map_modifyFirst {g : α → β} (hg : ∀ a, p a → g (f a) = g a) (l : List α) :
    (modifyFirst p f l).map g = l.map g := by
  induction l with
  | nil => rfl
  | cons a l ih =>
    by_cases ha : p a
    · rw [modifyFirst_cons_of_pos ha, List.map_cons, List.map_cons, hg a ha]
    · rw [modifyFirst_cons_of_neg ha, List.map_cons, List.map_cons, ih]

/-- An update of a table that is seen through a function. -/
theorem modifyFirst_map {β : Type*} {g : α → β} {q : β → Bool} {f' : β → β}
    (hq : ∀ a, q (g a) = p a) (hf : ∀ a, f' (g a) = g (f a)) (l : List α) :
    modifyFirst q f' (l.map g) = (modifyFirst p f l).map g := by
  induction l with
  | nil => rfl
  | cons a l ih =>
    by_cases ha : p a
    · rw [List.map_cons, modifyFirst_cons_of_pos ((hq a).trans ha), modifyFirst_cons_of_pos ha, hf,
        List.map_cons]
    · rw [List.map_cons, modifyFirst_cons_of_neg (by rwa [hq a]), modifyFirst_cons_of_neg ha, ih,
        List.map_cons]

/-- The lookup that the update is made for finds the updated entry. -/
theorem find?_modifyFirst (hf : ∀ a, p a → p (f a)) (l : List α) :
    (modifyFirst p f l).find? p = (l.find? p).map f := by
  induction l with
  | nil => rfl
  | cons a l ih =>
    by_cases ha : p a
    · rw [modifyFirst_cons_of_pos ha, List.find?_cons_of_pos (hf a ha),
        List.find?_cons_of_pos ha, Option.map_some]
    · rw [modifyFirst_cons_of_neg ha, List.find?_cons_of_neg ha, List.find?_cons_of_neg ha, ih]

/-- An update of the first entry with a further property changes the entry a lookup finds just
when that entry has the property. -/
theorem find?_modifyFirst_and (hf : ∀ a, p a → p (f a)) (l : List α) :
    (modifyFirst (fun a => p a && q a) f l).find? p =
      (l.find? p).map fun a => if q a then f a else a := by
  induction l with
  | nil => rfl
  | cons a l ih =>
    by_cases hp : p a
    · by_cases hq : q a
      · rw [modifyFirst_cons_of_pos (by simp [hp, hq]), List.find?_cons_of_pos (hf a hp),
          List.find?_cons_of_pos hp, Option.map_some, if_pos hq]
      · rw [modifyFirst_cons_of_neg (by simp [hq]), List.find?_cons_of_pos hp,
          List.find?_cons_of_pos hp, Option.map_some, if_neg hq]
    · rw [modifyFirst_cons_of_neg (by simp [hp]), List.find?_cons_of_neg hp,
        List.find?_cons_of_neg hp, ih]

/-- A lookup for something else does not notice the update. -/
theorem find?_modifyFirst_of_disjoint (hd : ∀ a, p a → ¬ q a) (hf : ∀ a, p a → ¬ q (f a))
    (l : List α) : (modifyFirst p f l).find? q = l.find? q := by
  induction l with
  | nil => rfl
  | cons a l ih =>
    by_cases ha : p a
    · rw [modifyFirst_cons_of_pos ha, List.find?_cons_of_neg (hf a ha),
        List.find?_cons_of_neg (hd a ha)]
    · rw [modifyFirst_cons_of_neg ha]
      by_cases hq : q a
      · rw [List.find?_cons_of_pos hq, List.find?_cons_of_pos hq]
      · rw [List.find?_cons_of_neg hq, List.find?_cons_of_neg hq, ih]

/-- Deleting the first entry that matches deletes the entry a lookup finds. -/
theorem eraseP_eq_erase_of_find? [BEq α] [LawfulBEq α] {l : List α} {a : α}
    (h : l.find? p = some a) : l.eraseP p = l.erase a := by
  induction l with
  | nil => rfl
  | cons b l ih =>
    by_cases hb : p b
    · rw [List.find?_cons_of_pos hb] at h
      cases h
      rw [List.eraseP_cons_of_pos hb, List.erase_cons_head]
    · rw [List.find?_cons_of_neg hb] at h
      have hne : ¬ b = a := by
        rintro rfl
        exact hb (List.find?_some h)
      rw [List.eraseP_cons_of_neg hb, List.erase_cons_tail (by simpa using hne), ih h]

/-! ## The loop that deletes and steps on -/

/-- The loop `for (i = 0; i < n; i++)` over a table that deletes the entry at `i` when it
matches: the entry that moves into the place of the deleted one is not looked at. -/
def eraseScan (p : α → Bool) : ℕ → ℕ → List α → List α
  | 0, _, l => l
  | n + 1, i, l =>
      match l[i]? with
      | none => l
      | some a => if p a then eraseScan p n (i + 1) (l.eraseIdx i) else eraseScan p n (i + 1) l

/-- The closed form of the loop: a matching entry goes, and the entry after it stays whatever it
is. -/
def dropSkip (p : α → Bool) : List α → List α
  | [] => []
  | [a] => if p a then [] else [a]
  | a :: b :: l => if p a then b :: dropSkip p l else a :: dropSkip p (b :: l)

theorem dropSkip_cons_of_neg {a : α} (h : ¬ p a) (l : List α) :
    dropSkip p (a :: l) = a :: dropSkip p l := by
  cases l <;> simp [dropSkip, h]

theorem eraseIdx_length_append (u : List α) (a : α) (v : List α) :
    (u ++ a :: v).eraseIdx u.length = u ++ v := by
  rw [List.eraseIdx_append_of_length_le (Nat.le_refl _), Nat.sub_self, List.eraseIdx_cons_zero]

theorem eraseScan_of_length_le (n i : ℕ) {u : List α} (h : u.length ≤ i) :
    eraseScan p n i u = u := by
  cases n <;> simp [eraseScan, List.getElem?_eq_none h]

/-- From index `i` on the loop leaves the closed form of what it has not passed. -/
theorem eraseScan_eq (n i : ℕ) (l : List α) (hn : l.length ≤ n + i) (hi : i ≤ l.length) :
    eraseScan p n i l = l.take i ++ dropSkip p (l.drop i) := by
  induction n generalizing i l with
  | zero =>
    have : l.length = i := by omega
    subst this
    simp [eraseScan, dropSkip]
  | succ n ih =>
    rcases Nat.lt_or_ge i l.length with hlt | hge
    · -- the entry at `i`: either it goes and its successor is passed over, or it stays
      obtain ⟨u, a, v, hu, rfl⟩ : ∃ u a v, u.length = i ∧ l = u ++ a :: v :=
        ⟨l.take i, l[i], l.drop (i + 1), by simp; omega, by simp⟩
      subst hu
      simp only [eraseScan, List.getElem?_append_right (Nat.le_refl _), Nat.sub_self,
        List.getElem?_cons_zero, List.take_left', List.drop_left']
      by_cases ha : p a
      · rw [if_pos ha, eraseIdx_length_append]
        cases v with
        | nil => rw [eraseScan_of_length_le n _ (by simp)]; simp [dropSkip, ha]
        | cons b v =>
          have hshape : u ++ b :: v = (u ++ [b]) ++ v := by simp
          have hlen : u.length + 1 = (u ++ [b]).length := by simp
          have hrounds : ((u ++ [b]) ++ v).length ≤ n + (u ++ [b]).length := by
            simp only [List.length_append, List.length_cons, List.length_nil] at hn ⊢
            omega
          rw [hshape, hlen, ih _ _ hrounds (by simp), List.take_left', List.drop_left']
          · simp [dropSkip, ha]
          · rfl
          · rfl
      · rw [if_neg ha]
        have hshape : u ++ a :: v = (u ++ [a]) ++ v := by simp
        have hlen : u.length + 1 = (u ++ [a]).length := by simp
        have hrounds : ((u ++ [a]) ++ v).length ≤ n + (u ++ [a]).length := by
          simp only [List.length_append, List.length_cons, List.length_nil] at hn ⊢
          omega
        rw [hshape, hlen, ih _ _ hrounds (by simp), List.take_left', List.drop_left',
          dropSkip_cons_of_neg ha]
        · simp
        · rfl
        · rfl
    · have : l.length = i := by omega
      subst this
      simp [eraseScan, dropSkip]

/-- The loop over the whole table leaves the closed form. -/
theorem eraseScan_length (l : List α) : eraseScan p l.length 0 l = dropSkip p l := by
  rw [eraseScan_eq l.length 0 l (Nat.le_refl _) (Nat.zero_le _), List.take_zero, List.nil_append,
    List.drop_zero]

/-- The loop only deletes. -/
theorem dropSkip_sublist : ∀ l : List α, (dropSkip p l).Sublist l
  | [] => List.Sublist.refl []
  | [a] => by by_cases h : p a <;> simp [dropSkip, h]
  | a :: b :: l => by
    by_cases h : p a
    · simp only [dropSkip, h, if_true]
      exact ((dropSkip_sublist l).cons_cons b).cons a
    · rw [dropSkip_cons_of_neg h]
      exact (dropSkip_sublist (b :: l)).cons_cons a

/-- Entries that do not match all survive, in their order. -/
theorem filter_dropSkip : ∀ l : List α,
    (dropSkip p l).filter (fun a => !p a) = l.filter (fun a => !p a)
  | [] => rfl
  | [a] => by by_cases h : p a <;> simp [dropSkip, h]
  | a :: b :: l => by
    by_cases h : p a
    · simp only [dropSkip, h, if_true, List.filter_cons, filter_dropSkip l]
      simp
    · rw [dropSkip_cons_of_neg h, List.filter_cons, List.filter_cons, filter_dropSkip (b :: l)]

/-- **The loop leaves no matching entry exactly when no two neighbours both match.** -/
theorem forall_not_dropSkip_iff : ∀ l : List α,
    (∀ a ∈ dropSkip p l, ¬ p a) ↔ l.IsChain (fun a b => ¬ (p a ∧ p b))
  | [] => by simp [dropSkip]
  | [a] => by by_cases h : p a <;> simp [dropSkip, h]
  | a :: b :: l => by
    rw [List.isChain_cons_cons]
    by_cases h : p a
    · by_cases hb : p b
      · simp [dropSkip, h, hb]
      · rw [← forall_not_dropSkip_iff (b :: l), dropSkip_cons_of_neg hb]
        simp [dropSkip, h, hb]
    · rw [dropSkip_cons_of_neg h, List.forall_mem_cons, forall_not_dropSkip_iff (b :: l)]
      simp [h]

/-- Where no two neighbours both match, the loop deletes the matching entries and no others. -/
theorem dropSkip_eq_filter_iff {l : List α} :
    dropSkip p l = l.filter (fun a => !p a) ↔ l.IsChain fun a b => ¬ (p a ∧ p b) := by
  rw [← forall_not_dropSkip_iff]
  constructor
  · intro he a ha hp
    rw [he, List.mem_filter] at ha
    simp [hp] at ha
  · intro hno
    rw [← filter_dropSkip, eq_comm, List.filter_eq_self]
    intro a ha
    simpa using hno a ha

/-! ## The first entry of a kind -/

section First

variable (P : α → Prop) (Q : α → List α → Prop)

/-- An entry for which `Q` holds, with what follows it, and only entries for which `P` holds before. -/
def First (l : List α) : Prop :=
  ∃ (before : List α) (a : α) (after : List α), l = before ++ a :: after ∧ (∀ b ∈ before, P b) ∧
    Q a after

theorem first_nil : ¬ First P Q [] := by
  rintro ⟨before, a, after, h, -⟩
  simp at h

theorem first_cons (a : α) (l : List α) : First P Q (a :: l) ↔ Q a l ∨ (P a ∧ First P Q l) := by
  refine ⟨?_, ?_⟩
  · rintro ⟨before, b, after, h, hbefore, hq⟩
    cases before with
    | nil =>
      obtain ⟨rfl, rfl⟩ := List.cons.inj h
      exact Or.inl hq
    | cons c before =>
      obtain ⟨rfl, rfl⟩ := List.cons.inj h
      exact Or.inr ⟨hbefore a (by simp), before, b, after, rfl, fun x hx => hbefore x (by simp [hx]), hq⟩
  · rintro (hq | ⟨hp, before, b, after, rfl, hbefore, hq⟩)
    · exact ⟨[], a, l, rfl, by simp, hq⟩
    · exact ⟨a :: before, b, after, rfl, List.forall_mem_cons.2 ⟨hp, hbefore⟩, hq⟩

end First

end FirstMatch
