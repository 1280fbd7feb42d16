import Mathlib.Data.List.DropRight
import Mathlib.Data.List.Nodup

/-!
# Rosters

A list of entries that grows and shrinks by requests: an entry is added at the end if it is not
there yet, and all entries with a tag are dropped at once.

* `roster` — the entries after a history of requests.
* `filter_roster` — the entries with a tag are those added since the last drop of the tag, each
  once, in the order in which they were first added.
* `mem_roster_iff_latest` — where every entry is its own tag, an entry is there just when the latest
  request about it added it.
* `pairwise_admittedBefore` — the entries stand in the order in which they came to stay.
-/

namespace Roster

variable {α β : Type*} [DecidableEq α] [DecidableEq β]

/-- A request. -/
inductive Request (α β : Type*) where
  | add (a : α)
  | drop (b : β)
  deriving DecidableEq, Repr

/-- The entries after one more request. -/
def apply (tag : α → β) (l : List α) : Request α β → List α
  | .add a => if a ∈ l then l else l ++ [a]
  | .drop b => l.filter fun a => tag a ≠ b

/-- The entries after a history of requests. -/
def roster (tag : α → β) (h : List (Request α β)) : List α := h.foldl (apply tag) []

/-- The entry that the request adds, if it has the tag. -/
def added? (tag : α → β) (b : β) : Request α β → Option α
  | .add a => if tag a = b then some a else none
  | .drop _ => none

/-- The entries of the tag that were asked for since the last drop of the tag, in order and with
repetitions. -/
def addedSince (tag : α → β) (b : β) (h : List (Request α β)) : List α :=
  (h.rtakeWhile fun r => r ≠ .drop b).filterMap (added? tag b)

/-- The same, each once, in the order in which they were first asked for. -/
def distinctSince (tag : α → β) (b : β) (h : List (Request α β)) : List α :=
  (addedSince tag b h).eraseDups

variable {tag : α → β} {h : List (Request α β)} {a : α} {b : β}

@[simp] theorem roster_nil : roster tag [] = [] := rfl

@[simp] theorem roster_snoc (h : List (Request α β)) (r : Request α β) :
    roster tag (h ++ [r]) = apply tag (roster tag h) r := by
  simp [roster]

theorem addedSince_add (h : List (Request α β)) (a : α) : addedSince tag b (h ++ [.add a]) =
    addedSince tag b h ++ (if tag a = b then [a] else []) := by
  unfold addedSince
  rw [List.rtakeWhile_concat_pos _ _ _ (by simp), List.filterMap_append]
  congr 1
  by_cases hb : tag a = b <;> simp [added?, hb]

theorem addedSince_drop (h : List (Request α β)) (b' : β) : addedSince tag b (h ++ [.drop b']) =
    if b' = b then [] else addedSince tag b h := by
  unfold addedSince
  by_cases hb : b' = b
  · rw [if_pos hb, List.rtakeWhile_concat_neg _ _ _ (by simp [hb])]
    rfl
  · rw [if_neg hb, List.rtakeWhile_concat_pos _ _ _ (by simpa using hb), List.filterMap_append]
    simp [added?]

/-- The request about the tag of an entry instead of the entry. -/
def Request.tagged (tag : α → β) : Request α β → Request β β
  | .add a => .add (tag a)
  | .drop b => .drop b

/-- Tags are asked for when entries with them are. -/
theorem addedSince_tagged (b : β) (h : List (Request α β)) :
    addedSince id b (h.map (Request.tagged tag)) = (addedSince tag b h).map tag := by
  induction h using List.reverseRecOn with
  | nil => rfl
  | append_singleton h r ih =>
    rw [List.map_append, List.map_singleton]
    cases r with
    | add a =>
      rw [Request.tagged, addedSince_add, addedSince_add, ih, List.map_append]
      congr 1
      by_cases hb : tag a = b <;> simp [hb]
    | drop b' =>
      rw [Request.tagged, addedSince_drop, addedSince_drop, ih]
      split <;> rfl

/-- One more element among some without repetitions. -/
theorem eraseDups_snoc (l : List α) (a : α) :
    (l ++ [a]).eraseDups = if a ∈ l then l.eraseDups else l.eraseDups ++ [a] := by
  rw [List.eraseDups_append]
  by_cases ha : a ∈ l
  · have hnone : [a].removeAll l = [] := by simp [List.removeAll, ha]
    rw [if_pos ha, hnone, List.eraseDups_nil, List.append_nil]
  · have hone : [a].removeAll l = [a] := by simp [List.removeAll, ha]
    rw [if_neg ha, hone]
    rfl

/-- **The entries with a tag** are those asked for since the last drop of the tag, each once, in
the order in which they were first asked for. -/
theorem filter_roster (b : β) (h : List (Request α β)) :
    (roster tag h).filter (fun a => tag a = b) = distinctSince tag b h := by
  unfold distinctSince
  induction h using List.reverseRecOn with
  | nil => rfl
  | append_singleton h r ih =>
    rw [roster_snoc]
    cases r with
    | add a =>
      rw [addedSince_add]
      have hmem : tag a = b → (a ∈ roster tag h ↔ a ∈ addedSince tag b h) := by
        intro hb
        rw [← List.mem_eraseDups (l := addedSince tag b h), ← ih, List.mem_filter]
        simp [hb]
      by_cases hb : tag a = b
      · rw [if_pos hb, eraseDups_snoc]
        by_cases ha : a ∈ roster tag h
        · rw [if_pos ((hmem hb).1 ha), apply, if_pos ha, ih]
        · rw [if_neg fun hc => ha ((hmem hb).2 hc), apply, if_neg ha, List.filter_append, ih]
          simp [hb]
      · rw [if_neg hb, List.append_nil, ← ih, apply]
        split
        · rfl
        · rw [List.filter_append]
          simp [hb]
    | drop b' =>
      rw [addedSince_drop, apply, List.filter_filter]
      by_cases hb : b' = b
      · rw [if_pos hb, List.eraseDups_nil, List.filter_eq_nil_iff]
        intro a _
        simp only [Bool.and_eq_true, decide_eq_true_eq]
        rintro ⟨he, hne⟩
        exact hne (he.trans hb.symm)
      · rw [if_neg hb, ← ih]
        refine List.filter_congr ?_
        intro a _
        by_cases he : tag a = b
        · simp [he, Ne.symm hb]
        · simp [he]

/-- An entry is there exactly if it was asked for since the last drop of its tag. -/
theorem mem_roster_iff : a ∈ roster tag h ↔ a ∈ addedSince tag (tag a) h := by
  rw [← List.mem_eraseDups (l := addedSince tag (tag a) h), ← distinctSince, ← filter_roster,
    List.mem_filter]
  simp

/-- A request adds no entry twice. -/
theorem nodup_apply {l : List α} (hl : l.Nodup) (r : Request α β) : (apply tag l r).Nodup := by
  cases r with
  | add a =>
    rw [apply]
    split
    · exact hl
    · rename_i ha
      rw [List.nodup_append]
      refine ⟨hl, List.nodup_singleton a, ?_⟩
      intro c hc c' hc' he
      rw [List.mem_singleton.1 hc'] at he
      exact ha (he ▸ hc)
  | drop b => exact hl.filter _

/-- No entry is there twice. -/
theorem nodup_roster (h : List (Request α β)) : (roster tag h).Nodup := by
  induction h using List.reverseRecOn with
  | nil => exact List.nodup_nil
  | append_singleton h r ih =>
    rw [roster_snoc]
    exact nodup_apply ih r

/-- An entry that is there was asked for. -/
theorem add_mem_of_mem_roster (ha : a ∈ roster tag h) : .add a ∈ h := by
  induction h using List.reverseRecOn with
  | nil => simp at ha
  | append_singleton h r ih =>
    rw [roster_snoc] at ha
    rw [List.mem_append, List.mem_singleton]
    cases r with
    | add c =>
      rw [apply] at ha
      split at ha
      · exact Or.inl (ih ha)
      · rcases List.mem_append.1 ha with ha | ha
        · exact Or.inl (ih ha)
        · exact Or.inr (congrArg _ (List.mem_singleton.1 ha))
    | drop b => exact Or.inl (ih (List.mem_filter.1 ha).1)

/-! ## The order -/

/-- When `b` came to stay, `a` was there, and neither has been dropped since. -/
def AdmittedBefore (tag : α → β) (h : List (Request α β)) (a b : α) : Prop :=
  ∃ h₁ h₂, h = h₁ ++ .add b :: h₂ ∧ a ∈ roster tag h₁ ∧ b ∉ roster tag h₁ ∧
    ∀ r ∈ h₂, r ≠ .drop (tag a) ∧ r ≠ .drop (tag b)

theorem AdmittedBefore.snoc {c : α} {r : Request α β} (hac : AdmittedBefore tag h a c)
    (hr : r ≠ .drop (tag a) ∧ r ≠ .drop (tag c)) : AdmittedBefore tag (h ++ [r]) a c := by
  obtain ⟨h₁, h₂, rfl, ha, hc, hstay⟩ := hac
  refine ⟨h₁, h₂ ++ [r], by simp, ha, hc, ?_⟩
  intro x hx
  rcases List.mem_append.1 hx with hx | hx
  · exact hstay x hx
  · rw [List.mem_singleton.1 hx]
    exact hr

/-- **The entries stand in the order in which they came to stay.** -/
theorem pairwise_admittedBefore (h : List (Request α β)) :
    (roster tag h).Pairwise (AdmittedBefore tag h) := by
  induction h using List.reverseRecOn with
  | nil => exact List.Pairwise.nil
  | append_singleton h r ih =>
    rw [roster_snoc]
    cases r with
    | add c =>
      have hold : (roster tag h).Pairwise (AdmittedBefore tag (h ++ [.add c])) :=
        ih.imp fun hab => hab.snoc ⟨by simp, by simp⟩
      rw [apply]
      split
      · exact hold
      · rename_i hc
        rw [List.pairwise_append]
        refine ⟨hold, List.pairwise_singleton _ c, ?_⟩
        intro a ha c' hc'
        rw [List.mem_singleton.1 hc']
        exact ⟨h, [], rfl, ha, hc, by simp⟩
    | drop b =>
      rw [apply, List.pairwise_filter]
      refine ih.imp ?_
      intro a c hac ha hc
      simp only [decide_eq_true_eq] at ha hc
      refine hac.snoc ⟨?_, ?_⟩
      · intro he
        exact ha (Request.drop.inj he).symm
      · intro he
        exact hc (Request.drop.inj he).symm

/-! ## Entries that are their own tags -/

/-- The request is about the entry. -/
def concerns (a : α) : Request α α → Bool
  | .add c => decide (c = a)
  | .drop c => decide (c = a)

/-- The latest request about an entry. -/
def latest (a : α) (h : List (Request α α)) : Option (Request α α) := (h.filter (concerns a)).getLast?

theorem latest_snoc (a : α) (h : List (Request α α)) (r : Request α α) :
    latest a (h ++ [r]) = if concerns a r then some r else latest a h := by
  unfold latest
  rw [List.filter_append]
  by_cases hr : concerns a r
  · rw [if_pos hr, List.filter_cons_of_pos hr]
    simp
  · rw [if_neg hr, List.filter_cons_of_neg hr]
    simp

/-- **An entry is there exactly if the latest request about it added it.** -/
theorem mem_roster_iff_latest {h : List (Request α α)} :
    a ∈ roster id h ↔ latest a h = some (.add a) := by
  induction h using List.reverseRecOn with
  | nil => simp [latest]
  | append_singleton h r ih =>
    rw [roster_snoc, latest_snoc]
    cases r with
    | add c =>
      have hcase : a ∈ apply id (roster id h) (.add c) ↔ a ∈ roster id h ∨ a = c := by
        rw [apply]
        split
        · rename_i hc
          exact ⟨Or.inl, fun ha => ha.elim id fun he => he ▸ hc⟩
        · rw [List.mem_append, List.mem_singleton]
      rw [hcase, ih]
      by_cases hc : c = a
      · simp [concerns, hc]
      · simp [concerns, hc, Ne.symm hc]
    | drop c =>
      have hcase : a ∈ apply id (roster id h) (.drop c) ↔ a ∈ roster id h ∧ a ≠ c := by
        rw [apply, List.mem_filter]
        simp
      rw [hcase, ih]
      by_cases hc : c = a
      · simp [concerns, hc]
      · simp [concerns, hc, Ne.symm hc]

end Roster
