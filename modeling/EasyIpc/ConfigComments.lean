import EasyIpc.Config
import EasyIpc.Lib.Printf

/-!
# Comments in the configuration file

A comment line that does not fit the buffer is cut, and what is cut off is read as if it began a
line.

* `NoInfluence` — the comment can stand in any file, before any line, without a difference.
* `Inert` — none of its pieces is a header or an entry; `noInfluence_of_inert` and
  `inert_of_noInfluence` say that this is the same.
* `inert_of_short` — a comment that fits the buffer is inert.
* `comments_ignored` — any number of inert comments can be put in and taken out, and no others.
-/

namespace EasyIpc

open Stdio Printf

/-- A whole comment line: blanks, `#` or `//`, and anything up to the end of the line; at the end of
the file it may have no line end. -/
def IsComment (c : List UInt8) : Prop :=
  ∃ ws mark text eol, c = ws ++ (mark ++ (text ++ eol)) ∧ (∀ x ∈ ws, isBlank x = true) ∧
    (mark = [35] ∨ mark = [47, 47]) ∧ (10 : UInt8) ∉ text ∧ (eol = [10] ∨ eol = [])

/-- None of the pieces that are read of the line is a header or an entry. -/
def Inert (c : List UInt8) : Prop := ∀ l ∈ configLines c, l = .inert

instance (c : List UInt8) : Decidable (Inert c) := inferInstanceAs (Decidable (∀ _ ∈ _, _))

/-- The line can stand behind any lines, and in front of any if it has an end, and every lookup has
the result that it has without it. -/
def NoInfluence (c : List UInt8) : Prop :=
  ∀ a b : List UInt8, EndsLine a → (EndsLine c ∨ b = []) → ∀ sec key : CStr,
    getConfigStringValue (some (a ++ c ++ b)) sec key = getConfigStringValue (some (a ++ b)) sec key

/-- A file after whole comment lines, of those in `S`, have been put in and taken out. -/
inductive CommentEdits (S : List UInt8 → Prop) (file : List UInt8) : List UInt8 → Prop
  | refl : CommentEdits S file file
  | insert {a b c : List UInt8} : CommentEdits S file (a ++ b) → S c → IsComment c → EndsLine a →
      (EndsLine c ∨ b = []) → CommentEdits S file (a ++ c ++ b)
  | delete {a b c : List UInt8} : CommentEdits S file (a ++ c ++ b) → S c → IsComment c →
      EndsLine a → (EndsLine c ∨ b = []) → CommentEdits S file (a ++ b)

variable {a b c file file' : List UInt8} {sec key : CStr}

/-- Whole lines are classified on their own. -/
theorem configLines_append (ha : EndsLine a) (b : List UInt8) :
    configLines (a ++ b) = configLines a ++ configLines b := by
  rw [configLines, chunks_append (by decide) ha, List.map_append]
  rfl

theorem configLines_insert (ha : EndsLine a) (hc : EndsLine c ∨ b = []) :
    configLines (a ++ c ++ b) = configLines a ++ (configLines c ++ configLines b) := by
  rw [List.append_assoc, configLines_append ha]
  rcases hc with hc | rfl
  · rw [configLines_append hc]
  · rw [List.append_nil]
    simp [configLines]

/-- Pieces that are neither make no difference. -/
theorem noInfluence_of_inert (h : Inert c) : NoInfluence c := by
  intro a b ha hc sec key
  have hnone : (configLines c).filter ConfigLine.active = [] := by
    rw [List.filter_eq_nil_iff]
    intro l hl
    rw [h l hl]
    decide
  have hfilter : (configLines (a ++ c ++ b)).filter ConfigLine.active =
      (configLines (a ++ b)).filter ConfigLine.active := by
    rw [configLines_insert ha hc, configLines_append ha, List.filter_append, List.filter_append,
      List.filter_append, hnone, List.nil_append]
  rw [getConfigStringValue_eq, getConfigStringValue_eq, ← lookup_filter, hfilter, lookup_filter]

theorem lookupKey_ne (key : CStr) (ls : List ConfigLine) :
    lookupKey key ls ≠ .sectionnameNotexist := by
  induction ls with
  | nil => simp [lookupKey]
  | cons l ls ih =>
    cases l with
    | header name => simp [lookupKey]
    | entry k v =>
      rw [lookupKey]
      split
      · simp
      · exact ih
    | inert => exact ih

/-- A header among the pieces makes a section, and an entry makes a key of the section before. -/
theorem inert_of_noInfluence (h : NoInfluence c) : Inert c := by
  have hnone : (configLines c).filter ConfigLine.active = [] := by
    cases hactive : (configLines c).filter ConfigLine.active with
    | nil => rfl
    | cons l ls =>
      exfalso
      have hl : l.active = true :=
        List.of_mem_filter (hactive ▸ List.mem_cons_self : l ∈ (configLines c).filter _)
      cases l with
      | inert => cases hl
      | header name =>
        -- the file with nothing else in it has the section
        have hsame := h [] [] (Or.inl rfl) (Or.inr rfl) name []
        rw [getConfigStringValue_eq, getConfigStringValue_eq, List.nil_append, List.append_nil,
          ← lookup_filter, hactive, lookup, if_pos rfl] at hsame
        exact lookupKey_ne _ _ hsame
      | entry k v =>
        -- behind the header of a section the section has the key
        have ha : EndsLine (bytes "[s]\n") := Or.inr ⟨bytes "[s]", by decide⟩
        have hs : configLines (bytes "[s]\n") = [.header (bytes "s")] := by decide
        have hsame := h (bytes "[s]\n") [] ha (Or.inr rfl) (bytes "s") k
        rw [getConfigStringValue_eq, getConfigStringValue_eq, List.append_nil, List.append_nil,
          configLines_append ha, hs, List.singleton_append, lookup, if_pos rfl, ← lookupKey_filter,
          hactive, lookupKey, if_pos rfl] at hsame
        cases hsame
  intro l hl
  have hnot := List.filter_eq_nil_iff.1 hnone l hl
  cases l with
  | header name => exact absurd rfl hnot
  | entry k v => exact absurd rfl hnot
  | inert => rfl

/-- A comment that is read in one piece is a comment in it. -/
theorem inert_of_short (hc : IsComment c) (hlen : c.length < szBufferSize) : Inert c := by
  obtain ⟨ws, mark, text, eol, rfl, hws, hmark, htext, heol⟩ := hc
  have hblank : ∀ x : UInt8, isBlank x = false → x ∉ ws := by
    intro x hx hmem
    rw [hws x hmem] at hx
    cases hx
  have hmem10 : (10 : UInt8) ∉ ws ++ (mark ++ text) := by
    simp only [List.mem_append, not_or]
    refine ⟨hblank 10 (by decide), ?_, htext⟩
    rcases hmark with rfl | rfl <;> decide
  have hone : chunks szBufferSize (ws ++ (mark ++ (text ++ eol))) =
      [ws ++ (mark ++ (text ++ eol))] := by
    have hline : ws ++ (mark ++ (text ++ eol)) = ws ++ (mark ++ text) ++ eol := by simp
    rw [hline] at hlen ⊢
    rcases heol with rfl | rfl
    · rw [List.length_append, List.length_singleton] at hlen
      rw [chunks_line (by decide) hmem10 hlen, chunks_nil]
    · rw [List.append_nil] at hlen ⊢
      refine chunks_last (by decide) ?_ hmem10 hlen
      rcases hmark with rfl | rfl <;> simp
  -- a NUL in the comment ends the string that is read, but not before the mark
  have hmem0 : (0 : UInt8) ∉ ws ++ mark := by
    rw [List.mem_append, not_or]
    refine ⟨hblank 0 (by decide), ?_⟩
    rcases hmark with rfl | rfl <;> decide
  have hcstr : cstr (ws ++ (mark ++ (text ++ eol))) = ws ++ (mark ++ cstr (text ++ eol)) := by
    rw [← List.append_assoc, cstr_append_of_not_mem hmem0, List.append_assoc]
  have hdrop : (ws ++ (mark ++ cstr (text ++ eol))).dropWhile isBlank =
      mark ++ cstr (text ++ eol) := by
    refine dropWhile_isBlank_append hws ?_
    rcases hmark with rfl | rfl <;> simp [isBlank]
  intro l hl
  rw [configLines, hone, List.map_singleton, List.mem_singleton, hcstr] at hl
  rw [hl]
  refine classify_of_skipped hdrop ?_ ?_
  · rcases hmark with rfl | rfl <;> simp
  · rcases hmark with rfl | rfl <;> simp [skipped]

/-- What a sequence of edits with inert comments keeps. -/
theorem CommentEdits.same {S : List UInt8 → Prop} (hS : ∀ c, S c → IsComment c → Inert c)
    (h : CommentEdits S file file') (sec key : CStr) :
    getConfigStringValue (some file') sec key = getConfigStringValue (some file) sec key := by
  induction h with
  | refl => rfl
  | insert _ hmem hc ha hend ih =>
    rw [← ih]
    exact noInfluence_of_inert (hS _ hmem hc) _ _ ha hend sec key
  | delete _ hmem hc ha hend ih =>
    rw [← ih]
    exact (noInfluence_of_inert (hS _ hmem hc) _ _ ha hend sec key).symm

/-- **Putting comments in and taking them out changes no lookup, exactly if they are inert.** -/
theorem comments_ignored (S : List UInt8 → Prop) :
    (∀ file file', CommentEdits S file file' → ∀ sec key : CStr,
      getConfigStringValue (some file') sec key = getConfigStringValue (some file) sec key) ↔
    ∀ c, S c → IsComment c → Inert c := by
  refine ⟨fun hsame c hmem hc => ?_, fun hS file file' h sec key => h.same hS sec key⟩
  refine inert_of_noInfluence fun a b ha hend sec key => ?_
  exact hsame _ _ (.insert .refl hmem hc ha hend) sec key

/-- A comment of which the second piece is an entry. -/
def longComment : List UInt8 :=
  35 :: (List.replicate 148 120 ++ (bytes "packet_max_size=5" ++ [10]))

theorem comment_sets_key :
    IsComment longComment ∧
      CommentEdits IsComment (bytes "[Config]\n" ++ []) (bytes "[Config]\n" ++ longComment ++ []) ∧
      getConfigStringValue (some (bytes "[Config]\n" ++ [])) (bytes "Config")
        (bytes "packet_max_size") = .keynameNotexist ∧
      getConfigStringValue (some (bytes "[Config]\n" ++ longComment ++ [])) (bytes "Config")
        (bytes "packet_max_size") = .success (bytes "5") := by
  have hshape : longComment =
      [] ++ ([35] ++ ((List.replicate 148 120 ++ bytes "packet_max_size=5") ++ [10])) := by
    rw [List.append_assoc, List.nil_append, List.singleton_append, longComment]
  have hc : IsComment longComment :=
    ⟨[], [35], _, [10], hshape, nofun, Or.inl rfl, by decide +kernel, Or.inl rfl⟩
  refine ⟨hc, ?_, by decide +kernel, by decide +kernel⟩
  exact .insert .refl hc hc (Or.inr ⟨bytes "[Config]", by decide⟩) (Or.inr rfl)

end EasyIpc
