import EasyIpc.Config
import EasyIpc.Lib.Printf

/-!
# Configuration files as they are written

A document of sections with `key=value` lines, blank lines and comments, and what a reader of it
means by the value of a key.

* `Document` — the parts carry what makes them well formed; `Document.file` are the bytes.
* `classify_text` — every line is taken for what it is.
* `config_lookup` — `GetConfigStringValue` finds what the document says.
-/

namespace EasyIpc

open Stdio

/-! ## Documents -/

/-- Spaces and tabs. -/
structure Blanks where
  text : List UInt8
  blank : ∀ c ∈ text, isBlank c = true

/-- Spaces. -/
structure Spaces where
  text : List UInt8
  space : ∀ c ∈ text, c = 32

/-- The name of a section or a key. -/
structure Word where
  text : CStr
  ne_nil : text ≠ []
  /-- No NUL, LF, CR, `=` or `]`. -/
  clean : ∀ c ∈ text, c ≠ 0 ∧ c ≠ 10 ∧ c ≠ 13 ∧ c ≠ 61 ∧ c ≠ 93
  head_not_blank : ∀ c ∈ text.head?, isBlank c = false
  last_not_blank : ∀ c ∈ text.getLast?, isBlank c = false
  no_bracket : text.head? ≠ some 91
  no_hash : text.head? ≠ some 35
  no_slashes : ¬ [47, 47] <+: text

/-- A value. -/
structure ConfigValue where
  text : CStr
  /-- No NUL, LF or CR. -/
  clean : ∀ c ∈ text, c ≠ 0 ∧ c ≠ 10 ∧ c ≠ 13
  head_not_blank : ∀ c ∈ text.head?, isBlank c = false
  no_slashes : ¬ [47, 47] <:+: text

/-- The text of a comment. -/
structure CommentText where
  text : List UInt8
  /-- No NUL or LF. -/
  clean : ∀ c ∈ text, c ≠ 0 ∧ c ≠ 10

/-- A line of a section. -/
inductive BodyLine where
  | blank (ws : Blanks)
  | comment (indent : Blanks) (slashes : Bool) (text : CommentText)
  | entry (indent : Blanks) (key : Word) (before after : Blanks) (value : ConfigValue)

/-- The header of a section. -/
structure Header where
  indent : Blanks
  inner : Blanks
  name : Word
  spaces : Spaces

/-- A section. -/
structure DocSection where
  header : Header
  body : List BodyLine

/-- A document; what stands before the first header is in no section. -/
structure Document where
  preamble : List BodyLine
  sections : List DocSection

/-- The bytes of a line, without its end. -/
def BodyLine.text : BodyLine → List UInt8
  | .blank ws => ws.text
  | .comment indent slashes text => indent.text ++ ((if slashes then [47, 47] else [35]) ++ text.text)
  | .entry indent key before after value =>
      indent.text ++ (key.text ++ (before.text ++ 61 :: (after.text ++ value.text)))

def Header.text (h : Header) : List UInt8 :=
  h.indent.text ++ 91 :: (h.inner.text ++ (h.name.text ++ (h.spaces.text ++ [93])))

/-- What a line means. -/
def BodyLine.meaning : BodyLine → ConfigLine
  | .blank _ => .inert
  | .comment _ _ _ => .inert
  | .entry _ key _ _ value => .entry key.text value.text

def Header.meaning (h : Header) : ConfigLine := .header h.name.text

/-- The lines of a document, each with what it means. -/
def Document.lines (doc : Document) : List (List UInt8 × ConfigLine) :=
  doc.preamble.map (fun l => (l.text, l.meaning)) ++
    doc.sections.flatMap fun sec =>
      (sec.header.text, sec.header.meaning) :: sec.body.map fun l => (l.text, l.meaning)

/-- All lines are shorter than 149 bytes. -/
def Document.Fits (doc : Document) : Prop := ∀ l ∈ doc.lines, l.1.length < 149

/-- The file, with or without a line end behind the last line. -/
def Document.file (doc : Document) (final : Bool) : List UInt8 :=
  let bytes := doc.lines.flatMap fun l => l.1 ++ [10]
  if final then bytes else bytes.dropLast

/-- The value of the first such key in a section. -/
def DocSection.value? (sec : DocSection) (key : CStr) : Option CStr :=
  sec.body.findSome? fun l =>
    match l with
    | .blank _ => none
    | .comment _ _ _ => none
    | .entry _ k _ _ value => if k.text = key then some value.text else none

/-- What the document says about a key: the first section of the name decides. -/
def Document.lookup (doc : Document) (sec key : CStr) : ConfigRet :=
  match doc.sections.find? fun s => s.header.name.text == sec with
  | none => .sectionnameNotexist
  | some s =>
      match s.value? key with
      | none => .keynameNotexist
      | some value => .success value

variable {s ws eol : List UInt8} {sec key : CStr}

/-! ## Every line is taken for what it is -/

/-- Blanks behind something else are cut. -/
theorem rdropWhile_append {p : UInt8 → Bool} (hws : ∀ c ∈ ws, p c = true)
    (hs : ∀ c ∈ s.getLast?, p c = false) : (s ++ ws).rdropWhile p = s := by
  have hrev : ∀ c ∈ ws.reverse, p c = true := fun c hc => hws c (List.mem_reverse.1 hc)
  rw [List.rdropWhile, List.reverse_append, List.dropWhile_append_of_pos hrev]
  have hhead : ∀ c ∈ s.reverse.head?, p c = false := by
    rw [List.head?_reverse]
    exact hs
  cases hs' : s.reverse with
  | nil => rw [← List.reverse_reverse s, hs']; rfl
  | cons c t =>
    rw [hs'] at hhead
    rw [List.dropWhile_cons_of_neg (by simp [hhead c rfl]), ← hs', List.reverse_reverse]

/-- What follows a line: its end, or nothing at the end of the file. -/
def IsEol (eol : List UInt8) : Prop := eol = [10] ∨ eol = []

theorem IsEol.head (h : IsEol eol) : ∀ c ∈ eol.head?, isBlank c = false ∧ c = 10 := by
  rcases h with rfl | rfl <;> simp [isBlank]

theorem Word.head_append (w : Word) (s : List UInt8) : (w.text ++ s).head? = w.text.head? := by
  have hne := w.ne_nil
  cases hw : w.text with
  | nil => exact absurd hw hne
  | cons c text => rfl

/-- A header gives its name. -/
theorem classify_header (h : Header) (eol : List UInt8) :
    classify (h.text ++ eol) = h.meaning := by
  have hname : ∀ c ∈ (h.name.text ++ (h.spaces.text ++ 93 :: eol)).head?, isBlank c = false := by
    rw [h.name.head_append]
    exact h.name.head_not_blank
  have hline : (h.text ++ eol).dropWhile isBlank =
      91 :: (h.inner.text ++ (h.name.text ++ (h.spaces.text ++ 93 :: eol))) := by
    have hshape : h.text ++ eol =
        h.indent.text ++ 91 :: (h.inner.text ++ (h.name.text ++ (h.spaces.text ++ 93 :: eol))) := by
      simp [Header.text]
    rw [hshape]
    exact dropWhile_isBlank_append h.indent.blank (by simp [isBlank])
  have hclean : ∀ c ∈ h.name.text ++ h.spaces.text, (c != 93) = true := by
    intro c hc
    rcases List.mem_append.1 hc with hc | hc
    · simpa using (h.name.clean c hc).2.2.2.2
    · rw [h.spaces.space c hc]
      decide
  have htake : (h.name.text ++ (h.spaces.text ++ 93 :: eol)).takeWhile (fun c => c != 93) =
      h.name.text ++ h.spaces.text := by
    rw [← List.append_assoc, List.takeWhile_append_of_pos hclean, List.takeWhile_cons_of_neg (by simp),
      List.append_nil]
  have hcut : (h.name.text ++ h.spaces.text).rdropWhile (fun c => c == 32) = h.name.text := by
    refine rdropWhile_append (fun c hc => by simp [h.spaces.space c hc]) fun c hc => ?_
    have hlast := h.name.last_not_blank c hc
    rw [isBlank, Bool.or_eq_false_iff] at hlast
    exact hlast.1
  have hheader : headerLine (h.text ++ eol) = some h.name.text := by
    unfold headerLine headerName
    simp only [hline, dropWhile_isBlank_append h.inner.blank hname, htake, hcut]
    rw [if_pos trivial, if_neg (by simp), if_neg (by simp [h.name.ne_nil])]
  unfold classify Header.meaning
  rw [hheader]

/-- A value is read up to the end of the line. -/
theorem valueText_append (hclean : ∀ c ∈ s, c ≠ 10 ∧ c ≠ 13) (hslashes : ¬ [47, 47] <:+: s)
    (heol : IsEol eol) : valueText (s ++ eol) = s := by
  induction s with
  | nil => rcases heol with rfl | rfl <;> rfl
  | cons c s ih =>
    obtain ⟨h10, h13⟩ := hclean c (by simp)
    have hrest := ih (fun x hx => hclean x (by simp [hx])) fun h => hslashes (h.trans (List.infix_cons List.infix_rfl))
    have hcomment : ¬ (c = 47 ∧ (s ++ eol).head? = some 47) := by
      rintro ⟨rfl, hnext⟩
      cases s with
      | nil => rcases heol with rfl | rfl <;> simp at hnext
      | cons c' s =>
        obtain rfl : c' = 47 := by simpa using hnext
        exact hslashes ⟨[], s, rfl⟩
    rw [List.cons_append, valueText, if_neg (by tauto), if_neg hcomment, hrest]

/-- A line that begins with a key is not skipped. -/
theorem Word.not_skipped (key : Word) {rest : List UInt8}
    (hrest : ∀ c ∈ rest.head?, c ≠ 47) : skipped (key.text ++ rest) = false := by
  have hne := key.ne_nil
  have hhash := key.no_hash
  have hslashes := key.no_slashes
  have hclean := key.clean
  cases hkey : key.text with
  | nil => exact absurd hkey hne
  | cons c text =>
    rw [hkey] at hhash hslashes hclean
    have hc := hclean c (by simp)
    have htwo : ¬ (c = 47 ∧ (text ++ rest).head? = some 47) := by
      rintro ⟨rfl, hnext⟩
      cases text with
      | nil => exact hrest 47 hnext rfl
      | cons c' text =>
        obtain rfl : c' = 47 := by simpa using hnext
        exact hslashes ⟨text, rfl⟩
    have hc35 : c ≠ 35 := by simpa using hhash
    simp only [List.cons_append, skipped, List.head?_cons, List.tail_cons, decide_eq_false_iff_not,
      Option.some.injEq]
    tauto

/-- The entry of a line that begins with a key. -/
theorem entryLine_eq (key : Word) (before after : Blanks) (value : ConfigValue) (heol : IsEol eol) :
    entryLine (key.text ++ (before.text ++ 61 :: (after.text ++ (value.text ++ eol)))) =
      .entry key.text value.text := by
  have hkey : ∀ c ∈ key.text ++ before.text, (c != 61) = true := by
    intro c hc
    rcases List.mem_append.1 hc with hc | hc
    · simpa using (key.clean c hc).2.2.2.1
    · have hblank := before.blank c hc
      rw [bne_iff_ne]
      rintro rfl
      cases hblank
  have htake : (key.text ++ (before.text ++ 61 :: (after.text ++ (value.text ++ eol)))).takeWhile
      (fun c => c != 61) = key.text ++ before.text := by
    rw [← List.append_assoc, List.takeWhile_append_of_pos hkey, List.takeWhile_cons_of_neg (by simp),
      List.append_nil]
  have hdrop : (key.text ++ (before.text ++ 61 :: (after.text ++ (value.text ++ eol)))).drop
      ((key.text ++ before.text).length + 1) = after.text ++ (value.text ++ eol) := by
    rw [← List.append_assoc, ← List.drop_drop, List.drop_left]
    rfl
  have hcut : (key.text ++ before.text).rdropWhile isBlank = key.text :=
    rdropWhile_append before.blank key.last_not_blank
  have hafter : (after.text ++ (value.text ++ eol)).dropWhile isBlank = value.text ++ eol := by
    refine dropWhile_isBlank_append after.blank fun c hc => ?_
    cases hvalue : value.text with
    | nil =>
      rw [hvalue] at hc
      exact (heol.head c hc).1
    | cons v text =>
      have hhead := value.head_not_blank
      rw [hvalue] at hhead hc
      exact hhead c hc
  have hvalue : valueText (value.text ++ eol) = value.text :=
    valueText_append (fun c hc => ⟨(value.clean c hc).2.1, (value.clean c hc).2.2⟩)
      value.no_slashes heol
  have hno : ¬ ((key.text ++ before.text).length =
      (key.text ++ (before.text ++ 61 :: (after.text ++ (value.text ++ eol)))).length ∨
      key.text ++ before.text = []) := by
    simp [key.ne_nil]
  unfold entryLine
  simp only [htake, if_neg hno, hcut, hdrop, hafter, hvalue]

/-- An entry gives its key and its value. -/
theorem classify_entry (indent : Blanks) (key : Word) (before after : Blanks) (value : ConfigValue)
    (heol : IsEol eol) :
    classify ((BodyLine.entry indent key before after value).text ++ eol) =
      .entry key.text value.text := by
  have hline : ((BodyLine.entry indent key before after value).text ++ eol).dropWhile isBlank =
      key.text ++ (before.text ++ 61 :: (after.text ++ (value.text ++ eol))) := by
    have hshape : (BodyLine.entry indent key before after value).text ++ eol =
        indent.text ++ (key.text ++ (before.text ++ 61 :: (after.text ++ (value.text ++ eol)))) := by
      simp [BodyLine.text]
    rw [hshape]
    refine dropWhile_isBlank_append indent.blank ?_
    rw [key.head_append]
    exact key.head_not_blank
  have hopen : (key.text ++ (before.text ++ 61 :: (after.text ++ (value.text ++ eol)))).head? ≠
      some 91 := by
    rw [key.head_append]
    exact key.no_bracket
  have hnext : ∀ c ∈ (before.text ++ 61 :: (after.text ++ (value.text ++ eol))).head?, c ≠ 47 := by
    intro c hc
    have hblank := before.blank
    cases hbefore : before.text with
    | nil =>
      rw [hbefore] at hc
      obtain rfl : 61 = c := by simpa using hc
      decide
    | cons b text =>
      rw [hbefore] at hc hblank
      obtain rfl : b = c := by simpa using hc
      rintro rfl
      exact absurd (hblank 47 (by simp)) (by decide)
  unfold classify
  rw [headerLine_eq_none hline hopen, hline]
  simp only [key.not_skipped hnext, entryLine_eq key before after value heol]
  rfl

/-- **A line is taken for what it is.** -/
theorem classify_text (l : BodyLine) (heol : IsEol eol) : classify (l.text ++ eol) = l.meaning := by
  cases l with
  | entry indent key before after value => exact classify_entry indent key before after value heol
  | blank ws =>
    have hline : ((BodyLine.blank ws).text ++ eol).dropWhile isBlank = eol :=
      dropWhile_isBlank_append ws.blank fun c hc => (heol.head c hc).1
    refine classify_of_skipped hline ?_ ?_
    · rcases heol with rfl | rfl <;> decide
    · rcases heol with rfl | rfl <;> rfl
  | comment indent slashes text =>
    have hline : ((BodyLine.comment indent slashes text).text ++ eol).dropWhile isBlank =
        (if slashes then [47, 47] else [35]) ++ (text.text ++ eol) := by
      have hshape : (BodyLine.comment indent slashes text).text ++ eol =
          indent.text ++ ((if slashes then [47, 47] else [35]) ++ (text.text ++ eol)) := by
        simp [BodyLine.text]
      rw [hshape]
      refine dropWhile_isBlank_append indent.blank ?_
      cases slashes <;> simp [isBlank]
    refine classify_of_skipped hline ?_ ?_
    · cases slashes <;> simp
    · cases slashes <;> simp [skipped]

/-! ## The file -/

/-- A blank is no NUL and no line end. -/
theorem clean_of_isBlank {c : UInt8} (h : isBlank c = true) : c ≠ 0 ∧ c ≠ 10 := by
  rw [isBlank, Bool.or_eq_true, beq_iff_eq, beq_iff_eq] at h
  rcases h with rfl | rfl <;> decide

/-- A line of a document has no NUL and no line end. -/
theorem BodyLine.clean (l : BodyLine) : ∀ c ∈ l.text, c ≠ 0 ∧ c ≠ 10 := by
  intro c hc
  cases l with
  | blank ws => exact clean_of_isBlank (ws.blank c hc)
  | comment indent slashes text =>
    simp only [BodyLine.text, List.mem_append] at hc
    rcases hc with hc | hc | hc
    · exact clean_of_isBlank (indent.blank c hc)
    · cases slashes <;> simp at hc <;> subst hc <;> decide
    · exact text.clean c hc
  | entry indent key before after value =>
    simp only [BodyLine.text, List.mem_append, List.mem_cons] at hc
    rcases hc with hc | hc | hc | rfl | hc | hc
    · exact clean_of_isBlank (indent.blank c hc)
    · exact ⟨(key.clean c hc).1, (key.clean c hc).2.1⟩
    · exact clean_of_isBlank (before.blank c hc)
    · decide
    · exact clean_of_isBlank (after.blank c hc)
    · exact ⟨(value.clean c hc).1, (value.clean c hc).2.1⟩

theorem Header.clean (h : Header) : ∀ c ∈ h.text, c ≠ 0 ∧ c ≠ 10 := by
  intro c hc
  simp only [Header.text, List.mem_append, List.mem_cons, List.not_mem_nil, or_false] at hc
  rcases hc with hc | rfl | hc | hc | hc | rfl
  · exact clean_of_isBlank (h.indent.blank c hc)
  · decide
  · exact clean_of_isBlank (h.inner.blank c hc)
  · exact ⟨(h.name.clean c hc).1, (h.name.clean c hc).2.1⟩
  · rw [h.spaces.space c hc]
    decide
  · decide

/-- A line of text with what it means. -/
def Reads (l : List UInt8 × ConfigLine) : Prop :=
  (∀ c ∈ l.1, c ≠ 0 ∧ c ≠ 10) ∧ ∀ eol, IsEol eol → classify (l.1 ++ eol) = l.2

theorem Document.reads (doc : Document) : ∀ l ∈ doc.lines, Reads l := by
  intro l hl
  rw [Document.lines, List.mem_append, List.mem_map, List.mem_flatMap] at hl
  rcases hl with ⟨b, -, rfl⟩ | ⟨sec, -, hl⟩
  · exact ⟨b.clean, fun _ heol => classify_text b heol⟩
  · rcases List.mem_cons.1 hl with rfl | hl
    · exact ⟨sec.header.clean, fun eol _ => classify_header sec.header eol⟩
    · obtain ⟨b, -, rfl⟩ := List.mem_map.1 hl
      exact ⟨b.clean, fun _ heol => classify_text b heol⟩

/-- The chunks of lines that end are the lines. -/
theorem configLines_flatMap {lines : List (List UInt8 × ConfigLine)} (h : ∀ l ∈ lines, Reads l)
    (hfit : ∀ l ∈ lines, l.1.length < 149) (rest : List UInt8) :
    configLines (lines.flatMap (fun l => l.1 ++ [10]) ++ rest) =
      lines.map Prod.snd ++ configLines rest := by
  have hmap : lines.flatMap (fun l => l.1 ++ [10]) =
      (lines.map Prod.fst).flatMap (fun line => line ++ [10]) := by
    rw [List.flatMap_map]
  have hchunks := @chunks_flatMap szBufferSize (by decide) (lines.map Prod.fst) (by
    intro line hline
    obtain ⟨l, hl, rfl⟩ := List.mem_map.1 hline
    have hlen := hfit l hl
    have hsize : szBufferSize = 150 := rfl
    exact ⟨fun h10 => ((h l hl).1 10 h10).2 rfl, by omega⟩) rest
  unfold configLines
  rw [hmap, hchunks, List.map_append, List.map_map, List.map_map]
  congr 1
  apply List.map_congr_left
  intro l hl
  have hcstr : cstr (l.1 ++ [10]) = l.1 ++ [10] := by
    apply cstr_of_not_mem
    intro hzero
    rcases List.mem_append.1 hzero with hzero | hzero
    · exact ((h l hl).1 0 hzero).1 rfl
    · exact absurd (List.mem_singleton.1 hzero) (by decide)
  show classify (cstr (l.1 ++ [10])) = l.2
  rw [hcstr, (h l hl).2 [10] (Or.inl rfl)]

/-- The last line, without an end. -/
theorem configLines_last {l : List UInt8 × ConfigLine} (h : Reads l) (hfit : l.1.length < 149) :
    (configLines l.1).filter ConfigLine.active = [l.2].filter ConfigLine.active := by
  have hclass := h.2 [] (Or.inr rfl)
  rw [List.append_nil] at hclass
  by_cases hnil : l.1 = []
  · have hinert : l.2 = .inert := by
      rw [← hclass, hnil]
      rfl
    rw [hnil, hinert]
    rfl
  · have hsize : szBufferSize = 150 := rfl
    have hchunk : chunks szBufferSize l.1 = [l.1] :=
      chunks_last (by decide) hnil (fun h10 => (h.1 10 h10).2 rfl) (by omega)
    have hcstr : cstr l.1 = l.1 := cstr_of_not_mem fun hzero => (h.1 0 hzero).1 rfl
    rw [configLines, hchunk, List.map_singleton, hcstr, hclass]

/-- **The file has the headers and the entries of the document**, in their order. -/
theorem Document.configLines_file (doc : Document) (hfit : doc.Fits) (final : Bool) :
    (configLines (doc.file final)).filter ConfigLine.active =
      (doc.lines.map Prod.snd).filter ConfigLine.active := by
  have hreads := doc.reads
  unfold Document.Fits at hfit
  unfold Document.file
  generalize doc.lines = lines at *
  cases final with
  | true =>
    have hall := configLines_flatMap hreads hfit []
    rw [List.append_nil] at hall
    simp only [if_true, hall]
    rw [List.filter_append]
    simp [configLines]
  | false =>
    rcases List.eq_nil_or_concat lines with rfl | ⟨init, last, rfl⟩
    · rfl
    · simp only [List.concat_eq_append] at hreads hfit ⊢
      have hbytes : ((init ++ [last]).flatMap fun l => l.1 ++ [10]).dropLast =
          init.flatMap (fun l => l.1 ++ [10]) ++ last.1 := by
        rw [List.flatMap_append, List.flatMap_singleton, ← List.append_assoc, List.dropLast_concat]
      have hinit := configLines_flatMap (fun l hl => hreads l (List.mem_append_left _ hl))
        (fun l hl => hfit l (List.mem_append_left _ hl)) last.1
      have hlast := configLines_last (hreads last (by simp)) (hfit last (by simp))
      simp only [Bool.false_eq_true, if_false]
      rw [hbytes, hinit, List.filter_append, hlast, List.map_append, List.filter_append]
      rfl

/-! ## The lookup -/

/-- Lines that are no headers are passed over in the search for a section. -/
theorem lookup_body (sec key : CStr) (body : List BodyLine) (ls : List ConfigLine) :
    lookup sec key (body.map BodyLine.meaning ++ ls) = lookup sec key ls := by
  induction body with
  | nil => rfl
  | cons l body ih => cases l <;> exact ih

/-- In the section the first entry of the key gives the value. -/
theorem lookupKey_body (key : CStr) (header : Header) (body : List BodyLine) (ls : List ConfigLine) :
    lookupKey key (body.map BodyLine.meaning ++ ls) =
      match DocSection.value? ⟨header, body⟩ key with
      | none => lookupKey key ls
      | some value => .success value := by
  induction body with
  | nil => rfl
  | cons l body ih =>
    cases l with
    | blank ws => exact ih
    | comment indent slashes text => exact ih
    | entry indent k before after value =>
      rw [List.map_cons, BodyLine.meaning, List.cons_append, lookupKey, ih, DocSection.value?,
        DocSection.value?, List.findSome?_cons]
      by_cases hk : k.text = key
      · simp [hk]
      · simp [hk]

/-- What the headers and the lines of some sections mean. -/
def meanings (sections : List DocSection) : List ConfigLine :=
  sections.flatMap fun sec => sec.header.meaning :: sec.body.map BodyLine.meaning

/-- A section ends where the next one or the file does. -/
theorem lookupKey_meanings (key : CStr) (sections : List DocSection) :
    lookupKey key (meanings sections) = .keynameNotexist := by
  cases sections <;> rfl

theorem lookup_meanings (sec key : CStr) (sections : List DocSection) :
    lookup sec key (meanings sections) = Document.lookup ⟨[], sections⟩ sec key := by
  induction sections with
  | nil => rfl
  | cons first sections ih =>
    have hmeanings : meanings (first :: sections) = .header first.header.name.text ::
        (first.body.map BodyLine.meaning ++ meanings sections) := rfl
    rw [hmeanings, lookup, lookup_body, ih, lookupKey_body key first.header, lookupKey_meanings]
    unfold Document.lookup
    by_cases hname : first.header.name.text = sec
    · rw [if_pos hname, List.find?_cons_of_pos (by simpa using hname)]
    · rw [if_neg hname, List.find?_cons_of_neg (by simpa using hname)]

/-- **The lookup in a file is the lookup in its document**, with or without a line end behind the
last line. -/
theorem config_lookup (doc : Document) (hfit : doc.Fits) (final : Bool) (sec key : CStr) :
    getConfigStringValue (some (doc.file final)) sec key = doc.lookup sec key := by
  have hmap : doc.lines.map Prod.snd =
      doc.preamble.map BodyLine.meaning ++ meanings doc.sections := by
    simp [Document.lines, meanings, List.map_flatMap, Function.comp_def]
  calc getConfigStringValue (some (doc.file final)) sec key
      = lookup sec key ((configLines (doc.file final)).filter ConfigLine.active) := by
        rw [getConfigStringValue_eq, lookup_filter]
    _ = lookup sec key (doc.preamble.map BodyLine.meaning ++ meanings doc.sections) := by
        rw [doc.configLines_file hfit, lookup_filter, hmap]
    _ = doc.lookup sec key := by
        rw [lookup_body, lookup_meanings]
        rfl

theorem isBlank_of_gt {c : UInt8} (h : 32 < c.toNat) : isBlank c = false := by
  have hspace : c ≠ 32 := by
    rintro rfl
    exact absurd h (by decide)
  have htab : c ≠ 9 := by
    rintro rfl
    exact absurd h (by decide)
  simp [isBlank, hspace, htab]

/-- A name of one letter. -/
def letterWord (c : UInt8) (h : 65 ≤ c.toNat ∧ c.toNat ≤ 90 ∨ 97 ≤ c.toNat ∧ c.toNat ≤ 122) : Word where
  text := [c]
  ne_nil := List.cons_ne_nil _ _
  clean := by
    have hne : ∀ n : UInt8, (n.toNat < 65 ∨ n.toNat = 93) → c ≠ n := by
      rintro n hn rfl
      omega
    simp only [List.forall_mem_singleton]
    exact ⟨hne 0 (by decide), hne 10 (by decide), hne 13 (by decide), hne 61 (by decide),
      hne 93 (by decide)⟩
  head_not_blank := by simpa using isBlank_of_gt (c := c) (by omega)
  last_not_blank := by simpa using isBlank_of_gt (c := c) (by omega)
  no_bracket := fun he => by simp [Option.some.inj he] at h
  no_hash := fun he => by simp [Option.some.inj he] at h
  no_slashes := fun hp => by simpa using hp.length_le

/-- The key `k` with a value of one digit. -/
def digitEntry (c : UInt8) (h : 48 ≤ c.toNat ∧ c.toNat ≤ 57) : BodyLine :=
  .entry ⟨[9], by simp [isBlank]⟩ (letterWord 107 (by decide)) ⟨[32], by simp [isBlank]⟩
    ⟨[32], by simp [isBlank]⟩
    { text := [c]
      clean := by
        have hne : ∀ n : UInt8, n.toNat < 48 → c ≠ n := by
          rintro n hn rfl
          omega
        simp only [List.forall_mem_singleton]
        exact ⟨hne 0 (by decide), hne 10 (by decide), hne 13 (by decide)⟩
      head_not_blank := by simpa using isBlank_of_gt (c := c) (by omega)
      no_slashes := fun hp => by simpa using hp.length_le }

/-- A section, and two more of another name, the first of which has its key twice. -/
def sampleDocument : Document where
  preamble := [.comment ⟨[], nofun⟩ false ⟨[32, 97], by simp⟩]
  sections :=
    [⟨⟨⟨[], nofun⟩, ⟨[], nofun⟩, letterWord 66 (by decide), ⟨[], nofun⟩⟩, [digitEntry 49 (by decide)]⟩,
      ⟨⟨⟨[], nofun⟩, ⟨[], nofun⟩, letterWord 65 (by decide), ⟨[], nofun⟩⟩,
        [digitEntry 50 (by decide), digitEntry 51 (by decide)]⟩,
      ⟨⟨⟨[], nofun⟩, ⟨[], nofun⟩, letterWord 65 (by decide), ⟨[], nofun⟩⟩, [digitEntry 52 (by decide)]⟩]

open Printf in
example : sampleDocument.file false =
    bytes "# a\n[B]\n\tk = 1\n[A]\n\tk = 2\n\tk = 3\n[A]\n\tk = 4" := by decide

open Printf in
/-- The first of the values in the first of the sections. -/
theorem config_lookup_sample :
    getConfigStringValue (some (sampleDocument.file false)) (bytes "A") (bytes "k") =
      .success (bytes "2") :=
  config_lookup sampleDocument (by unfold Document.Fits; decide) false (bytes "A") (bytes "k")

end EasyIpc
