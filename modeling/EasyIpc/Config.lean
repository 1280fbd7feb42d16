import EasyIpc.Base
import EasyIpc.Lib.FirstMatch
import EasyIpc.Lib.Stdio
import Mathlib.Data.List.DropRight

/-!
# The configuration file

`GetConfigStringValue`, `CompareString` and `GetKeyValue` of `easyipc_conf_support.c`.  Both loops
read chunks of at most 149 bytes from one file position, which is the list of the chunks that are
still to come.  A pointer into `szBuffer` is the rest of the string behind it: `pStr++` over some
bytes is `dropWhile`, and cutting blanks from the end of a string is `rdropWhile`.

* `headerLine`, `keyLine` — what the two loop bodies make of a chunk.
* `classify` — a chunk on its own: a section header, an entry, or neither; `headerLine_eq` and
  `keyLine_eq` say that the two loops see the same headers.
* `getConfigStringValue_eq` — the result is the lookup in the classified chunks.
* `Sets`, `getConfigStringValue_eq_success_iff` — a value is found exactly if a line of the file sets
  it.
-/

namespace EasyIpc

open Stdio FirstMatch

/-- The size of `szBuffer`. -/
def szBufferSize : ℕ := 150

/-- The result codes, with the value where there is one. -/
inductive ConfigRet where
  | success (value : CStr)
  | filenameNotexist
  | sectionnameNotexist
  | keynameNotexist
  deriving DecidableEq, Repr

/-- A blank or a tab. -/
def isBlank (c : UInt8) : Bool := c == 32 || c == 9

/-- `CompareString(pInStr1, pInStr2) == STRING_EQUAL`. -/
def compareString (pInStr1 pInStr2 : CStr) : Bool :=
  pInStr1.length == pInStr2.length && pInStr1 == pInStr2

/-! ## The two loops -/

/-- The name in a section header, behind its `[`; `none` if there is no `]`. -/
def headerName (rest : CStr) : Option CStr :=
  let pStr2 := rest.dropWhile isBlank
  let name := pStr2.takeWhile fun c => c != 93
  if name.length = pStr2.length then none
  else if name = [] ∧ (rest.takeWhile isBlank).getLast? = some 32 then
    -- `pStr1` has gone back over the blanks before `pStr2`, and the terminator is put there
    some pStr2
  else some (name.rdropWhile fun c => c == 32)

/-- The section name in a chunk, `none` where `GetConfigStringValue` goes on to the next. -/
def headerLine (szBuffer : CStr) : Option CStr :=
  match szBuffer.dropWhile isBlank with
  | [] => none
  | c :: rest => if c = 91 then headerName rest else none

/-- The text of a value, up to the end of the line or a comment. -/
def valueText : CStr → CStr
  | [] => []
  | c :: rest =>
      if c = 13 ∨ c = 10 then []
      else if c = 47 ∧ rest.head? = some 47 then []
      else c :: valueText rest

/-- What the loop of `GetKeyValue` does about a chunk. -/
inductive KeyLine where
  | next
  | stop
  | found (value : CStr)
  deriving DecidableEq, Repr

/-- The body of the loop of `GetKeyValue`. -/
def keyLine (pInKeyName szBuffer : CStr) : KeyLine :=
  let pStr1 := szBuffer.dropWhile isBlank
  if pStr1.head? = some 35 then .next
  else if pStr1.head? = some 47 ∧ pStr1.tail.head? = some 47 then .next
  else if pStr1.head? = none ∨ pStr1.head? = some 13 ∨ pStr1.head? = some 10 then .next
  else if pStr1.head? = some 91 ∧ 93 ∈ pStr1 then .stop
  else
    let pStr2 := pStr1.takeWhile fun c => c != 61
    if pStr2.length = pStr1.length then .next
    else if pStr2 = [] then .next
    else if compareString (pStr2.rdropWhile isBlank) pInKeyName then
      .found (valueText ((pStr1.drop (pStr2.length + 1)).dropWhile isBlank))
    else .next

/-- `GetKeyValue`, from a file position on. -/
def getKeyValue (pInKeyName : CStr) : List (List UInt8) → ConfigRet
  | [] => .keynameNotexist
  | szBuffer :: fpConfig =>
      match keyLine pInKeyName (cstr szBuffer) with
      | .next => getKeyValue pInKeyName fpConfig
      | .stop => .keynameNotexist
      | .found value => .success value

/-- The loop of `GetConfigStringValue`. -/
def findSection (pInSectionName pInKeyName : CStr) : List (List UInt8) → ConfigRet
  | [] => .sectionnameNotexist
  | szBuffer :: fpConfig =>
      match headerLine (cstr szBuffer) with
      | none => findSection pInSectionName pInKeyName fpConfig
      | some name =>
          if compareString name pInSectionName then getKeyValue pInKeyName fpConfig
          else findSection pInSectionName pInKeyName fpConfig

/-- `GetConfigStringValue`; the file is `none` where it cannot be opened. -/
def getConfigStringValue (pInFile : Option (List UInt8)) (pInSectionName pInKeyName : CStr) :
    ConfigRet :=
  match pInFile with
  | none => .filenameNotexist
  | some file => findSection pInSectionName pInKeyName (chunks szBufferSize file)

theorem compareString_iff (a b : CStr) : compareString a b = true ↔ a = b := by
  unfold compareString
  rw [Bool.and_eq_true, beq_iff_eq, beq_iff_eq]
  exact ⟨fun h => h.2, fun h => ⟨by rw [h], h⟩⟩

/-! ## Chunks on their own -/

/-- What a chunk is. -/
inductive ConfigLine where
  | header (name : CStr)
  | entry (key value : CStr)
  | inert
  deriving DecidableEq, Repr

/-- The first byte that is not blank begins a comment, or there is none in the line. -/
def skipped (s : CStr) : Bool :=
  s.head? = some 35 ∨ (s.head? = some 47 ∧ s.tail.head? = some 47) ∨
    s.head? = none ∨ s.head? = some 13 ∨ s.head? = some 10

/-- The entry in a line that is no header. -/
def entryLine (s : CStr) : ConfigLine :=
  let key := s.takeWhile fun c => c != 61
  if key.length = s.length ∨ key = [] then .inert
  else .entry (key.rdropWhile isBlank) (valueText ((s.drop (key.length + 1)).dropWhile isBlank))

/-- A chunk, whoever reads it. -/
def classify (line : CStr) : ConfigLine :=
  match headerLine line with
  | some name => .header name
  | none =>
      if skipped (line.dropWhile isBlank) then .inert
      else entryLine (line.dropWhile isBlank)

variable {line key name value : CStr} {c : UInt8} {s rest : List UInt8}

theorem length_takeWhile_eq_iff (s : List UInt8) (c : UInt8) :
    (s.takeWhile fun x => x != c).length = s.length ↔ c ∉ s := by
  induction s with
  | nil => simp
  | cons x s ih =>
    by_cases hx : x = c
    · simp [hx]
    · simp [hx, Ne.symm hx, ih]

theorem mem_dropWhile_isBlank (hc : isBlank c = false) : c ∈ s.dropWhile isBlank ↔ c ∈ s := by
  refine ⟨fun h => (List.dropWhile_suffix _).subset h, fun h => ?_⟩
  rw [← List.takeWhile_append_dropWhile (p := isBlank) (l := s), List.mem_append] at h
  refine h.resolve_left fun hblank => ?_
  rw [List.mem_takeWhile_imp hblank] at hc
  cases hc

/-- Blanks in front of something else are skipped. -/
theorem dropWhile_isBlank_append {ws : List UInt8} (hws : ∀ c ∈ ws, isBlank c = true)
    (hs : ∀ c ∈ s.head?, isBlank c = false) : (ws ++ s).dropWhile isBlank = s := by
  rw [List.dropWhile_append_of_pos hws]
  cases s with
  | nil => rfl
  | cons c s => rw [List.dropWhile_cons_of_neg (by simp [hs c rfl])]

theorem headerName_isSome_iff (rest : CStr) : (headerName rest).isSome ↔ 93 ∈ rest := by
  rw [← mem_dropWhile_isBlank (show isBlank 93 = false by decide)]
  simp only [headerName]
  split
  · rename_i hall
    rw [length_takeWhile_eq_iff] at hall
    simp [hall]
  · rename_i hall
    rw [length_takeWhile_eq_iff, not_not] at hall
    split <;> simp [hall]

/-- A header is a line that begins with `[` and has a `]`. -/
theorem headerLine_isSome_iff (line : CStr) : (headerLine line).isSome ↔
    (line.dropWhile isBlank).head? = some 91 ∧ 93 ∈ line.dropWhile isBlank := by
  unfold headerLine
  cases line.dropWhile isBlank with
  | nil => simp
  | cons c rest =>
    by_cases hopen : c = 91
    · subst hopen
      simp [headerName_isSome_iff]
    · simp [hopen]

/-- A line that begins with neither a bracket nor a blank is no header. -/
theorem headerLine_eq_none (hs : line.dropWhile isBlank = s)
    (hopen : s.head? ≠ some 91) : headerLine line = none := by
  unfold headerLine
  rw [hs]
  cases s with
  | nil => rfl
  | cons c rest => exact if_neg (by simpa using hopen)

theorem classify_of_skipped (hs : line.dropWhile isBlank = s)
    (hopen : s.head? ≠ some 91) (hskip : skipped s = true) : classify line = .inert := by
  unfold classify
  rw [headerLine_eq_none hs hopen, hs]
  simp only [hskip, if_true]

/-- **The two loops see the same headers**: where the loop of the sections finds one, the loop of
the keys stops, and a chunk it goes on from is none. -/
theorem keyLine_eq (pInKeyName line : CStr) : keyLine pInKeyName line =
    match classify line with
    | .header _ => .stop
    | .entry key value => if key = pInKeyName then .found value else .next
    | .inert => .next := by
  have hheader := headerLine_isSome_iff line
  unfold classify keyLine
  generalize headerLine line = header at *
  generalize line.dropWhile isBlank = s at *
  cases header with
  | some name =>
    obtain ⟨hopen, hclose⟩ := hheader.1 rfl
    simp [hopen, hclose]
  | none =>
    have hno : ¬ (s.head? = some 91 ∧ 93 ∈ s) := by rw [← hheader]; simp
    simp only [if_neg hno]
    by_cases hskip : skipped s = true
    · simp only [hskip, if_true]
      simp only [skipped, Bool.decide_or, Bool.or_eq_true, decide_eq_true_eq] at hskip
      split_ifs <;> first | rfl | (exfalso; tauto)
    · have hskip' := hskip
      simp only [skipped, Bool.decide_or, Bool.or_eq_true, decide_eq_true_eq, not_or] at hskip'
      obtain ⟨hcomment, hslashes, hnone, hcr, hlf⟩ := hskip'
      have hline : ¬ (s.head? = none ∨ s.head? = some 13 ∨ s.head? = some 10) := by tauto
      simp only [hskip, if_neg hcomment, if_neg hslashes, if_neg hline, entryLine,
        compareString_iff]
      by_cases hall : (s.takeWhile fun c => c != 61).length = s.length
      · simp [hall]
      · by_cases hempty : (s.takeWhile fun c => c != 61) = []
        · simp [hempty]
        · simp [hall, hempty]

theorem headerLine_eq (line : CStr) : headerLine line =
    match classify line with
    | .header name => some name
    | .entry _ _ => none
    | .inert => none := by
  unfold classify
  cases headerLine line with
  | some name => rfl
  | none =>
    simp only [entryLine]
    split_ifs <;> rfl

/-! ## The lookup -/

/-- The first entry of the key before the next header. -/
def lookupKey (key : CStr) : List ConfigLine → ConfigRet
  | [] => .keynameNotexist
  | .header _ :: _ => .keynameNotexist
  | .entry k v :: ls => if k = key then .success v else lookupKey key ls
  | .inert :: ls => lookupKey key ls

/-- The lookup behind the first header of the section. -/
def lookup (sec key : CStr) : List ConfigLine → ConfigRet
  | [] => .sectionnameNotexist
  | .header name :: ls => if name = sec then lookupKey key ls else lookup sec key ls
  | .entry _ _ :: ls => lookup sec key ls
  | .inert :: ls => lookup sec key ls

/-- What the chunks of a file are. -/
def configLines (file : List UInt8) : List ConfigLine :=
  (chunks szBufferSize file).map fun szBuffer => classify (cstr szBuffer)

theorem getKeyValue_eq (key : CStr) (fpConfig : List (List UInt8)) : getKeyValue key fpConfig =
    lookupKey key (fpConfig.map fun szBuffer => classify (cstr szBuffer)) := by
  induction fpConfig with
  | nil => rfl
  | cons szBuffer fpConfig ih =>
    rw [getKeyValue, keyLine_eq, List.map_cons, ih]
    cases classify (cstr szBuffer) with
    | header name => rfl
    | entry k v =>
      rw [lookupKey]
      by_cases hk : k = key
      · simp [hk]
      · simp [hk]
    | inert => rfl

/-- **The result is the lookup in the chunks**, each classified on its own. -/
theorem getConfigStringValue_eq (file : List UInt8) (sec key : CStr) :
    getConfigStringValue (some file) sec key = lookup sec key (configLines file) := by
  unfold getConfigStringValue configLines
  simp only
  induction chunks szBufferSize file with
  | nil => rfl
  | cons szBuffer fpConfig ih =>
    rw [findSection, headerLine_eq, List.map_cons]
    cases classify (cstr szBuffer) with
    | header name =>
      simp only [lookup, getKeyValue_eq, compareString_iff, ih]
    | entry k v => exact ih
    | inert => exact ih

/-- The chunk is a header or an entry. -/
def ConfigLine.active : ConfigLine → Bool
  | .header _ => true
  | .entry _ _ => true
  | .inert => false

variable {sec : CStr} {ls ls' : List ConfigLine}

theorem lookupKey_filter (key : CStr) (ls : List ConfigLine) :
    lookupKey key (ls.filter ConfigLine.active) = lookupKey key ls := by
  induction ls with
  | nil => rfl
  | cons l ls ih =>
    cases l with
    | header name => rfl
    | entry k v =>
      rw [List.filter_cons_of_pos rfl, lookupKey, lookupKey, ih]
    | inert => exact ih

/-- **What is neither a header nor an entry makes no difference.** -/
theorem lookup_filter (sec key : CStr) (ls : List ConfigLine) :
    lookup sec key (ls.filter ConfigLine.active) = lookup sec key ls := by
  induction ls with
  | nil => rfl
  | cons l ls ih =>
    cases l with
    | header name =>
      rw [List.filter_cons_of_pos rfl, lookup, lookup, ih, lookupKey_filter]
    | entry k v =>
      rw [List.filter_cons_of_pos rfl, lookup, lookup, ih]
    | inert => exact ih

/-! ## The line that sets a key -/

/-- What stands behind the `=` of a line, without the blanks in front. -/
def entryText (line : CStr) : CStr :=
  let s := line.dropWhile isBlank
  (s.drop ((s.takeWhile fun c => c != 61).length + 1)).dropWhile isBlank

/-- The search for a key goes on after the line. -/
def ConfigLine.Passes (key : CStr) : ConfigLine → Prop
  | .header _ => False
  | .entry k _ => k ≠ key
  | .inert => True

/-- The line is the first of the key, with no other header before it, behind the first header of the
section. -/
def Sets (file : List UInt8) (sec key line : CStr) : Prop :=
  First (fun l => classify l ≠ .header sec)
    (fun header rest => classify header = .header sec ∧
      First (fun l => (classify l).Passes key)
        (fun l _ => l = line ∧ ∃ value, classify l = .entry key value) rest)
    ((chunks szBufferSize file).map cstr)

/-- The value of an entry is in the text behind its `=`. -/
theorem entry_value (h : classify line = .entry key value) :
    value = valueText (entryText line) ∧ (entryText line).length + 2 ≤ line.length := by
  unfold classify at h
  generalize headerLine line = header at h
  cases header with
  | some name => cases h
  | none =>
    simp only [entryLine] at h
    split_ifs at h with hskip hno
    rw [not_or] at hno
    obtain ⟨-, rfl⟩ := ConfigLine.entry.inj h
    refine ⟨rfl, ?_⟩
    have hpos := List.length_pos_iff.2 hno.2
    have hline : (line.dropWhile isBlank).length ≤ line.length := List.length_dropWhile_le ..
    have htake : ((line.dropWhile isBlank).takeWhile fun c => c != 61).length ≤
        (line.dropWhile isBlank).length := (List.takeWhile_prefix _).length_le
    have htext := List.length_dropWhile_le isBlank ((line.dropWhile isBlank).drop
      (((line.dropWhile isBlank).takeWhile fun c => c != 61).length + 1))
    rw [List.length_drop] at htext
    have hne := hno.1
    show (((line.dropWhile isBlank).drop _).dropWhile isBlank).length + 2 ≤ line.length
    omega

/-- What is found of a key before the next header. -/
theorem lookupKey_eq_success_iff (lines : List CStr) :
    lookupKey key (lines.map classify) = .success value ↔
      First (fun l => (classify l).Passes key) (fun l _ => classify l = .entry key value) lines := by
  induction lines with
  | nil => simp [lookupKey, first_nil]
  | cons l lines ih =>
    rw [List.map_cons, first_cons, ← ih]
    cases hl : classify l with
    | header name => simp [lookupKey, ConfigLine.Passes]
    | entry k v =>
      by_cases hk : k = key
      · simp [lookupKey, ConfigLine.Passes, hk]
      · simp [lookupKey, ConfigLine.Passes, hk]
    | inert => simp [lookupKey, ConfigLine.Passes]

theorem lookup_eq_success_iff (lines : List CStr) :
    lookup sec key (lines.map classify) = .success value ↔
      First (fun l => classify l ≠ .header sec)
        (fun header rest => classify header = .header sec ∧
          lookupKey key (rest.map classify) = .success value) lines := by
  induction lines with
  | nil => simp [lookup, first_nil]
  | cons l lines ih =>
    rw [List.map_cons, first_cons, ← ih]
    cases hl : classify l with
    | header name =>
      by_cases hname : name = sec
      · simp [lookup, hname]
      · simp [lookup, hname]
    | entry k v => simp [lookup]
    | inert => simp [lookup]

/-- **A value is found exactly if a line of the file sets it.** -/
theorem getConfigStringValue_eq_success_iff (file : List UInt8) (sec key value : CStr) :
    getConfigStringValue (some file) sec key = .success value ↔
      ∃ line, Sets file sec key line ∧ value = valueText (entryText line) := by
  have hmap : configLines file = ((chunks szBufferSize file).map cstr).map classify := by
    rw [List.map_map]
    rfl
  rw [getConfigStringValue_eq, hmap, lookup_eq_success_iff]
  simp only [lookupKey_eq_success_iff]
  refine ⟨?_, ?_⟩
  · rintro ⟨before, header, rest, hfile, hbefore, hheader, body, line, after, hrest, hbody, hline⟩
    exact ⟨line, ⟨before, header, rest, hfile, hbefore, hheader, body, line, after, hrest, hbody,
      rfl, value, hline⟩, (entry_value hline).1⟩
  · rintro ⟨line, ⟨before, header, rest, hfile, hbefore, hheader, body, l, after, hrest, hbody,
      rfl, v, hline⟩, rfl⟩
    rw [← (entry_value hline).1]
    exact ⟨before, header, rest, hfile, hbefore, hheader, body, l, after, hrest, hbody, hline⟩

end EasyIpc
