import EasyIpc.CjsonDocument

/-!
# The parser on any text

`cJSON_Parse` on texts that need not be JSON.  It is given a block with a zero byte somewhere, and the
only thing that can carry it past this byte, or past the room it has made for a string, is a backslash
of a string that has too little behind it.

* `Escaped` — the string that a quote begins has enough behind each of its backslashes.
* `unescape_escaped` — the second pass over such a string ends where the first one does, and fits into
  the room that the first one has made.
* `parseString_stays`, `parse_stays` — a string, and a value, is read inside of the block.
* `cJSONParse_defined` — the parser comes to an end on every such text, JSON or not.
-/

namespace EasyIpc

open Printf Numerals Scan Stdio Floats

/-! ## Escapes -/

/-- What is behind a quote, up to the quote or the zero byte that ends the string: a backslash stands
before a byte, and `\u` before four bytes that are neither of the two nor a backslash. -/
inductive Escaped : List UInt8 → Prop
  | stop {c : UInt8} (h : c = 34 ∨ c = 0) (rest : List UInt8) : Escaped (c :: rest)
  | plain {c : UInt8} {rest : List UInt8} (h : PlainByte c) (hrest : Escaped rest) :
      Escaped (c :: rest)
  | letter {e : UInt8} {rest : List UInt8} (h : e ≠ 0 ∧ e ≠ 117) (hrest : Escaped rest) :
      Escaped (92 :: e :: rest)
  | unicode {u rest : List UInt8} (hlen : u.length = 4) (h : ∀ c ∈ u, PlainByte c)
      (hrest : Escaped rest) : Escaped (92 :: 117 :: (u ++ rest))

theorem zero_not_mem_plain {u : List UInt8} (h : ∀ c ∈ u, PlainByte c) : (0 : UInt8) ∉ u :=
  fun hmem => (h 0 hmem).2.1 rfl

theorem ahead_unicode {u : List UInt8} (h : ∀ c ∈ u, PlainByte c) (rest : List UInt8) :
    Ahead (117 :: (u ++ rest)) rest :=
  (Ahead.cons (by decide) _).trans (Ahead.append (zero_not_mem_plain h) rest)

/-- What is behind a backslash, if that is not where a string ends. -/
theorem Escaped.backslash {ptr : List UInt8} (h : Escaped (92 :: ptr)) :
    (∃ e rest, ptr = e :: rest ∧ (e ≠ 0 ∧ e ≠ 117) ∧ Escaped rest) ∨
      ∃ u rest, ptr = 117 :: (u ++ rest) ∧ u.length = 4 ∧ (∀ c ∈ u, PlainByte c) ∧ Escaped rest := by
  cases h with
  | stop h => exact absurd h (by decide)
  | plain h => exact absurd rfl h.2.2
  | letter h hrest => exact Or.inl ⟨_, _, rfl, h, hrest⟩
  | unicode hlen h hrest => exact Or.inr ⟨_, _, rfl, hlen, h, hrest⟩

theorem Escaped.ne_nil {s : List UInt8} (h : Escaped s) : s ≠ [] := by
  cases h <;> exact List.cons_ne_nil _ _

theorem length_utf8Tail (n uc : ℕ) : (utf8Tail n uc).1.length = n := by
  induction n generalizing uc with
  | zero => rfl
  | succ n ih => simp [utf8Tail, ih]

/-- No more than four bytes are written for a code point. -/
theorem length_utf8Write_le (uc : ℕ) : (utf8Write uc).1.length ≤ 4 := by
  have hlen : utf8Len uc ≤ 4 := by
    unfold utf8Len
    split_ifs <;> decide
  simp only [utf8Write, List.length_cons, length_utf8Tail]
  omega

/-- What one round of each of the passes makes of a backslash: the first one makes room for what the
second one writes, and both go on at the same place. -/
structure Round (uc uc2 : ℕ) (ptr rest : List UInt8) (room : ℕ) (out : List UInt8) (uc' uc2' : ℕ) :
    Prop where
  switch : unescapeSwitch uc uc2 ptr = .done (out, uc', uc2') rest
  len : stringLen (92 :: ptr) = (stringLen rest).map (· + room)
  fits : out.length ≤ room
  ahead : Ahead ptr rest
  escaped : Escaped rest

section Round

variable {u ptr rest : List UInt8} (uc uc2 : ℕ)

theorem stringLen_four (hlen : u.length = 4) (h : ∀ c ∈ u, PlainByte c) (rest : List UInt8) :
    stringLen (92 :: 117 :: (u ++ rest)) = (stringLen rest).map (· + 5) := by
  rw [stringLen_escape, stringLen_append h, Option.map_map, hlen]
  rfl

/-- A code point that is taken as it is, or left out. -/
theorem round_single (hlen : u.length = 4) (h : ∀ c ∈ u, PlainByte c) (hrest : Escaped rest)
    {out : List UInt8} {uc' uc2' : ℕ} (hout : out.length ≤ 4)
    (hswitch : unescapeSwitch uc uc2 (117 :: (u ++ rest)) = .done (out, uc', uc2') rest) :
    Round uc uc2 (117 :: (u ++ rest)) rest 5 out uc' uc2' :=
  ⟨hswitch, stringLen_four hlen h rest, by omega, ahead_unicode h rest, hrest⟩

/-- A code point for which both halves of a pair are read. -/
theorem round_pair {v : List UInt8} (hlen : u.length = 4) (h : ∀ c ∈ u, PlainByte c)
    (hlen' : v.length = 4) (h' : ∀ c ∈ v, PlainByte c) (hrest : Escaped rest)
    {out : List UInt8} {uc' uc2' : ℕ} (hout : out.length ≤ 4)
    (hswitch : unescapeSwitch uc uc2 (117 :: (u ++ 92 :: 117 :: (v ++ rest))) =
      .done (out, uc', uc2') rest) :
    Round uc uc2 (117 :: (u ++ 92 :: 117 :: (v ++ rest))) rest 10 out uc' uc2' := by
  refine ⟨hswitch, ?_, by omega, ?_, hrest⟩
  · rw [stringLen_four hlen h, stringLen_four hlen' h', Option.map_map]
    rfl
  · exact (ahead_unicode h _).trans ((Ahead.cons (by decide) _).trans (ahead_unicode h' rest))

/-- What the `switch` does behind `\u`, once it has read a code point. -/
theorem unescapeSwitch_four (hlen : u.length = 4) (rest : List UInt8) :
    unescapeSwitch uc uc2 (117 :: (u ++ rest)) =
      if (0xDC00 ≤ sscanf4x (u ++ rest) uc ∧ sscanf4x (u ++ rest) uc ≤ 0xDFFF) ∨
          sscanf4x (u ++ rest) uc = 0 then
        .done ([], sscanf4x (u ++ rest) uc, uc2) rest
      else if 0xD800 ≤ sscanf4x (u ++ rest) uc ∧ sscanf4x (u ++ rest) uc ≤ 0xDBFF then
        if rest = [] then .undefined
        else if rest.head? ≠ some 92 then .done ([], sscanf4x (u ++ rest) uc, uc2) rest
        else if rest.tail = [] then .undefined
        else if rest.tail.head? ≠ some 117 then .done ([], sscanf4x (u ++ rest) uc, uc2) rest
        else if rest.length < 6 then .undefined
        else if sscanf4x (rest.drop 2) uc2 < 0xDC00 ∨ sscanf4x (rest.drop 2) uc2 > 0xDFFF then
          .done ([], sscanf4x (u ++ rest) uc, sscanf4x (rest.drop 2) uc2) (rest.drop 6)
        else
          let code := 0x10000 + (((sscanf4x (u ++ rest) uc &&& 0x3FF) <<< 10) |||
            (sscanf4x (rest.drop 2) uc2 &&& 0x3FF))
          .done ((utf8Write code).1, (utf8Write code).2, sscanf4x (rest.drop 2) uc2) (rest.drop 6)
      else .done ((utf8Write (sscanf4x (u ++ rest) uc)).1,
        (utf8Write (sscanf4x (u ++ rest) uc)).2, uc2) rest := by
  have hdrop : (u ++ rest).drop 4 = rest := List.drop_left' hlen
  have hfour : ¬ (u ++ rest).length < 4 := by
    rw [List.length_append]
    omega
  simp only [unescapeSwitch, hdrop]
  rw [if_neg (by simp), if_neg hfour]

/-- The rounds of both passes over a backslash. -/
theorem exists_round (h : Escaped (92 :: ptr)) :
    ∃ rest room out uc' uc2', Round uc uc2 ptr rest room out uc' uc2' := by
  obtain ⟨e, rest, rfl, he, hrest⟩ | ⟨u, rest, rfl, hlen, hu, hrest⟩ := h.backslash
  · exact ⟨rest, 1, _, _, _, unescapeSwitch_letter he.2 uc uc2 rest, stringLen_escape e rest, le_rfl,
      Ahead.cons he.1 rest, hrest⟩
  · have hswitch := unescapeSwitch_four uc uc2 hlen rest
    set code := sscanf4x (u ++ rest) uc
    by_cases hnone : (0xDC00 ≤ code ∧ code ≤ 0xDFFF) ∨ code = 0
    · exact ⟨rest, 5, _, _, _, round_single uc uc2 hlen hu hrest (by simp : ([] : List UInt8).length ≤ 4)
        (by rw [hswitch, if_pos hnone])⟩
    by_cases hhigh : 0xD800 ≤ code ∧ code ≤ 0xDBFF
    · rw [if_neg hnone, if_pos hhigh, if_neg hrest.ne_nil] at hswitch
      by_cases hback : rest.head? = some 92
      · obtain ⟨ptr, rfl⟩ : ∃ ptr, rest = 92 :: ptr := by
          cases rest with
          | nil => cases hback
          | cons c ptr =>
            cases hback
            exact ⟨ptr, rfl⟩
        rw [if_neg (not_not.2 hback), List.tail_cons] at hswitch
        obtain ⟨e, rest, rfl, he, -⟩ | ⟨v, rest, rfl, hlen', hv, hrest'⟩ := hrest.backslash
        · -- another escape: the half on its own is left out
          exact ⟨_, 5, _, _, _, round_single uc uc2 hlen hu hrest (by simp : ([] : List UInt8).length ≤ 4)
            (by rw [hswitch, if_neg (List.cons_ne_nil _ _), if_pos (by simpa using he.2)])⟩
        · have hdrop' : (92 :: 117 :: (v ++ rest)).drop 6 = rest := List.drop_left' hlen'
          have hsix : ¬ (92 :: 117 :: (v ++ rest)).length < 6 := by
            simp only [List.length_cons, List.length_append]
            omega
          rw [if_neg (List.cons_ne_nil _ _), if_neg (by simp), if_neg hsix, hdrop'] at hswitch
          by_cases hlow : sscanf4x ((92 :: 117 :: (v ++ rest)).drop 2) uc2 < 0xDC00 ∨
              sscanf4x ((92 :: 117 :: (v ++ rest)).drop 2) uc2 > 0xDFFF
          · exact ⟨rest, 10, _, _, _, round_pair uc uc2 hlen hu hlen' hv hrest' (by simp : ([] : List UInt8).length ≤ 4)
              (by rw [hswitch, if_pos hlow])⟩
          · exact ⟨rest, 10, _, _, _, round_pair uc uc2 hlen hu hlen' hv hrest'
              (length_utf8Write_le _) (by rw [hswitch, if_neg hlow])⟩
      · exact ⟨rest, 5, _, _, _, round_single uc uc2 hlen hu hrest (by simp : ([] : List UInt8).length ≤ 4)
          (by rw [hswitch, if_pos hback])⟩
    · exact ⟨rest, 5, _, _, _, round_single uc uc2 hlen hu hrest (length_utf8Write_le _)
        (by rw [hswitch, if_neg hnone, if_neg hhigh])⟩

end Round

/-! ## Strings -/

/-- **The second pass stays in step with the first one.**  Both end at the same place, and what the
second one writes fits into the room that the first one has made. -/
theorem unescape_escaped {s : List UInt8} {n : ℕ} (h : Escaped s) (hn : s.length ≤ n)
    (uc uc2 : ℕ) :
    ∃ out rest len, stringLen s = some len ∧ unescape n uc uc2 s = some (out, rest) ∧
      out.length ≤ len ∧ Ahead s rest ∧ (rest.head? = some 34 ∨ rest.head? = some 0) := by
  induction n generalizing s uc uc2 with
  | zero => exact absurd (List.length_eq_zero_iff.1 (Nat.le_zero.1 hn)) h.ne_nil
  | succ n ih =>
    obtain ⟨c, ptr, rfl⟩ := List.exists_cons_of_ne_nil h.ne_nil
    by_cases hstop : c = 34 ∨ c = 0
    · refine ⟨[], c :: ptr, 0, ?_, ?_, le_rfl, Ahead.refl _, by simpa using hstop⟩
      · rw [stringLen.eq_def]
        exact if_pos hstop
      · rw [unescape, if_pos hstop]
    by_cases hback : c = 92
    · subst hback
      obtain ⟨rest, room, out, uc', uc2', hround⟩ := exists_round uc uc2 h
      have hlen : rest.length ≤ n :=
        hround.ahead.length_le.trans (Nat.le_of_succ_le_succ hn)
      obtain ⟨out', rest', len, hlen, hun, hfits, hahead, hend⟩ := ih hround.escaped hlen uc' uc2'
      refine ⟨out ++ out', rest', len + room, ?_, ?_, ?_,
        (Ahead.cons (by decide) _).trans (hround.ahead.trans hahead), hend⟩
      · rw [hround.len, hlen]
        rfl
      · rw [unescape_switch hround.switch, hun]
        rfl
      · have := hround.fits
        rw [List.length_append]
        omega
    · have hplain : PlainByte c := ⟨fun hq => hstop (Or.inl hq), fun hz => hstop (Or.inr hz), hback⟩
      have hptr : Escaped ptr := by
        cases h with
        | stop h => exact absurd h hstop
        | plain _ hrest => exact hrest
        | letter => exact absurd rfl hback
        | unicode => exact absurd rfl hback
      obtain ⟨out, rest, len, hlen, hun, hfits, hahead, hend⟩ :=
        ih hptr (by simpa using hn) uc uc2
      refine ⟨c :: out, rest, len + 1, ?_, ?_, ?_, (Ahead.cons hplain.2.1 ptr).trans hahead, hend⟩
      · rw [stringLen_plain hplain, hlen]
        rfl
      · rw [unescape_plain hplain, hun]
        rfl
      · simpa using hfits

/-- A block of memory with a zero byte, in which every quote begins a string with enough behind each
of its backslashes. -/
structure Block (text : List UInt8) : Prop where
  terminated : (0 : UInt8) ∈ text
  escaped : ∀ s, 34 :: s <:+ text → Escaped s

theorem Block.ahead {text rest : List UInt8} (h : Block text) (hrest : Ahead text rest) :
    Block rest :=
  ⟨hrest.zero_mem h.terminated, fun s hs => h.escaped s (hs.trans hrest.suffix)⟩

theorem Block.ne_nil {text : List UInt8} (h : Block text) : text ≠ [] :=
  List.ne_nil_of_mem h.terminated

/-- A string is read inside of the block, and inside of its own. -/
theorem parseString_stays (junk : ℕ → ℕ × ℕ) {text : List UInt8} (h : Block text) :
    Stays text (parseString junk text) := by
  obtain ⟨c, ptr, rfl⟩ := List.exists_cons_of_ne_nil h.ne_nil
  by_cases hquote : c = 34
  · subst hquote
    obtain ⟨out, rest, len, hlen, hun, hfits, hahead, hend⟩ :=
      unescape_escaped (h.escaped ptr (List.suffix_refl _)) (Nat.le_succ ptr.length)
        (junk (34 :: ptr).length).1 (junk (34 :: ptr).length).2
    have hrest : Ahead (34 :: ptr) (if rest.head? = some 34 then rest.tail else rest) := by
      refine ((Ahead.cons (by decide) ptr).trans hahead).trans ?_
      split
      · rename_i hhead
        obtain ⟨rest, rfl⟩ : ∃ tail, rest = 34 :: tail := by
          cases rest with
          | nil => cases hhead
          | cons d tail =>
            cases hhead
            exact ⟨tail, rfl⟩
        exact Ahead.cons (by decide) rest
      · exact Ahead.refl rest
    have hread : parseString junk (34 :: ptr) =
        .done (cstr out) (if rest.head? = some 34 then rest.tail else rest) := by
      rw [parseString, if_neg (by simp), hlen]
      rw [List.length_cons] at hun ⊢
      simp only [hun]
      rw [if_neg (by omega)]
    rw [hread]
    exact Stays.done hrest _
  · rw [parseString, if_pos hquote]
    exact Stays.fail

/-! ## Numbers -/

theorem ahead_skip (text : List UInt8) : Ahead text (skip text) :=
  Ahead.dropWhile (by decide) text

theorem ahead_tail {c : UInt8} (hc : c ≠ 0) {num : List UInt8} (h : num.head? = some c) :
    Ahead num num.tail := by
  cases num with
  | nil => cases h
  | cons d num =>
    cases h
    exact Ahead.cons hc num

theorem ahead_eat {c : UInt8} (hc : c ≠ 0) (num : List UInt8) : Ahead num (eat c num) := by
  unfold eat
  split
  · rename_i hhead
    exact ahead_tail hc hhead
  · exact Ahead.refl num

theorem ahead_numberInt (num : List UInt8) : Ahead num (num.drop (numberInt num).length) := by
  unfold numberInt
  split
  · exact Ahead.takeWhile (by decide) num
  · exact Ahead.refl num

theorem ahead_numberFraction (num : List UInt8) :
    Ahead num (if numberFraction num = [] then num else num.drop ((numberFraction num).length + 1)) := by
  split
  · exact Ahead.refl num
  · rename_i hfrac
    unfold numberFraction at hfrac ⊢
    split at hfrac
    · rename_i hpoint
      rw [if_pos hpoint, Nat.add_comm, ← List.drop_drop, List.drop_one]
      exact (ahead_tail (by decide) hpoint.1).trans (Ahead.takeWhile (by decide) _)
    · exact absurd rfl hfrac

theorem ahead_numberExponent (num : List UInt8) : Ahead num (numberExponent num).2.2 := by
  unfold numberExponent
  split
  · rename_i hmark
    have htail : Ahead num num.tail := by
      rcases hmark with h | h
      · exact ahead_tail (by decide) h
      · exact ahead_tail (by decide) h
    refine htail.trans (Ahead.trans ?_ (Ahead.dropWhile (by decide) _))
    split
    · rename_i hplus
      exact ahead_tail (by decide) hplus
    · exact ahead_eat (by decide) _
  · exact Ahead.refl num

/-- A number is read inside of the block. -/
theorem ahead_scanNumber (num : List UInt8) : Ahead num (scanNumber num).2 := by
  have heat := (ahead_eat (c := 45) (by decide) num).trans (ahead_eat (c := 48) (by decide) _)
  exact heat.trans ((ahead_numberInt _).trans
    ((ahead_numberFraction _).trans (ahead_numberExponent _)))

/-! ## Values -/

/-- A keyword is passed over. -/
theorem ahead_keyword {word text : List UInt8} (h : word.isPrefixOf text = true)
    (hzero : (0 : UInt8) ∉ word) : Ahead text (text.drop word.length) := by
  obtain ⟨rest, rfl⟩ := List.isPrefixOf_iff_prefix.1 h
  rw [List.drop_left]
  exact Ahead.append hzero rest

/-- The next byte that is no blank. -/
theorem Block.next {text : List UInt8} (h : Block text) :
    ∃ c rest, skip text = c :: rest ∧ Ahead text (c :: rest) := by
  have hskip := ahead_skip text
  obtain ⟨c, rest, hrest⟩ := List.exists_cons_of_ne_nil (h.ahead hskip).ne_nil
  exact ⟨c, rest, hrest, hrest ▸ hskip⟩

section Values

variable {ν : Type} (fp : Doubles ν) (junk : ℕ → ℕ × ℕ)

/-- A value that is no array and no object. -/
theorem parseValue_stays {n : ℕ} {c : UInt8} {text : List UInt8} (h : Block (c :: text))
    (harray : c = 91 → Stays (c :: text) (parseValue fp junk (n + 1) (c :: text)))
    (hobject : c = 123 → Stays (c :: text) (parseValue fp junk (n + 1) (c :: text))) :
    Stays (c :: text) (parseValue fp junk (n + 1) (c :: text)) := by
  by_cases h91 : c = 91
  · exact harray h91
  by_cases h123 : c = 123
  · exact hobject h123
  rw [parseValue]
  split
  · rename_i hword
    exact Stays.done (ahead_keyword hword (by decide)) _
  split
  · rename_i hword
    exact Stays.done (ahead_keyword hword (by decide)) _
  split
  · rename_i hword
    exact Stays.done (ahead_keyword hword (by decide)) _
  split
  · exact Stays.map (parseString_stays junk h) _
  split
  · exact Stays.done (ahead_scanNumber _) _
  · exact Stays.fail

/-- **A value is read inside of the block.**  The bound on the nested calls and the rounds of their
loops is for every text of the length. -/
theorem parse_stays (n : ℕ) {text : List UInt8} (h : Block text) :
    (2 * text.length ≤ n → Stays text (parseValue fp junk n text)) ∧
    (2 * text.length < n → Stays text (parseArray fp junk n text)) ∧
    (2 * text.length < n → Stays text (parseObject fp junk n text)) := by
  induction n generalizing text with
  | zero =>
    have hpos := List.length_pos_iff.2 h.ne_nil
    exact ⟨fun hn => absurd hn (by omega), fun hn => absurd hn (by omega),
      fun hn => absurd hn (by omega)⟩
  | succ n ih =>
    -- a place further on that is behind at least one more byte
    have hback : ∀ {c : UInt8} {rest : List UInt8}, c ≠ 0 → Ahead text (c :: rest) →
        Block rest ∧ Ahead text rest ∧ rest.length < text.length := by
      intro c rest hc hahead
      have hnext := hahead.trans (Ahead.cons hc rest)
      exact ⟨h.ahead hnext, hnext, hahead.length_le⟩
    have hclose : ∀ {α : Type} {c : UInt8} {rest : List UInt8} (a : α), c ≠ 0 →
        Ahead text (c :: rest) → Stays text (.done a rest) :=
      fun a hc hahead => Stays.done (hback hc hahead).2.1 a
    refine ⟨fun hn => ?value, fun hn => ?array, fun hn => ?object⟩
    case value =>
      obtain ⟨c, ptr, rfl⟩ := List.exists_cons_of_ne_nil h.ne_nil
      refine parseValue_stays fp junk h (fun hc => ?_) (fun hc => ?_)
      · subst hc
        obtain ⟨hptr, hahead, hshort⟩ := hback (by decide) (Ahead.refl _)
        obtain ⟨d, rest, hrest, hnext⟩ := hptr.next
        have hlen := hnext.length_le
        rw [parseValue_array, hrest]
        simp only
        split
        · rename_i hd
          exact hclose _ (by rw [hd]; decide) (hahead.trans hnext)
        · exact Stays.map (Stays.of_ahead (hahead.trans hnext)
            ((ih (hptr.ahead hnext)).2.1 (by omega))) _
      · subst hc
        obtain ⟨hptr, hahead, hshort⟩ := hback (by decide) (Ahead.refl _)
        obtain ⟨d, rest, hrest, hnext⟩ := hptr.next
        have hlen := hnext.length_le
        rw [parseValue_object, hrest]
        simp only
        split
        · rename_i hd
          exact hclose _ (by rw [hd]; decide) (hahead.trans hnext)
        · exact Stays.map (Stays.of_ahead (hahead.trans hnext)
            ((ih (hptr.ahead hnext)).2.2 (by omega))) _
    case array =>
      have hskip := ahead_skip text
      have hlen := hskip.length_le
      rw [parseArray]
      refine Stays.bind (Stays.of_ahead hskip ((ih (h.ahead hskip)).1 (by omega))) ?_
      intro child mid hmid
      obtain ⟨c, rest, hrest, hnext⟩ := (h.ahead hmid).next
      rw [hrest]
      simp only
      split
      · rename_i hcomma
        obtain ⟨hblock, hahead, hshort⟩ :=
          hback (by rw [hcomma]; decide) (hmid.trans hnext)
        exact Stays.map (Stays.of_ahead hahead ((ih hblock).2.1 (by omega))) _
      split
      · rename_i hbracket
        exact hclose _ (by rw [hbracket]; decide) (hmid.trans hnext)
      · exact Stays.fail
    case object =>
      have hskip := ahead_skip text
      rw [parseObject]
      refine Stays.bind (Stays.of_ahead hskip (parseString_stays junk (h.ahead hskip))) ?_
      intro string mid hmid
      obtain ⟨c, rest, hrest, hnext⟩ := (h.ahead hmid).next
      rw [hrest]
      simp only
      split
      · exact Stays.fail
      · rename_i hcolon
        obtain ⟨hblock, hahead, hshort⟩ :=
          hback (by rw [not_not.1 hcolon]; decide) (hmid.trans hnext)
        have hskip := ahead_skip rest
        have hlen := hskip.length_le
        refine Stays.bind (Stays.of_ahead (hahead.trans hskip)
          ((ih (hblock.ahead hskip)).1 (by omega))) ?_
        intro child mid' hmid'
        obtain ⟨d, rest', hrest', hnext'⟩ := (h.ahead hmid').next
        rw [hrest']
        simp only
        split
        · rename_i hcomma
          obtain ⟨hblock', hahead', hshort'⟩ :=
            hback (by rw [hcomma]; decide) (hmid'.trans hnext')
          exact Stays.map (Stays.of_ahead hahead' ((ih hblock').2.2 (by omega))) _
        split
        · rename_i hbracket
          exact hclose _ (by rw [hbracket]; decide) (hmid'.trans hnext')
        · exact Stays.fail

/-- **The parser stays inside of its memory and comes to an end**, on JSON and on any other text,
provided that its strings have enough behind each of their backslashes. -/
theorem cJSONParse_defined {value : List UInt8} (h : Block value) :
    cJSONParse fp junk value ≠ .undefined := by
  have hskip := ahead_skip value
  have hlen := hskip.length_le
  exact ((parse_stays fp junk _ (h.ahead hskip)).1 (by omega)).1

end Values

/-- A text that is no JSON: an array that a brace ends, with an escape in its string. -/
theorem cJSONParse_defined_malformed :
    cJSONParse rationals (fun _ => (0, 0)) (bytes "[\"\\u00e9\"\x7d" ++ [0]) ≠ .undefined := by
  have htext : bytes "[\"\\u00e9\"\x7d" ++ [0] =
      [91, 34, 92, 117, 48, 48, 101, 57, 34, 125, 0] := by decide
  refine cJSONParse_defined rationals (fun _ => (0, 0)) ⟨by simp [htext], fun s hs => ?_⟩
  have hs' : s = [92, 117, 48, 48, 101, 57, 34, 125, 0] ∨ s = [125, 0] := by
    simpa [htext, List.suffix_cons_iff] using hs
  rcases hs' with rfl | rfl
  · have hhex : ∀ c ∈ [(48 : UInt8), 48, 101, 57], PlainByte c := by simp [PlainByte]
    exact Escaped.unicode rfl hhex (Escaped.stop (Or.inl rfl) _)
  · exact Escaped.plain (by decide) (Escaped.stop (Or.inr rfl) [])

end EasyIpc
