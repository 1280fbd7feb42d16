import EasyIpc.ConfigValues
import EasyIpc.Lib.Numerals

/-!
# Integer settings

`GetConfigIntValue`, and the settings that the daemon, the library and the console read with it at
their start.  The result code is that of the search for the text; whether the text is a number is
left to `sscanf`, which nobody asks.

* `numeral` — the integer that a value text begins with.
* `settings_honest` — when the result code and the integer are right.
* `readConfig_eq` — the settings are then those of the file, or the defaults.
-/

namespace EasyIpc

open Stdio FirstMatch Printf Numerals

/-! ## The code -/

/-- `SUCCESS`. -/
def retSuccess : ℕ := 0

/-- The number of a result code. -/
def ConfigRet.code : ConfigRet → ℕ
  | .success _ => retSuccess
  | .filenameNotexist => 2
  | .sectionnameNotexist => 3
  | .keynameNotexist => 4

/-- `GetConfigStringValue` with a buffer of `size` bytes; `none` if it writes behind its end. -/
def stringValueInto (size : ℕ) (pInFileName : Option (List UInt8))
    (pInSectionName pInKeyName : CStr) : Option ConfigRet :=
  let ret := getConfigStringValue pInFileName pInSectionName pInKeyName
  if written ret ≤ size then some ret else none

/-- The two calls of `sscanf` in `GetConfigIntValue`. -/
def sscanfInt (pStr : CStr) (pOutKeyValue : ℤ) : ℤ :=
  if hexPrefixed pStr then sscanfX (pStr.drop 2) pOutKeyValue else sscanfD pStr pOutKeyValue

/-- `GetConfigIntValue`: the result code, and `*pOutKeyValue` before and after. -/
def getConfigIntValue (pInFileName : Option (List UInt8)) (pInSectionName pInKeyName : CStr)
    (pOutKeyValue : ℤ) : Option (ℕ × ℤ) :=
  match stringValueInto szKeyValueSize pInFileName pInSectionName pInKeyName with
  | none => none
  | some (.success szKeyValue) =>
      some (retSuccess, sscanfInt (szKeyValue.dropWhile isBlank) pOutKeyValue)
  | some iRetCode => some (iRetCode.code, pOutKeyValue)

/-- The configuration of a process. -/
structure EasyipcConfig where
  ipc_msg_packet_max_size : ℤ
  ipc_log_save_path : CStr
  ipc_syslog_enable : ℤ
  deriving DecidableEq, Repr

/-- The configuration without a file. -/
def defaultConfig : EasyipcConfig := ⟨4096, bytes "/tmp/easyipc.log", 0⟩

/-- The reading of the configuration at the start of a process; `value` is not initialised. -/
def readConfig (file : Option (List UInt8)) (value : ℤ) : Option EasyipcConfig := do
  let (ret, value) ← getConfigIntValue file configSection (bytes "packet_max_size") value
  let packetMaxSize := if ret = retSuccess then value else defaultConfig.ipc_msg_packet_max_size
  let (ret, value) ← getConfigIntValue file configSection (bytes "ipc_syslog_enable") value
  let syslogEnable := if ret = retSuccess then value else defaultConfig.ipc_syslog_enable
  let ret ← stringValueInto IPC_LOG_SAVE_PATH_MAX_LENS file configSection (bytes "ipc_log_save_path")
  let savePath := match ret with
    | .success savePath => savePath.take (IPC_LOG_SAVE_PATH_MAX_LENS - 1)
    | _ => defaultConfig.ipc_log_save_path
  return ⟨packetMaxSize, savePath, syslogEnable⟩

/-! ## What is asked of it -/

/-- The integer at the start of a value text, behind blanks: `0x` or `0X` and at least one digit of
base 16, or a sign or none and at least one decimal digit. -/
def numeral (text : CStr) : Option ℤ :=
  let s := text.dropWhile isBlank
  let ds := (s.drop 2).takeWhile (isDigit 16)
  if hexPrefixed s ∧ ds ≠ [] then some (digitsValue 16 ds) else scanSigned 10 s

/-- The value text of a key. -/
def setting (file : Option (List UInt8)) (sec key : CStr) : Option CStr :=
  match getConfigStringValue file sec key with
  | .success value => some value
  | .filenameNotexist => none
  | .sectionnameNotexist => none
  | .keynameNotexist => none

/-- `GetConfigIntValue` says whether the key has an integer, gives it if it fits an `int`, and
otherwise changes nothing. -/
def HonestRead (file : Option (List UInt8)) (sec key : CStr) : Prop :=
  ∀ out, ∃ ret out', getConfigIntValue file sec key out = some (ret, out') ∧
    match (setting file sec key).bind numeral with
    | some n => ret = retSuccess ∧ (IsInt n → out' = n)
    | none => ret ≠ retSuccess ∧ out' = out

/-- At least one digit of base 16, which is not the 0 of another `0x`. -/
def PlainHex (t : CStr) : Prop := (∃ c ∈ t.head?, isDigit 16 c = true) ∧ hexPrefixed t = false

/-- `%x` finds a number all the same, behind a blank, a sign or another `0x`, and it is stored as
the 0 that stands before the `x`. -/
def ReadsAsZero (t : CStr) : Prop := ∃ v, scanHex (t.dropWhile isSpace) = some v ∧ toInt32 v = 0

/-- A value that is read for what it is. -/
structure WellFormedInt (value : CStr) : Prop where
  short : value.length ≤ 15
  decimal : hexPrefixed value = false → (scanSigned 10 value).isSome
  hex : hexPrefixed value = true → PlainHex (value.drop 2) ∨ ReadsAsZero (value.drop 2)

/-! ## What `sscanf` makes of a value -/

variable {c : UInt8} {s t value sec key : CStr} {n : ℤ} {file : Option (List UInt8)}

theorem digitVal_of_isSpace (h : isSpace c = true) : digitVal c = none := by
  have hlt : c.toNat ≤ 32 := by
    simp only [isSpace, Bool.or_eq_true, beq_iff_eq, Bool.and_eq_true, decide_eq_true_eq,
      UInt8.le_iff_toNat_le] at h
    rcases h with rfl | h
    · decide
    · exact h.2.trans (by decide)
  have hno : ∀ lo hi : UInt8, 32 < lo.toNat → ¬ (lo ≤ c ∧ c ≤ hi) := by
    rintro lo hi hlo ⟨hle, -⟩
    rw [UInt8.le_iff_toNat_le] at hle
    omega
  rw [digitVal, if_neg (hno _ _ (by decide)), if_neg (hno _ _ (by decide)),
    if_neg (hno _ _ (by decide))]

theorem not_isSpace_of_isDigit {base : ℕ} (h : isDigit base c = true) : isSpace c = false := by
  by_contra hspace
  rw [isDigit, digitVal_of_isSpace (by simpa using hspace)] at h
  cases h

theorem not_sign_of_isDigit {base : ℕ} (h : isDigit base c = true) : c ≠ 45 ∧ c ≠ 43 := by
  refine ⟨?_, ?_⟩
  · rintro rfl
    cases h
  · rintro rfl
    cases h

/-- A decimal integer does not begin with white space. -/
theorem dropWhile_isSpace_of_scanSigned {base : ℕ} (h : (scanSigned base s).isSome) :
    s.dropWhile isSpace = s := by
  cases s with
  | nil => rfl
  | cons c s =>
    refine List.dropWhile_cons_of_neg fun hspace => ?_
    have hsign : dropSign (c :: s) = c :: s := by
      refine if_neg ?_
      rintro (hc | hc) <;> obtain rfl := Option.some.inj hc <;> cases hspace
    have hnone : ((c :: s).takeWhile (isDigit base)) = [] := by
      refine List.takeWhile_cons_of_neg fun hdigit => ?_
      rw [not_isSpace_of_isDigit hdigit] at hspace
      cases hspace
    rw [scanSigned, hsign, hnone] at h
    cases h

/-- Plain digits behind `0x` are read as they are. -/
theorem scanHex_of_plain (h : PlainHex t) : t.takeWhile (isDigit 16) ≠ [] ∧
    scanHex (t.dropWhile isSpace) = some (digitsValue 16 (t.takeWhile (isDigit 16)) : ℤ) := by
  obtain ⟨⟨c, hc, hdigit⟩, hplain⟩ := h
  cases t with
  | nil => cases hc
  | cons x t =>
    obtain rfl : x = c := Option.some.inj hc
    obtain ⟨hminus, hplus⟩ := not_sign_of_isDigit hdigit
    have hne : (x :: t).takeWhile (isDigit 16) ≠ [] := by
      rw [List.takeWhile_cons_of_pos hdigit]
      exact List.cons_ne_nil _ _
    have hspace : (x :: t).dropWhile isSpace = x :: t :=
      List.dropWhile_cons_of_neg (by rw [not_isSpace_of_isDigit hdigit]; decide)
    have hsign : dropSign (x :: t) = x :: t := if_neg (by simp [hminus, hplus])
    have happly : applySign (x :: t) (digitsValue 16 ((x :: t).takeWhile (isDigit 16))) =
        digitsValue 16 ((x :: t).takeWhile (isDigit 16)) := if_neg (by simp [hminus])
    refine ⟨hne, ?_⟩
    rw [hspace, scanHex]
    simp only [hsign, hplain, Bool.false_eq_true, if_false, if_neg hne, happly]

theorem hexPrefixed_iff (s : CStr) :
    hexPrefixed s = true ↔ ∃ x t, s = 48 :: x :: t ∧ (x = 120 ∨ x = 88) := by
  unfold hexPrefixed
  cases s with
  | nil => simp
  | cons c s =>
    cases s with
    | nil => simp
    | cons x t => simp [and_comm]

/-- Without plain digits behind it, the 0 before the `x` is the integer. -/
theorem numeral_of_not_plain {x : UInt8} (hx : x = 120 ∨ x = 88) (h : ¬ PlainHex t)
    (hvalue : value.dropWhile isBlank = 48 :: x :: t) : numeral value = some 0 := by
  have hxdigit : ∀ base ≤ 16, isDigit base x = false := by
    intro base _
    rcases hx with rfl | rfl <;> rfl
  have hzero : scanSigned 10 (48 :: x :: t) = some 0 := by
    have hds : (48 :: x :: t).takeWhile (isDigit 10) = [48] := by
      rw [List.takeWhile_cons_of_pos (by decide), List.takeWhile_cons_of_neg]
      rw [hxdigit 10 (by decide)]
      decide
    rw [scanSigned, show dropSign (48 :: x :: t) = 48 :: x :: t from rfl, hds]
    rfl
  unfold numeral
  simp only [hvalue, hzero, List.drop_succ_cons, List.drop_zero]
  split_ifs with hif
  · -- the digit is the 0 of another `0x`
    have hprefixed : hexPrefixed t = true := by
      by_contra hno
      refine h ⟨?_, by simpa using hno⟩
      cases t with
      | nil => exact absurd rfl hif.2
      | cons c t =>
        by_contra hdigit
        refine hif.2 (List.takeWhile_cons_of_neg fun hc => hdigit ⟨c, rfl, hc⟩)
    obtain ⟨x', t', rfl, hx'⟩ := (hexPrefixed_iff t).1 hprefixed
    have hds : (48 :: x' :: t').takeWhile (isDigit 16) = [48] := by
      rw [List.takeWhile_cons_of_pos (by decide), List.takeWhile_cons_of_neg]
      rcases hx' with rfl | rfl <;> decide
    rw [hds]
    rfl
  · rfl

/-- A well-formed value is an integer, and it is stored. -/
theorem sscanfInt_of_wellFormed (h : WellFormedInt value) (hblank : value.dropWhile isBlank = value) :
    ∃ n, numeral value = some n ∧ ∀ out, sscanfInt value out = toInt32 n := by
  by_cases hhex : hexPrefixed value = true
  · obtain ⟨x, t, rfl, hx⟩ := (hexPrefixed_iff value).1 hhex
    have hcode : ∀ out, sscanfInt (48 :: x :: t) out = sscanfX t out := fun out => if_pos hhex
    by_cases hplain : PlainHex t
    · obtain ⟨hne, hscan⟩ := scanHex_of_plain hplain
      refine ⟨digitsValue 16 (t.takeWhile (isDigit 16)), ?_, fun out => ?_⟩
      · unfold numeral
        simp only [hblank, hhex, List.drop_succ_cons, List.drop_zero]
        rw [if_pos ⟨trivial, hne⟩]
      · rw [hcode, sscanfX, hscan]
    · obtain ⟨v, hscan, hzero⟩ := (h.hex hhex).resolve_left hplain
      refine ⟨0, numeral_of_not_plain hx hplain hblank, fun out => ?_⟩
      have hscan' : scanHex (t.dropWhile isSpace) = some v := hscan
      rw [hcode, sscanfX, hscan']
      exact hzero
  · rw [Bool.not_eq_true] at hhex
    obtain ⟨n, hn⟩ := Option.isSome_iff_exists.1 (h.decimal hhex)
    refine ⟨n, ?_, fun out => ?_⟩
    · unfold numeral
      simp only [hblank, hhex, Bool.false_eq_true, false_and, if_false, hn]
    · rw [sscanfInt, hhex, if_neg (by decide), sscanfD,
        dropWhile_isSpace_of_scanSigned (h.decimal hhex), hn]

/-- No other value is read for what it is, whatever stands in `*pOutKeyValue` before. -/
theorem wellFormed_of_sscanfInt (hshort : value.length ≤ 15)
    (hblank : value.dropWhile isBlank = value) (hn : numeral value = some n)
    (h : IsInt n → ∀ out, sscanfInt value out = n) : WellFormedInt value := by
  refine ⟨hshort, fun hhex => ?_, fun hhex => ?_⟩
  · unfold numeral at hn
    simp only [hblank, hhex, Bool.false_eq_true, false_and, if_false] at hn
    rw [hn]
    rfl
  · obtain ⟨x, t, rfl, hx⟩ := (hexPrefixed_iff value).1 hhex
    refine or_iff_not_imp_left.2 fun hplain => ?_
    obtain rfl : 0 = n := Option.some.inj ((numeral_of_not_plain hx hplain hblank).symm.trans hn)
    have hcode : ∀ out, sscanfX t out = 0 := by
      intro out
      have hzero := h (by decide) out
      rwa [sscanfInt, if_pos hhex] at hzero
    -- a conversion that fails leaves another value than 0 as it is
    have hone := hcode 1
    unfold sscanfX at hone
    show ReadsAsZero t
    cases hscan : scanHex (t.dropWhile isSpace) with
    | none =>
      rw [hscan] at hone
      cases hone
    | some v =>
      rw [hscan] at hone
      exact ⟨v, hscan, hone⟩

/-! ## The result code -/

theorem setting_eq_some_iff : setting file sec key = some value ↔
    ∃ contents ∈ file, ∃ line, Sets contents sec key line ∧ value = valueText (entryText line) := by
  cases file with
  | none => simp [setting, getConfigStringValue]
  | some file =>
    simp only [Option.mem_some_iff, exists_eq_left', ← getConfigStringValue_eq_success_iff, setting]
    cases getConfigStringValue (some file) sec key <;> simp

/-- The blanks in front of a value have been skipped. -/
theorem dropWhile_isBlank_setting (h : setting file sec key = some value) :
    value.dropWhile isBlank = value := by
  obtain ⟨contents, -, line, -, rfl⟩ := setting_eq_some_iff.1 h
  have hhead : ∀ s : CStr, (∀ c ∈ s.head?, isBlank c = false) →
      (valueText s).dropWhile isBlank = valueText s := by
    intro s hs
    cases s with
    | nil => rfl
    | cons c s =>
      rw [valueText]
      split_ifs
      · rfl
      · rfl
      · exact List.dropWhile_cons_of_neg (by rw [hs c rfl]; decide)
  refine hhead _ fun c hc => ?_
  have hne := List.head?_dropWhile_not isBlank
    ((line.dropWhile isBlank).drop (((line.dropWhile isBlank).takeWhile fun c => c != 61).length + 1))
  have hc' : c ∈ (entryText line).head? := hc
  unfold entryText at hc'
  simp only at hc'
  rw [Option.mem_def.1 hc'] at hne
  simpa using hne

/-- A call for a key that has a value: what `sscanf` makes of it, if it fits. -/
theorem getConfigIntValue_of_some (hset : setting file sec key = some value) (out : ℤ) :
    getConfigIntValue file sec key out =
      if value.length ≤ 15 then some (retSuccess, sscanfInt value out) else none := by
  have hret : getConfigStringValue file sec key = .success value := by
    unfold setting at hset
    cases hret : getConfigStringValue file sec key with
    | success v =>
      rw [hret] at hset
      rw [Option.some.inj hset]
    | filenameNotexist => rw [hret] at hset; cases hset
    | sectionnameNotexist => rw [hret] at hset; cases hset
    | keynameNotexist => rw [hret] at hset; cases hset
  rw [getConfigIntValue, stringValueInto, hret, written]
  by_cases hlen : value.length ≤ 15
  · have hfits : value.length + 1 ≤ szKeyValueSize := Nat.succ_le_succ hlen
    simp only [if_pos hfits, if_pos hlen, dropWhile_isBlank_setting hset]
  · have hover : ¬ value.length + 1 ≤ szKeyValueSize := fun h => hlen (Nat.le_of_succ_le_succ h)
    simp only [if_neg hover, if_neg hlen]

/-- A call for a key without a value is an error, and nothing is stored. -/
theorem getConfigIntValue_of_none (hset : setting file sec key = none) (out : ℤ) :
    ∃ ret, ret ≠ retSuccess ∧ getConfigIntValue file sec key out = some (ret, out) := by
  refine ⟨(getConfigStringValue file sec key).code, ?_, ?_⟩
  · unfold setting at hset
    cases hret : getConfigStringValue file sec key with
    | success value => rw [hret] at hset; cases hset
    | filenameNotexist => decide
    | sectionnameNotexist => decide
    | keynameNotexist => decide
  · unfold setting at hset
    rw [getConfigIntValue, stringValueInto]
    cases hret : getConfigStringValue file sec key with
    | success value => rw [hret] at hset; cases hset
    | filenameNotexist => rfl
    | sectionnameNotexist => rfl
    | keynameNotexist => rfl

/-- A call for a well-formed value. -/
theorem getConfigIntValue_of_wellFormed (hset : setting file sec key = some value)
    (hwell : WellFormedInt value) : ∃ n, numeral value = some n ∧
      ∀ out, getConfigIntValue file sec key out = some (retSuccess, toInt32 n) := by
  obtain ⟨n, hn, hout⟩ := sscanfInt_of_wellFormed hwell (dropWhile_isBlank_setting hset)
  refine ⟨n, hn, fun out => ?_⟩
  rw [getConfigIntValue_of_some hset, if_pos hwell.short, hout]

/-- A call that is right has a value that fits, and an integer in it. -/
theorem HonestRead.reads (h : HonestRead file sec key) (hset : setting file sec key = some value)
    (out : ℤ) :
    value.length ≤ 15 ∧ ∃ n, numeral value = some n ∧ (IsInt n → sscanfInt value out = n) := by
  obtain ⟨ret, out', hresult, hright⟩ := h out
  rw [hset, Option.bind_some] at hright
  rw [getConfigIntValue_of_some hset] at hresult
  split_ifs at hresult with hlen
  obtain ⟨rfl, rfl⟩ := Prod.mk.inj (Option.some.inj hresult)
  refine ⟨hlen, ?_⟩
  cases hn : numeral value with
  | none =>
    rw [hn] at hright
    exact absurd rfl hright.1
  | some n =>
    rw [hn] at hright
    exact ⟨n, rfl, hright.2⟩

/-- **The result code and the integer are right exactly if the value is well formed**, or there is
none. -/
theorem settings_honest (file : Option (List UInt8)) (sec key : CStr) :
    HonestRead file sec key ↔ ∀ contents ∈ file, ∀ line, Sets contents sec key line →
      WellFormedInt (valueText (entryText line)) := by
  refine ⟨fun h contents hfile line hline => ?_, fun h out => ?_⟩
  · have hset := setting_eq_some_iff.2 ⟨contents, hfile, line, hline, rfl⟩
    obtain ⟨hlen, n, hn, -⟩ := h.reads hset 0
    refine wellFormed_of_sscanfInt hlen (dropWhile_isBlank_setting hset) hn fun hint out => ?_
    obtain ⟨-, n', hn', hout⟩ := h.reads hset out
    obtain rfl : n = n' := Option.some.inj (hn.symm.trans hn')
    exact hout hint
  · cases hset : setting file sec key with
    | none =>
      obtain ⟨ret, hret, hcall⟩ := getConfigIntValue_of_none hset out
      exact ⟨ret, out, hcall, hret, rfl⟩
    | some value =>
      obtain ⟨contents, hfile, line, hline, rfl⟩ := setting_eq_some_iff.1 hset
      obtain ⟨n, hn, hcall⟩ := getConfigIntValue_of_wellFormed hset (h contents hfile line hline)
      refine ⟨retSuccess, toInt32 n, hcall out, ?_⟩
      rw [Option.bind_some, hn]
      exact ⟨rfl, toInt32_of_range⟩

/-- A file in which a word stands for a number. -/
def wordSetting : List UInt8 := bytes "[Config]\npacket_max_size=1000\nipc_syslog_enable=abc\n"

/-- The setting takes the number that was read for the one before. -/
theorem setting_carried_over :
    ¬ HonestRead (some wordSetting) configSection (bytes "ipc_syslog_enable") ∧
      (readConfig (some wordSetting) 0).map EasyipcConfig.ipc_syslog_enable = some 1000 := by
  refine ⟨fun h => ?_, by decide +kernel⟩
  obtain ⟨ret, out', hcall, hright⟩ := h 1000
  have hvalue : (setting (some wordSetting) configSection (bytes "ipc_syslog_enable")).bind numeral =
      none := by decide +kernel
  have hret : getConfigIntValue (some wordSetting) configSection (bytes "ipc_syslog_enable") 1000 =
      some (retSuccess, 1000) := by decide +kernel
  rw [hvalue] at hright
  rw [hret] at hcall
  exact hright.1 (Prod.mk.inj (Option.some.inj hcall)).1.symm

/-! ## The settings of a process -/

/-- The integer setting of a file, with its default. -/
def intSetting (file : Option (List UInt8)) (key : CStr) (default : ℤ) : ℤ :=
  (((setting file configSection key).bind numeral).map toInt32).getD default

/-- A setting is what the file says, or stays what it was. -/
theorem getConfigIntValue_setting (key : CStr)
    (h : ∀ value, setting file configSection key = some value → WellFormedInt value) (default : ℤ)
    (out : ℤ) : ∃ ret out', getConfigIntValue file configSection key out = some (ret, out') ∧
      (if ret = retSuccess then out' else default) = intSetting file key default := by
  cases hset : setting file configSection key with
  | none =>
    obtain ⟨ret, hret, hcall⟩ := getConfigIntValue_of_none hset out
    refine ⟨ret, out, hcall, ?_⟩
    rw [if_neg hret, intSetting, hset]
    rfl
  | some value =>
    obtain ⟨n, hn, hcall⟩ := getConfigIntValue_of_wellFormed hset (h value hset)
    refine ⟨retSuccess, toInt32 n, hcall out, ?_⟩
    rw [if_pos rfl, intSetting, hset, Option.bind_some, hn]
    rfl

/-- The path that a process has read fits its buffer and is kept whole. -/
theorem stringValueInto_path (file : Option (List UInt8)) (key : CStr) :
    ∃ ret, stringValueInto IPC_LOG_SAVE_PATH_MAX_LENS file configSection key = some ret ∧
      (match ret with
        | .success savePath => savePath.take (IPC_LOG_SAVE_PATH_MAX_LENS - 1)
        | _ => defaultConfig.ipc_log_save_path) =
      (setting file configSection key).getD defaultConfig.ipc_log_save_path := by
  have hsize : IPC_LOG_SAVE_PATH_MAX_LENS = 256 := rfl
  have hwritten := written_le file configSection key
  refine ⟨_, if_pos (by omega), ?_⟩
  unfold setting
  cases hret : getConfigStringValue file configSection key with
  | success value =>
    rw [hret, written] at hwritten
    exact List.take_of_length_le (by omega)
  | filenameNotexist => rfl
  | sectionnameNotexist => rfl
  | keynameNotexist => rfl

/-- **The settings of a process are those of the file**, with the defaults where it has none, if the
integers are well formed; what stands in `value` makes no difference. -/
theorem readConfig_eq (h : ∀ key ∈ intKeys, ∀ value, setting file configSection key = some value →
    WellFormedInt value) (value : ℤ) :
    readConfig file value = some
      ⟨intSetting file (bytes "packet_max_size") defaultConfig.ipc_msg_packet_max_size,
        (setting file configSection (bytes "ipc_log_save_path")).getD
          defaultConfig.ipc_log_save_path,
        intSetting file (bytes "ipc_syslog_enable") defaultConfig.ipc_syslog_enable⟩ := by
  have hpacket := h (bytes "packet_max_size") (List.mem_cons_self ..)
  have hsyslog := h (bytes "ipc_syslog_enable") (by decide)
  obtain ⟨ret, out, hcall, hsize⟩ := getConfigIntValue_setting (bytes "packet_max_size") hpacket
    defaultConfig.ipc_msg_packet_max_size value
  obtain ⟨ret', out', hcall', henable⟩ := getConfigIntValue_setting (bytes "ipc_syslog_enable")
    hsyslog defaultConfig.ipc_syslog_enable out
  obtain ⟨path, hpath, hkept⟩ := stringValueInto_path file (bytes "ipc_log_save_path")
  simp only [readConfig, hcall, hcall', hpath, Option.bind_eq_bind, Option.bind_some, hsize, henable,
    hkept]
  rfl

example : readConfig (some (bytes "[Config]\npacket_max_size = 0x2000 // 8 KB\n")) 7 =
    some ⟨8192, bytes "/tmp/easyipc.log", 0⟩ := by decide +kernel

end EasyIpc
