import EasyIpc.Config
import EasyIpc.Lib.Printf

/-!
# The buffers for the values

`GetKeyValue` copies a value and its terminator to where its caller says, whatever the size of the
buffer there.

* `written_le` — no value needs more than 148 bytes.
* `length_valueText_le_iff` — how long a value is can be seen in its first bytes.
* `values_fit` — when every caller gets what its buffer can hold.
-/

namespace EasyIpc

open Stdio FirstMatch Printf

/-- The bytes that `GetKeyValue` writes to `pOutKeyValue`. -/
def written : ConfigRet → ℕ
  | .success value => value.length + 1
  | .filenameNotexist => 0
  | .sectionnameNotexist => 0
  | .keynameNotexist => 0

/-- The size of `szKeyValue` in `GetConfigIntValue`. -/
def szKeyValueSize : ℕ := 16

/-- The size of `save_path`. -/
def IPC_LOG_SAVE_PATH_MAX_LENS : ℕ := 256

/-- A key that is read, and the size of the buffer it is read to. -/
structure ConfigRead where
  sec : CStr
  key : CStr
  size : ℕ

/-- The section with the settings. -/
def configSection : CStr := bytes "Config"

/-- The keys that are read as integers. -/
def intKeys : List CStr := [bytes "packet_max_size", bytes "ipc_syslog_enable"]

/-- What the daemon, the library and the console read. -/
def configReads : List ConfigRead :=
  intKeys.map (fun key => ⟨configSection, key, szKeyValueSize⟩) ++
    [⟨configSection, bytes "ipc_log_save_path", IPC_LOG_SAVE_PATH_MAX_LENS⟩]

/-- A value ends here: the end of the string or of the line, or a comment. -/
def ValueEnds (s : CStr) : Prop :=
  s = [] ∨ s.head? = some 13 ∨ s.head? = some 10 ∨ [47, 47] <+: s

/-- A value ends within the first `n` bytes. -/
def EndsWithin (n : ℕ) (s : CStr) : Prop := ∃ k ≤ n, ValueEnds (s.drop k)

variable {n : ℕ} {s key sec line value : CStr} {file : List UInt8}

theorem valueText_eq_nil_iff (s : CStr) : valueText s = [] ↔ ValueEnds s := by
  cases s with
  | nil => simp [valueText, ValueEnds]
  | cons c s =>
    have hslashes : [47, 47] <+: c :: s ↔ c = 47 ∧ s.head? = some 47 := by
      cases s with
      | nil => simp
      | cons c' s => simp [eq_comm]
    rw [ValueEnds, hslashes, valueText]
    by_cases hline : c = 13 ∨ c = 10
    · simp [hline]
      tauto
    · by_cases hcomment : c = 47 ∧ s.head? = some 47
      · simp [hcomment]
      · rw [if_neg hline, if_neg hcomment]
        simp
        tauto

theorem valueText_cons {c : UInt8} (h : ¬ ValueEnds (c :: s)) :
    valueText (c :: s) = c :: valueText s := by
  rw [← valueText_eq_nil_iff] at h
  rw [valueText] at h ⊢
  split_ifs at h ⊢ <;> first | rfl | exact absurd rfl h

/-- **The length of a value can be seen in its first bytes.** -/
theorem length_valueText_le_iff (n : ℕ) (s : CStr) :
    (valueText s).length ≤ n ↔ EndsWithin n s := by
  induction n generalizing s with
  | zero =>
    rw [Nat.le_zero, List.length_eq_zero_iff, valueText_eq_nil_iff]
    simp [EndsWithin]
  | succ n ih =>
    by_cases hends : ValueEnds s
    · rw [(valueText_eq_nil_iff s).2 hends]
      exact iff_of_true (Nat.zero_le _) ⟨0, Nat.zero_le _, hends⟩
    · cases s with
      | nil => exact absurd (Or.inl rfl) hends
      | cons c s =>
        rw [valueText_cons hends, List.length_cons, Nat.add_le_add_iff_right, ih]
        refine ⟨fun ⟨k, hk, h⟩ => ⟨k + 1, Nat.succ_le_succ hk, h⟩, ?_⟩
        rintro ⟨k, hk, h⟩
        cases k with
        | zero => exact absurd h hends
        | succ k => exact ⟨k, Nat.le_of_succ_le_succ hk, h⟩

theorem length_valueText_le (s : CStr) : (valueText s).length ≤ s.length := by
  rw [length_valueText_le_iff]
  exact ⟨s.length, le_rfl, Or.inl (List.drop_length ..)⟩

/-! ## What is written -/

/-- A line that sets a key is an entry and fits the buffer it was read to. -/
theorem length_of_sets (h : Sets file sec key line) :
    line.length < szBufferSize ∧ ∃ value, classify line = .entry key value := by
  obtain ⟨before, header, rest, hfile, -, -, body, l, after, hrest, -, rfl, hentry⟩ := h
  refine ⟨?_, hentry⟩
  have hmem : l ∈ (chunks szBufferSize file).map cstr := by
    rw [hfile, hrest]
    simp
  obtain ⟨chunk, hchunk, rfl⟩ := List.mem_map.1 hmem
  have hlen := length_of_mem_chunks (by decide) hchunk
  have hcstr : (cstr chunk).length ≤ chunk.length := (List.takeWhile_prefix _).length_le
  omega

/-- Only a value is written. -/
theorem written_le_of_success {ret : ConfigRet}
    (h : ∀ value, ret = .success value → value.length + 1 ≤ n) : written ret ≤ n := by
  cases ret with
  | success value => exact h value rfl
  | filenameNotexist => exact Nat.zero_le _
  | sectionnameNotexist => exact Nat.zero_le _
  | keynameNotexist => exact Nat.zero_le _

/-- **No value needs more than 148 bytes**, whatever the file and the key. -/
theorem written_le (file : Option (List UInt8)) (sec key : CStr) :
    written (getConfigStringValue file sec key) ≤ 148 := by
  cases file with
  | none => exact Nat.zero_le _
  | some file =>
    refine written_le_of_success fun value hret => ?_
    obtain ⟨line, hsets, rfl⟩ := (getConfigStringValue_eq_success_iff ..).1 hret
    obtain ⟨hlen, v, hentry⟩ := length_of_sets hsets
    have htext := (entry_value hentry).2
    have hvalue := length_valueText_le (entryText line)
    have hsize : szBufferSize = 150 := rfl
    omega

/-- A value fits a buffer exactly if it ends early enough in the line that sets it. -/
theorem written_le_iff (file : Option (List UInt8)) (sec key : CStr) (n : ℕ) :
    written (getConfigStringValue file sec key) ≤ n + 1 ↔
      ∀ contents ∈ file, ∀ line, Sets contents sec key line → EndsWithin n (entryText line) := by
  cases file with
  | none => simp [getConfigStringValue, written]
  | some file =>
    simp only [Option.mem_some_iff, forall_eq', ← length_valueText_le_iff]
    refine ⟨fun h line hsets => ?_, fun h => ?_⟩
    · rw [(getConfigStringValue_eq_success_iff ..).2 ⟨line, hsets, rfl⟩] at h
      exact Nat.le_of_succ_le_succ h
    · refine written_le_of_success fun value hret => ?_
      obtain ⟨line, hsets, rfl⟩ := (getConfigStringValue_eq_success_iff ..).1 hret
      exact Nat.succ_le_succ (h line hsets)

/-- **Every value fits the buffer it is read to, exactly if the two integers are written in at most
15 bytes.** -/
theorem values_fit (file : Option (List UInt8)) :
    (∀ r ∈ configReads, written (getConfigStringValue file r.sec r.key) ≤ r.size) ↔
      ∀ key ∈ intKeys, ∀ contents ∈ file, ∀ line, Sets contents configSection key line →
        EndsWithin 15 (entryText line) := by
  have hpath : written (getConfigStringValue file configSection (bytes "ipc_log_save_path")) ≤
      IPC_LOG_SAVE_PATH_MAX_LENS :=
    (written_le ..).trans (by decide)
  simp only [← written_le_iff]
  rw [configReads, List.forall_mem_append, List.forall_mem_map, List.forall_mem_singleton]
  exact and_iff_left hpath

theorem value_overflows : ∃ r ∈ configReads, r.size <
    written (getConfigStringValue (some (bytes "[Config]\npacket_max_size=4096            // bytes"))
      r.sec r.key) := by
  refine ⟨⟨configSection, bytes "packet_max_size", szKeyValueSize⟩, ?_, by decide +kernel⟩
  exact List.mem_append_left _ (List.mem_cons_self ..)

end EasyIpc
